import IsoMedia.Journal

/-!
# Results of checked computations

The notes that a checked computation takes have no bearing on its result.  The lemmas here compute
the result of a computation from those of its parts (`Checked.result_bind`); `bind_eq_ok_iff` takes
a result apart.  What is kept by every step of a fold is kept by the fold
(`Checked.Ensures.foldlM`).
-/

namespace IsoMedia

theorem bind_eq_ok_iff {ε α β : Type} {x : Except ε α} {f : α → Except ε β} {b : β} :
    x >>= f = .ok b ↔ ∃ a, x = .ok a ∧ f a = .ok b := by
  cases x with
  | error e => simp [bind, Except.bind]
  | ok a => simp [bind, Except.bind]

theorem mapError_eq_ok_iff {ε ε' α : Type} {x : Except ε α} {f : ε → ε'} {a : α} :
    x.mapError f = .ok a ↔ x = .ok a := by
  cases x with
  | error e => exact ⟨nofun, nofun⟩
  | ok b =>
    constructor
    · rintro ⟨⟩
      rfl
    · rintro ⟨⟩
      rfl

theorem map_ne_error {ε α β : Type} {x : Except ε α} {e : ε} (h : x ≠ .error e) (f : α → β) :
    x.map f ≠ .error e := by
  cases x with
  | error e' =>
    rintro ⟨⟩
    exact h rfl
  | ok a => exact nofun

namespace Checked

variable {α β : Type}

@[simp] theorem result_pure (a : α) : (pure a : Checked α).result = .ok a := rfl

@[simp] theorem result_ofExcept (r : Except Error α) : (ofExcept r).result = r := rfl

@[simp] theorem result_say (level : Level) (speaker : Speaker) (text : String) :
    (say level speaker text).result = .ok () := rfl

@[simp] theorem result_lift (x : Noted α) :
    result (ExceptT.lift x) = .ok x.value := rfl

@[simp] theorem result_bind (x : Checked α) (f : α → Checked β) :
    (x >>= f).result = x.result >>= fun a => (f a).result := by
  show Noted.value (x.run >>= ExceptT.bindCont f) = _
  rw [Noted.value_bind]
  unfold result
  cases x.run.value <;> rfl

/-- The result, if there is one, has the property. -/
def Ensures (x : Checked α) (P : α → Prop) : Prop := ∀ a, x.result = .ok a → P a

namespace Ensures

variable {P : α → Prop} {Q : β → Prop}

protected theorem pure {a : α} (h : P a) : Ensures (pure a) P := by
  rintro _ ⟨⟩
  exact h

theorem throw (e : Error) : Ensures (throw e : Checked α) P := nofun

protected theorem bind {x : Checked α} {f : α → Checked β} (h : Ensures x P)
    (hf : ∀ a, P a → Ensures (f a) Q) : Ensures (x >>= f) Q := by
  intro b hb
  rw [result_bind] at hb
  obtain ⟨a, ha, hb⟩ := bind_eq_ok_iff.1 hb
  exact hf a (h a ha) b hb

/-- Whatever comes first does not matter. -/
theorem after (x : Checked α) {f : α → Checked β} (hf : ∀ a, Ensures (f a) Q) :
    Ensures (x >>= f) Q :=
  Ensures.bind (P := fun _ => True) (fun _ _ => trivial) fun a _ => hf a

theorem ite {c : Prop} [Decidable c] {x x' : Checked α} (h : Ensures x P) (h' : Ensures x' P) :
    Ensures (if c then x else x') P := by
  split
  · exact h
  · exact h'

/-- A property that every step keeps. -/
theorem foldlM {step : α → β → Checked α} (h : ∀ a b, P a → Ensures (step a b) P) (bs : List β)
    {a : α} (ha : P a) : Ensures (bs.foldlM step a) P := by
  induction bs generalizing a with
  | nil => exact .pure ha
  | cons b bs ih =>
    rw [List.foldlM_cons]
    exact (h a b ha).bind fun a' ha' => ih ha'

end Ensures

end Checked

end IsoMedia

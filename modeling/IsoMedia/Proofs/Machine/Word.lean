import IsoMedia.Machine
import IsoMedia.Proofs.Journal
import Mathlib.Algebra.Ring.Nat

/-!
# Steps of a machine

Besides sums a machine computes differences, quotients and shifted words, and looks into runs whose
places are words.  Here every step is checked: a sum that is no word, a difference below zero, a place
where nothing is and a nesting that is too deep for the stack all halt the machine.  Computations that
never halt come to `Machine.of` their results.

The laws here say when a step does not halt; each is used where the guard before the step is known.
-/

namespace IsoMedia

namespace Machine

variable {α β : Type}

/-- The outcome of a computation instead of its failure; a machine that halts stays halted. -/
def attempt (m : Machine α) : Machine (Except Error α) := ExceptT.lift m.run

/-! ### Words -/

def sub (a b : Nat) : Machine Nat :=
  if b ≤ a then return a - b else halt .underflow

/-- A number with zero bits put behind it, none of which may push a bit out of the word. -/
def shiftLeft (width a n : Nat) : Machine Nat :=
  if width ≤ n then halt .shiftTooFar
  else if a * 2 ^ n < 2 ^ width then return a * 2 ^ n
  else halt .overflow

/-- A number without its last bits. -/
def shiftRight (width a n : Nat) : Machine Nat :=
  if width ≤ n then halt .shiftTooFar else return a / 2 ^ n

def div (a b : Nat) : Machine Nat :=
  if b = 0 then halt .divisionByZero else return a / b

/-- A quotient, rounded up. -/
def divCeil (a b : Nat) : Machine Nat := do
  let quotient ← div a b
  if a % b = 0 then return quotient else add 64 quotient 1

/-! ### Runs -/

/-- The member of a run at a place. -/
def item (l : List α) (place : Nat) : Machine α :=
  match l[place]? with
  | some a => return a
  | none => halt .outOfRange

/-- The members of a run from one place up to another. -/
def slice (l : List α) (first stop : Nat) : Machine (List α) :=
  if first ≤ stop ∧ stop ≤ l.length then return (l.take stop).drop first else halt .outOfRange

/-! ### Steps that do not halt -/

theorem of_ok (a : α) : of (.ok a) = pure a := rfl

theorem of_bind (r : Except Error α) (f : α → Except Error β) :
    of (r >>= f) = of r >>= fun a => of (f a) := by
  cases r <;> rfl

theorem of_map (f : α → β) (r : Except Error α) : of (r.map f) = f <$> of r := by
  cases r <;> rfl

theorem attempt_of (r : Except Error α) : attempt (of r) = pure r := rfl

variable {width a b n : Nat}

theorem add_eq (h : a + b < 2 ^ width) : add width a b = pure (a + b) :=
  if_pos (Nat.one_shiftLeft width ▸ h)

theorem add_eq_halt (h : 2 ^ width ≤ a + b) : add width a b = halt .overflow :=
  if_neg (Nat.not_lt.2 (Nat.one_shiftLeft width ▸ h))

theorem add_eq_pure_iff {c : Nat} : add width a b = pure c ↔ a + b < 2 ^ width ∧ a + b = c := by
  rcases Nat.lt_or_ge (a + b) (2 ^ width) with h | h
  · rw [add_eq h]
    refine ⟨fun hc => ⟨h, ?_⟩, fun hc => congrArg pure hc.2⟩
    cases hc
    rfl
  · rw [add_eq_halt h]
    exact ⟨nofun, fun hc => absurd hc.1 (Nat.not_lt.2 h)⟩

theorem sub_eq (h : b ≤ a) : sub a b = pure (a - b) := if_pos h

theorem shiftLeft_eq (hn : n < width) (h : a * 2 ^ n < 2 ^ width) :
    shiftLeft width a n = pure (a * 2 ^ n) := by
  rw [shiftLeft, if_neg (Nat.not_le.2 hn), if_pos h]

theorem shiftRight_eq (h : n < width) : shiftRight width a n = pure (a / 2 ^ n) :=
  if_neg (Nat.not_le.2 h)

theorem div_eq (h : 0 < b) : div a b = pure (a / b) := if_neg (Nat.ne_of_gt h)

theorem divCeil_two (h : a < 2 ^ 64) : divCeil a 2 = pure ((a + 1) / 2) := by
  rw [divCeil, div_eq (by decide), pure_bind]
  split
  · congr 1
    omega
  · rw [add_eq (by omega)]
    congr 1
    omega

theorem item_eq {l : List α} {place : Nat} {a : α} (h : l[place]? = some a) :
    item l place = pure a := by
  rw [item, h]

theorem slice_eq {l : List α} {first stop : Nat} (h : first ≤ stop) (hstop : stop ≤ l.length) :
    slice l first stop = pure ((l.take stop).drop first) := if_pos ⟨h, hstop⟩

theorem slice_eq_pure {l part : List α} {first stop : Nat} (h : slice l first stop = pure part) :
    first ≤ stop ∧ stop ≤ l.length := by
  unfold slice at h
  split at h
  · assumption
  · cases h

/-- All of a run from a place on. -/
theorem slice_to_end {l : List α} {first : Nat} (h : first ≤ l.length) :
    slice l first l.length = pure (l.drop first) := by
  rw [slice_eq h (Nat.le_refl _), List.take_length]

/-- All of a run up to a place. -/
theorem slice_from_start {l : List α} {stop : Nat} (h : stop ≤ l.length) :
    slice l 0 stop = pure (l.take stop) := by
  rw [slice_eq (Nat.zero_le _) h, List.drop_zero]

theorem slice_all {l : List α} {stop : Nat} (h : l.length = stop) : slice l 0 stop = pure l := by
  rw [slice_from_start (Nat.le_of_eq h.symm), List.take_of_length_le (Nat.le_of_eq h)]

theorem mapM_eq {f : α → Machine β} {g : α → β} {l : List α} (h : ∀ a ∈ l, f a = pure (g a)) :
    l.mapM f = pure (l.map g) := by
  induction l with
  | nil => rfl
  | cons a l ih =>
    rw [List.forall_mem_cons] at h
    rw [List.mapM_cons, h.1, pure_bind, ih h.2, pure_bind, List.map_cons]

/-- The members of a run, one index after the other. -/
theorem mapM_item (l : List α) : (List.range l.length).mapM (item l) = pure l := by
  induction l with
  | nil => rfl
  | cons a l ih =>
    have hhead : item (a :: l) 0 = pure a := rfl
    have htail : item (a :: l) ∘ Nat.succ = item l := rfl
    rw [List.length_cons, List.range_succ_eq_map, List.mapM_cons, hhead, pure_bind, List.mapM_map,
      htail, ih, pure_bind]

/-! ### Results that are come to -/

theorem bind_eq_pure_iff {m : Machine α} {f : α → Machine β} {b : β} :
    m >>= f = pure b ↔ ∃ a, m = pure a ∧ f a = pure b := by
  rcases m with fault | e | a
  · exact ⟨nofun, fun ⟨_, h, _⟩ => nomatch h⟩
  · exact ⟨nofun, fun ⟨_, h, _⟩ => nomatch h⟩
  · refine ⟨fun h => ⟨a, rfl, h⟩, fun ⟨a', h, hf⟩ => ?_⟩
    cases h
    exact hf

/-- What comes second only has to agree on what the first computation comes to. -/
theorem bind_congr_of_pure {m : Machine α} {f g : α → Machine β}
    (h : ∀ a, m = pure a → f a = g a) : m >>= f = m >>= g := by
  rcases m with fault | e | a
  · rfl
  · rfl
  · exact h a rfl

/-- A result that the machine comes to has the property. -/
def Returns (m : Machine α) (P : α → Prop) : Prop := ∀ a, m = pure a → P a

namespace Returns

variable {m : Machine α} {P : α → Prop} {Q : β → Prop} {k : α → Machine β}

protected theorem pure {a : α} (h : P a) : Returns (pure a) P := by
  rintro _ ⟨⟩
  exact h

protected theorem throw (e : Error) : Returns (throw e) P := nofun

protected theorem halt (fault : Fault) : Returns (halt fault) P := nofun

theorem bind (h : Returns m P) (hk : ∀ a, P a → Returns (k a) Q) : Returns (m >>= k) Q := by
  intro b hb
  obtain ⟨a, ha, hb⟩ := bind_eq_pure_iff.1 hb
  exact hk a (h a ha) b hb

/-- A step of which nothing has to be known. -/
theorem step (hk : ∀ a, m = Pure.pure a → Returns (k a) Q) : Returns (m >>= k) Q :=
  bind (P := fun a => m = Pure.pure a) (fun _ ha => ha) hk

end Returns

/-! ### Computing what a checked computation comes to -/

/-- The machine does not halt, and comes to the result of `x`. -/
def Computes (m : Machine α) (x : Checked α) : Prop := m = of x.result

namespace Computes

protected theorem pure (a : α) : Computes (pure a) (pure a) := rfl

protected theorem throw (e : Error) : Computes (throw e : Machine α) (throw e) := rfl

theorem ofExcept {m : Machine α} {r : Except Error α} (h : m = of r) :
    Computes m (Checked.ofExcept r) := h

theorem bind_of {m : Machine α} {x : Checked α} {k : α → Machine β} {f : α → Checked β}
    (h : Computes m x) (hk : ∀ a, x.result = .ok a → Computes (k a) (f a)) :
    Computes (m >>= k) (x >>= f) := by
  unfold Computes at *
  rw [Checked.result_bind, h]
  cases hx : x.result with
  | error e => rfl
  | ok a => exact hk a hx

theorem bind {m : Machine α} {x : Checked α} {k : α → Machine β} {f : α → Checked β}
    (h : Computes m x) (hk : ∀ a, Computes (k a) (f a)) : Computes (m >>= k) (x >>= f) :=
  h.bind_of fun a _ => hk a

/-- A note is not computed. -/
theorem say {k : Machine β} {f : Unit → Checked β} (h : Computes k (f ()))
    (level : Level) (speaker : Speaker) (text : String) :
    Computes k (Checked.say level speaker text >>= f) := by
  unfold Computes at *
  rw [Checked.result_bind, h]
  rfl

theorem ite {c : Prop} [Decidable c] {m m' : Machine α} {x x' : Checked α} (h : c → Computes m x)
    (h' : ¬ c → Computes m' x') : Computes (if c then m else m') (if c then x else x') := by
  split
  · exact h ‹_›
  · exact h' ‹_›

/-- A step of the machine that does not halt has no bearing on the result. -/
protected theorem step {m : Machine α} {a : α} {k : α → Machine β} {x : Checked β} (hm : m = pure a)
    (h : Computes (k a) x) : Computes (m >>= k) x := by
  rw [hm]
  exact h

theorem foldlM {g : β → α → Machine β} {f : β → α → Checked β} {l : List α}
    (h : ∀ a ∈ l, ∀ b, Computes (g b a) (f b a)) (b : β) :
    Computes (l.foldlM g b) (l.foldlM f b) := by
  induction l generalizing b with
  | nil => exact .pure b
  | cons a l ih =>
    rw [List.forall_mem_cons] at h
    exact (h.1 b).bind fun b => ih h.2 b

end Computes

end Machine

namespace Overflow

variable {width a b : Nat}

/-- Builds agree on the sums that are words. -/
theorem add_eq (o : Overflow) (h : a + b < 2 ^ width) : o.add width a b = pure (a + b) := by
  cases o with
  | halts => exact Machine.add_eq h
  | wraps => exact congrArg pure (Nat.mod_eq_of_lt (Nat.one_shiftLeft width ▸ h))

theorem wraps_add (width a b : Nat) : wraps.add width a b = pure ((a + b) % 2 ^ width) :=
  congrArg (fun bound => pure ((a + b) % bound)) (Nat.one_shiftLeft width)

/-- A build comes to the sum cut down to a word, unless it halts. -/
theorem add_eq_pure_iff {o : Overflow} {n : Nat} :
    o.add width a b = pure n ↔ (o = .halts → a + b < 2 ^ width) ∧ (a + b) % 2 ^ width = n := by
  rcases Nat.lt_or_ge (a + b) (2 ^ width) with hword | hword
  · rw [o.add_eq hword, Nat.mod_eq_of_lt hword]
    refine ⟨fun h => ⟨fun _ => hword, ?_⟩, fun h => congrArg pure h.2⟩
    cases h
    rfl
  · cases o with
    | halts =>
      rw [add, Machine.add_eq_halt hword]
      exact ⟨nofun, fun h => absurd (h.1 rfl) (Nat.not_lt.2 hword)⟩
    | wraps =>
      rw [wraps_add]
      refine ⟨fun h => ⟨nofun, ?_⟩, fun h => congrArg pure h.2⟩
      cases h
      rfl

end Overflow

end IsoMedia

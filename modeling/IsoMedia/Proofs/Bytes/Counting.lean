import IsoMedia.Codec.AnnexB
import IsoMedia.Proofs.Machine.Reader

/-!
# Counting the turns of loops

A `Tally` reads fields as a `Decode` does (`Tally.Counts`) and counts the turns that its loops
begin, also where it fails.  `Tally.Ends` says what holds of the value, the turns and the bytes
taken when it succeeds; `Tally.Within` bounds the turns by the bytes that were there, whatever the
outcome.  A loop over rows that take bytes keeps within them (`Tally.Within.rows`), whatever number
of rows is declared.
-/

namespace IsoMedia

variable {α β : Type}

/-- `n` bytes are taken if reading succeeds. -/
def Decode.Takes (p : Decode α) (n : Nat) : Prop :=
  ∀ c a c', p c = .ok (a, c') → c.rest.length = c'.rest.length + n

namespace Decode

theorem takes_pure (a : α) : (pure a : Decode α).Takes 0 := by
  rintro c _ _ ⟨⟩
  rfl

theorem Takes.bind {p : Decode α} {f : α → Decode β} {m n : Nat} (h : p.Takes m)
    (hf : ∀ a, (f a).Takes n) : (p >>= f).Takes (m + n) := by
  intro c b c' hb
  obtain ⟨a, c₁, hp, hb⟩ := Machine.decode_bind_eq_ok hb
  have hfirst := h c a c₁ hp
  have hsecond := hf a c₁ b c' hb
  omega

theorem Takes.map {p : Decode α} {n : Nat} (h : p.Takes n) (f : α → β) : (f <$> p).Takes n := by
  rw [map_eq_pure_bind]
  exact h.bind fun a => takes_pure (f a)

/-- A field that may be absent takes some number of bytes, or none. -/
theorem Takes.optional {p : Decode α} {n : Nat} (h : p.Takes n) (c : Prop) [Decidable c] (a : α) :
    ∃ m, (if c then p else pure a).Takes m := by
  split
  · exact ⟨n, h⟩
  · exact ⟨0, takes_pure a⟩

theorem takes_bytes (n : Nat) : (bytes n).Takes n :=
  fun _ _ _ h => (AnnexB.length_rest_bytes h).symm

theorem takes_number (n : Nat) : (number n).Takes n := (takes_bytes n).map bigEndian

theorem takes_u8 : u8.Takes 1 := (takes_number 1).map UInt8.ofNat

theorem takes_u16 : u16.Takes 2 := (takes_number 2).map UInt16.ofNat

theorem takes_u32 : u32.Takes 4 := (takes_number 4).map UInt32.ofNat

theorem takes_u64 : u64.Takes 8 := (takes_number 8).map UInt64.ofNat

theorem takes_i32 : i32.Takes 4 := takes_u32.map UInt32.toInt32

theorem takes_i64 : i64.Takes 8 := takes_u64.map UInt64.toInt64

theorem takes_left : left.Takes 0 := by
  rintro c _ _ ⟨⟩
  rfl

theorem takes_atEnd : atEnd.Takes 0 := by
  rintro c _ _ ⟨⟩
  rfl

theorem takes_fourCc : fourCc.Takes 4 := by
  intro c f c' h
  obtain ⟨bs, c₁, hbytes, hf⟩ := Machine.decode_bind_eq_ok h
  have hlength := Machine.length_of_bytes hbytes
  match bs, hlength with
  | [_, _, _, _], _ =>
    cases hf
    exact takes_bytes 4 c _ _ hbytes

theorem takes_versionFlags : versionFlags.Takes 4 :=
  takes_u32.map fun v => VersionFlags.mk (v >>> 24).toUInt8 (v &&& 0x00FFFFFF)

theorem takes_roomFor (name : FourCc) (count width : Nat) : (roomFor name count width).Takes 0 := by
  intro c a c' h
  unfold roomFor at h
  dsimp only at h
  split at h
  · cases h
  · cases h
    rfl

end Decode

/-- What reading comes to, and how many turns of loops begin on the way to it. -/
structure Counted (α : Type) where
  outcome : Except Error (α × Cursor)
  turns : Nat

/-- Reading fields one after the other, with the turns of loops counted. -/
def Tally (α : Type) := Cursor → Counted α

namespace Tally

instance : Monad Tally where
  pure a c := ⟨.ok (a, c), 0⟩
  bind q k c :=
    match (q c).outcome with
    | .ok (a, c') => ⟨(k a c').outcome, (q c).turns + (k a c').turns⟩
    | .error e => ⟨.error e, (q c).turns⟩

/-- Fields that are read without a loop. -/
def read (p : Decode α) : Tally α := fun c => ⟨p c, 0⟩

/-- A turn of a loop begins. -/
def turn : Tally Unit := fun c => ⟨.ok ((), c), 1⟩

/-- `n` rows, each in a turn of its own. -/
def rows (row : Tally α) : Nat → Tally (List α)
  | 0 => pure []
  | n + 1 => do
    turn
    let a ← row
    return a :: (← rows row n)

/-- A declared number of rows of `width` bytes each. -/
def table (name : FourCc) (width : Nat) (row : Tally α) : Tally (List α) := do
  let count ← read Decode.u32
  read (Decode.roomFor name count.toNat width)
  rows row count.toNat

theorem bind_of_ok {q : Tally α} {c c' : Cursor} {a : α} (h : (q c).outcome = .ok (a, c'))
    (k : α → Tally β) : (q >>= k) c = ⟨(k a c').outcome, (q c).turns + (k a c').turns⟩ := by
  simp only [bind, h]

theorem bind_of_error {q : Tally α} {c : Cursor} {e : Error} (h : (q c).outcome = .error e)
    (k : α → Tally β) : (q >>= k) c = ⟨.error e, (q c).turns⟩ := by
  simp only [bind, h]

instance : LawfulMonad Tally :=
  LawfulMonad.mk' Tally
    (fun q => by
      funext c
      show (q >>= fun a => pure a) c = q c
      rcases h : (q c).outcome with e | ⟨a, c'⟩
      · rw [bind_of_error h, ← h]
      · rw [bind_of_ok h]
        show Counted.mk (.ok (a, c')) ((q c).turns + 0) = _
        rw [← h, Nat.add_zero])
    (fun a k => by
      funext c
      show Counted.mk (k a c).outcome (0 + (k a c).turns) = _
      rw [Nat.zero_add])
    (fun q k l => by
      funext c
      rcases h : (q c).outcome with e | ⟨a, c'⟩
      · have hk : ((q >>= k) c).outcome = .error e := by rw [bind_of_error h]
        rw [bind_of_error hk, bind_of_error h, bind_of_error h]
      · rw [bind_of_ok h]
        rcases h' : (k a c').outcome with e | ⟨b, c''⟩
        · have hk : ((q >>= k) c).outcome = .error e := by rw [bind_of_ok h, h']
          rw [bind_of_error hk, bind_of_ok h, bind_of_error h']
        · have hk : ((q >>= k) c).outcome = .ok (b, c'') := by rw [bind_of_ok h, h']
          rw [bind_of_ok hk, bind_of_ok h, bind_of_ok h', Nat.add_assoc])

theorem outcome_bind (q : Tally α) (k : α → Tally β) (c : Cursor) :
    ((q >>= k) c).outcome = (q c).outcome >>= fun x => (k x.1 x.2).outcome := by
  cases h : (q c).outcome with
  | error e =>
    rw [bind_of_error h]
    rfl
  | ok x =>
    rw [bind_of_ok h]
    rfl

@[simp] theorem read_pure (a : α) : read (pure a) = (pure a : Tally α) := rfl

/-- Fields that are read without a loop are read one after the other. -/
theorem read_bind (p : Decode α) (f : α → Decode β) :
    read (p >>= f) = (read p >>= fun a => read (f a) : Tally β) := by
  funext c
  cases h : p c with
  | error e =>
    have hq : (read p c).outcome = .error e := h
    rw [bind_of_error hq]
    show Counted.mk (Except.bind (p c) _) 0 = _
    rw [h]
    rfl
  | ok x =>
    have hq : (read p c).outcome = .ok x := h
    rw [bind_of_ok hq]
    show Counted.mk (Except.bind (p c) _) 0 = _
    rw [h]
    rfl

/-! ### The same reading -/

/-- What is counted is what is read. -/
def Counts (q : Tally α) (p : Decode α) : Prop := ∀ c, (q c).outcome = p c

namespace Counts

theorem read (p : Decode α) : Counts (read p) p := fun _ => rfl

protected theorem pure (a : α) : Counts (pure a) (pure a) := fun _ => rfl

protected theorem bind {q : Tally α} {p : Decode α} {k : α → Tally β} {f : α → Decode β}
    (h : Counts q p) (hk : ∀ a, Counts (k a) (f a)) : Counts (q >>= k) (p >>= f) := by
  intro c
  rw [outcome_bind, h c]
  show Except.bind (p c) _ = Except.bind (p c) _
  cases p c with
  | error e => rfl
  | ok x => exact hk x.1 x.2

theorem ite {c : Prop} [Decidable c] {q q' : Tally α} {p p' : Decode α} (h : Counts q p)
    (h' : Counts q' p') : Counts (if c then q else q') (if c then p else p') := by
  split
  · exact h
  · exact h'

/-- The beginning of a turn has no bearing on what is read. -/
theorem turn {q : Tally α} {p : Decode α} (h : Counts q p) :
    Counts (turn >>= fun _ => q) p := by
  intro c
  rw [outcome_bind]
  exact h c

/-- The rows are gathered in reverse on the one side and in order on the other. -/
theorem rowsFrom {q : Tally α} {p : Decode α} (h : Counts q p) (n : Nat) (acc : List α) :
    Counts ((acc.reverse ++ ·) <$> rows q n) (Decode.rowsFrom p n acc) := by
  induction n generalizing acc with
  | zero =>
    show Counts (pure (acc.reverse ++ [])) (pure acc.reverse)
    rw [List.append_nil]
    exact .pure _
  | succ n ih =>
    have hrows : (acc.reverse ++ ·) <$> rows q (n + 1) =
        Tally.turn >>= fun _ => q >>= fun a => ((a :: acc).reverse ++ ·) <$> rows q n := by
      simp only [rows, map_eq_pure_bind, bind_assoc, pure_bind, List.reverse_cons,
        List.append_assoc, List.singleton_append]
    rw [hrows, Machine.rowsFrom_succ]
    exact (h.bind fun a => ih (a :: acc)).turn

theorem rows {q : Tally α} {p : Decode α} (h : Counts q p) (n : Nat) :
    Counts (rows q n) (Decode.rows n p) := by
  have hfrom := h.rowsFrom n []
  simp only [List.reverse_nil, List.nil_append, id_map'] at hfrom
  exact hfrom

theorem table {q : Tally α} {p : Decode α} (h : Counts q p) (name : FourCc) (width : Nat) :
    Counts (table name width q) (Decode.table name width p) :=
  (read _).bind fun count => (read _).bind fun _ => h.rows count.toNat

end Counts

/-! ### What success costs -/

/-- The value, the turns and the number of bytes taken are related if reading succeeds. -/
def Ends (q : Tally α) (P : α → Nat → Nat → Prop) : Prop :=
  ∀ c a c', (q c).outcome = .ok (a, c') →
    ∃ taken, c.rest.length = c'.rest.length + taken ∧ P a (q c).turns taken

namespace Ends

variable {q : Tally α} {P Q : α → Nat → Nat → Prop} {R : β → Nat → Nat → Prop}

theorem mono (h : Ends q P) (hPQ : ∀ a turns taken, P a turns taken → Q a turns taken) :
    Ends q Q := by
  intro c a c' hq
  obtain ⟨taken, hlength, hP⟩ := h c a c' hq
  exact ⟨taken, hlength, hPQ _ _ _ hP⟩

protected theorem pure {a : α} (h : P a 0 0) : Ends (pure a) P := by
  rintro c _ _ ⟨⟩
  exact ⟨0, rfl, h⟩

protected theorem bind {k : α → Tally β} (h : Ends q P)
    (hk : ∀ a turns taken, P a turns taken →
      Ends (k a) fun b turns' taken' => R b (turns + turns') (taken + taken')) :
    Ends (q >>= k) R := by
  intro c b c'' hb
  rcases hq : (q c).outcome with e | ⟨a, c'⟩
  · rw [bind_of_error hq] at hb
    cases hb
  · rw [bind_of_ok hq] at hb ⊢
    obtain ⟨taken, hlength, hP⟩ := h c a c' hq
    obtain ⟨taken', hlength', hR⟩ := hk a _ _ hP c' b c'' hb
    exact ⟨taken + taken', by omega, hR⟩

protected theorem ite {c : Prop} [Decidable c] {q' : Tally α} (h : Ends q P) (h' : Ends q' P) :
    Ends (if c then q else q') P := by
  split
  · exact h
  · exact h'

theorem turn : Ends turn fun _ turns taken => turns = 1 ∧ taken = 0 := by
  rintro c _ _ ⟨⟩
  exact ⟨0, rfl, rfl, rfl⟩

theorem read {p : Decode α} {n : Nat} (h : p.Takes n) :
    Ends (read p) fun _ turns taken => turns = 0 ∧ taken = n :=
  fun c a c' hp => ⟨n, h c a c' hp, rfl, rfl⟩

/-- Fields that take no turn add nothing to the turns of what is read next. -/
theorem read_bind {p : Decode α} {n : Nat} {k : α → Tally β} (h : p.Takes n)
    (hk : ∀ a, Ends (k a) fun b turns taken => R b turns (n + taken)) :
    Ends (Tally.read p >>= k) R := by
  refine (read h).bind fun a turns taken hp => ?_
  obtain ⟨rfl, rfl⟩ := hp
  exact (hk a).mono fun b turns taken hR => (Nat.zero_add turns).symm ▸ hR

theorem bytes (n : Nat) :
    Ends (Tally.read (Decode.bytes n)) fun bs turns taken =>
      turns = 0 ∧ taken = n ∧ bs.length = n :=
  fun c a c' hp => ⟨n, Decode.takes_bytes n c a c' hp, rfl, rfl, Machine.length_of_bytes hp⟩

/-- Rows that take more bytes than they have turns pay for the turns that they are read in. -/
theorem rows {row : Tally α} {w : α → Nat}
    (h : Ends row fun a turns taken => turns = w a ∧ turns + 1 ≤ taken) (n : Nat) :
    Ends (rows row n) fun as turns taken =>
      turns = as.length + (as.map w).sum ∧ turns ≤ taken := by
  induction n with
  | zero => exact .pure ⟨rfl, Nat.le_refl 0⟩
  | succ n ih =>
    refine turn.bind fun _ turns taken hturn => h.bind fun a turns' taken' hrow =>
      ih.bind fun as turns'' taken'' hrows => .pure ?_
    rw [List.length_cons, List.map_cons, List.sum_cons]
    omega

theorem table (name : FourCc) (width : Nat) {row : Tally α} {w : α → Nat}
    (h : Ends row fun a turns taken => turns = w a ∧ turns + 1 ≤ taken) :
    Ends (table name width row) fun as turns taken =>
      turns = as.length + (as.map w).sum ∧ turns ≤ taken :=
  read_bind Decode.takes_u32 fun count =>
    read_bind (Decode.takes_roomFor name count.toNat width) fun _ =>
      (h.rows count.toNat).mono fun _ _ _ hrows => ⟨hrows.1, by omega⟩

/-- A row without a loop in it takes no turn of its own. -/
theorem row {p : Decode α} {n : Nat} (h : p.Takes n) (hn : 0 < n) :
    Ends (Tally.read p) fun _ turns taken => turns = 0 ∧ turns + 1 ≤ taken :=
  (read h).mono fun _ _ _ hp => ⟨hp.1, by omega⟩

theorem plainRows {p : Decode α} {n : Nat} (h : p.Takes n) (hn : 0 < n) (count : Nat) :
    Ends (Tally.rows (Tally.read p) count) fun as turns taken =>
      turns = as.length ∧ turns ≤ taken := by
  refine ((row h hn).rows count).mono fun as turns taken hrows => ?_
  rwa [List.map_const', List.sum_replicate_nat] at hrows

theorem plainTable (name : FourCc) (width : Nat) {p : Decode α} {n : Nat} (h : p.Takes n)
    (hn : 0 < n) :
    Ends (Tally.table name width (Tally.read p)) fun as turns taken =>
      turns = as.length ∧ turns ≤ taken :=
  read_bind Decode.takes_u32 fun count =>
    read_bind (Decode.takes_roomFor name count.toNat width) fun _ =>
      (plainRows h hn count.toNat).mono fun _ _ _ hrows => ⟨hrows.1, by omega⟩

end Ends

/-! ### What failure costs -/

/-- The turns are at most as many as the bytes that are left, and `beyond` more, whether or not
reading succeeds. -/
def Within (q : Tally α) (beyond : Nat) : Prop := ∀ c, (q c).turns ≤ c.rest.length + beyond

namespace Within

variable {q : Tally α} {beyond : Nat}

theorem mono {beyond' : Nat} (h : Within q beyond) (hle : beyond ≤ beyond') : Within q beyond' :=
  fun c => Nat.le_trans (h c) (Nat.add_le_add_left hle _)

theorem read (p : Decode α) : Within (read p) 0 := fun _ => Nat.zero_le _

protected theorem pure (a : α) : Within (pure a) 0 := fun _ => Nat.zero_le _

/-- Bytes that were taken and not spent pay for what is read next. -/
protected theorem bind {k : α → Tally β} {spare : Nat} (h : Within q beyond)
    (hends : Ends q fun _ turns taken => turns + spare ≤ taken)
    (hk : ∀ a, Within (k a) (beyond + spare)) : Within (q >>= k) beyond := by
  intro c
  rcases hq : (q c).outcome with e | ⟨a, c'⟩
  · rw [bind_of_error hq]
    exact h c
  · rw [bind_of_ok hq]
    obtain ⟨taken, hlength, hspent⟩ := hends c a c' hq
    have hnext := hk a c'
    dsimp only
    omega

/-- Fields that take bytes and no turn pay for what is read next. -/
theorem read_bind {p : Decode α} {n : Nat} {k : α → Tally β} (h : p.Takes n)
    (hk : ∀ a, Within (k a) (beyond + n)) : Within (Tally.read p >>= k) beyond :=
  ((read p).mono (Nat.zero_le beyond)).bind ((Ends.read h).mono fun _ _ _ hp => by omega) hk

theorem returning (h : Within q beyond) (f : α → β) :
    Within (q >>= fun a => pure (f a)) beyond := by
  intro c
  rcases hq : (q c).outcome with e | ⟨a, c'⟩
  · rw [bind_of_error hq]
    exact h c
  · rw [bind_of_ok hq]
    exact h c

theorem turn (h : Within q beyond) : Within (turn >>= fun _ => q) (beyond + 1) := by
  intro c
  have hq := h c
  have hturn : (Tally.turn c).outcome = .ok ((), c) := rfl
  rw [bind_of_ok hturn]
  show 1 + (q c).turns ≤ _
  omega

/-- However many rows are declared, the bytes that they take pay for all turns but the last. -/
theorem rows {row : Tally α} (h : Within row beyond)
    (hends : Ends row fun _ turns taken => turns + 1 ≤ taken) (n : Nat) :
    Within (rows row n) (beyond + 1) := by
  induction n with
  | zero => exact (Within.pure []).mono (Nat.zero_le _)
  | succ n ih => exact (h.bind hends fun a => ih.returning (a :: ·)).turn

theorem table (name : FourCc) (width : Nat) {row : Tally α} (h : Within row beyond)
    (hends : Ends row fun _ turns taken => turns + 1 ≤ taken) :
    Within (table name width row) (beyond + 1) :=
  read_bind Decode.takes_u32 fun count =>
    read_bind (Decode.takes_roomFor name count.toNat width) fun _ =>
      (h.rows hends count.toNat).mono (by omega)

theorem plainTable (name : FourCc) (width : Nat) {p : Decode α} {n : Nat} (h : p.Takes n)
    (hn : 0 < n) : Within (Tally.table name width (Tally.read p)) 1 :=
  (read p).table name width ((Ends.row h hn).mono fun _ _ _ hrow => hrow.2)

end Within

end Tally

end IsoMedia

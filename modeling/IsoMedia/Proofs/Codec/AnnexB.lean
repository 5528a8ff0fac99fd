import IsoMedia.Codec.AnnexB
import IsoMedia.Proofs.Bytes.Fields

/-!
# Units with their lengths, and extra data among them

In a file the units of a sample stand one after the other, each behind its length (`AnnexB.sample`).

* `AnnexB.split_sample`, `AnnexB.split_of_faultAt` : a sample is taken apart into the units that it
  was written from, and a fault behind some units fails it as a whole.
* `AnnexB.exists_sample` : bytes are a written sample, or units with a fault behind them.
* `AnnexB.split_ne_invalidArgument` : no sample is refused for a right width of lengths.
* `AnnexB.split_eq_ok_iff` : there is one way at most to take a sample apart.
* `AnnexB.supplied_eq_iff` : when it shows whether extra data was held to be lacking.
-/

namespace IsoMedia.AnnexB

/-- A unit as it stands in a file. -/
def prefixed (width : Nat) (nal : List UInt8) : List UInt8 := numberBytes width nal.length ++ nal

/-- Units one after the other, as they stand in a file. -/
def sample (width : Nat) (nals : List (List UInt8)) : List UInt8 := nals.flatMap (prefixed width)

/-- The length of a unit can be written, and is not refused. -/
structure Fits (width : Nat) (accept : Nat → Except Error Unit) (nal : List UInt8) : Prop where
  length_lt : nal.length < 256 ^ width
  accepted : accept nal.length = .ok ()

/-- The length that bytes start with. -/
def lengthAt (width : Nat) (bs : List UInt8) : Nat := bigEndian (bs.take width)

/-- Why no unit stands where the given bytes start, at a place in a sample. -/
inductive FaultAt (width : Nat) (accept : Nat → Except Error Unit) (pos : Nat) (bs : List UInt8) :
    Error → Prop
  /-- There are bytes left, but not enough for a length. -/
  | cutLength (some : bs ≠ []) (few : bs.length < width) :
      FaultAt width accept pos bs (.invalidData (.readPastEnd pos width bs.length))
  /-- The length is refused. -/
  | refused {e : Error} (enough : width ≤ bs.length)
      (refuses : accept (lengthAt width bs) = .error e) : FaultAt width accept pos bs e
  /-- There are fewer bytes than the length says. -/
  | cutUnit (enough : width ≤ bs.length) (accepts : accept (lengthAt width bs) = .ok ())
      (few : bs.length - width < lengthAt width bs) :
      FaultAt width accept pos bs
        (.invalidData (.readPastEnd (pos + width) (lengthAt width bs) (bs.length - width)))

variable {width : Nat} {accept : Nat → Except Error Unit} {nal : List UInt8}
  {nals : List (List UInt8)} {bs rest : List UInt8} {pos : Nat} {e : Error}

@[simp] theorem length_prefixed (width : Nat) (nal : List UInt8) :
    (prefixed width nal).length = width + nal.length := by
  simp [prefixed]

@[simp] theorem sample_cons (width : Nat) (nal : List UInt8) (nals : List (List UInt8)) :
    sample width (nal :: nals) = prefixed width nal ++ sample width nals := rfl

/-! ### One unit -/

theorem bytes_of_le {n : Nat} (h : n ≤ bs.length) (pos : Nat) :
    Decode.bytes n ⟨bs, pos⟩ = .ok (bs.take n, ⟨bs.drop n, pos + n⟩) :=
  if_pos (List.length_take_of_le h)

theorem bytes_of_lt {n : Nat} (h : bs.length < n) (pos : Nat) :
    Decode.bytes n ⟨bs, pos⟩ = .error (.invalidData (.readPastEnd pos n bs.length)) :=
  if_neg fun hall : (bs.take n).length = n => by
    rw [List.length_take] at hall
    omega

theorem framed_of_le (h : width ≤ bs.length) (pos : Nat) :
    framed width accept ⟨bs, pos⟩ =
      match accept (lengthAt width bs) with
      | .error e => .error e
      | .ok () => Decode.bytes (lengthAt width bs) ⟨bs.drop width, pos + width⟩ := by
  unfold framed
  rw [bytes_of_le h]
  rfl

theorem framed_prefixed (h : Fits width accept nal) (rest : List UInt8) (pos : Nat) :
    framed width accept ⟨prefixed width nal ++ rest, pos⟩ =
      .ok (nal, ⟨rest, pos + (prefixed width nal).length⟩) := by
  have hlength : (numberBytes width nal.length).length = width := length_numberBytes _ _
  have hbytes : prefixed width nal ++ rest = numberBytes width nal.length ++ (nal ++ rest) :=
    List.append_assoc _ _ _
  have hat : lengthAt width (prefixed width nal ++ rest) = nal.length := by
    rw [lengthAt, hbytes, List.take_left' hlength, bigEndian_numberBytes h.length_lt]
  rw [framed_of_le (by simp; omega), hat, h.accepted, hbytes, List.drop_left' hlength,
    length_prefixed, ← Nat.add_assoc]
  exact Decode.reads_bytes nal rest (pos + width)

theorem framed_of_faultAt (h : FaultAt width accept pos bs e) :
    framed width accept ⟨bs, pos⟩ = .error e := by
  cases h with
  | cutLength some few =>
    unfold framed
    rw [bytes_of_lt few]
  | refused enough refuses => rw [framed_of_le enough, refuses]
  | cutUnit enough accepts few =>
    rw [framed_of_le enough, accepts]
    dsimp only
    rw [bytes_of_lt (by rwa [List.length_drop]), List.length_drop]

/-- Where there are bytes, a unit stands there or a fault does. -/
theorem exists_prefixed (width : Nat) (accept : Nat → Except Error Unit) (hbs : bs ≠ [])
    (pos : Nat) :
    (∃ e, FaultAt width accept pos bs e) ∨
      ∃ nal rest, bs = prefixed width nal ++ rest ∧ Fits width accept nal := by
  rcases Nat.lt_or_ge bs.length width with hfew | henough
  · exact .inl ⟨_, .cutLength hbs hfew⟩
  · cases haccept : accept (lengthAt width bs) with
    | error e => exact .inl ⟨e, .refused henough haccept⟩
    | ok accepted =>
      rcases Nat.lt_or_ge (bs.length - width) (lengthAt width bs) with hfew | hall
      · exact .inl ⟨_, .cutUnit henough haccept hfew⟩
      · have hwidth : (bs.take width).length = width := List.length_take_of_le henough
        have hlength : ((bs.drop width).take (lengthAt width bs)).length = lengthAt width bs :=
          List.length_take_of_le (by rwa [List.length_drop])
        refine .inr ⟨(bs.drop width).take (lengthAt width bs),
          (bs.drop width).drop (lengthAt width bs), ?_, ?_, ?_⟩
        · have hnumber : numberBytes width (lengthAt width bs) = bs.take width := by
            have := numberBytes_bigEndian (bs.take width)
            rwa [hwidth] at this
          rw [prefixed, hlength, hnumber, List.append_assoc, List.take_append_drop,
            List.take_append_drop]
        · rw [hlength]
          have := bigEndian_lt (bs.take width)
          rwa [hwidth] at this
        · rw [hlength, haccept]

/-! ### A whole sample -/

/-- The units of written bytes are taken, and what follows them is left. -/
theorem splitFrom_sample (positive : 0 < width) (h : ∀ nal ∈ nals, Fits width accept nal)
    (taken : List (List UInt8)) (rest : List UInt8) (pos : Nat) :
    splitFrom width positive accept taken ⟨sample width nals ++ rest, pos⟩ =
      splitFrom width positive accept (nals.reverse ++ taken)
        ⟨rest, pos + (sample width nals).length⟩ := by
  induction nals generalizing taken pos with
  | nil => rfl
  | cons nal nals ih =>
    rw [List.forall_mem_cons] at h
    have hsome : prefixed width nal ++ (sample width nals ++ rest) ≠ [] := fun hnil => by
      have := congrArg List.length hnil
      simp at this
      omega
    rw [sample_cons, List.append_assoc, splitFrom, if_neg hsome]
    split
    · rename_i e hstep
      rw [framed_prefixed h.1] at hstep
      cases hstep
    · rename_i nal' c hstep
      rw [framed_prefixed h.1] at hstep
      cases hstep
      rw [ih h.2, List.reverse_cons, List.append_assoc, List.length_append, Nat.add_assoc]
      rfl

theorem split_eq_splitFrom (hwidth : PrefixWidth width) (bs : List UInt8) :
    split width accept bs = splitFrom width hwidth.1 accept [] ⟨bs, 0⟩ := dif_pos hwidth

/-- **A sample is taken apart into the units that it was written from.** -/
theorem split_sample (hwidth : PrefixWidth width) (h : ∀ nal ∈ nals, Fits width accept nal) :
    split width accept (sample width nals) = .ok nals := by
  have hsplit := splitFrom_sample hwidth.1 h [] [] 0
  rw [List.append_nil, List.append_nil] at hsplit
  rw [split_eq_splitFrom hwidth, hsplit, splitFrom, if_pos rfl, List.reverse_reverse]

/-- **A fault behind some units fails the whole sample.** -/
theorem split_of_faultAt (hwidth : PrefixWidth width) (h : ∀ nal ∈ nals, Fits width accept nal)
    (hfault : FaultAt width accept (sample width nals).length rest e) :
    split width accept (sample width nals ++ rest) = .error e := by
  have hsome : rest ≠ [] := by
    rintro rfl
    cases hfault with
    | cutLength some few => exact some rfl
    | refused enough refuses => exact absurd hwidth.1 (Nat.not_lt.2 enough)
    | cutUnit enough accepts few => exact absurd hwidth.1 (Nat.not_lt.2 enough)
  rw [split_eq_splitFrom hwidth, splitFrom_sample hwidth.1 h, Nat.zero_add, splitFrom,
    if_neg hsome]
  split
  · rename_i e' hstep
    rw [framed_of_faultAt hfault] at hstep
    cases hstep
    rfl
  · rename_i nal c hstep
    rw [framed_of_faultAt hfault] at hstep
    cases hstep

theorem exists_sample_at (positive : 0 < width) (accept : Nat → Except Error Unit)
    (bs : List UInt8) (pos : Nat) :
    ∃ nals rest, bs = sample width nals ++ rest ∧ (∀ nal ∈ nals, Fits width accept nal) ∧
      (rest = [] ∨ ∃ e, FaultAt width accept (pos + (sample width nals).length) rest e) := by
  induction hlength : bs.length using Nat.strongRecOn generalizing bs pos with
  | _ n ih =>
    by_cases hnil : bs = []
    · exact ⟨[], bs, rfl, nofun, .inl hnil⟩
    · rcases exists_prefixed width accept hnil pos with ⟨e, hfault⟩ | ⟨nal, rest, rfl, hfits⟩
      · exact ⟨[], bs, rfl, nofun, .inr ⟨e, hfault⟩⟩
      · -- A unit takes at least its length, so fewer bytes are left.
        have hshorter : rest.length < n := by
          rw [← hlength, List.length_append, length_prefixed]
          omega
        obtain ⟨nals, rest, rfl, hall, hend⟩ :=
          ih rest.length hshorter rest (pos + (prefixed width nal).length) rfl
        refine ⟨nal :: nals, rest, ?_, List.forall_mem_cons.2 ⟨hfits, hall⟩, ?_⟩
        · rw [sample_cons, List.append_assoc]
        · rwa [sample_cons, List.length_append, ← Nat.add_assoc]

/-- **Bytes are a written sample, or units with a fault behind them.** -/
theorem exists_sample (positive : 0 < width) (accept : Nat → Except Error Unit)
    (bs : List UInt8) :
    ∃ nals rest, bs = sample width nals ++ rest ∧ (∀ nal ∈ nals, Fits width accept nal) ∧
      (rest = [] ∨ ∃ e, FaultAt width accept (sample width nals).length rest e) := by
  have h := exists_sample_at positive accept bs 0
  simpa only [Nat.zero_add] using h

/-- **A sample is taken apart into units exactly if it is those units, written one after the
other.** -/
theorem split_eq_ok_iff (hwidth : PrefixWidth width) :
    split width accept bs = .ok nals ↔
      (∀ nal ∈ nals, Fits width accept nal) ∧ bs = sample width nals := by
  constructor
  · intro hsplit
    obtain ⟨written, rest, rfl, hfits, hend⟩ := exists_sample hwidth.1 accept bs
    rcases hend with rfl | ⟨e, hfault⟩
    · rw [List.append_nil, split_sample hwidth hfits, Except.ok.injEq] at hsplit
      subst hsplit
      exact ⟨hfits, List.append_nil _⟩
    · rw [split_of_faultAt hwidth hfits hfault] at hsplit
      cases hsplit
  · rintro ⟨hfits, rfl⟩
    exact split_sample hwidth hfits

/-- With lengths of a right width, what fails is the sample and not the request. -/
theorem split_ne_invalidArgument (hwidth : PrefixWidth width)
    (haccept : ∀ n fault, accept n ≠ .error (.invalidArgument fault)) (bs : List UInt8)
    (fault : ArgumentFault) : split width accept bs ≠ .error (.invalidArgument fault) := by
  obtain ⟨written, rest, rfl, hfits, hend⟩ := exists_sample hwidth.1 accept bs
  rcases hend with rfl | ⟨e, hfault⟩
  · rw [List.append_nil, split_sample hwidth hfits]
    exact nofun
  · rw [split_of_faultAt hwidth hfits hfault]
    rintro ⟨⟩
    cases hfault with
    | refused _ refuses => exact haccept _ _ refuses

/-! ### Extra data -/

/-- Units as they stand in a byte stream, with extra data before the first one of a kind. -/
def streamWith (starts : List UInt8 → Bool) (extra : List UInt8) (nals : List (List UInt8)) :
    List UInt8 :=
  stream (nals.takeWhile (!starts ·)) ++ extra ++ stream (nals.dropWhile (!starts ·))

/-- Units as a byte stream, with extra data before the first one of a kind if there is one and the
extra data is lacking. -/
def supplied (lacking : Bool) (starts : List UInt8 → Bool) (extra : List UInt8)
    (nals : List (List UInt8)) : List UInt8 :=
  if nals.any starts && lacking then streamWith starts extra nals else stream nals

/-- What is promised of the conversion of a sample: the extra data is lacking if the sample has no
parameter sets of its own. -/
def promised (starts isSet : List UInt8 → Bool) (extra : List UInt8)
    (nals : List (List UInt8)) : List UInt8 :=
  supplied (!nals.any isSet) starts extra nals

variable {starts : List UInt8 → Bool} {extra : List UInt8} {lacking lacking' : Bool}

@[simp] theorem stream_nil : stream [] = [] := rfl

@[simp] theorem stream_cons (nal : List UInt8) (nals : List (List UInt8)) :
    stream (nal :: nals) = unit nal ++ stream nals := rfl

theorem stream_append (nals nals' : List (List UInt8)) :
    stream (nals ++ nals') = stream nals ++ stream nals' := List.flatMap_append

theorem streamWith_eq_stream_iff : streamWith starts extra nals = stream nals ↔ extra = [] := by
  have hstream : stream nals =
      stream (nals.takeWhile (!starts ·)) ++ stream (nals.dropWhile (!starts ·)) := by
    rw [← stream_append, List.takeWhile_append_dropWhile]
  rw [streamWith, hstream, List.append_assoc, List.append_cancel_left_eq]
  exact ⟨fun h => by simpa using h, fun h => by rw [h, List.nil_append]⟩

theorem supplied_cons_of_starts (h : starts nal = true) :
    supplied lacking starts extra (nal :: nals) =
      (if lacking then extra else []) ++ (unit nal ++ stream nals) := by
  cases lacking <;> simp [supplied, streamWith, h]

theorem supplied_cons_of_not_starts (h : starts nal = false) :
    supplied lacking starts extra (nal :: nals) =
      unit nal ++ supplied lacking starts extra nals := by
  unfold supplied
  rw [List.any_cons, h, Bool.false_or]
  split
  · simp [streamWith, h]
  · rfl

/-- Whether extra data is lacking shows if there is any, and a place where it goes. -/
theorem supplied_eq_iff :
    supplied lacking starts extra nals = supplied lacking' starts extra nals ↔
      extra = [] ∨ (nals.any starts = true → lacking = lacking') := by
  unfold supplied
  cases nals.any starts <;> cases lacking <;> cases lacking' <;>
    simp [streamWith_eq_stream_iff, eq_comm (a := stream nals)]

end IsoMedia.AnnexB

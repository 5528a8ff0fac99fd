import IsoMedia.Box.Media
import IsoMedia.Proofs.Bytes.Layout
import IsoMedia.Proofs.Text.Utf8

/-!
# The location of named data

The name of a `urn` entry ends with a zero byte, and the location is to follow it.  It is sought behind as
many bytes as the decoded name has.  Those are never fewer than the bytes of the name, so a location
never starts too early, but behind a name that became longer it starts too late.

* `DataEntry.named_as_promised_iff` : which location is read, and behind which names it is the right
  one.
-/

namespace IsoMedia.DataEntry

open Utf8 (text textUntilZero untilZero)

/-- The location in the bytes behind a name, if there are any. -/
def location? (behind : List UInt8) : Option String :=
  if behind = [] then none else some (textUntilZero behind)

/-- What an entry is to say that has a name with the given bytes and the given bytes behind it. -/
def promised (full : VersionFlags) (name behind : List UInt8) : DataEntry :=
  ⟨full, some (text name), location? behind⟩

/-- The bytes of a `urn` entry whose name is followed by a zero byte and more. -/
def namedBytes (full : VersionFlags) (name behind : List UInt8) : List UInt8 :=
  full.bytes ++ (name ++ 0 :: behind)

/-- By how many bytes a name becomes longer when it is decoded. -/
def growth (name : List UInt8) : Nat := (text name).utf8ByteSize - name.length

theorem growth_eq_zero_iff {name : List UInt8} :
    growth name = 0 ↔ (text name).utf8ByteSize = name.length := by
  have := Utf8.length_le_utf8ByteSize_text name
  unfold growth
  omega

variable {full : VersionFlags} {name : List UInt8}

theorem untilZero_append (h : 0 ∉ name) (bs : List UInt8) :
    untilZero (name ++ bs) = name ++ untilZero bs := by
  refine List.takeWhile_append_of_pos fun b hb => ?_
  rw [decide_eq_true_iff]
  rintro rfl
  exact h hb

theorem untilZero_of_not_mem (h : 0 ∉ name) : untilZero name = name := by
  have hname := untilZero_append h []
  have hnil : untilZero [] = [] := rfl
  rwa [hnil, List.append_nil] at hname

theorem untilZero_of_zero (h : 0 ∉ name) (behind : List UInt8) :
    untilZero (name ++ 0 :: behind) = name := by
  rw [untilZero_append h]
  exact List.append_nil name

theorem ofPayload_urn (h : full.flags.toNat < 2 ^ 24) (bs : List UInt8) :
    ofPayload .urn (full.bytes ++ bs) = .ok (namedFields full bs) := by
  have hread : Decode.ReadsBefore bs (fields .urn) [full.bytes].flatten (namedFields full bs) :=
    (Decode.reads_fullHead h).before (Decode.readsBefore_rest bs (namedFields full))
  have := hread.parse
  rwa [List.flatten_cons, List.flatten_nil, List.append_nil] at this

/-- A name that reaches to the end is read as it is, and there is no location. -/
theorem namedFields_of_not_mem (h : 0 ∉ name) :
    namedFields full name = promised full name [] := by
  have hlength := Utf8.length_le_utf8ByteSize_text name
  rw [namedFields, textUntilZero, untilZero_of_not_mem h, List.drop_eq_nil_of_le (by omega)]
  rfl

/-- The location is sought too late by as much as the name grew. -/
theorem namedFields_of_zero (h : 0 ∉ name) (behind : List UInt8) :
    namedFields full (name ++ 0 :: behind) =
      promised full name (behind.drop (growth name)) := by
  have hlength := Utf8.length_le_utf8ByteSize_text name
  have hplace : (text name).utf8ByteSize + 1 = name.length + (growth name + 1) := by
    unfold growth
    omega
  rw [namedFields, textUntilZero, untilZero_of_zero h, hplace, ← List.drop_drop, List.drop_left,
    List.drop_succ_cons]
  rfl

/-- Every payload is too short for a version and flags, or has a name behind them, and perhaps a
zero byte and more behind that. -/
theorem exists_name {payload : List UInt8} (h : 4 ≤ payload.length) :
    ∃ full : VersionFlags, full.flags.toNat < 2 ^ 24 ∧ ∃ name : List UInt8, 0 ∉ name ∧
      (payload = full.bytes ++ name ∨ ∃ behind, payload = namedBytes full name behind) := by
  obtain ⟨full, bs, hfull, rfl⟩ := VersionFlags.exists_bytes h
  refine ⟨full, hfull, ?_⟩
  by_cases hzero : 0 ∈ bs
  · obtain ⟨name, behind, rfl, hname⟩ := List.eq_append_cons_of_mem hzero
    exact ⟨name, hname, .inr ⟨behind, rfl⟩⟩
  · exact ⟨bs, hzero, .inl rfl⟩

/-- Fewer than four bytes are refused, and no other payload is. -/
theorem ofPayload_urn_error_iff {payload : List UInt8} :
    (∃ e, ofPayload .urn payload = .error e) ↔ payload.length < 4 := by
  constructor
  · rintro ⟨e, he⟩
    by_contra hlong
    obtain ⟨full, bs, hfull, rfl⟩ := VersionFlags.exists_bytes (Nat.le_of_not_lt hlong)
    rw [ofPayload_urn hfull] at he
    cases he
  · intro hshort
    have hneeds : Decode.Needs (fields .urn) 4 := Decode.needs_fullBox fun _ => Decode.needs_zero _
    exact hneeds.parse hshort

/-- Behind a name that grew, a location of one byte is not found. -/
theorem growth_eq_zero_of_promised
    (h : ∀ behind, namedFields full (name ++ 0 :: behind) = promised full name behind)
    (hname : 0 ∉ name) : growth name = 0 := by
  by_contra hgrowth
  have hlost := h [1]
  rw [namedFields_of_zero hname, List.drop_eq_nil_of_le (Nat.pos_of_ne_zero hgrowth)] at hlost
  have hlocation := congrArg location hlost
  simp [promised, location?] at hlocation

/-- **The location of a named entry is the text behind the name, up to the next zero byte, for all
bytes behind the name exactly if decoding leaves the name as long as it is.**  By as many bytes as the
name becomes longer the location starts too late.  Names that are not damaged stay as long as they
are. -/
theorem named_as_promised_iff (payload : List UInt8) :
    ((∃ e, ofPayload .urn payload = .error e) ↔ payload.length < 4) ∧
    (4 ≤ payload.length → ∃ full : VersionFlags, full.flags.toNat < 2 ^ 24 ∧
      ∃ name : List UInt8, 0 ∉ name ∧
        (payload = full.bytes ++ name ∨ ∃ behind, payload = namedBytes full name behind)) ∧
    ∀ (full : VersionFlags) (name : List UInt8), full.flags.toNat < 2 ^ 24 → 0 ∉ name →
      ofPayload .urn (full.bytes ++ name) = .ok (promised full name []) ∧
      (∀ behind, ofPayload .urn (namedBytes full name behind) =
        .ok (promised full name (behind.drop ((text name).utf8ByteSize - name.length)))) ∧
      ((∀ behind, ofPayload .urn (namedBytes full name behind) = .ok (promised full name behind)) ↔
        (text name).utf8ByteSize = name.length) ∧
      name.length ≤ (text name).utf8ByteSize ∧
      ∀ s : String, name = s.toUTF8.data.toList →
        text name = s ∧ (text name).utf8ByteSize = name.length := by
  refine ⟨ofPayload_urn_error_iff, exists_name, fun full name hfull hname => ?_⟩
  have hread (behind : List UInt8) : ofPayload .urn (namedBytes full name behind) =
      .ok (promised full name (behind.drop (growth name))) := by
    rw [namedBytes, ofPayload_urn hfull, namedFields_of_zero hname]
  refine ⟨?_, hread, ?_, Utf8.length_le_utf8ByteSize_text name, ?_⟩
  · rw [ofPayload_urn hfull, namedFields_of_not_mem hname]
  · rw [← growth_eq_zero_iff]
    constructor
    · intro h
      have hfields (behind : List UInt8) :
          namedFields full (name ++ 0 :: behind) = promised full name behind := by
        have := h behind
        rw [namedBytes, ofPayload_urn hfull] at this
        exact Except.ok.inj this
      exact growth_eq_zero_of_promised hfields hname
    · intro h behind
      rw [hread, h, List.drop_zero]
  · rintro s rfl
    have htext := Utf8.text_toUTF8 s
    refine ⟨htext, ?_⟩
    rw [htext]
    rfl

/-- A name of one damaged byte grows by two, and of the location `abcd` behind it `cd` is read. -/
theorem damagedName_location :
    (0 : UInt32).toNat < 2 ^ 24 ∧ 0 ∉ [(0xFF : UInt8)] ∧
      ofPayload .urn [0, 0, 0, 0, 0xFF, 0, 0x61, 0x62, 0x63, 0x64, 0] =
        .ok (promised ⟨0, 0⟩ [0xFF] [0x63, 0x64, 0]) ∧
      ¬ ∀ behind, ofPayload .urn (namedBytes ⟨0, 0⟩ [0xFF] behind) =
        .ok (promised ⟨0, 0⟩ [0xFF] behind) := by
  have hflags : (0 : UInt32).toNat < 2 ^ 24 := by decide
  have hname : 0 ∉ [(0xFF : UInt8)] := by decide
  have hdecode : Utf8.decode [0xFF] = [Utf8.replacement] := by simp [Utf8.decode, Utf8.lead?]
  have hsize : (text [0xFF]).utf8ByteSize = 3 := by
    rw [text, hdecode, Utf8.utf8ByteSize_ofList_cons]
    decide
  obtain ⟨-, -, hnamed⟩ :=
    named_as_promised_iff [0, 0, 0, 0, 0xFF, 0, 0x61, 0x62, 0x63, 0x64, 0]
  obtain ⟨-, hread, hpromised, -⟩ := hnamed ⟨0, 0⟩ [0xFF] hflags hname
  have hlocation := hread [0x61, 0x62, 0x63, 0x64, 0]
  rw [hsize] at hlocation hpromised
  exact ⟨hflags, hname, hlocation, fun h => absurd (hpromised.1 h) (by decide)⟩

end IsoMedia.DataEntry

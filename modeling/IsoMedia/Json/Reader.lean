import IsoMedia.Number.Rounding
import IsoMedia.Text.Digits

/-!
# Reading JSON by expectation

Settings are read from JSON from left to right, each value as what is expected at its place.  What goes
wrong first decides the fault: the text ends too early (`cutShort`), a character cannot stand where it
does (`malformed`), or a value is well formed but not the expected one (`unfit`).  Of an unexpected
value the text is read first, so a malformed one is reported as such.
-/

namespace IsoMedia.Json

/-- Why settings cannot be read. -/
inductive Fault where
  /-- A character cannot stand where it does. -/
  | malformed
  /-- The text ends too early. -/
  | cutShort
  /-- A value is not one that is expected. -/
  | unfit
deriving DecidableEq

/-- Reading values one after the other. -/
abbrev Reader (α : Type) := StateT (List Char) (Except Fault) α

/-- A character between values that means nothing. -/
def isBlank (c : Char) : Bool := c = ' ' || c = '\n' || c = '\t' || c = '\r'

namespace Reader

def fail {α : Type} (f : Fault) : Reader α := fun _ => .error f

/-- The next character, left unread, if there is one. -/
def peek? : Reader (Option Char) := fun cs => .ok (cs.head?, cs)

/-- Take the next character. -/
def drop : Reader Unit := fun cs => .ok ((), cs.tail)

/-- Pass over blanks; the character behind them is left unread. -/
def next? : Reader (Option Char) := fun cs =>
  let cs := cs.dropWhile isBlank
  .ok (cs.head?, cs)

/-- Pass over blanks to a character, which is left unread. -/
def next : Reader Char := do
  match ← next? with
  | some c => return c
  | none => fail .cutShort

/-- The character `c` behind blanks. -/
def expect (c : Char) : Reader Unit := do
  if (← next) = c then drop else fail .malformed

/-- The characters of a word, one by one. -/
def word : List Char → Reader Unit
  | [] => return ()
  | c :: cs => do
    match ← peek? with
    | none => fail .cutShort
    | some d => if d = c then drop; word cs else fail .malformed

/-- Run a reader on a whole text, which has to end behind the value. -/
def run {α : Type} (r : Reader α) (text : String) : Except Fault α :=
  match (do let a ← r; return (a, ← next?) : Reader (α × Option Char)) text.toList with
  | .error f => .error f
  | .ok ((a, none), _) => .ok a
  | .ok ((_, some _), _) => .error .malformed

end Reader

open Reader

/-! ### Numbers -/

/-- The digits from here on. -/
def digits : Reader (List Char) := fun cs => .ok (cs.takeWhile Char.isDigit, cs.dropWhile Char.isDigit)

/-- Digits of which at least one is required. -/
def someDigits : Reader (List Char) := do
  match ← peek? with
  | none => fail .cutShort
  | some c => if c.isDigit then digits else fail .malformed

/-- The digits before a point; only a lone zero starts with a zero. -/
def wholeDigits : Reader (List Char) := do
  let ds ← someDigits
  if ds.head? = some '0' ∧ 1 < ds.length then fail .malformed else return ds

/-- Take the next character if it is one of the given ones. -/
def takeOneOf (cs : List Char) : Reader (Option Char) := do
  match ← peek? with
  | some c => if c ∈ cs then drop; return some c else return none
  | none => return none

/-- A number as it is written. -/
structure Numeral where
  negative : Bool
  whole : List Char
  fraction : Option (List Char)
  /-- The sign and the digits of the exponent. -/
  exponent : Option (Bool × List Char)

/-- As many digits as keep a number within a word of 64 bits, put behind those of `n`, and how many
are left over. -/
def fitting (n : Nat) : List Char → Nat × Nat
  | [] => (n, 0)
  | c :: cs =>
    let n' := n * 10 + Digits.valueOf c
    if n' ≤ 0xFFFFFFFFFFFFFFFF then fitting n' cs else (n, cs.length + 1)

/-- The least product that no double comes near. -/
def doubleBound : Nat := (1 <<< 1024) - (1 <<< 970)

namespace Numeral

/-- The digits that count and the power of ten that they are multiplied by. -/
def scaled (n : Numeral) : Nat × Int :=
  let (significand, surplus) := fitting 0 n.whole
  let fraction := n.fraction.getD []
  let (significand, ignored) := fitting significand fraction
  let shift : Int := match n.exponent with
    | none => 0
    | some (negative, ds) => if negative then -(Digits.value ds : Int) else Digits.value ds
  (significand, (surplus : Int) - (fraction.length - ignored : Nat) + shift)

/-- Whether the number is too large for a double.  Both the digits and the power of ten are kept
as doubles. -/
def tooLarge (n : Numeral) : Bool :=
  let (significand, power) := n.scaled
  significand ≠ 0 && 0 ≤ power &&
    (308 < power ||
      let a := (Fraction.mk significand 1).toDouble
      let b := (Fraction.mk (Nat.pow 10 power.toNat) 1).toDouble
      doubleBound * (a.den * b.den) ≤ a.num * b.num)

/-- The value of a whole number that is written without point and exponent.  A zero with a sign is
none. -/
def integer? (n : Numeral) : Option Int :=
  match n.fraction, n.exponent with
  | none, none =>
    let value := Digits.value n.whole
    if n.negative then (if value = 0 then none else some (-(value : Int))) else some value
  | _, _ => none

end Numeral

/-- The exponent of a number, if it has one. -/
def exponentPart : Reader (Option (Bool × List Char)) := do
  match ← takeOneOf ['e', 'E'] with
  | none => return none
  | some _ =>
    let sign ← takeOneOf ['+', '-']
    return some (sign = some '-', ← someDigits)

/-- A number, which a double could hold. -/
def numeral : Reader Numeral := do
  let sign ← takeOneOf ['-']
  let whole ← wholeDigits
  let fraction ← match ← takeOneOf ['.'] with
    | none => pure none
    | some _ => some <$> someDigits
  let n : Numeral := ⟨sign.isSome, whole, fraction, ← exponentPart⟩
  if n.tooLarge then fail .malformed else return n

/-! ### Texts -/

def hexValue? (c : Char) : Option Nat :=
  if c.isDigit then some (Digits.valueOf c)
  else if 'a' ≤ c && c ≤ 'f' then some (c.toNat - 'a'.toNat + 10)
  else if 'A' ≤ c && c ≤ 'F' then some (c.toNat - 'A'.toNat + 10)
  else none

/-- The number of four hexadecimal digits.  The text is too short only if fewer than four bytes of
it are left. -/
def hexQuad (cs : List Char) : Except Fault (Nat × List Char) :=
  match (cs.take 4).mapM hexValue? with
  | some [a, b, c, d] => .ok (((a * 16 + b) * 16 + c) * 16 + d, cs.drop 4)
  | _ => .error (if (String.ofList cs).utf8ByteSize < 4 then .cutShort else .malformed)

/-- The character that an escape of one letter stands for. -/
def letterEscape? : Char → Option Char
  | '"' => some '"'
  | '\\' => some '\\'
  | '/' => some '/'
  | 'b' => some '\x08'
  | 'f' => some '\x0c'
  | 'n' => some '\n'
  | 'r' => some '\r'
  | 't' => some '\t'
  | _ => none

/-- Half of a pair that spells one character outside the first plane. -/
def isLeading (n : Nat) : Bool := 0xD800 ≤ n && n < 0xDC00
def isTrailing (n : Nat) : Bool := 0xDC00 ≤ n && n < 0xE000

/-- The character that numbers in an escape spell; halves have to stand in pairs. -/
def unicodeEscape (cs : List Char) : Except Fault (Char × List Char) := do
  let (n, cs) ← hexQuad cs
  if isTrailing n then throw .malformed
  if !isLeading n then return (Char.ofNat n, cs)
  match cs with
  | [] | ['\\'] => throw .cutShort
  | '\\' :: 'u' :: cs =>
    let (m, cs) ← hexQuad cs
    if isTrailing m then
      return (Char.ofNat (0x10000 + (n - 0xD800) * 0x400 + (m - 0xDC00)), cs)
    else throw .malformed
  | _ => throw .malformed

/-- What stands behind a backslash. -/
def escape : List Char → Except Fault (Char × List Char)
  | [] => .error .cutShort
  | 'u' :: cs => unicodeEscape cs
  | c :: cs =>
    match letterEscape? c with
    | some d => .ok (d, cs)
    | none => .error .malformed

/-- What stands behind a backslash in a text that nobody wants. -/
def escapeUnwanted : List Char → Except Fault (Char × List Char)
  | 'u' :: cs => (hexQuad cs).map fun (_, cs) => ('u', cs)
  | cs => escape cs

theorem length_hexQuad {cs rest : List Char} {n : Nat} (h : hexQuad cs = .ok (n, rest)) :
    rest.length ≤ cs.length := by
  unfold hexQuad at h
  split at h
  · cases h
    simp
  · cases h

theorem length_unicodeEscape {cs rest : List Char} {c : Char}
    (h : unicodeEscape cs = .ok (c, rest)) : rest.length ≤ cs.length := by
  simp only [unicodeEscape, bind, Except.bind] at h
  split at h
  · cases h
  · rename_i r hq
    have h1 := length_hexQuad hq
    split at h
    · cases h
    · split at h
      · cases h
        exact h1
      · split at h
        · cases h
        · cases h
        · rename_i cs' he
          rw [he] at h1
          simp only [List.length_cons] at h1
          split at h
          · cases h
          · rename_i r' hq'
            have h2 := length_hexQuad hq'
            split at h
            · simp only [pure, Except.pure, Except.ok.injEq, Prod.mk.injEq] at h
              rw [← h.2]
              omega
            · cases h
        · cases h

theorem length_escape {cs rest : List Char} {c : Char} (h : escape cs = .ok (c, rest)) :
    rest.length ≤ cs.length := by
  unfold escape at h
  split at h
  · cases h
  · exact Nat.le_succ_of_le (length_unicodeEscape h)
  · split at h
    · cases h
      simp
    · cases h

theorem length_escapeUnwanted {cs rest : List Char} {c : Char}
    (h : escapeUnwanted cs = .ok (c, rest)) : rest.length ≤ cs.length := by
  unfold escapeUnwanted at h
  split at h
  · rename_i cs
    cases hq : hexQuad cs with
    | error e => simp [hq, Except.map] at h
    | ok r =>
      simp only [hq, Except.map, Except.ok.injEq, Prod.mk.injEq] at h
      have := length_hexQuad hq
      rw [← h.2, List.length_cons]
      omega
  · exact length_escape h

/-- The characters of a text up to its closing quote, put behind those in `acc`, which are kept in
reverse. -/
def textFrom (wanted : Bool) (acc : List Char) (cs : List Char) :
    Except Fault (List Char × List Char) :=
  match cs with
  | [] => .error .cutShort
  | c :: cs =>
    if c = '"' then .ok (acc.reverse, cs)
    else if c = '\\' then
      match _step : if wanted then escape cs else escapeUnwanted cs with
      | .error f => .error f
      | .ok (c, cs') => textFrom wanted (c :: acc) cs'
    else if c < ' ' then .error .malformed
    else textFrom wanted (c :: acc) cs
termination_by cs.length
decreasing_by
  · have : cs'.length ≤ cs.length := by
      cases wanted
      · exact length_escapeUnwanted _step
      · exact length_escape _step
    simp only [List.length_cons]
    omega
  · simp

/-- A text whose opening quote was taken. -/
def textBody (wanted : Bool) : Reader String := fun cs =>
  (textFrom wanted [] cs).map fun (body, rest) => (String.ofList body, rest)

/-! ### Values that are not expected -/

/-- A value that is not the expected one. -/
def mismatch {α : Type} : Reader α := do
  match ← next with
  | 'n' => word ['n', 'u', 'l', 'l']
  | 't' => word ['t', 'r', 'u', 'e']
  | 'f' => word ['f', 'a', 'l', 's', 'e']
  | '"' => do
    drop
    let _ ← textBody true
  | '[' | '{' => return ← fail .unfit
  | c =>
    if c = '-' || c.isDigit then
      let _ ← numeral
    else return ← fail .malformed
  fail .unfit

/-- A number in a value that nobody wants.  Where the text ends inside it, it is malformed. -/
def skipNumber : Reader Unit := fun cs =>
  match numeralShape cs with
  | .error _ => .error .malformed
  | .ok (_, cs) => .ok ((), cs)
where
  /-- A number of any size. -/
  numeralShape : Reader Unit := do
    let _ ← takeOneOf ['-']
    let _ ← wholeDigits
    if (← takeOneOf ['.']).isSome then
      let _ ← someDigits
    let _ ← exponentPart

mutual

/-- Pass over a value that nobody wants, with at most `fuel` steps. -/
def skipWith : Nat → Reader Unit
  | 0 => fail .malformed
  | fuel + 1 => do
    match ← next with
    | 'n' => word ['n', 'u', 'l', 'l']
    | 't' => word ['t', 'r', 'u', 'e']
    | 'f' => word ['f', 'a', 'l', 's', 'e']
    | '"' => do
      drop
      let _ ← textBody false
    | '[' => do
      drop
      if (← next) = ']' then drop else skipItems fuel
    | '{' => do
      drop
      if (← next) = '}' then drop else skipMembers fuel
    | c => if c = '-' || c.isDigit then skipNumber else fail .malformed

/-- The items of a list from one item on. -/
def skipItems : Nat → Reader Unit
  | 0 => fail .malformed
  | fuel + 1 => do
    skipWith fuel
    match ← next with
    | ']' => drop
    | ',' => do
      drop
      skipItems fuel
    | _ => fail .malformed

/-- The members of an object from one member on. -/
def skipMembers : Nat → Reader Unit
  | 0 => fail .malformed
  | fuel + 1 => do
    expect '"'
    let _ ← textBody false
    expect ':'
    skipWith fuel
    match ← next with
    | '}' => drop
    | ',' => do
      drop
      skipMembers fuel
    | _ => fail .malformed

end

/-- Pass over a value that nobody wants.  Each step takes a character, so there are enough. -/
def skip : Reader Unit := do skipWith ((← get).length * 2 + 1)

/-! ### Values that are expected -/

def string : Reader String := do
  if (← next) = '"' then
    drop
    textBody true
  else mismatch

def boolean : Reader Bool := do
  match ← next with
  | 't' => do
    word ['t', 'r', 'u', 'e']
    return true
  | 'f' => do
    word ['f', 'a', 'l', 's', 'e']
    return false
  | _ => mismatch

/-- The least and the greatest number in a signed word of 64 bits. -/
def leastWord : Int := -0x8000000000000000
def greatestWord : Int := 0x7FFFFFFFFFFFFFFF

/-- A whole number that fits a signed word of 64 bits. -/
def integer : Reader Int := do
  let c ← next
  if c = '-' || c.isDigit then
    match (← numeral).integer? with
    | some n => if leastWord ≤ n && n ≤ greatestWord then return n else fail .unfit
    | none => fail .unfit
  else mismatch

/-- Nothing, or a value. -/
def optional {α : Type} (r : Reader α) : Reader (Option α) := do
  if (← next?) = some 'n' then
    word ['n', 'u', 'l', 'l']
    return none
  else some <$> r

/-- One of several names, alone or as the name of a member with nothing in it.  What is neither is malformed,
and so is a member whose name is not a text. -/
def oneOf {α : Type} (names : List (String × α)) : Reader α := do
  match ← next with
  | '"' => named
  | '{' => do
    drop
    let a ← named
    expect ':'
    if (← next) = 'n' then word ['n', 'u', 'l', 'l'] else mismatch
    expect '}'
    return a
  | _ => fail .malformed
where
  /-- A text that has to be one of the names. -/
  named : Reader α := do
    expect '"'
    match names.lookup (← textBody true) with
    | some a => return a
    | none => fail .unfit

/-- A member of a record: its name, and how its value is read into the record. -/
structure Member (σ : Type) where
  name : String
  read : σ → Reader σ

/-- The members of a record from one member on, some of which were read before.  None may come twice,
and members with other names do not matter. -/
def membersWith {σ : Type} (members : List (Member σ)) :
    Nat → List String → σ → Reader σ
  | 0, _, _ => fail .malformed
  | fuel + 1, before, s => do
    expect '"'
    let name ← textBody true
    let s ← match members.find? (·.name = name) with
      | none => do
        expect ':'
        skip
        pure s
      | some m =>
        if name ∈ before then fail .unfit
        else do
          expect ':'
          m.read s
    match ← next with
    | '}' => do
      drop
      return s
    | ',' => do
      drop
      membersWith members fuel (name :: before) s
    | _ => fail .malformed

/-- The values of a record in the order of its members.  Values at the end may be missing, but
there may not be more. -/
def valuesOf {σ : Type} : List (Member σ) → (first : Bool) → σ → Reader σ
  | members, first, s => do
    if (← next) = ']' then
      drop
      return s
    if !first then expect ','
    match members with
    | [] => fail .malformed
    | m :: members =>
      if (← next) = ']' then fail .malformed
      valuesOf members false (← m.read s)

/-- A record, as an object or as a list of its values in order.  What is missing stays as it is in
`start`. -/
def record {σ : Type} (members : List (Member σ)) (start : σ) : Reader σ := do
  match ← next with
  | '{' => do
    drop
    if (← next) = '}' then
      drop
      return start
    else membersWith members ((← get).length + 1) [] start
  | '[' => do
    drop
    valuesOf members true start
  | _ => mismatch

end IsoMedia.Json

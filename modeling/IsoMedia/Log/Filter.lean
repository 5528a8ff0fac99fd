import IsoMedia.Journal
import IsoMedia.Text.Alphanumeric
import IsoMedia.Text.Blank
import IsoMedia.Text.Cut
import IsoMedia.Text.Digits

/-!
# Filtering the log

A filter is a list of rules, joined by commas.  A rule is written `target[span{field}]=level`, where each
part may be missing: it gives a level to the notes of all speakers whose name starts with its target,
if notes have its field.  Of the rules that apply to a note the most special one decides
(`LogFilter.levelFor`).  Rules for notes within spans are read too; no note is taken within a span.

Blanks around a rule are no part of it (`LogRule.ofChars`), but its parts are cut out of the text with its
blanks, at the distances they have in the text without them.  So a blank at the front moves the parts.
-/

namespace IsoMedia

/-- A rule of a filter. -/
structure LogRule where
  /-- The start of the names of speakers that the rule is for; a rule for all has none. -/
  target : Option String := none
  /-- The field that a note has to have, if any. -/
  field : Option String := none
  /-- Whether the rule is only for notes within certain spans. -/
  withinSpans : Bool := false
  /-- The rank of the most detailed level that passes; 0 lets nothing pass. -/
  level : Nat
deriving DecidableEq

/-- Why a text is not a rule. -/
inductive RuleFault where
  | malformed
  | unknownLevel
  /-- A part would begin or end inside a character. -/
  | insideCharacter
deriving DecidableEq

def RuleFault.message : RuleFault → String
  | malformed => "invalid filter directive"
  | unknownLevel =>
    "error parsing level filter: expected one of \"off\", \"error\", \"warn\", \"info\", \"debug\", \"trace\", or a number 0-5"
  | insideCharacter => "invalid filter directive"

namespace LogRule

/-- The words for levels, with their ranks. -/
def levelWords : List (String × Nat) :=
  [("off", 0), ("error", 1), ("warn", 2), ("info", 3), ("debug", 4), ("trace", 5)]

/-- The rank that lets everything pass, which is that of a rule without a level. -/
def everything : Nat := 5

/-- The digits of a number, which may have a sign before it. -/
def digitsOf : List Char → List Char
  | '+' :: cs => cs
  | cs => cs

/-- The rank of a level, given as a word in any letter case or as a number. -/
def level? (text : String) : Option Nat :=
  let ds := digitsOf text.toList
  if ds ≠ [] ∧ ds.all Char.isDigit then
    let n := Digits.value ds
    if n ≤ 5 then some n else none
  else levelWords.lookup (text.map Char.toLower)

/-! ### Reading a rule -/

/-- Whether a rule without spans may start with a character. -/
def mayStart (c : Char) : Bool := c = '-' || c = ':' || c = '_' || Text.isAlphanumeric c

/-- The part between two places of a text. -/
def part (text : List Char) (first stop : Nat) : Except RuleFault String :=
  match Text.cut? first stop text with
  | some cs => .ok (String.ofList cs)
  | none => .error .insideCharacter

/-- The level from a place on to the end; without one everything passes. -/
def levelFrom (text : List Char) (first : Nat) : Except RuleFault Nat :=
  match Text.cutFrom? first text with
  | none => .error .insideCharacter
  | some [] => .ok everything
  | some cs =>
    match level? (String.ofList cs) with
    | some level => .ok level
    | none => .error .unknownLevel

/-- The end of a rule behind its spans, from a place on. -/
def ofEnd (text : List Char) (r : LogRule) (first : Nat) : List Char → Except RuleFault LogRule
  | [] => .ok r
  | '=' :: _ => do return { r with level := ← levelFrom text (first + 1) }
  | _ => .error .malformed

/-- A rule from its field on.  A field whose value is asked for is that of a span. -/
def ofField (text : List Char) (r : LogRule) (first : Nat) (cs : List Char) :
    Except RuleFault LogRule := do
  let front := cs.takeWhile (· ≠ '}')
  let stop := first + Text.byteCount front
  match cs.drop front.length with
  | [] => throw .malformed
  | _ :: behind =>
    let field := (← part text first stop).toList
    let name := field.takeWhile (· ≠ '=')
    match field, behind with
    | _ :: _, ']' :: behind =>
      ofEnd text
        { r with
          field := some (String.ofList name)
          withinSpans := r.withinSpans || name ≠ field }
        (stop + 2) behind
    | _, _ => throw .malformed

/-- A rule from the name of its spans on. -/
def ofSpan (text : List Char) (target : Option String) (first : Nat) (cs : List Char) :
    Except RuleFault LogRule := do
  let front := cs.takeWhile fun c => c ≠ ']' ∧ c ≠ '{'
  let stop := first + Text.byteCount front
  match cs.drop front.length with
  | [] => throw .malformed
  | bracket :: behind =>
    let name ← part text first stop
    if bracket = ']' then
      ofEnd text { target, withinSpans := true, level := everything } (stop + 1) behind
    else
      ofField text { target, withinSpans := name ≠ "", level := everything } (stop + 1) behind

/-- The rule that a text spells.  A text with neither a target nor spans is a level, or else the target
of a rule that lets everything pass. -/
def ofChars (text : List Char) : Except RuleFault LogRule :=
  match Text.trim text with
  | [] => .error .malformed
  | '[' :: behind => ofSpan text none 1 behind
  | c :: cs =>
    if !mayStart c then .error .malformed
    else do
      let front := (c :: cs).takeWhile fun c => c ≠ '=' ∧ c ≠ '['
      let stop := Text.byteCount front
      match (c :: cs).drop front.length with
      | [] =>
        match level? (String.ofList text) with
        | some level => return { level }
        | none => return { target := some (String.ofList text), level := everything }
      | '=' :: _ =>
        let target ← part text 0 stop
        return { target := some target, level := ← levelFrom text (stop + 1) }
      | _ :: behind => ofSpan text (some (← part text 0 stop)) (stop + 1) behind

/-! ### Which rule decides -/

/-- The names of the fields of a note. -/
def noteFields : List String :=
  ["message", "log.target", "log.module_path", "log.file", "log.line"]

/-- Whether the rule is for the notes of a speaker. -/
def appliesTo (r : LogRule) (speaker : Speaker) : Bool :=
  !r.withinSpans && r.field.all (noteFields.contains ·) &&
    r.target.all fun target => target.toList.isPrefixOf speaker.target.toList

/-- The length of the target, by which a rule is special in the first place. -/
def weight (r : LogRule) : Nat := (r.target.map fun t => t.utf8ByteSize + 1).getD 0

/-- Whether a field is less special than another: none is, and else the lesser name. -/
def fieldBefore : Option String → Option String → Bool
  | _, none => false
  | none, some _ => true
  | some a, some b => a < b

/-- Whether a rule is less special than another that applies to the same speaker. -/
def before (a b : LogRule) : Bool :=
  a.weight < b.weight || (a.weight = b.weight && fieldBefore a.field b.field)

end LogRule

/-- The rules of a filter, the later of two rules for the same notes first. -/
structure LogFilter where
  rules : List LogRule
deriving DecidableEq

namespace LogFilter

/-- The parts of a text between commas. -/
def parts : List Char → List (List Char)
  | [] => [[]]
  | c :: cs =>
    if c = ',' then [] :: parts cs
    else match parts cs with
      | [] => [[c]]
      | p :: ps => (c :: p) :: ps

/-- What the parts of a text spell. -/
def readings (text : String) : List (List Char × Except RuleFault LogRule) :=
  ((parts text.toList).filter (· ≠ [])).map fun p => (p, LogRule.ofChars p)

/-- The complaint about a part that is passed over. -/
def complaint? : List Char × Except RuleFault LogRule → Option String
  | (_, .ok _) => none
  | (part, .error fault) => some s!"ignoring \x60{String.ofList part}\x60: {fault.message}"

/-- The complaints about a text. -/
def complaints (text : String) : List String := (readings text).filterMap complaint?

/-- The rules that are spelled by parts of a text. -/
def rulesOf : List (List Char × Except RuleFault LogRule) → Option (List LogRule)
  | [] => some []
  | (_, .error .insideCharacter) :: _ => none
  | (_, .error _) :: readings => rulesOf readings
  | (_, .ok r) :: readings => (rulesOf readings).map (r :: ·)

/-- The filter that a text spells; without any rule only errors pass.  There is none if a part of a rule
would begin or end inside a character. -/
def ofText? (text : String) : Option LogFilter :=
  (rulesOf (readings text)).map fun rules =>
    ⟨if rules = [] then [{ level := 1 }] else rules.reverse⟩

/-- Of two rules the more special one, or else the first. -/
def moreSpecial (best : Option LogRule) (r : LogRule) : Option LogRule :=
  match best with
  | none => some r
  | some b => if b.before r then some r else some b

/-- The rank of the most detailed level of a speaker that passes. -/
def levelFor (f : LogFilter) (speaker : Speaker) : Nat :=
  (((f.rules.filter (·.appliesTo speaker)).foldl moreSpecial none).map (·.level)).getD 0

/-- Whether a note passes. -/
def passes (f : LogFilter) (n : Note) : Bool := n.level.rank ≤ f.levelFor n.speaker

end LogFilter

end IsoMedia

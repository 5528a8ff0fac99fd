/-!
# Writing JSON

`Json` is what a report in JSON is made of; `Json.pretty` writes it over several lines, each level of
nesting two spaces further in.
-/

namespace IsoMedia

/-- A JSON value, as far as reports need one. -/
inductive Json where
  | number (value : Int)
  | text (value : String)
  | list (items : List Json)
  /-- The members in the order in which they are written. -/
  | object (members : List (String × Json))

namespace Json

/-- One digit in lower case. -/
def hexDigit (n : Nat) : Char := Nat.digitChar (n % 16)

/-- A character inside quotes.  Quotes, backslashes and control characters are escaped, the latter by
a letter where there is one. -/
def escaped (c : Char) : List Char :=
  match c with
  | '"' => ['\\', '"']
  | '\\' => ['\\', '\\']
  | '\n' => ['\\', 'n']
  | '\r' => ['\\', 'r']
  | '\t' => ['\\', 't']
  | '\x08' => ['\\', 'b']
  | '\x0c' => ['\\', 'f']
  | c =>
    if c < ' ' then ['\\', 'u', '0', '0', hexDigit (c.toNat / 16), hexDigit c.toNat] else [c]

/-- A text in quotes. -/
def quoted (s : String) : String :=
  String.ofList ('"' :: (s.toList.flatMap escaped ++ ['"']))

/-- The start of a line at a level of nesting. -/
def lineStart (level : Nat) : String := String.ofList ('\n' :: List.replicate (2 * level) ' ')

/-- Lines between an opening and a closing bracket; without lines the brackets touch. -/
def bracketed (opening closing : String) (level : Nat) : List String → String
  | [] => opening ++ closing
  | lines =>
    let start := lineStart (level + 1)
    opening ++ start ++ String.intercalate ("," ++ start) lines ++ lineStart level ++ closing

mutual

/-- A value whose first line is already begun, at a level of nesting. -/
def prettyAt (level : Nat) : Json → String
  | number n => toString n
  | text s => quoted s
  | list items => bracketed "[" "]" level (prettyItems (level + 1) items)
  | object members => bracketed "\x7b" "\x7d" level (prettyMembers (level + 1) members)

/-- Each item of a list. -/
def prettyItems (level : Nat) : List Json → List String
  | [] => []
  | j :: js => prettyAt level j :: prettyItems level js

/-- Each member of an object. -/
def prettyMembers (level : Nat) : List (String × Json) → List String
  | [] => []
  | (name, j) :: rest => (quoted name ++ ": " ++ prettyAt level j) :: prettyMembers level rest

end

/-- A value over several lines. -/
def pretty (j : Json) : String := prettyAt 0 j

end Json

end IsoMedia

import RegexCompiler.Decimal.Style

/-!
# Written JSON

The values that exports are made of, and their two written forms: one without any space, and one
with a line for every member. Members keep the order in which they are given.
-/

namespace RegexCompiler

/-- A JSON value; truth values and null do not occur in exports. -/
inductive Json where
  | text (value : String)
  | number (value : Float)
  | list (items : List Json)
  | record (fields : List (String × Json))

namespace Json

/-- How one character is written inside a JSON text. -/
def escape (c : Char) : List Char :=
  match c with
  | '"' => ['\\', '"']
  | '\\' => ['\\', '\\']
  | '\n' => ['\\', 'n']
  | '\r' => ['\\', 'r']
  | '\t' => ['\\', 't']
  | '\x08' => ['\\', 'b']
  | '\x0c' => ['\\', 'f']
  | c =>
    if c.toNat < 0x10 then ['\\', 'u', '0', '0', '0'] ++ Nat.toDigits 16 c.toNat
    else if c.toNat < 0x20 then ['\\', 'u', '0', '0'] ++ Nat.toDigits 16 c.toNat
    else [c]

def quoted (value : String) : String :=
  String.ofList ('"' :: value.toList.flatMap escape ++ ['"'])

mutual

/-- The form without spaces. -/
def compact : Json → String
  | text value => quoted value
  | number value => Decimal.interchange.write value
  | list items => "[" ++ String.intercalate "," (compactItems items) ++ "]"
  | record fields => "\x7b" ++ String.intercalate "," (compactFields fields) ++ "\x7d"

def compactItems : List Json → List String
  | [] => []
  | item :: items => item.compact :: compactItems items

def compactFields : List (String × Json) → List String
  | [] => []
  | (name, value) :: fields => (quoted name ++ ":" ++ value.compact) :: compactFields fields

end

/-- A line break and the given number of indentation steps of two spaces. -/
def newLine (depth : Nat) : String :=
  String.ofList ('\n' :: List.replicate (2 * depth) ' ')

/-- Members on lines of their own between two brackets; nothing stands between the brackets if
there are no members. -/
def bracketed (opening closing : String) (depth : Nat) (members : List String) : String :=
  if members.isEmpty then opening ++ closing
  else
    opening ++ newLine (depth + 1)
      ++ String.intercalate ("," ++ newLine (depth + 1)) members
      ++ newLine depth ++ closing

mutual

/-- The form with a line for every member, inside a value at the given depth. -/
def indented (depth : Nat) : Json → String
  | text value => quoted value
  | number value => Decimal.interchange.write value
  | list items => bracketed "[" "]" depth (indentedItems (depth + 1) items)
  | record fields => bracketed "\x7b" "\x7d" depth (indentedFields (depth + 1) fields)

def indentedItems (depth : Nat) : List Json → List String
  | [] => []
  | item :: items => item.indented depth :: indentedItems depth items

def indentedFields (depth : Nat) : List (String × Json) → List String
  | [] => []
  | (name, value) :: fields =>
    (quoted name ++ ": " ++ value.indented depth) :: indentedFields depth fields

end

/-- The form for readers: a line for every member, indented by two spaces a level. -/
def pretty (value : Json) : String :=
  value.indented 0

end Json

end RegexCompiler

/-!
# JSON values and their text

Settings and reports are JSON. A string is written with quotes and backslashes escaped, with short
escapes where they exist and numeric ones for the other control characters; everything else stands
for itself. Values are laid out with one element per line and two blanks per level.
-/
namespace GoWeave

mutual

inductive Json where
  | null
  | bool (value : Bool)
  /-- A number as it is spelled. -/
  | number (text : String)
  /-- A string. Its text is absent if its escapes name half of a surrogate pair. -/
  | string (text : Option String)
  | array (elements : List Json)
  | object (members : List Member)

/-- A member of an object. Members keep their order, and a key may repeat. -/
structure Member where
  key : Option String
  value : Json

end

namespace Json

/-- A string with a text. -/
def text (s : String) : Json :=
  .string (some s)

/-- A string, or nothing. -/
def textOrNull : Option String → Json
  | some s => text s
  | none => null

def ofNat (n : Nat) : Json :=
  .number (toString n)

/-- An object whose members have the given keys. -/
def record (members : List (String × Json)) : Json :=
  .object (members.map fun (key, value) => ⟨some key, value⟩)

/-! ## Writing -/

def hexDigit (n : Nat) : Char :=
  if n < 10 then Char.ofNat (48 + n) else Char.ofNat (87 + n)

/-- How a character stands in a string. -/
def escape (c : Char) : List Char :=
  match c with
  | '"' => ['\\', '"']
  | '\\' => ['\\', '\\']
  | '\x08' => ['\\', 'b']
  | '\x0c' => ['\\', 'f']
  | '\n' => ['\\', 'n']
  | '\r' => ['\\', 'r']
  | '\t' => ['\\', 't']
  | c =>
    if c.toNat < 32 then ['\\', 'u', '0', '0', hexDigit (c.toNat / 16), hexDigit (c.toNat % 16)]
    else [c]

/-- The text of a string with its quotes. -/
def quote (s : String) : String :=
  "\"" ++ String.ofList (s.toList.flatMap escape) ++ "\""

/-- The blanks in front of a line at a level. -/
def blanks (level : Nat) : String :=
  String.ofList (List.replicate (2 * level) ' ')

/-- Items between brackets, each on a line of its own. -/
def bracketed (opening closing : String) (level : Nat) (items : List String) : String :=
  if items.isEmpty then opening ++ closing
  else
    opening ++ "\n"
      ++ String.intercalate ",\n" (items.map (blanks (level + 1) ++ ·))
      ++ "\n" ++ blanks level ++ closing

end Json

mutual

/-- The text of a value whose first line is already indented to a level. -/
def Json.render (level : Nat) : Json → String
  | .null => "null"
  | .bool true => "true"
  | .bool false => "false"
  | .number text => text
  | .string text => Json.quote (text.getD "")
  | .array elements => Json.bracketed "[" "]" level (Json.renderAll (level + 1) elements)
  | .object members => Json.bracketed "\x7b" "\x7d" level (Member.renderAll (level + 1) members)

def Json.renderAll (level : Nat) : List Json → List String
  | [] => []
  | x :: xs => x.render level :: Json.renderAll level xs

def Member.render (level : Nat) : Member → String
  | ⟨key, value⟩ => Json.quote (key.getD "") ++ ": " ++ value.render level

def Member.renderAll (level : Nat) : List Member → List String
  | [] => []
  | m :: ms => m.render level :: Member.renderAll level ms

end

/-- The text of a value. -/
def Json.pretty (j : Json) : String :=
  j.render 0

namespace Json

/-! ## Access -/

/-- The text of a string. -/
def text? : Json → Option String
  | .string text => text
  | _ => none

/-- Something that may be null. -/
def nullable? (read : Json → Option α) : Json → Option (Option α)
  | .null => some none
  | j => (read j).map some

def elements? : Json → Option (List Json)
  | .array elements => some elements
  | _ => none

/-- The value of a key, which may not repeat. The outer option is absent if it does. -/
def member? (key : String) (members : List Member) : Option (Option Json) :=
  match members.filter (·.key == some key) with
  | [] => some none
  | [m] => some (some m.value)
  | _ => none

/-- The values of a record's fields, in the order of their names. A record is an object, whose other
members do not matter, or an array that gives the fields by position and may be too short. -/
def fields? (names : List String) : Json → Option (List (Option Json))
  | .object members =>
    if members.any (·.key.isNone) then none else names.mapM (member? · members)
  | .array elements =>
    if names.length < elements.length then none
    else some ((List.range names.length).map (elements[·]?))
  | _ => none

end Json

end GoWeave

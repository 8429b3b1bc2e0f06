import GoWeave.Json

/-!
# Reading JSON

A value is read from the front of a text. Nesting is bounded by the length of the text, which is
passed down as fuel.
-/
namespace GoWeave.Json

def isBlankChar (c : Char) : Bool :=
  c == ' ' || c == '\n' || c == '\t' || c == '\r'

def skipBlanks (cs : List Char) : List Char :=
  cs.dropWhile isBlankChar

/-! ## Strings -/

/-- A piece of a string: a character, or a code that an escape names. -/
inductive Piece where
  | char (c : Char)
  | code (n : Nat)

def hexValue? (c : Char) : Option Nat :=
  if c.isDigit then some (c.toNat - 48)
  else if 'a' ≤ c ∧ c ≤ 'f' then some (c.toNat - 87)
  else if 'A' ≤ c ∧ c ≤ 'F' then some (c.toNat - 55)
  else none

/-- The code that four hexadecimal digits name. -/
def code? (a b c d : Char) : Option Nat := do
  let a ← hexValue? a
  let b ← hexValue? b
  let c ← hexValue? c
  let d ← hexValue? d
  pure (((a * 16 + b) * 16 + c) * 16 + d)

/-- The character that a letter after a backslash names. -/
def unescape? : Char → Option Char
  | '"' => some '"'
  | '\\' => some '\\'
  | '/' => some '/'
  | 'b' => some '\x08'
  | 'f' => some '\x0c'
  | 'n' => some '\n'
  | 'r' => some '\r'
  | 't' => some '\t'
  | _ => none

/-- The pieces of a string up to its closing quote, and the text after it. -/
def pieces? : List Char → Option (List Piece × List Char)
  | [] => none
  | '"' :: cs => some ([], cs)
  | '\\' :: 'u' :: a :: b :: c :: d :: cs => do
    let n ← code? a b c d
    let (ps, rest) ← pieces? cs
    pure (.code n :: ps, rest)
  | '\\' :: c :: cs => do
    let c ← unescape? c
    let (ps, rest) ← pieces? cs
    pure (.char c :: ps, rest)
  | c :: cs =>
    if c.toNat < 32 || c == '\\' then none
    else do
      let (ps, rest) ← pieces? cs
      pure (.char c :: ps, rest)

def isLead (n : Nat) : Bool :=
  0xD800 ≤ n && n < 0xDC00

def isTrail (n : Nat) : Bool :=
  0xDC00 ≤ n && n < 0xE000

/-- The character that a surrogate pair stands for. -/
def ofPair (lead trail : Nat) : Char :=
  Char.ofNat (0x10000 + (lead - 0xD800) * 0x400 + (trail - 0xDC00))

/-- The text of a string's pieces. Half of a surrogate pair has none. -/
def textOf? : List Piece → Option (List Char)
  | [] => some []
  | .char c :: ps => (textOf? ps).map (c :: ·)
  | .code n :: .code m :: ps =>
    if isLead n then
      if isTrail m then (textOf? ps).map (ofPair n m :: ·) else none
    else if isTrail n then none
    else (textOf? (.code m :: ps)).map (Char.ofNat n :: ·)
  | .code n :: ps =>
    if isLead n || isTrail n then none else (textOf? ps).map (Char.ofNat n :: ·)

/-- A string whose opening quote has been taken. -/
def string? (cs : List Char) : Option (Option String × List Char) := do
  let (ps, rest) ← pieces? cs
  pure ((textOf? ps).map String.ofList, rest)

/-! ## Numbers -/

/-- The text after one or more digits. -/
def afterDigits? : List Char → Option (List Char)
  | c :: cs => if c.isDigit then some (cs.dropWhile Char.isDigit) else none
  | [] => none

/-- The text after the part of a number before its point. It has no leading zeros. -/
def afterInteger? : List Char → Option (List Char)
  | '0' :: c :: cs => if c.isDigit then none else some (c :: cs)
  | cs => afterDigits? cs

def afterFraction? : List Char → Option (List Char)
  | '.' :: cs => afterDigits? cs
  | cs => some cs

def afterExponent? : List Char → Option (List Char)
  | c :: cs =>
    if c == 'e' || c == 'E' then
      match cs with
      | '+' :: cs => afterDigits? cs
      | '-' :: cs => afterDigits? cs
      | cs => afterDigits? cs
    else some (c :: cs)
  | [] => some []

def number? (cs : List Char) : Option (String × List Char) := do
  let digits :=
    match cs with
    | '-' :: rest => rest
    | cs => cs
  let rest ← afterInteger? digits
  let rest ← afterFraction? rest
  let rest ← afterExponent? rest
  pure (String.ofList (cs.take (cs.length - rest.length)), rest)

/-! ## Values -/

/-- A value spelled as one word, or a number. -/
def atom? : List Char → Option (Json × List Char)
  | 'n' :: 'u' :: 'l' :: 'l' :: cs => some (.null, cs)
  | 't' :: 'r' :: 'u' :: 'e' :: cs => some (.bool true, cs)
  | 'f' :: 'a' :: 'l' :: 's' :: 'e' :: cs => some (.bool false, cs)
  | cs => (number? cs).map fun (text, rest) => (.number text, rest)

mutual

def value? : Nat → List Char → Option (Json × List Char)
  | 0, _ => none
  | fuel + 1, cs =>
    match skipBlanks cs with
    | '"' :: cs => (string? cs).map fun (text, rest) => (.string text, rest)
    | '[' :: cs =>
      match skipBlanks cs with
      | ']' :: rest => some (.array [], rest)
      | cs => (elementsFrom? fuel cs).map fun (elements, rest) => (.array elements, rest)
    | '\x7b' :: cs =>
      match skipBlanks cs with
      | '\x7d' :: rest => some (.object [], rest)
      | cs => (membersFrom? fuel cs).map fun (members, rest) => (.object members, rest)
    | cs => atom? cs

/-- One or more elements up to the closing bracket. -/
def elementsFrom? : Nat → List Char → Option (List Json × List Char)
  | 0, _ => none
  | fuel + 1, cs =>
    match value? fuel cs with
    | none => none
    | some (x, rest) =>
      match skipBlanks rest with
      | ']' :: rest => some ([x], rest)
      | ',' :: rest => (elementsFrom? fuel rest).map fun (xs, rest) => (x :: xs, rest)
      | _ => none

/-- One or more members up to the closing brace. -/
def membersFrom? : Nat → List Char → Option (List Member × List Char)
  | 0, _ => none
  | fuel + 1, cs =>
    match skipBlanks cs with
    | '"' :: cs =>
      match string? cs with
      | none => none
      | some (key, rest) =>
        match skipBlanks rest with
        | ':' :: rest =>
          match value? fuel rest with
          | none => none
          | some (value, rest) =>
            match skipBlanks rest with
            | '\x7d' :: rest => some ([⟨key, value⟩], rest)
            | ',' :: rest =>
              (membersFrom? fuel rest).map fun (members, rest) => (⟨key, value⟩ :: members, rest)
            | _ => none
        | _ => none
    | _ => none

end

/-- The value that a text spells. A value takes at least one character, and at most two calls. -/
def parse? (text : String) : Option Json :=
  match value? (2 * text.length + 2) text.toList with
  | some (j, rest) => if (skipBlanks rest).isEmpty then some j else none
  | none => none

end GoWeave.Json

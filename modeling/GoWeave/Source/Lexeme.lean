import GoWeave.Text.Identifier
import GoWeave.Tree

/-!
# Lexemes

Words, numbers, strings and runes at the start of a text. Each reader takes as many characters as
the lexeme can have and answers with the text after it, so the lexeme itself is what was taken away.
-/
namespace GoWeave.Source

/-- The characters between a text and a later part of it. -/
def taken (cs rest : List Char) : List Char :=
  cs.take (cs.length - rest.length)

/-- The word at the start of a text and what follows it. -/
def word? : List Char → Option (String × List Char)
  | [] => none
  | c :: cs =>
    if Text.isIdentStart c then
      some (String.ofList (c :: cs.takeWhile Text.isIdentRest), cs.dropWhile Text.isIdentRest)
    else none

/-! ## Numbers -/

def isHexDigit (c : Char) : Bool :=
  c.isDigit || ('a' ≤ c && c ≤ 'f') || ('A' ≤ c && c ≤ 'F')

def isOctalDigit (c : Char) : Bool :=
  '0' ≤ c && c ≤ '7'

def isBinaryDigit (c : Char) : Bool :=
  c == '0' || c == '1'

/-- Digits with single underscores between them, after a first digit. -/
def moreDigits (digit : Char → Bool) : List Char → List Char
  | '_' :: c :: cs => if digit c then moreDigits digit cs else '_' :: c :: cs
  | c :: cs => if digit c then moreDigits digit cs else c :: cs
  | [] => []

/-- The text after one or more digits. -/
def digits? (digit : Char → Bool) : List Char → Option (List Char)
  | c :: cs => if digit c then some (moreDigits digit cs) else none
  | [] => none

/-- The text after an optional underscore. -/
def afterUnderscore : List Char → List Char
  | '_' :: cs => cs
  | cs => cs

/-- Of two readings the longer. -/
def longer (a b : Option (List Char)) : Option (List Char) :=
  match a, b with
  | none, b => b
  | a, none => a
  | some x, some y => if y.length < x.length then some y else some x

/-- The text after an integer: decimal, `0x`, `0b`, `0o`, or octal by a leading zero. -/
def integer? : List Char → Option (List Char)
  | '0' :: cs =>
    let prefixed :=
      match cs with
      | c :: rest =>
        if c == 'x' || c == 'X' then digits? isHexDigit (afterUnderscore rest)
        else if c == 'b' || c == 'B' then digits? isBinaryDigit (afterUnderscore rest)
        else if c == 'o' || c == 'O' then digits? isOctalDigit (afterUnderscore rest)
        else digits? isOctalDigit (afterUnderscore cs)
      | [] => none
    longer (some cs) prefixed
  | c :: cs => if c.isDigit then some (moreDigits Char.isDigit cs) else none
  | [] => none

/-- The text after an exponent introduced by one of two letters. -/
def exponent? (lower upper : Char) : List Char → Option (List Char)
  | c :: cs =>
    if c == lower || c == upper then
      match cs with
      | '+' :: cs => digits? Char.isDigit cs
      | '-' :: cs => digits? Char.isDigit cs
      | cs => digits? Char.isDigit cs
    else none
  | [] => none

def decimalExponent? : List Char → Option (List Char) :=
  exponent? 'e' 'E'

/-- The text after a decimal fraction or a number with an exponent. -/
def decimalFloat? (cs : List Char) : Option (List Char) :=
  match cs with
  | '.' :: rest =>
    (digits? Char.isDigit rest).map fun rest => (decimalExponent? rest).getD rest
  | cs =>
    match digits? Char.isDigit cs with
    | none => none
    | some ('.' :: rest) =>
      let rest := (digits? Char.isDigit rest).getD rest
      some ((decimalExponent? rest).getD rest)
    | some rest => decimalExponent? rest

/-- The text after the digits of a hexadecimal fraction. -/
def hexMantissa? : List Char → Option (List Char)
  | '.' :: cs => digits? isHexDigit cs
  | cs =>
    match digits? isHexDigit (afterUnderscore cs) with
    | some ('.' :: rest) => some ((digits? isHexDigit rest).getD rest)
    | found => found

/-- The text after a hexadecimal fraction, which must have an exponent. -/
def hexFloat? : List Char → Option (List Char)
  | '0' :: c :: cs =>
    if c == 'x' || c == 'X' then (hexMantissa? cs).bind (exponent? 'p' 'P') else none
  | _ => none

def float? (cs : List Char) : Option (List Char) :=
  longer (decimalFloat? cs) (hexFloat? cs)

/-- The text after the mark of an imaginary number. -/
def afterMark? : Option (List Char) → Option (List Char)
  | some ('i' :: cs) => some cs
  | _ => none

/-- The text after an imaginary number: a number of any other kind, or plain decimal digits. -/
def imaginary? (cs : List Char) : Option (List Char) :=
  longer (afterMark? (integer? cs))
    (longer (afterMark? (float? cs)) (afterMark? (digits? Char.isDigit cs)))

/-- The longest number at the start of a text. -/
def number? (cs : List Char) : Option (Literal × List Char) :=
  let literal (kind : LiteralKind) (rest : List Char) :=
    some (⟨kind, String.ofList (taken cs rest)⟩, rest)
  match longer (integer? cs) (float? cs), imaginary? cs with
  | _, some rest => literal .imaginary rest
  | some rest, none =>
    if integer? cs = some rest then literal .int rest else literal .float rest
  | none, none => none

/-! ## Strings and runes -/

/-- The text after `count` hexadecimal digits. -/
def hexDigits? : Nat → List Char → Option (List Char)
  | 0, cs => some cs
  | count + 1, c :: cs => if isHexDigit c then hexDigits? count cs else none
  | _ + 1, [] => none

theorem length_hexDigits? {count : Nat} {cs rest : List Char}
    (h : hexDigits? count cs = some rest) : rest.length ≤ cs.length := by
  induction count generalizing cs with
  | zero => simp_all [hexDigits?]
  | succ count ih =>
    cases cs with
    | nil => simp [hexDigits?] at h
    | cons c cs =>
      simp only [hexDigits?] at h
      split at h
      · have := ih h
        simp only [List.length_cons]
        omega
      · simp at h

/-- How many hexadecimal digits an escape letter needs in a string. -/
def escapeDigits : Char → Nat
  | 'x' => 2
  | 'u' => 4
  | 'U' => 8
  | _ => 0

/-- The text after the closing quote of an interpreted string whose inside starts here. Any
character may follow a backslash, and some letters need digits after them. -/
def afterString? (cs : List Char) : Option (List Char) :=
  match cs with
  | [] => none
  | '"' :: cs => some cs
  | '\n' :: _ => none
  | '\\' :: c :: cs =>
    match h : hexDigits? (escapeDigits c) cs with
    | some rest =>
      have := length_hexDigits? h
      afterString? rest
    | none => none
  | '\\' :: [] => none
  | _ :: cs => afterString? cs
termination_by cs.length
decreasing_by
  all_goals
    simp only [List.length_cons]
    omega

/-- The text after the closing quote of a raw string whose inside starts here. -/
def afterRawString? : List Char → Option (List Char)
  | [] => none
  | '\x60' :: cs => some cs
  | _ :: cs => afterRawString? cs

/-- The string at the start of a text. -/
def string? (cs : List Char) : Option (Literal × List Char) :=
  let rest? :=
    match cs with
    | '"' :: inside => afterString? inside
    | '\x60' :: inside => afterRawString? inside
    | _ => none
  rest?.map fun rest => (⟨.string, String.ofList (taken cs rest)⟩, rest)

/-- The text after a backslash and the rest of a rune's escape sequence. -/
def afterRuneEscape? : List Char → Option (List Char)
  | 'x' :: cs => hexDigits? 2 cs
  | 'u' :: cs => hexDigits? 4 cs
  | 'U' :: cs => hexDigits? 8 cs
  | c :: cs =>
    if "abfnrtv\\'\"".toList.contains c then some cs
    else
      match cs with
      | d :: e :: cs => if isOctalDigit c && isOctalDigit d && isOctalDigit e then some cs else none
      | _ => none
  | [] => none

/-- The rune at the start of a text: one character or one escape sequence between quotes. -/
def rune? (cs : List Char) : Option (Literal × List Char) :=
  let inside? :=
    match cs with
    | '\'' :: '\\' :: cs => afterRuneEscape? cs
    | '\'' :: c :: cs => if c == '\'' then none else some cs
    | _ => none
  match inside? with
  | some ('\'' :: rest) => some (⟨.char, String.ofList (taken cs rest)⟩, rest)
  | _ => none

end GoWeave.Source

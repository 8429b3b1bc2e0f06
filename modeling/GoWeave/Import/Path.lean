import GoWeave.Fault
import GoWeave.Text.Blank

/-!
# Import paths

An import path is written as a string literal of Go, raw or interpreted. `unquote` reads the literal
and checks the path, and `impliedName` is the name by which a file refers to the package of a path
unless the import gives another.
-/
namespace GoWeave.Import

/-! ## The implied name -/

def isDigits (cs : List Char) : Bool :=
  !cs.isEmpty && cs.all Char.isDigit

/-- Whether a path segment is a major version such as `v2`. -/
def isMajorVersion : List Char → Bool
  | 'v' :: cs => isDigits cs
  | _ => false

/-- A segment without a version suffix such as `.v3`, unless nothing else would be left. -/
def dropVersionSuffix (segment : List Char) : List Char :=
  let reversed := segment.reverse
  let version := reversed.takeWhile Char.isDigit
  match reversed.dropWhile Char.isDigit with
  | 'v' :: '.' :: base =>
    if version.isEmpty || base.isEmpty then segment else base.reverse
  | _ => segment

/-- The last segment of a path, and what stands before it if the path has a slash. -/
def splitLast (path : List Char) : Option (List Char) × List Char :=
  let reversed := path.reverse
  let last := (reversed.takeWhile (· != '/')).reverse
  match reversed.dropWhile (· != '/') with
  | [] => (none, last)
  | _ :: rest => (some rest.reverse, last)

/-- The last segment that is not a major version, without its version suffix. -/
def impliedName (path : String) : String :=
  let (before, last) := splitLast path.toList
  let segment :=
    if isMajorVersion last then
      match before with
      | some rest => (splitLast rest).2
      | none => last
    else last
  String.ofList (dropVersionSuffix segment)

/-! ## String literals -/

def digitValue? (c : Char) : Option Nat :=
  if '0' ≤ c ∧ c ≤ '9' then some (c.toNat - '0'.toNat)
  else if 'a' ≤ c ∧ c ≤ 'f' then some (c.toNat - 'a'.toNat + 10)
  else if 'A' ≤ c ∧ c ≤ 'F' then some (c.toNat - 'A'.toNat + 10)
  else none

/-- The number written by the first `count` digits, and the rest of the text. -/
def readDigits (radix : Nat) : Nat → Nat → List Char → Option (Nat × List Char)
  | 0, value, cs => some (value, cs)
  | _ + 1, _, [] => none
  | count + 1, value, c :: cs =>
    match digitValue? c with
    | some d => if d < radix then readDigits radix count (value * radix + d) cs else none
    | none => none

theorem length_readDigits {radix count value : Nat} {cs rest : List Char} {n : Nat}
    (h : readDigits radix count value cs = some (n, rest)) :
    rest.length + count = cs.length := by
  induction count generalizing value cs with
  | zero =>
    simp only [readDigits, Option.some.injEq, Prod.mk.injEq] at h
    simp [h.2]
  | succ count ih =>
    cases cs with
    | nil => simp [readDigits] at h
    | cons c cs =>
      simp only [readDigits] at h
      split at h
      · split at h
        · have := ih h
          simp only [List.length_cons]
          omega
        · simp at h
      · simp at h

/-- A number as a single byte. -/
def byte? (n : Nat) : Option (List UInt8) :=
  if n < 256 then some [n.toUInt8] else none

/-- The encoding of the character with a given code. -/
def scalar? (n : Nat) : Option (List UInt8) :=
  if n.isValidChar then some (String.utf8EncodeChar (Char.ofNat n)) else none

/-- The byte of an escape of one letter. -/
def simpleEscape? : Char → Option UInt8
  | 'a' => some 0x07
  | 'b' => some 0x08
  | 'f' => some 0x0C
  | 'n' => some 0x0A
  | 'r' => some 0x0D
  | 't' => some 0x09
  | 'v' => some 0x0B
  | '\\' => some 0x5C
  | '"' => some 0x22
  | _ => none

/-- The bytes of the number that the first `count` digits write, and the text after them. -/
def readCode (bytes? : Nat → Option (List UInt8)) (radix count : Nat) (cs : List Char) :
    Option (List UInt8 × List Char) :=
  match readDigits radix count 0 cs with
  | some (n, rest) => (bytes? n).map (·, rest)
  | none => none

theorem length_readCode {bytes? : Nat → Option (List UInt8)} {radix count : Nat}
    {cs rest : List Char} {bytes : List UInt8}
    (h : readCode bytes? radix count cs = some (bytes, rest)) :
    rest.length + count = cs.length := by
  unfold readCode at h
  split at h
  case h_1 n rest' hd =>
    obtain ⟨_, _, he⟩ := Option.map_eq_some_iff.1 h
    obtain ⟨rfl, rfl⟩ := Prod.mk.injEq .. ▸ he
    exact length_readDigits hd
  case h_2 => simp at h

/-- The byte of an escape of three octal digits, the first of which is given, and the text after
it. -/
def readOctal (c : Char) (cs : List Char) : Option (List UInt8 × List Char) :=
  match digitValue? c with
  | some d => if d < 8 then readCode (fun n => byte? (d * 64 + n)) 8 2 cs else none
  | none => none

theorem length_readOctal {c : Char} {cs rest : List Char} {bytes : List UInt8}
    (h : readOctal c cs = some (bytes, rest)) : rest.length + 2 = cs.length := by
  unfold readOctal at h
  split at h
  case h_1 =>
    split at h
    · exact length_readCode h
    · simp at h
  case h_2 => simp at h

/-- The bytes of the escape sequence after a backslash, and the text after it. -/
def readEscape : List Char → Option (List UInt8 × List Char)
  | [] => none
  | c :: cs =>
    match c with
    | 'x' => readCode byte? 16 2 cs
    | 'u' => readCode scalar? 16 4 cs
    | 'U' => readCode scalar? 16 8 cs
    | _ =>
      match simpleEscape? c with
      | some b => some ([b], cs)
      | none => readOctal c cs

theorem length_readEscape {cs rest : List Char} {bytes : List UInt8}
    (h : readEscape cs = some (bytes, rest)) : rest.length < cs.length := by
  cases cs with
  | nil => simp [readEscape] at h
  | cons c cs =>
    rw [List.length_cons]
    simp only [readEscape] at h
    split at h
    case h_1 => have := length_readCode h; omega
    case h_2 => have := length_readCode h; omega
    case h_3 => have := length_readCode h; omega
    case h_4 =>
      split at h
      case h_1 =>
        simp only [Option.some.injEq, Prod.mk.injEq] at h
        simp [h.2]
      case h_2 =>
        have := length_readOctal h
        omega

/-- The bytes that the inside of an interpreted literal denotes. A quote or a line end cannot stand
in it by itself. -/
def unescape (cs : List Char) : Option (List UInt8) :=
  match cs with
  | [] => some []
  | '\\' :: cs =>
    match h : readEscape cs with
    | some (bytes, rest) =>
      have := length_readEscape h
      (unescape rest).map (bytes ++ ·)
    | none => none
  | c :: cs =>
    if c = '"' ∨ c = '\n' then none else (unescape cs).map (String.utf8EncodeChar c ++ ·)
termination_by cs.length
decreasing_by
  all_goals
    simp only [List.length_cons]
    omega

/-- The inside of a text that starts and ends with a quote. -/
def between? (quote : Char) (cs : List Char) : Option (List Char) :=
  match cs with
  | c :: rest => if c = quote ∧ rest.getLast? = some quote then some rest.dropLast else none
  | [] => none

/-- A character that no import path may hold. -/
def isForbidden (c : Char) : Bool :=
  Text.isBlankChar c || Text.isControlChar c || c == '\\'

/-- The text that a literal denotes. -/
def decode (literal : String) : Except PathFault String :=
  match between? '\x60' literal.toList with
  | some raw => .ok (String.ofList raw)
  | none =>
    match between? '"' literal.toList with
    | some inner =>
      match (unescape inner).bind fun bytes => String.fromUTF8? bytes.toByteArray with
      | some path => .ok path
      | none => .error .badEscape
    | none => .error .notLiteral

/-- The path that an import literal denotes. -/
def unquote (literal : String) : Except Fault String :=
  match decode literal with
  | .error reason => .error (.importPath literal reason)
  | .ok path =>
    if path.isEmpty then .error (.importPath literal .emptyPath)
    else if path.toList.any isForbidden then .error (.importPath literal .badCharacter)
    else .ok path

end GoWeave.Import

import GoWeave.Source.Lexeme
import GoWeave.Source.Space

/-!
# Phrases

A reader takes a phrase off the front of a text. It skips the blanks before each lexeme and none
after the last, so the text of a phrase is exactly what its reader took.

Phrases nest. The rules of the grammar are written over a record `Nested` of readers for the phrases
inside the one being read, and use it only after they have taken at least one character. Unrolling
the record once for each character of the source therefore reaches every phrase in it.
-/
namespace GoWeave.Source

/-- Reads a phrase from the front of a text, or fails and leaves the text alone. -/
abbrev Reader := StateT (List Char) Option

/-- The text after a given text at its front. -/
def afterText? : List Char → List Char → Option (List Char)
  | [], cs => some cs
  | _ :: _, [] => none
  | t :: ts, c :: cs => if t = c then afterText? ts cs else none

namespace Reader

/-- Reads with a function that answers with what it found and the text after it. -/
def ofFunction (read : List Char → Option (α × List Char)) : Reader α :=
  read

/-- Skips to the next lexeme, which must stand on the same line if `stop` is set. -/
def ahead (stop : Bool) : Reader Unit := ofFunction fun cs =>
  match skip stop cs with
  | '\n' :: _ => none
  | rest => some ((), rest)

/-- Reads a given lexeme, which must stand on the same line if `stop` is set. -/
def lexeme (stop : Bool) (text : String) : Reader Unit := do
  ahead stop
  ofFunction fun cs => (afterText? text.toList cs).map (((), ·))

def symbol (text : String) : Reader Unit :=
  lexeme false text

/-- Succeeds where the reader fails, and takes nothing. -/
def lacks (read : Reader α) : Reader Unit := ofFunction fun cs =>
  match read cs with
  | some _ => none
  | none => some ((), cs)

/-- Succeeds where the reader does, and takes nothing. -/
def sees (read : Reader α) : Reader Unit := ofFunction fun cs =>
  (read cs).map fun _ => ((), cs)

/-- Reads any word. -/
def word : Reader String := do
  ahead false
  ofFunction word?

/-- Reads a word that is not reserved where it stands. -/
def name (reserved : List String) : Reader String := do
  let found ← word
  if reserved.contains found then failure else pure found

/-- Reads a given word, which must stand on the same line if `stop` is set. -/
def keyword (stop : Bool) (text : String) : Reader Unit := do
  ahead stop
  let found ← ofFunction word?
  if found = text then pure () else failure

/-- Reads a phrase any number of times, but no more than the bound. -/
def manyWithin (read : Reader α) : Nat → Reader (List α)
  | 0 => pure []
  | bound + 1 =>
    (do
      let x ← read
      let xs ← manyWithin read bound
      pure (x :: xs))
    <|> pure []

/-- Reads a phrase as often as it occurs. A phrase has at least one character, so the length of the
text is bound enough. -/
def many (read : Reader α) : Reader (List α) := ofFunction fun cs =>
  manyWithin read cs.length cs

/-- Extends a phrase any number of times, but no more than the bound. -/
def extendWithin (step : α → Reader α) : Nat → α → Reader α
  | 0, x => pure x
  | bound + 1, x =>
    (do
      let y ← step x
      extendWithin step bound y)
    <|> pure x

/-- Extends a phrase to the right as often as the next step can be read. -/
def extend (step : α → Reader α) (x : α) : Reader α := ofFunction fun cs =>
  extendWithin step cs.length x cs

/-- Reads phrases with a separator between them. -/
def separated (separator : Reader Unit) (read : Reader α) : Reader (List α) := do
  let x ← read
  let xs ← many (separator *> read)
  pure (x :: xs)

/-- Reads phrases with commas between them and perhaps one after the last. -/
def listed (read : Reader α) : Reader (List α) := do
  let xs ← separated (symbol ",") read
  let _ ← optional (symbol ",")
  pure xs

/-- Reads a list between brackets, or nothing between them. A lone comma is an empty list. -/
def enclosed (opening closing : String) (read : Reader α) : Reader (List α) := do
  symbol opening
  let xs ← listed read <|> (symbol "," *> pure []) <|> pure []
  symbol closing
  pure xs

/-- Reads the end of a construct. -/
def terminator : Reader Unit := ofFunction fun cs =>
  (afterTerminator? cs).map (((), ·))

/-- Reads members between braces with a terminator between them and perhaps one after the last. -/
def members (read : Reader α) : Reader (List α) := do
  symbol "\x7b"
  let xs ← (separated terminator read <* optional terminator) <|> pure []
  symbol "\x7d"
  pure xs

end Reader

/-- What may follow a phrase where it stands. -/
structure Place where
  /-- Whether the phrase may be followed by a terminator, so that a line end can end it. -/
  line : Bool
  /-- Whether a brace after a type name opens a composite literal. It does not in the header of a
  statement, where it opens the statement's block. -/
  literal : Bool
  /-- Whether `<-`, `++` and `--` after the phrase belong to the statement around it. -/
  step : Bool
  /-- Whether the phrase may be the subject of `.(type)`. -/
  subject : Bool

namespace Place

/-- Inside brackets. -/
def inside : Place :=
  ⟨false, true, false, false⟩

/-- At the start of a statement. -/
def statement : Place :=
  ⟨true, true, true, false⟩

/-- At the start of a statement's header. -/
def header : Place :=
  ⟨false, false, true, false⟩

/-- At the start of the header of a switch, which may be one on the type of a value. -/
def switchHeader : Place :=
  { header with subject := true }

/-- Where the phrase cannot end the construct around it. -/
def across (place : Place) : Place :=
  { place with line := false }

/-- After an operator that has made the statement an assignment or the like. -/
def value (place : Place) : Place :=
  { place with step := false }

end Place

/-- Readers for the phrases nested in the one being read. -/
structure Nested where
  /-- How many line ends the whole source has. -/
  lineEnds : Nat
  expr : Place → Reader Expr
  unary : Place → Reader Expr
  type : Place → Reader Expr
  stmt : Reader Stmt
  stmts : Reader (List Stmt)

/-- The line, counted from one, on which the remaining text starts. -/
def Nested.lineOf (nested : Nested) (rest : List Char) : Nat :=
  nested.lineEnds - rest.count '\n' + 1

end GoWeave.Source

import GoWeave.Diff.Script

/-!
# Unified differences

The differences of two texts, line by line. Changes stand with three lines of context around them,
and changes whose contexts touch share a hunk.
-/
namespace GoWeave.Diff

/-! ## Lines -/

/-- The lines of a text with their ends, which are `\n`, `\r\n` or `\r`. The characters of the line
being read are given in reverse. -/
def linesFrom (line : List Char) : List Char → List String
  | [] => if line.isEmpty then [] else [String.ofList line.reverse]
  | '\r' :: '\n' :: cs => String.ofList ('\n' :: '\r' :: line).reverse :: linesFrom [] cs
  | c :: cs =>
    if c = '\n' ∨ c = '\r' then String.ofList (c :: line).reverse :: linesFrom [] cs
    else linesFrom (c :: line) cs

def lines (text : String) : List String :=
  linesFrom [] text.toList

/-- A line with its mark. A line without an end is given one, and a note says so. -/
def markedLine (mark : String) (line : String) : String :=
  let last := line.toList.getLast?
  if last = some '\n' ∨ last = some '\r' then mark ++ line
  else mark ++ line ++ "\n\\ No newline at end of file\n"

/-! ## Blocks -/

/-- A run of kept lines, or a change with the lines it deletes and the lines it inserts. -/
inductive Block where
  | keep (lines : List String)
  | change (deleted inserted : List String)
  deriving DecidableEq, Repr

namespace Block

/-- A script with neighbouring edits joined into blocks. -/
def ofScript : List (Edit String) → List Block
  | [] => []
  | .keep x :: edits =>
    match ofScript edits with
    | .keep xs :: blocks => .keep (x :: xs) :: blocks
    | blocks => .keep [x] :: blocks
  | .delete x :: edits =>
    match ofScript edits with
    | .change deleted inserted :: blocks => .change (x :: deleted) inserted :: blocks
    | blocks => .change [x] [] :: blocks
  | .insert xs :: edits =>
    match ofScript edits with
    | .change deleted inserted :: blocks => .change deleted (xs ++ inserted) :: blocks
    | blocks => .change [] xs :: blocks

def isChange : Block → Bool
  | keep _ => false
  | change .. => true

/-- The lines of a block in the old text. -/
def oldSize : Block → Nat
  | keep xs => xs.length
  | change deleted _ => deleted.length

/-- The lines of a block in the new text. -/
def newSize : Block → Nat
  | keep xs => xs.length
  | change _ inserted => inserted.length

def render : Block → String
  | keep xs => String.join (xs.map (markedLine " "))
  | change deleted inserted =>
    String.join (deleted.map (markedLine "-")) ++ String.join (inserted.map (markedLine "+"))

end Block

/-! ## Hunks -/

/-- Blocks that are shown together, with the numbers of old and new lines before them. -/
structure Hunk where
  oldStart : Nat
  newStart : Nat
  blocks : List Block
  deriving DecidableEq, Repr

namespace Hunk

/-- A range of lines: its first line, counted from one, and its size if that is not one. An empty
range is placed at the line before it. -/
def range (start size : Nat) : String :=
  if size = 1 then toString (start + 1)
  else if size = 0 then toString start ++ ",0"
  else toString (start + 1) ++ "," ++ toString size

def oldSize (h : Hunk) : Nat :=
  h.blocks.foldr (fun b size => b.oldSize + size) 0

def newSize (h : Hunk) : Nat :=
  h.blocks.foldr (fun b size => b.newSize + size) 0

def header (h : Hunk) : String :=
  "@@ -" ++ range h.oldStart h.oldSize ++ " +" ++ range h.newStart h.newSize ++ " @@\n"

def render (h : Hunk) : String :=
  h.header ++ String.join (h.blocks.map Block.render)

end Hunk

/-- How many lines of context a change has. -/
def radius : Nat := 3

/-- A block that is shown, or a number of kept lines that are not. -/
inductive Section where
  | shown (b : Block)
  | hidden (size : Nat)

/-- What is shown of a row of blocks: the changes, and of the kept lines those within the radius of
a change. `first` says that no change comes before the blocks. -/
def sections (first : Bool) : List Block → List Section
  | [] => []
  | .change deleted inserted :: blocks =>
    .shown (.change deleted inserted) :: sections false blocks
  | .keep xs :: blocks =>
    let size := xs.length
    let rest := sections false blocks
    if first then .hidden (size - radius) :: .shown (.keep (xs.drop (size - radius))) :: rest
    else if blocks.isEmpty then [.shown (.keep (xs.take radius))]
    else if 2 * radius < size then
      .shown (.keep (xs.take radius)) :: .hidden (size - 2 * radius)
        :: .shown (.keep (xs.drop (size - radius))) :: rest
    else .shown (.keep xs) :: rest

/-- The blocks before the first hidden lines, and after each of these their number and the blocks up
to the next. -/
def grouped : List Section → List Block × List (Nat × List Block)
  | [] => ([], [])
  | .shown b :: rest =>
    let (blocks, groups) := grouped rest
    (b :: blocks, groups)
  | .hidden size :: rest =>
    let (blocks, groups) := grouped rest
    ([], (size, blocks) :: groups)

/-- Groups of blocks with their line numbers. -/
def numbered (oldLine newLine : Nat) : List (Nat × List Block) → List Hunk
  | [] => []
  | (size, blocks) :: groups =>
    let hunk : Hunk := ⟨oldLine + size, newLine + size, blocks⟩
    hunk :: numbered (hunk.oldStart + hunk.oldSize) (hunk.newStart + hunk.newSize) groups

def hunks (old new : List String) : List Hunk :=
  let (blocks, groups) := grouped (sections true (Block.ofScript (script old new)))
  (numbered 0 0 ((0, blocks) :: groups)).filter fun h => h.blocks.any Block.isChange

/-- The differences of two texts, under headers that name them. There is nothing to say about texts
that are equal. -/
def unified (oldName newName old new : String) : String :=
  match hunks (lines old) (lines new) with
  | [] => ""
  | found =>
    "--- " ++ oldName ++ "\n+++ " ++ newName ++ "\n" ++ String.join (found.map Hunk.render)

end GoWeave.Diff

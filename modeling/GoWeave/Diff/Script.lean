/-!
# Edit scripts

A shortest script that turns one list of lines into another. The search goes from both ends at once,
one more edit in each round, until the two sides meet; the meeting point splits the problem in two.

For a number of edits, a frontier holds how far along the old list each diagonal can be reached. The
diagonals that `d` edits can reach are `-d`, `-d + 2`, …, `d`, where `k` stands for the places with
`k` more old lines than new ones behind them.
-/
namespace GoWeave.Diff

/-- One edit. Lines are kept and deleted one by one; insertions that belong together are one
edit. -/
inductive Edit (α : Type) where
  | keep (x : α)
  | delete (x : α)
  | insert (xs : List α)
  deriving DecidableEq, Repr

variable {α : Type} [DecidableEq α]

/-- How many elements two lists have in common at the front. -/
def commonPrefix : List α → List α → Nat
  | a :: as, b :: bs => if a = b then commonPrefix as bs + 1 else 0
  | _, _ => 0

/-! ## Frontiers -/

/-- A diagonal with the place where its last edit leads and the place that the equal lines after it
lead to, both counted in old lines. -/
structure Reach where
  diagonal : Int
  start : Nat
  stop : Nat

namespace Reach

/-- A place in old lines as a place in new lines. -/
def newLine (r : Reach) (x : Nat) : Nat :=
  (x - r.diagonal).toNat

end Reach

/-- Where a diagonal can be reached from its two neighbours: by an insertion from the one above or a
deletion from the one below, whichever leads further. -/
def nextStart (below above : Option Nat) : Nat :=
  match below, above with
  | none, none => 0
  | none, some x => x
  | some x, none => x + 1
  | some x, some y => if x < y then y else x + 1

/-- The starts of the next round, one more than the stops of this round. -/
def nextStarts (below : Option Nat) : List Nat → List Nat
  | [] => [nextStart below none]
  | x :: xs => nextStart below (some x) :: nextStarts (some x) xs

/-- The frontier after a round, from the lowest diagonal to the highest. The stops of the round
before it are given in the same order. -/
def advance (old new : List α) (round : Nat) (stops : List Nat) : List Reach :=
  (nextStarts none stops).zipIdx.map fun (start, i) =>
    let diagonal : Int := 2 * i - round
    let y := (start - diagonal).toNat
    ⟨diagonal, start, start + commonPrefix (old.drop start) (new.drop y)⟩

/-- How far a diagonal is reached, if the frontier has it. -/
def stopAt? (frontier : List Reach) (diagonal : Int) : Option Nat :=
  (frontier.find? (·.diagonal == diagonal)).map (·.stop)

/-- The reach on the highest diagonal that meets the frontier from the other end. -/
def meeting? (size : Nat) (delta : Int) (frontier other : List Reach) : Option Reach :=
  frontier.reverse.find? fun r =>
    match stopAt? other (delta - r.diagonal) with
    | some stop => size ≤ r.stop + stop
    | none => false

/-- A place on a shortest path through both lists. The second pair of lists is the first one
reversed. -/
def middle? (old new dlo wen : List α) (delta : Int) :
    Nat → Nat → List Reach → List Reach → Option (Nat × Nat)
  | 0, _, _, _ => none
  | fuel + 1, round, forward, backward =>
    let forward := advance old new round (forward.map (·.stop))
    match if delta % 2 = 1 then meeting? old.length delta forward backward else none with
    | some r => some (r.start, r.newLine r.start)
    | none =>
      let backward := advance dlo wen round (backward.map (·.stop))
      match if delta % 2 = 0 then meeting? old.length delta backward forward else none with
      | some r => some (old.length - r.stop, new.length - r.newLine r.stop)
      | none => middle? old new dlo wen delta fuel (round + 1) forward backward

/-! ## Scripts -/

/-- The script for two lists. The common lines at both ends are kept, and what is left between them
is split at a middle of a shortest path. -/
def scriptWithin : Nat → List α → List α → List (Edit α)
  | 0, old, new => old.map .delete ++ [.insert new]
  | fuel + 1, old, new =>
    let front := commonPrefix old new
    let old' := old.drop front
    let new' := new.drop front
    let back := commonPrefix old'.reverse new'.reverse
    let olds := old'.take (old'.length - back)
    let news := new'.take (new'.length - back)
    let inner :=
      if news.isEmpty then olds.map .delete
      else if olds.isEmpty then [.insert news]
      else
        match middle? olds news olds.reverse news.reverse (olds.length - news.length)
            (olds.length + news.length + 2) 0 [] [] with
        | some (x, y) =>
          scriptWithin fuel (olds.take x) (news.take y)
            ++ scriptWithin fuel (olds.drop x) (news.drop y)
        | none => olds.map .delete ++ [.insert news]
    (old.take front).map .keep ++ inner ++ (old'.drop (old'.length - back)).map .keep

/-! ## Sliding

An insertion whose last line equals the line kept before it can as well be made one line earlier,
and the same downwards. Every insertion is moved up and then down as far as it goes, and takes along
the insertions that it meets. -/

/-- An insertion between the edits before it, the latest first, and the edits after it. -/
structure Gap (α : Type) where
  before : List (Edit α)
  inserted : List α
  after : List (Edit α)

/-- The insertion as far up as it goes. -/
def slideUp (inserted : List α) (after : List (Edit α)) : List (Edit α) → Gap α
  | [] => ⟨[], inserted, after⟩
  | .keep x :: before =>
    if inserted.getLast? = some x then
      slideUp (x :: inserted.dropLast) (.keep x :: after) before
    else ⟨.keep x :: before, inserted, after⟩
  | .delete x :: before => slideUp inserted (.delete x :: after) before
  | .insert xs :: before => slideUp (xs ++ inserted) after before

/-- The insertion as far down as it goes. -/
def slideDown (inserted : List α) (before : List (Edit α)) : List (Edit α) → Gap α
  | [] => ⟨before, inserted, []⟩
  | .keep x :: after =>
    if inserted.head? = some x then
      slideDown (inserted.tail ++ [x]) (.keep x :: before) after
    else ⟨before, inserted, .keep x :: after⟩
  | .delete x :: after => slideDown inserted (.delete x :: before) after
  | .insert xs :: after => slideDown (inserted ++ xs) before after

/-- Slides the insertions in turn. The edits already passed are given with the latest first. A turn
passes one edit, or slides an insertion for good. -/
def slideWithin : Nat → List (Edit α) → List (Edit α) → List (Edit α)
  | 0, before, after => before.reverse ++ after
  | fuel + 1, before, after =>
    match after with
    | [] => before.reverse
    | .insert xs :: after =>
      let up := slideUp xs after before
      let down := slideDown up.inserted up.before up.after
      slideWithin fuel (.insert down.inserted :: down.before) down.after
    | e :: after => slideWithin fuel (e :: before) after

/-- A shortest script with its insertions slid. Sliding one insertion puts no more edits back than
the script has, so the square of its length bounds the turns. -/
def script (old new : List α) : List (Edit α) :=
  let edits := scriptWithin (old.length + new.length + 1) old new
  slideWithin (edits.length * (edits.length + 1) + 1) [] edits

end GoWeave.Diff

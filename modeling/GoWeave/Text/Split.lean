/-!
# Splitting texts

The pieces of a text between the places of one character. There is always a piece, and pieces may be
empty.
-/
namespace GoWeave.Text

def pieces (sep : Char) : List Char → List (List Char)
  | [] => [[]]
  | c :: cs =>
    if c = sep then [] :: pieces sep cs
    else
      match pieces sep cs with
      | [] => [[c]]
      | piece :: rest => (c :: piece) :: rest

def split (sep : Char) (s : String) : List String :=
  (pieces sep s.toList).map String.ofList

/-- Whether a text starts with a character. -/
def startsWith (c : Char) (s : String) : Bool :=
  s.toList.head? == some c

/-- Whether a text ends with a character. -/
def endsWith (c : Char) (s : String) : Bool :=
  s.toList.getLast? == some c

end GoWeave.Text

/-!
# Space between lexemes

Blank characters and comments separate lexemes and mean nothing else. A line end is different: it is
blank in most places, but it ends a construct wherever a terminator could stand. The reader of a
construct therefore says whether a line end counts as blank.
-/
namespace GoWeave.Source

/-- The blank characters of source text, line ends included. -/
def isSpace (c : Char) : Bool :=
  c == ' ' || ('\t' ≤ c && c ≤ '\r')

/-- The text after the end of a block comment whose inside starts here. -/
def afterBlockComment : List Char → Option (List Char)
  | [] => none
  | '*' :: '/' :: cs => some cs
  | _ :: cs => afterBlockComment cs

theorem length_afterBlockComment {cs rest : List Char} (h : afterBlockComment cs = some rest) :
    rest.length < cs.length := by
  fun_induction afterBlockComment cs with
  | case1 => simp at h
  | case2 cs =>
    simp only [Option.some.injEq] at h
    subst h
    simp only [List.length_cons]
    omega
  | case3 c cs _ ih =>
    have := ih h
    simp only [List.length_cons]
    omega

theorem length_dropWhile_le (p : Char → Bool) (cs : List Char) :
    (cs.dropWhile p).length ≤ cs.length :=
  (List.dropWhile_sublist p).length_le

/-- The text from the next lexeme on. Line ends are skipped unless `stop` is set. A block comment
without an end is no comment. -/
def skip (stop : Bool) (cs : List Char) : List Char :=
  match cs with
  | [] => []
  | '/' :: '/' :: cs =>
    have := length_dropWhile_le (· != '\n') cs
    skip stop (cs.dropWhile (· != '\n'))
  | '/' :: '*' :: cs =>
    match h : afterBlockComment cs with
    | some rest =>
      have := length_afterBlockComment h
      skip stop rest
    | none => '/' :: '*' :: cs
  | c :: cs => if isSpace c && !(stop && c == '\n') then skip stop cs else c :: cs
termination_by cs.length
decreasing_by
  all_goals
    simp only [List.length_cons]
    omega

/-- The text after a terminator: a line end, a semicolon, or the end of the text. -/
def afterTerminator? (cs : List Char) : Option (List Char) :=
  match skip true cs with
  | [] => some []
  | c :: rest => if c == '\n' || c == ';' || c == '\x00' then some rest else none

end GoWeave.Source

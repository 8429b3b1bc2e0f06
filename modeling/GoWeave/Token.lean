/-!
# Tokens kept in the tree

The syntax tree remembers a token only where the spelling carries meaning: the operator of an
expression or assignment, the keyword of a branch statement, and the keyword that opens a group of
declarations. Spelling and look-up are inverse to each other, so a token can be compared, printed
and read back freely.
-/
namespace GoWeave

/-- An operator or keyword that the tree keeps. -/
inductive Token where
  | add | sub | mul | quo | rem | and | or | xor | shl | shr | andNot
  | assign | define
  | addAssign | subAssign | mulAssign | quoAssign | remAssign | andAssign | orAssign | xorAssign
  | shlAssign | shrAssign | andNotAssign
  | logicalAnd | logicalOr | arrow | inc | dec
  | equal | notEqual | less | lessEqual | greater | greaterEqual
  | not | tilde
  | break_ | continue_ | goto | fallthrough
  | import_ | const | var | type
  deriving DecidableEq, Repr

namespace Token

/-- The source spelling. -/
def text : Token → String
  | add => "+"
  | sub => "-"
  | mul => "*"
  | quo => "/"
  | rem => "%"
  | and => "&"
  | or => "|"
  | xor => "^"
  | shl => "<<"
  | shr => ">>"
  | andNot => "&^"
  | assign => "="
  | define => ":="
  | addAssign => "+="
  | subAssign => "-="
  | mulAssign => "*="
  | quoAssign => "/="
  | remAssign => "%="
  | andAssign => "&="
  | orAssign => "|="
  | xorAssign => "^="
  | shlAssign => "<<="
  | shrAssign => ">>="
  | andNotAssign => "&^="
  | logicalAnd => "&&"
  | logicalOr => "||"
  | arrow => "<-"
  | inc => "++"
  | dec => "--"
  | equal => "=="
  | notEqual => "!="
  | less => "<"
  | lessEqual => "<="
  | greater => ">"
  | greaterEqual => ">="
  | not => "!"
  | tilde => "~"
  | break_ => "break"
  | continue_ => "continue"
  | goto => "goto"
  | fallthrough => "fallthrough"
  | import_ => "import"
  | const => "const"
  | var => "var"
  | type => "type"

/-- Every token, in the order of the type. -/
def all : List Token :=
  [add, sub, mul, quo, rem, and, or, xor, shl, shr, andNot, assign, define, addAssign, subAssign,
    mulAssign, quoAssign, remAssign, andAssign, orAssign, xorAssign, shlAssign, shrAssign,
    andNotAssign, logicalAnd, logicalOr, arrow, inc, dec, equal, notEqual, less, lessEqual,
    greater, greaterEqual, not, tilde, break_, continue_, goto, fallthrough, import_, const, var,
    type]

theorem mem_all (t : Token) : t ∈ all := by
  cases t <;> decide

/-- The token with a given spelling. -/
def ofText? (s : String) : Option Token :=
  all.find? (·.text == s)

theorem text_of_ofText? {s : String} {t : Token} (h : ofText? s = some t) : t.text = s := by
  have := List.find?_some h
  simpa using this

end Token

end GoWeave

import GoWeave.Source.Declarations

/-!
# Statements in source text

Statements in a list are divided by terminators. An empty statement is a semicolon and needs a
terminator of its own, and a label may stand at the end of a list without a statement.
-/
namespace GoWeave.Source

open Reader

/-- The operators that make a statement an assignment, those first that others end. -/
def assignmentOperators : List Token :=
  [.define, .shlAssign, .shrAssign, .andNotAssign, .addAssign, .subAssign, .mulAssign, .quoAssign,
    .remAssign, .andAssign, .orAssign, .xorAssign, .assign]

/-- A label and its colon. -/
def label : Reader String := do
  let found ← name (operandReserved ++ valueWords)
  lexeme true ":"
  lacks (ofFunction fun cs => (afterText? ['='] cs).map (((), ·)))
  pure found

/-- A label without a statement. -/
def emptyLabel : Reader Stmt := do
  let found ← label
  pure (.labeled found .empty)

/-- A branch with a label that may be absent. -/
def branch (tok : Token) : Reader Stmt := do
  keyword false tok.text
  let target ← optional (ahead true *> name operandReserved)
  pure (.branch tok target)

namespace Nested

variable (nested : Nested)

/-! ## Simple statements -/

/-- What turns the expressions on the left into an assignment. -/
def assignment (place after : Place) (lhs : List Expr) : Reader Stmt := do
  let tok ← oneOf after.line assignmentOperators
  let rhs ← nested.exprs place.value
  pure (.assign lhs tok rhs)

/-- What turns one expression into a statement of another kind. -/
def single (place : Place) (x : Expr) : Reader Stmt :=
  (do
    lexeme place.line "<-"
    let value ← nested.readExpr place.value
    pure (.send x value))
  <|> (do
    let tok ← oneOf place.line [.inc, .dec]
    pure (.incDec x tok))
  <|> pure (.expr x)

/-- A statement that is an expression or starts with some. After the second expression on the left
the statement cannot end. -/
def simpleStmt (place : Place) : Reader Stmt := do
  let first ← nested.readExpr place
  let others ←
    (lexeme place.line "," *> separated (symbol ",") (nested.readExpr place.across)) <|> pure []
  if others.isEmpty then
    nested.assignment place place [first] <|> nested.single place first
  else
    nested.assignment place place.across (first :: others)

/-! ## Headers -/

/-- A condition perhaps after another statement. -/
def ifStmt : Reader Stmt := do
  keyword false "if"
  let start ← nested.simpleStmt .header
  let (init, cond) ←
    (do
      symbol ";"
      let cond ← nested.readExpr Place.header.value
      pure (some start, cond))
    <|> (match start with
      | .expr x => pure (none, x)
      | _ => failure)
  let body ← nested.block
  let orElse ← optional do
    keyword true "else"
    (Stmt.block <$> nested.block) <|> (sees (keyword false "if") *> nested.stmt)
  pure (.ifElse init cond body orElse)

/-- A loop over the elements of a value. Targets after the second are dropped. -/
def rangeStmt : Reader Stmt := do
  let target ← optional do
    lacks (keyword false "range")
    let targets ← nested.exprs .header
    let tok ← oneOf false [.define, .assign]
    pure (targets, tok)
  keyword false "range"
  let x ← nested.readExpr Place.header.value
  let body ← nested.block
  let targets := (target.map (·.1)).getD []
  pure (.range targets[0]? targets[1]? (target.map (·.2)) x body)

/-- A loop with a condition, or with the three parts of a counting loop. -/
def loopStmt : Reader Stmt := do
  lacks (keyword false "range")
  let start ← optional (nested.simpleStmt .header)
  (do
    symbol ";"
    let cond ← optional (nested.readExpr Place.header.value)
    symbol ";"
    let post ← optional (nested.simpleStmt .header)
    let body ← nested.block
    pure (.loop start cond post body))
  <|> (do
    let cond : Option Expr ←
      match start with
      | none => pure none
      | some (.expr x) => pure (some x)
      | some _ => failure
    let body ← nested.block
    pure (.loop none cond none body))

def forStmt : Reader Stmt := do
  keyword false "for"
  nested.rangeStmt <|> nested.loopStmt

/-! ## Clauses -/

/-- A clause for one of several cases, or for none of them. -/
def clause (item : Reader Expr) : Reader Clause :=
  (do
    keyword false "case"
    let list ← separated (symbol ",") item
    symbol ":"
    let body ← nested.stmts
    pure (.matching list body))
  <|> (do
    keyword false "default"
    symbol ":"
    let body ← nested.stmts
    pure (.otherwise body))

/-- The clauses of a switch in their braces. -/
def clauses (item : Reader Expr) : Reader (List Clause) := do
  symbol "\x7b"
  let list ← many (nested.clause item)
  symbol "\x7d"
  pure list

/-- The rest of a switch on the type of a value. -/
def typeSwitch (place : Place) (init : Option Stmt) : Reader Stmt := do
  let bound ← optional (nested.exprs place <* symbol ":=")
  let x ← nested.readExpr place
  symbol "."
  symbol "("
  keyword false "type"
  symbol ")"
  let subject := Expr.typeAssert x none
  let guard :=
    match bound with
    | some names => Stmt.assign names .define [subject]
    | none => .expr subject
  let body ← nested.clauses (nested.type .inside)
  pure (.typeSwitch init guard body)

/-- The rest of a switch on a value. -/
def valueSwitch (place : Place) (init : Option Stmt) : Reader Stmt := do
  let tag ← optional (nested.readExpr place)
  let body ← nested.clauses (nested.readExpr .inside)
  pure (.switch init tag body)

def switchStmt : Reader Stmt := do
  keyword false "switch"
  let init ← optional (nested.simpleStmt .switchHeader <* symbol ";")
  let place := if init.isSome then Place.switchHeader.value else .switchHeader
  nested.typeSwitch place init <|> nested.valueSwitch place init

/-- A statement that sends or receives. -/
def communication : Reader Unit := do
  match ← nested.simpleStmt { Place.inside with step := true } with
  | .send .. => pure ()
  | .expr _ => pure ()
  | .assign _ .assign [_] => pure ()
  | .assign _ .define [_] => pure ()
  | _ => failure

/-- Skips the clauses of a `select` statement, of which only the text is kept. -/
def selectStmt : Reader Unit := do
  keyword false "select"
  symbol "\x7b"
  let _ ← many do
    (keyword false "case" *> nested.communication) <|> keyword false "default"
    symbol ":"
    let _ ← nested.stmts
  symbol "\x7d"

/-! ## Statements and lists of them -/

/-- Reads a phrase together with its text and line. -/
def located (kind : α → String) (read : Reader α) : Reader (α × BadNode) := do
  ahead false
  let before ← get
  let x ← read
  let after ← get
  pure (x, ⟨kind x, String.ofList (taken before after), nested.lineOf before⟩)

/-- A statement that starts with a word of its own, if it is this word. -/
def keywordStmt? : String → Option (Reader Stmt)
  | "const" => some (Stmt.decl <$> nested.declGroup)
  | "var" => some (Stmt.decl <$> nested.declGroup)
  | "type" => some (Stmt.decl <$> nested.declGroup)
  | "return" => some do
    keyword false "return"
    let results ← optional (ahead true *> nested.exprs Place.statement.value)
    pure (.ret (results.getD []))
  | "go" => some (keyword false "go" *> (Stmt.goCall <$> nested.readExpr Place.statement.value))
  | "defer" =>
    some (keyword false "defer" *> (Stmt.deferCall <$> nested.readExpr Place.statement.value))
  | "if" => some nested.ifStmt
  | "for" => some nested.forStmt
  | "switch" => some nested.switchStmt
  | "select" => some do
    let found ← nested.located (fun _ => "select_statement") nested.selectStmt
    pure (.bad found.2)
  | "fallthrough" => some (keyword false "fallthrough" *> pure (.branch .fallthrough none))
  | "break" => some (branch .break_)
  | "continue" => some (branch .continue_)
  | "goto" => some do
    keyword false "goto"
    let target ← word
    pure (.branch .goto (some target))
  | _ => none

/-- A statement that starts with no word of its own. -/
def plainStmt : Reader Stmt :=
  (do
    let found ← label
    let stmt ← nested.stmt
    pure (.labeled found stmt))
  <|> (do
    lacks label
    (Stmt.block <$> nested.block)
      <|> (symbol ";" *> pure .empty)
      <|> nested.simpleStmt .statement)

def readStmt : Reader Stmt := do
  ahead false
  let rest ← get
  match (word? rest).bind fun found => nested.keywordStmt? found.1 with
  | some read => read
  | none => nested.plainStmt

/-- The statements of a block or a clause. -/
def readStmts : Reader (List Stmt) :=
  (do
    let list ← separated terminator nested.readStmt
    let last ← optional (terminator *> optional emptyLabel)
    pure (list ++ last.join.toList))
  <|> (do
    let last ← emptyLabel
    pure [last])
  <|> pure []

end Nested

end GoWeave.Source

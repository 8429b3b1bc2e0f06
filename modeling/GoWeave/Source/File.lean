import GoWeave.Source.Statements

/-!
# Source files

A file is a row of declarations, each with a terminator. Statements are read at this level too and
kept as bad declarations.
-/
namespace GoWeave

/-- What a statement is called where only its text is kept. -/
def Stmt.phraseName : Stmt → String
  | .bad node => node.kind
  | .decl _ => "declaration"
  | .empty => "empty_statement"
  | .labeled .. => "labeled_statement"
  | .expr _ => "expression_statement"
  | .send .. => "send_statement"
  | .incDec _ .inc => "inc_statement"
  | .incDec .. => "dec_statement"
  | .assign _ .define _ => "short_var_declaration"
  | .assign .. => "assignment_statement"
  | .goCall _ => "go_statement"
  | .deferCall _ => "defer_statement"
  | .ret _ => "return_statement"
  | .branch .break_ _ => "break_statement"
  | .branch .continue_ _ => "continue_statement"
  | .branch .goto _ => "goto_statement"
  | .branch .. => "fallthrough_statement"
  | .block _ => "block"
  | .ifElse .. => "if_statement"
  | .switch .. => "expression_switch_statement"
  | .typeSwitch .. => "type_switch_statement"
  | .loop .. => "for_statement"
  | .range .. => "for_statement"

/-- Why a text is not a source file. -/
inductive SourceError where
  | syntaxError
  | missingPackage
  deriving DecidableEq, Repr

def SourceError.message : SourceError → String
  | syntaxError => "syntax error"
  | missingPackage => "missing package clause"

namespace Source

open Reader

/-- Readers for phrases nested no deeper than the bound. -/
def nestedWithin (lineEnds : Nat) : Nat → Nested
  | 0 =>
    { lineEnds := lineEnds
      expr := fun _ => failure
      unary := fun _ => failure
      type := fun _ => failure
      stmt := failure
      stmts := failure }
  | bound + 1 =>
    { lineEnds := lineEnds
      expr := fun place cs => (nestedWithin lineEnds bound).readExpr place cs
      unary := fun place cs => (nestedWithin lineEnds bound).readUnary place cs
      type := fun place cs => (nestedWithin lineEnds bound).readType place cs
      stmt := fun cs => (nestedWithin lineEnds bound).readStmt cs
      stmts := fun cs => (nestedWithin lineEnds bound).readStmts cs }

/-- One entry of a file. -/
inductive Entry where
  | package (name : String)
  | decl (d : Decl)

def Entry.package? : Entry → Option String
  | package name => some name
  | decl _ => none

def Entry.decl? : Entry → Option Decl
  | package _ => none
  | decl d => some d

namespace Nested

variable (nested : Nested)

/-- A function or method. The body must start on the line where the signature ends. -/
def funcDecl : Reader FuncDecl := do
  keyword false "func"
  let recv ← optional nested.params
  let declared ← word
  let typeParams ← if recv.isNone then optional nested.typeParams else pure none
  let sig ← nested.signature .statement
  let body ← optional (ahead true *> nested.block)
  pure ⟨recv, declared, { sig with typeParams := typeParams }, body⟩

/-- A statement in place of a declaration. -/
def stmtEntry : Reader Entry := do
  let found ← nested.located Stmt.phraseName nested.readStmt
  match found.1 with
  | .decl group => pure (.decl (.group group))
  | .bad node => pure (.decl (.bad node))
  | _ => pure (.decl (.bad found.2))

def entry : Reader Entry := do
  ahead false
  let rest ← get
  match (word? rest).map (·.1) with
  | some "package" => keyword false "package" *> (Entry.package <$> word)
  | some "import" => (fun group => .decl (.group group)) <$> importDecl
  | some "func" => ((fun func => .decl (.func func)) <$> nested.funcDecl) <|> nested.stmtEntry
  | _ => nested.stmtEntry

/-- All entries up to the end of the text. -/
def entries : Reader (List Entry) := do
  let list ← many (nested.entry <* terminator)
  ahead false
  ofFunction fun
    | [] => some (list, [])
    | _ :: _ => none

end Nested

/-- The text without the mark that may come before it. -/
def afterByteOrderMark : List Char → List Char
  | '\uFEFF' :: cs => cs
  | cs => cs

end Source

/-- Reads a source file. Of several package clauses the last one counts. -/
def SourceFile.parse (text : String) : Except SourceError SourceFile :=
  let cs := Source.afterByteOrderMark text.toList
  match (Source.nestedWithin (cs.count '\n') (cs.length + 1)).entries cs with
  | none => .error .syntaxError
  | some (entries, _) =>
    match (entries.filterMap Source.Entry.package?).getLast? with
    | none => .error .missingPackage
    | some package => .ok ⟨package, entries.filterMap Source.Entry.decl?⟩

end GoWeave

import GoWeave.Tree

/-!
# Layout

The text of a tree, in the usual formatting: tabs for indentation, one blank line before each
top-level declaration, struct and interface bodies over several lines. Columns are not aligned.
Every tree has a text, since a bad node is written back as it stood in the source.

A node is laid out at an indentation level. The level is an argument and not a state, so the text
of a node depends on nothing that was laid out before it.
-/
namespace GoWeave

namespace Layout

def tabs (level : Nat) : String :=
  String.ofList (List.replicate level '\t')

def commaSep : List String → String
  | [] => ""
  | [x] => x
  | x :: xs => x ++ ", " ++ commaSep xs

/-- Each item on a line of its own at the given level, with `mark` at the end of the line. -/
def linesAt (level : Nat) (mark : String) : List String → String
  | [] => ""
  | x :: xs => tabs level ++ x ++ mark ++ "\n" ++ linesAt level mark xs

/-- Lines between braces; the closing brace stands at the given level. -/
def braced (level : Nat) (lines : String) : String :=
  "\x7b\n" ++ lines ++ tabs level ++ "\x7d"

/-- The names in front of a type; an unnamed field has nothing in front. -/
def leadingNames (names : List String) : String :=
  if names.isEmpty then "" else commaSep names ++ " "

end Layout

open Layout

/-- Where a field stands decides what is written of it: a parameter shows names and type, a struct
member its tag as well, an interface element its first name joined to its signature. -/
inductive Field.Place where
  | param | member | element
  deriving DecidableEq, Repr

def ImportSpec.render (spec : ImportSpec) : String :=
  match spec.name with
  | some name => name ++ " " ++ spec.path.value
  | none => spec.path.value

/-- Elements that make a composite literal span several lines. -/
def Expr.breaksLine : Expr → Bool
  | .keyValue .. => true
  | .composite .. => true
  | .funcLit .. => true
  | _ => false

def Stmt.isEmpty : Stmt → Bool
  | .empty => true
  | _ => false

def ChanDir.text : ChanDir → String
  | both => "chan "
  | send => "chan<- "
  | recv => "<-chan "

mutual

def Expr.render (level : Nat) : Expr → String
  | .bad node => node.text
  | .ident name => name
  | .ellipsis elt => "..." ++ Expr.renderOpt level elt
  | .literal value => value.value
  | .funcLit sig body =>
    "func" ++ sig.render level ++ " " ++ braced level (Stmt.renderLines (level + 1) body)
  | .composite ty elts _ =>
    Expr.renderOpt level ty ++
      if elts.any Expr.breaksLine then
        braced level (linesAt (level + 1) "," (Expr.renderEach (level + 1) elts))
      else "\x7b" ++ commaSep (Expr.renderEach level elts) ++ "\x7d"
  | .paren x => "(" ++ x.render level ++ ")"
  | .selector x sel => x.render level ++ "." ++ sel
  | .index x arg => x.render level ++ "[" ++ arg.render level ++ "]"
  | .indexList x args => x.render level ++ "[" ++ commaSep (Expr.renderEach level args) ++ "]"
  | .slice x low high max three =>
    x.render level ++ "[" ++ Expr.renderOpt level low ++ ":" ++ Expr.renderOpt level high ++
      (if three then ":" ++ Expr.renderOpt level max else "") ++ "]"
  | .typeAssert x ty =>
    x.render level ++ ".(" ++
      (match ty with
        | some ty => ty.render level
        | none => "type") ++ ")"
  | .call fn args spread =>
    fn.render level ++ "(" ++ commaSep (Expr.renderEach level args) ++
      (if spread then "..." else "") ++ ")"
  | .star x => "*" ++ x.render level
  | .unary op x => op.text ++ x.render level
  | .binary op x y => x.render level ++ " " ++ op.text ++ " " ++ y.render level
  | .keyValue key value => key.render level ++ ": " ++ value.render level
  | .arrayType len elt => "[" ++ Expr.renderOpt level len ++ "]" ++ elt.render level
  | .structType fields _ =>
    if fields.isEmpty then "struct\x7b\x7d"
    else
      "struct " ++
        braced level (linesAt (level + 1) "" (Field.renderEach .member (level + 1) fields))
  | .funcType sig => "func" ++ sig.render level
  | .interfaceType methods _ =>
    if methods.isEmpty then "interface\x7b\x7d"
    else
      "interface " ++
        braced level (linesAt (level + 1) "" (Field.renderEach .element (level + 1) methods))
  | .mapType key value => "map[" ++ key.render level ++ "]" ++ value.render level
  | .chanType dir value => dir.text ++ value.render level

/-- Nothing for an absent expression. -/
def Expr.renderOpt (level : Nat) : Option Expr → String
  | none => ""
  | some x => x.render level

def Expr.renderEach (level : Nat) : List Expr → List String
  | [] => []
  | x :: xs => x.render level :: Expr.renderEach level xs

def Field.render (place : Field.Place) (level : Nat) : Field → String
  | ⟨names, ty, tag⟩ =>
    match place with
    | .param => leadingNames names ++ ty.render level
    | .member =>
      leadingNames names ++ ty.render level ++
        (match tag with
          | some tag => " " ++ tag.value
          | none => "")
    | .element =>
      match names, ty with
      | name :: _, .funcType sig => name ++ sig.render level
      | _, ty => ty.render level

def Field.renderEach (place : Field.Place) (level : Nat) : List Field → List String
  | [] => []
  | f :: fs => f.render place level :: Field.renderEach place level fs

/-- An empty result list is not written, and a single unnamed result needs no parentheses. -/
def Signature.render (level : Nat) : Signature → String
  | ⟨typeParams, params, results⟩ =>
    Signature.renderTypeParams level typeParams ++
      "(" ++ commaSep (Field.renderEach .param level params) ++ ")" ++
      match results with
      | none => ""
      | some [] => ""
      | some [⟨[], ty, _⟩] => " " ++ ty.render level
      | some fields => " (" ++ commaSep (Field.renderEach .param level fields) ++ ")"

def Signature.renderTypeParams (level : Nat) : Option (List Field) → String
  | none => ""
  | some fields => "[" ++ commaSep (Field.renderEach .param level fields) ++ "]"

def Stmt.render (level : Nat) : Stmt → String
  | .bad node => node.text
  | .decl group => group.render level
  | .empty => ""
  | .labeled label stmt => label ++ ":\n" ++ tabs level ++ stmt.render level
  | .expr x => x.render level
  | .send chan value => chan.render level ++ " <- " ++ value.render level
  | .incDec x tok => x.render level ++ tok.text
  | .assign lhs tok rhs =>
    commaSep (Expr.renderEach level lhs) ++ " " ++ tok.text ++ " " ++
      commaSep (Expr.renderEach level rhs)
  | .goCall x => "go " ++ x.render level
  | .deferCall x => "defer " ++ x.render level
  | .ret results =>
    "return" ++ if results.isEmpty then "" else " " ++ commaSep (Expr.renderEach level results)
  | .branch tok label =>
    tok.text ++
      match label with
      | some label => " " ++ label
      | none => ""
  | .block list => braced level (Stmt.renderLines (level + 1) list)
  | .ifElse init cond body orElse =>
    "if " ++
      (match init with
        | some init => init.render level ++ "; "
        | none => "") ++
      cond.render level ++ " " ++ braced level (Stmt.renderLines (level + 1) body) ++
      (match orElse with
        | some orElse => " else " ++ orElse.render level
        | none => "")
  | .switch init tag body =>
    "switch" ++
      (match init with
        | some init => " " ++ init.render level ++ ";"
        | none => "") ++
      (match tag with
        | some tag => " " ++ tag.render level
        | none => "") ++
      " " ++ braced level (Clause.renderAll level body)
  | .typeSwitch init guard body =>
    "switch" ++
      (match init with
        | some init => " " ++ init.render level ++ ";"
        | none => "") ++
      " " ++ guard.render level ++ " " ++ braced level (Clause.renderAll level body)
  | .loop init cond post body =>
    "for" ++
      (if init.isSome || post.isSome then
        " " ++
          (match init with
            | some init => init.render level
            | none => "") ++
          "; " ++ Expr.renderOpt level cond ++ ";" ++
          (match post with
            | some post => " " ++ post.render level
            | none => "")
      else
        match cond with
        | some cond => " " ++ cond.render level
        | none => "") ++
      " " ++ braced level (Stmt.renderLines (level + 1) body)
  | .range key value tok x body =>
    "for " ++
      (match key with
        | some key =>
          key.render level ++
            (match value with
              | some value => ", " ++ value.render level
              | none => "") ++
            " " ++ (tok.getD .define).text ++ " "
        | none => "") ++
      "range " ++ x.render level ++ " " ++ braced level (Stmt.renderLines (level + 1) body)

/-- Empty statements leave no line. -/
def Stmt.renderLines (level : Nat) : List Stmt → String
  | [] => ""
  | s :: ss =>
    (if s.isEmpty then "" else tabs level ++ s.render level ++ "\n") ++ Stmt.renderLines level ss

def Clause.render (level : Nat) : Clause → String
  | .matching list body =>
    tabs level ++ "case " ++ commaSep (Expr.renderEach level list) ++ ":\n" ++
      Stmt.renderLines (level + 1) body
  | .otherwise body => tabs level ++ "default:\n" ++ Stmt.renderLines (level + 1) body

def Clause.renderAll (level : Nat) : List Clause → String
  | [] => ""
  | c :: cs => c.render level ++ Clause.renderAll level cs

def ValueSpec.render (level : Nat) : ValueSpec → String
  | ⟨names, ty, values⟩ =>
    commaSep names ++
      (match ty with
        | some ty => " " ++ ty.render level
        | none => "") ++
      if values.isEmpty then "" else " = " ++ commaSep (Expr.renderEach level values)

def TypeSpec.render (level : Nat) : TypeSpec → String
  | ⟨name, typeParams, isAlias, ty⟩ =>
    name ++ Signature.renderTypeParams level typeParams ++ (if isAlias then " =" else "") ++ " " ++
      ty.render level

def Spec.render (level : Nat) : Spec → String
  | .imported spec => spec.render
  | .value spec => spec.render level
  | .type spec => spec.render level

def Spec.renderEach (level : Nat) : List Spec → List String
  | [] => []
  | s :: ss => s.render level :: Spec.renderEach level ss

/-- A single spec without parentheses stays on the line of the keyword. -/
def DeclGroup.render (level : Nat) : DeclGroup → String
  | ⟨tok, specs, grouped⟩ =>
    tok.text ++
      match grouped, specs with
      | false, [spec] => " " ++ spec.render level
      | _, [] => " ()"
      | _, specs => " (\n" ++ linesAt (level + 1) "" (Spec.renderEach (level + 1) specs) ++
          tabs level ++ ")"

end

def FuncDecl.render (level : Nat) (f : FuncDecl) : String :=
  "func " ++
    (match f.recv with
      | some recv => "(" ++ commaSep (Field.renderEach .param level recv) ++ ") "
      | none => "") ++
    f.name ++ f.sig.render level ++
    match f.body with
    | some body => " " ++ braced level (Stmt.renderLines (level + 1) body)
    | none => ""

def Decl.render (level : Nat) : Decl → String
  | .bad node => node.text
  | .group g => g.render level
  | .func f => f.render level

/-- The package clause, then each declaration after a blank line. -/
def SourceFile.render (file : SourceFile) : String :=
  "package " ++ file.package ++ "\n" ++
    String.join (file.decls.map fun d => "\n" ++ d.render 0 ++ "\n")

/-- The text of an expression that stands on no indented line. -/
def Expr.text (x : Expr) : String :=
  x.render 0

end GoWeave

import GoWeave.Token

/-!
# The syntax tree of a Go source file

Types are expressions in type position, so `io.Reader` and `x.field` are both selectors. Positions
and comments are not kept. A construct that the tree does not model stays as a `BadNode` with its
source text.

Expressions, statements and the specs of a declaration group refer to one another: a function
literal holds statements, a statement may declare, and a declaration holds expressions.
-/
namespace GoWeave

/-- The lexical class of a literal. -/
inductive LiteralKind where
  | int | float | imaginary | char | string
  deriving DecidableEq, Repr

/-- A literal, spelled as in the source with its quotes. -/
structure Literal where
  kind : LiteralKind
  value : String
  deriving DecidableEq, Repr

/-- The source text of a construct outside the tree's vocabulary. The line is counted from one. -/
structure BadNode where
  kind : String
  text : String
  line : Nat
  deriving DecidableEq, Repr

inductive ChanDir where
  | both | send | recv
  deriving DecidableEq, Repr

/-- One import: an explicit name if there is one, and the quoted path. -/
structure ImportSpec where
  name : Option String
  path : Literal
  deriving DecidableEq, Repr

mutual

inductive Expr where
  | bad (node : BadNode)
  | ident (name : String)
  /-- The `...T` of a variadic parameter, or the length of `[...]T`. -/
  | ellipsis (elt : Option Expr)
  | literal (value : Literal)
  | funcLit (sig : Signature) (body : List Stmt)
  /-- The type is absent in the inner literals of `[]T{{…}}`. -/
  | composite (ty : Option Expr) (elts : List Expr) (incomplete : Bool)
  | paren (x : Expr)
  | selector (x : Expr) (sel : String)
  | index (x : Expr) (arg : Expr)
  /-- A generic instance with other than one type argument. -/
  | indexList (x : Expr) (args : List Expr)
  | slice (x : Expr) (low high max : Option Expr) (three : Bool)
  /-- The type is absent in the guard `x.(type)` of a type switch. -/
  | typeAssert (x : Expr) (ty : Option Expr)
  | call (fn : Expr) (args : List Expr) (spread : Bool)
  /-- A pointer type or a dereference. -/
  | star (x : Expr)
  | unary (op : Token) (x : Expr)
  | binary (op : Token) (x y : Expr)
  | keyValue (key value : Expr)
  /-- A slice type has no length. -/
  | arrayType (len : Option Expr) (elt : Expr)
  | structType (fields : List Field) (incomplete : Bool)
  | funcType (sig : Signature)
  | interfaceType (methods : List Field) (incomplete : Bool)
  | mapType (key value : Expr)
  | chanType (dir : ChanDir) (value : Expr)

/-- A struct field, interface element, parameter, result or receiver. Embedded members and unnamed
parameters have no names. -/
structure Field where
  names : List String
  ty : Expr
  tag : Option Literal

structure Signature where
  typeParams : Option (List Field)
  params : List Field
  results : Option (List Field)

inductive Stmt where
  | bad (node : BadNode)
  | decl (group : DeclGroup)
  | empty
  | labeled (label : String) (stmt : Stmt)
  | expr (x : Expr)
  | send (chan value : Expr)
  | incDec (x : Expr) (tok : Token)
  | assign (lhs : List Expr) (tok : Token) (rhs : List Expr)
  | goCall (x : Expr)
  | deferCall (x : Expr)
  | ret (results : List Expr)
  | branch (tok : Token) (label : Option String)
  | block (list : List Stmt)
  | ifElse (init : Option Stmt) (cond : Expr) (body : List Stmt) (orElse : Option Stmt)
  | switch (init : Option Stmt) (tag : Option Expr) (body : List Clause)
  | typeSwitch (init : Option Stmt) (guard : Stmt) (body : List Clause)
  | loop (init : Option Stmt) (cond : Option Expr) (post : Option Stmt) (body : List Stmt)
  | range (key value : Option Expr) (tok : Option Token) (x : Expr) (body : List Stmt)

/-- A clause of a switch. -/
inductive Clause where
  | matching (list : List Expr) (body : List Stmt)
  | otherwise (body : List Stmt)

/-- Names of constants or variables with their type and initializers. -/
structure ValueSpec where
  names : List String
  ty : Option Expr
  values : List Expr

structure TypeSpec where
  name : String
  typeParams : Option (List Field)
  /-- Whether the spec is `A = T`, which names `T` again and defines no type of its own. -/
  isAlias : Bool
  ty : Expr

inductive Spec where
  | imported (spec : ImportSpec)
  | value (spec : ValueSpec)
  | type (spec : TypeSpec)

/-- An `import`, `const`, `var` or `type` declaration, with parentheses or without. -/
structure DeclGroup where
  tok : Token
  specs : List Spec
  grouped : Bool

end

/-- A function or method. The body is absent for functions implemented elsewhere. -/
structure FuncDecl where
  recv : Option (List Field)
  name : String
  sig : Signature
  body : Option (List Stmt)

inductive Decl where
  | bad (node : BadNode)
  | group (group : DeclGroup)
  | func (func : FuncDecl)

structure SourceFile where
  package : String
  decls : List Decl

/-- The name that may be declared any number of times and is never referred to. -/
def isBlank (name : String) : Bool :=
  name == "_"

namespace Expr

/-- What an expression is called in a description. -/
def kindName : Expr → String
  | bad _ => "bad expression"
  | ident _ => "identifier"
  | ellipsis _ => "ellipsis"
  | literal _ => "literal"
  | funcLit .. => "function literal"
  | composite .. => "composite literal"
  | paren _ => "parenthesized expression"
  | selector .. => "selector"
  | index .. => "index expression"
  | indexList .. => "index list expression"
  | slice .. => "slice expression"
  | typeAssert .. => "type assertion"
  | call .. => "call"
  | star _ => "star expression"
  | unary .. => "unary expression"
  | binary .. => "binary expression"
  | keyValue .. => "key-value pair"
  | arrayType .. => "array type"
  | structType .. => "struct type"
  | funcType _ => "function type"
  | interfaceType .. => "interface type"
  | mapType .. => "map type"
  | chanType .. => "channel type"

/-- The named type at the root of a type, seen through pointers, parentheses and type arguments. -/
def baseName? : Expr → Option String
  | ident name => some name
  | star x => x.baseName?
  | paren x => x.baseName?
  | index x _ => x.baseName?
  | indexList x _ => x.baseName?
  | _ => none

def isStructType : Expr → Bool
  | structType .. => true
  | _ => false

def isInterfaceType : Expr → Bool
  | interfaceType .. => true
  | _ => false

end Expr

/-- What a statement is called in a description. -/
def Stmt.kindName : Stmt → String
  | bad _ => "bad statement"
  | decl _ => "declaration statement"
  | empty => "empty statement"
  | labeled .. => "labeled statement"
  | expr _ => "expression statement"
  | send .. => "send statement"
  | incDec .. => "inc/dec statement"
  | assign .. => "assignment"
  | goCall _ => "go statement"
  | deferCall _ => "defer statement"
  | ret _ => "return statement"
  | branch .. => "branch statement"
  | block _ => "block"
  | ifElse .. => "if statement"
  | switch .. => "switch statement"
  | typeSwitch .. => "type switch statement"
  | loop .. => "for statement"
  | range .. => "range statement"

/-- What a spec is called in a description. -/
def Spec.kindName : Spec → String
  | imported _ => "import spec"
  | value _ => "value spec"
  | type _ => "type spec"

/-- A subtree that stands on its own. -/
inductive Node where
  | expr (x : Expr)
  | stmt (s : Stmt)
  | block (list : List Stmt)
  | func (f : FuncDecl)
  | group (g : DeclGroup)
  | typeSpec (spec : TypeSpec)
  | valueSpec (spec : ValueSpec)
  | fields (list : List Field)

/-- What a subtree is called in a description. -/
def Node.kindName : Node → String
  | expr x => x.kindName
  | stmt s => s.kindName
  | block _ => "block"
  | func _ => "function declaration"
  | group _ => "grouped declaration"
  | typeSpec _ => "type spec"
  | valueSpec _ => "value spec"
  | fields _ => "field list"

/-- The base type of a method's receiver: `List` for `func (s *List[T]) Len()`. -/
def FuncDecl.receiverName? (f : FuncDecl) : Option String :=
  match f.recv with
  | some (field :: _) => field.ty.baseName?
  | _ => none

/-- The import specs of a file's import groups, in source order. -/
def SourceFile.imports (file : SourceFile) : List ImportSpec :=
  file.decls.flatMap fun
    | .group g =>
      if g.tok = .import_ then
        g.specs.filterMap fun
          | .imported spec => some spec
          | _ => none
      else []
    | _ => []

end GoWeave

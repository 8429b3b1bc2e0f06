import GoWeave.Source.Phrase

/-!
# Types in source text

Readers for types, signatures and the members of structs and interfaces.
-/
namespace GoWeave

/-- A generic instance. With a single argument it looks like an index expression. -/
def Expr.instantiate (x : Expr) : List Expr → Expr
  | [arg] => .index x arg
  | args => .indexList x args

/-- Terms joined by `|` from the left. -/
def Expr.union (first : Expr) (others : List Expr) : Expr :=
  others.foldl (.binary .or) first

/-- Parameters as declared. A parameter with a name takes the bare names before it along, since in
`a, b int` they share one type; otherwise a bare name is a type. A variadic parameter stands for
itself. -/
def Field.regroup (pending : List String) : List Field → List Field
  | [] => pending.map unnamed
  | ⟨[], .ident name, none⟩ :: rest => regroup (pending ++ [name]) rest
  | ⟨[name], .ellipsis elt, tag⟩ :: rest =>
    pending.map unnamed ++ ⟨[name], .ellipsis elt, tag⟩ :: regroup [] rest
  | ⟨[name], ty, tag⟩ :: rest => ⟨pending ++ [name], ty, tag⟩ :: regroup [] rest
  | field :: rest => pending.map unnamed ++ field :: regroup [] rest
where
  unnamed (name : String) : Field := ⟨[], .ident name, none⟩

namespace Source

open Reader

/-- The words that start a type other than a name. -/
def typeWords : List String :=
  ["func", "struct", "map", "interface", "chan"]

namespace Nested

variable (nested : Nested)

/-- Terms of a constraint or of an interface's type set. -/
def readUnion (read : Reader Expr) (place : Place) : Reader Expr := do
  let first ← read
  let others ← many (lexeme place.line "|" *> read)
  pure (first.union others)

/-- Type arguments in brackets. -/
def typeArgs : Reader (List Expr) := do
  symbol "["
  let args ← listed (readUnion (nested.type .inside) .inside)
  symbol "]"
  pure args

/-- A type name, perhaps of another package and perhaps with type arguments. -/
def namedType (reserved : List String) (place : Place) : Reader Expr := do
  let head ← name reserved
  let base ←
    (do
      lexeme place.line "."
      let sel ← word
      pure (.selector (.ident head) sel))
    <|> pure (.ident head)
  (do
    ahead place.line
    let args ← nested.typeArgs
    pure (base.instantiate args))
  <|> pure base

/-- The element type of an array or slice after its bracket. -/
def arrayType (place : Place) : Reader Expr := do
  symbol "["
  (do
    symbol "]"
    let elt ← nested.type place
    pure (.arrayType none elt))
  <|> (do
    let len ← nested.expr .inside
    symbol "]"
    let elt ← nested.type place
    pure (.arrayType (some len) elt))

def mapType (place : Place) : Reader Expr := do
  keyword false "map"
  symbol "["
  let key ← nested.type .inside
  symbol "]"
  let value ← nested.type place
  pure (.mapType key value)

/-- A channel type. The arrow of `chan<- chan T` belongs to the inner type. -/
def chanType (place : Place) : Reader Expr :=
  (do
    symbol "<-"
    keyword false "chan"
    let value ← nested.type place
    pure (.chanType .recv value))
  <|> (do
    keyword false "chan"
    (do
      let value ← nested.type place
      pure (.chanType .both value))
    <|> (do
      symbol "<-"
      let value ← nested.type place
      pure (.chanType .send value)))

/-! ## Parameters -/

/-- One entry of a parameter list: a name with its type, or only one of the two. -/
def param : Reader Field :=
  (do
    let declared ← optional (name typeWords)
    symbol "..."
    let ty ← nested.type .inside
    pure ⟨declared.toList, .ellipsis (some ty), none⟩)
  <|> (do
    let declared ← name typeWords
    let ty ← nested.type .inside
    pure ⟨[declared], ty, none⟩)
  <|> (do
    let ty ← nested.type .inside
    pure ⟨[], ty, none⟩)

def params : Reader (List Field) := do
  let entries ← enclosed "(" ")" nested.param
  pure (Field.regroup [] entries)

/-- Type parameters in brackets. -/
def typeParams : Reader (List Field) := do
  symbol "["
  let fields ← listed do
    let names ← separated (symbol ",") (name [])
    let constraint ← readUnion (nested.type .inside) .inside
    pure ⟨names, constraint, none⟩
  symbol "]"
  pure fields

/-! ## Members -/

/-- The string after a struct field, on the same line. -/
def tag : Reader (Option Literal) :=
  optional (ahead true *> ofFunction string?)

/-- What may follow an embedded field. -/
def memberEnd : Reader Unit :=
  sees terminator <|> sees (symbol "\x7d") <|> sees (ahead true *> ofFunction string?)

/-- A struct field. A name that stands alone is an embedded type. -/
def structField : Reader Field := do
  let declared : List String × Expr ←
    (do
      symbol "*"
      let ty ← nested.namedType [] .statement
      pure ([], .star ty))
    <|> (do
      let ty ← nested.namedType [] .statement
      memberEnd
      pure ([], ty))
    <|> (do
      let names ← separated (symbol ",") word
      let ty ← nested.type .statement
      pure (names, ty))
  let tag ← tag
  pure ⟨declared.1, declared.2, tag⟩

def structType : Reader Expr := do
  keyword false "struct"
  let fields ← members nested.structField
  pure (.structType fields false)

/-- The results of a function: a list in parentheses or a single type without them. -/
def results (place : Place) : Reader (Option (List Field)) :=
  optional do
    ahead place.line
    nested.params
      <|> (do
        lacks (symbol "(")
        let ty ← nested.type place
        pure [⟨[], ty, none⟩])

/-- The parameters and results of a function without type parameters. -/
def signature (place : Place) : Reader Signature := do
  let params ← nested.params
  let results ← nested.results place
  pure ⟨none, params, results⟩

/-- A method, or a term of the interface's type set. -/
def interfaceElem : Reader Field :=
  (do
    let declared ← name typeWords
    ahead true
    let sig ← nested.signature .statement
    pure ⟨[declared], .funcType sig, none⟩)
  <|> (do
    let ty ← readUnion (nested.type .statement) .statement
    pure ⟨[], ty, none⟩)

def interfaceType : Reader Expr := do
  keyword false "interface"
  let methods ← members nested.interfaceElem
  pure (.interfaceType methods false)

/-- A type that is no expression in itself. -/
def properType (place : Place) : Reader Expr :=
  nested.arrayType place
  <|> nested.mapType place
  <|> nested.chanType place
  <|> nested.structType
  <|> nested.interfaceType
  <|> (do
    keyword false "func"
    let sig ← nested.signature place
    pure (.funcType sig))

def readType (place : Place) : Reader Expr :=
  (do
    symbol "("
    let ty ← nested.type .inside
    symbol ")"
    pure (.paren ty))
  <|> (do
    symbol "*"
    let ty ← nested.type place
    pure (.star ty))
  <|> (do
    symbol "~"
    let ty ← nested.type place
    pure (.unary .tilde ty))
  <|> nested.properType place
  <|> nested.namedType typeWords place

end Nested

end Source

end GoWeave

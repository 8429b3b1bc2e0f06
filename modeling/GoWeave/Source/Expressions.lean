import GoWeave.Source.Types

/-!
# Expressions in source text

An expression is a row of operands with binary operators between them. The row is read first and
then joined, the tightest operators before the others and each level from the left.
-/
namespace GoWeave

/-- How tightly a binary operator binds. -/
def Token.precedence : Token → Nat
  | .mul | .quo | .rem | .shl | .shr | .and | .andNot => 5
  | .add | .sub | .or | .xor => 4
  | .equal | .notEqual | .less | .lessEqual | .greater | .greaterEqual => 3
  | .logicalAnd => 2
  | _ => 1

/-- Whether a binary operator followed by `=` is an assignment. -/
def Token.assigns (op : Token) : Bool :=
  4 ≤ op.precedence

/-- Joins neighbours whose operator binds at the given level. -/
def Expr.joinLevel (level : Nat) (x : Expr) : List (Token × Expr) → Expr × List (Token × Expr)
  | [] => (x, [])
  | (op, y) :: rest =>
    if op.precedence = level then joinLevel level (.binary op x y) rest
    else
      let (y, rest) := joinLevel level y rest
      (x, (op, y) :: rest)

/-- Joins a row of operands into one expression. -/
def Expr.join (x : Expr) (rest : List (Token × Expr)) : Expr :=
  ([5, 4, 3, 2, 1].foldl (fun row level => row.1.joinLevel level row.2) (x, rest)).1

namespace Source

open Reader

/-- Words that are values of their own and never name a type. -/
def valueWords : List String :=
  ["nil", "true", "false", "iota", "new", "make"]

/-- Words that never stand for an operand. -/
def operandReserved : List String :=
  typeWords ++ ["case", "default"]

/-- Whether an operand may also name a type. -/
def isTypeName : Expr → Bool
  | .ident name => !valueWords.contains name
  | .selector (.ident name) _ => !valueWords.contains name
  | _ => false

/-- Whether an operand may also be a type that takes arguments. -/
def isTypeLike : Expr → Bool
  | .paren x => isTypeLike x
  | .star x => isTypeLike x
  | .index x _ => isTypeLike x
  | .indexList x _ => isTypeLike x
  | x => isTypeName x

/-- The binary operators, those first that others begin. -/
def binaryOperators : List Token :=
  [.andNot, .logicalAnd, .logicalOr, .shl, .shr, .equal, .notEqual, .lessEqual, .greaterEqual,
    .add, .sub, .mul, .quo, .rem, .and, .or, .xor, .less, .greater]

/-- The unary operators besides `*` and `<-`. -/
def unaryOperators : List Token :=
  [.add, .sub, .not, .xor, .and]

/-- Whether an operator at this place is the start of `<-`, `++` or `--`. -/
def startsStep (op : Token) (rest : List Char) : Bool :=
  match op, rest.head? with
  | .less, some '-' => true
  | .add, some '+' => true
  | .sub, some '-' => true
  | _, _ => false

/-- The operator at the front of a text. -/
def operator? (place : Place) (cs : List Char) : Option (Token × List Char) := do
  let op ← binaryOperators.find? fun op => (afterText? op.text.toList cs).isSome
  let rest ← afterText? op.text.toList cs
  if op.assigns && rest.head? == some '=' then none
  else if place.step && startsStep op rest then none
  else some (op, rest)

def binaryOperator (place : Place) : Reader Token := do
  ahead place.line
  ofFunction (operator? place)

/-- Reads one of several operators. -/
def oneOf (stop : Bool) (ops : List Token) : Reader Token := do
  ahead stop
  ofFunction fun cs => ops.findSome? fun op => (afterText? op.text.toList cs).map (op, ·)

def literal : Reader Literal := do
  ahead false
  ofFunction fun cs => number? cs <|> string? cs <|> rune? cs

namespace Nested

variable (nested : Nested)

/-- Statements between braces. -/
def block : Reader (List Stmt) := do
  symbol "\x7b"
  let list ← nested.stmts
  symbol "\x7d"
  pure list

/-! ## Calls and literals -/

/-- The argument of a conversion to a type that is no expression. -/
def conversion (ty : Expr) : Reader Expr := do
  symbol "("
  let x ← nested.expr .inside
  let _ ← optional (symbol ",")
  symbol ")"
  pure (.call ty [x] false)

/-- Call arguments, each perhaps followed by dots. -/
def arguments (fn : Expr) : Reader Expr := do
  symbol "("
  let args ←
    listed (do
      let x ← nested.expr .inside
      let spread ← optional (symbol "...")
      pure (x, spread.isSome))
    <|> pure []
  symbol ")"
  pure (.call fn (args.map (·.1)) (args.any (·.2)))

/-- The arguments of `new` and `make`, of which the first is a type. -/
def allocation (fn : Expr) : Reader Expr := do
  symbol "("
  let args ←
    (do
      let ty ← nested.type .inside
      let others ← many (symbol "," *> nested.expr .inside)
      let _ ← optional (symbol ",")
      pure (ty :: others))
    <|> pure []
  symbol ")"
  pure (.call fn args false)

/-- The reader of a composite literal's braces, where braces nest without a type. -/
def elementsWithin (nested : Nested) : Nat → Reader (List Expr)
  | 0 => failure
  | bound + 1 =>
    let element : Reader Expr :=
      (do
        let elts ← elementsWithin nested bound
        pure (.composite none elts false))
      <|> nested.expr .inside
    enclosed "\x7b" "\x7d" do
      let first ← element
      (do
        symbol ":"
        let value ← element
        pure (.keyValue first value))
      <|> pure first

/-- The elements of a composite literal in their braces. -/
def elements : Reader (List Expr) := ofFunction fun cs =>
  nested.elementsWithin (cs.length + 1) cs

def composite (ty : Expr) : Reader Expr := do
  let elts ← nested.elements
  pure (.composite (some ty) elts false)

/-! ## Operands -/

/-- The array type whose length is counted from its literal's elements. -/
def countedArrayType : Reader Expr := do
  symbol "["
  symbol "..."
  symbol "]"
  let elt ← nested.type .inside
  pure (.arrayType (some (.ellipsis none)) elt)

/-- Types that a composite literal may start with besides type names. -/
def literalType : Reader Expr :=
  nested.countedArrayType
  <|> nested.arrayType .inside
  <|> nested.mapType .inside
  <|> nested.structType

def funcLiteral : Reader Expr := do
  keyword false "func"
  let sig ← nested.signature .inside
  let body ← nested.block
  pure (.funcLit sig body)

/-- An operand that starts with a type. -/
def typeOperand : Reader Expr :=
  nested.funcLiteral
  <|> (nested.literalType >>= nested.composite)
  <|> (nested.properType .inside >>= nested.conversion)

/-- An operand in parentheses. A type in parentheses is one only if it converts something. -/
def parenOperand : Reader Expr :=
  (do
    symbol "("
    let x ← nested.expr .inside
    symbol ")"
    pure (.paren x))
  <|> (do
    symbol "("
    let ty ← nested.type .inside
    symbol ")"
    nested.conversion (.paren ty))

def operand (place : Place) : Reader Expr :=
  (Expr.literal <$> literal)
  <|> nested.parenOperand
  <|> nested.typeOperand
  <|> (do
    let found ← name operandReserved
    let called ← optional (ahead place.line *> sees (symbol "("))
    if called.isSome && ["new", "make"].contains found then nested.allocation (.ident found)
    else pure (.ident found))

/-! ## What follows an operand -/

/-- A member or a type assertion. -/
def dotted (place : Place) (x : Expr) : Reader Expr := do
  symbol "."
  (do
    symbol "("
    if place.subject then lacks (keyword false "type" *> symbol ")")
    let ty ← nested.type .inside
    symbol ")"
    pure (.typeAssert x (some ty)))
  <|> (do
    let sel ← word
    pure (.selector x sel))

/-- The rest of a slice expression after its lower bound. The last bound needs the one before it. -/
def sliced (x : Expr) (low : Option Expr) : Reader Expr := do
  symbol ":"
  let high ← optional (nested.expr .inside)
  let max ←
    match high with
    | some _ => optional (symbol ":" *> nested.expr .inside)
    | none => pure none
  symbol "]"
  pure (.slice x low high max max.isSome)

/-- An index or a slice of an operand. -/
def indexed (x : Expr) : Reader Expr := do
  symbol "["
  let low ← optional (nested.expr .inside)
  nested.sliced x low
    <|> (do
      symbol "]"
      match low with
      | some arg => pure (.index x arg)
      | none => failure)

/-- An operand with type arguments. Unless they belong to a call, the operand must be a type. -/
def instantiated (place : Place) (x : Expr) : Reader Expr :=
  (do
    let args ← nested.typeArgs
    ahead place.line
    nested.arguments (x.instantiate args))
  <|> (do
    if isTypeLike x then
      symbol "["
      let args ← listed (nested.type .inside)
      symbol "]"
      pure (x.instantiate args)
    else failure)

/-- One more member, index, slice, call, assertion or literal body after an operand. -/
def suffixed (place : Place) (x : Expr) : Reader Expr := do
  ahead place.line
  nested.dotted place x
    <|> nested.arguments x
    <|> (do
      if place.literal && isTypeName x then nested.composite x else failure)
    <|> (do
      if place.literal && isTypeName x then
        let args ← nested.typeArgs
        ahead place.line
        nested.composite (x.instantiate args)
      else failure)
    <|> nested.indexed x
    <|> nested.instantiated place x

/-! ## Rows -/

/-- An operand with the operators before it. The arrow of `<-chan T` belongs to the type. -/
def readUnary (place : Place) : Reader Expr :=
  (do
    symbol "<-"
    lacks (keyword false "chan")
    let x ← nested.unary place
    pure (.unary .arrow x))
  <|> (do
    symbol "*"
    let x ← nested.unary place
    pure (.star x))
  <|> (do
    let op ← oneOf false unaryOperators
    let x ← nested.unary place
    pure (.unary op x))
  <|> (nested.operand place >>= extend (nested.suffixed place))

def readExpr (place : Place) : Reader Expr := do
  let first ← nested.readUnary place
  let others ← many do
    let op ← binaryOperator place
    let x ← nested.readUnary place
    pure (op, x)
  pure (first.join others)

end Nested

end Source

end GoWeave

import GoWeave.Source.Expressions

/-!
# Declarations in source text

Readers for the specs of `import`, `const`, `var` and `type`, alone or in parentheses.
-/
namespace GoWeave.Source

open Reader

/-- A spec alone, or any number of specs in parentheses, each with a terminator. -/
def group (tok : Token) (read : Reader Spec) : Reader DeclGroup := do
  keyword false tok.text
  (do
    symbol "("
    let specs ← many (read <* terminator)
    symbol ")"
    pure ⟨tok, specs, true⟩)
  <|> (do
    let spec ← read
    pure ⟨tok, [spec], false⟩)

/-- An import path with the name it is imported under, which may be a dot. -/
def importSpec : Reader Spec := do
  let declared ← optional ((symbol "." *> pure ".") <|> word)
  ahead false
  let path ← ofFunction string?
  pure (.imported ⟨declared, path⟩)

/-- An import declaration. In parentheses the last spec needs no terminator. -/
def importDecl : Reader DeclGroup := do
  keyword false Token.import_.text
  (do
    symbol "("
    let specs ← (separated terminator importSpec <* optional terminator) <|> pure []
    symbol ")"
    pure ⟨.import_, specs, true⟩)
  <|> (do
    let spec ← importSpec
    pure ⟨.import_, [spec], false⟩)

namespace Nested

variable (nested : Nested)

/-- Expressions with commas between them. -/
def exprs (place : Place) : Reader (List Expr) :=
  separated (lexeme place.line ",") (nested.readExpr place)

/-- A constant spec, whose type needs a value. The commas between its names count as names. -/
def constSpec : Reader Spec := do
  let names ← separated (lexeme true ",") word
  let given ← optional do
    ahead true
    let ty ← optional (nested.readType .inside)
    symbol "="
    let values ← nested.exprs Place.statement.value
    pure (ty, values)
  pure (.value ⟨names.intersperse ",", given.bind (·.1), (given.map (·.2)).getD []⟩)

/-- A variable spec, which has a type or a value. -/
def varSpec : Reader Spec := do
  let names ← separated (symbol ",") word
  (do
    symbol "="
    let values ← nested.exprs Place.statement.value
    pure (.value ⟨names, none, values⟩))
  <|> (do
    let ty ← nested.readType .statement
    let values ← optional (lexeme true "=" *> nested.exprs Place.statement.value)
    pure (.value ⟨names, some ty, values.getD []⟩))

/-- A type spec. Brackets after the name are the length of an array if they can be. -/
def typeSpec : Reader Spec := do
  let declared ← word
  (do
    symbol "="
    let ty ← nested.readType .statement
    pure (.type ⟨declared, none, true, ty⟩))
  <|> (do
    let ty ← nested.readType .statement
    pure (.type ⟨declared, none, false, ty⟩))
  <|> (do
    let params ← nested.typeParams
    let ty ← nested.readType .statement
    pure (.type ⟨declared, some params, false, ty⟩))

/-- A declaration that may also stand inside a function. -/
def declGroup : Reader DeclGroup :=
  group .const nested.constSpec
  <|> group .var nested.varSpec
  <|> group .type nested.typeSpec

end Nested

end GoWeave.Source

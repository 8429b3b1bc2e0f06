import GoWeave.FieldSet

/-!
# Structural equivalence

Two trees are compared in parallel, and the comparison stops at the first difference, which it
describes by the path to the place. What the tree does not keep plays no part.

Two outcomes go beyond equal and unequal. A struct or interface type on the right that only adds
members to the one on the left gives `Difference.additional`; this surfaces only from the root of a
comparison, and anywhere deeper it is an ordinary mismatch. A bad node on either side is fatal,
since nothing is known about its meaning.
-/
namespace GoWeave

open Layout

inductive Difference where
  | mismatch (description : String)
  /-- Every shared member agrees; the keys that only one side has. -/
  | additional (onlyLeft onlyRight : List String)
  | fatal (fault : Fault)
  deriving DecidableEq, Repr

/-- The first difference, if there is one. -/
abbrev Comparison := Option Difference

namespace Difference

/-- The difference seen from a node that has it at the place `what`. -/
def within (what : String) : Difference → Difference
  | mismatch description => mismatch (what ++ ": " ++ description)
  | additional onlyLeft onlyRight =>
    mismatch (what ++ ": members differ (" ++ commaSep (onlyLeft ++ onlyRight) ++ ")")
  | fatal fault => fatal fault

def unsupported (node : BadNode) : Difference :=
  fatal (.unsupportedNode node.kind node.line)

def ofKinds (left right : String) : Difference :=
  mismatch s!"kind: {left} vs {right}"

end Difference

namespace Comparison

/-- A difference with the given description unless the condition holds. -/
def require (same : Bool) (description : String) : Comparison :=
  if same then none else some (.mismatch description)

def within (what : String) (c : Comparison) : Comparison :=
  c.map (·.within what)

def names (a b : String) : Comparison :=
  require (a == b) s!"identifier `{a}` vs `{b}`"

def literals (a b : Literal) : Comparison :=
  require (a == b) ("literal " ++ a.value ++ " vs " ++ b.value)

def oneSided : Comparison :=
  some (.mismatch "present on one side only")

/-- Two lists of one length whose elements `pairwise` compares. -/
def lists (what : String) (a b : List α) (pairwise : String → Comparison) : Comparison :=
  require (a.length == b.length)
      (what ++ ": " ++ toString a.length ++ " vs " ++ toString b.length ++ " elements") <|>
    pairwise what

def tokens (what : String) (a b : Token) : Comparison :=
  require (a == b) (what ++ a.text ++ " vs " ++ b.text)

def optional (cmp : α → α → Comparison) : Option α → Option α → Comparison
  | none, none => none
  | some a, some b => cmp a b
  | _, _ => oneSided

/-- Pairwise comparison of two name lists from an index on. -/
def nameLists (what : String) (i : Nat) : List String → List String → Comparison
  | a :: as, b :: bs => (names a b).within s!"{what}[{i}]" <|> nameLists what (i + 1) as bs
  | _, _ => none

/-- One member, given by its name, against the field set of the other side. The key and the tag are
those of the member, and `same` compares its type. A member that the other side lacks is passed
over. -/
def memberIn (other : FieldSet) (key : String) (embedded : Bool) (tag : Option Literal)
    (same : Expr → Comparison) : Comparison :=
  match other.get? key with
  | none => none
  | some e =>
    require (embedded == e.embedded) s!"member `{key}`: embedded vs named" <|>
      (optional literals tag e.tag).within s!"member `{key}` tag" <|>
      (same e.ty).within s!"member `{key}`"

/-- The members that one field contributes against the other side. -/
def fieldIn (other : FieldSet) (position : Nat) (tag : Option Literal) (same : Expr → Comparison) :
    List (String × Bool) → Comparison
  | [] => none
  | m :: ms =>
    memberIn other (FieldEntry.keyAt position m.1) m.2 tag same <|>
      fieldIn other (position + 1) tag same ms

/-- Two field lists as sets of members: the members that both have, compared by `shared`, then the
members that the right side lacks, then those that it adds. -/
def fieldSets (role : FieldRole) (a b : List Field) (shared : FieldSet → Comparison) : Comparison :=
  match FieldSet.ofFields role a with
  | .error fault => some (.fatal fault)
  | .ok left =>
    match FieldSet.ofFields role b with
    | .error fault => some (.fatal fault)
    | .ok right =>
      shared right <|>
        let missing := left.keys.filter (!right.contains ·)
        let added := right.keys.filter (!left.contains ·)
        if !missing.isEmpty then
          some (.mismatch ("members missing from incoming side: " ++ commaSep missing))
        else if !added.isEmpty then some (.additional missing added)
        else none

end Comparison

open Comparison

/-- An expression of the given kind against one of another shape. -/
def Expr.unlike (kind : String) : Expr → Comparison
  | .bad node => some (.unsupported node)
  | other => some (.ofKinds kind other.kindName)

/-- A statement of the given kind against one of another shape. -/
def Stmt.unlike (kind : String) : Stmt → Comparison
  | .bad node => some (.unsupported node)
  | other => some (.ofKinds kind other.kindName)

mutual

def Expr.compare (a b : Expr) : Comparison :=
  match a with
  | .bad node => some (.unsupported node)
  | .ident x =>
    match b with
    | .ident y => names x y
    | b => b.unlike a.kindName
  | .ellipsis x =>
    match b with
    | .ellipsis y => (Expr.compareOpt x y).within "ellipsis"
    | b => b.unlike a.kindName
  | .literal x =>
    match b with
    | .literal y => literals x y
    | b => b.unlike a.kindName
  | .funcLit sig body =>
    match b with
    | .funcLit sig' body' =>
      (sig.compare sig').within "function literal" <|>
        (lists "block" body body' (Stmt.compareFrom · 0 body body')).within "function literal body"
    | b => b.unlike a.kindName
  | .composite ty elts incomplete =>
    match b with
    | .composite ty' elts' incomplete' =>
      require (!incomplete && !incomplete') "composite literal: incomplete" <|>
        (Expr.compareOpt ty ty').within "composite literal type" <|>
        lists "composite literal" elts elts' (Expr.compareFrom · 0 elts elts')
    | b => b.unlike a.kindName
  | .paren x =>
    match b with
    | .paren y => (x.compare y).within "parentheses"
    | b => b.unlike a.kindName
  | .selector x sel =>
    match b with
    | .selector y sel' =>
      (names sel sel').within "selector" <|> (x.compare y).within "selector base"
    | b => b.unlike a.kindName
  | .index x arg =>
    match b with
    | .index y arg' =>
      (arg.compare arg').within "index" <|> (x.compare y).within "indexed operand"
    | b => b.unlike a.kindName
  | .indexList x args =>
    match b with
    | .indexList y args' =>
      lists "type arguments" args args' (Expr.compareFrom · 0 args args') <|>
        (x.compare y).within "indexed operand"
    | b => b.unlike a.kindName
  | .slice x low high max three =>
    match b with
    | .slice y low' high' max' three' =>
      require (three == three') "slice: 2 vs 3 indices" <|>
        (x.compare y).within "sliced operand" <|>
        (Expr.compareOpt low low').within "slice low" <|>
        (Expr.compareOpt high high').within "slice high" <|>
        (Expr.compareOpt max max').within "slice max"
    | b => b.unlike a.kindName
  | .typeAssert x ty =>
    match b with
    | .typeAssert y ty' =>
      (x.compare y).within "type assertion" <|> (Expr.compareOpt ty ty').within "asserted type"
    | b => b.unlike a.kindName
  | .call fn args spread =>
    match b with
    | .call fn' args' spread' =>
      require (spread == spread') "call: spread argument" <|>
        (fn.compare fn').within "callee" <|>
        lists "arguments" args args' (Expr.compareFrom · 0 args args')
    | b => b.unlike a.kindName
  | .star x =>
    match b with
    | .star y => (x.compare y).within "pointee"
    | b => b.unlike a.kindName
  | .unary op x =>
    match b with
    | .unary op' y => tokens "operator " op op' <|> (x.compare y).within "operand"
    | b => b.unlike a.kindName
  | .binary op x₁ x₂ =>
    match b with
    | .binary op' y₁ y₂ =>
      tokens "operator " op op' <|>
        (x₁.compare y₁).within "left operand" <|> (x₂.compare y₂).within "right operand"
    | b => b.unlike a.kindName
  | .keyValue key value =>
    match b with
    | .keyValue key' value' =>
      (key.compare key').within "key" <|> (value.compare value').within "value"
    | b => b.unlike a.kindName
  | .arrayType len elt =>
    match b with
    | .arrayType len' elt' =>
      (Expr.compareOpt len len').within "array length" <|> (elt.compare elt').within "element type"
    | b => b.unlike a.kindName
  | .structType fields incomplete =>
    match b with
    | .structType fields' incomplete' =>
      require (!incomplete && !incomplete') "struct: incomplete" <|>
        fieldSets .member fields fields' fun other => Field.compareAll .member 0 other fields
    | b => b.unlike a.kindName
  | .funcType sig =>
    match b with
    | .funcType sig' => sig.compare sig'
    | b => b.unlike a.kindName
  | .interfaceType methods incomplete =>
    match b with
    | .interfaceType methods' incomplete' =>
      require (!incomplete && !incomplete') "interface: incomplete" <|>
        fieldSets .member methods methods' fun other => Field.compareAll .member 0 other methods
    | b => b.unlike a.kindName
  | .mapType key value =>
    match b with
    | .mapType key' value' =>
      (key.compare key').within "map key" <|> (value.compare value').within "map value"
    | b => b.unlike a.kindName
  | .chanType dir value =>
    match b with
    | .chanType dir' value' =>
      require (dir == dir') "channel direction" <|> (value.compare value').within "channel element"
    | b => b.unlike a.kindName
termination_by structural a

def Expr.compareOpt : Option Expr → Option Expr → Comparison
  | none, none => none
  | some x, some y => x.compare y
  | none, some _ => oneSided
  | some _, none => oneSided
termination_by structural x => x

/-- Pairwise comparison from an index on. -/
def Expr.compareFrom (what : String) (i : Nat) : List Expr → List Expr → Comparison
  | x :: xs, y :: ys => (x.compare y).within s!"{what}[{i}]" <|> Expr.compareFrom what (i + 1) xs ys
  | [], _ => none
  | _ :: _, [] => none
termination_by structural x => x

/-- The members of a field, the first at the given position, against the other side. -/
def Field.compareMembers (role : FieldRole) (position : Nat) (other : FieldSet) : Field → Comparison
  | ⟨names, ty, tag⟩ =>
    fieldIn other position tag (fun y => ty.compare y)
      (Field.members role position ⟨names, ty, tag⟩)
termination_by structural x => x

def Field.compareAll (role : FieldRole) (position : Nat) (other : FieldSet) :
    List Field → Comparison
  | [] => none
  | f :: fs =>
    f.compareMembers role position other <|> Field.compareAll role (position + f.width) other fs
termination_by structural x => x

/-- An absent list has no members. -/
def Field.compareAllOpt (role : FieldRole) (other : FieldSet) : Option (List Field) → Comparison
  | none => none
  | some fields => Field.compareAll role 0 other fields
termination_by structural x => x

def Signature.compare : Signature → Signature → Comparison
  | ⟨typeParams, params, results⟩, ⟨typeParams', params', results'⟩ =>
    (fieldSets .param (typeParams.getD []) (typeParams'.getD []) fun other =>
      Field.compareAllOpt .param other typeParams).within "type parameters" <|>
    (fieldSets .param params params' fun other =>
      Field.compareAll .param 0 other params).within "parameters" <|>
    (fieldSets .param (results.getD []) (results'.getD []) fun other =>
      Field.compareAllOpt .param other results).within "results"
termination_by structural x => x

def Stmt.compare (a b : Stmt) : Comparison :=
  match a with
  | .bad node => some (.unsupported node)
  | .decl g =>
    match b with
    | .decl g' => g.compare g'
    | b => b.unlike a.kindName
  | .empty =>
    match b with
    | .empty => none
    | b => b.unlike a.kindName
  | .labeled label s =>
    match b with
    | .labeled label' s' => (names label label').within "label" <|> s.compare s'
    | b => b.unlike a.kindName
  | .expr x =>
    match b with
    | .expr y => x.compare y
    | b => b.unlike a.kindName
  | .send chan value =>
    match b with
    | .send chan' value' =>
      (chan.compare chan').within "channel" <|> (value.compare value').within "sent value"
    | b => b.unlike a.kindName
  | .incDec x tok =>
    match b with
    | .incDec y tok' => tokens "operator " tok tok' <|> x.compare y
    | b => b.unlike a.kindName
  | .assign lhs tok rhs =>
    match b with
    | .assign lhs' tok' rhs' =>
      tokens "assignment " tok tok' <|>
        lists "assignment targets" lhs lhs' (Expr.compareFrom · 0 lhs lhs') <|>
        lists "assigned values" rhs rhs' (Expr.compareFrom · 0 rhs rhs')
    | b => b.unlike a.kindName
  | .goCall x =>
    match b with
    | .goCall y => x.compare y
    | b => b.unlike a.kindName
  | .deferCall x =>
    match b with
    | .deferCall y => x.compare y
    | b => b.unlike a.kindName
  | .ret results =>
    match b with
    | .ret results' => lists "return" results results' (Expr.compareFrom · 0 results results')
    | b => b.unlike a.kindName
  | .branch tok label =>
    match b with
    | .branch tok' label' =>
      tokens "" tok tok' <|> (optional names label label').within "branch label"
    | b => b.unlike a.kindName
  | .block list =>
    match b with
    | .block list' => lists "block" list list' (Stmt.compareFrom · 0 list list')
    | b => b.unlike a.kindName
  | .ifElse init cond body orElse =>
    match b with
    | .ifElse init' cond' body' orElse' =>
      (Stmt.compareOpt init init').within "if init" <|>
        (cond.compare cond').within "if condition" <|>
        (lists "block" body body' (Stmt.compareFrom · 0 body body')).within "if body" <|>
        (Stmt.compareOpt orElse orElse').within "else branch"
    | b => b.unlike a.kindName
  | .switch init tag body =>
    match b with
    | .switch init' tag' body' =>
      (Stmt.compareOpt init init').within "switch init" <|>
        (Expr.compareOpt tag tag').within "switch tag" <|>
        lists "switch clauses" body body' (Clause.compareFrom · 0 body body')
    | b => b.unlike a.kindName
  | .typeSwitch init guard body =>
    match b with
    | .typeSwitch init' guard' body' =>
      (Stmt.compareOpt init init').within "switch init" <|>
        (guard.compare guard').within "type switch guard" <|>
        lists "switch clauses" body body' (Clause.compareFrom · 0 body body')
    | b => b.unlike a.kindName
  | .loop init cond post body =>
    match b with
    | .loop init' cond' post' body' =>
      (Stmt.compareOpt init init').within "for init" <|>
        (Expr.compareOpt cond cond').within "for condition" <|>
        (Stmt.compareOpt post post').within "for post" <|>
        (lists "block" body body' (Stmt.compareFrom · 0 body body')).within "for body"
    | b => b.unlike a.kindName
  | .range key value tok x body =>
    match b with
    | .range key' value' tok' y body' =>
      require (tok == tok') "range token" <|>
        (Expr.compareOpt key key').within "range key" <|>
        (Expr.compareOpt value value').within "range value" <|>
        (x.compare y).within "range operand" <|>
        (lists "block" body body' (Stmt.compareFrom · 0 body body')).within "range body"
    | b => b.unlike a.kindName
termination_by structural a

def Stmt.compareOpt : Option Stmt → Option Stmt → Comparison
  | none, none => none
  | some x, some y => x.compare y
  | none, some _ => oneSided
  | some _, none => oneSided
termination_by structural x => x

/-- Pairwise comparison from an index on. -/
def Stmt.compareFrom (what : String) (i : Nat) : List Stmt → List Stmt → Comparison
  | x :: xs, y :: ys => (x.compare y).within s!"{what}[{i}]" <|> Stmt.compareFrom what (i + 1) xs ys
  | [], _ => none
  | _ :: _, [] => none
termination_by structural x => x

def Clause.compare : Clause → Clause → Comparison
  | .matching list body, .matching list' body' =>
    lists "case" list list' (Expr.compareFrom · 0 list list') <|>
      lists "case body" body body' (Stmt.compareFrom · 0 body body')
  | .otherwise body, .otherwise body' =>
    lists "case body" body body' (Stmt.compareFrom · 0 body body')
  | .matching .., .otherwise _ => oneSided
  | .otherwise _, .matching .. => oneSided
termination_by structural x => x

/-- Pairwise comparison from an index on. -/
def Clause.compareFrom (what : String) (i : Nat) : List Clause → List Clause → Comparison
  | x :: xs, y :: ys =>
    (x.compare y).within s!"{what}[{i}]" <|> Clause.compareFrom what (i + 1) xs ys
  | [], _ => none
  | _ :: _, [] => none
termination_by structural x => x

def ValueSpec.compare : ValueSpec → ValueSpec → Comparison
  | ⟨names, ty, values⟩, ⟨names', ty', values'⟩ =>
    (Expr.compareOpt ty ty').within "declared type" <|>
      lists "names" names names' (nameLists · 0 names names') <|>
      lists "values" values values' (Expr.compareFrom · 0 values values')
termination_by structural x => x

def TypeSpec.compare : TypeSpec → TypeSpec → Comparison
  | ⟨name, typeParams, isAlias, ty⟩, ⟨name', typeParams', isAlias', ty'⟩ =>
    names name name' <|>
      require (isAlias == isAlias') "alias vs defined type" <|>
      (fieldSets .param (typeParams.getD []) (typeParams'.getD []) fun other =>
        Field.compareAllOpt .param other typeParams).within "type parameters" <|>
      ty.compare ty'
termination_by structural x => x

def Spec.compare (a b : Spec) : Comparison :=
  match a, b with
  | .imported x, .imported y =>
    (optional names x.name y.name).within "import name" <|> literals x.path y.path
  | .value x, .value y => x.compare y
  | .type x, .type y => (x.compare y).within "type spec"
  | a, b => some (.ofKinds a.kindName b.kindName)
termination_by structural a

/-- Pairwise comparison from an index on. -/
def Spec.compareFrom (what : String) (i : Nat) : List Spec → List Spec → Comparison
  | x :: xs, y :: ys => (x.compare y).within s!"{what}[{i}]" <|> Spec.compareFrom what (i + 1) xs ys
  | [], _ => none
  | _ :: _, [] => none
termination_by structural x => x

def DeclGroup.compare : DeclGroup → DeclGroup → Comparison
  | ⟨tok, specs, _⟩, ⟨tok', specs', _⟩ =>
    tokens "declaration " tok tok' <|>
      lists "specs" specs specs' (Spec.compareFrom · 0 specs specs')
termination_by structural x => x

end

/-- Two member lists as the bodies of struct or interface types. -/
def Field.compareLists (a b : List Field) : Comparison :=
  fieldSets .member a b fun other => Field.compareAll .member 0 other a

def FuncDecl.compare (a b : FuncDecl) : Comparison :=
  names a.name b.name <|>
    (fieldSets .param (a.recv.getD []) (b.recv.getD []) fun other =>
      Field.compareAllOpt .param other a.recv).within "receiver" <|>
    (a.sig.compare b.sig).within "signature" <|>
    (optional (fun x y => lists "block" x y (Stmt.compareFrom · 0 x y)) a.body b.body).within "body"

/-- The canonical node `a` against the incoming node `b`. -/
def Node.compare (a b : Node) : Comparison :=
  match a, b with
  | expr x, expr y => x.compare y
  | stmt x, stmt y => x.compare y
  | block x, block y => lists "block" x y (Stmt.compareFrom · 0 x y)
  | func x, func y => x.compare y
  | group x, group y => x.compare y
  | typeSpec x, typeSpec y => x.compare y
  | valueSpec x, valueSpec y => x.compare y
  | fields x, fields y => Field.compareLists x y
  | a, b => some (.ofKinds a.kindName b.kindName)

end GoWeave

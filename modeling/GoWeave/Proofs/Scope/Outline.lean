import GoWeave.Proofs.Scope.Declarations

/-!
# Outlines

An outline is what is left of a tree when only its scopes matter: the identifiers that refer, the
points from which a name is bound, and the blocks, in source order. The places of a tree are the
referring identifiers of its outline, counted from the left.

The extent of a binding is an interval of places. It begins where the binding stands in the outline
and ends with the innermost block around it. So the outline of a construct says where the scopes of
its names begin and end: the point of binding of a variable is the end of its spec or statement,
that of a local type is its name, that of a parameter is the start of the body.
-/
namespace GoWeave

/-- A local binding of a name, in force at the places from `start` up to, but not including, `stop`.
-/
structure Extent where
  name : String
  start : Nat
  stop : Nat
  deriving DecidableEq, Repr

namespace Extent

/-- Whether a binding of a name is in force at a place. -/
def hides (es : List Extent) (name : String) (place : Nat) : Bool :=
  es.any fun e => e.name == name && (decide (e.start ≤ place) && decide (place < e.stop))

@[simp] theorem hides_append (es es' : List Extent) (name : String) (place : Nat) :
    hides (es ++ es') name place = (hides es name place || hides es' name place) :=
  List.any_append

theorem hides_eq_true_iff {es : List Extent} {name : String} {place : Nat} :
    hides es name place = true ↔ ∃ e ∈ es, e.name = name ∧ e.start ≤ place ∧ place < e.stop := by
  simp [hides]

theorem hides_eq_false {es : List Extent} {name : String} {place : Nat}
    (h : ∀ e ∈ es, place < e.start ∨ e.stop ≤ place) : hides es name place = false := by
  rw [Bool.eq_false_iff, ne_eq, hides_eq_true_iff]
  rintro ⟨e, he, -, hstart, hstop⟩
  have := h e he
  omega

end Extent

/-! ## Outlines and extents -/

inductive Outline where
  | done
  /-- An identifier that refers. -/
  | reference (name : String) (rest : Outline)
  /-- The point from which a name is bound. -/
  | binding (name : String) (rest : Outline)
  | block (inner rest : Outline)
  deriving DecidableEq, Repr

namespace Outline

def append : Outline → Outline → Outline
  | done, o => o
  | reference name rest, o => reference name (rest.append o)
  | binding name rest, o => binding name (rest.append o)
  | block inner rest, o => block inner (rest.append o)

instance : Append Outline := ⟨append⟩

/-- The points from which names are bound, side by side. -/
def bindings (names : List String) : Outline :=
  names.foldr binding done

/-- Identifiers that refer, side by side. -/
def referring (names : List String) : Outline :=
  names.foldr reference done

/-- The identifiers that refer, place by place. -/
def references : Outline → List String
  | done => []
  | reference name rest => name :: rest.references
  | binding _ rest => rest.references
  | block inner rest => inner.references ++ rest.references

def places (o : Outline) : Nat :=
  o.references.length

/-- The bindings of an outline that starts at a place and stands in a block that ends at `stop`. -/
def extents (stop start : Nat) : Outline → List Extent
  | done => []
  | reference _ rest => rest.extents stop (start + 1)
  | binding name rest => ⟨name, start, stop⟩ :: rest.extents stop start
  | block inner rest =>
    inner.extents (start + inner.places) start ++ rest.extents stop (start + inner.places)

/-- The names bound in an outline, those bound in its blocks left out. -/
def bound : Outline → List String
  | done => []
  | reference _ rest => rest.bound
  | binding name rest => name :: rest.bound
  | block _ rest => rest.bound

variable (o o' : Outline) (name : String)

@[simp] theorem done_append : done ++ o = o := rfl

@[simp] theorem reference_append : reference name o ++ o' = reference name (o ++ o') := rfl

@[simp] theorem binding_append : binding name o ++ o' = binding name (o ++ o') := rfl

@[simp] theorem block_append (inner : Outline) : block inner o ++ o' = block inner (o ++ o') := rfl

@[simp] theorem references_append : (o ++ o').references = o.references ++ o'.references := by
  induction o with
  | done => rfl
  | reference name rest ih => simp [references, ih]
  | binding name rest ih => simp [references, ih]
  | block inner rest _ ih => simp [references, ih]

@[simp] theorem places_done : done.places = 0 := rfl

@[simp] theorem places_reference : (reference name o).places = o.places + 1 := rfl

@[simp] theorem places_binding : (binding name o).places = o.places := rfl

@[simp] theorem places_block (inner : Outline) :
    (block inner o).places = inner.places + o.places := by
  simp [places, references]

@[simp] theorem places_append : (o ++ o').places = o.places + o'.places := by
  simp [places]

@[simp] theorem bound_append : (o ++ o').bound = o.bound ++ o'.bound := by
  induction o with
  | done => rfl
  | reference name rest ih => simpa [bound] using ih
  | binding name rest ih => simp [bound, ih]
  | block inner rest _ ih => simpa [bound] using ih

@[simp] theorem references_bindings (names : List String) : (bindings names).references = [] := by
  induction names with
  | nil => rfl
  | cons name names ih => exact ih

@[simp] theorem places_bindings (names : List String) : (bindings names).places = 0 := by
  simp [places]

@[simp] theorem bound_bindings (names : List String) : (bindings names).bound = names := by
  induction names with
  | nil => rfl
  | cons name names ih => exact congrArg (name :: ·) ih

@[simp] theorem places_referring (names : List String) :
    (referring names).places = names.length := by
  induction names with
  | nil => rfl
  | cons name names ih => exact congrArg (· + 1) ih

@[simp] theorem bound_referring (names : List String) : (referring names).bound = [] := by
  induction names with
  | nil => rfl
  | cons name names ih => exact ih

@[simp] theorem extents_append (stop start : Nat) :
    (o ++ o').extents stop start =
      o.extents stop start ++ o'.extents stop (start + o.places) := by
  induction o generalizing start with
  | done => rfl
  | reference name rest ih =>
    rw [reference_append, extents, extents, ih, places_reference, Nat.add_right_comm, Nat.add_assoc]
  | binding name rest ih => simp [extents, ih]
  | block inner rest _ ih => simp [extents, ih, Nat.add_assoc]

theorem extents_bindings (names : List String) (stop start : Nat) :
    (bindings names).extents stop start = names.map fun name => ⟨name, start, stop⟩ := by
  induction names with
  | nil => rfl
  | cons name names ih => exact congrArg (_ :: ·) ih

/-- If all that an outline binds is bound in its blocks, then what comes after it has no part in its
extents. -/
theorem extents_of_bound_eq_nil {o : Outline} (h : o.bound = []) (stop stop' start : Nat) :
    o.extents stop start = o.extents stop' start := by
  induction o generalizing start with
  | done => rfl
  | reference name rest ih => exact ih h (start + 1)
  | binding name rest ih => exact absurd h (List.cons_ne_nil _ _)
  | block inner rest _ ih => rw [extents, extents, ih h]

/-- Extents begin in the outline and end with a block around it or in it. -/
theorem extents_bounds {o : Outline} {stop start : Nat} (hstop : start + o.places ≤ stop)
    {e : Extent} (he : e ∈ o.extents stop start) : start ≤ e.start ∧ e.stop ≤ stop := by
  induction o generalizing stop start with
  | done => simp [extents] at he
  | reference name rest ih =>
    rw [places_reference] at hstop
    have := ih (by omega : start + 1 + rest.places ≤ stop) he
    omega
  | binding name rest ih =>
    rw [extents, List.mem_cons] at he
    rcases he with rfl | he
    · exact ⟨Nat.le_refl _, Nat.le_refl _⟩
    · exact ih hstop he
  | block inner rest ihInner ihRest =>
    rw [places_block] at hstop
    rw [extents, List.mem_append] at he
    rcases he with he | he
    · have := ihInner (Nat.le_refl _) he
      omega
    · have := ihRest (by omega) he
      omega

/-! ## Agreement -/

/-- Whether `hidden` tells at each place of the name `old` if a binding of that name is in force
there, for an outline that starts at a place and has such a binding around it or not. -/
def Agrees (old : String) (hidden : Nat → Bool) (start : Nat) (shadowed : Bool) : Outline → Prop
  | done => True
  | reference name rest =>
    (name = old → hidden start = shadowed) ∧ Agrees old hidden (start + 1) shadowed rest
  | binding name rest => Agrees old hidden start (name == old || shadowed) rest
  | block inner rest =>
    Agrees old hidden start shadowed inner ∧
      Agrees old hidden (start + inner.places) shadowed rest

variable {old : String} {hidden : Nat → Bool} {start : Nat} {shadowed : Bool}

@[simp] theorem agrees_append (o o' : Outline) :
    Agrees old hidden start shadowed (o ++ o') ↔
      Agrees old hidden start shadowed o ∧
        Agrees old hidden (start + o.places) (o.bound.contains old || shadowed) o' := by
  induction o generalizing start shadowed with
  | done => simp [Agrees, bound]
  | reference name rest ih =>
    simp only [reference_append, Agrees, ih, bound, places_reference, and_assoc]
    rw [Nat.add_right_comm, Nat.add_assoc]
  | binding name rest ih =>
    have hbound : ((name :: rest.bound).contains old || shadowed) =
        (rest.bound.contains old || (name == old || shadowed)) := by
      rw [List.contains_cons, BEq.comm, Bool.or_assoc, Bool.or_left_comm]
    rw [binding_append, Agrees, Agrees, ih, bound, places_binding, hbound]
  | block inner rest _ ih =>
    simp only [block_append, Agrees, ih, bound, places_block, and_assoc, Nat.add_assoc]

/-- Agreement depends only on the places of the name. -/
theorem Agrees.congr {o : Outline} {hidden' : Nat → Bool} (h : Agrees old hidden start shadowed o)
    (hsame : ∀ p ∈ o.references.zipIdx start, p.1 = old → hidden' p.2 = hidden p.2) :
    Agrees old hidden' start shadowed o := by
  induction o generalizing start shadowed with
  | done => trivial
  | reference name rest ih =>
    rw [references, List.zipIdx_cons, List.forall_mem_cons] at hsame
    exact ⟨fun hname => (hsame.1 hname).trans (h.1 hname), ih h.2 hsame.2⟩
  | binding name rest ih => exact ih h hsame
  | block inner rest ihInner ihRest =>
    rw [references, List.zipIdx_append, List.forall_mem_append] at hsame
    exact ⟨ihInner h.1 hsame.1, ihRest h.2 hsame.2⟩

/-- The extents of an outline tell which places are hidden. -/
theorem agrees_of_extents {o : Outline} {stop : Nat} (hstop : start + o.places ≤ stop)
    (h : ∀ place, start ≤ place → place < start + o.places →
      hidden place = (shadowed || Extent.hides (o.extents stop start) old place)) :
    Agrees old hidden start shadowed o := by
  induction o generalizing start shadowed stop with
  | done => trivial
  | reference name rest ih =>
    rw [places_reference] at hstop h
    constructor
    · intro _
      have hlater : Extent.hides (rest.extents stop (start + 1)) old start = false := by
        apply Extent.hides_eq_false
        intro e he
        have := extents_bounds (by omega) he
        omega
      rw [h start (Nat.le_refl _) (by omega), extents, hlater, Bool.or_false]
    · exact ih (by omega) fun place hstart hplace => h place (by omega) (by omega)
  | binding name rest ih =>
    rw [places_binding] at hstop h
    refine ih hstop fun place hstart hplace => ?_
    have hcovers : Extent.hides [⟨name, start, stop⟩] old place = (name == old) := by
      have hstop : place < stop := by omega
      simp [Extent.hides, hstart, hstop]
    rw [h place hstart hplace, extents, ← List.singleton_append, Extent.hides_append, hcovers,
      Bool.or_left_comm, Bool.or_assoc]
  | block inner rest ihInner ihRest =>
    rw [places_block] at hstop h
    constructor
    · refine ihInner (Nat.le_refl _) fun place hstart hplace => ?_
      have hlater : Extent.hides (rest.extents stop (start + inner.places)) old place = false := by
        apply Extent.hides_eq_false
        intro e he
        have := extents_bounds (by omega) he
        omega
      rw [h place hstart (by omega), extents, Extent.hides_append, hlater, Bool.or_false]
    · have hrest : start + inner.places + rest.places ≤ stop := by omega
      refine ihRest hrest fun place hstart hplace => ?_
      have hearlier : Extent.hides (inner.extents (start + inner.places) start) old place =
          false := by
        apply Extent.hides_eq_false
        intro e he
        have := extents_bounds (Nat.le_refl _) he
        omega
      rw [h place (by omega) (by omega), extents, Extent.hides_append, hearlier, Bool.false_or]

end Outline

/-! ## The outline of a tree -/

mutual

def Expr.outline : Expr → Outline
  | .bad _ => .done
  | .ident name => .reference name .done
  | .ellipsis elt => Expr.outlineOpt elt
  | .literal _ => .done
  | .funcLit sig body =>
    .block (.bindings sig.typeParamNames ++ (sig.outline ++
      (.bindings sig.bodyNames ++ Stmt.outlineAll body))) .done
  | .composite ty elts _ =>
    Expr.outlineOpt ty ++ Expr.outlineElements (Expr.hasValueKeys ty) elts
  | .paren x => x.outline
  | .selector x _ => x.outline
  | .index x arg => x.outline ++ arg.outline
  | .indexList x args => x.outline ++ Expr.outlineAll args
  | .slice x low high max _ =>
    x.outline ++ (Expr.outlineOpt low ++ (Expr.outlineOpt high ++ Expr.outlineOpt max))
  | .typeAssert x ty => x.outline ++ Expr.outlineOpt ty
  | .call fn args _ => fn.outline ++ Expr.outlineAll args
  | .star x => x.outline
  | .unary _ x => x.outline
  | .binary _ x y => x.outline ++ y.outline
  | .keyValue key value => key.outline ++ value.outline
  | .arrayType len elt => Expr.outlineOpt len ++ elt.outline
  | .structType fields _ => Field.outlineAll fields
  | .funcType sig => sig.outline
  | .interfaceType methods _ => Field.outlineAll methods
  | .mapType key value => key.outline ++ value.outline
  | .chanType _ value => value.outline

def Expr.outlineOpt : Option Expr → Outline
  | none => .done
  | some x => x.outline

def Expr.outlineAll : List Expr → Outline
  | [] => .done
  | x :: xs => x.outline ++ Expr.outlineAll xs

/-- The elements of a composite literal. A plain key refers if keys are values. -/
def Expr.outlineElements (valueKeys : Bool) : List Expr → Outline
  | [] => .done
  | .keyValue (.ident key) value :: xs =>
    (if valueKeys then .reference key .done else .done) ++
      (value.outline ++ Expr.outlineElements valueKeys xs)
  | x :: xs => x.outline ++ Expr.outlineElements valueKeys xs

/-- A range variable: with `:=` a plain name is bound for the body. -/
def Expr.outlineRangeVar (tok : Option Token) : Option Expr → Outline
  | none => .done
  | some (.ident name) => if tok = some .define then .binding name .done else .reference name .done
  | some x => x.outline

def Field.outline : Field → Outline
  | ⟨_, ty, _⟩ => ty.outline

def Field.outlineAll : List Field → Outline
  | [] => .done
  | f :: fs => f.outline ++ Field.outlineAll fs

def Field.outlineOpt : Option (List Field) → Outline
  | none => .done
  | some fields => Field.outlineAll fields

def Signature.outline : Signature → Outline
  | ⟨typeParams, params, results⟩ =>
    Field.outlineOpt typeParams ++ (Field.outlineAll params ++ Field.outlineOpt results)

/-- A `:=` binds its targets at its end. The header of a conditional, loop or switch, its body and
its clauses are blocks. The operand of a range clause comes before the block of its variables, and
the name in the guard of a type switch is bound in each clause, in front of the body. -/
def Stmt.outline : Stmt → Outline
  | .bad _ => .done
  | .decl ⟨_, specs, _⟩ => Spec.outlineLocal specs
  | .empty => .done
  | .labeled _ s => s.outline
  | .expr x => x.outline
  | .send chan value => chan.outline ++ value.outline
  | .incDec x _ => x.outline
  | .assign lhs tok rhs =>
    if tok = .define then Expr.outlineAll rhs ++ .bindings (Expr.targets lhs)
    else Expr.outlineAll lhs ++ Expr.outlineAll rhs
  | .goCall x => x.outline
  | .deferCall x => x.outline
  | .ret results => Expr.outlineAll results
  | .branch .. => .done
  | .block list => .block (Stmt.outlineAll list) .done
  | .ifElse init cond body orElse =>
    .block (Stmt.outlineOpt init ++ (cond.outline ++
      .block (Stmt.outlineAll body) (Stmt.outlineOpt orElse))) .done
  | .switch init tag body =>
    .block (Stmt.outlineOpt init ++ (Expr.outlineOpt tag ++ Clause.outlineAll [] body)) .done
  | .typeSwitch init guard body =>
    .block (Stmt.outlineOpt init ++
      ((match guard with
        | .assign _ _ rhs => Expr.outlineAll rhs
        | guard => guard.outline) ++
      Clause.outlineAll guard.guardName body)) .done
  | .loop init cond post body =>
    .block (Stmt.outlineOpt init ++ (Expr.outlineOpt cond ++ (Stmt.outlineOpt post ++
      .block (Stmt.outlineAll body) .done))) .done
  | .range key value tok x body =>
    x.outline ++ .block (Expr.outlineRangeVar tok key ++ (Expr.outlineRangeVar tok value ++
      .block (Stmt.outlineAll body) .done)) .done

def Stmt.outlineOpt : Option Stmt → Outline
  | none => .done
  | some s => s.outline

def Stmt.outlineAll : List Stmt → Outline
  | [] => .done
  | s :: ss => s.outline ++ Stmt.outlineAll ss

/-- A clause whose body sees the names `bound` besides the enclosing ones. -/
def Clause.outline (bound : List String) : Clause → Outline
  | .matching list body =>
    .block (Expr.outlineAll list ++ (.bindings bound ++ Stmt.outlineAll body)) .done
  | .otherwise body => .block (.bindings bound ++ Stmt.outlineAll body) .done

def Clause.outlineAll (bound : List String) : List Clause → Outline
  | [] => .done
  | c :: cs => c.outline bound ++ Clause.outlineAll bound cs

/-- The specs of a local declaration. A value is bound at the end of its spec, a type at its name.
-/
def Spec.outlineLocal : List Spec → Outline
  | [] => .done
  | .imported _ :: ss => Spec.outlineLocal ss
  | .value ⟨names, ty, values⟩ :: ss =>
    Expr.outlineOpt ty ++ (Expr.outlineAll values ++ (.bindings names ++ Spec.outlineLocal ss))
  | .type ⟨name, typeParams, _, ty⟩ :: ss =>
    .binding name (Field.outlineOpt typeParams ++ (ty.outline ++ Spec.outlineLocal ss))

end

/-- The guard of a type switch. -/
def Stmt.outlineGuard : Stmt → Outline
  | .assign _ _ rhs => Expr.outlineAll rhs
  | guard => guard.outline

theorem Stmt.outline_typeSwitch (init : Option Stmt) (guard : Stmt) (body : List Clause) :
    (Stmt.typeSwitch init guard body).outline =
      .block (Stmt.outlineOpt init ++ (guard.outlineGuard ++
        Clause.outlineAll guard.guardName body)) .done := by
  unfold Stmt.outline
  rfl

/-! ## What a tree binds for the text after it -/

mutual

@[simp] theorem Expr.bound_outline (x : Expr) : x.outline.bound = [] := by
  match x with
  | .bad node => rw [Expr.outline, Outline.bound]
  | .ident name => rw [Expr.outline, Outline.bound, Outline.bound]
  | .ellipsis elt => rw [Expr.outline, Expr.bound_outlineOpt elt]
  | .literal value => rw [Expr.outline, Outline.bound]
  | .funcLit sig body => rw [Expr.outline, Outline.bound, Outline.bound]
  | .composite ty elts incomplete =>
    simp [Expr.outline, Expr.bound_outlineOpt ty, Expr.bound_outlineElements _ elts]
  | .paren y => rw [Expr.outline, Expr.bound_outline y]
  | .selector y sel => rw [Expr.outline, Expr.bound_outline y]
  | .index y arg => simp [Expr.outline, Expr.bound_outline y, Expr.bound_outline arg]
  | .indexList y args => simp [Expr.outline, Expr.bound_outline y, Expr.bound_outlineAll args]
  | .slice y low high max three =>
    simp [Expr.outline, Expr.bound_outline y, Expr.bound_outlineOpt low,
      Expr.bound_outlineOpt high, Expr.bound_outlineOpt max]
  | .typeAssert y ty => simp [Expr.outline, Expr.bound_outline y, Expr.bound_outlineOpt ty]
  | .call fn args spread => simp [Expr.outline, Expr.bound_outline fn, Expr.bound_outlineAll args]
  | .star y => rw [Expr.outline, Expr.bound_outline y]
  | .unary op y => rw [Expr.outline, Expr.bound_outline y]
  | .binary op y z => simp [Expr.outline, Expr.bound_outline y, Expr.bound_outline z]
  | .keyValue key value => simp [Expr.outline, Expr.bound_outline key, Expr.bound_outline value]
  | .arrayType len elt => simp [Expr.outline, Expr.bound_outlineOpt len, Expr.bound_outline elt]
  | .structType fields incomplete => rw [Expr.outline, Field.bound_outlineAll fields]
  | .funcType sig => rw [Expr.outline, Signature.bound_outline sig]
  | .interfaceType methods incomplete => rw [Expr.outline, Field.bound_outlineAll methods]
  | .mapType key value => simp [Expr.outline, Expr.bound_outline key, Expr.bound_outline value]
  | .chanType dir value => rw [Expr.outline, Expr.bound_outline value]

@[simp] theorem Expr.bound_outlineOpt (x : Option Expr) : (Expr.outlineOpt x).bound = [] := by
  match x with
  | none => rw [Expr.outlineOpt, Outline.bound]
  | some x => rw [Expr.outlineOpt, Expr.bound_outline x]

@[simp] theorem Expr.bound_outlineAll (xs : List Expr) : (Expr.outlineAll xs).bound = [] := by
  match xs with
  | [] => rw [Expr.outlineAll, Outline.bound]
  | x :: xs => simp [Expr.outlineAll, Expr.bound_outline x, Expr.bound_outlineAll xs]

@[simp] theorem Expr.bound_outlineElements (valueKeys : Bool) (xs : List Expr) :
    (Expr.outlineElements valueKeys xs).bound = [] := by
  match xs with
  | [] => rw [Expr.outlineElements, Outline.bound]
  | x :: xs =>
    have hrest := Expr.bound_outlineElements valueKeys xs
    have hx := Expr.bound_outline x
    cases x with
    | keyValue key value =>
      have hvalue := Expr.bound_outline value
      cases key with
      | ident name => cases valueKeys <;> simp [Expr.outlineElements, Outline.bound, hvalue, hrest]
      | _ => rw [Expr.outlineElements, Outline.bound_append, hx, hrest, List.nil_append]; simp
    | _ => rw [Expr.outlineElements, Outline.bound_append, hx, hrest, List.nil_append]; simp

@[simp] theorem Field.bound_outline (f : Field) : f.outline.bound = [] := by
  match f with
  | ⟨names, ty, tag⟩ => rw [Field.outline, Expr.bound_outline ty]

@[simp] theorem Field.bound_outlineAll (fields : List Field) :
    (Field.outlineAll fields).bound = [] := by
  match fields with
  | [] => rw [Field.outlineAll, Outline.bound]
  | f :: fs => simp [Field.outlineAll, Field.bound_outline f, Field.bound_outlineAll fs]

@[simp] theorem Field.bound_outlineOpt (fields : Option (List Field)) :
    (Field.outlineOpt fields).bound = [] := by
  match fields with
  | none => rw [Field.outlineOpt, Outline.bound]
  | some fields => rw [Field.outlineOpt, Field.bound_outlineAll fields]

@[simp] theorem Signature.bound_outline (sig : Signature) : sig.outline.bound = [] := by
  match sig with
  | ⟨typeParams, params, results⟩ =>
    simp [Signature.outline, Field.bound_outlineOpt typeParams, Field.bound_outlineAll params,
      Field.bound_outlineOpt results]

end

@[simp] theorem Expr.bound_outlineRangeVar (tok : Option Token) (x : Option Expr) :
    (Expr.outlineRangeVar tok x).bound = Expr.rangeBinds tok x := by
  cases x with
  | none => rw [Expr.outlineRangeVar, Outline.bound, Expr.rangeBinds]; simp
  | some x =>
    cases x with
    | ident name =>
      rw [Expr.outlineRangeVar, Expr.rangeBinds]
      split <;> rfl
    | _ => simp [Expr.outlineRangeVar, Expr.rangeBinds]

@[simp] theorem Spec.bound_outlineLocal (specs : List Spec) :
    (Spec.outlineLocal specs).bound = specs.flatMap Spec.declared := by
  induction specs with
  | nil => rw [Spec.outlineLocal, Outline.bound, List.flatMap_nil]
  | cons s ss ih =>
    cases s with
    | imported spec => simpa [Spec.outlineLocal, Spec.declared] using ih
    | value spec =>
      cases spec
      simp [Spec.outlineLocal, Spec.declared, ih]
    | type spec =>
      cases spec
      simp [Spec.outlineLocal, Outline.bound, Spec.declared, ih]

/-- What a statement binds at its end, or in its specs, is in force in the statements after it. -/
@[simp] theorem Stmt.bound_outline (s : Stmt) : s.outline.bound = s.binds := by
  match s with
  | .labeled label t =>
    have ih := Stmt.bound_outline t
    rwa [Stmt.outline, Stmt.binds]
  | .decl ⟨tok, specs, grouped⟩ => simp [Stmt.outline, Stmt.binds]
  | .assign lhs tok rhs =>
    rw [Stmt.outline, Stmt.binds]
    split <;> simp
  | .bad node => simp [Stmt.outline, Stmt.binds, Outline.bound]
  | .empty => simp [Stmt.outline, Stmt.binds, Outline.bound]
  | .expr x => simp [Stmt.outline, Stmt.binds]
  | .send chan value => simp [Stmt.outline, Stmt.binds]
  | .incDec x tok => simp [Stmt.outline, Stmt.binds]
  | .goCall x => simp [Stmt.outline, Stmt.binds]
  | .deferCall x => simp [Stmt.outline, Stmt.binds]
  | .ret results => simp [Stmt.outline, Stmt.binds]
  | .branch tok label => simp [Stmt.outline, Stmt.binds, Outline.bound]
  | .block list => simp [Stmt.outline, Stmt.binds, Outline.bound]
  | .ifElse init cond body orElse => simp [Stmt.outline, Stmt.binds, Outline.bound]
  | .switch init tag body => simp [Stmt.outline, Stmt.binds, Outline.bound]
  | .typeSwitch init guard body => simp [Stmt.outline_typeSwitch, Stmt.binds, Outline.bound]
  | .loop init cond post body => simp [Stmt.outline, Stmt.binds, Outline.bound]
  | .range key value tok x body => simp [Stmt.outline, Stmt.binds, Outline.bound]

@[simp] theorem Stmt.bound_outlineGuard (guard : Stmt) :
    guard.outlineGuard.bound = guard.guardBinds := by
  cases guard <;> simp [Stmt.outlineGuard, Stmt.guardBinds]

@[simp] theorem Stmt.bound_outlineOpt (s : Option Stmt) :
    (Stmt.outlineOpt s).bound = Stmt.bindsOpt s := by
  cases s with
  | none => rw [Stmt.outlineOpt, Outline.bound, Stmt.bindsOpt]
  | some s => rw [Stmt.outlineOpt, Stmt.bound_outline, Stmt.bindsOpt]

/-! ## The outline of a declaration -/

/-- A type argument of a receiver. A plain name there is a type parameter that the receiver
introduces, and does not refer. -/
def Expr.outlineArg : Expr → Outline
  | .ident _ => .done
  | x => x.outline

def Expr.outlineArgs : List Expr → Outline
  | [] => .done
  | x :: xs => x.outlineArg ++ Expr.outlineArgs xs

/-- The type of a receiver. -/
def Expr.outlineReceiver : Expr → Outline
  | .star (.index x arg) => x.outline ++ arg.outlineArg
  | .star (.indexList x args) => x.outline ++ Expr.outlineArgs args
  | .index x arg => x.outline ++ arg.outlineArg
  | .indexList x args => x.outline ++ Expr.outlineArgs args
  | x => x.outline

def Field.outlineReceivers : List Field → Outline
  | [] => .done
  | f :: fs => f.ty.outlineReceiver ++ Field.outlineReceivers fs

def ValueSpec.outline (spec : ValueSpec) : Outline :=
  .referring spec.names ++ (Expr.outlineOpt spec.ty ++ Expr.outlineAll spec.values)

/-- The type parameters of a type are bound up to the end of its spec. -/
def TypeSpec.outline (spec : TypeSpec) : Outline :=
  .reference spec.name (.block (.bindings (Field.declared (spec.typeParams.getD [])) ++
    (Field.outlineOpt spec.typeParams ++ spec.ty.outline)) .done)

def Spec.outline : Spec → Outline
  | .imported _ => .done
  | .value spec => spec.outline
  | .type spec => spec.outline

def Spec.outlineAll (specs : List Spec) : Outline :=
  specs.foldr (fun spec rest => spec.outline ++ rest) .done

namespace FuncDecl

def outlineReceiver (f : FuncDecl) : Outline :=
  Field.outlineReceivers (f.recv.getD [])

/-- The name of a function, which refers unless it is the name of a method. -/
def outlineName (f : FuncDecl) : Outline :=
  if f.recv.isSome then .done else .reference f.name .done

/-- The parts of a function after its name. Its type parameters and those that a receiver introduces
are bound in the signature and the body, the receiver, the parameters and the results in the body.
-/
def outlineRest (f : FuncDecl) : Outline :=
  .bindings f.sig.typeParamNames ++ (Field.outlineOpt f.sig.typeParams ++
    (.bindings ((f.recv.getD []).flatMap (·.ty.receiverParams)) ++
      (Field.outlineAll f.sig.params ++ (Field.outlineOpt f.sig.results ++
        (.bindings (Field.declared (f.recv.getD []) ++ f.sig.bodyNames) ++
          Stmt.outlineAll (f.body.getD []))))))

/-- A receiver stands in front of the name, outside the scope of the names it introduces. -/
def outline (f : FuncDecl) : Outline :=
  f.outlineReceiver ++ (f.outlineName ++ .block f.outlineRest .done)

end FuncDecl

namespace Decl

def outline : Decl → Outline
  | .bad _ => .done
  | .group g => Spec.outlineAll g.specs
  | .func f => f.outline

def outlineAll (decls : List Decl) : Outline :=
  decls.foldr (fun d rest => d.outline ++ rest) .done

/-- The referring identifiers of a list of top-level declarations, place by place. -/
def references (decls : List Decl) : List String :=
  (outlineAll decls).references

/-- The local bindings of a list of top-level declarations. -/
def extents (decls : List Decl) : List Extent :=
  (outlineAll decls).extents (outlineAll decls).places 0

-- In `func f(x T) { x := x; x }` the parameter is in force on both sides of `:=`, the variable
-- after it.
example :
    let decls : List Decl :=
      [.func ⟨none, "f", ⟨none, [⟨["x"], .ident "T", none⟩], none⟩,
        some [.assign [.ident "x"] .define [.ident "x"], .expr (.ident "x")]⟩]
    references decls = ["f", "T", "x", "x"] ∧ extents decls = [⟨"x", 2, 4⟩, ⟨"x", 3, 4⟩] := by
  decide

end Decl

end GoWeave

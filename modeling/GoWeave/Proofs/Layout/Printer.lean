import GoWeave.Proofs.Layout.Indentation

/-!
# A printer with one buffer

The layout of a tree can be written in one pass by a printer, which has the text so far and the
present level. It raises the level before the lines of a body and lowers it after them, and puts the
tabs itself wherever a line starts.

The printer writes the text that the layout gives at its level, and is at the same level afterwards.
So printing a node is the same as appending its text at level zero, moved in, and what was printed
before has no influence on it.
-/
namespace GoWeave

open Layout

/-- The text so far and the present level. -/
structure Printer where
  out : String
  level : Nat
  deriving DecidableEq, Repr

namespace Printer

def start : Printer :=
  ⟨"", 0⟩

def push (p : Printer) (s : String) : Printer :=
  { p with out := p.out ++ s }

def tabs (p : Printer) : Printer :=
  p.push (Layout.tabs p.level)

def raise (p : Printer) : Printer :=
  { p with level := p.level + 1 }

def lower (p : Printer) : Printer :=
  { p with level := p.level - 1 }

def commaSep (p : Printer) : List (Printer → Printer) → Printer
  | [] => p
  | [act] => act p
  | act :: acts => commaSep ((act p).push ", ") acts

/-- Each item on a line of its own, with `mark` at the end of the line. -/
def lines (mark : String) (p : Printer) : List (Printer → Printer) → Printer
  | [] => p
  | act :: acts => lines mark (((act p.tabs).push mark).push "\n") acts

/-- A part that may be absent. -/
def optional {α : Type} (p : Printer) (part : Option α) (act : α → Printer → Printer) : Printer :=
  part.elim p (act · p)

/-- What `act` prints, one level further in. -/
def inner (p : Printer) (act : Printer → Printer) : Printer :=
  (act p.raise).lower

/-- Lines between braces. -/
def braced (p : Printer) (act : Printer → Printer) : Printer :=
  (act (p.push "\x7b\n")).tabs.push "\x7d"

end Printer

def ImportSpec.print (spec : ImportSpec) (p : Printer) : Printer :=
  match spec.name with
  | some name => p.push name |>.push " " |>.push spec.path.value
  | none => p.push spec.path.value

mutual

def Expr.print : Expr → Printer → Printer
  | .bad node, p => p.push node.text
  | .ident name, p => p.push name
  | .ellipsis elt, p => Expr.printOpt elt (p.push "...")
  | .literal value, p => p.push value.value
  | .funcLit sig body, p =>
    sig.print (p.push "func") |>.push " " |>.braced (·.inner (Stmt.printLines body))
  | .composite ty elts _, p =>
    let p := Expr.printOpt ty p
    if elts.any Expr.breaksLine then p.braced (·.inner (·.lines "," (Expr.printEach elts)))
    else p.push "\x7b" |>.commaSep (Expr.printEach elts) |>.push "\x7d"
  | .paren x, p => x.print (p.push "(") |>.push ")"
  | .selector x sel, p => x.print p |>.push "." |>.push sel
  | .index x arg, p => x.print p |>.push "[" |> arg.print |>.push "]"
  | .indexList x args, p => x.print p |>.push "[" |>.commaSep (Expr.printEach args) |>.push "]"
  | .slice x low high max three, p =>
    let p := x.print p |>.push "[" |> Expr.printOpt low |>.push ":" |> Expr.printOpt high
    let p := if three then p.push ":" |> Expr.printOpt max else p
    p.push "]"
  | .typeAssert x ty, p =>
    let p := x.print p |>.push ".("
    let p := match ty with
      | some ty => ty.print p
      | none => p.push "type"
    p.push ")"
  | .call fn args spread, p =>
    let p := fn.print p |>.push "(" |>.commaSep (Expr.printEach args)
    let p := if spread then p.push "..." else p
    p.push ")"
  | .star x, p => x.print (p.push "*")
  | .unary op x, p => x.print (p.push op.text)
  | .binary op x y, p => x.print p |>.push " " |>.push op.text |>.push " " |> y.print
  | .keyValue key value, p => key.print p |>.push ": " |> value.print
  | .arrayType len elt, p => Expr.printOpt len (p.push "[") |>.push "]" |> elt.print
  | .structType fields _, p =>
    if fields.isEmpty then p.push "struct\x7b\x7d"
    else p.push "struct " |>.braced (·.inner (·.lines "" (Field.printEach .member fields)))
  | .funcType sig, p => sig.print (p.push "func")
  | .interfaceType methods _, p =>
    if methods.isEmpty then p.push "interface\x7b\x7d"
    else p.push "interface " |>.braced (·.inner (·.lines "" (Field.printEach .element methods)))
  | .mapType key value, p => key.print (p.push "map[") |>.push "]" |> value.print
  | .chanType dir value, p => value.print (p.push dir.text)

def Expr.printOpt : Option Expr → Printer → Printer
  | none, p => p
  | some x, p => x.print p

def Expr.printEach : List Expr → List (Printer → Printer)
  | [] => []
  | x :: xs => x.print :: Expr.printEach xs

def Field.print (place : Field.Place) : Field → Printer → Printer
  | ⟨names, ty, tag⟩, p =>
    match place with
    | .param => ty.print (p.push (leadingNames names))
    | .member =>
      let p := ty.print (p.push (leadingNames names))
      match tag with
      | some tag => p.push " " |>.push tag.value
      | none => p
    | .element =>
      match names, ty with
      | name :: _, .funcType sig => sig.print (p.push name)
      | _, ty => ty.print p

def Field.printEach (place : Field.Place) : List Field → List (Printer → Printer)
  | [] => []
  | f :: fs => f.print place :: Field.printEach place fs

def Signature.print : Signature → Printer → Printer
  | ⟨typeParams, params, results⟩, p =>
    let p := Signature.printTypeParams typeParams p |>.push "(" |>.commaSep
      (Field.printEach .param params) |>.push ")"
    match results with
    | none => p
    | some [] => p
    | some [⟨[], ty, _⟩] => ty.print (p.push " ")
    | some fields => p.push " (" |>.commaSep (Field.printEach .param fields) |>.push ")"

def Signature.printTypeParams : Option (List Field) → Printer → Printer
  | none, p => p
  | some fields, p => p.push "[" |>.commaSep (Field.printEach .param fields) |>.push "]"

def Stmt.print : Stmt → Printer → Printer
  | .bad node, p => p.push node.text
  | .decl group, p => group.print p
  | .empty, p => p
  | .labeled label stmt, p => p.push label |>.push ":\n" |>.tabs |> stmt.print
  | .expr x, p => x.print p
  | .send chan value, p => chan.print p |>.push " <- " |> value.print
  | .incDec x tok, p => x.print p |>.push tok.text
  | .assign lhs tok rhs, p =>
    p.commaSep (Expr.printEach lhs) |>.push " " |>.push tok.text |>.push " " |>.commaSep
      (Expr.printEach rhs)
  | .goCall x, p => x.print (p.push "go ")
  | .deferCall x, p => x.print (p.push "defer ")
  | .ret results, p =>
    let p := p.push "return"
    if results.isEmpty then p else p.push " " |>.commaSep (Expr.printEach results)
  | .branch tok label, p =>
    p.push tok.text |>.optional label (fun label p => p.push " " |>.push label)
  | .block list, p => p.braced (·.inner (Stmt.printLines list))
  | .ifElse init cond body orElse, p =>
    let p := p.push "if "
    let p := match init with
      | some init => init.print p |>.push "; "
      | none => p
    let p := cond.print p |>.push " " |>.braced (·.inner (Stmt.printLines body))
    match orElse with
    | some orElse => orElse.print (p.push " else ")
    | none => p
  | .switch init tag body, p =>
    let p := p.push "switch"
    let p := match init with
      | some init => init.print (p.push " ") |>.push ";"
      | none => p
    let p := match tag with
      | some tag => tag.print (p.push " ")
      | none => p
    p.push " " |>.braced (Clause.printAll body)
  | .typeSwitch init guard body, p =>
    let p := p.push "switch"
    let p := match init with
      | some init => init.print (p.push " ") |>.push ";"
      | none => p
    guard.print (p.push " ") |>.push " " |>.braced (Clause.printAll body)
  | .loop init cond post body, p =>
    let p := p.push "for"
    let p :=
      if init.isSome || post.isSome then
        let p := p.push " "
        let p := match init with
          | some init => init.print p
          | none => p
        let p := Expr.printOpt cond (p.push "; ") |>.push ";"
        match post with
        | some post => post.print (p.push " ")
        | none => p
      else
        match cond with
        | some cond => cond.print (p.push " ")
        | none => p
    p.push " " |>.braced (·.inner (Stmt.printLines body))
  | .range key value tok x body, p =>
    let p := p.push "for "
    let p := match key with
      | some key =>
        let p := key.print p
        let p := match value with
          | some value => value.print (p.push ", ")
          | none => p
        p.push " " |>.push (tok.getD .define).text |>.push " "
      | none => p
    x.print (p.push "range ") |>.push " " |>.braced (·.inner (Stmt.printLines body))

/-- Empty statements leave no line. -/
def Stmt.printLines : List Stmt → Printer → Printer
  | [], p => p
  | s :: ss, p => Stmt.printLines ss (if s.isEmpty then p else s.print p.tabs |>.push "\n")

def Clause.print : Clause → Printer → Printer
  | .matching list body, p =>
    p.tabs |>.push "case " |>.commaSep (Expr.printEach list) |>.push ":\n" |>.inner
      (Stmt.printLines body)
  | .otherwise body, p => p.tabs |>.push "default:\n" |>.inner (Stmt.printLines body)

def Clause.printAll : List Clause → Printer → Printer
  | [], p => p
  | c :: cs, p => Clause.printAll cs (c.print p)

def ValueSpec.print : ValueSpec → Printer → Printer
  | ⟨names, ty, values⟩, p =>
    let p := p.push (commaSep names)
    let p := match ty with
      | some ty => ty.print (p.push " ")
      | none => p
    if values.isEmpty then p else p.push " = " |>.commaSep (Expr.printEach values)

def TypeSpec.print : TypeSpec → Printer → Printer
  | ⟨name, typeParams, isAlias, ty⟩, p =>
    let p := Signature.printTypeParams typeParams (p.push name)
    let p := if isAlias then p.push " =" else p
    ty.print (p.push " ")

def Spec.print : Spec → Printer → Printer
  | .imported spec, p => spec.print p
  | .value spec, p => spec.print p
  | .type spec, p => spec.print p

def Spec.printEach : List Spec → List (Printer → Printer)
  | [] => []
  | s :: ss => s.print :: Spec.printEach ss

def DeclGroup.print : DeclGroup → Printer → Printer
  | ⟨tok, specs, grouped⟩, p =>
    let p := p.push tok.text
    match grouped, specs with
    | false, [spec] => spec.print (p.push " ")
    | _, [] => p.push " ()"
    | _, specs => p.push " (\n" |>.inner (·.lines "" (Spec.printEach specs)) |>.tabs |>.push ")"

end

def FuncDecl.print (f : FuncDecl) (p : Printer) : Printer :=
  p.push "func "
    |>.optional f.recv (fun recv p =>
      p.push "(" |>.commaSep (Field.printEach .param recv) |>.push ") ")
    |>.push f.name |> f.sig.print
    |>.optional f.body (fun body p => p.push " " |>.braced (·.inner (Stmt.printLines body)))

def Decl.print : Decl → Printer → Printer
  | .bad node, p => p.push node.text
  | .group g, p => g.print p
  | .func f, p => f.print p

/-- The declarations one after the other, all with the same printer. -/
def SourceFile.print (file : SourceFile) (p : Printer) : Printer :=
  let p := p.push "package " |>.push file.package |>.push "\n"
  file.decls.foldl (fun p d => d.print (p.push "\n") |>.push "\n") p

/-! ## What a printer writes -/

namespace Layout

/-- At the given level `act` appends the text and leaves the level as it is. -/
def Emits (level : Nat) (act : Printer → Printer) (text : String) : Prop :=
  ∀ out, act ⟨out, level⟩ = ⟨out ++ text, level⟩

namespace Emits

variable {level : Nat} {act act' : Printer → Printer} {s t : String}

theorem text (level : Nat) (word : String) : Emits level (·.push word) word :=
  fun _ => rfl

theorem tabs (level : Nat) : Emits level Printer.tabs (Layout.tabs level) :=
  fun _ => rfl

theorem nothing (level : Nat) : Emits level (fun p => p) "" := by
  intro out
  rw [String.append_empty]

theorem append (h : Emits level act s) (h' : Emits level act' t) :
    Emits level (fun p => act' (act p)) (s ++ t) := by
  intro out
  change act' (act ⟨out, level⟩) = _
  rw [h, h', String.append_assoc]

theorem before (h : Emits level act s) (word : String) :
    Emits level (fun p => (act p).push word) (s ++ word) :=
  h.append (text level word)

theorem after (h : Emits level act s) (word : String) :
    Emits level (fun p => act (p.push word)) (word ++ s) :=
  (text level word).append h

theorem ite {c : Prop} [Decidable c] (h : Emits level act s) (h' : Emits level act' t) :
    Emits level (fun p => if c then act p else act' p) (if c then s else t) := by
  split
  · exact h
  · exact h'

theorem optional {α : Type} {o : Option α} {acts : α → Printer → Printer} {texts : α → String}
    (h : ∀ x ∈ o, Emits level (acts x) (texts x)) :
    Emits level (·.optional o acts) (o.elim "" texts) := by
  cases o with
  | none => exact nothing level
  | some x => exact h x rfl

theorem commaSep {acts : List (Printer → Printer)} {texts : List String}
    (h : List.Forall₂ (Emits level) acts texts) :
    Emits level (·.commaSep acts) (Layout.commaSep texts) := by
  induction h with
  | nil => exact nothing level
  | cons h hrest ih =>
    cases hrest with
    | nil => exact h
    | cons => exact (h.before ", ").append ih

theorem lines (mark : String) {acts : List (Printer → Printer)} {texts : List String}
    (h : List.Forall₂ (Emits level) acts texts) :
    Emits level (Printer.lines mark · acts) (linesAt level mark texts) := by
  induction h with
  | nil => exact nothing level
  | cons h hrest ih => exact ((((tabs level).append h).before mark).before "\n").append ih

/-- The level is raised for `act` and is back afterwards. -/
theorem inner (h : Emits (level + 1) act s) : Emits level (·.inner act) s := by
  intro out
  change (act ⟨out, level + 1⟩).lower = _
  rw [h]
  rfl

theorem braced (h : Emits level act s) : Emits level (·.braced act) (Layout.braced level s) :=
  ((h.after "\x7b\n").append (tabs level)).before "\x7d"

end Emits

end Layout

/-! ## Printed parts that may be absent -/

theorem Stmt.print_ifElse (init : Option Stmt) (cond : Expr) (body : List Stmt)
    (orElse : Option Stmt) :
    (Stmt.ifElse init cond body orElse).print = fun p =>
      p.push "if " |>.optional init (fun s p => s.print p |>.push "; ") |> cond.print |>.push " "
        |>.braced (·.inner (Stmt.printLines body))
        |>.optional orElse (fun s p => s.print (p.push " else ")) := by
  cases init <;> cases orElse <;> rfl

theorem Stmt.print_switch (init : Option Stmt) (tag : Option Expr) (body : List Clause) :
    (Stmt.switch init tag body).print = fun p =>
      p.push "switch" |>.optional init (fun s p => s.print (p.push " ") |>.push ";")
        |>.optional tag (fun x p => x.print (p.push " ")) |>.push " "
        |>.braced (Clause.printAll body) := by
  cases init <;> cases tag <;> rfl

theorem Stmt.print_typeSwitch (init : Option Stmt) (guard : Stmt) (body : List Clause) :
    (Stmt.typeSwitch init guard body).print = fun p =>
      p.push "switch" |>.optional init (fun s p => s.print (p.push " ") |>.push ";") |>.push " "
        |> guard.print |>.push " " |>.braced (Clause.printAll body) := by
  cases init <;> rfl

theorem Stmt.print_loop (init : Option Stmt) (cond : Option Expr) (post : Option Stmt)
    (body : List Stmt) :
    (Stmt.loop init cond post body).print = fun p =>
      let p := p.push "for"
      let p :=
        if init.isSome || post.isSome then
          p.push " " |>.optional init Stmt.print |>.push "; " |> Expr.printOpt cond |>.push ";"
            |>.optional post (fun s p => s.print (p.push " "))
        else p.optional cond (fun x p => x.print (p.push " "))
      p.push " " |>.braced (·.inner (Stmt.printLines body)) := by
  cases init <;> cases cond <;> cases post <;> rfl

theorem Stmt.print_range (key value : Option Expr) (tok : Option Token) (x : Expr)
    (body : List Stmt) :
    (Stmt.range key value tok x body).print = fun p =>
      p.push "for "
        |>.optional key (fun key p => key.print p
          |>.optional value (fun value p => value.print (p.push ", ")) |>.push " "
          |>.push (tok.getD .define).text |>.push " ")
        |>.push "range " |> x.print |>.push " " |>.braced (·.inner (Stmt.printLines body)) := by
  cases key <;> cases value <;> rfl

theorem ValueSpec.print_mk (names : List String) (ty : Option Expr) (values : List Expr) :
    (ValueSpec.mk names ty values).print = fun p =>
      let p := p.push (commaSep names) |>.optional ty (fun x p => x.print (p.push " "))
      if values.isEmpty then p else p.push " = " |>.commaSep (Expr.printEach values) := by
  cases ty <;> rfl

theorem Expr.emits_of_mem {level : Nat} {x : Option Expr}
    (h : Emits level (Expr.printOpt x) (Expr.renderOpt level x)) :
    ∀ y ∈ x, Emits level y.print (y.render level) := by
  intro y hy
  cases Option.mem_def.1 hy
  exact h

theorem ImportSpec.emits (level : Nat) (spec : ImportSpec) :
    Emits level spec.print spec.render := by
  rcases spec with ⟨- | name, path⟩
  · exact .text level path.value
  · exact ((Emits.text level name).before " ").before path.value

/-! ## The printer writes the layout -/

mutual

-- By induction on the tree, with the level free: the parts of a node are written one after the
-- other at the level of the node, and those between braces at the next one.
theorem Expr.emits (level : Nat) (x : Expr) : Emits level x.print (x.render level) := by
  match x with
  | .bad node => exact .text level node.text
  | .ident name => exact .text level name
  | .ellipsis elt => exact (Expr.emitsOpt level elt).after _
  | .literal value => exact .text level value.value
  | .funcLit sig body =>
    exact (((Signature.emits level sig).after _).before _).append
      (Stmt.emitsLines (level + 1) body).inner.braced
  | .composite ty elts incomplete =>
    exact (Expr.emitsOpt level ty).append
      (.ite (Emits.lines "," (Expr.emitsEach (level + 1) elts)).inner.braced
        (((Emits.commaSep (Expr.emitsEach level elts)).after _).before _))
  | .paren y => exact ((Expr.emits level y).after _).before _
  | .selector y sel => exact ((Expr.emits level y).before _).before sel
  | .index y arg =>
    exact (((Expr.emits level y).before _).append (Expr.emits level arg)).before _
  | .indexList y args =>
    exact (((Expr.emits level y).before _).append
      (.commaSep (Expr.emitsEach level args))).before _
  | .slice y low high max three =>
    exact ((((((Expr.emits level y).before _).append (Expr.emitsOpt level low)).before _).append
      (Expr.emitsOpt level high)).append
      (.ite ((Expr.emitsOpt level max).after _) (.nothing level))).before _
  | .typeAssert y ty =>
    have hhead := (Expr.emits level y).before ".("
    cases ty with
    | none => exact (hhead.before "type").before ")"
    | some ty => exact (hhead.append (Expr.emits level ty)).before ")"
  | .call fn args spread =>
    exact ((((Expr.emits level fn).before _).append (.commaSep (Expr.emitsEach level args))).append
      (.ite (.text level "...") (.nothing level))).before _
  | .star y => exact (Expr.emits level y).after _
  | .unary op y => exact (Expr.emits level y).after _
  | .binary op y z =>
    exact ((((Expr.emits level y).before _).before _).before _).append (Expr.emits level z)
  | .keyValue key value => exact ((Expr.emits level key).before _).append (Expr.emits level value)
  | .arrayType len elt =>
    exact (((Expr.emitsOpt level len).after _).before _).append (Expr.emits level elt)
  | .structType fields incomplete =>
    exact .ite (.text level "struct\x7b\x7d")
      ((Emits.lines "" (Field.emitsEach .member (level + 1) fields)).inner.braced.after _)
  | .funcType sig => exact (Signature.emits level sig).after _
  | .interfaceType methods incomplete =>
    exact .ite (.text level "interface\x7b\x7d")
      ((Emits.lines "" (Field.emitsEach .element (level + 1) methods)).inner.braced.after _)
  | .mapType key value =>
    exact (((Expr.emits level key).after _).before _).append (Expr.emits level value)
  | .chanType dir value => exact (Expr.emits level value).after _

theorem Expr.emitsOpt (level : Nat) (x : Option Expr) :
    Emits level (Expr.printOpt x) (Expr.renderOpt level x) := by
  match x with
  | none => exact .nothing level
  | some x => exact Expr.emits level x

theorem Expr.emitsEach (level : Nat) (xs : List Expr) :
    List.Forall₂ (Emits level) (Expr.printEach xs) (Expr.renderEach level xs) := by
  match xs with
  | [] => exact .nil
  | x :: xs => exact .cons (Expr.emits level x) (Expr.emitsEach level xs)

theorem Field.emits (place : Field.Place) (level : Nat) (f : Field) :
    Emits level (f.print place) (f.render place level) := by
  match f with
  | ⟨names, ty, tag⟩ =>
    have htext := Expr.emits level ty
    cases place with
    | param => exact htext.after _
    | member =>
      have hmember := htext.after (leadingNames names)
      cases tag with
      | none => exact hmember.append (.nothing level)
      | some tag => exact hmember.append ((Emits.text level " ").before tag.value)
    | element =>
      cases names with
      | nil => exact htext
      | cons name names =>
        cases ty with
        | funcType sig => exact (Signature.emits level sig).after name
        | _ => exact htext

theorem Field.emitsEach (place : Field.Place) (level : Nat) (fields : List Field) :
    List.Forall₂ (Emits level) (Field.printEach place fields)
      (Field.renderEach place level fields) := by
  match fields with
  | [] => exact .nil
  | f :: fs => exact .cons (Field.emits place level f) (Field.emitsEach place level fs)

theorem Signature.emits (level : Nat) (sig : Signature) :
    Emits level sig.print (sig.render level) := by
  match sig with
  | ⟨typeParams, params, results⟩ =>
    have hhead := (((Signature.emitsTypeParams level typeParams).before "(").append
      (.commaSep (Field.emitsEach .param level params))).before ")"
    rcases results with - | results
    · exact hhead.append (.nothing level)
    · have hlist := ((Emits.commaSep (Field.emitsEach .param level results)).after " (").before ")"
      rcases results with - | ⟨⟨- | ⟨name, names⟩, ty, tag⟩, - | ⟨f, fs⟩⟩
      · exact hhead.append (.nothing level)
      · exact hhead.append ((Expr.emits level ty).after " ")
      · exact hhead.append hlist
      · exact hhead.append hlist
      · exact hhead.append hlist

theorem Signature.emitsTypeParams (level : Nat) (fields : Option (List Field)) :
    Emits level (Signature.printTypeParams fields) (Signature.renderTypeParams level fields) := by
  match fields with
  | none => exact .nothing level
  | some fields => exact ((Emits.commaSep (Field.emitsEach .param level fields)).after _).before _

theorem Stmt.emits (level : Nat) (s : Stmt) : Emits level s.print (s.render level) := by
  match s with
  | .bad node => exact .text level node.text
  | .decl group => exact DeclGroup.emits level group
  | .empty => exact .nothing level
  | .labeled label t =>
    exact (((Emits.text level label).before _).append (.tabs level)).append (Stmt.emits level t)
  | .expr x => exact Expr.emits level x
  | .send chan value => exact ((Expr.emits level chan).before _).append (Expr.emits level value)
  | .incDec x tok => exact (Expr.emits level x).before _
  | .assign lhs tok rhs =>
    exact ((((Emits.commaSep (Expr.emitsEach level lhs)).before _).before _).before _).append
      (.commaSep (Expr.emitsEach level rhs))
  | .goCall x => exact (Expr.emits level x).after _
  | .deferCall x => exact (Expr.emits level x).after _
  | .ret results =>
    exact (Emits.text level "return").append
      (.ite (.nothing level) ((Emits.commaSep (Expr.emitsEach level results)).after " "))
  | .branch tok label =>
    rw [Stmt.render_branch]
    exact (Emits.text level tok.text).append
      (.optional fun label _ => (Emits.text level " ").before label)
  | .block list => exact (Stmt.emitsLines (level + 1) list).inner.braced
  | .ifElse init cond body orElse =>
    rw [Stmt.print_ifElse, Stmt.render_ifElse]
    exact (((((Emits.optional fun s hs => (Stmt.emitsOpt level init s hs).before "; ").after
      "if ").append (Expr.emits level cond)).before " ").append
      (Stmt.emitsLines (level + 1) body).inner.braced).append
      (.optional fun s hs => (Stmt.emitsOpt level orElse s hs).after " else ")
  | .switch init tag body =>
    rw [Stmt.print_switch, Stmt.render_switch]
    exact ((((Emits.optional fun s hs => ((Stmt.emitsOpt level init s hs).after " ").before
      ";").after "switch").append (.optional fun x hx =>
        (Expr.emits_of_mem (Expr.emitsOpt level tag) x hx).after " ")).before " ").append
      (Clause.emitsAll level body).braced
  | .typeSwitch init guard body =>
    rw [Stmt.print_typeSwitch, Stmt.render_typeSwitch]
    exact (((((Emits.optional fun s hs => ((Stmt.emitsOpt level init s hs).after " ").before
      ";").after "switch").before " ").append (Stmt.emits level guard)).before " ").append
      (Clause.emitsAll level body).braced
  | .loop init cond post body =>
    have hcond := Expr.emitsOpt level cond
    have hfull := (((((Emits.optional (Stmt.emitsOpt level init)).after " ").before "; ").append
      hcond).before ";").append
      (.optional fun s hs => (Stmt.emitsOpt level post s hs).after " ")
    have hcondOnly := Emits.optional fun x hx => (Expr.emits_of_mem hcond x hx).after " "
    rw [Stmt.print_loop, Stmt.render_loop]
    exact (((hfull.ite hcondOnly).after "for").before " ").append
      (Stmt.emitsLines (level + 1) body).inner.braced
  | .range key value tok x body =>
    have hkey := Expr.emits_of_mem (Expr.emitsOpt level key)
    have hvalue := Emits.optional fun y hy =>
      (Expr.emits_of_mem (Expr.emitsOpt level value) y hy).after ", "
    rw [Stmt.print_range, Stmt.render_range]
    exact (((((Emits.optional fun y hy => ((((hkey y hy).append hvalue).before " ").before
      (tok.getD .define).text).before " ").after "for ").before "range ").append
      (Expr.emits level x)).before " ").append (Stmt.emitsLines (level + 1) body).inner.braced

theorem Stmt.emitsOpt (level : Nat) (s : Option Stmt) :
    ∀ t ∈ s, Emits level t.print (t.render level) := by
  match s with
  | none => exact fun t ht => absurd ht (Option.not_mem_none t)
  | some s =>
    intro t ht
    cases Option.mem_some.1 ht
    exact Stmt.emits level s

theorem Stmt.emitsLines (level : Nat) (list : List Stmt) :
    Emits level (Stmt.printLines list) (Stmt.renderLines level list) := by
  match list with
  | [] => exact .nothing level
  | s :: ss =>
    have hline := ((Emits.tabs level).append (Stmt.emits level s)).before "\n"
    exact ((Emits.nothing level).ite hline).append (Stmt.emitsLines level ss)

theorem Clause.emits (level : Nat) (c : Clause) : Emits level c.print (c.render level) := by
  match c with
  | .matching list body =>
    exact ((((Emits.tabs level).before "case ").append
      (.commaSep (Expr.emitsEach level list))).before ":\n").append
      (Stmt.emitsLines (level + 1) body).inner
  | .otherwise body =>
    exact ((Emits.tabs level).before "default:\n").append (Stmt.emitsLines (level + 1) body).inner

theorem Clause.emitsAll (level : Nat) (list : List Clause) :
    Emits level (Clause.printAll list) (Clause.renderAll level list) := by
  match list with
  | [] => exact .nothing level
  | c :: cs => exact (Clause.emits level c).append (Clause.emitsAll level cs)

theorem ValueSpec.emits (level : Nat) (spec : ValueSpec) :
    Emits level spec.print (spec.render level) := by
  match spec with
  | ⟨names, ty, values⟩ =>
    have hty := Emits.optional fun x hx =>
      (Expr.emits_of_mem (Expr.emitsOpt level ty) x hx).after " "
    rw [ValueSpec.print_mk, ValueSpec.render_mk]
    exact (hty.after (commaSep names)).append
      (.ite (.nothing level) ((Emits.commaSep (Expr.emitsEach level values)).after " = "))

theorem TypeSpec.emits (level : Nat) (spec : TypeSpec) :
    Emits level spec.print (spec.render level) := by
  match spec with
  | ⟨name, typeParams, isAlias, ty⟩ =>
    exact ((((Signature.emitsTypeParams level typeParams).after _).append
      (.ite (.text level " =") (.nothing level))).before " ").append (Expr.emits level ty)

theorem Spec.emits (level : Nat) (spec : Spec) : Emits level spec.print (spec.render level) := by
  match spec with
  | .imported spec => exact ImportSpec.emits level spec
  | .value spec => exact ValueSpec.emits level spec
  | .type spec => exact TypeSpec.emits level spec

theorem Spec.emitsEach (level : Nat) (specs : List Spec) :
    List.Forall₂ (Emits level) (Spec.printEach specs) (Spec.renderEach level specs) := by
  match specs with
  | [] => exact .nil
  | s :: ss => exact .cons (Spec.emits level s) (Spec.emitsEach level ss)

theorem DeclGroup.emits (level : Nat) (g : DeclGroup) :
    Emits level g.print (g.render level) := by
  match g with
  | ⟨tok, specs, grouped⟩ =>
    have htok := Emits.text level tok.text
    have hlines := (((Emits.lines "" (Spec.emitsEach (level + 1) specs)).inner.after
      " (\n").append (.tabs level)).before ")"
    rcases specs with - | ⟨s, - | ⟨t, ss⟩⟩
    · cases grouped <;> exact htok.before " ()"
    · cases grouped with
      | false => exact htok.append ((Spec.emits level s).after " ")
      | true => exact htok.append hlines
    · cases grouped <;> exact htok.append hlines

end

theorem FuncDecl.emits (level : Nat) (f : FuncDecl) : Emits level f.print (f.render level) := by
  rw [FuncDecl.render_eq]
  exact ((((Emits.optional fun recv _ =>
    ((Emits.commaSep (Field.emitsEach .param level recv)).after "(").before ") ").after
    "func ").before f.name).append (f.sig.emits level)).append
    (.optional fun body _ => (Stmt.emitsLines (level + 1) body).inner.braced.after " ")

theorem Decl.emits (level : Nat) (d : Decl) : Emits level d.print (d.render level) := by
  cases d with
  | bad node => exact .text level node.text
  | group g => exact g.emits level
  | func f => exact f.emits level

theorem Decl.emitsAll (level : Nat) (decls : List Decl) :
    Emits level
      (fun p => decls.foldl (fun p d => d.print (p.push "\n") |>.push "\n") p)
      (String.join (decls.map fun d => "\n" ++ d.render level ++ "\n")) := by
  induction decls with
  | nil => exact .nothing level
  | cons d decls ih =>
    rw [List.map_cons, String.join_cons]
    exact (((d.emits level).after "\n").before "\n").append ih

theorem SourceFile.emits (file : SourceFile) : Emits 0 file.print file.render :=
  (((Emits.text 0 "package ").before file.package).before "\n").append (Decl.emitsAll 0 file.decls)

/-! ## Moving a node in -/

namespace Layout

/-- A part of a file that is printed at the level where it stands. -/
inductive Node where
  | expr (x : Expr)
  | stmt (s : Stmt)
  | spec (s : Spec)
  | decl (d : Decl)

namespace Node

def render (level : Nat) : Node → String
  | expr x => x.render level
  | stmt s => s.render level
  | spec s => s.render level
  | decl d => d.render level

def print : Node → Printer → Printer
  | expr x => x.print
  | stmt s => s.print
  | spec s => s.print
  | decl d => d.print

def words : Node → List String
  | expr x => x.words
  | stmt s => s.words
  | spec s => s.words
  | decl d => d.words

theorem emits (level : Nat) (node : Node) : Emits level node.print (node.render level) := by
  cases node with
  | expr x => exact x.emits level
  | stmt s => exact s.emits level
  | spec s => exact s.emits level
  | decl d => exact d.emits level

theorem moves (n level : Nat) {node : Node} (h : OneLines node.words) :
    Moves n (node.render level) (node.render (n + level)) := by
  cases node with
  | expr x => exact x.moves n level h
  | stmt s => exact s.moves n level h
  | spec s => exact s.moves n level h
  | decl d => exact Decl.moves n level h

end Node

/-- A printer at any level is at the same level after a node. It has appended the text of the node
at that level, which is the text at level zero with that many tabs after every line end, provided
that no line ends inside a word. A file therefore is its package clause and then, one by one, what a
fresh printer writes for each declaration. -/
theorem printer_compositional :
    (∀ (node : Node) (p : Printer),
      node.print p = ⟨p.out ++ node.render p.level, p.level⟩ ∧
        (OneLines node.words → node.render p.level = indented p.level (node.render 0))) ∧
    ∀ file : SourceFile,
      file.print .start = ⟨file.render, 0⟩ ∧
        file.render = "package " ++ file.package ++ "\n" ++
          String.join (file.decls.map fun d => "\n" ++ (d.print .start).out ++ "\n") := by
  refine ⟨fun node p => ⟨node.emits p.level p.out, ?_⟩, fun file => ⟨?_, ?_⟩⟩
  · intro hwords
    exact (Node.moves p.level 0 hwords).symm
  · rw [Printer.start, file.emits, String.empty_append]
  · have hfresh (d : Decl) : (d.print .start).out = d.render 0 := by
      rw [Printer.start, d.emits, String.empty_append]
    simp only [hfresh]
    rfl

/-- A deferred call of a function literal, in a body two levels in. -/
theorem printer_compositional_deferCall :
    let node := Node.stmt (.deferCall (.call
      (.funcLit ⟨none, [], none⟩ [.expr (.call (.ident "recover") [] false)]) [] false))
    OneLines node.words ∧
      node.print ⟨"\t\t", 2⟩ =
        ⟨"\t\t" ++ indented 2 "defer func() \x7b\n\trecover()\n\x7d()", 2⟩ := by
  intro node
  have hwords : OneLines node.words := by decide
  obtain ⟨hprint, hrender⟩ := printer_compositional.1 node ⟨"\t\t", 2⟩
  refine ⟨hwords, ?_⟩
  rw [hprint, hrender hwords]
  rfl

-- A raw string over two lines is a word with a line end. It is the same text at every level.
example :
    let x := Expr.literal ⟨.string, "`a\nb`"⟩
    x.render 1 ≠ indented 1 (x.render 0) := by decide

end Layout

end GoWeave

import GoWeave.Layout
import Mathlib.Data.List.Forall2

/-!
# Indentation

The text of a tree at a level is its text at level zero, moved in: after every line end there are
as many tabs more. This needs that no line ends inside a word of the tree, as it would in a raw
string over several lines or in the text of a bad node.

A node that spans several lines is a first line, whole lines between braces or parentheses, and the
start of a last line. Whole lines begin with their tabs and end with a line end, so moving them in
takes tabs to their front and leaves tabs behind for the line that follows.
-/
namespace GoWeave

namespace Layout

/-- A text without a line end. -/
def OneLine (s : String) : Prop :=
  '\n' ∉ s.toList

instance (s : String) : Decidable (OneLine s) :=
  inferInstanceAs (Decidable (_ ∉ _))

/-- No line ends inside one of the words. -/
def OneLines (words : List String) : Prop :=
  ∀ w ∈ words, OneLine w

instance (words : List String) : Decidable (OneLines words) :=
  inferInstanceAs (Decidable (∀ w ∈ words, OneLine w))

theorem oneLines_append {words words' : List String} :
    OneLines (words ++ words') ↔ OneLines words ∧ OneLines words' :=
  List.forall_mem_append

theorem oneLines_cons {word : String} {words : List String} :
    OneLines (word :: words) ↔ OneLine word ∧ OneLines words :=
  List.forall_mem_cons

theorem oneLines_singleton {word : String} : OneLines [word] ↔ OneLine word :=
  List.forall_mem_singleton

/-- The text with a number of tabs after every line end. -/
def indented (n : Nat) (s : String) : String :=
  String.ofList (s.toList.flatMap fun c => if c = '\n' then '\n' :: List.replicate n '\t' else [c])

variable {n level : Nat}

theorem tabs_add (n level : Nat) : tabs (n + level) = tabs n ++ tabs level := by
  rw [tabs, tabs, tabs, List.replicate_add, String.ofList_append]

theorem indented_append (n : Nat) (s t : String) :
    indented n (s ++ t) = indented n s ++ indented n t := by
  rw [indented, String.toList_append, List.flatMap_append, String.ofList_append, indented, indented]

theorem indented_of_oneLine {s : String} (h : OneLine s) : indented n s = s := by
  have hsame : (s.toList.flatMap fun c =>
      if c = '\n' then '\n' :: List.replicate n '\t' else [c]) = s.toList := by
    rw [OneLine] at h
    generalize s.toList = cs at h ⊢
    induction cs with
    | nil => rfl
    | cons c cs ih =>
      rw [List.mem_cons, not_or] at h
      rw [List.flatMap_cons, ih h.2, if_neg (Ne.symm h.1), List.singleton_append]
  rw [indented, hsame, String.ofList_toList]

theorem indented_lineEnd (n : Nat) : indented n "\n" = "\n" ++ tabs n := by
  simp [indented, tabs]

theorem oneLine_tabs (level : Nat) : OneLine (tabs level) := by
  rw [OneLine, tabs, String.toList_ofList, List.mem_replicate]
  exact fun h => absurd h.2 (by decide)

/-! ## Parts of a line -/

/-- A text and the same text moved in. -/
def Moves (n : Nat) (s t : String) : Prop :=
  indented n s = t

namespace Moves

variable {s t s' t' w : String}

theorem word (h : OneLine w) : Moves n w w :=
  indented_of_oneLine h

theorem empty (n : Nat) : Moves n "" "" :=
  word (by decide)

theorem append (h : Moves n s t) (h' : Moves n s' t') : Moves n (s ++ s') (t ++ t') := by
  rw [Moves] at h h' ⊢
  rw [indented_append, h, h']

theorem before (h : Moves n s t) (hw : OneLine w) : Moves n (s ++ w) (t ++ w) :=
  h.append (.word hw)

theorem after (h : Moves n s t) (hw : OneLine w) : Moves n (w ++ s) (w ++ t) :=
  (Moves.word hw).append h

theorem token (n : Nat) (tok : Token) : Moves n tok.text tok.text := by
  apply Moves.word
  cases tok <;> decide

theorem ite {c : Prop} [Decidable c] (h : Moves n s t) (h' : Moves n s' t') :
    Moves n (if c then s else s') (if c then t else t') := by
  split
  · exact h
  · exact h'

/-- A part that may be absent. -/
theorem optional {α : Type} {o : Option α} {f g : α → String}
    (h : ∀ x ∈ o, Moves n (f x) (g x)) : Moves n (o.elim "" f) (o.elim "" g) := by
  cases o with
  | none => exact .empty n
  | some x => exact h x rfl

theorem commaSep {texts moved : List String} (h : List.Forall₂ (Moves n) texts moved) :
    Moves n (commaSep texts) (commaSep moved) := by
  induction h with
  | nil => exact .empty n
  | cons h hrest ih =>
    cases hrest with
    | nil => exact h
    | cons => exact (h.before (by decide)).append ih

/-- A word at the end of a line, and what follows on the next line at a level. -/
theorem newLine (h : Moves n s t) (hw : OneLine w) (h' : Moves n s' t') (level : Nat) :
    Moves n (s ++ (w ++ "\n") ++ tabs level ++ s')
      (t ++ (w ++ "\n") ++ tabs (n + level) ++ t') := by
  rw [Moves] at h h' ⊢
  simp only [indented_append, h, h', indented_of_oneLine hw, indented_lineEnd,
    indented_of_oneLine (oneLine_tabs level), tabs_add, String.append_assoc]

end Moves

theorem moves_names {names : List String} (h : OneLines names) :
    Moves n (commaSep names) (commaSep names) := by
  refine .commaSep ?_
  rw [List.forall₂_same]
  exact fun name hname => .word (h name hname)

theorem moves_leadingNames {names : List String} (h : OneLines names) :
    Moves n (leadingNames names) (leadingNames names) :=
  .ite (.empty n) ((moves_names h).before (by decide))

/-! ## Whole lines -/

/-- Whole lines and the same lines moved in. The tabs for the first line come from what stands
before the lines, and those after the last line end belong to what follows. -/
def MovesLines (n : Nat) (lines moved : String) : Prop :=
  tabs n ++ indented n lines = moved ++ tabs n

namespace MovesLines

variable {s t lines moved lines' moved' : String}

theorem nil (n : Nat) : MovesLines n "" "" := by
  rw [MovesLines, show indented n "" = "" from Moves.empty n, String.append_empty,
    String.empty_append]

theorem append (h : MovesLines n lines moved) (h' : MovesLines n lines' moved') :
    MovesLines n (lines ++ lines') (moved ++ moved') := by
  rw [MovesLines] at h h' ⊢
  calc tabs n ++ indented n (lines ++ lines')
      = (tabs n ++ indented n lines) ++ indented n lines' := by
        rw [indented_append, String.append_assoc]
    _ = moved ++ (tabs n ++ indented n lines') := by rw [h, String.append_assoc]
    _ = moved ++ moved' ++ tabs n := by rw [h', String.append_assoc]

/-- A line that starts at a level. -/
theorem line (h : Moves n s t) (level : Nat) :
    MovesLines n (tabs level ++ s ++ "\n") (tabs (n + level) ++ t ++ "\n") := by
  rw [Moves] at h
  rw [MovesLines, indented_append, indented_append, h, indented_lineEnd,
    indented_of_oneLine (oneLine_tabs level), tabs_add]
  simp only [String.append_assoc]

theorem linesAt {mark : String} (hmark : OneLine mark) {texts movedTexts : List String}
    (h : List.Forall₂ (Moves n) texts movedTexts) (level : Nat) :
    MovesLines n (linesAt level mark texts) (Layout.linesAt (n + level) mark movedTexts) := by
  induction h with
  | nil => exact .nil n
  | cons h hrest ih =>
    have hline := line (h.before hmark) level
    simp only [Layout.linesAt, ← String.append_assoc] at hline ih ⊢
    exact hline.append ih

/-- Whole lines between a first line and the start of a last one. -/
theorem enclosed {first last : String} (h : MovesLines n lines moved) (hfirst : OneLine first)
    (hlast : OneLine last) (level : Nat) :
    Moves n (first ++ "\n" ++ lines ++ tabs level ++ last)
      (first ++ "\n" ++ moved ++ tabs (n + level) ++ last) := by
  rw [MovesLines] at h
  calc indented n (first ++ "\n" ++ lines ++ tabs level ++ last)
      = first ++ "\n" ++ (tabs n ++ indented n lines) ++ tabs level ++ last := by
        simp only [indented_append, indented_of_oneLine hfirst, indented_of_oneLine hlast,
          indented_lineEnd, indented_of_oneLine (oneLine_tabs level), String.append_assoc]
    _ = first ++ "\n" ++ moved ++ tabs (n + level) ++ last := by
        rw [h, tabs_add]
        simp only [String.append_assoc]

theorem braced (h : MovesLines n lines moved) (level : Nat) :
    Moves n (braced level lines) (Layout.braced (n + level) moved) :=
  h.enclosed (by decide : OneLine "\x7b") (by decide : OneLine "\x7d") level

end MovesLines

end Layout

open Layout

/-! ## The words of a tree -/

def ImportSpec.words (spec : ImportSpec) : List String :=
  spec.name.toList ++ [spec.path.value]

mutual

/-- Everything that a tree holds as text: identifiers, labels and member names, literals and tags,
and the text of bad nodes. -/
def Expr.words : Expr → List String
  | .bad node => [node.text]
  | .ident name => [name]
  | .ellipsis elt => Expr.wordsOpt elt
  | .literal value => [value.value]
  | .funcLit sig body => sig.words ++ Stmt.wordsAll body
  | .composite ty elts _ => Expr.wordsOpt ty ++ Expr.wordsAll elts
  | .paren x => x.words
  | .selector x sel => x.words ++ [sel]
  | .index x arg => x.words ++ arg.words
  | .indexList x args => x.words ++ Expr.wordsAll args
  | .slice x low high max _ =>
    x.words ++ Expr.wordsOpt low ++ Expr.wordsOpt high ++ Expr.wordsOpt max
  | .typeAssert x ty => x.words ++ Expr.wordsOpt ty
  | .call fn args _ => fn.words ++ Expr.wordsAll args
  | .star x => x.words
  | .unary _ x => x.words
  | .binary _ x y => x.words ++ y.words
  | .keyValue key value => key.words ++ value.words
  | .arrayType len elt => Expr.wordsOpt len ++ elt.words
  | .structType fields _ => Field.wordsAll fields
  | .funcType sig => sig.words
  | .interfaceType methods _ => Field.wordsAll methods
  | .mapType key value => key.words ++ value.words
  | .chanType _ value => value.words

def Expr.wordsOpt : Option Expr → List String
  | none => []
  | some x => x.words

def Expr.wordsAll : List Expr → List String
  | [] => []
  | x :: xs => x.words ++ Expr.wordsAll xs

def Field.words : Field → List String
  | ⟨names, ty, tag⟩ => names ++ ty.words ++ tag.toList.map (·.value)

def Field.wordsAll : List Field → List String
  | [] => []
  | f :: fs => f.words ++ Field.wordsAll fs

def Field.wordsOpt : Option (List Field) → List String
  | none => []
  | some fields => Field.wordsAll fields

def Signature.words : Signature → List String
  | ⟨typeParams, params, results⟩ =>
    Field.wordsOpt typeParams ++ Field.wordsAll params ++ Field.wordsOpt results

def Stmt.words : Stmt → List String
  | .bad node => [node.text]
  | .decl group => group.words
  | .empty => []
  | .labeled label stmt => label :: stmt.words
  | .expr x => x.words
  | .send chan value => chan.words ++ value.words
  | .incDec x _ => x.words
  | .assign lhs _ rhs => Expr.wordsAll lhs ++ Expr.wordsAll rhs
  | .goCall x => x.words
  | .deferCall x => x.words
  | .ret results => Expr.wordsAll results
  | .branch _ label => label.toList
  | .block list => Stmt.wordsAll list
  | .ifElse init cond body orElse =>
    Stmt.wordsOpt init ++ cond.words ++ Stmt.wordsAll body ++ Stmt.wordsOpt orElse
  | .switch init tag body => Stmt.wordsOpt init ++ Expr.wordsOpt tag ++ Clause.wordsAll body
  | .typeSwitch init guard body => Stmt.wordsOpt init ++ guard.words ++ Clause.wordsAll body
  | .loop init cond post body =>
    Stmt.wordsOpt init ++ Expr.wordsOpt cond ++ Stmt.wordsOpt post ++ Stmt.wordsAll body
  | .range key value _ x body =>
    Expr.wordsOpt key ++ Expr.wordsOpt value ++ x.words ++ Stmt.wordsAll body

def Stmt.wordsOpt : Option Stmt → List String
  | none => []
  | some s => s.words

def Stmt.wordsAll : List Stmt → List String
  | [] => []
  | s :: ss => s.words ++ Stmt.wordsAll ss

def Clause.words : Clause → List String
  | .matching list body => Expr.wordsAll list ++ Stmt.wordsAll body
  | .otherwise body => Stmt.wordsAll body

def Clause.wordsAll : List Clause → List String
  | [] => []
  | c :: cs => c.words ++ Clause.wordsAll cs

def ValueSpec.words : ValueSpec → List String
  | ⟨names, ty, values⟩ => names ++ Expr.wordsOpt ty ++ Expr.wordsAll values

def TypeSpec.words : TypeSpec → List String
  | ⟨name, typeParams, _, ty⟩ => name :: Field.wordsOpt typeParams ++ ty.words

def Spec.words : Spec → List String
  | .imported spec => spec.words
  | .value spec => spec.words
  | .type spec => spec.words

def Spec.wordsAll : List Spec → List String
  | [] => []
  | s :: ss => s.words ++ Spec.wordsAll ss

def DeclGroup.words : DeclGroup → List String
  | ⟨_, specs, _⟩ => Spec.wordsAll specs

end

def FuncDecl.words (f : FuncDecl) : List String :=
  Field.wordsOpt f.recv ++ f.name :: f.sig.words ++ Stmt.wordsAll (f.body.getD [])

def Decl.words : Decl → List String
  | .bad node => [node.text]
  | .group g => g.words
  | .func f => f.words

/-! ## Parts that may be absent -/

theorem Stmt.render_branch (level : Nat) (tok : Token) (label : Option String) :
    (Stmt.branch tok label).render level = tok.text ++ label.elim "" (" " ++ ·) := by
  cases label <;> rfl

theorem Stmt.render_ifElse (level : Nat) (init : Option Stmt) (cond : Expr) (body : List Stmt)
    (orElse : Option Stmt) :
    (Stmt.ifElse init cond body orElse).render level =
      "if " ++ init.elim "" (·.render level ++ "; ") ++ cond.render level ++ " " ++
        braced level (Stmt.renderLines (level + 1) body) ++
        orElse.elim "" (" else " ++ ·.render level) := by
  cases init <;> cases orElse <;> rfl

theorem Stmt.render_switch (level : Nat) (init : Option Stmt) (tag : Option Expr)
    (body : List Clause) :
    (Stmt.switch init tag body).render level =
      "switch" ++ init.elim "" (" " ++ ·.render level ++ ";") ++
        tag.elim "" (" " ++ ·.render level) ++ " " ++
        braced level (Clause.renderAll level body) := by
  cases init <;> cases tag <;> rfl

theorem Stmt.render_typeSwitch (level : Nat) (init : Option Stmt) (guard : Stmt)
    (body : List Clause) :
    (Stmt.typeSwitch init guard body).render level =
      "switch" ++ init.elim "" (" " ++ ·.render level ++ ";") ++ " " ++ guard.render level ++ " " ++
        braced level (Clause.renderAll level body) := by
  cases init <;> rfl

theorem Stmt.render_loop (level : Nat) (init : Option Stmt) (cond : Option Expr)
    (post : Option Stmt) (body : List Stmt) :
    (Stmt.loop init cond post body).render level =
      "for" ++
        (if init.isSome || post.isSome then
          " " ++ init.elim "" (·.render level) ++ "; " ++ Expr.renderOpt level cond ++ ";" ++
            post.elim "" (" " ++ ·.render level)
        else cond.elim "" (" " ++ ·.render level)) ++
        " " ++ braced level (Stmt.renderLines (level + 1) body) := by
  cases init <;> cases cond <;> cases post <;> rfl

theorem Stmt.render_range (level : Nat) (key value : Option Expr) (tok : Option Token) (x : Expr)
    (body : List Stmt) :
    (Stmt.range key value tok x body).render level =
      "for " ++
        key.elim "" (fun key => key.render level ++ value.elim "" (", " ++ ·.render level) ++ " " ++
          (tok.getD .define).text ++ " ") ++
        "range " ++ x.render level ++ " " ++ braced level (Stmt.renderLines (level + 1) body) := by
  cases key <;> cases value <;> rfl

theorem ValueSpec.render_mk (level : Nat) (names : List String) (ty : Option Expr)
    (values : List Expr) :
    (ValueSpec.mk names ty values).render level =
      commaSep names ++ ty.elim "" (" " ++ ·.render level) ++
        if values.isEmpty then "" else " = " ++ commaSep (Expr.renderEach level values) := by
  cases ty <;> rfl

theorem FuncDecl.render_eq (level : Nat) (f : FuncDecl) :
    f.render level =
      "func " ++
        f.recv.elim "" (fun recv =>
          "(" ++ commaSep (Field.renderEach .param level recv) ++ ") ") ++
        f.name ++ f.sig.render level ++
        f.body.elim "" (fun body => " " ++ braced level (Stmt.renderLines (level + 1) body)) := by
  unfold FuncDecl.render
  cases f.recv <;> cases f.body <;> rfl

/-- The line of a clause ends before its body. -/
theorem Clause.render_matching (level : Nat) (list : List Expr) (body : List Stmt) :
    (Clause.matching list body).render level =
      tabs level ++ ("case " ++ commaSep (Expr.renderEach level list) ++ ":") ++ "\n" ++
        Stmt.renderLines (level + 1) body := by
  simp only [Clause.render, String.append_assoc]
  rfl

theorem Clause.render_otherwise (level : Nat) (body : List Stmt) :
    (Clause.otherwise body).render level =
      tabs level ++ "default:" ++ "\n" ++ Stmt.renderLines (level + 1) body := by
  simp only [Clause.render, String.append_assoc]
  rfl

theorem Expr.moves_of_mem {n level : Nat} {x : Option Expr}
    (h : Moves n (Expr.renderOpt level x) (Expr.renderOpt (n + level) x)) :
    ∀ y ∈ x, Moves n (y.render level) (y.render (n + level)) := by
  intro y hy
  cases Option.mem_def.1 hy
  exact h

theorem ImportSpec.moves {n : Nat} {spec : ImportSpec} (h : OneLines spec.words) :
    Moves n spec.render spec.render := by
  obtain ⟨hname, hpath⟩ := oneLines_append.1 h
  have hpath := Moves.word (n := n) (oneLines_singleton.1 hpath)
  rcases spec with ⟨- | name, path⟩
  · exact hpath
  · exact ((Moves.word (oneLines_singleton.1 hname)).before (by decide)).append hpath

/-! ## Texts at a level -/

mutual

theorem Expr.moves (n level : Nat) (x : Expr) (h : OneLines x.words) :
    Moves n (x.render level) (x.render (n + level)) := by
  match x with
  | .bad node => exact .word (oneLines_singleton.1 h)
  | .ident name => exact .word (oneLines_singleton.1 h)
  | .ellipsis elt => exact (Expr.movesOpt n level elt h).after (by decide)
  | .literal value => exact .word (oneLines_singleton.1 h)
  | .funcLit sig body =>
    obtain ⟨hsig, hbody⟩ := oneLines_append.1 h
    exact (((Signature.moves n level sig hsig).after (by decide)).before (by decide)).append
      ((Stmt.movesLines n (level + 1) body hbody).braced level)
  | .composite ty elts incomplete =>
    obtain ⟨hty, helts⟩ := oneLines_append.1 h
    exact (Expr.movesOpt n level ty hty).append
      (.ite ((MovesLines.linesAt (by decide) (Expr.movesEach n (level + 1) elts helts)
          (level + 1)).braced level)
        (((Moves.commaSep (Expr.movesEach n level elts helts)).after (by decide)).before
          (by decide)))
  | .paren y => exact ((Expr.moves n level y h).after (by decide)).before (by decide)
  | .selector y sel =>
    obtain ⟨hy, hsel⟩ := oneLines_append.1 h
    exact ((Expr.moves n level y hy).before (by decide)).before (oneLines_singleton.1 hsel)
  | .index y arg =>
    obtain ⟨hy, harg⟩ := oneLines_append.1 h
    exact (((Expr.moves n level y hy).before (by decide)).append
      (Expr.moves n level arg harg)).before (by decide)
  | .indexList y args =>
    obtain ⟨hy, hargs⟩ := oneLines_append.1 h
    exact (((Expr.moves n level y hy).before (by decide)).append
      (.commaSep (Expr.movesEach n level args hargs))).before (by decide)
  | .slice y low high max three =>
    obtain ⟨h, hmax⟩ := oneLines_append.1 h
    obtain ⟨h, hhigh⟩ := oneLines_append.1 h
    obtain ⟨hy, hlow⟩ := oneLines_append.1 h
    exact ((((((Expr.moves n level y hy).before (by decide)).append
      (Expr.movesOpt n level low hlow)).before (by decide)).append
      (Expr.movesOpt n level high hhigh)).append
      (.ite ((Expr.movesOpt n level max hmax).after (by decide)) (.empty n))).before
      (by decide)
  | .typeAssert y ty =>
    obtain ⟨hy, hty⟩ := oneLines_append.1 h
    have hhead := (Expr.moves n level y hy).before (by decide : OneLine ".(")
    cases ty with
    | none => exact (hhead.before (by decide : OneLine "type")).before (by decide)
    | some ty => exact (hhead.append (Expr.moves n level ty hty)).before (by decide)
  | .call fn args spread =>
    obtain ⟨hfn, hargs⟩ := oneLines_append.1 h
    exact ((((Expr.moves n level fn hfn).before (by decide)).append
      (.commaSep (Expr.movesEach n level args hargs))).append
      (.ite (.word (by decide)) (.empty n))).before (by decide)
  | .star y => exact (Expr.moves n level y h).after (by decide)
  | .unary op y => exact (Moves.token n op).append (Expr.moves n level y h)
  | .binary op y z =>
    obtain ⟨hy, hz⟩ := oneLines_append.1 h
    exact ((((Expr.moves n level y hy).before (by decide)).append (.token n op)).before
      (by decide)).append (Expr.moves n level z hz)
  | .keyValue key value =>
    obtain ⟨hkey, hvalue⟩ := oneLines_append.1 h
    exact ((Expr.moves n level key hkey).before (by decide)).append
      (Expr.moves n level value hvalue)
  | .arrayType len elt =>
    obtain ⟨hlen, helt⟩ := oneLines_append.1 h
    exact (((Expr.movesOpt n level len hlen).after (by decide)).before (by decide)).append
      (Expr.moves n level elt helt)
  | .structType fields incomplete =>
    exact .ite (.word (by decide))
      (((MovesLines.linesAt (by decide) (Field.movesEach .member n (level + 1) fields h)
        (level + 1)).braced level).after (by decide))
  | .funcType sig => exact (Signature.moves n level sig h).after (by decide)
  | .interfaceType methods incomplete =>
    exact .ite (.word (by decide))
      (((MovesLines.linesAt (by decide) (Field.movesEach .element n (level + 1) methods h)
        (level + 1)).braced level).after (by decide))
  | .mapType key value =>
    obtain ⟨hkey, hvalue⟩ := oneLines_append.1 h
    exact (((Expr.moves n level key hkey).after (by decide)).before (by decide)).append
      (Expr.moves n level value hvalue)
  | .chanType dir value =>
    exact (Expr.moves n level value h).after (by cases dir <;> decide)

theorem Expr.movesOpt (n level : Nat) (x : Option Expr) (h : OneLines (Expr.wordsOpt x)) :
    Moves n (Expr.renderOpt level x) (Expr.renderOpt (n + level) x) := by
  match x with
  | none => exact .empty n
  | some x => exact Expr.moves n level x h

theorem Expr.movesEach (n level : Nat) (xs : List Expr) (h : OneLines (Expr.wordsAll xs)) :
    List.Forall₂ (Moves n) (Expr.renderEach level xs) (Expr.renderEach (n + level) xs) := by
  match xs with
  | [] => exact .nil
  | x :: xs =>
    obtain ⟨hx, hxs⟩ := oneLines_append.1 h
    exact .cons (Expr.moves n level x hx) (Expr.movesEach n level xs hxs)

theorem Field.moves (place : Field.Place) (n level : Nat) (f : Field) (h : OneLines f.words) :
    Moves n (f.render place level) (f.render place (n + level)) := by
  match f with
  | ⟨names, ty, tag⟩ =>
    obtain ⟨h, htag⟩ := oneLines_append.1 h
    obtain ⟨hnames, hty⟩ := oneLines_append.1 h
    have htext := Expr.moves n level ty hty
    cases place with
    | param => exact (moves_leadingNames hnames).append htext
    | member =>
      have hmember := (moves_leadingNames hnames).append htext
      cases tag with
      | none => exact hmember.append (.empty n)
      | some tag =>
        exact hmember.append ((Moves.word (oneLines_singleton.1 htag)).after (by decide))
    | element =>
      cases names with
      | nil => exact htext
      | cons name names =>
        cases ty with
        | funcType sig => exact (Signature.moves n level sig hty).after (oneLines_cons.1 hnames).1
        | _ => exact htext

theorem Field.movesEach (place : Field.Place) (n level : Nat) (fields : List Field)
    (h : OneLines (Field.wordsAll fields)) :
    List.Forall₂ (Moves n) (Field.renderEach place level fields)
      (Field.renderEach place (n + level) fields) := by
  match fields with
  | [] => exact .nil
  | f :: fs =>
    obtain ⟨hf, hfs⟩ := oneLines_append.1 h
    exact .cons (Field.moves place n level f hf) (Field.movesEach place n level fs hfs)

theorem Signature.moves (n level : Nat) (sig : Signature) (h : OneLines sig.words) :
    Moves n (sig.render level) (sig.render (n + level)) := by
  match sig with
  | ⟨typeParams, params, results⟩ =>
    obtain ⟨h, hresults⟩ := oneLines_append.1 h
    obtain ⟨htypes, hparams⟩ := oneLines_append.1 h
    have hhead := (((Signature.movesTypeParams n level typeParams htypes).before
      (by decide : OneLine "(")).append
      (.commaSep (Field.movesEach .param n level params hparams))).before (by decide : OneLine ")")
    rcases results with - | results
    · exact hhead.append (.empty n)
    · have hlist := ((Moves.commaSep (Field.movesEach .param n level results hresults)).after
        (by decide : OneLine " (")).before (by decide : OneLine ")")
      rcases results with - | ⟨⟨- | ⟨name, names⟩, ty, tag⟩, - | ⟨f, fs⟩⟩
      · exact hhead.append (.empty n)
      · -- A single result without a name.
        obtain ⟨hfield, -⟩ := oneLines_append.1 hresults
        have hty := (oneLines_append.1 (oneLines_append.1 hfield).1).2
        exact hhead.append ((Expr.moves n level ty hty).after (by decide))
      · exact hhead.append hlist
      · exact hhead.append hlist
      · exact hhead.append hlist

theorem Signature.movesTypeParams (n level : Nat) (fields : Option (List Field))
    (h : OneLines (Field.wordsOpt fields)) :
    Moves n (Signature.renderTypeParams level fields)
      (Signature.renderTypeParams (n + level) fields) := by
  match fields with
  | none => exact .empty n
  | some fields =>
    exact ((Moves.commaSep (Field.movesEach .param n level fields h)).after (by decide)).before
      (by decide)

theorem Stmt.moves (n level : Nat) (s : Stmt) (h : OneLines s.words) :
    Moves n (s.render level) (s.render (n + level)) := by
  match s with
  | .bad node => exact .word (oneLines_singleton.1 h)
  | .decl group => exact DeclGroup.moves n level group h
  | .empty => exact .empty n
  | .labeled label t =>
    obtain ⟨hlabel, ht⟩ := oneLines_cons.1 h
    exact (Moves.word hlabel).newLine (by decide : OneLine ":") (Stmt.moves n level t ht) level
  | .expr x => exact Expr.moves n level x h
  | .send chan value =>
    obtain ⟨hchan, hvalue⟩ := oneLines_append.1 h
    exact ((Expr.moves n level chan hchan).before (by decide)).append
      (Expr.moves n level value hvalue)
  | .incDec x tok => exact (Expr.moves n level x h).append (.token n tok)
  | .assign lhs tok rhs =>
    obtain ⟨hlhs, hrhs⟩ := oneLines_append.1 h
    exact ((((Moves.commaSep (Expr.movesEach n level lhs hlhs)).before (by decide)).append
      (.token n tok)).before (by decide)).append (.commaSep (Expr.movesEach n level rhs hrhs))
  | .goCall x => exact (Expr.moves n level x h).after (by decide)
  | .deferCall x => exact (Expr.moves n level x h).after (by decide)
  | .ret results =>
    exact Moves.after (.ite (.empty n)
      ((Moves.commaSep (Expr.movesEach n level results h)).after (by decide))) (by decide)
  | .branch tok label =>
    rw [Stmt.render_branch, Stmt.render_branch]
    refine (Moves.token n tok).append (.optional fun label hlabel => ?_)
    exact (Moves.word (h label (Option.mem_toList.2 hlabel))).after (by decide)
  | .block list => exact (Stmt.movesLines n (level + 1) list h).braced level
  | .ifElse init cond body orElse =>
    obtain ⟨h, helse⟩ := oneLines_append.1 h
    obtain ⟨h, hbody⟩ := oneLines_append.1 h
    obtain ⟨hinit, hcond⟩ := oneLines_append.1 h
    rw [Stmt.render_ifElse, Stmt.render_ifElse]
    exact (((((Moves.optional fun s hs => (Stmt.movesOpt n level init hinit s hs).before
      (by decide)).after (by decide)).append (Expr.moves n level cond hcond)).before
      (by decide)).append ((Stmt.movesLines n (level + 1) body hbody).braced level)).append
      (.optional fun s hs => (Stmt.movesOpt n level orElse helse s hs).after (by decide))
  | .switch init tag body =>
    obtain ⟨h, hbody⟩ := oneLines_append.1 h
    obtain ⟨hinit, htag⟩ := oneLines_append.1 h
    rw [Stmt.render_switch, Stmt.render_switch]
    exact ((((Moves.optional fun s hs => ((Stmt.movesOpt n level init hinit s hs).after
      (by decide)).before (by decide)).after (by decide)).append
      (.optional fun x hx => (Expr.moves_of_mem (Expr.movesOpt n level tag htag) x hx).after
        (by decide))).before (by decide)).append
      ((Clause.movesLines n level body hbody).braced level)
  | .typeSwitch init guard body =>
    obtain ⟨h, hbody⟩ := oneLines_append.1 h
    obtain ⟨hinit, hguard⟩ := oneLines_append.1 h
    rw [Stmt.render_typeSwitch, Stmt.render_typeSwitch]
    exact (((((Moves.optional fun s hs => ((Stmt.movesOpt n level init hinit s hs).after
      (by decide)).before (by decide)).after (by decide)).before (by decide)).append
      (Stmt.moves n level guard hguard)).before (by decide)).append
      ((Clause.movesLines n level body hbody).braced level)
  | .loop init cond post body =>
    obtain ⟨h, hbody⟩ := oneLines_append.1 h
    obtain ⟨h, hpost⟩ := oneLines_append.1 h
    obtain ⟨hinit, hcond⟩ := oneLines_append.1 h
    have hcond := Expr.movesOpt n level cond hcond
    rw [Stmt.render_loop, Stmt.render_loop]
    refine ((Moves.after (.ite ?_ ?_) (by decide)).before (by decide)).append
      ((Stmt.movesLines n (level + 1) body hbody).braced level)
    · exact (((((Moves.optional (Stmt.movesOpt n level init hinit)).after (by decide)).before
        (by decide)).append hcond).before (by decide)).append
        (.optional fun s hs => (Stmt.movesOpt n level post hpost s hs).after (by decide))
    · exact .optional fun x hx => (Expr.moves_of_mem hcond x hx).after (by decide)
  | .range key value tok x body =>
    obtain ⟨h, hbody⟩ := oneLines_append.1 h
    obtain ⟨h, hx⟩ := oneLines_append.1 h
    obtain ⟨hkey, hvalue⟩ := oneLines_append.1 h
    have hkey := Expr.moves_of_mem (Expr.movesOpt n level key hkey)
    have hvalue := Expr.moves_of_mem (Expr.movesOpt n level value hvalue)
    rw [Stmt.render_range, Stmt.render_range]
    refine ((((Moves.after (.optional fun y hy => ?_) (by decide)).before (by decide)).append
      (Expr.moves n level x hx)).before (by decide)).append
      ((Stmt.movesLines n (level + 1) body hbody).braced level)
    exact ((((hkey y hy).append (.optional fun z hz => (hvalue z hz).after (by decide))).before
      (by decide)).append (.token n _)).before (by decide)

theorem Stmt.movesOpt (n level : Nat) (s : Option Stmt) (h : OneLines (Stmt.wordsOpt s)) :
    ∀ t ∈ s, Moves n (t.render level) (t.render (n + level)) := by
  match s with
  | none => exact fun t ht => absurd ht (Option.not_mem_none t)
  | some s =>
    intro t ht
    cases Option.mem_some.1 ht
    exact Stmt.moves n level s h

/-- Empty statements leave no line at either level. -/
theorem Stmt.movesLines (n level : Nat) (list : List Stmt) (h : OneLines (Stmt.wordsAll list)) :
    MovesLines n (Stmt.renderLines level list) (Stmt.renderLines (n + level) list) := by
  match list with
  | [] => exact .nil n
  | s :: ss =>
    obtain ⟨hs, hss⟩ := oneLines_append.1 h
    refine MovesLines.append ?_ (Stmt.movesLines n level ss hss)
    split
    · exact .nil n
    · exact .line (Stmt.moves n level s hs) level

theorem Clause.movesLine (n level : Nat) (c : Clause) (h : OneLines c.words) :
    MovesLines n (c.render level) (c.render (n + level)) := by
  match c with
  | .matching list body =>
    obtain ⟨hlist, hbody⟩ := oneLines_append.1 h
    rw [Clause.render_matching, Clause.render_matching]
    exact (MovesLines.line (((Moves.commaSep (Expr.movesEach n level list hlist)).after
      (by decide)).before (by decide)) level).append (Stmt.movesLines n (level + 1) body hbody)
  | .otherwise body =>
    rw [Clause.render_otherwise, Clause.render_otherwise]
    exact (MovesLines.line (.word (by decide)) level).append (Stmt.movesLines n (level + 1) body h)

theorem Clause.movesLines (n level : Nat) (list : List Clause)
    (h : OneLines (Clause.wordsAll list)) :
    MovesLines n (Clause.renderAll level list) (Clause.renderAll (n + level) list) := by
  match list with
  | [] => exact .nil n
  | c :: cs =>
    obtain ⟨hc, hcs⟩ := oneLines_append.1 h
    exact (Clause.movesLine n level c hc).append (Clause.movesLines n level cs hcs)

theorem ValueSpec.moves (n level : Nat) (spec : ValueSpec) (h : OneLines spec.words) :
    Moves n (spec.render level) (spec.render (n + level)) := by
  match spec with
  | ⟨names, ty, values⟩ =>
    obtain ⟨h, hvalues⟩ := oneLines_append.1 h
    obtain ⟨hnames, hty⟩ := oneLines_append.1 h
    have hty := Expr.moves_of_mem (Expr.movesOpt n level ty hty)
    rw [ValueSpec.render_mk, ValueSpec.render_mk]
    exact ((moves_names hnames).append (.optional fun x hx => (hty x hx).after (by decide))).append
      (.ite (.empty n) ((Moves.commaSep (Expr.movesEach n level values hvalues)).after (by decide)))

theorem TypeSpec.moves (n level : Nat) (spec : TypeSpec) (h : OneLines spec.words) :
    Moves n (spec.render level) (spec.render (n + level)) := by
  match spec with
  | ⟨name, typeParams, isAlias, ty⟩ =>
    obtain ⟨h, hty⟩ := oneLines_append.1 h
    obtain ⟨hname, htypes⟩ := oneLines_cons.1 h
    exact ((((Signature.movesTypeParams n level typeParams htypes).after hname).append
      (.ite (.word (by decide)) (.empty n))).before (by decide)).append (Expr.moves n level ty hty)

theorem Spec.moves (n level : Nat) (spec : Spec) (h : OneLines spec.words) :
    Moves n (spec.render level) (spec.render (n + level)) := by
  match spec with
  | .imported spec => exact ImportSpec.moves h
  | .value spec => exact ValueSpec.moves n level spec h
  | .type spec => exact TypeSpec.moves n level spec h

theorem Spec.movesEach (n level : Nat) (specs : List Spec) (h : OneLines (Spec.wordsAll specs)) :
    List.Forall₂ (Moves n) (Spec.renderEach level specs) (Spec.renderEach (n + level) specs) := by
  match specs with
  | [] => exact .nil
  | s :: ss =>
    obtain ⟨hs, hss⟩ := oneLines_append.1 h
    exact .cons (Spec.moves n level s hs) (Spec.movesEach n level ss hss)

theorem DeclGroup.moves (n level : Nat) (g : DeclGroup) (h : OneLines g.words) :
    Moves n (g.render level) (g.render (n + level)) := by
  match g with
  | ⟨tok, specs, grouped⟩ =>
    have hlines := (MovesLines.linesAt (by decide : OneLine "")
      (Spec.movesEach n (level + 1) specs h) (level + 1)).enclosed (by decide : OneLine " (")
      (by decide : OneLine ")") level
    rcases specs with - | ⟨s, - | ⟨t, ss⟩⟩
    · cases grouped <;> exact (Moves.token n tok).before (by decide : OneLine " ()")
    · cases grouped with
      | false =>
        obtain ⟨hs, -⟩ := oneLines_append.1 h
        exact (Moves.token n tok).append ((Spec.moves n level s hs).after (by decide))
      | true => exact (Moves.token n tok).append hlines
    · cases grouped <;> exact (Moves.token n tok).append hlines

end

theorem FuncDecl.moves (n level : Nat) {f : FuncDecl} (h : OneLines f.words) :
    Moves n (f.render level) (f.render (n + level)) := by
  obtain ⟨h, hbody⟩ := oneLines_append.1 h
  obtain ⟨hrecv, h⟩ := oneLines_append.1 h
  obtain ⟨hname, hsig⟩ := oneLines_cons.1 h
  rw [FuncDecl.render_eq, FuncDecl.render_eq]
  refine ((((Moves.after (.optional fun recv hmem => ?_) (by decide)).before hname).append
    (f.sig.moves n level hsig)).append (.optional fun body hmem => ?_))
  · rw [Option.mem_def.1 hmem] at hrecv
    exact ((Moves.commaSep (Field.movesEach .param n level recv hrecv)).after (by decide)).before
      (by decide)
  · rw [Option.mem_def.1 hmem] at hbody
    exact ((Stmt.movesLines n (level + 1) body hbody).braced level).after (by decide)

theorem Decl.moves (n level : Nat) {d : Decl} (h : OneLines d.words) :
    Moves n (d.render level) (d.render (n + level)) := by
  cases d with
  | bad node => exact .word (oneLines_singleton.1 h)
  | group g => exact g.moves n level h
  | func f => exact FuncDecl.moves n level h

end GoWeave

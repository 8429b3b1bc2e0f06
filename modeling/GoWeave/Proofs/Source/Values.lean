import GoWeave.Declaration
import GoWeave.Source.Declarations
import Mathlib.Data.List.Basic

/-!
# The names of value specs

The names of a variable spec are the words that are read. In a constant spec the commas between the
words are names too, so it has more names than words as soon as there are two. Where a variable spec
has a value for each name, each name is declared with its own value. Where a constant spec has one
for each word, they are not told apart: each constant is declared with all of them, and differs from
another one as soon as any value does. The comma is then a key of the spec, by which it meets the
constant specs of other units.
-/
namespace GoWeave

namespace Source

/-- A comma is no word. -/
theorem ne_comma_of_word? {cs rest : List Char} {name : String} (h : word? cs = some (name, rest)) :
    name ≠ "," := by
  rintro rfl
  cases cs with
  | nil => cases h
  | cons c cs =>
    rw [word?] at h
    split at h
    · next hstart =>
      have hname := congrArg String.toList (Prod.mk.inj (Option.some.inj h)).1
      rw [String.toList_ofList] at hname
      obtain rfl : c = ',' := (List.cons.inj hname).1
      exact absurd hstart (by decide)
    · cases h

namespace Reader

variable {α β : Type} {P : α → Prop} {Q : β → Prop} {read : Reader α}

/-- Whatever a reader gives has a property. -/
def Gives (P : α → Prop) (read : Reader α) : Prop :=
  ∀ cs x rest, read cs = some (x, rest) → P x

theorem gives_any (read : Reader α) : Gives (fun _ => True) read :=
  fun _ _ _ _ => trivial

namespace Gives

theorem pure {x : α} (h : P x) : Gives P (pure x : Reader α) := by
  intro cs y rest hread
  obtain ⟨rfl, -⟩ := Prod.mk.inj (Option.some.inj hread)
  exact h

theorem bind {next : α → Reader β} (h : Gives P read) (hnext : ∀ x, P x → Gives Q (next x)) :
    Gives Q (read >>= next) := by
  intro cs y rest hread
  obtain ⟨⟨x, middle⟩, hx, hy⟩ := Option.bind_eq_some_iff.1 hread
  exact hnext x (h cs x middle hx) middle y rest hy

theorem orElse {other : Reader α} (h : Gives P read) (hother : Gives P other) :
    Gives P (read <|> other) := by
  intro cs x rest hread
  have hread : (read cs <|> other cs) = some (x, rest) := hread
  cases hfirst : read cs with
  | none => exact hother cs x rest (by simpa [hfirst] using hread)
  | some found => exact h cs x rest (by simpa [hfirst] using hread)

theorem manyWithin (h : Gives P read) (bound : Nat) :
    Gives (fun xs => ∀ x ∈ xs, P x) (manyWithin read bound) := by
  have hnone : Gives (fun xs : List α => ∀ x ∈ xs, P x) (Pure.pure []) := .pure (by simp)
  induction bound with
  | zero => exact hnone
  | succ bound ih =>
    refine .orElse (.bind h fun x hx => .bind ih fun xs hxs => .pure ?_) hnone
    exact List.forall_mem_cons.2 ⟨hx, hxs⟩

theorem separated (h : Gives P read) (separator : Reader Unit) :
    Gives (fun xs => xs ≠ [] ∧ ∀ x ∈ xs, P x) (separated separator read) := by
  have hmany : Gives (fun xs => ∀ x ∈ xs, P x) (many (separator *> read)) :=
    fun cs => manyWithin (.bind (gives_any separator) fun _ _ => h) cs.length cs
  refine .bind h fun x hx => .bind hmany fun xs hxs => .pure ⟨List.cons_ne_nil x xs, ?_⟩
  exact List.forall_mem_cons.2 ⟨hx, hxs⟩

end Gives

theorem gives_word : Gives (· ≠ ",") word :=
  .bind (gives_any _) fun _ _ _ _ _ h => ne_comma_of_word? h

end Reader

open Reader

variable {nested : Nested}

/-- Words that are read one after the other. -/
def Words (words : List String) : Prop :=
  words ≠ [] ∧ ∀ w ∈ words, w ≠ ","

/-- Two or more words have a comma between them. -/
theorem Words.comma_mem_intersperse {words : List String} (h : Words words) :
    "," ∈ words.intersperse "," ↔ 2 ≤ words.length := by
  obtain ⟨hne, hwords⟩ := h
  rcases words with _ | ⟨w, _ | ⟨w', ws⟩⟩
  · exact absurd rfl hne
  · simpa using (hwords w List.mem_cons_self).symm
  · simp

theorem Nested.gives_constSpec (nested : Nested) :
    Gives (fun spec => ∃ words ty values, Words words ∧
      spec = .value ⟨words.intersperse ",", ty, values⟩) nested.constSpec := by
  refine .bind (gives_word.separated _) fun words hwords => .bind (gives_any _) fun given _ => ?_
  exact .pure ⟨words, _, _, hwords, rfl⟩

theorem Nested.gives_varSpec (nested : Nested) :
    Gives (fun spec => ∃ words ty values, Words words ∧ spec = .value ⟨words, ty, values⟩)
      nested.varSpec := by
  refine .bind (gives_word.separated _) fun words hwords => .orElse ?_ ?_
  · refine .bind (gives_any _) fun _ _ => .bind (gives_any _) fun values _ => ?_
    exact .pure ⟨words, none, values, hwords, rfl⟩
  · refine .bind (gives_any _) fun ty _ => .bind (gives_any _) fun values _ => ?_
    exact .pure ⟨words, some ty, values.getD [], hwords, rfl⟩

end Source

/-! ## Declared values -/

namespace DeclGroup

variable {g : DeclGroup} {v : ValueSpec}

/-- Values that are not as many as the names are not told apart. -/
theorem exists_declaredValue_of_length_ne (hvalues : v.values ≠ [])
    (hlength : v.values.length ≠ v.names.length) (index i : Nat) (name : String) :
    ∃ iota, g.declaredValue index v i name = .value g.tok ⟨[name], v.ty, v.values⟩ iota := by
  simp [declaredValue, hvalues, hlength]

/-- Values that are as many as the names belong to one name each. -/
theorem exists_declaredValue_of_length_eq (hlength : v.values.length = v.names.length)
    (index : Nat) {i : Nat} {value : Expr} (hvalue : v.values[i]? = some value) (name : String) :
    ∃ iota, g.declaredValue index v i name = .value g.tok ⟨[name], v.ty, [value]⟩ iota := by
  have hvalues : v.values ≠ [] := by
    rintro hnil
    simp [hnil] at hvalue
  simp [declaredValue, hvalues, hlength, hvalue]

end DeclGroup

namespace Source

open Reader

variable {nested : Nested} {cs rest : List Char} {spec : Spec}

/-- A constant spec has the comma as a key exactly if it has two or more words. If it then has a
value for each word, every one of its names is declared with all the values. -/
theorem constSpec_shares_values (h : nested.constSpec cs = some (spec, rest)) :
    ∃ words v, Words words ∧ spec = .value v ∧ v.names = words.intersperse "," ∧
      ("," ∈ spec.keyNames ↔ 2 ≤ words.length) ∧
      (2 ≤ words.length → v.values.length = words.length → ∀ (g : DeclGroup) index i name,
        ∃ iota, g.declaredValue index v i name = .value g.tok ⟨[name], v.ty, v.values⟩ iota) := by
  obtain ⟨words, ty, values, hwords, rfl⟩ := nested.gives_constSpec cs spec rest h
  refine ⟨words, _, hwords, rfl, rfl, ?_, fun htwo hlength g index i name => ?_⟩
  · rw [← hwords.comma_mem_intersperse, Spec.keyNames, List.mem_filter]
    simp [isBlank]
  · apply DeclGroup.exists_declaredValue_of_length_ne
    · intro hnil
      rw [hnil, List.length_nil] at hlength
      omega
    · rw [hlength, List.length_intersperse]
      omega

/-- A variable spec does not have the comma as a key. If it has a value for each word, each of its
names is declared with its own value. -/
theorem varSpec_separates_values (h : nested.varSpec cs = some (spec, rest)) :
    ∃ v, Words v.names ∧ spec = .value v ∧ "," ∉ spec.keyNames ∧
      (v.values.length = v.names.length → ∀ (g : DeclGroup) index i name value,
        v.values[i]? = some value →
        ∃ iota, g.declaredValue index v i name = .value g.tok ⟨[name], v.ty, [value]⟩ iota) := by
  obtain ⟨words, ty, values, hwords, rfl⟩ := nested.gives_varSpec cs spec rest h
  refine ⟨_, hwords, rfl, fun hmem => ?_, fun hlength g index i name value hvalue => ?_⟩
  · exact hwords.2 "," (List.mem_of_mem_filter hmem) rfl
  · exact DeclGroup.exists_declaredValue_of_length_eq hlength index hvalue name

end Source

end GoWeave

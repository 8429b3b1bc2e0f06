import GoWeave.Settings
import Mathlib.Data.List.Basic

/-!
# Settings are read back as they were written

The text of a JSON value is read back as the value, for values that hold no numbers and no half of a
surrogate pair. A string comes back because every escape names the character it was written for, a
list because the commas and brackets between its items are no part of an item, and the fuel suffices
because it is counted against the length of the text.

What a record's reader makes of a written record is then a matter of its members, so settings come
back from their text, whatever their strings hold and whichever of their fields are absent.
-/
namespace GoWeave

namespace Json

/-! ## Strings -/

theorem hexValue?_hexDigit {n : Nat} (hn : n < 16) : hexValue? (hexDigit n) = some n := by
  have h : ∀ m : Fin 16, hexValue? (hexDigit m) = some m.val := by decide
  exact h ⟨n, hn⟩

/-- The piece that a written character is read as. -/
def Piece.ofChar (c : Char) : Piece :=
  if c.toNat < 32 ∧ c ∉ ['\x08', '\x0c', '\n', '\r', '\t'] then .code c.toNat else .char c

theorem code?_hexDigit {n : Nat} (hn : n < 32) :
    code? '0' '0' (hexDigit (n / 16)) (hexDigit (n % 16)) = some n := by
  have hzero : hexValue? '0' = some 0 := by decide
  have hhigh : hexValue? (hexDigit (n / 16)) = some (n / 16) := hexValue?_hexDigit (by omega)
  have hlow : hexValue? (hexDigit (n % 16)) = some (n % 16) := hexValue?_hexDigit (by omega)
  simp only [code?, hzero, hhigh, hlow, Option.bind_eq_bind, Option.bind_some, Option.pure_def,
    Option.some.injEq]
  omega

theorem pieces?_char {c : Char} (hquote : c ≠ '"') (hslash : c ≠ '\\') (hc : ¬c.toNat < 32)
    (cs : List Char) :
    pieces? (c :: cs) = (pieces? cs).map fun p => (.char c :: p.1, p.2) := by
  have hplain : (decide (c.toNat < 32) || c == '\\') = false := by simp [hc, hslash]
  rw [pieces?.eq_def]
  split
  · next h => cases h
  · next h => exact absurd (List.cons.inj h).1 hquote
  · next h => exact absurd (List.cons.inj h).1 hslash
  · next h => exact absurd (List.cons.inj h).1 hslash
  · next h =>
    obtain ⟨rfl, rfl⟩ := List.cons.inj h
    rw [hplain]
    cases pieces? cs <;> rfl

theorem pieces?_short {letter c : Char} (h : unescape? letter = some c) (cs : List Char) :
    pieces? ('\\' :: letter :: cs) = (pieces? cs).map fun p => (.char c :: p.1, p.2) := by
  have hu : letter ≠ 'u' := by
    rintro rfl
    cases h
  rw [pieces?.eq_def]
  split
  · next h => cases h
  · next h => exact absurd (List.cons.inj h).1 (by decide)
  · next h => exact absurd (List.cons.inj (List.cons.inj h).2).1 hu
  · next heq =>
    obtain ⟨rfl, rfl⟩ := List.cons.inj (List.cons.inj heq).2
    rw [h]
    cases pieces? cs <;> rfl
  · next hne h =>
    obtain ⟨rfl, rfl⟩ := List.cons.inj h
    exact absurd rfl (hne _ _ rfl)

theorem pieces?_numeric {n : Nat} (hn : n < 32) (cs : List Char) :
    pieces? ('\\' :: 'u' :: '0' :: '0' :: hexDigit (n / 16) :: hexDigit (n % 16) :: cs) =
      (pieces? cs).map fun p => (.code n :: p.1, p.2) := by
  rw [pieces?, code?_hexDigit hn]
  cases pieces? cs <;> rfl

/-- A written character is read as its piece. -/
theorem pieces?_escape (c : Char) (cs : List Char) :
    pieces? (escape c ++ cs) = (pieces? cs).map fun p => (.ofChar c :: p.1, p.2) := by
  unfold escape
  split
  case h_1 => exact pieces?_short rfl cs
  case h_2 => exact pieces?_short rfl cs
  case h_3 => exact pieces?_short rfl cs
  case h_4 => exact pieces?_short rfl cs
  case h_5 => exact pieces?_short rfl cs
  case h_6 => exact pieces?_short rfl cs
  case h_7 => exact pieces?_short rfl cs
  case h_8 hquote hslash hb hf hn hr ht =>
    have hshort : c ∉ ['\x08', '\x0c', '\n', '\r', '\t'] := by
      simp only [List.mem_cons, List.not_mem_nil, or_false, not_or]
      exact ⟨hb, hf, hn, hr, ht⟩
    split
    · next hc =>
      have hpiece : Piece.ofChar c = .code c.toNat := if_pos ⟨hc, hshort⟩
      rw [hpiece]
      exact pieces?_numeric hc cs
    · next hc =>
      have hpiece : Piece.ofChar c = .char c := if_neg fun h => hc h.1
      rw [hpiece]
      exact pieces?_char hquote hslash hc cs

theorem pieces?_flatMap_escape (s rest : List Char) :
    pieces? (s.flatMap escape ++ '"' :: rest) = some (s.map .ofChar, rest) := by
  induction s with
  | nil => rw [List.flatMap_nil, List.nil_append, pieces?, List.map_nil]
  | cons c s ih => rw [List.flatMap_cons, List.append_assoc, pieces?_escape, ih, List.map_cons]; rfl

/-- A code below the surrogates stands for its own character, whatever comes after it. -/
theorem textOf?_code {n : Nat} (hn : n < 0xD800) (ps : List Piece) :
    textOf? (.code n :: ps) = (textOf? ps).map (Char.ofNat n :: ·) := by
  have hlead : isLead n = false := by
    simp only [isLead, Bool.and_eq_false_iff, decide_eq_false_iff_not]
    omega
  have htrail : isTrail n = false := by
    simp only [isTrail, Bool.and_eq_false_iff, decide_eq_false_iff_not]
    omega
  cases ps with
  | nil => simp [textOf?, hlead, htrail]
  | cons p ps =>
    cases p with
    | char c => simp [textOf?, hlead, htrail]
    | code m => simp [textOf?, hlead, htrail]

theorem textOf?_map_ofChar (s : List Char) : textOf? (s.map .ofChar) = some s := by
  induction s with
  | nil => rfl
  | cons c s ih =>
    rw [List.map_cons, Piece.ofChar]
    split
    · next h =>
      rw [textOf?_code (by omega), ih, Char.ofNat_toNat]
      rfl
    · rw [textOf?, ih]
      rfl

/-- A written string is read back, up to its closing quote. -/
theorem string?_escape (s : String) (rest : List Char) :
    string? (s.toList.flatMap escape ++ '"' :: rest) = some (some s, rest) := by
  rw [string?, pieces?_flatMap_escape]
  simp [textOf?_map_ofChar]

/-! ## Blanks -/

theorem skipBlanks_blank {c : Char} (hc : isBlankChar c = true) (cs : List Char) :
    skipBlanks (c :: cs) = skipBlanks cs :=
  List.dropWhile_cons_of_pos hc

theorem skipBlanks_of_not_blank {c : Char} (hc : isBlankChar c = false) (cs : List Char) :
    skipBlanks (c :: cs) = c :: cs :=
  List.dropWhile_cons_of_neg (by simp [hc])

theorem skipBlanks_blanks (level : Nat) (cs : List Char) :
    skipBlanks ((blanks level).toList ++ cs) = skipBlanks cs := by
  rw [blanks, String.toList_ofList]
  induction 2 * level with
  | zero => rfl
  | succ n ih => exact ih

/-- The text of a line's end and of the blanks in front of the next line. -/
theorem skipBlanks_newline (level : Nat) (cs : List Char) :
    skipBlanks ('\n' :: ((blanks level).toList ++ cs)) = skipBlanks cs :=
  (skipBlanks_blank rfl _).trans (skipBlanks_blanks level cs)

theorem value?_skipBlanks (fuel : Nat) {cs cs' : List Char} (h : skipBlanks cs = skipBlanks cs') :
    value? fuel cs = value? fuel cs' := by
  cases fuel with
  | zero => rfl
  | succ fuel => rw [value?, value?, h]

theorem elementsFrom?_skipBlanks (fuel : Nat) {cs cs' : List Char}
    (h : skipBlanks cs = skipBlanks cs') : elementsFrom? fuel cs = elementsFrom? fuel cs' := by
  cases fuel with
  | zero => rfl
  | succ fuel => rw [elementsFrom?, elementsFrom?, value?_skipBlanks fuel h]

theorem membersFrom?_skipBlanks (fuel : Nat) {cs cs' : List Char}
    (h : skipBlanks cs = skipBlanks cs') : membersFrom? fuel cs = membersFrom? fuel cs' := by
  cases fuel with
  | zero => rfl
  | succ fuel => rw [membersFrom?, membersFrom?, h]

/-! ## Lists of items -/

/-- What follows the first item of a list in brackets, up to the closing bracket and the text after
it. -/
def lines (level : Nat) (after : List Char) : List String → List Char
  | [] => '\n' :: ((blanks level).toList ++ after)
  | item :: items =>
    ',' :: '\n' :: ((blanks (level + 1)).toList ++ (item.toList ++ lines level after items))

theorem toList_intercalate_lines (level : Nat) (after : List Char) (item : String)
    (items : List String) :
    (String.intercalate ",\n" ((item :: items).map (blanks (level + 1) ++ ·))).toList ++
        ('\n' :: ((blanks level).toList ++ after)) =
      (blanks (level + 1)).toList ++ (item.toList ++ lines level after items) := by
  induction items generalizing item with
  | nil => simp [lines]
  | cons next items ih =>
    have ih := ih next
    rw [String.toList_intercalate] at ih ⊢
    simp only [List.map_cons, List.intercalate_cons_cons, List.append_assoc] at ih ⊢
    rw [ih, lines, String.toList_append, List.append_assoc]
    rfl

theorem toList_bracketed (opening closing : String) (level : Nat) (rest : List Char)
    (item : String) (items : List String) :
    (bracketed opening closing level (item :: items)).toList ++ rest =
      opening.toList ++ '\n' :: ((blanks (level + 1)).toList ++
        (item.toList ++ lines level (closing.toList ++ rest) items)) := by
  rw [← toList_intercalate_lines, bracketed, if_neg (by simp)]
  simp [String.toList_append]

/-- The items of a list in brackets, from the first on. -/
def listed (level : Nat) (after : List Char) : List String → List Char
  | [] => after
  | item :: items => item.toList ++ lines level after items

theorem length_lines (level : Nat) (after : List Char) (items : List String) :
    (lines level after items).length = (lines level [] items).length + after.length := by
  induction items with
  | nil =>
    simp only [lines, List.length_cons, List.length_append, List.length_nil]
    omega
  | cons item items ih =>
    simp only [lines, List.length_cons, List.length_append, ih]
    omega

end Json

/-! ## Values -/

mutual

/-- Whether a value holds no numbers and every string in it has a text. -/
def Json.Textual : Json → Prop
  | .null => True
  | .bool _ => True
  | .number _ => False
  | .string text => text.isSome = true
  | .array elements => Json.TextualAll elements
  | .object members => Member.TextualAll members

def Json.TextualAll : List Json → Prop
  | [] => True
  | x :: xs => x.Textual ∧ Json.TextualAll xs

def Member.Textual : Member → Prop
  | ⟨key, value⟩ => key.isSome = true ∧ value.Textual

def Member.TextualAll : List Member → Prop
  | [] => True
  | m :: ms => m.Textual ∧ Member.TextualAll ms

end

namespace Json

theorem toList_quote (s : String) (rest : List Char) :
    (quote s).toList ++ rest = '"' :: (s.toList.flatMap escape ++ '"' :: rest) := by
  simp [quote, String.toList_append]

/-- A list in brackets starts with its opening bracket. -/
theorem exists_toList_bracketed (opening : Char) (closing : String) (level : Nat)
    (items : List String) :
    ∃ cs, (bracketed (.singleton opening) closing level items).toList = opening :: cs := by
  unfold bracketed
  split
  · exact ⟨closing.toList, by simp [String.toList_append]⟩
  · simp only [String.toList_append, String.toList_singleton, List.append_assoc,
      List.cons_append, List.nil_append]
    exact ⟨_, rfl⟩

/-- A written value starts with a character that is no blank and closes no bracket. -/
theorem exists_head_render {j : Json} (hj : j.Textual) (level : Nat) :
    ∃ c cs, (j.render level).toList = c :: cs ∧ isBlankChar c = false ∧ c ≠ ']' := by
  cases j with
  | null => exact ⟨'n', "ull".toList, by rw [render]; rfl, rfl, by decide⟩
  | bool b =>
    cases b with
    | true => exact ⟨'t', "rue".toList, by rw [render]; rfl, rfl, by decide⟩
    | false => exact ⟨'f', "alse".toList, by rw [render]; rfl, rfl, by decide⟩
  | number text => exact hj.elim
  | string text =>
    have h := toList_quote (text.getD "") []
    rw [List.append_nil] at h
    exact ⟨'"', _, by rw [render, h], rfl, by decide⟩
  | array elements =>
    obtain ⟨cs, hcs⟩ := exists_toList_bracketed '[' "]" level (renderAll (level + 1) elements)
    exact ⟨'[', cs, by rw [render]; exact hcs, rfl, by decide⟩
  | object members =>
    obtain ⟨cs, hcs⟩ := exists_toList_bracketed '\x7b' "\x7d" level
      (Member.renderAll (level + 1) members)
    exact ⟨'\x7b', cs, by rw [render]; exact hcs, rfl, by decide⟩

theorem render_length_pos {j : Json} (hj : j.Textual) (level : Nat) :
    0 < (j.render level).length := by
  obtain ⟨c, cs, h, -⟩ := exists_head_render hj level
  rw [← String.length_toList, h]
  exact Nat.succ_pos _

theorem skipBlanks_lines_nil (level : Nat) {closing : Char} (hclosing : isBlankChar closing = false)
    (rest : List Char) :
    skipBlanks (lines level (closing :: rest) []) = closing :: rest := by
  rw [lines, skipBlanks_newline, skipBlanks_of_not_blank hclosing]

theorem skipBlanks_lines_cons (level : Nat) (after : List Char) {items : List String}
    (h : items ≠ []) :
    skipBlanks (lines level after items) =
      ',' :: '\n' :: ((blanks (level + 1)).toList ++ listed level after items) := by
  obtain ⟨item, items, rfl⟩ := List.exists_cons_of_ne_nil h
  rw [lines, skipBlanks_of_not_blank rfl, listed]

theorem toList_bracketed_nil (opening closing : String) (level : Nat) :
    (bracketed opening closing level []).toList = opening.toList ++ closing.toList := by
  simp [bracketed]

theorem toList_bracketed_listed (opening closing : String) (level : Nat) (rest : List Char)
    {items : List String} (h : items ≠ []) :
    (bracketed opening closing level items).toList ++ rest =
      opening.toList ++ '\n' :: ((blanks (level + 1)).toList ++
        listed level (closing.toList ++ rest) items) := by
  obtain ⟨item, items, rfl⟩ := List.exists_cons_of_ne_nil h
  rw [toList_bracketed, listed]

theorem length_listed (level : Nat) (after : List Char) (items : List String) :
    (listed level after items).length = (listed level [] items).length + after.length := by
  cases items with
  | nil => simp [listed]
  | cons item items =>
    rw [listed, listed, List.length_append, List.length_append, length_lines]
    omega

theorem length_bracketed (opening closing : String) (level : Nat) {items : List String}
    (h : items ≠ []) :
    (listed level [] items).length + opening.length + 1 ≤
      (bracketed opening closing level items).length := by
  have hlength := congrArg List.length (toList_bracketed_listed opening closing level [] h)
  simp only [List.append_nil, List.length_append, List.length_cons, String.length_toList] at hlength
  have hlisted := length_listed level closing.toList items
  omega

/-- An item and its separator come on top of the items after it. -/
theorem length_listed_cons (level : Nat) (item : String) (items : List String) :
    item.length + 1 + (listed level [] items).length ≤
      (listed level [] (item :: items)).length := by
  rw [listed, List.length_append, String.length_toList]
  cases items with
  | nil => simp [listed, lines]
  | cons next items =>
    rw [listed, lines]
    simp only [List.length_append, List.length_cons]
    omega

/-! ## Steps of the reader -/

theorem value?_string (fuel : Nat) (cs : List Char) :
    value? (fuel + 1) ('"' :: cs) = (string? cs).map fun p => (.string p.1, p.2) := by
  rw [value?, skipBlanks_of_not_blank rfl]
  rfl

theorem value?_array (fuel : Nat) {c : Char} (hc : c ≠ ']') {cs cs' : List Char}
    (h : skipBlanks cs = c :: cs') :
    value? (fuel + 1) ('[' :: cs) =
      (elementsFrom? fuel (c :: cs')).map fun p => (.array p.1, p.2) := by
  rw [value?, skipBlanks_of_not_blank rfl]
  simp only [h]
  split
  · next heq => exact absurd (List.cons.inj heq).1 hc
  · rfl

theorem value?_object (fuel : Nat) {c : Char} (hc : c ≠ '\x7d') {cs cs' : List Char}
    (h : skipBlanks cs = c :: cs') :
    value? (fuel + 1) ('\x7b' :: cs) =
      (membersFrom? fuel (c :: cs')).map fun p => (.object p.1, p.2) := by
  rw [value?, skipBlanks_of_not_blank rfl]
  simp only [h]
  split
  · next heq => exact absurd (List.cons.inj heq).1 hc
  · rfl

variable {fuel : Nat} {x : Json} {cs cs' rest rest' : List Char}

theorem elementsFrom?_last (hx : value? fuel cs = some (x, rest))
    (hrest : skipBlanks rest = ']' :: rest') :
    elementsFrom? (fuel + 1) cs = some ([x], rest') := by
  simp [elementsFrom?, hx, hrest]

theorem elementsFrom?_next (hx : value? fuel cs = some (x, rest))
    (hrest : skipBlanks rest = ',' :: rest') :
    elementsFrom? (fuel + 1) cs = (elementsFrom? fuel rest').map fun p => (x :: p.1, p.2) := by
  simp [elementsFrom?, hx, hrest]

variable {key : Option String}

theorem membersFrom?_last (hkey : string? cs = some (key, ':' :: cs'))
    (hx : value? fuel cs' = some (x, rest)) (hrest : skipBlanks rest = '\x7d' :: rest') :
    membersFrom? (fuel + 1) ('"' :: cs) = some ([⟨key, x⟩], rest') := by
  simp [membersFrom?, skipBlanks_of_not_blank, isBlankChar, hkey, hx, hrest]

theorem membersFrom?_next (hkey : string? cs = some (key, ':' :: cs'))
    (hx : value? fuel cs' = some (x, rest)) (hrest : skipBlanks rest = ',' :: rest') :
    membersFrom? (fuel + 1) ('"' :: cs) =
      (membersFrom? fuel rest').map fun p => (⟨key, x⟩ :: p.1, p.2) := by
  simp [membersFrom?, skipBlanks_of_not_blank, isBlankChar, hkey, hx, hrest]

end Json

theorem Json.renderAll_ne_nil (level : Nat) {xs : List Json} (h : xs ≠ []) :
    Json.renderAll level xs ≠ [] := by
  cases xs with
  | nil => exact absurd rfl h
  | cons x xs => simp [Json.renderAll]

theorem Member.renderAll_ne_nil (level : Nat) {ms : List Member} (h : ms ≠ []) :
    Member.renderAll level ms ≠ [] := by
  cases ms with
  | nil => exact absurd rfl h
  | cons m ms => simp [Member.renderAll]

theorem Member.render_eq (m : Member) (level : Nat) :
    m.render level = Json.quote (m.key.getD "") ++ ": " ++ m.value.render level := by
  cases m
  rw [Member.render]

theorem Member.textual_iff (m : Member) :
    m.Textual ↔ m.key.isSome = true ∧ m.value.Textual := by
  cases m
  rw [Member.Textual]

theorem Member.toList_render (m : Member) (level : Nat) (rest : List Char) :
    (m.render level).toList ++ rest =
      '"' :: ((m.key.getD "").toList.flatMap Json.escape ++
        '"' :: ':' :: ' ' :: ((m.value.render level).toList ++ rest)) := by
  rw [m.render_eq, String.toList_append, String.toList_append, List.append_assoc,
    List.append_assoc, Json.toList_quote]
  rfl

theorem Member.length_value_lt (m : Member) (level : Nat) :
    (m.value.render level).length < (m.render level).length := by
  have h := congrArg List.length (m.toList_render level [])
  simp only [List.append_nil, List.length_cons, List.length_append, String.length_toList] at h
  omega

/-- The first of a list of values starts with a character that is no blank and closes no bracket. -/
theorem Json.exists_head_listed {xs : List Json} (h : Json.TextualAll xs) (hxs : xs ≠ [])
    (level : Nat) (after : List Char) :
    ∃ c cs, Json.listed level after (Json.renderAll (level + 1) xs) = c :: cs ∧
      Json.isBlankChar c = false ∧ c ≠ ']' := by
  cases xs with
  | nil => exact absurd rfl hxs
  | cons x xs =>
    rw [Json.TextualAll] at h
    obtain ⟨c, cs, hx, hblank, hc⟩ := Json.exists_head_render h.1 (level + 1)
    rw [Json.renderAll, Json.listed, hx]
    exact ⟨c, _, rfl, hblank, hc⟩

theorem Member.exists_head_listed {ms : List Member} (hms : ms ≠ []) (level : Nat)
    (after : List Char) :
    ∃ cs, Json.listed level after (Member.renderAll (level + 1) ms) = '"' :: cs := by
  cases ms with
  | nil => exact absurd rfl hms
  | cons m ms =>
    rw [Member.renderAll, Json.listed, m.toList_render]
    exact ⟨_, rfl⟩

mutual

/-- The text of a value is read back as the value, with fuel for twice the length of the text. -/
theorem Json.value?_render (j : Json) (hj : j.Textual) (level fuel : Nat)
    (hfuel : 2 * (j.render level).length ≤ fuel) (rest : List Char) :
    Json.value? fuel ((j.render level).toList ++ rest) = some (j, rest) := by
  have hpos := Json.render_length_pos hj level
  obtain ⟨fuel, rfl⟩ : ∃ n, fuel = n + 1 := ⟨fuel - 1, by omega⟩
  cases j with
  | null =>
    rw [Json.render]
    rfl
  | bool b =>
    cases b with
    | true =>
      rw [Json.render]
      rfl
    | false =>
      rw [Json.render]
      rfl
  | number text => exact hj.elim
  | string text =>
    rw [Json.Textual] at hj
    obtain ⟨s, rfl⟩ := Option.isSome_iff_exists.1 hj
    rw [Json.render, Option.getD_some, Json.toList_quote, Json.value?_string, Json.string?_escape]
    rfl
  | array xs =>
    rw [Json.Textual] at hj
    rw [Json.render] at hfuel ⊢
    by_cases hxs : xs = []
    · subst hxs
      rw [Json.renderAll, Json.toList_bracketed_nil]
      rfl
    · have hitems := Json.renderAll_ne_nil (level + 1) hxs
      have hlength := Json.length_bracketed "[" "]" level hitems
      have helements := Json.elementsFrom?_render xs hj hxs level fuel (by omega) rest
      obtain ⟨c, cs, hhead, hblank, hc⟩ := Json.exists_head_listed hj hxs level (']' :: rest)
      have hskip : Json.skipBlanks ('\n' :: ((Json.blanks (level + 1)).toList ++
          Json.listed level (']' :: rest) (Json.renderAll (level + 1) xs))) = c :: cs := by
        rw [Json.skipBlanks_newline, hhead, Json.skipBlanks_of_not_blank hblank]
      rw [hhead] at helements
      rw [Json.toList_bracketed_listed _ _ _ _ hitems]
      refine (Json.value?_array fuel hc hskip).trans ?_
      rw [helements]
      rfl
  | object ms =>
    rw [Json.Textual] at hj
    rw [Json.render] at hfuel ⊢
    by_cases hms : ms = []
    · subst hms
      rw [Member.renderAll, Json.toList_bracketed_nil]
      rfl
    · have hitems := Member.renderAll_ne_nil (level + 1) hms
      have hlength := Json.length_bracketed "\x7b" "\x7d" level hitems
      have hmembers := Member.membersFrom?_render ms hj hms level fuel (by omega) rest
      obtain ⟨cs, hhead⟩ := Member.exists_head_listed hms level ('\x7d' :: rest)
      have hskip : Json.skipBlanks ('\n' :: ((Json.blanks (level + 1)).toList ++
          Json.listed level ('\x7d' :: rest) (Member.renderAll (level + 1) ms))) = '"' :: cs := by
        rw [Json.skipBlanks_newline, hhead, Json.skipBlanks_of_not_blank rfl]
      rw [hhead] at hmembers
      rw [Json.toList_bracketed_listed _ _ _ _ hitems]
      refine (Json.value?_object fuel (by decide) hskip).trans ?_
      rw [hmembers]
      rfl
termination_by structural j

theorem Member.value?_render (m : Member) (hm : m.Textual) (level fuel : Nat)
    (hfuel : 2 * (m.value.render level).length ≤ fuel) (rest : List Char) :
    Json.value? fuel ((m.value.render level).toList ++ rest) = some (m.value, rest) := by
  cases m with
  | mk key value =>
    rw [Member.Textual] at hm
    exact Json.value?_render value hm.2 level fuel hfuel rest
termination_by structural m

theorem Json.elementsFrom?_render (xs : List Json) (h : Json.TextualAll xs) (hxs : xs ≠ [])
    (level fuel : Nat)
    (hfuel : 2 * (Json.listed level [] (Json.renderAll (level + 1) xs)).length ≤ fuel)
    (rest : List Char) :
    Json.elementsFrom? fuel (Json.listed level (']' :: rest) (Json.renderAll (level + 1) xs)) =
      some (xs, rest) := by
  match xs with
  | [] => exact absurd rfl hxs
  | x :: xs =>
    rw [Json.TextualAll] at h
    rw [Json.renderAll] at hfuel ⊢
    have hlength := Json.length_listed_cons level (x.render (level + 1))
      (Json.renderAll (level + 1) xs)
    obtain ⟨fuel, rfl⟩ : ∃ n, fuel = n + 1 := ⟨fuel - 1, by omega⟩
    have hx := Json.value?_render x h.1 (level + 1) fuel (by omega)
      (Json.lines level (']' :: rest) (Json.renderAll (level + 1) xs))
    by_cases hnil : xs = []
    · subst hnil
      rw [Json.renderAll] at hx ⊢
      exact Json.elementsFrom?_last hx (Json.skipBlanks_lines_nil level rfl rest)
    · have hrest := Json.elementsFrom?_render xs h.2 hnil level fuel (by omega) rest
      rw [Json.listed, Json.elementsFrom?_next hx (Json.skipBlanks_lines_cons level _
        (Json.renderAll_ne_nil (level + 1) hnil)),
        Json.elementsFrom?_skipBlanks fuel (Json.skipBlanks_newline _ _), hrest]
      rfl
termination_by structural xs

theorem Member.membersFrom?_render (ms : List Member) (h : Member.TextualAll ms) (hms : ms ≠ [])
    (level fuel : Nat)
    (hfuel : 2 * (Json.listed level [] (Member.renderAll (level + 1) ms)).length ≤ fuel)
    (rest : List Char) :
    Json.membersFrom? fuel
        (Json.listed level ('\x7d' :: rest) (Member.renderAll (level + 1) ms)) =
      some (ms, rest) := by
  match ms with
  | [] => exact absurd rfl hms
  | m :: ms =>
    rw [Member.TextualAll] at h
    rw [Member.renderAll] at hfuel ⊢
    have hlength := Json.length_listed_cons level (m.render (level + 1))
      (Member.renderAll (level + 1) ms)
    have hvalue := m.length_value_lt (level + 1)
    obtain ⟨fuel, rfl⟩ : ∃ n, fuel = n + 1 := ⟨fuel - 1, by omega⟩
    have hx := Member.value?_render m h.1 (level + 1) fuel (by omega)
      (Json.lines level ('\x7d' :: rest) (Member.renderAll (level + 1) ms))
    rw [← Json.value?_skipBlanks fuel (Json.skipBlanks_blank (c := ' ') rfl _)] at hx
    have hkey := Json.string?_escape (m.key.getD "") (':' :: ' ' ::
      ((m.value.render (level + 1)).toList ++
        Json.lines level ('\x7d' :: rest) (Member.renderAll (level + 1) ms)))
    have hm : (⟨some (m.key.getD ""), m.value⟩ : Member) = m := by
      have hsome := (m.textual_iff.1 h.1).1
      cases m with
      | mk key value =>
        obtain ⟨key, rfl⟩ := Option.isSome_iff_exists.1 hsome
        rfl
    rw [Json.listed, m.toList_render]
    by_cases hnil : ms = []
    · subst hnil
      rw [Member.renderAll] at hx hkey ⊢
      rw [Json.membersFrom?_last hkey hx (Json.skipBlanks_lines_nil level rfl rest), hm]
    · have hrest := Member.membersFrom?_render ms h.2 hnil level fuel (by omega) rest
      rw [Json.membersFrom?_next hkey hx (Json.skipBlanks_lines_cons level _
        (Member.renderAll_ne_nil (level + 1) hnil)),
        Json.membersFrom?_skipBlanks fuel (Json.skipBlanks_newline _ _), hrest, hm]
      rfl
termination_by structural ms

end

/-- A value without numbers is read back from its text. -/
theorem Json.parse?_pretty {j : Json} (hj : j.Textual) : Json.parse? j.pretty = some j := by
  have hread := Json.value?_render j hj 0 (2 * (j.render 0).length + 2) (by omega) []
  rw [List.append_nil] at hread
  rw [Json.parse?, Json.pretty, hread]
  rfl

/-! ## Records -/

theorem Json.textual_textOrNull (s : Option String) : (Json.textOrNull s).Textual := by
  cases s with
  | none => trivial
  | some s => exact rfl

theorem Json.nullable?_textOrNull (s : Option String) :
    Json.nullable? Json.text? (Json.textOrNull s) = some s := by
  cases s <;> rfl

theorem UnitSource.textualAll_toJson (units : List UnitSource) :
    Json.TextualAll (units.map UnitSource.toJson) := by
  induction units with
  | nil => trivial
  | cons u us ih => exact ⟨⟨⟨rfl, rfl⟩, ⟨rfl, rfl⟩, trivial⟩, ih⟩

theorem UnitSource.ofJson?_toJson (u : UnitSource) : UnitSource.ofJson? u.toJson = some u := by
  simp [UnitSource.ofJson?, UnitSource.toJson, Json.record, Json.fields?, Json.member?, Json.text,
    Json.text?]

theorem LogSettings.ofJson?_toJson (l : LogSettings) : LogSettings.ofJson? l.toJson = some l := by
  simp [LogSettings.ofJson?, LogSettings.toJson, Json.record, Json.fields?, Json.member?, Json.text,
    Json.text?, Json.fieldOr, Json.nullable?_textOrNull]

namespace Settings

theorem unitsOfJson?_toJson (units : List UnitSource) :
    unitsOfJson? (.array (units.map UnitSource.toJson)) = some units := by
  have hunits : (units.map UnitSource.toJson).mapM UnitSource.ofJson? = some units := by
    induction units with
    | nil => rfl
    | cons u us ih => simp [UnitSource.ofJson?_toJson, ih]
  simpa [unitsOfJson?, Json.elements?] using hunits

theorem textual_toJson (s : Settings) : s.toJson.Textual :=
  ⟨⟨rfl, rfl⟩, ⟨rfl, Json.textual_textOrNull s.output⟩, ⟨rfl, Json.textual_textOrNull s.report⟩,
    ⟨rfl, UnitSource.textualAll_toJson s.units⟩,
    ⟨rfl, ⟨rfl, rfl⟩, ⟨rfl, Json.textual_textOrNull s.logging.dir⟩, trivial⟩, trivial⟩

theorem ofJson?_toJson (s : Settings) : ofJson? s.toJson = some s := by
  have hunits := unitsOfJson?_toJson s.units
  have hlogging := s.logging.ofJson?_toJson
  simp [ofJson?, toJson, Json.record, Json.fields?, Json.member?, Json.text,
    Json.text?, Json.fieldOr, Json.nullable?_textOrNull, hunits, hlogging]

/-- Settings are read back from the text they are kept as. -/
theorem load?_save (s : Settings) : load? s.save = some s := by
  rw [load?, save, Json.parse?_pretty s.textual_toJson, Option.bind_some, ofJson?_toJson]

end Settings

end GoWeave

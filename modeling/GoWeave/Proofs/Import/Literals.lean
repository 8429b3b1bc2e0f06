import GoWeave.Import.Path
import Mathlib.Algebra.Group.Nat.Defs
import Mathlib.Tactic.SplitIfs

/-!
# How an import path can be written

A path is written raw, between backquotes, or as a sequence of pieces between double quotes. A piece
is a character by itself or an escape, and it stands for some bytes. The bytes of all pieces
together have to be the encoding of the path; a single piece may stand for a part of a character
only. Reading accepts exactly what can be written in one of these ways, as long as the path is one
that may be imported, and so finds the path from every way to write it.
-/
namespace GoWeave.Import

variable {c : Char} {cs rest digits chars : List Char} {bytes : List UInt8}
  {radix count value n d : Nat}

/-! ## Numerals -/

/-- The digits with their values. The letters may be of either case. -/
def digitTable : List (Char × Nat) :=
  "0123456789abcdef".toList.zipIdx ++ "ABCDEF".toList.zipIdx 10

/-- Some digits with the number they write. Each counts by the digits that follow it. -/
inductive Numeral (radix : Nat) : List Char → Nat → Prop
  | nil : Numeral radix [] 0
  | cons {c : Char} {d : Nat} (hc : (c, d) ∈ digitTable) (hd : d < radix) {digits : List Char}
      {n : Nat} (h : Numeral radix digits n) :
    Numeral radix (c :: digits) (d * radix ^ digits.length + n)

theorem toNat_lt_of_digitValue? (h : digitValue? c = some d) : c.toNat < 128 := by
  have hle : ∀ last : Char, last.toNat < 128 → c ≤ last → c.toNat < 128 := by
    intro last hlast hc
    exact Nat.lt_of_le_of_lt (UInt32.le_iff_toNat_le.1 hc) hlast
  unfold digitValue? at h
  split_ifs at h with hdigit hlower hupper
  · exact hle '9' (by decide) hdigit.2
  · exact hle 'f' (by decide) hlower.2
  · exact hle 'F' (by decide) hupper.2

theorem digitValue?_eq_some_iff : digitValue? c = some d ↔ (c, d) ∈ digitTable := by
  constructor
  · intro h
    have hascii : ∀ n < 128, ∀ d ∈ digitValue? (Char.ofNat n), (Char.ofNat n, d) ∈ digitTable := by
      decide +kernel
    have hc := hascii c.toNat (toNat_lt_of_digitValue? h)
    rw [Char.ofNat_toNat] at hc
    exact hc d h
  · intro h
    have htable : ∀ p ∈ digitTable, digitValue? p.1 = some p.2 := by decide +kernel
    exact htable (c, d) h

theorem Numeral.lt_pow (h : Numeral radix digits n) : n < radix ^ digits.length := by
  induction h with
  | nil => exact Nat.one_pos
  | @cons c d hc hd digits n h ih =>
    calc d * radix ^ digits.length + n
        < d * radix ^ digits.length + radix ^ digits.length := Nat.add_lt_add_left ih _
      _ = (d + 1) * radix ^ digits.length := (Nat.succ_mul _ _).symm
      _ ≤ radix * radix ^ digits.length := Nat.mul_le_mul_right _ hd
      _ = radix ^ (c :: digits).length := by rw [List.length_cons, Nat.pow_succ']

/-- Reading takes as many digits as it is asked for, and they continue the number so far. -/
theorem readDigits_eq_some_iff :
    readDigits radix count value cs = some (n, rest) ↔
      ∃ digits m, digits.length = count ∧ Numeral radix digits m ∧ cs = digits ++ rest ∧
        n = value * radix ^ count + m := by
  induction count generalizing value cs with
  | zero =>
    rw [readDigits, Option.some.injEq, Prod.mk.injEq]
    constructor
    · rintro ⟨rfl, rfl⟩
      exact ⟨[], 0, rfl, .nil, rfl, by simp⟩
    · rintro ⟨digits, m, hlength, hm, rfl, rfl⟩
      obtain rfl := List.length_eq_zero_iff.1 hlength
      cases hm
      simp
  | succ count ih =>
    have hvalue : ∀ d m, (value * radix + d) * radix ^ count + m =
        value * radix ^ (count + 1) + (d * radix ^ count + m) := by
      intro d m
      rw [Nat.add_mul, Nat.mul_assoc, Nat.pow_succ', Nat.add_assoc]
    constructor
    · intro h
      cases cs with
      | nil => cases h
      | cons c cs =>
        rw [readDigits] at h
        split at h
        · next d hd =>
          split_ifs at h with hlt
          obtain ⟨digits, m, hlength, hm, rfl, rfl⟩ := ih.1 h
          refine ⟨c :: digits, _, by simp [hlength],
            .cons (digitValue?_eq_some_iff.1 hd) hlt hm, rfl, ?_⟩
          rw [hlength, hvalue]
        · cases h
    · rintro ⟨digits, m, hlength, hm, rfl, rfl⟩
      cases hm with
      | nil => cases hlength
      | @cons c d hc hd digits m hm =>
        have hlength : digits.length = count := by simpa using hlength
        rw [List.cons_append, readDigits, digitValue?_eq_some_iff.2 hc]
        simp only [if_pos hd]
        exact ih.2 ⟨digits, m, hlength, hm, rfl, by rw [hlength, hvalue]⟩

/-! ## Pieces -/

/-- The letters after a backslash that stand for a single byte. -/
def letterEscapes : List (Char × UInt8) :=
  [('a', 0x07), ('b', 0x08), ('f', 0x0C), ('n', 0x0A), ('r', 0x0D), ('t', 0x09), ('v', 0x0B),
    ('\\', 0x5C), ('"', 0x22)]

/-- A piece of an interpreted literal with the bytes it stands for. -/
inductive Piece : List Char → List UInt8 → Prop
  | plain {c : Char} (hquote : c ≠ '"') (hslash : c ≠ '\\') (hline : c ≠ '\n') :
    Piece [c] (String.utf8EncodeChar c)
  | letter {c : Char} {byte : UInt8} (h : (c, byte) ∈ letterEscapes) : Piece ['\\', c] [byte]
  | hex {digits : List Char} {n : Nat} (hlength : digits.length = 2) (h : Numeral 16 digits n) :
    Piece ('\\' :: 'x' :: digits) [n.toUInt8]
  | octal {digits : List Char} {n : Nat} (hlength : digits.length = 3) (h : Numeral 8 digits n)
      (hbyte : n ≤ 255) :
    Piece ('\\' :: digits) [n.toUInt8]
  /-- The number is that of a character, so it is not a surrogate and not too large. -/
  | short {digits : List Char} {c : Char} (hlength : digits.length = 4)
      (h : Numeral 16 digits c.toNat) :
    Piece ('\\' :: 'u' :: digits) (String.utf8EncodeChar c)
  | long {digits : List Char} {c : Char} (hlength : digits.length = 8)
      (h : Numeral 16 digits c.toNat) :
    Piece ('\\' :: 'U' :: digits) (String.utf8EncodeChar c)

theorem simpleEscape?_eq_some_iff {byte : UInt8} :
    simpleEscape? c = some byte ↔ (c, byte) ∈ letterEscapes := by
  constructor
  · intro h
    unfold simpleEscape? at h
    split at h <;> cases h <;> decide
  · intro h
    have htable : ∀ p ∈ letterEscapes, simpleEscape? p.1 = some p.2 := by decide
    exact htable (c, byte) h

theorem byte?_eq_some_iff : byte? n = some bytes ↔ n ≤ 255 ∧ bytes = [n.toUInt8] := by
  unfold byte?
  split_ifs with h
  · simp only [Option.some.injEq, eq_comm (a := bytes)]
    exact ⟨fun heq => ⟨by omega, heq⟩, fun heq => heq.2⟩
  · simp only [false_iff]
    omega

theorem scalar?_eq_some_iff :
    scalar? n = some bytes ↔ ∃ c : Char, c.toNat = n ∧ bytes = String.utf8EncodeChar c := by
  unfold scalar?
  split_ifs with h
  · rw [Option.some.injEq]
    constructor
    · rintro rfl
      have hcode : (Char.ofNat n).toNat = n := by
        rw [Char.ofNat, dif_pos h]
        rfl
      exact ⟨Char.ofNat n, hcode, rfl⟩
    · rintro ⟨c, rfl, rfl⟩
      rw [Char.ofNat_toNat]
  · simp only [false_iff]
    rintro ⟨c, rfl, -⟩
    exact h c.valid

theorem readCode_eq_some_iff {bytes? : Nat → Option (List UInt8)} :
    readCode bytes? radix count cs = some (bytes, rest) ↔
      ∃ digits n, digits.length = count ∧ Numeral radix digits n ∧ cs = digits ++ rest ∧
        bytes? n = some bytes := by
  have hread : ∀ n rest, readDigits radix count 0 cs = some (n, rest) ↔
      ∃ digits, digits.length = count ∧ Numeral radix digits n ∧ cs = digits ++ rest := by
    intro n rest
    rw [readDigits_eq_some_iff]
    simp
  unfold readCode
  constructor
  · intro h
    split at h
    · next n rest' hn =>
      obtain ⟨_, hbytes, heq⟩ := Option.map_eq_some_iff.1 h
      obtain ⟨rfl, rfl⟩ := Prod.mk.inj heq
      obtain ⟨digits, hlength, hdigits, rfl⟩ := (hread n rest').1 hn
      exact ⟨digits, n, hlength, hdigits, rfl, hbytes⟩
    · cases h
  · rintro ⟨digits, n, hlength, hdigits, hcs, hbytes⟩
    rw [(hread n rest).2 ⟨digits, hlength, hdigits, hcs⟩]
    simp [hbytes]

/-- The first of three octal digits counts 64 times. -/
theorem readOctal_eq_some_iff :
    readOctal c cs = some (bytes, rest) ↔
      ∃ digits n, digits.length = 3 ∧ Numeral 8 digits n ∧ c :: cs = digits ++ rest ∧
        byte? n = some bytes := by
  unfold readOctal
  constructor
  · intro h
    cases hd : digitValue? c with
    | none => simp [hd] at h
    | some d =>
      simp only [hd] at h
      split_ifs at h with hlt
      obtain ⟨digits, n, hlength, hdigits, rfl, hbytes⟩ := readCode_eq_some_iff.1 h
      have hnumeral := Numeral.cons (digitValue?_eq_some_iff.1 hd) hlt hdigits
      rw [hlength] at hnumeral
      exact ⟨c :: digits, d * 64 + n, by rw [List.length_cons, hlength], hnumeral, rfl, hbytes⟩
  · rintro ⟨digits, n, hlength, hdigits, hcs, hbytes⟩
    cases hdigits with
    | nil => cases hlength
    | @cons c' d hc hd digits n hdigits =>
      obtain ⟨rfl, rfl⟩ := List.cons.inj hcs
      have hlength : digits.length = 2 := by simpa using hlength
      rw [hlength] at hbytes
      rw [digitValue?_eq_some_iff.2 hc]
      simp only [if_pos hd]
      exact readCode_eq_some_iff.2 ⟨digits, n, hlength, hdigits, rfl, hbytes⟩

/-- A piece that starts with a backslash is read as a whole. -/
theorem Piece.readEscape (h : Piece ('\\' :: chars) bytes) (rest : List Char) :
    readEscape (chars ++ rest) = some (bytes, rest) := by
  cases h with
  | plain hquote hslash hline => exact absurd rfl hslash
  | @letter c byte h =>
    have hletters : ∀ p ∈ letterEscapes, ∀ rest,
        Import.readEscape (p.1 :: rest) = some ([p.2], rest) := by
      simp [letterEscapes, Import.readEscape, simpleEscape?]
    exact hletters (c, byte) h rest
  | hex hlength h =>
    have hbyte := h.lt_pow
    rw [hlength] at hbyte
    exact readCode_eq_some_iff.2
      ⟨_, _, hlength, h, rfl, byte?_eq_some_iff.2 ⟨by omega, rfl⟩⟩
  | octal hlength h hbyte =>
    have hoctal : ∀ p ∈ digitTable, p.2 < 8 → ∀ rest,
        Import.readEscape (p.1 :: rest) = readOctal p.1 rest := by
      simp [digitTable, Import.readEscape, simpleEscape?]
    have hread := h
    cases h with
    | nil => cases hlength
    | @cons c d hc hd digits n h =>
      rw [List.cons_append, hoctal (c, d) hc hd]
      exact readOctal_eq_some_iff.2
        ⟨c :: digits, _, hlength, hread, rfl, byte?_eq_some_iff.2 ⟨hbyte, rfl⟩⟩
  | short hlength h =>
    exact readCode_eq_some_iff.2
      ⟨_, _, hlength, h, rfl, scalar?_eq_some_iff.2 ⟨_, rfl, rfl⟩⟩
  | long hlength h =>
    exact readCode_eq_some_iff.2
      ⟨_, _, hlength, h, rfl, scalar?_eq_some_iff.2 ⟨_, rfl, rfl⟩⟩

/-- What is read after a backslash is a piece with it. -/
theorem exists_piece_of_readEscape (h : readEscape cs = some (bytes, rest)) :
    ∃ chars, Piece ('\\' :: chars) bytes ∧ cs = chars ++ rest := by
  cases cs with
  | nil => cases h
  | cons c cs =>
    simp only [readEscape] at h
    split at h
    case h_1 =>
      obtain ⟨digits, n, hlength, hdigits, rfl, hbytes⟩ := readCode_eq_some_iff.1 h
      obtain ⟨-, rfl⟩ := byte?_eq_some_iff.1 hbytes
      exact ⟨'x' :: digits, .hex hlength hdigits, rfl⟩
    case h_2 =>
      obtain ⟨digits, n, hlength, hdigits, rfl, hbytes⟩ := readCode_eq_some_iff.1 h
      obtain ⟨c, rfl, rfl⟩ := scalar?_eq_some_iff.1 hbytes
      exact ⟨'u' :: digits, .short hlength hdigits, rfl⟩
    case h_3 =>
      obtain ⟨digits, n, hlength, hdigits, rfl, hbytes⟩ := readCode_eq_some_iff.1 h
      obtain ⟨c, rfl, rfl⟩ := scalar?_eq_some_iff.1 hbytes
      exact ⟨'U' :: digits, .long hlength hdigits, rfl⟩
    case h_4 =>
      split at h
      case h_1 byte hbyte =>
        obtain ⟨rfl, rfl⟩ := Prod.mk.inj (Option.some.inj h)
        exact ⟨[c], .letter (simpleEscape?_eq_some_iff.1 hbyte), rfl⟩
      case h_2 =>
        obtain ⟨digits, n, hlength, hdigits, hcs, hbytes⟩ := readOctal_eq_some_iff.1 h
        obtain ⟨hbyte, rfl⟩ := byte?_eq_some_iff.1 hbytes
        exact ⟨digits, .octal hlength hdigits hbyte, hcs⟩

/-! ## Sequences of pieces -/

/-- A text that is put together from pieces, with the bytes that they stand for together. -/
def Pieces (cs : List Char) (bytes : List UInt8) : Prop :=
  ∃ pieces : List (List Char × List UInt8), (∀ p ∈ pieces, Piece p.1 p.2) ∧
    cs = pieces.flatMap (·.1) ∧ bytes = pieces.flatMap (·.2)

theorem Pieces.cons {more : List UInt8} (h : Piece chars bytes) (hrest : Pieces rest more) :
    Pieces (chars ++ rest) (bytes ++ more) := by
  obtain ⟨pieces, hpieces, rfl, rfl⟩ := hrest
  exact ⟨(chars, bytes) :: pieces, List.forall_mem_cons.2 ⟨h, hpieces⟩, rfl, rfl⟩

theorem Piece.unescape (h : Piece chars bytes) (rest : List Char) :
    unescape (chars ++ rest) = (Import.unescape rest).map (bytes ++ ·) := by
  have hslash : ∀ tail, Piece ('\\' :: tail) bytes →
      Import.unescape ('\\' :: tail ++ rest) = (Import.unescape rest).map (bytes ++ ·) := by
    intro tail htail
    rw [List.cons_append, Import.unescape]
    split
    · next bytes' rest' hread =>
      obtain ⟨rfl, rfl⟩ := Prod.mk.inj (Option.some.inj ((htail.readEscape rest).symm.trans hread))
      rfl
    · next hread => simp [htail.readEscape rest] at hread
  cases h with
  | @plain c hquote hback hline =>
    rw [List.singleton_append, Import.unescape, if_neg (by simp [hquote, hline])]
    exact hback
  | letter h => exact hslash _ (.letter h)
  | hex hlength h => exact hslash _ (.hex hlength h)
  | octal hlength h hbyte => exact hslash _ (.octal hlength h hbyte)
  | short hlength h => exact hslash _ (.short hlength h)
  | long hlength h => exact hslash _ (.long hlength h)

theorem unescape_eq_some_iff : unescape cs = some bytes ↔ Pieces cs bytes := by
  constructor
  · intro h
    fun_induction unescape cs generalizing bytes with
    | case1 =>
      obtain rfl := Option.some.inj h
      exact ⟨[], by simp, rfl, rfl⟩
    | case2 cs piece rest hread _ ih =>
      obtain ⟨more, hmore, rfl⟩ := Option.map_eq_some_iff.1 h
      obtain ⟨chars, hpiece, rfl⟩ := exists_piece_of_readEscape hread
      exact .cons hpiece (ih hmore)
    | case3 => cases h
    | case4 => cases h
    | case5 c cs hslash hother ih =>
      obtain ⟨more, hmore, rfl⟩ := Option.map_eq_some_iff.1 h
      rw [not_or] at hother
      exact .cons (.plain hother.1 hslash hother.2) (ih hmore)
  · rintro ⟨pieces, hpieces, rfl, rfl⟩
    induction pieces with
    | nil => simp [unescape]
    | cons p pieces ih =>
      obtain ⟨hp, hpieces⟩ := List.forall_mem_cons.1 hpieces
      rw [List.flatMap_cons, hp.unescape, ih hpieces]
      rfl

/-! ## Literals -/

/-- The ways to write a path as a literal. -/
inductive Writes (path : String) : String → Prop
  | raw : Writes path ("\x60" ++ path ++ "\x60")
  | interpreted {cs : List Char} (h : Pieces cs (path.toList.flatMap String.utf8EncodeChar)) :
    Writes path ("\"" ++ String.ofList cs ++ "\"")

theorem between?_eq_some_iff {quote : Char} {inner : List Char} :
    between? quote cs = some inner ↔ cs = quote :: (inner ++ [quote]) := by
  cases cs with
  | nil => simp [between?]
  | cons c rest =>
    simp only [between?, Option.ite_none_right_eq_some, Option.some.injEq, List.cons.injEq]
    constructor
    · rintro ⟨⟨rfl, hlast⟩, rfl⟩
      obtain ⟨inner, rfl⟩ := List.getLast?_eq_some_iff.1 hlast
      exact ⟨rfl, by rw [List.dropLast_concat]⟩
    · rintro ⟨rfl, rfl⟩
      simp

theorem fromUTF8?_eq_some_iff {text : String} :
    String.fromUTF8? bytes.toByteArray = some text ↔
      bytes = text.toList.flatMap String.utf8EncodeChar := by
  rw [← List.toByteArray_inj]
  change _ ↔ bytes.toByteArray = text.toList.utf8Encode
  rw [String.utf8Encode_toList]
  unfold String.fromUTF8?
  split_ifs with h
  · rw [Option.some.injEq, ← String.toByteArray_inj]
    rfl
  · simp only [false_iff]
    intro heq
    exact h (heq ▸ text.isValidUTF8)

theorem decode_eq_ok_iff {literal path : String} :
    decode literal = .ok path ↔ Writes path literal := by
  constructor
  · intro h
    unfold decode at h
    split at h
    · next inner hinner =>
      obtain rfl := Except.ok.inj h
      have hliteral : literal = "\x60" ++ String.ofList inner ++ "\x60" := by
        simpa [← String.toList_inj] using between?_eq_some_iff.1 hinner
      rw [hliteral]
      exact .raw
    · split at h
      · next inner hinner =>
        split at h
        · next text htext =>
          obtain rfl := Except.ok.inj h
          obtain ⟨bytes, hbytes, hdecoded⟩ := Option.bind_eq_some_iff.1 htext
          obtain rfl := fromUTF8?_eq_some_iff.1 hdecoded
          have hliteral : literal = "\"" ++ String.ofList inner ++ "\"" := by
            simpa [← String.toList_inj] using between?_eq_some_iff.1 hinner
          rw [hliteral]
          exact .interpreted (unescape_eq_some_iff.1 hbytes)
        · cases h
      · cases h
  · intro h
    unfold decode
    cases h with
    | raw =>
      have hliteral : ("\x60" ++ path ++ "\x60").toList = '\x60' :: (path.toList ++ ['\x60']) := by
        simp
      rw [hliteral, between?_eq_some_iff.2 rfl]
      simp
    | @interpreted cs h =>
      have hliteral : ("\"" ++ String.ofList cs ++ "\"").toList = '"' :: (cs ++ ['"']) := by
        simp
      have hraw : between? '\x60' ('"' :: (cs ++ ['"'])) = none := by simp [between?]
      have htext := fromUTF8?_eq_some_iff.2 (Eq.refl (path.toList.flatMap String.utf8EncodeChar))
      rw [hliteral, hraw, between?_eq_some_iff.2 rfl]
      simp only [unescape_eq_some_iff.2 h, Option.bind_some, htext]

theorem any_isForbidden_eq_false_iff :
    cs.any isForbidden = false ↔
      ∀ c ∈ cs, Text.isBlankChar c = false ∧ Text.isControlChar c = false ∧ c ≠ '\\' := by
  simp [isForbidden, and_assoc]

/-! ## Digits in words of 32 bits -/

/-- A number, if it is one of 32 bits. Else the number is what went wrong. -/
def word (n : Nat) : Except Nat Nat :=
  if n < 2 ^ 32 then .ok n else .error n

/-- Reading digits with numbers of 32 bits: no product and no sum may be larger. -/
def readDigitsWord (radix : Nat) : Nat → Nat → List Char → Except Nat (Option (Nat × List Char))
  | 0, value, cs => .ok (some (value, cs))
  | count + 1, value, cs => do
    let product ← word (value * radix)
    match cs with
    | [] => pure none
    | c :: cs =>
      match digitValue? c with
      | none => pure none
      | some d =>
        if d < radix then do
          let sum ← word (product + d)
          readDigitsWord radix count sum cs
        else pure none

theorem word_eq_ok (h : n < 2 ^ 32) : word n = .ok n :=
  if_pos h

/-- The number so far leaves room for the digits to come. -/
theorem readDigitsWord_eq_ok (h : (value + 1) * radix ^ count ≤ 2 ^ 32) (cs : List Char) :
    readDigitsWord radix count value cs = .ok (readDigits radix count value cs) := by
  induction count generalizing value cs with
  | zero => rfl
  | succ count ih =>
    have hroom : (value * radix + radix) * radix ^ count ≤ 2 ^ 32 := by
      rwa [← Nat.succ_mul, Nat.mul_assoc, ← Nat.pow_succ']
    have hsum : ∀ d < radix, (value * radix + d + 1) * radix ^ count ≤ 2 ^ 32 := by
      intro d hd
      exact Nat.le_trans (Nat.mul_le_mul_right _ (by omega)) hroom
    have hword : ∀ d < radix, word (value * radix + d) = .ok (value * radix + d) := by
      intro d hd
      apply word_eq_ok
      calc value * radix + d
          < (value * radix + d + 1) * 1 := by omega
        _ ≤ (value * radix + d + 1) * radix ^ count :=
          Nat.mul_le_mul_left _ (Nat.pow_pos (by omega))
        _ ≤ 2 ^ 32 := hsum d hd
    have hproduct : word (value * radix) = .ok (value * radix) := by
      rcases Nat.eq_zero_or_pos radix with rfl | hpos
      · rfl
      · exact hword 0 hpos
    rw [readDigitsWord, hproduct]
    cases cs with
    | nil => rfl
    | cons c cs =>
      rw [readDigits]
      cases hd : digitValue? c with
      | none => simp [hd, bind, Except.bind, pure, Except.pure]
      | some d =>
        by_cases hlt : d < radix
        · have hrest := ih (hsum d hlt) cs
          simp [hd, hlt, hword d hlt, hrest, bind, Except.bind]
        · simp [hd, hlt, bind, Except.bind, pure, Except.pure]

/-- The number of three octal digits, with numbers of 32 bits. -/
def octalWord (first rest : Nat) : Except Nat Nat := do
  let product ← word (first * 64)
  word (product + rest)

theorem octalWord_eq_ok {first : Nat} (hfirst : first < 8)
    (h : readDigits 8 2 0 cs = some (n, rest)) : octalWord first n = .ok (first * 64 + n) := by
  obtain ⟨digits, m, hlength, hm, -, rfl⟩ := readDigits_eq_some_iff.1 h
  have hlt := hm.lt_pow
  rw [hlength] at hlt
  have hproduct : word (first * 64) = .ok (first * 64) := word_eq_ok (by omega)
  rw [octalWord, hproduct]
  exact word_eq_ok (by omega)

/-- The radix and the number of digits of each loop that reads digits. The first of three octal
digits is no part of a loop. -/
def digitLoops : List (Nat × Nat) :=
  [(16, 2), (8, 2), (16, 4), (16, 8)]

/-- Reading an import literal gives a path exactly if the path may be imported and the literal is
one of the ways to write it. No number that arises in reading digits has more than 32 bits, neither
in a loop nor when the first of three octal digits is added. -/
theorem unquote_exact :
    (∀ literal path, unquote literal = .ok path ↔
      path ≠ "" ∧
        (∀ c ∈ path.toList, Text.isBlankChar c = false ∧ Text.isControlChar c = false ∧ c ≠ '\\') ∧
        Writes path literal) ∧
      (∀ form ∈ digitLoops, ∀ cs,
        readDigitsWord form.1 form.2 0 cs = .ok (readDigits form.1 form.2 0 cs)) ∧
      ∀ first < 8, ∀ cs n rest, readDigits 8 2 0 cs = some (n, rest) →
        octalWord first n = .ok (first * 64 + n) := by
  refine ⟨fun literal path => ?_, fun form hform cs => ?_, fun first hfirst cs n rest h => ?_⟩
  · rw [← decode_eq_ok_iff, ← any_isForbidden_eq_false_iff]
    unfold unquote
    cases decode literal with
    | error reason => simp
    | ok text =>
      dsimp only
      split_ifs with hempty hforbidden
      · have hempty : text = "" := by simpa using hempty
        simp only [Except.ok.injEq, false_iff]
        rintro ⟨hne, -, rfl⟩
        exact hne hempty
      · simp only [Except.ok.injEq, false_iff]
        rintro ⟨-, hall, rfl⟩
        rw [hall] at hforbidden
        cases hforbidden
      · rw [Except.ok.injEq]
        constructor
        · rintro rfl
          exact ⟨by simpa using hempty, by simpa using hforbidden, rfl⟩
        · rintro ⟨-, -, heq⟩
          exact Except.ok.inj heq
  · apply readDigitsWord_eq_ok
    have hpow : ∀ form ∈ digitLoops, (0 + 1) * form.1 ^ form.2 ≤ 2 ^ 32 := by decide
    exact hpow form hform
  · exact octalWord_eq_ok hfirst h

end GoWeave.Import

import Mathlib.Data.List.Basic

/-!
# Tagged names

A name that is given up for another gets a tag appended, perhaps several times. As long as the tag
is not empty and the names to start with do not end with it, the name and the number of tags can be
read off again, so that different names stay different under any number of tags.
-/
namespace GoWeave

/-- Whether a name ends with a tag. -/
def EndsWith (tag name : String) : Prop :=
  tag.toList <:+ name.toList

instance (tag name : String) : Decidable (EndsWith tag name) :=
  inferInstanceAs (Decidable (_ <:+ _))

/-- Whether a name contains a dot. -/
def Dotted (name : String) : Prop :=
  '.' ∈ name.toList

instance (name : String) : Decidable (Dotted name) :=
  inferInstanceAs (Decidable (_ ∈ _))

/-- A name with the tag appended a number of times. -/
def tagged (tag name : String) : Nat → String
  | 0 => name
  | n + 1 => tagged tag name n ++ tag

variable {tag name name' : String} {m n : Nat}

@[simp] theorem tagged_zero (tag name : String) : tagged tag name 0 = name := rfl

theorem tagged_succ (tag name : String) (n : Nat) :
    tagged tag name (n + 1) = tagged tag name n ++ tag := rfl

theorem tagged_tagged (tag name : String) (m n : Nat) :
    tagged tag (tagged tag name m) n = tagged tag name (m + n) := by
  induction n with
  | zero => rfl
  | succ n ih => rw [tagged_succ, ih, ← Nat.add_assoc, tagged_succ]

theorem endsWith_append (tag name : String) : EndsWith tag (name ++ tag) := by
  rw [EndsWith, String.toList_append]
  exact List.suffix_append _ _

theorem endsWith_tagged (tag name : String) (n : Nat) : EndsWith tag (tagged tag name (n + 1)) :=
  endsWith_append tag (tagged tag name n)

theorem append_right_cancel (h : name ++ tag = name' ++ tag) : name = name' := by
  have h := congrArg String.toList h
  rw [String.toList_append, String.toList_append] at h
  exact String.toList_inj.1 (List.append_cancel_right h)

theorem append_ne_blank (hname : name ≠ "") (hblank : name ≠ "_") : name ++ tag ≠ "_" := by
  intro h
  have h := congrArg String.toList h
  rw [String.toList_append] at h
  rcases List.append_eq_singleton_iff.1 h with ⟨hn, -⟩ | ⟨hn, -⟩
  · exact hname (String.toList_inj.1 hn)
  · exact hblank (String.toList_inj.1 hn)

theorem tagged_ne_empty (hname : name ≠ "") (n : Nat) : tagged tag name n ≠ "" := by
  induction n with
  | zero => exact hname
  | succ n ih =>
    rw [tagged_succ, Ne, String.append_eq_empty_iff]
    exact fun h => ih h.1

/-- A tagged name determines the name and the number of tags. -/
theorem tagged_inj (hname : ¬EndsWith tag name) (hname' : ¬EndsWith tag name')
    (h : tagged tag name m = tagged tag name' n) : name = name' ∧ m = n := by
  induction m generalizing n with
  | zero =>
    cases n with
    | zero => exact ⟨h, rfl⟩
    | succ n =>
      have h : name = tagged tag name' (n + 1) := h
      exact absurd (h ▸ endsWith_tagged tag name' n) hname
  | succ m ih =>
    cases n with
    | zero =>
      have h : tagged tag name (m + 1) = name' := h
      exact absurd (h ▸ endsWith_tagged tag name m) hname'
    | succ n =>
      obtain ⟨hn, hm⟩ := ih (append_right_cancel h)
      exact ⟨hn, congrArg (· + 1) hm⟩

theorem dotted_append {a b : String} : Dotted (a ++ b) ↔ Dotted a ∨ Dotted b := by
  simp [Dotted, String.toList_append]

theorem dotted_dot : Dotted "." := by decide

theorem not_dotted_tagged (htag : ¬Dotted tag) (hname : ¬Dotted name) (n : Nat) :
    ¬Dotted (tagged tag name n) := by
  induction n with
  | zero => exact hname
  | succ n ih =>
    rw [tagged_succ, dotted_append, not_or]
    exact ⟨ih, htag⟩

/-- Two parts without a dot can be read off what they make with a dot in between. -/
theorem qualified_inj {recv recv' : String} (hrecv : ¬Dotted recv') (hname : ¬Dotted name')
    (h : recv ++ "." ++ name = recv' ++ "." ++ name') : recv = recv' ∧ name = name' := by
  have h := congrArg String.toList h
  have hdot : ".".toList = ['.'] := rfl
  simp only [String.toList_append, hdot, List.append_assoc, List.singleton_append] at h
  rw [Dotted] at hrecv hname
  rcases List.append_eq_append_iff.1 h with ⟨mid, hmid, htail⟩ | ⟨mid, hmid, htail⟩
  · cases mid with
    | nil =>
      simp only [List.append_nil, List.nil_append, List.cons.injEq, true_and] at hmid htail
      exact ⟨String.toList_inj.1 hmid.symm, String.toList_inj.1 htail⟩
    | cons c mid =>
      simp only [List.cons_append, List.cons.injEq] at htail
      exact absurd (by simp [hmid, ← htail.1]) hrecv
  · cases mid with
    | nil =>
      simp only [List.append_nil, List.nil_append, List.cons.injEq, true_and] at hmid htail
      exact ⟨String.toList_inj.1 hmid, String.toList_inj.1 htail.symm⟩
    | cons c mid =>
      simp only [List.cons_append, List.cons.injEq] at htail
      exact absurd (by simp [htail.2]) hname

theorem length_lt_tagged (htag : tag ≠ "") (name : String) (n : Nat) :
    name.length < (tagged tag name (n + 1)).length := by
  have hpos : 0 < tag.length := by
    rw [Nat.pos_iff_ne_zero]
    intro h
    exact htag (String.length_eq_zero_iff.1 h)
  induction n with
  | zero =>
    rw [tagged_succ, String.length_append]
    exact Nat.lt_add_of_pos_right hpos
  | succ n ih =>
    rw [tagged_succ, String.length_append]
    exact Nat.lt_add_right tag.length ih

theorem tagged_injective (htag : tag ≠ "") (name : String) :
    Function.Injective (tagged tag name) := by
  have hlt : ∀ m n, m < n → tagged tag name m ≠ tagged tag name n := by
    intro m n hmn heq
    obtain ⟨k, rfl⟩ := Nat.exists_eq_add_of_lt hmn
    have hlonger := length_lt_tagged htag (tagged tag name m) k
    rw [tagged_tagged, ← Nat.add_assoc, ← heq] at hlonger
    exact Nat.lt_irrefl _ hlonger
  intro m n heq
  rcases Nat.lt_trichotomy m n with hmn | hmn | hmn
  · exact absurd heq (hlt m n hmn)
  · exact hmn
  · exact absurd heq.symm (hlt n m hmn)

end GoWeave

import ApiPages.Text.Blank
import Mathlib.Data.List.Basic
import Mathlib.Data.List.TakeWhile

/-!
# Trimming

A text that begins and ends with characters that are not blank is left alone by `trim`, and blanks
around it are dropped.
-/

namespace ApiPages
namespace Text

/-! ## Classes -/

/-- A character of one class differs from one outside it. -/
theorem ne_of_class {p : Char → Bool} {c d : Char} (hc : p c = true) (hd : p d = false) :
    c ≠ d := by
  rintro rfl
  rw [hc] at hd
  cases hd

theorem range_of_isWord {c : Char} (h : isWord c = true) :
    (65 ≤ c.toNat ∧ c.toNat ≤ 90) ∨ (97 ≤ c.toNat ∧ c.toNat ≤ 122) ∨ (48 ≤ c.toNat ∧ c.toNat ≤ 57) ∨
      c = '_' := by
  rcases Bool.or_eq_true_iff.1 h with halphanum | hunderscore
  · rcases Bool.or_eq_true_iff.1 halphanum with halpha | hdigit
    · rcases Bool.or_eq_true_iff.1 halpha with hupper | hlower
      · exact .inl (of_decide_eq_true hupper)
      · rcases Bool.and_eq_true_iff.1 hlower with ⟨hfirst, hlast⟩
        exact .inr (.inl ⟨of_decide_eq_true hfirst, of_decide_eq_true hlast⟩)
    · rcases Bool.and_eq_true_iff.1 hdigit with ⟨hfirst, hlast⟩
      exact .inr (.inr (.inl ⟨of_decide_eq_true hfirst, of_decide_eq_true hlast⟩))
  · exact .inr (.inr (.inr (beq_iff_eq.1 hunderscore)))

theorem isBlank_of_isWord {c : Char} (h : isWord c = true) : isBlank c = false := by
  have hrange := range_of_isWord h
  rcases hrange with hrange | hrange | hrange | rfl
  · simp [isBlank]
    omega
  · simp [isBlank]
    omega
  · simp [isBlank]
    omega
  · decide

theorem isBlank_of_isSpace {c : Char} (h : isSpace c = true) : isBlank c = true := by
  simp only [isSpace, Bool.or_eq_true, beq_iff_eq] at h
  rcases h with (((rfl | rfl) | rfl) | rfl) | rfl <;> rfl

/-! ## Trimming -/

theorem trim_of_ends {c t : Char} (mid : List Char) (hc : isBlank c = false)
    (ht : isBlank t = false) : trim (c :: mid ++ [t]) = c :: mid ++ [t] := by
  have hleft : trimLeft (c :: mid ++ [t]) = c :: mid ++ [t] := by
    simp [trimLeft, hc]
  rw [trim, hleft, trimRight, List.reverse_append]
  simp [ht]

/-- Blanks before a text are dropped. -/
theorem trim_append_left {before : List Char} (h : ∀ c ∈ before, isBlank c = true)
    (cs : List Char) :
    trim (before ++ cs) = trim cs := by
  have hleft : trimLeft (before ++ cs) = trimLeft cs := by
    rw [trimLeft, List.dropWhile_append_of_pos h]
    rfl
  rw [trim, hleft, trim]

/-- Blanks after a text that has other characters are dropped. -/
theorem trim_append_right {after : List Char} (h : ∀ c ∈ after, isBlank c = true) {c : Char}
    (hc : isBlank c = false) (cs : List Char) : trim (c :: cs ++ after) = trim (c :: cs) := by
  have hleft : ∀ more, trimLeft (c :: more) = c :: more := by
    intro more
    simp [trimLeft, hc]
  have hafter : ∀ d ∈ after.reverse, isBlank d = true := fun d hd => h d (List.mem_reverse.1 hd)
  rw [trim, trim, List.cons_append, hleft, hleft, trimRight, trimRight, ← List.cons_append,
    List.reverse_append, List.dropWhile_append_of_pos hafter]

/-- Blanks at the end are trimmed. -/
theorem trim_append_blanks {after : List Char} (h : ∀ c ∈ after, isBlank c = true)
    (cs : List Char) : trim (cs ++ after) = trim cs := by
  have hfront : ∀ c ∈ cs.takeWhile isBlank, isBlank c = true :=
    fun c hc => List.all_eq_true.1 List.all_takeWhile c hc
  have hrest := List.takeWhile_append_dropWhile (p := isBlank) (l := cs)
  rw [← hrest, List.append_assoc, trim_append_left hfront, trim_append_left hfront]
  -- a text of nothing but blanks is trimmed from the left and needs a case of its own
  cases hdrop : cs.dropWhile isBlank with
  | nil =>
      have hblank := trim_append_left h []
      rwa [List.append_nil] at hblank
  | cons c more =>
      have hc : isBlank c = false := by
        have hnot := List.head?_dropWhile_not isBlank cs
        rw [hdrop] at hnot
        exact hnot
      exact trim_append_right h hc more

theorem exists_trimLeft (cs : List Char) :
    ∃ after, trimLeft cs = trim cs ++ after ∧ ∀ c ∈ after, isBlank c = true := by
  have hright := List.takeWhile_append_dropWhile (p := isBlank) (l := (trimLeft cs).reverse)
  refine ⟨((trimLeft cs).reverse.takeWhile isBlank).reverse, ?_, ?_⟩
  · rw [trim, trimRight, ← List.reverse_append, hright, List.reverse_reverse]
  · exact fun c hc => List.all_eq_true.1 List.all_takeWhile c (List.mem_reverse.1 hc)

/-- What `trim` drops are blanks. -/
theorem exists_append_trim (cs : List Char) : ∃ before after, cs = before ++ trim cs ++ after ∧
    (∀ c ∈ before, isBlank c = true) ∧ ∀ c ∈ after, isBlank c = true := by
  rcases exists_trimLeft cs with ⟨after, hleft, hafter⟩
  refine ⟨cs.takeWhile isBlank, after, ?_, fun c hc =>
    List.all_eq_true.1 List.all_takeWhile c hc, hafter⟩
  rw [List.append_assoc, ← hleft]
  exact List.takeWhile_append_dropWhile.symm

/-- A trimmed text does not end in a blank. -/
theorem isBlank_last_of_trim (cs : List Char) {c : Char} (h : (trim cs).getLast? = some c) :
    isBlank c = false := by
  rw [trim, trimRight, List.getLast?_reverse] at h
  have hnot := List.head?_dropWhile_not isBlank (trimLeft cs).reverse
  rw [h] at hnot
  exact hnot

/-- A trimmed text does not begin with a blank. -/
theorem isBlank_head_of_trim (cs : List Char) {c : Char} (h : (trim cs).head? = some c) :
    isBlank c = false := by
  rcases exists_trimLeft cs with ⟨after, hleft, -⟩
  have hhead : (trimLeft cs).head? = some c := by
    rw [hleft, List.head?_append, h]
    rfl
  have hnot := List.head?_dropWhile_not isBlank cs
  rw [← trimLeft, hhead] at hnot
  exact hnot

theorem trim_eq_self {cs : List Char} (hhead : ∀ c, cs.head? = some c → isBlank c = false)
    (hlast : ∀ c, cs.getLast? = some c → isBlank c = false) : trim cs = cs := by
  have hleft : trimLeft cs = cs := by
    cases cs with
    | nil =>
        rfl
    | cons c cs =>
        simp [trimLeft, hhead c rfl]
  rcases List.eq_nil_or_concat cs with rfl | ⟨front, t, rfl⟩
  · rfl
  · have ht : isBlank t = false := hlast t (by simp)
    rw [trim, hleft, trimRight]
    simp [ht]

theorem trim_trim (cs : List Char) : trim (trim cs) = trim cs :=
  trim_eq_self (fun _ => isBlank_head_of_trim cs) (fun _ => isBlank_last_of_trim cs)

/-! ### Trimming joined texts -/

theorem trimRight_append {front back : List Char} (h : trimRight back ≠ []) :
    trimRight (front ++ back) = front ++ trimRight back := by
  have hne : (back.reverse.dropWhile isBlank).isEmpty = false := by
    simpa [trimRight] using h
  simp [trimRight, List.dropWhile_append, hne]

theorem trimLeft_append {front back : List Char} (h : trimLeft front ≠ []) :
    trimLeft (front ++ back) = trimLeft front ++ back := by
  have hne : (front.dropWhile isBlank).isEmpty = false := by
    simpa [trimLeft] using h
  simp [trimLeft, List.dropWhile_append, hne]

theorem trimRight_cons {c : Char} (hc : isBlank c = false) (cs : List Char) :
    trimRight (c :: cs) = c :: trimRight cs := by
  by_cases h : trimRight cs = []
  · have hall : ∀ d ∈ cs.reverse, isBlank d = true := by
      rw [trimRight, List.reverse_eq_nil_iff, List.dropWhile_eq_nil_iff] at h
      exact h
    rw [h, trimRight, List.reverse_cons, List.dropWhile_append_of_pos hall]
    simp [hc]
  · rw [← List.singleton_append, trimRight_append h]
    rfl

/-- The last character of a text is that of the trimmed text. -/
theorem getLast?_trimRight {cs : List Char} (h : trim cs ≠ []) (front : List Char) :
    (trimRight (front ++ cs)).getLast? = (trim cs).getLast? := by
  have hcs : front ++ cs = (front ++ cs.takeWhile isBlank) ++ trimLeft cs := by
    rw [List.append_assoc, trimLeft, List.takeWhile_append_dropWhile]
  have hright : trimRight (trimLeft cs) ≠ [] := h
  rw [hcs, trimRight_append hright, List.getLast?_append_of_ne_nil _ hright]
  rfl

theorem all_isBlank_of_trim_eq_nil {cs : List Char} (h : trim cs = []) :
    ∀ c ∈ cs, isBlank c = true := by
  rcases exists_append_trim cs with ⟨before, after, hcs, hbefore, hafter⟩
  rw [h, List.append_nil] at hcs
  rw [hcs]
  exact List.forall_mem_append.2 ⟨hbefore, hafter⟩

theorem trimLeft_ne_nil {cs : List Char} (h : trim cs ≠ []) : trimLeft cs ≠ [] := by
  intro hleft
  rw [trim, hleft] at h
  exact h rfl

theorem exists_trimRight (cs : List Char) :
    ∃ before, trimRight cs = before ++ trim cs ∧ ∀ c ∈ before, isBlank c = true := by
  have hfront : ∀ c ∈ cs.takeWhile isBlank, isBlank c = true :=
    fun c hc => List.all_eq_true.1 List.all_takeWhile c hc
  by_cases h : trim cs = []
  · have hall : ∀ c ∈ cs.reverse, isBlank c = true :=
      fun c hc => all_isBlank_of_trim_eq_nil h c (List.mem_reverse.1 hc)
    refine ⟨[], ?_, fun c hc => absurd hc List.not_mem_nil⟩
    rw [h, trimRight, List.dropWhile_eq_nil_iff.2 hall]
    rfl
  · refine ⟨cs.takeWhile isBlank, ?_, hfront⟩
    have hcs : cs = cs.takeWhile isBlank ++ trimLeft cs := List.takeWhile_append_dropWhile.symm
    conv_lhs => rw [hcs, trimRight_append h]
    rfl

theorem trimLeft_append_cons {d : Char} (hd : isBlank d = false) (cs ds : List Char) :
    trimLeft (cs ++ d :: ds) = trimLeft cs ++ d :: ds := by
  rw [trimLeft, List.dropWhile_append]
  split
  · next hnone =>
      rw [trimLeft, List.isEmpty_iff.1 hnone]
      simp [hd]
  · rfl

theorem mem_of_mem_trimRight {c : Char} {cs : List Char} (h : c ∈ trimRight cs) : c ∈ cs := by
  rw [trimRight, List.mem_reverse] at h
  exact List.mem_reverse.1 ((List.dropWhile_subset _) h)

end Text
end ApiPages

import ApiPages.Proofs.Text.Endings
import Mathlib.Data.List.Basic

/-!
# Replacing parts of a text

Many parts of a text replaced at once, and one part replaced by a scan.

* `Substituted` relates a text to the one with every occurrence of the left side of a rule replaced,
  all at once; `Substituted.unique` says that rules which exclude each other leave no choice;
* `Substituted.scan` says that one more rule can be applied by a scan behind the others, if it
  finds nothing in what they put in;
* `cut?_eq_some_iff` says that the first occurrence is cut out.
-/

namespace ApiPages
namespace Text

variable {needle new cs out front before after : List Char} {c mark : Char}

/-! ## One part -/

theorem go_eq_drop (needle new : List Char) (skip : Nat) (cs : List Char) :
    replaceAll.go needle new skip cs = replaceAll needle new (cs.drop skip) := by
  induction cs generalizing skip with
  | nil =>
      cases skip <;> rfl
  | cons c cs ih =>
      cases skip with
      | zero =>
          rfl
      | succ skip =>
          exact ih skip

theorem replaceAll_append_of_ne_nil (h : needle ≠ []) (new cs : List Char) :
    replaceAll needle new (needle ++ cs) = new ++ replaceAll needle new cs := by
  cases needle with
  | nil =>
      exact absurd rfl h
  | cons c needle =>
      have hstarts : (c :: needle).isPrefixOf (c :: (needle ++ cs)) = true :=
        List.isPrefixOf_iff_prefix.2 ⟨cs, rfl⟩
      rw [List.cons_append, replaceAll, replaceAll.go, if_pos hstarts, go_eq_drop, List.length_cons,
        Nat.add_sub_cancel, List.drop_left]

theorem replaceAll_cons_of_not_starts (h : ¬ needle <+: c :: cs) (new : List Char) :
    replaceAll needle new (c :: cs) = c :: replaceAll needle new cs := by
  have hstarts : ¬ needle.isPrefixOf (c :: cs) = true :=
    fun hp => h (List.isPrefixOf_iff_prefix.1 hp)
  rw [replaceAll, replaceAll.go, if_neg hstarts, go_eq_drop, List.drop_zero]

/-- A part stands only where the character stands that it begins with. -/
theorem not_prefix_cons (hmark : needle.head? = some mark) (hc : c ≠ mark) (cs : List Char) :
    ¬ needle <+: c :: cs := by
  rintro ⟨rest, hrest⟩
  have hhead : (needle ++ rest).head? = some c := by rw [hrest]; rfl
  rw [List.head?_append, hmark] at hhead
  exact hc (Option.some.inj hhead).symm

/-- A text without the character that a part begins with is passed over. -/
theorem replaceAll_append_of_not_mem (hmark : needle.head? = some mark) (hfront : mark ∉ front)
    (new cs : List Char) :
    replaceAll needle new (front ++ cs) = front ++ replaceAll needle new cs := by
  induction front with
  | nil =>
      rfl
  | cons c front ih =>
      rw [List.mem_cons, not_or] at hfront
      have hnone := not_prefix_cons hmark (Ne.symm hfront.1) (front ++ cs)
      rw [List.cons_append, replaceAll_cons_of_not_starts hnone, ih hfront.2]
      rfl

/-! ## The first occurrence -/

/-- What stands before and behind the first occurrence of a part. -/
structure IsFirst (needle cs before after : List Char) : Prop where
  eq : cs = before ++ needle ++ after
  first : ∀ front back, cs = front ++ needle ++ back → before.length ≤ front.length

theorem IsFirst.unique {before' after' : List Char} (h : IsFirst needle cs before after)
    (h' : IsFirst needle cs before' after') : before = before' ∧ after = after' := by
  have hlength : before.length = before'.length :=
    Nat.le_antisymm (h.first _ _ h'.eq) (h'.first _ _ h.eq)
  have heq := h.eq.symm.trans h'.eq
  rw [List.append_assoc, List.append_assoc] at heq
  rcases List.append_inj heq hlength with ⟨hbefore, hafter⟩
  exact ⟨hbefore, List.append_cancel_left hafter⟩

theorem isFirst_of_isPrefixOf? (h : needle.isPrefixOf? cs = some after) :
    IsFirst needle cs [] after :=
  ⟨(List.isPrefixOf?_eq_some_iff_append_eq.1 h).symm, fun _ _ _ => Nat.zero_le _⟩

/-- The search with some characters behind it finds the first occurrence in the rest, or there is
none. -/
theorem cut?_go (needle seen cs : List Char) :
    match cut?.go needle seen cs with
    | some (before, after) =>
        ∃ skipped, before = seen.reverse ++ skipped ∧ IsFirst needle cs skipped after
    | none => ∀ front back, cs ≠ front ++ needle ++ back := by
  induction cs generalizing seen with
  | nil =>
      cases hhere : needle.isPrefixOf? ([] : List Char) with
      | some after =>
          rw [cut?.go, hhere]
          exact ⟨[], (List.append_nil _).symm, isFirst_of_isPrefixOf? hhere⟩
      | none =>
          rw [cut?.go, hhere]
          intro front back heq
          have hneedle : needle = [] :=
            (List.append_eq_nil_iff.1 (List.append_eq_nil_iff.1 heq.symm).1).2
          rw [hneedle] at hhere
          cases hhere
  | cons c cs ih =>
      cases hhere : needle.isPrefixOf? (c :: cs) with
      | some after =>
          rw [cut?.go, hhere]
          exact ⟨[], (List.append_nil _).symm, isFirst_of_isPrefixOf? hhere⟩
      | none =>
          have hstarts : ∀ back, c :: cs ≠ needle ++ back := by
            intro back heq
            rw [List.isPrefixOf?_eq_some_iff_append_eq.2 heq.symm] at hhere
            cases hhere
          -- not here, so the first occurrence in what follows is the first one at all
          rw [cut?.go, hhere]
          have hrest := ih (c :: seen)
          dsimp only
          revert hrest
          cases cut?.go needle (c :: seen) cs with
          | none =>
              intro hnone front back heq
              cases front with
              | nil => exact hstarts back heq
              | cons d front =>
                  rw [List.cons_append, List.cons_append, List.cons.injEq] at heq
                  exact hnone front back heq.2
          | some found =>
              rintro ⟨skipped, hbefore, hfirst⟩
              refine ⟨c :: skipped, by rw [hbefore, List.reverse_cons, List.append_assoc]; rfl,
                by rw [hfirst.eq]; rfl, fun front back heq => ?_⟩
              cases front with
              | nil => exact absurd heq (hstarts back)
              | cons d front =>
                  rw [List.cons_append, List.cons_append, List.cons.injEq] at heq
                  exact Nat.succ_le_succ (hfirst.first front back heq.2)

theorem cut?_eq_some_iff :
    cut? needle cs = some (before, after) ↔ IsFirst needle cs before after := by
  have hsearch := cut?_go needle [] cs
  rw [← cut?] at hsearch
  constructor
  · intro h
    rw [h] at hsearch
    rcases hsearch with ⟨skipped, hbefore, hfirst⟩
    rw [List.reverse_nil, List.nil_append] at hbefore
    rwa [hbefore]
  · intro h
    cases hcut : cut? needle cs with
    | none =>
        rw [hcut] at hsearch
        exact absurd h.eq (hsearch before after)
    | some found =>
        rw [hcut] at hsearch
        rcases hsearch with ⟨skipped, hbefore, hfirst⟩
        rw [List.reverse_nil, List.nil_append] at hbefore
        rcases hfirst.unique h with ⟨rfl, hafter⟩
        rw [← hbefore, ← hafter]

theorem exists_isFirst (front needle back : List Char) :
    ∃ before after, IsFirst needle (front ++ needle ++ back) before after := by
  have hoccurs := occurs_append needle front back
  rcases Option.isSome_iff_exists.1 hoccurs with ⟨⟨before, after⟩, hcut⟩
  exact ⟨before, after, cut?_eq_some_iff.1 hcut⟩

theorem occurs_iff : occurs needle cs = true ↔ needle <:+: cs := by
  constructor
  · intro h
    obtain ⟨⟨before, after⟩, hcut⟩ := Option.isSome_iff_exists.1 h
    exact ⟨before, after, (cut?_eq_some_iff.1 hcut).eq.symm⟩
  · rintro ⟨front, back, rfl⟩
    exact occurs_append needle front back

theorem replaceFirst_eq (h : IsFirst needle cs before after) (new : List Char) :
    replaceFirst needle new cs = before ++ new ++ after := by
  rw [replaceFirst, cut?_eq_some_iff.2 h]

/-! ## Many parts at once -/

/-- A text and the one with every occurrence of the left side of a rule replaced, all at once. -/
inductive Substituted (rule : List Char → List Char → Prop) : List Char → List Char → Prop where
  | nil : Substituted rule [] []
  | here {needle new cs out : List Char} :
      rule needle new → Substituted rule cs out → Substituted rule (needle ++ cs) (new ++ out)
  | past {c : Char} {cs out : List Char} :
      (∀ needle new, rule needle new → ¬ needle <+: c :: cs) → Substituted rule cs out →
        Substituted rule (c :: cs) (c :: out)

namespace Substituted

variable {rule : List Char → List Char → Prop}

/-- Rules of which at most one applies at a place leave no choice. -/
theorem unique (hne : ∀ needle new, rule needle new → needle ≠ [])
    (hexclude : ∀ needle new needle' new' cs, rule needle new → rule needle' new' → needle <+: cs →
      needle' <+: cs → needle = needle' ∧ new = new')
    {other : List Char} (h : Substituted rule cs out) (h' : Substituted rule cs other) :
    out = other := by
  induction h generalizing other with
  | nil =>
      generalize hcs : ([] : List Char) = cs at h'
      cases h' with
      | nil => rfl
      | here hrule _ => exact absurd (List.append_eq_nil_iff.1 hcs.symm).1 (hne _ _ hrule)
      | past => cases hcs
  | @here needle new cs out hrule _ ih =>
      generalize hcs : needle ++ cs = whole at h'
      cases h' with
      | nil => exact absurd (List.append_eq_nil_iff.1 hcs).1 (hne _ _ hrule)
      | here hrule' hrest =>
          rcases hexclude _ _ _ _ _ hrule hrule' ⟨cs, hcs⟩ ⟨_, rfl⟩ with ⟨rfl, rfl⟩
          cases List.append_cancel_left hcs
          rw [ih hrest]
      | past hnone _ => exact absurd ⟨cs, hcs⟩ (hnone _ _ hrule)
  | @past c cs out hnone _ ih =>
      generalize hcs : c :: cs = whole at h'
      cases h' with
      | nil => cases hcs
      | @here _ _ more _ hrule _ => exact absurd ⟨more, hcs.symm⟩ (hnone _ _ hrule)
      | past _ hrest =>
          cases hcs
          rw [ih hrest]

/-- Without rules a text stays as it is. -/
theorem refl (hnone : ∀ needle new, ¬ rule needle new) (cs : List Char) :
    Substituted rule cs cs := by
  induction cs with
  | nil =>
      exact .nil
  | cons c cs ih =>
      exact .past (fun needle new hrule => absurd hrule (hnone needle new)) ih

/-! ### Rules for parts that begin with one character -/

/-- A text without that character is passed over. -/
theorem of_append (hmark : ∀ needle new, rule needle new → needle.head? = some mark)
    (hfront : mark ∉ front) (h : Substituted rule (front ++ cs) out) :
    ∃ rest, out = front ++ rest ∧ Substituted rule cs rest := by
  induction front generalizing out with
  | nil =>
      exact ⟨out, rfl, h⟩
  | cons c front ih =>
      rw [List.mem_cons, not_or] at hfront
      generalize hcs : c :: front ++ cs = whole at h
      cases h with
      | nil => cases hcs
      | @here needle _ more _ hrule _ =>
          exact absurd ⟨more, hcs.symm⟩
            (not_prefix_cons (hmark _ _ hrule) (Ne.symm hfront.1) (front ++ cs))
      | past _ hrest =>
          cases hcs
          rcases ih hfront.2 hrest with ⟨rest, rfl, hcut⟩
          exact ⟨rest, rfl, hcut⟩

/-- A text without that character comes from where it stands. -/
theorem of_append_right (hmark : ∀ needle new, rule needle new → new.head? = some mark)
    (hfront : mark ∉ front) (h : Substituted rule cs (front ++ out)) :
    ∃ rest, cs = front ++ rest := by
  induction front generalizing cs with
  | nil =>
      exact ⟨cs, rfl⟩
  | cons c front ih =>
      rw [List.mem_cons, not_or] at hfront
      generalize hout : c :: front ++ out = whole at h
      cases h with
      | nil => cases hout
      | @here _ new _ more hrule _ =>
          exact absurd ⟨more, hout.symm⟩
            (not_prefix_cons (hmark _ _ hrule) (Ne.symm hfront.1) (front ++ out))
      | past _ hrest =>
          cases hout
          rcases ih hfront.2 hrest with ⟨rest, rfl⟩
          exact ⟨rest, rfl⟩

/-- Rules between parts that begin with a character and hold it nowhere else. -/
structure IsMarked (mark : Char) (rule : List Char → List Char → Prop) : Prop where
  left : ∀ needle new, rule needle new → ∃ tail, needle = mark :: tail ∧ mark ∉ tail
  right : ∀ needle new, rule needle new → ∃ tail, new = mark :: tail ∧ mark ∉ tail

theorem IsMarked.head?_left (h : IsMarked mark rule) :
    ∀ needle new, rule needle new → needle.head? = some mark := by
  intro needle new hrule
  rcases h.left needle new hrule with ⟨tail, rfl, -⟩
  rfl

theorem IsMarked.head?_right (h : IsMarked mark rule) :
    ∀ needle new, rule needle new → new.head? = some mark := by
  intro needle new hrule
  rcases h.right needle new hrule with ⟨tail, rfl, -⟩
  rfl

/-- A scan for one more part behind the others replaces it at once with them, if it finds nothing in
what they put in. -/
theorem scan {rule' : List Char → List Char → Prop} (hrule' : IsMarked mark rule')
    (hnew : rule' needle new) (hrules : ∀ n w, rule' n w ↔ rule n w ∨ n = needle ∧ w = new)
    (hfresh : ∀ n w, rule n w → ∀ rest, ¬ needle <+: w ++ rest) (h : Substituted rule cs out) :
    Substituted rule' cs (replaceAll needle new out) := by
  have hrule : IsMarked mark rule :=
    ⟨fun n w hr => hrule'.left n w ((hrules n w).2 (.inl hr)),
      fun n w hr => hrule'.right n w ((hrules n w).2 (.inl hr))⟩
  rcases hrule'.left needle new hnew with ⟨tail, hneedle, htail⟩
  have hhead : needle.head? = some mark := hrule'.head?_left needle new hnew
  induction h with
  | nil =>
      exact .nil
  | @here n w cs out hr _ ih =>
      rcases hrule.right n w hr with ⟨inner, hw, hinner⟩
      -- the scan goes over what has been put in: it finds nothing at its first character, nor
      -- behind it
      have hpast : replaceAll needle new (w ++ out) = w ++ replaceAll needle new out := by
        have hnone := hfresh n w hr out
        rw [hw, List.cons_append] at hnone ⊢
        rw [replaceAll_cons_of_not_starts hnone, replaceAll_append_of_not_mem hhead hinner]
        rfl
      rw [hpast]
      exact .here ((hrules n w).2 (.inl hr)) ih
  | @past c cs out hnone hrest ih =>
      by_cases hhere : needle <+: c :: cs
      · -- the part stands here: behind its first character nothing has been replaced
        rcases hhere with ⟨more, hmore⟩
        rw [hneedle, List.cons_append, List.cons.injEq] at hmore
        rcases hmore with ⟨rfl, rfl⟩
        rcases of_append hrule.head?_left htail hrest with ⟨after, rfl, -⟩
        rw [replaceAll_append_of_not_mem hhead htail] at ih
        rcases of_append hrule'.head?_left htail ih with ⟨after', hafter', hcut⟩
        cases List.append_cancel_left hafter'
        have hstep := Substituted.here hnew hcut
        rw [← replaceAll_append_of_ne_nil (by rw [hneedle]; simp), hneedle] at hstep
        rw [hneedle]
        exact hstep
      · -- the part does not stand here, and no other replacement has made it
        have hstill : ¬ needle <+: c :: out := by
          rintro ⟨more, hmore⟩
          rw [hneedle, List.cons_append, List.cons.injEq] at hmore
          rcases hmore with ⟨rfl, rfl⟩
          rcases of_append_right hrule.head?_right htail hrest with ⟨before, rfl⟩
          exact hhere ⟨before, by rw [hneedle]; rfl⟩
        rw [replaceAll_cons_of_not_starts hstill]
        refine .past (fun n w hr => ?_) ih
        rcases (hrules n w).1 hr with hr | ⟨rfl, -⟩
        · exact hnone n w hr
        · exact hhere

end Substituted

end Text
end ApiPages

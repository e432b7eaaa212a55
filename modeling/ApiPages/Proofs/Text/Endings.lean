import ApiPages.Text.Search
import Mathlib.Data.List.Basic

/-!
# Endings and parts

A text ends in another one if something can be put before that to give the text, and cutting the
ending off leaves what stands before it.  A text joined with others occurs in the whole, and the
parts between marks hold no mark.
-/

namespace ApiPages
namespace Text

theorem cutSuffix_append (front tail : String) : cutSuffix (front ++ tail) tail = front := by
  rw [cutSuffix, String.toList_append, List.isSuffixOf?_eq_some_iff_append_eq.2 rfl]
  exact String.ofList_toList

theorem cutSuffix_of_not_endsWith {s tail : String} (h : endsWith s tail = false) :
    cutSuffix s tail = s := by
  unfold cutSuffix
  cases hcut : tail.toList.isSuffixOf? s.toList with
  | none =>
      rfl
  | some rest =>
      have hsplit := List.isSuffixOf?_eq_some_iff_append_eq.1 hcut
      rw [endsWith, ← hsplit, List.isSuffixOf_iff_suffix.2 (List.suffix_append ..)] at h
      cases h

theorem endsWith_iff {s tail : String} : endsWith s tail = true ↔ ∃ front, s = front ++ tail := by
  rw [endsWith, List.isSuffixOf_iff_suffix]
  constructor
  · rintro ⟨front, hfront⟩
    refine ⟨String.ofList front, String.toList_injective ?_⟩
    rw [String.toList_append, String.toList_ofList, hfront]
  · rintro ⟨front, rfl⟩
    exact ⟨front.toList, String.toList_append.symm⟩

theorem occurs_append (needle front back : List Char) :
    occurs needle (front ++ needle ++ back) = true := by
  have hgo : ∀ (front before : List Char),
      (cut?.go needle before (front ++ needle ++ back)).isSome = true := by
    intro front
    induction front with
    | nil =>
        intro before
        have hhere : needle.isPrefixOf? (needle ++ back) = some back :=
          List.isPrefixOf?_eq_some_iff_append_eq.2 rfl
        unfold cut?.go
        rw [List.nil_append, hhere]
        rfl
    | cons c front ih =>
        intro before
        unfold cut?.go
        split
        · rfl
        · exact ih (c :: before)
  exact hgo front []

/-- The parts between marks hold no mark. -/
theorem not_mem_of_mem_splitOn (mark : Char) (cs : List Char) :
    ∀ part ∈ cs.splitOn mark, mark ∉ part := by
  induction cs with
  | nil =>
      intro part hpart
      rw [List.splitOn_nil, List.mem_singleton] at hpart
      simp [hpart]
  | cons c cs ih =>
      intro part hpart
      have hcons := List.splitOnP_cons_eq_if_modifyHead (p := (· == mark)) c cs
      change (c :: cs).splitOn mark = if (c == mark) = true then [] :: cs.splitOn mark
        else (cs.splitOn mark).modifyHead (List.cons c) at hcons
      rw [hcons] at hpart
      by_cases hc : c = mark
      · rw [if_pos (beq_iff_eq.2 hc)] at hpart
        rcases List.mem_cons.1 hpart with rfl | hpart
        · simp
        · exact ih part hpart
      · -- the character joins the first part
        rw [if_neg (mt beq_iff_eq.1 hc)] at hpart
        cases hs : cs.splitOn mark with
        | nil =>
            simp [hs] at hpart
        | cons first rest =>
            rw [hs] at hpart ih
            rcases List.mem_cons.1 hpart with rfl | hpart
            · rw [List.mem_cons, not_or]
              exact ⟨Ne.symm hc, ih first (List.mem_cons_self ..)⟩
            · exact ih part (List.mem_cons_of_mem _ hpart)

/-- Lines written one after the other are cut apart again, in front of any text. -/
theorem splitOn_lines_append {lines : List (List Char)} (h : ∀ l ∈ lines, '\n' ∉ l)
    (rest : List Char) :
    ((lines.flatMap fun l => l ++ ['\n']) ++ rest).splitOn '\n' = lines ++ rest.splitOn '\n' := by
  induction lines with
  | nil =>
      rfl
  | cons l lines ih =>
      have hline : l.splitOn '\n' = [l] :=
        List.splitOnP_eq_singleton fun c hc => beq_eq_false_iff_ne.2 fun heq =>
          h l (List.mem_cons_self ..) (heq ▸ hc)
      have hcut : (l ++ '\n' :: ((lines.flatMap fun l => l ++ ['\n']) ++ rest)).splitOn '\n' =
          l.splitOn '\n' ++ ((lines.flatMap fun l => l ++ ['\n']) ++ rest).splitOn '\n' :=
        List.splitOnP_append_cons _ _ rfl
      rw [hline, ih fun l hl => h l (List.mem_cons_of_mem _ hl)] at hcut
      simpa using hcut

end Text
end ApiPages

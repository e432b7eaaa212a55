import ApiPages.Text.Blank
import Mathlib.Data.List.TakeWhile

/-!
# Runs of characters

A run of a class of characters ends where none of the class follows.

* `takeWhile_run` and `dropWhile_run` cut a text behind such a run, and `exists_run` says that every
  text begins with one;
* `trimEnd_append` trims a text whose last part is trimmed away at most;
* `exists_copies` cuts off the copies of one character that a text begins with.
-/

namespace ApiPages
namespace Text

variable {p : Char → Bool} {run rest : List Char}

theorem takeWhile_run (hrun : ∀ c ∈ run, p c = true) (hrest : ∀ c ∈ rest.head?, p c = false) :
    (run ++ rest).takeWhile p = run := by
  rw [List.takeWhile_append_of_pos hrun]
  cases rest with
  | nil =>
      exact List.append_nil run
  | cons c rest =>
      rw [List.takeWhile_cons_of_neg (by simp [hrest c rfl]), List.append_nil]

theorem dropWhile_run (hrun : ∀ c ∈ run, p c = true) (hrest : ∀ c ∈ rest.head?, p c = false) :
    (run ++ rest).dropWhile p = rest := by
  rw [List.dropWhile_append_of_pos hrun]
  cases rest with
  | nil =>
      rfl
  | cons c rest =>
      exact List.dropWhile_cons_of_neg (by simp [hrest c rfl])

/-- What is left behind a run does not begin with a character of its class. -/
theorem head?_dropWhile_run (p : Char → Bool) (cs : List Char) :
    ∀ c ∈ (cs.dropWhile p).head?, p c = false := by
  intro c hc
  have hnot := List.head?_dropWhile_not p cs
  rw [Option.mem_def.1 hc] at hnot
  exact hnot

/-- Every text begins with a run of a class. -/
theorem exists_run (p : Char → Bool) (cs : List Char) :
    ∃ run rest, cs = run ++ rest ∧ (∀ c ∈ run, p c = true) ∧ ∀ c ∈ rest.head?, p c = false :=
  ⟨cs.takeWhile p, cs.dropWhile p, List.takeWhile_append_dropWhile.symm,
    fun _ hc => List.mem_takeWhile_imp hc, head?_dropWhile_run p cs⟩

/-! ## Trimming one end -/

/-- A text is trimmed behind a character that is kept. -/
theorem trimEnd_append {front : List Char} (h : ∀ c ∈ front.getLast?, p c = false)
    (back : List Char) : trimEnd p (front ++ back) = front ++ trimEnd p back := by
  have hhead : ∀ c ∈ front.reverse.head?, p c = false := by
    rwa [List.head?_reverse]
  have hfront : ([] ++ front.reverse).dropWhile p = front.reverse := dropWhile_run (by simp) hhead
  rw [trimEnd, trimEnd, List.reverse_append, List.dropWhile_append]
  rw [List.nil_append] at hfront
  rw [hfront]
  -- if all of the last part is trimmed away, the trimming stops at the end of the first one
  split
  · next hback =>
      rw [List.isEmpty_iff.1 hback]
      simp
  · simp

theorem trimEnd_starts (p : Char → Bool) (cs : List Char) : trimEnd p cs <+: cs := by
  refine ⟨(cs.reverse.takeWhile p).reverse, ?_⟩
  rw [trimEnd, ← List.reverse_append, List.takeWhile_append_dropWhile, List.reverse_reverse]

/-! ## Copies of one character -/

theorem takeWhile_replicate_append {mark : Char} (n : Nat) (hrest : ∀ c ∈ rest.head?, c ≠ mark) :
    (List.replicate n mark ++ rest).takeWhile (· == mark) = List.replicate n mark :=
  takeWhile_run (fun _ hc => beq_iff_eq.2 (List.eq_of_mem_replicate hc))
    (fun c hc => beq_eq_false_iff_ne.2 (hrest c hc))

/-- The copies of a character that a text begins with, and what is left behind them. -/
theorem exists_copies (mark : Char) (cs : List Char) :
    cs = List.replicate (cs.takeWhile (· == mark)).length mark ++
        cs.drop (cs.takeWhile (· == mark)).length ∧
      ∀ c ∈ (cs.drop (cs.takeWhile (· == mark)).length).head?, c ≠ mark := by
  rcases exists_run (· == mark) cs with ⟨run, rest, rfl, hrun, hrest⟩
  have hcopies : run = List.replicate run.length mark :=
    List.eq_replicate_iff.2 ⟨rfl, fun c hc => beq_iff_eq.1 (hrun c hc)⟩
  rw [takeWhile_run hrun hrest, List.drop_left, ← hcopies]
  exact ⟨rfl, fun c hc => beq_eq_false_iff_ne.1 (hrest c hc)⟩

end Text
end ApiPages

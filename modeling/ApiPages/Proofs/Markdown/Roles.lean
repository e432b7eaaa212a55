import ApiPages.Markdown.Shell
import ApiPages.Proofs.Markdown.Headings

/-!
# Roles of lines

Both edits of lines keep track of the fenced block they are in.  `roles` is what they know: whether
a line stands outside fenced blocks, opens one, belongs to one or closes one.

* `frameLines_eq` and `demoteLines_eq` say that the edits depend on nothing else: given the roles,
  each is an edit that looks for no fence any more.
-/

namespace ApiPages
namespace Markdown

variable {line next : List Char} {rest lines : List (List Char)} {fence : Option Fence}
  {o : Fence.Opening}

/-- What a line is to the fenced blocks of a document. -/
inductive Role where
  | outside
  | opener (fence : Fence)
  | content (fence : Fence)
  | closer (fence : Fence)
  deriving DecidableEq, Repr

/-- The fence that the lines behind a line are in. -/
def Role.fence? : Role → Option Fence
  | .opener f => some f
  | .content f => some f
  | .outside => none
  | .closer _ => none

/-- The role of a line in a fence, or in none. -/
def roleIn (fence : Option Fence) (line : List Char) : Role :=
  match fence with
  | some f => if f.closes line then .closer f else .content f
  | none =>
      match Fence.opening? line with
      | some o => .opener o.fence
      | none => .outside

/-- The roles of lines, the first of which is in a fence or in none. -/
def roles (fence : Option Fence) : List (List Char) → List Role
  | [] => []
  | line :: rest => roleIn fence line :: roles (roleIn fence line).fence? rest

theorem roleIn_opening (h : Fence.opening? line = some o) : roleIn none line = .opener o.fence := by
  rw [roleIn, h]

theorem roleIn_outside (h : Fence.opening? line = none) : roleIn none line = .outside := by
  rw [roleIn, h]

/-- Inside a fence, the next line is inside it too unless the line closes it. -/
theorem fence?_roleIn (f : Fence) (line : List Char) :
    (roleIn (some f) line).fence? = if f.closes line then none else some f := by
  rw [roleIn]
  split <;> rfl

theorem length_roles (fence : Option Fence) (lines : List (List Char)) :
    (roles fence lines).length = lines.length := by
  induction lines generalizing fence with
  | nil =>
      rfl
  | cons line rest ih =>
      rw [roles, List.length_cons, List.length_cons, ih]

/-! ## Framing by roles -/

/-- An opening line as it stands after shell blocks are framed. -/
def framed (o : Fence.Opening) (line : List Char) : List Char :=
  if shellNames.contains (String.ofList o.word) &&
    !Text.occurs "frame=".toList o.rest then framedOpening line
  else line

/-- A line of a given role as it stands after shell blocks are framed. -/
def frameLine (line : List Char) : Role → List Char
  | .opener _ =>
      match Fence.opening? line with
      | some o => framed o line
      | none => line
  | _ => line

theorem frameLines_fenced (f : Fence) (line : List Char) (rest : List (List Char)) :
    frameLines (some f) (line :: rest) =
      line :: frameLines (if f.closes line then none else some f) rest :=
  rfl

theorem frameLines_opening (h : Fence.opening? line = some o) (rest : List (List Char)) :
    frameLines none (line :: rest) = framed o line :: frameLines (some o.fence) rest := by
  rw [frameLines, h]
  rfl

theorem frameLines_outside (h : Fence.opening? line = none) (rest : List (List Char)) :
    frameLines none (line :: rest) = line :: frameLines none rest := by
  rw [frameLines, h]

theorem frameLines_eq (fence : Option Fence) (lines : List (List Char)) :
    frameLines fence lines = List.zipWith frameLine lines (roles fence lines) := by
  induction lines generalizing fence with
  | nil =>
      rw [frameLines]
      rfl
  | cons line rest ih =>
      rw [roles, List.zipWith_cons_cons]
      cases fence with
      | some f =>
          have hline : frameLine line (roleIn (some f) line) = line := by
            rw [roleIn]
            split <;> rfl
          rw [frameLines_fenced, hline, fence?_roleIn, ih]
      | none =>
          cases hopen : Fence.opening? line with
          | some o =>
              have hline : frameLine line (.opener o.fence) = framed o line := by
                rw [frameLine, hopen]
              rw [frameLines_opening hopen, roleIn_opening hopen, hline, ih]
              rfl
          | none =>
              rw [frameLines_outside hopen, roleIn_outside hopen, ih]
              rfl

/-! ## Moving headings by roles -/

/-- Moves the headings among the lines that stand outside fenced blocks down.  All other lines are
kept. -/
def demoteOutside (offset : Nat) : List (List Char × Role) → List (List Char)
  | [] => []
  | (line, .outside) :: rest =>
      match atx? line with
      | some (indent, level, after) =>
          demotedAtx offset indent level after :: demoteOutside offset rest
      | none =>
          match rest with
          | [] => [line]
          | (next, role) :: more =>
              match (if role = .outside ∧ isParagraph line then underline? next else none) with
              | some level => demotedTitle offset level line :: demoteOutside offset more
              | none => line :: demoteOutside offset ((next, role) :: more)
  | (line, _) :: rest => line :: demoteOutside offset rest

section Outside

variable (offset : Nat)

theorem demoteOutside_heading {indent after : List Char} {level : Nat}
    (h : atx? line = some (indent, level, after)) (rest : List (List Char × Role)) :
    demoteOutside offset ((line, .outside) :: rest) =
      demotedAtx offset indent level after :: demoteOutside offset rest := by
  rw [demoteOutside.eq_def]
  simp only [h]

theorem demoteOutside_title {level : Nat} (hatx : atx? line = none)
    (hlevel : titleLevel? line (next :: lines) = some level) (rest : List (List Char × Role)) :
    demoteOutside offset ((line, .outside) :: (next, .outside) :: rest) =
      demotedTitle offset level line :: demoteOutside offset rest := by
  change (if isParagraph line then underline? next else none) = some level at hlevel
  rw [demoteOutside.eq_def]
  simp only [hatx, true_and, hlevel]

theorem demoteOutside_plain (hatx : atx? line = none) {rest : List (List Char × Role)}
    (hlevel : titleLevel? line (rest.map Prod.fst) = none) :
    demoteOutside offset ((line, .outside) :: rest) = line :: demoteOutside offset rest := by
  cases rest with
  | nil =>
      simp only [demoteOutside, hatx]
  | cons next rest =>
      have hnone : (if next.2 = .outside ∧ isParagraph line then underline? next.1 else none) =
          none := by
        split
        · next h =>
            change (if isParagraph line then underline? next.1 else none) = none at hlevel
            rwa [if_pos h.2] at hlevel
        · rfl
      rw [demoteOutside.eq_def]
      simp only [hatx, hnone]

end Outside

theorem demoteLines_eq (offset : Nat) (fence : Option Fence) (lines : List (List Char)) :
    demoteLines offset fence lines = demoteOutside offset (lines.zip (roles fence lines)) := by
  induction passage fence lines with
  | done fence =>
      rw [demoteLines_nil]
      rfl
  | fenced f line _ ih =>
      rw [demoteLines_fenced, ih, roles, List.zip_cons_cons, fence?_roleIn, roleIn]
      split <;> rfl
  | opening hopen _ ih =>
      rw [demoteLines_opening offset hopen, ih, roles, List.zip_cons_cons, roleIn_opening hopen]
      rfl
  | heading hatx _ ih =>
      rw [demoteLines_heading offset hatx, ih, roles, List.zip_cons_cons,
        roleIn_outside (opening?_eq_none_of_atx? hatx), demoteOutside_heading offset hatx]
      rfl
  | title hopen hatx hlevel _ ih =>
      -- an underline opens no block, so that it stands outside blocks as the title does
      have hnext := opening?_eq_none_of_titleLevel? hlevel
      rw [demoteLines_title offset hopen hatx hlevel, ih, roles, List.zip_cons_cons,
        roleIn_outside hopen, Role.fence?, roles, List.zip_cons_cons, roleIn_outside hnext,
        demoteOutside_title offset hatx hlevel]
      rfl
  | @plain line rest hopen hatx hlevel _ ih =>
      have hlines : (rest.zip (roles none rest)).map Prod.fst = rest :=
        List.map_fst_zip (Nat.le_of_eq (length_roles none rest).symm)
      rw [demoteLines_plain offset hopen hatx hlevel, ih, roles, List.zip_cons_cons,
        roleIn_outside hopen, Role.fence?, demoteOutside_plain offset hatx (by rwa [hlines])]

/-! ## Documents -/

/-- A document whose lines have the given roles, with its headings moved down. -/
def demotedBy (survey : Surveyor) (top : Int) (src : String) (found : List Role) : String :=
  if 1 < top ∧ (survey src).hasHeading = true then
    ofLines (demoteOutside (top - 1).toNat ((linesOf src).zip found))
  else src

/-- A document whose lines have the given roles, with its shell blocks framed. -/
def framedBy (survey : Surveyor) (src : String) (found : List Role) : String :=
  if (survey src).hasShellFence = true then ofLines (List.zipWith frameLine (linesOf src) found)
    else src

theorem demoteHeadings_eq_demotedBy (survey : Surveyor) (top : Int) (src : String) :
    demoteHeadings survey top src = demotedBy survey top src (roles none (linesOf src)) := by
  unfold demotedBy
  split
  · next h =>
      rw [demoteHeadings_of_hasHeading h.2 h.1, demoteLines_eq]
  · next h =>
      rcases Int.lt_or_le 1 top with htop | htop
      · exact demoteHeadings_of_not_hasHeading
          (Bool.eq_false_iff.2 fun hheading => h ⟨htop, hheading⟩) top
      · exact demoteHeadings_of_le survey src htop

theorem frameShellBlocks_eq_framedBy (survey : Surveyor) (src : String) :
    frameShellBlocks survey src = framedBy survey src (roles none (linesOf src)) := by
  rw [framedBy, ← frameLines_eq]
  rfl

end Markdown
end ApiPages

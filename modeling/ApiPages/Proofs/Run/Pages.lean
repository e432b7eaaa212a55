import ApiPages.Page.Basic
import ApiPages.Proofs.Files.Frames
import ApiPages.Proofs.Run.Actions

/-!
# Rows of pages

Pages are written one after the other, and a later page may go to where an earlier one went.

* `Page.saveAll` writes a row of pages, `Page.lastAt?` is the page of a row that went to a place
  last;
* `Page.node?_saveAll` says which files there are after a row, `Page.read_saveAll` that its pages
  can be read.
-/

namespace ApiPages

open SlashPath

theorem SlashPath.isClean_join_of_ne {parts : List String} (h : join parts ≠ "") :
    IsClean (join parts) := by
  unfold join at h ⊢
  generalize parts.filter (fun p => !p.isEmpty) = kept at h ⊢
  cases kept with
  | nil =>
      exact absurd rfl h
  | cons part rest =>
      exact isClean_clean _

theorem FileTree.ne_empty_of_save {t t' : FileTree} {path : String} {b : Bytes}
    (h : t.save path b = .ok t') : path ≠ "" := by
  rintro rfl
  rcases save_eq_ok_iff.1 h with ⟨t₁, -, hwrite⟩
  cases hwrite

namespace Page

/-- The path to which a page is written. -/
def pathIn (dir : String) (p : Page) : String :=
  join [dir, p.file]

/-- Writes pages in order, up to the first that cannot be written. -/
def saveAll (f : HeaderFormat) (dir : String) (t : FileTree) (pages : List Page) :
    Except OsError FileTree :=
  pages.foldlM (fun t p => t.save (p.pathIn dir) (p.bytes f)) t

/-- The page that goes to a place last. -/
def lastAt? (dir : String) (pages : List Page) (q : Place) : Option Page :=
  (pages.filter fun p => Place.ofPath (p.pathIn dir) == q).getLast?

variable {f : HeaderFormat} {dir path : String} {p : Page} {pages rest : List Page}
  {t t' : FileTree}
  {q : Place} {b : Bytes}

/-! ## One page more -/

theorem saveAll_cons_eq_ok : saveAll f dir t (p :: rest) = .ok t' ↔
    ∃ t₁, t.save (p.pathIn dir) (p.bytes f) = .ok t₁ ∧ saveAll f dir t₁ rest = .ok t' := by
  rw [saveAll, List.foldlM_cons]
  cases t.save (p.pathIn dir) (p.bytes f) with
  | error e =>
      exact ⟨fun h => (nomatch h), fun ⟨_, h, _⟩ => (nomatch h)⟩
  | ok t₁ =>
      refine ⟨fun h => ⟨t₁, rfl, h⟩, fun ⟨_, h, hrest⟩ => ?_⟩
      cases h
      exact hrest

theorem saveAll_append_eq_ok_iff : saveAll f dir t (pages ++ rest) = .ok t' ↔
    ∃ t₁, saveAll f dir t pages = .ok t₁ ∧ saveAll f dir t₁ rest = .ok t' := by
  induction pages generalizing t with
  | nil =>
      exact ⟨fun h => ⟨t, rfl, h⟩, fun ⟨_, h, hrest⟩ => Except.ok.inj h ▸ hrest⟩
  | cons p pages ih =>
      rw [List.cons_append, saveAll_cons_eq_ok]
      constructor
      · rintro ⟨t₁, hsave, hall⟩
        rcases ih.1 hall with ⟨t₂, hpages, hrest⟩
        exact ⟨t₂, saveAll_cons_eq_ok.2 ⟨t₁, hsave, hpages⟩, hrest⟩
      · rintro ⟨t₂, hpages, hrest⟩
        rcases saveAll_cons_eq_ok.1 hpages with ⟨t₁, hsave, hpages'⟩
        exact ⟨t₁, hsave, ih.2 ⟨t₂, hpages', hrest⟩⟩

theorem lastAt?_cons (dir : String) (p : Page) (rest : List Page) (q : Place) :
    lastAt? dir (p :: rest) q =
      (lastAt? dir rest q).or (if Place.ofPath (p.pathIn dir) = q then some p else none) := by
  rw [lastAt?, List.filter_cons]
  by_cases hq : Place.ofPath (p.pathIn dir) = q
  · rw [if_pos (beq_iff_eq.2 hq), if_pos hq, List.getLast?_cons, lastAt?]
    cases (rest.filter fun p => Place.ofPath (p.pathIn dir) == q).getLast? <;> rfl
  · rw [if_neg (mt beq_iff_eq.1 hq), if_neg hq, Option.or_none, lastAt?]

theorem isClean_pathIn_of_save (h : t.save (p.pathIn dir) b = .ok t') : IsClean (p.pathIn dir) :=
  isClean_join_of_ne (FileTree.ne_empty_of_save h)

/-! ## Whole rows -/

/-- After a row of pages a file is the page that went to its place last, or was there before. -/
theorem node?_saveAll (h : saveAll f dir t pages = .ok t') (q : Place) (b : Bytes) :
    t'.node? q = some (.file b) ↔
      match lastAt? dir pages q with
      | some p => b = p.bytes f
      | none => t.node? q = some (.file b) := by
  induction pages generalizing t with
  | nil =>
      cases h
      rfl
  | cons p rest ih =>
      rcases saveAll_cons_eq_ok.1 h with ⟨t₁, hsave, hrest⟩
      rw [ih hrest, lastAt?_cons]
      cases lastAt? dir rest q with
      | some p' =>
          rfl
      | none =>
          have hfirst := FileTree.node?_save_file (isClean_pathIn_of_save hsave) hsave q b
          rw [Option.none_or]
          dsimp only
          rw [hfirst]
          by_cases hq : Place.ofPath (p.pathIn dir) = q
          · rw [if_pos hq, if_pos hq.symm]
          · rw [if_neg hq, if_neg (Ne.symm hq)]

/-- A path leads to the same as before if no page of the row goes to its place. -/
theorem leads_saveAll {place : Place} {n : FileNode} (h : saveAll f dir t pages = .ok t')
    (hleads : t.Leads path place n) (hne : ∀ p ∈ pages, Place.ofPath (p.pathIn dir) ≠ place) :
    t'.Leads path place n := by
  induction pages generalizing t with
  | nil =>
      cases h
      exact hleads
  | cons p rest ih =>
      rcases saveAll_cons_eq_ok.1 h with ⟨t₁, hsave, hrest⟩
      have hfirst := hne p (List.mem_cons_self ..)
      refine ih hrest ?_ fun p' hp' => hne p' (List.mem_cons_of_mem _ hp')
      exact hleads.save (isClean_pathIn_of_save hsave) hsave hfirst.symm

theorem lastAt?_eq_none_iff :
    lastAt? dir pages q = none ↔ ∀ p ∈ pages, Place.ofPath (p.pathIn dir) ≠ q := by
  rw [lastAt?, List.getLast?_eq_none_iff, List.filter_eq_nil_iff]
  exact forall₂_congr fun p _ => not_congr beq_iff_eq

/-- The page that went to a place last can be read there. -/
theorem read_saveAll (h : saveAll f dir t pages = .ok t') (hlast : lastAt? dir pages q = some p) :
    t'.read (p.pathIn dir) = .ok (p.bytes f) := by
  induction pages generalizing t with
  | nil =>
      cases hlast
  | cons first rest ih =>
      rcases saveAll_cons_eq_ok.1 h with ⟨t₁, hsave, hrest⟩
      rw [lastAt?_cons] at hlast
      cases hlater : lastAt? dir rest q with
      | some p' =>
          rw [hlater] at hlast
          cases hlast
          exact ih hrest hlater
      | none =>
          rw [hlater, Option.none_or] at hlast
          split at hlast
          · next hq =>
              cases hlast
              have hclean := isClean_pathIn_of_save hsave
              have hread := FileTree.read_save hclean hsave
              rw [FileTree.read_eq_ok_iff_look] at hread ⊢
              rcases FileTree.look_eq_ok_iff_leads.1 hread with ⟨place, hleads⟩
              have hplace : place = q :=
                ((FileTree.resolve_eq_ok_iff hclean).1 hleads.resolve).1.trans hq
              -- no later page goes to the place of this one, so it stays
              refine FileTree.look_eq_ok_iff_leads.2 ⟨place, leads_saveAll hrest hleads ?_⟩
              rw [hplace]
              exact lastAt?_eq_none_iff.1 hlater
          · cases hlast

end Page

/-! ## Writing one page -/

namespace Action

variable {w : Workspace} {dir name : String} {content : Bytes}

theorem keeps_writePage (dir name : String) (content : Bytes) :
    Keeps (writePage dir name content) :=
  (keeps_change _).bind fun _ => keeps_pure _

theorem run_writePage_ok {t : FileTree}
    (h : w.files.save (join [dir, name]) content = .ok t) :
    (writePage dir name content).run w = (none, { w with files := t }) := by
  have hchange : (change fun t => t.save (join [dir, name]) content).run w =
      (none, { w with files := t }) := run_change_ok h
  unfold writePage
  rw [run_bind, hchange]
  rfl

theorem run_writePage_error {e : OsError}
    (h : w.files.save (join [dir, name]) content = .error e) :
    (writePage dir name content).run w = (some (.write (join [dir, name]) e), w) := by
  have hchange : (change fun t => t.save (join [dir, name]) content).run w = (some e, w) :=
    run_change_error h
  unfold writePage
  rw [run_bind, hchange]
  rfl

end Action
end ApiPages

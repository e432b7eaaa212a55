import ApiPages.Page.Schema
import ApiPages.Proofs.Files.Paths
import ApiPages.Proofs.Text.Endings
import Mathlib.Data.List.TakeWhile

/-!
# Names of schema pages

The page of a definition file is named by the file without its ending, except for one file, whose
page is the main page.

* `SchemaPage.fileName_eq` gives the name of the page of a definition file;
* `SchemaPage.fileName_eq_iff` says which definition files share a page: those of one name, and the
  file that the main page is for with the file that is named like the main page.
-/

namespace ApiPages

open SlashPath

namespace SlashPath

theorem slash_not_mem_lastElement (cs : List Char) : '/' ∉ lastElement cs := by
  rw [lastElement, List.mem_reverse]
  intro hmem
  have hslash : ('/' != '/') = true := List.mem_takeWhile_imp (p := fun c => c != '/') hmem
  exact absurd hslash (by decide)

theorem lastElement_of_not_mem {cs : List Char} (h : '/' ∉ cs) : lastElement cs = cs := by
  have hall : ∀ c ∈ cs.reverse, (c != '/') = true := by
    intro c hc
    have hc' : c ∈ cs := List.mem_reverse.1 hc
    exact bne_iff_ne.2 fun heq => h (heq ▸ hc')
  rw [lastElement, List.takeWhile_eq_self_iff.2 hall, List.reverse_reverse]

theorem slash_not_mem_base {path : String} (h : base path ≠ "/") : '/' ∉ (base path).toList := by
  rw [base] at h ⊢
  split
  · decide
  · next hpath =>
      rw [if_neg hpath] at h
      dsimp only
      split
      · next hroot =>
          rw [if_pos hroot] at h
          exact absurd rfl h
      · rw [String.toList_ofList]
        exact slash_not_mem_lastElement _

/-- A point and what stands behind it is the extension of a name, if no other point follows. -/
theorem ext_append {stem ending : String} {letters : List Char}
    (hending : ending.toList = '.' :: letters) (hstem : '/' ∉ stem.toList) (hslash : '/' ∉ letters)
    (hpoint : '.' ∉ letters) :
    ext (stem ++ ending) = ending := by
  have hlist : (stem ++ ending).toList = stem.toList ++ '.' :: letters := by
    rw [String.toList_append, hending]
  have hname : '/' ∉ (stem ++ ending).toList := by
    rw [hlist]
    simp [hstem, hslash]
  have hall : ∀ c ∈ letters.reverse, (c != '.') = true := by
    intro c hc
    have hc' : c ∈ letters := List.mem_reverse.1 hc
    exact bne_iff_ne.2 fun heq => hpoint (heq ▸ hc')
  rw [ext, lastElement_of_not_mem hname, hlist, if_pos (by simp), List.reverse_append,
    List.reverse_cons, List.append_assoc, List.takeWhile_append_of_pos hall]
  apply String.toList_injective
  simp [hending]

/-- What ends in a name is a name, if it has no slash. -/
theorem isName_append {stem e : String} (h : IsName e.toList) (hslash : '/' ∉ stem.toList) :
    IsName (stem ++ e).toList := by
  rw [String.toList_append]
  refine ⟨List.append_ne_nil_of_right_ne_nil _ h.1, fun hdot => ?_, fun hup => ?_, fun hmem => ?_⟩
  · rcases List.append_eq_singleton_iff.1 hdot with ⟨-, heq⟩ | ⟨-, heq⟩
    · exact h.2.1 heq
    · exact h.1 heq
  · -- the two points are the ending, or one of them is
    cases hstem : stem.toList with
    | nil =>
        rw [hstem] at hup
        exact h.2.2.1 hup
    | cons c rest =>
        rw [hstem, List.cons_append] at hup
        rcases List.append_eq_singleton_iff.1 (List.cons.inj hup).2 with ⟨-, heq⟩ | ⟨-, heq⟩
        · exact h.2.1 heq
        · exact h.1 heq
  · exact (List.mem_append.1 hmem).elim hslash h.2.2.2

end SlashPath

namespace SchemaPage

variable {file file' ext : String}

theorem slash_not_mem_stem {stem : String} (h : base file = stem ++ ".proto") :
    '/' ∉ stem.toList := by
  have hroot : base file ≠ "/" := by
    rw [h]
    intro heq
    have hlength := congrArg (fun s : String => s.toList.length) heq
    simp at hlength
  have hslash := slash_not_mem_base hroot
  rw [h, String.toList_append] at hslash
  exact fun hmem => hslash (List.mem_append_left _ hmem)

theorem baseName_eq {stem : String} (h : base file = stem ++ ".proto") : baseName file = stem := by
  have hext : SlashPath.ext (stem ++ ".proto") = ".proto" :=
    ext_append rfl (slash_not_mem_stem h) (by decide) (by decide)
  rw [baseName, h, hext, Text.cutSuffix_append]

/-- The stem of a page's name. -/
theorem fileName_eq {stem : String} (h : base file = stem ++ ".proto") (ext : String) :
    fileName file ext = (if stem = "service" then "api" else stem) ++ Page.normalExtension ext := by
  rw [fileName, baseName_eq h, h]
  by_cases hstem : stem = "service"
  · rw [if_pos hstem, hstem]
    rfl
  · rw [if_neg hstem, if_neg]
    rw [beq_iff_eq]
    exact fun heq => hstem (String.append_left_inj ".proto" |>.1 heq)

/-- With an extension that is a name, the name of a page is one. -/
theorem isName_fileName (h : Text.endsWith (base file) ".proto" = true)
    (hext : IsName (Page.normalExtension ext).toList) : IsName (fileName file ext).toList := by
  rcases Text.endsWith_iff.1 h with ⟨stem, hstem⟩
  rw [fileName_eq hstem]
  apply isName_append hext
  split
  · decide
  · exact slash_not_mem_stem hstem

/-- Definition files share a page if they have one name, or if one is the file of the main page and
the other one is named like that page. -/
theorem fileName_eq_iff (h : Text.endsWith (base file) ".proto" = true)
    (h' : Text.endsWith (base file') ".proto" = true) (ext : String) :
    fileName file ext = fileName file' ext ↔
      base file = base file' ∨ base file = "api.proto" ∧ base file' = "service.proto" ∨
        base file = "service.proto" ∧ base file' = "api.proto" := by
  rcases Text.endsWith_iff.1 h with ⟨stem, hstem⟩
  rcases Text.endsWith_iff.1 h' with ⟨stem', hstem'⟩
  have hcancel : ∀ a b c : String, a ++ c = b ++ c ↔ a = b := fun a b c => String.append_left_inj c
  have happ : ("api.proto" : String) = "api" ++ ".proto" := rfl
  have hservice : ("service.proto" : String) = "service" ++ ".proto" := rfl
  -- all four names end alike, so their stems are compared, and only one stem is renamed
  rw [fileName_eq hstem, fileName_eq hstem', hstem, hstem', happ, hservice]
  simp only [hcancel]
  by_cases hs : stem = "service"
  · by_cases hs' : stem' = "service"
    · rw [if_pos hs, if_pos hs', hs, hs']
      exact ⟨fun _ => .inl rfl, fun _ => rfl⟩
    · rw [if_pos hs, if_neg hs', hs]
      refine ⟨fun heq => .inr (.inr ⟨rfl, heq.symm⟩), ?_⟩
      rintro (heq | ⟨heq, -⟩ | ⟨-, heq⟩)
      · exact absurd heq.symm hs'
      · exact absurd heq (by decide)
      · exact heq.symm
  · by_cases hs' : stem' = "service"
    · rw [if_neg hs, if_pos hs', hs']
      refine ⟨fun heq => .inr (.inl ⟨heq, rfl⟩), ?_⟩
      rintro (heq | ⟨heq, -⟩ | ⟨heq, -⟩)
      · exact absurd heq hs
      · exact heq
      · exact absurd heq hs
    · rw [if_neg hs, if_neg hs']
      refine ⟨.inl, ?_⟩
      rintro (heq | ⟨-, heq⟩ | ⟨heq, -⟩)
      · exact heq
      · exact absurd heq hs'
      · exact absurd heq hs

end SchemaPage
end ApiPages

import ApiPages.Page.Basic
import Mathlib.Data.List.Basic

/-!
# Headers of pages

A document has a header if it begins with one, and a header that is written is found again, whatever
follows it and whatever its format.

* `FrontMatter.IsHeaded` says what it means to begin with a header, and `isPresent_iff` that the
  search for a header decides it;
* `FrontMatter.isPresent_encode_append` says so of a text behind a header;
* `FrontMatter.isPresent_ensure` and `Page.isPresent_content` say so of completed documents and of
  pages.
-/

namespace ApiPages

namespace FrontMatter

/-! ## Documents with a header -/

/-- The two ways to end a line. -/
def IsBreak (b : List Char) : Prop :=
  b = ['\n'] ∨ b = ['\r', '\n']

/-- A document begins with a header: a line of three hyphens, lines of any kind, and a line of three
hyphens that is ended as well. -/
def IsHeaded (src : String) : Prop :=
  ∃ b header b' b'' body, IsBreak b ∧ IsBreak b' ∧ IsBreak b'' ∧
    src.toList = "---".toList ++ b ++ header ++ b' ++ "---".toList ++ b'' ++ body

theorem lineBreak?_eq_some_iff {cs rest : List Char} :
    lineBreak? cs = some rest ↔ ∃ b, IsBreak b ∧ cs = b ++ rest := by
  constructor
  · intro h
    unfold lineBreak? at h
    split at h
    · cases h
      exact ⟨['\r', '\n'], .inr rfl, rfl⟩
    · cases h
      exact ⟨['\n'], .inl rfl, rfl⟩
    · cases h
  · rintro ⟨b, rfl | rfl, rfl⟩
    · rfl
    · rfl

theorem delimiter?_eq_some_iff {cs rest : List Char} :
    delimiter? cs = some rest ↔ ∃ b, IsBreak b ∧ cs = "---".toList ++ b ++ rest := by
  rw [delimiter?, Option.bind_eq_some_iff]
  constructor
  · rintro ⟨line, hline, hrest⟩
    obtain ⟨b, hb, rfl⟩ := lineBreak?_eq_some_iff.1 hrest
    refine ⟨b, hb, ?_⟩
    rw [List.append_assoc]
    exact (List.isPrefixOf?_eq_some_iff_append_eq.1 hline).symm
  · rintro ⟨b, hb, rfl⟩
    refine ⟨b ++ rest, ?_, lineBreak?_eq_some_iff.2 ⟨b, hb, rfl⟩⟩
    rw [List.append_assoc]
    exact List.isPrefixOf?_eq_some_iff_append_eq.2 rfl

/-- The search finds a closing delimiter if there is one. -/
theorem isSome_findEnd_iff (before cs : List Char) : (findEnd before cs).isSome = true ↔
    ∃ header b b' body, IsBreak b ∧ IsBreak b' ∧
      cs = header ++ b ++ "---".toList ++ b' ++ body := by
  have hhere : ∀ {cs rest : List Char}, (lineBreak? cs).bind delimiter? = some rest ↔
      ∃ b b', IsBreak b ∧ IsBreak b' ∧ cs = b ++ "---".toList ++ b' ++ rest := by
    intro cs rest
    rw [Option.bind_eq_some_iff]
    constructor
    · rintro ⟨line, hline, hrest⟩
      obtain ⟨b, hb, rfl⟩ := lineBreak?_eq_some_iff.1 hline
      obtain ⟨b', hb', rfl⟩ := delimiter?_eq_some_iff.1 hrest
      exact ⟨b, b', hb, hb', by simp⟩
    · rintro ⟨b, b', hb, hb', rfl⟩
      exact ⟨"---".toList ++ b' ++ rest, lineBreak?_eq_some_iff.2 ⟨b, hb, by simp⟩,
        delimiter?_eq_some_iff.2 ⟨b', hb', rfl⟩⟩
  induction cs generalizing before with
  | nil =>
      refine iff_of_false Bool.false_ne_true ?_
      rintro ⟨header, b, b', body, -, -, heq⟩
      simp at heq
  | cons c cs ih =>
      rw [findEnd]
      cases hfound : (lineBreak? (c :: cs)).bind delimiter? with
      | some rest =>
          obtain ⟨b, b', hb, hb', heq⟩ := hhere.1 hfound
          exact iff_of_true rfl ⟨[], b, b', rest, hb, hb', heq⟩
      | none =>
          refine (ih (c :: before)).trans ?_
          constructor
          · rintro ⟨header, b, b', body, hb, hb', rfl⟩
            exact ⟨c :: header, b, b', body, hb, hb', rfl⟩
          · rintro ⟨header, b, b', body, hb, hb', heq⟩
            cases header with
            | nil =>
                -- a delimiter right here would have been found
                rw [hhere.2 ⟨b, b', hb, hb', heq⟩] at hfound
                cases hfound
            | cons d header =>
                cases heq
                exact ⟨header, b, b', body, hb, hb', rfl⟩

theorem isPresent_iff (src : String) : isPresent src = true ↔ IsHeaded src := by
  have hsome : isPresent src = true ↔
      ∃ rest, delimiter? src.toList = some rest ∧ (findEnd [] rest).isSome = true := by
    unfold isPresent split?
    cases delimiter? src.toList with
    | none =>
        simp
    | some rest =>
        cases hend : findEnd [] rest with
        | none =>
            simp [hend]
        | some parts =>
            simp [hend]
  rw [hsome]
  constructor
  · rintro ⟨rest, hopen, hclose⟩
    obtain ⟨b, hb, hsrc⟩ := delimiter?_eq_some_iff.1 hopen
    obtain ⟨header, b', b'', body, hb', hb'', rfl⟩ := (isSome_findEnd_iff _ _).1 hclose
    exact ⟨b, header, b', b'', body, hb, hb', hb'', by rw [hsrc]; simp⟩
  · rintro ⟨b, header, b', b'', body, hb, hb', hb'', hsrc⟩
    refine ⟨header ++ b' ++ "---".toList ++ b'' ++ body, ?_, ?_⟩
    · exact delimiter?_eq_some_iff.2 ⟨b, hb, by rw [hsrc]; simp⟩
    · exact (isSome_findEnd_iff _ _).2 ⟨header, b', b'', body, hb', hb'', rfl⟩

/-! ## Headers that are written -/

variable (f : HeaderFormat)

/-- What a format writes ends with a line end, which the closing delimiter needs. -/
theorem isPresent_encode_append (h : FrontMatter) (src : String) :
    isPresent (h.encode f ++ src) = true := by
  obtain ⟨text, htext⟩ := f.exists_write_eq h
  rw [isPresent_iff]
  refine ⟨['\n'], text.toList, ['\n'], ['\n'], '\n' :: src.toList, .inl rfl, .inl rfl, .inl rfl, ?_⟩
  rw [encode, htext]
  simp [String.toList_append]

theorem isPresent_ensure (src : String) (h : FrontMatter) : isPresent (ensure f src h) = true := by
  unfold ensure
  split
  · next hpresent =>
      exact hpresent
  · exact isPresent_encode_append f h src

end FrontMatter

theorem Page.isPresent_content (f : HeaderFormat) (p : Page) :
    FrontMatter.isPresent (p.content f) = true :=
  FrontMatter.isPresent_encode_append f p.frontMatter p.body

end ApiPages

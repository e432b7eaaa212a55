import ApiPages.Proofs.Page.Headers
import ApiPages.Proofs.Page.RoundTrip

/-!
# Completed documents

A document is given a header unless it begins with one.  `FrontMatter.ensure_settles` says what
becomes of it: its text stays, one header is enough, and the header that was put in front is read
back if its format keeps it.
-/

namespace ApiPages

namespace FrontMatter

variable (f : HeaderFormat) {src : String} {h : FrontMatter}

theorem ensure_of_isPresent (hpresent : isPresent src = true) (h : FrontMatter) :
    ensure f src h = src :=
  if_pos hpresent

theorem ensure_of_not_isPresent (habsent : isPresent src = false) (h : FrontMatter) :
    ensure f src h = h.encode f ++ src :=
  if_neg (by rw [habsent]; exact Bool.false_ne_true)

/-- What a document is completed with stands in front of it. -/
theorem suffix_ensure (src : String) (h : FrontMatter) :
    src.toList <:+ (ensure f src h).toList := by
  cases hpresent : isPresent src with
  | true =>
      have hself : ensure f src h = src := ensure_of_isPresent f hpresent h
      exact hself.symm ▸ List.suffix_rfl
  | false =>
      rw [ensure_of_not_isPresent f hpresent, String.toList_append]
      exact List.suffix_append ..

/-- A document is left alone exactly if it has a header. -/
theorem ensure_eq_self_iff : ensure f src h = src ↔ isPresent src = true := by
  constructor
  · intro heq
    rw [← heq]
    exact isPresent_ensure f src h
  · intro hpresent
    exact ensure_of_isPresent f hpresent h

/-- A document that is given a header keeps its text at the end, has a header then, and is left
alone if it had one; another header changes nothing any more.  The header of a document that had
none is read back with the document behind a line break, whatever lines of hyphens the document
has. -/
theorem ensure_settles (f : HeaderFormat) (src : String) (h h' : FrontMatter) :
    src.toList <:+ (ensure f src h).toList ∧ isPresent (ensure f src h) = true ∧
      ensure f (ensure f src h) h' = ensure f src h ∧ (ensure f src h = src ↔ IsHeaded src) ∧
      (isPresent src = false → f.Keeps h → parse f (ensure f src h) = .ok (h, "\n" ++ src)) := by
  have hpresent : isPresent (ensure f src h) = true := isPresent_ensure f src h
  refine ⟨suffix_ensure f src h, hpresent, ensure_of_isPresent f hpresent h', ?_, ?_⟩
  · exact (ensure_eq_self_iff f).trans (isPresent_iff src)
  · intro habsent hkeeps
    rw [ensure_of_not_isPresent f habsent]
    exact parse_encode_append hkeeps src

/-- A document that begins with a line of hyphens and ends with another one, whose line is not
ended. -/
def unclosed : String :=
  "---\r\ntitle: a\n---"

theorem ensure_settles_unclosed :
    (isPresent unclosed = false ∧ HeaderFormat.yaml.Keeps ⟨"---\n---", "no", -3⟩) ∧
      parse .yaml (ensure .yaml unclosed ⟨"---\n---", "no", -3⟩) =
        .ok (⟨"---\n---", "no", -3⟩, "\n" ++ unclosed) := by
  have habsent : isPresent unclosed = false := by decide
  have hkeeps : HeaderFormat.yaml.Keeps ⟨"---\n---", "no", -3⟩ := by
    rw [HeaderFormat.keeps_iff]
    decide +kernel
  obtain ⟨-, -, -, -, hparse⟩ := ensure_settles .yaml unclosed ⟨"---\n---", "no", -3⟩ ⟨"b", "", 1⟩
  exact ⟨⟨habsent, hkeeps⟩, hparse habsent hkeeps⟩

end FrontMatter
end ApiPages

import ApiPages.Proofs.Page.Headers
import ApiPages.Yaml.Header

/-!
# Headers read back

The search for the end of a header stops at the line that closes it, although the texts of the
header and the document behind it may have lines of hyphens.  So a header comes back as it was
written, if its format keeps it.

* `FrontMatter.findEnd_text` finds the end behind lines none of which is a delimiter;
* `FrontMatter.split?_encode_append` takes a written header off a document;
* `FrontMatter.parse_encode_append` reads it, and `Page.parse_content` says so of pages.
-/

namespace ApiPages

namespace HeaderFormat

variable {f : HeaderFormat} {h : FrontMatter}

/-- Whether a format keeps a header is seen from what it writes. -/
theorem keeps_iff : f.Keeps h ↔ '\r' ∉ (f.write h).toList ∧
    "---".toList ∉ (f.write h).toList.splitOn '\n' ∧
    f.read? (String.ofList (f.write h).toList.dropLast) = some h := by
  have hdrop : ∀ text : String, f.write h = text ++ "\n" →
      String.ofList (f.write h).toList.dropLast = text := by
    intro text htext
    have hlist : (f.write h).toList = text.toList ++ ['\n'] := by
      rw [htext, String.toList_append]
      rfl
    rw [hlist, List.dropLast_concat, String.ofList_toList]
  constructor
  · intro hkeeps
    obtain ⟨text, htext⟩ := f.exists_write_eq h
    refine ⟨hkeeps.return_not_mem, hkeeps.marker_not_mem, ?_⟩
    rw [hdrop text htext]
    exact hkeeps.read?_lines text htext
  · rintro ⟨hreturn, hmarker, hread⟩
    refine ⟨hreturn, hmarker, fun text htext => ?_⟩
    rwa [hdrop text htext] at hread

instance (f : HeaderFormat) (h : FrontMatter) : Decidable (f.Keeps h) :=
  decidable_of_iff' _ keeps_iff

end HeaderFormat

namespace FrontMatter

variable {f : HeaderFormat} {h : FrontMatter} {line text rest : List Char}

/-! ## Finding -/

/-- A line that is a delimiter consists of three hyphens. -/
theorem eq_of_delimiter?_line (hend : '\n' ∉ line) (hreturn : '\r' ∉ line) {after : List Char}
    (hfound : delimiter? (line ++ '\n' :: rest) = some after) : line = "---".toList := by
  obtain ⟨b, hb, heq⟩ := delimiter?_eq_some_iff.1 hfound
  rw [List.append_assoc] at heq
  rcases List.append_eq_append_iff.1 heq with ⟨more, hmarker, hmore⟩ | ⟨more, hline, hmore⟩
  · -- the line ends within the hyphens or with them
    cases more with
    | nil =>
        rw [hmarker, List.append_nil]
    | cons c more =>
        rw [← (List.cons.inj hmore).1] at hmarker
        have hmem : '\n' ∈ "---".toList := hmarker ▸ List.mem_append_right _ (List.mem_cons_self ..)
        exact absurd hmem (by decide)
  · -- a line break follows the hyphens, and there is none in the line
    cases more with
    | nil =>
        rw [hline, List.append_nil]
    | cons c more =>
        have hc : c ∈ line := hline ▸ List.mem_append_right _ (List.mem_cons_self ..)
        rcases hb with rfl | rfl
        · rw [← (List.cons.inj hmore).1] at hc
          exact absurd hc hend
        · rw [← (List.cons.inj hmore).1] at hc
          exact absurd hc hreturn

/-- No delimiter is found at the beginning of lines none of which is one. -/
theorem delimiter?_eq_none (hreturn : '\r' ∉ text)
    (hmarker : "---".toList ∉ (text ++ ['\n']).splitOn '\n') (rest : List Char) :
    delimiter? (text ++ '\n' :: rest) = none := by
  have hmem : '\n' ∈ text ++ ['\n'] := List.mem_append_right _ (List.mem_singleton_self _)
  -- only the first line counts, and it is one of the lines that are no delimiter
  obtain ⟨line, more, hsplit, hend⟩ := List.eq_append_cons_of_mem hmem
  have hfirst : line ∈ (text ++ ['\n']).splitOn '\n' := by
    have hcut : (line ++ '\n' :: more).splitOn '\n' = line.splitOn '\n' ++ more.splitOn '\n' :=
      List.splitOnP_append_cons line more rfl
    have hline : line.splitOn '\n' = [line] :=
      List.splitOnP_eq_singleton fun c hc => beq_eq_false_iff_ne.2 fun heq => hend (heq ▸ hc)
    rw [hsplit, hcut, hline]
    exact List.mem_cons_self ..
  have hclean : '\r' ∉ line := by
    intro hc
    have hin : '\r' ∈ text ++ ['\n'] := hsplit ▸ List.mem_append_left _ hc
    rcases List.mem_append.1 hin with hin | hin
    · exact hreturn hin
    · exact absurd hin (by decide)
  have htext : text ++ '\n' :: rest = line ++ '\n' :: (more ++ rest) := by
    calc text ++ '\n' :: rest
        = (text ++ ['\n']) ++ rest := List.append_cons text '\n' rest
      _ = (line ++ '\n' :: more) ++ rest := by rw [hsplit]
      _ = line ++ '\n' :: (more ++ rest) := by rw [List.append_assoc, List.cons_append]
  rw [htext, Option.eq_none_iff_forall_ne_some]
  intro after hfound
  exact hmarker (eq_of_delimiter?_line hend hclean hfound ▸ hfirst)

/-- The search for the closing delimiter passes a text if no line of it after the first is one. -/
theorem findEnd_text (hreturn : '\r' ∉ text)
    (hmarker : "---".toList ∉ ((text ++ ['\n']).splitOn '\n').tail) (before rest : List Char) :
    findEnd before (text ++ '\n' :: ("---".toList ++ '\n' :: rest)) =
      some (before.reverse ++ text, rest) := by
  induction text generalizing before with
  | nil =>
      rw [List.append_nil]
      rfl
  | cons c text ih =>
      have hclean : '\r' ∉ text := fun hmem => hreturn (List.mem_cons_of_mem c hmem)
      have hcut := List.splitOnP_cons_eq_if_modifyHead (p := (· == '\n')) c (text ++ ['\n'])
      -- only a line break can begin a delimiter, and a line follows it that is none
      have hpass : (lineBreak? (c :: (text ++ '\n' :: ("---".toList ++ '\n' :: rest)))).bind
          delimiter? = none ∧ "---".toList ∉ ((text ++ ['\n']).splitOn '\n').tail := by
        by_cases hc : c = '\n'
        · rw [if_pos (beq_iff_eq.2 hc)] at hcut
          have hlines : "---".toList ∉ (text ++ ['\n']).splitOn '\n' := by
            rwa [List.cons_append, List.splitOn, hcut] at hmarker
          refine ⟨?_, fun hmem => hlines (List.mem_of_mem_tail hmem)⟩
          rw [hc]
          exact delimiter?_eq_none hclean hlines _
        · rw [if_neg (by rwa [beq_iff_eq])] at hcut
          refine ⟨?_, ?_⟩
          · have hreturn' : c ≠ '\r' := fun heq => hreturn (heq ▸ List.mem_cons_self ..)
            rw [lineBreak?.eq_3 _ (by simp [hreturn']) (by simp [hc])]
            rfl
          · rwa [List.cons_append, List.splitOn, hcut, List.tail_modifyHead] at hmarker
      rw [List.cons_append, findEnd, hpass.1]
      dsimp only
      rw [ih hclean hpass.2, List.reverse_cons, List.append_assoc]
      rfl

/-! ## Written headers -/

/-- A header that its format keeps is found where it was written. -/
theorem split?_encode_append (hkeeps : f.Keeps h) {header : String}
    (hheader : f.write h = header ++ "\n") (src : String) :
    split? (h.encode f ++ src) = some (header, "\n" ++ src) := by
  have hlist : (f.write h).toList = header.toList ++ ['\n'] := by
    rw [hheader, String.toList_append]
    rfl
  have hreturn : '\r' ∉ header.toList := by
    intro hmem
    exact hkeeps.return_not_mem (hlist ▸ List.mem_append_left _ hmem)
  have hmarker : "---".toList ∉ ((header.toList ++ ['\n']).splitOn '\n').tail := by
    intro hmem
    rw [← hlist] at hmem
    exact hkeeps.marker_not_mem (List.mem_of_mem_tail hmem)
  have hopen : delimiter? (h.encode f ++ src).toList =
      some (header.toList ++ '\n' :: ("---".toList ++ '\n' :: ("\n" ++ src).toList)) := by
    refine delimiter?_eq_some_iff.2 ⟨['\n'], .inl rfl, ?_⟩
    rw [encode, hheader]
    simp [String.toList_append]
  rw [split?, hopen, Option.bind_eq_bind, Option.bind_some, findEnd_text hreturn hmarker]
  simp

theorem parse_encode_append (hkeeps : f.Keeps h) (src : String) :
    parse f (h.encode f ++ src) = .ok (h, "\n" ++ src) := by
  obtain ⟨header, hheader⟩ := f.exists_write_eq h
  have hread : f.read? header = some h := hkeeps.read?_lines header hheader
  rw [parse, split?_encode_append hkeeps hheader]
  dsimp only
  rw [hread]

end FrontMatter

namespace Page

/-- A page is read back with its title, its description, its place and its body behind a blank line,
if its format keeps the header. -/
theorem parse_content (f : HeaderFormat) (p : Page) (hkeeps : f.Keeps p.frontMatter) :
    FrontMatter.parse f (p.content f) = .ok (p.frontMatter, "\n" ++ p.body) :=
  FrontMatter.parse_encode_append hkeeps p.body

/-- Lines of hyphens in a title and a description that looks like a truth value, written as YAML. -/
theorem parse_content_hyphens :
    HeaderFormat.yaml.Keeps ⟨"---\n---", "true", -3⟩ ∧
      FrontMatter.parse .yaml (Page.content .yaml ⟨"a.mdx", "---\n---", "true", -3, "---\n"⟩) =
        .ok (⟨"---\n---", "true", -3⟩, "\n---\n") := by
  have hkeeps : HeaderFormat.yaml.Keeps ⟨"---\n---", "true", -3⟩ := by
    rw [HeaderFormat.keeps_iff]
    decide +kernel
  exact ⟨hkeeps, parse_content .yaml ⟨"a.mdx", "---\n---", "true", -3, "---\n"⟩ hkeeps⟩

end Page
end ApiPages

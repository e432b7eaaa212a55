import ApiPages.Proofs.Schema.Scanning
import ApiPages.Proofs.Text.Runs
import Mathlib.Data.List.Basic

/-!
# Written statements are recognised

Each recogniser reads back what the printer writes.  The small readers come first: a run of
characters of a class ends where the class ends, and a space between two parts is skipped.

* `dialect?_print`, `package?_print`, `import?_print` and `header?_print` for what stands at top
  level;
* `rpc?_print`, `field?_print` and `enumValue?_print` for members.  The one ambiguity is in fields,
  where a label word could be a type: `labels_eq_nil` uses that it is not.
-/

namespace ApiPages
namespace Recognize

open Text Printer

/-! ## Classes -/

theorem isNamePart_of_isWord {c : Char} (h : isWord c = true) : isNamePart c = true := by
  simp [isNamePart, h]

theorem isNamePart_of_isDigit {c : Char} (h : c.isDigit = true) : isNamePart c = true := by
  simp [isNamePart, isWord, Char.isAlphanum, h]

theorem isSpace_of_isNamePart {c : Char} (h : isNamePart c = true) : isSpace c = false := by
  have hne : ∀ d, isNamePart d = false → c ≠ d := fun d hd => ne_of_class h hd
  simp [isSpace, hne ' ' (by decide), hne '\t' (by decide), hne '\n' (by decide),
    hne '\r' (by decide), hne '\x0c' (by decide)]

theorem toList_ne_nil {s : String} (h : s ≠ "") : s.toList ≠ [] := by
  simpa using h

theorem isName_of_isWord {s : String} (h : IsWord s) : IsName s :=
  ⟨h.1, fun c hc => isNamePart_of_isWord (h.2 c hc)⟩

theorem isName_of_isDigits {s : String} (h : IsDigits s) : IsName s :=
  ⟨h.1, fun c hc => isNamePart_of_isDigit (h.2 c hc)⟩

/-- A mark that is no part of names does not occur in one. -/
theorem bne_of_isName {s : String} (h : IsName s) {d : Char} (hd : isNamePart d = false) :
    ∀ c ∈ s.toList, (c != d) = true := by
  intro c hc
  exact bne_iff_ne.2 (ne_of_class (h.2 c hc) hd)

/-- A map type begins with the letter of its keyword. -/
theorem exists_mapType_eq_cons (key value : String) :
    ∃ cs, ("map<" ++ key ++ ", " ++ value ++ ">").toList = 'm' :: cs := by
  refine ⟨"ap<".toList ++ key.toList ++ ", ".toList ++ value.toList ++ ['>'], ?_⟩
  simp

/-! ## Small readers -/

section Runs

variable {p : Char → Bool} {run rest : List Char} {d : Char}

theorem takeWhile_append_cons (hrun : ∀ c ∈ run, p c = true) (hd : p d = false) :
    (run ++ d :: rest).takeWhile p = run :=
  takeWhile_run hrun (by simpa using hd)

theorem dropWhile_append_cons (hrun : ∀ c ∈ run, p c = true) (hd : p d = false) :
    (run ++ d :: rest).dropWhile p = d :: rest :=
  dropWhile_run hrun (by simpa using hd)

/-- A run ends before a character outside its class. -/
theorem run?_append_cons (hne : run ≠ []) (hrun : ∀ c ∈ run, p c = true) (hd : p d = false) :
    run? p (run ++ d :: rest) = some (run, d :: rest) := by
  simp only [run?, takeWhile_append_cons hrun hd, dropWhile_append_cons hrun hd]
  simp [hne]

end Runs

theorem skipSpaces_cons {c : Char} (h : isSpace c = false) (cs : List Char) :
    skipSpaces (c :: cs) = c :: cs := by
  simp [skipSpaces, h]

theorem skipSpaces_space (cs : List Char) : skipSpaces (' ' :: cs) = skipSpaces cs := by
  have hspace : isSpace ' ' = true := by decide
  simp [skipSpaces, hspace]

theorem spaces?_space (cs : List Char) : spaces? (' ' :: cs) = some (skipSpaces cs) :=
  rfl

/-- A name begins with no space. -/
theorem skipSpaces_name {s : String} (h : IsName s) (rest : List Char) :
    skipSpaces (s.toList ++ rest) = s.toList ++ rest := by
  cases hs : s.toList with
  | nil =>
      exact absurd hs (toList_ne_nil h.1)
  | cons c cs =>
      have hc : isNamePart c = true := h.2 c (hs ▸ List.mem_cons_self ..)
      exact skipSpaces_cons (isSpace_of_isNamePart hc) _

theorem word?_append_cons {s : String} (h : IsWord s) {d : Char} (hd : isWord d = false)
    (rest : List Char) : word? (s.toList ++ d :: rest) = some (s.toList, d :: rest) :=
  run?_append_cons (toList_ne_nil h.1) h.2 hd

theorem keyword?_eq_some_iff {word : String} {cs rest : List Char} :
    keyword? word cs = some rest ↔ word.toList ++ rest = cs :=
  List.isPrefixOf?_eq_some_iff_append_eq

theorem keyword?_append (word : String) (rest : List Char) :
    keyword? word (word.toList ++ rest) = some rest :=
  keyword?_eq_some_iff.2 rfl

theorem quoted?_append {s : String} (h : IsQuotable s) (rest : List Char) :
    quoted? (Printer.quoted s ++ rest) = some (s.toList, rest) := by
  have hopen : keyword? "\"" (Printer.quoted s ++ rest) = some (s.toList ++ '"' :: rest) := by
    rw [keyword?_eq_some_iff]
    simp [Printer.quoted]
  have hrun : run? (· != '"') (s.toList ++ '"' :: rest) = some (s.toList, '"' :: rest) :=
    run?_append_cons (toList_ne_nil h.1) (fun c hc => by simpa using (h.2 c hc).1) (by decide)
  have hclose : keyword? "\"" ('"' :: rest) = some rest := keyword?_append "\"" rest
  simp [quoted?, hopen, hrun, hclose]

/-! ## Declarations -/

theorem dialect?_print {s : String} (h : IsQuotable s) : dialect? (Printer.dialect s) = some s := by
  let name := Printer.quoted s ++ [';']
  have hword : keyword? "syntax" (Printer.dialect s) = some (' ' :: '=' :: ' ' :: name) := rfl
  have hgap : skipSpaces (' ' :: '=' :: ' ' :: name) = '=' :: ' ' :: name := rfl
  have hsign : keyword? "=" ('=' :: ' ' :: name) = some (' ' :: name) := rfl
  have hskip : skipSpaces (' ' :: name) = name := rfl
  have hname : quoted? name = some (s.toList, [';']) := quoted?_append h [';']
  simp [dialect?, hword, hgap, hsign, hskip, hname]

theorem package?_print {s : String} (h : IsName s) : package? (Printer.package s) = some s := by
  have hword : keyword? "package" (Printer.package s) = some (' ' :: (s.toList ++ [';'])) :=
    rfl
  have hrun : run? isNamePart (s.toList ++ [';']) = some (s.toList, [';']) :=
    run?_append_cons (toList_ne_nil h.1) h.2 (by decide)
  simp [package?, hword, spaces?_space, skipSpaces_name h, hrun]

theorem import?_print {s : String} (h : IsQuotable s) : import? (importOf s) = some s := by
  have hword : keyword? "import" (importOf s) = some (' ' :: (Printer.quoted s ++ [';'])) :=
    rfl
  have hgap : spaces? (' ' :: (Printer.quoted s ++ [';'])) = some (Printer.quoted s ++ [';']) :=
    rfl
  have hpublic : keyword? "public" (Printer.quoted s ++ [';']) = none :=
    rfl
  have hweak : keyword? "weak" (Printer.quoted s ++ [';']) = none :=
    rfl
  simp [import?, hword, hgap, hpublic, hweak, quoted?_append h]

/-! ## Headers -/

theorem headerOf?_print {name : String} (h : IsWord name) (block : Block) :
    headerOf? block (Printer.header block name) = some (block, name) := by
  have hkey : keyword? block.keyword (Printer.header block name) =
      some (' ' :: (name.toList ++ [' ', '\x7b'])) := by
    rw [keyword?_eq_some_iff]
    simp [Printer.header]
  have hskip := skipSpaces_name (isName_of_isWord h) [' ', '\x7b']
  have hname : word? (name.toList ++ [' ', '\x7b']) = some (name.toList, [' ', '\x7b']) :=
    word?_append_cons h (by decide) _
  have hend : skipSpaces [' ', '\x7b'] = ['\x7b'] := rfl
  simp [headerOf?, hkey, spaces?_space, hskip, hname, hend]

theorem header?_print {name : String} (h : IsWord name) (block : Block) :
    header? (Printer.header block name) = some (block, name) := by
  have hself := headerOf?_print h block
  cases block with
  | service =>
      simp [header?, hself]
  | message =>
      have hservice : headerOf? .service (Printer.header .message name) = none := rfl
      simp [header?, hservice, hself]
  | enum =>
      have hservice : headerOf? .service (Printer.header .enum name) = none := rfl
      have hmessage : headerOf? .message (Printer.header .enum name) = none := rfl
      simp [header?, hservice, hmessage, hself]

/-! ## Calls -/

theorem trimEnd_of_all {p : Char → Bool} {cs : List Char} (h : ∀ c ∈ cs, p c = false) :
    trimEnd p cs = cs := by
  rcases List.eq_nil_or_concat cs with rfl | ⟨mid, t, rfl⟩
  · rfl
  · have ht : p t = false := h t (by simp)
    simp [trimEnd, ht]

theorem trimEnd_name {s : String} (h : IsName s) : trimEnd isSpace s.toList = s.toList :=
  trimEnd_of_all fun c hc => isSpace_of_isNamePart (h.2 c hc)

/-- A type that is called `stream` is no stream marker, since no space follows it. -/
theorem payload?_print {s : String} (h : IsName s) (streamed : Bool) :
    payload? (payload streamed s) = some (streamed, s.toList) := by
  have hskip : skipSpaces s.toList = s.toList := by
    have := skipSpaces_name h []
    rwa [List.append_nil] at this
  have htrim := trimEnd_name h
  cases hs : s.toList with
  | nil =>
      exact absurd hs (toList_ne_nil h.1)
  | cons c cs =>
      rw [hs] at hskip htrim
      cases streamed with
      | true =>
          have hpayload : payload true s = "stream ".toList ++ c :: cs := by rw [payload, hs]; rfl
          have hinner : skipSpaces ("stream ".toList ++ c :: cs) = "stream ".toList ++ c :: cs :=
            rfl
          have hword : keyword? "stream" ("stream ".toList ++ c :: cs) = some (' ' :: c :: cs) :=
            rfl
          simp only [payload?, hpayload, hinner, hword, spaces?_space, hskip, htrim]
      | false =>
          have hplain : payload false s = c :: cs := hs
          simp only [payload?, hplain, hskip, htrim]
          cases hword : keyword? "stream" (c :: cs) with
          | none =>
              rfl
          | some gap =>
              -- the name goes on after the word, and no character of a name is a space
              have hgap : spaces? gap = none := by
                cases gap with
                | nil =>
                    rfl
                | cons d gap =>
                    have hmem : d ∈ s.toList := by
                      rw [hs, ← keyword?_eq_some_iff.1 hword]
                      simp
                    simp [spaces?, isSpace_of_isNamePart (h.2 d hmem)]
              simp only [hgap]

theorem parens?_print {s : String} (h : IsName s) (streamed : Bool) (rest : List Char) :
    parens? ('(' :: payload streamed s ++ ')' :: rest) = some ((streamed, s.toList), rest) := by
  have hopen : keyword? "(" ('(' :: payload streamed s ++ ')' :: rest) =
      some (payload streamed s ++ ')' :: rest) := rfl
  -- nothing between the parentheses closes them early
  have hinside : ∀ c ∈ payload streamed s, (c != ')') = true := by
    have hname : ∀ c ∈ s.toList, (c != ')') = true := bne_of_isName h (by decide)
    have hstream : ∀ c ∈ "stream ".toList, (c != ')') = true := List.all_eq_true.1 (by decide)
    cases streamed with
    | true =>
        intro c hc
        rcases List.mem_append.1 hc with hc | hc
        · exact hstream c hc
        · exact hname c hc
    | false =>
        exact hname
  have htake : (payload streamed s ++ ')' :: rest).takeWhile (· != ')') = payload streamed s :=
    takeWhile_append_cons hinside (by decide)
  have hdrop : (payload streamed s ++ ')' :: rest).dropWhile (· != ')') = ')' :: rest :=
    dropWhile_append_cons hinside (by decide)
  have hclose : keyword? ")" (')' :: rest) = some rest := rfl
  simp only [parens?, hopen, htake, hdrop, hclose, payload?_print h, Option.bind_eq_bind,
    Option.bind_some, Option.pure_def]

theorem rpc?_print {r : Rpc} (h : r.Printable) :
    rpc? (Printer.rpc r) = some { r with docs := [] } := by
  -- the parts of the statement after the name and after the first pair of parentheses
  let result := " returns (".toList ++ (payload r.serverStreaming r.response ++ [')', ';'])
  let call := '(' :: payload r.clientStreaming r.request ++ ')' :: result
  have hword : keyword? "rpc" (Printer.rpc r) = some (' ' :: (r.name.toList ++ call)) := rfl
  have hskip := skipSpaces_name (isName_of_isWord h.name) call
  have hname : word? (r.name.toList ++ call) = some (r.name.toList, call) :=
    word?_append_cons h.name (by decide) _
  have hcall : skipSpaces call = call := rfl
  have hrequest : parens? call = some ((r.clientStreaming, r.request.toList), result) :=
    parens?_print h.request r.clientStreaming result
  have hreturns : keyword? "returns" (skipSpaces result) =
      some (' ' :: '(' :: payload r.serverStreaming r.response ++ [')', ';']) := rfl
  have hresult : skipSpaces (' ' :: '(' :: payload r.serverStreaming r.response ++ [')', ';']) =
      '(' :: payload r.serverStreaming r.response ++ [')', ';'] := rfl
  have hresponse : parens? ('(' :: payload r.serverStreaming r.response ++ [')', ';']) =
      some ((r.serverStreaming, r.response.toList), [';']) :=
    parens?_print h.response r.serverStreaming [';']
  simp only [rpc?, hword, spaces?_space, hskip, hname, hcall, hrequest, hreturns, hresult,
    hresponse, Option.bind_eq_bind, Option.bind_some, Option.pure_def, String.ofList_toList]

/-! ## Types of fields -/

theorem normalizeType_of_isFieldType {s : String} (h : IsFieldType s) :
    normalizeType s.toList = s.toList := by
  have hkeep : ∀ {cs : List Char}, (∀ c ∈ cs, isNamePart c = true) →
      cs.filter (fun c => !isSpace c) = cs := by
    intro cs hcs
    exact List.filter_eq_self.2 fun c hc => by simp [isSpace_of_isNamePart (hcs c hc)]
  have hcomma : ∀ {cs : List Char}, (∀ c ∈ cs, isNamePart c = true) →
      cs.flatMap (fun c => if c == ',' then [',', ' '] else [c]) = cs := by
    intro cs hcs
    induction cs with
    | nil =>
        rfl
    | cons c cs ih =>
        have hc : c ≠ ',' := ne_of_class (hcs c (List.mem_cons_self ..)) (by decide)
        have hrest := ih fun d hd => hcs d (List.mem_cons_of_mem c hd)
        simpa [hc] using hrest
  rcases h with ⟨hname, -⟩ | ⟨key, value, hkey, hvalue, rfl⟩
  · unfold normalizeType
    -- a name that begins with `map` is normalised as well, and has nothing to normalise
    split
    · rw [hkeep hname.2, hcomma hname.2]
    · rfl
  · -- the space after the comma is dropped and put back
    have hmap : "map".toList.isPrefixOf ("map<" ++ key ++ ", " ++ value ++ ">").toList = true := by
      simp [List.isPrefixOf]
    have hspaces : ("map<" ++ key ++ ", " ++ value ++ ">").toList.filter (fun c => !isSpace c) =
        "map<".toList ++ (key.toList ++ ',' :: (value.toList ++ ['>'])) := by
      simp only [String.toList_append, List.filter_append, hkeep hkey.2, hkeep hvalue.2]
      simp
      rfl
    rw [normalizeType, if_pos hmap, hspaces]
    simp only [List.flatMap_append, List.flatMap_cons, List.flatMap_nil, hcomma hkey.2,
      hcomma hvalue.2]
    simp

theorem mapType?_eq_none {cs : List Char} (h : '<' ∉ cs) : mapType? cs = none := by
  cases hword : keyword? "map" cs with
  | none =>
      simp [mapType?, hword]
  | some rest =>
      cases hopen : keyword? "<" (skipSpaces rest) with
      | none =>
          simp [mapType?, hword, hopen]
      | some more =>
          have hmem : '<' ∈ skipSpaces rest := by
            rw [← keyword?_eq_some_iff.1 hopen]
            simp
          have hsuffix : '<' ∈ rest := List.dropWhile_sublist _ |>.subset hmem
          have hcs : '<' ∈ cs := by
            rw [← keyword?_eq_some_iff.1 hword]
            exact List.mem_append_right _ hsuffix
          exact absurd hcs h

theorem mapType?_append {key value : String} (hkey : IsName key) (hvalue : IsName value)
    (rest : List Char) :
    mapType? (("map<" ++ key ++ ", " ++ value ++ ">").toList ++ rest) =
      some (("map<" ++ key ++ ", " ++ value ++ ">").toList, rest) := by
  let inside := key.toList ++ ", ".toList ++ value.toList
  have hcomma : ∀ c ∈ ", ".toList, (c != '>') = true := List.all_eq_true.1 (by decide)
  have hinside : ∀ c ∈ inside, (c != '>') = true := by
    intro c hc
    rcases List.mem_append.1 hc with hc | hc
    · rcases List.mem_append.1 hc with hc | hc
      · exact bne_of_isName hkey (by decide) c hc
      · exact hcomma c hc
    · exact bne_of_isName hvalue (by decide) c hc
  have htype : ("map<" ++ key ++ ", " ++ value ++ ">").toList =
      "map<".toList ++ inside ++ ['>'] := by
    simp [inside]
  rw [htype]
  have hword : keyword? "map" ("map<".toList ++ inside ++ ['>'] ++ rest) =
      some ('<' :: (inside ++ '>' :: rest)) := by
    rw [keyword?_eq_some_iff]
    simp
  have hopen : keyword? "<" (skipSpaces ('<' :: (inside ++ '>' :: rest))) =
      some (inside ++ '>' :: rest) := rfl
  have hdrop : (inside ++ '>' :: rest).dropWhile (· != '>') = '>' :: rest :=
    dropWhile_append_cons hinside (by decide)
  have hclose : keyword? ">" ('>' :: rest) = some rest := rfl
  -- the recogniser returns what it has passed, as a prefix of its input
  have htake : ∀ type : List Char, (type ++ rest).take ((type ++ rest).length - rest.length) =
      type := by
    intro type
    simp
  simp only [mapType?, hword, hopen, hdrop, hclose, htake, Option.bind_eq_bind, Option.bind_some,
    Option.pure_def]

/-! ## Fields and values -/

theorem fieldAfter?_print (type : List Char) {name number : String} (hname : IsWord name)
    (hnumber : IsDigits number) :
    fieldAfter? type (' ' :: numbered name number) =
      some { type := String.ofList (normalizeType type), name, number } := by
  let sign := " = ".toList ++ (number.toList ++ [';'])
  have hgap : spaces? (' ' :: numbered name number) = some (name.toList ++ sign) := by
    rw [spaces?_space, numbered, skipSpaces_name (isName_of_isWord hname)]
  have hword : word? (name.toList ++ sign) = some (name.toList, sign) :=
    word?_append_cons hname (by decide) _
  have hsign : keyword? "=" (skipSpaces sign) = some (' ' :: (number.toList ++ [';'])) := rfl
  have hskip : skipSpaces (' ' :: (number.toList ++ [';'])) = number.toList ++ [';'] := by
    rw [skipSpaces_space, skipSpaces_name (isName_of_isDigits hnumber)]
  have hdigits : run? Char.isDigit (number.toList ++ [';']) = some (number.toList, [';']) :=
    run?_append_cons (toList_ne_nil hnumber.1) hnumber.2 (by decide)
  have hend : isEnding [';'] = true := by decide
  simp only [fieldAfter?, hgap, hword, hsign, hskip, hdigits, hend, Option.bind_eq_bind,
    Option.bind_some, if_true, String.ofList_toList]

theorem unlabelled?_print {f : MessageField} (h : f.Printable) :
    unlabelled? (f.type.toList ++ ' ' :: numbered f.name f.number) =
      some { type := f.type, name := f.name, number := f.number } := by
  have hafter := fieldAfter?_print f.type.toList h.name h.number
  rw [normalizeType_of_isFieldType h.type, String.ofList_toList] at hafter
  rcases h.type with ⟨htype, -⟩ | ⟨key, value, hkey, hvalue, htype⟩
  · have hname : ∀ {s : String}, IsName s → '<' ∉ s.toList := by
      intro s hs hmem
      exact absurd (hs.2 _ hmem) (by decide)
    have hmark : '<' ∉ f.type.toList ++ ' ' :: numbered f.name f.number := by
      simp [numbered, hname htype, hname (isName_of_isWord h.name),
        hname (isName_of_isDigits h.number)]
    have hrun : run? isNamePart (f.type.toList ++ ' ' :: numbered f.name f.number) =
        some (f.type.toList, ' ' :: numbered f.name f.number) :=
      run?_append_cons (toList_ne_nil htype.1) htype.2 (by decide)
    simp [unlabelled?, mapType?_eq_none hmark, hrun, hafter]
  · have hmap : mapType? (f.type.toList ++ ' ' :: numbered f.name f.number) =
        some (f.type.toList, ' ' :: numbered f.name f.number) := by
      rw [htype]
      exact mapType?_append hkey hvalue _
    simp [unlabelled?, hmap, hafter]

/-- A label at the beginning is one of the row. -/
theorem labels_cons {word : String} (h : word = "repeated" ∨ word = "optional") {rest : List Char}
    (hrest : skipSpaces rest = rest) (fuel : Nat) :
    labels (fuel + 1) (word.toList ++ ' ' :: rest) = (word, rest) :: labels fuel rest := by
  have hself : ∀ word : String, (keyword? word (word.toList ++ ' ' :: rest)).bind spaces? =
      some rest := by
    intro word
    rw [keyword?_append, Option.bind_some, spaces?_space, hrest]
  rw [labels]
  rcases h with rfl | rfl
  · simp only [List.findSome?_cons, hself, Option.map_some]
  · have hother : keyword? "repeated" ("optional".toList ++ ' ' :: rest) = none := rfl
    simp only [List.findSome?_cons, hother, hself, Option.map_some, Option.map_none,
      Option.bind_none]

/-- A label word is followed by a space, so a name that begins with one and goes on is none. -/
theorem eq_of_keyword?_space {word type : String} {rest gap : List Char}
    (hword : ∀ c ∈ word.toList, isSpace c = false) (htype : ∀ c ∈ type.toList, isSpace c = false)
    {d : Char} (hd : isSpace d = true)
    (h : keyword? word (type.toList ++ ' ' :: rest) = some (d :: gap)) : word = type := by
  -- word and type are both what stands before the first space of the same text
  have hspace : isSpace ' ' = true := by decide
  have hends : word.toList ++ d :: gap = type.toList ++ ' ' :: rest := keyword?_eq_some_iff.1 h
  have htake : ∀ {s : List Char} {e : Char} {more : List Char}, (∀ c ∈ s, isSpace c = false) →
      isSpace e = true → (s ++ e :: more).takeWhile (fun c => !isSpace c) = s := by
    intro s e more hs he
    refine takeWhile_append_cons ?_ (by simp [he])
    intro c hc
    simp [hs c hc]
  have hlists : word.toList = type.toList :=
    calc word.toList = (word.toList ++ d :: gap).takeWhile (fun c => !isSpace c) :=
      (htake hword hd).symm
      _ = (type.toList ++ ' ' :: rest).takeWhile (fun c => !isSpace c) := by rw [hends]
      _ = type.toList := htake htype hspace
  exact String.toList_inj.1 hlists

/-- The type of a field is never taken for a label. -/
theorem label_eq_none {type : String} (h : IsFieldType type) (rest : List Char) {word : String}
    (hword : word ∈ ["repeated", "optional", "required"]) :
    (keyword? word (type.toList ++ ' ' :: rest)).bind spaces? = none := by
  rcases h with ⟨hname, hother⟩ | ⟨key, value, -, -, rfl⟩
  · have hne : word ≠ type := by
      rintro rfl
      simp [hother.1, hother.2.1, hother.2.2] at hword
    have hletters : ∀ c ∈ word.toList, isSpace c = false := by
      have hall : ∀ w ∈ ["repeated", "optional", "required"],
          (w.toList.all fun c => !isSpace c) = true := by
        decide
      simpa using hall word hword
    cases hkey : keyword? word (type.toList ++ ' ' :: rest) with
    | none =>
        rfl
    | some gap =>
        cases gap with
        | nil =>
            rfl
        | cons d gap =>
            cases hd : isSpace d with
            | true =>
                exact absurd (eq_of_keyword?_space hletters
                  (fun c hc => isSpace_of_isNamePart (hname.2 c hc)) hd hkey) hne
            | false =>
                simp [spaces?, hd]
  · -- a map type begins with another letter than the labels do
    have hfirst : keyword? word (("map<" ++ key ++ ", " ++ value ++ ">").toList ++ ' ' :: rest) =
        none := by
      rcases exists_mapType_eq_cons key value with ⟨cs, hcs⟩
      rw [hcs]
      simp at hword
      rcases hword with rfl | rfl | rfl
      · rfl
      · rfl
      · rfl
    rw [hfirst]
    rfl

theorem labels_eq_nil {type : String} (h : IsFieldType type) (rest : List Char) (fuel : Nat) :
    labels fuel (type.toList ++ ' ' :: rest) = [] := by
  cases fuel with
  | zero =>
      rfl
  | succ fuel =>
      have hnone : (["repeated", "optional", "required"].findSome? fun word =>
          ((keyword? word (type.toList ++ ' ' :: rest)).bind spaces?).map fun rest =>
            (word, rest)) =
            none := by
        rw [List.findSome?_eq_none_iff]
        intro word hword
        rw [label_eq_none h rest hword, Option.map_none]
      rw [labels]
      simp only [hnone]

theorem skipSpaces_type {type : String} (h : IsFieldType type) (rest : List Char) :
    skipSpaces (type.toList ++ rest) = type.toList ++ rest := by
  rcases h with ⟨hname, -⟩ | ⟨key, value, -, -, rfl⟩
  · exact skipSpaces_name hname rest
  · have hfirst : isSpace 'm' = false := by decide
    rcases exists_mapType_eq_cons key value with ⟨cs, hcs⟩
    rw [hcs, List.cons_append, skipSpaces_cons hfirst]

/-- The longest row of labels is tried first. -/
theorem labelled?_concat {s rest : List Char} (rows : List (String × List Char)) {word : String}
    {f : MessageField} (h : unlabelled? rest = some f) :
    labelled? s (rows ++ [(word, rest)]) =
      some { f with
        isRepeated := (rows ++ [(word, rest)]).any (·.1 == "repeated")
        isOptional := (rows ++ [(word, rest)]).any (·.1 == "optional") } := by
  have hall : (rows ++ [(word, rest)]).take (rows ++ [(word, rest)]).length =
      rows ++ [(word, rest)] :=
    List.take_length
  have hlast : (rows ++ [(word, rest)]).getLast? = some (word, rest) := by simp
  rw [labelled?, List.range_succ, List.reverse_append, List.reverse_singleton,
    List.singleton_append, List.findSome?_cons, hall]
  simp only [hlast, h, Option.map_some]

theorem labelled?_nil {s : List Char} {f : MessageField} (h : unlabelled? s = some f) :
    labelled? s [] = some { f with isRepeated := false, isOptional := false } := by
  simp [labelled?, h]

theorem field?_print {f : MessageField} (h : f.Printable) :
    field? (Printer.field f) = some { f with docs := [] } := by
  -- the rows of labels that can be found: the body has none, and each label adds itself to the
  -- front
  let body := f.type.toList ++ ' ' :: numbered f.name f.number
  have hbody : unlabelled? body = some { type := f.type, name := f.name, number := f.number } :=
    unlabelled?_print h
  have hnone : ∀ fuel, labels fuel body = [] := labels_eq_nil h.type _
  have hskip : skipSpaces body = body := skipSpaces_type h.type _
  have hoptional : ∀ fuel, labels (fuel + 1) ("optional".toList ++ ' ' :: body) =
      [("optional", body)] := by
    intro fuel
    rw [labels_cons (.inr rfl) hskip, hnone]
  have hrepeated : ∀ fuel, labels (fuel + 1) ("repeated".toList ++ ' ' :: body) =
      [("repeated", body)] := by
    intro fuel
    rw [labels_cons (.inl rfl) hskip, hnone]
  have hboth : ∀ fuel,
    labels (fuel + 2) ("repeated".toList ++ ' ' :: ("optional".toList ++ ' ' :: body)) =
      [("repeated", "optional".toList ++ ' ' :: body), ("optional", body)] := by
    intro fuel
    have hgap : skipSpaces ("optional".toList ++ ' ' :: body) = "optional".toList ++ ' ' :: body :=
      rfl
    rw [labels_cons (.inl rfl) hgap, hoptional]
  rcases f with ⟨type, name, number, isRepeated, isOptional, docs⟩
  cases isRepeated with
  | true =>
      cases isOptional with
      | true =>
          exact (congrArg (labelled? _) (hboth _)).trans (labelled?_concat [_] hbody)
      | false =>
          exact (congrArg (labelled? _) (hrepeated _)).trans (labelled?_concat [] hbody)
  | false =>
      cases isOptional with
      | true =>
          exact (congrArg (labelled? _) (hoptional _)).trans (labelled?_concat [] hbody)
      | false =>
          exact (congrArg (labelled? _) (hnone _)).trans (labelled?_nil hbody)

theorem enumValue?_print {v : EnumValue} (h : v.Printable) :
    enumValue? (Printer.value v) = some { v with docs := [] } := by
  let sign := " = ".toList ++ (v.number.toList ++ [';'])
  have hword : word? (Printer.value v) = some (v.name.toList, sign) :=
    word?_append_cons h.name (by decide) _
  have hsign : keyword? "=" (skipSpaces sign) = some (' ' :: (v.number.toList ++ [';'])) := rfl
  have hend : isEnding [';'] = true := by decide
  have hskip : ∀ {digits : String}, IsDigits digits →
      skipSpaces (digits.toList ++ [';']) = digits.toList ++ [';'] :=
    fun hdigits => skipSpaces_name (isName_of_isDigits hdigits) _
  have hrun : ∀ {digits : String}, IsDigits digits →
      run? Char.isDigit (digits.toList ++ [';']) = some (digits.toList, [';']) :=
    fun hdigits => run?_append_cons (toList_ne_nil hdigits.1) hdigits.2 (by decide)
  rcases h.number with hdigits | ⟨digits, hdigits, hnumber⟩
  · -- a digit comes first, so no sign is read
    have hgap := hskip hdigits
    have hread := hrun hdigits
    have hback : String.ofList v.number.toList = v.number := String.ofList_toList
    cases hn : v.number.toList with
    | nil =>
        exact absurd hn (toList_ne_nil hdigits.1)
    | cons c cs =>
        have hc : c ≠ '-' := ne_of_class (hdigits.2 c (hn ▸ List.mem_cons_self ..)) (by decide)
        rw [hn] at hsign hgap hread hback
        simp only [List.cons_append] at hsign hgap hread
        simp [enumValue?, hword, hsign, skipSpaces_space, hgap, hc, hread, hend, hback]
  · have hminus : v.number.toList ++ [';'] = '-' :: (digits.toList ++ [';']) := by
      rw [hnumber, String.toList_append]
      rfl
    have hgap : skipSpaces ('-' :: (digits.toList ++ [';'])) = '-' :: (digits.toList ++ [';']) :=
      rfl
    rw [hminus] at hsign
    simp [enumValue?, hword, hsign, skipSpaces_space, hgap, hrun hdigits, hend, hnumber]

end Recognize
end ApiPages

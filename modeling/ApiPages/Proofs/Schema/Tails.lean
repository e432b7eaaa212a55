import ApiPages.Proofs.Schema.Boundaries
import ApiPages.Proofs.Schema.Recognized
import ApiPages.Proofs.Schema.Scanning
import ApiPages.Proofs.Schema.Steps
import Mathlib.Data.List.TakeWhile

/-!
# What stands behind a statement

The recognisers read a statement from the left, and those that do not ask for its last character do
not see what stands behind the part they read.

* `IsTail` is text that begins, after blanks, with a slash, and holds no closing parenthesis;
* `Ignores` says that a reader returns the same with a tail behind its input, with one lemma for
  each of the small readers;
* `field?_eq_none` and `enumValue?_eq_none` say that the other recognisers ask for a semicolon at
  the end;
* `Reader.statement_append_tail` puts them together.
-/

namespace ApiPages

open Recognize (keyword? spaces? run? quoted? parens? skipSpaces isNamePart)
open Statement (Mode isQuote)

namespace Recognize

/-! ## Tails -/

def IsTail (t : List Char) : Prop :=
  ∃ blanks more, t = blanks ++ '/' :: more ∧ (∀ c ∈ blanks, Text.isBlank c = true) ∧ ')' ∉ more

/-- A character that is neither blank nor a slash. -/
def isSolid (c : Char) : Bool :=
  !Text.isBlank c && c != '/'

variable {t : List Char}

theorem IsTail.head (h : IsTail t) : ∃ c rest, t = c :: rest ∧ isSolid c = false := by
  rcases h with ⟨blanks, more, rfl, hblanks, -⟩
  cases blanks with
  | nil =>
      exact ⟨'/', more, rfl, rfl⟩
  | cons c blanks =>
      refine ⟨c, blanks ++ '/' :: more, rfl, ?_⟩
      simp [isSolid, hblanks c (List.mem_cons_self ..)]

theorem IsTail.not_mem (h : IsTail t) : ')' ∉ t := by
  rcases h with ⟨blanks, more, rfl, hblanks, hmore⟩
  intro hmem
  rcases List.mem_append.1 hmem with hblank | hslash
  · have hparen := hblanks ')' hblank
    revert hparen
    decide
  · exact hmore (by simpa using hslash)

theorem IsTail.skipSpaces (h : IsTail t) : IsTail (skipSpaces t) := by
  rcases h with ⟨blanks, more, rfl, hblanks, hmore⟩
  induction blanks with
  | nil =>
      exact ⟨[], more, rfl, hblanks, hmore⟩
  | cons c blanks ih =>
      rw [List.cons_append, Recognize.skipSpaces, List.dropWhile_cons]
      split
      · exact ih fun d hd => hblanks d (List.mem_cons_of_mem c hd)
      · exact ⟨c :: blanks, more, rfl, hblanks, hmore⟩

/-! ## The small readers -/

theorem skipSpaces_append (h : IsTail t) (cs : List Char) :
    ∃ t', IsTail t' ∧ Recognize.skipSpaces (cs ++ t) = Recognize.skipSpaces cs ++ t' := by
  induction cs with
  | nil =>
      exact ⟨_, h.skipSpaces, rfl⟩
  | cons c cs ih =>
      rw [List.cons_append, Recognize.skipSpaces, Recognize.skipSpaces, List.dropWhile_cons,
        List.dropWhile_cons]
      split
      · exact ih
      · exact ⟨t, h, rfl⟩

theorem keyword?_append_tail (h : IsTail t) {word : String} (hword : word.toList.all isSolid = true)
    (cs : List Char) : keyword? word (cs ++ t) = (keyword? word cs).map (· ++ t) := by
  unfold keyword?
  generalize word.toList = letters at hword
  induction letters generalizing cs with
  | nil =>
      simp [List.isPrefixOf?]
  | cons c letters ih =>
      rw [List.all_cons, Bool.and_eq_true] at hword
      cases cs with
      | nil =>
          rcases h.head with ⟨d, rest, rfl, hd⟩
          have hne : c ≠ d := Text.ne_of_class hword.1 hd
          simp [List.isPrefixOf?, hne]
      | cons d cs =>
          simp only [List.cons_append, List.isPrefixOf?]
          split
          · exact ih cs hword.2
          · rfl

theorem run?_append_tail (h : IsTail t) {p : Char → Bool} (hp : ∀ c, p c = true → isSolid c = true)
    (cs : List Char) : run? p (cs ++ t) = (run? p cs).map fun found => (found.1, found.2 ++ t) := by
  have hsame : (cs ++ t).takeWhile p = cs.takeWhile p ∧
      (cs ++ t).dropWhile p = cs.dropWhile p ++ t := by
    induction cs with
    | nil =>
        rcases h.head with ⟨d, rest, rfl, hd⟩
        have hpd : p d = false := by
          rw [← Bool.not_eq_true]
          exact fun hpd => Text.ne_of_class (hp d hpd) hd rfl
        simp [hpd]
    | cons c cs ih =>
        simp only [List.cons_append, List.takeWhile_cons, List.dropWhile_cons]
        split
        · exact ⟨congrArg (c :: ·) ih.1, ih.2⟩
        · exact ⟨rfl, rfl⟩
  unfold run?
  rw [hsame.1, hsame.2]
  dsimp only
  split
  · rfl
  · rfl

/-! ## Readers that ignore tails -/

/-- On certain inputs, the reader returns the same with a tail behind its input. -/
def Ignores {α : Type} (P : List Char → Prop) (f : List Char → Option α) : Prop :=
  ∀ cs t, P cs → IsTail t → f (cs ++ t) = f cs

/-- Every literal of the text is closed. -/
def Closed (cs : List Char) : Prop :=
  (Mode.after {} cs).quote = none

/-- The property stays when text without quotes is read. -/
def Drops (P : List Char → Prop) : Prop :=
  ∀ front rest, (∀ c ∈ front, isQuote c = false) → P (front ++ rest) → P rest

theorem drops_true : Drops fun _ => True :=
  fun _ _ _ _ => trivial

theorem drops_closed : Drops Closed := by
  intro front rest hfront hclosed
  have hmode : ∀ {m : Mode}, m.quote = none → m.escaped = false →
      (m.after front).quote = none ∧ (m.after front).escaped = false := by
    clear hclosed
    induction front with
    | nil =>
        exact fun hq he => ⟨hq, he⟩
    | cons c front ih =>
        intro m hq he
        rcases Mode.quote_step hq (hfront c (List.mem_cons_self ..)) with ⟨hq', he'⟩
        exact ih (fun d hd => hfront d (List.mem_cons_of_mem c hd)) hq' (he'.trans he)
  rcases hmode (m := {}) rfl rfl with ⟨hq, he⟩
  unfold Closed at hclosed ⊢
  rw [Mode.after_append] at hclosed
  exact (Mode.quote_after hq.symm he.symm rest).trans hclosed

variable {α : Type} {P : List Char → Prop} {f : List Char → Option α}

theorem Ignores.keyword {word : String} (hf : Ignores P f) (hP : Drops P)
    (hword : word.toList.all (fun c => isSolid c && !isQuote c) = true) :
    Ignores P fun s => (keyword? word s).bind f := by
  intro cs t hcs ht
  have hsolid : word.toList.all isSolid = true := by
    rw [List.all_eq_true] at hword ⊢
    intro c hc
    exact (Bool.and_eq_true_iff.1 (hword c hc)).1
  dsimp only
  rw [keyword?_append_tail ht hsolid]
  cases hrest : keyword? word cs with
  | none =>
      rfl
  | some rest =>
      have hcut := keyword?_eq_some_iff.1 hrest
      refine hf rest t (hP word.toList rest ?_ (hcut ▸ hcs)) ht
      intro c hc
      have hq := (Bool.and_eq_true_iff.1 (List.all_eq_true.1 hword c hc)).2
      simpa using hq

theorem isQuote_of_isSpace {c : Char} (h : Text.isSpace c = true) : isQuote c = false := by
  have hne : ∀ d, Text.isSpace d = false → c ≠ d := fun d hd => Text.ne_of_class h hd
  simp [isQuote, hne '"' (by decide), hne '\'' (by decide)]

theorem of_skipSpaces (hP : Drops P) {cs : List Char} (h : P cs) : P (skipSpaces cs) := by
  refine hP (cs.takeWhile Text.isSpace) (skipSpaces cs) ?_ ?_
  · intro c hc
    exact isQuote_of_isSpace (List.mem_takeWhile_imp hc)
  · rwa [skipSpaces, List.takeWhile_append_dropWhile]

theorem Ignores.skip (hf : Ignores P f) (hP : Drops P) : Ignores P fun s => f (skipSpaces s) := by
  intro cs t hcs ht
  rcases skipSpaces_append ht cs with ⟨t', ht', hskip⟩
  dsimp only
  rw [hskip]
  exact hf _ t' (of_skipSpaces hP hcs) ht'

/-- At least one space, which may not be there without the tail. -/
theorem Ignores.spaces (hf : Ignores P f) (hP : Drops P) (hnil : ∀ t, IsTail t → f t = none) :
    Ignores P fun s => (spaces? s).bind f := by
  intro cs t hcs ht
  cases cs with
  | nil =>
      rcases ht.head with ⟨c, rest, rfl, -⟩
      dsimp only [List.nil_append, spaces?]
      split
      · next hc =>
          have hskip : skipSpaces rest = skipSpaces (c :: rest) := by
            simp [skipSpaces, hc]
          rw [hskip]
          exact hnil _ ht.skipSpaces
      · rfl
  | cons c cs =>
      dsimp only [List.cons_append, spaces?]
      split
      · next hc =>
          refine hf.skip hP cs t (hP [c] cs ?_ hcs) ht
          simpa using isQuote_of_isSpace hc
      · rfl

theorem isSolid_of_isNamePart {c : Char} (h : isNamePart c = true) : isSolid c = true := by
  have hslash : c ≠ '/' := Text.ne_of_class h (by decide)
  simp [isSolid, Text.isBlank_of_isNamePart h, hslash]

theorem isQuote_of_isNamePart {c : Char} (h : isNamePart c = true) : isQuote c = false := by
  have hne : ∀ d, isNamePart d = false → c ≠ d := fun d hd => Text.ne_of_class h hd
  simp [isQuote, hne '"' (by decide), hne '\'' (by decide)]

theorem Ignores.run {p : Char → Bool} {g : List Char × List Char → Option α}
    (hg : ∀ found, Ignores P fun rest => g (found, rest)) (hP : Drops P)
    (hp : ∀ c, p c = true → isNamePart c = true) : Ignores P fun s => (run? p s).bind g := by
  intro cs t hcs ht
  dsimp only
  rw [run?_append_tail ht fun c hc => isSolid_of_isNamePart (hp c hc)]
  unfold run?
  dsimp only
  split
  · rfl
  · refine hg _ _ t (hP (cs.takeWhile p) _ ?_ ?_) ht
    · intro c hc
      exact isQuote_of_isNamePart (hp c (List.mem_takeWhile_imp hc))
    · rwa [List.takeWhile_append_dropWhile]

/-- A name does not begin with a tail. -/
theorem run?_tail (ht : IsTail t) {p : Char → Bool} (hp : ∀ c, p c = true → isNamePart c = true) :
    run? p t = none := by
  have hrun := run?_append_tail ht (fun c hc => isSolid_of_isNamePart (hp c hc)) []
  rwa [List.nil_append] at hrun

theorem keyword?_tail (ht : IsTail t) {word : String} (hword : word.toList.all isSolid = true)
    (hne : word ≠ "") : keyword? word t = none := by
  have hkeyword := keyword?_append_tail ht hword []
  have hnil : keyword? word [] = none := by
    cases hletters : word.toList with
    | nil =>
        exact absurd hletters (toList_ne_nil hne)
    | cons c letters =>
        rw [keyword?, hletters]
        rfl
  rwa [hnil] at hkeyword

/-- What stands before and from the first character of a kind does not change behind it. -/
theorem takeWhile_append_of_mem {p : Char → Bool} {d : Char} {cs : List Char} (h : d ∈ cs)
    (hd : p d = false) (t : List Char) :
    (cs ++ t).takeWhile p = cs.takeWhile p ∧ (cs ++ t).dropWhile p = cs.dropWhile p ++ t := by
  induction cs with
  | nil =>
      cases h
  | cons c cs ih =>
      simp only [List.cons_append, List.takeWhile_cons, List.dropWhile_cons]
      split
      · next hc =>
          rcases List.mem_cons.1 h with rfl | h
          · rw [hd] at hc
            cases hc
          · exact ⟨congrArg (c :: ·) (ih h).1, (ih h).2⟩
      · exact ⟨rfl, rfl⟩

/-- A literal that is closed ends before the tail. -/
theorem Ignores.quoted {g : List Char × List Char → Option α}
    (hg : ∀ text rest rest', g (text, rest) = g (text, rest')) :
    Ignores Closed fun s => (quoted? s).bind g := by
  intro cs t hcs ht
  unfold quoted?
  simp only [Option.bind_eq_bind, Option.bind_assoc]
  rw [keyword?_append_tail ht (by decide)]
  cases hrest : keyword? "\"" cs with
  | none =>
      rfl
  | some rest =>
      obtain rfl : '"' :: rest = cs := keyword?_eq_some_iff.1 hrest
      have hquote : '"' ∈ rest := by
        by_contra hnone
        have hopen : (Mode.after (Mode.step {} '"') rest).quote = some '"' :=
          Mode.quote_after_of_not_mem hnone rfl
        rw [Closed, Mode.after_cons, hopen] at hcs
        cases hcs
      rcases takeWhile_append_of_mem (p := (· != '"')) hquote (by decide) t with ⟨htake, hdrop⟩
      simp only [Option.map_some, Option.bind_some, run?, htake, hdrop]
      split
      · rfl
      · simp only [Option.bind_some,
          keyword?_append_tail ht (by decide : "\"".toList.all isSolid = true)]
        cases keyword? "\"" (rest.dropWhile (· != '"')) with
        | none =>
            rfl
        | some more =>
            exact hg _ _ _

/-- What a text in parentheses says does not depend on what stands behind it. -/
theorem Ignores.parens {g : (Bool × List Char) × List Char → Option α}
    (hg : ∀ payload, Ignores (fun _ => True) fun rest => g (payload, rest)) :
    Ignores P fun s => (parens? s).bind g := by
  intro cs t _ ht
  unfold parens?
  simp only [Option.bind_eq_bind, Option.bind_assoc]
  rw [keyword?_append_tail ht (by decide)]
  cases hrest : keyword? "(" cs with
  | none =>
      rfl
  | some rest =>
      dsimp only [Option.map_some, Option.bind_some]
      by_cases hparen : ')' ∈ rest
      · rcases takeWhile_append_of_mem (p := (· != ')')) hparen (by decide) t with ⟨htake, hdrop⟩
        rw [htake, hdrop, keyword?_append_tail ht (by decide)]
        cases payload? (rest.takeWhile (· != ')')) with
        | none =>
            rfl
        | some payload =>
            cases keyword? ")" (rest.dropWhile (· != ')')) with
            | none =>
                rfl
            | some more =>
                exact hg payload more t trivial ht
      · -- the parenthesis is not closed, with or without the tail
        have hopen : ∀ cs : List Char, ')' ∉ cs →
            keyword? ")" (cs.dropWhile (· != ')')) = none := by
          intro cs hcs
          have hnil : cs.dropWhile (· != ')') = [] := by
            rw [List.dropWhile_eq_nil_iff]
            intro c hc
            simpa using fun heq : c = ')' => hcs (heq ▸ hc)
          rw [hnil]
          rfl
        have hmore : ')' ∉ rest ++ t := by
          simp [hparen, ht.not_mem]
        rw [hopen rest hparen, hopen _ hmore]
        simp

theorem Ignores.or {g : List Char → Option α} (hf : Ignores P f) (hg : Ignores P g) :
    Ignores P fun s => (f s).or (g s) := by
  intro cs t hcs ht
  dsimp only
  rw [hf cs t hcs ht, hg cs t hcs ht]

theorem ignores_const (value : Option α) : Ignores P fun _ => value :=
  fun _ _ _ _ => rfl

/-! ## The recognisers -/

/-- A quoted text, as declarations return it. -/
def path? (s : List Char) : Option String :=
  (quoted? s).bind fun (text, _) => some (String.ofList text)

theorem ignores_path : Ignores Closed path? :=
  Ignores.quoted fun _ _ _ => rfl

theorem path?_tail (ht : IsTail t) : path? t = none := by
  rw [path?, quoted?, keyword?_tail ht (by decide) (by decide)]
  rfl

/-- Where a quoted text is expected, a word is none. -/
theorem path?_keyword {word : String} {s rest : List Char} (h : keyword? word s = some rest)
    (hword : word.toList.head? ≠ some '"') (hne : word ≠ "") : path? s = none := by
  obtain rfl := keyword?_eq_some_iff.1 h
  cases hletters : word.toList with
  | nil =>
      exact absurd hletters (toList_ne_nil hne)
  | cons c letters =>
      have hc : c ≠ '"' := by
        rw [hletters] at hword
        simpa using hword
      simp [path?, quoted?, keyword?, List.isPrefixOf?, hc.symm]

theorem ignores_dialect : Ignores Closed dialect? := by
  have hsign : Ignores Closed fun s => (keyword? "=" s).bind fun s => path? (skipSpaces s) :=
    (ignores_path.skip drops_closed).keyword drops_closed (by decide)
  exact (hsign.skip drops_closed).keyword drops_closed (by decide)

theorem ignores_package : Ignores Closed package? := by
  refine Ignores.keyword (.spaces (.run ?_ drops_closed ?_) drops_closed ?_) drops_closed ?_
  · exact fun found => ignores_const _
  · exact fun _ h => h
  · intro t ht
    rw [run?_tail ht fun _ h => h]
    rfl
  · decide

/-- A quoted text behind a qualifier. -/
def qualified? (word : String) (s : List Char) : Option String :=
  (keyword? word s).bind fun s => (spaces? s).bind path?

theorem import?_eq (s : List Char) : import? s =
    (keyword? "import" s).bind fun s => (spaces? s).bind fun s =>
      (qualified? "public" s).or ((qualified? "weak" s).or (path? s)) := by
  unfold import? qualified?
  simp only [Option.bind_eq_bind]
  congr 1
  funext s
  congr 1
  funext s
  show path? _ = _
  cases hpublic : keyword? "public" s with
  | some rest =>
      have hplain := path?_keyword hpublic (by decide) (by decide)
      have hweak : keyword? "weak" s = none := by
        obtain rfl := keyword?_eq_some_iff.1 hpublic
        rfl
      rw [hweak, hplain]
      cases hspaces : spaces? rest with
      | none =>
          simp [hspaces, hplain]
      | some more =>
          simp [hspaces]
  | none =>
      cases hweak : keyword? "weak" s with
      | none =>
          rfl
      | some rest =>
          have hplain := path?_keyword hweak (by decide) (by decide)
          rw [hplain]
          cases hspaces : spaces? rest with
          | none =>
              simp [hspaces, hplain]
          | some more =>
              simp [hspaces]

theorem ignores_qualified {word : String}
    (hword : word.toList.all (fun c => isSolid c && !isQuote c) = true) :
    Ignores Closed (qualified? word) :=
  (ignores_path.spaces drops_closed fun _ ht => path?_tail ht).keyword drops_closed hword

theorem ignores_import : Ignores Closed import? := by
  have hpaths : Ignores Closed fun s =>
      (qualified? "public" s).or ((qualified? "weak" s).or (path? s)) :=
    (ignores_qualified (by decide)).or ((ignores_qualified (by decide)).or ignores_path)
  rw [funext import?_eq]
  refine (hpaths.spaces drops_closed fun t ht => ?_).keyword drops_closed (by decide)
  rw [qualified?, qualified?,
    keyword?_tail ht (by decide) (by decide), keyword?_tail ht
      (by decide) (by decide), path?_tail ht]
  rfl

theorem ignores_rpc : Ignores (fun _ => True) rpc? := by
  -- the readers in the order in which the recogniser calls them
  refine Ignores.keyword (.spaces (.run (fun name => .skip (.parens fun request => .skip (.keyword
    (.skip (.parens fun response => ignores_const _) drops_true) drops_true ?_) drops_true)
      drops_true)
    drops_true ?_) drops_true ?_) drops_true ?_
  · decide
  · exact fun _ h => isNamePart_of_isWord h
  · intro t ht
    rw [word?, run?_tail ht fun _ h => isNamePart_of_isWord h]
    rfl
  · decide

/-! ## The last character -/

theorem getLast?_of_suffix {s rest : List Char} (h : rest <:+ s) {c : Char}
    (hc : rest.getLast? = some c) :
    s.getLast? = some c := by
  rcases h with ⟨front, rfl⟩
  rw [List.getLast?_append, hc]
  rfl

theorem suffix_of_keyword? {word : String} {s rest : List Char} (h : keyword? word s = some rest) :
    rest <:+ s :=
  ⟨word.toList, keyword?_eq_some_iff.1 h⟩

theorem suffix_of_spaces? {s rest : List Char} (h : spaces? s = some rest) : rest <:+ s := by
  cases s with
  | nil =>
      cases h
  | cons c s =>
      rw [spaces?] at h
      split at h
      · cases h
        exact (List.dropWhile_suffix _).trans (List.suffix_cons c s)
      · cases h

theorem suffix_of_run? {p : Char → Bool} {s run rest : List Char}
    (h : run? p s = some (run, rest)) :
    rest <:+ s := by
  rw [run?] at h
  split at h
  · cases h
  · cases h
    exact List.dropWhile_suffix _

theorem suffix_of_mapType? {s type rest : List Char} (h : mapType? s = some (type, rest)) :
    rest <:+ s := by
  simp only [mapType?, Option.bind_eq_bind, Option.bind_eq_some_iff] at h
  rcases h with ⟨keyed, hkeyed, opened, hopened, closed, hclosed, heq⟩
  cases heq
  exact (suffix_of_keyword? hclosed).trans ((List.dropWhile_suffix _).trans
    ((suffix_of_keyword? hopened).trans
      ((List.dropWhile_suffix _).trans (suffix_of_keyword? hkeyed))))

theorem getLast?_of_isEnding {cs : List Char} (h : isEnding cs = true) :
    cs.getLast? = some ';' := by
  unfold isEnding at h
  split at h
  · next hlast =>
      exact hlast
  · cases h

theorem getLast?_of_fieldAfter? {type cs : List Char} {f : MessageField}
    (h : fieldAfter? type cs = some f) :
    cs.getLast? = some ';' := by
  simp only [fieldAfter?, Option.bind_eq_bind, Option.bind_eq_some_iff] at h
  rcases h with
    ⟨spaced, hspaced, ⟨name, named⟩, hnamed, signed, hsigned, ⟨number, numbered⟩, hnumbered, h⟩
  have hsuffix : numbered <:+ cs :=
    (suffix_of_run? hnumbered).trans
      ((List.dropWhile_suffix _).trans ((suffix_of_keyword? hsigned).trans
      ((List.dropWhile_suffix _).trans
        ((suffix_of_run? hnamed).trans (suffix_of_spaces? hspaced)))))
  split at h
  · next hending =>
      exact getLast?_of_suffix hsuffix (getLast?_of_isEnding hending)
  · cases h

theorem getLast?_of_unlabelled? {cs : List Char} {f : MessageField} (h : unlabelled? cs = some f) :
    cs.getLast? = some ';' := by
  rcases Option.or_eq_some_iff.1 h with h | ⟨-, h⟩
  · rcases Option.bind_eq_some_iff.1 h with ⟨⟨type, rest⟩, hmap, hafter⟩
    exact getLast?_of_suffix (suffix_of_mapType? hmap) (getLast?_of_fieldAfter? hafter)
  · rcases Option.bind_eq_some_iff.1 h with ⟨⟨type, rest⟩, hrun, hafter⟩
    exact getLast?_of_suffix (suffix_of_run? hrun) (getLast?_of_fieldAfter? hafter)

theorem suffix_of_mem_labels {fuel : Nat} {cs : List Char} {label : String × List Char}
    (h : label ∈ labels fuel cs) : label.2 <:+ cs := by
  induction fuel generalizing cs with
  | zero =>
      cases h
  | succ fuel ih =>
      rw [labels] at h
      split at h
      · next word rest hfound =>
          have hrest : rest <:+ cs := by
            rcases List.exists_of_findSome?_eq_some hfound with ⟨_, _, hword⟩
            rcases Option.map_eq_some_iff.1 hword with ⟨_, hspaced, hpair⟩
            cases hpair
            rcases Option.bind_eq_some_iff.1 hspaced with ⟨gap, hgap, hspaces⟩
            exact (suffix_of_spaces? hspaces).trans (suffix_of_keyword? hgap)
          rcases List.mem_cons.1 h with rfl | h
          · exact hrest
          · exact (ih h).trans hrest
      · cases h

/-- A field ends in a semicolon. -/
theorem field?_eq_none {s : List Char} (h : s.getLast? ≠ some ';') : field? s = none := by
  rw [← Option.not_isSome_iff_eq_none, Option.isSome_iff_exists]
  rintro ⟨field, hfield⟩
  rcases List.exists_of_findSome?_eq_some hfield with ⟨k, _, hk⟩
  rcases Option.map_eq_some_iff.1 hk with ⟨f, hf, -⟩
  have hlast := getLast?_of_unlabelled? hf
  split at hlast
  · next label rest hlabel =>
      have hmem := List.mem_of_mem_take (List.mem_of_getLast? hlabel)
      exact h (getLast?_of_suffix (suffix_of_mem_labels hmem) hlast)
  · exact h hlast

/-- An enum value ends in a semicolon. -/
theorem enumValue?_eq_none {s : List Char} (h : s.getLast? ≠ some ';') : enumValue? s = none := by
  rw [← Option.not_isSome_iff_eq_none, Option.isSome_iff_exists]
  rintro ⟨value, hvalue⟩
  simp only [enumValue?, Option.bind_eq_bind, Option.bind_eq_some_iff] at hvalue
  rcases hvalue with ⟨⟨name, named⟩, hnamed, signed, hsigned, ⟨digits, rest⟩, hdigits, hend⟩
  have hdigits' := suffix_of_run? hdigits
  split at hend
  · next hending =>
      refine h (getLast?_of_suffix ?_ (getLast?_of_isEnding hending))
      have hskip : skipSpaces signed <:+ s :=
        (List.dropWhile_suffix _).trans ((suffix_of_keyword? hsigned).trans
          ((List.dropWhile_suffix _).trans (suffix_of_run? hnamed)))
      refine hdigits'.trans (List.IsSuffix.trans ?_ hskip)
      split
      · next rest' hsign =>
          rw [hsign]
          exact List.suffix_cons _ _
      · exact List.suffix_rfl
  · cases hend

end Recognize

namespace Reader

open Recognize (IsTail Closed)

theorem deepened_of_ne {r : Reader} {s : List Char} (h : s.getLast? ≠ some '\x7b') :
    r.deepened s = r := by
  rw [deepened, if_neg (by simpa using h)]

theorem opening?_of_ne {s : List Char} (h : s.getLast? ≠ some '\x7b') : opening? s = none := by
  rw [opening?, if_neg (by simpa using h)]

/-- A tail behind a statement that nothing ends changes nothing. -/
theorem statement_append_tail (r : Reader) {s t : List Char} (hclosed : Closed s) (ht : IsTail t)
    (hclose : s ≠ ['\x7d']) (hs : s.getLast? ≠ some ';' ∧ s.getLast? ≠ some '\x7b')
    (hst : (s ++ t).getLast? ≠ some ';' ∧ (s ++ t).getLast? ≠ some '\x7b') :
    r.statement (s ++ t) = r.statement s := by
  have hclose' : s ++ t ≠ ['\x7d'] := by
    intro heq
    have hslash : '/' ∈ s ++ t := by
      rcases ht with ⟨blanks, more, rfl, -, -⟩
      simp
    rw [heq] at hslash
    revert hslash
    decide
  have hdeclaration : r.declaration (s ++ t) = r.declaration s := by
    unfold declaration
    rw [Recognize.ignores_dialect s t hclosed ht, Recognize.ignores_package s t hclosed ht,
      Recognize.ignores_import s t hclosed ht]
  have hmember : ∀ block, r.member block (s ++ t) = r.member block s := by
    intro block
    unfold member
    rw [Recognize.ignores_rpc s t trivial ht, Recognize.field?_eq_none hs.1,
      Recognize.field?_eq_none hst.1, Recognize.enumValue?_eq_none hs.1,
      Recognize.enumValue?_eq_none hst.1]
  rw [statement_eq, statement_eq r s]
  simp only [beq_iff_eq, hclose, hclose', if_false, hmember, hdeclaration, opening?_of_ne hs.2,
    opening?_of_ne hst.2, deepened_of_ne hs.2, deepened_of_ne hst.2]

/-- A statement that begins with a slash is passed over. -/
theorem statement_slash (r : Reader) {cs : List Char} (h : ('/' :: cs).getLast? ≠ some '\x7b') :
    r.statement ('/' :: cs) = (r, none) := by
  have hdeclaration : r.declaration ('/' :: cs) = r :=
    rfl
  have hmember : ∀ block, r.member block ('/' :: cs) = (r, none) := by
    intro block
    cases block with
    | _ =>
        rfl
  rw [statement_eq, if_neg (by simp)]
  simp only [hmember, hdeclaration, opening?_of_ne h, deepened_of_ne h]
  split
  · rfl
  · split
    · rfl
    · rfl

end Reader
end ApiPages

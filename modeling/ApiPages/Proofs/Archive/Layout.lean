import ApiPages.Archive.Store
import ApiPages.Proofs.Archive.Digests
import ApiPages.Proofs.Files.Paths

/-!
# Where archived things lie

Contents and names share one directory.  Each has a place of its own below it, and none of these
places lies above another one.

* `RefName` is a name under which a graph is archived, `RefName.text` writes it out;
* `Archive.contentTail` and `RefName.tail` are the places below the archive's directory, of
  `Archive.contentPath` and `Archive.namePath`;
* `Archive.IsTail` collects them, `Archive.IsTail.eq_of_prefix` keeps them apart.
-/

namespace ApiPages

open SlashPath

/-! ## Characters -/

namespace Text

theorem range_of_isHexDigit {c : Char} (h : IsHexDigit c) :
    (48 ≤ c.toNat ∧ c.toNat ≤ 57) ∨ (97 ≤ c.toNat ∧ c.toNat ≤ 102) := by
  rcases Bool.or_eq_true_iff.1 h with hdigit | hletter
  · rcases Bool.and_eq_true_iff.1 hdigit with ⟨hfirst, hlast⟩
    exact .inl ⟨of_decide_eq_true hfirst, of_decide_eq_true hlast⟩
  · rcases Bool.and_eq_true_iff.1 hletter with ⟨hfirst, hlast⟩
    exact .inr ⟨of_decide_eq_true hfirst, of_decide_eq_true hlast⟩

theorem isBlank_of_isHexDigit {c : Char} (h : IsHexDigit c) : isBlank c = false := by
  have hrange := range_of_isHexDigit h
  simp [isBlank]
  omega

/-- Replacing one character by another goes through a text character by character. -/
theorem replaceAll_single (a b : Char) (cs : List Char) :
    replaceAll [a] [b] cs = cs.map fun c => if c = a then b else c := by
  rw [replaceAll]
  induction cs with
  | nil =>
      rfl
  | cons c rest ih =>
      rw [replaceAll.go, List.map_cons, ← ih]
      by_cases hc : c = a
      · subst hc
        rw [if_pos (by simp), if_pos rfl]
        rfl
      · have hother : ([a].isPrefixOf (c :: rest)) = false := by
          simp [List.isPrefixOf, Ne.symm hc]
        rw [hother, if_neg Bool.false_ne_true, if_neg hc]

end Text

namespace SlashPath

/-- A name made of two names counts as two. -/
theorem join_slash (dir front : String) {a b : String} (hfront : front ≠ "") (ha : a ≠ "")
    (hb : b ≠ "") : join [dir, front, a ++ "/" ++ b] = join [dir, front, a, b] := by
  have hfront' : front.isEmpty = false := by simpa using hfront
  have ha' : a.isEmpty = false := by simpa using ha
  have hb' : b.isEmpty = false := by simpa using hb
  have hboth : (a ++ "/" ++ b).isEmpty = false := by simp [ha]
  have hjoined : ∀ before : List String,
      Text.joined "/" (before ++ [front, a ++ "/" ++ b]) =
        Text.joined "/" (before ++ [front, a, b]) := by
    intro before
    let es := (before ++ [front]).map String.toList
    have hes : es ≠ [] := by simp [es]
    have hone : (Text.joined "/" (before ++ [front, a ++ "/" ++ b])).toList =
        ['/'].intercalate (es ++ [a.toList ++ '/' :: b.toList]) := by
      rw [toList_joined]
      simp [es]
    have htwo : (Text.joined "/" (before ++ [front, a, b])).toList =
        ['/'].intercalate ((es ++ [a.toList]) ++ [b.toList]) := by
      rw [toList_joined]
      simp [es]
    refine String.toList_inj.1 ?_
    calc
      (Text.joined "/" (before ++ [front, a ++ "/" ++ b])).toList
          = ['/'].intercalate es ++ '/' :: (a.toList ++ '/' :: b.toList) := by
        rw [hone, intercalate_concat es hes]
      _ = ['/'].intercalate (es ++ [a.toList]) ++ '/' :: b.toList := by
        rw [intercalate_concat es hes, List.append_assoc, List.cons_append]
      _ = (Text.joined "/" (before ++ [front, a, b])).toList := by
        rw [htwo, intercalate_concat (es ++ [a.toList]) (by simp)]
  unfold join
  cases hdir : dir.isEmpty with
  | true =>
      simpa [hdir, hfront', ha', hb', hboth] using congrArg clean (hjoined [])
  | false =>
      simpa [hdir, hfront', ha', hb', hboth] using congrArg clean (hjoined [dir])

end SlashPath

namespace Archive

/-! ## Contents -/

/-- The place of a content below the archive's directory. -/
def contentTail (digest : String) : Place :=
  [String.ofList (digest.toList.take 2), String.ofList (digest.toList.drop 2) ++ ".json.zst"]

theorem isName_of_hexDigits {cs : List Char} (hne : cs ≠ []) (h : ∀ c ∈ cs, Text.IsHexDigit c) :
    IsName cs := by
  refine ⟨hne, ?_, ?_, fun hslash => absurd (h '/' hslash) (by decide)⟩
  · rintro rfl
    exact absurd (h '.' (by simp)) (by decide)
  · rintro rfl
    exact absurd (h '.' (by simp)) (by decide)

theorem isName_contentTail {digest : String} (h : Digest.isValid digest = true) :
    ∀ name ∈ contentTail digest, IsName name.toList := by
  rcases Digest.isValid_iff.1 h with ⟨hlength, hdigits⟩
  intro name hname
  rcases List.mem_pair.1 hname with rfl | rfl
  · rw [String.toList_ofList]
    refine isName_of_hexDigits ?_ fun c hc => hdigits c (List.mem_of_mem_take hc)
    intro hnil
    have hzero := congrArg List.length hnil
    rw [List.length_take, hlength] at hzero
    cases hzero
  · -- the suffix alone is longer than every special element
    have hlast : 9 ≤ (String.ofList (digest.toList.drop 2) ++ ".json.zst").toList.length := by simp
    refine ⟨?_, ?_, ?_, ?_⟩
    · rintro heq
      simp [heq] at hlast
    · rintro heq
      simp [heq] at hlast
    · rintro heq
      simp [heq] at hlast
    · rw [String.toList_append, String.toList_ofList, List.mem_append, not_or]
      refine ⟨fun hslash => ?_, by decide⟩
      exact absurd (hdigits '/' (List.mem_of_mem_drop hslash)) (by decide)

theorem contentPath_eq (dir : String) {digest : String} (h : Digest.isValid digest = true) :
    contentPath dir digest = join (dir :: contentTail digest) := by
  rcases Digest.isValid_iff.1 h with ⟨hlength, hdigits⟩
  -- digits take one byte each, so the first two bytes are the first two digits
  have hfirst : Text.byteLength (digest.toList.take 1) = 1 := by
    cases hlist : digest.toList with
    | nil =>
        rw [hlist] at hlength
        cases hlength
    | cons c rest =>
        have hrange := Text.range_of_isHexDigit (hdigits c (hlist ▸ List.mem_cons_self ..))
        have hsize : c.utf8Size = 1 := by
          rw [Char.utf8Size_eq_one_iff, UInt32.le_iff_toNat_le]
          change c.toNat ≤ 127
          omega
        change 0 + c.utf8Size = 1
        omega
  rw [contentPath, hfirst]
  rfl

theorem ofPath_contentPath (dir : String) {digest : String} (h : Digest.isValid digest = true) :
    Place.ofPath (contentPath dir digest) = Place.ofPath dir ++ contentTail digest := by
  rw [contentPath_eq dir h, Place.ofPath_join dir (isName_contentTail h)]

theorem isClean_contentPath (dir : String) {digest : String} (h : Digest.isValid digest = true) :
    IsClean (contentPath dir digest) := by
  rw [contentPath_eq dir h]
  refine isClean_join (List.mem_cons_of_mem _ (List.mem_cons_self ..)) ?_
  intro hempty
  refine (isName_contentTail h _ (List.mem_cons_self ..)).1 ?_
  rw [hempty]
  rfl

theorem contentTail_injective {digest digest' : String}
    (h : contentTail digest = contentTail digest') :
    digest = digest' := by
  rcases List.cons_eq_cons.1 h with ⟨hfront, hrest⟩
  have hfront' : digest.toList.take 2 = digest'.toList.take 2 := Place.ofList_injective hfront
  have hrest' : digest.toList.drop 2 = digest'.toList.drop 2 := by
    refine Place.ofList_injective ?_
    simpa using hrest
  refine String.toList_inj.1 ?_
  calc
    digest.toList = digest.toList.take 2 ++ digest.toList.drop 2 := (List.take_append_drop 2 _).symm
    _ = digest'.toList.take 2 ++ digest'.toList.drop 2 := by rw [hfront', hrest']
    _ = digest'.toList := List.take_append_drop 2 _

end Archive

/-! ## Names -/

/-- A name under which a graph is archived: that of a crate's library, or of one of its binaries. -/
inductive RefName where
  | library (crate : String)
  | binary (crate name : String)
  deriving DecidableEq, Repr

namespace RefName

def text : RefName → String
  | library crate => crate ++ "/" ++ "lib"
  | binary crate name => crate ++ "/" ++ ("bin:" ++ name)

/-- A word as crates and binaries are called: letters, digits, hyphens and underscores are among the
characters that may occur in it. -/
def IsWord (s : String) : Prop :=
  s ≠ "" ∧ ∀ c ∈ s.toList, c ≠ '/' ∧ c ≠ ':' ∧ c ≠ '.'

instance (s : String) : Decidable (IsWord s) :=
  decidable_of_iff (s ≠ "" ∧ (s.toList.all fun c => c != '/' && (c != ':' && c != '.')) = true)
    (and_congr_right fun _ => by simp [List.all_eq_true])

def IsPlain : RefName → Prop
  | library crate => IsWord crate
  | binary crate name => IsWord crate ∧ IsWord name

/-- The place of a name below the archive's directory. -/
def tail : RefName → Place
  | library crate => ["refs", crate, "lib"]
  | binary crate name => ["refs", crate, "bin_" ++ name]

theorem tail_injective : Function.Injective tail := by
  -- a binary of any name is told from the library by how the last name starts
  have hlib : ∀ name : String, "lib" ≠ "bin_" ++ name := by
    intro name heq
    have hlist := congrArg (fun s : String => s.toList.take 2) heq
    simp at hlist
  intro n m h
  cases n with
  | library crate =>
      cases m with
      | library crate' =>
          simpa [tail] using h
      | binary crate' name' =>
          refine absurd ?_ (hlib name')
          simp [tail] at h
          exact h.2
  | binary crate name =>
      cases m with
      | library crate' =>
          refine absurd ?_ (hlib name)
          simp [tail] at h
          exact h.2.symm
      | binary crate' name' =>
          simpa [tail] using h

theorem IsWord.isName {s : String} (h : IsWord s) : IsName s.toList := by
  refine ⟨by simpa using h.1, ?_, ?_, fun hslash => (h.2 '/' hslash).1 rfl⟩
  · intro hdot
    exact (h.2 '.' (by simp [hdot])).2.2 rfl
  · intro hparent
    exact (h.2 '.' (by simp [hparent])).2.2 rfl

theorem isName_tail {n : RefName} (h : n.IsPlain) : ∀ name ∈ n.tail, IsName name.toList := by
  have hrefs : IsName "refs".toList := by
    refine ⟨?_, ?_, ?_, ?_⟩ <;> decide
  intro name hname
  cases n with
  | library crate =>
      simp [tail] at hname
      rcases hname with rfl | rfl | rfl
      · exact hrefs
      · exact IsWord.isName h
      · refine ⟨?_, ?_, ?_, ?_⟩ <;> decide
  | binary crate bin =>
      simp [tail] at hname
      rcases hname with rfl | rfl | rfl
      · exact hrefs
      · exact h.1.isName
      · refine ⟨?_, ?_, ?_, ?_⟩ <;> simp [h.2.isName.2.2.2]

/-- Colons are replaced, and crates and binaries have none. -/
theorem replaced_text {n : RefName} (h : n.IsPlain) :
    ∃ crate leaf, crate ≠ "" ∧ leaf ≠ "" ∧ Text.replaced n.text ":" "_" = crate ++ "/" ++ leaf ∧
      n.tail = ["refs", crate, leaf] := by
  have hword : ∀ s : String, IsWord s →
      (s.toList.map fun c => if c = ':' then '_' else c) = s.toList := by
    intro s hs
    refine (List.map_congr_left fun c hc => ?_).trans (List.map_id _)
    rw [if_neg (hs.2 c hc).2.1]
    rfl
  have hreplaced : ∀ s : String, (Text.replaced s ":" "_").toList =
      s.toList.map fun c => if c = ':' then '_' else c := by
    intro s
    rw [Text.replaced, String.toList_ofList]
    exact Text.replaceAll_single ':' '_' s.toList
  cases n with
  | library crate =>
      refine ⟨crate, "lib", h.1, by decide, String.toList_inj.1 ?_, rfl⟩
      rw [hreplaced, text]
      simp [hword crate h]
  | binary crate name =>
      refine ⟨crate, "bin_" ++ name, h.1.1, by simp, String.toList_inj.1 ?_, rfl⟩
      rw [hreplaced, text]
      simp [hword crate h.1, hword name h.2]

end RefName

namespace Archive

theorem namePath_eq (dir : String) {n : RefName} (h : n.IsPlain) :
    namePath dir n.text = join (dir :: n.tail) := by
  rcases RefName.replaced_text h with ⟨crate, leaf, hcrate, hleaf, htext, htail⟩
  rw [namePath, htext, join_slash dir "refs" (by decide) hcrate hleaf, htail]

theorem ofPath_namePath (dir : String) {n : RefName} (h : n.IsPlain) :
    Place.ofPath (namePath dir n.text) = Place.ofPath dir ++ n.tail := by
  rw [namePath_eq dir h, Place.ofPath_join dir (RefName.isName_tail h)]

theorem isClean_namePath (dir : String) {n : RefName} (h : n.IsPlain) :
    IsClean (namePath dir n.text) := by
  rcases RefName.replaced_text h with ⟨crate, leaf, hcrate, -, -, htail⟩
  rw [namePath_eq dir h, htail]
  have hrefs : "refs" ∈ [dir, "refs", crate, leaf] := by simp
  exact isClean_join hrefs (by decide)

/-! ## Places apart -/

/-- The places below the archive's directory where something may be stored. -/
inductive IsTail : Place → Prop where
  | content {digest : String} (h : Digest.isValid digest = true) : IsTail (contentTail digest)
  | name {n : RefName} (h : n.IsPlain) : IsTail n.tail

/-- Contents lie two names deep, names three, and the first name tells them apart. -/
theorem IsTail.shape {p : Place} (h : IsTail p) :
    (∃ x y, x ≠ "refs" ∧ p = [x, y]) ∨ ∃ x y, p = ["refs", x, y] := by
  cases h with
  | @content digest hvalid =>
      refine Or.inl ⟨_, _, ?_, rfl⟩
      -- two digits are too short for the name of the other directory
      intro heq
      have hlength := congrArg (fun s : String => s.toList.length) heq
      simp at hlength
      omega
  | @name n hplain =>
      cases n with
      | library crate =>
          exact Or.inr ⟨_, _, rfl⟩
      | binary crate name =>
          exact Or.inr ⟨_, _, rfl⟩

theorem IsTail.isName {p : Place} (h : IsTail p) : ∀ name ∈ p, IsName name.toList := by
  cases h with
  | content hvalid =>
      exact isName_contentTail hvalid
  | name hplain =>
      exact RefName.isName_tail hplain

theorem IsTail.ne_nil {p : Place} (h : IsTail p) : p ≠ [] := by
  rintro rfl
  rcases h.shape with ⟨x, y, -, hshape⟩ | ⟨x, y, hshape⟩ <;> cases hshape

/-- What lies above a place is the directory of the first two digits, that of the names, or that of
a crate's names. -/
theorem IsTail.above {p : Place} (h : IsTail p) {name : String} {rest : Place}
    (hbelow : name :: rest <+: p) (hne : name :: rest ≠ p) :
    rest = [] ∨ ∃ x, name :: rest = ["refs", x] := by
  have hlength : (name :: rest).length < p.length :=
    Nat.lt_of_le_of_ne hbelow.length_le fun heq => hne (hbelow.eq_of_length heq)
  rcases h.shape with ⟨x, y, -, rfl⟩ | ⟨x, y, rfl⟩
  · refine Or.inl (List.length_eq_zero_iff.1 ?_)
    simp only [List.length_cons, List.length_nil] at hlength
    omega
  · rcases List.cons_prefix_cons.1 hbelow with ⟨rfl, hrest⟩
    cases rest with
    | nil =>
        exact Or.inl rfl
    | cons second rest =>
        rcases List.cons_prefix_cons.1 hrest with ⟨rfl, -⟩
        have hnil : rest = [] := by
          refine List.length_eq_zero_iff.1 ?_
          simp only [List.length_cons, List.length_nil] at hlength
          omega
        exact Or.inr ⟨second, by rw [hnil]⟩

/-- No place lies above another one. -/
theorem IsTail.eq_of_prefix {p q : Place} (hp : IsTail p) (hq : IsTail q) (h : q <+: p) :
    q = p := by
  rcases hp.shape with ⟨x, y, hx, rfl⟩ | ⟨x, y, rfl⟩
  · rcases hq.shape with ⟨x', y', -, rfl⟩ | ⟨x', y', rfl⟩
    · exact h.eq_of_length rfl
    · have hlength := h.length_le
      simp at hlength
  · rcases hq.shape with ⟨x', y', hx', rfl⟩ | ⟨x', y', rfl⟩
    · exact absurd (List.cons_prefix_cons.1 h).1 hx'
    · exact h.eq_of_length rfl

theorem contentTail_ne_tail {digest : String} (h : Digest.isValid digest = true) (n : RefName) :
    contentTail digest ≠ n.tail := by
  intro heq
  rcases (IsTail.content h).shape with ⟨x, y, -, hshape⟩ | ⟨x, y, hshape⟩
  · cases n <;> simp [heq, RefName.tail] at hshape
  · simp [contentTail] at hshape

end Archive
end ApiPages

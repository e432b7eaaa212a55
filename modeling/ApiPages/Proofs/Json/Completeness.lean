import ApiPages.Proofs.Json.Grammar
import ApiPages.Proofs.Text.Blank

/-!
# The reader accepts every text

Whatever the grammar derives is read back, up to the nesting that is allowed.  Each token reader is
followed first; then values, items and members go together by induction on the fuel, of which a text
needs no more than twice its length.

* `scanString_escapes` and `scanNumber_literal` for tokens;
* `Complete fuel` says that the three readers with that fuel accept all short enough texts;
* `readFirst_spells`, `parse?_spells` for whole texts.
-/

namespace ApiPages
namespace Json

open Text (ne_of_class)

/-! ## Blanks -/

theorem skipGap_append {g : List Char} (h : Gap g) (cs : List Char) :
    skipGap (g ++ cs) = skipGap cs := by
  rw [skipGap, List.dropWhile_append_of_pos h]
  rfl

theorem skipGap_cons {c : Char} (h : isGap c = false) (cs : List Char) :
    skipGap (c :: cs) = c :: cs := by
  rw [skipGap, List.dropWhile_cons_of_neg (by simp [h])]

/-- The blanks in front of a text are skipped, and no more. -/
theorem skipGap_append_cons {g : List Char} (hg : Gap g) {c : Char} (hc : isGap c = false)
    (cs : List Char) :
    skipGap (g ++ c :: cs) = c :: cs := by
  rw [skipGap_append hg, skipGap_cons hc]

/-! ## Strings -/

theorem scanString_char {c : Char} (hctl : 0x20 ≤ c.toNat) (hquote : c ≠ '"') (hback : c ≠ '\\')
    (acc rest : List Char) : scanString acc (c :: rest) = scanString (c :: acc) rest := by
  have hnot : ¬ c.toNat < 0x20 := by omega
  rw [scanString.eq_def]
  simp [hback, hnot]

theorem scanString_short {e c : Char} (h : shortEscape e = some c) (acc rest : List Char) :
    scanString acc ('\\' :: e :: rest) = scanString (c :: acc) rest := by
  have hu : e ≠ 'u' := by
    rintro rfl
    cases h
  rw [scanString.eq_def]
  simp [hu, h]

/-- An escape is read on its own unless it begins a surrogate pair. -/
theorem scanString_hex {a b c d : Char} {n : Nat} (tail : List Char) (hn : hexQuad a b c d = some n)
    (htail : ∀ e f g h more, tail = '\\' :: 'u' :: e :: f :: g :: h :: more →
      ∃ m, hexQuad e f g h = some m ∧ (isHighSurrogate n && isLowSurrogate m) = false)
    (acc : List Char) :
    scanString acc ('\\' :: 'u' :: a :: b :: c :: d :: tail) =
      scanString ((if isHighSurrogate n || isLowSurrogate n then replacement else Char.ofNat n) ::
        acc)
        tail := by
  by_cases hescape : ∃ e f g h more, tail = '\\' :: 'u' :: e :: f :: g :: h :: more
  · -- the reader looks at the next escape, sees that it is no partner, and leaves it there
    rcases hescape with ⟨e, f, g, h, more, rfl⟩
    rcases htail e f g h more rfl with ⟨m, hm, hnot⟩
    rw [scanString.eq_def]
    simp only [hn, hm, hnot]
    rfl
  · have hno : ∀ e f g h more, tail = '\\' :: 'u' :: e :: f :: g :: h :: more → False :=
      fun e f g h more heq => hescape ⟨e, f, g, h, more, heq⟩
    rw [scanString]
    · simp only [hn]
    · exact hno

theorem scanString_pair {a b c d e f g h : Char} {n m : Nat} (hn : hexQuad a b c d = some n)
    (hm : hexQuad e f g h = some m) (hhigh : isHighSurrogate n = true)
    (hlow : isLowSurrogate m = true) (acc rest : List Char) :
    scanString acc ('\\' :: 'u' :: a :: b :: c :: d :: '\\' :: 'u' :: e :: f :: g :: h :: rest) =
      scanString (pairValue n m :: acc) rest := by
  rw [scanString.eq_def]
  simp [hn, hm, hhigh, hlow]

/-- A text that begins with an escape has all of it before the closing quote. -/
theorem Escapes.eq_escape {value cs tail more : List Char} (h : Escapes value cs) {a b c d : Char}
    (hcs : cs ++ '"' :: tail = '\\' :: 'u' :: a :: b :: c :: d :: more) :
    ∃ m rest, hexQuad a b c d = some m ∧ cs = '\\' :: 'u' :: a :: b :: c :: d :: rest := by
  cases h with
  | nil =>
      simp at hcs
  | char _ _ hback _ =>
      simp [hback] at hcs
  | @short e _ _ _ hshort _ =>
      simp only [List.cons_append, List.cons.injEq] at hcs
      rw [hcs.2.1] at hshort
      cases hshort
  | unicode hn | lone hn | pair hn =>
      simp only [List.cons_append, List.cons.injEq, true_and] at hcs
      rcases hcs with ⟨rfl, rfl, rfl, rfl, -⟩
      exact ⟨_, _, hn, rfl⟩

theorem scanString_escapes {value cs : List Char} (h : Escapes value cs) (acc rest : List Char) :
    scanString acc (cs ++ '"' :: rest) = some (acc.reverse ++ value, rest) := by
  induction h generalizing acc with
  | nil =>
      simp [scanString]
  | char hctl hquote hback _ ih =>
      rw [List.cons_append, scanString_char hctl hquote hback, ih]
      simp
  | short hshort _ ih =>
      rw [List.cons_append, List.cons_append, scanString_short hshort, ih]
      simp
  | @unicode a b c d n value cs hn hhigh hlow hmore ih =>
      -- the next escape may be anything, since this one is no first half of a pair
      have hstep := scanString_hex (cs ++ '"' :: rest) hn (by
        intro e f g h more hcs
        rcases hmore.eq_escape hcs with ⟨m, -, hm, -⟩
        exact ⟨m, hm, by simp [hhigh]⟩) acc
      simp only [List.cons_append]
      rw [hstep, ih]
      simp [hhigh, hlow]
  | pair hn hm hhigh hlow _ ih =>
      simp only [List.cons_append]
      rw [scanString_pair hn hm hhigh hlow, ih]
      simp
  | @lone a b c d n value cs hn hlone hnext hmore ih =>
      have hstep := scanString_hex (cs ++ '"' :: rest) hn (by
        intro e f g h more hcs
        rcases hmore.eq_escape hcs with ⟨m, more, hm, rfl⟩
        exact ⟨m, hm, hnext e f g h m more rfl hm⟩) acc
      have hreplaced : (isHighSurrogate n || isLowSurrogate n) = true := by simpa using hlone
      simp only [List.cons_append]
      rw [hstep, ih]
      simp [hreplaced]

theorem scanString_quoted {value cs : List Char} (h : Escapes value cs) (rest : List Char) :
    scanString [] (cs ++ '"' :: rest) = some (value, rest) :=
  scanString_escapes h [] rest

/-! ## Numbers -/

/-- No number goes on with this text. -/
def EndsNumber (rest : List Char) : Prop :=
  ∀ c, rest.head? = some c → c.isDigit = false ∧ c ≠ '.' ∧ c ≠ 'e' ∧ c ≠ 'E'

theorem scanDigits_append {ds rest : List Char} (h : Digits ds)
    (hrest : ∀ c, rest.head? = some c → c.isDigit = false) :
    scanDigits (ds ++ rest) = some (ds, rest) := by
  have htake : (ds ++ rest).takeWhile Char.isDigit = ds := by
    rw [List.takeWhile_append_of_pos h.2]
    cases rest with
    | nil =>
        simp
    | cons c rest =>
        simp [hrest c rfl]
  have hdrop : (ds ++ rest).dropWhile Char.isDigit = rest := by
    rw [List.dropWhile_append_of_pos h.2]
    cases rest with
    | nil =>
        rfl
    | cons c rest =>
        simp [hrest c rfl]
  simp [scanDigits, htake, hdrop, h.1]

theorem scanInteger_whole {whole rest : List Char} (h : Whole whole)
    (hrest : ∀ c, rest.head? = some c → c.isDigit = false) :
    scanInteger (whole ++ rest) = some (whole, rest) := by
  cases h with
  | zero =>
      rfl
  | digits hds hzero =>
      have hscan := scanDigits_append hds hrest
      cases whole with
      | nil =>
          exact absurd rfl hds.1
      | cons c whole =>
          have hc : c ≠ '0' := by simpa using hzero
          rw [List.cons_append] at hscan ⊢
          simpa [scanInteger, hc] using hscan

theorem scanFraction_append {fraction rest : List Char} (h : Fraction fraction)
    (hrest : ∀ c, rest.head? = some c → c.isDigit = false ∧ c ≠ '.') :
    scanFraction (fraction ++ rest) = some (fraction, rest) := by
  cases h with
  | none =>
      cases rest with
      | nil =>
          rfl
      | cons c rest =>
          simp [scanFraction, (hrest c rfl).2]
  | some hds =>
      simp [scanFraction, scanDigits_append hds fun c hc => (hrest c hc).1]

theorem scanExponent_append {exponent rest : List Char} (h : Exponent exponent)
    (hrest : EndsNumber rest) :
    scanExponent (exponent ++ rest) = some (exponent, rest) := by
  cases h with
  | none =>
      cases rest with
      | nil =>
          rfl
      | cons c rest =>
          have hc := hrest c rfl
          simp [scanExponent, hc.2.2.1, hc.2.2.2]
  | @some e sign ds he hsign hds =>
      have hscan := scanDigits_append hds fun c hc => (hrest c hc).1
      have hmark : (e == 'e' || e == 'E') = true := by simpa using he
      rcases hsign with rfl | rfl | rfl
      · cases ds with
        | nil =>
            exact absurd rfl hds.1
        | cons d ds =>
            -- a digit is no sign
            have hd : d.isDigit = true := hds.2 d (List.mem_cons_self ..)
            have hplus : d ≠ '+' := ne_of_class hd (by decide)
            have hminus : d ≠ '-' := ne_of_class hd (by decide)
            simp only [List.cons_append] at hscan
            simp [scanExponent, hmark, hplus, hminus, hscan]
      · simp [scanExponent, hmark, hscan]
      · simp [scanExponent, hmark, hscan]

theorem Digits.eq_cons {ds : List Char} (h : Digits ds) :
    ∃ d more, ds = d :: more ∧ d.isDigit = true := by
  cases ds with
  | nil =>
      exact absurd rfl h.1
  | cons d more =>
      exact ⟨d, more, rfl, h.2 d (List.mem_cons_self ..)⟩

theorem Whole.eq_cons {whole : List Char} (h : Whole whole) :
    ∃ d more, whole = d :: more ∧ d.isDigit = true := by
  cases h with
  | zero =>
      exact ⟨'0', [], rfl, by decide⟩
  | digits hds =>
      exact hds.eq_cons

theorem scanNumber_literal {cs rest : List Char} (h : Literal cs) (hrest : EndsNumber rest) :
    scanNumber (cs ++ rest) = some (cs, rest) := by
  rcases h with @⟨sign, whole, fraction, exponent, hsign, hwhole, hfraction, hexponent⟩
  -- from the end to the beginning: each part ends where the next one begins
  have hexp : scanExponent (exponent ++ rest) = some (exponent, rest) :=
    scanExponent_append hexponent hrest
  have hafter : ∀ c, (exponent ++ rest).head? = some c → c.isDigit = false ∧ c ≠ '.' := by
    intro c hc
    cases hexponent with
    | none =>
        exact ⟨(hrest c hc).1, (hrest c hc).2.1⟩
    | some he =>
        simp at hc
        subst hc
        rcases he with rfl | rfl
        · decide
        · decide
  have hfrac : scanFraction (fraction ++ (exponent ++ rest)) = some (fraction, exponent ++ rest) :=
    scanFraction_append hfraction hafter
  have hmore : ∀ c, (fraction ++ (exponent ++ rest)).head? = some c → c.isDigit = false := by
    intro c hc
    cases hfraction with
    | none =>
        exact (hafter c hc).1
    | some =>
        simp at hc
        subst hc
        decide
  have hint := scanInteger_whole hwhole hmore
  rcases hsign with rfl | rfl
  · rcases hwhole.eq_cons with ⟨d, more, rfl, hd⟩
    have hminus : d ≠ '-' := ne_of_class hd (by decide)
    rw [List.cons_append] at hint
    simp [scanNumber, hminus, hint, hfrac, hexp]
  · simp [scanNumber, hint, hfrac, hexp]

theorem Literal.eq_cons {cs : List Char} (h : Literal cs) :
    ∃ c more, cs = c :: more ∧ (c = '-' ∨ c.isDigit = true) := by
  rcases h with @⟨sign, whole, fraction, exponent, hsign, hwhole, -, -⟩
  rcases hsign with rfl | rfl
  · rcases hwhole.eq_cons with ⟨d, more, rfl, hd⟩
    exact ⟨d, more ++ (fraction ++ exponent), rfl, .inr hd⟩
  · exact ⟨'-', whole ++ (fraction ++ exponent), rfl, .inl rfl⟩

/-! ## Values -/

/-- No text begins with a blank or a closing bracket. -/
theorem Spells.head {j : Json} {cs : List Char} (h : Spells j cs) :
    ∃ c more, cs = c :: more ∧ isGap c = false ∧ c ≠ ']' := by
  cases h with
  | null =>
      exact ⟨'n', ['u', 'l', 'l'], rfl, by decide, by decide⟩
  | isTrue =>
      exact ⟨'t', ['r', 'u', 'e'], rfl, by decide, by decide⟩
  | isFalse =>
      exact ⟨'f', ['a', 'l', 's', 'e'], rfl, by decide, by decide⟩
  | number hcs =>
      rcases hcs.eq_cons with ⟨c, more, rfl, hc⟩
      refine ⟨c, more, rfl, ?_, ?_⟩
      · rcases hc with rfl | hc
        · decide
        · have hne : ∀ d : Char, d.isDigit = false → c ≠ d := fun d hd => ne_of_class hc hd
          simp [isGap,
            hne ' ' (by decide), hne '\t' (by decide), hne '\n' (by decide), hne '\r' (by decide)]
      · rintro rfl
        rcases hc with hc | hc
        · cases hc
        · cases hc
  | string hcs =>
      rcases hcs with ⟨-⟩
      exact ⟨'"', _, rfl, by decide, by decide⟩
  | emptyArray | array =>
      exact ⟨'[', _, rfl, by decide, by decide⟩
  | emptyObject | object =>
      exact ⟨'\x7b', _, rfl, by decide, by decide⟩

theorem between_append (cs rest : List Char) : between (cs ++ rest) rest = String.ofList cs := by
  simp [between]

theorem readValue_number (fuel depth : Nat) {c : Char} (h : c = '-' ∨ c.isDigit = true)
    (cs : List Char) :
    readValue (fuel + 1) depth (c :: cs) =
      (scanNumber (c :: cs)).map fun (literal, rest) =>
        (.number (String.ofList literal), rest) := by
  have hne : ∀ d : Char, d ≠ '-' → d.isDigit = false → c ≠ d := by
    intro d hminus hd
    rcases h with rfl | h
    · exact hminus.symm
    · exact ne_of_class h hd
  -- the reader tries six other first characters before it tries a number
  rw [readValue]
  · intro rest heq
    exact hne 'n' (by decide) (by decide) (List.cons.inj heq).1
  · intro rest heq
    exact hne 't' (by decide) (by decide) (List.cons.inj heq).1
  · intro rest heq
    exact hne 'f' (by decide) (by decide) (List.cons.inj heq).1
  · intro rest heq
    exact hne '"' (by decide) (by decide) (List.cons.inj heq).1
  · intro rest heq
    exact hne '[' (by decide) (by decide) (List.cons.inj heq).1
  · intro rest heq
    exact hne '\x7b' (by decide) (by decide) (List.cons.inj heq).1

theorem readValue_emptyArray {cs rest : List Char} (h : skipGap cs = ']' :: rest)
    (fuel depth : Nat) :
    readValue (fuel + 1) (depth + 1) ('[' :: cs) =
      some (.array (between ('[' :: cs) rest) [], rest) := by
  simp [readValue, h]

theorem readValue_array {fuel depth : Nat} {c : Char} {cs more rest : List Char} {items : List Json}
    (h : skipGap cs = c :: more) (hc : c ≠ ']')
    (hitems : readItems fuel depth (c :: more) = some (items, rest)) :
    readValue (fuel + 1) (depth + 1) ('[' :: cs) =
      some (.array (between ('[' :: cs) rest) items, rest) := by
  simp [readValue, h, hc, hitems]

theorem readValue_emptyObject {cs rest : List Char} (h : skipGap cs = '\x7d' :: rest)
    (fuel depth : Nat) :
    readValue (fuel + 1) (depth + 1) ('\x7b' :: cs) =
      some (.object (between ('\x7b' :: cs) rest) [], rest) := by
  simp [readValue, h]

theorem readValue_object {fuel depth : Nat} {c : Char} {cs more rest : List Char}
    {members : List (String × Json)} (h : skipGap cs = c :: more) (hc : c ≠ '\x7d')
    (hmembers : readMembers fuel depth (c :: more) = some (members, rest)) :
    readValue (fuel + 1) (depth + 1) ('\x7b' :: cs) =
      some (.object (between ('\x7b' :: cs) rest) members, rest) := by
  simp [readValue, h, hc, hmembers]

/-! ## Items and members -/

theorem Separated.head {α : Type} {R : α → List Char → Prop} {P : Char → Prop}
    (hR : ∀ x cs, R x cs → ∃ c more, cs = c :: more ∧ P c) {xs : List α} {cs : List Char}
    (h : Separated R xs cs) : ∃ c more, cs = c :: more ∧ P c := by
  cases h with
  | last hx | cons hx =>
      rcases hR _ _ hx with ⟨c, more, rfl, hc⟩
      exact ⟨c, _, rfl, hc⟩

theorem SpellsMember.head {m : String × Json} {cs : List Char} (h : SpellsMember m cs) :
    ∃ c more, cs = c :: more ∧ c = '"' := by
  rcases h with ⟨⟨-⟩, -, -, -⟩
  exact ⟨'"', _, rfl, rfl⟩

theorem endsNumber_gap {g r : List Char} (hg : Gap g) (h : EndsNumber r) : EndsNumber (g ++ r) := by
  cases g with
  | nil =>
      exact h
  | cons c g =>
      intro d hd
      have hc : isGap d = true := by
        simp at hd
        exact hd ▸ hg c (List.mem_cons_self ..)
      simp [isGap] at hc
      rcases hc with ((rfl | rfl) | rfl) | rfl
      · decide
      · decide
      · decide
      · decide

theorem endsNumber_cons {c : Char} (h : c = ',' ∨ c = ']' ∨ c = '\x7d') (rest : List Char) :
    EndsNumber (c :: rest) := by
  intro d hd
  simp at hd
  subst hd
  rcases h with rfl | rfl | rfl
  · decide
  · decide
  · decide

/-- With this fuel the readers accept every text that is short enough for it. -/
structure Complete (fuel : Nat) : Prop where
  value : ∀ {j cs}, Spells j cs → 2 * cs.length ≤ fuel → ∀ depth, j.depth ≤ depth →
    ∀ {rest}, EndsNumber rest → readValue fuel depth (cs ++ rest) = some (j, rest)
  items : ∀ {js cs}, Separated Spells js cs → 2 * cs.length + 1 ≤ fuel →
    ∀ depth, depthOfItems js ≤ depth →
    ∀ {g}, Gap g → ∀ rest, readItems fuel depth (g ++ (cs ++ ']' :: rest)) = some (js, rest)
  members : ∀ {ms cs}, Separated SpellsMember ms cs → 2 * cs.length + 1 ≤ fuel →
    ∀ depth, depthOfMembers ms ≤ depth →
    ∀ {g}, Gap g → ∀ rest, readMembers fuel depth (g ++ (cs ++ '\x7d' :: rest)) = some (ms, rest)

theorem Spells.length_pos {j : Json} {cs : List Char} (h : Spells j cs) : 0 < cs.length := by
  rcases h.head with ⟨c, more, rfl, -⟩
  simp

theorem complete_zero : Complete 0 where
  value := by
    intro j cs h hfuel
    have := h.length_pos
    omega
  items := by
    intro js cs _ hfuel
    omega
  members := by
    intro ms cs _ hfuel
    omega

theorem Complete.value_succ {fuel : Nat} (h : Complete fuel) {j : Json} {cs : List Char}
    (hj : Spells j cs) (hfuel : 2 * cs.length ≤ fuel + 1) (depth : Nat) (hdepth : j.depth ≤ depth)
    {rest : List Char} (hrest : EndsNumber rest) :
    readValue (fuel + 1) depth (cs ++ rest) = some (j, rest) := by
  cases hj with
  | null | isTrue | isFalse =>
      rfl
  | number hcs =>
      have hscan := scanNumber_literal hcs hrest
      rcases hcs.eq_cons with ⟨c, more, rfl, hc⟩
      rw [List.cons_append] at hscan ⊢
      rw [readValue_number fuel depth hc, hscan]
      rfl
  | string hcs =>
      cases hcs with
      | @mk cs hvalue =>
          have hscan := scanString_quoted hvalue rest
          have htext : '"' :: cs ++ ['"'] ++ rest = '"' :: (cs ++ '"' :: rest) := by simp
          have hbetween := between_append ('"' :: cs ++ ['"']) rest
          rw [htext] at hbetween ⊢
          simp [readValue, hscan, hbetween]
  | @emptyArray g hg =>
      have hskip : skipGap (g ++ [']'] ++ rest) = ']' :: rest := by
        rw [List.append_assoc]
        exact skipGap_append_cons hg (by decide) rest
      have hbetween := between_append ('[' :: (g ++ [']'])) rest
      cases depth with
      | zero =>
          simp [Json.depth] at hdepth
      | succ depth =>
          rw [← hbetween]
          exact readValue_emptyArray hskip fuel depth
  | @array items g cs hg hitems =>
      rcases hitems.head fun _ _ h => h.head with ⟨c, more, hcs, hgap, hclose⟩
      have hskip : skipGap (g ++ (cs ++ [']']) ++ rest) = c :: (more ++ ']' :: rest) := by
        rw [hcs, List.append_assoc, List.cons_append, List.cons_append, List.append_assoc]
        exact skipGap_append_cons hg hgap _
      have hbetween := between_append ('[' :: (g ++ (cs ++ [']']))) rest
      cases depth with
      | zero =>
          simp [Json.depth] at hdepth
      | succ depth =>
          have hread : readItems fuel depth (c :: (more ++ ']' :: rest)) = some (items, rest) := by
            have :=
              h.items hitems (by simp at hfuel; omega) depth (by simpa [Json.depth] using hdepth)
              (g := []) (by simp [Gap]) rest
            simpa [hcs] using this
          rw [← hbetween]
          exact readValue_array hskip hclose hread
  | @emptyObject g hg =>
      have hskip : skipGap (g ++ ['\x7d'] ++ rest) = '\x7d' :: rest := by
        rw [List.append_assoc]
        exact skipGap_append_cons hg (by decide) rest
      have hbetween := between_append ('\x7b' :: (g ++ ['\x7d'])) rest
      cases depth with
      | zero =>
          simp [Json.depth] at hdepth
      | succ depth =>
          rw [← hbetween]
          exact readValue_emptyObject hskip fuel depth
  | @object members g cs hg hmembers =>
      rcases hmembers.head fun _ _ h => h.head with ⟨c, more, hcs, rfl⟩
      have hskip : skipGap (g ++ (cs ++ ['\x7d']) ++ rest) = '"' :: (more ++ '\x7d' :: rest) := by
        rw [hcs, List.append_assoc, List.cons_append, List.cons_append, List.append_assoc]
        exact skipGap_append_cons hg (by decide) _
      have hbetween := between_append ('\x7b' :: (g ++ (cs ++ ['\x7d']))) rest
      cases depth with
      | zero =>
          simp [Json.depth] at hdepth
      | succ depth =>
          have hread : readMembers fuel depth ('"' :: (more ++ '\x7d' :: rest)) =
              some (members, rest) := by
            have :=
              h.members hmembers (by simp at hfuel; omega) depth
                (by simpa [Json.depth] using hdepth)
              (g := []) (by simp [Gap]) rest
            simpa [hcs] using this
          rw [← hbetween]
          exact readValue_object hskip (by decide) hread

/-- The first item, with the blanks around it, and what decides how to go on. -/
theorem Complete.item {fuel : Nat} (h : Complete fuel) {j : Json} {cs g g' : List Char}
    (hj : Spells j cs) (hfuel : 2 * cs.length ≤ fuel) (depth : Nat) (hdepth : j.depth ≤ depth)
    (hg : Gap g) (hg' : Gap g') {c : Char} (hc : c = ',' ∨ c = ']' ∨ c = '\x7d')
    (rest : List Char) :
    ∃ after, readValue fuel depth (skipGap (g ++ (cs ++ (g' ++ c :: rest)))) = some (j, after) ∧
      skipGap after = c :: rest := by
  have hstart : skipGap (g ++ (cs ++ (g' ++ c :: rest))) = cs ++ (g' ++ c :: rest) := by
    rcases hj.head with ⟨d, more, rfl, hd, -⟩
    exact skipGap_append_cons hg hd _
  have hends : EndsNumber (g' ++ c :: rest) := endsNumber_gap hg' (endsNumber_cons hc rest)
  refine ⟨g' ++ c :: rest, ?_, ?_⟩
  · rw [hstart]
    exact h.value hj hfuel depth hdepth hends
  · refine skipGap_append_cons hg' ?_ rest
    rcases hc with rfl | rfl | rfl
    · decide
    · decide
    · decide

theorem Complete.items_succ {fuel : Nat} (h : Complete fuel) {js : List Json} {cs : List Char}
    (hjs : Separated Spells js cs) (hfuel : 2 * cs.length + 1 ≤ fuel + 1) (depth : Nat)
    (hdepth : depthOfItems js ≤ depth) {g : List Char} (hg : Gap g) (rest : List Char) :
    readItems (fuel + 1) depth (g ++ (cs ++ ']' :: rest)) = some (js, rest) := by
  cases hjs with
  | @last j cs g' hj hg' =>
      simp only [depthOfItems] at hdepth
      rcases h.item hj (by simp at hfuel; omega) depth (by omega) hg hg' (.inr (.inl rfl)) rest with
        ⟨after, hread, hskip⟩
      rw [List.append_assoc, readItems]
      simp [hread, hskip]
  | @cons j js cs g' g'' more hj hg' hg'' hmore =>
      simp only [depthOfItems] at hdepth
      rcases h.item hj (by simp at hfuel; omega) depth (by omega) hg hg' (.inl rfl)
        (g'' ++ (more ++ ']' :: rest)) with ⟨after, hread, hskip⟩
      have hrest := h.items hmore (by simp at hfuel; omega) depth (by omega) hg'' rest
      have htext : g ++ (cs ++ (g' ++ ',' :: (g'' ++ more)) ++ ']' :: rest) =
          g ++ (cs ++ (g' ++ ',' :: (g'' ++ (more ++ ']' :: rest)))) := by simp
      rw [htext, readItems]
      simp [hread, hskip, hrest]

/-- The first member: its key, the colon and the value, and what decides how to go on. -/
theorem Complete.member {fuel : Nat} (h : Complete fuel) {m : String × Json} {cs g g' : List Char}
    (hm : SpellsMember m cs) (hfuel : 2 * cs.length ≤ fuel) (depth : Nat)
    (hdepth : m.2.depth ≤ depth) (hg : Gap g) (hg' : Gap g') {c : Char}
    (hc : c = ',' ∨ c = ']' ∨ c = '\x7d') (rest : List Char) :
    ∃ key quoted colon value after, skipGap (g ++ (cs ++ (g' ++ c :: rest))) = '"' :: quoted ∧
      scanString [] quoted = some (key, colon) ∧ String.ofList key = m.1 ∧
      skipGap colon = ':' :: value ∧
      readValue fuel depth (skipGap value) = some (m.2, after) ∧ skipGap after = c :: rest := by
  rcases hm with @⟨key, k, a, b, cs, j, ⟨hkey⟩, ha, hb, hj⟩
  rename_i inside
  rcases h.item hj (by simp at hfuel; omega) depth hdepth hb hg' hc rest with ⟨after, hread, hskip⟩
  -- what stands after the colon, and what stands after the key
  let value := b ++ (cs ++ (g' ++ c :: rest))
  let colon := a ++ ':' :: value
  have htext : g ++ ('"' :: inside ++ ['"'] ++ (a ++ ':' :: (b ++ cs)) ++ (g' ++ c :: rest)) =
      g ++ '"' :: (inside ++ '"' :: colon) := by simp [colon, value]
  refine ⟨key, inside ++ '"' :: colon, colon, value, after, ?_, scanString_quoted hkey colon,
    rfl, ?_, hread, hskip⟩
  · rw [htext]
    exact skipGap_append_cons hg (by decide) _
  · exact skipGap_append_cons ha (by decide) value

theorem Complete.members_succ {fuel : Nat} (h : Complete fuel) {ms : List (String × Json)}
    {cs : List Char} (hms : Separated SpellsMember ms cs) (hfuel : 2 * cs.length + 1 ≤ fuel + 1)
    (depth : Nat) (hdepth : depthOfMembers ms ≤ depth) {g : List Char} (hg : Gap g)
    (rest : List Char) :
    readMembers (fuel + 1) depth (g ++ (cs ++ '\x7d' :: rest)) = some (ms, rest) := by
  cases hms with
  | @last m cs g' hm hg' =>
      simp only [depthOfMembers] at hdepth
      rcases h.member hm (by simp at hfuel; omega) depth (by omega) hg hg' (.inr (.inr rfl))
        rest with
        ⟨key, quoted, colon, value, after, hstart, hkey, hname, hcolon, hread, hskip⟩
      rw [List.append_assoc, readMembers]
      simp [hstart, hkey, hname, hcolon, hread, hskip]
  | @cons m ms cs g' g'' text hm hg' hg'' hmore =>
      simp only [depthOfMembers] at hdepth
      rcases h.member hm (by simp at hfuel; omega) depth (by omega) hg hg' (.inl rfl)
        (g'' ++ (text ++ '\x7d' :: rest)) with
        ⟨key, quoted, colon, value, after, hstart, hkey, hname, hcolon, hread, hskip⟩
      have hrest := h.members hmore (by simp at hfuel; omega) depth (by omega) hg'' rest
      have htext : g ++ (cs ++ (g' ++ ',' :: (g'' ++ text)) ++ '\x7d' :: rest) =
          g ++ (cs ++ (g' ++ ',' :: (g'' ++ (text ++ '\x7d' :: rest)))) := by simp
      rw [htext, readMembers]
      simp [hstart, hkey, hname, hcolon, hread, hskip, hrest]

theorem complete (fuel : Nat) : Complete fuel := by
  induction fuel with
  | zero =>
      exact complete_zero
  | succ fuel ih =>
      exact ⟨ih.value_succ, ih.items_succ, ih.members_succ⟩

/-! ## Whole texts -/

theorem readFirst_spells {j : Json} {before cs rest : List Char} (h : Spells j cs)
    (hbefore : Gap before) (hdepth : j.depth ≤ maxDepth) (hrest : EndsNumber rest) :
    readFirst (before ++ (cs ++ rest)) = some (j, rest) := by
  have hstart : skipGap (before ++ (cs ++ rest)) = cs ++ rest := by
    rcases h.head with ⟨c, more, rfl, hc, -⟩
    exact skipGap_append_cons hbefore hc _
  rw [readFirst, hstart]
  exact (complete _).value h (by simp; omega) maxDepth hdepth hrest

/-- A text of a value, with blanks around it, is read as that value. -/
theorem parse?_spells {j : Json} {before cs after : List Char} (h : Spells j cs)
    (hbefore : Gap before) (hafter : Gap after) (hdepth : j.depth ≤ maxDepth) :
    parse? (String.ofList (before ++ (cs ++ after))) = some j := by
  have hends : EndsNumber after := by
    have := endsNumber_gap hafter (r := []) (by simp [EndsNumber])
    rwa [List.append_nil] at this
  have hskip : skipGap after = [] := by
    have := skipGap_append hafter []
    rwa [List.append_nil] at this
  rw [parse?, String.toList_ofList, readFirst_spells h hbefore hdepth hends]
  simp [hskip]

end Json
end ApiPages

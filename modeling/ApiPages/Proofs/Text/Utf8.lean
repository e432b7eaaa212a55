import ApiPages.Text.Search
import ApiPages.Text.Utf8
import Mathlib.Data.List.Basic

/-!
# Bytes and the characters read from them

A byte below 0x80 is a character of its own, wherever it stands: bytes may be cut there before they
are read.

* `Utf8.decoded_induction` follows the characters that are read from bytes;
* `Utf8.decoded_append` says so for one such byte, `Utf8.splitOn_decoded` for all line ends of a
  text;
* `Utf8.encodeChar_of_first?` gives the bytes of a character that was read, and
  `Utf8.decoded_encoded` reads characters back from their bytes.
-/

namespace ApiPages

/-- A function that keeps the places where a row can be cut commutes with cutting it. -/
theorem splitOn_eq_map {α β : Type} [DecidableEq α] [DecidableEq β] {a : α} {b : β}
    (f : List α → List β) (hcut : ∀ l r, f (l ++ a :: r) = f l ++ b :: f r)
    (hnone : ∀ l, a ∉ l → b ∉ f l) (l : List α) : (f l).splitOn b = (l.splitOn a).map f := by
  -- both sides of a cut are shorter, and only those are known of
  induction h : l.length using Nat.strongRecOn generalizing l with
  | ind n ih =>
      by_cases ha : a ∈ l
      · rcases List.append_of_mem ha with ⟨before, after, rfl⟩
        rw [List.length_append, List.length_cons] at h
        have hbefore := ih before.length (by omega) before rfl
        have hafter := ih after.length (by omega) after rfl
        have hrows : (before ++ a :: after).splitOn a = before.splitOn a ++ after.splitOn a :=
          List.splitOnP_append_cons before after (beq_self_eq_true a)
        have himages : (f before ++ b :: f after).splitOn b =
            (f before).splitOn b ++ (f after).splitOn b :=
          List.splitOnP_append_cons _ _ (beq_self_eq_true b)
        rw [hcut, hrows, himages, hbefore, hafter, List.map_append]
      · have hl : l.splitOn a = [l] :=
          List.splitOnP_eq_singleton fun x hx => beq_eq_false_iff_ne.2 fun heq => ha (heq ▸ hx)
        have hf : (f l).splitOn b = [f l] := List.splitOnP_eq_singleton fun x hx =>
          beq_eq_false_iff_ne.2 fun heq => hnone l ha (heq ▸ hx)
        rw [hl, hf, List.map_singleton]

namespace Utf8

variable {r : Reading} {b : UInt8} {bytes more rest : List UInt8} {c : Char} {size bits : Nat}

/-! ## One character -/

/-- A character from the bits of its first byte and the bytes that continue it. -/
def assemble? (size bits : Nat) (more : List UInt8) : Option (Char × Nat) :=
  if more.length + 1 < size || !more.all isContinuation then none
  else
    let n := more.foldl (fun n b => n * 64 + (b.toNat - 0x80)) bits
    if least size ≤ n && n.isValidChar then some (Char.ofNat n, size) else none

theorem first?_cons (b : UInt8) (rest : List UInt8) : first? (b :: rest) =
    (lead? b).bind fun lead => assemble? lead.1 lead.2 (rest.take (lead.1 - 1)) :=
  rfl

theorem lead?_eq (b : UInt8) : lead? b =
    if b.toNat < 0x80 then some (1, b.toNat)
    else if 0xC2 ≤ b.toNat ∧ b.toNat < 0xE0 then some (2, b.toNat - 0xC0)
    else if 0xE0 ≤ b.toNat ∧ b.toNat < 0xF0 then some (3, b.toNat - 0xE0)
    else if 0xF0 ≤ b.toNat ∧ b.toNat < 0xF5 then some (4, b.toNat - 0xF0)
    else none := by
  simp only [lead?, Bool.and_eq_true, decide_eq_true_eq]

theorem size_of_lead? (h : lead? b = some (size, bits)) :
    size = 1 ∧ bits = b.toNat ∧ b.toNat < 0x80 ∨ 2 ≤ size ∧ size ≤ 4 := by
  rw [lead?_eq] at h
  split at h
  · next hsmall =>
      cases h
      exact .inl ⟨rfl, rfl, hsmall⟩
  · refine .inr ?_
    repeat' split at h
    all_goals cases h
    all_goals decide

theorem lead?_of_lt (h : b.toNat < 0x80) : lead? b = some (1, b.toNat) := by
  rw [lead?_eq, if_pos h]

/-- A byte that continues no character keeps one from being assembled over it. -/
theorem assemble?_eq_none (h : more.length + 1 < size ∨ ∃ b ∈ more, isContinuation b = false) :
    assemble? size bits more = none := by
  have hcond : (decide (more.length + 1 < size) || !more.all isContinuation) = true := by
    rcases h with hshort | ⟨b, hmem, hb⟩
    · rw [decide_eq_true hshort, Bool.true_or]
    · have hall : more.all isContinuation = false :=
        List.all_eq_false.2 ⟨b, hmem, by rw [hb]; exact Bool.false_ne_true⟩
      rw [hall, Bool.not_false, Bool.or_true]
  rw [assemble?, if_pos hcond]

theorem assemble?_eq_some {n : Nat} (h : assemble? size bits more = some (c, n)) :
    n = size ∧ size ≤ more.length + 1 ∧ least size ≤ c.toNat ∧
      c.toNat = more.foldl (fun n b => n * 64 + (b.toNat - 0x80)) bits := by
  unfold assemble? at h
  split at h
  · cases h
  · next hmore =>
      rw [Bool.or_eq_true, not_or, decide_eq_true_eq, Nat.not_lt] at hmore
      dsimp only at h
      split at h
      · next hvalid =>
          rw [Bool.and_eq_true, decide_eq_true_eq, decide_eq_true_eq] at hvalid
          cases h
          have hnumber : ∀ {n : Nat}, n.isValidChar → (Char.ofNat n).toNat = n := by
            intro n hn
            rw [Char.ofNat, dif_pos hn]
            rfl
          rw [hnumber hvalid.2]
          exact ⟨rfl, hmore.1, hvalid.1, rfl⟩
      · cases h

/-- A character takes at least one byte and no more than there are; only one byte gives a line
end. -/
theorem first?_eq_some (h : first? (b :: rest) = some (c, size)) :
    1 ≤ size ∧ size ≤ rest.length + 1 ∧ (c = '\n' → b = 10) := by
  rw [first?_cons, Option.bind_eq_some_iff] at h
  rcases h with ⟨⟨size', bits⟩, hlead, hmore⟩
  rcases assemble?_eq_some hmore with ⟨rfl, hsize, hleast, hvalue⟩
  rw [List.length_take] at hsize
  rcases size_of_lead? hlead with ⟨rfl, rfl, -⟩ | ⟨hlow, hhigh⟩
  · refine ⟨Nat.le_refl 1, by omega, ?_⟩
    rintro rfl
    exact UInt8.toNat_inj.1 hvalue.symm
  · refine ⟨Nat.le_of_succ_le hlow, by omega, ?_⟩
    rintro rfl
    -- the least number that takes more bytes is greater than that of a line end
    have hten : ('\n').toNat = 10 := rfl
    have hbound : 0x80 ≤ least size := by
      obtain rfl | rfl | rfl : size = 2 ∨ size = 3 ∨ size = 4 := by omega
      all_goals decide
    exact absurd (Nat.le_trans hbound hleast) (by rw [hten]; decide)

theorem first?_of_lt (h : b.toNat < 0x80) (rest : List UInt8) :
    first? (b :: rest) = some (Char.ofNat b.toNat, 1) := by
  have hvalid : b.toNat.isValidChar := .inl (by omega)
  rw [first?_cons, lead?_of_lt h, Option.bind_some]
  simp [assemble?, least, hvalid]

/-- What stands behind a byte that continues no character has no part in those before it. -/
theorem first?_append (hb : isContinuation b = false) (a : UInt8) (front rest : List UInt8) :
    first? (a :: front ++ b :: rest) = first? (a :: front) := by
  rw [List.cons_append, first?_cons, first?_cons]
  cases hlead : lead? a with
  | none =>
      rfl
  | some lead =>
      rcases lead with ⟨size, bits⟩
      rw [Option.bind_some, Option.bind_some]
      -- either the character ends before the byte, or the byte is taken for a part of it
      by_cases hsize : size - 1 ≤ front.length
      · rw [List.take_append_of_le_length hsize]
      · have hcut : b ∈ (front ++ b :: rest).take (size - 1) := by
          rw [List.take_append, List.mem_append]
          refine .inr ?_
          obtain ⟨n, hn⟩ : ∃ n, size - 1 - front.length = n + 1 :=
            ⟨size - 1 - front.length - 1, by omega⟩
          rw [hn, List.take_succ_cons]
          exact List.mem_cons_self ..
        have hshort : (front.take (size - 1)).length + 1 < size := by
          rw [List.length_take]
          omega
        rw [assemble?_eq_none (.inr ⟨b, hcut, hb⟩), assemble?_eq_none (.inl hshort)]

/-! ## Rows of bytes -/

/-- A character takes at least its first byte away. -/
theorem length_drop_of_first? (h : first? (b :: rest) = some (c, size)) :
    ((b :: rest).drop size).length ≤ rest.length := by
  have hsize := (first?_eq_some h).1
  rw [List.length_drop, List.length_cons]
  omega

/-- The character at the beginning of bytes, if it is read. -/
def accepted? (r : Reading) (bytes : List UInt8) : Option (Char × Nat) :=
  (first? bytes).filter fun found => r.accepts found.1

theorem accepted?_eq_some (h : accepted? r bytes = some (c, size)) :
    first? bytes = some (c, size) ∧ r.accepts c = true :=
  Option.filter_eq_some_iff.1 h

theorem accepted?_of_first? (h : first? bytes = some (c, size)) (hc : r.accepts c = true) :
    accepted? r bytes = some (c, size) :=
  Option.filter_eq_some_iff.2 ⟨h, hc⟩

/-- More fuel than bytes makes no difference. -/
theorem chars_of_le {fuel fuel' : Nat} (h : bytes.length ≤ fuel) (h' : bytes.length ≤ fuel') :
    chars r fuel bytes = chars r fuel' bytes := by
  induction fuel generalizing fuel' bytes with
  | zero =>
      cases List.length_eq_zero_iff.1 (Nat.le_zero.1 h)
      cases fuel' <;> rfl
  | succ fuel ih =>
      cases bytes with
      | nil =>
          cases fuel' <;> rfl
      | cons b rest =>
          cases fuel' with
          | zero =>
              cases h'
          | succ fuel' =>
              rw [List.length_cons] at h h'
              rw [chars, chars, ← accepted?]
              cases hfirst : accepted? r (b :: rest) with
              | none =>
                  exact congrArg (r.other b :: ·) (ih (by omega) (by omega))
              | some found =>
                  rcases found with ⟨c, size⟩
                  have hless := length_drop_of_first? (accepted?_eq_some hfirst).1
                  exact congrArg (c :: ·) (ih (by omega) (by omega))

theorem decoded_cons (r : Reading) (b : UInt8) (rest : List UInt8) : decoded r (b :: rest) =
    match accepted? r (b :: rest) with
    | some (c, size) => c :: decoded r ((b :: rest).drop size)
    | none => r.other b :: decoded r rest := by
  rw [decoded, List.length_cons, chars, ← accepted?]
  cases hfirst : accepted? r (b :: rest) with
  | none =>
      rfl
  | some found =>
      rcases found with ⟨c, size⟩
      have hless := length_drop_of_first? (accepted?_eq_some hfirst).1
      exact congrArg (c :: ·) (chars_of_le hless (Nat.le_refl _))

/-- What holds of no bytes, and of bytes when it holds of those behind their first character or
behind the byte that belongs to none, holds of all bytes and the characters read from them. -/
theorem decoded_induction {motive : List UInt8 → List Char → Prop} (hnil : motive [] [])
    (hother : ∀ b rest, accepted? r (b :: rest) = none → motive rest (decoded r rest) →
      motive (b :: rest) (r.other b :: decoded r rest))
    (hchar : ∀ b rest c size, accepted? r (b :: rest) = some (c, size) →
      motive ((b :: rest).drop size) (decoded r ((b :: rest).drop size)) →
        motive (b :: rest) (c :: decoded r ((b :: rest).drop size)))
    (bytes : List UInt8) : motive bytes (decoded r bytes) := by
  -- a character may take several bytes away, so the induction is on their number
  induction hlength : bytes.length using Nat.strongRecOn generalizing bytes with
  | ind n ih =>
      cases bytes with
      | nil =>
          exact hnil
      | cons b rest =>
          rw [List.length_cons] at hlength
          rw [decoded_cons]
          cases hfirst : accepted? r (b :: rest) with
          | none =>
              exact hother b rest hfirst (ih rest.length (by omega) rest rfl)
          | some found =>
              rcases found with ⟨c, size⟩
              have hless := length_drop_of_first? (accepted?_eq_some hfirst).1
              exact hchar b rest c size hfirst (ih _ (by omega) _ rfl)

theorem isContinuation_of_lt (h : b.toNat < 0x80) : isContinuation b = false := by
  rw [isContinuation, decide_eq_false (by omega), Bool.false_and]

theorem accepts_ofNat (r : Reading) (h : b.toNat < 0x80) :
    r.accepts (Char.ofNat b.toNat) = true := by
  refine r.accepts_of_lt _ ?_
  have hvalid : b.toNat.isValidChar := .inl (by omega)
  rw [Char.ofNat, dif_pos hvalid]
  exact h

/-- Bytes may be cut at one that is a character of its own before they are read. -/
theorem decoded_append (r : Reading) (hb : b.toNat < 0x80) (front rest : List UInt8) :
    decoded r (front ++ b :: rest) = decoded r front ++ Char.ofNat b.toNat :: decoded r rest := by
  -- the character that is read first does not see what was put behind
  have hsame : ∀ a front, accepted? r (a :: (front ++ b :: rest)) = accepted? r (a :: front) := by
    intro a front
    rw [accepted?, accepted?, ← first?_append (isContinuation_of_lt hb) a front rest,
      List.cons_append]
  induction front using decoded_induction (r := r) with
  | hnil =>
      rw [List.nil_append, List.nil_append, decoded_cons,
        accepted?_of_first? (first?_of_lt hb rest) (accepts_ofNat r hb)]
      rfl
  | hother a front hfirst ih =>
      rw [List.cons_append, decoded_cons, hsame, hfirst]
      exact congrArg (r.other a :: ·) ih
  | hchar a front c size hfirst ih =>
      have hsize : size ≤ front.length + 1 := (first?_eq_some (accepted?_eq_some hfirst).1).2.1
      have hdrop : (a :: (front ++ b :: rest)).drop size =
          (a :: front).drop size ++ b :: rest := by
        rw [← List.cons_append, List.drop_append_of_le_length hsize]
      rw [List.cons_append, decoded_cons, hsame, hfirst]
      dsimp only
      rw [hdrop, ih, List.cons_append]

/-- Only a line end among the bytes gives one among the characters. -/
theorem newline_mem_of_decoded : '\n' ∈ decoded r bytes → 10 ∈ bytes := by
  induction bytes using decoded_induction (r := r) with
  | hnil =>
      exact fun h => (nomatch h)
  | hother b rest hfirst ih =>
      intro h
      rcases List.mem_cons.1 h with hnewline | hrest
      · -- what stands for a byte is no line end
        have hle : 0x80 ≤ ('\n').toNat := hnewline ▸ r.le_other b
        exact absurd hle (by decide)
      · exact List.mem_cons_of_mem b (ih hrest)
  | hchar b rest c size hfirst ih =>
      intro h
      have hline : c = '\n' → b = 10 := (first?_eq_some (accepted?_eq_some hfirst).1).2.2
      rcases List.mem_cons.1 h with hnewline | hrest
      · rw [hline hnewline.symm]
        exact List.mem_cons_self ..
      · exact List.mem_of_mem_drop (ih hrest)

/-- The lines of a text are those of its bytes. -/
theorem splitOn_decoded (r : Reading) (bytes : List UInt8) :
    (decoded r bytes).splitOn '\n' = (bytes.splitOn 10).map (decoded r) :=
  splitOn_eq_map (decoded r) (decoded_append r (b := 10) (by decide))
    (fun _ => mt newline_mem_of_decoded) bytes

/-! ## Encoding -/

theorem isContinuation_ofNat (n : Nat) : isContinuation (UInt8.ofNat (n % 64 + 128)) = true := by
  rw [isContinuation, UInt8.toNat_ofNat', Bool.and_eq_true, decide_eq_true_eq, decide_eq_true_eq]
  omega

/-- The number of a byte that is made of a lead and bits below it. -/
theorem toNat_ofNat {n : Nat} (h : n < 256) : (UInt8.ofNat n).toNat = n :=
  UInt8.toNat_ofNat_of_lt' h

theorem assemble?_tails (tails : List Nat) (hsize : size = tails.length + 1)
    (hvalue : tails.foldl (fun n t => n * 64 + t % 64) bits = c.toNat)
    (hleast : least size ≤ c.toNat) :
    assemble? size bits (tails.map fun t => UInt8.ofNat (t % 64 + 128)) = some (c, size) := by
  have hall : (tails.map fun t => UInt8.ofNat (t % 64 + 128)).all isContinuation = true := by
    rw [List.all_map, List.all_eq_true]
    exact fun t _ => isContinuation_ofNat t
  have hfold : (tails.map fun t => UInt8.ofNat (t % 64 + 128)).foldl
      (fun n b => n * 64 + (b.toNat - 0x80)) bits = c.toNat := by
    rw [List.foldl_map, ← hvalue]
    refine congrArg (fun f => List.foldl f bits tails) ?_
    funext n t
    rw [toNat_ofNat (by omega), Nat.add_sub_cancel]
  have hvalid : c.toNat.isValidChar := c.valid
  rw [assemble?, hall, if_neg (by simp [hsize])]
  dsimp only
  rw [hfold, if_pos (by simp [hleast, hvalid]), Char.ofNat_toNat]

/-- A character is read back from its bytes. -/
theorem first?_encodeChar (c : Char) (rest : List UInt8) :
    first? (String.utf8EncodeChar c ++ rest) = some (c, (String.utf8EncodeChar c).length) := by
  have hlast : c.toNat < 0x110000 := by
    rcases (show c.toNat.isValidChar from c.valid) with h | h <;> omega
  unfold String.utf8EncodeChar
  rw [show c.val.toNat = c.toNat from rfl]
  dsimp only
  -- from one byte to four: the lead gives the size and the first bits, the others six bits each
  split
  · next h =>
      have hb := toNat_ofNat (n := c.toNat) (by omega)
      rw [List.singleton_append, first?_of_lt (by omega), hb, Char.ofNat_toNat]
      rfl
  · split
    · next h =>
        have hb := toNat_ofNat (n := c.toNat / 64 % 32 + 192) (by omega)
        have hlead : lead? (UInt8.ofNat (c.toNat / 64 % 32 + 192)) = some (2, c.toNat / 64) := by
          rw [lead?_eq, hb, if_neg (by omega), if_pos (by omega)]
          exact congrArg (fun n => some (2, n)) (by omega)
        rw [List.cons_append, first?_cons, hlead]
        refine assemble?_tails [c.toNat] rfl ?_ (by rw [least]; omega)
        rw [List.foldl_cons, List.foldl_nil]
        omega
    · split
      · next h =>
          have hb := toNat_ofNat (n := c.toNat / 4096 % 16 + 224) (by omega)
          have hlead : lead? (UInt8.ofNat (c.toNat / 4096 % 16 + 224)) =
              some (3, c.toNat / 4096) := by
            rw [lead?_eq, hb, if_neg (by omega), if_neg (by omega), if_pos (by omega)]
            exact congrArg (fun n => some (3, n)) (by omega)
          rw [List.cons_append, first?_cons, hlead]
          refine assemble?_tails [c.toNat / 64, c.toNat] rfl ?_ (by rw [least]; omega)
          rw [List.foldl_cons, List.foldl_cons, List.foldl_nil]
          omega
      · next h =>
          have hb := toNat_ofNat (n := c.toNat / 262144 % 8 + 240) (by omega)
          have hlead : lead? (UInt8.ofNat (c.toNat / 262144 % 8 + 240)) =
              some (4, c.toNat / 262144) := by
            rw [lead?_eq, hb, if_neg (by omega), if_neg (by omega), if_neg (by omega),
              if_pos (by omega)]
            exact congrArg (fun n => some (4, n)) (by omega)
          rw [List.cons_append, first?_cons, hlead]
          refine assemble?_tails [c.toNat / 4096, c.toNat / 64, c.toNat] rfl ?_
            (by rw [least]; omega)
          rw [List.foldl_cons, List.foldl_cons, List.foldl_cons, List.foldl_nil]
          omega

/-- What a character is read from: a lead byte, bytes that continue it, and the number that their
bits make. -/
theorem exists_of_first? (h : first? bytes = some (c, size)) : ∃ b bits more,
    bytes = b :: more ++ bytes.drop size ∧ lead? b = some (size, bits) ∧ more.length + 1 = size ∧
      (∀ m ∈ more, 0x80 ≤ m.toNat ∧ m.toNat < 0xC0) ∧ least size ≤ c.toNat ∧
      c.toNat = more.foldl (fun n m => n * 64 + (m.toNat - 0x80)) bits := by
  cases bytes with
  | nil =>
      cases h
  | cons b rest =>
      rw [first?_cons, Option.bind_eq_some_iff] at h
      obtain ⟨⟨size', bits⟩, hlead, hmore⟩ := h
      have hcont : (rest.take (size' - 1)).all isContinuation = true := by
        by_contra hcut
        rw [assemble?] at hmore
        simp [hcut] at hmore
      obtain ⟨rfl, hsize, hleast, hvalue⟩ := assemble?_eq_some hmore
      have hpos : 1 ≤ size := by
        rcases size_of_lead? hlead with ⟨rfl, -⟩ | ⟨hlow, -⟩
        · exact Nat.le_refl 1
        · omega
      rw [List.length_take] at hsize
      refine ⟨b, bits, rest.take (size - 1), ?_, hlead, ?_, ?_, hleast, hvalue⟩
      · obtain ⟨n, rfl⟩ : ∃ n, size = n + 1 := ⟨size - 1, by omega⟩
        rw [List.drop_succ_cons, Nat.add_sub_cancel, List.cons_append, List.take_append_drop]
      · rw [List.length_take]
        omega
      · intro m hm
        have hm := List.all_eq_true.1 hcont m hm
        rw [isContinuation, Bool.and_eq_true, decide_eq_true_eq, decide_eq_true_eq] at hm
        exact hm

theorem ofNat_eq {n : Nat} (h : n = b.toNat) : UInt8.ofNat n = b := by
  rw [h, UInt8.ofNat_toNat]

/-- The bytes that a character is read from are the bytes of the character. -/
theorem encodeChar_of_first? (h : first? bytes = some (c, size)) :
    bytes = String.utf8EncodeChar c ++ bytes.drop size := by
  obtain ⟨b, bits, more, hbytes, hlead, hlength, hmore, hleast, hvalue⟩ := exists_of_first? h
  have hencode : String.utf8EncodeChar c = b :: more := by
    have hb := b.toNat_lt
    unfold String.utf8EncodeChar
    rw [show c.val.toNat = c.toNat from rfl]
    dsimp only
    rw [lead?_eq] at hlead
    -- the lead gives the size, and then the number of the character has just these bits
    split at hlead
    · cases hlead
      obtain rfl : more = [] := List.length_eq_zero_iff.1 (by omega)
      rw [List.foldl_nil] at hvalue
      rw [if_pos (by omega), ofNat_eq hvalue]
    · split at hlead
      · cases hlead
        obtain ⟨m, rfl⟩ := List.length_eq_one_iff.1 (show more.length = 1 by omega)
        have hm := hmore m List.mem_cons_self
        rw [List.foldl_cons, List.foldl_nil] at hvalue
        rw [least] at hleast
        rw [if_neg (by omega), if_pos (by omega), ofNat_eq (b := b) (by omega), ofNat_eq (b := m)
          (by omega)]
      · split at hlead
        · cases hlead
          obtain ⟨m, m', rfl⟩ := List.length_eq_two.1 (show more.length = 2 by omega)
          have hm := hmore m (by simp)
          have hm' := hmore m' (by simp)
          rw [List.foldl_cons, List.foldl_cons, List.foldl_nil] at hvalue
          rw [least] at hleast
          rw [if_neg (by omega), if_neg (by omega), if_pos (by omega), ofNat_eq (b := b) (by omega),
            ofNat_eq (b := m) (by omega), ofNat_eq (b := m') (by omega)]
        · split at hlead
          · cases hlead
            obtain ⟨m, m', m'', rfl⟩ := List.length_eq_three.1 (show more.length = 3 by omega)
            have hm := hmore m (by simp)
            have hm' := hmore m' (by simp)
            have hm'' := hmore m'' (by simp)
            rw [List.foldl_cons, List.foldl_cons, List.foldl_cons, List.foldl_nil] at hvalue
            rw [least] at hleast
            rw [if_neg (by omega), if_neg (by omega), if_neg (by omega), ofNat_eq (b := b)
              (by omega), ofNat_eq (b := m) (by omega), ofNat_eq (b := m') (by omega), ofNat_eq
                (b := m'') (by omega)]
          · cases hlead
  rw [hencode]
  exact hbytes

/-- The bytes of a character that is read are read as the character. -/
theorem decoded_encodeChar_append (hc : r.accepts c = true) (rest : List UInt8) :
    decoded r (String.utf8EncodeChar c ++ rest) = c :: decoded r rest := by
  have hfirst := accepted?_of_first? (first?_encodeChar c rest) hc
  have hdrop : (String.utf8EncodeChar c ++ rest).drop (String.utf8EncodeChar c).length = rest :=
    List.drop_left
  cases hbytes : String.utf8EncodeChar c ++ rest with
  | nil =>
      rw [hbytes] at hfirst
      cases hfirst
  | cons b more =>
      rw [hbytes] at hfirst hdrop
      rw [decoded_cons, hfirst]
      dsimp only
      rw [hdrop]

/-- Characters are read back from their bytes. -/
theorem decoded_encoded {cs : List Char} (hcs : ∀ c ∈ cs, r.accepts c = true) :
    decoded r (encoded cs) = cs := by
  induction cs with
  | nil =>
      rfl
  | cons c cs ih =>
      rcases List.forall_mem_cons.1 hcs with ⟨hc, hcs⟩
      rw [encoded, List.flatMap_cons, ← encoded, decoded_encodeChar_append hc, ih hcs]

/-- A line end is among the bytes of a character only if it is the character. -/
theorem newline_mem_of_encodeChar (h : 10 ∈ String.utf8EncodeChar c) : c = '\n' := by
  rcases List.append_of_mem h with ⟨front, rest, hsplit⟩
  have hcut := decoded_append replacing (b := 10) (by decide) front rest
  have hback : decoded replacing (encoded [c]) = [c] := decoded_encoded fun _ _ => rfl
  rw [encoded, List.flatMap_singleton, hsplit, hcut] at hback
  have hmem : '\n' ∈ [c] := hback ▸ List.mem_append_right _ (List.mem_cons_self ..)
  exact (List.mem_singleton.1 hmem).symm

theorem encoded_append_newline (front rest : List Char) :
    encoded (front ++ '\n' :: rest) = encoded front ++ 10 :: encoded rest := by
  rw [encoded, List.flatMap_append, List.flatMap_cons]
  rfl

/-- The lines of encoded characters are their encoded lines. -/
theorem splitOn_encoded (cs : List Char) :
    (encoded cs).splitOn 10 = (cs.splitOn '\n').map encoded := by
  refine splitOn_eq_map encoded encoded_append_newline (fun l hl hmem => hl ?_) cs
  rcases List.mem_flatMap.1 hmem with ⟨c, hc, hnewline⟩
  rwa [newline_mem_of_encodeChar hnewline] at hc

theorem length_encoded (cs : List Char) : (encoded cs).length = Text.byteLength cs := by
  have hfold : ∀ n, cs.foldl (fun n c => n + c.utf8Size) n = n + (encoded cs).length := by
    induction cs with
    | nil =>
        intro n
        rfl
    | cons c cs ih =>
        intro n
        rw [List.foldl_cons, ih, encoded, encoded, List.flatMap_cons, List.length_append,
          String.length_utf8EncodeChar, Nat.add_assoc]
  rw [Text.byteLength, hfold, Nat.zero_add]

end Utf8
end ApiPages

import ApiPages.Archive.Digest

/-!
# The form of digests

The digest of every row of bytes has the form that the archive asks for: eight words of eight
hexadecimal digits.

* `Digest.length_digestWords` counts the words: no step of the computation adds or loses one;
* `Digest.isValid_ofBytes` is the result.
-/

namespace ApiPages

namespace Text

/-- A digit of a digest, in lower case. -/
def IsHexDigit (c : Char) : Prop :=
  (c.isDigit || ('a' ≤ c && c ≤ 'f')) = true

instance (c : Char) : Decidable (IsHexDigit c) :=
  inferInstanceAs (Decidable (_ = true))

theorem isHexDigit_digitChar {n : Nat} (h : n < 16) : IsHexDigit n.digitChar := by
  revert n
  decide

theorem isHexDigit_of_mem_toDigits {n : Nat} {c : Char} (h : c ∈ Nat.toDigits 16 n) :
    IsHexDigit c := by
  induction n using Nat.strongRecOn with
  | ind n ih =>
      rw [Nat.toDigits_eq_if (by decide)] at h
      split at h
      · next hsmall =>
          rw [List.mem_singleton.1 h]
          exact isHexDigit_digitChar hsmall
      · next hlarge =>
          rcases List.mem_append.1 h with h | h
          · exact ih (n / 16) (by omega) h
          · rw [List.mem_singleton.1 h]
            exact isHexDigit_digitChar (Nat.mod_lt n (by decide))

theorem isHexDigit_of_mem_hexDigits {width n : Nat} {c : Char} (h : c ∈ hexDigits width n) :
    IsHexDigit c := by
  rcases List.mem_append.1 h with h | h
  · rw [List.eq_of_mem_replicate h]
    decide
  · exact isHexDigit_of_mem_toDigits h

/-- A number that has no more digits fills the width. -/
theorem length_hexDigits {width n : Nat} (h : (Nat.toDigits 16 n).length ≤ width) :
    (hexDigits width n).length = width := by
  rw [hexDigits, List.length_append, List.length_replicate]
  omega

end Text

namespace Digest

theorem isValid_iff {s : String} :
    isValid s = true ↔ s.toList.length = 64 ∧ ∀ c ∈ s.toList, Text.IsHexDigit c := by
  rw [isValid, Bool.and_eq_true, beq_iff_eq, List.all_eq_true, String.length_toList]
  rfl

/-! ## Counting words -/

theorem length_round {state : List UInt32} (h : state.length = 8) (input : UInt32 × UInt32) :
    (round state input).length = 8 := by
  unfold round
  split
  · rfl
  · exact h

theorem length_foldl_round {state : List UInt32} (h : state.length = 8)
    (inputs : List (UInt32 × UInt32)) : (inputs.foldl round state).length = 8 := by
  induction inputs generalizing state with
  | nil =>
      exact h
  | cons input rest ih =>
      exact ih (length_round h input)

theorem length_compress {state : List UInt32} (h : state.length = 8) (block : List UInt32) :
    (compress state block).length = 8 := by
  rw [compress, List.length_zipWith, h, length_foldl_round h]
  rfl

theorem length_absorb {state : List UInt32} (h : state.length = 8) (n : Nat) (ws : List UInt32) :
    (absorb n state ws).length = 8 := by
  induction n generalizing state ws with
  | zero =>
      exact h
  | succ n ih =>
      exact ih (length_compress h _) _

theorem length_digestWords (bytes : Bytes) : (digestWords bytes).length = 8 :=
  length_absorb rfl _ _

/-! ## Digits -/

theorem length_hex (w : UInt32) : (hex w).length = 8 := by
  -- a word of 32 bits has at most eight digits
  refine Text.length_hexDigits ?_
  exact (Nat.length_toDigits_le_iff (by decide) (by decide)).2 w.toNat_lt

theorem length_flatMap_hex (ws : List UInt32) : (ws.flatMap hex).length = 8 * ws.length := by
  induction ws with
  | nil =>
      rfl
  | cons w rest ih =>
      rw [List.flatMap_cons, List.length_append, length_hex, ih, List.length_cons]
      omega

/-- The digest of a content has the form of a digest. -/
theorem isValid_ofBytes (bytes : Bytes) : isValid (ofBytes bytes) = true := by
  refine isValid_iff.2 ⟨?_, ?_⟩
  · rw [ofBytes, String.toList_ofList, length_flatMap_hex, length_digestWords]
  · intro c hc
    rw [ofBytes, String.toList_ofList] at hc
    rcases List.mem_flatMap.1 hc with ⟨w, -, hw⟩
    exact Text.isHexDigit_of_mem_hexDigits hw

end Digest
end ApiPages

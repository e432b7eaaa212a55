import ApiPages.Archive.Frame
import ApiPages.Proofs.Text.Utf8
import Mathlib.Data.List.Basic

/-!
# Frames of stored blocks, read back

Stored blocks of any number hold the content that they were made of.

* `Frame.ofBlocks?_blockHead` reads the head of one block;
* `Frame.ofBlocks?_blocks` is the induction over the blocks;
* `Packing.stored_isLossless` is about whole frames.
-/

namespace ApiPages
namespace Frame

variable {size fuel : Nat} {content rest : Bytes}

/-- The three bytes of a head give back the number they were made of. -/
theorem toNat_bytes {n : Nat} (h : n < 16777216) :
    (UInt8.ofNat (n % 256)).toNat + 256 * (UInt8.ofNat (n / 256 % 256)).toNat +
      65536 * (UInt8.ofNat (n / 65536)).toNat = n := by
  have hlow : (UInt8.ofNat (n % 256)).toNat = n % 256 := Utf8.toNat_ofNat (by omega)
  have hmiddle : (UInt8.ofNat (n / 256 % 256)).toNat = n / 256 % 256 := Utf8.toNat_ofNat (by omega)
  have hhigh : (UInt8.ofNat (n / 65536)).toNat = n / 65536 := Utf8.toNat_ofNat (by omega)
  rw [hlow, hmiddle, hhigh]
  omega

/-- The head of a block tells its size, and whether it is the last. -/
theorem ofBlocks?_blockHead (h : size ≤ maxBlock) (isLast : Bool) (fuel : Nat) (rest : Bytes) :
    ofBlocks? (fuel + 1) (blockHead isLast size ++ rest) =
      if rest.length < size then none
      else if isLast then if rest.length = size then some rest else none
      else (ofBlocks? fuel (rest.drop size)).map (rest.take size ++ ·) := by
  have hmax : size ≤ 131072 := h
  have hbit : isLast.toNat ≤ 1 := Bool.toNat_le isLast
  -- three bits below the size: two for the kind of the block, the lowest for the mark
  have hsize : (size * 8 + isLast.toNat) / 8 = size := by omega
  have hkind : (size * 8 + isLast.toNat) / 2 % 4 = 0 := by omega
  have hmark : (size * 8 + isLast.toNat) % 2 = isLast.toNat := by omega
  rw [blockHead]
  dsimp only [List.cons_append, List.nil_append]
  rw [ofBlocks?, toNat_bytes (by omega), hsize, hkind, hmark]
  cases isLast <;> simp

/-- Blocks are read back as the content, whatever their number. -/
theorem ofBlocks?_blocks (h : content.length < fuel) {fuel' : Nat}
    (h' : (blocks fuel content).length ≤ fuel') :
    ofBlocks? fuel' (blocks fuel content) = some content := by
  induction fuel generalizing content fuel' with
  | zero =>
      exact absurd h (Nat.not_lt_zero _)
  | succ fuel ih =>
      have hhead : ∀ isLast size, (blockHead isLast size).length = 3 := fun _ _ => rfl
      -- a block has a head, so there is fuel for one
      have hblock : 3 ≤ (blocks (fuel + 1) content).length := by
        rw [blocks]
        split
        all_goals
          rw [List.length_append, hhead]
          exact Nat.le_add_right 3 _
      obtain ⟨fuel', rfl⟩ : ∃ n, fuel' = n + 1 := ⟨fuel' - 1, by omega⟩
      by_cases hlast : content.length ≤ maxBlock
      · rw [blocks, if_pos hlast, ofBlocks?_blockHead hlast]
        simp
      · rw [blocks, if_neg hlast] at h' ⊢
        have hlong : (content.take maxBlock).length = maxBlock := by
          rw [List.length_take]
          omega
        have hmax : 0 < maxBlock := Nat.zero_lt_succ _
        rw [List.length_append, List.length_append, hhead, hlong] at h'
        have hrest : (content.drop maxBlock).length < fuel := by
          rw [List.length_drop]
          omega
        have hread : ofBlocks? fuel' (blocks fuel (content.drop maxBlock)) =
            some (content.drop maxBlock) := ih hrest (by omega)
        rw [ofBlocks?_blockHead (Nat.le_refl _), List.drop_left' hlong, List.take_left' hlong,
          hread]
        simp [hlong]

end Frame

theorem Packing.stored_isLossless : Packing.stored.IsLossless := by
  intro content
  have hcut : Frame.head.isPrefixOf? (Frame.head ++ Frame.blocks (content.length + 1) content) =
      some (Frame.blocks (content.length + 1) content) :=
    List.isPrefixOf?_eq_some_iff_append_eq.2 rfl
  have hsome : (Frame.head ++ Frame.blocks (content.length + 1) content).isEmpty = false := rfl
  change Frame.content? (Frame.head ++ Frame.blocks (content.length + 1) content) = some content
  rw [Frame.content?, hsome, hcut, if_neg Bool.false_ne_true, Option.bind_some]
  exact Frame.ofBlocks?_blocks (Nat.lt_succ_self _) (Nat.le_refl _)

end ApiPages

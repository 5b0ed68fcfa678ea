import Mathlib.Algebra.Order.Ring.Int
import Mathlib.Data.List.Basic

/-!
# Blocks of addresses

An address of a width is a number below a power of two, and a block is what agrees with an address
in its leading bits. A program finds the leading bits by a mask (`land_eq_iff`).
-/

namespace AddressBlocks

/-- Addresses whose leading bits are those of `base`. -/
structure Block (width : ℕ) where
  base : ℕ
  prefixLength : ℕ
  deriving DecidableEq

variable {width n k m : ℕ}

def Block.Contains (block : Block width) (n : ℕ) : Prop :=
  n / 2 ^ (width - block.prefixLength) = block.base / 2 ^ (width - block.prefixLength)

instance (block : Block width) (n : ℕ) : Decidable (block.Contains n) :=
  inferInstanceAs (Decidable (_ = _))

/-- In one of the blocks of a table. -/
def InTable (table : List (Block width)) (n : ℕ) : Prop := ∃ block ∈ table, block.Contains n

instance (table : List (Block width)) (n : ℕ) : Decidable (InTable table n) :=
  inferInstanceAs (Decidable (∃ block ∈ table, _))

@[simp] theorem inTable_nil : ¬ InTable ([] : List (Block width)) n := by
  rintro ⟨block, hblock, -⟩
  cases hblock

@[simp] theorem inTable_cons {block : Block width} {table : List (Block width)} :
    InTable (block :: table) n ↔ block.Contains n ∨ InTable table n := by
  simp [InTable]

/-! ## Masks -/

/-- A mask of leading bits clears the others. -/
theorem land_mask (h : n < 2 ^ (k + m)) : n &&& ((2 ^ k - 1) * 2 ^ m) = n / 2 ^ m * 2 ^ m := by
  refine Nat.eq_of_testBit_eq fun i => ?_
  rw [Nat.testBit_and, Nat.testBit_mul_two_pow, Nat.testBit_mul_two_pow, Nat.testBit_div_two_pow,
    Nat.testBit_two_pow_sub_one]
  by_cases hlow : m ≤ i
  · rw [Nat.sub_add_cancel hlow]
    by_cases hhigh : i - m < k
    · simp [hlow, hhigh]
    · have hbit : n.testBit i = false :=
        Nat.testBit_lt_two_pow (h.trans_le (Nat.pow_le_pow_right (by omega) (by omega)))
      simp [hbit]
  · simp [hlow]

/-- A mask compares leading bits. -/
theorem land_eq_iff {d : ℕ} (h : n < 2 ^ (k + m)) :
    n &&& ((2 ^ k - 1) * 2 ^ m) = d * 2 ^ m ↔ n / 2 ^ m = d := by
  rw [land_mask h]
  exact Nat.mul_left_inj (Nat.two_pow_pos m).ne'

end AddressBlocks

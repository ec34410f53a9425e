import Mathlib.Data.List.Range

/-! Bit arrays: the forward search for a set bit, and the search for an aligned run of clear bits. -/
namespace VendorKernel.Bitmap

open List

def findNextBit (bitmap : ℕ → Bool) (size start : ℕ) : ℕ :=
  ((range' start (size - start)).find? bitmap).getD size

theorem findNextBit_cases (bitmap : ℕ → Bool) (size start : ℕ) :
    (start ≤ findNextBit bitmap size start ∧ findNextBit bitmap size start < size ∧
      bitmap (findNextBit bitmap size start) = true ∧
      ∀ i, start ≤ i → i < findNextBit bitmap size start → bitmap i = false) ∨
    findNextBit bitmap size start = size ∧ ∀ i, start ≤ i → i < size → bitmap i = false := by
  cases h : (range' start (size - start)).find? bitmap with
  | none =>
    have hres : findNextBit bitmap size start = size := by simp [findNextBit, h]
    refine .inr ⟨hres, ?_⟩
    intro i hs hi
    have hnone := find?_eq_none.mp h i (mem_range'_1.mpr ⟨hs, by omega⟩)
    simpa using hnone
  | some k =>
    have hres : findNextBit bitmap size start = k := by simp [findNextBit, h]
    rw [hres]
    obtain ⟨hk, hmem, hbef⟩ := find?_range'_eq_some.mp h
    rw [mem_range'_1] at hmem
    refine .inl ⟨hmem.1, by omega, hk, fun i hs hi => ?_⟩
    simpa using hbef i hs hi

/-- Bits `i`, …, `i + nr - 1` are inside the array and clear, and `i` meets the alignment mask. -/
def ZeroArea (bitmap : ℕ → Bool) (size nr mask i : ℕ) : Prop :=
  i % (mask + 1) = 0 ∧ i + nr ≤ size ∧ ∀ p, i ≤ p → p < i + nr → bitmap p = false

instance (bitmap : ℕ → Bool) (size nr mask i : ℕ) : Decidable (ZeroArea bitmap size nr mask i) :=
  decidable_of_iff
    (i % (mask + 1) = 0 ∧ i + nr ≤ size ∧ ∀ p ∈ range' i nr, bitmap p = false)
    (by simp only [ZeroArea, mem_range'_1, and_imp])

/-- The first aligned run of `nr` clear bits from `start` on, or an index behind the array. -/
def findNextZeroArea (bitmap : ℕ → Bool) (size start nr mask : ℕ) : ℕ :=
  ((range' start (size + 1 - start)).find?
    fun i => decide (ZeroArea bitmap size nr mask i)).getD (size + 1)

theorem findNextZeroArea_cases (bitmap : ℕ → Bool) (size start nr mask : ℕ) :
    findNextZeroArea bitmap size start nr mask ≤ size ∧
      ZeroArea bitmap size nr mask (findNextZeroArea bitmap size start nr mask) ∨
    size < findNextZeroArea bitmap size start nr mask ∧ ∀ i, start ≤ i → ¬ZeroArea bitmap size nr mask i := by
  unfold findNextZeroArea
  cases h : (range' start (size + 1 - start)).find?
      fun i => decide (ZeroArea bitmap size nr mask i) with
  | none =>
    refine .inr ⟨Nat.lt_succ_self size, ?_⟩
    intro i hi harea
    have hle : i ≤ size := by have := harea.2.1; omega
    have hnone := find?_eq_none.mp h i (mem_range'_1.mpr ⟨hi, by omega⟩)
    exact hnone (decide_eq_true harea)
  | some k =>
    have hmem := mem_range'_1.mp (mem_of_find?_eq_some h)
    have harea : decide (ZeroArea bitmap size nr mask k) = true := by
      simpa only using find?_some h
    refine .inl ⟨?_, of_decide_eq_true harea⟩
    rw [Option.getD_some]
    omega

end VendorKernel.Bitmap

import Mathlib.Data.List.Perm.Basic
import Mathlib.Data.List.Range

/-! Arrays of cells that are empty or hold a value, and the search for a run of clear bits. -/
namespace VendorKernel.Slots

open List

variable {α : Type*} {f g : ℕ → Option α} {size start nr k : ℕ}

def cells (f : ℕ → Option α) (size : ℕ) : List α := (range size).filterMap f

theorem cells_congr (h : ∀ k < size, f k = g k) : cells f size = cells g size :=
  filterMap_congr fun k hk => h k (mem_range.mp hk)

theorem cells_eq_nil (h : ∀ k < size, f k = none) : cells f size = [] :=
  filterMap_eq_nil_iff.mpr fun k hk => h k (mem_range.mp hk)

theorem cells_add (f : ℕ → Option α) (m n : ℕ) : cells f (m + n) = cells f m ++ cells (fun k => f (m + k)) n := by
  rw [cells, range_add, filterMap_append, filterMap_map]
  rfl

theorem cells_getElem (xs : List α) : cells (fun k => xs[k]?) xs.length = xs := by
  induction xs with
  | nil => rfl
  | cons x xs ih =>
    rw [length_cons, Nat.add_comm, cells_add]
    have htail : cells (fun k => (x :: xs)[1 + k]?) xs.length = cells (fun k => xs[k]?) xs.length :=
      cells_congr fun k _ => by rw [Nat.add_comm, getElem?_cons_succ]
    rw [htail, ih]
    rfl

theorem cells_fill {xs : List α} (hsize : start + xs.length ≤ size)
    (hemp : ∀ k, start ≤ k → k < start + xs.length → f k = none)
    (hfill : ∀ k, start ≤ k → k < start + xs.length → g k = xs[k - start]?)
    (hrest : ∀ k < size, ¬(start ≤ k ∧ k < start + xs.length) → g k = f k) :
    (cells g size).Perm (cells f size ++ xs) := by
  obtain ⟨rest, rfl⟩ := Nat.exists_eq_add_of_le hsize
  have hbef : cells g start = cells f start := cells_congr fun k hk => hrest k (by omega) (by omega)
  have haf : cells (fun k => g (start + xs.length + k)) rest = cells (fun k => f (start + xs.length + k)) rest :=
    cells_congr fun k hk => hrest _ (by omega) (by omega)
  have hblk : cells (fun k => g (start + k)) xs.length = xs := by
    refine Eq.trans (cells_congr fun k hk => ?_) (cells_getElem xs)
    rw [hfill _ (by omega) (by omega), Nat.add_sub_cancel_left]
  have hnone : cells (fun k => f (start + k)) xs.length = [] :=
    cells_eq_nil fun k hk => hemp _ (by omega) (by omega)
  rw [cells_add, cells_add, cells_add, cells_add, hbef, haf, hblk, hnone, append_nil]
  rw [append_assoc, append_assoc]
  exact List.Perm.append_left _ perm_append_comm

/-- The first run of `nr` clear bits from `start` on that ends at `size` or before it. -/
def findNextZeroArea (bitmap : ℕ → Bool) (size start nr : ℕ) : Option ℕ :=
  (range' start (size - start)).find? fun k =>
    k + nr ≤ size ∧ ∀ i ∈ range nr, bitmap (k + i) = false

theorem findNextZeroArea_some {bitmap : ℕ → Bool} (h : findNextZeroArea bitmap size start nr = some k) :
    start ≤ k ∧ k + nr ≤ size ∧ ∀ i < nr, bitmap (k + i) = false := by
  have hmem := mem_range'_1.mp (mem_of_find?_eq_some h)
  have hk := find?_some h
  simp only [decide_eq_true_eq, mem_range] at hk
  exact ⟨hmem.1, hk⟩

theorem findNextZeroArea_le {bitmap : ℕ → Bool} (hini : start ≤ k) (hend : k + nr ≤ size) (hnr : 0 < nr)
    (hfree : ∀ i < nr, bitmap (k + i) = false) : ∃ found ≤ k, findNextZeroArea bitmap size start nr = some found := by
  have hmem : k ∈ range' start (size - start) := mem_range'_1.mpr (by omega)
  have hk : decide (k + nr ≤ size ∧ ∀ i ∈ range nr, bitmap (k + i) = false) = true := by
    simpa using ⟨hend, hfree⟩
  cases hfd : findNextZeroArea bitmap size start nr with
  | none => exact absurd hk (find?_eq_none.mp hfd k hmem)
  | some found =>
    refine ⟨found, Nat.le_of_not_lt fun hlt => ?_, rfl⟩
    have hpassed := (find?_range'_eq_some.mp hfd).2.2 k hini hlt
    rw [hk] at hpassed
    cases hpassed

end VendorKernel.Slots

import Mathlib.Data.Nat.Count

/-! Positions in a table of `n` slots of `m` units each: an address selects its slot by the digit
`x / m % n`, and addresses with the same quotient by `n * m` share the table. -/
namespace VendorKernel.Radix

open Nat Finset

def index (n m x : ℕ) : ℕ := x / m % n

variable {n m x y k j q : ℕ}

theorem index_lt (hn : 0 < n) : index n m x < n := mod_lt _ hn

theorem div_eq : x / m = n * (x / (n * m)) + index n m x := by
  rw [index, Nat.mul_comm n m, ← Nat.div_div_eq_div_mul, Nat.div_add_mod]

theorem index_eq_iff (hspan : x / (n * m) = y / (n * m)) : index n m x = index n m y ↔ x / m = y / m := by
  rw [div_eq, div_eq (x := y), hspan, add_left_cancel_iff]

theorem le_div_iff_of_dvd (hm : 0 < m) (hy : m ∣ y) : y / m ≤ x / m ↔ y ≤ x := by
  obtain ⟨q, rfl⟩ := hy
  rw [Nat.mul_div_cancel_left q hm, Nat.le_div_iff_mul_le hm, Nat.mul_comm]

theorem exists_index (hm : 0 < m) (hj : j < n) : ∃ x, x / (n * m) = q ∧ index n m x = j := by
  have hdiv : (n * q + j) * m / m = n * q + j := Nat.mul_div_cancel _ hm
  refine ⟨(n * q + j) * m, ?_, ?_⟩
  · rw [Nat.mul_comm n m, ← Nat.div_div_eq_div_mul, hdiv, Nat.mul_add_div (by omega),
      Nat.div_eq_of_lt hj, Nat.add_zero]
  · rw [index, hdiv, Nat.mul_add_mod, Nat.mod_eq_of_lt hj]

theorem div_eq_of_lt_end (hle : y ≤ x) (hlt : x < (y / m + 1) * m) : x / m = y / m := by
  rw [Nat.mul_comm] at hlt
  exact Nat.le_antisymm (Nat.le_of_lt_succ (Nat.div_lt_of_lt_mul hlt)) (Nat.div_le_div_right hle)

theorem mem_run_iff (hm : 0 < m) (hy : m ∣ y) (hspan : x / (n * m) = y / (n * m)) :
    y ≤ x ∧ x < y + k * m ↔ index n m y ≤ index n m x ∧ index n m x < index n m y + k := by
  have hle := le_div_iff_of_dvd (x := x) hm hy
  have hend : y + k * m ≤ x ↔ y / m + k ≤ x / m := by
    rw [← le_div_iff_of_dvd hm (Nat.dvd_add hy (Nat.dvd_mul_left m k)), Nat.add_mul_div_right _ _ hm]
  rw [div_eq (x := x), div_eq (n := n), hspan] at hle hend
  omega

theorem index_add (hm : 0 < m) (hk : index n m y + k < n) : index n m (y + k * m) = index n m y + k := by
  rw [index, add_mul_div_right _ _ hm, add_mod, mod_eq_of_lt (a := k)]
  · exact mod_eq_of_lt hk
  · exact lt_of_le_of_lt (Nat.le_add_left ..) hk

theorem index_sub_add_mod (hy : m ∣ y) (hspan : x / (n * m) = y / (n * m)) (hle : y ≤ x) :
    (index n m x - index n m y) * m + x % m = x - y := by
  have hdiff : index n m x - index n m y = x / m - y / m := by
    rw [div_eq, div_eq (x := y), hspan, Nat.add_sub_add_left]
  have hle' : y / m * m ≤ x / m * m := Nat.mul_le_mul_right m (Nat.div_le_div_right hle)
  rw [hdiff, Nat.sub_mul, Nat.div_mul_cancel hy]
  rw [Nat.div_mul_cancel hy] at hle'
  have hx := Nat.div_add_mod x m
  rw [mul_comm m] at hx
  omega

theorem run_le_span_iff (hm : 0 < m) (hy : m ∣ y) :
    y + k * m ≤ (y / (n * m) + 1) * (n * m) ↔ index n m y + k ≤ n := by
  obtain ⟨q, rfl⟩ := hy
  have hq : q = n * (m * q / (n * m)) + index n m (m * q) := by
    rw [← div_eq, Nat.mul_div_cancel_left q hm]
  generalize m * q / (n * m) = s at hq ⊢
  generalize index n m (m * q) = i at hq ⊢
  have hsum : m * q + k * m = (q + k) * m := by rw [Nat.add_mul, Nat.mul_comm m q]
  rw [hsum, ← Nat.mul_assoc, Nat.mul_le_mul_right_iff hm, hq, Nat.succ_mul, Nat.mul_comm s n,
    Nat.add_assoc, Nat.add_le_add_iff_left]

/-! ### Used slots -/

section
variable {p p' : ℕ → Prop} [DecidablePred p] [DecidablePred p'] {s : ℕ}

theorem count_congr (h : ∀ j < n, p j ↔ p' j) : count p n = count p' n := by
  rw [count_eq_card_filter_range, count_eq_card_filter_range]
  congr 1
  exact filter_congr fun j hj => h j (mem_range.mp hj)

section
variable (hs : s + k ≤ n) (hfree : ∀ j, s ≤ j → j < s + k → ¬p' j)
include hs hfree

section
variable (hout : ∀ j < n, ¬(s ≤ j ∧ j < s + k) → (p' j ↔ p j))
include hout

theorem count_run_free {q : ℕ → Prop} [DecidablePred q] (hq : ∀ i < k, q i ↔ ¬p (s + i)) :
    count p' n + k = count p n + count q k := by
  obtain ⟨r, rfl⟩ := Nat.exists_eq_add_of_le hs
  simp only [Nat.count_add]
  have hbef : Nat.count p' s = Nat.count p s :=
    count_congr fun j hj => hout j (by omega) (by omega)
  have haf : count (fun j => p' (s + k + j)) r = count (fun j => p (s + k + j)) r :=
    count_congr fun j hj => hout _ (by omega) (by omega)
  have hnone : count (fun j => p' (s + j)) k = 0 :=
    count_iff_forall_not.mpr fun j hj => hfree _ (by omega) (by omega)
  have hrun : count (fun j => p (s + j)) k + count q k = k := by
    rw [count_congr hq, count_eq_card_filter_range, count_eq_card_filter_range,
      card_filter_add_card_filter_not, card_range]
  omega

theorem count_run (hused : ∀ j, s ≤ j → j < s + k → p j) : count p' n + k = count p n := by
  have hq : ∀ i < k, False ↔ ¬p (s + i) := fun i hi =>
    ⟨False.elim, fun hp => hp (hused _ (by omega) (by omega))⟩
  rw [count_run_free hs hfree hout hq, count_false, add_zero]

end

theorem count_add_run_le : count p' n + k ≤ n := by
  obtain ⟨r, rfl⟩ := Nat.exists_eq_add_of_le hs
  have hnone : Nat.count (fun j => p' (s + j)) k = 0 :=
    Nat.count_iff_forall_not.mpr fun j hj => hfree _ (by omega) (by omega)
  have hbef : count p' s ≤ s := count_le _
  have haf : count (fun j => p' (s + k + j)) r ≤ r := count_le _
  simp only [count_add]
  omega

end

end

end VendorKernel.Radix

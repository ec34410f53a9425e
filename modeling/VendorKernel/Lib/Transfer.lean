import Mathlib.Algebra.BigOperators.Ring.Finset
import Mathlib.Data.Fintype.BigOperators

/-! Moving a load between groups of places. The load is spread over the places of one group; it
is taken from there, or put whole at one place, or both. -/
namespace VendorKernel.Transfer

open Finset

variable {ι κ : Type*} {before after : ι → ℤ} {contrib : ι → ℕ} {w : ℕ} {out into : Prop}
  [Decidable out] [Decidable into] {group : ι → κ} {src dst : ι}

/-- Each place gives up its part of the load if `out`, and `dst` gets all of it if `into`. -/
def Shifted [DecidableEq ι] (before after : ι → ℤ) (contrib : ι → ℕ) (w : ℕ) (out into : Prop)
    [Decidable out] [Decidable into] (dst : ι) : Prop :=
  ∀ i, after i = before i - (if out then (contrib i : ℤ) else 0) +
    if i = dst then (if into then (w : ℤ) else 0) else 0

theorem Shifted.sum [DecidableEq ι] (h : Shifted before after contrib w out into dst)
    (A : Finset ι) :
    ∑ i ∈ A, after i = ∑ i ∈ A, before i - (if out then ((∑ i ∈ A, contrib i : ℕ) : ℤ) else 0) +
      if dst ∈ A then (if into then (w : ℤ) else 0) else 0 := by
  have hout : ∑ i ∈ A, (if out then (contrib i : ℤ) else 0) =
      if out then ((∑ i ∈ A, contrib i : ℕ) : ℤ) else 0 := by
    split
    · push_cast
      rfl
    · exact sum_const_zero
  calc ∑ i ∈ A, after i
      = ∑ i ∈ A, (before i - (if out then (contrib i : ℤ) else 0) +
          if i = dst then (if into then (w : ℤ) else 0) else 0) := sum_congr rfl fun i _ => h i
    _ = _ := by rw [sum_add_distrib, sum_sub_distrib, hout, sum_ite_eq']

variable [Fintype ι] [DecidableEq κ]

/-- The total is kept and, between two groups, the load has left one for the other. -/
def Carried (group : ι → κ) (before after : ι → ℤ) (w : ℕ) (src dst : ι) : Prop :=
  ∑ i, after i = ∑ i, before i ∧
    (group src ≠ group dst →
      ∑ i with group i = group src, after i = ∑ i with group i = group src, before i - w ∧
      ∑ i with group i = group dst, after i = ∑ i with group i = group dst, before i + w)

section
variable (hconf : ∀ i, group i ≠ group src → contrib i = 0)
include hconf

theorem sum_group_of_confined (hsum : ∑ i, contrib i = w) : ∑ i with group i = group src, contrib i = w := by
  rw [← hsum, sum_filter]
  apply sum_congr rfl
  intro i _
  split
  · rfl
  · next hi => exact (hconf i hi).symm

theorem sum_other_group_of_confined (hne : group src ≠ group dst) : ∑ i with group i = group dst, contrib i = 0 := by
  apply sum_eq_zero
  intro i hi
  apply hconf i
  rw [(mem_filter.mp hi).2]
  exact hne.symm

theorem Shifted.carried_iff [DecidableEq ι] (h : Shifted before after contrib w out into dst)
    (hsum : ∑ i, contrib i = w) :
    Carried group before after w src dst ↔ w = 0 ∨ out ∧ into ∨ ¬out ∧ ¬into ∧ group src = group dst := by
  have htot := h.sum univ
  rw [hsum] at htot
  have hsrc := h.sum {i | group i = group src}
  have hdst := h.sum {i | group i = group dst}
  rw [sum_group_of_confined hconf hsum] at hsrc
  unfold Carried
  by_cases hg : group src = group dst
  · by_cases ho : out <;> by_cases hi : into <;> simp [htot, hg, ho, hi]
  · rw [sum_other_group_of_confined hconf hg] at hdst
    rw [htot]
    by_cases ho : out <;> by_cases hi : into <;> simp only [ho, hi, hg, if_true, if_false] <;> grind

end

end VendorKernel.Transfer

import Mathlib.Algebra.Order.BigOperators.Group.Finset
import Mathlib.Data.Fintype.BigOperators
import Mathlib.Tactic.Abel

/-! Sums and counts over a finite family of records when one record is replaced. -/
namespace VendorKernel.Tally

open Finset Function

variable {τ α M : Type*} [Fintype τ]

theorem sum_update [DecidableEq τ] [AddCommMonoid M] (g : α → M) (f : τ → α) (p : τ) (x : α) :
    (∑ q, g (update f p x q)) + g (f p) = (∑ q, g (f q)) + g x := by
  have hrest : ∑ q ∈ univ.erase p, g (update f p x q) = ∑ q ∈ univ.erase p, g (f q) := by
    apply sum_congr rfl
    intro q hq
    rw [update_of_ne (ne_of_mem_erase hq)]
  rw [← add_sum_erase univ _ (mem_univ p), hrest, update_self, ← add_sum_erase univ (fun q => g (f q)) (mem_univ p)]
  abel

variable (P : α → Prop) [DecidablePred P]

def tally (f : τ → α) : ℕ := (univ.filter fun p => P (f p)).card

def mark (x : α) : ℕ := if P x then 1 else 0

theorem of_mark_ne_zero {x : α} (h : mark P x ≠ 0) : P x := by
  by_contra hno
  exact h (if_neg hno)

theorem tally_eq_sum (f : τ → α) : tally P f = ∑ p, mark P (f p) := by
  simp only [tally, mark, card_filter]

theorem tally_update [DecidableEq τ] (f : τ → α) (p : τ) (x : α) :
    tally P (update f p x) + mark P (f p) = tally P f + mark P x := by
  rw [tally_eq_sum, tally_eq_sum]
  exact sum_update (mark P) f p x

theorem mark_le_tally (f : τ → α) (p : τ) : mark P (f p) ≤ tally P f := by
  rw [tally_eq_sum]
  exact single_le_sum (fun q _ => Nat.zero_le (mark P (f q))) (mem_univ p)

theorem tally_eq_zero {f : τ → α} (h : ∀ p, ¬P (f p)) : tally P f = 0 := by
  simp [tally, h]

end VendorKernel.Tally

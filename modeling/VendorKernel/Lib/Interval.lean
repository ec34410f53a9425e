import Mathlib.Data.Nat.Notation

/-! Functions of an address that are replaced on an interval. -/
namespace VendorKernel

variable {α : Type*}

def replaceOn (lo hi : ℕ) (v f : ℕ → α) : ℕ → α := fun x => if lo ≤ x ∧ x < hi then v x else f x

variable {lo mid hi x : ℕ} {v w f g : ℕ → α}

theorem replaceOn_in (hlo : lo ≤ x) (hhi : x < hi) : replaceOn lo hi v f x = v x :=
  if_pos ⟨hlo, hhi⟩

theorem replaceOn_out (hx : ¬(lo ≤ x ∧ x < hi)) : replaceOn lo hi v f x = f x := if_neg hx

theorem replaceOn_empty (h : hi ≤ lo) : replaceOn lo hi v f = f := by
  funext x
  exact replaceOn_out (by omega)

theorem replaceOn_congr (hv : ∀ x, lo ≤ x → x < hi → v x = w x) : replaceOn lo hi v f = replaceOn lo hi w f := by
  funext x
  by_cases hx : lo ≤ x ∧ x < hi
  · rw [replaceOn_in hx.1 hx.2, replaceOn_in hx.1 hx.2, hv x hx.1 hx.2]
  · rw [replaceOn_out hx, replaceOn_out hx]

theorem replaceOn_append (hlo : lo ≤ mid) (hhi : mid ≤ hi) :
    replaceOn mid hi v (replaceOn lo mid v f) = replaceOn lo hi v f := by
  funext x
  by_cases hx : lo ≤ x ∧ x < hi
  · rw [replaceOn_in hx.1 hx.2]
    rcases Nat.lt_or_ge x mid with h | h
    · rw [replaceOn_out (by omega), replaceOn_in hx.1 h]
    · rw [replaceOn_in h hx.2]
  · rw [replaceOn_out hx, replaceOn_out (by omega), replaceOn_out (by omega)]

end VendorKernel

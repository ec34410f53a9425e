import Mathlib.Tactic.Common

/-! Memory of which only some cells have been written: what a program stored, apart from what was
there before. -/
namespace VendorKernel.Overlay

open List Option

variable {α : Type*}

def put (cells : ℕ → Option α) (a : ℕ) (xs : List α) : ℕ → Option α :=
  fun i => if a ≤ i then xs[i - a]?.or (cells i) else cells i

variable (cells : ℕ → Option α) {a i j : ℕ} {xs : List α}

@[simp] theorem put_nil (a : ℕ) : put cells a [] = cells := by
  funext i
  simp [put]

theorem put_outside (h : i < a ∨ a + xs.length ≤ i) : put cells a xs i = cells i := by
  unfold put
  split
  case isTrue ha => rw [getElem?_eq_none (by omega), none_or]
  case isFalse => rfl

theorem put_inside (a : ℕ) (hj : j < xs.length) : put cells a xs (a + j) = xs[j]? := by
  rw [put, if_pos (Nat.le_add_right a j), Nat.add_sub_cancel_left, getElem?_eq_getElem hj, some_or]

theorem put_congr {cells cells' : ℕ → Option α} (h : cells i = cells' i) : put cells a xs i = put cells' a xs i := by
  rw [put, put, h]

theorem put_append (a : ℕ) (xs ys : List α) : put (put cells a xs) (a + xs.length) ys = put cells a (xs ++ ys) := by
  funext i
  by_cases hlow : i < a + xs.length
  · rw [put_outside _ (.inl hlow)]
    unfold put
    split
    case isTrue ha => rw [getElem?_append_left (by omega)]
    case isFalse => rfl
  · have ha : a ≤ i := by omega
    rw [put, if_pos (by omega), put_outside _ (.inr (by omega)), put, if_pos ha,
      getElem?_append_right (by omega)]
    congr 2
    omega

theorem put_header (a : ℕ) (hdr body : List α) :
    put (put cells (a + hdr.length) body) a hdr = put cells a (hdr ++ body) := by
  rw [← put_append]
  funext i
  by_cases hin : a ≤ i ∧ i < a + hdr.length
  · obtain ⟨j, rfl⟩ := Nat.exists_eq_add_of_le hin.1
    have hj : j < hdr.length := by omega
    rw [put_inside _ _ hj, put_outside _ (.inl hin.2), put_inside _ _ hj]
  · have hout : i < a ∨ a + hdr.length ≤ i := by omega
    rw [put_outside _ hout]
    exact put_congr (put_outside _ hout).symm

theorem put_ne_none (h : cells i ≠ none) : put cells a xs i ≠ none := by
  unfold put
  split
  case isTrue => exact fun hor => h (or_eq_none_iff.mp hor).2
  case isFalse => exact h

def puts (cells : ℕ → Option α) (stores : List (ℕ × List α)) : ℕ → Option α :=
  stores.foldl (fun cells p => put cells p.1 p.2) cells

@[simp] theorem puts_nil : puts cells [] = cells := rfl

@[simp] theorem puts_cons (p : ℕ × List α) (stores : List (ℕ × List α)) :
    puts cells (p :: stores) = puts (put cells p.1 p.2) stores := rfl

@[simp] theorem puts_append (stores stores' : List (ℕ × List α)) :
    puts cells (stores ++ stores') = puts (puts cells stores) stores' :=
  foldl_append

variable {cells} {stores : List (ℕ × List α)}

theorem puts_outside (h : ∀ p ∈ stores, i < p.1 ∨ p.1 + p.2.length ≤ i) : puts cells stores i = cells i := by
  induction stores generalizing cells with
  | nil => rfl
  | cons p stores ih =>
    rw [forall_mem_cons] at h
    rw [puts_cons, ih h.2, put_outside _ h.1]

def NoOverlap (p q : ℕ × List α) : Prop := p.1 + p.2.length ≤ q.1 ∨ q.1 + q.2.length ≤ p.1

theorem puts_inside (hap : stores.Pairwise NoOverlap) {p : ℕ × List α} (hp : p ∈ stores) (hj : j < p.2.length) :
    puts cells stores (p.1 + j) = p.2[j]? := by
  induction stores generalizing cells with
  | nil => cases hp
  | cons q stores ih =>
    rw [pairwise_cons] at hap
    rw [puts_cons]
    rcases mem_cons.mp hp with rfl | hp
    · rw [puts_outside, put_inside _ _ hj]
      intro q hq
      have := hap.1 q hq
      unfold NoOverlap at this
      omega
    · exact ih hap.2 hp

end VendorKernel.Overlay

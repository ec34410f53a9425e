import Mathlib.Data.Nat.ModEq

/-! Memory as a function from addresses, copies into it, and rings: memory read and written
modulo its length. Positions in a ring only grow; cell `i % L` stands for position `i`. -/
namespace VendorKernel.RingBuffer

open Nat List

variable {α : Type*} {mem mem' : ℕ → α} {a n b i m : ℕ}

def slice (mem : ℕ → α) (a : ℕ) : ℕ → List α
  | 0 => []
  | n + 1 => mem a :: slice mem (a + 1) n

def memcpy (mem : ℕ → α) (a : ℕ) (src : ℕ → α) (n : ℕ) : ℕ → α :=
  fun i => if a ≤ i ∧ i < a + n then src (i - a) else mem i

def window (L : ℕ) (mem : ℕ → α) (x n : ℕ) : List α := slice (fun i => mem (i % L)) x n

def wrapWrite (L : ℕ) (mem : ℕ → α) (a : ℕ) (src : ℕ → α) (n : ℕ) : ℕ → α :=
  let len := min n (L - a)
  let mem := memcpy mem a src len
  if len ≠ n then memcpy mem 0 (fun i => src (len + i)) (n - len) else mem

def wrapRead (L : ℕ) (mem : ℕ → α) (a : ℕ) (dst : ℕ → α) (d n : ℕ) : ℕ → α :=
  let len := min n (L - a)
  let dst := memcpy dst d (fun i => mem (a + i)) len
  if len ≠ n then memcpy dst (d + len) mem (n - len) else dst

@[simp] theorem slice_length (mem : ℕ → α) (a n : ℕ) : (slice mem a n).length = n := by
  induction n generalizing a with
  | zero => rfl
  | succ n ih => simp [slice, ih]

theorem slice_ne_nil (hn : 0 < n) : slice mem a n ≠ [] := by
  rw [← length_pos_iff, slice_length]
  exact hn

theorem slice_add (mem : ℕ → α) (a m n : ℕ) : slice mem a (m + n) = slice mem a m ++ slice mem (a + m) n := by
  induction m generalizing a with
  | zero => simp [slice]
  | succ m ih =>
    rw [succ_add, slice, slice, ih, cons_append, add_assoc, add_comm 1 m]

theorem slice_take (mem : ℕ → α) (a : ℕ) (h : m ≤ n) : (slice mem a n).take m = slice mem a m := by
  obtain ⟨k, rfl⟩ := Nat.exists_eq_add_of_le h
  rw [slice_add, take_left' (slice_length mem a m)]

theorem slice_congr (h : ∀ j < n, mem (a + j) = mem' (b + j)) : slice mem a n = slice mem' b n := by
  induction n generalizing a b with
  | zero => rfl
  | succ n ih =>
    rw [slice, ih]
    · congr 1
      exact h 0 (succ_pos n)
    · intro j hj
      simpa [add_assoc, add_comm 1 j] using h (j + 1) (succ_lt_succ hj)

theorem slice_of_getElem? {xs : List α} (h : ∀ j < xs.length, xs[j]? = some (mem (a + j))) :
    slice mem a xs.length = xs := by
  induction xs generalizing a with
  | nil => rfl
  | cons x xs ih =>
    have hfst : x = mem a := Option.some.inj (h 0 (succ_pos _))
    have hrest := @ih (a + 1) fun j hj => by
      have hnext := h (j + 1) (succ_lt_succ hj)
      rwa [getElem?_cons_succ, add_comm j, ← add_assoc] at hnext
    rw [length_cons, slice, hrest, ← hfst]

theorem slice_eq_iff : slice mem a n = slice mem' b n ↔ ∀ j < n, mem (a + j) = mem' (b + j) := by
  refine ⟨?_, slice_congr⟩
  induction n generalizing a b with
  | zero => exact fun _ j hj => absurd hj (not_lt_zero j)
  | succ n ih =>
    intro h j hj
    rw [slice, slice, cons.injEq] at h
    cases j with
    | zero => exact h.1
    | succ j =>
      have := ih h.2 j (lt_of_succ_lt_succ hj)
      rwa [add_right_comm, add_right_comm b] at this

theorem memcpy_inside (mem : ℕ → α) (src : ℕ → α) (ha : a ≤ i) (hi : i < a + n) :
    memcpy mem a src n i = src (i - a) := if_pos ⟨ha, hi⟩

theorem memcpy_outside (mem : ℕ → α) (src : ℕ → α) (h : i < a ∨ a + n ≤ i) :
    memcpy mem a src n i = mem i := if_neg (by omega)

theorem slice_memcpy_append (mem src : ℕ → α) (a n : ℕ) :
    slice (memcpy mem a src n) 0 (a + n) = slice mem 0 a ++ slice src 0 n := by
  rw [slice_add, zero_add]
  congr 1
  · refine slice_congr fun j hj => memcpy_outside mem src (.inl ?_)
    omega
  · refine slice_congr fun j hj => ?_
    rw [memcpy_inside mem src (Nat.le_add_right a j) (Nat.add_lt_add_left hj a), Nat.zero_add,
      Nat.add_sub_cancel_left]

@[simp] theorem window_length (L : ℕ) (mem : ℕ → α) (x n : ℕ) : (window L mem x n).length = n :=
  slice_length _ _ _

theorem window_add (L : ℕ) (mem : ℕ → α) (x m n : ℕ) :
    window L mem x (m + n) = window L mem x m ++ window L mem (x + m) n :=
  slice_add _ _ _ _

section
variable {L x a m j x' a' y : ℕ} (mem : ℕ → α)

theorem add_mod_of_modEq (hx : x ≡ a [MOD L]) (hj : a + j < L) : (x + j) % L = a + j := by
  have hmod : (x + j) % L = (a + j) % L := hx.add_right j
  rw [hmod, mod_eq_of_lt hj]

theorem mod_ne_of_lt (hij : i < j) (hlap : j < i + L) : i % L ≠ j % L := by
  intro h
  have hdvd : L ∣ j - i := (modEq_iff_dvd' hij.le).mp h
  have := le_of_dvd (by omega) hdvd
  omega

theorem slice_eq_window (hx : x ≡ a [MOD L]) (ha : a + m ≤ L) : slice mem a m = window L mem x m := by
  apply slice_congr
  intro j hj
  rw [add_mod_of_modEq hx (by omega)]

theorem window_congr (hx : x ≡ a [MOD L]) (n : ℕ) : window L mem x n = window L mem a n := by
  apply slice_congr
  intro j _
  exact congrArg mem (hx.add_right j)

theorem mod_distance (hx : x ≡ a [MOD L]) (hx' : x' ≡ a' [MOD L]) (ha : a ≤ L) (hle : x ≤ x') (hlap : x' < x + L) :
    (a' + L - a) % L = x' - x := by
  have hadd : a' + L - a + a ≡ x' - x + a [MOD L] := by
    calc a' + L - a + a = a' + L := Nat.sub_add_cancel (by omega)
      _ ≡ a' [MOD L] := Nat.add_mod_right a' L
      _ ≡ x' [MOD L] := hx'.symm
      _ = x' - x + x := (Nat.sub_add_cancel hle).symm
      _ ≡ x' - x + a [MOD L] := hx.add_left _
  have hmod : (a' + L - a) % L = (x' - x) % L := hadd.add_right_cancel' a
  rw [hmod, mod_eq_of_lt (by omega)]

section
variable (src : ℕ → α) (hx : x ≡ a [MOD L]) (ha : a + m ≤ L)
include hx ha

theorem window_memcpy_self : window L (memcpy mem a src m) x m = slice src 0 m := by
  rw [← slice_eq_window _ hx ha]
  apply slice_congr
  intro j hj
  rw [memcpy_inside _ _ (by omega) (by omega)]
  congr 1
  omega

theorem memcpy_frame (hi : i < x) (hlap : x + m ≤ i + L) : memcpy mem a src m (i % L) = mem (i % L) := by
  apply memcpy_outside
  by_contra hin
  obtain ⟨j, hj⟩ : ∃ j, i % L = a + j := ⟨i % L - a, by omega⟩
  have hcell : (x + j) % L = i % L := by
    rw [hj]
    exact add_mod_of_modEq hx (by omega)
  exact mod_ne_of_lt (by omega) (by omega) hcell.symm

theorem window_memcpy_frame (hy : y + n ≤ x) (hlap : x + m ≤ y + L) :
    window L (memcpy mem a src m) y n = window L mem y n := by
  apply slice_congr
  intro j hj
  exact memcpy_frame mem src hx ha (by omega) (by omega)

end

variable {n d k : ℕ} (src : ℕ → α)

theorem wrapWrite_of_fit (hn : a + n ≤ L) : wrapWrite L mem a src n = memcpy mem a src n := by
  have hmin : min n (L - a) = n := by omega
  rw [wrapWrite, hmin, if_neg (by simp)]

theorem wrapWrite_of_wrap (hm : a + m = L) (hn : m < n) :
    wrapWrite L mem a src n = memcpy (memcpy mem a src m) 0 (fun i => src (m + i)) (n - m) := by
  have hmin : min n (L - a) = m := by omega
  rw [wrapWrite, hmin, if_pos hn.ne]

private theorem modEq_zero_of_wrap (hx : x ≡ a [MOD L]) (hm : a + m = L) : x + m ≡ 0 [MOD L] := by
  have hlap : x + m ≡ L [MOD L] := hm ▸ hx.add_right m
  exact hlap.trans (mod_self L)

theorem window_wrapWrite_self (hx : x ≡ a [MOD L]) (ha : a ≤ L) (hn : n ≤ L) :
    window L (wrapWrite L mem a src n) x n = slice src 0 n := by
  by_cases hfit : a + n ≤ L
  · rw [wrapWrite_of_fit mem src hfit, window_memcpy_self mem src hx hfit]
  · obtain ⟨m, hm⟩ := Nat.exists_eq_add_of_le ha
    obtain ⟨rest, rfl⟩ := Nat.exists_eq_add_of_le (by omega : m ≤ n)
    have hini := modEq_zero_of_wrap hx hm.symm
    rw [wrapWrite_of_wrap mem src hm.symm (by omega), Nat.add_sub_cancel_left, window_add,
      window_memcpy_frame _ _ hini (by omega) le_rfl (by omega),
      window_memcpy_self mem src hx (by omega), window_memcpy_self _ _ hini (by omega), slice_add]
    congr 1
    exact slice_congr fun j _ => by rw [zero_add, zero_add]

theorem window_wrapWrite_frame (hx : x ≡ a [MOD L]) (ha : a ≤ L) (hy : y + k ≤ x) (hlap : x + n ≤ y + L) :
    window L (wrapWrite L mem a src n) y k = window L mem y k := by
  by_cases hfit : a + n ≤ L
  · rw [wrapWrite_of_fit mem src hfit, window_memcpy_frame mem src hx hfit hy hlap]
  · obtain ⟨m, hm⟩ := Nat.exists_eq_add_of_le ha
    have hini := modEq_zero_of_wrap hx hm.symm
    rw [wrapWrite_of_wrap mem src hm.symm (by omega),
      window_memcpy_frame _ _ hini (by omega) (by omega) (by omega),
      window_memcpy_frame mem src hx (by omega) hy (by omega)]

theorem wrapRead_before (dst : ℕ → α) (hi : i < d) : wrapRead L mem a dst d n i = dst i := by
  rw [wrapRead]
  split_ifs
  · rw [memcpy_outside _ _ (by omega), memcpy_outside _ _ (by omega)]
  · rw [memcpy_outside _ _ (by omega)]

theorem wrapRead_apply (dst : ℕ → α) (ha : a ≤ L) (hn : n ≤ L) (hj : j < n) :
    wrapRead L mem a dst d n (d + j) = mem ((a + j) % L) := by
  rw [wrapRead]
  by_cases hfit : a + j < L
  · -- the first part, which the second one leaves alone
    have hfst : memcpy dst d (fun i => mem (a + i)) (min n (L - a)) (d + j) = mem (a + j) := by
      rw [memcpy_inside _ _ (by omega) (by omega), Nat.add_sub_cancel_left]
    rw [Nat.mod_eq_of_lt hfit, ← hfst]
    split_ifs
    · exact memcpy_outside _ _ (by omega)
    · rfl
  · have hcell : (a + j) % L = d + j - (d + min n (L - a)) := by
      rw [mod_eq_sub_mod (by omega), mod_eq_of_lt (by omega)]
      omega
    rw [if_pos (by omega), memcpy_inside _ _ (by omega) (by omega), hcell]

theorem slice_wrapRead (dst : ℕ → α) (ha : a ≤ L) (hn : n ≤ L) :
    slice (wrapRead L mem a dst d n) 0 (d + n) = slice dst 0 d ++ window L mem a n := by
  rw [slice_add]
  congr 1
  · exact slice_congr fun j hj => wrapRead_before mem dst (by omega)
  · apply slice_congr
    intro j hj
    rw [zero_add, wrapRead_apply mem dst ha hn hj]

end

end VendorKernel.RingBuffer

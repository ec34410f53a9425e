import VendorKernel.Lib.RingBuffer

/-! A queue kept in a ring by two cells, the head where it grows and the tail where it shrinks. One
cell of the ring stays free, so that equal cells stand for the empty queue. -/
namespace VendorKernel.RingBuffer

open Nat List

variable {α : Type*}

structure Holds (L : ℕ) (mem : ℕ → α) (head tail : ℕ) (q : List α) : Prop where
  tail_lt : tail < L
  head_eq : head = (tail + q.length) % L
  room : q.length < L
  data : window L mem tail q.length = q

namespace Holds

variable {L head tail n a k : ℕ} {mem : ℕ → α} {q : List α}

theorem empty (h : tail < L) : Holds L mem tail tail [] :=
  ⟨h, (mod_eq_of_lt h).symm, zero_lt_of_lt h, rfl⟩

theorem of_cells (hhead : head < L) (htail : tail < L) : ∃ q, Holds L mem head tail q := by
  refine ⟨window L mem tail (if head < tail then L - tail + head else head - tail), htail, ?_, ?_, ?_⟩
  · rw [window_length]
    split_ifs with hlap
    · have hsum : tail + (L - tail + head) = head + L := by omega
      rw [hsum, Nat.add_mod_right, Nat.mod_eq_of_lt hhead]
    · rw [Nat.add_sub_cancel' (by omega), Nat.mod_eq_of_lt hhead]
  · rw [window_length]
    split_ifs <;> omega
  · rw [window_length]

section
variable (h : Holds L mem head tail q)
include h

theorem head_modEq : tail + q.length ≡ head [MOD L] := by
  rw [h.head_eq]
  exact (mod_modEq _ _).symm

theorem head_lt : head < L := by
  rw [h.head_eq]
  exact mod_lt _ (zero_lt_of_lt h.tail_lt)

theorem head_cases : head = tail + q.length ∨ head + L = tail + q.length := by
  have htail := h.tail_lt
  have hroom := h.room
  rw [h.head_eq]
  by_cases hlap : tail + q.length < L
  · simp [mod_eq_of_lt hlap]
  · rw [mod_eq_sub_mod (by omega), mod_eq_of_lt (by omega)]
    omega

theorem occupied : (if head < tail then L - tail + head else head - tail) = q.length := by
  have htail := h.tail_lt
  have hroom := h.room
  have hcs := h.head_cases
  split_ifs <;> omega

theorem free : (if tail ≤ head then L - head + tail else tail - head) = L - q.length := by
  have hhead := h.head_lt
  have hroom := h.room
  have hcs := h.head_cases
  split_ifs <;> omega

theorem eq_nil_iff : q = [] ↔ head = tail := by
  have htail := h.tail_lt
  have hroom := h.room
  have hcs := h.head_cases
  rw [← length_eq_zero_iff]
  omega

theorem copy (src : ℕ → α) (ha : a = (head + k) % L) (hn : q.length + k + n ≤ L) :
    Holds L (wrapWrite L mem a src n) head tail q := by
  have hpos : 0 < L := zero_lt_of_lt h.tail_lt
  have hcell : tail + q.length + k ≡ a [MOD L] := by
    rw [ha]
    exact (h.head_modEq.add_right k).trans (mod_modEq _ _).symm
  have hle : a ≤ L := by
    rw [ha]
    exact (mod_lt _ hpos).le
  refine ⟨h.tail_lt, h.head_eq, h.room, ?_⟩
  rw [window_wrapWrite_frame mem src hcell hle (by omega) (by omega)]
  exact h.data

theorem publish (hn : q.length + n < L) : Holds L mem ((head + n) % L) tail (q ++ window L mem head n) := by
  have hlen : (q ++ window L mem head n).length = q.length + n := by simp
  refine ⟨h.tail_lt, ?_, by omega, ?_⟩
  · rw [hlen, ← add_assoc]
    exact (h.head_modEq.add_right n).symm
  · rw [hlen, window_add, h.data, window_congr mem h.head_modEq]

theorem split (hn : n ≤ q.length) :
    window L mem tail n = q.take n ∧ window L mem (tail + n) (q.length - n) = q.drop n := by
  have hdata : _ = q.take n ++ q.drop n := h.data.trans (take_append_drop n q).symm
  nth_rewrite 1 [← Nat.add_sub_cancel' hn] at hdata
  rw [window_add] at hdata
  apply append_inj hdata
  rw [window_length, length_take, min_eq_left hn]

theorem advance (hn : n ≤ q.length) : Holds L mem head ((tail + n) % L) (q.drop n) := by
  have hroom := h.room
  have hlen : (q.drop n).length = q.length - n := length_drop
  refine ⟨Nat.mod_lt _ (Nat.zero_lt_of_lt h.tail_lt), ?_, by omega, ?_⟩
  · rw [hlen, h.head_eq, Nat.mod_add_mod, Nat.add_assoc, Nat.add_sub_cancel' hn]
  · rw [hlen, window_congr _ (Nat.mod_modEq _ _)]
    exact (h.split hn).2

theorem window_eq (hn : k + n ≤ q.length) : window L mem ((tail + k) % L) n = (q.drop k).take n := by
  have hrest := (h.advance (n := k) (by omega)).split (n := n) (by simp; omega)
  exact hrest.1

end

end Holds

end VendorKernel.RingBuffer

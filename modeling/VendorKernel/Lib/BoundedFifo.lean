import Mathlib.Algebra.Order.Ring.Int

/-! A queue of bounded total size that forgets its oldest entries to make room for a new one, and
hands out every entry once, in order, unless it has been forgotten before. -/
namespace VendorKernel.BoundedFifo

open List

variable {α : Type*} (size : α → ℕ)

def weight (xs : List α) : ℕ := (xs.map size).sum

def trim (room : ℕ) : List α → List α
  | [] => []
  | x :: xs => if weight size (x :: xs) ≤ room then x :: xs else trim room xs

/-- The entries kept, oldest first: those handed out and those not yet. -/
structure Fifo (α : Type*) where
  read : List α
  unread : List α

namespace Fifo

def retained (f : Fifo α) : List α := f.read ++ f.unread

def makeRoom (room : ℕ) (f : Fifo α) : Fifo α :=
  ⟨trim size (room - weight size f.unread) f.read, trim size room f.unread⟩

def push (f : Fifo α) (x : α) : Fifo α := { f with unread := f.unread ++ [x] }

def pop (f : Fifo α) : Option α × Fifo α :=
  match f.unread with
  | [] => (none, f)
  | x :: rest => (some x, ⟨f.read ++ [x], rest⟩)

def dropOldest (f : Fifo α) : Fifo α :=
  match f.read with
  | [] => ⟨[], f.unread.tail⟩
  | _ :: rest => ⟨rest, f.unread⟩

end Fifo

@[simp] theorem weight_nil : weight size [] = 0 := rfl

@[simp] theorem weight_cons (x : α) (xs : List α) : weight size (x :: xs) = size x + weight size xs :=
  sum_cons

@[simp] theorem weight_append (xs ys : List α) : weight size (xs ++ ys) = weight size xs + weight size ys := by
  simp [weight]

theorem trim_suffix (room : ℕ) (xs : List α) : trim size room xs <:+ xs := by
  induction xs with
  | nil => exact suffix_rfl
  | cons x xs ih =>
    rw [trim]
    split_ifs
    · exact suffix_rfl
    · exact ih.trans (suffix_cons x xs)

theorem trim_of_le {room : ℕ} {xs : List α} (h : weight size xs ≤ room) : trim size room xs = xs := by
  cases xs with
  | nil => rfl
  | cons x xs => rw [trim, if_pos h]

theorem trim_cons_of_lt {room : ℕ} {x : α} {xs : List α} (h : room < weight size (x :: xs)) :
    trim size room (x :: xs) = trim size room xs := by
  rw [trim, if_neg (by omega)]

namespace Fifo

variable {size} {room : ℕ} {f : Fifo α}

theorem makeRoom_of_le (h : weight size f.retained ≤ room) : f.makeRoom size room = f := by
  rw [retained, weight_append] at h
  rw [makeRoom, trim_of_le size (by omega), trim_of_le size (by omega)]

theorem dropOldest_read (f : Fifo α) : f.dropOldest.read = f.read.tail := by
  rw [dropOldest]
  cases f.read <;> rfl

theorem dropOldest_retained (f : Fifo α) : f.dropOldest.retained = f.retained.tail := by
  rw [dropOldest, retained, retained]
  cases f.read <;> rfl

theorem pop_retained (f : Fifo α) : f.pop.2.retained = f.retained := by
  obtain ⟨read, unread⟩ := f
  cases unread with
  | nil => rfl
  | cons x rest => simp [pop, retained]

theorem push_retained (f : Fifo α) (x : α) : (f.push x).retained = f.retained ++ [x] := by
  rw [push, retained, retained, append_assoc]

section
variable (hpos : ∀ x, 0 < size x)
include hpos

theorem length_le_weight (xs : List α) : xs.length ≤ weight size xs := by
  induction xs with
  | nil => exact le_rfl
  | cons x xs ih =>
    have := hpos x
    rw [length_cons, weight_cons]
    omega

theorem makeRoom_dropOldest (h : room < weight size f.retained) :
    f.dropOldest.makeRoom size room = f.makeRoom size room := by
  obtain ⟨read, unread⟩ := f
  rw [retained, weight_append] at h
  cases read with
  | cons x rest =>
    have := hpos x
    rw [dropOldest, makeRoom, makeRoom, trim_cons_of_lt]
    rw [weight_cons] at h ⊢
    omega
  | nil =>
    cases unread with
    | nil => simp at h
    | cons x rest =>
      rw [makeRoom, makeRoom, trim_cons_of_lt size (by simpa using h)]
      rfl

theorem trim_zero (xs : List α) : trim size 0 xs = [] := by
  induction xs with
  | nil => rfl
  | cons x xs ih =>
    rw [trim_cons_of_lt size, ih]
    have := hpos x
    rw [weight_cons]
    omega

theorem makeRoom_suffix (f : Fifo α) (room : ℕ) : (f.makeRoom size room).retained <:+ f.retained := by
  by_cases hroom : weight size f.unread ≤ room
  · rw [makeRoom, trim_of_le size hroom]
    exact (suffix_append_inj_of_length_eq rfl).mpr ⟨trim_suffix size _ _, rfl⟩
  · rw [makeRoom, Nat.sub_eq_zero_of_le (by omega), trim_zero hpos]
    exact (trim_suffix size _ _).trans (suffix_append _ _)

end

end Fifo

end VendorKernel.BoundedFifo

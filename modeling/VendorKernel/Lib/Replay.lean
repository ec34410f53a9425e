import Mathlib.Data.List.Induction

/-! Replaying a log of items that appear and disappear: the last word about an item decides. -/
namespace VendorKernel.Replay

open List

variable {α : Type*} [DecidableEq α]

/-- Whether an item is there after a log of appearances and disappearances. -/
def replay (log : List (α × Bool)) (x : α) : Bool :=
  log.foldl (fun b e => if e.1 = x then e.2 else b) false

theorem replay_concat (log : List (α × Bool)) (e : α × Bool) (x : α) :
    replay (log ++ [e]) x = if e.1 = x then e.2 else replay log x := by
  rw [replay, foldl_append]
  rfl

theorem replay_map_true (xs : List α) (x : α) : replay (xs.map fun y => (y, true)) x = true ↔ x ∈ xs := by
  induction xs using reverseRecOn with
  | nil => simp [replay]
  | append_singleton xs y ih =>
    rw [map_append, map_singleton, replay_concat]
    by_cases hy : y = x
    · simp [hy]
    · simp [hy, ih, Ne.symm hy]

end VendorKernel.Replay

import Mathlib.Tactic.Common

/-! Messages that are cut into fragments and put together again. Fragments of messages with
different keys may be mixed. -/
namespace VendorKernel.Reassembly

open List Function

variable {κ α : Type*}

/-- A part of a message, with its place in the message and the length of what follows it. -/
structure Fragment (κ α : Type*) where
  key : κ
  offset : ℕ
  chunk : List α
  left : ℕ

namespace Fragment

def total (f : Fragment κ α) : ℕ := f.offset + f.chunk.length + f.left

/-- What has been gathered under the key of the fragment is what comes before it in its message. -/
def Continues (f : Fragment κ α) (gathered : Option (List α × ℕ)) : Prop :=
  match gathered with
  | none => f.offset = 0
  | some (part, n) => part.length = f.offset ∧ n = f.total

def joined (f : Fragment κ α) (gathered : Option (List α × ℕ)) : List α :=
  (gathered.elim [] Prod.fst) ++ f.chunk

def gather (f : Fragment κ α) (gathered : Option (List α × ℕ)) : Option (List α × ℕ) :=
  if f.left = 0 then none else some (f.joined gathered, f.total)

def complete (f : Fragment κ α) (gathered : Option (List α × ℕ)) : List (κ × List α) :=
  if f.left = 0 then [(f.key, f.joined gathered)] else []

end Fragment

/-- What has been gathered of a message when the parts of it up to `offset` have been sent. -/
def progress (message : List α) (offset : ℕ) : Option (List α × ℕ) :=
  if offset = 0 ∨ offset = message.length then none else some (message.take offset, message.length)

@[simp] theorem progress_zero (message : List α) : progress message 0 = none := by
  simp [progress]

section
variable {f : Fragment κ α} {message : List α} {n : ℕ}

theorem continues_progress (hofs : f.offset < message.length)
    (htot : f.total = message.length) : f.Continues (progress message f.offset) := by
  by_cases h0 : f.offset = 0
  · simp [progress, h0, Fragment.Continues]
  · have hne : ¬(f.offset = 0 ∨ f.offset = message.length) := by omega
    rw [progress, if_neg hne, htot.symm]
    refine ⟨?_, rfl⟩
    rw [length_take]
    omega

theorem joined_progress (hofs : f.offset < message.length)
    (hck2 : f.chunk = (message.drop f.offset).take n) :
    f.joined (progress message f.offset) = message.take (f.offset + n) := by
  have htake : message.take f.offset ++ f.chunk = message.take (f.offset + n) := by
    rw [hck2, take_add]
  by_cases h0 : f.offset = 0
  · simpa [h0, Fragment.joined] using htake
  · have hne : ¬(f.offset = 0 ∨ f.offset = message.length) := by omega
    rw [progress, if_neg hne]
    exact htake

end

variable [DecidableEq κ]

/-- The fragments take what has been gathered from `st` to `st'` and complete the messages `out`. -/
inductive Feeds : (κ → Option (List α × ℕ)) → List (Fragment κ α) →
    (κ → Option (List α × ℕ)) → List (κ × List α) → Prop
  | nil (st : κ → Option (List α × ℕ)) : Feeds st [] st []
  | cons {st st' : κ → Option (List α × ℕ)} {f : Fragment κ α} {fs : List (Fragment κ α)}
      {out : List (κ × List α)} (hf : f.Continues (st f.key))
      (hfs : Feeds (update st f.key (f.gather (st f.key))) fs st' out) :
      Feeds st (f :: fs) st' (f.complete (st f.key) ++ out)

namespace Feeds

variable {st st' : κ → Option (List α × ℕ)} {f : Fragment κ α} {fs : List (Fragment κ α)} {out : List (κ × List α)}

theorem snoc (h : Feeds st fs st' out) (hf : f.Continues (st' f.key)) :
    Feeds st (fs ++ [f]) (update st' f.key (f.gather (st' f.key))) (out ++ f.complete (st' f.key)) := by
  induction h with
  | nil st =>
    have hone := Feeds.cons hf (Feeds.nil _)
    rwa [append_nil] at hone
  | cons hg _ ih =>
    rw [append_assoc]
    exact Feeds.cons hg (ih hf)

theorem uncons (h : Feeds st (f :: fs) st' out) :
    f.Continues (st f.key) ∧
      ∃ out', out = f.complete (st f.key) ++ out' ∧ Feeds (update st f.key (f.gather (st f.key))) fs st' out' := by
  cases h with
  | cons hf hfs => exact ⟨hf, _, rfl, hfs⟩

theorem eq_of_forall_ne (h : Feeds st fs st' out) {k : κ} (hk : ∀ f ∈ fs, f.key ≠ k) : st' k = st k := by
  induction h with
  | nil _ => rfl
  | cons _ _ ih =>
    rw [ih fun g hg => hk g (mem_cons_of_mem _ hg), update_of_ne (hk _ (mem_cons_self ..)).symm]

theorem eq_none_of_unfinished (h : Feeds st fs st' out) {k : κ} (hk : st' k = none)
    (hleft : ∀ f ∈ fs, f.key = k → f.left ≠ 0) : st k = none ∧ ∀ f ∈ fs, f.key ≠ k := by
  induction h with
  | nil _ => exact ⟨hk, forall_mem_nil _⟩
  | @cons st _ g gs _ _ _ ih =>
    obtain ⟨hnone, hrest⟩ := ih hk fun f hf => hleft f (mem_cons_of_mem g hf)
    have hg : g.key ≠ k := by
      rintro rfl
      rw [update_self, Fragment.gather, if_neg (hleft g (mem_cons_self ..) rfl)] at hnone
      cases hnone
    rw [update_of_ne hg.symm] at hnone
    exact ⟨hnone, forall_mem_cons.mpr ⟨hg, hrest⟩⟩

end Feeds

end VendorKernel.Reassembly

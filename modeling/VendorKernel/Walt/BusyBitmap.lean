import Mathlib.Algebra.Order.Ring.Int
import VendorKernel.Lib.Machine

/-! The milliseconds in which a task was busy (`update_busy_bitmap` in `walt.c`): one bit for each of the last
sixteen, shifted in as the clock passes the end of a millisecond. -/
namespace VendorKernel.Walt

open Machine List Int

def NSEC_PER_MSEC : ℕ := 1000000

structure BitmapTask where
  markStart : ℕ
  busyBitmap : BitVec 16
  periodContribRun : ℕ
  /-- Not in the source: the bit positions that were shifted in. -/
  shifted : ℕ
deriving DecidableEq

/-- A call at `wallclock`: whether a pipeline is in progress and the task has a `pipeline_cpu`, and what
`account_busy_for_cpu_time` returns. -/
structure BitmapCall where
  wallclock : ℕ
  tracked : Bool
  running : Bool

namespace BitmapTask

/-- `set_bits`; with the sixteen bits it is limited to, all positions are shifted in. -/
def setBits (p : BitmapTask) (nrBits : ℕ) (setBit : Bool) : BitmapTask :=
  { p with
    busyBitmap := p.busyBitmap <<< min nrBits 16 ||| if setBit then BitVec.ofNat 16 (2 ^ min nrBits 16 - 1) else 0
    shifted := p.shifted + nrBits }

def nextMsBoundary (p : BitmapTask) : ℕ := (p.markStart + (NSEC_PER_MSEC - 1)) / NSEC_PER_MSEC * NSEC_PER_MSEC

def ran (p : BitmapTask) (running : Bool) (t : ℕ) : ℕ :=
  (p.periodContribRun + if running then t - p.markStart else 0) % 2 ^ 32

/-- `update_busy_bitmap` up to the boost. `periods` is an `int`, and a shift by a negative number is undefined. -/
def updateBusyBitmap (p : BitmapTask) (c : BitmapCall) : Option BitmapTask :=
  if c.tracked = false then some p
  else
    let wallclock := max c.wallclock p.markStart
    if wallclock < p.nextMsBoundary then some { p with periodContribRun := p.ran c.running wallclock }
    else
      let q := p.setBits 1 (500000 < p.ran c.running p.nextMsBoundary)
      let periods := bmod ((wallclock - p.nextMsBoundary) / NSEC_PER_MSEC : ℕ) (2 ^ 32)
      if periods < 0 then none
      else
        -- the source leaves out a `set_bits` of no bits
        some { q.setBits periods.toNat c.running with
          periodContribRun := if c.running then wallclock % NSEC_PER_MSEC else 0 }

def step (p : BitmapTask) (c : BitmapCall) : Option BitmapTask :=
  (p.updateBusyBitmap c).map fun q => { q with markStart := c.wallclock }

/-- The task is tracked, the clock goes on, and by less than 2^31 milliseconds. -/
def Ticks (p : BitmapTask) (c : BitmapCall) : Prop :=
  c.tracked = true ∧ p.markStart < c.wallclock ∧ c.wallclock < p.markStart + 2 ^ 31 * NSEC_PER_MSEC

instance (p : BitmapTask) (c : BitmapCall) : Decidable (p.Ticks c) := inferInstanceAs (Decidable (_ ∧ _ ∧ _))

variable {p p' : BitmapTask} {c c' : BitmapCall}

section
variable (h : p.Ticks c)
include h

theorem step_of_lt (hms : c.wallclock < p.nextMsBoundary) :
    p.step c = some { p with markStart := c.wallclock, periodContribRun := p.ran c.running c.wallclock } := by
  simp only [step, updateBusyBitmap, h.1, Nat.max_eq_left (Nat.le_of_lt h.2.1), Bool.true_eq_false, if_false]
  rw [if_pos hms]
  rfl

theorem step_of_le (hms : p.nextMsBoundary ≤ c.wallclock) :
    p.step c = some
      { (p.setBits 1 (500000 < p.ran c.running p.nextMsBoundary)).setBits
          ((c.wallclock - p.nextMsBoundary) / NSEC_PER_MSEC) c.running with
        markStart := c.wallclock
        periodContribRun := if c.running then c.wallclock % NSEC_PER_MSEC else 0 } := by
  obtain ⟨htracked, hlt, hgap⟩ := h
  simp only [step, updateBusyBitmap, htracked, Nat.max_eq_left (Nat.le_of_lt hlt), Bool.true_eq_false, if_false]
  have hperiods : (c.wallclock - p.nextMsBoundary) / NSEC_PER_MSEC < 2 ^ 31 := by
    rw [nextMsBoundary, NSEC_PER_MSEC] at *
    omega
  generalize (c.wallclock - p.nextMsBoundary) / NSEC_PER_MSEC = periods at *
  rw [if_neg (Nat.not_lt_of_le hms), bmod_eq_of_le (by omega) (by omega), if_neg (by omega), toNat_natCast]
  rfl

/-- A call shifts in one bit for each end of a millisecond, and one more if it starts at such an end. -/
theorem step_shifted (hs : p.step c = some p') :
    p'.markStart = c.wallclock ∧ ∃ extra,
      p'.shifted = p.shifted + (c.wallclock / NSEC_PER_MSEC - p.markStart / NSEC_PER_MSEC) + extra ∧
      (extra = 0 ↔ ¬NSEC_PER_MSEC ∣ p.markStart) := by
  have hlt := h.2.1
  by_cases hms : c.wallclock < p.nextMsBoundary
  · rw [step_of_lt h hms] at hs
    cases hs
    simp only [nextMsBoundary, NSEC_PER_MSEC] at *
    exact ⟨trivial, 0, by omega, iff_of_true rfl (by omega)⟩
  · rw [step_of_le h (Nat.le_of_not_lt hms)] at hs
    cases hs
    refine ⟨rfl, if 1000000 ∣ p.markStart then 1 else 0, ?_, by simp [NSEC_PER_MSEC]⟩
    simp only [setBits, nextMsBoundary, NSEC_PER_MSEC] at *
    split_ifs <;> omega

end

theorem setBits_setBits (p : BitmapTask) (m n : ℕ) : (p.setBits m true).setBits n true = p.setBits (m + n) true := by
  have hbit (x : BitVec 16) (k i : ℕ) (hi : i < 16) :
      (x <<< min k 16 ||| BitVec.ofNat 16 (2 ^ min k 16 - 1)).getLsbD i = (decide (i < k) || x.getLsbD (i - k)) := by
    simp only [BitVec.getLsbD_or, BitVec.getLsbD_shiftLeft, BitVec.getLsbD_ofNat, Nat.testBit_two_pow_sub_one]
    by_cases hk : i < k
    · have : i < min k 16 := by omega
      simp [hk, this, hi]
    · have hmin : min k 16 = k := by omega
      simp [hk, hmin, hi]
  simp only [setBits, if_true, Nat.add_assoc, BitmapTask.mk.injEq, true_and, and_true]
  refine BitVec.eq_of_getLsbD_eq fun i hi => ?_
  have hor : (decide (i < n) || decide (i - n < m)) = decide (i < m + n) := by
    rw [← Bool.decide_or, decide_eq_decide]
    omega
  rw [hbit _ _ _ hi, hbit _ _ _ hi, hbit _ _ _ (by omega), ← Bool.or_assoc, hor, Nat.sub_sub, Nat.add_comm n]

/-- One call of a running task is as good as two, if the first does not end with a millisecond. -/
theorem step_step (h : p.Ticks c) (h' : p'.Ticks c') (hgap : p.Ticks c') (hrun : c.running = true)
    (hrun' : c'.running = true) (hend : ¬NSEC_PER_MSEC ∣ c.wallclock) (hs : p.step c = some p') :
    p.step c' = p'.step c' := by
  have hlt := h.2.1
  by_cases hms : c.wallclock < p.nextMsBoundary
  · rw [step_of_lt h hms] at hs
    cases hs
    have hlt' : c.wallclock < c'.wallclock := h'.2.1
    have hnext : nextMsBoundary { p with
        markStart := c.wallclock, periodContribRun := p.ran c.running c.wallclock } = p.nextMsBoundary := by
      simp only [nextMsBoundary, NSEC_PER_MSEC] at *
      omega
    by_cases hms' : c'.wallclock < p.nextMsBoundary
    · rw [step_of_lt hgap hms', step_of_lt h' (hnext.symm ▸ hms')]
      simp only [ran, hrun, hrun', if_true, Option.some.injEq, BitmapTask.mk.injEq, true_and, and_true]
      omega
    · rw [step_of_le hgap (Nat.le_of_not_lt hms'), step_of_le h' (hnext.symm ▸ Nat.le_of_not_lt hms'), hnext]
      have hran : ran { p with markStart := c.wallclock, periodContribRun := p.ran true c.wallclock } true
          p.nextMsBoundary = p.ran true p.nextMsBoundary := by
        simp only [ran, if_true]
        omega
      simp only [hrun, hrun', if_true, setBits, hran]
  · have hms := Nat.le_of_not_lt hms
    rw [step_of_le h hms] at hs
    cases hs
    have hlt' : c.wallclock < c'.wallclock := h'.2.1
    rw [step_of_le hgap (Nat.le_trans hms (Nat.le_of_lt hlt'))]
    simp only [hrun, hrun', if_true] at h' ⊢
    generalize p.setBits 1 _ = q at h' ⊢
    obtain ⟨n, hn⟩ : ∃ n, (c.wallclock - p.nextMsBoundary) / NSEC_PER_MSEC = n := ⟨_, rfl⟩
    rw [hn] at h' ⊢
    have hnext : nextMsBoundary { q.setBits n true with
        markStart := c.wallclock, periodContribRun := c.wallclock % NSEC_PER_MSEC } =
        p.nextMsBoundary + (n + 1) * NSEC_PER_MSEC := by
      simp only [nextMsBoundary, NSEC_PER_MSEC] at *
      omega
    by_cases hms' : c'.wallclock < p.nextMsBoundary + (n + 1) * NSEC_PER_MSEC
    · rw [step_of_lt h' (hnext.symm ▸ hms')]
      have hn' : (c'.wallclock - p.nextMsBoundary) / NSEC_PER_MSEC = n := by
        rw [NSEC_PER_MSEC] at *
        omega
      have hcontrib : c'.wallclock % NSEC_PER_MSEC =
          (c.wallclock % NSEC_PER_MSEC + (c'.wallclock - c.wallclock)) % 2 ^ 32 := by
        rw [nextMsBoundary, NSEC_PER_MSEC] at *
        omega
      simp only [ran, hn', hrun', if_true, hcontrib]
    · rw [step_of_le h' (hnext.symm ▸ Nat.le_of_not_lt hms'), hnext]
      have hn' : (c'.wallclock - p.nextMsBoundary) / NSEC_PER_MSEC =
          n + 1 + (c'.wallclock - (p.nextMsBoundary + (n + 1) * NSEC_PER_MSEC)) / NSEC_PER_MSEC := by
        rw [NSEC_PER_MSEC] at *
        omega
      have hfull : 500000 < (c.wallclock % NSEC_PER_MSEC +
          (p.nextMsBoundary + (n + 1) * NSEC_PER_MSEC - c.wallclock)) % 2 ^ 32 := by
        rw [nextMsBoundary, NSEC_PER_MSEC] at *
        omega
      simp only [ran, hrun', if_true, hfull, decide_true, hn', ← setBits_setBits]
      simp only [setBits]

def starts (p : BitmapTask) (calls : List BitmapCall) : List ℕ := (p.markStart :: calls.map (·.wallclock)).dropLast

/-- A position is shifted in twice at full milliseconds only. -/
theorem run_shifted {calls : List BitmapCall} (hok : Meets step Ticks p calls) (hrun : run step p calls = some p') :
    p.markStart ≤ p'.markStart ∧ ∃ extra,
      p'.shifted = p.shifted + (p'.markStart / NSEC_PER_MSEC - p.markStart / NSEC_PER_MSEC) + extra ∧
      (extra = 0 ↔ ∀ t ∈ p.starts calls, ¬NSEC_PER_MSEC ∣ t) := by
  induction calls generalizing p with
  | nil =>
    cases hrun
    exact ⟨Nat.le_refl _, 0, by simp, by simp [starts]⟩
  | cons c calls ih =>
    obtain ⟨q, hs, hrest⟩ := run_cons hrun
    have hlt := hok.head.2.1
    obtain ⟨hmark, extra, hsh, hex⟩ := step_shifted hok.head hs
    obtain ⟨hle, extra', hsh', hex'⟩ := ih (hok.tail hs) hrest
    have hstarts : p.starts (c :: calls) = p.markStart :: q.starts calls := by
      simp [starts, hmark]
    refine ⟨by omega, extra + extra', ?_, ?_⟩
    · rw [NSEC_PER_MSEC] at *
      omega
    · rw [hstarts, forall_mem_cons, ← hex, ← hex', Nat.add_eq_zero_iff]

/-- Calls of a running task are as good as one, if only the last one ends with a millisecond. -/
theorem run_split {calls : List BitmapCall} (hok : Meets step Ticks p (c :: calls))
    (hrun : run step p (c :: calls) = some p') (hrunning : ∀ c' ∈ c :: calls, c'.running = true)
    (hend : ∀ t ∈ ((c :: calls).map (·.wallclock)).dropLast, ¬NSEC_PER_MSEC ∣ t)
    (hgap : p.Ticks ⟨p'.markStart, true, true⟩) : p.step ⟨p'.markStart, true, true⟩ = some p' := by
  obtain ⟨q, hs, hrest⟩ := run_cons hrun
  have hmark := (step_shifted hok.head hs).1
  have hc := hrunning c mem_cons_self
  induction calls generalizing p c q with
  | nil =>
    cases hrest
    obtain ⟨wallclock, tracked, running⟩ := c
    obtain rfl : tracked = true := hok.head.1
    obtain rfl : running = true := hc
    rwa [hmark]
  | cons c' calls ih =>
    have hok' := hok.tail hs
    obtain ⟨q', hs', hrest'⟩ := run_cons hrest
    have hmark' := (step_shifted hok'.head hs').1
    have hle := (run_shifted (hok'.tail hs') hrest').1
    have hlt := hok.head.2.1
    have hlt' := hok'.head.2.1
    have hgap' : q.Ticks ⟨p'.markStart, true, true⟩ := by
      exact ⟨rfl, by dsimp only; omega, Nat.lt_of_lt_of_le hgap.2.2 (by omega)⟩
    have hq := ih hok' hrest (fun c hc => hrunning c (mem_cons_of_mem _ hc))
      (fun t ht => hend t (mem_cons_of_mem _ ht)) hgap' q' hs' hrest' hmark'
      (hrunning c' (mem_cons_of_mem _ mem_cons_self))
    rw [← hq]
    exact step_step hok.head hgap' hgap hc rfl (hend c.wallclock mem_cons_self) hs

end BitmapTask

/-- As many bits are shifted in as milliseconds end, if and only if no call starts with a millisecond: the end of
the one before is then counted again. Calls of a running task can be split anywhere else. -/
theorem busy_bitmap_shifts (p p' : BitmapTask) (calls : List BitmapCall)
    (hok : Meets BitmapTask.step BitmapTask.Ticks p calls) (hrun : run BitmapTask.step p calls = some p') :
    (p'.shifted - p.shifted = p'.markStart / NSEC_PER_MSEC - p.markStart / NSEC_PER_MSEC ↔
        ∀ t ∈ p.starts calls, ¬NSEC_PER_MSEC ∣ t) ∧
      (calls ≠ [] → (∀ c ∈ calls, c.running = true) →
        (∀ t ∈ (calls.map (·.wallclock)).dropLast, ¬NSEC_PER_MSEC ∣ t) →
        p.Ticks ⟨p'.markStart, true, true⟩ → p.step ⟨p'.markStart, true, true⟩ = some p') := by
  constructor
  · obtain ⟨-, extra, hsh, hex⟩ := BitmapTask.run_shifted hok hrun
    rw [← hex]
    omega
  · cases calls with
    | nil => exact fun hne => absurd rfl hne
    | cons c calls => exact fun _ => BitmapTask.run_split hok hrun

/-- Two calls do what one would. -/
theorem busy_bitmap_shifts_twice :
    let p : BitmapTask := ⟨100000, 0, 0, 0⟩
    let calls : List BitmapCall := [⟨900000, true, true⟩, ⟨2500000, true, true⟩]
    ∃ p', run BitmapTask.step p calls = some p' ∧ p'.shifted = 2 ∧ p.step ⟨p'.markStart, true, true⟩ = some p' :=
  ⟨_, rfl, rfl, (busy_bitmap_shifts ⟨100000, 0, 0, 0⟩ _ [⟨900000, true, true⟩, ⟨2500000, true, true⟩] (by decide)
    rfl).2 (by decide) (by decide) (by decide) (by decide)⟩

/-- A call that ends with a millisecond, and one that starts there: a bit that is not set is shifted in between. -/
theorem busy_bitmap_shifts_at_boundary :
    let p : BitmapTask := ⟨100000, 0, 0, 0⟩
    run BitmapTask.step p [⟨1000000, true, true⟩, ⟨1500000, true, true⟩] = some ⟨1500000, 2, 500000, 2⟩ ∧
      p.step ⟨1500000, true, true⟩ = some ⟨1500000, 1, 500000, 1⟩ ∧
        1500000 / NSEC_PER_MSEC - 100000 / NSEC_PER_MSEC = 1 := by
  decide

end VendorKernel.Walt

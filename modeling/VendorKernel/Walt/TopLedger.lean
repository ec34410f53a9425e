import VendorKernel.Walt.TopTally

/-! The table operations of one runqueue. The ledger beside the tables says which load each task has an entry
for. -/
namespace VendorKernel.Walt

open TopTasks Function RankedTable

variable {τ : Type*}

structure TopLedger (τ : Type*) where
  tables : TopTasks
  curr : τ → ℕ
  prev : τ → ℕ

def TopLedger.init : TopLedger τ := ⟨TopTasks.init, fun _ => 0, fun _ => 0⟩

inductive TopOp (τ : Type*)
  /-- `update_top_tasks` of a task with entries here: the load before, the two loads after. -/
  | update (p : τ) (oldCurrWindow currWindow prevWindow : ℕ) (newWindow fullWindow : Bool)
  /-- `update_top_tasks` of a task between two runqueues: it has no entry and is not charged. -/
  | updateMigrating (oldCurrWindow : ℕ) (newWindow fullWindow : Bool)
  | rollover (fullWindow : Bool)
  | subtraction (p : τ)
  | addition (p : τ) (currWindow prevWindow : ℕ)

/-- In the window of the last update the entry is in the current table, one window later in the previous one,
after a full window in none. -/
def UpdateIssued (s : TopLedger τ) (p : τ) (oldCurrWindow prevWindow : ℕ) (newWindow fullWindow : Bool) : Prop :=
  if newWindow = false then s.curr p = oldCurrWindow ∧ s.prev p = prevWindow
  else s.curr p = 0 ∧ s.prev p = if fullWindow then 0 else oldCurrWindow

def topStep [DecidableEq τ] (s : TopLedger τ) : TopOp τ → TopLedger τ
  | .update p oldCurrWindow currWindow prevWindow newWindow fullWindow =>
    { tables := s.tables.updateTopTasks oldCurrWindow currWindow prevWindow newWindow fullWindow
      curr := update s.curr p currWindow
      prev := update s.prev p prevWindow }
  | .updateMigrating oldCurrWindow newWindow fullWindow =>
    -- `rollover_task_window` moves the load, nothing is added to it
    let currWindow := if newWindow then 0 else oldCurrWindow
    let prevWindow := if fullWindow then 0 else oldCurrWindow
    { s with tables := s.tables.updateTopTasks oldCurrWindow currWindow prevWindow newWindow fullWindow }
  | .rollover fullWindow =>
    { tables := s.tables.rolloverTopTasks fullWindow
      curr := fun _ => 0
      prev := if fullWindow then fun _ => 0 else s.curr }
  | .subtraction p =>
    { tables := s.tables.migrateTopTasksSubtraction (s.curr p) (s.prev p)
      curr := update s.curr p 0
      prev := update s.prev p 0 }
  | .addition p currWindow prevWindow =>
    { tables := s.tables.migrateTopTasksAddition currWindow prevWindow
      curr := update s.curr p currWindow
      prev := update s.prev p prevWindow }

/-- The operation fits what the task has recorded, as it does whenever the accounting code issues it. -/
def TopOp.Issued (s : TopLedger τ) : TopOp τ → Prop
  | .update p oldCurrWindow _ prevWindow newWindow fullWindow =>
    UpdateIssued s p oldCurrWindow prevWindow newWindow fullWindow
  | .addition p _ _ => s.curr p = 0 ∧ s.prev p = 0
  | _ => True

def TopLedger.Fits [Fintype τ] (s : TopLedger τ) : Prop := FitsU8 s.curr ∧ FitsU8 s.prev

structure TopLedger.Tracked [Fintype τ] (s : TopLedger τ) : Prop where
  curr : Tracks s.tables.curr.toTopTable s.curr
  prev : Tracks s.tables.prev.toTopTable s.prev

def TopOp.NoWrap : TopOp τ → Prop
  | .update _ oldCurrWindow currWindow prevWindow newWindow fullWindow =>
    if newWindow = false then oldCurrWindow ≤ currWindow
    else fullWindow = true ∨ oldCurrWindow ≤ prevWindow
  | _ => True

theorem UpdateIssued.cases {s : TopLedger τ} {p : τ} {oldCurrWindow prevWindow : ℕ} {newWindow fullWindow : Bool}
    (h : UpdateIssued s p oldCurrWindow prevWindow newWindow fullWindow) :
    newWindow = false ∧ s.curr p = oldCurrWindow ∧ s.prev p = prevWindow ∨
      newWindow = true ∧ fullWindow = true ∧ s.curr p = 0 ∧ s.prev p = 0 ∨
      newWindow = true ∧ fullWindow = false ∧ s.curr p = 0 ∧ s.prev p = oldCurrWindow := by
  cases newWindow <;> cases fullWindow <;> simpa [UpdateIssued] using h

theorem tracked_init [Fintype τ] : (TopLedger.init : TopLedger τ).Tracked where
  curr := tracks_clear ⟨fun _ => 0, fun _ => false, false⟩ rfl
  prev := tracks_clear ⟨fun _ => 0, fun _ => false, false⟩ rfl

theorem fitsU8_zero [Fintype τ] : FitsU8 fun _ : τ => 0 := by
  intro i
  rw [Tally.tally_eq_zero _ (by simp [InBucket])]
  exact Nat.zero_le _

theorem fits_init [Fintype τ] : (TopLedger.init : TopLedger τ).Fits := ⟨fitsU8_zero, fitsU8_zero⟩

section
variable [Fintype τ] [DecidableEq τ] {s : TopLedger τ}

theorem tracked_rollover (h : s.Tracked) (fullWindow : Bool) : (topStep s (.rollover fullWindow)).Tracked := by
  constructor
  · rw [topStep, curr_rolloverTopTasks]
    exact tracks_clear _ h.prev.no_underflow
  · rw [topStep, prev_rolloverTopTasks]
    cases fullWindow with
    | false => exact h.curr
    | true => exact tracks_clear _ h.curr.no_underflow

theorem fits_rollover (h : s.Fits) (fullWindow : Bool) : (topStep s (.rollover fullWindow)).Fits := by
  cases fullWindow with
  | false => exact ⟨fitsU8_zero, h.1⟩
  | true => exact ⟨fitsU8_zero, fitsU8_zero⟩

section
variable (h : s.Tracked)
include h

theorem tracked_subtraction (hfit : s.Fits) (p : τ) : (topStep s (.subtraction p)).Tracked := by
  constructor
  · rw [topStep, (migrateTopTasksSubtraction_tables ..).1]
    exact tracks_migrateSubtraction h.curr hfit.1
  · rw [topStep, (migrateTopTasksSubtraction_tables ..).2]
    exact tracks_migrateSubtraction h.prev hfit.2

theorem tracked_addition {p : τ} {currWindow prevWindow : ℕ}
    (hiss : (TopOp.addition p currWindow prevWindow).Issued s)
    (hfit : (topStep s (.addition p currWindow prevWindow)).Fits) :
    (topStep s (.addition p currWindow prevWindow)).Tracked := by
  constructor
  · rw [topStep, (migrateTopTasksAddition_tables ..).1]
    exact tracks_migrateAddition h.curr hiss.1 hfit.1
  · rw [topStep, (migrateTopTasksAddition_tables ..).2]
    exact tracks_migrateAddition h.prev hiss.2 hfit.2

theorem tracked_update (hfit : s.Fits) {p : τ} {oldCurrWindow currWindow prevWindow : ℕ}
    {newWindow fullWindow : Bool}
    (hiss : UpdateIssued s p oldCurrWindow prevWindow newWindow fullWindow)
    (hwrap : (TopOp.update p oldCurrWindow currWindow prevWindow newWindow fullWindow).NoWrap)
    (hfit' : (topStep s (.update p oldCurrWindow currWindow prevWindow newWindow fullWindow)).Fits) :
    (topStep s (.update p oldCurrWindow currWindow prevWindow newWindow fullWindow)).Tracked := by
  rw [topStep] at hfit' ⊢
  rcases hiss.cases with ⟨rfl, rfl, rfl⟩ | ⟨rfl, rfl, hc, hp⟩ | ⟨rfl, rfl, hc, rfl⟩
  · have hle : s.curr p ≤ currWindow := by simpa [TopOp.NoWrap] using hwrap
    constructor
    · rw [(updateTopTasks_same ..).1]
      split
      · next hsame => simpa [← hsame] using h.curr
      · exact tracks_updateSameWindow h.curr hle hfit.1 hfit'.1
    · rw [(updateTopTasks_same ..).2]
      simpa using h.prev
  · constructor
    · rw [(updateTopTasks_new ..).1]
      exact tracks_migrateAddition h.curr hc hfit'.1
    · rw [(updateTopTasks_new ..).2]
      exact tracks_updatePrevFull h.prev hp hfit'.2
  · have hle : s.prev p ≤ prevWindow := by simpa [TopOp.NoWrap] using hwrap
    constructor
    · rw [(updateTopTasks_new ..).1]
      exact tracks_migrateAddition h.curr hc hfit'.1
    · rw [(updateTopTasks_new ..).2]
      exact tracks_updatePrevNext h.prev hle hfit.2 hfit'.2

theorem topStep_updateMigrating (oldCurrWindow : ℕ) (newWindow fullWindow : Bool) :
    topStep s (.updateMigrating oldCurrWindow newWindow fullWindow) = s := by
  have hbit := h.prev.bits.setBitIfOne_eq (loadToIndex_lt 0)
  rw [loadToIndex_zero] at hbit
  have hfull : s.tables.prev.updatePrevFull 0 = s.tables.prev := by
    simp [updatePrevFull, hbit]
  have hnext : s.tables.prev.updatePrevNext oldCurrWindow oldCurrWindow = s.tables.prev := by
    simp [updatePrevNext]
  cases newWindow with
  | false => simp [topStep, updateTopTasks]
  | true =>
    cases fullWindow with
    | false => simp [topStep, updateTopTasks, hnext, migrateAddition]
    | true => simp [topStep, updateTopTasks, hfull, migrateAddition]

theorem tracked_step (hfit : s.Fits) {op : TopOp τ} (hiss : op.Issued s) (hwrap : op.NoWrap)
    (hfit' : (topStep s op).Fits) : (topStep s op).Tracked := by
  cases op with
  | update => exact tracked_update h hfit hiss hwrap hfit'
  | updateMigrating =>
    rw [topStep_updateMigrating h]
    exact h
  | rollover fullWindow => exact tracked_rollover h fullWindow
  | subtraction p => exact tracked_subtraction h hfit p
  | addition => exact tracked_addition h hiss hfit'

end

end

end VendorKernel.Walt

import VendorKernel.Walt.PipelineBoost

/-! The unisolation request of the manual pipeline from window to window (`pipeline.c`). -/
namespace VendorKernel.Walt.Pipeline

open List

variable {n k : ℕ} (d : Layout n k)

/-- What a window finds: `auto` is `sysctl_sched_heavy_nr || sysctl_sched_pipeline_util_thres`, `worthy` what
`set_unisolation` comes to with one or two tasks, `autoRequest` what `find_heaviest_topapp` asks for. -/
structure Window where
  windowStart : ℕ
  auto : Bool
  numSchedClusters : ℕ
  pipelineNr : ℕ
  schedBoostType : ℕ
  nextRearrange : ℕ
  worthy : Bool
  autoRequest : Option Bool

structure Manual (k : ℕ) where
  state : State k
  lastRearrangeNs : ℕ
  lastSetUnisolation : Bool
  lastAutoPipeline : Bool

namespace Manual

def requested (s : Manual k) : Bool := s.state.enablePipelineUnisolation .manualPipeline

def delayed (s : Manual k) (w : Window) : Bool :=
  s.lastRearrangeNs ≠ 0 && w.windowStart < (s.lastRearrangeNs + w.nextRearrange) % 2 ^ 64

/-- `rearrange_pipeline_preferred_cpus`, without the CPUs of the tasks. -/
def rearrangePipelinePreferredCpus (s : Manual k) (w : Window) : Manual k :=
  if w.auto ∨ w.numSchedClusters < 2 then s
  else
    let idle := w.pipelineNr = 0 ∨ w.schedBoostType ≠ 0
    let setUnisolation := ¬idle ∧ s.delayed w = false ∧ (2 < w.pipelineNr ∨ w.worthy)
    { s with
      lastRearrangeNs := if idle ∨ s.delayed w then s.lastRearrangeNs else w.windowStart
      state := if decide setUnisolation ≠ s.lastSetUnisolation then
        s.state.pipelineSetUnisolation d setUnisolation .manualPipeline else s.state
      lastSetUnisolation := setUnisolation }

def pipelineResetUnisolationState (s : Manual k) (w : Window) : Manual k :=
  if w.auto ∧ ¬s.lastAutoPipeline then
    { s with state := s.state.pipelineSetUnisolation d false .manualPipeline, lastAutoPipeline := true }
  else if ¬w.auto ∧ s.lastAutoPipeline then
    { s with state := s.state.pipelineSetUnisolation d false .autoPipeline, lastAutoPipeline := false }
  else s

def pipelineCheck (s : Manual k) (w : Window) : Manual k :=
  let s := match w.autoRequest with
    | some request => { s with state := s.state.pipelineSetUnisolation d request .autoPipeline }
    | none => s
  (s.rearrangePipelinePreferredCpus d w).pipelineResetUnisolationState d w

end Manual

structure Window.Busy (w : Window) : Prop where
  auto : w.auto = false
  clusters : 2 ≤ w.numSchedClusters
  boost : w.schedBoostType = 0
  tasks : 3 ≤ w.pipelineNr

namespace Manual

def after (s : Manual k) (ws : List Window) : Manual k := ws.foldl (pipelineCheck d) s

/-- A delayed window finds no request of its own, and the request of a rearrangement is still there. -/
def Kept (s : Manual k) (w : Window) : Prop :=
  s.lastSetUnisolation = true → (s.delayed w = true ↔ s.requested = false)

section
variable {d} {s : Manual k} {w : Window}

theorem enable_pipelineSetUnisolation (s : State k) (set : Bool) (flag : Requester) :
    (s.pipelineSetUnisolation d set flag).enablePipelineUnisolation =
      Function.update s.enablePipelineUnisolation flag set := by
  unfold State.pipelineSetUnisolation
  dsimp only
  split_ifs <;> rfl

/-- The request changes only with the private record of it. -/
theorem requested_pipelineCheck (hbusy : w.Busy) :
    (s.pipelineCheck d w).requested =
      if s.lastSetUnisolation = !s.delayed w then s.requested else !s.delayed w := by
  obtain ⟨hauto, hclusters, hboost, htasks⟩ := hbusy
  have hmain (s : Manual k) : ((s.rearrangePipelinePreferredCpus d w).pipelineResetUnisolationState d w).requested =
      if s.lastSetUnisolation = !s.delayed w then s.requested else !s.delayed w := by
    have hidle : ¬(w.pipelineNr = 0 ∨ w.schedBoostType ≠ 0) := by omega
    have hset : 2 < w.pipelineNr := htasks
    rw [rearrangePipelinePreferredCpus, if_neg (not_or.mpr ⟨by simp [hauto], Nat.not_lt.mpr hclusters⟩)]
    cases hdel : s.delayed w <;> cases s.lastSetUnisolation <;> cases s.lastAutoPipeline <;>
      simp [pipelineResetUnisolationState, requested, enable_pipelineSetUnisolation, hidle, hset, hauto]
  unfold pipelineCheck
  cases w.autoRequest with
  | none => exact hmain s
  | some request =>
    refine (hmain _).trans ?_
    simp [requested, enable_pipelineSetUnisolation, delayed]

theorem kept_iff (hbusy : w.Busy) :
    s.Kept w ↔ (s.requested = true → (s.pipelineCheck d w).requested = true) ∧
      (s.delayed w = false → (s.pipelineCheck d w).requested = true) := by
  rw [requested_pipelineCheck hbusy, Kept]
  cases s.delayed w <;> cases s.lastSetUnisolation <;> cases s.requested <;> simp

end

/-- In windows with at least three manual tasks the request stays, and every rearrangement leaves it set, if and only
if each window keeps it. -/
theorem manual_request_iff (s : Manual k) (ws : List Window) (hbusy : ∀ w ∈ ws, w.Busy) :
    ((∀ a b c, ws = a ++ b ++ c → (s.after d a).requested = true → (s.after d (a ++ b)).requested = true) ∧
      ∀ a w c, ws = a ++ w :: c → (s.after d a).delayed w = false → (s.after d (a ++ [w])).requested = true) ↔
      ∀ a w c, ws = a ++ w :: c → (s.after d a).Kept w := by
  have hnext (a : List Window) (w : Window) : s.after d (a ++ [w]) = (s.after d a).pipelineCheck d w := by
    simp [after]
  constructor
  · rintro ⟨hstay, hset⟩ a w c rfl
    rw [kept_iff (hbusy w (by simp)), ← hnext]
    exact ⟨hstay a [w] c (by simp), hset a w c rfl⟩
  · intro hkept
    have hstep : ∀ a w c, ws = a ++ w :: c → _ := fun a w c h =>
      (kept_iff (d := d) (hbusy w (by simp [h]))).mp (hkept a w c h)
    refine ⟨fun a b c hws hreq => ?_, fun a w c hws => hnext a w ▸ (hstep a w c hws).2⟩
    -- from window to window of `b`
    induction b generalizing a with
    | nil => rwa [append_nil]
    | cons w b ih =>
      rw [append_cons]
      refine ih (a ++ [w]) (by simpa using hws) ?_
      exact hnext a w ▸ (hstep a w (b ++ c) (by simpa using hws)).1 hreq

def manualStart : Manual 2 := ⟨.start 2 0, 0, false, false⟩

def threeTasks (windowStart : ℕ) : Window := ⟨windowStart, false, 2, 3, 0, 10, false, none⟩

/-- Three tasks, a rearrangement at most every ten units, and three windows that are further apart. -/
theorem manual_request_iff_thrice :
    (manualStart.after twoClusters [threeTasks 5, threeTasks 20, threeTasks 40]).requested = true := by
  have hbusy (n : ℕ) : (threeTasks n).Busy := ⟨rfl, le_rfl, rfl, le_rfl⟩
  refine ((manual_request_iff twoClusters manualStart [threeTasks 5, threeTasks 20, threeTasks 40]
    (by simp [hbusy])).mpr fun a w c h => ?_).2 [threeTasks 5, threeTasks 20] _ [] rfl (by decide)
  unfold Kept
  rcases a with _ | ⟨_, _ | ⟨_, _ | ⟨_, a⟩⟩⟩ <;> simp at h
  · obtain ⟨rfl, -⟩ := h
    decide
  · obtain ⟨rfl, rfl, -⟩ := h
    decide
  · obtain ⟨rfl, rfl, rfl, -⟩ := h
    decide

/-- The next window is delayed and takes the request back; after the automatic pipeline a rearrangement leaves it
cleared. -/
theorem manual_request_lost :
    (manualStart.after twoClusters [threeTasks 5]).requested = true ∧
      (manualStart.after twoClusters [threeTasks 5, threeTasks 6]).requested = false ∧
      (manualStart.after twoClusters
        [threeTasks 5, { threeTasks 6 with auto := true }, threeTasks 20]).lastRearrangeNs = 20 ∧
      (manualStart.after twoClusters
        [threeTasks 5, { threeTasks 6 with auto := true }, threeTasks 20]).requested = false := by
  decide

end Manual

end VendorKernel.Walt.Pipeline

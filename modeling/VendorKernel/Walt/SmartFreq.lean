import Mathlib.Data.List.FinRange
import Mathlib.Order.Bounds.Basic

/-! The hysteresis of the smart frequencies of a cluster (`smart_freq.c`). -/
namespace VendorKernel.Walt.SmartFreq

open List

abbrev LEGACY_SMART_FREQ : ℕ := 11

abbrev Reason := Fin LEGACY_SMART_FREQ

def NO_REASON_SMART_FREQ : Reason := 0

structure Config where
  participation : Reason → Bool
  freqAllowed : Reason → ℕ
  hystNs : Reason → ℕ

structure Status where
  active : Bool
  deactivateNs : ℕ

structure Cluster where
  status : Reason → Status
  freqCap : ℕ

/-- `holds`: the conditions of the reasons, as they are tested for this cluster. -/
structure Call where
  wallclock : ℕ
  holds : Reason → Bool

def Config.reasons (cfg : Config) (call : Call) (i : Reason) : Bool :=
  cfg.participation i && (i = NO_REASON_SMART_FREQ || call.holds i)

def Status.update (st : Status) (current : Bool) (wallclock hystNs : ℕ) : Status :=
  if current then ⟨true, 0⟩
  else if st.active then
    if st.deactivateNs = 0 then { st with deactivateNs := wallclock }
    else if hystNs ≤ wallclock - st.deactivateNs then ⟨false, 0⟩
    else st
  else st

namespace Cluster

/-- A reason that is decaying, or has just been seen, has its bit. -/
def raiseCap (cfg : Config) (status : Reason → Status) (cap : ℕ) (i : Reason) : ℕ :=
  if (status i).active ∧ cap < cfg.freqAllowed i then cfg.freqAllowed i else cap

def maxCap (cfg : Config) (status : Reason → Status) : ℕ :=
  (finRange LEGACY_SMART_FREQ).foldl (raiseCap cfg status) (cfg.freqAllowed NO_REASON_SMART_FREQ)

def Updates (cfg : Config) (c : Cluster) (call : Call) : Prop :=
  ∃ i, cfg.reasons call i = true ∨ (c.status i).active = true

instance (cfg : Config) (c : Cluster) (call : Call) : Decidable (c.Updates cfg call) :=
  inferInstanceAs (Decidable (∃ _, _))

def update (cfg : Config) (c : Cluster) (call : Call) : Cluster :=
  if c.Updates cfg call then
    let status i := (c.status i).update (cfg.reasons call i) call.wallclock (cfg.hystNs i)
    ⟨status, maxCap cfg status⟩
  else c

def after (cfg : Config) (cap : ℕ) (calls : List Call) : Cluster :=
  calls.foldl (update cfg) ⟨fun _ => ⟨false, 0⟩, cap⟩

end Cluster

/-- What the calls so far say of a reason: it has never held, it holds, or since it last held the first call
without it was at this time. -/
inductive Phase where
  | never
  | held
  | since (wallclock : ℕ)

def Phase.next (cfg : Config) (i : Reason) (phase : Phase) (call : Call) : Phase :=
  if cfg.reasons call i then .held
  else
    match phase with
    | .held => .since call.wallclock
    | phase => phase

def Phase.after (cfg : Config) (i : Reason) (calls : List Call) : Phase := calls.foldl (next cfg i) .never

/-- The reason counts at time `now`: the first call without it is the one now, or less than `hyst_ns` in the past. -/
def Phase.Counts (now hystNs : ℕ) : Phase → Prop
  | .never => False
  | .held => True
  | .since wallclock => wallclock = now ∨ now - wallclock < hystNs

def Status.Shows (now hystNs : ℕ) (st : Status) (phase : Phase) : Prop :=
  match phase with
  | .never => st = ⟨false, 0⟩
  | .held => st = ⟨true, 0⟩
  | .since w => 0 < w ∧ w ≤ now ∧ (st = ⟨true, w⟩ ∧ (w = now ∨ now - w < hystNs) ∨
    st = ⟨false, 0⟩ ∧ w < now ∧ hystNs ≤ now - w)

theorem Status.Shows.active_iff {now hystNs : ℕ} {st : Status} {phase : Phase} (h : st.Shows now hystNs phase) :
    st.active = true ↔ phase.Counts now hystNs := by
  cases phase with
  | never => simp [show st = _ from h, Phase.Counts]
  | held => simp [show st = _ from h, Phase.Counts]
  | since w =>
    obtain ⟨-, -, ⟨rfl, hin⟩ | ⟨rfl, hlt, hout⟩⟩ := h
    · simpa [Phase.Counts] using hin
    · simp only [Phase.Counts, Bool.false_eq_true, false_iff]
      omega

theorem Status.Shows.update {cfg : Config} {i : Reason} {now : ℕ} {st : Status} {phase : Phase} {call : Call}
    (h : st.Shows now (cfg.hystNs i) phase) (hlt : now < call.wallclock) :
    (st.update (cfg.reasons call i) call.wallclock (cfg.hystNs i)).Shows call.wallclock (cfg.hystNs i)
      (phase.next cfg i call) := by
  cases phase <;> grind [Phase.next, Status.update, Shows]

namespace Cluster

theorem isGreatest_foldl (cfg : Config) (status : Reason → Status) (l : List Reason) (cap : ℕ) :
    IsGreatest {freq | freq = cap ∨ ∃ i ∈ l, (status i).active = true ∧ freq = cfg.freqAllowed i}
      (l.foldl (raiseCap cfg status) cap) := by
  induction l generalizing cap with
  | nil => simp
  | cons i l ih =>
    obtain ⟨hmem, hge⟩ := ih (raiseCap cfg status cap i)
    have hle := hge (.inl rfl)
    refine ⟨by grind [raiseCap], ?_⟩
    rintro freq (rfl | ⟨j, hj, hact, rfl⟩)
    · grind [raiseCap]
    · rcases mem_cons.mp hj with rfl | hj
      · grind [raiseCap]
      · exact hge (.inr ⟨j, hj, hact, rfl⟩)

theorem status_update (cfg : Config) (c : Cluster) (call : Call) (i : Reason) :
    (c.update cfg call).status i = (c.status i).update (cfg.reasons call i) call.wallclock (cfg.hystNs i) := by
  unfold update
  split
  · rfl
  · next hno =>
    simp only [Updates, not_exists, not_or, Bool.not_eq_true] at hno
    simp [Status.update, hno i]

theorem shows_foldl (cfg : Config) (i : Reason) {now : ℕ} {c : Cluster} {phase : Phase} {calls : List Call}
    (h : (c.status i).Shows now (cfg.hystNs i) phase) (hclk : (now :: calls.map Call.wallclock).Pairwise (· < ·)) :
    ((calls.foldl (update cfg) c).status i).Shows ((calls.map Call.wallclock).getLastD now) (cfg.hystNs i)
      (calls.foldl (Phase.next cfg i) phase) := by
  induction calls generalizing now c phase with
  | nil => exact h
  | cons call calls ih =>
    obtain ⟨hlt, hclk⟩ := pairwise_cons.mp hclk
    rw [map_cons, getLastD_cons]
    refine ih ?_ hclk
    rw [status_update]
    exact h.update (hlt _ mem_cons_self)

/-- After a call that updates the cluster, the cap is the highest frequency of the reasons that count. -/
theorem smart_freq_cap (cfg : Config) (cap : ℕ) (calls : List Call) (call : Call)
    (hclk : (0 :: (calls ++ [call]).map Call.wallclock).Pairwise (· < ·))
    (hupd : (after cfg cap calls).Updates cfg call) :
    IsGreatest {freq | freq = cfg.freqAllowed NO_REASON_SMART_FREQ ∨
        ∃ i, (Phase.after cfg i (calls ++ [call])).Counts call.wallclock (cfg.hystNs i) ∧ freq = cfg.freqAllowed i}
      (after cfg cap (calls ++ [call])).freqCap := by
  have hcounts (i : Reason) : ((after cfg cap (calls ++ [call])).status i).active = true ↔
      (Phase.after cfg i (calls ++ [call])).Counts call.wallclock (cfg.hystNs i) := by
    have hshows := @shows_foldl cfg i 0 (after cfg cap []) .never _ rfl hclk
    rw [map_append, map_singleton, getLastD_concat] at hshows
    exact hshows.active_iff
  have hcap : (after cfg cap (calls ++ [call])).freqCap = maxCap cfg (after cfg cap (calls ++ [call])).status := by
    rw [show after cfg cap (calls ++ [call]) = (after cfg cap calls).update cfg call from foldl_concat .., update,
      if_pos hupd]
  rw [hcap, maxCap]
  simp only [← hcounts]
  simpa using isGreatest_foldl cfg _ (finRange LEGACY_SMART_FREQ) (cfg.freqAllowed NO_REASON_SMART_FREQ)

def decaying : Config := ⟨fun _ => true, fun i => i, fun _ => 10⟩

def oneAt (wallclock : ℕ) (holds : Bool) : Call := ⟨wallclock, fun i => i = 1 && holds⟩

/-- Reason 1 holds at time 5, not at time 9, and still counts at time 18. -/
theorem smart_freq_cap_decaying :
    1 ≤ (after decaying 0 [oneAt 5 true, oneAt 9 false, oneAt 18 false]).freqCap :=
  (smart_freq_cap decaying 0 [oneAt 5 true, oneAt 9 false] (oneAt 18 false) (by decide) (by decide)).2
    (.inr ⟨1, .inr (by decide), rfl⟩)

end Cluster

end VendorKernel.Walt.SmartFreq

import Mathlib.Algebra.Order.Ring.Int
import VendorKernel.Walt.Halt

/-! Scheduler boost (`boost.c`): reference counts, the effective boost, and what the enter and exit callbacks
leave in frequency aggregation and in core control. -/
namespace VendorKernel.Walt

open Machine Function List Option Int

/-- The boosts in descending priority, numbered from `NO_BOOST = 0`. -/
inductive SchedBoost
  | noBoost
  | fullThrottleBoost
  | conservativeBoost
  | restrainedBoost
  | storageBoost
  | balanceBoost
  deriving DecidableEq, Repr

namespace SchedBoost

def number : SchedBoost → ℕ
  | noBoost => 0
  | fullThrottleBoost => 1
  | conservativeBoost => 2
  | restrainedBoost => 3
  | storageBoost => 4
  | balanceBoost => 5

/-- The index into `sched_boosts`; only numbers up to `BALANCE_BOOST` are looked up. -/
def ofNumber : ℕ → SchedBoost
  | 0 => noBoost
  | 1 => fullThrottleBoost
  | 2 => conservativeBoost
  | 3 => restrainedBoost
  | 4 => storageBoost
  | _ => balanceBoost

def fromStart : List SchedBoost :=
  [fullThrottleBoost, conservativeBoost, restrainedBoost, storageBoost, balanceBoost]

end SchedBoost

inductive SchedBoostPolicy
  | schedBoostNone
  | schedBoostOnBig
  | schedBoostOnAll
  deriving DecidableEq, Repr

/-- `enables` and effective `disables` of every boost since the last disable-all. -/
structure BoostLedger where
  enables : SchedBoost → ℕ
  disables : SchedBoost → ℕ

structure BoostSys (k : ℕ) where
  refcount : SchedBoost → ℤ
  schedBoostType : SchedBoost
  sysctlSchedBoost : SchedBoost
  boostPolicy : SchedBoostPolicy
  schedFreqAggrEn : Bool
  clusterBoost : Fin k → ℕ
  waltDisabled : Bool
  initialized : Bool
  /-- Not in the source. -/
  ledger : BoostLedger

variable {k m : ℕ}

/-- `set_cluster_boost`: the new count of an `unsigned int` and the return value. -/
def setClusterBoost (count : ℕ) (boost : Bool) : ℕ × ℤ :=
  if boost then ((count + 1) % 2 ^ 32, 0)
  else if count = 0 then (count, -EINVAL)
  else (count - 1, 0)

/-- `core_ctl_set_boost`, without the wake-up of the core control thread. -/
def coreCtlSetBoost (boost : Bool) (s : BoostSys k) : BoostSys k :=
  if s.waltDisabled then s
  else if !s.initialized then s
  else { s with clusterBoost := fun c => (setClusterBoost (s.clusterBoost c) boost).1 }

def waltEnableFrequencyAggregation (enable : Bool) (s : BoostSys k) : BoostSys k :=
  { s with schedFreqAggrEn := enable }

namespace SchedBoost

def enter : SchedBoost → BoostSys k → BoostSys k
  | noBoost, s => s
  | fullThrottleBoost, s => waltEnableFrequencyAggregation true (coreCtlSetBoost true s)
  | conservativeBoost, s => s
  | restrainedBoost, s => waltEnableFrequencyAggregation true s
  | storageBoost, s => coreCtlSetBoost true s
  | balanceBoost, s => coreCtlSetBoost true s

def exit : SchedBoost → BoostSys k → BoostSys k
  | noBoost, s => s
  | fullThrottleBoost, s => waltEnableFrequencyAggregation false (coreCtlSetBoost false s)
  | conservativeBoost, s => s
  | restrainedBoost, s => waltEnableFrequencyAggregation false s
  | storageBoost, s => coreCtlSetBoost false s
  | balanceBoost, s => coreCtlSetBoost false s

end SchedBoost

def schedEffectiveBoost (refcount : SchedBoost → ℤ) : SchedBoost :=
  (SchedBoost.fromStart.find? fun b => 1 ≤ refcount b).getD .noBoost

def BoostSys.setRefcount (s : BoostSys k) (b : SchedBoost) (r : ℤ) : BoostSys k :=
  { s with refcount := update s.refcount b r }

/-- Leaves the previous effective boost for the next one, if they differ. -/
def BoostSys.switchFrom (s : BoostSys k) (prevBoost : SchedBoost) : BoostSys k :=
  let nextBoost := schedEffectiveBoost s.refcount
  if nextBoost = prevBoost then s else nextBoost.enter (prevBoost.exit s)

def schedBoostDisable (b : SchedBoost) (s : BoostSys k) : BoostSys k :=
  if s.refcount b ≤ 0 then s
  else
    let s' := s.setRefcount b (s.refcount b - 1)
    if s'.refcount b ≠ 0 then s' else s'.switchFrom s.schedBoostType

/-- The reference count is an `int`. -/
def schedBoostEnable (b : SchedBoost) (s : BoostSys k) : BoostSys k :=
  let s' := s.setRefcount b (bmod (s.refcount b + 1) (2 ^ 32))
  if s'.refcount b ≠ 1 then s' else s'.switchFrom s.schedBoostType

def schedBoostDisableAll (s : BoostSys k) : BoostSys k :=
  if s.schedBoostType ≠ .noBoost then
    let s' := s.schedBoostType.exit s
    { s' with refcount := fun b => if b ∈ SchedBoost.fromStart then 0 else s'.refcount b }
  else s

def setBoostPolicy (hmpCapable : Bool) (type : SchedBoost) : SchedBoostPolicy :=
  if type = .noBoost ∨ type = .restrainedBoost then .schedBoostNone
  else if hmpCapable then .schedBoostOnBig
  else .schedBoostOnAll

def BoostSys.settle (hmpCapable : Bool) (s : BoostSys k) : BoostSys k :=
  let type := schedEffectiveBoost s.refcount
  { s with schedBoostType := type, sysctlSchedBoost := type, boostPolicy := setBoostPolicy hmpCapable type }

def verifyBoostParams (type : ℤ) : Bool := -5 ≤ type ∧ type ≤ 5

def setBoost (hmpCapable : Bool) (type : ℤ) (s : BoostSys k) : BoostSys k :=
  (if type = 0 then schedBoostDisableAll s
    else if 0 < type then schedBoostEnable (.ofNumber type.toNat) s
    else schedBoostDisable (.ofNumber (-type).toNat) s).settle hmpCapable

def schedSetBoost (hmpCapable : Bool) (type : ℤ) (s : BoostSys k) : BoostSys k × ℤ :=
  if s.waltDisabled then (s, -EAGAIN)
  else if verifyBoostParams type then (setBoost hmpCapable type s, 0)
  else (s, -EINVAL)

/-- A disable is effective when more enables than effective disables precede it. -/
def BoostLedger.record (l : BoostLedger) (type : ℤ) : BoostLedger :=
  if type = 0 then ⟨fun _ => 0, fun _ => 0⟩
  else if 0 < type then
    let b := SchedBoost.ofNumber type.toNat
    { l with enables := update l.enables b (l.enables b + 1) }
  else
    let b := SchedBoost.ofNumber (-type).toNat
    if l.disables b < l.enables b then
      { l with disables := update l.disables b (l.disables b + 1) }
    else l

structure BoostCall where
  type : ℤ
  hmpCapable : Bool

def boostStep (s : BoostSys k) (c : BoostCall) : Option (BoostSys k) :=
  some { (schedSetBoost c.hmpCapable c.type s).1 with ledger := s.ledger.record c.type }

/-- Core control is up, with the counts that its other users have left, and no boost yet. -/
def BoostSys.init (base : Fin k → ℕ) : BoostSys k where
  refcount _ := 0
  schedBoostType := .noBoost
  sysctlSchedBoost := .noBoost
  boostPolicy := .schedBoostNone
  schedFreqAggrEn := false
  clusterBoost := base
  waltDisabled := false
  initialized := true
  ledger := ⟨fun _ => 0, fun _ => 0⟩

/-! ### The effective boost -/

theorem schedEffectiveBoost_congr {r r' : SchedBoost → ℤ} (h : ∀ b, 1 ≤ r b ↔ 1 ≤ r' b) :
    schedEffectiveBoost r = schedEffectiveBoost r' := by
  have hp : (fun b => decide (1 ≤ r b)) = fun b => decide (1 ≤ r' b) := by
    funext b
    exact decide_eq_decide.mpr (h b)
  rw [schedEffectiveBoost, schedEffectiveBoost, hp]

def LowestPositive (refcount : SchedBoost → ℤ) (b : SchedBoost) : Prop :=
  (b = .noBoost ∧ ∀ b' ≠ .noBoost, refcount b' ≤ 0) ∨
    (b ≠ .noBoost ∧ 0 < refcount b ∧ ∀ b' ≠ .noBoost, b'.number < b.number → refcount b' ≤ 0)

theorem SchedBoost.mem_fromStart (b : SchedBoost) : b ∈ fromStart ↔ b ≠ .noBoost := by
  cases b <;> decide

theorem lowestPositive_schedEffectiveBoost (refcount : SchedBoost → ℤ) :
    LowestPositive refcount (schedEffectiveBoost refcount) := by
  unfold schedEffectiveBoost
  cases hfind : SchedBoost.fromStart.find? (fun b => decide (1 ≤ refcount b)) with
  | none =>
    left
    refine ⟨rfl, ?_⟩
    intro b hb
    have hnone := find?_eq_none.mp hfind b ((SchedBoost.mem_fromStart b).mpr hb)
    rw [decide_eq_true_eq] at hnone
    omega
  | some b =>
    right
    obtain ⟨hb, before, after, hlist, hbef⟩ := find?_eq_some_iff_append.mp hfind
    have hsrt : SchedBoost.fromStart.Pairwise (·.number < ·.number) := by decide
    rw [hlist] at hsrt
    refine ⟨(SchedBoost.mem_fromStart b).mp (by simp [hlist]), of_decide_eq_true hb, ?_⟩
    intro b' hb' hlt
    rw [getD_some] at hlt
    have hmem : b' ∈ before ++ b :: after := hlist ▸ (SchedBoost.mem_fromStart b').mpr hb'
    rcases mem_append.mp hmem with hin | hin
    · have := hbef b' hin
      simp only [Bool.not_eq_eq_eq_not, Bool.not_true, decide_eq_false_iff_not] at this
      omega
    · rcases mem_cons.mp hin with rfl | hin
      · exact absurd hlt (lt_irrefl _)
      · have := (pairwise_cons.mp (pairwise_append.mp hsrt).2.1).1 b' hin
        omega

/-! ### What the callbacks leave -/

variable {s s' : BoostSys k} {base : Fin k → ℕ}

def SchedBoost.aggregates (b : SchedBoost) : Bool := b = .fullThrottleBoost ∨ b = .restrainedBoost

def SchedBoost.boostsCores (b : SchedBoost) : Bool :=
  b = .fullThrottleBoost ∨ b = .storageBoost ∨ b = .balanceBoost

theorem setClusterBoost_false (count : ℕ) : (setClusterBoost count false).1 = count - 1 := by
  by_cases h : count = 0 <;> simp [setClusterBoost, h]

section
variable (hen : s.waltDisabled = false) (hini : s.initialized = true) (b : SchedBoost)
include hen hini

theorem SchedBoost.enter_eq :
    b.enter s =
      { s with
        schedFreqAggrEn := s.schedFreqAggrEn || b.aggregates
        clusterBoost := fun c =>
          if b.boostsCores then (s.clusterBoost c + 1) % 2 ^ 32 else s.clusterBoost c } := by
  cases s
  subst hen hini
  cases b <;>
    simp [enter, coreCtlSetBoost, waltEnableFrequencyAggregation, setClusterBoost, aggregates, boostsCores]

theorem SchedBoost.exit_eq :
    b.exit s =
      { s with
        schedFreqAggrEn := s.schedFreqAggrEn && !b.aggregates
        clusterBoost := fun c =>
          if b.boostsCores then s.clusterBoost c - 1 else s.clusterBoost c } := by
  cases s
  subst hen hini
  cases b <;>
    simp [exit, coreCtlSetBoost, waltEnableFrequencyAggregation, setClusterBoost_false, aggregates, boostsCores]

end

structure Applied (base : Fin k → ℕ) (s : BoostSys k) (b : SchedBoost) : Prop where
  enabled : s.waltDisabled = false
  initialized : s.initialized = true
  aggr : s.schedFreqAggrEn = b.aggregates
  cores : ∀ c, s.clusterBoost c = base c + b.boostsCores.toNat

theorem Applied.exit {b : SchedBoost} (h : Applied base s b) : Applied base (b.exit s) .noBoost := by
  rw [SchedBoost.exit_eq h.enabled h.initialized]
  refine ⟨h.enabled, h.initialized, ?_, ?_⟩
  · rw [h.aggr]
    cases b.aggregates <;> rfl
  · intro c
    dsimp only
    rw [h.cores c]
    cases b.boostsCores <;> rfl

theorem Applied.enter (hbase : ∀ c, base c + 1 < 2 ^ 32) (h : Applied base s .noBoost) (b : SchedBoost) :
    Applied base (b.enter s) b := by
  rw [SchedBoost.enter_eq h.enabled h.initialized]
  refine ⟨h.enabled, h.initialized, ?_, ?_⟩
  · rw [h.aggr]
    cases b.aggregates <;> rfl
  · intro c
    dsimp only
    rw [h.cores c]
    cases b.boostsCores with
    | false => rfl
    | true => exact Nat.mod_eq_of_lt (hbase c)

theorem Applied.of_effects {b : SchedBoost} (h : Applied base s b) (hen : s'.waltDisabled = s.waltDisabled)
    (hini : s'.initialized = s.initialized) (haggr : s'.schedFreqAggrEn = s.schedFreqAggrEn)
    (hcores : s'.clusterBoost = s.clusterBoost) : Applied base s' b :=
  ⟨hen.trans h.enabled, hini.trans h.initialized, haggr.trans h.aggr, by rw [hcores]; exact h.cores⟩

theorem switchFrom_spec (hbase : ∀ c, base c + 1 < 2 ^ 32) {prev : SchedBoost} (h : Applied base s prev) :
    Applied base (s.switchFrom prev) (schedEffectiveBoost s.refcount) ∧
      (s.switchFrom prev).refcount = s.refcount := by
  unfold BoostSys.switchFrom
  dsimp only
  split_ifs with hsame
  · exact ⟨hsame ▸ h, rfl⟩
  · refine ⟨h.exit.enter hbase _, ?_⟩
    rw [SchedBoost.enter_eq h.exit.enabled h.exit.initialized, SchedBoost.exit_eq h.enabled h.initialized]

/-! ### Runs -/

structure BoostSys.Sound (base : Fin k → ℕ) (s : BoostSys k) : Prop where
  counted : ∀ b, s.refcount b = s.ledger.enables b - s.ledger.disables b
  disabled_le : ∀ b, s.ledger.disables b ≤ s.ledger.enables b
  noBoost : s.refcount .noBoost = 0
  effective : s.schedBoostType = schedEffectiveBoost s.refcount
  applied : Applied base s s.schedBoostType

def CountFits (s : BoostSys k) (c : BoostCall) : Prop :=
  0 < c.type → s.refcount (.ofNumber c.type.toNat) + 1 < 2 ^ 31

instance (s : BoostSys k) (c : BoostCall) : Decidable (CountFits s c) := by
  unfold CountFits
  infer_instance

section
variable (hs : s.Sound base)
include hs

theorem BoostSys.Sound.nonneg (b : SchedBoost) : 0 ≤ s.refcount b := by
  rw [hs.counted b]
  have := hs.disabled_le b
  omega

theorem BoostSys.Sound.effective_setRefcount {b : SchedBoost} {c : ℤ} (h : 1 ≤ c ↔ 1 ≤ s.refcount b) :
    schedEffectiveBoost (s.setRefcount b c).refcount = s.schedBoostType := by
  rw [hs.effective]
  apply schedEffectiveBoost_congr
  intro b'
  by_cases hb' : b' = b
  · subst hb'
    simpa [BoostSys.setRefcount] using h
  · simp [BoostSys.setRefcount, hb']

/-- The effective boost is applied after an enable. -/
theorem schedBoostEnable_spec (hbase : ∀ c, base c + 1 < 2 ^ 32) (b : SchedBoost) (hfit : s.refcount b + 1 < 2 ^ 31) :
    (schedBoostEnable b s).refcount = update s.refcount b (s.refcount b + 1) ∧
      Applied base (schedBoostEnable b s) (schedEffectiveBoost (schedBoostEnable b s).refcount) := by
  have hnn := hs.nonneg b
  have hint : bmod (s.refcount b + 1) (2 ^ 32) = s.refcount b + 1 := by
    apply bmod_eq_of_le <;> omega
  unfold schedBoostEnable
  rw [hint]
  dsimp only
  have happ : Applied base (s.setRefcount b (s.refcount b + 1)) s.schedBoostType :=
    hs.applied.of_effects rfl rfl rfl rfl
  split_ifs with hone
  · refine ⟨rfl, ?_⟩
    simp only [BoostSys.setRefcount, update_self] at hone
    rw [hs.effective_setRefcount (by omega)]
    exact happ
  · obtain ⟨happ', hcnt⟩ := switchFrom_spec hbase happ
    rw [hcnt]
    exact ⟨rfl, happ'⟩

/-- The effective boost is applied after a disable. -/
theorem schedBoostDisable_spec (hbase : ∀ c, base c + 1 < 2 ^ 32) (b : SchedBoost) :
    (schedBoostDisable b s).refcount =
        (if s.refcount b ≤ 0 then s.refcount else update s.refcount b (s.refcount b - 1)) ∧
      Applied base (schedBoostDisable b s) (schedEffectiveBoost (schedBoostDisable b s).refcount) := by
  unfold schedBoostDisable
  dsimp only
  have happ : Applied base (s.setRefcount b (s.refcount b - 1)) s.schedBoostType :=
    hs.applied.of_effects rfl rfl rfl rfl
  split_ifs with hzero hlast
  · exact ⟨rfl, hs.effective ▸ hs.applied⟩
  · refine ⟨rfl, ?_⟩
    simp only [BoostSys.setRefcount, update_self] at hlast
    rw [hs.effective_setRefcount (by omega)]
    exact happ
  · obtain ⟨happ', hcnt⟩ := switchFrom_spec hbase happ
    rw [hcnt]
    exact ⟨rfl, happ'⟩

theorem schedBoostDisableAll_spec :
    (schedBoostDisableAll s).refcount = (fun _ => 0) ∧ Applied base (schedBoostDisableAll s) .noBoost := by
  unfold schedBoostDisableAll
  split_ifs with hbo
  · refine ⟨?_, hs.applied.exit.of_effects rfl rfl rfl rfl⟩
    funext b
    rw [SchedBoost.exit_eq hs.applied.enabled hs.applied.initialized]
    by_cases hb : b = .noBoost
    · subst hb
      simpa [SchedBoost.mem_fromStart] using hs.noBoost
    · simp [SchedBoost.mem_fromStart, hb]
  · rw [not_not] at hbo
    refine ⟨?_, hbo ▸ hs.applied⟩
    -- nothing is in force, so no count is positive
    funext b
    rcases lowestPositive_schedEffectiveBoost s.refcount with ⟨-, hnone⟩ | ⟨hsome, -⟩
    · by_cases hb : b = .noBoost
      · exact hb ▸ hs.noBoost
      · exact le_antisymm (hnone b hb) (hs.nonneg b)
    · exact absurd (hs.effective ▸ hbo) hsome

end

theorem SchedBoost.ofNumber_ne_noBoost (h : 0 < m) : ofNumber m ≠ .noBoost := by
  unfold ofNumber
  split <;> simp_all

theorem sound_settle {l : BoostLedger} (happ : Applied base s (schedEffectiveBoost s.refcount))
    (hcnt : ∀ b, s.refcount b = l.enables b - l.disables b) (hle : ∀ b, l.disables b ≤ l.enables b)
    (hno : s.refcount .noBoost = 0) (hmpCapable : Bool) :
    BoostSys.Sound base { s.settle hmpCapable with ledger := l } :=
  ⟨hcnt, hle, hno, rfl, happ.of_effects rfl rfl rfl rfl⟩

section
variable (hbase : ∀ c, base c + 1 < 2 ^ 32) (hs : s.Sound base) {type : ℤ} (hmpCapable : Bool)
include hbase hs

theorem sound_enable (htype : 0 < type) (hfit : s.refcount (.ofNumber type.toNat) + 1 < 2 ^ 31) :
    BoostSys.Sound base
      { (schedBoostEnable (.ofNumber type.toNat) s).settle hmpCapable with
        ledger := s.ledger.record type } := by
  obtain ⟨hcnt, happ⟩ := schedBoostEnable_spec hs hbase _ hfit
  have hne : SchedBoost.ofNumber type.toNat ≠ .noBoost := by
    apply SchedBoost.ofNumber_ne_noBoost
    omega
  refine sound_settle happ (fun b => ?_) (fun b => ?_) (by rw [hcnt, update_of_ne hne.symm, hs.noBoost]) hmpCapable
  all_goals
    have hold := hs.counted b
    have hle := hs.disabled_le b
    simp only [hcnt, BoostLedger.record, if_neg htype.ne', if_pos htype, update_apply]
    split_ifs with hb
    · subst hb
      omega
    · assumption

theorem sound_disable (htype : type < 0) :
    BoostSys.Sound base
      { (schedBoostDisable (.ofNumber (-type).toNat) s).settle hmpCapable with
        ledger := s.ledger.record type } := by
  obtain ⟨hcnt, happ⟩ := schedBoostDisable_spec hs hbase (.ofNumber (-type).toNat)
  have hne : SchedBoost.ofNumber (-type).toNat ≠ .noBoost := by
    apply SchedBoost.ofNumber_ne_noBoost
    omega
  have hown := hs.counted (.ofNumber (-type).toNat)
  rw [BoostLedger.record, if_neg htype.ne, if_neg htype.not_gt]
  -- a disable is effective exactly when it finds a positive count
  by_cases hzero : s.refcount (.ofNumber (-type).toNat) ≤ 0
  · rw [if_pos hzero] at hcnt
    rw [if_neg (by omega)]
    exact sound_settle happ (hcnt ▸ hs.counted) hs.disabled_le (hcnt ▸ hs.noBoost) hmpCapable
  · rw [if_neg hzero] at hcnt
    rw [if_pos (by omega)]
    refine sound_settle happ (fun b => ?_) (fun b => ?_) (by rw [hcnt, update_of_ne hne.symm, hs.noBoost]) hmpCapable
    all_goals
      have hold := hs.counted b
      have hle := hs.disabled_le b
      simp only [hcnt, update_apply]
      split_ifs with hb
      · subst hb
        omega
      · assumption

end

theorem sound_disableAll (hs : s.Sound base) (hmpCapable : Bool) :
    BoostSys.Sound base
      { (schedBoostDisableAll s).settle hmpCapable with ledger := s.ledger.record 0 } := by
  obtain ⟨hcnt, happ⟩ := schedBoostDisableAll_spec hs
  have hnone : schedEffectiveBoost (schedBoostDisableAll s).refcount = .noBoost := by
    rw [hcnt]
    rfl
  refine sound_settle (hnone ▸ happ) ?_ ?_ (by rw [hcnt]) hmpCapable
  · rw [hcnt]
    simp [BoostLedger.record]
  · simp [BoostLedger.record]

/-- A call within `[-5, 5]` that does not run into the end of the `int`. -/
def BoostCallOk (s : BoostSys k) (c : BoostCall) : Prop :=
  (-5 ≤ c.type ∧ c.type ≤ 5) ∧ CountFits s c

instance (s : BoostSys k) (c : BoostCall) : Decidable (BoostCallOk s c) := by
  unfold BoostCallOk
  infer_instance

theorem sound_boostStep (hbase : ∀ c, base c + 1 < 2 ^ 32) (s : BoostSys k) (c : BoostCall)
    (s' : BoostSys k) (hs : s.Sound base) (hc : BoostCallOk s c) (h : boostStep s c = some s') :
    s'.Sound base := by
  cases h
  have hverify : verifyBoostParams c.type = true := decide_eq_true hc.1
  have hset : (schedSetBoost c.hmpCapable c.type s).1 = setBoost c.hmpCapable c.type s := by
    simp [schedSetBoost, hs.applied.enabled, hverify]
  rw [hset, setBoost]
  rcases lt_trichotomy c.type 0 with hneg | hzero | hpos
  · rw [if_neg hneg.ne, if_neg hneg.not_gt]
    exact sound_disable hbase hs _ hneg
  · rw [hzero]
    exact sound_disableAll hs _
  · rw [if_neg hpos.ne', if_pos hpos]
    exact sound_enable hbase hs _ hpos (hc.2 hpos)

/-- After every sequence of calls within `[-5, 5]` that enables no boost beyond `INT_MAX`, the counts are
enables minus effective disables since the last disable-all, the type is the lowest-numbered boost with a
positive count, and aggregation and the clusters' counts carry exactly its effects. -/
theorem boost_effects_match {base : Fin k → ℕ} (hbase : ∀ c, base c + 1 < 2 ^ 32)
    {calls : List BoostCall} {s : BoostSys k}
    (hok : Meets boostStep BoostCallOk (.init base) calls)
    (hrun : run boostStep (.init base) calls = some s) :
    (∀ b, s.refcount b = s.ledger.enables b - s.ledger.disables b) ∧
      LowestPositive s.refcount s.schedBoostType ∧
      (s.schedFreqAggrEn = true ↔ s.schedBoostType = .fullThrottleBoost ∨ s.schedBoostType = .restrainedBoost) ∧
      ∀ c, s.clusterBoost c = base c +
        if s.schedBoostType = .fullThrottleBoost ∨ s.schedBoostType = .storageBoost ∨
          s.schedBoostType = .balanceBoost then 1 else 0 := by
  have hinit : (BoostSys.init base).Sound base :=
    ⟨fun _ => rfl, fun _ => le_rfl, rfl, rfl, rfl, rfl, rfl, fun _ => rfl⟩
  have hs := run_inv (sound_boostStep hbase) hinit hok hrun
  refine ⟨hs.counted, hs.effective ▸ lowestPositive_schedEffectiveBoost _, ?_, ?_⟩
  · rw [hs.applied.aggr]
    exact decide_eq_true_iff
  · intro c
    rw [hs.applied.cores c, SchedBoost.boostsCores]
    split_ifs with hcores
    · simp [hcores]
    · simp [hcores]

def boostTrace : List BoostCall :=
  [⟨1, true⟩, ⟨4, true⟩, ⟨-1, true⟩, ⟨-1, true⟩, ⟨3, true⟩, ⟨0, true⟩, ⟨5, true⟩]

/-- Full throttle, storage, the first one dropped twice, restrained, everything dropped, balance. -/
theorem boost_effects_match_boostTrace :
    ∃ s : BoostSys 2, run boostStep (.init fun _ => 2) boostTrace = some s ∧
      s.schedBoostType = .balanceBoost ∧ s.clusterBoost 0 = 2 + 1 :=
  ⟨_, (some_get (by decide)).symm, by decide,
    (boost_effects_match (by decide) (by decide) (some_get (by decide)).symm).2.2.2 0⟩

section
variable (hs : s.Sound base) (hoth : ∀ b ≠ .fullThrottleBoost, s.refcount b = 0)
include hs hoth

theorem enable_again (hbase : ∀ c, base c + 1 < 2 ^ 32) (hfit : s.refcount .fullThrottleBoost + 1 < 2 ^ 31) :
    ∃ s', boostStep s ⟨1, true⟩ = some s' ∧ s'.Sound base ∧
      s'.refcount .fullThrottleBoost = s.refcount .fullThrottleBoost + 1 ∧
      ∀ b ≠ .fullThrottleBoost, s'.refcount b = 0 := by
  have hset : (schedSetBoost true 1 s).1.refcount = (schedBoostEnable .fullThrottleBoost s).refcount := by
    simp [schedSetBoost, hs.applied.enabled, verifyBoostParams, setBoost, BoostSys.settle, SchedBoost.ofNumber]
  have hcnt := (schedBoostEnable_spec hs hbase .fullThrottleBoost hfit).1
  refine ⟨_, rfl, sound_boostStep hbase s ⟨1, true⟩ _ hs ⟨by decide, fun _ => hfit⟩ rfl, ?_, ?_⟩
  · rw [hset, hcnt, update_self]
  · intro b hb
    rw [hset, hcnt, update_of_ne hb, hoth b hb]

/-- The count turns negative, and with it the type, while the effects stay in force. -/
theorem enable_overflow (hmax : s.refcount .fullThrottleBoost = 2 ^ 31 - 1) :
    ∃ s', boostStep s ⟨1, true⟩ = some s' ∧ s'.refcount .fullThrottleBoost = -2 ^ 31 ∧
      s'.ledger.enables .fullThrottleBoost - s'.ledger.disables .fullThrottleBoost = 2 ^ 31 ∧
      s'.schedBoostType = .noBoost ∧ s'.schedFreqAggrEn = true := by
  have hbmod : bmod (s.refcount .fullThrottleBoost + 1) (2 ^ 32) = -2 ^ 31 := by
    rw [hmax]
    decide
  have henable : schedBoostEnable .fullThrottleBoost s = s.setRefcount .fullThrottleBoost (-2 ^ 31) := by
    unfold schedBoostEnable
    rw [hbmod]
    simp [BoostSys.setRefcount]
  have hset : (schedSetBoost true 1 s).1 = (s.setRefcount .fullThrottleBoost (-2 ^ 31)).settle true := by
    simp [schedSetBoost, hs.applied.enabled, verifyBoostParams, setBoost, SchedBoost.ofNumber, henable]
  have htype : s.schedBoostType = .fullThrottleBoost := by
    rw [hs.effective]
    simp [schedEffectiveBoost, SchedBoost.fromStart, hmax]
  refine ⟨_, rfl, ?_, ?_, ?_, ?_⟩
  · simp [hset, BoostSys.settle, BoostSys.setRefcount]
  · have hcnt := hs.counted .fullThrottleBoost
    have henables : (s.ledger.record 1).enables .fullThrottleBoost = s.ledger.enables .fullThrottleBoost + 1 := by
      simp [BoostLedger.record, SchedBoost.ofNumber]
    have hdisables : (s.ledger.record 1).disables = s.ledger.disables := by
      simp [BoostLedger.record]
    rw [henables, hdisables]
    omega
  · simp [hset, BoostSys.settle, BoostSys.setRefcount, schedEffectiveBoost, SchedBoost.fromStart, hoth]
  · rw [hset]
    exact hs.applied.aggr.trans (by rw [htype]; rfl)

end

/-- By induction on the enables that are left. -/
theorem enable_until_overflow (hbase : ∀ c, base c + 1 < 2 ^ 32) (m : ℕ) :
    ∀ s : BoostSys k, s.Sound base → s.refcount .fullThrottleBoost + m = 2 ^ 31 - 1 →
      (∀ b ≠ .fullThrottleBoost, s.refcount b = 0) →
      ∃ s', run boostStep s (replicate (m + 1) ⟨1, true⟩) = some s' ∧
        s'.refcount .fullThrottleBoost = -2 ^ 31 ∧
        s'.ledger.enables .fullThrottleBoost - s'.ledger.disables .fullThrottleBoost = 2 ^ 31 ∧
        s'.schedBoostType = .noBoost ∧ s'.schedFreqAggrEn = true := by
  induction m with
  | zero =>
    intro s hs hmax hoth
    obtain ⟨s', hstep, hrest⟩ := enable_overflow hs hoth (by omega)
    exact ⟨s', by simp [run, hstep], hrest⟩
  | succ m ih =>
    intro s hs hmax hoth
    obtain ⟨t, hstep, ht, hcnt, hoth'⟩ := enable_again hs hoth hbase (by omega)
    obtain ⟨s', hrun, hrest⟩ := ih t ht (by omega) hoth'
    exact ⟨s', by rw [replicate_succ, run, hstep]; exact hrun, hrest⟩

/-- After `2 ^ 31` enables of full throttle its count is negative: the boost no longer counts as enabled,
with its effects in force. -/
theorem boost_refcount_overflows :
    ∃ s : BoostSys 1,
      run boostStep (.init fun _ => 0) (List.replicate (2 ^ 31) ⟨1, true⟩) = some s ∧
      s.refcount .fullThrottleBoost = -2 ^ 31 ∧
      s.ledger.enables .fullThrottleBoost - s.ledger.disables .fullThrottleBoost = 2 ^ 31 ∧
      s.schedBoostType = .noBoost ∧ s.schedFreqAggrEn = true := by
  have h := @enable_until_overflow 1 (fun _ => 0) (by decide) (2 ^ 31 - 1)
    (.init fun _ => 0) ⟨fun _ => rfl, fun _ => le_rfl, rfl, rfl, rfl, rfl, rfl, fun _ => rfl⟩
    (by simp [BoostSys.init]) (fun _ _ => rfl)
  rwa [Nat.sub_add_cancel (by decide)] at h

/-! ### Re-evaluation of the clusters -/

def boostStateChanged (boost : Bool) (count : ℕ) (changed : Bool) : Bool :=
  if boost then count = 0 else if count = 0 then changed else count - 1 = 0

inductive CoreBoostCall where
  | all (boost : Bool)
  /-- `core_ctl_set_cluster_boost`; `idx` is what the comparison with `num_clusters` makes of it. -/
  | cluster (idx : ℕ) (boost : Bool)

namespace CoreBoostCall

def counts (s : BoostSys k) : CoreBoostCall → Fin k → ℕ
  | all boost => (coreCtlSetBoost boost s).clusterBoost
  | cluster idx boost => fun c =>
    if c = idx then (setClusterBoost (s.clusterBoost c) boost).1 else s.clusterBoost c

def reevaluates (s : BoostSys k) : CoreBoostCall → Fin k → Bool
  | all boost, _ => !s.waltDisabled && s.initialized &&
    (finRange k).foldl (fun changed c => boostStateChanged boost (s.clusterBoost c) changed) false
  | cluster idx boost, c => c = idx && boostStateChanged boost (s.clusterBoost c) false

def Switches (s : BoostSys k) (call : CoreBoostCall) (c : Fin k) : Prop :=
  ¬(s.clusterBoost c = 0 ↔ call.counts s c = 0)

def lastSet (s : BoostSys k) (boost : Bool) : Option (Fin k) :=
  (finRange k).reverse.find? fun c => boost || s.clusterBoost c ≠ 0

theorem foldl_boostStateChanged (s : BoostSys k) (boost : Bool) :
    (finRange k).foldl (fun changed c => boostStateChanged boost (s.clusterBoost c) changed) false =
      (lastSet s boost).any fun c => s.clusterBoost c = if boost then 0 else 1 := by
  rw [foldl_eq_foldr_reverse, lastSet]
  induction (finRange k).reverse with
  | nil => rfl
  | cons c cs ih =>
    rw [foldr_cons, ih, boostStateChanged]
    cases boost with
    | true => simp
    | false => by_cases hzero : s.clusterBoost c = 0 <;> simp [hzero, Nat.sub_eq_iff_eq_add, Nat.one_le_iff_ne_zero]

/-- A call for all clusters notices what the last cluster that sets the flag does; a call for one cluster misses
only the overflow of its count. -/
theorem boost_reevaluates_iff (s : BoostSys k) (call : CoreBoostCall) :
    (∀ c, call.Switches s c → call.reevaluates s c = true) ↔
      match call with
      | all boost => (∃ c, call.Switches s c) →
        (lastSet s boost).any fun c => s.clusterBoost c = if boost then 0 else 1
      | cluster idx boost => ∀ c : Fin k, c = idx → boost = true → s.clusterBoost c ≠ 0 →
        (s.clusterBoost c + 1) % 2 ^ 32 ≠ 0 := by
  cases call with
  | all boost =>
    by_cases hon : s.waltDisabled = false ∧ s.initialized = true
    · simp [reevaluates, hon.1, hon.2, foldl_boostStateChanged]
    · have hnone (c : Fin k) : ¬(all boost).Switches s c := by
        simp only [Switches, counts, coreCtlSetBoost]
        split_ifs <;> simp_all
      simp [hnone]
  | cluster idx boost =>
    refine forall_congr' fun c => ?_
    by_cases hidx : c = idx
    · cases boost with
      | true =>
        by_cases hzero : s.clusterBoost c = 0 <;>
          simp [Switches, counts, reevaluates, boostStateChanged, setClusterBoost, hidx, hzero]
      | false =>
        simp only [Switches, counts, reevaluates, boostStateChanged, setClusterBoost_false, hidx]
        grind
    · simp [Switches, counts, hidx]

def ownBoost : BoostSys 2 := .init ((cluster 1 true).counts (.init fun _ => 0))

/-- The second cluster has been boosted by itself. -/
theorem boost_not_reevaluated :
    ownBoost.clusterBoost 0 = 0 ∧ (all true).counts ownBoost 0 = 1 ∧ (all true).reevaluates ownBoost 0 = false := by
  decide

end CoreBoostCall

end VendorKernel.Walt

import VendorKernel.Walt.TopSystem

/-! The top-task tables count what is recorded: every call acts on the tables of a runqueue as the table
operations do on its ledger. -/
namespace VendorKernel.Walt

open Machine Sys WaltTask Function WaltRq Option

variable {τ : Type*} {n prevWindow : ℕ} {T : Prop}

/-! ### The window of a runqueue moves on -/

section
variable {s : Sys τ n} {r i : Fin n} {t k : ℕ}

def Sys.rolled (s : Sys τ n) (r : Fin n) (t : ℕ) (rq : WaltRq) : Sys τ n :=
  { s with clock := t, rq := update s.rq r rq }

theorem ledger_rolled_of_ne (hi : i ≠ r) (rq : WaltRq) : (s.rolled r t rq).ledger i = s.ledger i := by
  simp [ledger, rolled, hi]

section
variable {p : WaltTask n} {rq : WaltRq} {W k : ℕ}

section
variable (hk : k ≠ 0) (hW : 0 < W) (hle : p.RecordedOn r → p.windowStart ≤ rq.windowStart)
include hk hW hle

theorem currOn_advance : p.currOn r (rq.advance W k) = 0 := by
  apply if_neg
  rintro ⟨hrec, heq⟩
  have hlate : W ≤ k * W := Nat.le_mul_of_pos_left _ (Nat.pos_of_ne_zero hk)
  have := hle hrec
  rw [advance_windowStart] at heq
  omega

theorem prevOn_advance : p.prevOn r (rq.advance W k) = if k > 1 then 0 else p.currOn r rq := by
  unfold prevOn currOn
  by_cases hrec : p.RecordedOn r
  · have hQ := hle hrec
    have hsize : (rq.advance W k).prevWindowSize = W := rfl
    simp only [hrec, if_true, true_and, advance_windowStart, hsize]
    by_cases h1 : k = 1
    · subst h1
      rw [if_neg (by omega), if_neg (show ¬1 > 1 by decide)]
      exact if_congr (by omega) rfl rfl
    · have htwo : 2 * W ≤ k * W := Nat.mul_le_mul_right _ (by omega)
      rw [if_neg (by omega), if_neg (by omega), if_pos (by omega)]
  · simp [hrec]

end

end

theorem ledger_rolled_advance [DecidableEq τ] (hk : k ≠ 0) (hW : 0 < s.schedRavgWindow)
    (hpl : ∀ q, (s.task q).RecordedOn r → (s.task q).windowStart ≤ (s.rq r).windowStart) :
    topStep (s.ledger r) (.rollover (k > 1)) =
      (s.rolled r t ({ s.rq r with latestClock := t }.advance s.schedRavgWindow k)).ledger r := by
  have hcurr : ∀ q, (s.task q).currOn r ({ s.rq r with latestClock := t }.advance s.schedRavgWindow k) = 0 := fun q =>
    currOn_advance hk hW (hpl q)
  have hprev : ∀ q, (s.task q).prevOn r
      ({ s.rq r with latestClock := t }.advance s.schedRavgWindow k) =
        if k > 1 then 0 else (s.task q).currOn r (s.rq r) := fun q =>
    prevOn_advance hk hW (hpl q)
  simp only [topStep, ledger, rolled, update_self, hcurr, hprev, TopLedger.mk.injEq, true_and]
  refine ⟨rfl, ?_⟩
  by_cases h1 : k > 1
  · simp [h1]
  · simp [h1]

theorem windows_rolled {rq : WaltRq}
    (hrq : rq = if k = 0 then { s.rq r with latestClock := t }
      else { s.rq r with latestClock := t }.advance s.schedRavgWindow k) :
    (s.rolled r t rq).windows = s.windows.roll r k t := by
  have hini : rq.windowStart = (s.rq r).windowStart + k * s.schedRavgWindow := by
    by_cases h0 : k = 0 <;> simp [hrq, h0]
  have hsize : rq.prevWindowSize = if k = 0 then (s.rq r).prevWindowSize else s.schedRavgWindow := by
    by_cases h0 : k = 0
    · simp [hrq, h0]
    · simp only [hrq, h0, if_false]
      rfl
  simp only [windows, rolled, Windows.roll, Windows.mk.injEq, true_and]
  refine ⟨funext fun i => ?_, funext fun i => ?_⟩ <;> by_cases hi : i = r
  · subst hi
    simp [hini]
  · simp [hi]
  · subst hi
    by_cases h0 : k = 0 <;> simp [hsize, h0]
  · by_cases h0 : k = 0 <;> simp [hi, h0]

/-- The tables are rolled over with the window. -/
theorem inv_rolled [Fintype τ] [DecidableEq τ] (h : s.Inv T) (hle : s.clock ≤ t) (ht : t < 2 ^ 64)
    (hfit : (s.rq r).WindowsFit s.schedRavgWindow t) {rq : WaltRq}
    (hrq : updateWindowStart s.schedRavgWindow (s.rq r) t = some rq) :
    (s.rolled r t rq).Inv T ∧ t < rq.windowStart + s.schedRavgWindow := by
  obtain ⟨-, k, hlo, hhi, hk⟩ :=
    updateWindowStart_cases h.window_pos h.window_lt ((h.start_le r).trans hle) ht hfit hrq
  have hwin := windows_rolled hk
  have hpl : ∀ q, (s.task q).RecordedOn r → (s.task q).windowStart ≤ (s.rq r).windowStart := by
    rintro q ⟨hidle, h0, rfl⟩
    rcases (h.placed q hidle).recorded h0 with ⟨hQ, -⟩ | ⟨-, hQ, -⟩
    · exact hQ.le
    · exact hQ.le
  have hldg : ∀ i, ((s.rolled r t rq).ledger i).Kept T ∧ ((s.rolled r t rq).ledger i).Fits := by
    intro i
    by_cases hi : i = r
    swap
    · rw [ledger_rolled_of_ne hi]
      exact ⟨h.kept i, h.fits i⟩
    subst hi
    by_cases h0 : k = 0
    · have hsame : (s.rolled i t rq).ledger i = s.ledger i := by
        simp [ledger, rolled, hk, h0, currOn, prevOn]
      rw [hsame]
      exact ⟨h.kept i, h.fits i⟩
    · have hstep := ledger_rolled_advance (t := t) h0 h.window_pos hpl
      rw [if_neg h0] at hk
      rw [← hk] at hstep
      have hfits := fits_rollover (h.fits i) (k > 1)
      exact hstep ▸ ⟨topKept_step (h.kept i) (h.fits i) trivial trivial (fun _ => trivial) hfits, hfits⟩
  refine ⟨⟨?_, ?_, fun i => (hldg i).1, fun i => (hldg i).2⟩, ?_⟩
  · rw [hwin]
    exact h.windows.roll hle hlo
  · intro q hidle
    rw [hwin]
    exact (h.placed q hidle).roll h.windows hle
  · have hini' := congrArg (fun w => w.start r) hwin
    simp only [windows, rolled, Windows.roll, update_self] at hini'
    omega

end

/-! ### One task changes on one runqueue -/

section
variable [DecidableEq τ] {s : Sys τ n} {q : τ} {v : RqsTask n} {c i : Fin n} {rq x : WaltRq} {p : WaltTask n}

def SameWindowsAs (rq rq' : Fin n → WaltRq) : Prop :=
  ∀ i, (rq' i).windowStart = (rq i).windowStart ∧ (rq' i).prevWindowSize = (rq i).prevWindowSize

theorem SameWindowsAs.update {rq : Fin n → WaltRq} (hws : x.windowStart = (rq c).windowStart)
    (hsize : x.prevWindowSize = (rq c).prevWindowSize) : SameWindowsAs rq (update rq c x) := by
  intro i
  by_cases hi : i = c
  · subst hi
    simp [hws, hsize]
  · simp [hi]

theorem windows_put (hws : SameWindowsAs s.rq v.rq) : (s.put q s.clock v).windows = s.windows := by
  simp only [windows, put, Windows.mk.injEq, true_and]
  exact ⟨funext fun i => (hws i).1, funext fun i => (hws i).2⟩

theorem ledger_put (hws : SameWindowsAs s.rq v.rq) (i : Fin n) :
    (s.put q s.clock v).ledger i =
      ⟨(v.rq i).top, update (s.ledger i).curr q (v.p.currOn i (s.rq i)),
        update (s.ledger i).prev q (v.p.prevOn i (s.rq i))⟩ := by
  simp only [ledger, put, TopLedger.mk.injEq, true_and]
  refine ⟨funext fun q' => ?_, funext fun q' => ?_⟩ <;> by_cases hq : q' = q
  · simp [hq, currOn, (hws i).1]
  · simp [hq, currOn, (hws i).1]
  · simp [hq, prevOn, (hws i).1, (hws i).2]
  · simp [hq, prevOn, (hws i).1, (hws i).2]

theorem currOn_of_not_recordedOn (h : ¬p.RecordedOn c) : p.currOn c rq = 0 := by
  simp [currOn, h]

theorem prevOn_of_not_recordedOn (h : ¬p.RecordedOn c) : p.prevOn c rq = 0 := by
  simp [prevOn, h]

theorem ledger_put_eq (hws : SameWindowsAs s.rq v.rq) (htop : (v.rq i).top = (s.rq i).top)
    (hcurr : v.p.currOn i (s.rq i) = (s.task q).currOn i (s.rq i))
    (hprev : v.p.prevOn i (s.rq i) = (s.task q).prevOn i (s.rq i)) : (s.put q s.clock v).ledger i = s.ledger i := by
  have hc : update (s.ledger i).curr q (v.p.currOn i (s.rq i)) = (s.ledger i).curr :=
    update_eq_self_iff.mpr hcurr
  have hp : update (s.ledger i).prev q (v.p.prevOn i (s.rq i)) = (s.ledger i).prev :=
    update_eq_self_iff.mpr hprev
  rw [ledger_put hws, htop, hc, hp]
  rfl

variable [Fintype τ]

section
variable (h : s.Inv T) (hws : SameWindowsAs s.rq v.rq) (hpl : v.p.idle = false → Placed s.windows v.p)
include h hws hpl

theorem inv_put_of_ledger
    (hldg : ∀ i, ((s.put q s.clock v).ledger i).Kept T) (hfits : (s.put q s.clock v).Fits) :
    (s.put q s.clock v).Inv T := by
  have hwin := windows_put (q := q) hws
  refine ⟨hwin ▸ h.windows, ?_, hldg, hfits⟩
  intro q' hidle
  rw [hwin]
  by_cases hq : q' = q
  · subst hq
    simp only [put, update_self] at hidle ⊢
    exact hpl hidle
  · simp only [put, ne_eq, hq, not_false_eq_true, update_of_ne] at hidle ⊢
    exact h.placed q' hidle

theorem inv_put (htop : ∀ i, i ≠ c → (v.rq i).top = (s.rq i).top)
    (hold : ∀ i, i ≠ c → ¬(s.task q).RecordedOn i) (hnew : ∀ i, i ≠ c → ¬v.p.RecordedOn i)
    (hkept : ((s.put q s.clock v).ledger c).Kept T) (hfits : (s.put q s.clock v).Fits) :
    (s.put q s.clock v).Inv T := by
  refine inv_put_of_ledger h hws hpl ?_ hfits
  intro i
  by_cases hi : i = c
  · exact hi ▸ hkept
  · rw [ledger_put_eq hws (htop i hi)
      ((currOn_of_not_recordedOn (hnew i hi)).trans (currOn_of_not_recordedOn (hold i hi)).symm)
      ((prevOn_of_not_recordedOn (hnew i hi)).trans (prevOn_of_not_recordedOn (hold i hi)).symm)]
    exact h.kept i

theorem inv_put_same (htop : ∀ i, (v.rq i).top = (s.rq i).top)
    (hcurr : ∀ i, v.p.currOn i (s.rq i) = (s.task q).currOn i (s.rq i))
    (hprev : ∀ i, v.p.prevOn i (s.rq i) = (s.task q).prevOn i (s.rq i)) :
    (s.put q s.clock v).Inv T := by
  have hsame : ∀ i, (s.put q s.clock v).ledger i = s.ledger i := fun i =>
    ledger_put_eq hws (htop i) (hcurr i) (hprev i)
  refine inv_put_of_ledger h hws hpl ?_ ?_
  · intro i
    rw [hsame]
    exact h.kept i
  · intro i
    rw [hsame]
    exact h.fits i

theorem inv_put_unrecorded (htop : ∀ i, (v.rq i).top = (s.rq i).top)
    (hold : ∀ i, ¬(s.task q).RecordedOn i) (hnew : ∀ i, ¬v.p.RecordedOn i) : (s.put q s.clock v).Inv T := by
  apply inv_put_same h hws hpl htop
  · intro i
    rw [currOn_of_not_recordedOn (hnew i), currOn_of_not_recordedOn (hold i)]
  · intro i
    rw [prevOn_of_not_recordedOn (hnew i), prevOn_of_not_recordedOn (hold i)]

end

end

/-! ### Accounting calls -/

section
variable {s : Sys τ n} {q : τ} {e : RavgEvent} {p : WaltTask n} {i : Fin n}

theorem updateIssued_of_placed (hp : p = s.task q) (hidle : p.idle = false) (h0 : p.enqueueAfterMigration = 0)
    (h : Placed s.windows p) (rq : WaltRq) (hws : rq.windowStart = (s.rq p.cpu).windowStart)
    (hsize : rq.prevWindowSize = (s.rq p.cpu).prevWindowSize)
    (hprev : newWindow rq p = false → prevWindow = p.prevWindow) :
    UpdateIssued (s.ledger p.cpu) q p.currWindow prevWindow (newWindow rq p) (fullWindow rq p) := by
  have hrec : p.RecordedOn p.cpu := ⟨hidle, h0, rfl⟩
  unfold UpdateIssued
  simp only [ledger, ← hp, currOn, prevOn, hrec, true_and, if_true]
  rcases h.recorded h0 with ⟨hQ, hm, -⟩ | ⟨hm, hQ, hback⟩
  · dsimp only [windows] at hQ hm
    have hnew : newWindow rq p = false := by
      simpa [newWindow, hws] using hm
    rw [if_pos hnew]
    simp [hQ, hprev hnew]
  · dsimp only [windows] at hQ hm hback
    have hnew : newWindow rq p = true := by simpa [newWindow, hws] using hm
    simp only [hnew, Bool.true_eq_false, if_false, hQ.ne, true_and]
    by_cases hzero : p.currWindow = 0
    · simp [hzero]
    · by_cases hgone : p.windowStart + (s.rq p.cpu).prevWindowSize = (s.rq p.cpu).windowStart
      · have hshort := (hback hzero).mpr hgone
        rw [if_pos hgone]
        simp [fullWindow, hnew, hws, hsize, hshort]
      · have hlong : ¬_ := fun hshort => hgone ((hback hzero).mp hshort)
        rw [if_neg hgone, if_pos]
        simpa [fullWindow, hnew, hws, hsize] using hlong

def WaltRq.withScale (rq : WaltRq) (scale : ℕ) : WaltRq := { rq with taskExecScale := scale }

def Sys.charged (s : Sys τ n) (q : τ) (e : RavgEvent) : RqsTask n :=
  let p := s.task q
  let r := updateCpuBusyTime ((s.rq p.cpu).withScale e.taskExecScale) p.cpu p e
  ⟨update s.rq p.cpu r.1, { r.2 with markStart := e.wallclock }⟩

/-- After a full window the entry that the charge makes for a recorded task is not below `prev_top`. -/
def Sys.EntersAtTop (s : Sys τ n) (q : τ) (e : RavgEvent) : Prop :=
  (s.task q).RecordedOn (s.task q).cpu → fullWindow (s.rq (s.task q).cpu) (s.task q) = true →
    (s.charged q e).p.prevWindow ≠ 0 →
    (s.rq (s.task q).cpu).top.prevTop ≤ loadToIndex (s.charged q e).p.prevWindow

/-- The same for an accounting call, unless it returns early or only sets the mark. -/
def Sys.KeepsTop (s : Sys τ n) (q : τ) (e : RavgEvent) : Prop :=
  (s.task q).markStart ≠ 0 → (s.task q).markStart ≠ e.wallclock →
    ∀ rq, updateWindowStart s.schedRavgWindow (s.rq (s.task q).cpu) e.wallclock = some rq →
      (s.rolled (s.task q).cpu e.wallclock rq).EntersAtTop q e

instance (s : Sys τ n) (q : τ) (e : RavgEvent) : Decidable (s.EntersAtTop q e) :=
  inferInstanceAs (Decidable (_ → _ → _ → _ ≤ _))

instance (s : Sys τ n) (q : τ) (e : RavgEvent) : Decidable (s.KeepsTop q e) :=
  inferInstanceAs (Decidable (_ → _ → ∀ rq ∈ updateWindowStart _ _ _, EntersAtTop _ q e))

theorem charged_sameWindows (s : Sys τ n) (q : τ) (e : RavgEvent) : SameWindowsAs s.rq (s.charged q e).rq :=
  SameWindowsAs.update (by simp [withScale]) (by simp [withScale])

theorem charged_top_of_ne (hi : i ≠ (s.task q).cpu) : ((s.charged q e).rq i).top = (s.rq i).top := by
  simp [charged, hi]

theorem not_recordedOn_of_ne (hi : i ≠ p.cpu) : ¬p.RecordedOn i :=
  fun h => hi h.2.2.symm

variable [Fintype τ]

section
variable (h : s.Inv T) (hidle : (s.task q).idle = false) (hck : e.wallclock = s.clock)
  (hlt : s.clock < (s.rq (s.task q).cpu).windowStart + s.schedRavgWindow) (hsc : e.taskExecScale ≤ 1024)
include h hidle hck hlt hsc

theorem placed_charged :
    Placed s.windows (s.charged q e).p ∧ (s.charged q e).p.windowStart = (s.rq (s.task q).cpu).windowStart := by
  have hp := h.placed q hidle
  obtain ⟨hws, hcurr, -⟩ := hp.update hlt
    ((s.rq (s.task q).cpu).withScale e.taskExecScale) h.windows hidle rfl rfl hsc hck
  have hcpu : (s.charged q e).p.cpu = (s.task q).cpu := by simp [charged]
  refine ⟨placed_of_entered ?_ h.windows hck ?_ ?_ ?_, hws⟩
  · rw [hcpu]
    exact hlt
  · rw [hcpu]
    exact hws
  · rw [hcpu]
    exact hcurr
  · simpa [charged, WaltTask.BoostOk] using hp.boost

variable [DecidableEq τ]

/-- A charge moves the entry of the task. -/
theorem kept_charged (h0 : (s.task q).enqueueAfterMigration = 0) (hkeep : T → s.EntersAtTop q e)
    (hfits : (s.put q s.clock (s.charged q e)).Fits) :
    ((s.put q s.clock (s.charged q e)).ledger (s.task q).cpu).Kept T := by
  have hp := h.placed q hidle
  let rq := (s.rq (s.task q).cpu).withScale e.taskExecScale
  obtain ⟨hws, -, hsame, hnext⟩ := hp.update hlt rq h.windows hidle rfl rfl hsc hck
  have hiss := updateIssued_of_placed rfl hidle h0 hp rq rfl rfl (fun hnew => (hsame hnew).2.1)
  have hrec : (s.charged q e).p.RecordedOn (s.task q).cpu := by
    simp [WaltTask.RecordedOn, charged, hidle, h0]
  have hws' : (s.charged q e).p.windowStart = (s.rq (s.task q).cpu).windowStart := hws
  have hstep : topStep (s.ledger (s.task q).cpu) (.update q (s.task q).currWindow
      (s.charged q e).p.currWindow (s.charged q e).p.prevWindow (newWindow rq (s.task q))
      (fullWindow rq (s.task q))) =
      (s.put q s.clock (s.charged q e)).ledger (s.task q).cpu := by
    have hcurr : (s.charged q e).p.currOn (s.task q).cpu (s.rq (s.task q).cpu) =
        (s.charged q e).p.currWindow := by simp [currOn, hrec, hws']
    have hprev : (s.charged q e).p.prevOn (s.task q).cpu (s.rq (s.task q).cpu) =
        (s.charged q e).p.prevWindow := by simp [prevOn, hrec, hws']
    have htop : ((s.charged q e).rq (s.task q).cpu).top =
        (s.rq (s.task q).cpu).top.updateTopTasks (s.task q).currWindow
          (s.charged q e).p.currWindow (s.charged q e).p.prevWindow (newWindow rq (s.task q))
          (fullWindow rq (s.task q)) := by
      exact (congrArg WaltRq.top (update_self ..)).trans (updateCpuBusyTime_top.trans (if_neg (by simp [hidle])))
    rw [ledger_put (charged_sameWindows s q e), hcurr, hprev, htop]
    rfl
  rw [← hstep]
  refine topKept_step (h.kept _) (h.fits _) hiss ?_ (fun hT _ => hkeep hT ⟨hidle, h0, rfl⟩) (hstep ▸ hfits _)
  simp only [TopOp.NoWrap]
  split
  · next hnew => exact (hsame hnew).2.2
  · next hnew =>
    rw [Bool.not_eq_false] at hnew
    by_cases hfull : fullWindow rq (s.task q) = true
    · exact .inl hfull
    · exact .inr (hnext h0 hnew (by simpa using hfull))

end

variable [DecidableEq τ]

theorem updateCpuBusyTime_top_uncharged {l : TopLedger τ} (hl : l.Tracked) {rq : WaltRq} (htop : rq.top = l.tables)
    (hidle : p.idle = false) (hbusy : accountBusyForCpuTime p e = false) (cpu : Fin n) :
    (updateCpuBusyTime rq cpu p e).1.top = rq.top := by
  rw [updateCpuBusyTime_uncharged cpu hbusy, htop]
  simp only [hidle, Bool.false_eq_true, if_false]
  cases hnew : newWindow rq p with
  | false => simp [enterWindow, hnew, TopTasks.updateTopTasks]
  | true =>
    have hstep := topStep_updateMigrating hl p.currWindow true (fullWindow rq p)
    have htables := congrArg TopLedger.tables hstep
    simpa [enterWindow, hnew, hidle, rolloverTaskWindow, topStep] using htables

section
variable (h : s.Inv T) (hidle : (s.task q).idle = false)
include h hidle

theorem charged_top_of_pending (hbusy : accountBusyForCpuTime (s.task q) e = false) (i : Fin n) :
    ((s.charged q e).rq i).top = (s.rq i).top := by
  by_cases hi : i = (s.task q).cpu
  · subst hi
    have htop : ((s.rq (s.task q).cpu).withScale e.taskExecScale).top = (s.ledger (s.task q).cpu).tables := rfl
    exact (congrArg WaltRq.top (update_self ..)).trans
      (updateCpuBusyTime_top_uncharged (h.kept _).toTracked htop hidle hbusy _)
  · exact charged_top_of_ne hi

theorem inv_charged (hck : e.wallclock = s.clock)
    (hlt : s.clock < (s.rq (s.task q).cpu).windowStart + s.schedRavgWindow) (hsc : e.taskExecScale ≤ 1024)
    (hpend : (s.task q).enqueueAfterMigration ≠ 0 → accountBusyForCpuTime (s.task q) e = false)
    (hkeep : T → s.EntersAtTop q e)
    (hfits : (s.put q s.clock (s.charged q e)).Fits) : (s.put q s.clock (s.charged q e)).Inv T := by
  have hws := charged_sameWindows s q e
  have hcpu : (s.charged q e).p.cpu = (s.task q).cpu := by simp [charged]
  have hkind : (s.charged q e).p.enqueueAfterMigration = (s.task q).enqueueAfterMigration := by
    simp [charged]
  have hpl := (placed_charged h hidle hck hlt hsc).1
  by_cases h0 : (s.task q).enqueueAfterMigration = 0
  · exact inv_put h hws (fun _ => hpl) (fun i hi => charged_top_of_ne hi)
      (fun i hi => not_recordedOn_of_ne hi) (fun i hi => not_recordedOn_of_ne (hcpu ▸ hi))
      (kept_charged h hidle hck hlt hsc h0 hkeep hfits) hfits
  · exact inv_put_unrecorded h hws (fun _ => hpl) (charged_top_of_pending h hidle (hpend h0))
      (fun i hi => h0 hi.2.1) (fun i hi => h0 (hkind ▸ hi.2.1))

theorem inv_marked (hmark : (s.task q).markStart = 0)
    (hlt : s.clock < (s.rq (s.task q).cpu).windowStart + s.schedRavgWindow) :
    (s.put q s.clock ⟨s.rq, { (s.task q).startIn (s.rq (s.task q).cpu).windowStart with
      markStart := s.clock }⟩).Inv T := by
  have hp := h.placed q hidle
  obtain ⟨hQ, hcurr, hprev⟩ := hp.unmarked hmark
  have hini : (s.task q).startIn (s.rq (s.task q).cpu).windowStart =
      { s.task q with windowStart := (s.rq (s.task q).cpu).windowStart } := by
    simp [startIn, hQ]
  rw [hini]
  apply inv_put_same h
  · exact fun _ => ⟨rfl, rfl⟩
  · exact fun _ => placed_of_entered hlt h.windows rfl rfl (by simp [hcurr]) hp.boost
  · exact fun _ => rfl
  · simp [currOn, hcurr]
  · simp [prevOn, hcurr, hprev]

end

omit [DecidableEq τ] in
theorem inv_clock (h : s.Inv T) {t : ℕ} (hle : s.clock ≤ t) : Sys.Inv T { s with clock := t } := by
  refine ⟨?_, ?_, h.kept, h.fits⟩
  · exact { h.windows with start_le := fun i => (h.windows.start_le i).trans hle }
  · intro q hidle
    have hp := h.placed q hidle
    exact { hp with mark_le := hp.mark_le.trans hle }

variable {s₁ : Sys τ n}

theorem ravg_cases (h : s.Inv T) (hs : s.ravg q e = some s₁) :
    (s.task q).markStart = e.wallclock ∧ s₁ = { s with clock := e.wallclock } ∨
    (s.task q).markStart ≠ e.wallclock ∧ ∃ rq₁,
      updateWindowStart s.schedRavgWindow (s.rq (s.task q).cpu) e.wallclock = some rq₁ ∧
      let s₀ := s.rolled (s.task q).cpu e.wallclock rq₁
      ((s.task q).markStart = 0 ∧ s₁ = s₀.put q s₀.clock
          ⟨s₀.rq, { (s.task q).startIn rq₁.windowStart with markStart := s₀.clock }⟩ ∨
        (s.task q).markStart ≠ 0 ∧ s₁ = s₀.put q s₀.clock
          (let r := updateCpuBusyTime (rq₁.withScale e.taskExecScale) (s.task q).cpu
            ((s.task q).startIn rq₁.windowStart) e
          ⟨update s₀.rq (s.task q).cpu r.1, { r.2 with markStart := e.wallclock }⟩)) := by
  obtain ⟨⟨rq', p'⟩, hravg, rfl⟩ := map_eq_some_iff.mp hs
  rcases waltUpdateTaskRavg_cases hravg with ⟨hskip, rfl, rfl⟩ | ⟨-, hmark, rq₁, hrq₁, hcase⟩
  · refine .inl ⟨hskip.resolve_left (h.start_pos _).ne', ?_⟩
    simp [put]
  · refine .inr ⟨hmark, rq₁, hrq₁, ?_⟩
    rcases hcase with ⟨h0, rfl, rfl⟩ | ⟨h0, rfl, rfl⟩
    · exact .inl ⟨h0, rfl⟩
    · refine .inr ⟨h0, ?_⟩
      simp only [put, rolled, update_idem]
      rfl

theorem inv_charged_idle (h : s.Inv T) (hidle : (s.task q).idle = true) {v : RqsTask n}
    (hws : SameWindowsAs s.rq v.rq) (htop : ∀ i, (v.rq i).top = (s.rq i).top)
    (hidle' : v.p.idle = true) : (s.put q s.clock v).Inv T := by
  apply inv_put_unrecorded h hws (by simp [hidle']) htop
  · simp [WaltTask.RecordedOn, hidle]
  · simp [WaltTask.RecordedOn, hidle']

section
variable (h : s.Inv T) (hle : s.clock ≤ e.wallclock) (ht : e.wallclock < 2 ^ 64)
  (hfit : (s.rq (s.task q).cpu).WindowsFit s.schedRavgWindow e.wallclock) (hs : s.ravg q e = some s₁)
include h hle ht hfit hs

/-- An accounting call keeps the tables in step, and unless it returns early it leaves the
runqueue in the window of the clock. -/
theorem inv_ravg (hsc : e.taskExecScale ≤ 1024)
    (hpend : (s.task q).enqueueAfterMigration ≠ 0 → accountBusyForCpuTime (s.task q) e = false)
    (hkeep : T → s.KeepsTop q e) (hfits : s₁.Fits) :
    s₁.Inv T ∧ ((s.task q).markStart ≠ e.wallclock →
      e.wallclock < (s₁.rq (s.task q).cpu).windowStart + s₁.schedRavgWindow) := by
  rcases ravg_cases h hs with ⟨hmark, rfl⟩ | ⟨hlate, rq₁, hrq₁, hcase⟩
  · exact ⟨inv_clock h hle, fun hne => (hne hmark).elim⟩
  · obtain ⟨h₀, hlt⟩ := inv_rolled h hle ht hfit hrq₁
    have hself : (s.rolled (s.task q).cpu e.wallclock rq₁).rq (s.task q).cpu = rq₁ :=
      update_self ..
    replace hkeep := fun hT hmark => hkeep hT hmark hlate rq₁ hrq₁
    generalize hs₀ : s.rolled (s.task q).cpu e.wallclock rq₁ = s₀ at hcase h₀ hself hkeep
    have htask : s₀.task = s.task := by rw [← hs₀]; rfl
    have hW : s₀.schedRavgWindow = s.schedRavgWindow := by rw [← hs₀]; rfl
    have hck : s₀.clock = e.wallclock := by rw [← hs₀]; rfl
    rw [← htask] at hcase hpend hself hkeep ⊢
    rw [← hself] at hcase hlt
    rw [← hW, ← hck] at hlt
    rcases hcase with ⟨hmark, rfl⟩ | ⟨hmark, rfl⟩
    · refine ⟨?_, fun _ => hck ▸ hlt⟩
      cases hidle : (s₀.task q).idle with
      | false => exact inv_marked h₀ hidle hmark hlt
      | true =>
        apply inv_charged_idle h₀ hidle (fun _ => ⟨rfl, rfl⟩) (fun _ => rfl)
        exact (startIn_unchanged _ _).2.1.trans hidle
    · constructor
      · cases hidle : (s₀.task q).idle with
        | false =>
          have hini : (s₀.task q).startIn (s₀.rq (s₀.task q).cpu).windowStart = s₀.task q := by
            simp [startIn, (h₀.placed q hidle).marked hmark]
          rw [hini] at hfits ⊢
          exact inv_charged h₀ hidle hck.symm hlt hsc hpend (fun hT => hkeep hT hmark) hfits
        | true =>
          refine inv_charged_idle h₀ hidle (SameWindowsAs.update ?_ ?_) ?_ ?_
          any_goals simp [withScale, hidle]
          · intro i
            by_cases hi : i = (s₀.task q).cpu
            · subst hi
              simp only [update_self]
              exact updateCpuBusyTime_top.trans (if_pos <| (startIn_unchanged _ _).2.1.trans hidle)
            · simp [hi]
      · intro _
        simpa [put, withScale, hck] using hlt

theorem ravg_windowStart_le : (s.rq (s.task q).cpu).windowStart ≤ (s₁.rq (s.task q).cpu).windowStart := by
  rcases ravg_cases h hs with ⟨-, rfl⟩ | ⟨-, rq₁, hrq₁, hcase⟩
  · exact le_rfl
  · obtain ⟨-, hmono, -⟩ :=
      updateWindowStart_bounds h.window_pos h.window_lt ((h.start_le _).trans hle) ht hfit hrq₁
    rcases hcase with ⟨-, rfl⟩ | ⟨-, rfl⟩
    · simpa [put, rolled] using hmono
    · simpa [put, withScale] using hmono

end

end

end VendorKernel.Walt

import VendorKernel.Walt.TopTables

/-! The entries of a migrating task leave the tables of one runqueue and enter those of another; the tables
of every runqueue count the contributions recorded there. -/
namespace VendorKernel.Walt

open Machine Sys Option Function Int

variable {τ : Type*} {n : ℕ} {T : Prop}

/-- The rollover of the task's runqueue counts the elapsed windows right, and the frequency is at
most the highest one. -/
def Sys.ReadsOk (s : Sys τ n) (q : τ) (e : RavgEvent) : Prop :=
  (s.rq (s.task q).cpu).WindowsFit s.schedRavgWindow e.wallclock ∧ e.taskExecScale ≤ 1024

instance (s : Sys τ n) (q : τ) (e : RavgEvent) : Decidable (s.ReadsOk q e) :=
  inferInstanceAs (Decidable (_ ∧ _))

/-- The search for the next top reaches it in both tables when the entries of the task are taken out. -/
def Sys.SearchesReach (s : Sys τ n) (q : τ) : Prop :=
  (s.rq (s.task q).cpu).top.curr.SearchReaches (s.task q).currWindow ∧
    (s.rq (s.task q).cpu).top.prev.SearchReaches (s.task q).prevWindow

instance (s : Sys τ n) (q : τ) : Decidable (s.SearchesReach q) := inferInstanceAs (Decidable (_ ∧ _))

/-! ### Migrations -/

section

variable {w : Windows n} {p p' : WaltTask n}

structure SamePlace (p p' : WaltTask n) : Prop where
  idle : p'.idle = p.idle
  markStart : p'.markStart = p.markStart
  windowStart : p'.windowStart = p.windowStart
  currWindow : p'.currWindow = p.currWindow
  prevWindow : p'.prevWindow = p.prevWindow
  boostedTaskLoad : p'.boostedTaskLoad = p.boostedTaskLoad

theorem SamePlace.onGrid (h : SamePlace p p') (hgrid : OnGrid w p) : OnGrid w p' := by
  simpa only [OnGrid, h.markStart, h.windowStart] using hgrid

theorem Placed.of_samePlace (h : Placed w p) (hsame : SamePlace p p')
    (hrec : p'.enqueueAfterMigration = 0 → Recorded w p')
    (hgrid : p'.enqueueAfterMigration ≠ 0 → p.markStart ≠ 0 ∧ OnGrid w p) : Placed w p' := by
  have hgrid' h0 := hsame.onGrid (hgrid h0).2
  obtain ⟨-, hmark, hws, hcurr, hprev, hboost⟩ := hsame
  refine ⟨hmark ▸ h.mark_le, ?_, ?_, ?_, ?_, hcurr ▸ h.curr_lt, hrec,
    fun h0 => ⟨hmark ▸ (hgrid h0).1, hgrid' h0⟩, ?_⟩
  all_goals simp only [hmark, hws, hcurr, hprev, WaltTask.BoostOk, hboost]
  exacts [h.unmarked, h.marked, h.start_le, h.curr_le, h.boost]

theorem Placed.recorded_eq (h : Placed w p) (hok : w.Ok) (hmark : p.markStart = w.clock)
    (h0 : p.enqueueAfterMigration = 0) : p.windowStart = w.start p.cpu ∧ OnGrid w p := by
  have hle := hok.start_le p.cpu
  rcases h.recorded h0 with ⟨hQ, -, hlt⟩ | ⟨hbeh, -⟩
  · refine ⟨hQ, ⟨p.cpu, hQ.le⟩, .inl ⟨by omega, ?_⟩⟩
    intro i
    rw [hQ]
    exact hok.grid i p.cpu
  · omega

variable [DecidableEq τ] [Fintype τ] {s : Sys τ n} {q : τ} {v : RqsTask n}

section
variable (h : s.Inv T) (hidle : (s.task q).idle = false) (hsame : SamePlace (s.task q) v.p)
include h hidle hsame

theorem inv_moved (hkind : (s.task q).enqueueAfterMigration ≠ 0) (hrq : v.rq = s.rq)
    (hkind' : v.p.enqueueAfterMigration ≠ 0) : (s.put q s.clock v).Inv T := by
  have hp := h.placed q hidle
  apply inv_put_unrecorded h
  · exact fun i => by simp [hrq]
  · exact fun _ => hp.of_samePlace hsame (fun h0 => (hkind' h0).elim) (fun _ => hp.onGrid hkind)
  · exact fun i => by simp [hrq]
  · exact fun i hi => hkind hi.2.1
  · exact fun i hi => hkind' hi.2.1

theorem inv_settled (hkind : (s.task q).enqueueAfterMigration = 0) (hmark : (s.task q).markStart = s.clock)
    (hws : SameWindowsAs s.rq v.rq)
    (htop : ∀ i, (v.rq i).top = if i = (s.task q).cpu then
      (s.rq i).top.migrateTopTasksSubtraction (s.task q).currWindow (s.task q).prevWindow
      else (s.rq i).top)
    (hkind' : v.p.enqueueAfterMigration ≠ 0) (hkeep : T → s.SearchesReach q)
    (hfits : (s.put q s.clock v).Fits) : (s.put q s.clock v).Inv T := by
  have hp := h.placed q hidle
  obtain ⟨hQ, hgrid⟩ := hp.recorded_eq h.windows hmark hkind
  dsimp only [windows] at hQ
  have hpos := h.start_pos (s.task q).cpu
  have hle := h.start_le (s.task q).cpu
  have hold : (s.task q).RecordedOn (s.task q).cpu := ⟨hidle, hkind, rfl⟩
  have hnew : ∀ i, ¬v.p.RecordedOn i := fun i hi => hkind' hi.2.1
  have hcurr : (s.ledger (s.task q).cpu).curr q = (s.task q).currWindow := by
    simp [ledger, WaltTask.currOn, hold, hQ]
  have hprev : (s.ledger (s.task q).cpu).prev q = (s.task q).prevWindow := by
    simp [ledger, WaltTask.prevOn, hold, hQ]
  have hstep : topStep (s.ledger (s.task q).cpu) (.subtraction q) =
      (s.put q s.clock v).ledger (s.task q).cpu := by
    rw [ledger_put hws, currOn_of_not_recordedOn (hnew _), prevOn_of_not_recordedOn (hnew _), htop,
      if_pos rfl, ← hcurr, ← hprev]
    rfl
  refine inv_put h hws ?_ (fun i hi => (htop i).trans (if_neg hi))
    (fun i hi => not_recordedOn_of_ne hi) (fun i _ => hnew i) ?_ hfits
  swap
  · rw [← hstep]
    refine topKept_step (h.kept _) (h.fits _) trivial trivial (fun hT => ?_) (hstep ▸ hfits _)
    rw [TopOp.KeepsTop, hcurr, hprev]
    exact hkeep hT
  intro _
  exact hp.of_samePlace hsame (fun h0 => (hkind' h0).elim) (fun _ => ⟨by omega, hgrid⟩)

theorem inv_arrived (hkind : (s.task q).enqueueAfterMigration ≠ 0) (hmark : (s.task q).markStart = s.clock)
    (hQ : (s.task q).windowStart = (s.rq (s.task q).cpu).windowStart)
    (hws : SameWindowsAs s.rq v.rq)
    (htop : ∀ i, (v.rq i).top = if i = (s.task q).cpu then
      (s.rq i).top.migrateTopTasksAddition (s.task q).currWindow (s.task q).prevWindow
      else (s.rq i).top)
    (hkind' : v.p.enqueueAfterMigration = 0) (hcpu : v.p.cpu = (s.task q).cpu)
    (hfits : (s.put q s.clock v).Fits) : (s.put q s.clock v).Inv T := by
  have hp := h.placed q hidle
  have hle := h.start_le (s.task q).cpu
  have hlt : (s.task q).markStart < (s.task q).windowStart + s.schedRavgWindow := by
    rcases (hp.onGrid hkind).2.2 with ⟨hlt, -⟩ | hbeh
    · exact hlt
    · have := hbeh (s.task q).cpu
      dsimp only [windows] at this
      omega
  have hold : ∀ i, ¬(s.task q).RecordedOn i := fun i hi => hkind hi.2.1
  have hnew : v.p.RecordedOn (s.task q).cpu := ⟨hsame.idle.trans hidle, hkind', hcpu⟩
  have hstep : topStep (s.ledger (s.task q).cpu) (.addition q (s.task q).currWindow
      (s.task q).prevWindow) = (s.put q s.clock v).ledger (s.task q).cpu := by
    have hcurr : v.p.currOn (s.task q).cpu (s.rq (s.task q).cpu) = (s.task q).currWindow := by
      simp [WaltTask.currOn, hnew, hsame.windowStart, hQ, hsame.currWindow]
    have hprev : v.p.prevOn (s.task q).cpu (s.rq (s.task q).cpu) = (s.task q).prevWindow := by
      simp [WaltTask.prevOn, hnew, hsame.windowStart, hQ, hsame.prevWindow]
    rw [ledger_put hws, hcurr, hprev, htop, if_pos rfl]
    rfl
  refine inv_put h hws ?_ (fun i hi => (htop i).trans (if_neg hi))
    (fun i _ => hold i) (fun i hi => not_recordedOn_of_ne (hcpu ▸ hi))
    (hstep ▸ topKept_step (h.kept _) (h.fits _)
      ⟨currOn_of_not_recordedOn (hold _), prevOn_of_not_recordedOn (hold _)⟩ trivial (fun _ => trivial)
      (hstep ▸ hfits _)) hfits
  intro _
  refine hp.of_samePlace hsame (fun _ => .inl ?_) (fun h0 => (h0 hkind').elim)
  dsimp only [windows]
  rw [hcpu, hsame.windowStart, hsame.markStart]
  exact ⟨hQ, by omega, by omega⟩

end

def Hop.event (hop : Hop n) : RavgEvent :=
  { hop.env with isCurr := false, event := .taskMigrate, irqtime := 0 }

def RavgEvent.arrival (e : RavgEvent) : RavgEvent :=
  { e with isCurr := false, event := .taskUpdate, irqtime := 0 }

omit [Fintype τ] in
theorem exists_ravg {e : RavgEvent} {rq : WaltRq} {p : WaltTask n}
    (hravg : waltUpdateTaskRavg s.schedRavgWindow (s.rq (s.task q).cpu) (s.task q).cpu (s.task q) e = some (rq, p)) :
    ∃ s₁, s.ravg q e = some s₁ ∧ s₁.task q = p ∧
      s₁.rq = update s.rq (s.task q).cpu rq ∧
      s₁.schedRavgWindow = s.schedRavgWindow ∧
      ∀ t v, s.put q t v = s₁.put q t v := by
  refine ⟨_, map_eq_some_iff.mpr ⟨_, hravg, rfl⟩, ?_, rfl, rfl, ?_⟩
  · simp [put]
  · intro t v
    simp [put]

variable {e e' : RavgEvent} {s₁ : Sys τ n}

theorem ravg_task (h : s.Inv T) (hs : s.ravg q e = some s₁) :
    (s₁.task q).idle = (s.task q).idle ∧ (s₁.task q).cpu = (s.task q).cpu ∧
      (s₁.task q).enqueueAfterMigration = (s.task q).enqueueAfterMigration ∧
      (s₁.task q).markStart = e.wallclock ∧ s₁.clock = e.wallclock := by
  obtain ⟨⟨rq, p⟩, hravg, rfl⟩ := map_eq_some_iff.mp hs
  obtain ⟨hidle, hcpu, -, hkind⟩ := ravg_task_frame hravg
  have hmark := ravg_markStart (h.windows.start_pos _).ne' hravg
  simp only [put, update_self]
  exact ⟨hidle, hcpu, hkind, hmark, trivial⟩

theorem ravg_windowStart_eq (h : s.Inv T) (hidle : (s.task q).idle = false) (hs : s.ravg q e = some s₁)
    (h₁ : s₁.Inv T)
    (hin : (s.task q).markStart ≠ e.wallclock → e.wallclock < (s₁.rq (s.task q).cpu).windowStart + s₁.schedRavgWindow)
    (hskip : (s.task q).markStart = e.wallclock → (s.task q).windowStart = (s.rq (s.task q).cpu).windowStart) :
    (s₁.task q).windowStart = (s₁.rq (s₁.task q).cpu).windowStart := by
  rcases ravg_cases h hs with ⟨hmark, rfl⟩ | ⟨hmark, -⟩
  · exact hskip hmark
  · obtain ⟨hidle₁, hcpu₁, -, hmark₁, hck⟩ := ravg_task h hs
    refine (h₁.placed q (hidle₁.trans hidle)).windowStart_eq ?_ ?_
    · dsimp only [windows]
      rw [hck, hcpu₁]
      exact hin hmark
    · exact (h₁.windows.start_le _).trans (hck.trans hmark₁.symm).le

variable {cluster : Fin n → ℕ}

theorem inv_setTaskCpu {hop : Hop n} (h : s.Inv T) (hidle : (s.task q).idle = false)
    (hle : s.clock ≤ hop.env.wallclock) (ht : hop.env.wallclock < 2 ^ 64)
    (hread : s.ReadsOk q hop.env)
    (hs : setTaskCpu s.schedRavgWindow cluster ⟨s.rq, s.task q⟩ hop = some v)
    (hkeep : T → s.KeepsTop q hop.event ∧ ((s.task q).enqueueAfterMigration = 0 →
      ∀ s₁, s.ravg q hop.event = some s₁ → s₁.SearchesReach q))
    (hfits₁ : ∀ s₁, s.ravg q hop.event = some s₁ → s₁.Fits)
    (hfits : (s.put q hop.env.wallclock v).Fits) : (s.put q hop.env.wallclock v).Inv T := by
  obtain ⟨src, p₁, hmove, hcase⟩ := setTaskCpu_cases hs
  rw [ravg_startMove hidle rfl] at hmove
  obtain ⟨⟨src', p₀⟩, hravg, heq⟩ := map_eq_some_iff.mp hmove
  cases heq
  obtain ⟨s₁, hs₁, rfl, hrq, -, hput⟩ := exists_ravg (e := hop.event) hravg
  obtain ⟨h₁, -⟩ := inv_ravg (e := hop.event) h hle ht hread.1 hs₁ hread.2
    (fun _ => accountBusyForCpuTime_of_not_curr hidle (.inl rfl)) (fun hT => (hkeep hT).1) (hfits₁ _ hs₁)
  obtain ⟨hidle₀, hcpu₀, hkind₀, hmark₀, hck⟩ := ravg_task h hs₁
  have hcpu : ((s₁.task q).startMove cluster hop.newCpu).cpu = (s.task q).cpu := hcpu₀
  rw [show hop.env.wallclock = hop.event.wallclock from rfl, hput, ← hck] at hfits ⊢
  rw [hcpu, ← hrq] at hcase
  rcases hcase with ⟨h0, rfl⟩ | ⟨h0, rq₂, p₂, hsub, rfl⟩
  · exact inv_moved h₁ (hidle₀.trans hidle) ⟨rfl, rfl, rfl, rfl, rfl, rfl⟩ (hkind₀.trans_ne h0) rfl
      (moveKind_ne_zero _ _ _)
  · have hwin := subtractFromSource_rq cluster s₁.rq ((s₁.task q).startMove cluster hop.newCpu)
    have htask := subtractFromSource_task cluster s₁.rq ((s₁.task q).startMove cluster hop.newCpu)
    rw [hsub] at hwin htask
    obtain ⟨hsame, hkind⟩ : SamePlace ((s₁.task q).startMove cluster hop.newCpu) p₂ ∧
        p₂.enqueueAfterMigration = moveKind cluster (s₁.task q).cpu hop.newCpu := by
      rw [show p₂ = _ from htask]
      split <;> exact ⟨⟨rfl, rfl, rfl, rfl, rfl, rfl⟩, rfl⟩
    refine inv_settled h₁ (hidle₀.trans hidle) { hsame with } (hkind₀.trans h0) (hmark₀.trans hck.symm)
      (fun i => ⟨(hwin i).1, (hwin i).2.1⟩) (fun i => (hwin i).2.2) ?_ (fun hT => (hkeep hT).2 h0 _ hs₁) hfits
    exact hkind.trans_ne (moveKind_ne_zero _ _ _)

theorem inv_enqueueTask (h : s.Inv T) (hidle : (s.task q).idle = false) (hle : s.clock ≤ e.wallclock)
    (ht : e.wallclock < 2 ^ 64) (hread : (s.task q).enqueueAfterMigration ≠ 0 → s.ReadsOk q e)
    (hskip : (s.task q).enqueueAfterMigration ≠ 0 → (s.task q).markStart = e.wallclock →
      (s.task q).windowStart = (s.rq (s.task q).cpu).windowStart)
    (hs : enqueueTask s.schedRavgWindow ⟨s.rq, s.task q⟩ e = some v)
    (hfits₁ : (s.task q).enqueueAfterMigration ≠ 0 → ∀ s₁, s.ravg q e.arrival = some s₁ → s₁.Fits)
    (hfits : (s.put q e.wallclock v).Fits) : (s.put q e.wallclock v).Inv T := by
  rcases enqueueTask_cases hs with ⟨-, rfl⟩ | ⟨hkind, dest, p₁, rq₂, p₂, hravg, hadd, rfl⟩
  · have hsame : s.put q e.wallclock ⟨s.rq, s.task q⟩ = { s with clock := e.wallclock } := by
      simp [put]
    rw [hsame]
    exact inv_clock h hle
  · obtain ⟨s₁, hs₁, rfl, hrq, -, hput⟩ := exists_ravg (e := e.arrival) hravg
    obtain ⟨h₁, hin⟩ := inv_ravg (e := e.arrival) h hle ht (hread hkind).1 hs₁ (hread hkind).2
      (fun _ => accountBusyForCpuTime_of_not_curr hidle (.inr ⟨rfl, rfl⟩))
      (fun _ _ _ _ _ hrec => absurd hrec.2.1 hkind) (hfits₁ hkind _ hs₁)
    obtain ⟨hidle₁, hcpu₁, hkind₁, hmark₁, hck⟩ := ravg_task h hs₁
    have hQ := ravg_windowStart_eq h hidle hs₁ h₁ hin (hskip hkind)
    have hsame : SamePlace (s₁.task q) (addToDestination s₁.rq (s₁.task q) (s.task q).cpu).2 := by
      rw [addToDestination_task]
      split <;> constructor <;> rfl
    have hwin := addToDestination_rq s₁.rq (s₁.task q) (s.task q).cpu
    have hcpu := cpu_addToDestination s₁.rq (s₁.task q) (s.task q).cpu
    rw [← hrq] at hadd
    rw [hadd] at hsame hwin hcpu
    rw [show e.wallclock = e.arrival.wallclock from rfl, hput, ← hck] at hfits ⊢
    refine inv_arrived h₁ (hidle₁.trans hidle) { hsame with } (hkind₁.trans_ne hkind) (hmark₁.trans hck.symm) hQ
      (fun i => ⟨(hwin i).1, (hwin i).2.1⟩) ?_ rfl hcpu hfits
    intro i
    rw [hcpu₁]
    exact (hwin i).2.2

def RavgEvent.regroup (e : RavgEvent) : RavgEvent := { e with event := .taskUpdate, irqtime := 0 }

/-- A change of group, with a migration completed before it. -/
theorem inv_transfer {addTask : Bool} (h : s.Inv T) (hidle : (s.task q).idle = false) (hle : s.clock ≤ e.wallclock)
    (hle' : e.wallclock ≤ e'.wallclock) (ht : e'.wallclock < 2 ^ 64)
    (hcurr : (s.task q).enqueueAfterMigration ≠ 0 → e.isCurr = false) (hread : s.ReadsOk q e)
    (hread' : (s.task q).enqueueAfterMigration ≠ 0 → s.ReadsOk q e')
    (hskip : (s.task q).enqueueAfterMigration ≠ 0 → (s.task q).markStart = e.wallclock → e.wallclock = e'.wallclock →
      (s.task q).windowStart = (s.rq (s.task q).cpu).windowStart)
    (hs : transferBusyTime s.schedRavgWindow cluster ⟨s.rq, s.task q⟩ addTask e e' = some v)
    (hkeep : T → s.KeepsTop q e.regroup)
    (hfits₁ : ∀ s₁, s.ravg q e.regroup = some s₁ → s₁.Fits ∧ ((s.task q).enqueueAfterMigration ≠ 0 → ∀ s₂,
      s₁.ravg q e'.arrival = some s₂ → s₂.Fits))
    (hfits : (s.put q e'.wallclock v).Fits) : (s.put q e'.wallclock v).Inv T := by
  obtain ⟨wrq, p₁, u, hravg, henq, hrq, _, _, _, hp⟩ := transferBusyTime_cases hs
  obtain ⟨s₁, hs₁, rfl, hrq₁, hW, hput⟩ := exists_ravg hravg
  obtain ⟨hidle₁, hcpu₁, hkind₁, hmark₁, hck⟩ := ravg_task h hs₁
  have ht₁ : e.regroup.wallclock < 2 ^ 64 := hle'.trans_lt ht
  obtain ⟨h₁, hin⟩ := inv_ravg (e := e.regroup) h hle ht₁ hread.1 hs₁ hread.2
    (fun h0 => accountBusyForCpuTime_of_not_curr hidle (.inr ⟨rfl, hcurr h0⟩)) hkeep (hfits₁ _ hs₁).1
  have hmono := ravg_windowStart_le (e := e.regroup) h hle ht₁ hread.1 hs₁
  have hpend : (s₁.task q).enqueueAfterMigration ≠ 0 → (s.task q).enqueueAfterMigration ≠ 0 :=
    hkind₁.symm.trans_ne
  have hlast : s.put q e'.wallclock v = (s₁.put q e'.wallclock u).put q e'.wallclock v := by
    rw [hput]
    simp [put]
  rw [← hrq₁, ← hW] at henq
  rw [hlast] at hfits ⊢
  have htask₂ : (s₁.put q e'.wallclock u).task q = u.p := update_self ..
  have hws : SameWindowsAs (s₁.put q e'.wallclock u).rq v.rq := fun i => ⟨(hrq i).1, (hrq i).2.1⟩
  have hon : ∀ i rq, v.p.currOn i rq = ((s₁.put q e'.wallclock u).task q).currOn i rq ∧
      v.p.prevOn i rq = ((s₁.put q e'.wallclock u).task q).prevOn i rq := by
    intro i rq
    rw [htask₂, hp]
    exact ⟨rfl, rfl⟩
  have hfits₂ : (s₁.put q e'.wallclock u).Fits := fun i =>
    ledger_put_eq hws (hrq i).2.2 (hon i _).1 (hon i _).2 ▸ hfits i
  have h₂ : (s₁.put q e'.wallclock u).Inv T := by
    refine inv_enqueueTask h₁ (hidle₁.trans hidle) (hck ▸ hle') ht (fun h0 => ⟨?_, ?_⟩)
      ?_ henq (fun h0 => (hfits₁ _ hs₁).2 (hpend h0)) hfits₂
    · have hfit := (hread' (hpend h0)).1
      unfold WaltRq.WindowsFit at hfit ⊢
      rw [hcpu₁]
      omega
    · exact (hread' (hpend h0)).2
    · intro h0 hmark
      exact ravg_windowStart_eq h hidle hs₁ h₁ hin fun hskipped =>
        hskip (hpend h0) hskipped (hmark₁.symm.trans hmark)
  refine inv_put_same h₂ hws ?_ (fun i => (hrq i).2.2) (fun i => (hon i _).1) (fun i => (hon i _).2)
  intro hidle₂
  rw [hp] at hidle₂ ⊢
  have hpl := h₂.placed q (htask₂ ▸ hidle₂)
  rw [htask₂] at hpl
  exact hpl.of_samePlace ⟨rfl, rfl, rfl, rfl, rfl, rfl⟩ hpl.recorded hpl.onGrid

end

/-! ### Boosts and window sizes -/

variable {val : ℤ} {s : Sys τ n} {w : Windows n} {p : WaltTask n} {c : Fin n} {t temp wc W tick : ℕ}

theorem boostOk_boostedTaskLoadOf (hlo : -90 ≤ val) (hhi : val ≤ 90) :
    -1024 ≤ boostedTaskLoadOf val ∧ boostedTaskLoadOf val ≤ 1024 := by
  have hdiv : (24 * val).tdiv 100 = _ := tdiv_eq_ediv
  unfold boostedTaskLoadOf
  split at hdiv
  · omega
  · have hsign : sign 100 = 1 := rfl
    omega

theorem inv_setLoadBoost [DecidableEq τ] [Fintype τ] {q : τ} (h : s.Inv T) (hlo : -90 ≤ val) (hhi : val ≤ 90) :
    (s.put q s.clock ⟨s.rq, { s.task q with
      loadBoost := val, boostedTaskLoad := boostedTaskLoadOf val }⟩).Inv T := by
  refine inv_put_same h (fun _ => ⟨rfl, rfl⟩) ?_ (fun _ => rfl) (fun _ => rfl)
    (fun _ => rfl)
  intro hidle
  have hp := h.placed q hidle
  exact { hp with boost := boostOk_boostedTaskLoadOf hlo hhi }

/-- A task of the ext class moves while it is recorded nowhere. -/
theorem inv_scxSetTaskCpu [DecidableEq τ] [Fintype τ] {q : τ} (h : s.Inv T) (hidle : (s.task q).idle = false)
    (hkind : (s.task q).enqueueAfterMigration ≠ 0) :
    (s.put q s.clock ⟨s.rq, { s.task q with cpu := c }⟩).Inv T :=
  inv_moved h hidle ⟨rfl, rfl, rfl, rfl, rfl, rfl⟩ hkind rfl hkind

theorem inv_scxRegroup [DecidableEq τ] [Fintype τ] {q : τ} (h : s.Inv T) (grp : Bool) :
    (s.put q s.clock ⟨s.rq, { s.task q with grp := grp }⟩).Inv T := by
  refine inv_put_same h (fun _ => ⟨rfl, rfl⟩) ?_ (fun _ => rfl) (fun _ => rfl) (fun _ => rfl)
  intro hidle
  have hp := h.placed q hidle
  exact { hp with }

/-- When the size changes every runqueue is in one window, and so is every task on its way, or
behind them all. -/
theorem OnGrid.resize (h : OnGrid w p) (hini : ∀ i, w.start c = w.start i)
    (hmark : p.markStart < w.start c + temp) : OnGrid { w with window := temp, clock := t } p := by
  obtain ⟨⟨i, hi⟩, hgrid⟩ := h
  refine ⟨⟨i, hi⟩, ?_⟩
  rw [← hini i] at hi
  rcases hgrid with ⟨hlt, hdvd⟩ | hbeh
  · rcases hi.eq_or_lt with heq | hbef
    · refine .inl ⟨by dsimp only; omega, ?_⟩
      intro j
      rw [← hini j, heq, sub_self]
      exact dvd_zero _
    · right
      intro j
      have hge := le_of_dvd (by omega) (hdvd c)
      have := hini j
      dsimp only
      omega
  · exact .inr hbeh

theorem Recorded.resize (h : Recorded w p) (hmark : p.markStart < w.start p.cpu + temp) :
    Recorded { w with window := temp, clock := t } p := by
  rcases h with ⟨hQ, hlo, -⟩ | hbeh
  · exact .inl ⟨hQ, hlo, hmark⟩
  · exact .inr hbeh

theorem inv_windowSizeChange [Fintype τ] (h : s.Inv T) (hle : s.clock ≤ wc) (hpos : 0 < temp) (h30 : temp ≤ 2 ^ 30)
    (hlt : wc < (s.rq c).windowStart + temp) (hini : ∀ i, (s.rq c).windowStart = (s.rq i).windowStart) :
    Sys.Inv T { s with clock := wc, schedRavgWindow := temp } := by
  refine ⟨?_, ?_, h.kept, h.fits⟩
  · refine ⟨hpos, h30, h.windows.start_pos, fun i => (h.windows.start_le i).trans hle,
      h.windows.size_le, ?_⟩
    intro i j
    dsimp only [windows]
    rw [← hini i, ← hini j, sub_self]
    exact dvd_zero _
  · intro q hidle
    have hp := h.placed q hidle
    have hmark : (s.task q).markStart < (s.rq c).windowStart + temp :=
      (hp.mark_le.trans hle).trans_lt hlt
    refine ⟨hp.mark_le.trans hle, hp.unmarked, hp.marked, hp.start_le, hp.curr_le, hp.curr_lt,
      fun h0 => (hp.recorded h0).resize ?_,
      fun h0 => ⟨(hp.onGrid h0).1, (hp.onGrid h0).2.resize hini hmark⟩, hp.boost⟩
    dsimp only [windows]
    rw [← hini]
    exact hmark

/-! ### Runs -/

/-- A task of the ext class moves only with a migration pending. For an enqueue at the clock of the move, which is not
accounted, the destination is in the task's window. -/
def SysOp.InStep (s : Sys τ n) : SysOp τ n → Prop
  | .ravg q e => s.ReadsOk q e
  | .setTaskCpu q hop => s.ReadsOk q hop.env
  | .enqueue q e => (s.task q).enqueueAfterMigration ≠ 0 → s.ReadsOk q e ∧
    ((s.task q).markStart = e.wallclock → (s.task q).windowStart = (s.rq (s.task q).cpu).windowStart)
  | .transfer q _ e e' => s.ReadsOk q e ∧
    ((s.task q).enqueueAfterMigration ≠ 0 → s.ReadsOk q e' ∧
      ((s.task q).markStart = e.wallclock → e.wallclock = e'.wallclock →
        (s.task q).windowStart = (s.rq (s.task q).cpu).windowStart))
  | .windowSizeChange _ _ tempSchedRavgWindow => tempSchedRavgWindow ≤ 2 ^ 30
  | .scxSetTaskCpu q _ => (s.task q).enqueueAfterMigration ≠ 0
  | .setLoadBoost _ _ | .scxRegroup _ _ => True

instance (s : Sys τ n) (op : SysOp τ n) : Decidable (op.InStep s) := by
  cases op <;> unfold SysOp.InStep <;> infer_instance

/-- A charge after a full window keeps `prev_top` or raises it, and a task that leaves does not hide the next top. -/
def SysOp.KeepsTops [DecidableEq τ] (s : Sys τ n) : SysOp τ n → Prop
  | .ravg q e => s.KeepsTop q e
  | .setTaskCpu q hop => s.KeepsTop q hop.event ∧ ((s.task q).enqueueAfterMigration = 0 →
    ∀ s₁, s.ravg q hop.event = some s₁ → s₁.SearchesReach q)
  | .transfer q _ e _ => s.KeepsTop q e.regroup
  | _ => True

instance [DecidableEq τ] (s : Sys τ n) : DecidablePred (SysOp.KeepsTops s)
  | .ravg _ _ => inferInstanceAs (Decidable (s.KeepsTop _ _))
  | .setTaskCpu q hop => inferInstanceAs (Decidable (_ ∧ (_ → ∀ s₁ ∈ s.ravg q hop.event, s₁.SearchesReach q)))
  | .transfer _ _ _ _ => inferInstanceAs (Decidable (s.KeepsTop _ _))
  | .enqueue _ _ | .setLoadBoost _ _ | .windowSizeChange _ _ _ | .scxSetTaskCpu _ _ | .scxRegroup _ _ =>
    .isTrue trivial

section
variable [DecidableEq τ] [Fintype τ]

/-- At most 255 tasks are in any one bucket after the step, nor between its accounting call and
its move. -/
def SysOp.FitsAfter (cluster : Fin n → ℕ) (s : Sys τ n) (op : SysOp τ n) : Prop :=
  (∀ s', sysStep cluster s op = some s' → s'.Fits) ∧
    match op with
    | .setTaskCpu q hop => ∀ s₁, s.ravg q hop.event = some s₁ → s₁.Fits
    | .enqueue q e => (s.task q).enqueueAfterMigration ≠ 0 →
      ∀ s₁, s.ravg q e.arrival = some s₁ → s₁.Fits
    | .transfer q _ e e' => ∀ s₁, s.ravg q e.regroup = some s₁ → s₁.Fits ∧
      ((s.task q).enqueueAfterMigration ≠ 0 → ∀ s₂, s₁.ravg q e'.arrival = some s₂ → s₂.Fits)
    | _ => True

/-- Every hook keeps the tables. -/
theorem inv_step {cluster : Fin n → ℕ} (s : Sys τ n) (op : SysOp τ n) (s' : Sys τ n) (h : s.Inv T)
    (hok : (op.InStep s ∧ op.FitsAfter cluster s) ∧ (T → op.KeepsTops s)) (hs : sysStep cluster s op = some s') :
    s'.Inv T := by
  obtain ⟨⟨hok, haf, hbetween⟩, hkeep⟩ := hok
  have hfits := haf s' hs
  cases op with
  | ravg q e =>
    obtain ⟨⟨hle, ht, hpend⟩, hs⟩ := ite_none_right_eq_some.mp hs
    exact (inv_ravg h hle ht hok.1 hs hok.2 hpend hkeep hfits).1
  | setTaskCpu q hop =>
    obtain ⟨⟨hle, ht, hidle⟩, hs⟩ := ite_none_right_eq_some.mp hs
    obtain ⟨v, hv, rfl⟩ := map_eq_some_iff.mp hs
    exact inv_setTaskCpu h hidle hle ht hok hv hkeep hbetween hfits
  | enqueue q e =>
    obtain ⟨⟨hle, ht, hidle⟩, hs⟩ := ite_none_right_eq_some.mp hs
    obtain ⟨v, hv, rfl⟩ := map_eq_some_iff.mp hs
    exact inv_enqueueTask h hidle hle ht (fun h0 => (hok h0).1) (fun h0 => (hok h0).2) hv hbetween hfits
  | transfer q addTask e e' =>
    obtain ⟨⟨hle, hle', ht, hidle, -, hcurr⟩, hs⟩ := ite_none_right_eq_some.mp hs
    obtain ⟨v, hv, rfl⟩ := map_eq_some_iff.mp hs
    exact inv_transfer h hidle hle hle' ht hcurr hok.1 (fun h0 => (hok.2 h0).1)
      (fun h0 => (hok.2 h0).2) hv hkeep hbetween hfits
  | setLoadBoost q val =>
    obtain ⟨hgd, ⟨⟩⟩ := ite_none_right_eq_some.mp hs
    exact inv_setLoadBoost h hgd.1 hgd.2
  | windowSizeChange thisCpu wc temp =>
    obtain ⟨⟨hle, -, hpos, -⟩, hs⟩ := ite_none_right_eq_some.mp hs
    split at hs
    · next hchg =>
      cases hs
      exact inv_windowSizeChange h hle hpos hok hchg.2.1 hchg.2.2
    · cases hs
      exact inv_clock h hle
  | scxSetTaskCpu q newCpu =>
    obtain ⟨hidle, ⟨⟩⟩ := ite_none_right_eq_some.mp hs
    exact inv_scxSetTaskCpu h hidle hok
  | scxRegroup q grp =>
    cases hs
    exact inv_scxRegroup h grp

end

def Sys.init (schedRavgWindow tickSchedClock : ℕ) (idle grp : τ → Bool) (cpu : τ → Fin n) : Sys τ n where
  schedRavgWindow := schedRavgWindow
  clock := tickSchedClock
  rq _ := WaltRq.init schedRavgWindow tickSchedClock
  task q := WaltTask.init (idle q) (cpu q) (grp q)

theorem inv_init [Fintype τ] (hW : 0 < W) (hW30 : W ≤ 2 ^ 30) (htick : 0 < tick) (idle grp : τ → Bool)
    (cpu : τ → Fin n) : (Sys.init W tick idle grp cpu).Inv T := by
  have hldg : ∀ r, (init W tick idle grp cpu).ledger r = TopLedger.init := by
    intro r
    have hcurr : ∀ q, ((init W tick idle grp cpu).task q).currOn r (.init W tick) = 0 :=
      fun q => ite_self 0
    have hprev : ∀ q, ((init W tick idle grp cpu).task q).prevOn r (.init W tick) = 0 := by
      intro q
      unfold WaltTask.prevOn
      split
      · exact (if_neg htick.ne).trans (ite_self 0)
      · rfl
    exact congrArg₂ (TopLedger.mk _) (funext hcurr) (funext hprev)
  refine ⟨?_, ?_, fun r => (hldg r).symm ▸ topKept_init T, fun r => (hldg r).symm ▸ fits_init⟩
  · exact ⟨hW, hW30, fun _ => htick, fun _ => le_rfl, fun _ => hW30, fun i j => by
      simp [windows, init]⟩
  · intro q _
    refine ⟨Nat.zero_le _, fun _ => ⟨rfl, rfl, rfl⟩, fun h0 => (h0 rfl).elim, le_rfl, le_rfl,
      by simp [init, WaltTask.init], fun _ => .inr ⟨htick, htick, fun h0 => (h0 rfl).elim⟩,
      fun h0 => (h0 rfl).elim, ?_⟩
    simp [init, WaltTask.init, WaltTask.BoostOk]

section
variable [DecidableEq τ] [Fintype τ]

theorem fitsAfter_of_few_tasks (h : Fintype.card τ ≤ 255) (cluster : Fin n → ℕ) (s : Sys τ n)
    (op : SysOp τ n) : op.FitsAfter cluster s := by
  have hfits : ∀ s : Sys τ n, s.Fits := fun s r => ⟨fitsU8_of_card h _, fitsU8_of_card h _⟩
  refine ⟨fun s' _ => hfits s', ?_⟩
  cases op with
  | setTaskCpu q hop => exact fun s₁ _ => hfits s₁
  | enqueue q e => exact fun _ s₁ _ => hfits s₁
  | transfer q addTask e e' => exact fun s₁ _ => ⟨hfits s₁, fun _ s₂ _ => hfits s₂⟩
  | _ => trivial

end

def stoppingAt (t : ℕ) : RavgEvent := ⟨.putPrevTask, t, 0, true, true, false, 1024⟩

def moveTrace : List (SysOp (Fin 2) 4) :=
  [.ravg 0 (wakingAt 2000), .ravg 0 (stoppingAt 9000000), .setTaskCpu 0 ⟨2, wakingAt 9100000⟩,
    .enqueue 0 (wakingAt 9200000), .ravg 0 (stoppingAt 12000000), .ravg 1 (wakingAt 12000000),
    .ravg 1 (stoppingAt 17000000), .transfer 0 true (wakingAt 18000000) (wakingAt 18000000)]

def oneLeaves : List (SysOp (Fin 2) 4) :=
  [.ravg 0 (wakingAt 2000), .ravg 0 (stoppingAt 14402000), .ravg 1 (wakingAt 14402000),
    .ravg 1 (stoppingAt 15202000), .setTaskCpu 0 ⟨2, wakingAt 15300000⟩, .enqueue 0 (wakingAt 15400000),
    .ravg 1 (stoppingAt 50000000)]

end VendorKernel.Walt

import VendorKernel.Walt.Halt

/-! The drain thread of `walt_halt.c` next to the calls that halt and restart CPUs: which drain
requests survive the thread's copy, drain and clear. -/
namespace VendorKernel.Walt

open Cpumask Machine

variable {n : ℕ}

/-- Where `try_drain_rqs` stands: at its loop test, in the walk over its copy of the mask, or in `schedule`.
-/
inductive DrainThread (n : ℕ)
  | loop
  | draining (localCpus : Cpumask n) (todo : List (Fin n))
  | asleep
  | stopped

structure DrainSys (n : ℕ) where
  halt : HaltState n
  thread : DrainThread n
  /-- Not in the source: a request was added since the thread last started draining the CPU. -/
  requested : Cpumask n

inductive DrainOp (n : ℕ)
  | haltCpus (env : HaltEnv n) (cpus : Cpumask n) (type : PauseType)
  | startCpus (cpus : Cpumask n) (type : PauseType)
  | wake
  | lookForWork (kthreadShouldStop : Bool)
  | drainNext
  | clearDrained

def DrainSys.init (n : ℕ) : DrainSys n := ⟨.init n, .loop, fun _ => false⟩

def addsRequest (env : HaltEnv n) (s : HaltState n) (cpus : Cpumask n) (type : PauseType) : Bool :=
  type = .halt ∧ ¬(haltCpus env s cpus type).2 < 0

/-- `schedule` may return at any time; `cpu_drain_rq` changes neither mask. -/
def drainStep (s : DrainSys n) : DrainOp n → Option (DrainSys n)
  | .haltCpus env cpus type =>
    some
      { s with
        halt := (haltCpus env s.halt cpus type).1
        requested := fun cpu =>
          s.requested cpu || addsRequest env s.halt cpus type && cpus cpu }
  | .startCpus cpus type => some { s with halt := (startCpus s.halt cpus type).1 }
  | .wake =>
    match s.thread with
    | .asleep => some { s with thread := .loop }
    | _ => none
  | .lookForWork kthreadShouldStop =>
    match s.thread with
    | .loop =>
      if kthreadShouldStop then some { s with thread := .stopped }
      else if s.halt.cpusToDrain.empty then some { s with thread := .asleep }
      else some { s with thread := .draining s.halt.cpusToDrain s.halt.cpusToDrain.forEachCpu }
    | _ => none
  | .drainNext =>
    match s.thread with
    | .draining localCpus (cpu :: todo) =>
      some
        { s with thread := .draining localCpus todo, requested := s.requested.clearCpu cpu }
    | _ => none
  | .clearDrained =>
    match s.thread with
    | .draining localCpus [] =>
      some
        { s with
          halt :=
            { s.halt with cpusToDrain := fun cpu => s.halt.cpusToDrain cpu && !localCpus cpu }
          thread := .asleep }
    | _ => none

def DrainSys.BeingDrained (s : DrainSys n) (cpu : Fin n) : Prop :=
  match s.thread with
  | .draining localCpus todo => localCpus cpu = true ∧ cpu ∉ todo
  | _ => False

instance (s : DrainSys n) (cpu : Fin n) : Decidable (s.BeingDrained cpu) := by
  unfold DrainSys.BeingDrained
  split <;> infer_instance

/-- No CPU is halted again between the start of its drain and the clearing of the copy. -/
def RequestsWait (s : DrainSys n) : DrainOp n → Prop
  | .haltCpus _ cpus .halt => ∀ cpu, cpus cpu = true → ¬s.BeingDrained cpu
  | _ => True

instance (s : DrainSys n) (op : DrainOp n) : Decidable (RequestsWait s op) := by
  unfold RequestsWait
  split <;> infer_instance

/-- No request is lost, and none is outstanding for a CPU that the thread is about to clear. -/
structure DrainSys.Kept (s : DrainSys n) : Prop where
  pending : ∀ cpu, s.requested cpu = true → s.halt.cpusToDrain cpu = true
  served : ∀ cpu, s.BeingDrained cpu → s.requested cpu = false

@[simp] theorem cpusToDrain_setMask (s : HaltState n) (type : PauseType) (m : Cpumask n) :
    (s.setMask type m).cpusToDrain = s.cpusToDrain := by
  cases type <;> rfl

theorem cpusToDrain_haltCpus (env : HaltEnv n) (s : HaltState n) (cpus : Cpumask n)
    (type : PauseType) (cpu : Fin n) :
    (haltCpus env s cpus type).1.cpusToDrain cpu =
      (s.cpusToDrain cpu || addsRequest env s cpus type && cpus cpu) := by
  rw [addsRequest, haltCpus]
  dsimp only
  split_ifs with hneg htype
  · simp [haltLoop_state, hneg]
  · subst htype
    simp [haltLoop_state, not_lt.mp hneg]
  · simp [haltLoop_state, htype]

variable {s s' : DrainSys n}

theorem kept_haltCpus (hs : s.Kept) (env : HaltEnv n) (cpus : Cpumask n) (type : PauseType)
    (hwait : RequestsWait s (.haltCpus env cpus type)) (h : drainStep s (.haltCpus env cpus type) = some s') :
    s'.Kept := by
  cases h
  constructor
  · intro cpu hreq
    rw [cpusToDrain_haltCpus]
    rcases Bool.or_eq_true_iff.mp hreq with hold | hnew
    · rw [hs.pending cpu hold, Bool.true_or]
    · rw [hnew, Bool.or_true]
  · intro cpu hdn
    have hidle : (addsRequest env s.halt cpus type && cpus cpu) = false := by
      cases type with
      | partialHalt => simp [addsRequest]
      | halt =>
        have hnot : cpus cpu ≠ true := by
          intro hcpu
          exact hwait cpu hcpu hdn
        simp [hnot]
    change (s.requested cpu || addsRequest env s.halt cpus type && cpus cpu) = false
    rw [hidle, hs.served cpu hdn, Bool.or_false]

theorem kept_drainNext (hs : s.Kept) {localCpus : Cpumask n} {cpu : Fin n}
    {todo : List (Fin n)} (hthr : s.thread = .draining localCpus (cpu :: todo)) :
    DrainSys.Kept
      { s with thread := .draining localCpus todo, requested := s.requested.clearCpu cpu } := by
  constructor
  · intro c hreq
    apply hs.pending c
    by_cases hc : c = cpu
    · simp [clearCpu, hc] at hreq
    · simpa [clearCpu, hc] using hreq
  · rintro c ⟨hloc, htodo⟩
    by_cases hc : c = cpu
    · simp [clearCpu, hc]
    · have hdn : s.BeingDrained c := by
        simp [DrainSys.BeingDrained, hthr, hloc, htodo, hc]
      simpa [clearCpu, hc] using hs.served c hdn

/-- The copy is cleared, and no request with it. -/
theorem kept_clearDrained (hs : s.Kept) {localCpus : Cpumask n}
    (hthr : s.thread = .draining localCpus []) :
    DrainSys.Kept
      { s with
        halt :=
          { s.halt with cpusToDrain := fun cpu => s.halt.cpusToDrain cpu && !localCpus cpu }
        thread := .asleep } := by
  constructor
  · intro cpu hreq
    have hout : localCpus cpu = false := by
      by_contra hin
      have hdn : s.BeingDrained cpu := by
        simpa [DrainSys.BeingDrained, hthr] using hin
      have := hs.served cpu hdn
      simp_all
    simp [hs.pending cpu hreq, hout]
  · intro cpu hdn
    exact hdn.elim

theorem kept_of_not_draining (hs : s.Kept) (hhalt : s'.halt = s.halt) (hreq : s'.requested = s.requested)
    (hnone : ∀ cpu, ¬s'.BeingDrained cpu) : s'.Kept := by
  constructor
  · rw [hhalt, hreq]
    exact hs.pending
  · intro cpu hdn
    exact absurd hdn (hnone cpu)

/-- Requests that wait for the drain are not lost. -/
theorem kept_step (s : DrainSys n) (op : DrainOp n) (s' : DrainSys n) (hs : s.Kept)
    (hwait : RequestsWait s op) (h : drainStep s op = some s') : s'.Kept := by
  revert h
  fun_cases drainStep s op with
  | case1 env cpus type => exact kept_haltCpus hs env cpus type hwait
  | case2 =>
    rintro ⟨⟩
    refine ⟨fun cpu hreq => ?_, hs.served⟩
    rw [startCpus_state, cpusToDrain_setMask]
    exact hs.pending cpu hreq
  | case3 | case5 | case6 =>
    rintro ⟨⟩
    exact kept_of_not_draining hs rfl rfl (fun _ hdn => hdn)
  | case7 =>
    -- every copied CPU is still to be visited
    rintro ⟨⟩
    refine kept_of_not_draining hs rfl rfl ?_
    rintro cpu ⟨hloc, htodo⟩
    exact htodo (mem_forEachCpu.mpr hloc)
  | case9 _ _ _ hthr =>
    rintro ⟨⟩
    exact kept_drainNext hs hthr
  | case11 _ hthr =>
    rintro ⟨⟩
    exact kept_clearDrained hs hthr
  | _ => exact nofun

/-- As long as no CPU is halted again while the thread still holds it as drained, a CPU with a
request newer than its last drain is in `cpus_to_drain`. -/
theorem drain_request_not_lost {ops : List (DrainOp n)} {s : DrainSys n}
    (hwait : Meets drainStep RequestsWait (.init n) ops)
    (hrun : run drainStep (.init n) ops = some s) (cpu : Fin n)
    (hreq : s.requested cpu = true) : s.halt.cpusToDrain cpu = true := by
  have hinit : (DrainSys.init n).Kept :=
    ⟨fun _ h => by simp [DrainSys.init] at h, fun _ h => h.elim⟩
  exact (run_inv kept_step hinit hwait hrun).pending cpu hreq

def env64 : HaltEnv 2 := ⟨false, fun _ => false⟩

/-- CPU 1 is halted while CPU 0 is being drained, and stays pending when CPU 0 is cleared. -/
theorem drain_request_not_lost_other_cpu :
    ∃ s : DrainSys 2,
      run drainStep (.init 2)
        [.haltCpus env64 (fun c => c = 0) .halt, .lookForWork false, .drainNext,
          .haltCpus env64 (fun c => c = 1) .halt, .clearDrained] = some s ∧
      s.requested 1 = true ∧ s.halt.cpusToDrain 1 = true :=
  ⟨_, rfl, by decide, @drain_request_not_lost 2
    [.haltCpus env64 (fun c => c = 0) .halt, .lookForWork false, .drainNext,
      .haltCpus env64 (fun c => c = 1) .halt, .clearDrained] _ (by decide) rfl 1 (by decide)⟩

/-- CPU 0 is halted, restarted and halted again while its drain is under way: clearing the copy
then drops the second request. -/
theorem drain_request_lost :
    ∃ s : DrainSys 2,
      run drainStep (.init 2)
        [.haltCpus env64 (fun c => c = 0) .halt, .lookForWork false, .drainNext,
          .startCpus (fun c => c = 0) .halt, .haltCpus env64 (fun c => c = 0) .halt,
          .clearDrained] = some s ∧
      s.requested 0 = true ∧ s.halt.cpuHaltMask 0 = true ∧ s.halt.cpusToDrain 0 = false :=
  ⟨_, rfl, by decide, by decide, by decide⟩

end VendorKernel.Walt

import VendorKernel.Lib.Cpumask
import VendorKernel.Lib.Machine

/-! CPU pausing by client votes (`walt_halt.c`): the halt masks, the votes behind them,
and the exact requests under which the two stay in step. -/
namespace VendorKernel.Walt

open Cpumask Machine List Option

inductive PauseType
  | halt
  | partialHalt
  deriving DecidableEq, Repr

inductive PauseClient
  | coreCtl
  | thermal
  | hyp
  | sbt
  deriving DecidableEq, Repr

def PauseClient.bit : PauseClient → BitVec 8
  | coreCtl => 0x01
  | thermal => 0x02
  | hyp => 0x04
  | sbt => 0x08

def EAGAIN : ℤ := 11
def EINVAL : ℤ := 22

/-- `cpu_halt_mask`, `cpu_partial_halt_mask`, the per-CPU votes and the drain thread's set. -/
structure HaltState (n : ℕ) where
  cpuHaltMask : Cpumask n
  cpuPartialHaltMask : Cpumask n
  clientVoteMask : Fin n → PauseType → BitVec 8
  cpusToDrain : Cpumask n

structure HaltEnv (n : ℕ) where
  waltDisabled : Bool
  system32bitEl0Cpumask : Cpumask n

structure HaltReply (n : ℕ) where
  state : HaltState n
  cpus : Cpumask n
  ret : ℤ

variable {n : ℕ}

namespace HaltState

variable (s : HaltState n) (type : PauseType)

def init (n : ℕ) : HaltState n where
  cpuHaltMask _ := false
  cpuPartialHaltMask _ := false
  clientVoteMask _ _ := 0
  cpusToDrain _ := false

def mask (s : HaltState n) : PauseType → Cpumask n
  | .halt => s.cpuHaltMask
  | .partialHalt => s.cpuPartialHaltMask

def setMask (s : HaltState n) (type : PauseType) (m : Cpumask n) : HaltState n :=
  match type with
  | .halt => { s with cpuHaltMask := m }
  | .partialHalt => { s with cpuPartialHaltMask := m }

@[simp] theorem mask_setMask_self (m : Cpumask n) : (s.setMask type m).mask type = m := by
  cases type <;> rfl

theorem mask_setMask_ne {type type' : PauseType} (m : Cpumask n) (h : type' ≠ type) :
    (s.setMask type m).mask type' = s.mask type' := by
  cases type <;> cases type' <;> first | rfl | exact absurd rfl h

@[simp] theorem setMask_mask : s.setMask type (s.mask type) = s := by
  cases type <;> rfl

@[simp] theorem setMask_setMask (m m' : Cpumask n) : (s.setMask type m).setMask type m' = s.setMask type m' := by
  cases type <;> rfl

@[simp] theorem clientVoteMask_setMask (m : Cpumask n) : (s.setMask type m).clientVoteMask = s.clientVoteMask := by
  cases type <;> rfl

end HaltState

/-- The loop of `halt_cpus`: it stops at the first CPU that has to stay for 32-bit tasks. -/
def haltLoop (first32 : Option (Fin n)) (type : PauseType) :
    HaltState n → List (Fin n) → HaltState n × ℤ
  | s, [] => (s, 0)
  | s, cpu :: cpus =>
    if some cpu = first32 then (s, -EINVAL)
    else haltLoop first32 type (s.setMask type ((s.mask type).setCpu cpu)) cpus

def haltCpus (env : HaltEnv n) (s : HaltState n) (cpus : Cpumask n) (type : PauseType) : HaltState n × ℤ :=
  let (s, ret) := haltLoop env.system32bitEl0Cpumask.first type s cpus.forEachCpu
  if ret < 0 then (s, ret)
  else if type = .halt then ({ s with cpusToDrain := fun cpu => s.cpusToDrain cpu || cpus cpu }, ret)
  else (s, ret)

def startCpus (s : HaltState n) (cpus : Cpumask n) (type : PauseType) : HaltState n × ℤ :=
  (cpus.forEachCpu.foldl (fun s cpu => s.setMask type ((s.mask type).clearCpu cpu)) s, 0)

def vote (halt : Bool) (client : PauseClient) (votes : BitVec 8) : BitVec 8 :=
  if halt then votes ||| client.bit else votes &&& ~~~client.bit

def updateClients (s : HaltState n) (cpus : Cpumask n) (halt : Bool) (client : PauseClient)
    (type : PauseType) : HaltState n :=
  { s with
    clientVoteMask := fun cpu type' =>
      if cpus cpu = true ∧ type' = type then vote halt client (s.clientVoteMask cpu type')
      else s.clientVoteMask cpu type' }

def updateHaltCpus (s : HaltState n) (cpus : Cpumask n) (type : PauseType) : Cpumask n :=
  fun cpu => cpus cpu && s.clientVoteMask cpu type == 0

def waltHaltCpus (env : HaltEnv n) (s : HaltState n) (requestedCpus : Cpumask n)
    (client : PauseClient) (type : PauseType) : HaltReply n :=
  let cpus := updateHaltCpus s requestedCpus type
  if cpus.empty then ⟨updateClients s requestedCpus true client type, cpus, 0⟩
  else
    let (s, ret) := haltCpus env s cpus type
    if ret < 0 then ⟨s, cpus, ret⟩
    else ⟨updateClients s requestedCpus true client type, cpus, ret⟩

def waltStartCpus (s : HaltState n) (requestedCpus : Cpumask n) (client : PauseClient)
    (type : PauseType) : HaltReply n :=
  let s := updateClients s requestedCpus false client type
  let cpus := updateHaltCpus s requestedCpus type
  let (s, ret) := startCpus s cpus type
  if ret < 0 then ⟨updateClients s requestedCpus true client type, cpus, ret⟩
  else ⟨s, cpus, ret⟩

/-- The exported entry points refuse to act before WALT is up. -/
def unlessDisabled (env : HaltEnv n) (s : HaltState n) (cpus : Cpumask n) (reply : HaltReply n) : HaltReply n :=
  if env.waltDisabled then ⟨s, cpus, -EAGAIN⟩ else reply

def waltPauseCpus (env : HaltEnv n) (s : HaltState n) (cpus : Cpumask n) (client : PauseClient) : HaltReply n :=
  unlessDisabled env s cpus (waltHaltCpus env s cpus client .halt)

def waltPartialPauseCpus (env : HaltEnv n) (s : HaltState n) (cpus : Cpumask n)
    (client : PauseClient) : HaltReply n :=
  unlessDisabled env s cpus (waltHaltCpus env s cpus client .partialHalt)

def waltResumeCpus (env : HaltEnv n) (s : HaltState n) (cpus : Cpumask n) (client : PauseClient) : HaltReply n :=
  unlessDisabled env s cpus (waltStartCpus s cpus client .halt)

def waltPartialResumeCpus (env : HaltEnv n) (s : HaltState n) (cpus : Cpumask n)
    (client : PauseClient) : HaltReply n :=
  unlessDisabled env s cpus (waltStartCpus s cpus client .partialHalt)

inductive HaltOp
  | waltPauseCpus
  | waltPartialPauseCpus
  | waltResumeCpus
  | waltPartialResumeCpus
  deriving DecidableEq, Repr

structure HaltCall (n : ℕ) where
  op : HaltOp
  cpus : Cpumask n
  client : PauseClient
  env : HaltEnv n

def haltCall (s : HaltState n) (c : HaltCall n) : HaltReply n :=
  match c.op with
  | .waltPauseCpus => waltPauseCpus c.env s c.cpus c.client
  | .waltPartialPauseCpus => waltPartialPauseCpus c.env s c.cpus c.client
  | .waltResumeCpus => waltResumeCpus c.env s c.cpus c.client
  | .waltPartialResumeCpus => waltPartialResumeCpus c.env s c.cpus c.client

/-- `halt_lock` makes the calls one after the other; none of them stops the system. -/
def haltStep (s : HaltState n) (c : HaltCall n) : Option (HaltState n) :=
  some (haltCall s c).state

/-! ### What the loops leave -/

section
variable (first32 : Option (Fin n)) (type : PauseType) (s : HaltState n) (l : List (Fin n))

theorem haltLoop_ret : (haltLoop first32 type s l).2 = if ∃ c, first32 = some c ∧ c ∈ l then -EINVAL else 0 := by
  induction l generalizing s with
  | nil => simp [haltLoop]
  | cons cpu l ih =>
    rw [haltLoop]
    split_ifs with h h' h'
    · rfl
    · exact absurd ⟨cpu, h.symm, mem_cons_self⟩ h'
    · obtain ⟨c, hc, hmem⟩ := h'
      have hne : c ≠ cpu := by rintro rfl; exact h hc.symm
      rw [ih, if_pos ⟨c, hc, (mem_cons.mp hmem).resolve_left hne⟩]
    · rw [ih, if_neg]
      rintro ⟨c, hc, hmem⟩
      exact h' ⟨c, hc, mem_cons_of_mem _ hmem⟩

theorem haltLoop_state :
    (haltLoop first32 type s l).1 = s.setMask type ((l.takeWhile (some · ≠ first32)).foldl setCpu (s.mask type)) := by
  induction l generalizing s with
  | nil => simp [haltLoop]
  | cons cpu l ih =>
    rw [haltLoop]
    by_cases h : some cpu = first32
    · simp [h]
    · rw [if_neg h, ih, takeWhile_cons_of_pos (by simpa using h)]
      simp

theorem startCpus_state (cpus : Cpumask n) :
    (startCpus s cpus type).1 = s.setMask type (cpus.forEachCpu.foldl clearCpu (s.mask type)) := by
  rw [startCpus]
  induction cpus.forEachCpu generalizing s with
  | nil => simp
  | cons cpu l ih => simpa using ih (s.setMask type ((s.mask type).clearCpu cpu))

end

@[simp] theorem mask_updateClients (s : HaltState n) (cpus : Cpumask n) (halt : Bool)
    (client : PauseClient) (type : PauseType) :
    (updateClients s cpus halt client type).mask = s.mask := by
  funext type'
  cases type' <;> rfl

theorem vote_true_ne_zero (client : PauseClient) (votes : BitVec 8) : vote true client votes ≠ 0 := by
  intro h
  have hbit : client.bit = 0 := (BitVec.or_eq_zero_iff.mp h).2
  cases client <;> exact absurd hbit (by decide)

section
variable (env : HaltEnv n) (s : HaltState n) (cpus : Cpumask n) (type : PauseType)

theorem haltCpus_ret :
    (haltCpus env s cpus type).2 =
      if ∃ c, env.system32bitEl0Cpumask.first = some c ∧ cpus c = true then -EINVAL else 0 := by
  have hret := haltLoop_ret env.system32bitEl0Cpumask.first type s cpus.forEachCpu
  simp only [mem_forEachCpu] at hret
  rw [← hret, haltCpus]
  dsimp only
  split_ifs <;> rfl

theorem clientVoteMask_haltCpus : (haltCpus env s cpus type).1.clientVoteMask = s.clientVoteMask := by
  rw [haltCpus]
  dsimp only
  split_ifs <;> simp [haltLoop_state]

theorem mask_haltCpus (type' : PauseType) (cpu : Fin n) :
    (haltCpus env s cpus type).1.mask type' cpu = true ↔ s.mask type' cpu = true ∨
      type' = type ∧ cpus cpu = true ∧ ∀ c, env.system32bitEl0Cpumask.first = some c → cpus c = true → cpu < c := by
  have hmask : (haltCpus env s cpus type).1.mask =
      (haltLoop env.system32bitEl0Cpumask.first type s cpus.forEachCpu).1.mask := by
    rw [haltCpus]
    dsimp only
    split_ifs <;> cases type' <;> rfl
  rw [hmask, haltLoop_state]
  by_cases ht : type' = type
  · subst ht
    rw [HaltState.mask_setMask_self, foldl_setCpu, mem_forEachCpu_takeWhile]
    simp
  · simp [HaltState.mask_setMask_ne _ _ ht, ht]

end

theorem mask_startCpus (s : HaltState n) (cpus : Cpumask n) (type type' : PauseType)
    (cpu : Fin n) :
    (startCpus s cpus type).1.mask type' cpu = true ↔
      s.mask type' cpu = true ∧ ¬(type' = type ∧ cpus cpu = true) := by
  rw [startCpus_state]
  by_cases ht : type' = type
  · subst ht
    simp [foldl_clearCpu]
  · simp [HaltState.mask_setMask_ne _ _ ht, ht]

/-! ### Masks and votes -/

variable {s s' : HaltState n} {cpus : Cpumask n} {type : PauseType} {env : HaltEnv n}

/-- A CPU is in a halt mask exactly when some client has voted to pause it. -/
def VotesMatch (s : HaltState n) : Prop :=
  ∀ type cpu, s.mask type cpu = true ↔ s.clientVoteMask cpu type ≠ 0

def SameVotes (s s' : HaltState n) : Prop :=
  s'.mask = s.mask ∧ s'.clientVoteMask = s.clientVoteMask

/-- The loop over the not yet paused CPUs sets a bit and then meets the 32-bit CPU. -/
def StopsPartWay (env : HaltEnv n) (s : HaltState n) (cpus : Cpumask n) (type : PauseType) :
    Prop :=
  ∃ c, env.system32bitEl0Cpumask.first = some c ∧ updateHaltCpus s cpus type c = true ∧
    ∃ d < c, updateHaltCpus s cpus type d = true

def NoPartialHalt (s : HaltState n) (c : HaltCall n) : Prop :=
  match c.op with
  | .waltPauseCpus => c.env.waltDisabled = true ∨ ¬StopsPartWay c.env s c.cpus .halt
  | .waltPartialPauseCpus => c.env.waltDisabled = true ∨ ¬StopsPartWay c.env s c.cpus .partialHalt
  | .waltResumeCpus | .waltPartialResumeCpus => True

theorem VotesMatch.updateHaltCpus_iff (hs : VotesMatch s) (cpus : Cpumask n) (type : PauseType)
    (cpu : Fin n) : updateHaltCpus s cpus type cpu = true ↔ cpus cpu = true ∧ ¬s.mask type cpu = true := by
  rw [hs type cpu]
  simp [updateHaltCpus]

section
variable (client : PauseClient)

theorem VotesMatch.updateClients_halt (hs : VotesMatch s) (hvo : s'.clientVoteMask = s.clientVoteMask)
    (hmask : ∀ type' cpu, s'.mask type' cpu = true ↔ s.mask type' cpu = true ∨ type' = type ∧ cpus cpu = true) :
    VotesMatch (updateClients s' cpus true client type) := by
  intro type' cpu
  rw [mask_updateClients, hmask, hs type' cpu, updateClients]
  dsimp only
  rw [hvo]
  split_ifs with h
  · obtain ⟨hcpu, rfl⟩ := h
    have hne := vote_true_ne_zero client (s.clientVoteMask cpu type')
    exact iff_of_true (.inr ⟨rfl, hcpu⟩) hne
  · have h' : ¬(type' = type ∧ cpus cpu = true) := fun hc => h hc.symm
    simp [h']

theorem waltHaltCpus_succeeds (hs : VotesMatch s)
    (hfree : ∀ c, env.system32bitEl0Cpumask.first = some c → ¬updateHaltCpus s cpus type c = true) :
    VotesMatch (waltHaltCpus env s cpus client type).state ∧ (waltHaltCpus env s cpus client type).ret = 0 := by
  have hfree' : ¬∃ c, env.system32bitEl0Cpumask.first = some c ∧ updateHaltCpus s cpus type c = true := by
    rintro ⟨c, hc, hmem⟩
    exact hfree c hc hmem
  have hret := haltCpus_ret env s (updateHaltCpus s cpus type) type
  rw [if_neg hfree'] at hret
  rw [waltHaltCpus]
  dsimp only
  split_ifs with hemp hneg
  · refine ⟨hs.updateClients_halt client rfl ?_, rfl⟩
    intro type' cpu
    have hcpu := hs.updateHaltCpus_iff cpus type cpu
    rw [empty_iff.mp hemp cpu] at hcpu
    constructor
    · exact .inl
    · rintro (h | ⟨rfl, h⟩)
      · exact h
      · simpa [h] using hcpu
  · rw [hret] at hneg
    exact absurd hneg (by decide)
  · refine ⟨hs.updateClients_halt client (clientVoteMask_haltCpus ..) ?_, hret⟩
    intro type' cpu
    rw [mask_haltCpus]
    have hcpu := hs.updateHaltCpus_iff cpus type cpu
    by_cases ht : type' = type
    · subst ht
      tauto
    · simp [ht]

/-- A pause that meets the 32-bit CPU fails with the lower fresh CPUs left in the mask. -/
theorem waltHaltCpus_fails {c : Fin n} (hfst : env.system32bitEl0Cpumask.first = some c)
    (hc : updateHaltCpus s cpus type c = true) :
    (waltHaltCpus env s cpus client type).ret = -EINVAL ∧
      (waltHaltCpus env s cpus client type).state.clientVoteMask = s.clientVoteMask ∧
      ∀ type' cpu, (waltHaltCpus env s cpus client type).state.mask type' cpu = true ↔
        s.mask type' cpu = true ∨ type' = type ∧ updateHaltCpus s cpus type cpu = true ∧ cpu < c := by
  have hret := haltCpus_ret env s (updateHaltCpus s cpus type) type
  rw [if_pos ⟨c, hfst, hc⟩] at hret
  have hnonempty : ¬(updateHaltCpus s cpus type).empty = true := by
    intro h
    rw [empty_iff.mp h c] at hc
    exact absurd hc (by decide)
  have hneg : (haltCpus env s (updateHaltCpus s cpus type) type).2 < 0 := by
    rw [hret]
    decide
  have heq : waltHaltCpus env s cpus client type =
      ⟨(haltCpus env s (updateHaltCpus s cpus type) type).1, updateHaltCpus s cpus type,
        (haltCpus env s (updateHaltCpus s cpus type) type).2⟩ := by
    rw [waltHaltCpus]
    dsimp only
    rw [if_neg hnonempty, if_pos hneg]
  rw [heq]
  refine ⟨hret, clientVoteMask_haltCpus .., ?_⟩
  intro type' cpu
  rw [mask_haltCpus, hfst]
  simp [hc]

theorem waltStartCpus_keeps (hs : VotesMatch s) (cpus : Cpumask n) (type : PauseType) :
    VotesMatch (waltStartCpus s cpus client type).state ∧ (waltStartCpus s cpus client type).ret = 0 := by
  refine ⟨?_, rfl⟩
  intro type' cpu
  have hm := hs type' cpu
  have hsta : (waltStartCpus s cpus client type).state =
      (startCpus (updateClients s cpus false client type)
        (updateHaltCpus (updateClients s cpus false client type) cpus type) type).1 := rfl
  rw [hsta, mask_startCpus, startCpus_state, HaltState.clientVoteMask_setMask, mask_updateClients, hm]
  by_cases h : cpus cpu = true ∧ type' = type
  · obtain ⟨hcpu, rfl⟩ := h
    have hzero : s.clientVoteMask cpu type' = 0 → vote false client (s.clientVoteMask cpu type') = 0 := by
      intro h0
      simp [h0, vote]
    simp only [updateClients, updateHaltCpus, hcpu, and_self, if_true, true_and, Bool.true_and, beq_iff_eq]
    tauto
  · have hfs : ¬(type' = type ∧ updateHaltCpus (updateClients s cpus false client type) cpus type cpu = true) := by
      rintro ⟨rfl, hu⟩
      simp only [updateHaltCpus, Bool.and_eq_true] at hu
      exact h ⟨hu.1, rfl⟩
    rw [and_iff_left hfs]
    simp [updateClients, h]

end

def ReplyKeeps (s : HaltState n) (reply : HaltReply n) : Prop :=
  VotesMatch reply.state ∧ (reply.ret < 0 → SameVotes s reply.state)

section
variable (hs : VotesMatch s) (cpus : Cpumask n) (client : PauseClient) (type : PauseType)
include hs

/-- Only a halt that stops part way breaks the votes. -/
theorem replyKeeps_waltHaltCpus_iff :
    ReplyKeeps s (waltHaltCpus env s cpus client type) ↔ ¬StopsPartWay env s cpus type := by
  by_cases hfree : ∃ c, env.system32bitEl0Cpumask.first = some c ∧ updateHaltCpus s cpus type c = true
  · obtain ⟨c, hfst, hc⟩ := hfree
    obtain ⟨hret, hvo, hmask⟩ := waltHaltCpus_fails client hfst hc
    constructor
    · rintro ⟨hlaw, -⟩ ⟨c', hfst', -, d, hd, hfs⟩
      obtain rfl : c = c' := some.inj (hfst.symm.trans hfst')
      have hset := (hmask type d).mpr (.inr ⟨rfl, hfs, hd⟩)
      have hvote := (hlaw type d).mp hset
      rw [hvo] at hvote
      exact ((hs.updateHaltCpus_iff cpus type d).mp hfs).2 ((hs type d).mpr hvote)
    · intro hstop
      have hsame : (waltHaltCpus env s cpus client type).state.mask = s.mask := by
        funext type' cpu
        rw [Bool.eq_iff_iff, hmask]
        apply or_iff_left
        rintro ⟨-, hfs, hlt⟩
        exact hstop ⟨c, hfst, hc, cpu, hlt, hfs⟩
      refine ⟨?_, fun _ => ⟨hsame, hvo⟩⟩
      intro type' cpu
      rw [hsame, hvo]
      exact hs type' cpu
  · have hok := waltHaltCpus_succeeds client hs fun c hc hm => hfree ⟨c, hc, hm⟩
    refine iff_of_true ⟨hok.1, ?_⟩ ?_
    · intro hneg
      rw [hok.2] at hneg
      exact absurd hneg (by decide)
    · rintro ⟨c, hfst, hc, -⟩
      exact hfree ⟨c, hfst, hc⟩

theorem replyKeeps_waltStartCpus : ReplyKeeps s (waltStartCpus s cpus client type) := by
  obtain ⟨hlaw, hret⟩ := waltStartCpus_keeps client hs cpus type
  refine ⟨hlaw, ?_⟩
  intro hneg
  rw [hret] at hneg
  exact absurd hneg (by decide)

end

theorem replyKeeps_unlessDisabled (hs : VotesMatch s) (cpus : Cpumask n) (reply : HaltReply n) :
    ReplyKeeps s (unlessDisabled env s cpus reply) ↔ env.waltDisabled = true ∨ ReplyKeeps s reply := by
  rw [unlessDisabled]
  split_ifs with h
  · exact iff_of_true ⟨hs, fun _ => ⟨rfl, rfl⟩⟩ (.inl h)
  · exact (or_iff_right h).symm

def CallKeeps (s : HaltState n) (c : HaltCall n) : Prop :=
  ReplyKeeps s (haltCall s c)

theorem callKeeps_iff (hs : VotesMatch s) (c : HaltCall n) : CallKeeps s c ↔ NoPartialHalt s c := by
  obtain ⟨op, cpus, client, env⟩ := c
  cases op with
  | waltPauseCpus =>
    exact (replyKeeps_unlessDisabled hs cpus _).trans
      (or_congr_right (replyKeeps_waltHaltCpus_iff hs cpus client .halt))
  | waltPartialPauseCpus =>
    exact (replyKeeps_unlessDisabled hs cpus _).trans
      (or_congr_right (replyKeeps_waltHaltCpus_iff hs cpus client .partialHalt))
  | waltResumeCpus =>
    exact iff_of_true ((replyKeeps_unlessDisabled hs cpus _).mpr
      (.inr (replyKeeps_waltStartCpus hs cpus client .halt))) trivial
  | waltPartialResumeCpus =>
    exact iff_of_true ((replyKeeps_unlessDisabled hs cpus _).mpr
      (.inr (replyKeeps_waltStartCpus hs cpus client .partialHalt))) trivial

theorem haltState_init_votesMatch (n : ℕ) : VotesMatch (HaltState.init n) := by
  intro type cpu
  cases type <;> simp [HaltState.init, HaltState.mask]

/-- Along every sequence of calls, masks match votes and errors change nothing exactly when
no request stops part way. -/
theorem halt_votes_match_iff (calls : List (HaltCall n)) :
    Meets haltStep CallKeeps (HaltState.init n) calls ↔ Meets haltStep NoPartialHalt (HaltState.init n) calls := by
  refine meets_iff (fun s c hs => callKeeps_iff hs c) ?_ (haltState_init_votesMatch n)
  intro s c s' _ hkp hstep
  obtain rfl : (haltCall s c).state = s' := some.inj hstep
  exact hkp.1

/-- CPU 0 is halted without a vote when the request also holds CPU 1, the 32-bit one. -/
theorem halt_votes_mismatch :
    ¬Meets haltStep CallKeeps (HaltState.init 2)
      [⟨.waltPauseCpus, fun _ => true, .thermal, ⟨false, fun cpu => cpu == 1⟩⟩] := by
  rintro ⟨⟨hlaw, -⟩, -⟩
  have h := hlaw .halt 0
  exact absurd (h.mp (by decide)) (by decide)

end VendorKernel.Walt

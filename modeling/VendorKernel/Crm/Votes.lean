import Mathlib.Data.Fintype.Basic
import VendorKernel.Lib.Machine

/-! Active votes for one resource of a software DRV (`crm.c`): threads in `crm_send_cmd`, the hardware that
answers, and `crm_vote_complete_irq`. -/
namespace VendorKernel.Crm

open Machine Function Option Nat

inductive Caller where
  | idle
  | waiting (vote : ℕ)
deriving DecidableEq

structure SwVotes (n : ℕ) where
  inProgress : Bool
  wait : Bool
  done : ℕ
  callers : Fin n → Caller
  outstanding : Option ℕ
  /-- `IRQ_STATUS`, with the vote that was answered. -/
  irqStatus : Option ℕ
  /-- Not in the source: votes are numbered, and this is the next one. -/
  issued : ℕ
  /-- Not in the source: the votes that the hardware has answered. -/
  answered : ℕ → Bool
  /-- Not in the source: the votes whose interrupts have been handled. -/
  handled : ℕ → Bool
  /-- Not in the source: a caller has returned 0 with its vote not answered. -/
  early : Bool
  /-- Not in the source: a caller has timed out after the interrupt for its vote was handled. -/
  late : Bool

inductive Op (n : ℕ) where
  /-- `crm_send_cmd` for an active vote, past `wait_event_lock_irq` and up to its unlock. -/
  | send (t : Fin n) (bwVote wait respReq : Bool)
  | answer
  | irq
  | completed (t : Fin n)
  | timedOut (t : Fin n)

namespace SwVotes

variable {n v : ℕ} {s s' : SwVotes n}

def start : SwVotes n :=
  ⟨false, false, 0, fun _ => .idle, none, none, 0, fun _ => false, fun _ => false, false, false⟩

def setCaller (s : SwVotes n) (t : Fin n) (c : Caller) : SwVotes n :=
  { s with callers := update s.callers t c }

def crmSendCmd (s : SwVotes n) (t : Fin n) (bwVote wait respReq : Bool) : SwVotes n :=
  let s' := { s with
    inProgress := true
    wait := wait
    done := 0
    outstanding := if respReq || (bwVote && wait) then some s.issued else none
    issued := s.issued + 1 }
  if wait then s'.setCaller t (.waiting s.issued) else s'

def crmVoteCompletion (s : SwVotes n) : SwVotes n := { s with inProgress := false, done := s.done + 1 }

def crmVoteCompleteIrq (s : SwVotes n) (vote : ℕ) : SwVotes n :=
  let s' := { s with irqStatus := none, handled := update s.handled vote true }
  if s'.inProgress && s'.wait then s'.crmVoteCompletion else s'

def step (s : SwVotes n) : Op n → Option (SwVotes n)
  | .send t bwVote wait respReq =>
    if s.callers t = .idle ∧ s.inProgress = false then some (s.crmSendCmd t bwVote wait respReq) else none
  | .answer => s.outstanding.map fun vote =>
    { s with outstanding := none, irqStatus := some vote, answered := update s.answered vote true }
  | .irq => s.irqStatus.map s.crmVoteCompleteIrq
  | .completed t =>
    match s.callers t with
    | .idle => none
    | .waiting vote =>
      if s.done = 0 then none
      else some { s.setCaller t .idle with done := s.done - 1, early := s.early || !s.answered vote }
  | .timedOut t =>
    match s.callers t with
    | .idle => none
    | .waiting vote =>
      if s.done = 0 then some { s.setCaller t .idle with late := s.late || s.handled vote } else none

/-- A vote is made with nobody waiting, and waits for the response that it asks for. -/
def Clear (s : SwVotes n) : Op n → Prop
  | .send _ bwVote wait respReq =>
    (∀ t, s.callers t = .idle) ∧ wait = true ∧ (respReq || bwVote) = true
  | _ => True

instance (s : SwVotes n) : ∀ op, Decidable (s.Clear op)
  | .send _ _ _ _ => inferInstanceAs (Decidable (_ ∧ _))
  | .answer | .irq | .completed _ | .timedOut _ => .isTrue trivial

/-- The last vote is on its way through the hardware while the flag is set, and only its caller waits. -/
structure Ordered (s : SwVotes n) : Prop where
  busy : s.inProgress = true → s.wait = true ∧ (s.outstanding.isSome ∨ s.irqStatus.isSome)
  idle : s.inProgress = false → s.outstanding = none ∧ s.irqStatus = none
  last : ∀ v, s.outstanding = some v ∨ s.irqStatus = some v → v + 1 = s.issued
  irq : ∀ v, s.irqStatus = some v → s.outstanding = none ∧ s.answered v = true
  answered : 0 < s.done → ∀ v, v + 1 = s.issued → s.answered v = true
  waiter : ∀ t v, s.callers t = .waiting v → v + 1 = s.issued ∧ (s.handled v = true → 0 < s.done)
  sole : ∀ t t' v, s.callers t = .waiting v → t' ≠ t → s.callers t' = .idle
  handled : ∀ v, s.handled v = true → v < s.issued
  not_early : s.early = false
  not_late : s.late = false

theorem Ordered.leaves (h : s.Ordered) {t : Fin n} (ht : s.callers t = .waiting v) :
    ∀ t', update s.callers t .idle t' = .idle :=
  (forall_update_iff s.callers fun _ c => c = .idle).mpr ⟨rfl, fun t' => h.sole t t' v ht⟩

/-- A vote keeps the order if nobody waits. -/
theorem ordered_send (h : s.Ordered) {t : Fin n} {bwVote respReq : Bool} (hresp : (respReq || bwVote) = true)
    (hidle : ∀ t, s.callers t = .idle) (hflag : s.inProgress = false) :
    (s.crmSendCmd t bwVote true respReq).Ordered := by
  obtain ⟨-, hirq⟩ := h.idle hflag
  have hcall : ∀ t' v, update s.callers t (.waiting s.issued) t' = .waiting v → t' = t ∧ s.issued = v := by
    intro t' v hv
    by_cases ht : t' = t
    · rw [ht, update_self] at hv
      exact ⟨ht, Caller.waiting.inj hv⟩
    · rw [update_of_ne ht, hidle t'] at hv
      cases hv
  simp only [crmSendCmd, if_true, Bool.and_true, hresp]
  refine { h with
    busy := fun _ => ⟨rfl, .inl rfl⟩, idle := nofun, last := fun v hv => ?_, irq := fun v hv => ?_,
    answered := nofun, waiter := fun t' v hv => ?_, sole := fun t₁ t₂ v hv hne => ?_,
    handled := fun v hv => (h.handled v hv).trans (lt_succ_self _) }
  · rcases hv with hv | hv
    · exact congrArg (· + 1) (some.inj hv).symm
    · exact absurd (hirq.symm.trans hv) nofun
  · exact absurd (hirq.symm.trans hv) nofun
  · obtain ⟨-, rfl⟩ := hcall t' v hv
    exact ⟨rfl, fun hhd => absurd (h.handled _ hhd) (lt_irrefl _)⟩
  · obtain ⟨rfl, -⟩ := hcall t₁ v hv
    exact (update_of_ne hne ..).trans (hidle t₂)

theorem ordered_irq (h : s.Ordered) (hv : s.irqStatus = some v) : (s.crmVoteCompleteIrq v).Ordered := by
  have hflag : s.inProgress = true := by
    by_contra hflag
    exact absurd ((h.idle (by simpa using hflag)).2.symm.trans hv) nofun
  obtain ⟨hout, hanswered⟩ := h.irq v hv
  have hlast := h.last v (.inr hv)
  simp only [crmVoteCompleteIrq, hflag, (h.busy hflag).1, Bool.and_self, if_true, crmVoteCompletion]
  refine { h with
    busy := nofun, idle := fun _ => ⟨hout, rfl⟩, last := fun u hu => ?_, irq := nofun,
    answered := fun _ u hu => ?_, waiter := fun t u hu => ⟨(h.waiter t u hu).1, fun _ => succ_pos _⟩,
    handled := (forall_update_iff s.handled fun u b => b = true → u < s.issued).mpr
      ⟨fun _ => hlast ▸ lt_succ_self v, fun u _ => h.handled u⟩ }
  · exact absurd (hout.symm.trans (hu.resolve_right nofun)) nofun
  · obtain rfl : v = u := succ.inj (hlast.trans hu.symm)
    exact hanswered

/-- Votes go through the hardware one at a time. -/
theorem ordered_step {op : Op n} (h : s.Ordered) (hok : s.Clear op) (hs : s.step op = some s') :
    s'.Ordered := by
  cases op with
  | send t bwVote wait respReq =>
    obtain ⟨hidle, rfl, hresp⟩ := hok
    simp only [step, ite_none_right_eq_some, some.injEq] at hs
    exact hs.2 ▸ ordered_send h hresp hidle hs.1.2
  | answer =>
    obtain ⟨v, hv, rfl⟩ := map_eq_some_iff.mp hs
    have hlast := h.last v (.inl hv)
    have hflag : s.inProgress = true := by
      by_contra hflag
      exact absurd ((h.idle (by simpa using hflag)).1.symm.trans hv) nofun
    refine { h with
      busy := fun _ => ⟨(h.busy hflag).1, .inr rfl⟩, idle := fun hidle => absurd (hflag.symm.trans hidle) nofun,
      last := fun u hu => ?_, irq := fun u hu => ?_, answered := fun hdone u hu => ?_ }
    · exact some.inj (hu.resolve_left nofun) ▸ hlast
    · exact ⟨rfl, some.inj hu ▸ update_self ..⟩
    · obtain rfl : v = u := succ.inj (hlast.trans hu.symm)
      exact update_self ..
  | irq =>
    obtain ⟨v, hv, rfl⟩ := map_eq_some_iff.mp hs
    exact ordered_irq h hv
  | completed t =>
    cases ht : s.callers t with
    | idle => simp [step, ht] at hs
    | waiting v =>
      simp only [step, ht, ite_none_left_eq_some, some.injEq] at hs
      obtain ⟨hdone, rfl⟩ := hs
      have hlvs := h.leaves ht
      have hpos := Nat.pos_of_ne_zero hdone
      refine { h with
        answered := fun _ => h.answered hpos
        waiter := fun t' u hu => absurd ((hlvs t').symm.trans hu) nofun
        sole := fun _ t' _ _ _ => hlvs t'
        not_early := ?_ }
      simp [h.not_early, h.answered hpos v (h.waiter t v ht).1]
  | timedOut t =>
    cases ht : s.callers t with
    | idle => simp [step, ht] at hs
    | waiting v =>
      simp only [step, ht, ite_none_right_eq_some, some.injEq] at hs
      obtain ⟨hdone, rfl⟩ := hs
      have hlvs := h.leaves ht
      have hhd : s.handled v = false := by
        by_contra hhd
        exact ((h.waiter t v ht).2 (by simpa using hhd)).ne' hdone
      refine { h with
        waiter := fun t' u hu => absurd ((hlvs t').symm.trans hu) nofun
        sole := fun _ t' _ _ _ => hlvs t'
        not_late := ?_ }
      simp [h.not_late, hhd]

theorem ordered_start : (start : SwVotes n).Ordered := by
  constructor <;> simp [start]

end SwVotes

/-- Over every run whose steps are clear, callers return 0 only once their votes were answered, none times
out after the interrupt for its vote, and `in_progress` is set only while an answer is to come. -/
theorem crm_vote_completes (n : ℕ) (ops : List (Op n))
    (hok : Meets SwVotes.step SwVotes.Clear SwVotes.start ops) (s : SwVotes n)
    (hrun : run SwVotes.step SwVotes.start ops = some s) : s.early = false ∧ s.late = false ∧
      (s.inProgress = true → s.outstanding.isSome ∨ s.irqStatus.isSome) := by
  have hend := run_inv (fun _ _ _ h hok hs => SwVotes.ordered_step h hok hs) SwVotes.ordered_start hok hrun
  exact ⟨hend.not_early, hend.not_late, fun hflag => (hend.busy hflag).2⟩

def inTurn : List (Op 2) :=
  [.send 0 true true false, .answer, .irq, .completed 0, .send 1 true true false, .answer, .irq, .completed 1]

/-- Two callers vote one after the other. -/
theorem crm_vote_completes_in_turn : Meets SwVotes.step SwVotes.Clear SwVotes.start inTurn ∧
    ∃ s, run SwVotes.step SwVotes.start inTurn = some s ∧ (s.issued = 2 ∧ s.inProgress = false) ∧
      s.early = false ∧ s.late = false ∧
      (s.inProgress = true → s.outstanding.isSome ∨ s.irqStatus.isSome) := by
  have hok : Meets SwVotes.step SwVotes.Clear SwVotes.start inTurn := by decide
  exact ⟨hok, _, rfl, by decide, crm_vote_completes 2 inTurn hok _ rfl⟩

/-- The second vote is made before the first caller has seen its completion, which is lost; and a vote
that does not wait is never answered. -/
theorem crm_vote_lost :
    (∃ s : SwVotes 2, run SwVotes.step SwVotes.start
      [.send 0 true true false, .answer, .irq, .send 1 true true false, .timedOut 0] = some s ∧
      s.late = true) ∧
    ∃ s : SwVotes 1, run SwVotes.step SwVotes.start [.send 0 true false false] = some s ∧
      s.inProgress = true ∧ s.outstanding = none ∧ s.irqStatus = none :=
  ⟨⟨_, rfl, by decide⟩, _, rfl, by decide⟩

end VendorKernel.Crm

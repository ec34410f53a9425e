import Mathlib.Algebra.Order.Ring.Int
import VendorKernel.Lib.Machine

/-! Lending interrupts to other VMs (`gh_irq_lend.c`): the entries of the labels, the threads in
`gh_irq_lend_v2`, `gh_irq_reclaim` and `gh_irq_vm_nb_handler`, and the resource manager. -/
namespace VendorKernel.Gunyah.IrqLend

open Machine Function Option

inductive IrqState where
  | none
  | waitReleaseOrAccept
  | waitLend
  | released
  | accepted
  | lent
deriving DecidableEq

structure IrqEntry where
  vmid : ℕ
  state : IrqState
  virqHandle : ℕ

inductive Cmd where
  | released
  | accepted

def Cmd.state : Cmd → IrqState
  | released => .released
  | accepted => .accepted

/-- Where a thread is; `gh_irq_vm_nb_handler` has a VM and labels still to be looked at. -/
inductive Place (n : ℕ) where
  | idle
  | lending (label : Fin n)
  | reclaiming (label : Fin n) (rest : Option (ℕ × List (Fin n)))
  /-- The interrupt is reclaimed, the state is still to be set. -/
  | reclaimed (label : Fin n) (rest : Option (ℕ × List (Fin n)))
  | powerOff (vmid : ℕ) (labels : List (Fin n))
  /-- The notification handler has dropped the lock, `v2_handle` is still to be called. -/
  | calling (label : Fin n) (handle : ℕ)
deriving DecidableEq

namespace Place

variable {n : ℕ}

def after : Option (ℕ × List (Fin n)) → Place n
  | none => idle
  | some (vmid, labels) => powerOff vmid labels

/-- The label whose handle and state are out of step until the thread goes on. -/
def busyWith : Place n → Option (Fin n)
  | lending l | reclaimed l _ => some l
  | idle | reclaiming .. | powerOff .. | calling .. => none

def reclaims : Place n → Option (Fin n)
  | reclaiming l _ => some l
  | idle | lending _ | reclaimed .. | powerOff .. | calling .. => none

def calls : Place n → Option (Fin n)
  | calling l _ => some l
  | idle | lending _ | reclaiming .. | reclaimed .. | powerOff .. => none

@[simp] theorem busyWith_after (rest : Option (ℕ × List (Fin n))) : (after rest).busyWith = none := by
  cases rest <;> rfl

@[simp] theorem calls_after (rest : Option (ℕ × List (Fin n))) : (after rest).calls = none := by
  cases rest <;> rfl

theorem calls_eq_some {p : Place n} {l : Fin n} (h : p.calls = some l) : ∃ handle, p = calling l handle := by
  cases p with
  | calling l handle =>
    cases h
    exact ⟨handle, rfl⟩
  | _ => cases h

end Place

/-- `n` is `GH_IRQ_LABEL_MAX`. -/
structure Lend (m n : ℕ) where
  entries : Fin n → IrqEntry
  threads : Fin m → Place n
  /-- The handle that the current successful lend of a label returned. Not in the source. -/
  lent : Fin n → Option ℕ
  /-- A callback was invoked for another handle. Not in the source. -/
  misled : Bool
  /-- A failed `gh_irq_lend_v2` has left its label in use. Not in the source. -/
  stuck : Bool

inductive LendOp (m n : ℕ) where
  /-- `gh_irq_lend_v2` up to its unlock: whether there is a callback and a vIRQ, and the answer of
  `ghd_rm_get_vmid`. -/
  | lend (t : Fin m) (label : Fin n) (cbHandle virq : Bool) (vmid : Option ℕ)
  | lendReply (t : Fin m) (handle : Option ℕ)
  | reclaim (t : Fin m) (label : Fin n)
  | powerOff (t : Fin m) (vmid : ℕ)
  | look (t : Fin m)
  | reclaimReply (t : Fin m) (ok : Bool)
  | setNone (t : Fin m)
  /-- `gh_irq_released_accepted_nb_handler` up to its unlock, and the call of `v2_handle`. -/
  | notif (t : Fin m) (cmd : Cmd) (handle : ℕ)
  | callback (t : Fin m)

namespace Lend

variable {m n handle : ℕ} {s s' : Lend m n} {t : Fin m} {l : Fin n}

def start : Lend m n := ⟨fun _ => ⟨0, .none, 0⟩, fun _ => .idle, fun _ => none, false, false⟩

def setEntry (s : Lend m n) (l : Fin n) (e : IrqEntry) : Lend m n :=
  { s with entries := update s.entries l e }

def setThread (s : Lend m n) (t : Fin m) (p : Place n) : Lend m n :=
  { s with threads := update s.threads t p }

def returnsError (s : Lend m n) (l : Fin n) : Lend m n :=
  { s with stuck := s.stuck || decide ((s.entries l).state ≠ .none) }

def ghIrqLendV2 (s : Lend m n) (t : Fin m) (l : Fin n) (cbHandle virq : Bool) (vmid : Option ℕ) : Lend m n :=
  if cbHandle = false ∨ virq = false ∨ (s.entries l).state ≠ .none then s
  else
    match vmid with
    | none => (s.setEntry l { s.entries l with state := .none }).returnsError l
    | some vmid =>
      let s' := s.setEntry l { s.entries l with vmid := vmid, state := .waitReleaseOrAccept }
      { s'.setThread t (.lending l) with lent := update s.lent l none }

def Waits (e : IrqEntry) : Prop := e.state = .waitReleaseOrAccept ∨ e.state = .accepted

instance (e : IrqEntry) : Decidable (Waits e) := inferInstanceAs (Decidable (_ ∨ _))

def ghIrqReleasedAcceptedNbHandler (s : Lend m n) (t : Fin m) (cmd : Cmd) (handle : ℕ) : Lend m n :=
  match (List.finRange n).find? fun l => Waits (s.entries l) ∧ handle = (s.entries l).virqHandle with
  | none => s
  | some l => (s.setEntry l { s.entries l with state := cmd.state }).setThread t (.calling l handle)

def step (s : Lend m n) : LendOp m n → Option (Lend m n)
  | .lend t l cbHandle virq vmid =>
    if s.threads t = .idle then some (s.ghIrqLendV2 t l cbHandle virq vmid) else none
  | .lendReply t handle =>
    match s.threads t, handle with
    | .lending l, none => some ((s.returnsError l).setThread t .idle)
    | .lending l, some handle =>
      some { (s.setEntry l { s.entries l with virqHandle := handle }).setThread t .idle with
        lent := update s.lent l (some handle) }
    | _, _ => none
  | .reclaim t l =>
    if s.threads t ≠ .idle then none
    else if (s.entries l).state = .waitReleaseOrAccept ∨ (s.entries l).state = .released then
      some (s.setThread t (.reclaiming l none))
    else some s
  | .powerOff t vmid =>
    if s.threads t = .idle then some (s.setThread t (.powerOff vmid (List.finRange n))) else none
  | .look t =>
    match s.threads t with
    | .powerOff _ [] => some (s.setThread t .idle)
    | .powerOff vmid (l :: ls) =>
      if vmid = (s.entries l).vmid ∧ (Waits (s.entries l) ∨ (s.entries l).state = .released ∨
          (s.entries l).state = .lent) then
        some (s.setThread t (.reclaiming l (some (vmid, ls))))
      else some (s.setThread t (.powerOff vmid ls))
    | _ => none
  | .reclaimReply t ok =>
    match s.threads t with
    | .reclaiming l rest =>
      if ok then some { s.setThread t (.reclaimed l rest) with lent := update s.lent l none }
      else some (s.setThread t (.after rest))
    | _ => none
  | .setNone t =>
    match s.threads t with
    | .reclaimed l rest => some ((s.setEntry l { s.entries l with state := .none }).setThread t (.after rest))
    | _ => none
  | .notif t cmd handle =>
    if s.threads t = .idle then some (s.ghIrqReleasedAcceptedNbHandler t cmd handle) else none
  | .callback t =>
    match s.threads t with
    | .calling l handle =>
      some { s.setThread t .idle with misled := s.misled || decide (s.lent l ≠ some handle) }
    | _ => none

def Busy (s : Lend m n) (l : Fin n) : Prop := ∃ t, (s.threads t).busyWith = some l

instance (s : Lend m n) (l : Fin n) : Decidable (s.Busy l) := inferInstanceAs (Decidable (∃ _, _))

/-- A lend fails only for a label that was reset; no notification matches a label whose thread is yet to store its
handle or reset its state; no reclaim is granted while the callback of its label is to be called. -/
def Clear (s : Lend m n) : LendOp m n → Prop
  | .lendReply t none => ∀ l, s.threads t = .lending l → (s.entries l).state = .none
  | .notif _ _ handle => ∀ l, Waits (s.entries l) → handle = (s.entries l).virqHandle → ¬s.Busy l
  | .reclaimReply t true => ∀ l, (s.threads t).reclaims = some l → ∀ t', (s.threads t').calls ≠ some l
  | _ => True

instance (s : Lend m n) (op : LendOp m n) : Decidable (s.Clear op) := by
  unfold Lend.Clear
  split <;> infer_instance

/-- The handle of a label that waits is that of its lend, unless a thread is busy with it, and so is that of a
callback to be called. -/
structure Tracked (s : Lend m n) : Prop where
  lent : ∀ l, Waits (s.entries l) → s.Busy l ∨ s.lent l = some (s.entries l).virqHandle
  called : ∀ t l handle, s.threads t = .calling l handle →
    s.lent l = some handle ∧ ¬s.Busy l ∧ (s.entries l).state ≠ .none
  not_misled : s.misled = false
  not_stuck : s.stuck = false

theorem Busy.update (hb : s.Busy l) (ht : (s.threads t).busyWith ≠ some l) (p : Place n) :
    (s.setThread t p).Busy l := by
  obtain ⟨t', ht'⟩ := hb
  have hne : t' ≠ t := by
    rintro rfl
    exact ht ht'
  exact ⟨t', by simpa only [setThread, update_of_ne hne] using ht'⟩

theorem Busy.of_update {p : Place n} (hb : (s.setThread t p).Busy l) (hp : p.busyWith ≠ some l) : s.Busy l := by
  obtain ⟨t', ht'⟩ := hb
  by_cases ht : t' = t
  · simp only [ht, setThread, update_self] at ht'
    exact absurd ht' hp
  · exact ⟨t', by simpa only [setThread, update_of_ne ht] using ht'⟩

theorem calling_of_update {p : Place n} (hp : p.calls = none) {t' : Fin m}
    (h : (s.setThread t p).threads t' = .calling l handle) : s.threads t' = .calling l handle := by
  by_cases ht : t' = t
  · simp only [ht, setThread, update_self] at h
    cases h ▸ hp
  · simpa only [setThread, update_of_ne ht] using h

theorem Tracked.goes (h : s.Tracked) (ht : (s.threads t).busyWith = none) {p : Place n} (hp : p.busyWith = none)
    (hcalls : p.calls = none) : (s.setThread t p).Tracked where
  lent l hl := (h.lent l hl).imp_left fun hb => hb.update (by simp [ht]) p
  called t' l handle ht' := by
    obtain ⟨hlent, hbusy, hst⟩ := h.called t' l handle (calling_of_update hcalls ht')
    exact ⟨hlent, fun hb => hbusy (hb.of_update (by simp [hp])), hst⟩
  not_misled := h.not_misled
  not_stuck := h.not_stuck

theorem Tracked.not_calls (h : s.Tracked) (hl : s.Busy l ∨ (s.entries l).state = .none) (t : Fin m) :
    (s.threads t).calls ≠ some l := by
  intro hc
  obtain ⟨handle, hp⟩ := Place.calls_eq_some hc
  obtain ⟨-, hbusy, hst⟩ := h.called t l handle hp
  exact hl.elim hbusy hst

section
variable (h : s.Tracked) {e : IrqEntry} (hold : ∀ l', l' ≠ l → (s.threads t).busyWith ≠ some l')
  (hfree : ∀ t', (s.threads t').calls ≠ some l) {p : Place n} (hp : ∀ l', l' ≠ l → p.busyWith ≠ some l')
  (hcalls : p.calls = none)
include h hold hfree hp hcalls

theorem Tracked.move {o : Option ℕ} (hnew : Waits e → p.busyWith = some l ∨ o = some e.virqHandle) :
    Tracked { (s.setEntry l e).setThread t p with lent := update s.lent l o } where
  lent := by
    refine (forall_update_iff s.entries fun l' e => Waits e → Busy _ l' ∨
      update s.lent l o l' = some e.virqHandle).mpr ⟨fun he => ?_, fun l' hl he => ?_⟩
    · rw [update_self]
      refine (hnew he).imp_left fun hp => ⟨t, ?_⟩
      simpa only [setThread, update_self] using hp
    · rw [update_of_ne hl]
      exact (h.lent l' he).imp_left fun hb => hb.update (hold l' hl) p
  called t' l' handle ht' := by
    have hcalling : s.threads t' = .calling l' handle := calling_of_update hcalls ht'
    have hl : l' ≠ l := by
      rintro rfl
      exact hfree t' (by rw [hcalling, Place.calls])
    obtain ⟨hlent, hbusy, hst⟩ := h.called t' l' handle hcalling
    refine ⟨?_, fun hb => hbusy (Busy.of_update hb (hp l' hl)), ?_⟩
    · simpa only [update_of_ne hl] using hlent
    · simpa only [setThread, setEntry, update_of_ne hl] using hst
  not_misled := h.not_misled
  not_stuck := h.not_stuck

theorem Tracked.settled (he : ¬Waits e) : ((s.setEntry l e).setThread t p).Tracked := by
  have hmove := h.move (o := s.lent l) hold hfree hp hcalls fun hw => absurd hw he
  rwa [update_eq_self] at hmove

end

theorem returnsError_eq (hnone : (s.entries l).state = .none) : s.returnsError l = s := by
  simp [returnsError, hnone]

/-- The handler calls back for the handle of the lend. -/
theorem tracked_notif (h : s.Tracked) (ht : s.threads t = .idle) {cmd : Cmd} (hok : s.Clear (.notif t cmd handle)) :
    (s.ghIrqReleasedAcceptedNbHandler t cmd handle).Tracked := by
  unfold ghIrqReleasedAcceptedNbHandler
  split
  · exact h
  next l hfind =>
  obtain ⟨hwaits, rfl⟩ : Waits (s.entries l) ∧ handle = (s.entries l).virqHandle := by
    simpa using List.find?_some hfind
  have hbusy := hok l hwaits rfl
  have hlent := (h.lent l hwaits).resolve_left hbusy
  have hold : ∀ l', ((s.setEntry l { s.entries l with state := cmd.state }).setThread t
      (.calling l (s.entries l).virqHandle)).Busy l' → s.Busy l' := fun l' hb => hb.of_update nofun
  refine ⟨?_, fun t' l' handle ht' => ?_, h.not_misled, h.not_stuck⟩
  · refine (forall_update_iff s.entries fun l' e => Waits e → Busy _ l' ∨
      s.lent l' = some e.virqHandle).mpr ⟨fun _ => .inr hlent, fun l' _ hl => ?_⟩
    exact (h.lent l' hl).imp_left fun hb => hb.update (by simp [ht, Place.busyWith]) _
  · have hst : ∀ l', (s.entries l').state ≠ .none ∨ l' = l →
        (update s.entries l { s.entries l with state := cmd.state } l').state ≠ .none := by
      intro l' hl'
      by_cases hl : l' = l
      · rw [hl, update_self]
        cases cmd <;> exact nofun
      · rw [update_of_ne hl]
        exact hl'.resolve_right hl
    by_cases htt : t' = t
    · subst htt
      simp only [setThread, update_self, Place.calling.injEq] at ht'
      obtain ⟨rfl, rfl⟩ := ht'
      exact ⟨hlent, fun hb => hbusy (hold _ hb), hst _ (.inr rfl)⟩
    · simp only [setThread, update_of_ne htt] at ht'
      obtain ⟨hlent', hbusy', hst'⟩ := h.called t' l' handle ht'
      exact ⟨hlent', fun hb => hbusy' (hold _ hb), hst _ (.inl hst')⟩

theorem tracked_lend (h : s.Tracked) (ht : s.threads t = .idle) (cbHandle virq : Bool) (vmid : Option ℕ) :
    (s.ghIrqLendV2 t l cbHandle virq vmid).Tracked := by
  unfold ghIrqLendV2
  split_ifs with hrefu
  · exact h
  · have hnone : (s.entries l).state = .none := by simpa using (not_or.mp (not_or.mp hrefu).2).2
    cases vmid with
    | none =>
      have hsame : s.setEntry l { s.entries l with state := .none } = s := by
        rw [← hnone, setEntry, update_eq_self]
      rw [hsame, returnsError_eq hnone]
      exact h
    | some vmid =>
      exact h.move (by simp [ht, Place.busyWith]) (h.not_calls (.inr hnone))
        (by simpa [Place.busyWith] using fun l' => Ne.symm) rfl fun _ => .inl rfl

/-- Clear steps keep handles and lends together. -/
theorem tracked_step {op : LendOp m n} (h : s.Tracked) (hok : s.Clear op) (hs : s.step op = some s') :
    s'.Tracked := by
  revert hs
  fun_cases step s op with
  | case1 t l cbHandle virq vmid hidle =>
    rintro ⟨⟩
    exact tracked_lend h hidle cbHandle virq vmid
  | case3 t l hp =>
    rintro ⟨⟩
    have hsettled := h.settled (t := t) (e := s.entries l) (p := .idle)
      (by simpa [hp, Place.busyWith] using fun l' => Ne.symm) (h.not_calls (.inr (hok l hp)))
      (by simp [Place.busyWith]) rfl (by simp [Waits, hok l hp])
    rw [setEntry, update_eq_self] at hsettled
    rwa [returnsError_eq (hok l hp)]
  | case4 t l handle hp =>
    rintro ⟨⟩
    exact h.move (by simpa [hp, Place.busyWith] using fun l' => Ne.symm)
      (h.not_calls (.inl ⟨t, by rw [hp, Place.busyWith]⟩)) (by simp [Place.busyWith]) rfl fun _ => .inr rfl
  | case7 t l hidle =>
    rintro ⟨⟩
    exact h.goes (by rw [not_not.mp hidle, Place.busyWith]) rfl rfl
  | case8 =>
    rintro ⟨⟩
    exact h
  | case9 t vmid hp | case11 t vmid hp | case12 t vmid l ls hp | case13 t vmid l ls hp =>
    rintro ⟨⟩
    exact h.goes (by rw [hp, Place.busyWith]) rfl rfl
  | case15 t l rest hp =>
    rintro ⟨⟩
    have hmove : Tracked { (s.setEntry l (s.entries l)).setThread t (.reclaimed l rest) with
        lent := update s.lent l none } :=
      h.move (by simp [hp, Place.busyWith]) (hok l (by rw [hp, Place.reclaims]))
        (by simpa [Place.busyWith] using fun l' => Ne.symm) rfl fun _ => .inl rfl
    simpa only [setEntry, update_eq_self] using hmove
  | case16 t ok l rest hp =>
    rintro ⟨⟩
    exact h.goes (by rw [hp, Place.busyWith]) (by simp) (by simp)
  | case18 t l rest hp =>
    rintro ⟨⟩
    exact h.settled (by simpa [hp, Place.busyWith] using fun l' => Ne.symm)
      (h.not_calls (.inl ⟨t, by rw [hp, Place.busyWith]⟩)) (by simp) (by simp) (by simp [Waits])
  | case20 t cmd handle hp =>
    rintro ⟨⟩
    exact tracked_notif h hp hok
  | case22 t l handle hp =>
    rintro ⟨⟩
    have hgoes := h.goes (by rw [hp, Place.busyWith]) rfl rfl (t := t) (p := .idle)
    exact { hgoes with not_misled := by simp [h.not_misled, (h.called t l handle hp).1] }
  | _ => exact nofun

end Lend

/-- Over every run whose steps are clear, callbacks are invoked for the handles of the current lends
only, and a failed `gh_irq_lend_v2` leaves its label available. -/
theorem gh_irq_lend_callbacks (m n : ℕ) (ops : List (LendOp m n))
    (hok : Meets Lend.step Lend.Clear Lend.start ops) (s : Lend m n)
    (hrun : run Lend.step Lend.start ops = some s) : s.misled = false ∧ s.stuck = false := by
  have hini : (Lend.start : Lend m n).Tracked :=
    ⟨fun l hl => by simp [Lend.start, Lend.Waits] at hl, fun _ _ _ ht => (nomatch ht), rfl, rfl⟩
  have hend := run_inv (fun _ _ _ h hok hs => Lend.tracked_step h hok hs) hini hok hrun
  exact ⟨hend.not_misled, hend.not_stuck⟩

local instance neZeroTwo : NeZero 2 := ⟨by decide⟩

def lentTwice : List (LendOp 2 2) :=
  [.lend 0 0 true true (some 3), .lendReply 0 (some 5), .notif 0 .released 5, .callback 0, .reclaim 0 0,
    .reclaimReply 0 true, .setNone 0, .lend 0 1 true true (some 3), .lendReply 0 (some 5)]

/-- Label 0 is lent, released and reclaimed, and its handle is reused for label 1. -/
theorem gh_irq_lend_callbacks_reused : Meets Lend.step Lend.Clear Lend.start lentTwice ∧
    ∃ s, run Lend.step Lend.start lentTwice = some s ∧ s.lent 1 = some 5 ∧ s.misled = false ∧ s.stuck = false := by
  have hok : Meets Lend.step Lend.Clear Lend.start lentTwice := by decide
  exact ⟨hok, _, rfl, by decide, gh_irq_lend_callbacks 2 2 lentTwice hok _ rfl⟩

/-- While label 0 is lent again, the notification for label 1 goes to its callback; then the lend fails. And
label 0 is reclaimed and lent with a new handle before the callback for the old one is called. -/
theorem gh_irq_lend_stale :
    (∃ s, run Lend.step Lend.start
      (lentTwice ++ [.lend 0 0 true true (some 3), .notif 1 .released 5, .callback 1, .lendReply 0 none]) = some s ∧
      s.misled = true ∧ s.stuck = true ∧ (s.entries 1).state = .waitReleaseOrAccept) ∧
    ∃ s, run Lend.step (Lend.start : Lend 2 2)
      [.lend 0 0 true true (some 3), .lendReply 0 (some 5), .notif 1 .released 5, .powerOff 0 3, .look 0,
        .reclaimReply 0 true, .setNone 0, .look 0, .look 0, .lend 0 0 true true (some 3), .lendReply 0 (some 6),
        .callback 1] = some s ∧ s.lent 0 = some 6 ∧ s.misled = true :=
  ⟨⟨_, rfl, by decide⟩, _, rfl, by decide⟩

end VendorKernel.Gunyah.IrqLend

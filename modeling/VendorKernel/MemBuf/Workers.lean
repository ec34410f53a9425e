import VendorKernel.Lib.Custody
import VendorKernel.Lib.Machine

/-! The life of the objects on `mem_buf_xfer_mem_list` (`mem-buf-gh.c`). The workers of `mem_buf_wq` and
the power-off of a VM run at the same time; the list has a lock, the objects have none. -/
namespace VendorKernel.MemBuf

open Machine Custody Function Option List Bool

inductive Holder where
  | allocReq (r : ℕ)
  | relinquish (w : ℕ)
  | relinquishAll
deriving DecidableEq

inductive ReqPlace where
  | start
  | published
  | responding
  | failed
  | removed
  | done
deriving DecidableEq

def ReqPlace.live : ReqPlace → Bool
  | published | responding | failed => true
  | start | removed | done => false

structure Workers where
  /-- `mem_buf_xfer_mem_list`. Not in the source: who has taken an object, and how often one was cleaned up.
  -/
  custody : Custody ℕ Holder
  req : ℕ → ReqPlace
  objId : ℕ → ℕ
  dstVmids : ℕ → List ℕ
  /-- `mem_buf_relinquish_all_mem` has the lock: its VM, and what is left of the list. The other paths
  have it for one step only. -/
  todo : Option (ℕ × List ℕ)
  /-- Not in the source: an object was accessed after it had been cleaned up. -/
  stale : Bool

namespace Workers

def init : Workers := ⟨.empty, fun _ => .start, fun _ => 0, fun _ => [], none, false⟩

def touch (s : Workers) (os : List ℕ) : Workers :=
  { s with stale := s.stale || os.any fun o => 0 < s.custody.disposed o }

def setReq (s : Workers) (r : ℕ) (place : ReqPlace) : Workers :=
  { s with req := update s.req r place }

/-- `list_del` does not ask whether the object is on the list. -/
def listDel (s : Workers) (h : Holder) (o : ℕ) : Workers :=
  { s.touch (o :: s.custody.shelf) with custody := s.custody.take h o }

def cleanup (s : Workers) (h : Holder) (o : ℕ) : Workers :=
  { s.touch [o] with custody := s.custody.dispose h o }

inductive WorkerOp where
  | processAllocReq (r objId : ℕ) (dstVmids : List ℕ)
  | refuse (r : ℕ)
  | readObject (r : ℕ)
  | respond (r : ℕ) (made : Bool) (errno : ℕ)
  | outErr (r : ℕ)
  | outErrCleanup (r : ℕ)
  | relinquish (w objId : ℕ)
  | relinquishCleanup (w : ℕ)
  | relinquishAll (vmid : ℕ)
  | nextObject
  | nextCleanup
  | unlock

open WorkerOp

def publish (s : Workers) (r objId : ℕ) (dstVmids : List ℕ) : Workers :=
  { (s.touch s.custody.shelf).setReq r .published with
    custody := s.custody.put r
    objId := update s.objId r objId
    dstVmids := update s.dstVmids r dstVmids }

def relinquishStep (s : Workers) (w objId : ℕ) : Workers :=
  match s.custody.shelf.find? fun o => s.objId o = objId with
  | none => s.touch s.custody.shelf
  | some o => s.listDel (.relinquish w) o

def nextStep (s : Workers) (vmid o : ℕ) (rest : List ℕ) : Workers :=
  let s := { s with todo := some (vmid, rest) }
  if s.dstVmids o = [vmid] then s.listDel .relinquishAll o else s.touch [o]

def step (s : Workers) : WorkerOp → Option Workers
  | processAllocReq r objId dstVmids =>
    if s.todo = none ∧ s.req r = .start then some (s.publish r objId dstVmids) else none
  | refuse r => if s.req r = .start then some (s.setReq r .done) else none
  | readObject r => if s.req r = .published then some ((s.touch [r]).setReq r .responding) else none
  | respond r made errno =>
    if s.req r = .responding then
      some (s.setReq r (if made = true ∧ errno = 0 then .done else .failed))
    else none
  | outErr r =>
    if s.todo = none ∧ s.req r = .failed then some ((s.listDel (.allocReq r) r).setReq r .removed) else none
  | outErrCleanup r =>
    if s.req r = .removed then some ((s.setReq r .done).cleanup (.allocReq r) r) else none
  | relinquish w objId =>
    if s.todo = none ∧ s.custody.holds (.relinquish w) = none then some (s.relinquishStep w objId) else none
  | relinquishCleanup w =>
    match s.custody.holds (.relinquish w) with
    | none => none
    | some o => some (s.cleanup (.relinquish w) o)
  | relinquishAll vmid =>
    if s.todo = none then some { s with todo := some (vmid, s.custody.shelf) } else none
  | nextObject =>
    match s.todo, s.custody.holds .relinquishAll with
    | some (vmid, o :: rest), none => some (s.nextStep vmid o rest)
    | _, _ => none
  | nextCleanup =>
    match s.custody.holds .relinquishAll with
    | none => none
    | some o => some (s.cleanup .relinquishAll o)
  | unlock =>
    match s.todo, s.custody.holds .relinquishAll with
    | some (_, []), none => some { s with todo := none }
    | _, _ => none

inductive Moves (s : Workers) : WorkerOp → Workers → Prop
  | publish {r : ℕ} (objId : ℕ) (dstVmids : List ℕ) (hlock : s.todo = none) (hr : s.req r = .start) :
    Moves s (processAllocReq r objId dstVmids) (s.publish r objId dstVmids)
  | refuse {r : ℕ} (hr : s.req r = .start) : Moves s (refuse r) (s.setReq r .done)
  | readObject {r : ℕ} (hr : s.req r = .published) :
    Moves s (readObject r) ((s.touch [r]).setReq r .responding)
  | sent {r : ℕ} {made : Bool} {errno : ℕ} (hr : s.req r = .responding) :
    Moves s (respond r made errno) (s.setReq r .done)
  | fail {r : ℕ} {made : Bool} {errno : ℕ} (hr : s.req r = .responding) :
    Moves s (respond r made errno) (s.setReq r .failed)
  | outErr {r : ℕ} (hlock : s.todo = none) (hr : s.req r = .failed) :
    Moves s (outErr r) ((s.listDel (.allocReq r) r).setReq r .removed)
  | outErrCleanup {r : ℕ} (hr : s.req r = .removed) :
    Moves s (outErrCleanup r) ((s.setReq r .done).cleanup (.allocReq r) r)
  | relinquish (w objId : ℕ) (hlock : s.todo = none) : Moves s (relinquish w objId) (s.relinquishStep w objId)
  | relinquishCleanup (w : ℕ) {o : ℕ} (ho : o ∈ s.custody.holds (.relinquish w)) :
    Moves s (relinquishCleanup w) (s.cleanup (.relinquish w) o)
  | lock (vmid : ℕ) (hlock : s.todo = none) :
    Moves s (relinquishAll vmid) { s with todo := some (vmid, s.custody.shelf) }
  | nextObject {vmid o : ℕ} {rest : List ℕ} (htodo : s.todo = some (vmid, o :: rest)) :
    Moves s nextObject (s.nextStep vmid o rest)
  | nextCleanup {o : ℕ} (ho : o ∈ s.custody.holds .relinquishAll) :
    Moves s nextCleanup (s.cleanup .relinquishAll o)
  | unlock : Moves s unlock { s with todo := none }

/-- What a worker can do. -/
theorem step_moves {s s' : Workers} {op : WorkerOp} (h : s.step op = some s') : s.Moves op s' := by
  revert h
  fun_cases step s op <;> rintro ⟨⟩
  case case1 r objId dstVmids hr => exact .publish objId dstVmids hr.1 hr.2
  case case3 r hr => exact .refuse hr
  case case5 r hr => exact .readObject hr
  case case7 r made errno hr =>
    split
    · exact .sent hr
    · exact .fail hr
  case case9 r hr => exact .outErr hr.1 hr.2
  case case11 r hr => exact .outErrCleanup hr
  case case13 w objId hr => exact .relinquish w objId hr.1
  case case16 w o ho => exact .relinquishCleanup w ho
  case case17 vmid hlock => exact .lock vmid hlock
  case case19 vmid o rest hfree htodo => exact .nextObject htodo
  case case22 o ho => exact .nextCleanup ho
  case case23 => exact .unlock

/-- No object was removed or cleaned up twice, and none was accessed after it had been cleaned up. -/
def Safe (s : Workers) : Prop := s.stale = false ∧ s.custody.Once

/-- The worker's object is not cleaned up when the response is made, and listed when it has failed. -/
def Kept (s : Workers) : WorkerOp → Prop
  | readObject r => s.custody.disposed r = 0
  | outErr r => r ∈ s.custody.shelf
  | _ => True

instance (s : Workers) (op : WorkerOp) : Decidable (s.Kept op) := by
  cases op <;> unfold Kept <;> infer_instance

structure Sole (s : Workers) : Prop where
  sound : s.custody.Sound
  fresh : ∀ r, s.req r = .start → r ∉ s.custody.shelf ∧ s.custody.taken r = 0
  removed : ∀ r, s.req r = .removed → r ∈ s.custody.holds (.allocReq r)
  todo : ∀ vmid rest, s.todo = some (vmid, rest) → rest.Sublist s.custody.shelf
  accessed : s.stale = false

section
variable {s s' : Workers} {r o vmid : ℕ} {h : Holder} {op : WorkerOp}

theorem sole_init : init.Sole :=
  ⟨sound_empty, fun _ _ => ⟨nofun, rfl⟩, nofun, nofun, rfl⟩

section
variable (hs : s.Sole)
include hs

theorem Sole.touch {os : List ℕ} (hos : ∀ o ∈ os, s.custody.disposed o = 0) : (s.touch os).Sole := by
  refine { hs with accessed := ?_ }
  have hnone : (os.any fun o => decide (0 < s.custody.disposed o)) = false := by
    rw [List.any_eq_false]
    intro o ho
    simp [hos o ho]
  rw [Workers.touch, hnone, hs.accessed]
  rfl

theorem Sole.touchShelf : (s.touch s.custody.shelf).Sole :=
  hs.touch fun _ ho => hs.sound.disposed_of_mem ho

theorem Sole.setReq {place : ReqPlace} (hini : place ≠ .start) (hrmd : place ≠ .removed) :
    (s.setReq r place).Sole := by
  refine ⟨hs.sound, fun r' hr' => ?_, fun r' hr' => ?_, hs.todo, hs.accessed⟩
  · simp only [Workers.setReq, update_apply] at hr'
    split_ifs at hr'
    · exact absurd hr' hini
    · exact hs.fresh r' hr'
  · simp only [Workers.setReq, update_apply] at hr'
    split_ifs at hr'
    · exact absurd hr' hrmd
    · exact hs.removed r' hr'

theorem Sole.listDel (ho : o ∈ s.custody.shelf) (hh : ∀ r, s.req r = .removed → .allocReq r ≠ h)
    (htodo : ∀ vmid rest, s.todo = some (vmid, rest) → rest.Sublist (s.custody.shelf.erase o)) :
    (s.listDel h o).Sole := by
  have htch : (s.touch (o :: s.custody.shelf)).Sole :=
    hs.touch (forall_mem_cons.mpr ⟨hs.sound.disposed_of_mem ho, fun _ hmem => hs.sound.disposed_of_mem hmem⟩)
  refine ⟨hs.sound.take h ho, fun r hr => ?_, fun r hr => ?_, htodo, htch.accessed⟩
  · obtain ⟨hsf, htk⟩ := hs.fresh r hr
    have hne : r ≠ o := fun heq => hsf (heq ▸ ho)
    refine ⟨fun hmem => hsf (mem_of_mem_erase hmem), ?_⟩
    exact taken_take.trans ((if_neg hne).trans htk)
  · exact mem_holds_take.mpr (by rw [if_neg (hh r hr)]; exact hs.removed r hr)

theorem Sole.cleanup (ho : o ∈ s.custody.holds h) (hh : ∀ r, s.req r = .removed → .allocReq r ≠ h) :
    (s.cleanup h o).Sole := by
  have htch : (s.touch [o]).Sole :=
    hs.touch (forall_mem_singleton.mpr (hs.sound.held h o ho).2)
  exact ⟨hs.sound.dispose ho, hs.fresh, fun r hr => mem_holds_dispose.mpr ⟨hh r hr, hs.removed r hr⟩,
    hs.todo, htch.accessed⟩

theorem Sole.publish (hr : s.req r = .start) (hlock : s.todo = none) (objId : ℕ) (dstVmids : List ℕ) :
    (s.publish r objId dstVmids).Sole := by
  obtain ⟨hsf, htk⟩ := hs.fresh r hr
  have hset : ((s.touch s.custody.shelf).setReq r .published).Sole :=
    hs.touchShelf.setReq ReqPlace.noConfusion ReqPlace.noConfusion
  refine ⟨hs.sound.put hsf htk, fun r' hr' => ?_, hset.removed, ?_, hset.accessed⟩
  · have hne : r' ≠ r := by
      rintro rfl
      exact ReqPlace.noConfusion ((update_self ..).symm.trans hr')
    obtain ⟨hsf', htk'⟩ := hset.fresh r' hr'
    exact ⟨not_mem_cons_of_ne_of_not_mem hne hsf', htk'⟩
  · intro vmid rest htodo
    exact absurd (hlock.symm.trans htodo) nofun

theorem Sole.outErr (hlock : s.todo = none) (hr : s.req r = .failed) (hmem : r ∈ s.custody.shelf) :
    ((s.listDel (.allocReq r) r).setReq r .removed).Sole := by
  have hdel : (s.listDel (.allocReq r) r).Sole := by
    refine hs.listDel hmem ?_ fun vmid rest htodo => absurd (hlock.symm.trans htodo) nofun
    rintro r' hrmd ⟨⟩
    exact ReqPlace.noConfusion (hr.symm.trans hrmd)
  refine ⟨hdel.sound, fun r' hr' => ?_, fun r' hr' => ?_, hdel.todo, hdel.accessed⟩
  · simp only [Workers.setReq, update_apply] at hr'
    split_ifs at hr'
    exact hdel.fresh r' hr'
  · simp only [Workers.setReq, update_apply] at hr'
    split_ifs at hr' with hsame
    · rw [hsame]
      exact mem_holds_take.mpr (if_pos rfl ▸ rfl)
    · exact hdel.removed r' hr'

theorem Sole.relinquishStep (hlock : s.todo = none) (w objId : ℕ) : (s.relinquishStep w objId).Sole := by
  unfold Workers.relinquishStep
  split
  · exact hs.touchShelf
  · next o hfind =>
    exact hs.listDel (mem_of_find?_eq_some hfind) (fun _ _ => Holder.noConfusion)
      fun vmid rest htodo => absurd (hlock.symm.trans htodo) nofun

theorem Sole.nextStep {rest : List ℕ} (htodo : s.todo = some (vmid, o :: rest)) : (s.nextStep vmid o rest).Sole := by
  have hsub := hs.todo vmid (o :: rest) htodo
  have hmem : o ∈ s.custody.shelf := hsub.subset mem_cons_self
  have hrest : rest.Sublist (s.custody.shelf.erase o) := by
    have her := hsub.erase o
    rwa [erase_cons_head] at her
  have hturn : { s with todo := some (vmid, rest) }.Sole := by
    refine { hs with todo := ?_ }
    rintro vmid' rest' ⟨⟩
    exact (sublist_cons_self o rest).trans hsub
  unfold Workers.nextStep
  dsimp only
  split
  · refine hturn.listDel hmem (fun _ _ => Holder.noConfusion) ?_
    rintro vmid' rest' ⟨⟩
    exact hrest
  · exact hturn.touch (forall_mem_singleton.mpr (hs.sound.disposed_of_mem hmem))

/-- An object is in one pair of hands. -/
theorem Sole.step (hok : s.Kept op) (h : s.step op = some s') : s'.Sole := by
  cases step_moves h with
  | publish objId dstVmids hlock hr => exact hs.publish hr hlock objId dstVmids
  | refuse hr => exact hs.setReq ReqPlace.noConfusion ReqPlace.noConfusion
  | readObject hr =>
    have htch := hs.touch (forall_mem_singleton.mpr hok)
    exact htch.setReq ReqPlace.noConfusion ReqPlace.noConfusion
  | sent hr => exact hs.setReq ReqPlace.noConfusion ReqPlace.noConfusion
  | fail hr => exact hs.setReq ReqPlace.noConfusion ReqPlace.noConfusion
  | outErr hlock hr => exact hs.outErr hlock hr hok
  | @outErrCleanup r hr =>
    have hset : (s.setReq r .done).Sole := hs.setReq ReqPlace.noConfusion ReqPlace.noConfusion
    refine hset.cleanup (hs.removed r hr) ?_
    rintro r' hrmd ⟨⟩
    exact ReqPlace.noConfusion ((update_self ..).symm.trans hrmd)
  | relinquish w objId hlock => exact hs.relinquishStep hlock w objId
  | relinquishCleanup w ho => exact hs.cleanup ho fun _ _ => Holder.noConfusion
  | lock vmid hlock =>
    refine { hs with todo := ?_ }
    rintro vmid' rest ⟨⟩
    exact List.Sublist.refl _
  | nextObject htodo => exact hs.nextStep htodo
  | nextCleanup ho => exact hs.cleanup ho fun _ _ => Holder.noConfusion
  | unlock => exact { hs with todo := nofun }

end

end

structure Later (s s' : Workers) : Prop where
  custody : s.custody.Before s'.custody
  stale : s.stale = true → s'.stale = true

/-- An object that its worker may still go to is on the list, or was taken. -/
def Tracked (s : Workers) : Prop := ∀ r, (s.req r).live = true → s.custody.Known r

section
variable {s s' : Workers} {op : WorkerOp}

theorem touch_stale_of_stale (os : List ℕ) (h : s.stale = true) : (s.touch os).stale = true := by
  rw [touch, h]
  rfl

theorem later_touch (os : List ℕ) : s.Later (s.touch os) := ⟨.refl _, touch_stale_of_stale os⟩

theorem later_listDel (h : Holder) (o : ℕ) : s.Later (s.listDel h o) :=
  ⟨before_take .., touch_stale_of_stale (o :: s.custody.shelf)⟩

theorem later_cleanup (h : Holder) (o : ℕ) : s.Later (s.cleanup h o) :=
  ⟨before_dispose .., touch_stale_of_stale [o]⟩

theorem later_relinquishStep (w objId : ℕ) : s.Later (s.relinquishStep w objId) := by
  unfold relinquishStep
  split
  · exact later_touch _
  · exact later_listDel _ _

theorem later_nextStep (vmid o : ℕ) (rest : List ℕ) : s.Later (s.nextStep vmid o rest) := by
  unfold nextStep
  dsimp only
  split
  · exact ⟨(later_listDel _ o).custody, touch_stale_of_stale _⟩
  · exact ⟨.refl _, touch_stale_of_stale _⟩

theorem Later.safe (h : s.Later s') (hsafe : s'.Safe) : s.Safe := by
  refine ⟨?_, h.custody.once hsafe.2⟩
  rw [eq_false_iff]
  intro hstl
  exact Bool.noConfusion (hsafe.1.symm.trans (h.stale hstl))

theorem step_later (h : s.step op = some s') : s.Later s' := by
  cases step_moves h with
  | publish => exact ⟨before_put .., touch_stale_of_stale _⟩
  | refuse | sent | fail | lock | unlock => exact ⟨.refl _, id⟩
  | readObject => exact ⟨.refl _, touch_stale_of_stale _⟩
  | outErr => exact ⟨(later_listDel _ _).custody, touch_stale_of_stale _⟩
  | outErrCleanup => exact ⟨(later_cleanup _ _).custody, touch_stale_of_stale _⟩
  | relinquish w objId => exact later_relinquishStep w objId
  | relinquishCleanup | nextCleanup => exact later_cleanup _ _
  | nextObject => exact later_nextStep _ _ _

theorem relinquishStep_req (w objId : ℕ) : (s.relinquishStep w objId).req = s.req := by
  unfold relinquishStep
  split
  · rfl
  · rfl

theorem nextStep_req (vmid o : ℕ) (rest : List ℕ) : (s.nextStep vmid o rest).req = s.req := by
  unfold nextStep
  dsimp only
  split
  · rfl
  · rfl

theorem live_of_setReq {r r' : ℕ} {place : ReqPlace} (hr : (s.req r).live = true ∨ place.live = false)
    (h : ((s.setReq r place).req r').live = true) : (s.req r').live = true := by
  simp only [setReq, update_apply] at h
  split_ifs at h with hsame
  · rw [hsame]
    exact hr.resolve_right (by rw [h]; exact Bool.noConfusion)
  · exact h

theorem live_of_step {r : ℕ} (h : s.step op = some s') (hlive : (s'.req r).live = true) :
    (s.req r).live = true ∨ r ∈ s'.custody.shelf := by
  cases step_moves h with
  | @publish r' =>
    by_cases hsame : r = r'
    · rw [hsame]
      exact .inr mem_cons_self
    · exact .inl (update_of_ne hsame .published s.req ▸ hlive)
  | refuse | sent | outErr | outErrCleanup => exact .inl (live_of_setReq (.inr rfl) hlive)
  | readObject hr => exact .inl (live_of_setReq (.inl (hr ▸ rfl)) hlive)
  | fail hr => exact .inl (live_of_setReq (.inl (hr ▸ rfl)) hlive)
  | relinquish w objId => exact .inl (relinquishStep_req w objId ▸ hlive)
  | nextObject => exact .inl (nextStep_req .. ▸ hlive)
  | relinquishCleanup | nextCleanup | lock | unlock => exact .inl hlive

theorem tracked_init : init.Tracked := fun _ => Bool.noConfusion

theorem Tracked.step (ht : s.Tracked) (h : s.step op = some s') : s'.Tracked := by
  intro r hlive
  rcases live_of_step h hlive with hold | hnew
  · exact (step_later h).custody.known r (ht r hold)
  · exact .inl hnew

theorem Tracked.kept (ht : s.Tracked) (h : s.step op = some s') (hsafe : s'.Safe) : s.Kept op := by
  cases step_moves h with
  | @readObject r hr =>
    have haccess : (s.stale || ([r].any fun o => decide (0 < s.custody.disposed o))) = false := hsafe.1
    have hread : s.custody.disposed r = 0 := by
      simpa using (or_eq_false_iff.mp haccess).2
    exact hread
  | @outErr r hlock hr =>
    have htk : (s.custody.take (.allocReq r) r).taken r ≤ 1 := (hsafe.2 r).1
    rw [taken_take, if_pos rfl] at htk
    exact (ht r (hr ▸ rfl)).resolve_right (by omega)
  | _ => trivial

end

/-- In every interleaving of requests, relinquish messages and power-offs, no object is removed or cleaned up
twice or accessed after its cleanup exactly if the worker of a request still finds its object. -/
theorem workers_safe_iff (ops : List WorkerOp) (s : Workers) (h : run step init ops = some s) :
    s.Safe ↔ Meets step Kept init ops := by
  constructor
  · intro hsafe
    have hmeets := meets_of_end (fun _ _ _ ht hs => Tracked.step ht hs)
      (fun _ _ _ ht hs hsafe => ⟨(step_later hs).safe hsafe, ht.kept hs hsafe⟩) tracked_init h hsafe
    exact hmeets.2
  · intro hmeets
    have hsole : s.Sole := run_inv (fun _ _ _ hinv hop hstep => hinv.step hop hstep) sole_init hmeets h
    exact ⟨hsole.accessed, hsole.sound.once⟩

/-- A response that fails with nothing in between, and an object that a message relinquishes afterwards. -/
theorem workers_safe_iff_undisturbed : ∃ s, run step init
      [processAllocReq 0 5 [3], readObject 0, respond 0 true 110, outErr 0, outErrCleanup 0,
        processAllocReq 1 6 [3], readObject 1, respond 1 true 0, relinquish 0 6, relinquishCleanup 0] = some s ∧
    s.custody.taken 1 = 1 ∧ s.Safe := by
  have hrun : (run step init
      [processAllocReq 0 5 [3], readObject 0, respond 0 true 110, outErr 0, outErrCleanup 0,
        processAllocReq 1 6 [3], readObject 1, respond 1 true 0, relinquish 0 6, relinquishCleanup 0]).map
      (fun s => s.custody.taken 1) = some 1 := by
    decide
  obtain ⟨s, hs, htk⟩ := map_eq_some_iff.mp hrun
  exact ⟨s, hs, htk, (workers_safe_iff _ s hs).mpr (by decide)⟩

/-- The VM is powered off while its response is sent: the object is cleaned up and freed by
`mem_buf_relinquish_all_mem`, and again by the worker when the send has failed. -/
theorem power_off_cleans_up_twice :
    (run step init
        [processAllocReq 0 5 [3], readObject 0, relinquishAll 3, nextObject, nextCleanup, unlock,
          respond 0 true 110, outErr 0, outErrCleanup 0]).map
      (fun s => (s.custody.taken 0, s.custody.disposed 0, s.stale)) = some (2, 2, true) := by
  decide

end Workers

end VendorKernel.MemBuf

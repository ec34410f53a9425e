import Mathlib.Data.Int.Notation
import Mathlib.Data.List.Basic
import VendorKernel.Lib.Machine

/-! The channels of a GLINK edge and the two tables they are entered in: `rcids` under the ids of the remote,
`lcids` under local ids. `qcom_glink_work` handles the remote's commands one after the other, the interrupt
OPEN_ACK; threads create endpoints at the same time. Steps are the sections under `idr_lock` and the changes
of a channel between them. -/
namespace VendorKernel.Glink

open Machine

/-- `struct glink_channel`, as far as opening and closing go. An id of 0 is none. -/
structure ChannelObj where
  name : List UInt8
  rcid : ℕ
  lcid : ℕ
  refcount : ℤ
  openReq : Bool
  openAck : Bool
  closeAck : Bool
  /-- Not in the source: allocated by `qcom_glink_create_local`. -/
  isLocal : Bool
  /-- Not in the source: OPEN with this name was handled while the channel was in `lcids`. -/
  asked : Bool

/-- `qcom_glink_work` registers a device, is to take a channel out of `rcids`, or to drop a reference. -/
inductive WorkPlace where
  | idle
  | registering (r : ℕ)
  | closing (r : ℕ)
  | putting (r : ℕ)
deriving DecidableEq

/-- Where a call of `qcom_glink_create_ept` is; `own` is set in `qcom_glink_create_local`. -/
inductive CallerPlace where
  | idle
  | closeAck (r : ℕ)
  | sendOpen (r : ℕ) (own : Bool)
  | assign (r id : ℕ) (own : Bool)
  | tx (r : ℕ) (own : Bool)
  | openAck (r : ℕ) (own : Bool)
  | openReq (r : ℕ)
  | returned (r : ℕ)
  | release (r : ℕ)
  | releaseAlloc (r : ℕ)
deriving DecidableEq

/-- What a caller finds: whether a wait times out, a free id if there is one, and whether OPEN could be sent.
-/
structure CallerEnv where
  timedOut : Bool
  alloc : Option ℕ
  sent : Bool

inductive EdgeOp where
  | rxOpen (rcid : ℕ) (name : List UInt8)
  | rxClose (rcid : ℕ)
  | rxCloseAck (lcid : ℕ)
  | work (registered : Bool)
  | rxOpenAck (lcid : ℕ)
  | irq
  | createEpt (t : ℕ) (name : List UInt8)
  | caller (t : ℕ) (env : CallerEnv)

/-- `struct qcom_glink`. The tables hold pairs of an id and a channel. -/
structure Edge where
  objs : ℕ → ChannelObj
  rcids : List (ℕ × ℕ)
  lcids : List (ℕ × ℕ)
  work : WorkPlace
  irq : Option ℕ
  callers : ℕ → CallerPlace
  /-- Not in the source: no channel has been allocated from this place on. -/
  fresh : ℕ
  /-- Not in the source: some reference count became zero while the channel was in a table. -/
  dropped : Bool

def idrFind (ids : List (ℕ × ℕ)) (id : ℕ) : Option ℕ :=
  (ids.find? fun e => e.1 = id).map Prod.snd

def idrRemove (ids : List (ℕ × ℕ)) (id : ℕ) : List (ℕ × ℕ) := ids.filter fun e => e.1 ≠ id

namespace Edge

def start : Edge :=
  { objs := fun _ => ⟨[], 0, 0, 0, false, false, false, false, false⟩, rcids := [], lcids := [],
    work := .idle, irq := none, callers := fun _ => .idle, fresh := 0, dropped := false }

def setObj (s : Edge) (r : ℕ) (obj : ChannelObj) : Edge :=
  { s with objs := Function.update s.objs r obj }

def setCaller (s : Edge) (t : ℕ) (place : CallerPlace) : Edge :=
  { s with callers := Function.update s.callers t place }

def Entered (s : Edge) (r : ℕ) : Prop := ∃ e ∈ s.rcids ++ s.lcids, e.2 = r

instance (s : Edge) (r : ℕ) : Decidable (s.Entered r) :=
  inferInstanceAs (Decidable (∃ e ∈ s.rcids ++ s.lcids, e.2 = r))

def findName (s : Edge) (name : List UInt8) : Option ℕ :=
  (s.rcids.find? fun e => (s.objs e.2).name = name).map Prod.snd

def krefPut (s : Edge) (r : ℕ) : Edge :=
  let count := (s.objs r).refcount - 1
  { s.setObj r { s.objs r with refcount := count } with
    dropped := s.dropped || decide (count = 0 ∧ s.Entered r) }

def krefGet (s : Edge) (r : ℕ) : Edge :=
  s.setObj r { s.objs r with refcount := (s.objs r).refcount + 1 }

def qcomGlinkAllocChannel (s : Edge) (name : List UInt8) (isLocal : Bool) : Edge :=
  { s.setObj s.fresh ⟨name, 0, 0, 1, false, false, true, isLocal, false⟩ with fresh := s.fresh + 1 }

def removeRcid (s : Edge) (r : ℕ) : Edge :=
  { s.setObj r { s.objs r with rcid := 0 } with rcids := idrRemove s.rcids (s.objs r).rcid }

def removeLcid (s : Edge) (r : ℕ) : Edge :=
  { s.setObj r { s.objs r with lcid := 0 } with lcids := idrRemove s.lcids (s.objs r).lcid }

def markAsked (s : Edge) (name : List UInt8) : Edge :=
  { s with objs := fun r =>
      if (∃ e ∈ s.lcids, e.2 = r) ∧ (s.objs r).name = name then { s.objs r with asked := true }
      else s.objs r }

def enterRcid (s : Edge) (rcid r : ℕ) : Edge :=
  { s.setObj r { s.objs r with rcid := rcid, openReq := true } with rcids := s.rcids ++ [(rcid, r)] }

def qcomGlinkRxOpen (s : Edge) (rcid : ℕ) (name : List UInt8) : Edge :=
  match s.findName name with
  | some r => if idrFind s.rcids rcid = none then s.enterRcid rcid r else s
  | none =>
    let s' := s.qcomGlinkAllocChannel name false
    if idrFind s.rcids rcid = none then
      { s'.enterRcid rcid s.fresh with work := .registering s.fresh }
    else s'.krefPut s.fresh

def qcomGlinkRxClose (s : Edge) (rcid : ℕ) : Edge :=
  match idrFind s.rcids rcid with
  | none => s
  | some r => { s.setObj r { s.objs r with closeAck := true } with work := .closing r }

def qcomGlinkRxCloseAck (s : Edge) (lcid : ℕ) : Edge :=
  match idrFind s.lcids lcid with
  | none => s
  | some r =>
    let s := s.removeLcid r
    { s.setObj r { s.objs r with openAck := false } with work := .putting r }

def qcomGlinkWork (s : Edge) (registered : Bool) : Option Edge :=
  match s.work with
  | .idle => none
  | .registering r =>
    if registered then some { s with work := .idle }
    else some { s.removeRcid r with work := .putting r }
  | .closing r => some { s.removeRcid r with work := .putting r }
  | .putting r => some { s.krefPut r with work := .idle }

def qcomGlinkCreateEpt (s : Edge) (t : ℕ) (name : List UInt8) : Edge :=
  match s.findName name with
  | some r => s.setCaller t (.closeAck r)
  | none => (s.qcomGlinkAllocChannel name true).setCaller t (.sendOpen s.fresh true)

/-- The way out of a failed open: `qcom_glink_create_remote` only sends CLOSE. -/
def giveUp (own : Bool) (r : ℕ) : CallerPlace := if own then .release r else .idle

/-- `qcom_glink_create_local` and `qcom_glink_create_remote`, with `qcom_glink_send_open_req`. -/
def callerStep (s : Edge) (t : ℕ) (env : CallerEnv) : Option Edge :=
  match s.callers t with
  | .idle | .returned _ => none
  | .closeAck r =>
    if (s.objs r).closeAck then some (s.setCaller t (.sendOpen r false))
    else if env.timedOut then some (s.setCaller t .idle)
    else none
  | .sendOpen r own =>
    match env.alloc with
    | none => some ((s.krefGet r).setCaller t (giveUp own r))
    | some id =>
      if id ≠ 0 ∧ idrFind s.lcids id = none then
        some { (s.krefGet r).setCaller t (.assign r id own) with lcids := s.lcids ++ [(id, r)] }
      else none
  | .assign r id own =>
    some ((s.setObj r { s.objs r with lcid := id }).setCaller t (.tx r own))
  | .tx r own =>
    if env.sent then some (s.setCaller t (.openAck r own))
    else some ((s.removeLcid r).setCaller t (giveUp own r))
  | .openAck r own =>
    if (s.objs r).openAck then some (s.setCaller t (if own then .openReq r else .idle))
    else if env.timedOut then
      if own then
        some { s.setCaller t (.release r) with lcids := idrRemove s.lcids (s.objs r).lcid }
      else some (s.setCaller t .idle)
    else none
  | .openReq r =>
    if (s.objs r).openReq then some (s.setCaller t (.returned r))
    else if env.timedOut then
      some { s.setCaller t (.release r) with lcids := idrRemove s.lcids (s.objs r).lcid }
    else none
  | .release r => some ((s.krefPut r).setCaller t (.releaseAlloc r))
  | .releaseAlloc r => some ((s.krefPut r).setCaller t .idle)

/-- A command is handled when `qcom_glink_work` is done with the one before it. -/
def step (s : Edge) : EdgeOp → Option Edge
  | .rxOpen rcid name =>
    if s.work = .idle then some ((s.markAsked name).qcomGlinkRxOpen rcid name) else none
  | .rxClose rcid => if s.work = .idle then some (s.qcomGlinkRxClose rcid) else none
  | .rxCloseAck lcid => if s.work = .idle then some (s.qcomGlinkRxCloseAck lcid) else none
  | .work registered => s.qcomGlinkWork registered
  | .rxOpenAck lcid =>
    if s.irq = none then
      match idrFind s.lcids lcid with
      | none => some s
      | some r => some { s.krefGet r with irq := some r }
    else none
  | .irq =>
    match s.irq with
    | none => none
    | some r =>
      let s := s.setObj r { s.objs r with openAck := true, closeAck := false }
      some { s.krefPut r with irq := none }
  | .createEpt t name => if s.callers t = .idle then some (s.qcomGlinkCreateEpt t name) else none
  | .caller t env => s.callerStep t env

end Edge

end VendorKernel.Glink

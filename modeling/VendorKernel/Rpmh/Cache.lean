import VendorKernel.Lib.Machine
import VendorKernel.Rpmh.Tcs

/-! The RPMH client layer (`rpmh.c`): the cache of sleep and wake votes, the requests that change
it, and the flush that writes it to the TCSes of a channel. -/
namespace VendorKernel.Rpmh

open Machine

def MAX_RPMH_PAYLOAD : ℕ := 16

def CMD_DB_MAX_RESOURCES : ℕ := 250

def UINT_MAX : UInt32 := 0xffffffff

def ENOMEM : ℤ := 12
def EBUSY : ℤ := 16
def EINVAL : ℤ := 22

inductive TcsType where
  | active
  | sleep
  | wake
deriving DecidableEq

structure CacheReq where
  addr : UInt32
  sleepVal : UInt32
  wakeVal : UInt32
deriving DecidableEq

structure RpmhCtrlr where
  rpmhStandalone : Bool
  solverPresent : Bool
  hwChannelPresent : Bool
  inSolverMode : Bool
  numChannels : ℕ
  dirty : Bool
  /-- The commands of `batch_cache`, for the sleep and the wake state. -/
  batchCache : RpmhState → List TcsCmd
  nonBatchCache : List CacheReq
  tcs : ℕ → TcsType → TcsGroup
  /-- The register `RSC_DRV_CHN_UPDATE`, which `RSC_DRV_CHN_BUSY` follows. -/
  chnUpdate : ℕ
  /-- Active requests on the TCSes of a channel whose end has not been handled. -/
  pending : ℕ → ℕ → Bool
  /-- Not in the source: the channel to which the cache was written last. -/
  last : Option ℕ

/-- The calls of clients, with the status of the TCSes that an active request finds, and the interrupt for a
TCS of a channel. -/
inductive RpmhOp where
  | write (state : RpmhState) (waitForCompl : Bool) (cmd : List TcsCmd) (idle : ℕ → Bool)
  | writeBatch (state : RpmhState) (cmd : List TcsCmd) (n : List ℕ) (idle : ℕ → Bool)
  | invalidate
  | writeSleepAndWake
  | txDone (ch tcsId : ℕ)

def getReq (cache : List CacheReq) (addr : UInt32) : CacheReq :=
  (cache.find? fun req => req.addr = addr).getD ⟨addr, UINT_MAX, UINT_MAX⟩

def putReq : List CacheReq → CacheReq → List CacheReq
  | [], req => [req]
  | old :: cache, req => if old.addr = req.addr then req :: cache else old :: putReq cache req

def CacheReq.vote (req : CacheReq) (state : RpmhState) (data : UInt32) : CacheReq :=
  match state with
  | .activeOnly | .wakeOnly => { req with wakeVal := data }
  | .sleep => { req with sleepVal := data }

def isReqValid (req : CacheReq) : Bool :=
  req.sleepVal ≠ UINT_MAX ∧ req.wakeVal ≠ UINT_MAX ∧ req.sleepVal ≠ req.wakeVal

namespace RpmhCtrlr

variable {s s' : RpmhCtrlr}

def start (rpmhStandalone solverPresent hwChannelPresent inSolverMode : Bool) (numChannels : ℕ)
    (numTcs : ℕ → TcsType → ℕ) (ncpt chnUpdate : ℕ) : RpmhCtrlr :=
  { rpmhStandalone := rpmhStandalone, solverPresent := solverPresent,
    hwChannelPresent := hwChannelPresent, inSolverMode := inSolverMode, numChannels := numChannels,
    dirty := false, batchCache := fun _ => [], nonBatchCache := [],
    tcs := fun ch type => .empty (numTcs ch type) ncpt, chnUpdate := chnUpdate,
    pending := fun _ _ => false, last := none }

def setTcs (s : RpmhCtrlr) (ch : ℕ) (type : TcsType) (g : TcsGroup) : RpmhCtrlr :=
  { s with tcs := fun ch' type' => if ch' = ch ∧ type' = type then g else s.tcs ch' type' }

def checkCtrlrState (s : RpmhCtrlr) (state : RpmhState) : Bool :=
  state = .activeOnly ∧ s.solverPresent = true ∧ s.inSolverMode = true

def cacheRpmRequest (s : RpmhCtrlr) (state : RpmhState) (cmd : TcsCmd) : Option RpmhCtrlr :=
  if CMD_DB_MAX_RESOURCES ≤ s.nonBatchCache.length then none
  else
    let old := getReq s.nonBatchCache cmd.addr
    let req := old.vote state cmd.data
    some { s with
      nonBatchCache := putReq s.nonBatchCache req
      dirty := s.dirty || decide ((req.sleepVal ≠ old.sleepVal ∨ req.wakeVal ≠ old.wakeVal) ∧
        req.sleepVal ≠ UINT_MAX ∧ req.wakeVal ≠ UINT_MAX) }

def cacheRpmRequests (s : RpmhCtrlr) (state : RpmhState) : List TcsCmd → RpmhCtrlr × Bool
  | [] => (s, true)
  | cmd :: cmds =>
    match s.cacheRpmRequest state cmd with
    | none => (s, false)
    | some s' => cacheRpmRequests s' state cmds

def rpmhRscGetChannel (s : RpmhCtrlr) : Option ℕ :=
  if s.numChannels = 1 then some 0
  else if s.chnUpdate.testBit 0 then some 1
  else if s.chnUpdate.testBit 1 then some 0
  else none

def getTcsForMsg (s : RpmhCtrlr) (state : RpmhState) (ch : ℕ) : TcsType :=
  match state with
  | .activeOnly => if (s.tcs ch .active).numTcs = 0 then .wake else .active
  | .wakeOnly => .wake
  | .sleep => .sleep

/-- `rpmh_rsc_send_data`; `none` while the request waits for a TCS. -/
def rpmhRscSendData (s : RpmhCtrlr) (msg : TcsRequest) (ch : ℕ) (idle : ℕ → Bool) : Option (RpmhCtrlr × ℤ) :=
  if s.inSolverMode then some (s, -EBUSY)
  else
    let type := s.getTcsForMsg msg.state ch
    match (s.tcs ch type).claimTcsForReq msg idle with
    | none => none
    | some tcsId =>
      let g := (s.tcs ch type).program tcsId msg
      let g := if msg.waitForCompl then g else g.release tcsId
      -- the interrupt is left disabled for a request that nobody waits for on an active TCS
      let irq := msg.waitForCompl || decide (type ≠ .active)
      some ({ s.setTcs ch type g with
        pending := fun ch' m => if ch' = ch ∧ m = tcsId then irq else s.pending ch' m }, 0)

def fillRpmhMsgFails (n : ℕ) : Bool := n = 0 ∨ MAX_RPMH_PAYLOAD < n

def sendActive (s : RpmhCtrlr) (msg : TcsRequest) (idle : ℕ → Bool) : Option (RpmhCtrlr × ℤ) :=
  match s.rpmhRscGetChannel with
  | none => some (s, -EBUSY)
  | some ch => s.rpmhRscSendData msg ch idle

/-- `rpmh_write` and `rpmh_write_async`, without the wait for the completion. -/
def rpmhWrite (s : RpmhCtrlr) (state : RpmhState) (waitForCompl : Bool) (cmd : List TcsCmd)
    (idle : ℕ → Bool) : Option (RpmhCtrlr × ℤ) :=
  if s.rpmhStandalone then some (s, 0)
  else if s.checkCtrlrState state then some (s, -EBUSY)
  else if fillRpmhMsgFails cmd.length then some (s, -EINVAL)
  else
    match s.cacheRpmRequests state cmd with
    | (s, false) => some (s, -ENOMEM)
    | (s, true) => if state = .activeOnly then s.sendActive ⟨state, waitForCompl, cmd⟩ idle else some (s, 0)

/-- `rpmh_write_batch`, without the wait for the completion. Of the counts in `n` only the first is
read. -/
def rpmhWriteBatch (s : RpmhCtrlr) (state : RpmhState) (cmd : List TcsCmd) (n : List ℕ) (idle : ℕ → Bool) :
    Option (RpmhCtrlr × ℤ) :=
  let count := n.headD 0
  if s.rpmhStandalone then some (s, 0)
  else if s.checkCtrlrState state then some (s, -EBUSY)
  else if state = .activeOnly then
    if fillRpmhMsgFails count then some (s, -EINVAL)
    else s.sendActive ⟨state, true, cmd.take count⟩ idle
  else
    let cached := if fillRpmhMsgFails count then [] else cmd.take count
    some ({ s with batchCache := Function.update s.batchCache state cached, dirty := true },
      if fillRpmhMsgFails count then -EINVAL else 0)

def rpmhInvalidate (s : RpmhCtrlr) : RpmhCtrlr :=
  if s.rpmhStandalone then s
  else { s with batchCache := Function.update (Function.update s.batchCache .sleep []) .wakeOnly [], dirty := true }

def rpmhRscInvalidate (s : RpmhCtrlr) (ch : ℕ) : RpmhCtrlr :=
  let s := s.setTcs ch .sleep (s.tcs ch .sleep).tcsInvalidate
  s.setTcs ch .wake (s.tcs ch .wake).tcsInvalidate

def rpmhRscWriteCtrlData (s : RpmhCtrlr) (msg : TcsRequest) (ch : ℕ) : RpmhCtrlr × Bool :=
  let type := s.getTcsForMsg msg.state ch
  match (s.tcs ch type).rpmhRscWriteCtrlData msg with
  | none => (s, false)
  | some g => (s.setTcs ch type g, true)

def writeAll (s : RpmhCtrlr) (ch : ℕ) : List TcsRequest → RpmhCtrlr × Bool
  | [] => (s, true)
  | msg :: msgs =>
    match s.rpmhRscWriteCtrlData msg ch with
    | (s, false) => (s, false)
    | (s, true) => writeAll s ch msgs

def flushBatch (s : RpmhCtrlr) : List TcsRequest :=
  [⟨.sleep, false, s.batchCache .sleep⟩, ⟨.wakeOnly, false, s.batchCache .wakeOnly⟩]

def sendSingle (req : CacheReq) : List TcsRequest :=
  [⟨.sleep, false, [⟨req.addr, req.sleepVal, false⟩]⟩, ⟨.wakeOnly, true, [⟨req.addr, req.wakeVal, false⟩]⟩]

/-- `rpmh_flush`, without the next wakeup. -/
def rpmhFlush (s : RpmhCtrlr) (ch : ℕ) : RpmhCtrlr × ℤ :=
  if s.rpmhStandalone then (s, 0)
  else if s.dirty = false then (s, 0)
  else
    match (s.rpmhRscInvalidate ch).writeAll ch
        (s.flushBatch ++ (s.nonBatchCache.filter fun req => isReqValid req).flatMap sendSingle) with
    | (s, false) => (s, -ENOMEM)
    | (s, true) => ({ s with dirty := false, last := some ch }, 0)

/-- `rpmh_rsc_switch_channel`, which always returns 0. -/
def rpmhRscSwitchChannel (s : RpmhCtrlr) (ch : ℕ) : RpmhCtrlr × ℤ := ({ s with chnUpdate := 1 <<< ch }, 0)

def rpmhWriteSleepAndWake (s : RpmhCtrlr) : RpmhCtrlr × ℤ :=
  match s.rpmhRscGetChannel with
  | none => (s, -EBUSY)
  | some ch =>
    match s.rpmhFlush ch with
    | (s, ret) => if ret ≠ 0 ∨ s.hwChannelPresent = false then (s, ret) else s.rpmhRscSwitchChannel ch

def tcsTxDone (s : RpmhCtrlr) (ch tcsId : ℕ) : Option RpmhCtrlr :=
  if s.pending ch tcsId then
    let type := s.getTcsForMsg .activeOnly ch
    some { s.setTcs ch type (((s.tcs ch type).reclaim tcsId).release tcsId) with
      pending := fun ch' m => if ch' = ch ∧ m = tcsId then false else s.pending ch' m }
  else none

def step (s : RpmhCtrlr) : RpmhOp → Option RpmhCtrlr
  | .write state waitForCompl cmd idle => (s.rpmhWrite state waitForCompl cmd idle).map Prod.fst
  | .writeBatch state cmd n idle => (s.rpmhWriteBatch state cmd n idle).map Prod.fst
  | .invalidate => some s.rpmhInvalidate
  | .writeSleepAndWake => some s.rpmhWriteSleepAndWake.1
  | .txDone ch tcsId => s.tcsTxDone ch tcsId

end RpmhCtrlr

end VendorKernel.Rpmh

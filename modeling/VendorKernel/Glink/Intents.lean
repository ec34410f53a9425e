import Mathlib.Data.List.Nodup
import VendorKernel.Glink.Pipe

/-! Receive intents of a GLINK channel. The remote addresses an intent by its id at any point of its life;
the interrupt handler, the receive thread and clients that release a buffer work on the same intents,
interleaved at the sections under a lock. -/
namespace VendorKernel.Glink

open Machine RingBuffer

/-- `struct glink_core_rx_intent`; the fields for the remote's own intents are left out. -/
structure Intent where
  /-- `none` is NULL. -/
  data : Option ℕ
  id : ℕ
  size : ℕ
  reuse : Bool
  ackPending : Bool
  offset : ℕ
  cbIrqDone : Bool
  /-- Not in the source: what is stored at `data`. -/
  bytes : ℕ → UInt8

def Intent.room (intent : Intent) : ℕ := subSize intent.size intent.offset

def Intent.append (intent : Intent) (payload : ℕ → UInt8) (chunkSize : ℕ) : Intent :=
  { intent with
    bytes := memcpy intent.bytes intent.offset payload chunkSize
    offset := u32 (intent.offset + chunkSize) }

/-- Where `qcom_glink_rx_data_handler` is with a complete intent. -/
inductive IrqPlace where
  | idle
  | handler (r : ℕ)
  | callback (r : ℕ)
  | rxDone (r : ℕ)
  | sendRxDone (r : ℕ)
  | requeue (r : ℕ)
deriving DecidableEq

/-- Where `qcom_glink_rx_thread` is; at `sentRxDone` the remote knows that the intent is free. -/
inductive ThreadPlace where
  | idle
  | popped (r : ℕ)
  | callback (r : ℕ)
  | rxDone (r : ℕ)
  | sendRxDone (r : ℕ)
  | sentRxDone (r : ℕ)
deriving DecidableEq

def IrqPlace.ref : IrqPlace → Option ℕ
  | .idle => none
  | .handler r | .callback r | .rxDone r | .sendRxDone r | .requeue r => some r

def ThreadPlace.ref : ThreadPlace → Option ℕ
  | .idle => none
  | .popped r | .callback r | .rxDone r | .sendRxDone r | .sentRxDone r => some r

structure PayloadCopy where
  offset : ℕ
  count : ℕ
  size : ℕ
deriving DecidableEq

/-- The receive side of `struct glink_channel`. Intents are named by their place in memory. -/
structure Channel where
  intents : ℕ → Intent
  liids : ℕ → Option ℕ
  rxQueue : List ℕ
  deferIntents : List ℕ
  buf : Option ℕ
  irq : IrqPlace
  thread : ThreadPlace
  /-- The calls of `qcom_glink_rx_done` that are in front of sending RX_DONE, and those after it. -/
  clients : List ℕ
  sentClients : List ℕ
  /-- Not in the source: no intent has been allocated from this place on. -/
  fresh : ℕ
  /-- Not in the source: the copies made so far. -/
  copies : List PayloadCopy

/-- Whether the callback may run in the interrupt, the client keeps the buffer, and RX_DONE is sent. -/
structure IrqEnv where
  cbIrq : Bool
  defers : Bool
  sent : Bool

/-- What the thread finds; the address and the id of a new buffer, unless there is no memory. -/
structure ThreadEnv where
  defers : Bool
  sent : Bool
  alloc : Option (ℕ × ℕ)

inductive ChannelOp where
  | intentAlloc (size : ℕ) (reuse ackPending : Bool)
  | txData (liid chunkSize leftSize : ℕ) (payload : ℕ → UInt8)
  /-- `addr` is `none` if the remote's address cannot be mapped. -/
  | txDataZeroCopy (liid len : ℕ) (addr : Option ℕ)
  | irq (env : IrqEnv)
  | thread (env : ThreadEnv)
  | rxDone (data : ℕ)
  | clientSend (r : ℕ) (sent : Bool)
  | clientClear (r : ℕ)

namespace Channel

def blank : Intent :=
  { data := none, id := 0, size := 0, reuse := false, ackPending := false, offset := 0,
    cbIrqDone := false, bytes := fun _ => 0 }

def new : Channel :=
  { intents := fun _ => blank, liids := fun _ => none, rxQueue := [], deferIntents := [],
    buf := none, irq := .idle, thread := .idle, clients := [], sentClients := [], fresh := 0, copies := [] }

def setIntent (ch : Channel) (r : ℕ) (intent : Intent) : Channel :=
  { ch with intents := Function.update ch.intents r intent }

section
variable (ch : Channel) (r : ℕ) (intent : Intent)

@[simp] theorem setIntent_irq : (ch.setIntent r intent).irq = ch.irq := rfl

@[simp] theorem setIntent_thread : (ch.setIntent r intent).thread = ch.thread := rfl

@[simp] theorem setIntent_self : (ch.setIntent r intent).intents r = intent := Function.update_self ..

end

def listDel (ch : Channel) (r : ℕ) : Channel :=
  { ch with rxQueue := ch.rxQueue.erase r, deferIntents := ch.deferIntents.erase r }

def qcomGlinkQueueRxIntentAlloc (ch : Channel) (size : ℕ) (reuse ackPending : Bool) : Channel :=
  { ch.setIntent ch.fresh { blank with size := u32 size, reuse := reuse, ackPending := ackPending } with
    rxQueue := ch.rxQueue ++ [ch.fresh]
    fresh := ch.fresh + 1 }

/-- The rest of `qcom_glink_rx_data` once it has an intent; payload that does not fit is dropped. -/
def rxFill (ch : Channel) (r chunkSize leftSize : ℕ) (payload : ℕ → UInt8) : Channel :=
  if (ch.intents r).room < chunkSize then ch
  else
    { ch.setIntent r ((ch.intents r).append payload chunkSize) with
      irq := if leftSize = 0 then .handler r else .idle
      copies := ch.copies ++ [⟨(ch.intents r).offset, chunkSize, (ch.intents r).size⟩] }

def BUF_ID : ℕ := 0xbabababa

/-- The buffer for the fragments of an intentless link; its size is a sum of two `u32`. -/
def newBuf (ch : Channel) (chunkSize leftSize : ℕ) : Channel :=
  { ch.setIntent ch.fresh { blank with data := some 0, id := BUF_ID, size := u32 (chunkSize + leftSize) } with
    buf := some ch.fresh
    fresh := ch.fresh + 1 }

def qcomGlinkRxData (intentless : Bool) (ch : Channel) (liid chunkSize leftSize : ℕ)
    (payload : ℕ → UInt8) : Channel :=
  if intentless then
    match ch.buf with
    | some r => ch.rxFill r chunkSize leftSize payload
    | none => (ch.newBuf chunkSize leftSize).rxFill ch.fresh chunkSize leftSize payload
  else
    match ch.liids liid with
    | some r => ch.rxFill r chunkSize leftSize payload
    | none => ch

def qcomGlinkRxDataZeroCopy (intentless : Bool) (ch : Channel) (liid len : ℕ) (addr : Option ℕ) :
    Channel :=
  if intentless then ch
  else
    match ch.liids liid, addr with
    | some r, some addr =>
      if (ch.intents r).size ≠ 0 then ch
      else
        { ch.setIntent r { ch.intents r with data := some addr, offset := u32 len } with
          rxQueue := ch.rxQueue ++ [r] }
    | _, _ => ch

/-- `__qcom_glink_rx_done` up to RX_DONE: the intent leaves the tree and the list it is in. -/
def takeOff (ch : Channel) (r : ℕ) : Channel :=
  let ch := if (ch.intents r).reuse then ch else { ch with liids := Function.update ch.liids (ch.intents r).id none }
  ch.listDel r

def setCbIrqDone (ch : Channel) (r : ℕ) (done : Bool) : Channel :=
  ch.setIntent r { ch.intents r with cbIrqDone := done }

def resetOffset (ch : Channel) (r : ℕ) : Channel :=
  ch.setIntent r { ch.intents r with offset := 0 }

def clearData (ch : Channel) (r : ℕ) : Channel :=
  if (ch.intents r).size = 0 then ch.setIntent r { ch.intents r with data := none } else ch

def defer (intentless : Bool) (ch : Channel) (r : ℕ) : Channel :=
  if intentless then ch else { ch with deferIntents := ch.deferIntents ++ [r] }

@[simp] theorem defer_irq (intentless : Bool) (ch : Channel) (r : ℕ) : (ch.defer intentless r).irq = ch.irq := by
  cases intentless <;> rfl

@[simp] theorem defer_thread (intentless : Bool) (ch : Channel) (r : ℕ) :
    (ch.defer intentless r).thread = ch.thread := by
  cases intentless <;> rfl

def handOver (ch : Channel) (r : ℕ) : Channel :=
  { ch with rxQueue := ch.rxQueue ++ [r], buf := none, irq := .idle }

def qcomGlinkRxDataHandler (intentless : Bool) (ch : Channel) (env : IrqEnv) : Option Channel :=
  match ch.irq with
  | .idle => none
  | .handler r =>
    if env.cbIrq = true ∧ ch.rxQueue = [] then
      some { ch.defer intentless r with irq := .callback r }
    else some (ch.handOver r)
  | .callback r =>
    if env.defers then some { ch.resetOffset r with buf := none, irq := .idle }
    else some { ch.resetOffset r with irq := .rxDone r }
  | .rxDone r =>
    if intentless then some { ch with buf := none, irq := .idle }
    else some { ch.takeOff r with irq := .sendRxDone r }
  | .sendRxDone r =>
    if env.sent then some { (ch.resetOffset r).clearData r with buf := none, irq := .idle }
    else some { (ch.resetOffset r).setCbIrqDone r true with irq := .requeue r }
  | .requeue r => some (ch.handOver r)

/-- `qcom_glink_alloc_intent_data`, which fails for want of memory only. -/
def qcomGlinkAllocIntentData (ch : Channel) (r addr id : ℕ) : Channel :=
  { ch.setIntent r { ch.intents r with data := some addr, id := id } with
    liids := Function.update ch.liids id (some r) }

def qcomGlinkRxThread (intentless : Bool) (ch : Channel) (env : ThreadEnv) : Option Channel :=
  match ch.thread with
  | .idle =>
    match ch.rxQueue with
    | [] => none
    | r :: rest => some { ch with rxQueue := rest, thread := .popped r }
  | .popped r =>
    if (ch.intents r).data.isSome then
      some { ch.defer intentless r with thread := .callback r }
    else
      match env.alloc with
      | none => some { ch with rxQueue := r :: ch.rxQueue, thread := .idle }
      | some (addr, id) =>
        -- `idr_alloc_cyclic` gives an id that is not in use
        if ch.liids id = none then
          some { ch.qcomGlinkAllocIntentData r addr id with thread := .idle }
        else none
  | .callback r =>
    if (ch.intents r).cbIrqDone then
      some { ch.setCbIrqDone r false with thread := .rxDone r }
    else if env.defers then some { ch with thread := .idle }
    else some { ch with thread := .rxDone r }
  | .rxDone r =>
    if intentless then some { ch with thread := .idle }
    else some { ch.takeOff r with thread := .sendRxDone r }
  | .sendRxDone r =>
    some { ch.resetOffset r with thread := if env.sent then .sentRxDone r else .idle }
  | .sentRxDone r => some { ch.clearData r with thread := .idle }

/-- `qcom_glink_rx_done` up to RX_DONE; nothing happens if no buffer has this address. -/
def qcomGlinkRxDone (ch : Channel) (data : ℕ) : Channel :=
  match ch.deferIntents.find? fun r => (ch.intents r).data = some data with
  | none => ch
  | some r => { ch.takeOff r with clients := r :: ch.clients }

/-- A command is handled when the handler is done with the one before it. -/
def step (intentless : Bool) (ch : Channel) : ChannelOp → Option Channel
  | .intentAlloc size reuse ackPending =>
    some (ch.qcomGlinkQueueRxIntentAlloc size reuse ackPending)
  | .txData liid chunkSize leftSize payload =>
    if ch.irq = .idle then some (ch.qcomGlinkRxData intentless liid chunkSize leftSize payload)
    else none
  | .txDataZeroCopy liid len addr =>
    if ch.irq = .idle then some (ch.qcomGlinkRxDataZeroCopy intentless liid len addr) else none
  | .irq env => ch.qcomGlinkRxDataHandler intentless env
  | .thread env => ch.qcomGlinkRxThread intentless env
  | .rxDone data => some (ch.qcomGlinkRxDone data)
  | .clientSend r sent =>
    if r ∈ ch.clients then
      some { ch.resetOffset r with
        clients := ch.clients.erase r
        sentClients := if sent then r :: ch.sentClients else ch.sentClients }
    else none
  | .clientClear r =>
    if r ∈ ch.sentClients then
      some { ch.clearData r with sentClients := ch.sentClients.erase r }
    else none

def Busy (ch : Channel) (r : ℕ) : Prop :=
  r ∈ ch.rxQueue ∨ r ∈ ch.deferIntents ∨ ch.thread.ref = some r ∨ r ∈ ch.clients ∨ r ∈ ch.sentClients

instance (ch : Channel) (r : ℕ) : Decidable (ch.Busy r) := inferInstanceAs (Decidable (_ ∨ _ ∨ _ ∨ _ ∨ _))

def Idle (ch : Channel) (liid : ℕ) : Prop := ∀ r ∈ ch.liids liid, ¬ch.Busy r

instance (ch : Channel) (liid : ℕ) : Decidable (ch.Idle liid) :=
  inferInstanceAs (Decidable (∀ r ∈ ch.liids liid, _))

def Addressed (intentless : Bool) (ch : Channel) : ChannelOp → Prop
  | .txData liid _ _ _ => intentless = false → ch.Idle liid
  | .txDataZeroCopy liid _ _ => intentless = false → ch.Idle liid
  | _ => True

instance (intentless : Bool) (ch : Channel) (op : ChannelOp) : Decidable (ch.Addressed intentless op) := by
  cases op <;> unfold Channel.Addressed <;> infer_instance

structure Safe (ch : Channel) : Prop where
  inside : ∀ c ∈ ch.copies, c.offset + c.count ≤ c.size
  linked_once : (ch.rxQueue ++ ch.deferIntents).Nodup

end Channel

end VendorKernel.Glink

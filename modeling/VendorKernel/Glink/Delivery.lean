import Mathlib.Data.List.Perm.Subperm
import Mathlib.Data.List.Sort
import VendorKernel.Lib.Reassembly
import VendorKernel.Glink.Intents

/-! Messages over a GLINK link with the same driver at both ends. A message goes out as fragments, with the
lock dropped between them; the other end puts them together, in the intent that the message is sent to or, on
a link without intents, in the one buffer of the channel. -/
namespace VendorKernel.Glink

open Machine RingBuffer Reassembly

def SZ_8K : ℕ := 8192

structure Payload where
  data : ℕ → UInt8
  len : ℕ

def Payload.bytes (p : Payload) : List UInt8 := slice p.data 0 p.len

@[simp] theorem Payload.length_bytes (p : Payload) : p.bytes.length = p.len := slice_length ..

/-- TX_DATA or TX_DATA_CONT; `offset` is not in the command. -/
structure DataCmd where
  lcid : ℕ
  iid : ℕ
  chunkSize : ℕ
  leftSize : ℕ
  payload : ℕ → UInt8
  offset : ℕ

inductive Reply where
  | intent (lcid id size : ℕ)
  | rxDone (lcid id : ℕ) (reuse : Bool)

def Reply.key : Reply → ℕ × ℕ
  | .intent c id _ => (c, id)
  | .rxDone c id _ => (c, id)

structure RemoteIntent where
  id : ℕ
  size : ℕ
  inUse : Bool

/-- A thread in `qcom_glink_send` looks for an intent, waits for one, or is in front of `qcom_glink_tx`. -/
inductive Sender where
  | idle
  | seeking (c : ℕ) (m : Payload)
  | requesting (c : ℕ) (m : Payload)
  | sending (c : ℕ) (m : Payload) (iid offset : ℕ)

/-- In the receive queue: a message in an intent or a buffer, or an intent whose RX_DONE is to be sent. -/
inductive RxItem where
  | intent (id : ℕ)
  | buffer (buf : Intent)
  | done (id : ℕ) (reuse : Bool)

structure RxChannel where
  liids : ℕ → Option Intent
  rxQueue : List RxItem
  thread : Option RxItem
  deferIntents : List ℕ
  buf : Option Intent
  /-- Not in the source: the calls of the callback so far. -/
  delivered : List Payload

/-- The search of `__qcom_glink_send`, which ends early at an intent of just the size. -/
def pickIntent (len : ℕ) (intent : Option RemoteIntent) : List RemoteIntent → Option RemoteIntent
  | [] => intent
  | tmp :: riids =>
    if len ≤ tmp.size ∧ tmp.inUse = false then
      let best := match intent with
        | none => tmp
        | some intent => if tmp.size < intent.size then tmp else intent
      if best.size = len then some best else pickIntent len (some best) riids
    else pickIntent len intent riids

def setInUse (riids : List RemoteIntent) (id : ℕ) (inUse : Bool) : List RemoteIntent :=
  riids.map fun tmp => if tmp.id = id then { tmp with inUse := inUse } else tmp

/-- `qcom_glink_handle_intent` for one intent: an id that is taken is refused. The idr is in the order of its ids. -/
def qcomGlinkHandleIntent (riids : List RemoteIntent) (id size : ℕ) : List RemoteIntent :=
  if riids.any fun tmp => tmp.id = id then riids else riids.orderedInsert (·.id ≤ ·.id) ⟨id, size, false⟩

def qcomGlinkHandleRxDone (riids : List RemoteIntent) (id : ℕ) (reuse : Bool) : List RemoteIntent :=
  if reuse then setInUse riids id false else riids.filter fun tmp => tmp.id ≠ id

namespace RxChannel

def new : RxChannel :=
  { liids := fun _ => none, rxQueue := [], thread := none, deferIntents := [], buf := none,
    delivered := [] }

def setIntent (ch : RxChannel) (id : ℕ) (intent : Option Intent) : RxChannel :=
  { ch with liids := Function.update ch.liids id intent }

def callback (ch : RxChannel) (intent : Intent) : RxChannel :=
  { ch with delivered := ch.delivered ++ [⟨intent.bytes, intent.offset⟩] }

def takeOff (ch : RxChannel) (id : ℕ) (intent : Intent) : RxChannel :=
  ch.setIntent id (if intent.reuse then some { intent with offset := 0 } else none)

def rxDone (c id : ℕ) (reuse sent : Bool) : List Reply :=
  if sent then [.rxDone c id reuse] else []

def qcomGlinkRxDataHandler (c : ℕ) (ch : RxChannel) (item : RxItem) (env : IrqEnv) : RxChannel × List Reply :=
  if env.cbIrq = true ∧ ch.rxQueue = [] then
    match item with
    | .buffer buf => (ch.callback buf, [])
    | .done _ _ => (ch, [])
    | .intent id =>
      match ch.liids id with
      | none => (ch, [])
      | some intent =>
        if env.defers then
          ({ (ch.callback intent).setIntent id (some { intent with offset := 0 }) with
            deferIntents := ch.deferIntents ++ [id] }, [])
        else if env.sent then
          ((ch.callback intent).takeOff id intent, rxDone c id intent.reuse true)
        else
          ({ (ch.callback intent).takeOff id intent with rxQueue := ch.rxQueue ++ [.done id intent.reuse] }, [])
  else ({ ch with rxQueue := ch.rxQueue ++ [item] }, [])

def newBuf (chunkSize leftSize : ℕ) : Intent :=
  { Channel.blank with data := some 0, id := Channel.BUF_ID, size := u32 (chunkSize + leftSize) }

def qcomGlinkRxData (intentless : Bool) (ch : RxChannel) (cmd : DataCmd) (env : IrqEnv) : RxChannel × List Reply :=
  if intentless then
    let intent := ch.buf.getD (newBuf cmd.chunkSize cmd.leftSize)
    if intent.room < cmd.chunkSize then ({ ch with buf := some intent }, [])
    else
      let intent := intent.append cmd.payload cmd.chunkSize
      if cmd.leftSize = 0 then
        qcomGlinkRxDataHandler cmd.lcid { ch with buf := none } (.buffer intent) env
      else ({ ch with buf := some intent }, [])
  else
    match ch.liids cmd.iid with
    | none => (ch, [])
    | some intent =>
      if intent.room < cmd.chunkSize then (ch, [])
      else
        let ch := ch.setIntent cmd.iid (some (intent.append cmd.payload cmd.chunkSize))
        if cmd.leftSize = 0 then qcomGlinkRxDataHandler cmd.lcid ch (.intent cmd.iid) env
        else (ch, [])

def qcomGlinkRxThread (c : ℕ) (ch : RxChannel) (defers sent : Bool) : Option (RxChannel × List Reply) :=
  match ch.thread with
  | none =>
    match ch.rxQueue with
    | [] => none
    | item :: rest => some ({ ch with rxQueue := rest, thread := some item }, [])
  | some (.done id reuse) => some ({ ch with thread := none }, rxDone c id reuse sent)
  | some (.buffer buf) => some ({ ch.callback buf with thread := none }, [])
  | some (.intent id) =>
    match ch.liids id with
    | none => some ({ ch with thread := none }, [])
    | some intent =>
      if defers then
        some ({ ch.callback intent with thread := none, deferIntents := ch.deferIntents ++ [id] }, [])
      else
        some ({ (ch.callback intent).takeOff id intent with thread := none }, rxDone c id intent.reuse sent)

def qcomGlinkRxDone (c : ℕ) (ch : RxChannel) (id : ℕ) (sent : Bool) : Option (RxChannel × List Reply) :=
  if id ∈ ch.deferIntents then
    match ch.liids id with
    | none => none
    | some intent =>
      some ({ ch.takeOff id intent with deferIntents := ch.deferIntents.erase id }, rxDone c id intent.reuse sent)
  else none

end RxChannel

inductive ExchangeOp where
  | send (i c : ℕ) (m : Payload)
  | proceed (i : ℕ) (granted : Bool)
  | reply
  | abortTx
  | receive (env : IrqEnv)
  /-- The receiving end allocates an intent, asked for or not, and advertises it. -/
  | alloc (c id size : ℕ) (reuse : Bool)
  | thread (c : ℕ) (defers sent : Bool)
  | rxDone (c id : ℕ) (sent : Bool)

structure Exchange where
  senders : ℕ → Sender
  riids : ℕ → List RemoteIntent
  abortTx : Bool
  cmds : List DataCmd
  replies : List Reply
  rx : ℕ → RxChannel
  /-- Not in the source: the messages of each channel whose send returned 0. -/
  sent : ℕ → List Payload

namespace Exchange

def start : Exchange :=
  { senders := fun _ => .idle, riids := fun _ => [], abortTx := false, cmds := [], replies := [],
    rx := fun _ => .new, sent := fun _ => [] }

def setSender (s : Exchange) (i : ℕ) (sender : Sender) : Exchange :=
  { s with senders := Function.update s.senders i sender }

def setRiids (s : Exchange) (c : ℕ) (riids : List RemoteIntent) : Exchange :=
  { s with riids := Function.update s.riids c riids }

def setRx (s : Exchange) (c : ℕ) (next : RxChannel × List Reply) : Exchange :=
  { s with rx := Function.update s.rx c next.1, replies := s.replies ++ next.2 }

def dataCmd (c : ℕ) (m : Payload) (iid offset : ℕ) : DataCmd :=
  let chunkSize := min (m.len - offset) SZ_8K
  { lcid := c, iid := iid, chunkSize := chunkSize, leftSize := m.len - offset - chunkSize,
    payload := fun k => m.data (offset + k), offset := offset }

/-- One turn of the loop of `__qcom_glink_send`; `qcom_glink_tx` waits for space, or fails. -/
def sendFragment (intentless : Bool) (length : ℕ) (s : Exchange) (i c : ℕ) (m : Payload)
    (iid offset : ℕ) : Exchange :=
  let cmd := dataCmd c m iid offset
  if s.abortTx = true ∨ length ≤ 16 + cmd.chunkSize then
    let s := s.setSender i .idle
    if intentless then s else s.setRiids c (setInUse (s.riids c) iid false)
  else
    let s := { s with cmds := s.cmds ++ [cmd] }
    if offset + cmd.chunkSize < m.len then
      s.setSender i (.sending c m iid (offset + cmd.chunkSize))
    else
      { s.setSender i .idle with sent := Function.update s.sent c (s.sent c ++ [m]) }

def proceed (intentless : Bool) (length : ℕ) (s : Exchange) (i : ℕ) (granted : Bool) : Option Exchange :=
  match s.senders i with
  | .idle => none
  | .seeking c m =>
    match pickIntent m.len none (s.riids c) with
    | some intent =>
      some ((s.setSender i (.sending c m intent.id 0)).setRiids c (setInUse (s.riids c) intent.id true))
    | none => some (s.setSender i (if s.abortTx then .idle else .requesting c m))
  | .requesting c m => some (s.setSender i (if granted then .seeking c m else .idle))
  | .sending c m iid offset => some (s.sendFragment intentless length i c m iid offset)

def step (intentless : Bool) (length : ℕ) (s : Exchange) : ExchangeOp → Option Exchange
  | .send i c m =>
    match s.senders i with
    | .idle =>
      if 0 < m.len ∧ m.len < 2 ^ 31 then
        some (s.setSender i (if intentless then .sending c m 0 0 else .seeking c m))
      else none
    | _ => none
  | .proceed i granted => s.proceed intentless length i granted
  | .reply =>
    match s.replies with
    | [] => none
    | .intent c id size :: rest =>
      some { s.setRiids c (qcomGlinkHandleIntent (s.riids c) id size) with replies := rest }
    | .rxDone c id reuse :: rest =>
      some { s.setRiids c (qcomGlinkHandleRxDone (s.riids c) id reuse) with replies := rest }
  | .abortTx => some { s with abortTx := true }
  | .receive env =>
    match s.cmds with
    | [] => none
    | cmd :: rest =>
      some { s.setRx cmd.lcid ((s.rx cmd.lcid).qcomGlinkRxData intentless cmd env) with cmds := rest }
  | .alloc c id size reuse =>
    -- `idr_alloc_cyclic` gives an id that is not in use
    if intentless = false ∧ (s.rx c).liids id = none then
      some (s.setRx c
        ((s.rx c).setIntent id (some { Channel.blank with
          data := some 0, id := id, size := u32 size, reuse := reuse }), [.intent c id (u32 size)]))
    else none
  | .thread c defers sent => ((s.rx c).qcomGlinkRxThread c defers sent).map (s.setRx c)
  | .rxDone c id sent => ((s.rx c).qcomGlinkRxDone c id sent).map (s.setRx c)

def Known (s : Exchange) (c id : ℕ) : Prop :=
  (∃ intent ∈ s.riids c, intent.id = id) ∨ ∃ r ∈ s.replies, r.key = (c, id)

instance (s : Exchange) (c id : ℕ) : Decidable (s.Known c id) :=
  inferInstanceAs (Decidable ((∃ intent ∈ s.riids c, intent.id = id) ∨ ∃ r ∈ s.replies, r.key = (c, id)))

/-- A new intent does not get an id that the sending end still knows; without intents, messages on a channel do not
overlap. -/
def Orderly (intentless : Bool) (s : Exchange) : ExchangeOp → Prop
  | .alloc c id _ _ => ¬s.Known c id
  | .proceed i _ =>
    intentless = true → ∀ c m iid, s.senders i = .sending c m iid 0 →
      ∀ j m' iid' offset, s.senders j = .sending c m' iid' offset → offset = 0
  | _ => True

def Receives (c : ℕ) : ExchangeOp → Prop
  | .receive _ => True
  | .thread c' _ _ => c' = c
  | _ => False

/-- The callback gets the messages whose send returned 0, each at most once, and in the end all of them. -/
structure Intact (intentless : Bool) (length : ℕ) (s : Exchange) : Prop where
  at_most_once : ∀ c, ((s.rx c).delivered.map Payload.bytes).Subperm ((s.sent c).map Payload.bytes)
  exactly_once : ∀ c, s.cmds = [] → (s.rx c).rxQueue = [] → (s.rx c).thread = none →
    ((s.rx c).delivered.map Payload.bytes).Perm ((s.sent c).map Payload.bytes)
  arrives : ∀ c, ∃ ops s', (∀ op ∈ ops, Receives c op) ∧ run (step intentless length) s ops = some s' ∧
    s'.sent c = s.sent c ∧
    ((s'.rx c).delivered.map Payload.bytes).Perm ((s.sent c).map Payload.bytes)

end Exchange

end VendorKernel.Glink

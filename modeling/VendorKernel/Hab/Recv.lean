import Mathlib.Data.Int.Notation
import Mathlib.Data.List.Basic

/-! The receiving side of HAB (`hab_msg.c`, `hab_open.c`): what `hab_msg_recv` reads from the physical channel
behind a message header. -/
namespace VendorKernel.Hab

open List

def PAGE_SIZE : ℕ := 4096

def HAB_HEADER_SIZE_MAX : ℕ := 0x7D000

/-- `enum hab_payload_type`, and the numbers that it has no name for. -/
inductive PayloadType where
  | msg | init | initAck | initDone | exportMsg | exportAck | profile | close | initCancel
  | scheMsg | scheMsgAck | scheResultReq | scheResultRsp
  | importMsg | importAck | importAckFail | unimport | importLoopbackAck | unknown
deriving DecidableEq

def PayloadType.decode : ℕ → PayloadType
  | 0 => .msg
  | 1 => .init
  | 2 => .initAck
  | 3 => .initDone
  | 4 => .exportMsg
  | 5 => .exportAck
  | 6 => .profile
  | 7 => .close
  | 8 => .initCancel
  | 9 => .scheMsg
  | 10 => .scheMsgAck
  | 11 => .scheResultReq
  | 12 => .scheResultRsp
  | 13 => .importMsg
  | 14 => .importAck
  | 15 => .importAckFail
  | 16 => .unimport
  | 17 => .importLoopbackAck
  | _ => .unknown

structure Header where
  idType : UInt32
  payloadSize : UInt32
  sessionId : UInt32

namespace Header

def size (h : Header) : ℕ := h.payloadSize.toNat

def type (h : Header) : PayloadType :=
  .decode (((h.idType &&& 0x000F0000) >>> 16) ||| ((h.idType &&& 0xF) <<< 4)).toNat

def id (h : Header) : UInt32 := ((h.idType &&& 0xFFF00000) >>> 20) &&& 0xFFF

end Header

structure VChan where
  sessionId : UInt32
  otherendId : UInt32
  otherendClosed : Bool
  closed : Bool
  refcount : ℕ

def habVchanGet (vchanIdr : UInt32 → Option VChan) (h : Header) : Option VChan :=
  match vchanIdr h.id with
  | none => none
  | some v =>
    if v.sessionId ≠ h.sessionId then none
    else if v.otherendId = 0 then none
    else if v.otherendClosed || v.closed then none
    else if v.refcount = 0 then none
    else some v

inductive Event where
  | queued (data : List UInt8) (sizebytes : ℤ)
  | openRequest (type : PayloadType) (xdata : List UInt8)
  | openCancel (xdata : List UInt8)
  | exportDesc (isLb : Bool) (desc : List UInt8)
  | exportAck (ack : List UInt8)
  | importRequest (data : List UInt8)
  | importAckFail (expId : List UInt8)
  | unimport (expId : List UInt8) (vchanExist : Bool)
  | stopped
deriving DecidableEq

structure Recv where
  stream : List UInt8
  event : Option Event
deriving DecidableEq

section
-- the static `signature_mismatch` of `hab_pipe_read`, and whether the allocations of the call succeed, in their order
variable (mismatch : Bool) (alloc : ℕ → Bool)

/-- `shmem_physical_channel_read`: bytes, result and what is left. With `signature_mismatch` set one byte is
taken, and `0xFFFFFFFE` returned. -/
def physicalChannelRead (readSize : ℕ) (stream : List UInt8) : List UInt8 × ℤ × List UInt8 :=
  let data := stream.take readSize
  if mismatch = true ∧ data ≠ [] then (data, -2, stream.drop 1) else (data, data.length, stream.drop readSize)

/-- The reads of `hab_scatter_msg_alloc` once all buffers are there: whole pages, then what is left. -/
def readPages : ℕ → List UInt8 → List UInt8 × ℤ × List UInt8
  | 0, stream => ([], 0, stream)
  | n + 1, stream =>
    let (page, size, stream') := physicalChannelRead mismatch PAGE_SIZE stream
    let (data, sizes, stream'') := readPages n stream'
    (page ++ data, size + sizes, stream'')

def scatterBufs (sizebytes : ℕ) : ℕ := 1 + (sizebytes + PAGE_SIZE - 1) / PAGE_SIZE

def habScatterMsgAlloc (sizebytes : ℕ) (stream : List UInt8) : Option Event × List UInt8 :=
  if sizebytes ≤ PAGE_SIZE then (none, stream)
  else if ∀ i < scatterBufs sizebytes, alloc (1 + i) = true then
    let (pages, sizes, stream') := readPages mismatch (sizebytes / PAGE_SIZE) stream
    let (data, size, stream'') := physicalChannelRead mismatch (sizebytes % PAGE_SIZE) stream'
    (some (.queued (pages ++ data) (sizes + size)), stream'')
  else (none, stream)

def habMsgAlloc (sizebytes : ℕ) (stream : List UInt8) : Option Event × List UInt8 :=
  if HAB_HEADER_SIZE_MAX < sizebytes then (none, stream)
  else if alloc 0 = true then
    let (data, size, stream') := physicalChannelRead mismatch sizebytes stream
    (some (.queued data size), stream')
  else habScatterMsgAlloc mismatch alloc sizebytes stream

def recvMsg (sizebytes : ℕ) (stream : List UInt8) : Recv :=
  let (message, stream') := habMsgAlloc mismatch alloc sizebytes stream
  ⟨stream', message⟩

def xingVmStatSize : ℕ := 32

/-- The time stamps that are put into the message are left out. -/
def habHandleProfileMsg (sizebytes : ℕ) (stream : List UInt8) : Recv :=
  if sizebytes < xingVmStatSize then ⟨stream, none⟩ else recvMsg mismatch alloc sizebytes stream

def habHandleSchedMsg (sizebytes : ℕ) (stream : List UInt8) : Recv :=
  if sizebytes < 8 then ⟨stream, none⟩ else recvMsg mismatch alloc sizebytes stream

def habMsgDrop (sizebytes : ℕ) (stream : List UInt8) : Recv :=
  if HAB_HEADER_SIZE_MAX < sizebytes then ⟨stream, none⟩
  else if alloc 0 = true then ⟨(physicalChannelRead mismatch sizebytes stream).2.2, none⟩
  else ⟨stream, none⟩

def readChecked (sizebytes : ℕ) (event : List UInt8 → Event) (stream : List UInt8) : Recv :=
  let (data, ret, stream') := physicalChannelRead mismatch sizebytes stream
  ⟨stream', if ret = sizebytes then some (event data) else none⟩

def openSendDataSize : ℕ := 24

def habOpenRequestAdd (type : PayloadType) (sizebytes : ℕ) (stream : List UInt8) : Recv :=
  if alloc 0 = true then readChecked mismatch sizebytes (.openRequest type) stream else ⟨stream, none⟩

def habOpenReceiveCancel (sizebytes : ℕ) (stream : List UInt8) : Recv :=
  readChecked mismatch sizebytes .openCancel stream

def expDescSizeMinimum : ℕ := 88 + 12

def habRecvAndEnqueueExportDesc (isLb : Bool) (sizebytes : ℕ) (stream : List UInt8) : Recv :=
  if HAB_HEADER_SIZE_MAX < sizebytes ∨ sizebytes < expDescSizeMinimum then ⟨stream, none⟩
  else if alloc 0 = true then readChecked mismatch sizebytes (.exportDesc isLb) stream
  else ⟨stream, none⟩

def exportAckSize : ℕ := 12

def habReceiveCreateExportAck (sizebytes : ℕ) (stream : List UInt8) : Recv :=
  if alloc 0 = false then ⟨stream, none⟩
  else if exportAckSize < sizebytes then ⟨stream, none⟩
  else
    let r := readChecked mismatch sizebytes .exportAck stream
    if exportAckSize = sizebytes then r else { r with event := none }

def importDataSize : ℕ := 12

def habRecvImpReq (stream : List UInt8) : Recv := readChecked mismatch importDataSize .importRequest stream

def expIdSize : ℕ := 4

def habReceiveImportAckFail (stream : List UInt8) : Recv :=
  let (expId, _, stream') := physicalChannelRead mismatch expIdSize stream
  ⟨stream', if alloc 0 = true then some (.importAckFail expId) else none⟩

def habRecvUnimportMsg (vchanExist : Bool) (stream : List UInt8) : Recv :=
  let (expId, _, stream') := physicalChannelRead mismatch expIdSize stream
  ⟨stream', some (.unimport expId vchanExist)⟩

def dropSome (sizebytes : ℕ) (stream : List UInt8) : Recv :=
  if sizebytes = 0 then ⟨stream, none⟩ else habMsgDrop mismatch alloc sizebytes stream

def PayloadType.isOpen : PayloadType → Bool
  | .init | .initAck | .initDone | .initCancel => true
  | _ => false

def dispatch (type : PayloadType) (sizebytes : ℕ) (stream : List UInt8) : Recv :=
  match type with
  | .msg | .scheResultReq | .scheResultRsp => recvMsg mismatch alloc sizebytes stream
  | .init | .initAck | .initDone => habOpenRequestAdd mismatch alloc type sizebytes stream
  | .initCancel => habOpenReceiveCancel mismatch sizebytes stream
  | .exportMsg => habRecvAndEnqueueExportDesc mismatch alloc false sizebytes stream
  | .exportAck => habReceiveCreateExportAck mismatch alloc sizebytes stream
  | .close => ⟨stream, some .stopped⟩
  | .profile => habHandleProfileMsg mismatch alloc sizebytes stream
  | .scheMsg | .scheMsgAck => habHandleSchedMsg mismatch alloc sizebytes stream
  | .importMsg => habRecvImpReq mismatch stream
  | .importLoopbackAck => habRecvAndEnqueueExportDesc mismatch alloc true sizebytes stream
  | .importAck => habRecvAndEnqueueExportDesc mismatch alloc false sizebytes stream
  | .importAckFail => habReceiveImportAckFail mismatch alloc stream
  | .unimport => habRecvUnimportMsg mismatch true stream
  | .unknown => ⟨stream, none⟩

/-- `hab_msg_recv`, with `hab_try_get_vchan`. `closes`: the other end closes the channel between
`hab_vchan_get` and the second look at `otherend_closed`. -/
def habMsgRecv (vchanIdr : UInt32 → Option VChan) (closes : Bool) (h : Header) (stream : List UInt8) : Recv :=
  if h.type.isOpen then
    if h.size ≠ openSendDataSize then dropSome mismatch alloc h.size stream
    else dispatch mismatch alloc h.type h.size stream
  else
    match habVchanGet vchanIdr h with
    | none =>
      if h.type = .unimport then habRecvUnimportMsg mismatch false stream else dropSome mismatch alloc h.size stream
    | some _ => if closes then dropSome mismatch alloc h.size stream else dispatch mismatch alloc h.type h.size stream

def MsgMemory (sizebytes : ℕ) : Prop :=
  alloc 0 = true ∨ PAGE_SIZE < sizebytes ∧ ∀ i < scatterBufs sizebytes, alloc (1 + i) = true

instance (sizebytes : ℕ) : Decidable (MsgMemory alloc sizebytes) :=
  inferInstanceAs (Decidable (_ ∨ _))

/-- For an open channel: the payload has a size that the type's handler reads as a whole, and there is memory
for it. -/
def Handled (type : PayloadType) (sizebytes : ℕ) : Prop :=
  match type with
  | .msg | .scheResultReq | .scheResultRsp => sizebytes = 0 ∨ MsgMemory alloc sizebytes
  | .profile => sizebytes = 0 ∨ xingVmStatSize ≤ sizebytes ∧ MsgMemory alloc sizebytes
  | .scheMsg | .scheMsgAck => sizebytes = 0 ∨ 8 ≤ sizebytes ∧ MsgMemory alloc sizebytes
  | .init | .initAck | .initDone => sizebytes = 0 ∨ alloc 0 = true
  | .initCancel => True
  | .exportMsg | .importAck | .importLoopbackAck => sizebytes = 0 ∨ expDescSizeMinimum ≤ sizebytes ∧ alloc 0 = true
  | .exportAck => sizebytes = 0 ∨ sizebytes ≤ exportAckSize ∧ alloc 0 = true
  | .close | .unknown => sizebytes = 0
  | .importMsg => sizebytes = importDataSize
  | .importAckFail | .unimport => sizebytes = expIdSize

def Framed (vchanIdr : UInt32 → Option VChan) (closes : Bool) (h : Header) : Prop :=
  if h.type.isOpen then
    if h.size ≠ openSendDataSize then h.size = 0 ∨ alloc 0 = true else Handled alloc h.type h.size
  else
    match habVchanGet vchanIdr h with
    | none => if h.type = .unimport then h.size = expIdSize else h.size = 0 ∨ alloc 0 = true
    | some _ => if closes then h.size = 0 ∨ alloc 0 = true else Handled alloc h.type h.size

end

/-- The handler reads a number of bytes that does not depend on them: the payload size if and only if `ok`. -/
def Reads (f : List UInt8 → Recv) (sizebytes : ℕ) (ok : Prop) : Prop :=
  ∃ n, (∀ stream, (f stream).stream = stream.drop n) ∧ (n = sizebytes ↔ ok)

theorem drop_append_eq_iff {payload : List UInt8} {n : ℕ} :
    (∀ rest, (payload ++ rest).drop n = rest) ↔ n = payload.length := by
  constructor
  · intro h
    -- two bytes more than the handler may read
    have hlen := congrArg length (h (replicate (n + 1) 0))
    simp only [length_drop, length_append, length_replicate] at hlen
    omega
  · rintro rfl rest
    exact drop_left

section
variable {alloc : ℕ → Bool} {sizebytes : ℕ} {f : List UInt8 → Recv}

theorem Reads.framed_iff {ok : Prop} {payload : List UInt8} (h : Reads f payload.length ok) :
    (∀ rest, (f (payload ++ rest)).stream = rest) ↔ ok := by
  obtain ⟨n, hread, hn⟩ := h
  simp only [hread]
  exact drop_append_eq_iff.trans hn

theorem reads_fixed (n : ℕ) (h : ∀ stream, (f stream).stream = stream.drop n) : Reads f sizebytes (sizebytes = n) :=
  ⟨n, h, eq_comm⟩

theorem reads_when {c : Prop} (hc : c → ∀ stream, (f stream).stream = stream.drop sizebytes)
    (hn : ¬c → ∀ stream, (f stream).stream = stream) : Reads f sizebytes (sizebytes = 0 ∨ c) := by
  by_cases h : c
  · exact ⟨sizebytes, hc h, by simp [h]⟩
  · exact ⟨0, by simpa using hn h, by simp [h, eq_comm]⟩

@[simp] theorem physicalChannelRead_stream (n : ℕ) (stream : List UInt8) :
    (physicalChannelRead false n stream).2.2 = stream.drop n := by
  simp [physicalChannelRead]

theorem readPages_stream (n : ℕ) (stream : List UInt8) :
    (readPages false n stream).2.2 = stream.drop (n * PAGE_SIZE) := by
  induction n generalizing stream with
  | zero => simp [readPages]
  | succ n ih => simp [readPages, ih, Nat.succ_mul, Nat.add_comm]

theorem habMsgAlloc_stream (hmax : sizebytes ≤ HAB_HEADER_SIZE_MAX) (hmem : MsgMemory alloc sizebytes)
    (stream : List UInt8) : (habMsgAlloc false alloc sizebytes stream).2 = stream.drop sizebytes := by
  have hspl : sizebytes / PAGE_SIZE * PAGE_SIZE + sizebytes % PAGE_SIZE = sizebytes := Nat.div_add_mod' ..
  rw [habMsgAlloc, if_neg (Nat.not_lt.mpr hmax)]
  by_cases h0 : alloc 0 = true
  · simp [h0]
  · obtain ⟨hsize, hac⟩ := hmem.resolve_left h0
    simp only [if_neg h0, habScatterMsgAlloc, if_neg (Nat.not_le.mpr hsize), if_pos hac, physicalChannelRead_stream,
      readPages_stream, drop_drop, hspl]

theorem habMsgAlloc_none (hmem : ¬MsgMemory alloc sizebytes) (stream : List UInt8) :
    habMsgAlloc false alloc sizebytes stream = (none, stream) := by
  obtain ⟨h0, hscatter⟩ := not_or.mp hmem
  rw [habMsgAlloc, habScatterMsgAlloc, if_neg h0, ite_eq_left_iff]
  intro _
  rw [ite_eq_left_iff]
  intro hsize
  rw [if_neg fun hac => hscatter ⟨Nat.not_le.mp hsize, hac⟩]

variable (hmax : sizebytes ≤ HAB_HEADER_SIZE_MAX)
include hmax

theorem recvMsg_reads : Reads (recvMsg false alloc sizebytes) sizebytes (sizebytes = 0 ∨ MsgMemory alloc sizebytes) :=
  reads_when (fun h stream => by simp [recvMsg, habMsgAlloc_stream hmax h])
    fun h stream => by simp [recvMsg, habMsgAlloc_none h]

theorem recvMsg_from_reads (least : ℕ) :
    Reads (fun stream => if sizebytes < least then ⟨stream, none⟩ else recvMsg false alloc sizebytes stream) sizebytes
      (sizebytes = 0 ∨ least ≤ sizebytes ∧ MsgMemory alloc sizebytes) := by
  refine reads_when (fun ⟨hl, hmem⟩ stream => ?_) fun h stream => ?_
  · simp [Nat.not_lt.mpr hl, recvMsg, habMsgAlloc_stream hmax hmem]
  · by_cases hl : sizebytes < least
    · simp [hl]
    · simp [hl, recvMsg, habMsgAlloc_none fun hmem => h ⟨Nat.not_lt.mp hl, hmem⟩]

theorem habMsgDrop_reads : Reads (habMsgDrop false alloc sizebytes) sizebytes (sizebytes = 0 ∨ alloc 0 = true) :=
  reads_when (fun h stream => by simp [habMsgDrop, Nat.not_lt.mpr hmax, h])
    fun h stream => by simp [habMsgDrop, h]

theorem dropSome_reads : Reads (dropSome false alloc sizebytes) sizebytes (sizebytes = 0 ∨ alloc 0 = true) := by
  by_cases h0 : sizebytes = 0
  · exact ⟨0, by simp [dropSome, h0], by simp [h0]⟩
  · have hdrop : Reads (habMsgDrop false alloc sizebytes) sizebytes (sizebytes = 0 ∨ alloc 0 = true) :=
      habMsgDrop_reads hmax
    obtain ⟨n, hread, hn⟩ := hdrop
    exact ⟨n, by simpa [dropSome, h0] using hread, hn⟩

theorem exportDesc_reads (isLb : Bool) :
    Reads (habRecvAndEnqueueExportDesc false alloc isLb sizebytes) sizebytes
      (sizebytes = 0 ∨ expDescSizeMinimum ≤ sizebytes ∧ alloc 0 = true) := by
  refine reads_when (fun ⟨hmin, hac⟩ stream => ?_) fun h stream => ?_
  · simp [habRecvAndEnqueueExportDesc, readChecked, Nat.not_lt.mpr hmax, Nat.not_lt.mpr hmin, hac]
  · by_cases hmin : sizebytes < expDescSizeMinimum
    · simp [habRecvAndEnqueueExportDesc, hmin]
    · have hac : ¬alloc 0 = true := fun hac => h ⟨Nat.not_lt.mp hmin, hac⟩
      simp [habRecvAndEnqueueExportDesc, Nat.not_lt.mpr hmax, hmin, hac]

omit hmax in
theorem exportAck_reads :
    Reads (habReceiveCreateExportAck false alloc sizebytes) sizebytes
      (sizebytes = 0 ∨ sizebytes ≤ exportAckSize ∧ alloc 0 = true) := by
  refine reads_when (fun ⟨hle, hac⟩ stream => ?_) fun h stream => ?_
  · simp [habReceiveCreateExportAck, readChecked, hac, Nat.not_lt.mpr hle, apply_ite Recv.stream]
  · by_cases hac : alloc 0 = true
    · have hlt : exportAckSize < sizebytes := Nat.not_le.mp fun hle => h ⟨hle, hac⟩
      simp [habReceiveCreateExportAck, hac, hlt]
    · simp [habReceiveCreateExportAck, hac]

omit hmax in
theorem openRequest_reads (type : PayloadType) :
    Reads (habOpenRequestAdd false alloc type sizebytes) sizebytes (sizebytes = 0 ∨ alloc 0 = true) :=
  reads_when (fun h stream => by simp [habOpenRequestAdd, readChecked, h])
    fun h stream => by simp [habOpenRequestAdd, h]

theorem dispatch_reads (type : PayloadType) :
    Reads (dispatch false alloc type sizebytes) sizebytes (Handled alloc type sizebytes) := by
  cases type with
  | msg | scheResultReq | scheResultRsp => exact recvMsg_reads hmax
  | profile => exact recvMsg_from_reads hmax xingVmStatSize
  | scheMsg | scheMsgAck => exact recvMsg_from_reads hmax 8
  | init | initAck | initDone => exact openRequest_reads _
  | initCancel => exact ⟨sizebytes, physicalChannelRead_stream _, by simp [Handled]⟩
  | exportMsg | importAck | importLoopbackAck => exact exportDesc_reads hmax _
  | exportAck => exact exportAck_reads
  | close | unknown => exact reads_fixed 0 fun _ => rfl
  | importMsg | importAckFail | unimport => exact reads_fixed _ (physicalChannelRead_stream _)

end

end VendorKernel.Hab

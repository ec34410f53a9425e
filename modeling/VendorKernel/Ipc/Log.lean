import VendorKernel.Lib.Machine
import VendorKernel.Lib.RingBuffer

/-! The log of `ipc_logging.c`: pages written as one ring, with cursors for writing, for dropping old
messages and for non-destructive reads, all kept in the page headers. -/
namespace VendorKernel.Ipc

open RingBuffer

def MAX_MSG_SIZE : ℕ := 255

def LOG_PAGE_DATA_SIZE : ℕ := 4096 - 72

structure TsvHeader where
  type : UInt8
  size : UInt8

def TsvHeader.sizeof : ℕ := 2

structure LogPage where
  readOffset : ℕ
  writeOffset : ℕ
  ndReadOffset : ℕ
  startTime : ℕ
  endTime : ℕ
  data : ℕ → UInt8

/-- The pages are numbered along the list, from `first_page = 0`; `write_avail` is a `uint32_t`. -/
structure LogContext where
  page : ℕ → LogPage
  lastPage : ℕ
  writePage : ℕ
  readPage : ℕ
  ndReadPage : ℕ
  writeAvail : ℕ

structure EncodeContext where
  hdr : TsvHeader
  buff : ℕ → UInt8
  offset : ℕ

namespace EncodeContext

def msgEncodeEnd (ectxt : EncodeContext) : EncodeContext :=
  let hdr : TsvHeader := { ectxt.hdr with size := .ofNat (ectxt.offset - TsvHeader.sizeof) }
  { ectxt with
    hdr := hdr
    buff := memcpy ectxt.buff 0 (fun i => if i = 0 then hdr.type else hdr.size) TsvHeader.sizeof }

end EncodeContext

namespace LogContext

def getNextPage (ctx : LogContext) (curPg : ℕ) : ℕ :=
  if ctx.lastPage = curPg then 0 else curPg + 1

def setPage (ctx : LogContext) (p : ℕ) (pg : LogPage) : LogContext :=
  { ctx with page := Function.update ctx.page p pg }

def setReadOffset (ctx : LogContext) (p off : ℕ) : LogContext :=
  ctx.setPage p { ctx.page p with readOffset := off }

def setNdReadOffset (ctx : LogContext) (p off : ℕ) : LogContext :=
  ctx.setPage p { ctx.page p with ndReadOffset := off }

def readCursor (ctx : LogContext) : ℕ × ℕ := (ctx.readPage, (ctx.page ctx.readPage).readOffset)

def ndReadCursor (ctx : LogContext) : ℕ × ℕ :=
  (ctx.ndReadPage, (ctx.page ctx.ndReadPage).ndReadOffset)

def writeCursor (ctx : LogContext) : ℕ × ℕ :=
  (ctx.writePage, (ctx.page ctx.writePage).writeOffset)

def isNdReadEmpty (ctx : LogContext) : Bool := ctx.ndReadCursor = ctx.writeCursor

def isReadEmpty (ctx : LogContext) : Bool := ctx.readCursor = ctx.writeCursor

def isNdReadEqualRead (ctx : LogContext) : Bool := ctx.ndReadCursor = ctx.readCursor

def ipcLogRead (ctx : LogContext) (dataSize : ℕ) : List UInt8 × LogContext :=
  let pg := ctx.page ctx.ndReadPage
  let bytesToRead := min (LOG_PAGE_DATA_SIZE - pg.ndReadOffset) dataSize
  let data := slice pg.data pg.ndReadOffset bytesToRead
  if bytesToRead ≠ dataSize then
    -- not enough space, wrap read to next page
    let next := ctx.getNextPage ctx.ndReadPage
    let ctx' := { ctx.setNdReadOffset ctx.ndReadPage 0 with ndReadPage := next }
    let pg' := ctx'.page next
    (data ++ slice pg'.data pg'.ndReadOffset (dataSize - bytesToRead),
      ctx'.setNdReadOffset next (pg'.ndReadOffset + (dataSize - bytesToRead)))
  else (data, ctx.setNdReadOffset ctx.ndReadPage (pg.ndReadOffset + bytesToRead))

/-- The common end of `ipc_log_drop`: the read cursor advances, and with it the non-destructive
one if it is in the same place. -/
def dropBytes (ctx : LogContext) (bytesToRead dataSize : ℕ) : LogContext :=
  let pushNdRead := ctx.isNdReadEqualRead
  let ctx' :=
    { ctx.setReadOffset ctx.readPage ((ctx.page ctx.readPage).readOffset + bytesToRead) with
      writeAvail := (ctx.writeAvail + dataSize) % 2 ^ 32 }
  if pushNdRead then
    ctx'.setNdReadOffset ctx'.ndReadPage ((ctx'.page ctx'.ndReadPage).ndReadOffset + bytesToRead)
  else ctx'

def dropToNextPage (ctx : LogContext) : LogContext :=
  let next := ctx.getNextPage ctx.readPage
  if ctx.isNdReadEqualRead then
    { (ctx.setReadOffset ctx.readPage 0).setNdReadOffset ctx.readPage 0 with readPage := next, ndReadPage := next }
  else { ctx.setReadOffset ctx.readPage 0 with readPage := next }

def ipcLogDrop (ctx : LogContext) (dataSize : ℕ) : List UInt8 × LogContext :=
  let pg := ctx.page ctx.readPage
  let bytesToRead := min (LOG_PAGE_DATA_SIZE - pg.readOffset) dataSize
  let data := slice pg.data pg.readOffset bytesToRead
  if bytesToRead ≠ dataSize then
    let ctx' := ctx.dropToNextPage
    let pg' := ctx'.page ctx'.readPage
    (data ++ slice pg'.data pg'.readOffset (dataSize - bytesToRead), ctx'.dropBytes (dataSize - bytesToRead) dataSize)
  else (data, ctx.dropBytes bytesToRead dataSize)

def asHeader (data : List UInt8) : TsvHeader := ⟨data.getD 0 0, data.getD 1 0⟩

def msgRead (ctx : LogContext) : Option (TsvHeader × List UInt8) × LogContext :=
  if ctx.isNdReadEmpty then (none, ctx)
  else
    let (bytes, ctx) := ctx.ipcLogRead TsvHeader.sizeof
    let hdr := asHeader bytes
    let (payload, ctx) := ctx.ipcLogRead hdr.size.toNat
    (some (hdr, payload), ctx)

def msgDrop (ctx : LogContext) : LogContext :=
  if ctx.isReadEmpty then ctx
  else
    let (bytes, ctx) := ctx.ipcLogDrop TsvHeader.sizeof
    (ctx.ipcLogDrop (asHeader bytes).size.toNat).2

/-- The loop of `ipc_log_write` that makes room; `none` when it has not ended after `fuel`
rounds. -/
def makeRoom (offset : ℕ) : ℕ → LogContext → Option LogContext
  | fuel, ctx =>
    if ctx.writeAvail ≤ offset then
      match fuel with
      | 0 => none
      | fuel + 1 => makeRoom offset fuel ctx.msgDrop
    else some ctx

def writeBytes (ctx : LogContext) (src : ℕ → UInt8) (n : ℕ) : LogContext :=
  let pg := ctx.page ctx.writePage
  ctx.setPage ctx.writePage
    { pg with data := memcpy pg.data pg.writeOffset src n, writeOffset := pg.writeOffset + n }

def enterNextPage (ctx : LogContext) (tNow : ℕ) : LogContext :=
  let next := ctx.getNextPage ctx.writePage
  let ctx' := ctx.setPage ctx.writePage { ctx.page ctx.writePage with endTime := tNow }
  { ctx'.setPage next { ctx'.page next with writeOffset := 0, startTime := tNow } with
    writePage := next }

/-- The copy of `ipc_log_write`, into the next page for what does not fit in this one. -/
def copyMessage (ctx : LogContext) (ectxt : EncodeContext) (tNow : ℕ) : LogContext :=
  let bytesToWrite := min (LOG_PAGE_DATA_SIZE - (ctx.page ctx.writePage).writeOffset) ectxt.offset
  let ctx' := ctx.writeBytes ectxt.buff bytesToWrite
  if bytesToWrite ≠ ectxt.offset then
    (ctx'.enterNextPage tNow).writeBytes (fun i => ectxt.buff (bytesToWrite + i)) (ectxt.offset - bytesToWrite)
  else ctx'

def commit (ctx : LogContext) (ectxt : EncodeContext) (tNow : ℕ) : LogContext :=
  { ctx.copyMessage ectxt tNow with writeAvail := (ctx.writeAvail + 2 ^ 32 - ectxt.offset) % 2 ^ 32 }

/-- `ipc_log_write`; no more rounds are needed than the log has bytes. -/
def ipcLogWrite (ctx : LogContext) (ectxt : EncodeContext) (tNow : ℕ) : Option LogContext :=
  (makeRoom ectxt.offset ((ctx.lastPage + 1) * LOG_PAGE_DATA_SIZE) ctx).map
    fun ctx => ctx.commit ectxt tNow

def create (maxNumPages : ℕ) : LogContext where
  page _ := ⟨0, 0, 0, 0, 0, fun _ => 0⟩
  lastPage := maxNumPages - 1
  writePage := 0
  readPage := 0
  ndReadPage := 0
  writeAvail := maxNumPages * LOG_PAGE_DATA_SIZE % 2 ^ 32

end LogContext

end VendorKernel.Ipc

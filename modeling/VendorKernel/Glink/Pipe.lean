import Mathlib.Data.List.Forall2
import VendorKernel.Lib.Machine
import VendorKernel.Lib.RingQueue

/-! The shared-memory pipe of the GLINK transport. The writer owns the head, the reader the tail; both are
32-bit words, the length is a `size_t`. Space is tested against the length of a message, and the head moves
by that length padded to eight bytes. -/
namespace VendorKernel.Glink

open Machine RingBuffer Nat
open List hiding count

def FIFO_FULL_RESERVE : ℕ := 8

def TX_BLOCKED_CMD_RESERVE : ℕ := 8

structure Pipe where
  length : ℕ
  head : ℕ
  tail : ℕ
  fifo : ℕ → UInt8

def u32 (n : ℕ) : ℕ := n % 2 ^ 32

def subSize (a b : ℕ) : ℕ := (a + 2 ^ 64 - b) % 2 ^ 64

def align8 (n : ℕ) : ℕ := (n + 7) / 8 * 8

def glinkSmemRxAvail (pipe : Pipe) : ℕ :=
  let len := if pipe.head < pipe.tail then (subSize pipe.length pipe.tail + pipe.head) % 2 ^ 64
    else pipe.head - pipe.tail
  if pipe.length < len then 0 else len

def glinkSmemRxPeek (pipe : Pipe) (data : ℕ → UInt8) (offset count : ℕ) : ℕ → UInt8 :=
  if pipe.length < pipe.tail then data
  else
    let tail := u32 (pipe.tail + offset)
    let tail := if pipe.length ≤ tail then tail - pipe.length else tail
    let len := min count (subSize pipe.length tail)
    let data := memcpy data 0 (fun i => pipe.fifo (tail + i)) len
    if len ≠ count then memcpy data len pipe.fifo (count - len) else data

def glinkSmemRxAdvance (pipe : Pipe) (count : ℕ) : Pipe :=
  let tail := u32 (pipe.tail + count)
  { pipe with tail := if pipe.length ≤ tail then tail % pipe.length else tail }

def Pipe.free (pipe : Pipe) : ℕ :=
  if pipe.tail ≤ pipe.head then u32 (subSize pipe.length pipe.head + pipe.tail)
  else pipe.tail - pipe.head

def glinkSmemTxAvail (pipe : Pipe) : ℕ :=
  let avail := if pipe.free < FIFO_FULL_RESERVE + TX_BLOCKED_CMD_RESERVE then 0
    else pipe.free - (FIFO_FULL_RESERVE + TX_BLOCKED_CMD_RESERVE)
  if pipe.length < avail then 0 else avail

def Pipe.copyIn (pipe : Pipe) (head : ℕ) (data : ℕ → UInt8) (count : ℕ) : Pipe :=
  { pipe with fifo := wrapWrite pipe.length pipe.fifo head data count }

def glinkSmemTxWriteOne (pipe : Pipe) (head : ℕ) (data : ℕ → UInt8) (count : ℕ) : Pipe × ℕ :=
  if pipe.length < head then (pipe, head)
  else
    let next := u32 (head + count)
    (pipe.copyIn head data count, if pipe.length ≤ next then next - pipe.length else next)

def Pipe.publish (pipe : Pipe) (head : ℕ) : Pipe :=
  let head := u32 (head + 7) / 8 * 8
  { pipe with head := if pipe.length ≤ head then head - pipe.length else head }

def glinkSmemTxWrite (pipe : Pipe) (hdr : ℕ → UInt8) (hlen : ℕ) (data : ℕ → UInt8) (dlen : ℕ) :
    Pipe :=
  let (pipe, head) := glinkSmemTxWriteOne pipe pipe.head hdr hlen
  let (pipe, head) := glinkSmemTxWriteOne pipe head data dlen
  pipe.publish head

@[simp] theorem glinkSmemTxWrite_length (pipe : Pipe) (hdr data : ℕ → UInt8) (hlen dlen : ℕ) :
    (glinkSmemTxWrite pipe hdr hlen data dlen).length = pipe.length := by
  simp only [glinkSmemTxWrite, glinkSmemTxWriteOne, Pipe.publish, Pipe.copyIn]
  split_ifs <;> rfl

theorem le_align8 (n : ℕ) : n ≤ align8 n := by
  unfold align8
  omega

theorem dvd_align8 (n : ℕ) : 8 ∣ align8 n := dvd_mul_left 8 _

theorem align8_le {n m : ℕ} (h : n ≤ m) (hm : 8 ∣ m) : align8 n ≤ m := by
  unfold align8
  omega

theorem u32_of_lt {n : ℕ} (h : n < 2 ^ 32) : u32 n = n := mod_eq_of_lt h

theorem subSize_of_le {a b : ℕ} (hba : b ≤ a) (ha : a < 2 ^ 64) : subSize a b = a - b := by
  unfold subSize
  omega

section
variable {pipe : Pipe} {q : List UInt8} {n : ℕ}

theorem rxAvail_of_holds (h : Holds pipe.length pipe.fifo pipe.head pipe.tail q)
    (hle : pipe.length ≤ 2 ^ 31) : glinkSmemRxAvail pipe = q.length := by
  have htail := h.tail_lt
  have hhead := h.head_lt
  have hroom := h.room
  rw [glinkSmemRxAvail, subSize_of_le htail.le (by omega), mod_eq_of_lt (by omega), h.occupied]
  exact if_neg (by omega)

theorem rxAdvance_tail (hle : pipe.length ≤ 2 ^ 31) (htail : pipe.tail < pipe.length)
    (hn : n ≤ pipe.length) : (glinkSmemRxAdvance pipe n).tail = (pipe.tail + n) % pipe.length := by
  simp only [glinkSmemRxAdvance, u32_of_lt (by omega : pipe.tail + n < 2 ^ 32)]
  by_cases hlap : pipe.length ≤ pipe.tail + n
  · rw [if_pos hlap]
  · rw [if_neg hlap, mod_eq_of_lt (by omega)]

theorem rxAdvance_holds (h : Holds pipe.length pipe.fifo pipe.head pipe.tail q)
    (hle : pipe.length ≤ 2 ^ 31) (hn : n ≤ q.length) :
    Holds pipe.length pipe.fifo pipe.head (glinkSmemRxAdvance pipe n).tail (q.drop n) := by
  have hroom := h.room
  rw [rxAdvance_tail hle h.tail_lt (by omega)]
  exact h.advance hn

end

/-- The pipe holds these published bytes, few enough for sums of a cell and a message length to fit `u32`. -/
structure Carries (pipe : Pipe) (q : List UInt8) : Prop where
  holds : Holds pipe.length pipe.fifo pipe.head pipe.tail q
  length_le : pipe.length ≤ 2 ^ 31
  length_aligned : 8 ∣ pipe.length
  tail_aligned : 8 ∣ pipe.tail
  aligned : 8 ∣ q.length

structure Copied (pipe : Pipe) (head : ℕ) (bytes : List UInt8) : Prop where
  head_eq : head = (pipe.head + bytes.length) % pipe.length
  data : window pipe.length pipe.fifo pipe.head bytes.length = bytes

structure Padded (bytes frame : List UInt8) : Prop where
  length_eq : frame.length = align8 bytes.length
  take_eq : frame.take bytes.length = bytes

namespace Carries

variable {pipe : Pipe} {q : List UInt8} {n hlen dlen offset count : ℕ}

section
variable (h : Carries pipe q)
include h

theorem room : q.length + 8 ≤ pipe.length := by
  have hroom := h.holds.room
  have hlth := h.length_aligned
  have hq := h.aligned
  omega

theorem head_aligned : 8 ∣ pipe.head := by
  have hcs := h.holds.head_cases
  have hlth := h.length_aligned
  have htail := h.tail_aligned
  have hq := h.aligned
  omega

theorem rxAvail_eq : glinkSmemRxAvail pipe = q.length :=
  rxAvail_of_holds h.holds h.length_le

theorem free_eq : pipe.free = pipe.length - q.length := by
  have hle := h.length_le
  have hhead := h.holds.head_lt
  have hfree := h.holds.free
  rw [Pipe.free, subSize_of_le hhead.le (by omega), ← hfree]
  by_cases hcase : pipe.tail ≤ pipe.head
  · rw [if_pos hcase, if_pos hcase, u32_of_lt (by omega)]
  · rw [if_neg hcase, if_neg hcase]

theorem txAvail_eq : glinkSmemTxAvail pipe = pipe.length - q.length - 16 := by
  simp only [glinkSmemTxAvail, h.free_eq, FIFO_FULL_RESERVE, TX_BLOCKED_CMD_RESERVE]
  split_ifs <;> omega

theorem fits (hn : n ≤ glinkSmemTxAvail pipe) (hpos : 0 < n) : q.length + align8 n + 16 ≤ pipe.length := by
  rw [h.txAvail_eq] at hn
  have hlth := h.length_aligned
  have hq := h.aligned
  have hpad := align8_le hn (by omega)
  omega

theorem fits_or_empty (hn : n ≤ glinkSmemTxAvail pipe) : q.length + align8 n + 8 ≤ pipe.length := by
  obtain rfl | hpos := n.eq_zero_or_pos
  · exact h.room
  · have := h.fits hn hpos
    omega

theorem copied_nil : Copied pipe pipe.head [] :=
  ⟨(mod_eq_of_lt h.holds.head_lt).symm, rfl⟩

end

section
variable {head : ℕ} {bytes : List UInt8} (h : Carries pipe q) (hc : Copied pipe head bytes)
include h hc

theorem copied_cases (hb : bytes.length ≤ pipe.length) :
    head < pipe.length ∧ (head = pipe.head + bytes.length ∨ head + pipe.length = pipe.head + bytes.length) := by
  have hlt := h.holds.head_lt
  rw [hc.head_eq]
  by_cases hlap : pipe.head + bytes.length < pipe.length
  · rw [mod_eq_of_lt hlap]
    omega
  · rw [mod_eq_sub_mod (by omega), mod_eq_of_lt (by omega)]
    omega

theorem txWriteOne_eq (src : ℕ → UInt8) (hn : bytes.length + n ≤ pipe.length) :
    glinkSmemTxWriteOne pipe head src n =
      (pipe.copyIn head src n, (pipe.head + (bytes.length + n)) % pipe.length) := by
  have hle := h.length_le
  obtain ⟨hlt, hcs⟩ := h.copied_cases hc (by omega)
  have hmod : (pipe.head + (bytes.length + n)) % pipe.length = (head + n) % pipe.length := by
    rw [hc.head_eq, mod_add_mod, add_assoc]
  rw [glinkSmemTxWriteOne, if_neg (by omega), hmod]
  simp only [u32_of_lt (by omega : head + n < 2 ^ 32), Prod.mk.injEq, true_and]
  by_cases hlap : pipe.length ≤ head + n
  · rw [if_pos hlap, mod_eq_sub_mod hlap, mod_eq_of_lt (by omega)]
  · rw [if_neg hlap, mod_eq_of_lt (by omega)]

/-- One part of a message is copied behind the head. -/
theorem txWriteOne (src : ℕ → UInt8) (hn : q.length + (bytes.length + n) ≤ pipe.length) :
    ∃ head', glinkSmemTxWriteOne pipe head src n = (pipe.copyIn head src n, head') ∧
      Carries (pipe.copyIn head src n) q ∧
      Copied (pipe.copyIn head src n) head' (bytes ++ slice src 0 n) := by
  have hlt := (h.copied_cases hc (by omega)).1
  have hcell : pipe.head + bytes.length ≡ head [MOD pipe.length] := by
    rw [hc.head_eq]
    exact (mod_modEq _ _).symm
  have hlen : (bytes ++ slice src 0 n).length = bytes.length + n := by simp
  refine ⟨_, h.txWriteOne_eq hc src (by omega), ?_, ?_⟩
  · exact ⟨h.holds.copy src hc.head_eq (by omega), h.length_le, h.length_aligned, h.tail_aligned,
      h.aligned⟩
  · constructor
    · rw [hlen]
      rfl
    · rw [hlen, window_add]
      congr 1
      · exact (window_wrapWrite_frame _ src hcell hlt.le le_rfl (by omega)).trans hc.data
      · exact window_wrapWrite_self _ src hcell hlt.le (by change n ≤ pipe.length; omega)

theorem publish_head (hb : bytes.length ≤ pipe.length) :
    (pipe.publish head).head = (pipe.head + align8 bytes.length) % pipe.length := by
  have hle := h.length_le
  have hhead := h.head_aligned
  have hlth := h.length_aligned
  have hlt := h.holds.head_lt
  have hpad := align8_le hb hlth
  obtain ⟨hlt', hcs⟩ := h.copied_cases hc hb
  -- alignment commutes with the subtraction of the length
  have hal : u32 (head + 7) / 8 * 8 = pipe.head + align8 bytes.length ∨
      u32 (head + 7) / 8 * 8 + pipe.length = pipe.head + align8 bytes.length := by
    rw [u32_of_lt (by omega), align8]
    omega
  have hbd : u32 (head + 7) / 8 * 8 ≤ pipe.length := by
    rw [u32_of_lt (by omega)]
    omega
  simp only [Pipe.publish]
  generalize u32 (head + 7) / 8 * 8 = cell at hal hbd
  obtain hcell | hcell := hal
  · rw [← hcell]
    obtain hlt | heq := lt_or_eq_of_le hbd
    · rw [if_neg (by omega), Nat.mod_eq_of_lt hlt]
    · rw [if_pos heq.ge, heq, Nat.sub_self, Nat.mod_self]
  · have hmod : cell < pipe.length := by omega
    rw [← hcell, Nat.add_mod_right, Nat.mod_eq_of_lt hmod, if_neg (by omega)]

theorem publish (hn : q.length + align8 bytes.length + 8 ≤ pipe.length) :
    Carries (pipe.publish head)
        (q ++ window pipe.length pipe.fifo pipe.head (align8 bytes.length)) ∧
      Padded bytes (window pipe.length pipe.fifo pipe.head (align8 bytes.length)) := by
  have hle := le_align8 bytes.length
  have hhead := h.publish_head hc (by omega)
  constructor
  · refine ⟨?_, h.length_le, h.length_aligned, h.tail_aligned, ?_⟩
    · rw [hhead]
      exact h.holds.publish (by omega)
    · rw [length_append, window_length]
      exact Nat.dvd_add h.aligned (dvd_align8 _)
  · refine ⟨window_length _ _ _ _, ?_⟩
    conv_rhs => rw [← hc.data]
    exact slice_take _ _ hle

end

theorem txWrite (h : Carries pipe q) (hdr data : ℕ → UInt8) (hn : q.length + align8 (hlen + dlen) + 8 ≤ pipe.length) :
    ∃ frame, frame = window pipe.length (glinkSmemTxWrite pipe hdr hlen data dlen).fifo pipe.head
        (align8 (hlen + dlen)) ∧
      Padded (slice hdr 0 hlen ++ slice data 0 dlen) frame ∧
      Carries (glinkSmemTxWrite pipe hdr hlen data dlen) (q ++ frame) := by
  have hpad := le_align8 (hlen + dlen)
  obtain ⟨head₁, hone, h₁, hc₁⟩ := h.txWriteOne (n := hlen) h.copied_nil hdr (by simp; omega)
  obtain ⟨head₂, htwo, h₂, hc₂⟩ := h₁.txWriteOne (n := dlen) hc₁ data (by simp [Pipe.copyIn]; omega)
  obtain ⟨h₃, hfr⟩ := h₂.publish hc₂ (by simpa [Pipe.copyIn] using hn)
  refine ⟨_, ?_, hfr, ?_⟩
  · simp only [glinkSmemTxWrite, hone, htwo, nil_append, length_append, slice_length]
    rfl
  · simpa only [glinkSmemTxWrite, hone, htwo] using h₃

theorem rxAdvance (h : Carries pipe q) (hn : n ≤ q.length) (hal : 8 ∣ n) :
    Carries (glinkSmemRxAdvance pipe n) (q.drop n) := by
  have hroom := h.room
  refine ⟨rxAdvance_holds h.holds h.length_le hn, h.length_le, h.length_aligned, ?_, ?_⟩
  · rw [rxAdvance_tail h.length_le h.holds.tail_lt (by omega)]
    exact (Nat.dvd_mod_iff h.length_aligned).mpr (Nat.dvd_add h.tail_aligned hal)
  · rw [length_drop]
    exact Nat.dvd_sub h.aligned hal

/-- A peek sees the bytes from `offset` on. -/
theorem rxPeek (h : Carries pipe q) (dst : ℕ → UInt8) (hn : offset + count ≤ q.length) :
    slice (glinkSmemRxPeek pipe dst offset count) 0 count = (q.drop offset).take count := by
  have hle := h.length_le
  have hroom := h.room
  have htail := h.holds.tail_lt
  have hcell : (if pipe.length ≤ u32 (pipe.tail + offset) then u32 (pipe.tail + offset) - pipe.length
      else u32 (pipe.tail + offset)) = (pipe.tail + offset) % pipe.length := by
    rw [u32_of_lt (by omega)]
    by_cases hlap : pipe.length ≤ pipe.tail + offset
    · rw [if_pos hlap, mod_eq_sub_mod hlap, mod_eq_of_lt (by omega)]
    · rw [if_neg hlap, mod_eq_of_lt (by omega)]
  have hlt : (pipe.tail + offset) % pipe.length < pipe.length := mod_lt _ (by omega)
  have hread : glinkSmemRxPeek pipe dst offset count =
      wrapRead pipe.length pipe.fifo ((pipe.tail + offset) % pipe.length) dst 0 count := by
    simp only [glinkSmemRxPeek, if_neg (by omega : ¬pipe.length < pipe.tail), hcell,
      subSize_of_le hlt.le (by omega), wrapRead, zero_add]
  have hsl := slice_wrapRead pipe.fifo dst (d := 0) (n := count) hlt.le (by omega)
  rw [zero_add] at hsl
  rw [hread, hsl, h.holds.window_eq hn]
  rfl

end Carries

structure Message where
  hdr : ℕ → UInt8
  hlen : ℕ
  data : ℕ → UInt8
  dlen : ℕ

def Message.size (m : Message) : ℕ := m.hlen + m.dlen

def Message.bytes (m : Message) : List UInt8 := slice m.hdr 0 m.hlen ++ slice m.data 0 m.dlen

@[simp] theorem Message.length_bytes (m : Message) : m.bytes.length = m.size := by
  simp [bytes, size]

/-- Where a call of `glink_smem_tx_write` is: in front of one of its two copies or of the store to
the head. -/
inductive TxStage where
  | idle
  | header (m : Message)
  | payload (m : Message) (head : ℕ)
  | publish (m : Message) (head : ℕ)

/-- Both ends of a pipe. The last three fields are not in the source. -/
structure Link where
  pipe : Pipe
  stage : TxStage
  sent : List Message
  frames : List (List UInt8)
  taken : List UInt8

inductive LinkOp where
  | txWrite (m : Message)
  | proceed
  | rxAdvance (count : ℕ)

def Link.start (L : ℕ) (mem : ℕ → UInt8) : Link :=
  { pipe := ⟨L, 0, 0, mem⟩, stage := .idle, sent := [], frames := [], taken := [] }

def Link.step (s : Link) : LinkOp → Option Link
  | .txWrite m =>
    match s.stage with
    | .idle => some { s with stage := .header m }
    | _ => none
  | .proceed =>
    match s.stage with
    | .idle => none
    | .header m =>
      let (pipe, head) := glinkSmemTxWriteOne s.pipe s.pipe.head m.hdr m.hlen
      some { s with pipe := pipe, stage := .payload m head }
    | .payload m head =>
      let (pipe, head) := glinkSmemTxWriteOne s.pipe head m.data m.dlen
      some { s with pipe := pipe, stage := .publish m head }
    | .publish m head =>
      some { s with
        pipe := s.pipe.publish head
        stage := .idle
        sent := s.sent ++ [m]
        frames := s.frames ++ [window s.pipe.length s.pipe.fifo s.pipe.head (align8 m.size)] }
  | .rxAdvance count =>
    some { s with
      pipe := glinkSmemRxAdvance s.pipe count
      taken := s.taken ++ slice (glinkSmemRxPeek s.pipe (fun _ => 0) 0 count) 0 count }

/-- A write is called with enough space, the reader passes only what it can read, in multiples of eight
bytes. -/
def Link.Disciplined (s : Link) : LinkOp → Prop
  | .txWrite m => m.size ≤ glinkSmemTxAvail s.pipe
  | .proceed => True
  | .rxAdvance count => 8 ∣ count ∧ count ≤ glinkSmemRxAvail s.pipe

instance (s : Link) (op : LinkOp) : Decidable (s.Disciplined op) := by
  cases op <;> unfold Link.Disciplined <;> infer_instance

structure Link.Sound (s : Link) : Prop where
  head_lt : s.pipe.head < s.pipe.length
  tail_lt : s.pipe.tail < s.pipe.length
  head_aligned : 8 ∣ s.pipe.head
  tail_aligned : 8 ∣ s.pipe.tail
  padded : List.Forall₂ Padded (s.sent.map Message.bytes) s.frames
  unread : s.frames.flatten = s.taken ++ window s.pipe.length s.pipe.fifo s.pipe.tail (glinkSmemRxAvail s.pipe)
  empty : s.pipe.head = s.pipe.tail ↔ s.taken = s.frames.flatten
  peek : ∀ dst offset count, offset + count ≤ glinkSmemRxAvail s.pipe →
    slice (glinkSmemRxPeek s.pipe dst offset count) 0 count =
      (s.frames.flatten.drop (s.taken.length + offset)).take count

theorem Link.Sound.count {s : Link} (h : s.Sound) :
    (s.sent.map fun m => align8 m.size).sum = s.taken.length + glinkSmemRxAvail s.pipe := by
  have hlen : ∀ {ms : List Message} {frames}, List.Forall₂ Padded (ms.map Message.bytes) frames →
      (ms.map fun m => align8 m.size).sum = frames.flatten.length := by
    intro ms
    induction ms with
    | nil => rintro _ ⟨⟩; rfl
    | cons m ms ih =>
      rintro _ (_ | ⟨hm, hms⟩)
      simp [ih hms, hm.length_eq]
  simp [hlen h.padded, h.unread]

def TxStage.Ready (pipe : Pipe) (q : List UInt8) : TxStage → Prop
  | .idle => True
  | .header m => q.length + align8 m.size + 8 ≤ pipe.length
  | .payload m head =>
    q.length + align8 m.size + 8 ≤ pipe.length ∧ Copied pipe head (slice m.hdr 0 m.hlen)
  | .publish m head => q.length + align8 m.size + 8 ≤ pipe.length ∧ Copied pipe head m.bytes

structure Link.Inv (s : Link) (q : List UInt8) : Prop where
  carries : Carries s.pipe q
  ready : s.stage.Ready s.pipe q
  padded : List.Forall₂ Padded (s.sent.map Message.bytes) s.frames
  stream : s.frames.flatten = s.taken ++ q

namespace Link.Inv

variable {s s' : Link} {q : List UInt8} {m : Message} {head L n : ℕ}

theorem start (hpos : 0 < L) (hle : L ≤ 2 ^ 31) (hal : 8 ∣ L) (mem : ℕ → UInt8) : (Link.start L mem).Inv [] :=
  ⟨⟨Holds.empty hpos, hle, hal, dvd_zero 8, dvd_zero 8⟩, trivial, .nil, rfl⟩

section
variable (h : s.Inv q)
include h

theorem sound : s.Sound := by
  have hc := h.carries
  refine ⟨hc.holds.head_lt, hc.holds.tail_lt, hc.head_aligned, hc.tail_aligned, h.padded, ?_, ?_, ?_⟩
  · rw [hc.rxAvail_eq, hc.holds.data, h.stream]
  · rw [← hc.holds.eq_nil_iff, h.stream]
    simp
  · intro dst offset count hn
    rw [hc.rxAvail_eq] at hn
    rw [hc.rxPeek dst hn, h.stream, ← drop_drop, drop_left]

theorem txWrite (hroom : m.size ≤ glinkSmemTxAvail s.pipe) : ({ s with stage := .header m } : Link).Inv q :=
  ⟨h.carries, h.carries.fits_or_empty hroom, h.padded, h.stream⟩

theorem header (hsg : s.stage = .header m) (hs : s.step .proceed = some s') : s'.Inv q := by
  have hroom : q.length + align8 m.size + 8 ≤ s.pipe.length := by
    simpa only [hsg, TxStage.Ready] using h.ready
  have hpad := le_align8 m.size
  have hsize : m.size = m.hlen + m.dlen := rfl
  obtain ⟨head', heq, hcar, hcpd⟩ :=
    h.carries.txWriteOne (n := m.hlen) h.carries.copied_nil m.hdr (by simp; omega)
  simp only [step, hsg, heq] at hs
  cases hs
  exact ⟨hcar, ⟨hroom, hcpd⟩, h.padded, h.stream⟩

theorem payload (hsg : s.stage = .payload m head) (hs : s.step .proceed = some s') : s'.Inv q := by
  obtain ⟨hroom, hc⟩ : q.length + align8 m.size + 8 ≤ s.pipe.length ∧ Copied s.pipe head (slice m.hdr 0 m.hlen) := by
    simpa only [hsg, TxStage.Ready] using h.ready
  have hpad := le_align8 m.size
  have hsize : m.size = m.hlen + m.dlen := rfl
  obtain ⟨head', heq, hcar, hcpd⟩ :=
    h.carries.txWriteOne (n := m.dlen) hc m.data (by simp; omega)
  simp only [step, hsg, heq] at hs
  cases hs
  exact ⟨hcar, ⟨hroom, hcpd⟩, h.padded, h.stream⟩

theorem publish (hsg : s.stage = .publish m head) (hs : s.step .proceed = some s') : ∃ q', s'.Inv q' := by
  obtain ⟨hroom, hc⟩ : q.length + align8 m.size + 8 ≤ s.pipe.length ∧ Copied s.pipe head m.bytes := by
    simpa only [hsg, TxStage.Ready] using h.ready
  obtain ⟨hcar, hfr⟩ := h.carries.publish hc (by simpa using hroom)
  rw [m.length_bytes] at hcar hfr
  simp only [step, hsg] at hs
  cases hs
  refine ⟨_, hcar, trivial, ?_, ?_⟩
  · rw [map_append]
    exact rel_append h.padded (.cons hfr .nil)
  · simp [h.stream]

theorem ready_advance : s.stage.Ready (glinkSmemRxAdvance s.pipe n) (q.drop n) := by
  have hrdy := h.ready
  have hdrop : (q.drop n).length ≤ q.length := by simp
  cases hsg : s.stage with
  | idle => trivial
  | header m =>
    simp only [hsg, TxStage.Ready] at hrdy ⊢
    change _ ≤ s.pipe.length
    omega
  | payload m head | publish m head =>
    simp only [hsg, TxStage.Ready] at hrdy ⊢
    refine ⟨?_, hrdy.2.1, hrdy.2.2⟩
    change _ ≤ s.pipe.length
    omega

theorem rxAdvance (hal : 8 ∣ n) (hn : n ≤ glinkSmemRxAvail s.pipe) (hs : s.step (.rxAdvance n) = some s') :
    s'.Inv (q.drop n) := by
  rw [h.carries.rxAvail_eq] at hn
  cases hs
  refine ⟨h.carries.rxAdvance hn hal, h.ready_advance, h.padded, ?_⟩
  rw [h.carries.rxPeek _ (by omega)]
  simp [h.stream]

theorem step {op : LinkOp} (hok : s.Disciplined op) (hs : s.step op = some s') : ∃ q', s'.Inv q' := by
  cases op with
  | txWrite m =>
    cases hsg : s.stage with
    | idle =>
      simp only [Link.step, hsg] at hs
      cases hs
      exact ⟨q, h.txWrite hok⟩
    | header | payload | publish => simp [Link.step, hsg] at hs
  | proceed =>
    cases hsg : s.stage with
    | idle => simp [Link.step, hsg] at hs
    | header m => exact ⟨q, h.header hsg hs⟩
    | payload m head => exact ⟨q, h.payload hsg hs⟩
    | publish m head => exact h.publish hsg hs
  | rxAdvance n => exact ⟨_, h.rxAdvance hok.1 hok.2 hs⟩

end

end Link.Inv

/-- A pipe of at most `2 ^ 31` bytes keeps every message, at any interleaving of the two ends. -/
theorem glink_pipe_sound {L : ℕ} (hpos : 0 < L) (hle : L ≤ 2 ^ 31) (haligned : 8 ∣ L)
    (mem : ℕ → UInt8) (ops : List LinkOp) (s : Link)
    (hok : Meets Link.step Link.Disciplined (Link.start L mem) ops)
    (hrun : run Link.step (Link.start L mem) ops = some s) : s.Sound := by
  have hstep : ∀ (s : Link) op s', (∃ q, s.Inv q) → s.Disciplined op → s.step op = some s' → ∃ q, s'.Inv q := by
    rintro s op s' ⟨q, hq⟩ hop hs
    exact hq.step hop hs
  obtain ⟨q, hq⟩ := run_inv hstep ⟨[], Link.Inv.start hpos hle haligned mem⟩ hok hrun
  exact hq.sound

def threeBytes : List LinkOp :=
  [.txWrite ⟨fun i => UInt8.ofNat i, 8, fun _ => 7, 3⟩, .proceed, .proceed, .proceed, .rxAdvance 16]

/-- A header and three bytes in a pipe of 32 bytes; the reader passes them with their padding. -/
theorem glink_pipe_sound_three :
    (run Link.step (Link.start 32 fun _ => 0) threeBytes).map (fun s => (s.pipe.head, s.taken)) =
        some (16, [0, 1, 2, 3, 4, 5, 6, 7, 7, 7, 7, 0, 0, 0, 0, 0]) ∧
      ∀ s, run Link.step (Link.start 32 fun _ => 0) threeBytes = some s → s.Sound :=
  ⟨by decide, fun s hs => glink_pipe_sound (by decide) (by decide) (by decide) _ threeBytes s
    (by decide) hs⟩

def twoLongMessages : List LinkOp :=
  let m : Message := ⟨fun _ => 0, 0, fun _ => 0, 2 ^ 31⟩
  [.txWrite m, .proceed, .proceed, .proceed, .rxAdvance (2 ^ 31), .txWrite m, .proceed, .proceed, .proceed]

/-- In a longer pipe the head goes round at `2 ^ 32`: of the second message only 16 bytes are
readable. -/
theorem glink_pipe_loses_message :
    8 ∣ 2 ^ 31 + 16 ∧
      Meets Link.step Link.Disciplined (Link.start (2 ^ 31 + 16) fun _ => 0) twoLongMessages ∧
      ∃ s, run Link.step (Link.start (2 ^ 31 + 16) fun _ => 0) twoLongMessages = some s ∧
        glinkSmemRxAvail s.pipe = 16 ∧ ¬s.Sound := by
  have hend : ∃ s, run Link.step (Link.start (2 ^ 31 + 16) fun _ => 0) twoLongMessages = some s ∧
      (s.sent.map fun m => align8 m.size).sum = 2 ^ 32 ∧ (∃ mem, s.taken = slice mem 0 (2 ^ 31)) ∧
      glinkSmemRxAvail s.pipe = 16 :=
    ⟨_, rfl, by decide, ⟨_, rfl⟩, by decide⟩
  obtain ⟨s, hrun, hsent, ⟨mem, htk⟩, hav⟩ := hend
  refine ⟨by decide, by decide, s, hrun, hav, ?_⟩
  intro h
  have hcnt := h.count
  rw [htk, slice_length] at hcnt
  omega

end VendorKernel.Glink

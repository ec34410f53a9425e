import VendorKernel.Ipc.LogCursors
import VendorKernel.Lib.BoundedFifo

/-! The log as a queue of messages: it retains the end of what was written, from a message boundary on, and
every read returns the oldest retained message that was not read. -/
namespace VendorKernel.Ipc

open RingBuffer BoundedFifo Machine List Fifo TsvHeader Nat Option Function LogInv

/-- An encoded message of 2 to `MAX_MSG_SIZE` bytes, its size also in its second byte. -/
structure Message where
  ectxt : EncodeContext
  header_le : sizeof ≤ ectxt.offset
  le_max : ectxt.offset ≤ MAX_MSG_SIZE
  size_eq : (ectxt.buff 1).toNat = ectxt.offset - sizeof

def EncodeContext.message (ectxt : EncodeContext) (header_le : sizeof ≤ ectxt.offset)
    (le_max : ectxt.offset ≤ MAX_MSG_SIZE) : Message where
  ectxt := ectxt.msgEncodeEnd
  header_le := header_le
  le_max := le_max
  size_eq := by
    change (UInt8.ofNat (ectxt.offset - sizeof)).toNat = _
    rw [UInt8.toNat_ofNat', mod_eq_of_lt]
    · rfl
    exact lt_of_le_of_lt ((sub_le _ _).trans le_max) (by decide : MAX_MSG_SIZE < 2 ^ 8)

namespace Message

def size (m : Message) : ℕ := m.ectxt.offset

def bytes (m : Message) : List UInt8 := slice m.ectxt.buff 0 m.size

variable (m : Message)

theorem size_pos : 0 < m.size := lt_of_lt_of_le (by decide) m.header_le

theorem size_le : m.size ≤ LOG_PAGE_DATA_SIZE := m.le_max.trans (by decide)

theorem size_split : m.size = sizeof + (m.ectxt.buff 1).toNat := by
  rw [m.size_eq, Nat.add_sub_cancel' m.header_le, size]

theorem bytes_length : m.bytes.length = m.size := slice_length _ _ _

theorem bytes_eq : m.bytes = [m.ectxt.buff 0, m.ectxt.buff 1] ++
    slice m.ectxt.buff sizeof (m.ectxt.buff 1).toNat := by
  rw [bytes, size_split, slice_add]
  rfl

end Message

def replyBytes (reply : TsvHeader × List UInt8) : List UInt8 :=
  reply.1.type :: reply.1.size :: reply.2

def encoded (ms : List Message) : List UInt8 := (ms.map Message.bytes).flatten

def place (c : ℕ × ℕ) : ℕ := c.1 * LOG_PAGE_DATA_SIZE + c.2

def LogContext.retained (ctx : LogContext) : List UInt8 :=
  let total := (ctx.lastPage + 1) * LOG_PAGE_DATA_SIZE
  window total ctx.flat (place ctx.readCursor) ((place ctx.writeCursor + total - place ctx.readCursor) % total)

/-- The log stands for this queue; its oldest byte has position `r`. -/
structure Holds (N : ℕ) (ctx : LogContext) (f : Fifo Message) (r : ℕ) : Prop where
  inv : LogInv N ctx r (r + weight Message.size f.read) (r + weight Message.size f.retained)
  data : window (N * LOG_PAGE_DATA_SIZE) ctx.flat r (weight Message.size f.retained) = encoded f.retained

@[simp] theorem encoded_cons (m : Message) (ms : List Message) : encoded (m :: ms) = m.bytes ++ encoded ms := rfl

theorem encoded_append (ms ms' : List Message) : encoded (ms ++ ms') = encoded ms ++ encoded ms' := by
  simp [encoded]

theorem encoded_length (ms : List Message) : (encoded ms).length = weight Message.size ms := by
  induction ms with
  | nil => rfl
  | cons m ms ih => rw [encoded_cons, length_append, weight_cons, ih, m.bytes_length]

section
variable {L x : ℕ} {mem : ℕ → UInt8}

theorem window_of_cons {m : Message} {ms : List Message}
    (h : window L mem x (weight Message.size (m :: ms)) = encoded (m :: ms)) :
    window L mem x sizeof = [m.ectxt.buff 0, m.ectxt.buff 1] ∧
      window L mem (x + sizeof) (m.ectxt.buff 1).toNat = slice m.ectxt.buff sizeof (m.ectxt.buff 1).toNat := by
  rw [weight_cons, window_add] at h
  have hm := (append_inj h (by rw [window_length, m.bytes_length])).1
  rw [m.size_split, window_add, m.bytes_eq] at hm
  exact append_inj hm (by rfl)

end

namespace Holds

variable {N r offset : ℕ} {ctx : LogContext} {f : Fifo Message}

theorem msgRead_nil {read : List Message} (h : Holds N ctx ⟨read, []⟩ r) : ctx.msgRead = (none, ctx) := by
  have hemp : ctx.isNdReadEmpty = true := by
    rw [h.inv.isNdReadEmpty_iff]
    simp [retained]
  rw [LogContext.msgRead, if_pos hemp]

/-- The oldest message that was not read is returned. -/
theorem msgRead_cons {read rest : List Message} {m : Message}
    (h : Holds N ctx ⟨read, m :: rest⟩ r) :
    ∃ reply, ctx.msgRead.1 = some reply ∧ replyBytes reply = m.bytes ∧
      Holds N ctx.msgRead.2 ⟨read ++ [m], rest⟩ r := by
  obtain ⟨hinv, hdata⟩ := h
  dsimp only [retained] at hinv hdata
  have hsize := m.size_split
  have hmax := m.size_le
  have hrest := hdata
  rw [weight_append, window_add, encoded_append] at hrest
  obtain ⟨hhdr, hpayload⟩ :=
    window_of_cons (append_inj_right hrest (by rw [window_length, encoded_length]))
  have hemp : ¬ctx.isNdReadEmpty = true := by
    rw [hinv.isNdReadEmpty_iff, weight_append, weight_cons]
    have := m.size_pos
    omega
  rw [weight_append, weight_cons] at hinv
  obtain ⟨hread, hinv1, hflat1⟩ :=
    @ipcLogRead_spec _ _ _ _ sizeof _ hinv (by decide) (by omega)
  obtain ⟨hread2, hinv2, hflat2⟩ :=
    @ipcLogRead_spec _ _ _ _ (m.ectxt.buff 1).toNat _ hinv1 (by omega) (by omega)
  rw [hhdr] at hread
  rw [hflat1, hpayload] at hread2
  rcases hctx1 : ctx.ipcLogRead sizeof with ⟨bytes, ctx1⟩
  rw [hctx1] at hread hinv1 hflat1 hread2 hinv2 hflat2
  subst hread
  rcases hctx2 : ctx1.ipcLogRead (m.ectxt.buff 1).toNat with ⟨payload, ctx2⟩
  rw [hctx2] at hread2 hinv2 hflat2
  have hmsg : ctx.msgRead = (some (⟨m.ectxt.buff 0, m.ectxt.buff 1⟩, payload), ctx2) := by
    rw [LogContext.msgRead, if_neg hemp, hctx1]
    change ((some (_, (ctx1.ipcLogRead (m.ectxt.buff 1).toNat).1),
      (ctx1.ipcLogRead (m.ectxt.buff 1).toNat).2) : Option (TsvHeader × List UInt8) × _) = _
    rw [hctx2]
    rfl
  rw [hmsg]
  dsimp only at hread2 hinv2 hflat2
  refine ⟨_, rfl, ?_, ?_, ?_⟩
  · rw [hread2, m.bytes_eq]
    rfl
  · have hnd : r + weight Message.size (read ++ [m]) =
        r + weight Message.size read + sizeof + (m.ectxt.buff 1).toNat := by
      rw [weight_append, weight_cons, weight_nil]
      omega
    rw [retained, append_assoc, hnd, weight_append]
    exact hinv2
  · rw [retained, append_assoc, hflat2, hflat1]
    exact hdata

/-- The oldest message goes. -/
theorem msgDrop_spec (h : Holds N ctx f r) (hne : f.retained ≠ []) : ∃ r', Holds N ctx.msgDrop f.dropOldest r' := by
  obtain ⟨m, ms, hms⟩ := exists_cons_of_ne_nil hne
  obtain ⟨hinv, hdata⟩ := h
  have hsize := m.size_split
  have hmax := m.size_le
  have hdrop : f.dropOldest.retained = ms := by rw [f.dropOldest_retained, hms, tail_cons]
  -- the message is unread, and then so are all, or it is the first of those read
  have hread : weight Message.size f.read = 0 ∧ weight Message.size f.dropOldest.read = 0 ∨
      weight Message.size f.read = m.size + weight Message.size f.dropOldest.read := by
    rw [f.dropOldest_read]
    rw [retained] at hms
    cases hcase : f.read with
    | nil => exact .inl ⟨rfl, rfl⟩
    | cons x rest =>
      rw [hcase] at hms
      rw [(cons.inj hms).1]
      exact .inr rfl
  rw [hms] at hinv hdata
  obtain ⟨hhdr, -⟩ := window_of_cons hdata
  have hemp : ¬ctx.isReadEmpty = true := by
    rw [hinv.isReadEmpty_iff, weight_cons]
    have := m.size_pos
    omega
  rw [weight_cons] at hinv
  obtain ⟨hread1, hinv1, hflat1⟩ :=
    @ipcLogDrop_spec _ _ _ _ sizeof _ hinv (by decide) (by omega) (by omega)
  obtain ⟨-, hinv2, hflat2⟩ :=
    @ipcLogDrop_spec _ _ _ _ (m.ectxt.buff 1).toNat _ hinv1 (by omega) (by omega) (by omega)
  rw [hhdr] at hread1
  have hmsg : ctx.msgDrop = ((ctx.ipcLogDrop sizeof).2.ipcLogDrop (m.ectxt.buff 1).toNat).2 := by
    rw [LogContext.msgDrop, if_neg hemp]
    change ((ctx.ipcLogDrop sizeof).2.ipcLogDrop (LogContext.asHeader (ctx.ipcLogDrop sizeof).1).size.toNat).2 = _
    rw [hread1]
    rfl
  refine ⟨r + sizeof + (m.ectxt.buff 1).toNat, ?_, ?_⟩
  · have hnd : max (max (r + weight Message.size f.read) (r + sizeof))
        (r + sizeof + (m.ectxt.buff 1).toNat) =
        r + sizeof + (m.ectxt.buff 1).toNat + weight Message.size f.dropOldest.read := by
      omega
    rw [hsize, ← add_assoc, ← add_assoc, hnd] at hinv2
    rw [hmsg, hdrop]
    exact hinv2
  · rw [weight_cons, window_add] at hdata
    rw [hmsg, hdrop, hflat2, hflat1, add_assoc, ← hsize]
    exact (append_inj hdata (by rw [window_length, m.bytes_length])).2

theorem writeAvail_eq (h : Holds N ctx f r) :
    ctx.writeAvail = N * LOG_PAGE_DATA_SIZE - weight Message.size f.retained := by
  rw [h.inv.avail, Nat.add_sub_cancel_left]

theorem msgDrop_grows (hoff : offset < N * LOG_PAGE_DATA_SIZE) (h : Holds N ctx f r)
    (hroom : ctx.writeAvail ≤ offset) : ctx.isReadEmpty = false ∧
      ctx.writeAvail < ctx.msgDrop.writeAvail ∧ ∃ r', Holds N ctx.msgDrop f.dropOldest r' := by
  have hav := h.writeAvail_eq
  have hlap := h.inv.lap
  have hne : f.retained ≠ [] := by
    intro hnil
    rw [hnil, weight_nil] at hav
    omega
  obtain ⟨r', hdrop⟩ := h.msgDrop_spec hne
  obtain ⟨m, ms, hms⟩ := exists_cons_of_ne_nil hne
  have hav' := hdrop.writeAvail_eq
  have hpos := m.size_pos
  rw [f.dropOldest_retained, hms, tail_cons] at hav'
  rw [hms, weight_cons] at hav hlap
  refine ⟨?_, by omega, r', hdrop⟩
  rw [Bool.eq_false_iff, ne_eq, h.inv.isReadEmpty_iff, hms, weight_cons]
  omega

/-- The loop drops just as many messages as the queue does. -/
theorem makeRoom_spec (hoff : offset < N * LOG_PAGE_DATA_SIZE) (fuel : ℕ) :
    ∀ {ctx : LogContext} {f : Fifo Message} {r : ℕ}, Holds N ctx f r →
      f.retained.length ≤ fuel → ∃ ctx' r', LogContext.makeRoom offset fuel ctx = some ctx' ∧
        Holds N ctx' (f.makeRoom Message.size (N * LOG_PAGE_DATA_SIZE - 1 - offset)) r' ∧
        offset < ctx'.writeAvail := by
  induction fuel with
  | zero =>
    intro ctx f r h hfuel
    have hav := h.writeAvail_eq
    rw [length_eq_zero_iff.mp (le_zero.mp hfuel), weight_nil] at hav
    refine ⟨ctx, r, ?_, ?_, by omega⟩
    · rw [LogContext.makeRoom, if_neg (by omega)]
    · rwa [makeRoom_of_le]
      rw [length_eq_zero_iff.mp (le_zero.mp hfuel), weight_nil]
      omega
  | succ fuel ih =>
    intro ctx f r h hfuel
    have hav := h.writeAvail_eq
    by_cases hroom : ctx.writeAvail ≤ offset
    · have hlt : N * LOG_PAGE_DATA_SIZE - 1 - offset < weight Message.size f.retained := by omega
      obtain ⟨-, -, r', hdrop⟩ := h.msgDrop_grows hoff hroom
      obtain ⟨ctx', r'', hctx', hhs, hsp⟩ := ih hdrop (by
        rw [dropOldest_retained, length_tail]
        omega)
      rw [makeRoom_dropOldest Message.size_pos hlt] at hhs
      exact ⟨ctx', r'', by rw [LogContext.makeRoom, if_pos hroom]; exact hctx', hhs, hsp⟩
    · refine ⟨ctx, r, ?_, ?_, by omega⟩
      · rw [LogContext.makeRoom, if_neg hroom]
      · rwa [makeRoom_of_le (by omega)]

section
variable (h : Holds N ctx f r)
include h

theorem commit_spec (m : Message) (tNow : ℕ) (hroom : m.size < ctx.writeAvail) :
    Holds N (ctx.commit m.ectxt tNow) (f.push m) r := by
  obtain ⟨-, -, hself, hfr⟩ := h.inv.copyMessage_spec m.ectxt tNow m.size_le
  have hav := h.writeAvail_eq
  have hinv := h.inv.commit_spec m.ectxt tNow m.size_le hroom
  constructor
  · rw [f.push_retained, weight_append, ← add_assoc]
    exact hinv
  · rw [f.push_retained, weight_append, window_add,
      LogContext.commit_flat, encoded_append]
    congr 1
    · rw [hfr _ _ le_rfl]
      · exact h.data
      · change _ + m.size ≤ _
        omega
    · exact hself.trans (append_nil _).symm

theorem size_lt (m : Message) : m.size < N * LOG_PAGE_DATA_SIZE := by
  have hN : 1 ≤ N := by
    have := h.inv.pages
    omega
  calc m.size ≤ MAX_MSG_SIZE := m.le_max
    _ < LOG_PAGE_DATA_SIZE := by decide
    _ ≤ N * LOG_PAGE_DATA_SIZE := Nat.le_mul_of_pos_left _ hN

theorem ipcLogWrite_spec (m : Message) (tNow : ℕ) :
    ∃ ctx' r', ctx.ipcLogWrite m.ectxt tNow = some ctx' ∧
      Holds N ctx' ((f.makeRoom Message.size (N * LOG_PAGE_DATA_SIZE - 1 - m.size)).push m) r' := by
  have hlap := h.inv.lap
  have hfuel : f.retained.length ≤ N * LOG_PAGE_DATA_SIZE :=
    (length_le_weight Message.size_pos _).trans (by omega)
  obtain ⟨ctx', r', hctx', hhs, hsp⟩ := makeRoom_spec (h.size_lt m) _ h hfuel
  refine ⟨_, r', ?_, hhs.commit_spec m tNow hsp⟩
  rw [LogContext.ipcLogWrite, h.inv.pages]
  change Option.map _ (LogContext.makeRoom m.size _ ctx) = _
  rw [hctx', Option.map_some]

theorem retained_eq : ctx.retained = encoded f.retained := by
  have hend := h.inv.read.page_end_le
  have hoff := h.inv.read.offset_le
  have hcnt := mod_distance h.inv.read.modEq h.inv.write.modEq (by omega) h.inv.le h.inv.lap
  rw [Nat.add_sub_cancel_left] at hcnt
  rw [LogContext.retained, h.inv.pages, place, place, hcnt, ← window_congr _ h.inv.read.modEq, h.data]

end

theorem create (hN : 1 ≤ N) (hfits : N * LOG_PAGE_DATA_SIZE < 2 ^ 32) : Holds N (.create N) ⟨[], []⟩ 0 := by
  have hat : At N 0 (0, 0) := ⟨hN, zero_le _, fun _ => rfl, 0, by simp⟩
  have hpos : 0 < N * LOG_PAGE_DATA_SIZE := mul_pos hN logPageDataSize_pos
  refine ⟨⟨⟨?_, hfits, hat, fun _ _ => rfl, fun _ _ => rfl, le_rfl, ?_, ?_⟩, hat, hat, le_rfl, le_rfl⟩, rfl⟩
  · exact Nat.sub_add_cancel hN
  · exact hpos.trans_eq (Nat.zero_add _).symm
  · exact Nat.mod_eq_of_lt hfits

end Holds

inductive LogOp where
  | write (m : Message) (tNow : ℕ)
  | msgRead

structure LogSys where
  ctx : LogContext
  replies : List (Option (TsvHeader × List UInt8))

def logStep (s : LogSys) : LogOp → Option LogSys
  | .write m tNow => (s.ctx.ipcLogWrite m.ectxt tNow).map fun ctx => { s with ctx := ctx }
  | .msgRead => some ⟨s.ctx.msgRead.2, s.replies ++ [s.ctx.msgRead.1]⟩

/-- The queue that the log is to be, with all messages ever written and all replies. -/
structure FifoSys where
  fifo : Fifo Message
  written : List Message
  replies : List (Option Message)

/-- One byte of the log always stays free. -/
def fifoStep (total : ℕ) (t : FifoSys) : LogOp → FifoSys
  | .write m _ =>
    { t with fifo := (t.fifo.makeRoom Message.size (total - 1 - m.size)).push m, written := t.written ++ [m] }
  | .msgRead => { t with fifo := t.fifo.pop.2, replies := t.replies ++ [t.fifo.pop.1] }

def LogSys.init (N : ℕ) : LogSys := ⟨.create N, []⟩

def FifoSys.init : FifoSys := ⟨⟨[], []⟩, [], []⟩

structure Refines (N : ℕ) (s : LogSys) (t : FifoSys) : Prop where
  holds : ∃ r, Holds N s.ctx t.fifo r
  suffix : t.fifo.retained <:+ t.written
  replies : s.replies.map (Option.map replyBytes) = t.replies.map (Option.map Message.bytes)

/-- Every operation on the log is one on the queue. -/
theorem Refines.step {N : ℕ} {s : LogSys} {t : FifoSys} (h : Refines N s t) (op : LogOp) :
    ∃ s', logStep s op = some s' ∧ Refines N s' (fifoStep (N * LOG_PAGE_DATA_SIZE) t op) := by
  obtain ⟨⟨r, hhs⟩, hsuf, hrep⟩ := h
  cases op with
  | write m tNow =>
    obtain ⟨ctx', r', hwr, hhs'⟩ := hhs.ipcLogWrite_spec m tNow
    refine ⟨{ s with ctx := ctx' }, ?_, ⟨r', hhs'⟩, ?_, hrep⟩
    · rw [logStep, hwr, map_some]
    · rw [fifoStep, push_retained]
      have hkept := (makeRoom_suffix Message.size_pos t.fifo (N * LOG_PAGE_DATA_SIZE - 1 - m.size)).trans hsuf
      exact (suffix_append_inj_of_length_eq rfl).mpr ⟨hkept, rfl⟩
  | msgRead =>
    obtain ⟨⟨read, unread⟩, written, replies⟩ := t
    cases unread with
    | nil =>
      have hread := hhs.msgRead_nil
      refine ⟨_, rfl, ⟨r, ?_⟩, hsuf, ?_⟩
      · rw [hread]
        exact hhs
      · rw [hread, fifoStep, map_append, map_append, hrep]
        rfl
    | cons m rest =>
      obtain ⟨reply, hreply, hbs, hhs'⟩ := hhs.msgRead_cons
      refine ⟨_, rfl, ⟨r, hhs'⟩, ?_, ?_⟩
      · rw [fifoStep, pop_retained]
        exact hsuf
      · rw [hreply, fifoStep, map_append, hrep]
        simp [pop, hbs]

theorem Refines.run {N : ℕ} (hN : 1 ≤ N) (hfits : N * LOG_PAGE_DATA_SIZE < 2 ^ 32) (ops : List LogOp) :
    ∃ s, run logStep (.init N) ops = some s ∧ Refines N s (ops.foldl (fifoStep (N * LOG_PAGE_DATA_SIZE)) .init) :=
  run_refines (fun _ _ op h => h.step op) ops ⟨⟨0, .create hN hfits⟩, suffix_rfl, rfl⟩

/-- After any writes and reads the log returns the replies of the queue, and retains its messages: an end of
what was written that leaves at least one byte free. -/
theorem ipc_log_refines_fifo (N : ℕ) (hN : 1 ≤ N) (hfits : N * LOG_PAGE_DATA_SIZE < 2 ^ 32)
    (ops : List LogOp) :
    ∃ s t, run logStep (.init N) ops = some s ∧
      t = ops.foldl (fifoStep (N * LOG_PAGE_DATA_SIZE)) .init ∧
      s.ctx.retained = encoded t.fifo.retained ∧ t.fifo.retained <:+ t.written ∧
      s.ctx.writeAvail = N * LOG_PAGE_DATA_SIZE - s.ctx.retained.length ∧
      0 < s.ctx.writeAvail ∧
      s.replies.map (Option.map replyBytes) = t.replies.map (Option.map Message.bytes) := by
  obtain ⟨s, hrun, ⟨r, hhs⟩, hsuf, hrep⟩ := Refines.run hN hfits ops
  have hlap := hhs.inv.lap
  refine ⟨s, _, hrun, rfl, hhs.retained_eq, hsuf, ?_, ?_, hrep⟩
  · rw [hhs.writeAvail_eq, hhs.retained_eq, encoded_length]
  · rw [hhs.writeAvail_eq]
    omega

def oneByteMessage : Message :=
  EncodeContext.message ⟨⟨1, 0⟩, fun _ => 7, 3⟩ (by decide) (by decide)

/-- A log of one page. -/
theorem ipc_log_refines_fifo_oneByteMessage :
    ∃ s, run logStep (.init 1) [.write oneByteMessage 0, .msgRead, .msgRead] = some s ∧
      s.replies.map (Option.map replyBytes) = [some [1, 1, 7], none] := by
  obtain ⟨s, t, hrun, rfl, -, -, -, -, hrep⟩ :=
    ipc_log_refines_fifo 1 le_rfl (by decide) [.write oneByteMessage 0, .msgRead, .msgRead]
  exact ⟨s, hrun, hrep⟩

/-- The smallest log whose data no longer fits the 32 bits of `write_avail`. -/
theorem write_avail_truncated :
    ∃ s, run logStep (.init 1067338) [] = some s ∧
      s.ctx.writeAvail ≠ 1067338 * LOG_PAGE_DATA_SIZE - s.ctx.retained.length :=
  ⟨_, rfl, by decide⟩

/-- The loop that makes room ends after any writes and reads: as long as it goes on, there is a message to drop,
and dropping it frees some bytes. -/
theorem make_room_ends (N : ℕ) (hN : 1 ≤ N) (hfits : N * LOG_PAGE_DATA_SIZE < 2 ^ 32) (ops : List LogOp)
    (s : LogSys) (hrun : run logStep (.init N) ops = some s) (offset : ℕ) (hoff : offset ≤ MAX_MSG_SIZE) :
    (∃ rounds ctx', LogContext.makeRoom offset rounds s.ctx = some ctx') ∧
      ∀ k, (∀ j ≤ k, (LogContext.msgDrop^[j] s.ctx).writeAvail ≤ offset) →
        (LogContext.msgDrop^[k] s.ctx).isReadEmpty = false ∧
          (LogContext.msgDrop^[k] s.ctx).writeAvail < (LogContext.msgDrop^[k + 1] s.ctx).writeAvail := by
  obtain ⟨s', hrun', ⟨r, hhs⟩, -⟩ := Refines.run hN hfits ops
  obtain rfl := some.inj (hrun.symm.trans hrun')
  have hlt : offset < N * LOG_PAGE_DATA_SIZE :=
    hoff.trans_lt (lt_of_lt_of_le (by decide) (Nat.le_mul_of_pos_left _ hN))
  constructor
  · obtain ⟨ctx', -, hctx', -⟩ := Holds.makeRoom_spec hlt _ hhs le_rfl
    exact ⟨_, ctx', hctx'⟩
  · intro k hk
    have hiter : ∀ j ≤ k, ∃ f r, Holds N (LogContext.msgDrop^[j] s.ctx) f r := by
      intro j
      induction j with
      | zero => exact fun _ => ⟨_, r, hhs⟩
      | succ j ih =>
        intro hj
        obtain ⟨f, r, h⟩ := ih (by omega)
        obtain ⟨-, -, r', h'⟩ := h.msgDrop_grows hlt (hk j (by omega))
        rw [iterate_succ_apply']
        exact ⟨_, r', h'⟩
    obtain ⟨f, r, h⟩ := hiter k le_rfl
    obtain ⟨hemp, hgrows, -⟩ := h.msgDrop_grows hlt (hk k le_rfl)
    rw [iterate_succ_apply']
    exact ⟨hemp, hgrows⟩

def fillPage : List LogOp :=
  replicate 16 (.write (EncodeContext.message ⟨⟨1, 0⟩, fun _ => 0, 250⟩ (by decide) (by decide)) 0)

/-- A page is filled by 16 messages of 250 bytes, so that for another one the loop has to drop some. -/
theorem make_room_ends_full : ∃ s, run logStep (.init 1) fillPage = some s ∧ s.ctx.writeAvail = 24 ∧
    s.ctx.writeAvail < s.ctx.msgDrop.writeAvail ∧
    ∃ rounds ctx', LogContext.makeRoom 250 rounds s.ctx = some ctx' := by
  have hfull : (run logStep (.init 1) fillPage).map (·.ctx.writeAvail) = some 24 := by decide +kernel
  obtain ⟨s, hs, havail⟩ := Option.map_eq_some_iff.mp hfull
  obtain ⟨hends, hdrops⟩ := make_room_ends 1 le_rfl (by decide) fillPage s hs 250 (by decide)
  refine ⟨s, hs, havail, (hdrops 0 fun j hj => ?_).2, hends⟩
  rw [Nat.le_zero.mp hj]
  exact havail.le.trans (by decide)

/-- Of the data of this many pages only 56 bytes are left in `write_avail`. -/
theorem make_room_endless : (LogContext.makeRoom 56 · (LogSys.init 5336689).ctx) = fun _ => none := by
  funext rounds
  induction rounds with
  | zero => rfl
  | succ rounds ih => exact ih

end VendorKernel.Ipc

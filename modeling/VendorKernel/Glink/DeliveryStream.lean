import VendorKernel.Glink.DeliveryReceiver

/-! The fragments on their way over a GLINK link continue what the receiving end has gathered. Links
without intents, where the fragments of a channel are gathered in one buffer. -/
namespace VendorKernel.Glink

open Machine RingBuffer Reassembly List Function DataCmd RxChannel Nat Option Payload

variable {rest : List DataCmd} {d : DataCmd}

/-- A message that is being sent is not sent to its end; its first fragment fitted in the pipe. -/
def Sender.Valid (length : ℕ) : Sender → Prop
  | .idle => True
  | .seeking _ m | .requesting _ m => 0 < m.len ∧ m.len < 2 ^ 31
  | .sending _ m _ offset =>
    offset < m.len ∧ m.len < 2 ^ 31 ∧ (0 < offset → 16 + min m.len SZ_8K < length)

def arriving (c : ℕ) (out : List ((ℕ × ℕ) × List UInt8)) : List (List UInt8) :=
  (out.filter fun p => p.1.1 = c).map Prod.snd

theorem arriving_append (c : ℕ) (out out' : List ((ℕ × ℕ) × List UInt8)) :
    arriving c (out ++ out') = arriving c out ++ arriving c out' := by
  simp [arriving]

namespace Exchange

section
variable {m : Payload} {offset : ℕ} (c iid : ℕ)

section
variable (h : offset < m.len)
include h

theorem dataCmd_total : (dataCmd c m iid offset).fragment.total = m.len := by
  rw [fragment_total]
  simp only [dataCmd]
  omega

theorem dataCmd_chunk :
    (dataCmd c m iid offset).fragment.chunk = (m.bytes.drop offset).take (dataCmd c m iid offset).chunkSize := by
  have hspl : m.bytes = slice m.data 0 offset ++ slice m.data offset (m.len - offset) := by
    have hadd := slice_add m.data 0 offset (m.len - offset)
    rwa [Nat.zero_add, Nat.add_sub_cancel' h.le] at hadd
  have hle : (dataCmd c m iid offset).chunkSize ≤ m.len - offset := Nat.min_le_left ..
  rw [hspl, drop_left' (slice_length ..), slice_take _ _ hle]
  refine slice_congr fun j _ => ?_
  simp only [dataCmd, zero_add]

theorem dataCmd_continues : (dataCmd c m iid offset).fragment.Continues (progress m.bytes offset) :=
  continues_progress (m.length_bytes.symm ▸ h) (m.length_bytes.symm ▸ dataCmd_total c iid h)

theorem dataCmd_joined :
    (dataCmd c m iid offset).fragment.joined (progress m.bytes offset) =
      m.bytes.take (offset + (dataCmd c m iid offset).chunkSize) :=
  joined_progress (m.length_bytes.symm ▸ h) (dataCmd_chunk c iid h)

theorem dataCmd_left :
    (dataCmd c m iid offset).leftSize = 0 ↔ offset + (dataCmd c m iid offset).chunkSize = m.len := by
  simp only [dataCmd]
  omega

theorem dataCmd_gather :
    (dataCmd c m iid offset).fragment.gather (progress m.bytes offset) =
      progress m.bytes (offset + (dataCmd c m iid offset).chunkSize) := by
  have hleft := dataCmd_left c iid h
  have hpos : 0 < (dataCmd c m iid offset).chunkSize := by
    simp only [dataCmd, SZ_8K]
    omega
  rw [Fragment.gather, dataCmd_joined c iid h, dataCmd_total c iid h, progress, length_bytes]
  refine if_congr (hleft.trans ?_) rfl rfl
  omega

theorem dataCmd_complete :
    (dataCmd c m iid offset).fragment.complete (progress m.bytes offset) =
      if offset + (dataCmd c m iid offset).chunkSize < m.len then [] else [((c, iid), m.bytes)] := by
  have hleft := dataCmd_left c iid h
  have hle : (dataCmd c m iid offset).chunkSize ≤ m.len - offset := min_le_left ..
  rw [Fragment.complete, dataCmd_joined c iid h, fragment_left]
  by_cases hlast : offset + (dataCmd c m iid offset).chunkSize = m.len
  · rw [if_pos (hleft.mpr hlast), if_neg (by omega), hlast, ← m.length_bytes, take_length]
    rfl
  · rw [if_neg (hleft.not.mpr hlast), if_pos (by omega)]

end

end

/-- The commands on their way continue what has been gathered and complete the messages sent. -/
structure Stream (length : ℕ) (s : Exchange) (st st' : ℕ × ℕ → Option (List UInt8 × ℕ))
    (out : List ((ℕ × ℕ) × List UInt8)) : Prop where
  feeds : Feeds st (s.cmds.map fragment) st' out
  arrives : ∀ c, ((s.rx c).arrived ++ arriving c out).Perm ((s.sent c).map bytes)
  small : ∀ d ∈ s.cmds, d.fragment.total < 2 ^ 32
  valid : ∀ i, (s.senders i).Valid length
  sorted : ∀ c, (s.rx c).Sorted

def nextSender (c : ℕ) (m : Payload) (iid offset : ℕ) : Sender :=
  if offset + (dataCmd c m iid offset).chunkSize < m.len then
    .sending c m iid (offset + (dataCmd c m iid offset).chunkSize)
  else .idle

def nextSent (c : ℕ) (m : Payload) (iid offset : ℕ) : List Payload :=
  if offset + (dataCmd c m iid offset).chunkSize < m.len then [] else [m]

variable {length i c iid offset : ℕ} {s s' : Exchange} {st st' : ℕ × ℕ → Option (List UInt8 × ℕ)}
  {out : List ((ℕ × ℕ) × List UInt8)} {m : Payload} {intentless granted : Bool}

theorem sendFragment_fail (h : s.abortTx = true ∨ length ≤ 16 + (dataCmd c m iid offset).chunkSize) :
    s.sendFragment intentless length i c m iid offset =
      (s.setSender i .idle).setRiids c (if intentless then s.riids c else setInUse (s.riids c) iid false) := by
  simp only [sendFragment, if_pos h]
  cases intentless with
  | true => simp [setRiids, setSender]
  | false => rfl

theorem sendFragment_sent (h : ¬(s.abortTx = true ∨ length ≤ 16 + (dataCmd c m iid offset).chunkSize)) :
    s.sendFragment intentless length i c m iid offset =
      { s.setSender i (nextSender c m iid offset) with
        cmds := s.cmds ++ [dataCmd c m iid offset]
        sent := update s.sent c (s.sent c ++ nextSent c m iid offset) } := by
  simp only [sendFragment, if_neg h, nextSender, nextSent]
  split_ifs with hmore
  · simp [setSender]
  · rfl

theorem Stream.setSender (h : Stream length s st st' out) {sender : Sender}
    (hsnd : sender.Valid length) : Stream length (s.setSender i sender) st st' out :=
  { h with valid := (forall_update_iff s.senders fun _ => Sender.Valid length).mpr ⟨hsnd, fun j _ => h.valid j⟩ }

theorem nextSender_valid (h : (Sender.sending c m iid offset).Valid length)
    (hfit : ¬length ≤ 16 + (dataCmd c m iid offset).chunkSize) :
    (nextSender c m iid offset).Valid length := by
  unfold nextSender
  split_ifs with hmore
  · refine ⟨hmore, h.2.1, fun _ => ?_⟩
    by_cases h0 : 0 < offset
    · exact h.2.2 h0
    · obtain rfl : offset = 0 := by omega
      simpa [dataCmd] using hfit
  · trivial

section
variable (h : Stream length s st st' out)
include h

/-- A fragment goes on its way. -/
theorem Stream.push (hi : s.senders i = .sending c m iid offset)
    (hfit : ¬length ≤ 16 + (dataCmd c m iid offset).chunkSize)
    (hst : st' (c, iid) = progress m.bytes offset) :
    ∃ out', Stream length
      { s.setSender i (nextSender c m iid offset) with
        cmds := s.cmds ++ [dataCmd c m iid offset]
        sent := update s.sent c (s.sent c ++ nextSent c m iid offset) }
      st (update st' (c, iid) (progress m.bytes (offset + (dataCmd c m iid offset).chunkSize))) out' := by
  have hval := h.valid i
  rw [hi] at hval
  have hlt : offset < m.len := hval.1
  have hfe := h.feeds.snoc (hst ▸ dataCmd_continues c iid hlt)
  have hkey : (dataCmd c m iid offset).fragment.key = (c, iid) := rfl
  rw [hkey, hst, dataCmd_gather c iid hlt, dataCmd_complete c iid hlt] at hfe
  rw [← map_singleton, ← map_append] at hfe
  refine ⟨_, hfe, fun c' => ?_, fun d hd => ?_, (h.setSender (nextSender_valid hval hfit)).valid, h.sorted⟩
  · rw [arriving_append, ← append_assoc]
    by_cases hc : c' = c
    · subst hc
      simp only [update_self, map_append]
      refine (h.arrives c').append (List.Perm.of_eq ?_)
      simp only [nextSent]
      split_ifs <;> simp [arriving]
    · simp only [update_of_ne hc]
      have hnone : arriving c' (if offset + (dataCmd c m iid offset).chunkSize < m.len then []
          else [((c, iid), m.bytes)]) = [] := by
        split_ifs <;> simp [arriving, Ne.symm hc]
      rw [hnone, append_nil]
      exact h.arrives c'
  · rcases mem_append.mp hd with hold | hnew
    · exact h.small d hold
    · rw [mem_singleton.mp hnew, dataCmd_total c iid hlt]
      have := hval.2.1
      omega

theorem Stream.continues (hcmds : s.cmds = d :: rest) : d.fragment.Continues (st d.key) := by
  have hfe := h.feeds
  rw [hcmds] at hfe
  exact hfe.uncons.1

theorem Stream.setRx {next : RxChannel × List Reply} (harr : next.1.arrived.Perm (s.rx c).arrived)
    (hsrt : next.1.Sorted) : Stream length (s.setRx c next) st st' out :=
  { h with
    arrives := (forall_update_iff s.rx fun c ch =>
      (ch.arrived ++ arriving c out).Perm ((s.sent c).map bytes)).mpr
        ⟨(harr.append_right _).trans (h.arrives c), fun c' _ => h.arrives c'⟩
    sorted := (forall_update_iff s.rx fun _ => RxChannel.Sorted).mpr ⟨hsrt, fun c' _ => h.sorted c'⟩ }

/-- A fragment arrives. -/
theorem Stream.receive (hcmds : s.cmds = d :: rest)
    (next : RxChannel × List Reply)
    (harr : next.1.arrived.Perm (completed d (st d.key) ++ (s.rx d.lcid).arrived))
    (hsrt : next.1.Sorted) :
    ∃ out', Stream length { s.setRx d.lcid next with cmds := rest }
      (update st d.key (d.fragment.gather (st d.key))) st' out' := by
  have hfe := h.feeds
  rw [hcmds] at hfe
  obtain ⟨-, out', rfl, hrest⟩ := hfe.uncons
  have hold := h.arrives
  simp only [arriving_append, ← append_assoc] at hold
  refine ⟨out', hrest, (forall_update_iff s.rx fun c ch =>
      (ch.arrived ++ arriving c out').Perm ((s.sent c).map bytes)).mpr ⟨?_, fun c hc => ?_⟩,
    fun e he => h.small e (hcmds ▸ mem_cons_of_mem d he), h.valid,
    (forall_update_iff s.rx fun _ => RxChannel.Sorted).mpr ⟨hsrt, fun c _ => h.sorted c⟩⟩
  · refine List.Perm.trans ?_ (hold d.lcid)
    refine (harr.append_right _).trans (perm_append_comm.append_right _ |>.trans ?_)
    unfold completed Fragment.complete
    split_ifs with h0 h1 h1
    · simp [arriving, key]
    · exact absurd h0 h1
    · exact absurd h1 h0
    · rfl
  · have hnone : arriving c (d.fragment.complete (st d.fragment.key)) = [] := by
      unfold Fragment.complete
      split_ifs <;> simp [arriving, key, Ne.symm hc]
    simpa only [hnone, append_nil] using hold c

end

/-- Without intents the buffer of a channel holds what has been gathered, for one thread at most. -/
structure Buffers (s : Exchange) (st st' : ℕ × ℕ → Option (List UInt8 × ℕ)) : Prop where
  iid : ∀ d ∈ s.cmds, d.iid = 0
  sender : ∀ i, s.senders i = .idle ∨ ∃ c m offset, s.senders i = .sending c m 0 offset
  held : ∀ c, (s.rx c).held = []
  buf : ∀ c, RxChannel.Gathers (s.rx c).buf (st (c, 0))
  part : s.abortTx = false → ∀ i c m offset, s.senders i = .sending c m 0 offset → 0 < offset →
    st' (c, 0) = progress m.bytes offset
  apart : s.abortTx = false → ∀ i j c m m' offset offset', s.senders i = .sending c m 0 offset →
    s.senders j = .sending c m' 0 offset' → 0 < offset → 0 < offset' → i = j
  between : s.abortTx = false → ∀ c, (∀ i m offset, s.senders i = .sending c m 0 offset → offset = 0) →
    st' (c, 0) = none

namespace Buffers

section
variable (h : s.Buffers st st')
include h

variable {next : RxChannel × List Reply}

theorem setSender {sender : Sender} (hsnd : sender = .idle ∨ ∃ c m, sender = .sending c m 0 0)
    (hold : s.abortTx = false → ∀ c m offset, s.senders i = .sending c m 0 offset → offset = 0) :
    (s.setSender i sender).Buffers st st' := by
  have hzero : ∀ j c m offset, (s.setSender i sender).senders j = .sending c m 0 offset →
      0 < offset → s.senders j = .sending c m 0 offset := by
    intro j c m offset hj hpos
    by_cases hji : j = i
    · simp only [hji, Exchange.setSender, update_self] at hj
      rcases hsnd with hidle | ⟨c', m', hnew⟩
      · rw [hidle] at hj
        cases hj
      · rw [hnew] at hj
        obtain ⟨-, -, -, rfl⟩ := Sender.sending.inj hj
        exact absurd hpos (lt_irrefl 0)
    · simpa only [Exchange.setSender, update_of_ne hji] using hj
  refine ⟨h.iid, (forall_update_iff s.senders fun _ sender =>
    sender = .idle ∨ ∃ c m offset, sender = .sending c m 0 offset).mpr
      ⟨hsnd.imp_right fun ⟨c, m, hnew⟩ => ⟨c, m, 0, hnew⟩, fun j _ => h.sender j⟩, h.held, h.buf, ?_, ?_, ?_⟩
  · exact fun hab j c m offset hj hpos => h.part hab j c m offset (hzero j c m offset hj hpos) hpos
  · intro hab j k c m m' offset offset' hj hk hpos hpos'
    exact h.apart hab j k c m m' offset offset' (hzero _ _ _ _ hj hpos) (hzero _ _ _ _ hk hpos') hpos hpos'
  · intro hab c hall
    refine h.between hab c fun j m offset hj => ?_
    by_cases hji : j = i
    · exact hold hab c m offset (hji ▸ hj)
    · refine hall j m offset ?_
      simpa only [Exchange.setSender, update_of_ne hji] using hj

theorem push (hab : s.abortTx = false) (hi : s.senders i = .sending c m 0 offset) (hlt : offset < m.len)
    (hoth : ∀ j m' offset', s.senders j = .sending c m' 0 offset' → 0 < offset' → j = i)
    (sent : ℕ → List Payload) :
    Buffers
      { s.setSender i (nextSender c m 0 offset) with cmds := s.cmds ++ [dataCmd c m 0 offset], sent := sent }
      st (update st' (c, 0) (progress m.bytes (offset + (dataCmd c m 0 offset).chunkSize))) := by
  have hle : (dataCmd c m 0 offset).chunkSize ≤ m.len - offset := min_le_left ..
  have hpos : 0 < (dataCmd c m 0 offset).chunkSize := by
    simp only [dataCmd, SZ_8K]
    omega
  generalize hn : offset + (dataCmd c m 0 offset).chunkSize = n
  have hnext : nextSender c m 0 offset = if n < m.len then .sending c m 0 n else .idle := by
    rw [nextSender, hn]
  have hend : ¬n < m.len → progress m.bytes n = none := by
    intro hlast
    have hn' : n = m.bytes.length := by
      rw [m.length_bytes]
      omega
    simp [progress, hn']
  obtain ⟨h1, h2, h3, h4, h5, h6, h7⟩ := h
  refine ⟨forall_mem_append.mpr ⟨h1, forall_mem_singleton.mpr rfl⟩, ?_, h3, h4, ?_, ?_, ?_⟩
  all_goals
    simp only [Exchange.setSender, update_apply, hnext]
    grind

theorem setRx (hheld : next.1.held = []) (hbuf : next.1.buf = (s.rx c).buf) : (s.setRx c next).Buffers st st' :=
  { h with
    held := (forall_update_iff s.rx fun _ ch => ch.held = []).mpr ⟨hheld, fun c' _ => h.held c'⟩
    buf := (forall_update_iff s.rx fun c ch => RxChannel.Gathers ch.buf (st (c, 0))).mpr
      ⟨hbuf.symm ▸ h.buf c, fun c' _ => h.buf c'⟩ }

theorem receive (hcmds : s.cmds = d :: rest) (hheld : next.1.held = [])
    (hbuf : RxChannel.Gathers next.1.buf (d.fragment.gather (st d.key))) :
    Buffers { s.setRx d.lcid next with cmds := rest } (update st d.key (d.fragment.gather (st d.key))) st' := by
  have hkey : d.key = (d.lcid, 0) := by
    rw [key, h.iid d (hcmds ▸ mem_cons_self ..)]
  refine ⟨fun e he => h.iid e (hcmds ▸ mem_cons_of_mem d he), h.sender,
    (forall_update_iff s.rx fun _ ch => ch.held = []).mpr ⟨hheld, fun c _ => h.held c⟩,
    (forall_update_iff s.rx fun c ch =>
      RxChannel.Gathers ch.buf (update st d.key _ (c, 0))).mpr ⟨?_, fun c hc => ?_⟩,
    h.part, h.apart, h.between⟩
  · rwa [← hkey, update_self]
  · have hne : (c, 0) ≠ d.key := fun he => hc (by exact congrArg Prod.fst he)
    rw [update_of_ne hne]
    exact h.buf c

theorem shutDown : Buffers { s with abortTx := true } st st' :=
  ⟨h.iid, h.sender, h.held, h.buf, Bool.noConfusion, Bool.noConfusion, Bool.noConfusion⟩

end

end Buffers

/-- A fragment that is refused is the first of its message, unless the link is shut down. -/
theorem offset_eq_zero (h : (Sender.sending c m iid offset).Valid length)
    (hfail : length ≤ 16 + (dataCmd c m iid offset).chunkSize) : offset = 0 := by
  by_contra h0
  have hfit := h.2.2 (Nat.pos_of_ne_zero h0)
  have hle : (dataCmd c m iid offset).chunkSize ≤ min m.len SZ_8K := by
    simp only [dataCmd]
    omega
  omega

section
variable (hstr : Stream length s st st' out) (h : s.Buffers st st')
include hstr h

theorem buffers_proceed (hok : s.Orderly true (.proceed i granted)) (hs : s.proceed true length i granted = some s') :
    ∃ st st' out, Stream length s' st st' out ∧ s'.Buffers st st' := by
  rcases h.sender i with hi | ⟨c, m, offset, hi⟩
  · simp [proceed, hi] at hs
  simp only [proceed, hi, some.injEq] at hs
  have hval := hstr.valid i
  rw [hi] at hval
  by_cases hfail : s.abortTx = true ∨ length ≤ 16 + (dataCmd c m 0 offset).chunkSize
  · rw [sendFragment_fail hfail] at hs
    obtain rfl := hs
    have hidle : (s.setSender i .idle).Buffers st st' := by
      refine h.setSender (.inl rfl) fun hab c' m' offset' hi' => ?_
      obtain ⟨rfl, rfl, -, rfl⟩ := Sender.sending.inj (hi.symm.trans hi')
      exact offset_eq_zero hval (hfail.resolve_left (by simp [hab]))
    have hstr' : Stream length (s.setSender i .idle) st st' out := hstr.setSender trivial
    exact ⟨st, st', out, { hstr' with }, { hidle with }⟩
  · rw [sendFragment_sent hfail] at hs
    obtain rfl := hs
    have hab : s.abortTx = false := by
      simpa using fun hab => hfail (.inl hab)
    -- no other thread is between two fragments on this channel
    have hoth : ∀ j m' offset', s.senders j = .sending c m' 0 offset' → 0 < offset' → j = i := by
      intro j m' offset' hj hpos
      by_cases h0 : offset = 0
      · rw [h0] at hi
        rw [hok rfl c m 0 hi j m' 0 offset' hj] at hpos
        exact absurd hpos (Nat.lt_irrefl 0)
      · exact h.apart hab j i c m' m offset' offset hj hi hpos (Nat.pos_of_ne_zero h0)
    have hst : st' (c, 0) = progress m.bytes offset := by
      by_cases h0 : offset = 0
      · rw [h0] at hi ⊢
        exact h.between hab c fun j m' offset' hj => hok rfl c m 0 hi j m' 0 offset' hj
      · exact h.part hab i c m offset hi (Nat.pos_of_ne_zero h0)
    obtain ⟨out', hpush⟩ := hstr.push hi (fun hlen => hfail (.inr hlen)) hst
    exact ⟨st, _, out', hpush, h.push hab hi hval.1 hoth _⟩

theorem buffers_receive (hcmds : s.cmds = d :: rest) (env : IrqEnv) :
    ∃ st st' out,
      Stream length { s.setRx d.lcid ((s.rx d.lcid).qcomGlinkRxData true d env) with cmds := rest } st st' out ∧
      Buffers { s.setRx d.lcid ((s.rx d.lcid).qcomGlinkRxData true d env) with cmds := rest } st st' := by
  have hmem : d ∈ s.cmds := hcmds ▸ mem_cons_self ..
  have hkey : d.key = (d.lcid, 0) := by rw [key, h.iid d hmem]
  obtain ⟨harr, hsrt, hheld, hbuf, -⟩ := rxData_buffer (hstr.sorted d.lcid)
    (hkey ▸ h.buf d.lcid) (hstr.continues hcmds) (hstr.small d hmem) env rfl
  obtain ⟨out', hrcv⟩ := hstr.receive hcmds _ harr hsrt
  exact ⟨_, st', out', hrcv, h.receive hcmds (hheld.trans (h.held d.lcid)) hbuf⟩

/-- Without intents too, messages are put together right. -/
theorem buffers_step {op : ExchangeOp} (hok : s.Orderly true op) (hs : s.step true length op = some s') :
    ∃ st st' out, Stream length s' st st' out ∧ s'.Buffers st st' := by
  revert hs
  fun_cases Exchange.step true length s op with
  | case1 i c m hi hlen =>
    rintro ⟨⟩
    exact ⟨st, st', out, hstr.setSender ⟨hlen.1, hlen.2, fun h0 => absurd h0 (lt_irrefl 0)⟩,
      h.setSender (.inr ⟨c, m, rfl⟩) (by simp [hi])⟩
  | case4 i granted => exact buffers_proceed hstr h hok
  | case6 | case7 =>
    rintro ⟨⟩
    exact ⟨st, st', out, { hstr with }, { h with }⟩
  | case8 =>
    rintro ⟨⟩
    exact ⟨st, st', out, { hstr with }, h.shutDown⟩
  | case10 env d rest hcmds =>
    rintro ⟨⟩
    exact buffers_receive hstr h hcmds env
  | case11 c id size reuse hmode => exact absurd hmode.1 Bool.noConfusion
  | case13 c defers sent =>
    intro hs
    obtain ⟨⟨ch', rs⟩, hthr, rfl⟩ := map_eq_some_iff.mp hs
    obtain ⟨harr, hbuf, ⟨-, hkp⟩ | ⟨id, hid, -⟩⟩ := thread_spec (hstr.sorted c) hthr
    · have hheld : ch'.held = [] := by
        refine eq_nil_iff_forall_not_mem.mpr fun id hid => ?_
        have := hkp.held id hid
        rw [h.held c] at this
        cases this
      exact ⟨st, st', out, hstr.setRx harr hkp.sorted, h.setRx hheld hbuf⟩
    · rw [h.held c] at hid
      cases hid
  | case14 c id sent =>
    intro hs
    obtain ⟨⟨ch', rs⟩, hdone, rfl⟩ := map_eq_some_iff.mp hs
    obtain ⟨-, -, hid, -⟩ := rxDone_spec (hstr.sorted c) hdone
    rw [h.held c] at hid
    cases hid
  | _ => exact nofun

end

end Exchange

end VendorKernel.Glink

import VendorKernel.Qrtr.Gunyah

/-! What the reader of the gunyah transport hands on is what was sent: the bytes collected, in the FIFO and
still to be written are the packets not yet posted. -/
namespace VendorKernel.Qrtr

open Framing Machine RingBuffer List GunyahReader Option Packet GunyahSys Nat Qrtr.Ring

variable {ring : Ring} {q : List UInt8} {rest rest' done : List Packet} {r : GunyahReader}

def GunyahSender.current : GunyahSender → List Packet
  | .idle => []
  | .sending p _ => [p]
  | .writing p _ _ => [p]

def GunyahSender.unsent : GunyahSender → List UInt8
  | .idle => []
  | .sending p offset => slice p.byte offset (p.length - offset)
  | .writing p offset _ => slice p.byte offset (p.length - offset)

def GunyahSender.Ok (pipe : Pipe) : GunyahSender → Prop
  | .idle => True
  | .sending p offset => offset < p.length
  | .writing p offset chunk => 0 < chunk ∧ offset + chunk ≤ p.length ∧ chunk ≤ pipe.txAvail

def GunyahReader.Ok (ring : Ring) (q : List UInt8) (rest : List Packet) : GunyahReader → Prop
  | .readNew => ring.offset = 0 ∧ q ≠ []
  | .sized pktLen => ring.offset = 0 ∧ q ≠ [] ∧ ∃ p tail, rest = p :: tail ∧ pktLen = p.length
  | .readFrag => ring.offset ≠ 0 ∧ q ≠ []
  | _ => True

theorem GunyahSender.Ok.mono {pipe pipe' : Pipe} {sender : GunyahSender} (h : sender.Ok pipe)
    (hle : pipe.txAvail ≤ pipe'.txAvail) : sender.Ok pipe' := by
  cases sender with
  | writing p offset chunk => exact ⟨h.1, h.2.1, h.2.2.trans hle⟩
  | _ => exact h

theorem GunyahReader.Ok.of_head (h : r.Ok ring q rest)
    (hhead : q ≠ [] → ∀ p tail, rest = p :: tail → ∃ tail', rest' = p :: tail') : r.Ok ring q rest' := by
  cases r with
  | sized pktLen =>
    obtain ⟨hoff, hq, p, tail, hrest, hlen⟩ := h
    obtain ⟨tail', hrest'⟩ := hhead hq p tail hrest
    exact ⟨hoff, hq, p, tail', hrest', hlen⟩
  | _ => exact h

theorem GunyahReader.Ok.more (h : r.Ok ring q rest) (bytes : List UInt8) : r.Ok ring (q ++ bytes) rest := by
  cases r with
  | readNew | readFrag => exact ⟨h.1, append_ne_nil_of_left_ne_nil h.2 bytes⟩
  | sized pktLen => exact ⟨h.1, append_ne_nil_of_left_ne_nil h.2.1 bytes, h.2.2⟩
  | _ => exact h

structure GunyahInv (s : GunyahSys) (q : List UInt8) (done rest : List Packet) : Prop where
  carries : Carries s.pipe q
  transit : InTransit data data s.posted s.sent s.sender.current done rest s.ring.received q s.sender.unsent
  collecting : s.ring.offset ≠ 0 → ∃ p tail, rest = p :: tail ∧ s.ring.len = p.length ∧ s.ring.offset < p.length
  sender : s.sender.Ok s.pipe
  reader : s.reader.Ok s.ring q rest
  size_le : ∀ p ∈ rest, p.size ≤ 2 ^ 16

namespace GunyahInv

variable {s : GunyahSys} {q : List UInt8} {done rest tail : List Packet} {p : Packet} {offset chunk n count : ℕ}

theorem init (fifo : ℕ → UInt8) : GunyahInv (.init fifo) [] [] [] where
  carries := ⟨(by decide : 0 < FIFO_SIZE), rfl, by decide, rfl⟩
  transit := ⟨rfl, rfl, rfl⟩
  collecting h := absurd rfl h
  sender := trivial
  reader := trivial
  size_le _ hp := absurd hp not_mem_nil

section
variable (h : GunyahInv s q done rest)
include h

theorem setReader (hr : r.Ok s.ring q rest) : GunyahInv { s with reader := r } q done rest :=
  { h with reader := hr }

theorem send (hidle : s.sender = .idle) (hsize : p.size ≤ 2 ^ 16) :
    GunyahInv { s with sender := .sending p 0 } q done (rest ++ [p]) := by
  have htr := h.transit
  rw [hidle] at htr
  refine ⟨h.carries, htr.begin p, ?_, lt_of_lt_of_le (by decide) p.header_le, ?_,
    forall_mem_append.mpr ⟨h.size_le, forall_mem_singleton.mpr hsize⟩⟩
  · intro hoff
    obtain ⟨p', tail, hrest, hlen⟩ := h.collecting hoff
    exact ⟨p', tail ++ [p], by rw [hrest, cons_append], hlen⟩
  · exact h.reader.of_head fun _ p' tail hrest => ⟨tail ++ [p], by rw [hrest, cons_append]⟩

theorem txAvail (hs : s.sender = .sending p offset) (hav : gunyahTxAvail s.pipe ≠ 0) :
    GunyahInv
      { s with
        sender := .writing p offset
          (if gunyahTxAvail s.pipe < p.length - offset then gunyahTxAvail s.pipe else p.length - offset) }
      q done rest := by
  have hsnd := h.sender
  have htr := h.transit
  rw [hs] at hsnd htr
  refine ⟨h.carries, htr, h.collecting, ?_, h.reader, h.size_le⟩
  change offset < p.length at hsnd
  rw [h.carries.gunyahTxAvail_eq] at hav ⊢
  rw [GunyahSender.Ok]
  dsimp only
  split_ifs <;> omega

theorem copy (hs : s.sender = .writing p offset chunk) (hcnt : count ≤ chunk) (data : ℕ → UInt8) :
    GunyahInv { s with pipe := s.pipe.copyIn data count } q done rest := by
  have hsnd := h.sender
  rw [hs] at hsnd
  exact ⟨h.carries.copyIn data (hcnt.trans hsnd.2.2), h.transit, h.collecting, hs ▸ hsnd, h.reader, h.size_le⟩

theorem txWrite (hs : s.sender = .writing p offset chunk) :
    ∃ s', gunyahStep s .txWrite = some s' ∧ ∃ q', GunyahInv s' q' done rest := by
  have hsnd := h.sender
  have htr := h.transit
  rw [hs] at hsnd htr
  obtain ⟨hpos, hle, hav⟩ := hsnd
  have hcar := h.carries.gunyahTxWrite (fun i => p.byte (offset + i)) hav
  have hrd := h.reader.more (slice (fun i => p.byte (offset + i)) 0 chunk)
  rw [GunyahSender.unsent, p.unsent_split hle] at htr
  rw [gunyahStep, hs]
  by_cases hmore : offset + chunk < p.length
  · exact ⟨_, if_pos hmore, _, hcar, htr.publish, h.collecting, hmore, hrd, h.size_le⟩
  · rw [Nat.sub_eq_zero_of_le (by omega)] at htr
    exact ⟨_, if_neg hmore, _, hcar, htr.publish.finish, h.collecting, trivial, hrd, h.size_le⟩

theorem fail (hs : s.sender = .sending p 0) : ∃ rest', GunyahInv { s with sender := .idle } q done rest' := by
  have htr := h.transit
  rw [hs] at htr
  obtain ⟨rest', hrest, htr'⟩ := htr.giveUp p.data_ne_nil
  refine ⟨rest', h.carries, htr', ?_, trivial, ?_, ?_⟩
  · intro hoff
    obtain ⟨p', tail, htail, hlen⟩ := h.collecting hoff
    have hne : s.ring.received ++ q ++ [] ≠ [] := by
      simp [received_ne_nil_iff.mpr hoff]
    obtain ⟨tail', htail'⟩ := htr'.head_eq hne hrest htail
    exact ⟨p', tail', htail', hlen⟩
  · refine h.reader.of_head fun hq p' tail htail => ?_
    exact htr'.head_eq (by simp [hq]) hrest htail
  · exact fun p' hp' => h.size_le p' (hrest ▸ mem_append_left _ hp')

theorem peekHeader (hoff : s.ring.offset = 0) (hq : 24 ≤ q.length) :
    ∃ p tail, rest = p :: tail ∧ s.peekHeader = p.length := by
  have htr := h.transit
  rw [received, hoff] at htr
  have hne : q ≠ [] := by
    rintro rfl
    exact absurd hq (by decide)
  obtain ⟨p, tail, rfl, hbs⟩ := htr.first_of_queued hne
  have hp : 24 ≤ p.data.length := by
    rw [p.data_length]
    exact (by decide : 24 ≤ HDR_V1_SIZE).trans p.header_le
  have htake : q.take 24 = p.data.take 24 := by
    have := congrArg (take 24) hbs
    rwa [take_append_of_le_length hq] at this
  refine ⟨p, tail, rfl, qrtrPeekPktSize_packet (h.size_le p mem_cons_self) ?_⟩
  have hhdr : slice (gunyahRxPeak s.pipe (fun _ => 0) 0 0 HDR_V1_SIZE) 0 24 = slice p.byte 0 24 := by
    rw [gunyahRxPeak_eq h.carries.tail_lt, h.carries.slice_peek_past _ hq (by decide) (by decide), htake,
      data, slice_take _ _ (p.data_length ▸ hp)]
  intro j hj
  simpa using slice_eq_iff.mp hhdr j hj

end

theorem take_carries (h : Carries s.pipe q) (offset : ℕ) (hn : n ≤ q.length) :
    Carries (s.take offset n).pipe (q.drop n) ∧
      slice (s.take offset n).ring.buf 0 (offset + n) = slice s.ring.buf 0 offset ++ q.take n ∧
      s.pipe.txAvail ≤ (s.take offset n).pipe.txAvail := by
  refine ⟨h.rxAdvance hn, ?_, h.txAvail_le hn⟩
  rw [GunyahSys.take, gunyahRxPeak_eq h.tail_lt, h.slice_peek _ _ hn]

theorem length_le (hsize : p.size ≤ 2 ^ 16) : p.length ≤ MAX_PKT_SZ := by
  rw [Packet.length, align4, HDR_V1_SIZE, MAX_PKT_SZ]
  omega

section
variable (h : GunyahInv s q done (p :: tail))
include h

theorem complete (hoff : s.ring.offset = offset) (hn : n ≤ q.length) (hlen : n + offset = p.length)
    (hring : ring.offset = 0) :
    GunyahInv { (s.take offset n).post p.length with ring := ring, reader := .loop } (q.drop n)
      (done ++ [p]) tail := by
  obtain ⟨hcar, hbuf, htx⟩ := take_carries h.carries offset hn
  have htr := h.transit.collect n
  rw [received, hoff, ← hbuf, add_comm, hlen] at htr
  obtain ⟨hdata, htr'⟩ := htr.complete (by rw [slice_length, p.data_length])
  refine ⟨hcar, ?_, fun hne => absurd hring hne, h.sender.mono htx, trivial, ?_⟩
  · rw [received, hring, post, hdata]
    exact htr'
  · exact fun p' hp' => h.size_le p' (mem_cons_of_mem _ hp')

theorem collect (hoff : s.ring.offset = offset) (hn : n ≤ q.length) (hlt : offset + n < p.length)
    (hbuf : ring.buf = (s.take offset n).ring.buf) (hlen : ring.len = p.length)
    (hring : ring.offset = offset + n) :
    GunyahInv { s.take offset n with ring := ring, reader := .loop } (q.drop n) done (p :: tail) := by
  obtain ⟨hcar, hsl, htx⟩ := take_carries h.carries offset hn
  refine ⟨hcar, ?_, fun _ => ⟨p, tail, rfl, hlen, hring ▸ hlt⟩, h.sender.mono htx, trivial, h.size_le⟩
  rw [received, hbuf, hring, hsl, ← hoff]
  exact h.transit.collect n

theorem readNew (hoff : s.ring.offset = 0) (hq : q ≠ []) :
    ∃ q' done' rest', GunyahInv { qrtrGunyahReadNew s p.length with reader := .loop } q' done' rest' ∧
      q'.length < q.length := by
  have hqlen := length_pos_iff.mpr hq
  have hp : 0 < p.length := lt_of_lt_of_le (by decide) p.header_le
  have hmax := length_le (h.size_le p mem_cons_self)
  have hval : ¬((p.length : ℤ) < 0 ∨ (MAX_PKT_SZ : ℤ) < p.length) := by omega
  rw [qrtrGunyahReadNew, if_neg hval, gunyahRxAvail, h.carries.rxAvail_eq, Int.toNat_natCast, ← min_def_lt]
  by_cases hall : p.length ≤ q.length
  · rw [min_eq_left hall, if_pos rfl]
    refine ⟨_, _, _, h.complete hoff hall rfl hoff, ?_⟩
    rw [length_drop]
    omega
  · rw [Nat.min_eq_right (Nat.le_of_not_le hall), if_neg (by omega)]
    refine ⟨_, _, _, h.collect hoff le_rfl (by omega) rfl rfl (Nat.zero_add _).symm, ?_⟩
    rw [length_drop]
    omega

end

theorem readFrag (h : GunyahInv s q done rest) (hoff : s.ring.offset ≠ 0) (hq : q ≠ []) :
    ∃ q' done' rest', GunyahInv { qrtrGunyahReadFrag s with reader := .loop } q' done' rest' ∧
      q'.length < q.length := by
  have hqlen := length_pos_iff.mpr hq
  obtain ⟨p, tail, rfl, hlen, hlt⟩ := h.collecting hoff
  have hring : ∀ n, (s.take s.ring.offset n).ring.len = p.length := fun _ => hlen
  rw [qrtrGunyahReadFrag, gunyahRxAvail, h.carries.rxAvail_eq, hlen, ite_lt_add_eq_min]
  by_cases hall : p.length - s.ring.offset ≤ q.length
  · rw [min_eq_left hall, hring, if_pos (by omega)]
    refine ⟨_, _, _, h.complete rfl hall (by omega) rfl, ?_⟩
    rw [length_drop]
    omega
  · rw [Nat.min_eq_right (Nat.le_of_not_le hall), hring, if_neg (by omega)]
    refine ⟨_, _, _, h.collect rfl le_rfl (by omega) rfl hlen rfl, ?_⟩
    rw [length_drop]
    omega

end GunyahInv

/-- The size of a message is what `MAX_PKT_SZ` was made for. -/
def SizeFits : GunyahOp → Prop
  | .send p => p.size ≤ 2 ^ 16
  | _ => True

/-- The size field of a packet is published before the reader looks at it. -/
def HeaderSeen (s : GunyahSys) : GunyahOp → Prop
  | .reader =>
    match s.reader with
    | .readNew => 24 ≤ gunyahRxAvail s.pipe
    | _ => True
  | _ => True

def FailsUnpublished (s : GunyahSys) : GunyahOp → Prop
  | .fail =>
    match s.sender with
    | .sending _ offset => offset = 0
    | _ => True
  | _ => True

def NeverFails : GunyahOp → Prop
  | .fail => False
  | _ => True

instance (op : GunyahOp) : Decidable (SizeFits op) := by
  cases op <;> unfold SizeFits <;> infer_instance

instance (s : GunyahSys) (op : GunyahOp) : Decidable (HeaderSeen s op) := by
  unfold HeaderSeen
  repeat' split
  all_goals infer_instance

instance (s : GunyahSys) (op : GunyahOp) : Decidable (FailsUnpublished s op) := by
  unfold FailsUnpublished
  repeat' split
  all_goals infer_instance

instance (op : GunyahOp) : Decidable (NeverFails op) := by
  cases op <;> unfold NeverFails <;> infer_instance

def GunyahReader.rank : GunyahReader → ℕ
  | .idle => 0
  | .loop => 3
  | .readNew => 2
  | .sized _ => 1
  | .readFrag => 1

def GunyahSys.remaining (s : GunyahSys) : ℕ := 4 * gunyahRxAvail s.pipe + s.reader.rank

theorem qrtrGunyahReadNew_sender (s : GunyahSys) (pktLen : ℤ) :
    (qrtrGunyahReadNew s pktLen).sender = s.sender ∧ (qrtrGunyahReadNew s pktLen).sent = s.sent := by
  fun_cases qrtrGunyahReadNew s pktLen <;> exact ⟨rfl, rfl⟩

theorem qrtrGunyahReadFrag_sender (s : GunyahSys) :
    (qrtrGunyahReadFrag s).sender = s.sender ∧ (qrtrGunyahReadFrag s).sent = s.sent := by
  fun_cases qrtrGunyahReadFrag s <;> exact ⟨rfl, rfl⟩

namespace GunyahInv

variable {s s' : GunyahSys} {q : List UInt8} {done rest : List Packet}

section
variable (h : GunyahInv s q done rest)
include h

theorem remaining_eq : s.remaining = 4 * q.length + s.reader.rank := by
  rw [remaining, gunyahRxAvail, h.carries.rxAvail_eq]

/-- The reader goes on, with less to do. -/
theorem reader_step (hact : s.reader ≠ .idle) (hseen : HeaderSeen s .reader) :
    ∃ s' q' done' rest', qrtrGunyahRead s = some s' ∧ GunyahInv s' q' done' rest' ∧
      s'.sender = s.sender ∧ s'.sent = s.sent ∧ (s'.reader = .idle → q' = []) ∧
      4 * q'.length + s'.reader.rank < 4 * q.length + s.reader.rank := by
  have hrd := h.reader
  have hav : gunyahRxAvail s.pipe = q.length := h.carries.rxAvail_eq
  rw [HeaderSeen] at hseen
  fun_cases qrtrGunyahRead s with rw [‹s.reader = _›] at hrd hseen ⊢
  | case1 hr => exact absurd hr hact
  | case2 _ hemp =>
    have hq : q = [] := length_eq_zero_iff.mp (hav.symm.trans hemp)
    exact ⟨_, q, done, rest, rfl, h.setReader trivial, rfl, rfl, fun _ => hq, by simp [rank]⟩
  | case3 _ hemp hoff =>
    have hq : q ≠ [] := fun hnil => hemp (by rw [hav, hnil]; rfl)
    exact ⟨_, q, done, rest, rfl, h.setReader ⟨hoff, hq⟩, rfl, rfl, by simp, by simp [rank]⟩
  | case4 _ hemp hoff =>
    have hq : q ≠ [] := fun hnil => hemp (by rw [hav, hnil]; rfl)
    exact ⟨_, q, done, rest, rfl, h.setReader ⟨not_not.mp hoff, hq⟩, rfl, rfl, by simp, by simp [rank]⟩
  | case5 =>
    have hpeek := h.peekHeader hrd.1 (hseen.trans_eq hav)
    exact ⟨_, q, done, rest, rfl, h.setReader ⟨hrd.1, hrd.2, hpeek⟩, rfl, rfl, by simp, by simp [rank]⟩
  | case6 pktLen =>
    obtain ⟨hoff, hq, p, tail, rfl, rfl⟩ := hrd
    obtain ⟨q', done', rest', hinv, hlt⟩ := h.readNew hoff hq
    obtain ⟨hsnd, hsent⟩ := qrtrGunyahReadNew_sender s p.length
    refine ⟨_, q', done', rest', rfl, hinv, hsnd, hsent, by simp, ?_⟩
    simp only [rank]
    omega
  | case7 =>
    obtain ⟨q', done', rest', hinv, hlt⟩ := h.readFrag hrd.1 hrd.2
    obtain ⟨hsnd, hsent⟩ := qrtrGunyahReadFrag_sender s
    refine ⟨_, q', done', rest', rfl, hinv, hsnd, hsent, by simp, ?_⟩
    simp only [rank]
    omega

/-- What is on its way stays in its order. -/
theorem step {op : GunyahOp} (hsize : SizeFits op) (hseen : HeaderSeen s op) (hfail : FailsUnpublished s op)
    (hstep : gunyahStep s op = some s') : ∃ q' done' rest', GunyahInv s' q' done' rest' := by
  have hnext := hstep
  revert hnext
  fun_cases gunyahStep s op with
  | case1 p hs =>
    rintro ⟨⟩
    exact ⟨_, _, _, h.send hs hsize⟩
  | case3 =>
    rintro ⟨⟩
    exact ⟨_, _, _, h⟩
  | case4 p offset hs _ _ hav =>
    rintro ⟨⟩
    exact ⟨_, _, _, h.txAvail hs hav⟩
  | case6 count p offset chunk hs hcnt =>
    rintro ⟨⟩
    exact ⟨_, _, _, h.copy hs hcnt.1 _⟩
  | case9 p offset chunk hs | case10 p offset chunk hs =>
    obtain ⟨s'', hs'', q', hinv⟩ := h.txWrite hs
    obtain rfl := some.inj (hs''.symm.trans hstep)
    exact fun _ => ⟨_, _, _, hinv⟩
  | case12 p offset hs =>
    rintro ⟨⟩
    rw [FailsUnpublished, hs] at hfail
    obtain rfl : offset = 0 := hfail
    obtain ⟨rest', hinv⟩ := h.fail hs
    exact ⟨_, _, _, hinv⟩
  | case14 =>
    rintro ⟨⟩
    exact ⟨_, _, _, h.setReader trivial⟩
  | case16 =>
    intro hread
    have hact : s.reader ≠ .idle := by
      intro hidle
      rw [qrtrGunyahRead, hidle] at hread
      cases hread
    obtain ⟨s'', q', done', rest', hs'', hinv, -⟩ := h.reader_step hact hseen
    obtain rfl := some.inj (hs''.symm.trans hread)
    exact ⟨_, _, _, hinv⟩
  | _ => exact nofun

theorem posted_prefix : s.posted <+: s.sent.map data := by
  have hsnd := h.sender
  apply h.transit.posted_prefix
  cases hs : s.sender with
  | idle => exact .inl rfl
  | sending p offset =>
    rw [hs] at hsnd
    exact .inr ⟨slice_ne_nil (Nat.sub_pos_of_lt hsnd), p, rfl⟩
  | writing p offset chunk =>
    rw [hs] at hsnd
    obtain ⟨hpos, hle, -⟩ := hsnd
    exact .inr ⟨slice_ne_nil (by omega), p, rfl⟩

end

theorem posted_eq (h : GunyahInv s [] done rest) (hidle : s.sender = .idle) : s.posted = s.sent.map data := by
  have htr := h.transit
  rw [hidle] at htr
  apply htr.posted_all data_ne_nil
  intro hrecv
  obtain ⟨p, tail, hrest, -, hlt⟩ := h.collecting (received_ne_nil_iff.mp hrecv)
  exact ⟨p, tail, hrest, by rwa [received, slice_length, p.data_length]⟩

theorem headerSeen (h : GunyahInv s q done rest) (hidle : s.sender = .idle) : HeaderSeen s .reader := by
  rw [HeaderSeen]
  cases hr : s.reader with
  | readNew =>
    have hrd := h.reader
    have htr := h.transit
    rw [hr] at hrd
    rw [hidle, received, hrd.1] at htr
    obtain ⟨p, tail, rfl, hbs⟩ := htr.first_of_queued hrd.2
    have hp := p.header_le
    rw [GunyahSender.unsent, append_nil] at hbs
    rw [gunyahRxAvail, h.carries.rxAvail_eq, hbs, length_append, p.data_length]
    rw [HDR_V1_SIZE] at hp
    omega
  | _ => trivial

end GunyahInv

variable {s : GunyahSys}

structure Delivers (s : GunyahSys) : Prop where
  posted : s.posted <+: s.sent.map data
  all : s.sender = .idle → gunyahRxAvail s.pipe = 0 → s.posted = s.sent.map data
  drains : s.sender = .idle → ∃ ops s', (∀ op ∈ ops, op = .doorbell ∨ op = .reader) ∧
    run gunyahStep s ops = some s' ∧ s'.posted = s.sent.map data

theorem GunyahInv.delivers (h : GunyahInv s q done rest) : Delivers s := by
  refine ⟨h.posted_prefix, ?_, ?_⟩
  · intro hidle hemp
    rw [gunyahRxAvail, h.carries.rxAvail_eq] at hemp
    obtain rfl := length_eq_zero_iff.mp hemp
    exact h.posted_eq hidle
  · intro hidle
    obtain ⟨ops, s', hops, hrun, ⟨⟨q', done', rest', hinv, hstop⟩, hsnd, hsent⟩, hdone⟩ :=
      @run_woken _ _ gunyahStep s .doorbell .reader
        (fun t => (∃ q done rest, GunyahInv t q done rest ∧ (t.reader = .idle → q = [])) ∧
          t.sender = .idle ∧ t.sent = s.sent)
        (fun t => t.reader = .idle) remaining (by
          rintro t ⟨⟨q, done, rest, hinv, -⟩, hsnd, hsent⟩ hact
          obtain ⟨t', q', done', rest', hstep, hinv', hsnd', hsent', hstop, hlt⟩ :=
            hinv.reader_step hact (hinv.headerSeen hsnd)
          exact ⟨t', hstep, ⟨⟨q', done', rest', hinv', hstop⟩, hsnd'.trans hsnd,
            hsent'.trans hsent⟩, by rwa [hinv'.remaining_eq, hinv.remaining_eq]⟩)
        (fun hr => ⟨⟨q, done, rest, h, fun hr' => absurd hr' hr⟩, hidle, rfl⟩) (fun hr => by
          refine ⟨{ s with reader := .loop }, by rw [gunyahStep, hr], ?_⟩
          exact ⟨⟨q, done, rest, h.setReader trivial, nofun⟩, hidle, rfl⟩)
    obtain rfl := hstop hdone
    exact ⟨ops, s', hops, hrun, by rw [hinv.posted_eq hsnd, hsent]⟩

theorem gunyah_run_inv (fifo : ℕ → UInt8) {ops : List GunyahOp}
    (hmeets : Meets gunyahStep (fun s op => SizeFits op ∧ HeaderSeen s op ∧ FailsUnpublished s op) (.init fifo) ops)
    (hrun : run gunyahStep (.init fifo) ops = some s) : ∃ q done rest, GunyahInv s q done rest := by
  refine run_inv (I := fun s => ∃ q done rest, GunyahInv s q done rest) ?_ ?_ hmeets hrun
  · rintro s op s' ⟨q, done, rest, hinv⟩ ⟨hsize, hseen, hfail⟩ hstep
    exact hinv.step hsize hseen hfail hstep
  · exact ⟨[], [], [], .init fifo⟩

/-- With headers read only once their size field is published, every interleaving of sends that do not fail
and the reader delivers the packets as sent. -/
theorem gunyah_delivers_packets_sent (fifo : ℕ → UInt8) {ops : List GunyahOp} {s : GunyahSys}
    (hmeets : Meets gunyahStep (fun s op => SizeFits op ∧ HeaderSeen s op ∧ NeverFails op)
      (.init fifo) ops) (hrun : run gunyahStep (.init fifo) ops = some s) : Delivers s := by
  have hfail : ∀ s op, NeverFails op → FailsUnpublished s op := by
    intro s op hop
    cases op with
    | fail => exact hop.elim
    | _ => trivial
  obtain ⟨q, done, rest, hinv⟩ := gunyah_run_inv fifo
    (hmeets.mono fun s op hop => ⟨hop.1, hop.2.1, hfail s op hop.2.2⟩) hrun
  exact hinv.delivers

def shortPacket : Packet := ⟨2, 1, ⟨1, 5⟩, ⟨2, 6⟩, false, 0, fun _ => 0⟩

def shortPacketTrace : List GunyahOp :=
  [.send shortPacket, .txAvail, .copy 10, .txWrite, .doorbell, .reader, .reader, .reader, .reader]

theorem gunyah_delivers_shortPacket :
    ∃ s, run gunyahStep (.init fun _ => 0) shortPacketTrace = some s ∧ s.posted = [shortPacket.data] :=
  ⟨_, (some_get (by decide +kernel)).symm,
    (gunyah_delivers_packets_sent (fun _ => 0) (by decide +kernel)
      (some_get (by decide +kernel)).symm).all rfl (by decide +kernel)⟩

def longPacket : Packet := ⟨2, 1, ⟨1, 5⟩, ⟨2, 6⟩, false, 16340, fun _ => 0⟩

def splitHeaderTrace : List GunyahOp :=
  [.send longPacket, .txAvail, .txWrite, .send shortPacket, .txAvail, .txWrite, .doorbell, .reader,
    .reader, .reader, .reader, .reader, .reader, .txAvail, .txWrite, .reader, .reader, .reader]

/-- Everything was sent and read, and the second packet was not posted. -/
theorem gunyah_split_header_lost :
    (∀ op ∈ splitHeaderTrace, SizeFits op ∧ NeverFails op) ∧
      ∃ s, run gunyahStep (.init fun _ => 0) splitHeaderTrace = some s ∧ s.sender = .idle ∧
        s.sent = [longPacket, shortPacket] ∧ s.reader = .idle ∧ gunyahRxAvail s.pipe = 0 ∧
        s.posted.length = 1 :=
  ⟨by decide, _, (some_get (by decide +kernel)).symm, rfl, rfl, by decide +kernel⟩

/-- A send that fails before anything is published harms no other packet. -/
theorem gunyah_delivers_after_failed_send (fifo : ℕ → UInt8) {ops : List GunyahOp} {s : GunyahSys}
    (hmeets : Meets gunyahStep (fun s op => SizeFits op ∧ HeaderSeen s op ∧ FailsUnpublished s op)
      (.init fifo) ops) (hrun : run gunyahStep (.init fifo) ops = some s) : Delivers s := by
  obtain ⟨q, done, rest, hinv⟩ := gunyah_run_inv fifo hmeets hrun
  exact hinv.delivers

def stalledPacket : Packet := ⟨2, 1, ⟨1, 5⟩, ⟨2, 6⟩, false, 16360, fun _ => 0⟩

def failedFirstTrace : List GunyahOp := [.send stalledPacket, .fail] ++ shortPacketTrace

theorem gunyah_delivers_after_failed_send_failedFirstTrace :
    ∃ s, run gunyahStep (.init fun _ => 0) failedFirstTrace = some s ∧ s.posted = [shortPacket.data] :=
  ⟨_, (some_get (by decide +kernel)).symm,
    (gunyah_delivers_after_failed_send (fun _ => 0) (by decide +kernel)
      (some_get (by decide +kernel)).symm).all rfl (by decide +kernel)⟩

def stalledTrace : List GunyahOp :=
  [.send stalledPacket, .txAvail, .txWrite, .txAvail, .fail, .doorbell, .reader, .reader, .reader,
    .reader, .send shortPacket, .txAvail, .txWrite, .doorbell, .reader, .reader, .reader, .reader,
    .reader, .reader]

/-- The next packet was sent and read, and was not posted: the reader took its first half for the end of the
stalled one. -/
theorem gunyah_packet_after_stall_lost :
    Meets gunyahStep (fun s op => SizeFits op ∧ HeaderSeen s op) (.init fun _ => 0)
        (stalledTrace.take 17) ∧
      ∃ s, run gunyahStep (.init fun _ => 0) stalledTrace = some s ∧ s.sender = .idle ∧
        s.sent = [shortPacket] ∧ s.reader = .idle ∧ gunyahRxAvail s.pipe = 0 ∧
        shortPacket.data ∉ s.posted :=
  ⟨by decide +kernel, _, (some_get (by decide +kernel)).symm, rfl, rfl, by decide +kernel⟩

/-! ### The end of the reader's loop -/

def qrtrGunyahReadRound (s : GunyahSys) : GunyahSys :=
  if s.ring.offset ≠ 0 then qrtrGunyahReadFrag s else qrtrGunyahReadNew s s.peekHeader

/-- Whatever the peer has written: both indices are in the FIFO, and a packet being collected is not
complete. -/
structure GunyahSys.Readable (s : GunyahSys) : Prop where
  head_lt : s.pipe.head < FIFO_SIZE
  tail_lt : s.pipe.tail < FIFO_SIZE
  offset_lt : s.ring.offset ≠ 0 → s.ring.offset < s.ring.len

theorem GunyahSys.Readable.rxAvail_eq (h : s.Readable) :
    gunyahRxAvail s.pipe = (FIFO_SIZE + s.pipe.head - s.pipe.tail) % FIFO_SIZE := by
  obtain ⟨hhead, htail, -⟩ := h
  simp only [gunyahRxAvail, Pipe.rxAvail, FIFO_SIZE] at *
  split_ifs <;> omega

def GunyahSys.rxByte (s : GunyahSys) (j : ℕ) : UInt8 := s.pipe.fifo ((s.pipe.tail + j) % FIFO_SIZE)

theorem GunyahSys.Readable.peekHeader_eq_zero_iff (h : s.Readable) : s.peekHeader = 0 ↔ SizeWraps s.rxByte := by
  rw [GunyahSys.peekHeader, qrtrPeekPktSize_eq_zero_iff]
  refine sizeWraps_congr fun j hj => ?_
  have happly := wrapRead_apply s.pipe.fifo (fun _ => 0) h.tail_lt.le (by decide) hj (d := 0)
  rwa [zero_add, ← gunyahRxPeak_eq h.tail_lt] at happly

/-- A round takes something, unless the header it looks at gives the size 0. -/
theorem GunyahSys.Readable.round (h : s.Readable) : (qrtrGunyahReadRound s).Readable ∧
    ∃ n ≤ gunyahRxAvail s.pipe, (qrtrGunyahReadRound s).pipe = gunyahRxAdvance s.pipe n ∧
      (gunyahRxAvail s.pipe ≠ 0 → (n = 0 ↔ s.ring.offset = 0 ∧ s.peekHeader = 0)) := by
  rw [and_comm, exists_and_right.symm]
  have htail : ∀ n, (gunyahRxAdvance s.pipe n).tail < FIFO_SIZE := by
    intro n
    rw [gunyahRxAdvance, Pipe.rxAdvance_tail]
    exact mod_lt _ (by decide)
  rw [qrtrGunyahReadRound]
  by_cases hoff : s.ring.offset ≠ 0
  · have hlt := h.offset_lt hoff
    rw [qrtrGunyahReadFrag, ite_lt_add_eq_min]
    split_ifs with hall
    · exact ⟨_, ⟨min_le_right _ _, rfl, by omega⟩, h.head_lt, htail _, absurd rfl⟩
    · change ¬min _ _ + _ = s.ring.len at hall
      refine ⟨_, ⟨min_le_right _ _, rfl, by omega⟩, h.head_lt, htail _, fun _ => ?_⟩
      dsimp only [GunyahSys.take]
      omega
  · rw [qrtrGunyahReadNew, ← min_def_lt]
    dsimp only
    split_ifs
    · exact ⟨_, ⟨le_rfl, rfl, by omega⟩, h.head_lt, htail _, h.offset_lt⟩
    · exact ⟨_, ⟨min_le_right _ _, rfl, by omega⟩, h.head_lt, htail _, h.offset_lt⟩
    · refine ⟨_, ⟨min_le_right _ _, rfl, by omega⟩, h.head_lt, htail _, fun _ => ?_⟩
      dsimp only
      omega

structure Drains (t : ℕ → GunyahSys) : Prop where
  ends : ∃ k, gunyahRxAvail (t k).pipe = 0
  takes : ∀ k, gunyahRxAvail (t k).pipe ≠ 0 → ∃ n, 0 < n ∧ n ≤ gunyahRxAvail (t k).pipe ∧
    (t (k + 1)).pipe = gunyahRxAdvance (t k).pipe n

/-- Only the size field of a header that wraps around keeps the reader from its end. -/
theorem gunyah_read_drains_iff (t : ℕ → GunyahSys) (h : (t 0).Readable)
    (hround : ∀ k, t (k + 1) = qrtrGunyahReadRound (t k)) : Drains t ↔
      ∀ k, gunyahRxAvail (t k).pipe ≠ 0 → ¬((t k).ring.offset = 0 ∧ SizeWraps (t k).rxByte) := by
  have hrdy : ∀ k, (t k).Readable := by
    intro k
    induction k with
    | zero => exact h
    | succ k ih => exact hround k ▸ ih.round.1
  -- what is left after `n` bytes have been taken
  have hless : ∀ {k n}, n ≤ gunyahRxAvail (t k).pipe → (t (k + 1)).pipe = gunyahRxAdvance (t k).pipe n →
      gunyahRxAvail (t (k + 1)).pipe + n = gunyahRxAvail (t k).pipe := by
    intro k n hn hpipe
    rw [(hrdy (k + 1)).rxAvail_eq, hpipe, gunyahRxAdvance, Pipe.rxAdvance_tail]
    rw [(hrdy k).rxAvail_eq] at hn ⊢
    change (FIFO_SIZE + (t k).pipe.head - _) % _ + _ = _
    obtain ⟨hhead, htail, -⟩ := hrdy k
    rw [FIFO_SIZE] at *
    omega
  constructor
  · rintro ⟨-, htakes⟩ k hav hzero
    obtain ⟨n, hpos, hn, hpipe⟩ := htakes k hav
    obtain ⟨-, n', hn', hpipe', hzero'⟩ := (hrdy k).round
    rw [← hround k] at hpipe'
    rw [← (hrdy k).peekHeader_eq_zero_iff] at hzero
    have := hless hn hpipe
    have := hless hn' hpipe'
    omega
  · intro hsz
    have htakes : ∀ k, gunyahRxAvail (t k).pipe ≠ 0 → ∃ n, 0 < n ∧ n ≤ gunyahRxAvail (t k).pipe ∧
        (t (k + 1)).pipe = gunyahRxAdvance (t k).pipe n := by
      intro k hav
      obtain ⟨-, n, hn, hpipe, hzero⟩ := (hrdy k).round
      rw [(hrdy k).peekHeader_eq_zero_iff] at hzero
      exact ⟨n, Nat.pos_of_ne_zero (mt (hzero hav).mp (hsz k hav)), hn, hround k ▸ hpipe⟩
    refine ⟨?_, htakes⟩
    by_contra! hnever
    have hsum : ∀ k, gunyahRxAvail (t k).pipe + k ≤ gunyahRxAvail (t 0).pipe := by
      intro k
      induction k with
      | zero => exact le_rfl
      | succ k ih =>
        obtain ⟨n, hpos, hn, hpipe⟩ := htakes k (hnever k)
        have := hless hn hpipe
        omega
    have := hsum (gunyahRxAvail (t 0).pipe + 1)
    omega

def wrappedSize : GunyahSys :=
  { GunyahSys.init fun _ => 0 with pipe := ⟨32, 0, fun i => if i = 0 then 1 else if i = 20 then 0xe0 else 0xff⟩ }

/-- The size field of the header at the tail is 0xffffffe0. -/
theorem gunyah_read_drains_iff_wrappedSize : ¬Drains fun k => qrtrGunyahReadRound^[k] wrappedSize := fun h =>
  (gunyah_read_drains_iff _ ⟨by decide, by decide, absurd rfl⟩ fun k => Function.iterate_succ_apply' _ k _).mp h 0
    (by decide) ⟨rfl, .inl (by decide +kernel)⟩

/-- The loop stays at a header of size 0xffffffe0. -/
theorem gunyah_read_endless : (fun k => gunyahRxAvail (qrtrGunyahReadRound^[k] wrappedSize).pipe) = fun _ => 32 := by
  have hfix : ∀ s, s.pipe = wrappedSize.pipe ∧ s.ring.offset = 0 →
      (qrtrGunyahReadRound s).pipe = wrappedSize.pipe ∧ (qrtrGunyahReadRound s).ring.offset = 0 := by
    rintro s ⟨hpipe, hoff⟩
    have hpeek : s.peekHeader = 0 := by
      rw [peekHeader, hpipe]
      decide +kernel
    rw [qrtrGunyahReadRound, if_neg (not_not.mpr hoff), hpeek, qrtrGunyahReadNew, hpipe]
    refine ⟨?_, hoff⟩
    change gunyahRxAdvance s.pipe 0 = _
    rw [hpipe]
    rfl
  funext k
  rw [(Function.Iterate.rec (fun s : GunyahSys => s.pipe = wrappedSize.pipe ∧ s.ring.offset = 0) ⟨rfl, rfl⟩ hfix k).1]
  decide

end VendorKernel.Qrtr

import VendorKernel.Qrtr.Genpool

/-! What the reader of the genpool transport hands on is what was sent, if the length of a packet
fits its header and the reader never finds a header without any data behind it. -/
namespace VendorKernel.Qrtr.Genpool

open Framing LittleEndian Machine RingBuffer List Option Reader Nat Qrtr.Ring

variable {ring : Ring} {q hdr : List UInt8} {rest done : List Packet} {r : Reader}

def header (p : Packet) : List UInt8 := slice (headerByte p) 0 HDR_SIZE

def frame (p : Packet) : List UInt8 := header p ++ p.data

theorem header_length (p : Packet) : (header p).length = HDR_SIZE := slice_length _ _ _

theorem frame_ne_nil (p : Packet) : frame p ≠ [] :=
  append_ne_nil_of_right_ne_nil _ p.data_ne_nil

def Sender.current : Sender → List Packet
  | .idle => []
  | .header p | .writingHeader p | .sending p _ | .writing p _ _ => [p]

def Sender.unsent : Sender → List UInt8
  | .idle => []
  | .header p | .writingHeader p => frame p
  | .sending p offset | .writing p offset _ => slice p.byte offset (p.length - offset)

def Sender.Ok (pipe : Pipe) : Sender → Prop
  | .idle | .header _ => True
  | .writingHeader _ => HDR_SIZE ≤ pipe.txAvail
  | .sending p offset => offset < p.length
  | .writing p offset chunk => 0 < chunk ∧ offset + chunk ≤ p.length ∧ chunk ≤ pipe.txAvail

/-- What the reader knows about the next packet to post; `hdr` is what it has taken of its
header. -/
def Reader.Ok (ring : Ring) (q : List UInt8) (rest : List Packet) (hdr : List UInt8) : Reader → Prop
  | .idle | .loop => ring.offset = 0 → hdr = []
  | .readNew => ring.offset = 0 ∧ q ≠ [] ∧ hdr = []
  | .sized pktLen =>
    ring.offset = 0 ∧ ∃ p tail, rest = p :: tail ∧ pktLen = p.length ∧ hdr = header p
  | .readFrag => ring.offset ≠ 0 ∧ q ≠ []

theorem Sender.Ok.mono {pipe pipe' : Pipe} {sender : Sender} (h : sender.Ok pipe)
    (hle : pipe.txAvail ≤ pipe'.txAvail) : sender.Ok pipe' := by
  cases sender with
  | writingHeader p => exact le_trans h hle
  | writing p offset chunk => exact ⟨h.1, h.2.1, h.2.2.trans hle⟩
  | _ => exact h

theorem Reader.Ok.append (h : r.Ok ring q rest hdr) (more : List Packet) : r.Ok ring q (rest ++ more) hdr := by
  cases r with
  | sized pktLen =>
    obtain ⟨hoff, p, tail, hrest, hlen⟩ := h
    exact ⟨hoff, p, tail ++ more, by rw [hrest, cons_append], hlen⟩
  | _ => exact h

theorem Reader.Ok.more (h : r.Ok ring q rest hdr) (bytes : List UInt8) : r.Ok ring (q ++ bytes) rest hdr := by
  cases r with
  | readNew => exact ⟨h.1, append_ne_nil_of_left_ne_nil h.2.1 bytes, h.2.2⟩
  | readFrag => exact ⟨h.1, append_ne_nil_of_left_ne_nil h.2 bytes⟩
  | _ => exact h

/-- `done` have been posted, `rest` are on their way with `hdr` of the first header taken, and the FIFO holds `q`. -/
structure Inv (s : Sys) (q : List UInt8) (done rest : List Packet) (hdr : List UInt8) : Prop where
  carries : Carries s.pipe q
  transit : InTransit Packet.data frame s.posted s.sent s.sender.current done rest
    (hdr ++ s.ring.received) q s.sender.unsent
  collecting : s.ring.offset ≠ 0 → ∃ p tail, rest = p :: tail ∧ s.ring.len = p.length ∧
    s.ring.offset < p.length ∧ hdr = header p
  sender : s.sender.Ok s.pipe
  reader : s.reader.Ok s.ring q rest hdr
  length_lt : ∀ p ∈ rest, p.length < 2 ^ 16

namespace Inv

variable {s : Sys} {q hdr : List UInt8} {done rest tail : List Packet} {p : Packet} {offset chunk n : ℕ}

theorem init (fifo : ℕ → UInt8) : Inv (.init fifo) [] [] [] [] where
  carries := ⟨(by decide : 0 < FIFO_SIZE), rfl, by decide, rfl⟩
  transit := ⟨rfl, rfl, rfl⟩
  collecting h := absurd rfl h
  sender := trivial
  reader _ := rfl
  length_lt _ hp := absurd hp not_mem_nil

section
variable (h : Inv s q done rest hdr)
include h

theorem setReader (hr : r.Ok s.ring q rest hdr) : Inv { s with reader := r } q done rest hdr :=
  { h with reader := hr }

theorem send (hidle : s.sender = .idle) (hlen : p.length < 2 ^ 16) :
    Inv { s with sender := .header p } q done (rest ++ [p]) hdr := by
  have htr := h.transit
  rw [hidle] at htr
  refine ⟨h.carries, htr.begin p, fun hoff => ?_, trivial, h.reader.append [p],
    forall_mem_append.mpr ⟨h.length_lt, forall_mem_singleton.mpr hlen⟩⟩
  obtain ⟨p', tail, hrest, hring⟩ := h.collecting hoff
  exact ⟨p', tail ++ [p], by rw [hrest, cons_append], hring⟩

theorem setSender {sender : Sender} (hcur : sender.current = s.sender.current)
    (hun : sender.unsent = s.sender.unsent) (hok : sender.Ok s.pipe) :
    Inv { s with sender := sender } q done rest hdr := by
  refine ⟨h.carries, ?_, h.collecting, hok, h.reader, h.length_lt⟩
  rw [hcur, hun]
  exact h.transit

theorem copy (data : ℕ → UInt8) (hn : n ≤ s.pipe.txAvail) :
    Inv { s with pipe := s.pipe.copyIn data n } q done rest hdr :=
  { h with carries := h.carries.copyIn data hn, sender := h.sender }

theorem writeHeader (hs : s.sender = .writingHeader p) :
    Inv
      { s with pipe := qrtrGenpoolTxWrite s.pipe (headerByte p) HDR_SIZE, sender := .sending p 0 }
      (q ++ header p) done rest hdr := by
  have hsnd := h.sender
  have htr := h.transit
  rw [hs] at hsnd htr
  exact ⟨h.carries.qrtrGenpoolTxWrite _ hsnd, htr.publish, h.collecting,
    lt_of_lt_of_le (by decide) p.header_le, h.reader.more _, h.length_lt⟩

theorem txWrite (hs : s.sender = .writing p offset chunk) :
    ∃ s', genpoolStep s .txWrite = some s' ∧ ∃ q', Inv s' q' done rest hdr := by
  have hsnd := h.sender
  have htr := h.transit
  rw [hs] at hsnd htr
  obtain ⟨hpos, hle, hav⟩ := hsnd
  have hcar := h.carries.qrtrGenpoolTxWrite (fun i => p.byte (offset + i)) hav
  have hrd := h.reader.more (slice (fun i => p.byte (offset + i)) 0 chunk)
  rw [Sender.unsent, p.unsent_split hle] at htr
  rw [genpoolStep, hs]
  by_cases hmore : offset + chunk < p.length
  · exact ⟨_, if_pos hmore, _, hcar, htr.publish, h.collecting, hmore, hrd, h.length_lt⟩
  · rw [Nat.sub_eq_zero_of_le (by omega)] at htr
    exact ⟨_, if_neg hmore, _, hcar, htr.publish.finish, h.collecting, trivial, hrd, h.length_lt⟩

end

theorem queued_header (h : Inv s q done rest []) (hoff : s.ring.offset = 0) (hq : q ≠ []) :
    ∃ p tail more, rest = p :: tail ∧ q = header p ++ more := by
  have hsnd := h.sender
  have htr := h.transit
  rw [received, hoff, slice] at htr
  -- the queue starts with the oldest packet, or with what is published of the one being sent
  have hqd : ∀ {p : Packet} (pub : List UInt8), s.sender.current = [p] →
      s.sender.unsent ≠ [] → frame p = pub ++ s.sender.unsent →
      (pub ≠ [] → ∃ more, pub = header p ++ more) →
      ∃ p tail more, rest = p :: tail ∧ q = header p ++ more := by
    intro p pub hcur hun hfr hpub
    rw [hcur] at htr
    obtain ⟨rest', hrest, hbs⟩ := htr.queued_eq hun hfr
    cases rest' with
    | nil =>
      obtain rfl : q = pub := hbs
      obtain ⟨more, hmore⟩ := hpub hq
      exact ⟨p, [], more, hrest, hmore⟩
    | cons p' tail =>
      refine ⟨p', tail ++ [p], p'.data ++ ((tail.map frame).flatten ++ pub), hrest, ?_⟩
      simpa [frame] using hbs
  have hck2 : ∀ {p : Packet} {offset : ℕ}, s.sender.current = [p] → offset < p.length →
      s.sender.unsent = slice p.byte offset (p.length - offset) →
      ∃ p tail more, rest = p :: tail ∧ q = header p ++ more := by
    intro p offset hcur hlt hun
    refine hqd (header p ++ slice p.byte 0 offset) hcur ?_ ?_ fun _ => ⟨_, rfl⟩
    · rw [hun]
      exact slice_ne_nil (Nat.sub_pos_of_lt hlt)
    · rw [hun, frame, append_assoc, ← p.data_split hlt.le]
  cases hs : s.sender with
  | idle =>
    rw [hs] at htr
    obtain ⟨p, tail, hrest, hbs⟩ := htr.first_of_queued hq
    refine ⟨p, tail, p.data ++ (tail.map frame).flatten, hrest, ?_⟩
    simpa [frame, Sender.unsent] using hbs
  | header p | writingHeader p =>
    refine hqd [] (by rw [hs]; rfl) ?_ ?_ (absurd rfl)
    · rw [hs]
      exact frame_ne_nil p
    · rw [hs]
      rfl
  | sending p offset =>
    rw [hs] at hsnd
    exact hck2 (by rw [hs]; rfl) hsnd (by rw [hs]; rfl)
  | writing p offset chunk =>
    rw [hs] at hsnd
    obtain ⟨hpos, hle, -⟩ := hsnd
    exact hck2 (by rw [hs]; rfl) (by omega : offset < p.length) (by rw [hs]; rfl)

theorem readLE_header (hlen : p.length < 2 ^ 16) {mem : ℕ → UInt8}
    (hmem : slice mem 0 HDR_SIZE = header p) : readLE mem 0 2 = p.length := by
  have hword : readLE mem 0 2 = p.length % 256 ^ 2 := by
    apply readLE_of_leByte
    intro j hj
    have := slice_eq_iff.mp hmem j (hj.trans (by decide))
    rw [zero_add j, headerByte, if_pos hj] at this
    rwa [zero_add]
  exact hword.trans (mod_eq_of_lt hlen)

theorem takeHeader (h : Inv s q done rest []) (hoff : s.ring.offset = 0) (hq : q ≠ []) :
    ∃ p tail, rest = p :: tail ∧ s.peekHeader = p.length ∧ p.length < 2 ^ 16 ∧
      Inv { s with pipe := qrtrGenpoolRxAdvance s.pipe HDR_SIZE, reader := .sized p.length }
        (q.drop HDR_SIZE) done rest (header p) ∧ (q.drop HDR_SIZE).length < q.length := by
  obtain ⟨p, tail, more, hrest, hhdr⟩ := h.queued_header hoff hq
  have hlen := h.length_lt p (hrest ▸ mem_cons_self)
  have hqlen : HDR_SIZE ≤ q.length := by
    rw [hhdr, length_append]
    exact le_add_right _ _
  have htake : q.take HDR_SIZE = header p := by
    rw [hhdr, take_left' (header_length p)]
  refine ⟨p, tail, hrest, ?_, hlen, ?_, ?_⟩
  · apply readLE_header hlen
    rw [h.carries.qrtrGenpoolRxPeak_eq, h.carries.slice_peek_past _ hqlen le_rfl (by decide), htake]
  · have htr := h.transit.collect HDR_SIZE
    rw [received, hoff, htake] at htr
    refine ⟨h.carries.rxAdvance hqlen, ?_, fun hne => absurd hoff hne,
      h.sender.mono (h.carries.txAvail_le hqlen), ⟨hoff, p, tail, hrest, rfl, rfl⟩, h.length_lt⟩
    rw [received, hoff]
    exact htr
  · rw [length_drop, HDR_SIZE] at *
    omega

theorem take_carries (h : Carries s.pipe q) (offset : ℕ) (hn : n ≤ q.length) :
    Carries (s.take offset n).pipe (q.drop n) ∧
      slice (s.take offset n).ring.buf 0 (offset + n) = slice s.ring.buf 0 offset ++ q.take n ∧
      s.pipe.txAvail ≤ (s.take offset n).pipe.txAvail := by
  refine ⟨h.rxAdvance hn, ?_, h.txAvail_le hn⟩
  rw [Sys.take, h.qrtrGenpoolRxPeak_eq, h.slice_peek _ _ hn]

section
variable (h : Inv s q done (p :: tail) (header p))
include h

theorem complete (hoff : s.ring.offset = offset) (hn : n ≤ q.length) (hlen : n + offset = p.length)
    (hring : ring.offset = 0) :
    Inv { (s.take offset n).post p.length with ring := ring, reader := .loop } (q.drop n) (done ++ [p]) tail [] := by
  obtain ⟨hcar, hbuf, htx⟩ := take_carries h.carries offset hn
  have htr := h.transit.collect n
  rw [received, hoff, append_assoc, ← hbuf, add_comm, hlen] at htr
  obtain ⟨hfr, htr'⟩ := htr.complete (by
    rw [frame, length_append, length_append, slice_length, p.data_length])
  have hdata := append_cancel_left hfr
  refine ⟨hcar, ?_, fun hne => absurd hring hne, h.sender.mono htx, fun _ => rfl, ?_⟩
  · rw [received, hring, Sys.post, hdata]
    exact htr'
  · exact fun p' hp' => h.length_lt p' (mem_cons_of_mem _ hp')

theorem collect (hoff : s.ring.offset = offset) (hn : n ≤ q.length) (hpos : 0 < offset + n)
    (hlt : offset + n < p.length) (hbuf : ring.buf = (s.take offset n).ring.buf)
    (hlen : ring.len = p.length) (hring : ring.offset = offset + n) :
    Inv { s.take offset n with ring := ring, reader := .loop } (q.drop n) done (p :: tail) (header p) := by
  obtain ⟨hcar, hsl, htx⟩ := take_carries h.carries offset hn
  refine ⟨hcar, ?_, fun _ => ⟨p, tail, rfl, hlen, hring ▸ hlt, rfl⟩, h.sender.mono htx, ?_, h.length_lt⟩
  · rw [received, hbuf, hring, hsl, ← hoff]
    exact h.transit.collect n
  · intro hzero
    rw [hring] at hzero
    exact absurd hzero hpos.ne'

theorem readNew (hoff : s.ring.offset = 0) (hq : q ≠ []) :
    ∃ q' done' rest' hdr', Inv { qrtrGenpoolReadNew s p.length with reader := .loop } q' done' rest'
      hdr' ∧ q'.length < q.length := by
  have hqlen := length_pos_iff.mpr hq
  have hp : 0 < p.length := lt_of_lt_of_le (by decide) p.header_le
  rw [qrtrGenpoolReadNew, qrtrGenpoolRxAvail, h.carries.rxAvail_eq, ← min_def_lt]
  by_cases hall : p.length ≤ q.length
  · rw [min_eq_left hall, if_pos rfl]
    refine ⟨_, _, _, _, h.complete hoff hall rfl hoff, ?_⟩
    rw [length_drop]
    omega
  · rw [Nat.min_eq_right (Nat.le_of_not_le hall), if_neg (by omega)]
    refine ⟨_, _, _, _, h.collect hoff le_rfl (by omega) (by omega) rfl rfl (Nat.zero_add _).symm, ?_⟩
    rw [length_drop]
    omega

end

theorem readFrag (h : Inv s q done rest hdr) (hoff : s.ring.offset ≠ 0) (hq : q ≠ []) :
    ∃ q' done' rest' hdr', Inv { qrtrGenpoolReadFrag s with reader := .loop } q' done' rest' hdr' ∧
      q'.length < q.length := by
  have hqlen := length_pos_iff.mpr hq
  obtain ⟨p, tail, rfl, hlen, hlt, rfl⟩ := h.collecting hoff
  have hring : ∀ n, (s.take s.ring.offset n).ring.len = p.length := fun _ => hlen
  rw [qrtrGenpoolReadFrag, qrtrGenpoolRxAvail, h.carries.rxAvail_eq, hlen, ite_lt_add_eq_min]
  by_cases hall : p.length - s.ring.offset ≤ q.length
  · rw [min_eq_left hall, hring, if_pos (by omega)]
    refine ⟨_, _, _, _, h.complete rfl hall (by omega) rfl, ?_⟩
    rw [length_drop]
    omega
  · rw [Nat.min_eq_right (Nat.le_of_not_le hall), hring, if_neg (by omega)]
    refine ⟨_, _, _, _, h.collect rfl le_rfl (by omega) (by omega) rfl hlen rfl, ?_⟩
    rw [length_drop]
    omega

end Inv

def LengthFits : Op → Prop
  | .send p => p.length < 2 ^ 16
  | _ => True

/-- Some of a packet is published before the reader has taken its header. -/
def DataSeen (s : Sys) : Op → Prop
  | .reader =>
    match s.reader with
    | .sized _ => 0 < qrtrGenpoolRxAvail s.pipe
    | _ => True
  | _ => True

instance (op : Op) : Decidable (LengthFits op) := by
  cases op <;> unfold LengthFits <;> infer_instance

instance (s : Sys) (op : Op) : Decidable (DataSeen s op) := by
  unfold DataSeen
  repeat' split
  all_goals infer_instance

def Reader.rank : Reader → ℕ
  | .idle => 0
  | .loop => 3
  | .readNew => 2
  | .sized _ => 1
  | .readFrag => 1

def Sys.remaining (s : Sys) : ℕ := 4 * qrtrGenpoolRxAvail s.pipe + s.reader.rank

theorem qrtrGenpoolReadNew_sender (s : Sys) (pktLen : ℕ) :
    (qrtrGenpoolReadNew s pktLen).sender = s.sender ∧ (qrtrGenpoolReadNew s pktLen).sent = s.sent := by
  fun_cases qrtrGenpoolReadNew s pktLen <;> exact ⟨rfl, rfl⟩

theorem qrtrGenpoolReadFrag_sender (s : Sys) :
    (qrtrGenpoolReadFrag s).sender = s.sender ∧ (qrtrGenpoolReadFrag s).sent = s.sent := by
  fun_cases qrtrGenpoolReadFrag s <;> exact ⟨rfl, rfl⟩

namespace Inv

variable {s s' : Sys} {q hdr : List UInt8} {done rest : List Packet}

section
variable (h : Inv s q done rest hdr)
include h

theorem remaining_eq : s.remaining = 4 * q.length + s.reader.rank := by
  rw [Sys.remaining, qrtrGenpoolRxAvail, h.carries.rxAvail_eq]

/-- The reader goes on, with less to do. -/
theorem reader_step (hact : s.reader ≠ .idle) (hseen : DataSeen s .reader) :
    ∃ s' q' done' rest' hdr', qrtrGenpoolRead s = some s' ∧ Inv s' q' done' rest' hdr' ∧
      s'.sender = s.sender ∧ s'.sent = s.sent ∧ (s'.reader = .idle → q' = []) ∧
      4 * q'.length + s'.reader.rank < 4 * q.length + s.reader.rank := by
  have hrd := h.reader
  have hav : qrtrGenpoolRxAvail s.pipe = q.length := h.carries.rxAvail_eq
  rw [DataSeen] at hseen
  fun_cases qrtrGenpoolRead s with rw [‹s.reader = _›] at hrd hseen ⊢
  | case1 hr => exact absurd hr hact
  | case2 _ hemp =>
    have hq : q = [] := length_eq_zero_iff.mp (hav.symm.trans hemp)
    exact ⟨_, q, done, rest, hdr, rfl, h.setReader hrd, rfl, rfl, fun _ => hq, by simp [rank]⟩
  | case3 _ hemp hoff =>
    have hq : q ≠ [] := fun hnil => hemp (by rw [hav, hnil]; rfl)
    exact ⟨_, q, done, rest, hdr, rfl, h.setReader ⟨hoff, hq⟩, rfl, rfl, by simp, by simp [rank]⟩
  | case4 _ hemp hoff =>
    have hq : q ≠ [] := fun hnil => hemp (by rw [hav, hnil]; rfl)
    have hoff := not_not.mp hoff
    exact ⟨_, q, done, rest, hdr, rfl, h.setReader ⟨hoff, hq, hrd hoff⟩, rfl, rfl, by simp, by simp [rank]⟩
  | case5 _ hmax =>
    obtain ⟨hoff, hq, rfl⟩ := hrd
    obtain ⟨p, tail, -, hpeek, hlen, -⟩ := h.takeHeader hoff hq
    rw [MAX_PKT_SZ] at hmax
    omega
  | case6 =>
    obtain ⟨hoff, hq, rfl⟩ := hrd
    obtain ⟨p, tail, -, hpeek, hlen, hinv, hlt⟩ := h.takeHeader hoff hq
    refine ⟨_, _, _, _, _, rfl, hpeek ▸ hinv, rfl, rfl, by simp, ?_⟩
    simp only [rank]
    omega
  | case7 pktLen =>
    obtain ⟨hoff, p, tail, rfl, rfl, rfl⟩ := hrd
    have hq : q ≠ [] := by
      rintro rfl
      exact absurd hav hseen.ne'
    obtain ⟨q', done', rest', hdr', hinv, hlt⟩ := h.readNew hoff hq
    obtain ⟨hsnd, hsent⟩ := qrtrGenpoolReadNew_sender s p.length
    refine ⟨_, q', done', rest', hdr', rfl, hinv, hsnd, hsent, by simp, ?_⟩
    simp only [rank]
    omega
  | case8 =>
    obtain ⟨q', done', rest', hdr', hinv, hlt⟩ := h.readFrag hrd.1 hrd.2
    obtain ⟨hsnd, hsent⟩ := qrtrGenpoolReadFrag_sender s
    refine ⟨_, q', done', rest', hdr', rfl, hinv, hsnd, hsent, by simp, ?_⟩
    simp only [rank]
    omega

/-- What is on its way stays in its order. -/
theorem step {op : Op} (hlen : LengthFits op) (hseen : DataSeen s op) (hstep : genpoolStep s op = some s') :
    ∃ q' done' rest' hdr', Inv s' q' done' rest' hdr' := by
  have hsnd := h.sender
  have hnext := hstep
  revert hnext
  fun_cases genpoolStep s op with
  | case1 p hs =>
    rintro ⟨⟩
    exact ⟨_, _, _, _, h.send hs hlen⟩
  | case3 | case5 =>
    rintro ⟨⟩
    exact ⟨_, _, _, _, h⟩
  | case4 p hs hav =>
    rintro ⟨⟩
    exact ⟨_, _, _, _, h.setSender (by rw [hs]; rfl) (by rw [hs]; rfl) (Nat.le_of_not_lt hav)⟩
  | case6 p offset hs txAvail left hav =>
    rintro ⟨⟩
    rw [hs] at hsnd
    change offset < p.length at hsnd
    refine ⟨_, _, _, _, h.setSender (by rw [hs]; rfl) (by rw [hs]; rfl) ?_⟩
    have htx : txAvail = s.pipe.txAvail := rfl
    rw [Sender.Ok]
    split_ifs <;> omega
  | case8 count p hs hcnt =>
    rintro ⟨⟩
    rw [hs] at hsnd
    exact ⟨_, _, _, _, h.copy (headerByte p) (hcnt.trans hsnd)⟩
  | case10 count p offset chunk hs hcnt =>
    rintro ⟨⟩
    rw [hs] at hsnd
    exact ⟨_, _, _, _, h.copy _ (hcnt.trans hsnd.2.2)⟩
  | case13 p hs =>
    rintro ⟨⟩
    exact ⟨_, _, _, _, h.writeHeader hs⟩
  | case14 p offset chunk hs | case15 p offset chunk hs =>
    obtain ⟨s'', hs'', q', hinv⟩ := h.txWrite hs
    obtain rfl := some.inj (hs''.symm.trans hstep)
    exact fun _ => ⟨_, _, _, _, hinv⟩
  | case17 hr =>
    rintro ⟨⟩
    have hrd := h.reader
    rw [hr] at hrd
    exact ⟨_, _, _, _, h.setReader hrd⟩
  | case19 =>
    intro hread
    have hact : s.reader ≠ .idle := by
      intro hidle
      rw [qrtrGenpoolRead, hidle] at hread
      cases hread
    obtain ⟨s'', q', done', rest', hdr', hs'', hinv, -⟩ := h.reader_step hact hseen
    obtain rfl := some.inj (hs''.symm.trans hread)
    exact ⟨_, _, _, _, hinv⟩
  | _ => exact nofun

theorem posted_prefix : s.posted <+: s.sent.map Packet.data := by
  have hsnd := h.sender
  apply h.transit.posted_prefix
  cases hs : s.sender with
  | idle => exact .inl rfl
  | header p | writingHeader p => exact .inr ⟨frame_ne_nil p, p, rfl⟩
  | sending p offset =>
    rw [hs] at hsnd
    exact .inr ⟨slice_ne_nil (Nat.sub_pos_of_lt hsnd), p, rfl⟩
  | writing p offset chunk =>
    rw [hs] at hsnd
    obtain ⟨hpos, hle, -⟩ := hsnd
    exact .inr ⟨slice_ne_nil (by omega), p, rfl⟩

end

theorem posted_eq (h : Inv s [] done rest hdr) (hidle : s.sender = .idle)
    (hrd : s.reader = .idle ∨ s.reader = .loop) : s.posted = s.sent.map Packet.data := by
  have htr := h.transit
  rw [hidle] at htr
  apply htr.posted_all frame_ne_nil
  intro hrecv
  have hoff : s.ring.offset ≠ 0 := by
    intro hzero
    have hhdr := h.reader
    obtain hr | hr := hrd <;>
    · rw [hr] at hhdr
      rw [hhdr hzero, received, hzero] at hrecv
      exact hrecv rfl
  obtain ⟨p, tail, hrest, -, hlt, hhdr⟩ := h.collecting hoff
  refine ⟨p, tail, hrest, ?_⟩
  rw [frame, hhdr, length_append, length_append, received, slice_length, p.data_length]
  omega

theorem dataSeen (h : Inv s q done rest hdr) (hidle : s.sender = .idle) : DataSeen s .reader := by
  rw [DataSeen]
  cases hr : s.reader with
  | sized pktLen =>
    have hrd := h.reader
    have htr := h.transit
    rw [hr] at hrd
    obtain ⟨hoff, p, tail, rfl, rfl, rfl⟩ := hrd
    rw [hidle, received, hoff] at htr
    have hbs := htr.bytes
    rw [append_assoc] at hbs
    have hq := append_cancel_left hbs
    rw [Sender.unsent, append_nil] at hq
    rw [qrtrGenpoolRxAvail, h.carries.rxAvail_eq, length_pos_iff, hq]
    exact append_ne_nil_of_left_ne_nil p.data_ne_nil _
  | _ => trivial

end Inv

structure Delivers (s : Sys) : Prop where
  posted : s.posted <+: s.sent.map Packet.data
  all : s.sender = .idle → s.reader = .idle → qrtrGenpoolRxAvail s.pipe = 0 → s.posted = s.sent.map Packet.data
  drains : s.sender = .idle → ∃ ops s', (∀ op ∈ ops, op = .xferIrq ∨ op = .reader) ∧
    run genpoolStep s ops = some s' ∧ s'.posted = s.sent.map Packet.data

theorem Inv.delivers {s : Sys} (h : Inv s q done rest hdr) : Delivers s := by
  refine ⟨h.posted_prefix, ?_, ?_⟩
  · intro hidle hrd hemp
    rw [qrtrGenpoolRxAvail, h.carries.rxAvail_eq] at hemp
    obtain rfl := length_eq_zero_iff.mp hemp
    exact h.posted_eq hidle (.inl hrd)
  · intro hidle
    obtain ⟨ops, s', hops, hrun, ⟨⟨q', done', rest', hdr', hinv, hstop⟩, hsnd, hsent⟩, hdone⟩ :=
      @run_woken _ _ genpoolStep s .xferIrq .reader
        (fun t => (∃ q done rest hdr, Inv t q done rest hdr ∧ (t.reader = .idle → q = [])) ∧
          t.sender = .idle ∧ t.sent = s.sent)
        (fun t => t.reader = .idle) Sys.remaining (by
          rintro t ⟨⟨q, done, rest, hdr, hinv, -⟩, hsnd, hsent⟩ hact
          obtain ⟨t', q', done', rest', hdr', hstep, hinv', hsnd', hsent', hstop, hlt⟩ :=
            hinv.reader_step hact (hinv.dataSeen hsnd)
          exact ⟨t', hstep, ⟨⟨q', done', rest', hdr', hinv', hstop⟩, hsnd'.trans hsnd,
            hsent'.trans hsent⟩, by rwa [hinv'.remaining_eq, hinv.remaining_eq]⟩)
        (fun hr => ⟨⟨q, done, rest, hdr, h, fun hr' => absurd hr' hr⟩, hidle, rfl⟩) (fun hr => by
          have hok := h.reader
          rw [hr] at hok
          refine ⟨{ s with reader := .loop }, by rw [genpoolStep, hr], ?_⟩
          exact ⟨⟨q, done, rest, hdr, h.setReader hok, nofun⟩, hidle, rfl⟩)
    obtain rfl := hstop hdone
    exact ⟨ops, s', hops, hrun, by rw [hinv.posted_eq hsnd (.inl hdone), hsent]⟩

/-- Every interleaving of sends and the reader delivers the packets as they were sent. -/
theorem genpool_delivers_packets_sent (fifo : ℕ → UInt8) {ops : List Op} {s : Sys}
    (hmeets : Meets genpoolStep (fun s op => LengthFits op ∧ DataSeen s op) (.init fifo) ops)
    (hrun : run genpoolStep (.init fifo) ops = some s) : Delivers s := by
  obtain ⟨q, done, rest, hdr, hinv⟩ : ∃ q done rest hdr, Inv s q done rest hdr := by
    refine run_inv (I := fun s => ∃ q done rest hdr, Inv s q done rest hdr) ?_ ?_ hmeets hrun
    · rintro s op s' ⟨q, done, rest, hdr, hinv⟩ ⟨hlen, hseen⟩ hstep
      exact hinv.step hlen hseen hstep
    · exact ⟨[], [], [], [], .init fifo⟩
  exact hinv.delivers

def headerOnlyPacket : Packet := ⟨2, 1, ⟨1, 5⟩, ⟨2, 6⟩, false, 0, fun _ => 0⟩

def deliveredTrace : List Op :=
  [.send headerOnlyPacket, .txAvail, .copy 2, .txWrite, .txAvail, .txWrite, .xferIrq, .reader,
    .reader, .reader, .reader]

theorem genpool_delivers_headerOnlyPacket :
    ∃ s, run genpoolStep (.init fun _ => 0) deliveredTrace = some s ∧ s.posted = [headerOnlyPacket.data] :=
  ⟨_, (some_get (by decide +kernel)).symm,
    (genpool_delivers_packets_sent (fun _ => 0) (by decide +kernel)
      (some_get (by decide +kernel)).symm).all rfl rfl (by decide +kernel)⟩

def headerAloneTrace : List Op :=
  [.send headerOnlyPacket, .txAvail, .txWrite, .xferIrq, .reader, .reader, .reader, .reader,
    .txAvail, .txWrite, .xferIrq, .reader, .reader, .reader]

def longestPacket : Packet := ⟨2, 1, ⟨1, 5⟩, ⟨2, 6⟩, false, 65501, fun _ => 0⟩

def truncatedLengthTrace : List Op :=
  [.send longestPacket, .txAvail, .txWrite, .txAvail, .txWrite, .xferIrq, .reader, .reader, .reader]

/-- In both traces the peer gets a packet that nobody sent: one byte of a packet whose header was forgotten,
and an empty packet. -/
theorem genpool_posts_packet_not_sent :
    ((∀ op ∈ headerAloneTrace, LengthFits op) ∧
      ∃ s, run genpoolStep (.init fun _ => 0) headerAloneTrace = some s ∧ s.posted = [[1]] ∧
        s.sent = [headerOnlyPacket]) ∧
    longestPacket.size ≤ 65535 ∧
      Meets genpoolStep DataSeen (.init fun _ => 0) truncatedLengthTrace ∧
      ∃ s, run genpoolStep (.init fun _ => 0) truncatedLengthTrace = some s ∧ s.posted = [[]] ∧ s.sent = [] :=
  ⟨⟨by decide, _, (some_get (by decide +kernel)).symm, by decide +kernel, rfl⟩, by decide,
    by decide +kernel, _, (some_get (by decide +kernel)).symm, by decide +kernel, rfl⟩

end VendorKernel.Qrtr.Genpool

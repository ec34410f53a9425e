import VendorKernel.Glink.Pipe
import VendorKernel.Lib.LittleEndian

/-! The transmit path of GLINK. Callers of `qcom_glink_tx` share a FIFO, a lock and the flag that a
READ_NOTIF command is in the FIFO. The lock is released while a caller waits for space; READ_NOTIF is written
without looking at the space. -/
namespace VendorKernel.Glink

open LittleEndian Machine RingBuffer Function

def GLINK_CMD_READ_NOTIF : ℕ := 13

def glinkMsg (cmd param1 param2 : ℕ) : ℕ → UInt8 := fun i =>
  if i < 2 then leByte cmd i else if i < 4 then leByte param1 (i - 2) else leByte param2 (i - 4)

def readNotif : Message := ⟨glinkMsg GLINK_CMD_READ_NOTIF 0 0, 8, fun _ => 0, 0⟩

inductive TxRet where
  | ok
  | einval
  | eio
  | eagain
deriving DecidableEq

/-- Where a call of `qcom_glink_tx` is: at the lock, its loop, in the wait, after it, or at the write. -/
inductive TxCaller where
  | idle
  | entering (m : Message) (wait : Bool)
  | testing (m : Message) (wait : Bool)
  | waiting (m : Message)
  | woken (m : Message)
  | writing (m : Message)
  | returned (ret : TxRet)

/-- The transmit side of `struct qcom_glink`, its callers and the reader. The last two fields are those of
`Link`. -/
structure Tx where
  pipe : Pipe
  sentReadNotify : Bool
  abortTx : Bool
  txLock : Option ℕ
  caller : ℕ → TxCaller
  frames : List (List UInt8)
  taken : List UInt8

inductive TxOp where
  | call (i : ℕ) (m : Message) (wait : Bool)
  | proceed (i : ℕ)
  | abort
  | rxAdvance (count : ℕ)

namespace Tx

def start (L : ℕ) (mem : ℕ → UInt8) : Tx :=
  { pipe := ⟨L, 0, 0, mem⟩, sentReadNotify := false, abortTx := false, txLock := none,
    caller := fun _ => .idle, frames := [], taken := [] }

def move (s : Tx) (i : ℕ) (c : TxCaller) (lock : Option ℕ) : Tx :=
  { s with caller := update s.caller i c, txLock := lock }

def qcomGlinkTxWrite (s : Tx) (m : Message) : Tx :=
  let pipe := glinkSmemTxWrite s.pipe m.hdr m.hlen m.data m.dlen
  { s with pipe := pipe, frames := s.frames ++ [window s.pipe.length pipe.fifo s.pipe.head (align8 m.size)] }

def qcomGlinkSendReadNotify (s : Tx) : Tx := s.qcomGlinkTxWrite readNotif

def call (s : Tx) (i : ℕ) (m : Message) (wait : Bool) : Tx :=
  if s.pipe.length ≤ u32 m.size then s.move i (.returned .einval) s.txLock
  else s.move i (.entering m wait) s.txLock

def test (s : Tx) (i : ℕ) (m : Message) (wait : Bool) : Tx :=
  if glinkSmemTxAvail s.pipe < u32 m.size then
    if wait = false then s.move i (.returned .eagain) none
    else if s.abortTx then s.move i (.returned .eio) none
    else
      let s := if s.sentReadNotify then s else { s with sentReadNotify := true }.qcomGlinkSendReadNotify
      s.move i (.waiting m) none
  else s.move i (.writing m) s.txLock

def proceed (s : Tx) (i : ℕ) : Option Tx :=
  match s.caller i with
  | .idle | .returned _ => none
  | .entering m wait =>
    if s.txLock = none then
      if s.abortTx then some (s.move i (.returned .eio) none)
      else some (s.move i (.testing m wait) (some i))
    else none
  | .testing m wait => some (s.test i m wait)
  | .waiting m => if s.txLock = none then some (s.move i (.woken m) (some i)) else none
  | .woken m =>
    let s := if u32 m.size ≤ glinkSmemTxAvail s.pipe then { s with sentReadNotify := false } else s
    some (s.move i (.testing m true) s.txLock)
  | .writing m => some ((s.qcomGlinkTxWrite m).move i (.returned .ok) none)

def step (s : Tx) : TxOp → Option Tx
  | .call i m wait =>
    match s.caller i with
    | .idle | .returned _ => some (s.call i m wait)
    | _ => none
  | .proceed i => s.proceed i
  | .abort => some { s with abortTx := true }
  | .rxAdvance count =>
    some { s with
      pipe := glinkSmemRxAdvance s.pipe count
      taken := s.taken ++ slice (glinkSmemRxPeek s.pipe (fun _ => 0) 0 count) 0 count }

/-- The reader passes only what it can read, in multiples of eight bytes, and no message has a
length that does not fit `tlen`. -/
def Orderly (s : Tx) : TxOp → Prop
  | .call _ m _ => m.size < 2 ^ 32
  | .rxAdvance count => 8 ∣ count ∧ count ≤ glinkSmemRxAvail s.pipe
  | .proceed _ | .abort => True

instance (s : Tx) (op : TxOp) : Decidable (s.Orderly op) := by
  cases op <;> unfold Tx.Orderly <;> infer_instance

/-- There is room for a READ_NOTIF that has not been sent, and no write has touched unread bytes. -/
structure Reserved (s : Tx) : Prop where
  full_reserve : 8 ≤ s.pipe.free
  blocked_reserve : s.sentReadNotify = false → 16 ≤ s.pipe.free
  unread : s.frames.flatten = s.taken ++ window s.pipe.length s.pipe.fifo s.pipe.tail (glinkSmemRxAvail s.pipe)
  empty : s.pipe.head = s.pipe.tail ↔ s.taken = s.frames.flatten

end Tx

variable {c : TxCaller} {length used used' : ℕ}

def TxCaller.Holding : TxCaller → Prop
  | .testing _ _ | .woken _ | .writing _ => True
  | .idle | .entering _ _ | .waiting _ | .returned _ => False

/-- What a caller knows of its message when `used` bytes of the FIFO are unread. -/
def TxCaller.Knows (length used : ℕ) : TxCaller → Prop
  | .idle | .returned _ => True
  | .entering m _ | .testing m _ => m.size < 2 ^ 32
  | .waiting m | .woken m => 0 < m.size ∧ m.size < 2 ^ 32
  | .writing m => m.size = 0 ∨ used + align8 m.size + 16 ≤ length

theorem TxCaller.Knows.mono (h : c.Knows length used) (hle : used' ≤ used) : c.Knows length used' := by
  cases c with
  | writing m =>
    simp only [Knows] at h ⊢
    omega
  | _ => exact h

theorem TxCaller.Knows.of_not_holding (h : c.Knows length used) (hc : ¬c.Holding) : c.Knows length used' := by
  cases c with
  | writing m => exact absurd trivial hc
  | _ => exact h

namespace Tx

structure Inv (s : Tx) (q : List UInt8) : Prop where
  carries : Carries s.pipe q
  reserve : s.sentReadNotify = false → q.length + 16 ≤ s.pipe.length
  locked : ∀ i, (s.caller i).Holding → s.txLock = some i
  knows : ∀ i, (s.caller i).Knows s.pipe.length q.length
  stream : s.frames.flatten = s.taken ++ q

namespace Inv

variable {s s' : Tx} {q : List UInt8} {i L n : ℕ} {m : Message} {wait : Bool}

theorem start (hmin : 16 ≤ L) (hle : L ≤ 2 ^ 31) (hal : 8 ∣ L) (mem : ℕ → UInt8) : (Tx.start L mem).Inv [] := by
  have hpos : 0 < L := by omega
  refine ⟨⟨Holds.empty hpos, hle, hal, dvd_zero 8, dvd_zero 8⟩, ?_, ?_, ?_, rfl⟩
  · exact fun _ => by simpa [Tx.start] using hmin
  · exact fun _ h => h.elim
  · exact fun _ => trivial

section
variable (h : s.Inv q)
include h

variable {lock : Option ℕ}

theorem reserved : s.Reserved := by
  have hc := h.carries
  have hroom := hc.room
  refine ⟨?_, ?_, ?_, ?_⟩
  · rw [hc.free_eq]
    omega
  · intro hflag
    have := h.reserve hflag
    rw [hc.free_eq]
    omega
  · rw [hc.rxAvail_eq, hc.holds.data, h.stream]
  · rw [← hc.holds.eq_nil_iff, h.stream]
    simp

theorem move (hoth : ∀ j, j ≠ i → (s.caller j).Holding → lock = some j)
    (hkn : c.Knows s.pipe.length q.length) (hhold : c.Holding → lock = some i) :
    (s.move i c lock).Inv q := by
  refine ⟨h.carries, h.reserve, ?_, ?_, h.stream⟩
  · intro j hj
    by_cases hij : j = i
    · subst hij
      exact hhold (by simpa [Tx.move] using hj)
    · exact hoth j hij (by simpa [Tx.move, hij] using hj)
  · intro j
    by_cases hij : j = i
    · subst hij
      simpa [Tx.move] using hkn
    · simpa [Tx.move, hij] using h.knows j

theorem others (hlock : s.txLock = none ∨ s.txLock = some i) : ∀ j, j ≠ i → (s.caller j).Holding → lock = some j := by
  intro j hj hhold
  rw [h.locked j hhold] at hlock
  simp [hj] at hlock

/-- A write leaves room for READ_NOTIF unless it was sent. -/
theorem write (flag : Bool) (hlock : s.txLock = some i)
    (hroom : q.length + align8 m.size + 8 ≤ s.pipe.length)
    (hflag : flag = false → q.length + align8 m.size + 16 ≤ s.pipe.length) (hc : ¬c.Holding)
    (hkn : c.Knows s.pipe.length q.length) :
    ∃ q', ((({ s with sentReadNotify := flag } : Tx).qcomGlinkTxWrite m).move i c none).Inv q' := by
  obtain ⟨frame, hfr, -, hcar⟩ := h.carries.txWrite m.hdr m.data hroom
  have hlth : (glinkSmemTxWrite s.pipe m.hdr m.hlen m.data m.dlen).length = s.pipe.length :=
    glinkSmemTxWrite_length _ _ _ _ _
  have hused : (q ++ frame).length = q.length + align8 m.size := by
    rw [hfr, List.length_append, window_length]
    rfl
  have halo : ∀ j, j ≠ i → (s.caller j).Holding → (none : Option ℕ) = some j :=
    h.others (.inr hlock)
  refine ⟨q ++ frame, hcar, ?_, ?_, ?_, ?_⟩
  · intro hf
    change _ ≤ (glinkSmemTxWrite s.pipe m.hdr m.hlen m.data m.dlen).length
    rw [hused, hlth]
    exact hflag hf
  · intro j hj
    by_cases hij : j = i
    · subst hij
      exact absurd (by simpa [Tx.move] using hj) hc
    · exact halo j hij (by simpa [Tx.move, qcomGlinkTxWrite, hij] using hj)
  · intro j
    change (update s.caller i c j).Knows (glinkSmemTxWrite s.pipe m.hdr m.hlen m.data m.dlen).length _
    rw [hlth]
    by_cases hij : j = i
    · subst hij
      rw [update_self]
      exact hkn.of_not_holding hc
    · rw [update_of_ne hij]
      refine (h.knows j).of_not_holding fun hhold => ?_
      cases halo j hij hhold
  · change (s.frames ++ [window s.pipe.length _ s.pipe.head (align8 (m.hlen + m.dlen))]).flatten = _
    rw [← hfr]
    simp [h.stream, Tx.move, qcomGlinkTxWrite]

theorem room_of_writing (hi : s.caller i = .writing m) : q.length + align8 m.size + 8 ≤ s.pipe.length := by
  have hroom := h.carries.room
  have hkn : m.size = 0 ∨ q.length + align8 m.size + 16 ≤ s.pipe.length := by
    simpa [hi, TxCaller.Knows] using h.knows i
  obtain hzero | hfits := hkn
  · rw [hzero]
    exact hroom
  · omega

theorem reserve_of_writing (hi : s.caller i = .writing m) (hflag : s.sentReadNotify = false) :
    q.length + align8 m.size + 16 ≤ s.pipe.length := by
  have hkn : m.size = 0 ∨ q.length + align8 m.size + 16 ≤ s.pipe.length := by
    simpa [hi, TxCaller.Knows] using h.knows i
  obtain hzero | hfits := hkn
  · rw [hzero]
    exact h.reserve hflag
  · exact hfits

theorem call (hsize : m.size < 2 ^ 32) : (s.call i m wait).Inv q := by
  have hoth : ∀ j, j ≠ i → (s.caller j).Holding → s.txLock = some j := fun j _ => h.locked j
  unfold Tx.call
  split_ifs
  · exact h.move hoth trivial False.elim
  · exact h.move hoth hsize False.elim

/-- One round of the loop: a READ_NOTIF takes eight of the sixteen bytes that are free as long as
the flag is not set. -/
theorem test (hi : s.caller i = .testing m wait) : ∃ q', (s.test i m wait).Inv q' := by
  have hlock : s.txLock = some i := h.locked i (by simp [hi, TxCaller.Holding])
  have hsize : m.size < 2 ^ 32 := by simpa [hi, TxCaller.Knows] using h.knows i
  rw [Tx.test, u32_of_lt hsize]
  split_ifs with hav hwait hab hflag
  · exact ⟨q, h.move (h.others (.inr hlock)) trivial False.elim⟩
  · exact ⟨q, h.move (h.others (.inr hlock)) trivial False.elim⟩
  · exact ⟨q, h.move (h.others (.inr hlock)) ⟨by omega, hsize⟩ False.elim⟩
  · have hreserve := h.reserve (by simpa using hflag)
    exact h.write true hlock (by change q.length + 8 + 8 ≤ _; omega) nofun id ⟨by omega, hsize⟩
  · refine ⟨q, h.move (h.others (.inr hlock)) ?_ fun _ => hlock⟩
    obtain hzero | hpos := m.size.eq_zero_or_pos
    · exact .inl hzero
    · exact .inr (h.carries.fits (by omega) hpos)

theorem woken (hi : s.caller i = .woken m) (hs : s.proceed i = some s') : s'.Inv q := by
  have hlock : s.txLock = some i := h.locked i (by simp [hi, TxCaller.Holding])
  obtain ⟨hpos, hsize⟩ : 0 < m.size ∧ m.size < 2 ^ 32 := by
    simpa [hi, TxCaller.Knows] using h.knows i
  simp only [proceed, hi, u32_of_lt hsize] at hs
  cases hs
  split_ifs with hav
  · have hclr : ({ s with sentReadNotify := false } : Tx).Inv q := by
      refine { h with reserve := fun _ => ?_ }
      have hfits := h.carries.fits hav hpos
      have : q.length + 16 ≤ s.pipe.length := by omega
      exact this
    exact hclr.move (hclr.others (.inr hlock)) hsize fun _ => hlock
  · exact h.move (h.others (.inr hlock)) hsize fun _ => hlock

theorem proceed (hs : s.proceed i = some s') : ∃ q', s'.Inv q' := by
  cases hi : s.caller i with
  | idle | returned => simp [Tx.proceed, hi] at hs
  | entering m wait =>
    have hsize : m.size < 2 ^ 32 := by simpa [hi, TxCaller.Knows] using h.knows i
    simp only [Tx.proceed, hi] at hs
    split_ifs at hs with hlock hab
    · cases hs
      exact ⟨q, h.move (h.others (.inl hlock)) trivial False.elim⟩
    · cases hs
      exact ⟨q, h.move (h.others (.inl hlock)) hsize fun _ => rfl⟩
  | testing m wait =>
    simp only [Tx.proceed, hi] at hs
    cases hs
    exact h.test hi
  | waiting m =>
    have hkn : 0 < m.size ∧ m.size < 2 ^ 32 := by simpa [hi, TxCaller.Knows] using h.knows i
    simp only [Tx.proceed, hi] at hs
    split_ifs at hs with hlock
    cases hs
    exact ⟨q, h.move (h.others (.inl hlock)) hkn fun _ => rfl⟩
  | woken m => exact ⟨q, h.woken hi hs⟩
  | writing m =>
    have hlock : s.txLock = some i := h.locked i (by simp [hi, TxCaller.Holding])
    simp only [Tx.proceed, hi] at hs
    cases hs
    exact h.write s.sentReadNotify hlock (h.room_of_writing hi) (h.reserve_of_writing hi) id trivial

theorem rxAdvance (hal : 8 ∣ n) (hn : n ≤ glinkSmemRxAvail s.pipe) (hs : s.step (.rxAdvance n) = some s') :
    s'.Inv (q.drop n) := by
  rw [h.carries.rxAvail_eq] at hn
  cases hs
  have hdrop : (q.drop n).length ≤ q.length := by simp
  refine ⟨h.carries.rxAdvance hn hal, ?_, h.locked, fun i => (h.knows i).mono hdrop, ?_⟩
  · intro hflag
    exact (Nat.add_le_add_right hdrop 16).trans (h.reserve hflag)
  · rw [h.carries.rxPeek _ (by omega)]
    simp [h.stream]

theorem step {op : TxOp} (hok : s.Orderly op) (hs : s.step op = some s') : ∃ q', s'.Inv q' := by
  cases op with
  | call i m wait =>
    simp only [Tx.step] at hs
    split at hs
    case h_3 => cases hs
    all_goals
      cases hs
      exact ⟨q, h.call hok⟩
  | proceed i => exact h.proceed hs
  | abort =>
    cases hs
    exact ⟨q, { h with }⟩
  | rxAdvance n => exact ⟨_, h.rxAdvance hok.1 hok.2 hs⟩

end

end Inv

end Tx

/-- In a FIFO of 16 to `2 ^ 31` bytes the reserve for READ_NOTIF is there whenever it may be sent,
whatever the callers and the reader do. -/
theorem glink_tx_reserved {L : ℕ} (hmin : 16 ≤ L) (hle : L ≤ 2 ^ 31) (haligned : 8 ∣ L)
    (mem : ℕ → UInt8) (ops : List TxOp) (s : Tx)
    (hok : Meets Tx.step Tx.Orderly (Tx.start L mem) ops)
    (hrun : run Tx.step (Tx.start L mem) ops = some s) : s.Reserved := by
  have hstep : ∀ (s : Tx) op s', (∃ q, s.Inv q) → s.Orderly op → s.step op = some s' → ∃ q, s'.Inv q := by
    rintro s op s' ⟨q, hq⟩ hop hs
    exact hq.step hop hs
  obtain ⟨q, hq⟩ := run_inv hstep ⟨[], Tx.Inv.start hmin hle haligned mem⟩ hok hrun
  exact hq.reserved

def blockedCaller : List TxOp :=
  let m (n : ℕ) : Message := ⟨fun _ => 0, 8, fun _ => 1, n⟩
  [.call 0 (m 40) true, .proceed 0, .proceed 0, .proceed 0,
    .call 1 (m 8) true, .proceed 1, .proceed 1, .rxAdvance 48, .proceed 1, .proceed 1, .proceed 1,
    .proceed 1]

/-- Caller 0 fills a FIFO of 64 bytes; caller 1 has to wait, sends READ_NOTIF and, when the reader
has moved on, its message. -/
theorem glink_tx_reserved_blocked :
    (run Tx.step (Tx.start 64 fun _ => 0) blockedCaller).map
        (fun s => (s.pipe.free, s.sentReadNotify, s.frames.length)) = some (40, false, 3) ∧
      ∀ s, run Tx.step (Tx.start 64 fun _ => 0) blockedCaller = some s → s.Reserved :=
  ⟨by decide, fun s hs => glink_tx_reserved (by decide) (by decide) (by decide) _ blockedCaller s
    (by decide) hs⟩

def oddReader : List TxOp :=
  let m (n : ℕ) : Message := ⟨fun _ => 0, 0, fun _ => 1, n⟩
  [.call 0 (m 40) false, .proceed 0, .proceed 0, .proceed 0, .rxAdvance 1,
    .call 0 (m 9) true, .proceed 0, .proceed 0, .proceed 0, .call 0 (m 9) true, .proceed 0,
    .proceed 0]

/-- After an odd reader a padded message leaves nine bytes, and READ_NOTIF one. A FIFO of eight
bytes never has the reserve. -/
theorem glink_tx_reserve_lost :
    (run Tx.step (Tx.start 64 fun _ => 0) (oddReader.take 9)).map
        (fun s => (s.pipe.free, s.sentReadNotify)) = some (9, false) ∧
      (run Tx.step (Tx.start 64 fun _ => 0) oddReader).map
        (fun s => (s.pipe.free, s.sentReadNotify)) = some (1, true) ∧
      ¬(Tx.start 8 fun _ => 0).Reserved := by
  refine ⟨by decide, by decide, fun h => ?_⟩
  exact absurd (h.blocked_reserve rfl) (by decide)

end VendorKernel.Glink

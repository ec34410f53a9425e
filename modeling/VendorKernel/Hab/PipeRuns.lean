import VendorKernel.Hab.Pipe
import VendorKernel.Lib.Machine

/-! Runs of reads and writes on any number of HAB pipes, which share the flag `signature_mismatch`. -/
namespace VendorKernel.Hab

open Machine RingBuffer List Nat Option Function
open UInt32 hiding size

structure Pipe where
  bufSize : UInt32
  tx : TxInfo
  sh : SharedBuf
  rxIndex : UInt32
  /-- Not in the source: the bytes of all writes, and those that were committed. -/
  written : List UInt8
  committed : List UInt8
  /-- Not in the source: the bytes that reads have returned. -/
  delivered : List UInt8
  /-- Not in the source: what each read has returned, and what was in its buffer then. -/
  results : List (UInt32 × Option (List UInt8))
  /-- Not in the source: what the headers read on this pipe have left in `signature_mismatch`. -/
  own : Bool

inductive PipeOp where
  | write (p : Option (ℕ → UInt8)) (numBytes : UInt32)
  | commit
  | read (p : Option (ℕ → UInt8)) (size : UInt32) (clear : Bool)
  | tamper (sh : SharedBuf) (tx : TxInfo) (rxIndex : UInt32)

namespace Pipe

def start (bufSize : UInt32) (mem : ℕ → UInt8) : Pipe :=
  ⟨bufSize, ⟨0, 0⟩, ⟨0, 0, bufSize, mem⟩, 0, [], [], [], [], false⟩

def avail (q : Pipe) : UInt32 := q.sh.wrCount - q.sh.rdCount

def read (q : Pipe) (mismatch : Bool) (p : Option (ℕ → UInt8)) (size : UInt32) (clear : Bool) : ReadResult :=
  habPipeRead mismatch (fun _ => q.sh.data) q.rxIndex q.sh q.bufSize p size clear

/-- The bytes that a read returns: none if its result says that the signature is wrong. -/
def returned (mismatch : Bool) (r : ReadResult) : List UInt8 :=
  match r.p with
  | none => []
  | some p => if r.checked.getD mismatch then [] else slice p 0 r.ret.toNat

def step (q : Pipe) (mismatch : Bool) : PipeOp → Pipe
  | .write p numBytes =>
    let r := habPipeWrite q.tx q.sh q.bufSize p numBytes
    { q with
      tx := r.tx
      sh := { q.sh with data := r.data }
      written := q.written ++ (p.elim [] fun p => slice p 0 r.ret.toNat) }
  | .commit => { q with sh := habPipeWriteCommit q.tx q.sh, committed := q.written }
  | .read p size clear =>
    let r := q.read mismatch p size clear
    { q with
      rxIndex := r.index
      sh := { q.sh with rdCount := r.rdCount }
      delivered := q.delivered ++ returned mismatch r
      results := q.results ++ [(r.ret, r.p.map fun p => slice p 0 size.toNat)]
      own := r.checked.getD q.own }
  | .tamper sh tx rxIndex => { q with sh := sh, tx := tx, rxIndex := rxIndex }

/-- What the operation sets `signature_mismatch` to: only a header that is read sets it. -/
def sets (q : Pipe) (mismatch : Bool) : PipeOp → Option Bool
  | .read p size clear => (q.read mismatch p size clear).checked
  | .write .. | .commit | .tamper .. => none

def HasHeader (q : Pipe) : Prop :=
  q.rxIndex < q.bufSize ∧ 20 ≤ q.bufSize.toNat ∧ 20 ≤ q.avail.toNat ∧
    window q.bufSize.toNat q.sh.data (q.rxIndex.toNat + 12) 4 = signature

instance (q : Pipe) : Decidable q.HasHeader := inferInstanceAs (Decidable (_ ∧ _))

end Pipe

/-- The pipes of a system and the static `signature_mismatch` of `hab_pipe_read`. -/
structure Pipes where
  pipe : ℕ → Pipe
  mismatch : Bool
  /-- Not in the source: the pipes on which a header was read, the last one first, and whether it was there. -/
  heads : List (ℕ × Bool)

namespace Pipes

def start (bufSize : ℕ → UInt32) (mem : ℕ → ℕ → UInt8) : Pipes :=
  ⟨fun i => .start (bufSize i) (mem i), false, []⟩

def step (s : Pipes) (op : ℕ × PipeOp) : Option Pipes :=
  let q := s.pipe op.1
  some {
    pipe := update s.pipe op.1 (q.step s.mismatch op.2)
    mismatch := (q.sets s.mismatch op.2).getD s.mismatch
    heads := if (q.sets s.mismatch op.2).isSome then (op.1, decide q.HasHeader) :: s.heads else s.heads }

/-- The peers are honest: the shared memory is left alone, and headers are read where they are. -/
def Honest (s : Pipes) (op : ℕ × PipeOp) : Prop :=
  match op.2 with
  | .tamper .. => False
  | .read _ size clear =>
    clear = true ∧ size = headerSize → (s.pipe op.1).avail = 0 ∨ (s.pipe op.1).HasHeader
  | .write .. | .commit => True

/-- The headers that were read since the last one on pipe `j`, which is the last of them. -/
def since (j : ℕ) : List (ℕ × Bool) → List (ℕ × Bool)
  | [] => []
  | h :: hs => if h.1 = j then [h] else h :: since j hs

/-- When pipe `j` is read, the last header that was read is one of its own, or no corrupt header has been read
on any pipe since then. It does not matter to a read that finds nothing or a header. -/
def Undisturbed (j : ℕ) (s : Pipes) (op : ℕ × PipeOp) : Prop :=
  op.1 = j →
    match op.2 with
    | .read _ size clear =>
      (s.pipe j).avail = 0 ∨ (clear = true ∧ size = headerSize ∧ (s.pipe j).HasHeader) ∨
        (∃ h ∈ s.heads.head?, h.1 = j) ∨ ∀ h ∈ since j s.heads, h.2 = true
    | .write .. | .commit | .tamper .. => True

instance (s : Pipes) (op : ℕ × PipeOp) : Decidable (Honest s op) := by
  unfold Honest
  split <;> infer_instance

instance (j : ℕ) (s : Pipes) (op : ℕ × PipeOp) : Decidable (Undisturbed j s op) := by
  unfold Undisturbed
  split <;> infer_instance

end Pipes

section
variable {bufSize index count : UInt32} {src : ℕ → UInt8} {r : WriteResult}

theorem memcpy_zero (mem : ℕ → UInt8) (a : ℕ) : memcpy mem a src 0 = mem :=
  funext fun i => memcpy_outside mem src (by omega)

theorem copyIn_of_zero (hzero : count = 0) : copyIn bufSize src count r = r := by
  subst hzero
  exact if_neg (lt_irrefl 0)

theorem copyIn_data : (copyIn bufSize src count r).data = memcpy r.data r.tx.index.toNat src count.toNat := by
  by_cases h : 0 < count
  · rw [copyIn, if_pos h]
  · obtain rfl : count = 0 := by simpa using h
    exact (memcpy_zero ..).symm

theorem copyIn_wrCount : (copyIn bufSize src count r).tx.wrCount = r.tx.wrCount + count := by
  by_cases h : 0 < count
  · rw [copyIn, if_pos h]
  · obtain rfl : count = 0 := by simpa using h
    rw [copyIn_of_zero rfl, UInt32.add_zero]

theorem copyIn_ret : (copyIn bufSize src count r).ret = r.ret := by
  unfold copyIn
  split <;> rfl

theorem firstPart_add : firstPart bufSize index count + (count - firstPart bufSize index count) = count := by
  rw [UInt32.add_comm, UInt32.sub_add_cancel]

section
variable (hidx : index < bufSize) (hfit : count.toNat ≤ bufSize.toNat - index.toNat)
include hidx hfit

theorem firstPart_of_fit : firstPart bufSize index count = count := by
  apply UInt32.toNat_inj.mp
  rw [firstPart_toNat (UInt32.le_of_lt hidx), min_eq_left hfit]

theorem advance_of_fit : (advance bufSize index count).toNat = (index.toNat + count.toNat) % bufSize.toNat := by
  rw [lt_iff_toNat_lt] at hidx
  by_cases hpos : 0 < count.toNat
  · rw [advance_toNat (by omega) hpos]
    split_ifs with hend
    · rw [hend, mod_self]
    · rw [mod_eq_of_lt (by omega)]
  · rw [advance, if_neg (by rwa [lt_iff_toNat_lt]), mod_eq_of_lt (by omega)]
    omega

end

theorem second_mod {i n L : ℕ} (hi : i < L) (hn : n ≤ L) (hwrap : L - i < n) : n - (L - i) = (i + n) % L := by
  rw [mod_eq_sub_mod (by omega), mod_eq_of_lt (by omega)]
  omega

end

section
variable {tx : TxInfo} {sh : SharedBuf} {bufSize numBytes : UInt32} {p : ℕ → UInt8}

theorem habPipeWrite_ring {r : WriteResult} (hr : habPipeWrite tx sh bufSize (some p) numBytes = r)
    (h : ¬WriteRefused tx sh bufSize (some p) numBytes) (hidx : tx.index < bufSize) :
    r.ret = numBytes ∧ r.tx.wrCount = tx.wrCount + numBytes ∧
      r.tx.index.toNat = (tx.index.toNat + numBytes.toNat) % bufSize.toNat ∧
      r.data = wrapWrite bufSize.toNat sh.data tx.index.toNat p numBytes.toNat := by
  rw [← hr, habPipeWrite_accepted h]
  simp only [copyIn_ret, copyIn_wrCount, copyIn_index, copyIn_data, UInt32.add_assoc, firstPart_add, true_and]
  simp only [WriteRefused, not_or, UInt32.not_lt, UInt32.le_iff_toNat_le] at h
  obtain ⟨-, -, -, -, -, hsize⟩ := h
  have hlt := lt_iff_toNat_lt.mp hidx
  by_cases hfit : numBytes.toNat ≤ bufSize.toNat - tx.index.toNat
  · rw [firstPart_of_fit hidx hfit, UInt32.sub_self, wrapWrite_of_fit _ _ (by omega)]
    refine ⟨?_, memcpy_zero ..⟩
    rw [advance, if_neg (UInt32.lt_irrefl 0), advance_of_fit hidx hfit]
  · have hwrap := not_le.mp hfit
    have hsnd2 : (numBytes - firstPart bufSize tx.index numBytes).toNat = _ :=
      secondPart_toNat (UInt32.le_of_lt hidx)
    have hfst : (firstPart bufSize tx.index numBytes).toNat = bufSize.toNat - tx.index.toNat := by
      rw [firstPart_toNat (UInt32.le_of_lt hidx), min_eq_right hwrap.le]
    rw [advance_firstPart hidx hwrap]
    constructor
    · have hzero : (0 : UInt32) < bufSize := by
        rw [UInt32.lt_iff_toNat_lt, UInt32.toNat_zero]
        omega
      rw [advance_of_fit hzero (by rw [UInt32.toNat_zero]; omega), hsnd2, UInt32.toNat_zero, zero_add,
        second_mod hlt hsize hwrap, Nat.mod_mod]
    · rw [wrapWrite_of_wrap _ _ (Nat.add_sub_cancel' hlt.le) hwrap, hfst, hsnd2, UInt32.toNat_zero]

section
variable {rxIndex size toRead : UInt32}

theorem copyOut_ring (hidx : rxIndex < bufSize) :
    copyOut sh.data rxIndex.toNat (firstPart bufSize rxIndex toRead).toNat
        (advance bufSize rxIndex (firstPart bufSize rxIndex toRead)).toNat
        (toRead - firstPart bufSize rxIndex toRead).toNat p =
      wrapRead bufSize.toNat sh.data rxIndex.toNat p 0 toRead.toNat := by
  have hfst : (firstPart bufSize rxIndex toRead).toNat = _ := firstPart_toNat (UInt32.le_of_lt hidx)
  have hsnd2 : (toRead - firstPart bufSize rxIndex toRead).toNat = _ := secondPart_toNat (UInt32.le_of_lt hidx)
  rw [copyOut, wrapRead]
  by_cases hfit : toRead.toNat ≤ bufSize.toNat - rxIndex.toNat
  · rw [Nat.min_eq_left hfit] at hfst ⊢
    rw [hsnd2, Nat.sub_eq_zero_of_le hfit, memcpy_zero, hfst, if_neg (not_not.mpr rfl)]
  · have hwrap := Nat.not_le.mp hfit
    rw [Nat.min_eq_right hwrap.le] at hfst ⊢
    rw [advance_firstPart hidx hwrap, hfst, hsnd2, if_pos (by omega), UInt32.toNat_zero]
    simp only [zero_add]

theorem readIndex_toNat (hidx : rxIndex < bufSize) (hsize : toRead.toNat ≤ bufSize.toNat) :
    (advance bufSize rxIndex (firstPart bufSize rxIndex toRead) +
        (toRead - firstPart bufSize rxIndex toRead)).toNat = (rxIndex.toNat + toRead.toNat) % bufSize.toNat := by
  have hlt := lt_iff_toNat_lt.mp hidx
  by_cases hfit : toRead.toNat ≤ bufSize.toNat - rxIndex.toNat
  · rw [firstPart_of_fit hidx hfit, UInt32.sub_self, UInt32.add_zero, advance_of_fit hidx hfit]
  · have hwrap := not_le.mp hfit
    rw [advance_firstPart hidx hwrap, UInt32.zero_add, secondPart_toNat (UInt32.le_of_lt hidx),
      second_mod hlt hsize hwrap]

theorem checkHead_of_ok {mismatch clear : Bool} {again : ℕ → (ℕ → UInt8) → ℕ → UInt8}
    (hok : if clear = true ∧ size = headerSize then hasSignature p = true else mismatch = false) :
    checkHead mismatch again size clear p =
      (p, 0, if clear = true ∧ size = headerSize then some false else none) := by
  unfold checkHead
  split_ifs at hok ⊢
  · rw [retryHead.eq_def]
    simp only [if_pos hok]
  · rfl

end

end

namespace Pipe
variable {q : Pipe} {p : ℕ → UInt8} {size numBytes : UInt32} {clear mismatch : Bool}

def toRead (q : Pipe) (size : UInt32) : UInt32 := if q.avail < size then q.avail else size

def readBytes (q : Pipe) (p : ℕ → UInt8) (size : UInt32) : ℕ → UInt8 :=
  wrapRead q.bufSize.toNat q.sh.data q.rxIndex.toNat p 0 (q.toRead size).toNat

theorem toRead_eq (q : Pipe) (size : UInt32) :
    q.toRead size = if q.sh.wrCount - q.sh.rdCount < size then q.sh.wrCount - q.sh.rdCount else size := rfl

theorem copyOut_readBytes (hidx : q.rxIndex < q.bufSize) :
    copyOut q.sh.data q.rxIndex.toNat (firstPart q.bufSize q.rxIndex (q.toRead size)).toNat
      (advance q.bufSize q.rxIndex (firstPart q.bufSize q.rxIndex (q.toRead size))).toNat
      (q.toRead size - firstPart q.bufSize q.rxIndex (q.toRead size)).toNat p = q.readBytes p size :=
  copyOut_ring hidx

theorem read_ring {r : ReadResult} (hr : q.read mismatch (some p) size clear = r)
    (hav : q.avail ≠ 0) (hsize : size ≠ 0) (hidx : q.rxIndex < q.bufSize)
    (hle : (q.toRead size).toNat ≤ q.bufSize.toNat)
    (hok : if clear = true ∧ size = headerSize then hasSignature (q.readBytes p size) = true else mismatch = false) :
    r.ret = q.toRead size ∧ r.index.toNat = (q.rxIndex.toNat + (q.toRead size).toNat) % q.bufSize.toNat ∧
      r.rdCount = q.sh.rdCount + q.toRead size ∧ r.p = some (q.readBytes p size) ∧
      r.checked = if clear = true ∧ size = headerSize then some false else none := by
  have hgo : ¬(q.sh.wrCount - q.sh.rdCount = 0 ∨ size = 0 ∨ q.bufSize < q.rxIndex) := by
    simp only [not_or]
    exact ⟨hav, hsize, UInt32.not_lt.mpr (UInt32.le_of_lt hidx)⟩
  have hclr : (if clear = true ∧ size = headerSize then some false else none).getD mismatch = false := by
    split_ifs at hok ⊢
    · rfl
    · exact hok
  simp only [← hr, Pipe.read, habPipeRead, if_neg hgo, ← toRead_eq, copyOut_readBytes hidx, checkHead_of_ok hok,
    hclr, Bool.false_eq_true, if_false, firstPart_add, readIndex_toNat hidx hle, and_self]

theorem step_read_refused {p : Option (ℕ → UInt8)} (hno : p = none ∨ q.avail = 0 ∨ size = 0) (mismatch : Bool) :
    q.step mismatch (.read p size clear) =
      { q with results := q.results ++ [(0, p.map fun p => slice p 0 size.toNat)] } := by
  have hrefu : q.read mismatch p size clear = ⟨0, q.rxIndex, q.sh.rdCount, none, p, [], []⟩ :=
    habPipeRead_refused (hno.imp_right fun h => h.imp_right .inl)
  have hnothing : returned mismatch ⟨0, q.rxIndex, q.sh.rdCount, none, p, [], []⟩ = [] := by
    cases p with
    | none => rfl
    | some p => simp [returned, slice]
  simp only [step, hrefu, hnothing, append_nil, getD_none]

theorem toRead_le_avail (q : Pipe) (size : UInt32) : (q.toRead size).toNat ≤ q.avail.toNat := by
  rw [toRead, toRead_toNat]
  exact min_le_left _ _

theorem HasHeader.hasSignature (h : q.HasHeader) (p : ℕ → UInt8) :
    hasSignature (q.readBytes p headerSize) = true := by
  obtain ⟨hidx, hbuf, hav, hsig⟩ := h
  rw [lt_iff_toNat_lt] at hidx
  have hcnt : (q.toRead headerSize).toNat = 20 := by
    rw [toRead, toRead_toNat]
    exact min_eq_right hav
  have hsl : slice (q.readBytes p headerSize) 12 4 = window q.bufSize.toNat q.sh.data (q.rxIndex.toNat + 12) 4 := by
    refine slice_congr fun j hj => ?_
    have happly := wrapRead_apply q.sh.data p hidx.le hbuf (show 12 + j < 20 by omega) (d := 0)
    rw [zero_add] at happly
    rw [readBytes, hcnt, happly, add_assoc]
  rw [Hab.hasSignature, hsl, hsig, beq_self_eq_true]

theorem read_hasHeader (h : q.HasHeader) (p : ℕ → UInt8) (mismatch mismatch' : Bool) :
    q.read mismatch (some p) headerSize true = q.read mismatch' (some p) headerSize true ∧
      (q.read mismatch (some p) headerSize true).checked = some false := by
  have hgo : ¬(q.sh.wrCount - q.sh.rdCount = 0 ∨ headerSize = 0 ∨ q.bufSize < q.rxIndex) := by
    simp only [not_or]
    refine ⟨fun h0 => ?_, by decide, UInt32.not_lt.mpr (UInt32.le_of_lt h.1)⟩
    have hle := h.2.2.1
    rw [avail, h0] at hle
    exact absurd hle (by decide)
  have hch (flag : Bool) (again : ℕ → (ℕ → UInt8) → ℕ → UInt8) :
      checkHead flag again headerSize true (q.readBytes p headerSize) = (q.readBytes p headerSize, 0, some false) :=
    checkHead_of_ok (h.hasSignature p)
  simp only [Pipe.read, habPipeRead, if_neg hgo, ← toRead_eq, copyOut_readBytes h.1, hch, getD_some, and_self]

theorem sets_eq_some {op : PipeOp} {b : Bool} (h : q.sets mismatch op = some b) :
    ∃ p, op = .read (some p) headerSize true := by
  cases op with
  | write | commit | tamper => cases h
  | read p size clear =>
    cases p with
    | none => cases h
    | some p =>
      by_cases hhead : clear = true ∧ size = headerSize
      · obtain ⟨rfl, rfl⟩ := hhead
        exact ⟨p, rfl⟩
      · simp only [sets, Pipe.read, habPipeRead, checkHead, if_neg hhead] at h
        split at h <;> cases h

theorem HasHeader.sets (h : q.HasHeader) {b : Bool}
    (hb : q.sets mismatch (.read (some p) headerSize true) = some b) : b = false := by
  rw [Pipe.sets, (q.read_hasHeader h p mismatch mismatch).2] at hb
  exact (some.inj hb).symm

/-- What is in the pipe: bytes that were committed and not read yet, and bytes that were written only. -/
structure Carries (q : Pipe) (pending rest : List UInt8) : Prop where
  committed : q.committed = q.delivered ++ pending
  written : q.written = q.committed ++ rest
  room : pending.length + rest.length ≤ q.bufSize.toNat
  txCount : q.tx.wrCount = .ofNat q.written.length
  wrCount : q.sh.wrCount = .ofNat q.committed.length
  rdCount : q.sh.rdCount = .ofNat q.delivered.length
  txIndex : q.tx.index.toNat = q.written.length % q.bufSize.toNat
  rxIndex : q.rxIndex.toNat = q.delivered.length % q.bufSize.toNat
  ring : window q.bufSize.toNat q.sh.data q.delivered.length (pending.length + rest.length) = pending ++ rest

namespace Carries
variable {pending rest : List UInt8}

theorem start (bufSize : UInt32) (mem : ℕ → UInt8) : Carries (start bufSize mem) [] [] where
  committed := rfl
  written := rfl
  room := zero_le _
  txCount := rfl
  wrCount := rfl
  rdCount := rfl
  txIndex := (zero_mod _).symm
  rxIndex := (zero_mod _).symm
  ring := rfl

theorem length_written (h : Carries q pending rest) :
    q.written.length = q.delivered.length + (pending.length + rest.length) := by
  rw [h.written, h.committed, length_append, length_append, add_assoc]

theorem counter_sub {a n : ℕ} (hn : n < 2 ^ 32) : (ofNat (a + n) - ofNat a).toNat = n := by
  rw [UInt32.ofNat_add, UInt32.add_comm, UInt32.add_sub_cancel]
  exact toNat_ofNat_of_lt' hn

section
variable (h : Carries q pending rest)
include h

theorem avail_toNat : q.avail.toNat = pending.length := by
  have hlt := q.bufSize.toNat_lt
  have hroom := h.room
  rw [avail, h.wrCount, h.rdCount, h.committed, length_append]
  exact counter_sub (by omega)

theorem used_toNat : (q.tx.wrCount - q.sh.rdCount).toNat = pending.length + rest.length := by
  have hlt := q.bufSize.toNat_lt
  have hroom := h.room
  rw [h.txCount, h.rdCount, h.length_written]
  exact counter_sub (by omega)

theorem txIndex_lt (hpos : 0 < q.bufSize.toNat) : q.tx.index < q.bufSize := by
  rw [lt_iff_toNat_lt, h.txIndex]
  exact mod_lt _ hpos

theorem rxIndex_lt (hpos : 0 < q.bufSize.toNat) : q.rxIndex < q.bufSize := by
  rw [lt_iff_toNat_lt, h.rxIndex]
  exact mod_lt _ hpos

theorem commit (mismatch : Bool) : Carries (q.step mismatch .commit) (pending ++ rest) [] where
  committed := by
    show q.written = q.delivered ++ (pending ++ rest)
    rw [← append_assoc, ← h.committed, h.written]
  written := (append_nil _).symm
  room := by
    rw [length_append]
    exact h.room
  txCount := h.txCount
  wrCount := h.txCount
  rdCount := h.rdCount
  txIndex := h.txIndex
  rxIndex := h.rxIndex
  ring := by
    rw [length_append, append_nil]
    exact h.ring

/-- A write appends its bytes. -/
theorem write_accepted (hok : ¬WriteRefused q.tx q.sh q.bufSize (some p) numBytes) (mismatch : Bool) :
    Carries (q.step mismatch (.write (some p) numBytes)) pending (rest ++ slice p 0 numBytes.toNat) := by
  have hsp : pending.length + rest.length + numBytes.toNat ≤ q.bufSize.toNat ∧ 0 < q.bufSize.toNat := by
    have hused := h.used_toNat
    simp only [WriteRefused, not_or, UInt32.not_lt, ← UInt32.toNat_inj, UInt32.toNat_zero] at hok
    obtain ⟨hcnt, -, hsp, hpos, -, hsize⟩ := hok
    rw [UInt32.le_iff_toNat_le, UInt32.toNat_sub_of_le _ _ hcnt] at hsp
    omega
  obtain ⟨hfits, hpos⟩ := hsp
  obtain ⟨hret, hcnt, hidx, hdata⟩ := habPipeWrite_ring rfl hok (h.txIndex_lt hpos)
  have hwritten : (q.step mismatch (.write (some p) numBytes)).written = q.written ++ slice p 0 numBytes.toNat := by
    show q.written ++ slice p 0 (habPipeWrite q.tx q.sh q.bufSize (some p) numBytes).ret.toNat = _
    rw [hret]
  have hx : q.delivered.length + (pending.length + rest.length) ≡ q.tx.index.toNat [MOD q.bufSize.toNat] := by
    rw [h.txIndex, ← h.length_written]
    exact (mod_modEq _ _).symm
  have htx := lt_iff_toNat_lt.mp (h.txIndex_lt hpos)
  exact
    { committed := h.committed
      written := by
        rw [hwritten, h.written, append_assoc]
        rfl
      room := by
        rw [length_append, slice_length, ← add_assoc]
        exact hfits
      txCount := by
        rw [hwritten, length_append, slice_length, UInt32.ofNat_add, UInt32.ofNat_toNat, ← h.txCount]
        exact hcnt
      wrCount := h.wrCount
      rdCount := h.rdCount
      txIndex := by
        rw [hwritten, length_append, slice_length]
        refine hidx.trans ?_
        rw [h.txIndex, mod_add_mod]
        rfl
      rxIndex := h.rxIndex
      ring := by
        show window q.bufSize.toNat (habPipeWrite q.tx q.sh q.bufSize (some p) numBytes).data q.delivered.length _ = _
        rw [hdata, length_append, slice_length, ← add_assoc, window_add,
          window_wrapWrite_frame _ _ hx htx.le le_rfl (by omega), h.ring,
          window_wrapWrite_self _ _ hx htx.le (by omega), append_assoc] }

theorem write_refused {p : Option (ℕ → UInt8)} (hno : WriteRefused q.tx q.sh q.bufSize p numBytes) (mismatch : Bool) :
    Carries (q.step mismatch (.write p numBytes)) pending rest := by
  have hsame : q.step mismatch (.write p numBytes) = q := by
    rw [step, habPipeWrite_refused hno]
    cases p with
    | none => simp
    | some p => simp [slice]
  rwa [hsame]

theorem slice_readBytes (hpos : 0 < q.bufSize.toNat) (p : ℕ → UInt8) (size : UInt32) :
    slice (q.readBytes p size) 0 (q.toRead size).toNat = pending.take (q.toRead size).toNat := by
  have hle : (q.toRead size).toNat ≤ pending.length := h.avail_toNat ▸ q.toRead_le_avail size
  have hroom := h.room
  have hrx := lt_iff_toNat_lt.mp (h.rxIndex_lt hpos)
  have hx : q.delivered.length ≡ q.rxIndex.toNat [MOD q.bufSize.toNat] := by
    rw [h.rxIndex]
    exact (mod_modEq _ _).symm
  have hsl := slice_wrapRead q.sh.data p hrx.le (show (q.toRead size).toNat ≤ q.bufSize.toNat by omega) (d := 0)
  rw [zero_add] at hsl
  calc slice (q.readBytes p size) 0 (q.toRead size).toNat
      = window q.bufSize.toNat q.sh.data q.rxIndex.toNat (q.toRead size).toNat := hsl
    _ = window q.bufSize.toNat q.sh.data q.delivered.length (q.toRead size).toNat := (window_congr _ hx _).symm
    _ = (window q.bufSize.toNat q.sh.data q.delivered.length (pending.length + rest.length)).take
          (q.toRead size).toNat := (slice_take _ _ (by omega)).symm
    _ = pending.take (q.toRead size).toNat := by rw [h.ring, take_append_of_le_length hle]

theorem read_refused {p : Option (ℕ → UInt8)} (hno : p = none ∨ q.avail = 0 ∨ size = 0) (mismatch : Bool) :
    Carries (q.step mismatch (.read p size clear)) pending rest := by
  rw [step_read_refused hno]
  exact { h with }

/-- A read returns the first bytes and takes them out. -/
theorem read_accepted (hav : q.avail ≠ 0) (hsize : size ≠ 0)
    (hok : if clear = true ∧ size = headerSize then q.HasHeader else mismatch = false) (p : ℕ → UInt8) :
    (q.read mismatch (some p) size clear).ret = q.toRead size ∧
      returned mismatch (q.read mismatch (some p) size clear) = pending.take (q.toRead size).toNat ∧
      Carries (q.step mismatch (.read (some p) size clear)) (pending.drop (q.toRead size).toNat) rest := by
  have hle : (q.toRead size).toNat ≤ pending.length := h.avail_toNat ▸ q.toRead_le_avail size
  have hroom := h.room
  have hpos : 0 < q.bufSize.toNat := by
    have hne : q.avail.toNat ≠ 0 := fun h0 => hav (UInt32.toNat_inj.mp h0)
    rw [h.avail_toNat] at hne
    omega
  have hsig : if clear = true ∧ size = headerSize then hasSignature (q.readBytes p size) = true
      else mismatch = false := by
    split_ifs at hok ⊢ with hhead
    · obtain ⟨-, rfl⟩ := hhead
      exact hok.hasSignature p
    · exact hok
  obtain ⟨hret, hidx, hcnt, hp, hchecked⟩ :=
    q.read_ring rfl hav hsize (h.rxIndex_lt hpos) (by omega) hsig
  have hbs : returned mismatch (q.read mismatch (some p) size clear) = pending.take (q.toRead size).toNat := by
    have hgood : (q.read mismatch (some p) size clear).checked.getD mismatch = false := by
      rw [hchecked]
      split_ifs at hok ⊢
      · rfl
      · exact hok
    simp only [returned, hp, hgood, hret, Bool.false_eq_true, if_false]
    exact h.slice_readBytes hpos p size
  have hlen : (q.delivered ++ pending.take (q.toRead size).toNat).length =
      q.delivered.length + (q.toRead size).toNat := by
    rw [length_append, length_take, min_eq_left hle]
  have hdel : (q.step mismatch (.read (some p) size clear)).delivered =
      q.delivered ++ pending.take (q.toRead size).toNat := congrArg (q.delivered ++ ·) hbs
  refine ⟨hret, hbs, ?_⟩
  exact
    { committed := by
        rw [hdel, append_assoc, take_append_drop]
        exact h.committed
      written := h.written
      room := by
        rw [length_drop]
        show _ ≤ q.bufSize.toNat
        omega
      txCount := h.txCount
      wrCount := h.wrCount
      rdCount := by
        rw [hdel, hlen, UInt32.ofNat_add, UInt32.ofNat_toNat, ← h.rdCount]
        exact hcnt
      txIndex := h.txIndex
      rxIndex := by
        rw [hdel, hlen, add_mod]
        refine hidx.trans ?_
        rw [h.rxIndex, mod_add_mod, add_mod]
        rfl
      ring := by
        rw [hdel, hlen, length_drop]
        -- the window that was there, cut where the read ends
        have hcut : window q.bufSize.toNat q.sh.data q.delivered.length (q.toRead size).toNat ++
            window q.bufSize.toNat q.sh.data (q.delivered.length + (q.toRead size).toNat)
              (pending.length - (q.toRead size).toNat + rest.length) =
            pending.take (q.toRead size).toNat ++ (pending.drop (q.toRead size).toNat ++ rest) := by
          rw [← window_add, ← append_assoc, take_append_drop, ← h.ring]
          congr 1
          omega
        refine append_inj_right hcut ?_
        rw [window_length, length_take, min_eq_left hle] }

end

end Carries

end Pipe

namespace Pipes
variable {s s' : Pipes} {j : ℕ}

/-- What was committed is what reads have returned and what is left, of which the next read returns the first bytes.
-/
def Fifo (j : ℕ) (s : Pipes) : Prop :=
  ∃ pending, (s.pipe j).committed = (s.pipe j).delivered ++ pending ∧
    pending.length = (s.pipe j).avail.toNat ∧
    ∀ p size clear, Honest s (j, .read (some p) size clear) →
      ((s.pipe j).read s.mismatch (some p) size clear).ret.toNat = min pending.length size.toNat ∧
      Pipe.returned s.mismatch ((s.pipe j).read s.mismatch (some p) size clear) = pending.take size.toNat

def Kept (j : ℕ) (s : Pipes) : Prop := s.mismatch = false ∧ ∃ pending rest, (s.pipe j).Carries pending rest

theorem step_self {op : PipeOp} (hs : s.step (j, op) = some s') : s'.pipe j = (s.pipe j).step s.mismatch op := by
  cases hs
  exact update_self ..

theorem step_other {op : ℕ × PipeOp} (hop : op.1 ≠ j) (hs : s.step op = some s') : s'.pipe j = s.pipe j := by
  cases hs
  exact update_of_ne (Ne.symm hop) ..

theorem Honest.head {p : Option (ℕ → UInt8)} {size : UInt32} {clear : Bool} (h : Honest s (j, .read p size clear))
    (hflag : s.mismatch = false) (hav : (s.pipe j).avail ≠ 0) :
    if clear = true ∧ size = headerSize then (s.pipe j).HasHeader else s.mismatch = false := by
  split_ifs with hhead
  · exact (h hhead).resolve_left hav
  · exact hflag

/-- With honest peers the flag stays clear. -/
theorem Honest.flag {op : ℕ × PipeOp} (h : Honest s op) (hflag : s.mismatch = false) (hs : s.step op = some s') :
    s'.mismatch = false := by
  obtain ⟨i, op⟩ := op
  cases hs
  cases hset : (s.pipe i).sets s.mismatch op with
  | none => simpa [hset] using hflag
  | some b =>
    obtain ⟨p, rfl⟩ := Pipe.sets_eq_some hset
    have hhead := (h ⟨rfl, rfl⟩).resolve_left fun hav => by
      simp [Pipe.sets, Pipe.read, habPipeRead_refused (.inr (.inl hav))] at hset
    simpa [hset] using Pipe.HasHeader.sets hhead hset

/-- Honest steps keep every pipe in order. -/
theorem Kept.step {op : ℕ × PipeOp} (h : Kept j s) (hok : Honest s op) (hs : s.step op = some s') : Kept j s' := by
  obtain ⟨hflag, pending, rest, h⟩ := h
  refine ⟨hok.flag hflag hs, ?_⟩
  obtain ⟨i, op⟩ := op
  by_cases hi : i = j
  · subst hi
    rw [step_self hs]
    cases op with
    | write p numBytes =>
      by_cases hno : WriteRefused (s.pipe i).tx (s.pipe i).sh (s.pipe i).bufSize p numBytes
      · exact ⟨_, _, h.write_refused hno _⟩
      · cases p with
        | none => exact absurd (.inr (.inl rfl)) hno
        | some p => exact ⟨_, _, h.write_accepted hno _⟩
    | commit => exact ⟨_, _, h.commit _⟩
    | read p size clear =>
      by_cases hno : p = none ∨ (s.pipe i).avail = 0 ∨ size = 0
      · exact ⟨_, _, h.read_refused hno _⟩
      · cases p with
        | none => exact absurd (.inl rfl) hno
        | some p =>
          obtain ⟨-, hav, hsize⟩ := by simpa only [not_or] using hno
          exact ⟨_, _, (h.read_accepted hav hsize (hok.head hflag hav) p).2.2⟩
    | tamper sh tx rxIndex => exact hok.elim
  · rw [step_other hi hs]
    exact ⟨pending, rest, h⟩

theorem Kept.fifo (h : Kept j s) : Fifo j s := by
  obtain ⟨hflag, pending, rest, h⟩ := h
  have hlen := h.avail_toNat
  refine ⟨pending, h.committed, hlen.symm, fun p size clear hok => ?_⟩
  have htoRead : ((s.pipe j).toRead size).toNat = min pending.length size.toNat := by
    rw [Pipe.toRead, toRead_toNat, hlen]
  by_cases hno : (s.pipe j).avail = 0 ∨ size = 0
  · have hrefu : (s.pipe j).read s.mismatch (some p) size clear =
        ⟨0, (s.pipe j).rxIndex, (s.pipe j).sh.rdCount, none, some p, [], []⟩ :=
      habPipeRead_refused (.inr (hno.imp_right .inl))
    have hzero : pending = [] ∨ size.toNat = 0 := by
      refine hno.imp (fun h0 => ?_) fun h0 => by rw [h0]; rfl
      rw [h0] at hlen
      exact length_eq_zero_iff.mp hlen.symm
    rw [hrefu]
    rcases hzero with rfl | hzero
    · simp [Pipe.returned, slice]
    · simp [Pipe.returned, slice, hzero]
  · obtain ⟨hav, hsize⟩ := not_or.mp hno
    obtain ⟨hret, hbs, -⟩ := h.read_accepted hav hsize (hok.head hflag hav) p
    rw [hret, hbs, htoRead]
    exact ⟨rfl, by rw [min_comm, ← take_eq_take_min]⟩

end Pipes

/-- The operations on a pipe by themselves, with a flag of its own. -/
def Pipe.alone (q : Pipe) : List PipeOp → Pipe
  | [] => q
  | op :: ops => (q.step q.own op).alone ops

def onPipe (j : ℕ) (ops : List (ℕ × PipeOp)) : List PipeOp :=
  ops.filterMap fun op => if op.1 = j then some op.2 else none

namespace Pipe
variable {q : Pipe} {size : UInt32} {clear mismatch : Bool}

theorem step_unaffected {op : PipeOp}
    (hok : match op with
      | .read _ size clear => q.avail = 0 ∨ (clear = true ∧ size = headerSize ∧ q.HasHeader) ∨ mismatch = q.own
      | .write .. | .commit | .tamper .. => True) : q.step mismatch op = q.step q.own op := by
  cases op with
  | write | commit | tamper => rfl
  | read p size clear =>
    obtain hav | ⟨rfl, rfl, hhead⟩ | hsame := hok
    · rw [step_read_refused (.inr (.inl hav)), step_read_refused (.inr (.inl hav))]
    · cases p with
      | none => rfl
      | some p =>
        obtain ⟨hread, -⟩ := q.read_hasHeader hhead p mismatch q.own
        obtain ⟨-, hchecked⟩ := q.read_hasHeader hhead p q.own q.own
        simp only [step, hread, returned, hchecked, getD_some]
    · rw [hsame]

theorem own_step (op : PipeOp) : (q.step mismatch op).own = (q.sets mismatch op).getD q.own := by
  cases op <;> rfl

end Pipe

namespace Pipes
variable {s s' : Pipes} {j a : ℕ} {ops : List (ℕ × PipeOp)}

/-- The flag is as pipe `j` has left it if the last header was one of `j`, and clear if none was corrupt since. -/
structure Flagged (j : ℕ) (s : Pipes) : Prop where
  last : (∃ h ∈ s.heads.head?, h.1 = j) → s.mismatch = (s.pipe j).own
  clean : (∀ h ∈ since j s.heads, h.2 = true) → s.mismatch = false ∧ (s.pipe j).own = false

/-- The flag follows the last header. -/
theorem Flagged.step {op : ℕ × PipeOp} (h : Flagged j s) (hs : s.step op = some s') : Flagged j s' := by
  obtain ⟨i, op⟩ := op
  have hown : (s'.pipe j).own = if i = j then ((s.pipe j).sets s.mismatch op).getD (s.pipe j).own
      else (s.pipe j).own := by
    split_ifs with hi
    · subst hi
      rw [step_self hs, Pipe.own_step]
    · rw [step_other hi hs]
  cases hset : (s.pipe i).sets s.mismatch op with
  | none =>
    replace hown : (s'.pipe j).own = (s.pipe j).own := by
      rw [hown]
      split_ifs with hi
      · rw [← hi, hset, getD_none]
      · rfl
    cases hs
    simp only [hset, getD_none, isSome_none, Bool.false_eq_true, if_false] at hown ⊢
    exact ⟨fun hlast => hown.symm ▸ h.last hlast, fun hall => hown.symm ▸ h.clean hall⟩
  | some b =>
    have hgood : (s.pipe i).HasHeader → b = false := by
      intro hhead
      obtain ⟨p, rfl⟩ := Pipe.sets_eq_some hset
      exact hhead.sets hset
    cases hs
    simp only [hset, getD_some, isSome_some, if_true] at hown ⊢
    constructor
    · rintro ⟨_, ⟨⟩, rfl⟩
      rw [hown, if_pos rfl, hset, getD_some]
    · rw [since]
      split_ifs with hi
      · subst hi
        simp only [forall_mem_singleton, decide_eq_true_eq]
        intro hhead
        rw [hown, if_pos rfl, hset, getD_some]
        exact ⟨hgood hhead, hgood hhead⟩
      · simp only [forall_mem_cons, decide_eq_true_eq]
        rintro ⟨hhead, hall⟩
        rw [hown, if_neg hi]
        exact ⟨hgood hhead, (h.clean hall).2⟩

theorem Undisturbed.step_eq {op : PipeOp} (hok : Undisturbed j s (j, op)) (h : Flagged j s) :
    (s.pipe j).step s.mismatch op = (s.pipe j).step (s.pipe j).own op := by
  refine Pipe.step_unaffected ?_
  cases op with
  | write | commit | tamper => trivial
  | read p size clear =>
    refine (hok rfl).imp_right (.imp_right fun hflag => ?_)
    rcases hflag with hlast | hall
    · exact h.last hlast
    · obtain ⟨hclear, hown⟩ := h.clean hall
      rw [hclear, hown]

/-- An undisturbed pipe runs as it would by itself. -/
theorem run_alone (h : Flagged j s) (hok : Meets step (Undisturbed j) s ops) (hrun : run step s ops = some s') :
    s'.pipe j = (s.pipe j).alone (onPipe j ops) := by
  induction ops generalizing s with
  | nil =>
    cases hrun
    rfl
  | cons op ops ih =>
    obtain ⟨t, ht, hrun⟩ := run_cons hrun
    rw [ih (h.step ht) (hok.tail ht) hrun]
    obtain ⟨i, op⟩ := op
    by_cases hi : i = j
    · subst hi
      rw [step_self ht, hok.head.step_eq h]
      simp [onPipe, Pipe.alone]
    · rw [step_other hi ht]
      simp [onPipe, hi]

theorem onPipe_filter (ha : a ≠ j) : onPipe j (ops.filter fun op => op.1 ≠ a) = onPipe j ops := by
  rw [onPipe, filterMap_filter]
  congr 1
  funext op
  by_cases hop : op.1 = j
  · simp [hop, Ne.symm ha]
  · simp [hop]

/-- With honest peers the bytes come out of every pipe in the order in which they were committed. And whatever
happens on another pipe, what reads on `j` return is the same with and without it, as long as no header of another
pipe comes between a header of `j` and what belongs to it, or none that is read is corrupt. -/
theorem pipes_fifo_and_isolated (bufSize : ℕ → UInt32) (mem : ℕ → ℕ → UInt8) (ops : List (ℕ × PipeOp)) (j : ℕ) :
    (∀ s, Meets step Honest (start bufSize mem) ops → run step (start bufSize mem) ops = some s → Fifo j s) ∧
      ∀ a s s', a ≠ j → Meets step (Undisturbed j) (start bufSize mem) ops →
        Meets step (Undisturbed j) (start bufSize mem) (ops.filter fun op => op.1 ≠ a) →
        run step (start bufSize mem) ops = some s →
        run step (start bufSize mem) (ops.filter fun op => op.1 ≠ a) = some s' →
        (s.pipe j).results = (s'.pipe j).results := by
  constructor
  · intro s hok hrun
    have hini : Kept j (start bufSize mem) := ⟨rfl, [], [], Pipe.Carries.start ..⟩
    exact (run_inv (fun _ _ _ h hok hs => h.step hok hs) hini hok hrun).fifo
  · intro a s s' ha hok hok' hrun hrun'
    have hini : Flagged j (start bufSize mem) := ⟨fun _ => rfl, fun _ => ⟨rfl, rfl⟩⟩
    rw [run_alone hini hok hrun, run_alone hini hok' hrun', onPipe_filter ha]

def bytes (l : List UInt8) : ℕ → UInt8 := fun i => l.getD i 0

def sendFour (i : ℕ) : List (ℕ × PipeOp) :=
  [(i, .write (some (bytes ([0, 0, 0, 0, 4, 0, 0, 0, 1, 0, 0, 0] ++ signature ++ [1, 0, 0, 0, 5, 6, 7, 8]))) 24),
    (i, .commit)]

def readHeader (i : ℕ) : List (ℕ × PipeOp) := [(i, .read (some (bytes [])) 20 true)]

def readFour (i : ℕ) : List (ℕ × PipeOp) := [(i, .read (some (bytes [])) 4 false)]

def corruptHeader : List (ℕ × PipeOp) := (1, .tamper ⟨0, 20, 64, fun _ => 0⟩ ⟨0, 0⟩ 0) :: readHeader 1

/-- Two messages are received at once. And the header of pipe 1 is found corrupt, then a message is received on
pipe 0. -/
theorem pipes_fifo_and_isolated_corrupt :
    (∃ s, run step (start (fun _ => 64) fun _ _ => 0)
      (sendFour 0 ++ sendFour 1 ++ readHeader 0 ++ readHeader 1 ++ readFour 0) = some s ∧ Fifo 0 s) ∧
    ∃ s s', run step (start (fun _ => 64) fun _ _ => 0)
        (sendFour 0 ++ corruptHeader ++ readHeader 0 ++ readFour 0) = some s ∧
      run step (start (fun _ => 64) fun _ _ => 0)
        ((sendFour 0 ++ corruptHeader ++ readHeader 0 ++ readFour 0).filter fun op => op.1 ≠ 1) = some s' ∧
      (s.pipe 0).results = (s'.pipe 0).results := by
  refine ⟨⟨_, rfl, (pipes_fifo_and_isolated _ _
      (sendFour 0 ++ sendFour 1 ++ readHeader 0 ++ readHeader 1 ++ readFour 0) 0).1 _ ?_ rfl⟩, _, _, rfl, rfl,
    (pipes_fifo_and_isolated _ _ (sendFour 0 ++ corruptHeader ++ readHeader 0 ++ readFour 0) 0).2 1 _ _ (by decide)
      ?_ ?_ rfl rfl⟩ <;> decide +kernel

/-- The header of pipe 1 is found corrupt between the two reads on pipe 0, and the second one fails. -/
theorem corrupt_pipe_disturbs :
    ¬∀ (bufSize : ℕ → UInt32) (mem : ℕ → ℕ → UInt8) (ops : List (ℕ × PipeOp)) (j a : ℕ) (s s' : Pipes), a ≠ j →
      run step (start bufSize mem) ops = some s →
      run step (start bufSize mem) (ops.filter fun op => op.1 ≠ a) = some s' →
      (s.pipe j).results = (s'.pipe j).results := by
  intro h
  let ops := sendFour 0 ++ readHeader 0 ++ corruptHeader ++ readFour 0
  have hrun : ((run step (start (fun _ => 64) fun _ _ => 0) ops).map fun s =>
      (s.pipe 0).results.map Prod.fst) = some [20, 0xFFFFFFFE] := by decide +kernel
  have hrun' : ((run step (start (fun _ => 64) fun _ _ => 0) (ops.filter fun op => op.1 ≠ 1)).map fun s =>
      (s.pipe 0).results.map Prod.fst) = some [20, 4] := by decide +kernel
  obtain ⟨s, hs, heq⟩ := map_eq_some_iff.mp hrun
  obtain ⟨s', hs', heq'⟩ := map_eq_some_iff.mp hrun'
  have hsame := h (fun _ => 64) (fun _ _ => 0) ops 0 1 s s' (by decide) hs hs'
  rw [hsame, heq'] at heq
  exact absurd heq (by decide)

end Pipes

end VendorKernel.Hab

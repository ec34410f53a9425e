import VendorKernel.Lib.RingBuffer

/-! The pipe of HAB (`hab_pipe.c`): a ring in memory that is shared with the other side, with free-running
counters and an index on each side. -/
namespace VendorKernel.Hab

open RingBuffer UInt32 Nat List

/-- `struct hab_shared_buf`; what follows the ring in memory is behind its last byte. -/
structure SharedBuf where
  rdCount : UInt32
  wrCount : UInt32
  size : UInt32
  data : ℕ → UInt8

structure TxInfo where
  wrCount : UInt32
  index : UInt32

def headerSize : UInt32 := 20

def signature : List UInt8 := [0xE1, 0xBE, 0xE1, 0xBE]

def hasSignature (p : ℕ → UInt8) : Bool := slice p 12 4 == signature

def firstPart (bufSize index count : UInt32) : UInt32 :=
  if count ≤ bufSize - index then count else bufSize - index

def advance (bufSize index count : UInt32) : UInt32 :=
  if 0 < count then (if bufSize ≤ index + count then 0 else index + count) else index

structure WriteResult where
  ret : UInt32
  tx : TxInfo
  data : ℕ → UInt8
  copies : List (ℕ × ℕ)

def copyIn (bufSize : UInt32) (src : ℕ → UInt8) (count : UInt32) (r : WriteResult) : WriteResult :=
  if 0 < count then
    { r with
      tx := ⟨r.tx.wrCount + count, advance bufSize r.tx.index count⟩
      data := memcpy r.data r.tx.index.toNat src count.toNat
      copies := r.copies ++ [(r.tx.index.toNat, count.toNat)] }
  else r

def habPipeWrite (tx : TxInfo) (sh : SharedBuf) (bufSize : UInt32) (p : Option (ℕ → UInt8)) (numBytes : UInt32) :
    WriteResult :=
  let refused : WriteResult := ⟨0, tx, sh.data, []⟩
  if bufSize < tx.wrCount - sh.rdCount then refused
  else
    let space := bufSize - (tx.wrCount - sh.rdCount)
    match p with
    | none => refused
    | some p =>
      if space < numBytes ∨ numBytes = 0 then refused
      else if bufSize < tx.index ∨ bufSize < numBytes then refused
      else
        let count1 := firstPart bufSize tx.index numBytes
        let count2 := numBytes - count1
        let r := copyIn bufSize p count1 ⟨numBytes, tx, sh.data, []⟩
        copyIn bufSize (fun i => p (count1.toNat + i)) count2 r

def habPipeWriteCommit (tx : TxInfo) (sh : SharedBuf) : SharedBuf := { sh with wrCount := tx.wrCount }

structure ReadResult where
  ret : UInt32
  index : UInt32
  rdCount : UInt32
  checked : Option Bool
  p : Option (ℕ → UInt8)
  ringCopies : List (ℕ × ℕ)
  destCopies : List (ℕ × ℕ)

def copyOut (ring : ℕ → UInt8) (off1 count1 off2 count2 : ℕ) (p : ℕ → UInt8) : ℕ → UInt8 :=
  memcpy (memcpy p 0 (fun i => ring (off1 + i)) count1) count1 (fun i => ring (off2 + i)) count2

/-- The loop around `retry`; `again n` copies for the n-th time. The number is that of the copies still
allowed. -/
def retryHead (mismatch : Bool) (again : ℕ → (ℕ → UInt8) → ℕ → UInt8) :
    ℕ → ℕ → (ℕ → UInt8) → (ℕ → UInt8) × ℕ × Bool
  | left, retryCnt, p =>
    if hasSignature p then (p, retryCnt, false)
    else
      match left with
      | 0 => (p, retryCnt + 1, true)
      | left + 1 =>
        if mismatch then (again (retryCnt + 1) p, retryCnt + 1, true)
        else retryHead mismatch again left (retryCnt + 1) (again (retryCnt + 1) p)

def maxRetries : ℕ := 1001

/-- The check of a header that has been read: the destination, `retry_cnt`, and what `signature_mismatch` is
set to. -/
def checkHead (mismatch : Bool) (again : ℕ → (ℕ → UInt8) → ℕ → UInt8) (size : UInt32) (clear : Bool)
    (p : ℕ → UInt8) : (ℕ → UInt8) × ℕ × Option Bool :=
  if clear = true ∧ size = headerSize then
    let head := retryHead mismatch again maxRetries 0 p
    (head.1, head.2.1, some head.2.2)
  else (p, 0, none)

/-- `hab_pipe_read`. `mismatch` is the static `signature_mismatch`; `ring n` is what the ring holds when it is
copied for the n-th time in this call. -/
def habPipeRead (mismatch : Bool) (ring : ℕ → ℕ → UInt8) (rxIndex : UInt32) (sh : SharedBuf) (bufSize : UInt32)
    (p : Option (ℕ → UInt8)) (size : UInt32) (clear : Bool) : ReadResult :=
  let avail := sh.wrCount - sh.rdCount
  match p with
  | none => ⟨0, rxIndex, sh.rdCount, none, none, [], []⟩
  | some p =>
    if avail = 0 ∨ size = 0 ∨ bufSize < rxIndex then ⟨0, rxIndex, sh.rdCount, none, some p, [], []⟩
    else
      let toRead := if avail < size then avail else size
      let count1 := firstPart bufSize rxIndex toRead
      let count2 := toRead - count1
      let index1 := advance bufSize rxIndex count1
      let index2 := index1 + count2
      let ringCopies := [(rxIndex.toNat, count1.toNat), (index1.toNat, count2.toNat)]
      let destCopies := [(0, count1.toNat), (count1.toNat, count2.toNat)]
      let p := copyOut (ring 0) rxIndex.toNat count1.toNat index1.toNat count2.toNat p
      -- another copy takes its second part from `ep_rx_index - count2`
      let again n := copyOut (ring n) rxIndex.toNat count1.toNat (index2 - count2).toNat count2.toNat
      let againCopies := [(rxIndex.toNat, count1.toNat), ((index2 - count2).toNat, count2.toNat)]
      let head := checkHead mismatch again size clear p
      let retryCnt := head.2.1
      let bad := head.2.2.getD mismatch
      ⟨if bad then (if retryCnt < 1000 then 0xFFFFFFFE else 0xFFFFFFFF) else toRead,
        if bad then (if sh.size ≤ rxIndex + 1 then 0 else rxIndex + 1) else index2,
        sh.rdCount + (if bad then 1 else count1 + count2), head.2.2, some head.1,
        ringCopies ++ (replicate (min retryCnt maxRetries) againCopies).flatten,
        destCopies ++ (replicate (min retryCnt maxRetries) destCopies).flatten⟩

section
variable {bufSize index count : UInt32}

theorem firstPart_toNat (h : index ≤ bufSize) :
    (firstPart bufSize index count).toNat = min count.toNat (bufSize.toNat - index.toNat) := by
  have hsub := UInt32.toNat_sub_of_le _ _ h
  unfold firstPart
  split
  · rename_i hle
    rw [le_iff_toNat_le, hsub] at hle
    exact (min_eq_left hle).symm
  · rename_i hle
    rw [le_iff_toNat_le] at hle
    rw [hsub, min_eq_right (by omega)]

theorem firstPart_le : (firstPart bufSize index count) ≤ count := by
  unfold firstPart
  split
  · exact UInt32.le_refl _
  · rename_i hle
    exact UInt32.le_of_lt (UInt32.not_le.mp hle)

theorem secondPart_toNat (h : index ≤ bufSize) :
    (count - firstPart bufSize index count).toNat = count.toNat - (bufSize.toNat - index.toNat) := by
  rw [UInt32.toNat_sub_of_le _ _ firstPart_le, firstPart_toNat h]
  omega

theorem advance_toNat (h : index.toNat + count.toNat ≤ bufSize.toNat) (hpos : 0 < count.toNat) :
    (advance bufSize index count).toNat =
      if index.toNat + count.toNat = bufSize.toNat then 0 else index.toNat + count.toNat := by
  have hlt := bufSize.toNat_lt
  have hadd : (index + count).toNat = index.toNat + count.toNat := by
    rw [UInt32.toNat_add, mod_eq_of_lt (by omega)]
  rw [advance, if_pos (by rwa [lt_iff_toNat_lt])]
  simp only [le_iff_toNat_le, hadd]
  split_ifs
  · rfl
  · omega
  · omega
  · exact hadd

theorem advance_firstPart (hidx : index < bufSize) (hsnd2 : bufSize.toNat - index.toNat < count.toNat) :
    advance bufSize index (firstPart bufSize index count) = 0 := by
  rw [lt_iff_toNat_lt] at hidx
  have hfst : (firstPart bufSize index count).toNat = min count.toNat (bufSize.toNat - index.toNat) :=
    firstPart_toNat (le_iff_toNat_le.mpr hidx.le)
  apply UInt32.toNat_inj.mp
  rw [advance_toNat (by omega) (by omega), if_pos (by omega)]
  rfl

/-- The two parts of a copy stay in the ring if it starts in front of the end and is not longer than the rest
of the ring and once more the ring. An index at the end passes the checks of the code. -/
theorem parts_inside_iff (hidx : index ≤ bufSize) (hpos : 0 < count.toNat) :
    (((firstPart bufSize index count).toNat = 0 ∨
        index.toNat + (firstPart bufSize index count).toNat ≤ bufSize.toNat) ∧
      ((count - firstPart bufSize index count).toNat = 0 ∨
        (advance bufSize index (firstPart bufSize index count)).toNat +
          (count - firstPart bufSize index count).toNat ≤ bufSize.toNat)) ↔
      index < bufSize ∧ index.toNat + count.toNat ≤ 2 * bufSize.toNat := by
  have hfst : (firstPart bufSize index count).toNat = _ := firstPart_toNat hidx
  have hsnd2 : (count - firstPart bufSize index count).toNat = _ := secondPart_toNat hidx
  rw [le_iff_toNat_le] at hidx
  by_cases hlt : index < bufSize
  · by_cases hwrap : bufSize.toNat - index.toNat < count.toNat
    · rw [advance_firstPart hlt hwrap, UInt32.toNat_zero]
      simp only [hlt, true_and]
      omega
    · simp only [hlt, hsnd2, hfst, true_and]
      omega
  · have heq : index.toNat = bufSize.toNat := by
      rw [lt_iff_toNat_lt] at hlt
      omega
    have hnone : firstPart bufSize index count = 0 := by
      apply UInt32.toNat_inj.mp
      rw [hfst, heq, Nat.sub_self, Nat.min_zero]
      rfl
    rw [hnone, show advance bufSize index 0 = index from if_neg (by simp)]
    simp only [hlt, false_and, iff_false, not_and_or]
    rw [UInt32.sub_zero]
    omega

end

variable {n a b c d k : ℕ} {cs ds : List (ℕ × ℕ)} {bufSize count : UInt32} {src : ℕ → UInt8} {r : WriteResult}

def Inside (n : ℕ) (copies : List (ℕ × ℕ)) : Prop := ∀ c ∈ copies, c.2 = 0 ∨ c.1 + c.2 ≤ n

def WriteRefused (tx : TxInfo) (sh : SharedBuf) (bufSize : UInt32) (p : Option (ℕ → UInt8)) (numBytes : UInt32) :
    Prop :=
  bufSize < tx.wrCount - sh.rdCount ∨ p = none ∨ bufSize - (tx.wrCount - sh.rdCount) < numBytes ∨ numBytes = 0 ∨
    bufSize < tx.index ∨ bufSize < numBytes

def ReadRefused (rxIndex : UInt32) (sh : SharedBuf) (bufSize : UInt32) (p : Option (ℕ → UInt8)) (size : UInt32) :
    Prop :=
  p = none ∨ sh.wrCount - sh.rdCount = 0 ∨ size = 0 ∨ bufSize < rxIndex

theorem inside_nil (n : ℕ) : Inside n [] := nofun

theorem inside_append : Inside n (cs ++ ds) ↔ Inside n cs ∧ Inside n ds :=
  forall_mem_append

theorem inside_pair : Inside n [(a, b), (c, d)] ↔ (b = 0 ∨ a + b ≤ n) ∧ (d = 0 ∨ c + d ≤ n) := by
  simp [Inside]

theorem inside_replicate (h : Inside n cs) : Inside n (replicate k cs).flatten := by
  intro c hc
  obtain ⟨ds, hds, hc⟩ := mem_flatten.mp hc
  exact h c (eq_of_mem_replicate hds ▸ hc)

theorem inside_copyIn :
    Inside n (copyIn bufSize src count r).copies ↔
      Inside n r.copies ∧ (count.toNat = 0 ∨ r.tx.index.toNat + count.toNat ≤ n) := by
  by_cases h : 0 < count
  · rw [copyIn, if_pos h, inside_append]
    simp [Inside]
  · rw [copyIn, if_neg h]
    have hzero : count.toNat = 0 := by
      exact Nat.eq_zero_of_not_pos h
    simp [hzero]

theorem copyIn_index : (copyIn bufSize src count r).tx.index = advance bufSize r.tx.index count := by
  unfold copyIn
  split
  · rfl
  · rename_i h
    exact (if_neg h).symm

section
variable {tx : TxInfo} {sh : SharedBuf} {bufSize numBytes rxIndex size avail : UInt32} {p : Option (ℕ → UInt8)}

theorem habPipeWrite_refused (h : WriteRefused tx sh bufSize p numBytes) :
    habPipeWrite tx sh bufSize p numBytes = ⟨0, tx, sh.data, []⟩ := by
  unfold habPipeWrite
  split
  · rfl
  rename_i hcnt
  split
  · rfl
  dsimp only
  split
  · rfl
  rename_i hsp
  rw [if_pos]
  obtain h | h | h | h | h := h
  · exact absurd h hcnt
  · cases h
  · exact absurd (.inl h) hsp
  · exact absurd (.inr h) hsp
  · exact h

theorem habPipeWrite_accepted {p : ℕ → UInt8} (h : ¬WriteRefused tx sh bufSize (some p) numBytes) :
    habPipeWrite tx sh bufSize (some p) numBytes =
      copyIn bufSize (fun i => p ((firstPart bufSize tx.index numBytes).toNat + i))
        (numBytes - firstPart bufSize tx.index numBytes)
        (copyIn bufSize p (firstPart bufSize tx.index numBytes) ⟨numBytes, tx, sh.data, []⟩) := by
  simp only [WriteRefused, not_or] at h
  obtain ⟨hcnt, -, hsp, hpos, hidx, hsize⟩ := h
  rw [habPipeWrite, if_neg hcnt]
  dsimp only
  rw [if_neg (not_or.mpr ⟨hsp, hpos⟩), if_neg (not_or.mpr ⟨hidx, hsize⟩)]

/-- A write stays in the ring if its index is in it. -/
theorem habPipeWrite_inside_iff (p : Option (ℕ → UInt8)) :
    Inside bufSize.toNat (habPipeWrite tx sh bufSize p numBytes).copies ↔
      WriteRefused tx sh bufSize p numBytes ∨ tx.index < bufSize := by
  by_cases h : WriteRefused tx sh bufSize p numBytes
  · rw [habPipeWrite_refused h]
    exact ⟨fun _ => .inl h, fun _ => inside_nil _⟩
  cases p with
  | none => exact absurd (.inr (.inl rfl)) h
  | some p =>
    rw [habPipeWrite_accepted h, inside_copyIn, inside_copyIn, copyIn_index]
    simp only [h, false_or, inside_nil, true_and]
    simp only [WriteRefused, not_or, UInt32.not_lt, ← UInt32.toNat_inj, UInt32.toNat_zero] at h
    obtain ⟨-, -, -, hpos, hidx, hsize⟩ := h
    rw [parts_inside_iff hidx (Nat.pos_of_ne_zero hpos)]
    rw [le_iff_toNat_le] at hsize
    refine ⟨And.left, fun hlt => ⟨hlt, ?_⟩⟩
    rw [lt_iff_toNat_lt] at hlt
    omega

theorem habPipeRead_refused {mismatch clear : Bool} {ring : ℕ → ℕ → UInt8}
    (h : ReadRefused rxIndex sh bufSize p size) :
    habPipeRead mismatch ring rxIndex sh bufSize p size clear = ⟨0, rxIndex, sh.rdCount, none, p, [], []⟩ := by
  cases p with
  | none => rfl
  | some p => exact if_pos (h.resolve_left nofun)

theorem toRead_toNat : (if avail < size then avail else size).toNat = min avail.toNat size.toNat := by
  split_ifs with h
  · exact (min_eq_left (lt_iff_toNat_lt.mp h).le).symm
  · exact (min_eq_right (UInt32.le_iff_toNat_le.mp (UInt32.not_lt.mp h))).symm

/-- A read goes round the ring at most once. -/
theorem habPipeRead_inside_iff (mismatch clear : Bool) (ring : ℕ → ℕ → UInt8) (p : Option (ℕ → UInt8)) :
    Inside bufSize.toNat (habPipeRead mismatch ring rxIndex sh bufSize p size clear).ringCopies ∧
        Inside size.toNat (habPipeRead mismatch ring rxIndex sh bufSize p size clear).destCopies ↔
      ReadRefused rxIndex sh bufSize p size ∨
        rxIndex < bufSize ∧ rxIndex.toNat + min (sh.wrCount - sh.rdCount).toNat size.toNat ≤ 2 * bufSize.toNat := by
  by_cases h : ReadRefused rxIndex sh bufSize p size
  · rw [habPipeRead_refused h]
    exact ⟨fun _ => .inl h, fun _ => ⟨inside_nil _, inside_nil _⟩⟩
  cases p with
  | none => exact absurd (.inl rfl) h
  | some p =>
    have hgo := mt .inr h
    simp only [h, false_or]
    simp only [habPipeRead, if_neg hgo, inside_append, UInt32.add_sub_cancel]
    generalize hto : (if sh.wrCount - sh.rdCount < size then sh.wrCount - sh.rdCount else size) = toRead
    have htoRead : toRead.toNat = min (sh.wrCount - sh.rdCount).toNat size.toNat := hto ▸ toRead_toNat
    simp only [not_or, ← UInt32.toNat_inj, UInt32.toNat_zero, UInt32.not_lt] at hgo
    obtain ⟨hav, hsize, hidx⟩ := hgo
    have hpos : 0 < toRead.toNat := by omega
    -- the destination is written up to `toRead`, which is at most `size`
    have hdest : Inside size.toNat [(0, (firstPart bufSize rxIndex toRead).toNat),
        ((firstPart bufSize rxIndex toRead).toNat, (toRead - firstPart bufSize rxIndex toRead).toNat)] := by
      rw [inside_pair, UInt32.toNat_sub_of_le _ _ firstPart_le]
      have hle : (firstPart bufSize rxIndex toRead).toNat ≤ toRead.toNat := le_iff_toNat_le.mp firstPart_le
      omega
    rw [← htoRead, ← parts_inside_iff hidx hpos, ← inside_pair]
    exact ⟨fun hin => hin.1.1, fun hin => ⟨⟨hin, inside_replicate hin⟩, hdest, inside_replicate hdest⟩⟩

end

/-- Against any content of the shared memory: a write keeps to the ring if and only if it is refused or the
index is in front of the end of the ring; a read keeps to the ring and the destination if and only if it is
refused, or the index is in front of the end and what is read is not more than the rest of the ring and the
ring once more. -/
theorem pipe_inside_iff (tx : TxInfo) (rxIndex : UInt32) (sh : SharedBuf) (bufSize : UInt32) (p : Option (ℕ → UInt8))
    (numBytes size : UInt32) (mismatch clear : Bool) (ring : ℕ → ℕ → UInt8) :
    (Inside bufSize.toNat (habPipeWrite tx sh bufSize p numBytes).copies ↔
        WriteRefused tx sh bufSize p numBytes ∨ tx.index < bufSize) ∧
      (Inside bufSize.toNat (habPipeRead mismatch ring rxIndex sh bufSize p size clear).ringCopies ∧
          Inside size.toNat (habPipeRead mismatch ring rxIndex sh bufSize p size clear).destCopies ↔
        ReadRefused rxIndex sh bufSize p size ∨
          rxIndex < bufSize ∧ rxIndex.toNat + min (sh.wrCount - sh.rdCount).toNat size.toNat ≤ 2 * bufSize.toNat) :=
  ⟨habPipeWrite_inside_iff p, habPipeRead_inside_iff mismatch clear ring p⟩

/-- The peer sets the index to the size of the ring: a payload of 16 bytes is read from behind it. -/
theorem read_behind_ring :
    ¬∀ (rxIndex : UInt32) (sh : SharedBuf) (bufSize : UInt32) (p : ℕ → UInt8) (size : UInt32) (clear : Bool),
      size ≤ 0x7D000 →
      Inside bufSize.toNat
        (habPipeRead false (fun _ => sh.data) rxIndex sh bufSize (some p) size clear).ringCopies := by
  intro h
  have hin := h 524288 ⟨0, 16, 524288, fun _ => 0⟩ 524288 (fun _ => 0) 16 false (by decide)
  have hcopy := hin (524288, 16) (by decide)
  exact absurd hcopy (by decide)

end VendorKernel.Hab

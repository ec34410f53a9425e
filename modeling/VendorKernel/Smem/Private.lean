import Mathlib.Algebra.Order.Ring.Int

/-! Private partitions of shared memory (`smem.c`): the lists of uncached and cached entries, which grow
towards each other, lookup and allocation. Pointers are numbers below 2^64. -/
namespace VendorKernel.Smem

open List Nat

def EINVAL : ℕ := 22

def ENOENT : ℕ := 2

def EEXIST : ℕ := 17

def ENOSPC : ℕ := 28

def SMEM_PRIVATE_CANARY : UInt16 := 0xa5a5

structure Partition where
  virtBase : ℕ
  size : ℕ
  cacheline : ℕ
  size_lt : size < 2 ^ 32
  cacheline_lt : cacheline < 2 ^ 32
  /-- The last page of the address space is for error pointers. -/
  mapped : virtBase + size + 4096 ≤ 2 ^ 64

structure PartitionHeader where
  size : UInt32
  offsetFreeUncached : UInt32
  offsetFreeCached : UInt32

structure Entry where
  canary : UInt16
  item : UInt16
  size : UInt32
  paddingData : UInt16
  paddingHdr : UInt16

def phdrSize : ℕ := 32

def entrySize : ℕ := 16

structure Content where
  phdr : PartitionHeader
  entry : ℕ → Entry

def ptrAdd (p n : ℕ) : ℕ := (p + n) % 2 ^ 64

def ptrSub (p n : ℕ) : ℕ := (p + (2 ^ 64 - n % 2 ^ 64)) % 2 ^ 64

def align (x a : ℕ) : ℕ :=
  let mask := (a + (2 ^ 64 - 1)) % 2 ^ 64
  ((x + mask) % 2 ^ 64) &&& (2 ^ 64 - 1 - mask)

def InPartitionRange (ptr size start stop : ℕ) : Prop :=
  start ≤ ptr ∧ ptr ≤ ptrAdd ptr size ∧ ptrAdd ptr size ≤ stop

instance (ptr size start stop : ℕ) : Decidable (InPartitionRange ptr size start stop) :=
  inferInstanceAs (Decidable (_ ∧ _))

section
variable (part : Partition) (c : Content)

def pEnd : ℕ := ptrAdd part.virtBase part.size

def phdrToLastUncachedEntry : ℕ := ptrAdd part.virtBase c.phdr.offsetFreeUncached.toNat

def phdrToFirstCachedEntry : ℕ :=
  ptrSub (ptrAdd part.virtBase c.phdr.size.toNat) (align entrySize part.cacheline)

def phdrToLastCachedEntry : ℕ := ptrAdd part.virtBase c.phdr.offsetFreeCached.toNat

def phdrToFirstUncachedEntry : ℕ := ptrAdd part.virtBase phdrSize

def uncachedEntryNext (e : ℕ) : ℕ :=
  ptrAdd e (entrySize + (c.entry e).paddingHdr.toNat + (c.entry e).size.toNat)

def cachedEntryNext (e : ℕ) : ℕ :=
  ptrSub e ((c.entry e).size.toNat + align entrySize part.cacheline)

def uncachedEntryToItem (e : ℕ) : ℕ := ptrAdd e (entrySize + (c.entry e).paddingHdr.toNat)

def cachedEntryToItem (e : ℕ) : ℕ := ptrSub e (c.entry e).size.toNat

end

inductive WalkEnd where
  | badCanary
  | found (e : ℕ)
  | stuck
  | ended (e : ℕ)

section
variable (entry : ℕ → Entry) (next : ℕ → ℕ) (item : ℕ)

def uncachedWalk (stop e : ℕ) : WalkEnd × List ℕ :=
  if e < stop ∧ ptrAdd e entrySize < stop then
    if (entry e).canary ≠ SMEM_PRIVATE_CANARY then (.badCanary, [e])
    else if (entry e).item.toNat = item then (.found e, [e])
    else if next e ≤ e then (.stuck, [e])
    else
      let r := uncachedWalk stop (next e)
      (r.1, e :: r.2)
  else (.ended e, [])
termination_by stop - e
decreasing_by exact Nat.sub_lt_sub_left (And.left ‹_›) (Nat.lt_of_not_le ‹_›)

def cachedWalk (stop e : ℕ) : WalkEnd × List ℕ :=
  if stop < e then
    if (entry e).canary ≠ SMEM_PRIVATE_CANARY then (.badCanary, [e])
    else if (entry e).item.toNat = item then (.found e, [e])
    else if e ≤ next e then (.stuck, [e])
    else
      let r := cachedWalk stop (next e)
      (r.1, e :: r.2)
  else (.ended e, [])
termination_by e
decreasing_by exact Nat.lt_of_not_le ‹_›

end

inductive GetResult where
  | item (ptr size : ℕ)
  | err (errno : ℕ)

def getItem (part : Partition) (e : Entry) (ptr start stop : ℕ) : GetResult :=
  if e.size.toNat < part.size ∧ e.paddingData.toNat < e.size.toNat then
    let n := e.size.toNat - e.paddingData.toNat
    if InPartitionRange ptr n start stop then .item ptr n else .err EINVAL
  else .err EINVAL

def getCached (part : Partition) (c : Content) (item : ℕ) : GetResult × List ℕ :=
  let uncachedEnd := phdrToLastUncachedEntry part c
  let cachedEnd := phdrToLastCachedEntry part c
  if cachedEnd = pEnd part then (.err ENOENT, [])
  else
    let e := phdrToFirstCachedEntry part c
    if ¬InPartitionRange cachedEnd 0 uncachedEnd (pEnd part) ∨
        ¬InPartitionRange e entrySize cachedEnd (pEnd part) then
      (.err EINVAL, [])
    else
      match cachedWalk c.entry (cachedEntryNext part c) item cachedEnd e with
      | (.badCanary, reads) | (.stuck, reads) => (.err EINVAL, reads)
      | (.found e, reads) => (getItem part (c.entry e) (cachedEntryToItem c e) cachedEnd e, reads)
      | (.ended e, reads) => (.err (if e < part.virtBase then EINVAL else ENOENT), reads)

/-- `qcom_smem_get_private`, with the addresses of the entry headers it reads. -/
def qcomSmemGetPrivate (part : Partition) (c : Content) (item : ℕ) : GetResult × List ℕ :=
  let uncachedEnd := phdrToLastUncachedEntry part c
  let cachedEnd := phdrToLastCachedEntry part c
  if ¬InPartitionRange uncachedEnd 0 part.virtBase cachedEnd ∨ pEnd part < cachedEnd then (.err EINVAL, [])
  else
    match uncachedWalk c.entry (uncachedEntryNext c) item uncachedEnd (phdrToFirstUncachedEntry part) with
    | (.badCanary, reads) | (.stuck, reads) => (.err EINVAL, reads)
    | (.found e, reads) => (getItem part (c.entry e) (uncachedEntryToItem c e) e uncachedEnd, reads)
    | (.ended e, reads) =>
      if uncachedEnd < e then (.err EINVAL, reads)
      else
        let r := getCached part c item
        (r.1, reads ++ r.2)

inductive AllocResult where
  | done (hdr : ℕ) (entry : Entry) (offsetFreeUncached : UInt32)
  | err (errno : ℕ)

def allocSize (size : ℕ) : ℕ := (entrySize + align size 8) % 2 ^ 64

/-- `qcom_smem_alloc_private`, with the addresses of the entry headers it reads. -/
def qcomSmemAllocPrivate (part : Partition) (c : Content) (item size : ℕ) : AllocResult × List ℕ :=
  let stop := phdrToLastUncachedEntry part c
  let cached := phdrToLastCachedEntry part c
  if ¬InPartitionRange stop 0 part.virtBase cached ∨ pEnd part < cached then (.err EINVAL, [])
  else
    match uncachedWalk c.entry (uncachedEntryNext c) item stop (phdrToFirstUncachedEntry part) with
    | (.badCanary, reads) | (.stuck, reads) => (.err EINVAL, reads)
    | (.found _, reads) => (.err EEXIST, reads)
    | (.ended hdr, reads) =>
      if stop < hdr then (.err EINVAL, reads)
      else if cached < ptrAdd hdr (allocSize size) then (.err ENOSPC, reads)
      else
        let aligned := UInt32.ofNat (align size 8)
        (.done hdr
          ⟨SMEM_PRIVATE_CANARY, .ofNat item, aligned, .ofNat (aligned.toNat + 2 ^ 64 - size), 0⟩
          (c.phdr.offsetFreeUncached + .ofNat (allocSize size)), reads)

inductive ListEnd (entry : ℕ → Entry) (next : ℕ → ℕ) (item stop : ℕ) : ℕ → ℕ → Prop where
  | here {e : ℕ} (hout : ¬(e < stop ∧ e + entrySize < stop)) : ListEnd entry next item stop e e
  | next {e hdr : ℕ} (hin : e + entrySize < stop) (hcanary : (entry e).canary = SMEM_PRIVATE_CANARY)
    (hitem : (entry e).item.toNat ≠ item) (hnext : e < next e)
    (htail : ListEnd entry next item stop (next e) hdr) : ListEnd entry next item stop e hdr

def Partition.Has (part : Partition) (ptr n : ℕ) : Prop :=
  part.virtBase ≤ ptr ∧ ptr + n ≤ part.virtBase + part.size

section
variable {entry : ℕ → Entry} {next : ℕ → ℕ} {item stop e a hdr p n : ℕ}

theorem ptrAdd_eq (h : p + n < 2 ^ 64) : ptrAdd p n = p + n := mod_eq_of_lt h

theorem ptrAdd_entrySize (hstop : stop + entrySize ≤ 2 ^ 64) (he : e < stop) : ptrAdd e entrySize = e + entrySize :=
  ptrAdd_eq (Nat.lt_of_lt_of_le (Nat.add_lt_add_right he _) hstop)

theorem uncachedWalk_spec (hstop : stop + entrySize ≤ 2 ^ 64) (e : ℕ) :
    let r := uncachedWalk entry next item stop e
    (∀ a ∈ r.2, e ≤ a ∧ a + entrySize ≤ stop) ∧ r.2.length ≤ stop - e ∧ ∀ a, r.1 = .found a → a ∈ r.2 := by
  have hself (e : ℕ) (hin : e < stop ∧ ptrAdd e entrySize < stop) : e + entrySize ≤ stop := by
    have hadd := ptrAdd_entrySize hstop hin.1
    omega
  fun_induction uncachedWalk entry next item stop e with
  | case1 e hin | case2 e hin | case3 e hin =>
    have hend := hself e hin
    simp
    omega
  | case4 e hin hcan hitem hnext r ih =>
    obtain ⟨hrds, (hlen : r.2.length ≤ _), hfd⟩ := ih
    refine ⟨forall_mem_cons.mpr ⟨⟨Nat.le_refl _, hself e hin⟩, fun a ha => ?_⟩, ?_, fun a ha => ?_⟩
    · have hge := hrds a ha
      omega
    · rw [length_cons]
      omega
    · exact mem_cons_of_mem _ (hfd a ha)
  | case5 e hout => simp

theorem ListEnd.le (h : ListEnd entry next item stop e hdr) : e ≤ hdr := by
  induction h with
  | here => exact Nat.le_refl _
  | next hin hcan hitem hnext htail ih => exact Nat.le_trans (Nat.le_of_lt hnext) ih

theorem uncachedWalk_ended (hstop : stop + entrySize ≤ 2 ^ 64) :
    (uncachedWalk entry next item stop e).1 = .ended hdr ↔ ListEnd entry next item stop e hdr := by
  -- an entry is in the loop's range for the same reason in both
  have hrg (e : ℕ) : e < stop ∧ ptrAdd e entrySize < stop ↔ e < stop ∧ e + entrySize < stop :=
    and_congr_right fun he => by rw [ptrAdd_entrySize hstop he]
  constructor
  · fun_induction uncachedWalk entry next item stop e with
    | case1 | case2 | case3 => nofun
    | case4 e hin hcan hitem hnext r ih =>
      exact fun h => .next ((hrg e).mp hin).2 (not_not.mp hcan) hitem (Nat.lt_of_not_le hnext) (ih h)
    | case5 e hout =>
      rintro ⟨⟩
      exact .here (mt (hrg _).mpr hout)
  · intro h
    induction h with
    | here hout => rw [uncachedWalk, if_neg (mt (hrg _).mp hout)]
    | next hin hcan hitem hnext _ ih =>
      rw [uncachedWalk, if_pos ((hrg _).mpr ⟨by omega, hin⟩), if_neg (not_not.mpr hcan), if_neg hitem,
        if_neg (Nat.not_le.mpr hnext)]
      exact ih

theorem cachedWalk_spec (entry : ℕ → Entry) (next : ℕ → ℕ) (item stop e : ℕ) :
    let r := cachedWalk entry next item stop e
    (∀ a ∈ r.2, stop < a ∧ a ≤ e) ∧ r.2.length ≤ e - stop ∧ ∀ a, r.1 = .found a → a ∈ r.2 := by
  fun_induction cachedWalk entry next item stop e with
  | case1 e hin | case2 e hin | case3 e hin =>
    simp
    omega
  | case4 e hin hcan hitem hnext r ih =>
    obtain ⟨hrds, (hlen : r.2.length ≤ _), hfd⟩ := ih
    refine ⟨forall_mem_cons.mpr ⟨⟨hin, Nat.le_refl _⟩, fun a ha => ?_⟩, ?_, fun a ha => ?_⟩
    · have hle := hrds a ha
      omega
    · rw [length_cons]
      omega
    · exact mem_cons_of_mem _ (hfd a ha)
  | case5 e hout => simp

end

section
variable {part : Partition} {c : Content} {item ptr start stop p n : ℕ}

def HeaderOk (part : Partition) (c : Content) : Prop :=
  c.phdr.offsetFreeUncached.toNat ≤ c.phdr.offsetFreeCached.toNat ∧ c.phdr.offsetFreeCached.toNat ≤ part.size

theorem pEnd_eq : pEnd part = part.virtBase + part.size :=
  ptrAdd_eq (by have := part.mapped; omega)

theorem firstUncached_eq (part : Partition) : phdrToFirstUncachedEntry part = part.virtBase + phdrSize :=
  ptrAdd_eq (by have := part.mapped; unfold phdrSize; omega)

theorem lastCached_eq (h : HeaderOk part c) :
    phdrToLastCachedEntry part c = part.virtBase + c.phdr.offsetFreeCached.toNat :=
  ptrAdd_eq (by have := part.mapped; have := h.2; omega)

theorem lastUncached_eq (h : HeaderOk part c) :
    phdrToLastUncachedEntry part c = part.virtBase + c.phdr.offsetFreeUncached.toNat :=
  ptrAdd_eq (by have := part.mapped; have := h.1; have := h.2; omega)

theorem headerOk_iff :
    (¬InPartitionRange (phdrToLastUncachedEntry part c) 0 part.virtBase (phdrToLastCachedEntry part c) ∨
      pEnd part < phdrToLastCachedEntry part c) ↔ ¬HeaderOk part c := by
  have hmap := part.mapped
  have hu := c.phdr.offsetFreeUncached.toNat_lt
  have hc := c.phdr.offsetFreeCached.toNat_lt
  rw [pEnd_eq]
  simp only [InPartitionRange, HeaderOk, phdrToLastUncachedEntry, phdrToLastCachedEntry, ptrAdd]
  omega

theorem getItem_range {e : Entry} (hptr : ptr < 2 ^ 64) (h : getItem part e ptr start stop = .item p n) :
    start ≤ p ∧ p + n ≤ stop := by
  have hn := e.size.toNat_lt
  unfold getItem at h
  split at h
  · simp only at h
    split at h
    · rename_i hin
      cases h
      obtain ⟨hini, hwrap, hstop⟩ := hin
      unfold ptrAdd at hwrap hstop
      omega
    · cases h
  · cases h

theorem ptrAdd_lt (p n : ℕ) : ptrAdd p n < 2 ^ 64 := mod_lt _ (by decide)

theorem ptrSub_lt (p n : ℕ) : ptrSub p n < 2 ^ 64 := mod_lt _ (by decide)

/-- A lookup reads headers in the partition, no more than it has addresses, and returns an item of the
uncached or the cached part. -/
structure GetSafe (part : Partition) (c : Content) (r : GetResult × List ℕ) : Prop where
  bounded : r.2.length ≤ part.size
  reads : ∀ a ∈ r.2, part.Has a entrySize
  item : ∀ ptr n, r.1 = .item ptr n → HeaderOk part c ∧
    (part.virtBase + phdrSize ≤ ptr ∧ ptr + n ≤ part.virtBase + c.phdr.offsetFreeUncached.toNat ∨
      part.virtBase + c.phdr.offsetFreeCached.toNat ≤ ptr ∧ ptr + n ≤ part.virtBase + part.size)

theorem stop_le (h : HeaderOk part c) : part.virtBase + c.phdr.offsetFreeUncached.toNat + entrySize ≤ 2 ^ 64 := by
  have hmap := part.mapped
  have hle := h.1
  have hsize := h.2
  unfold entrySize
  omega

theorem getCached_safe (h : HeaderOk part c) (item : ℕ) :
    (getCached part c item).2.length ≤ part.size - c.phdr.offsetFreeCached.toNat ∧
      (∀ a ∈ (getCached part c item).2, part.Has a entrySize) ∧
      ∀ ptr n, (getCached part c item).1 = .item ptr n →
        part.virtBase + c.phdr.offsetFreeCached.toNat ≤ ptr ∧ ptr + n ≤ part.virtBase + part.size := by
  unfold getCached
  simp only [lastCached_eq h, lastUncached_eq h, pEnd_eq]
  split
  · exact ⟨by simp, nofun, nofun⟩
  split
  · exact ⟨by simp, nofun, nofun⟩
  rename_i hch
  -- the first header is in the partition, and the walk goes down from it
  have hfst : phdrToFirstCachedEntry part c + entrySize ≤ part.virtBase + part.size := by
    obtain ⟨-, hwrap, hstop⟩ := not_not.mp (not_or.mp hch).2
    unfold ptrAdd entrySize at hwrap hstop
    unfold entrySize
    omega
  obtain ⟨hrds, hlen, hfd⟩ := cachedWalk_spec c.entry (cachedEntryNext part c) item
    (part.virtBase + c.phdr.offsetFreeCached.toNat) (phdrToFirstCachedEntry part c)
  have hhas : ∀ a, part.virtBase + c.phdr.offsetFreeCached.toNat < a ∧ a ≤ phdrToFirstCachedEntry part c →
      part.Has a entrySize := fun a ha => ⟨by omega, by omega⟩
  cases hw : cachedWalk c.entry (cachedEntryNext part c) item (part.virtBase + c.phdr.offsetFreeCached.toNat)
      (phdrToFirstCachedEntry part c) with
  | mk w reads =>
    simp only [hw] at hrds hlen hfd
    have hsafe : reads.length ≤ part.size - c.phdr.offsetFreeCached.toNat ∧ ∀ a ∈ reads, part.Has a entrySize :=
      ⟨by omega, fun a ha => hhas a (hrds a ha)⟩
    cases w with
    | badCanary | stuck | ended => exact ⟨hsafe.1, hsafe.2, nofun⟩
    | found e =>
      refine ⟨hsafe.1, hsafe.2, fun ptr n hitem => ?_⟩
      have hrg := getItem_range (ptrSub_lt ..) hitem
      have hbd := hrds e (hfd e rfl)
      omega

/-- A lookup is safe whatever the partition holds. -/
theorem getPrivate_safe (part : Partition) (c : Content) (item : ℕ) :
    GetSafe part c (qcomSmemGetPrivate part c item) := by
  unfold qcomSmemGetPrivate
  simp only
  split
  · exact ⟨by simp, nofun, nofun⟩
  rename_i hok
  have hok : HeaderOk part c := not_not.mp (mt headerOk_iff.mpr hok)
  obtain ⟨hrds, hlen, hfd⟩ :=
    @uncachedWalk_spec c.entry (uncachedEntryNext c) item _ (stop_le hok) (part.virtBase + phdrSize)
  simp only [lastUncached_eq hok, firstUncached_eq]
  have hsize := hok.2
  have hle := hok.1
  cases hw : uncachedWalk c.entry (uncachedEntryNext c) item
      (part.virtBase + c.phdr.offsetFreeUncached.toNat) (part.virtBase + phdrSize) with
  | mk w reads =>
    simp only [hw] at hrds hlen hfd
    have hhas : ∀ a ∈ reads, part.Has a entrySize := by
      intro a ha
      have hbd := hrds a ha
      exact ⟨by omega, by omega⟩
    have hbounded : reads.length ≤ part.size := by omega
    cases w with
    | badCanary | stuck => exact ⟨hbounded, hhas, nofun⟩
    | found e =>
      refine ⟨hbounded, hhas, fun ptr n hitem => ⟨hok, .inl ?_⟩⟩
      have hrg := getItem_range (ptrAdd_lt ..) hitem
      have hbd := hrds e (hfd e rfl)
      omega
    | ended e =>
      simp only
      split
      · exact ⟨hbounded, hhas, nofun⟩
      · obtain ⟨hclen, hchas, hcitem⟩ := getCached_safe hok item
        refine ⟨?_, fun a ha => ?_, fun ptr n hitem => ⟨hok, .inr (hcitem ptr n hitem)⟩⟩
        · simp only [length_append]
          omega
        · exact (mem_append.mp ha).elim (hhas a) (hchas a)

end

/-- The ranges that an allocation writes: the fields of the entry header up to the padding, and
`offset_free_uncached`. -/
def AllocResult.writes (part : Partition) : AllocResult → List (ℕ × ℕ)
  | .done hdr _ _ => [(hdr, 12), (part.virtBase + 12, 4)]
  | .err _ => []

structure AllocSafe (part : Partition) (r : AllocResult × List ℕ) : Prop where
  bounded : r.2.length ≤ part.size
  reads : ∀ a ∈ r.2, part.Has a entrySize
  writes : ∀ w ∈ r.1.writes part, part.Has w.1 w.2

def roundUp (size : ℕ) : ℕ := (size + 7) / 8 * 8

/-- At the end of the uncached list there is room for a header, or the new end is not taken for one. -/
def Fits (part : Partition) (c : Content) (item size : ℕ) : Prop :=
  HeaderOk part c → ∀ hdr,
    ListEnd c.entry (uncachedEntryNext c) item (part.virtBase + c.phdr.offsetFreeUncached.toNat)
      (part.virtBase + phdrSize) hdr →
    hdr ≤ part.virtBase + c.phdr.offsetFreeUncached.toNat →
    hdr + 12 ≤ part.virtBase + part.size ∨
      ¬(2 ^ 64 ≤ hdr + entrySize + roundUp size ∧
        hdr + entrySize + roundUp size ≤ 2 ^ 64 + (part.virtBase + c.phdr.offsetFreeCached.toNat))

section
variable {part : Partition} {c : Content} {item size y : ℕ}

theorem and_not_seven (hy : y < 2 ^ 64) : y &&& (2 ^ 64 - 8) = y / 8 * 8 := by
  have hmask : 2 ^ 64 - 8 = (2 ^ 61 - 1) <<< 3 := by decide
  have hdiv : y / 8 * 8 = (y >>> 3) <<< 3 := by
    rw [shiftRight_eq_div_pow, shiftLeft_eq]
  rw [hmask, hdiv]
  apply eq_of_testBit_eq
  intro i
  simp only [testBit_and, testBit_shiftLeft, testBit_shiftRight, testBit_two_pow_sub_one]
  by_cases hi : 3 ≤ i
  · by_cases hi' : i < 64
    · simp [hi, show 3 + (i - 3) = i by omega, show i - 3 < 61 by omega]
    · have hbit : y.testBit i = false :=
        Nat.testBit_lt_two_pow (Nat.lt_of_lt_of_le hy (Nat.pow_le_pow_right (by decide) (by omega)))
      simp [hi, show 3 + (i - 3) = i by omega, hbit]
  · simp [hi]

theorem align_eight (size : ℕ) : align size 8 = roundUp size % 2 ^ 64 := by
  have hmask : (8 + (2 ^ 64 - 1)) % 2 ^ 64 = 7 := by decide
  simp only [align, hmask, roundUp]
  refine (and_not_seven (mod_lt _ (by decide))).trans ?_
  omega

theorem ptrAdd_allocSize (hdr size : ℕ) :
    ptrAdd hdr (allocSize size) = (hdr + entrySize + roundUp size) % 2 ^ 64 := by
  rw [ptrAdd, allocSize, align_eight]
  omega

theorem alloc_done_iff (h : HeaderOk part c) (hdr : ℕ) :
    (∃ e off, (qcomSmemAllocPrivate part c item size).1 = .done hdr e off) ↔
      ListEnd c.entry (uncachedEntryNext c) item (part.virtBase + c.phdr.offsetFreeUncached.toNat)
          (part.virtBase + phdrSize) hdr ∧
        hdr ≤ part.virtBase + c.phdr.offsetFreeUncached.toNat ∧
        (hdr + entrySize + roundUp size) % 2 ^ 64 ≤ part.virtBase + c.phdr.offsetFreeCached.toNat := by
  rw [← uncachedWalk_ended (stop_le h)]
  unfold qcomSmemAllocPrivate
  rw [if_neg (mt headerOk_iff.mp (not_not.mpr h))]
  simp only [lastUncached_eq h, lastCached_eq h, firstUncached_eq, ptrAdd_allocSize]
  cases hw : uncachedWalk c.entry (uncachedEntryNext c) item
      (part.virtBase + c.phdr.offsetFreeUncached.toNat) (part.virtBase + phdrSize) with
  | mk w reads =>
    cases w with
    | badCanary | stuck | found => simp
    | ended e =>
      simp only
      split
      · refine ⟨nofun, ?_⟩
        rintro ⟨⟨⟩, hin, -⟩
        omega
      · rename_i hin
        split
        · refine ⟨nofun, ?_⟩
          rintro ⟨⟨⟩, -, hfits⟩
          omega
        · rename_i hfits
          simp only [AllocResult.done.injEq, WalkEnd.ended.injEq]
          constructor
          · rintro ⟨_, _, rfl, _⟩
            exact ⟨rfl, Nat.not_lt.mp hin, Nat.not_lt.mp hfits⟩
          · rintro ⟨rfl, -, -⟩
            exact ⟨_, _, rfl, rfl, rfl⟩

theorem alloc_reads (h : HeaderOk part c) :
    (qcomSmemAllocPrivate part c item size).2 = (uncachedWalk c.entry (uncachedEntryNext c) item
      (phdrToLastUncachedEntry part c) (phdrToFirstUncachedEntry part)).2 := by
  unfold qcomSmemAllocPrivate
  rw [if_neg (mt headerOk_iff.mp (not_not.mpr h))]
  cases hw : uncachedWalk c.entry (uncachedEntryNext c) item (phdrToLastUncachedEntry part c)
      (phdrToFirstUncachedEntry part) with
  | mk w reads =>
    cases w with
    | badCanary | stuck | found => rfl
    | ended e =>
      simp only
      split
      · rfl
      · split <;> rfl

/-- An allocation is safe just if it fits. -/
theorem alloc_safe_iff (part : Partition) (c : Content) (item : ℕ) (size : UInt64) :
    AllocSafe part (qcomSmemAllocPrivate part c item size.toNat) ↔ Fits part c item size.toNat := by
  by_cases h : HeaderOk part c
  case neg =>
    rw [qcomSmemAllocPrivate, if_pos (headerOk_iff.mpr h)]
    exact ⟨fun _ h' => absurd h' h, fun _ => ⟨by simp, nofun, nofun⟩⟩
  have hmap := part.mapped
  have hsize := size.toNat_lt
  constructor
  · intro hsafe _ hdr hend hle
    refine or_iff_not_imp_left.mpr fun hroom hwrap => ?_
    have hfits : (hdr + entrySize + roundUp size.toNat) % 2 ^ 64 ≤ part.virtBase + c.phdr.offsetFreeCached.toNat := by
      omega
    obtain ⟨e, off, hdone⟩ := (alloc_done_iff h hdr).mpr ⟨hend, hle, hfits⟩
    have hhas := hsafe.writes (hdr, 12) (by simp [hdone, AllocResult.writes])
    exact hroom hhas.2
  · intro hfits
    obtain ⟨hrds, hlen, -⟩ :=
      @uncachedWalk_spec c.entry (uncachedEntryNext c) item _ (stop_le h) (part.virtBase + phdrSize)
    have hofu := h.1
    have hofc := h.2
    refine ⟨?_, fun a ha => ?_, ?_⟩
    · rw [alloc_reads h, lastUncached_eq h, firstUncached_eq]
      omega
    · rw [alloc_reads h, lastUncached_eq h, firstUncached_eq] at ha
      have hbd := hrds a ha
      exact ⟨by omega, by omega⟩
    · cases hres : (qcomSmemAllocPrivate part c item size.toNat).1 with
      | err => nofun
      | done hdr e off =>
        obtain ⟨hend, hle, hsp⟩ := (alloc_done_iff h hdr).mp ⟨e, off, hres⟩
        have hini := hend.le
        have hroom : hdr + 12 ≤ part.virtBase + part.size := by
          rcases hfits h hdr hend hle with hroom | hno
          · exact hroom
          · unfold roundUp entrySize at *
            omega
        unfold phdrSize at hini
        simp only [AllocResult.writes, forall_mem_cons]
        exact ⟨⟨by omega, hroom⟩, ⟨by omega, by omega⟩, nofun⟩

end

/-- A lookup ends, reads headers in the partition only and returns items of its two parts only, for every
content; an allocation keeps to the partition if and only if its size does not wrap around to a place in
front of the cached part while there is no room for a header. -/
theorem private_access_safe (part : Partition) (c : Content) (item : ℕ) (size : UInt64) :
    GetSafe part c (qcomSmemGetPrivate part c item) ∧
      (AllocSafe part (qcomSmemAllocPrivate part c item size.toNat) ↔ Fits part c item size.toNat) :=
  ⟨getPrivate_safe part c item, alloc_safe_iff part c item size⟩

/-- A full partition of 64 bytes with one item: a request for 2^64 - 20 bytes writes a header behind the
partition. -/
theorem alloc_writes_behind :
    ¬∀ (part : Partition) (c : Content) (item : ℕ) (size : UInt64),
      AllocSafe part (qcomSmemAllocPrivate part c item size.toNat) := by
  intro h
  let part : Partition := ⟨4096, 64, 64, by decide, by decide, by decide⟩
  let c : Content := ⟨⟨64, 64, 64⟩, fun _ => ⟨SMEM_PRIVATE_CANARY, 7, 16, 0, 0⟩⟩
  have hend : ListEnd c.entry (uncachedEntryNext c) 9 4160 4128 4160 :=
    .next (by decide) rfl (by decide) (by decide) (.here (by decide))
  have hfits := (alloc_safe_iff part c 9 (0 - 20)).mp (h part c 9 (0 - 20))
  have hroom := hfits ⟨by decide, by decide⟩ 4160 hend (by decide)
  exact absurd hroom (by decide)

end VendorKernel.Smem

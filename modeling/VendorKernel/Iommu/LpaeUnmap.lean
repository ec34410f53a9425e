import VendorKernel.Iommu.Lpae

/-! `qcom_arm_lpae_unmap_pages`, with the contiguous hint. -/
namespace VendorKernel.Iommu.Lpae

structure UnmapResult (h : ℕ) where
  unmapped : ℕ
  table : Table h
  /-- `arm_lpae_cont_unmap` has gone past the end of its table. Not in the source. -/
  outside : Bool

def roundUp (n m : ℕ) : ℕ := (n + m - 1) / m * m

def contStart (d : Config) (h bits iova ptep : ℕ) : ℕ :=
  let contIova := iova / (d.blockSize h * d.findNumCont h) * (d.blockSize h * d.findNumCont h)
  ptep - d.lvlIdx bits h iova + d.lvlIdx bits h contIova

def contUnmap (d : Config) {h : ℕ} (bits iova ptep num : ℕ) (t : Table h) : Table h × Bool :=
  if d.contigHint then
    let first := contStart d h bits iova ptep
    let last := first + roundUp num (d.findNumCont h)
    (fun j => if first ≤ j ∧ j < last ∧ j < 2 ^ bits then (t j).clearCont else t j, 2 ^ bits < last)
  else (t, false)

def contUnmapIf (d : Config) {h : ℕ} (bits iova ptep num : ℕ) (t : Table h) : Table h × Bool :=
  if (t ptep).contBit then contUnmap d bits iova ptep num t else (t, false)

/-- The loop of `__arm_lpae_unmap`: the entries removed, the table and whether a clearing went outside. -/
def unmapLoop (d : Config) {h : ℕ} (bits iova pgcount : ℕ) :
    (n ptep : ℕ) → Table h → ℕ × Table h × Bool
  | 0, _, t => (0, t, false)
  | n + 1, ptep, t =>
    if (t ptep).isZero then (0, t, false)
    else
      let c := contUnmapIf d bits iova ptep pgcount t
      let r := unmapLoop d bits iova pgcount n (ptep + 1) (Function.update c.1 ptep .zero)
      (r.1 + 1, r.2.1, c.2 || r.2.2)

def numEntries (d : Config) (bits h iova size pgcount : ℕ) : ℕ :=
  min (d.checkAndSetNumCont size h * pgcount) (d.ptesPerTable - d.lvlIdx bits h iova)

def unmapMatch (d : Config) {h : ℕ} (bits iova size pgcount : ℕ) (t : Table h) : UnmapResult h :=
  let r := unmapLoop d bits iova pgcount (numEntries d bits h iova size pgcount) (d.lvlIdx bits h iova) t
  ⟨r.1 * (size / d.checkAndSetNumCont size h), r.2.1, r.2.2⟩

def clearEntries {h : ℕ} (t : Table h) (start n : ℕ) : Table h := fun j =>
  if start ≤ j ∧ j < start + n then .zero else t j

def tblcntSub (cnt n : ℕ) : ℕ := (cnt + tblcntMod - n) % tblcntMod

/-- The last-level path clears `entries` entries without a look at them; at count 0 the table is freed. -/
def unmapLast (d : Config) {h : ℕ} (iova size pgcount cnt : ℕ) (entries : Table h) : ℕ × Entry (h + 1) × Bool :=
  let start := d.lvlIdx d.bitsPerLevel h iova
  let n := numEntries d d.bitsPerLevel h iova size pgcount
  let c := contUnmapIf d d.bitsPerLevel iova start n entries
  let cnt' := tblcntSub cnt n
  (n * (size / d.checkAndSetNumCont size h),
    if cnt' = 0 then .zero else .table cnt' (clearEntries c.1 start n), c.2)

def splitTable (d : Config) (h addr prot start n : ℕ) : Table h := fun j =>
  if d.ptesPerTable ≤ j ∨ start ≤ j ∧ j < start + n then .zero
  else .leaf (paddrToIopte (iopteToPaddr d addr + j * d.blockSize h)) prot false

def matchesLevel (d : Config) (size h : ℕ) : Bool :=
  size == d.blockSize h || size == d.findNumCont h * d.blockSize h

/-- `__arm_lpae_unmap` with `arm_lpae_split_blk_unmap`; `alloc h` says whether a table of height `h`
can be allocated. -/
def armLpaeUnmap (d : Config) (alloc : ℕ → Bool) (iova : ℕ) :
    (h bits size pgcount : ℕ) → Table h → UnmapResult h
  | 0, bits, size, pgcount, t =>
    let start := d.lvlIdx bits 0 iova
    if (t start).isZero then ⟨0, t, false⟩
    else if matchesLevel d size 0 then unmapMatch d bits iova size pgcount t
    else
      -- there is no level to split into
      let c := contUnmapIf d bits iova start (d.findNumCont 0) t
      ⟨0, c.1, c.2⟩
  | h + 1, bits, size, pgcount, t =>
    let start := d.lvlIdx bits (h + 1) iova
    if (t start).isZero then ⟨0, t, false⟩
    else if matchesLevel d size (h + 1) then unmapMatch d bits iova size pgcount t
    else
      match t start with
      | .zero => ⟨0, t, false⟩
      | .table cnt entries =>
        if h = 0 then
          let r := unmapLast d iova size pgcount cnt entries
          ⟨r.1, Function.update t start r.2.1, r.2.2⟩
        else
          let r := armLpaeUnmap d alloc iova h d.bitsPerLevel size pgcount entries
          ⟨r.unmapped, Function.update t start (.table cnt r.table), r.outside⟩
      | .leaf addr prot cont =>
        let numCont := d.checkAndSetNumCont size h
        let c := contUnmapIf d bits iova start (d.findNumCont (h + 1)) t
        -- the swap of `arm_lpae_install_table` expects the block as it was read
        if !alloc h || !(c.1 start).eqLeaf addr prot cont then ⟨0, c.1, c.2⟩
        else if size / numCont = d.blockSize h then
          let n := numEntries d d.bitsPerLevel h iova size pgcount
          ⟨n * (size / numCont), Function.update c.1 start
            (.table ((d.ptesPerTable - n) % tblcntMod)
              (splitTable d h addr prot (d.lvlIdx d.bitsPerLevel h iova) n)), c.2⟩
        else
          let r := armLpaeUnmap d alloc iova h d.bitsPerLevel (size / numCont) (numCont * pgcount)
            (splitTable d h addr prot 0 0)
          ⟨r.unmapped, Function.update c.1 start (.table (d.ptesPerTable % tblcntMod) r.table), c.2 || r.outside⟩

def unmapPages (d : Config) (alloc : ℕ → Bool) (root : Table d.height) (iova pgsize pgcount : ℕ) :
    UnmapResult d.height :=
  if pgsize = 0 ∨ pgsize &&& d.pgsizeBitmap ≠ pgsize ∨ pgcount = 0 then ⟨0, root, false⟩
  else if iova >>> d.ias ≠ 0 then ⟨0, root, false⟩
  else armLpaeUnmap d alloc iova d.height d.pgdBits pgsize pgcount root

end VendorKernel.Iommu.Lpae

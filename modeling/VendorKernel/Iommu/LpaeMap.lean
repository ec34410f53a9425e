import VendorKernel.Iommu.Lpae

/-! `qcom_arm_lpae_map_pages` and `qcom_arm_lpae_map_sg`. A table that is reached through an entry
is rebuilt with the entry; the count that `arm_lpae_init_pte` adds to the entry above comes back
with the table. -/
namespace VendorKernel.Iommu.Lpae

def enomem : ℕ := 12
def eexist : ℕ := 17
def einval : ℕ := 22
def erange : ℕ := 34

structure MapResult (h : ℕ) where
  ret : ℕ
  /-- The bytes that were mapped; `*mapped` gets them unless it is `NULL`. -/
  mapped : ℕ
  added : ℕ
  lvl : ℕ
  table : Table h

def initPtes (d : Config) {h : ℕ} (t : Table h) (start n paddr prot : ℕ) (cont : Bool) : Table h :=
  fun j =>
    if start ≤ j ∧ j < start + n then
      .leaf (paddrToIopte (paddr + (j - start) * d.blockSize h)) prot cont
    else t j

def armLpaeInitPte (d : Config) {h : ℕ} (t : Table h) (start n paddr prot : ℕ) (cont : Bool) : Option (Table h) :=
  if ∃ i ∈ List.range n, (t (start + i)).isZero = false then none
  else some (initPtes d t start n paddr prot cont)

/-- `num_entries` of the leaf case. With a `map_state` the count is not limited to the table. -/
def leafCount (d : Config) (ms : Bool) (pgcount start : ℕ) : ℕ :=
  if ms then pgcount else min pgcount (d.ptesPerTable - start)

def mapLeaf (d : Config) (ms : Bool) (iova paddr prot : ℕ) {h : ℕ} (bits size pgcount : ℕ)
    (cont : Bool) (t : Table h) : MapResult h :=
  let start := d.lvlIdx bits h iova
  let n := leafCount d ms pgcount start
  match armLpaeInitPte d t start n paddr prot cont with
  | none => ⟨eexist, 0, 0, h, t⟩
  | some t' => ⟨0, size * n, n, h, t'⟩

def Entry.child {h : ℕ} : Entry (h + 1) → Option (ℕ × Table h)
  | .zero => some (0, fun _ => .zero)
  | .leaf .. => none
  | .table cnt entries => some (cnt, entries)

/-- Size, count and contiguous bit for the next level: a contiguous size is mapped as groups of that
level's entries. -/
def mapNext (d : Config) (h size pgcount : ℕ) (cont : Bool) : ℕ × ℕ × Bool :=
  if d.pteIsContiguousRange size h then (d.blockSize h, d.findNumCont h * pgcount, true)
  else (size, pgcount, cont)

/-- `__arm_lpae_map`; `alloc h` says whether a table of height `h` can be allocated. -/
def armLpaeMap (d : Config) (alloc : ℕ → Bool) (ms : Bool) (iova paddr prot : ℕ) :
    (h bits size pgcount : ℕ) → (cont : Bool) → Table h → MapResult h
  | 0, bits, size, pgcount, cont, t =>
    if size = d.blockSize 0 then mapLeaf d ms iova paddr prot bits size pgcount cont t
    else ⟨einval, 0, 0, 0, t⟩
  | h + 1, bits, size, pgcount, cont, t =>
    if size = d.blockSize (h + 1) then mapLeaf d ms iova paddr prot bits size pgcount cont t
    else
      let start := d.lvlIdx bits (h + 1) iova
      if (t start).isZero && !alloc h then ⟨enomem, 0, 0, h, t⟩
      else
        match (t start).child with
        | none => ⟨eexist, 0, 0, h, t⟩
        | some (cnt, entries) =>
          let next := mapNext d h size pgcount cont
          let r := armLpaeMap d alloc ms iova paddr prot h d.bitsPerLevel next.1 next.2.1 next.2.2 entries
          ⟨r.ret, r.mapped, 0, r.lvl, Function.update t start (.table ((cnt + r.added) % tblcntMod) r.table)⟩

def hasAccess (prot : ℕ) : Bool := prot &&& (iommuRead ||| iommuWrite) != 0

def mapPages (d : Config) (alloc : ℕ → Bool) (root : Table d.height)
    (iova paddr pgsize pgcount prot : ℕ) : MapResult d.height :=
  if pgsize = 0 ∨ pgsize &&& d.pgsizeBitmap ≠ pgsize ∨ pgcount = 0 then ⟨einval, 0, 0, 0, root⟩
  else if iova >>> d.ias ≠ 0 ∨ paddr >>> d.oas ≠ 0 then ⟨erange, 0, 0, 0, root⟩
  else if !hasAccess prot then ⟨0, 0, 0, 0, root⟩
  else
    armLpaeMap d alloc false iova paddr (protToPte prot) d.height d.pgdBits pgsize pgcount false root

/-- `struct map_state`: the last-level table of the last page, by an address that leads to it. -/
structure MapState where
  iovaEnd : ℕ
  pgtable : ℕ

/-- The entries that `arm_lpae_map_by_pgsize` writes into the table of the map state; `none` if that
table is no longer there. -/
def armLpaeMapState (d : Config) (pgtable iova paddr prot n : ℕ) :
    (h bits : ℕ) → Table h → Option (MapResult h)
  | 0, bits, t =>
    match armLpaeInitPte d t (d.lvlIdx bits 0 iova) n paddr prot false with
    | none => some ⟨eexist, 0, 0, 0, t⟩
    | some t' => some ⟨0, 0, n, 0, t'⟩
  | h + 1, bits, t =>
    let start := d.lvlIdx bits (h + 1) pgtable
    match t start with
    | .table cnt entries =>
      (armLpaeMapState d pgtable iova paddr prot n h d.bitsPerLevel entries).map fun r =>
        ⟨r.ret, 0, 0, 0, Function.update t start (.table ((cnt + r.added) % tblcntMod) r.table)⟩
    | _ => none

/-- `arm_lpae_pgsize`: the biggest supported size that fits into `size` and to which both addresses
are aligned. -/
def armLpaePgsize (d : Config) (iova paddr size : ℕ) : ℕ :=
  d.pageSizes.foldl
    (fun best s => if s ≤ size ∧ s ∣ iova ∧ s ∣ paddr ∧ best < s then s else best) 0

structure SgState (h : ℕ) where
  root : Table h
  mapped : ℕ
  ms : Option MapState

def mapRound (d : Config) (alloc : ℕ → Bool) (prot iova paddr pgsize : ℕ) (s : SgState d.height) :
    Option (ℕ × SgState d.height) :=
  match s.ms.filter (fun ms => iova < ms.iovaEnd) with
  | some ms =>
    (armLpaeMapState d ms.pgtable iova paddr prot (d.checkAndSetNumCont pgsize 0) d.height d.pgdBits
      s.root).map fun r => (r.ret, ⟨r.table, s.mapped + pgsize, s.ms⟩)
  | none =>
    let r := armLpaeMap d alloc true iova paddr prot d.height d.pgdBits pgsize 1 false s.root
    -- pages leave a map state behind, blocks none
    some (r.ret, ⟨r.table, s.mapped + pgsize,
      if r.lvl = 0 then some ⟨(iova / d.blockSize 1 + 1) * d.blockSize 1, iova⟩ else none⟩)

/-- The loop of `arm_lpae_map_by_pgsize`. Every round maps a page at least, so there are at most as
many rounds as pages. -/
def mapLoop (d : Config) (alloc : ℕ → Bool) (prot : ℕ) :
    (rounds iova paddr size : ℕ) → SgState d.height → Option (ℕ × SgState d.height)
  | 0, _, _, _, s => some (0, s)
  | rounds + 1, iova, paddr, size, s =>
    if size = 0 then some (0, s)
    else
      let pgsize := armLpaePgsize d iova paddr size
      match mapRound d alloc prot iova paddr pgsize s with
      | none => none
      | some (ret, s') =>
        if ret ≠ 0 then some (ret, { s' with mapped := s.mapped })
        else mapLoop d alloc prot rounds (iova + pgsize) (paddr + pgsize) (size - pgsize) s'

def mapByPgsize (d : Config) (alloc : ℕ → Bool) (iova paddr size prot : ℕ) (s : SgState d.height) :
    Option (ℕ × SgState d.height) :=
  if ¬(d.blockSize 0 ∣ iova ∧ d.blockSize 0 ∣ paddr ∧ d.blockSize 0 ∣ size) then some (einval, s)
  else if (iova + size - 1) >>> d.ias ≠ 0 ∨ (paddr + size - 1) >>> d.oas ≠ 0 then some (erange, s)
  else if !hasAccess prot then some (0, { s with mapped := s.mapped + size })
  else mapLoop d alloc (protToPte prot) (size / d.blockSize 0) iova paddr size s

/-- The loop of `qcom_arm_lpae_map_sg`: `start` and `len` are the run of physically contiguous
segments so far. -/
def sgLoop (d : Config) (alloc : ℕ → Bool) (iova prot : ℕ) :
    List (ℕ × ℕ) → (start len : ℕ) → SgState d.height → Option (ℕ × SgState d.height)
  | [], _, _, s => some (0, s)
  | (phys, length) :: rest, start, len, s =>
    if len = 0 then sgLoop d alloc iova prot rest phys length s
    else if phys = start + len then sgLoop d alloc iova prot rest start (len + length) s
    else
      match mapByPgsize d alloc (iova + s.mapped) start len prot s with
      | none => none
      | some (ret, s') =>
        if ret ≠ 0 then some (ret, s') else sgLoop d alloc iova prot rest phys length s'

/-- `qcom_arm_lpae_map_sg`. The loop looks at the last segment twice. -/
def mapSg (d : Config) (alloc : ℕ → Bool) (root : Table d.height) (iova : ℕ)
    (sg : List (ℕ × ℕ)) (prot : ℕ) : Option (ℕ × SgState d.height) :=
  sgLoop d alloc iova prot (sg ++ sg.getLast?.toList) 0 0 ⟨root, 0, none⟩

end VendorKernel.Iommu.Lpae

import VendorKernel.Lib.Radix

/-! The stage 1 page tables of the SMMU (`qcom-io-pgtable-arm.c`): geometry, entries and the walk.
Levels are counted from the last one: height 0 is level 3, and the root has height
`3 - start_level`. -/
namespace VendorKernel.Iommu.Lpae

open Radix

inductive Granule
  | k4
  | k16
  | k64
  deriving DecidableEq

namespace Granule

def pgShift : Granule → ℕ
  | k4 => 12
  | k16 => 14
  | k64 => 16

def maxAddrBits : Granule → ℕ
  | k4 | k16 => 48
  | k64 => 52

def pageSizes : Granule → List ℕ
  | k4 => [2 ^ 12, 2 ^ 21, 2 ^ 30]
  | k16 => [2 ^ 14, 2 ^ 25]
  | k64 => [2 ^ 16, 2 ^ 29]

end Granule

def contPtes (size : ℕ) : ℕ :=
  if size = 2 ^ 12 then 16 else if size = 2 ^ 14 then 128 else if size = 2 ^ 16 then 32 else 1

def contPmds (size : ℕ) : ℕ :=
  if size = 2 ^ 21 then 16 else if size = 2 ^ 25 then 32 else if size = 2 ^ 29 then 32 else 1

/-- `struct arm_lpae_io_pgtable` with its `io_pgtable_cfg`. The SMMU has input sizes of 32 bits and
more. -/
structure Config where
  granule : Granule
  ias : ℕ
  oas : ℕ
  contigHint : Bool
  ias_ge : 32 ≤ ias
  ias_le : ias ≤ granule.maxAddrBits
  oas_le : oas ≤ granule.maxAddrBits

namespace Config
variable (d : Config)

def bitsPerLevel : ℕ := d.granule.pgShift - 3

def levels : ℕ := (d.ias - d.granule.pgShift + d.bitsPerLevel - 1) / d.bitsPerLevel

def height : ℕ := d.levels - 1

def pgdBits : ℕ := d.ias - d.granule.pgShift - d.bitsPerLevel * (d.levels - 1)

def blockSize (h : ℕ) : ℕ := 2 ^ ((h + 1) * d.bitsPerLevel + 3)

def ptesPerTable : ℕ := 2 ^ d.bitsPerLevel

/-- `ARM_LPAE_LVL_IDX` in a table of `2 ^ bits` entries: the root has `pgd_bits`, the others
`bits_per_level`. -/
def lvlIdx (bits h iova : ℕ) : ℕ := index (2 ^ bits) (d.blockSize h) iova

def findNumCont (h : ℕ) : ℕ :=
  if d.contigHint then
    match h with
    | 0 => contPtes (d.blockSize 0)
    | 1 => contPmds (d.blockSize 1)
    | _ => 1
  else 1

def checkAndSetNumCont (size h : ℕ) : ℕ :=
  if size = d.findNumCont h * d.blockSize h then d.findNumCont h else 1

def pteIsContiguousRange (size h : ℕ) : Bool :=
  d.contigHint && size == d.findNumCont h * d.blockSize h

/-- The sizes in `pgsize_bitmap`, with those of `arm_get_cont_sizes`. -/
def pageSizes : List ℕ :=
  if d.contigHint then
    d.granule.pageSizes ++ [d.findNumCont 0 * d.blockSize 0, d.findNumCont 1 * d.blockSize 1]
  else d.granule.pageSizes

def pgsizeBitmap : ℕ := d.pageSizes.foldl (· ||| ·) 0

end Config

def addrMask : ℕ := 2 ^ 48 - 2 ^ 12

def paddrToIopte (paddr : ℕ) : ℕ := (paddr ||| paddr >>> 36) &&& addrMask

def iopteToPaddr (d : Config) (addr : ℕ) : ℕ :=
  if d.granule = .k64 then
    ((addr &&& addrMask) ||| (addr &&& addrMask) <<< 36) &&& (addrMask <<< 4)
  else addr &&& addrMask

def iommuRead : ℕ := 1
def iommuWrite : ℕ := 2
def iommuCache : ℕ := 4
def iommuNoexec : ℕ := 8
def iommuMmio : ℕ := 16
def iommuPriv : ℕ := 32

/-- `arm_lpae_prot_to_pte` for `QCOM_ARM_64_LPAE_S1`. All its bits are in `ARM_LPAE_PTE_ATTR_MASK`,
so a block hands them on when it is split. -/
def protToPte (prot : ℕ) : ℕ :=
  2 ^ 11 ||| 2 ^ 10 |||
    (if prot &&& iommuWrite = 0 ∧ prot &&& iommuRead ≠ 0 then 2 <<< 6 else 0) |||
    (if prot &&& iommuPriv = 0 then 1 <<< 6 else 0) |||
    (if prot &&& iommuMmio ≠ 0 then 2 <<< 2 else if prot &&& iommuCache ≠ 0 then 1 <<< 2 else 0) |||
    (if prot &&& iommuCache ≠ 0 then 3 <<< 8 else 2 <<< 8) |||
    (if prot &&& iommuNoexec ≠ 0 then 3 <<< 53 else 0)

/-- An `arm_lpae_iopte`: a page or block, or a pointer to a table with the count of `iopte_tblcnt`. -/
inductive Entry : ℕ → Type
  | zero {h : ℕ} : Entry h
  | leaf {h : ℕ} (addr prot : ℕ) (cont : Bool) : Entry h
  | table {h : ℕ} (cnt : ℕ) (entries : ℕ → Entry h) : Entry (h + 1)

abbrev Table (h : ℕ) : Type := ℕ → Entry h

def tblcntMod : ℕ := 2 ^ 13

namespace Entry
variable {h : ℕ}

def isZero : Entry h → Bool
  | zero => true
  | _ => false

/-- `ARM_LPAE_PTE_CONT`, bit 52. In a pointer to a table this is bit 10 of the count. -/
def contBit : Entry h → Bool
  | zero => false
  | leaf _ _ cont => cont
  | table cnt _ => cnt.testBit 10

def clearCont : Entry h → Entry h
  | zero => zero
  | leaf addr prot _ => leaf addr prot false
  | table cnt entries => table (cnt &&& (tblcntMod - 1 - 2 ^ 10)) entries

def eqLeaf : Entry h → ℕ → ℕ → Bool → Bool
  | leaf addr prot cont, addr', prot', cont' => addr == addr' && prot == prot' && cont == cont'
  | _, _, _, _ => false

def walk (d : Config) : {h : ℕ} → Entry h → ℕ → Option ℕ
  | _, zero, _ => none
  | h, leaf addr _ _, iova => some (iopteToPaddr d addr ||| iova % d.blockSize h)
  | _, table (h := h) _ entries, iova =>
    (entries (d.lvlIdx d.bitsPerLevel h iova)).walk d iova

@[simp] theorem walk_zero (d : Config) (x : ℕ) : (zero : Entry h).walk d x = none := rfl

theorem isZero_iff {e : Entry h} : e.isZero = true ↔ e = zero := by
  cases e <;> simp [isZero]

end Entry

def walk (d : Config) {h : ℕ} (bits : ℕ) (t : Table h) (iova : ℕ) : Option ℕ :=
  (t (d.lvlIdx bits h iova)).walk d iova

def iovaToPhys (d : Config) (root : Table d.height) (iova : ℕ) : ℕ :=
  (walk d d.pgdBits root iova).getD 0

/-! ### Geometry -/

namespace Config
variable (d : Config)

theorem granule_cases : d.granule = .k4 ∨ d.granule = .k16 ∨ d.granule = .k64 := by
  cases d.granule <;> simp

theorem blockSize_pos (h : ℕ) : 0 < d.blockSize h := Nat.two_pow_pos _

theorem blockSize_succ (h : ℕ) : d.blockSize (h + 1) = d.ptesPerTable * d.blockSize h := by
  rw [blockSize, blockSize, ptesPerTable, ← Nat.pow_add]
  congr 1
  rw [Nat.add_mul (h + 1)]
  omega

theorem bitsPerLevel_pos : 0 < d.bitsPerLevel := by
  rw [bitsPerLevel]
  cases d.granule <;> decide

def span (bits h : ℕ) : ℕ := 2 ^ bits * d.blockSize h

theorem span_bitsPerLevel (h : ℕ) : d.span d.bitsPerLevel h = d.blockSize (h + 1) :=
  (d.blockSize_succ h).symm

section
variable {d} {bits h x iova n : ℕ}

section
variable (hspan : x / d.span bits h = iova / d.span bits h)
include hspan

theorem lvlIdx_eq_iff : d.lvlIdx bits h x = d.lvlIdx bits h iova ↔ x / d.blockSize h = iova / d.blockSize h :=
  index_eq_iff hspan

theorem mem_run_iff (hiova : d.blockSize h ∣ iova) :
    iova ≤ x ∧ x < iova + n * d.blockSize h ↔
      d.lvlIdx bits h iova ≤ d.lvlIdx bits h x ∧ d.lvlIdx bits h x < d.lvlIdx bits h iova + n :=
  Radix.mem_run_iff (d.blockSize_pos h) hiova hspan

theorem lvlIdx_sub (hiova : d.blockSize h ∣ iova) (hle : iova ≤ x) :
    (d.lvlIdx bits h x - d.lvlIdx bits h iova) * d.blockSize h + x % d.blockSize h = x - iova :=
  index_sub_add_mod hiova hspan hle

end

theorem run_le_span_iff (hiova : d.blockSize h ∣ iova) :
    iova + n * d.blockSize h ≤ (iova / d.span bits h + 1) * d.span bits h ↔ d.lvlIdx bits h iova + n ≤ 2 ^ bits :=
  Radix.run_le_span_iff (d.blockSize_pos h) hiova

theorem lvlIdx_lt : d.lvlIdx bits h iova < 2 ^ bits := index_lt (Nat.two_pow_pos _)

end

theorem levels_bounds : 0 < d.levels ∧ d.bitsPerLevel * (d.levels - 1) < d.ias - d.granule.pgShift := by
  have hb := d.bitsPerLevel_pos
  have hias : 0 < d.ias - d.granule.pgShift := by
    have := d.ias_ge
    cases d.granule <;> simp only [Granule.pgShift] <;> omega
  have hpos : 0 < d.levels := Nat.div_pos (by omega) hb
  have hle : d.levels * d.bitsPerLevel ≤ d.ias - d.granule.pgShift + d.bitsPerLevel - 1 :=
    Nat.div_mul_le_self ..
  rw [Nat.mul_sub, Nat.mul_comm]
  omega

theorem span_root : d.span d.pgdBits d.height = 2 ^ d.ias := by
  obtain ⟨hpos, hlt⟩ := d.levels_bounds
  rw [span, blockSize, ← Nat.pow_add]
  congr 1
  rw [height, Nat.sub_add_cancel hpos, pgdBits]
  have hmul : d.levels * d.bitsPerLevel = d.bitsPerLevel * (d.levels - 1) + d.bitsPerLevel := by
    rw [← Nat.mul_succ, Nat.succ_eq_add_one, Nat.sub_add_cancel hpos, Nat.mul_comm]
  have hsh : d.granule.pgShift = d.bitsPerLevel + 3 := by
    rw [bitsPerLevel]
    cases d.granule <;> rfl
  omega

theorem findNumCont_dvd (h : ℕ) : d.findNumCont h ∣ d.ptesPerTable := by
  unfold findNumCont ptesPerTable
  cases d.contigHint with
  | false => exact Nat.one_dvd _
  | true =>
    match h with
    | 0 | 1 =>
      simp only [if_true, blockSize, bitsPerLevel, contPtes, contPmds]
      rcases d.granule_cases with hg | hg | hg <;> simp [hg, Granule.pgShift]
    | h + 2 => exact Nat.one_dvd _

theorem findNumCont_pos (h : ℕ) : 0 < d.findNumCont h :=
  Nat.pos_of_dvd_of_pos (d.findNumCont_dvd h) (Nat.two_pow_pos _)

end Config

end VendorKernel.Iommu.Lpae

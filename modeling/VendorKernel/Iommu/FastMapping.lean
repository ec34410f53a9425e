import Mathlib.Algebra.BigOperators.Group.List.Basic
import Mathlib.Data.Nat.ModEq
import VendorKernel.Lib.Bitmap
import VendorKernel.Lib.Machine

/-! The IOVA allocator of the fast DMA path (`dma-mapping-fast.c`). An unmap clears the page table entries
and the bit in `bitmap`, but leaves the bit in `clean_bitmap` set; the address is handed out again only after
a flush of the whole TLB. Calls are interleaved at the lock and at every access to the page table, and the
device may copy any entry into its TLB between two of them. -/
namespace VendorKernel.Iommu.Fast
open Machine Bitmap List Option Function Nat

def fastPageShift : ℕ := 12

def fastPageSize : ℕ := 2 ^ fastPageShift

/-- What `fast_smmu_create_mapping` fixes. The pages that are reserved at probe are set in both
bitmaps and never freed. -/
structure Config where
  num4kPages : ℕ
  /-- `PAGE_SHIFT` of the kernel, which `get_order` counts in. -/
  pageShift : ℕ
  reserved : ℕ → Bool

structure Iopte where
  paddr : ℕ
  prot : ℕ
  deriving DecidableEq

def av8lFastMap (paddr size prot : ℕ) : List Iopte :=
  (range (size >>> fastPageShift)).map fun i =>
    ⟨paddr % 2 ^ 48 / fastPageSize * fastPageSize + i * fastPageSize, prot⟩

/-- A call of `fast_smmu_map_page`, or of `fast_smmu_map_sg` with a physical address and a padded length per
segment. -/
inductive Call
  | page (physPlusOff size prot : ℕ)
  | sg (segs : List (ℕ × ℕ)) (prot : ℕ)
  deriving DecidableEq

namespace Call

def len : Call → ℕ
  | page physPlusOff size _ =>
    (size + physPlusOff % fastPageSize + fastPageSize - 1) / fastPageSize * fastPageSize
  | sg segs _ => (segs.map Prod.snd).sum

def ptes : Call → List Iopte
  | c@(page physPlusOff _ prot) =>
    av8lFastMap (physPlusOff / fastPageSize * fastPageSize) c.len prot
  | sg segs prot => segs.flatMap fun seg => av8lFastMap seg.1 seg.2 prot

/-- Only the page variants touch the page table under `mapping->lock`. -/
def locked : Call → Bool
  | page .. => true
  | sg .. => false

def Whole : Call → Prop
  | page .. => True
  | sg segs _ => ∀ seg ∈ segs, seg.2 % fastPageSize = 0

instance : ∀ c : Call, Decidable c.Whole
  | page .. => inferInstanceAs (Decidable True)
  | sg .. => decidableBAll ..

theorem length_av8lFastMap (paddr size prot : ℕ) : (av8lFastMap paddr size prot).length = size / fastPageSize := by
  rw [av8lFastMap, length_map, length_range, shiftRight_eq_div_pow, fastPageSize]

theorem length_sg {segs : List (ℕ × ℕ)} {prot : ℕ} (h : (sg segs prot).Whole) :
    (sg segs prot).ptes.length = (sg segs prot).len / fastPageSize := by
  simp only [ptes, len, length_flatMap, length_av8lFastMap]
  induction segs with
  | nil => rfl
  | cons seg segs ih =>
    have hhead := h seg (mem_cons_self ..)
    have htail := ih fun x hx => h x (mem_cons_of_mem seg hx)
    rw [map_cons, sum_cons, map_cons, sum_cons, htail, Nat.add_div_of_dvd_right (Nat.dvd_of_mod_eq_zero hhead)]

end Call

structure Request where
  call : Call
  pos : 0 < call.len
  whole : call.Whole
  deriving DecidableEq

def getOrder (pageShift size : ℕ) : ℕ :=
  if (size - 1) >>> pageShift = 0 then 0 else log2 ((size - 1) >>> pageShift) + 1

namespace Request

def nbits (r : Request) : ℕ := r.call.len >>> fastPageShift

def align (cfg : Config) (r : Request) : ℕ := 1 <<< getOrder cfg.pageShift r.call.len - 1

theorem length_ptes (r : Request) : r.call.ptes.length = r.nbits := by
  obtain ⟨call, -, hwh⟩ := r
  rw [nbits, shiftRight_eq_div_pow]
  cases call with
  | page => exact Call.length_av8lFastMap ..
  | sg => exact Call.length_sg hwh

end Request

inductive Task
  | idle
  | flushing (r : Request)
  | copying (r : Request)
  /-- The allocation has returned `bit`, and `k` entries are written. -/
  | mapping (r : Request) (bit k : ℕ)
  | live (r : Request) (bit : ℕ)
  | unmapping (r : Request) (bit k : ℕ)
  | failed (r : Request)
  deriving DecidableEq

structure State where
  bitmap : ℕ → Bool
  cleanBitmap : ℕ → Bool
  nextStart : ℕ
  haveStaleTlbs : Bool
  pmds : ℕ → Option Iopte
  tlb : ℕ → Option Iopte
  lock : Option ℕ
  task : ℕ → Task

def start (cfg : Config) : State where
  bitmap := cfg.reserved
  cleanBitmap := cfg.reserved
  nextStart := 0
  haveStaleTlbs := false
  pmds _ := none
  tlb _ := none
  lock := none
  task _ := .idle

def putBits (value : Bool) (bitmap : ℕ → Bool) (start nbits : ℕ) : ℕ → Bool := fun p =>
  if start ≤ p ∧ p < start + nbits then value else bitmap p

/-- The end of `__fast_smmu_alloc_iova`. The page variant goes on with the lock held. -/
def grant (cfg : Config) (s : State) (m : ℕ) (r : Request) (bit : ℕ) : State :=
  { s with
    bitmap := putBits true s.bitmap bit r.nbits
    cleanBitmap := putBits true s.cleanBitmap bit r.nbits
    nextStart := if bit + r.nbits ≥ cfg.num4kPages then 0 else bit + r.nbits
    lock := if r.call.locked then some m else none
    task := update s.task m (.mapping r bit 0) }

def refuse (s : State) (m : ℕ) (r : Request) : State :=
  { s with lock := none, task := update s.task m (.failed r) }

def allocIova (cfg : Config) (s : State) (m : ℕ) (r : Request) : State :=
  let bit := findNextZeroArea s.cleanBitmap cfg.num4kPages s.nextStart r.nbits (r.align cfg)
  if bit > cfg.num4kPages then
    let bit := findNextZeroArea s.cleanBitmap cfg.num4kPages 0 r.nbits (r.align cfg)
    if bit > cfg.num4kPages then
      if s.haveStaleTlbs then
        { s with lock := some m, task := update s.task m (.flushing r) }
      else refuse s m r
    else grant cfg s m r bit
  else grant cfg s m r bit

def retryIova (cfg : Config) (s : State) (m : ℕ) (r : Request) : State :=
  let s := { s with cleanBitmap := s.bitmap, haveStaleTlbs := false }
  let bit := findNextZeroArea s.cleanBitmap cfg.num4kPages 0 r.nbits (r.align cfg)
  if bit > cfg.num4kPages then refuse s m r else grant cfg s m r bit

def flushIotlbAll (s : State) (m : ℕ) (r : Request) : State :=
  { s with tlb := fun _ => none, task := update s.task m (.copying r) }

def writePte (s : State) (m : ℕ) (r : Request) (bit k : ℕ) (pte : Iopte) : State :=
  { s with
    pmds := update s.pmds (bit + k) (some pte)
    lock := if k + 1 = r.nbits ∧ r.call.locked then none else s.lock
    task := update s.task m (if k + 1 = r.nbits then .live r bit else .mapping r bit (k + 1)) }

def beginUnmap (s : State) (m : ℕ) (r : Request) (bit : ℕ) : State :=
  { s with lock := if r.call.locked then some m else s.lock, task := update s.task m (.unmapping r bit 0) }

def clearPte (s : State) (m : ℕ) (r : Request) (bit k : ℕ) : State :=
  { s with pmds := update s.pmds (bit + k) none, task := update s.task m (.unmapping r bit (k + 1)) }

def freeIova (s : State) (m : ℕ) (r : Request) (bit : ℕ) : State :=
  { s with
    bitmap := putBits false s.bitmap bit r.nbits
    haveStaleTlbs := true
    lock := none
    task := update s.task m .idle }

inductive Op
  | allocIova (m : ℕ) (r : Request)
  | flushIotlbAll (m : ℕ)
  | retryIova (m : ℕ)
  | writePte (m : ℕ)
  | beginUnmap (m : ℕ)
  | clearPte (m : ℕ)
  | freeIova (m : ℕ)
  | tlbFill (p : ℕ)
  | tlbEvict (p : ℕ)

/-- One access of a call, or of the device; `none` if it cannot be taken now. -/
def step (cfg : Config) (s : State) : Op → Option State
  | .allocIova m r =>
    if s.lock = none ∧ s.task m = .idle then some (allocIova cfg s m r) else none
  | .flushIotlbAll m =>
    match s.task m with
    | .flushing r => some (flushIotlbAll s m r)
    | _ => none
  | .retryIova m =>
    match s.task m with
    | .copying r => some (retryIova cfg s m r)
    | _ => none
  | .writePte m =>
    match s.task m with
    | .mapping r bit k => (r.call.ptes[k]?).map (writePte s m r bit k)
    | _ => none
  | .beginUnmap m =>
    match s.task m with
    | .live r bit => if r.call.locked → s.lock = none then some (beginUnmap s m r bit) else none
    | _ => none
  | .clearPte m =>
    match s.task m with
    | .unmapping r bit k => if k < r.nbits then some (clearPte s m r bit k) else none
    | _ => none
  | .freeIova m =>
    match s.task m with
    | .unmapping r bit k =>
      if k = r.nbits ∧ s.lock = (if r.call.locked then some m else none) then
        some (freeIova s m r bit)
      else none
    | _ => none
  | .tlbFill p => (s.pmds p).map fun pte => { s with tlb := update s.tlb p (some pte) }
  | .tlbEvict p => some { s with tlb := update s.tlb p none }

inductive Moves (cfg : Config) (s : State) : State → Prop
  | allocIova {m : ℕ} {r : Request} (hlock : s.lock = none) (hm : s.task m = .idle) :
      Moves cfg s (allocIova cfg s m r)
  | flushIotlbAll {m : ℕ} {r : Request} (hm : s.task m = .flushing r) :
      Moves cfg s (flushIotlbAll s m r)
  | retryIova {m : ℕ} {r : Request} (hm : s.task m = .copying r) :
      Moves cfg s (retryIova cfg s m r)
  | writePte {m : ℕ} {r : Request} {bit k : ℕ} {pte : Iopte} (hm : s.task m = .mapping r bit k)
      (hpte : r.call.ptes[k]? = some pte) : Moves cfg s (writePte s m r bit k pte)
  | beginUnmap {m : ℕ} {r : Request} {bit : ℕ} (hm : s.task m = .live r bit)
      (hlock : r.call.locked → s.lock = none) : Moves cfg s (beginUnmap s m r bit)
  | clearPte {m : ℕ} {r : Request} {bit k : ℕ} (hm : s.task m = .unmapping r bit k)
      (hk : k < r.nbits) : Moves cfg s (clearPte s m r bit k)
  | freeIova {m : ℕ} {r : Request} {bit : ℕ} (hm : s.task m = .unmapping r bit r.nbits)
      (hlock : s.lock = if r.call.locked then some m else none) : Moves cfg s (freeIova s m r bit)
  | tlbFill {p : ℕ} {pte : Iopte} (hpte : s.pmds p = some pte) :
      Moves cfg s { s with tlb := update s.tlb p (some pte) }
  | tlbEvict (p : ℕ) : Moves cfg s { s with tlb := update s.tlb p none }

/-- What a step can do. -/
theorem step_moves {cfg : Config} {s s' : State} {op : Op} (hs : step cfg s op = some s') : Moves cfg s s' := by
  revert hs
  fun_cases step cfg s op
  case case7 m r bit k hm =>
    intro hs
    obtain ⟨pte, hpte, rfl⟩ := map_eq_some_iff.mp hs
    exact .writePte hm hpte
  case case18 p =>
    intro hs
    obtain ⟨pte, hpte, rfl⟩ := map_eq_some_iff.mp hs
    exact .tlbFill hpte
  all_goals rintro ⟨⟩
  case case1 m r h => exact .allocIova h.1 h.2
  case case3 m r hm => exact .flushIotlbAll hm
  case case5 m r hm => exact .retryIova hm
  case case9 m r bit hm hlock => exact .beginUnmap hm hlock
  case case12 m r bit k hm hk => exact .clearPte hm hk
  case case15 m r bit k hm h => exact .freeIova (h.1 ▸ hm) h.2
  case case19 p => exact .tlbEvict p

end VendorKernel.Iommu.Fast

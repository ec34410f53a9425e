import Mathlib.Data.Fintype.BigOperators
import VendorKernel.Interconnect.BcmAggregate

/-! The requests on an interconnect node (`icc-rpmh.c`), which `qcom_icc_aggregate` adds one by one to the values
that `bcm_aggregate` reads. -/
namespace VendorKernel.Interconnect

open List Nat

def Bucket.index : Bucket → ℕ
  | .amc => 0
  | .wake => 1
  | .sleep => 2
  | .other i => 3 + i

structure IccReq where
  tag : UInt32
  avgBw : UInt32
  peakBw : UInt32
deriving DecidableEq

/-- `struct qcom_icc_node` with the initial bandwidth of its `struct icc_node`, and the sums that the framework
keeps for the node. -/
structure AggNode extends IccNode where
  perfMode : Bucket → Bool
  initAvg : UInt32
  initPeak : UInt32
  aggAvg : UInt32
  aggPeak : UInt32

structure IccTags where
  always : UInt32
  perfMode : UInt32

namespace IccReq

variable (tags : IccTags) (req : IccReq) (bucket : Bucket)

def buckets : UInt32 := if req.tag = 0 then tags.always else req.tag

def tagged : Bool := (req.buckets tags).toNat.testBit bucket.index

def avgFor : ℕ := if req.tagged tags bucket then req.avgBw.toNat else 0

def peakFor : ℕ := if req.tagged tags bucket then req.peakBw.toNat else 0

def avgSum (reqs : List IccReq) : ℕ := (reqs.map (·.avgFor tags bucket)).sum

def peakMax (reqs : List IccReq) : ℕ := (reqs.map (·.peakFor tags bucket)).foldr max 0

theorem avgFor_lt : req.avgFor tags bucket < 2 ^ 32 := by
  unfold avgFor
  split_ifs
  · exact req.avgBw.toNat_lt
  · decide

end IccReq

open IccReq

namespace AggNode

/-- `qcom_icc_pre_aggregate`, apart from the lists of the voters. -/
def qcomIccPreAggregate (node : AggNode) : AggNode :=
  { node with sumAvg := fun _ => 0, maxPeak := fun _ => 0, perfMode := fun _ => false }

def qcomIccAggregate (tags : IccTags) (node : AggNode) (req : IccReq) : AggNode :=
  { node with
    sumAvg := fun i =>
      let sum := if req.tagged tags i then (node.sumAvg i + req.avgBw.toNat) % 2 ^ 64 else node.sumAvg i
      if node.initAvg ≠ 0 ∨ node.initPeak ≠ 0 then max sum node.initAvg.toNat else sum
    maxPeak := fun i =>
      let peak := if req.tagged tags i then max (node.maxPeak i % 2 ^ 32) req.peakBw.toNat else node.maxPeak i
      if node.initAvg ≠ 0 ∨ node.initPeak ≠ 0 then max peak node.initPeak.toNat else peak
    perfMode := fun i => node.perfMode i || req.tagged tags i &&
      decide (req.buckets tags &&& tags.perfMode ≠ 0 ∧ (req.avgBw ≠ 0 ∨ req.peakBw ≠ 0))
    aggAvg := node.aggAvg + req.avgBw
    aggPeak := max node.aggPeak req.peakBw }

def aggregated (tags : IccTags) (node : AggNode) (reqs : List IccReq) : AggNode :=
  reqs.foldl (qcomIccAggregate tags) node.qcomIccPreAggregate

end AggNode

section

variable {floor s a : ℕ} {l : List ℕ}

/-- A sum of 64 bits that is raised to a floor after every summand. -/
def addFloored (floor s a : ℕ) : ℕ := max ((s + a) % 2 ^ 64) floor

theorem foldl_addFloored (hs : floor ≤ s) (hlt : s + l.sum < 2 ^ 64) : l.foldl (addFloored floor) s = s + l.sum := by
  induction l generalizing s with
  | nil => rfl
  | cons a l ih =>
    rw [sum_cons] at hlt ⊢
    rw [foldl_cons, addFloored, mod_eq_of_lt (by omega), max_eq_left (by omega), ih (by omega) (by omega),
      add_assoc]

variable (hfloor : floor < 2 ^ 32) (hl : ∀ x ∈ l, x < 2 ^ 32)
include hfloor

theorem foldl_addFloored_lt (hs : s < 2 ^ 64) : l.foldl (addFloored floor) s < 2 ^ 64 := by
  induction l generalizing s with
  | nil => exact hs
  | cons a l ih => exact ih (max_lt (mod_lt _ (by decide)) (hfloor.trans (by decide)))

include hl

/-- A sum that wraps ends up far below 2^64. -/
theorem foldl_addFloored_wraps (hs : floor ≤ s) (hs64 : s < 2 ^ 64) (hge : 2 ^ 64 ≤ s + l.sum)
    (hlt : s + l.sum < 2 ^ 64 + 2 ^ 32) : l.foldl (addFloored floor) s < 2 ^ 34 := by
  induction l generalizing s with
  | nil => exact absurd hs64 (not_lt.mpr hge)
  | cons a l ih =>
    obtain ⟨ha, hl⟩ := forall_mem_cons.mp hl
    rw [sum_cons] at hge hlt
    rw [foldl_cons]
    by_cases hover : s + a < 2 ^ 64
    · have hstep : addFloored floor s a = s + a := by
        rw [addFloored, mod_eq_of_lt hover, max_eq_left (by omega)]
      rw [hstep]
      exact ih hl (by omega) hover (by omega) (by omega)
    · have hstep : addFloored floor s a < 2 ^ 32 := max_lt (by omega) hfloor
      have hle : floor ≤ addFloored floor s a := le_max_right ..
      rw [foldl_addFloored hle (by omega)]
      omega

/-- The floor is that of the sum exactly if the first summand reaches it or is the only one. -/
theorem foldl_addFloored_eq_iff (ha : a < 2 ^ 32) :
    (a :: l).foldl (addFloored floor) 0 = max floor (a + l.sum) ↔
      a + l.sum < 2 ^ 64 ∧ (floor ≤ a ∨ a = a + l.sum) := by
  have hstep : addFloored floor 0 a = max a floor := by
    rw [addFloored, zero_add, mod_eq_of_lt (by omega)]
  have hbd : l.foldl (addFloored floor) (max a floor) < 2 ^ 64 := foldl_addFloored_lt hfloor (by omega)
  rw [foldl_cons, hstep]
  by_cases hsum : max a floor + l.sum < 2 ^ 64
  · rw [foldl_addFloored (le_max_right ..) hsum]
    omega
  · have hwraps := foldl_addFloored_wraps hfloor hl (le_max_right a floor)
    omega

end

theorem foldl_maxFloored {floor s : ℕ} {l : List ℕ} (hs : floor ≤ s) :
    l.foldl (fun p a => max (max p a) floor) s = max s (l.foldr max 0) := by
  induction l generalizing s with
  | nil => exact (max_eq_left (zero_le s)).symm
  | cons a l ih =>
    rw [foldl_cons, foldr_cons, max_eq_left (hs.trans (le_max_left s a)), ih (hs.trans (le_max_left s a)), max_assoc]

namespace AggNode

variable {tags : IccTags} {node : AggNode} {reqs : List IccReq} {bucket : Bucket}

theorem raised_eq (node : AggNode) (x : ℕ) :
    (if node.initAvg ≠ 0 ∨ node.initPeak ≠ 0 then max x node.initAvg.toNat else x) = max x node.initAvg.toNat ∧
      (if node.initAvg ≠ 0 ∨ node.initPeak ≠ 0 then max x node.initPeak.toNat else x) =
        max x node.initPeak.toNat := by
  split_ifs with h
  · exact ⟨rfl, rfl⟩
  · obtain ⟨havg, hpeak⟩ := not_or.mp h
    simp [not_not.mp havg, not_not.mp hpeak]

/-- The requests, bucket by bucket. -/
theorem foldl_aggregate (hsum : node.sumAvg bucket < 2 ^ 64) (hpeak : node.maxPeak bucket < 2 ^ 32) :
    (reqs.foldl (qcomIccAggregate tags) node).sumAvg bucket =
        (reqs.map (·.avgFor tags bucket)).foldl (addFloored node.initAvg.toNat) (node.sumAvg bucket) ∧
      (reqs.foldl (qcomIccAggregate tags) node).maxPeak bucket =
        (reqs.map (·.peakFor tags bucket)).foldl (fun p a => max (max p a) node.initPeak.toNat)
          (node.maxPeak bucket) := by
  induction reqs generalizing node with
  | nil => exact ⟨rfl, rfl⟩
  | cons req reqs ih =>
    have havg := node.initAvg.toNat_lt
    have hinit := node.initPeak.toNat_lt
    have hreq := req.peakBw.toNat_lt
    have hstep : (node.qcomIccAggregate tags req).sumAvg bucket =
        addFloored node.initAvg.toNat (node.sumAvg bucket) (req.avgFor tags bucket) := by
      simp only [qcomIccAggregate, (raised_eq node _).1, addFloored, avgFor]
      split_ifs
      · rfl
      · rw [add_zero, mod_eq_of_lt hsum]
    have hstep' : (node.qcomIccAggregate tags req).maxPeak bucket =
        max (max (node.maxPeak bucket) (req.peakFor tags bucket)) node.initPeak.toNat := by
      simp only [qcomIccAggregate, (raised_eq node _).2, peakFor, mod_eq_of_lt hpeak]
      split_ifs
      · rfl
      · rw [max_eq_left (zero_le (node.maxPeak bucket))]
    have hlt : (node.qcomIccAggregate tags req).sumAvg bucket < 2 ^ 64 := by
      rw [hstep, addFloored]
      omega
    have hlt' : (node.qcomIccAggregate tags req).maxPeak bucket < 2 ^ 32 := by
      rw [hstep', peakFor]
      split_ifs <;> omega
    rw [map_cons, map_cons, foldl_cons, foldl_cons, foldl_cons, ← hstep, ← hstep']
    exact ih hlt hlt'

/-- Whatever the order of the requests, the values are the floor raised to the sum and to the maximum, if and
only if the sum fits and every request reaches the floor on its own or is the only one for the bucket: the floor
is applied after each request, so that the next ones are added to it. -/
theorem icc_aggregate_iff (tags : IccTags) (node : AggNode) (req : IccReq) (reqs : List IccReq) (bucket : Bucket) :
    (∀ order, order.Perm (req :: reqs) →
      (node.aggregated tags order).sumAvg bucket = max node.initAvg.toNat (avgSum tags bucket (req :: reqs)) ∧
        (node.aggregated tags order).maxPeak bucket = max node.initPeak.toNat (peakMax tags bucket (req :: reqs))) ↔
      avgSum tags bucket (req :: reqs) < 2 ^ 64 ∧
        ∀ r ∈ req :: reqs, node.initAvg.toNat ≤ r.avgFor tags bucket ∨
          r.avgFor tags bucket = avgSum tags bucket (req :: reqs) := by
  have hvals : ∀ r l, (r :: l).Perm (req :: reqs) →
      ((node.aggregated tags (r :: l)).sumAvg bucket = max node.initAvg.toNat (avgSum tags bucket (req :: reqs)) ↔
        avgSum tags bucket (req :: reqs) < 2 ^ 64 ∧ (node.initAvg.toNat ≤ r.avgFor tags bucket ∨
          r.avgFor tags bucket = avgSum tags bucket (req :: reqs))) ∧
      (node.aggregated tags (r :: l)).maxPeak bucket =
        max node.initPeak.toNat (peakMax tags bucket (req :: reqs)) := by
    intro r l hperm
    obtain ⟨hsum, hpeak⟩ := @foldl_aggregate tags node.qcomIccPreAggregate (r :: l) bucket (by decide : 0 < 2 ^ 64)
      (by decide : 0 < 2 ^ 32)
    rw [avgSum, peakMax, ← (hperm.map _).sum_eq, ← (hperm.map _).foldr_eq 0, aggregated, hsum, hpeak, map_cons,
      map_cons]
    refine ⟨foldl_addFloored_eq_iff node.initAvg.toNat_lt ?_ (r.avgFor_lt tags bucket), ?_⟩
    · intro x hx
      obtain ⟨r', -, rfl⟩ := mem_map.mp hx
      exact r'.avgFor_lt tags bucket
    · change foldl _ 0 _ = _
      rw [foldl_cons, foldl_maxFloored (le_max_right ..), max_eq_right (zero_le _),
        max_comm (r.peakFor tags bucket), max_assoc]
      rfl
  constructor
  · intro h
    refine ⟨((hvals req reqs (.refl _)).1.mp (h _ (.refl _)).1).1, fun r hr => ?_⟩
    have hperm := (perm_cons_erase hr).symm
    exact ((hvals _ _ hperm).1.mp (h _ hperm).1).2
  · rintro ⟨hlt, hfst⟩ order hperm
    cases order with
    | nil => exact absurd hperm.length_eq (by simp)
    | cons r l =>
      obtain ⟨hsum, hpeak⟩ := hvals r l hperm
      exact ⟨hsum.mpr ⟨hlt, hfst r (hperm.subset mem_cons_self)⟩, hpeak⟩

def bootNode : AggNode where
  channels := 2
  buswidth := 8
  sumAvg := fun _ => 0
  maxPeak := fun _ => 0
  channels_pos := Nat.succ_pos _
  channels_lt := Nat.le_of_ble_eq_true rfl
  buswidth_pos := Nat.succ_pos _
  buswidth_lt := Nat.le_of_ble_eq_true rfl
  perfMode := fun _ => false
  initAvg := 0x7fffffff
  initPeak := 0x7fffffff
  aggAvg := 0
  aggPeak := 0

/-- Requests for 10 and 200 with an initial bandwidth of `INT_MAX`. -/
theorem icc_aggregate_order :
    (bootNode.aggregated ⟨7, 8⟩ [⟨0, 10, 0⟩, ⟨0, 200, 0⟩]).sumAvg .amc = 0x7fffffff + 200 ∧
      (bootNode.aggregated ⟨7, 8⟩ [⟨0, 200, 0⟩, ⟨0, 10, 0⟩]).sumAvg .amc = 0x7fffffff + 10 := by
  decide

end AggNode

end VendorKernel.Interconnect

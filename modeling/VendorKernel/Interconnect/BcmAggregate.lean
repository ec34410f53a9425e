import Mathlib.Data.List.Forall2
import Mathlib.Tactic.NormNum

/-! Aggregation of the bandwidth requests on the nodes of a bus clock manager (`bcm-voter.c`). -/
namespace VendorKernel.Interconnect

open Nat List

/-- The buckets that votes are kept for. Only CRM voters use others than the first three. -/
inductive Bucket where
  | amc
  | wake
  | sleep
  | other (i : ℕ)
deriving DecidableEq

structure Vote where
  x : ℕ
  y : ℕ
deriving DecidableEq

instance : LE Vote := ⟨fun v w => v.x ≤ w.x ∧ v.y ≤ w.y⟩

instance (v w : Vote) : Decidable (v ≤ w) := inferInstanceAs (Decidable (v.x ≤ w.x ∧ v.y ≤ w.y))

theorem Vote.le_refl (v : Vote) : v ≤ v := ⟨Nat.le_refl _, Nat.le_refl _⟩

structure IccNode where
  channels : ℕ
  buswidth : ℕ
  sumAvg : Bucket → ℕ
  maxPeak : Bucket → ℕ
  channels_pos : 0 < channels
  channels_lt : channels < 2 ^ 16
  buswidth_pos : 0 < buswidth
  buswidth_lt : buswidth < 2 ^ 16

structure IccBcm where
  unit : ℕ
  width : ℕ
  voteScale : ℕ
  keepalive : Bool
  nodes : List IccNode
  unit_pos : 0 < unit
  width_pos : 0 < width
  voteScale_pos : 0 < voteScale

def bcmDiv (num base : ℕ) : ℕ := if num ≠ 0 ∧ num < base then 1 else num / base

def IccNode.avgBase (node : IccNode) : ℕ := node.buswidth * node.channels % 2 ^ 32

namespace IccBcm

def maxShare (bcm : IccBcm) (request base : IccNode → ℕ) : ℕ :=
  bcm.nodes.foldl (fun agg node => max agg (bcmDiv (request node * bcm.width % 2 ^ 64) (base node))) 0

def aggregate (bcm : IccBcm) (request base : IccNode → ℕ) : ℕ :=
  bcmDiv (bcm.maxShare request base * bcm.voteScale % 2 ^ 64) bcm.unit

def bucketVote (bcm : IccBcm) (bucket : Bucket) : Vote :=
  ⟨bcm.aggregate (·.sumAvg bucket) (·.avgBase), bcm.aggregate (·.maxPeak bucket) (·.buswidth)⟩

def bcmAggregate (bcm : IccBcm) (bucket : Bucket) : Vote :=
  if bcm.keepalive = true ∧ (bcm.bucketVote .amc).x = 0 ∧ (bcm.bucketVote .amc).y = 0 then
    match bucket with
    | .amc | .wake => ⟨1, 1⟩
    | _ => bcm.bucketVote bucket
  else bcm.bucketVote bucket

end IccBcm

def share (num base : ℕ) : ℕ := if num = 0 then 0 else max 1 (num / base)

section
variable {num num' base : ℕ}

theorem bcmDiv_eq_share (hbase : 0 < base) : bcmDiv num base = share num base := by
  unfold bcmDiv share
  by_cases hzero : num = 0
  · simp [hzero]
  by_cases hlt : num < base
  · simp [hzero, hlt, Nat.div_eq_of_lt hlt]
  · have hone : 1 ≤ num / base := (Nat.one_le_div_iff hbase).mpr (Nat.le_of_not_lt hlt)
    rw [if_neg (fun h => hlt h.2), if_neg hzero, max_eq_right hone]

@[simp] theorem share_eq_zero : share num base = 0 ↔ num = 0 := by
  unfold share
  split_ifs with hzero
  · simp [hzero]
  · omega

theorem share_mono (h : num ≤ num') : share num base ≤ share num' base := by
  unfold share
  split_ifs with hzero hzero'
  · exact le_refl 0
  · exact zero_le _
  · omega
  · exact max_le_max (Nat.le_refl 1) (Nat.div_le_div_right h)

theorem share_le_one (hbase : 0 < base) : share num base ≤ 1 ↔ num < 2 * base := by
  unfold share
  split_ifs with hzero
  · omega
  · rw [← div_lt_iff_lt_mul hbase]
    omega

end

theorem foldl_max_le {nodes : List IccNode} {f : IccNode → ℕ} {agg c : ℕ} :
    nodes.foldl (fun agg node => max agg (f node)) agg ≤ c ↔ agg ≤ c ∧ ∀ node ∈ nodes, f node ≤ c := by
  induction nodes generalizing agg with
  | nil => simp
  | cons node nodes ih => simp [ih, and_assoc]

theorem exists_of_mem_left {R : IccNode → IccNode → Prop} {nodes nodes' : List IccNode}
    (h : List.Forall₂ R nodes nodes') : ∀ node ∈ nodes, ∃ node' ∈ nodes', R node node' := by
  induction h with
  | nil => exact fun node hnode => absurd hnode not_mem_nil
  | @cons a b nodes nodes' hab _ ih =>
    intro node hnode
    rcases mem_cons.mp hnode with rfl | hnode
    · exact ⟨b, mem_cons_self, hab⟩
    · obtain ⟨node', hmem, hle⟩ := ih node hnode
      exact ⟨node', mem_cons_of_mem b hmem, hle⟩

theorem IccNode.avgBase_eq (node : IccNode) : node.avgBase = node.buswidth * node.channels := by
  apply mod_eq_of_lt
  calc node.buswidth * node.channels < 2 ^ 16 * 2 ^ 16 :=
        mul_lt_mul'' node.buswidth_lt node.channels_lt
    _ = 2 ^ 32 := by norm_num

theorem IccNode.avgBase_pos (node : IccNode) : 0 < node.avgBase := by
  rw [node.avgBase_eq]
  exact mul_pos node.buswidth_pos node.channels_pos

structure IccNode.Below (node node' : IccNode) : Prop where
  channels : node.channels = node'.channels
  buswidth : node.buswidth = node'.buswidth
  sumAvg : ∀ bucket, node.sumAvg bucket ≤ node'.sumAvg bucket
  maxPeak : ∀ bucket, node.maxPeak bucket ≤ node'.maxPeak bucket

namespace IccBcm

variable {bcm bcm' : IccBcm} {request request' base base' : IccNode → ℕ} {bucket : Bucket}

structure Below (bcm bcm' : IccBcm) : Prop where
  unit : bcm.unit = bcm'.unit
  width : bcm.width = bcm'.width
  voteScale : bcm.voteScale = bcm'.voteScale
  keepalive : bcm.keepalive = bcm'.keepalive
  nodes : List.Forall₂ IccNode.Below bcm.nodes bcm'.nodes

def FitsValue (bcm : IccBcm) (request base : IccNode → ℕ) : Prop :=
  ∀ node ∈ bcm.nodes, request node * bcm.width < 2 ^ 64 ∧
    share (request node * bcm.width) (base node) * bcm.voteScale < 2 ^ 64

def Fits (bcm : IccBcm) : Prop :=
  ∀ bucket, bcm.FitsValue (·.sumAvg bucket) (·.avgBase) ∧ bcm.FitsValue (·.maxPeak bucket) (·.buswidth)

def Idle (bcm : IccBcm) (bucket : Bucket) : Prop :=
  ∀ node ∈ bcm.nodes, node.sumAvg bucket = 0 ∧ node.maxPeak bucket = 0

def Asks (bcm : IccBcm) (bucket : Bucket) : Prop :=
  (∃ node ∈ bcm.nodes, node.sumAvg bucket ≠ 0) ∧ ∃ node ∈ bcm.nodes, node.maxPeak bucket ≠ 0

def Modest (bcm : IccBcm) (bucket : Bucket) : Prop :=
  ∀ node ∈ bcm.nodes,
    share (node.sumAvg bucket * bcm.width) (node.buswidth * node.channels) * bcm.voteScale < 2 * bcm.unit ∧
      share (node.maxPeak bucket * bcm.width) node.buswidth * bcm.voteScale < 2 * bcm.unit

section
variable (hbase : ∀ node, 0 < base node)
include hbase

section
variable (hfits : bcm.FitsValue request base)
include hfits

theorem maxShare_le {c : ℕ} :
    bcm.maxShare request base ≤ c ↔ ∀ node ∈ bcm.nodes, share (request node * bcm.width) (base node) ≤ c := by
  unfold maxShare
  rw [foldl_max_le]
  constructor
  · rintro ⟨-, h⟩ node hnode
    have hle := h node hnode
    rwa [mod_eq_of_lt (hfits node hnode).1, bcmDiv_eq_share (hbase node)] at hle
  · refine fun h => ⟨zero_le c, fun node hnode => ?_⟩
    rw [mod_eq_of_lt (hfits node hnode).1, bcmDiv_eq_share (hbase node)]
    exact h node hnode

theorem maxShare_mul_lt {c : ℕ} (hc : 0 < c) :
    bcm.maxShare request base * bcm.voteScale < c ↔
      ∀ node ∈ bcm.nodes, share (request node * bcm.width) (base node) * bcm.voteScale < c := by
  have hdiv : ∀ k, k * bcm.voteScale < c ↔ k ≤ (c - 1) / bcm.voteScale := by
    intro k
    rw [le_div_iff_mul_le bcm.voteScale_pos]
    omega
  simp only [hdiv]
  exact maxShare_le hbase hfits

theorem aggregate_eq : bcm.aggregate request base = share (bcm.maxShare request base * bcm.voteScale) bcm.unit := by
  have hlt : bcm.maxShare request base * bcm.voteScale < 2 ^ 64 :=
    (maxShare_mul_lt hbase hfits (by norm_num)).mpr fun node hnode => (hfits node hnode).2
  rw [aggregate, mod_eq_of_lt hlt, bcmDiv_eq_share bcm.unit_pos]

theorem aggregate_eq_zero : bcm.aggregate request base = 0 ↔ ∀ node ∈ bcm.nodes, request node = 0 := by
  have hmax := maxShare_le (c := 0) hbase hfits
  have hsc := bcm.voteScale_pos.ne'
  have hwidth := bcm.width_pos.ne'
  rw [aggregate_eq hbase hfits, share_eq_zero, mul_eq_zero, or_iff_left hsc, ← le_zero, hmax]
  simp [hwidth]

theorem aggregate_le_one :
    bcm.aggregate request base ≤ 1 ↔
      ∀ node ∈ bcm.nodes, share (request node * bcm.width) (base node) * bcm.voteScale < 2 * bcm.unit := by
  rw [aggregate_eq hbase hfits, share_le_one bcm.unit_pos]
  exact maxShare_mul_lt hbase hfits (mul_pos two_pos bcm.unit_pos)

end

end

def Rises (bcm bcm' : IccBcm) (request base : IccNode → ℕ) : Prop :=
  List.Forall₂ (fun node node' => request node ≤ request node' ∧ base node = base node') bcm.nodes bcm'.nodes

section
variable (h : bcm.Below bcm')
include h

section
variable (hrise : bcm.Rises bcm' request base)
include hrise

theorem Below.share_le {node : IccNode} (hnode : node ∈ bcm.nodes) :
    ∃ node' ∈ bcm'.nodes,
      request node * bcm.width ≤ request node' * bcm'.width ∧
      share (request node * bcm.width) (base node) ≤ share (request node' * bcm'.width) (base node') := by
  obtain ⟨node', hmem, hle, hbase⟩ := exists_of_mem_left hrise node hnode
  have hmul : request node * bcm.width ≤ request node' * bcm'.width := by
    rw [h.width]
    exact mul_le_mul_right _ hle
  refine ⟨node', hmem, hmul, ?_⟩
  rw [hbase]
  exact share_mono hmul

theorem Below.fitsValue (hfits : bcm'.FitsValue request base) : bcm.FitsValue request base := by
  intro node hnode
  obtain ⟨node', hmem, hmul, hshare⟩ := h.share_le hrise hnode
  refine ⟨hmul.trans_lt (hfits node' hmem).1, ?_⟩
  rw [h.voteScale]
  exact (mul_le_mul_right _ hshare).trans_lt (hfits node' hmem).2

theorem Below.aggregate_le (hbase : ∀ node, 0 < base node) (hfits : bcm'.FitsValue request base) :
    bcm.aggregate request base ≤ bcm'.aggregate request base := by
  have hfits₀ := h.fitsValue hrise hfits
  rw [aggregate_eq hbase hfits₀, aggregate_eq hbase hfits, h.unit, h.voteScale]
  refine share_mono (mul_le_mul_right _ ?_)
  refine (maxShare_le hbase hfits₀).mpr fun node hnode => ?_
  obtain ⟨node', hmem, -, hshare⟩ := h.share_le hrise hnode
  exact hshare.trans ((maxShare_le hbase hfits).mp (le_refl _) node' hmem)

end

theorem Below.avg (bucket : Bucket) : bcm.Rises bcm' (·.sumAvg bucket) (·.avgBase) := by
  refine h.nodes.imp fun node node' hnode => ⟨hnode.sumAvg bucket, ?_⟩
  simp only [IccNode.avgBase, hnode.buswidth, hnode.channels]

theorem Below.peak (bucket : Bucket) : bcm.Rises bcm' (·.maxPeak bucket) (·.buswidth) :=
  h.nodes.imp fun _ _ hnode => ⟨hnode.maxPeak bucket, hnode.buswidth⟩

theorem Below.fits (hfits : bcm'.Fits) : bcm.Fits := fun bucket =>
  ⟨h.fitsValue (h.avg bucket) (hfits bucket).1, h.fitsValue (h.peak bucket) (hfits bucket).2⟩

theorem Below.bucketVote_le (hfits : bcm'.Fits) (bucket : Bucket) : bcm.bucketVote bucket ≤ bcm'.bucketVote bucket :=
  ⟨h.aggregate_le (h.avg bucket) (·.avgBase_pos) (hfits bucket).1,
    h.aggregate_le (h.peak bucket) (·.buswidth_pos) (hfits bucket).2⟩

end

section
variable (h : bcm.Fits)
include h

variable (bucket : Bucket)

theorem Fits.x_eq_zero : (bcm.bucketVote bucket).x = 0 ↔ ∀ node ∈ bcm.nodes, node.sumAvg bucket = 0 :=
  aggregate_eq_zero (·.avgBase_pos) (h bucket).1

theorem Fits.y_eq_zero : (bcm.bucketVote bucket).y = 0 ↔ ∀ node ∈ bcm.nodes, node.maxPeak bucket = 0 :=
  aggregate_eq_zero (·.buswidth_pos) (h bucket).2

theorem Fits.idle_iff : bcm.Idle bucket ↔ (bcm.bucketVote bucket).x = 0 ∧ (bcm.bucketVote bucket).y = 0 := by
  rw [h.x_eq_zero, h.y_eq_zero]
  exact ⟨fun hidle => ⟨fun node hnode => (hidle node hnode).1, fun node hnode => (hidle node hnode).2⟩,
    fun hzero node hnode => ⟨hzero.1 node hnode, hzero.2 node hnode⟩⟩

theorem Fits.asks_iff : bcm.Asks bucket ↔ (⟨1, 1⟩ : Vote) ≤ bcm.bucketVote bucket := by
  have hx := not_congr (h.x_eq_zero bucket)
  have hy := not_congr (h.y_eq_zero bucket)
  push Not at hx hy
  change _ ↔ 1 ≤ _ ∧ 1 ≤ _
  rw [one_le_iff_ne_zero, one_le_iff_ne_zero, hx, hy]
  exact Iff.rfl

theorem Fits.modest_iff : bcm.Modest bucket ↔ bcm.bucketVote bucket ≤ ⟨1, 1⟩ := by
  have hx := aggregate_le_one (·.avgBase_pos) (h bucket).1
  have hy := aggregate_le_one (·.buswidth_pos) (h bucket).2
  simp only [IccNode.avgBase_eq] at hx
  change _ ↔ _ ≤ 1 ∧ _ ≤ 1
  rw [show (bcm.bucketVote bucket).x ≤ 1 ↔ _ from hx, show (bcm.bucketVote bucket).y ≤ 1 ↔ _ from hy]
  exact ⟨fun hmod => ⟨fun node hnode => (hmod node hnode).1, fun node hnode => (hmod node hnode).2⟩,
    fun hmod node hnode => ⟨hmod.1 node hnode, hmod.2 node hnode⟩⟩

theorem Fits.bcmAggregate_of_idle (hkeep : bcm.keepalive = true) (hidle : bcm.Idle .amc) (bucket : Bucket) :
    bcm.bcmAggregate bucket =
      if bucket = .amc ∨ bucket = .wake then ⟨1, 1⟩ else bcm.bucketVote bucket := by
  unfold bcmAggregate
  rw [if_pos ⟨hkeep, (h.idle_iff .amc).mp hidle⟩]
  cases bucket <;> rfl

theorem Fits.bcmAggregate_of_not (hnot : ¬(bcm.keepalive = true ∧ bcm.Idle .amc)) (bucket : Bucket) :
    bcm.bcmAggregate bucket = bcm.bucketVote bucket := by
  unfold bcmAggregate
  rw [if_neg]
  rwa [← h.idle_iff .amc]

theorem Fits.bcmAggregate_ne_zero {node : IccNode} (hnode : node ∈ bcm.nodes) (bucket : Bucket) :
    (node.sumAvg bucket ≠ 0 → (bcm.bcmAggregate bucket).x ≠ 0) ∧
      (node.maxPeak bucket ≠ 0 → (bcm.bcmAggregate bucket).y ≠ 0) := by
  have hplain : (node.sumAvg bucket ≠ 0 → (bcm.bucketVote bucket).x ≠ 0) ∧
      (node.maxPeak bucket ≠ 0 → (bcm.bucketVote bucket).y ≠ 0) :=
    ⟨mt fun hx => (h.x_eq_zero bucket).mp hx node hnode, mt fun hy => (h.y_eq_zero bucket).mp hy node hnode⟩
  by_cases hkeep : bcm.keepalive = true ∧ bcm.Idle .amc
  · rw [h.bcmAggregate_of_idle hkeep.1 hkeep.2]
    split_ifs
    · exact ⟨fun _ => one_ne_zero, fun _ => one_ne_zero⟩
    · exact hplain
  · rw [h.bcmAggregate_of_not hkeep]
    exact hplain

end

/-- Between two sets of requests the votes rise, unless the first one wakes the keepalive and the
second one does not. -/
theorem Below.bcmAggregate_le (h : bcm.Below bcm') (hfits : bcm'.Fits) :
    (∀ bucket, bcm.bcmAggregate bucket ≤ bcm'.bcmAggregate bucket) ↔
      (bcm.keepalive = true → bcm.Idle .amc → ¬bcm'.Idle .amc → bcm'.Asks .amc ∧ bcm'.Asks .wake) := by
  have hfits₀ := h.fits hfits
  have hmono := h.bucketVote_le hfits
  by_cases hkeep : bcm.keepalive = true ∧ bcm.Idle .amc
  · obtain ⟨hkeep, hidle⟩ := hkeep
    have hkeep' : bcm'.keepalive = true := by rw [← h.keepalive, hkeep]
    simp only [hkeep, hidle, true_implies, hfits₀.bcmAggregate_of_idle hkeep hidle]
    by_cases hidle' : bcm'.Idle .amc
    · simp only [hidle', not_true, false_implies, iff_true, hfits.bcmAggregate_of_idle hkeep' hidle']
      intro bucket
      split_ifs
      · exact Vote.le_refl _
      · exact hmono bucket
    · simp only [hidle', not_false_eq_true, true_implies, hfits.asks_iff,
        hfits.bcmAggregate_of_not fun hboth => hidle' hboth.2]
      refine ⟨fun hle => ⟨hle .amc, hle .wake⟩, fun hone bucket => ?_⟩
      cases bucket with
      | amc => exact hone.1
      | wake => exact hone.2
      | sleep => exact hmono .sleep
      | other i => exact hmono (.other i)
  · -- more requests do not wake the keepalive
    have hkeep' : ¬(bcm'.keepalive = true ∧ bcm'.Idle .amc) := by
      rintro ⟨hk, hidle'⟩
      obtain ⟨hx, hy⟩ := (hfits.idle_iff .amc).mp hidle'
      obtain ⟨hlex, hley⟩ := hmono .amc
      refine hkeep ⟨h.keepalive.trans hk, (hfits₀.idle_iff .amc).mpr ⟨?_, ?_⟩⟩
      · exact le_zero.mp (hx ▸ hlex)
      · exact le_zero.mp (hy ▸ hley)
    simp only [hfits₀.bcmAggregate_of_not hkeep, hfits.bcmAggregate_of_not hkeep', hmono, implies_true, true_iff]
    exact fun hk hidle => absurd ⟨hk, hidle⟩ hkeep

/-- The keepalive does not lower a vote, unless there is a larger one for the wake bucket. -/
theorem Fits.keepalive_raises_iff (h : bcm.Fits) :
    (∀ bucket, { bcm with keepalive := false }.bcmAggregate bucket ≤ bcm.bcmAggregate bucket) ↔
      (bcm.keepalive = true → bcm.Idle .amc → bcm.Modest .wake) := by
  have hplain : ∀ bucket, { bcm with keepalive := false }.bcmAggregate bucket = bcm.bucketVote bucket := by
    intro bucket
    rfl
  simp only [hplain]
  by_cases hkeep : bcm.keepalive = true ∧ bcm.Idle .amc
  · obtain ⟨hkeep, hidle⟩ := hkeep
    simp only [hkeep, hidle, true_implies, h.bcmAggregate_of_idle hkeep hidle, h.modest_iff]
    obtain ⟨hx, hy⟩ := (h.idle_iff .amc).mp hidle
    refine ⟨fun hle => hle .wake, fun hwake bucket => ?_⟩
    cases bucket with
    | amc =>
      refine ⟨?_, ?_⟩
      · rw [hx]
        exact zero_le _
      · rw [hy]
        exact zero_le _
    | wake => exact hwake
    | sleep => exact Vote.le_refl _
    | other i => exact Vote.le_refl _
  · simp only [h.bcmAggregate_of_not hkeep]
    exact ⟨fun _ hk hidle => absurd ⟨hk, hidle⟩ hkeep, fun _ bucket => Vote.le_refl _⟩

/-- The votes of `bcm_aggregate`, for all requests that do not overflow: no request is lost; the votes rise
with the requests exactly if the requests that end the keepalive ask for both values of both buckets; the
keepalive raises every vote exactly if what it replaces is no more than one. -/
theorem bcm_aggregate_votes (bcm bcm' : IccBcm) (h : bcm.Below bcm') (hfits : bcm'.Fits) :
    (∀ bucket, ∀ node ∈ bcm.nodes, (node.sumAvg bucket ≠ 0 → (bcm.bcmAggregate bucket).x ≠ 0) ∧
      (node.maxPeak bucket ≠ 0 → (bcm.bcmAggregate bucket).y ≠ 0)) ∧
    ((∀ bucket, bcm.bcmAggregate bucket ≤ bcm'.bcmAggregate bucket) ↔
      (bcm.keepalive = true → bcm.Idle .amc → ¬bcm'.Idle .amc → bcm'.Asks .amc ∧ bcm'.Asks .wake)) ∧
    ((∀ bucket, { bcm with keepalive := false }.bcmAggregate bucket ≤ bcm.bcmAggregate bucket) ↔
      (bcm.keepalive = true → bcm.Idle .amc → bcm.Modest .wake)) :=
  ⟨fun bucket _ hnode => (h.fits hfits).bcmAggregate_ne_zero hnode bucket, h.bcmAggregate_le hfits,
    (h.fits hfits).keepalive_raises_iff⟩

def requests (amc wake : ℕ) : Bucket → ℕ
  | .amc => amc
  | .wake => wake
  | _ => 0

def ofRequests (keepalive : Bool) (amc wake : ℕ) : IccBcm where
  unit := 1000
  width := 16
  voteScale := 1000
  keepalive := keepalive
  nodes := [⟨2, 8, requests amc wake, requests amc wake, by decide, by decide, by decide, by decide⟩]
  unit_pos := by decide
  width_pos := by decide
  voteScale_pos := by decide

theorem ofRequests_below {amc amc' wake wake' : ℕ} (keepalive : Bool) (hamc : amc ≤ amc')
    (hwake : wake ≤ wake') : (ofRequests keepalive amc wake).Below (ofRequests keepalive amc' wake') := by
  refine ⟨rfl, rfl, rfl, rfl, List.Forall₂.cons ⟨rfl, rfl, ?_, ?_⟩ List.Forall₂.nil⟩ <;>
  · intro bucket
    cases bucket with
    | amc => exact hamc
    | wake => exact hwake
    | sleep => exact le_refl 0
    | other i => exact le_refl 0

theorem ofRequests_fits (keepalive : Bool) : (ofRequests keepalive 4000 4000).Fits := by
  intro bucket
  have hvl : requests 4000 4000 bucket = 4000 ∨ requests 4000 4000 bucket = 0 := by
    cases bucket <;> simp [requests]
  simp only [FitsValue, ofRequests, forall_mem_singleton]
  rcases hvl with h | h <;> rw [h] <;> decide

/-- Keepalive alone, and requests for 4000. -/
theorem bcm_aggregate_votes_sample :
    (∀ bucket, (ofRequests true 0 1).bcmAggregate bucket ≤ (ofRequests true 4000 4000).bcmAggregate bucket) ∧
      (ofRequests true 0 1).Idle .amc ∧ ¬(ofRequests true 4000 4000).Idle .amc := by
  have hasks : (ofRequests true 4000 4000).Asks .amc ∧ (ofRequests true 4000 4000).Asks .wake := by
    simp [Asks, ofRequests, requests]
  refine ⟨?_, by simp [Idle, ofRequests, requests], by simp [Idle, ofRequests, requests]⟩
  exact (bcm_aggregate_votes _ _ (ofRequests_below true (by decide) (by decide))
    (ofRequests_fits true)).2.1.mpr fun _ _ _ => hasks

/-- Without requests in the active bucket the keepalive lowers a wake vote to one; a first request
in the active bucket takes the wake vote of the keepalive away. -/
theorem bcm_aggregate_keepalive_lowers :
    (ofRequests true 4000 4000).Fits ∧
      (ofRequests true 0 4000).Below (ofRequests true 4000 4000) ∧
      ¬{ ofRequests true 0 4000 with keepalive := false }.bcmAggregate .wake ≤
        (ofRequests true 0 4000).bcmAggregate .wake ∧
      (ofRequests true 0 0).Below (ofRequests true 4000 0) ∧
      (ofRequests true 4000 0).Below (ofRequests true 4000 4000) ∧
      ¬(ofRequests true 0 0).bcmAggregate .wake ≤ (ofRequests true 4000 0).bcmAggregate .wake :=
  ⟨ofRequests_fits true, ofRequests_below true (by decide) (by decide), by decide,
    ofRequests_below true (by decide) (by decide), ofRequests_below true (by decide) (by decide), by decide⟩

end IccBcm

end VendorKernel.Interconnect

import VendorKernel.Walt.StatSums

/-! The prediction of a task: the buckets it looks at are those that are not empty, and the utilisation it
takes from the history is the one that comes first in the array. -/
namespace VendorKernel.Walt

open List DemandTask Option Nat Function Bool

variable {n start b util : ℕ} {p q : DemandTask n}

def bucketMin (bucket : ℕ) : ℕ := if bucket < 2 then 0 else bucket * 64

def bucketMax (bucket : ℕ) : ℕ := (max 1 bucket + 1) * 64

/-- The range from `dmin` to `dmax` for a bucket; the lowest two buckets are one. -/
def InBucketRange (bucket util : ℕ) : Prop := bucketMin bucket ≤ util ∧ util < bucketMax bucket

instance (bucket util : ℕ) : Decidable (InBucketRange bucket util) := inferInstanceAs (Decidable (_ ∧ _))

theorem find?_finRange_spec {m : ℕ} {f : Fin m → Bool} {k : Fin m} (h : (finRange m).find? f = some k) :
    f k = true ∧ ∀ i, f i = true → k ≤ i := by
  obtain ⟨hk, before, after, hspl, hbef⟩ := find?_eq_some_iff_append.mp h
  have hsrt := pairwise_lt_finRange m
  rw [hspl, pairwise_append, pairwise_cons] at hsrt
  refine ⟨hk, fun i hi => ?_⟩
  have hmem : i ∈ before ++ k :: after := hspl ▸ mem_finRange i
  rcases mem_append.mp hmem with hmem | hmem
  · simpa [hi] using hbef i hmem
  · rcases mem_cons.mp hmem with rfl | hmem
    · exact Fin.le_refl _
    · exact Fin.le_of_lt (hsrt.2.1.1 i hmem)

namespace DemandTask

def predBucket (p : DemandTask n) (start : ℕ) : Option (Fin 16) :=
  (finRange 16).find? fun i => start ≤ i.val && p.bucketBitmask i

def histUtil (p : DemandTask n) (bucket : ℕ) : Option ℕ :=
  ((finRange 5).map p.sumHistoryUtil).find? fun util => InBucketRange bucket util

theorem predBucket_spec {b : Fin 16} (hb : p.predBucket start = some b) :
    start ≤ b.val ∧ p.bucketBitmask b = true ∧ ∀ i, start ≤ i.val → p.bucketBitmask i = true → b ≤ i := by
  obtain ⟨hfst, hlowest⟩ := find?_finRange_spec hb
  rw [and_eq_true, decide_eq_true_eq] at hfst
  refine ⟨hfst.1, hfst.2, fun i hini hi => hlowest i ?_⟩
  simp [hini, hi]

theorem getPredBusy_eq {b : Fin 16} (hnew : isNewTask p.toWaltTask = false) (hb : p.predBucket start = some b)
    (r : ℕ) :
    getPredBusy p start r = max r ((p.histUtil b).getD
      (if r < bucketMin b then (bucketMin b + bucketMax b) / 2 else r)) := by
  have hfind : p.histUtil b = ((finRange 5).find? fun i =>
      bucketMin b ≤ p.sumHistoryUtil i && p.sumHistoryUtil i < bucketMax b).map p.sumHistoryUtil := by
    rw [histUtil, find?_map]
    congr 2
    exact funext fun i => decide_and ..
  rw [predBucket] at hb
  rw [getPredBusy, hnew, hb, hfind]
  dsimp only
  rw [← bucketMin, ← bucketMax]
  cases hi : (finRange 5).find? _ with
  | none => rfl
  | some i =>
    have hmin := find?_some hi
    simp only [and_eq_true, decide_eq_true_eq] at hmin
    simp [Nat.not_lt_of_le hmin.1]

end DemandTask

def BucketsMasked (p : DemandTask n) : Prop := ∀ i, p.bucketBitmask i = true ↔ p.busyBuckets i ≠ 0

theorem bucketsMasked_increase (h : BucketsMasked p) (idx : ℕ) : BucketsMasked (bucketIncrease p idx) := by
  intro i
  have hi := h i
  simp only [bucketIncrease]
  split_ifs <;> simp_all
  omega

def predictAt (p : DemandTask n) (call : DemandTask n × ℕ) : DemandTask n × ℕ :=
  predictAndUpdateBuckets { call.1 with busyBuckets := p.busyBuckets, bucketBitmask := p.bucketBitmask } call.2

def emptyBuckets (p : DemandTask n) : DemandTask n :=
  { p with busyBuckets := fun _ => 0, bucketBitmask := fun _ => false }

theorem bucketsMasked_calls (p : DemandTask n) (calls : List (DemandTask n × ℕ)) :
    BucketsMasked (calls.foldl (fun p call => (predictAt p call).1) (emptyBuckets p)) := by
  refine foldlRecOn _ _ (fun i => by simp [emptyBuckets]) fun q hq call _ => ?_
  exact @bucketsMasked_increase _
    { call.1 with busyBuckets := q.busyBuckets, bucketBitmask := q.bucketBitmask } hq _

/-- After any calls for a new task the mask tells the buckets that are not empty, and a prediction above
the runtime is in the range of the lowest of these that is not below that of the runtime. -/
theorem predictions_in_bucket (p : DemandTask n) (calls : List (DemandTask n × ℕ))
    (call : DemandTask n × ℕ) :
    let q := calls.foldl (fun p call => (predictAt p call).1) (emptyBuckets p)
    let pred := (predictAt q call).2
    BucketsMasked q ∧ call.2 ≤ pred ∧
      (call.2 < pred → ∃ b, busyToBucket call.2 ≤ b.val ∧ q.busyBuckets b ≠ 0 ∧
        (∀ i, busyToBucket call.2 ≤ i.val → q.busyBuckets i ≠ 0 → b ≤ i) ∧ InBucketRange b pred) := by
  intro q pred
  have hmask : BucketsMasked q := bucketsMasked_calls p calls
  obtain ⟨task, r⟩ := call
  let u : DemandTask n := { task with busyBuckets := q.busyBuckets, bucketBitmask := q.bucketBitmask }
  have hpred : pred = getPredBusy u (busyToBucket r) r := rfl
  by_cases hnew : isNewTask u.toWaltTask = true
  · have hr : pred = r := by rw [hpred, getPredBusy, if_pos hnew]
    exact ⟨hmask, hr.ge, fun hlt => absurd hr hlt.ne'⟩
  cases hb : u.predBucket (busyToBucket r) with
  | none =>
    have hr : pred = r := by
      rw [predBucket] at hb
      rw [hpred, getPredBusy, if_neg hnew, hb]
    exact ⟨hmask, hr.ge, fun hlt => absurd hr hlt.ne'⟩
  | some b =>
    rw [getPredBusy_eq (eq_false_of_not_eq_true hnew) hb] at hpred
    obtain ⟨hini, hb', hlowest⟩ := predBucket_spec hb
    refine ⟨hmask, hpred ▸ le_max_left _ _, fun hlt => ⟨b, hini, (hmask b).mp hb', ?_, ?_⟩⟩
    · intro i hi hne
      exact hlowest i hi ((hmask i).mpr hne)
    · cases hu : u.histUtil b with
      | some util =>
        have hin := of_decide_eq_true (find?_some (p := fun util => InBucketRange b util) hu)
        rw [hu, getD_some] at hpred
        rwa [show pred = util by omega]
      | none =>
        rw [hu, getD_none] at hpred
        rw [InBucketRange, bucketMin, bucketMax] at *
        split_ifs at * <;> omega

/-- The windows are recorded, each with its runtime, its utilisation and the number of its samples. -/
def recordWindows (p : DemandTask n) (windows : List (ℕ × ℕ × ℕ)) : DemandTask n :=
  windows.foldl (fun p w => pushSamples p w.1 w.2.1 w.2.2) p

def recentUtils (windows : List (ℕ × ℕ × ℕ)) : List ℕ :=
  (windows.flatMap fun w => replicate w.2.2 w.2.1).reverse.take 5

/-- The array holds the utilisations `recorded`, the latest in front of `cidx`. -/
def Retained (p : DemandTask n) (recorded : List ℕ) : Prop :=
  ∀ i < 5, ∀ util, recorded[i]? = some util →
    ∀ k : Fin 5, (k.val + i + 1) % 5 = p.cidx.val → p.sumHistoryUtil k = util

section
variable {recorded : List ℕ} (h : Retained p recorded)
include h

theorem Retained.pushSample (runtime util : ℕ) : Retained (pushSample p runtime util) (util :: recorded) := by
  intro i hi x hx k hk
  have hcidx : (p.cidx + 1).val = (p.cidx.val + 1) % 5 := rfl
  simp only [Walt.pushSample, hcidx] at hk ⊢
  cases i with
  | zero =>
    obtain rfl : k = p.cidx := Fin.ext (by omega)
    rw [update_self]
    exact some.inj hx
  | succ i =>
    have hne : k ≠ p.cidx := by
      omega
    rw [update_of_ne hne]
    exact h i (by omega) x hx k (by omega)

theorem Retained.pushSamples (runtime util samples : ℕ) :
    Retained (pushSamples p runtime util samples) (replicate samples util ++ recorded) := by
  induction samples generalizing p recorded with
  | zero => exact h
  | succ samples ih =>
    rw [replicate_succ', append_assoc]
    exact ih (h.pushSample runtime util)

theorem Retained.recordWindows (windows : List (ℕ × ℕ × ℕ)) :
    Retained (recordWindows p windows) ((windows.flatMap fun w => replicate w.2.2 w.2.1).reverse ++ recorded) := by
  induction windows generalizing p recorded with
  | nil => exact h
  | cons w windows ih =>
    rw [flatMap_cons, reverse_append, reverse_replicate, append_assoc]
    exact ih (h.pushSamples w.1 w.2.1 w.2.2)

end

def Matches (q : DemandTask n) (bucket : ℕ) (k : Fin 5) : Prop := InBucketRange bucket (q.sumHistoryUtil k)

instance (q : DemandTask n) (bucket : ℕ) (k : Fin 5) : Decidable (Matches q bucket k) :=
  inferInstanceAs (Decidable (_ ∧ _))

/-- The match at the lowest position `k` and that at the highest position `k'` on the same side of `cidx` have the
same utilisation, or none above the runtime. -/
def LowestIsLatest (q : DemandTask n) (bucket runtime : ℕ) : Prop :=
  ∀ k k' : Fin 5, (Matches q bucket k ∧ ∀ j < k, ¬Matches q bucket j) →
    (Matches q bucket k' ∧ (k' < q.cidx ↔ k < q.cidx) ∧ ∀ j > k', (j < q.cidx ↔ k < q.cidx) → ¬Matches q bucket j) →
    q.sumHistoryUtil k = q.sumHistoryUtil k' ∨ q.sumHistoryUtil k ≤ runtime ∧ q.sumHistoryUtil k' ≤ runtime

instance (q : DemandTask n) (bucket runtime : ℕ) : Decidable (LowestIsLatest q bucket runtime) := by
  unfold LowestIsLatest
  infer_instance

def age (cidx k : Fin 5) : ℕ := (cidx.val + 4 - k.val) % 5

/-- The latest recorded utilisation in the bucket is at the match with the least age. -/
theorem exists_latest {windows : List (ℕ × ℕ × ℕ)} {latest : ℕ}
    (hq : q.sumHistoryUtil = (recordWindows p windows).sumHistoryUtil)
    (hcidx : q.cidx = (recordWindows p windows).cidx)
    (hlatest : (recentUtils windows).find? (fun util => InBucketRange b util) = some latest) :
    ∃ k, q.sumHistoryUtil k = latest ∧ Matches q b k ∧ ∀ j, Matches q b j → age q.cidx k ≤ age q.cidx j := by
  have hret : Retained q (windows.flatMap fun w => replicate w.2.2 w.2.1).reverse := by
    have hret : Retained (recordWindows p windows) _ := @Retained.recordWindows _ p [] nofun windows
    rwa [Retained, ← hq, ← hcidx, append_nil] at hret
  obtain ⟨hin, before, after, hspl, hbef⟩ := find?_eq_some_iff_append.mp hlatest
  have hlen : before.length < 5 := by
    have := length_take_le 5 (windows.flatMap fun w => replicate w.2.2 w.2.1).reverse
    rw [← recentUtils, hspl, length_append, length_cons] at this
    omega
  have hget : ∀ i < 5, ∀ util, (before ++ latest :: after)[i]? = some util →
      ∀ k : Fin 5, age q.cidx k = i → q.sumHistoryUtil k = util := by
    intro i hi util hutil k hk
    rw [← hspl, recentUtils, getElem?_take, if_pos hi] at hutil
    exact hret i hi util hutil k (by rw [age] at hk; omega)
  let k : Fin 5 := ⟨(q.cidx.val + 4 - before.length) % 5, mod_lt _ (by decide)⟩
  have hage : age q.cidx k = before.length := by
    simp only [age, k]
    omega
  have hk := hget _ hlen latest (by simp) k hage
  refine ⟨k, hk, by rw [Matches, hk]; exact of_decide_eq_true hin, fun j hj => ?_⟩
  by_contra hlt
  rw [hage, Nat.not_le] at hlt
  have hutil := hget _ (by omega) before[age q.cidx j] (by rw [getElem?_append_left hlt, getElem?_eq_getElem]) j rfl
  rw [Matches, hutil] at hj
  exact absurd (decide_eq_true hj) (by simpa using hbef _ (getElem_mem hlt))

/-- The prediction is made from the latest recorded utilisation in the predicted bucket, if and only if the lowest
match is as good as the highest one on its side of `cidx`. -/
theorem get_pred_busy_latest_iff (p q : DemandTask n) (windows : List (ℕ × ℕ × ℕ)) (start r latest : ℕ)
    (b : Fin 16) (hq : q.sumHistoryUtil = (recordWindows p windows).sumHistoryUtil)
    (hcidx : q.cidx = (recordWindows p windows).cidx) (hnew : isNewTask q.toWaltTask = false)
    (hb : q.predBucket start = some b)
    (hlatest : (recentUtils windows).find? (fun util => InBucketRange b util) = some latest) :
    getPredBusy q start r = max r latest ↔ LowestIsLatest q b r := by
  obtain ⟨k', rfl, hk', hage⟩ := exists_latest hq hcidx hlatest
  obtain ⟨k, hfirst⟩ : ∃ k, (finRange 5).find? (fun k => Matches q b k) = some k :=
    isSome_iff_exists.mp (find?_isSome.mpr ⟨k', mem_finRange k', decide_eq_true hk'⟩)
  have hutil : q.histUtil b = some (q.sumHistoryUtil k) := by
    rw [histUtil, find?_map]
    exact congrArg (Option.map q.sumHistoryUtil) hfirst
  obtain ⟨hk, hlowest⟩ := find?_finRange_spec hfirst
  simp only [decide_eq_true_eq] at hk hlowest
  -- below `cidx` a higher position is a later one, and every position there is later than the others
  have hle := hlowest k' hk'
  have hagek := hage k hk
  simp only [age] at hage hagek
  have hside : k' < q.cidx ↔ k < q.cidx := by
    omega
  rw [getPredBusy_eq hnew hb, hutil, getD_some]
  constructor
  · rintro hmax j j' ⟨hj, hjlow⟩ ⟨hj', hside', hhigh⟩
    obtain rfl : j = k := Fin.le_antisymm (Fin.not_lt.mp fun hlt => hjlow k hlt hk) (hlowest j hj)
    obtain rfl : j' = k' := by
      have hagej := hage j' hj'
      have hnot : ¬k' > j' := fun hlt => hhigh k' hlt hside hk'
      omega
    omega
  · intro hcond
    have hc := hcond k k' ⟨hk, fun j hlt hj => absurd (hlowest j hj) (Fin.not_le.mpr hlt)⟩ ⟨hk', hside, ?_⟩
    · omega
    · intro j hlt hsidej hj
      have hagej := hage j hj
      omega

def twoWindows (first second : ℕ) : DemandTask 1 :=
  { recordWindows (freshTask 0 false) [(1000000, first, 1), (1200000, second, 1)] with
    bucketBitmask := fun i => i = 1, activeTime := newTaskActiveTime }

/-- After windows with the utilisations 100 and 120, which are in bucket 1. -/
theorem get_pred_busy_not_latest :
    (twoWindows 100 120).predBucket (busyToBucket 10) = some 1 ∧
      recentUtils [(1000000, 100, 1), (1200000, 120, 1)] = [120, 100] ∧ InBucketRange 1 120 ∧
      getPredBusy (twoWindows 100 120) (busyToBucket 10) 10 = 100 := by
  decide

/-- With 300 in the first window, the second one is the only match below `cidx`. -/
theorem get_pred_busy_latest_twoWindows : getPredBusy (twoWindows 300 120) (busyToBucket 10) 10 = max 10 120 :=
  (get_pred_busy_latest_iff (freshTask 0 false) (twoWindows 300 120) [(1000000, 300, 1), (1200000, 120, 1)]
    (busyToBucket 10) 10 120 1 rfl rfl (by decide) (by decide) (by decide)).mpr (by decide)

end VendorKernel.Walt

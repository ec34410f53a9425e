import VendorKernel.Rpmh.Cache

/-! The cache of `rpmh.c` as a map from addresses to votes. -/
namespace VendorKernel.Rpmh

open Machine List RpmhCtrlr

abbrev Request := RpmhState × TcsCmd

def cacheRequest (s : RpmhCtrlr) (r : Request) : Option RpmhCtrlr := s.cacheRpmRequest r.1 r.2

def addrs (cache : List CacheReq) : List UInt32 := cache.map CacheReq.addr

def lastData (reqs : List Request) (states : RpmhState → Bool) (addr : UInt32) : UInt32 :=
  ((reqs.reverse.find? fun r => states r.1 && r.2.addr == addr).map fun r => r.2.data).getD UINT_MAX

structure CacheMap (reqs : List Request) (cache : List CacheReq) : Prop where
  nodup : (addrs cache).Nodup
  votes : ∀ addr, getReq cache addr = ⟨addr, lastData reqs (· == .sleep) addr, lastData reqs (· != .sleep) addr⟩

theorem addrs_putReq (cache : List CacheReq) (req : CacheReq) :
    addrs (putReq cache req) = if req.addr ∈ addrs cache then addrs cache else addrs cache ++ [req.addr] := by
  induction cache with
  | nil => rfl
  | cons old cache ih =>
    rw [addrs] at ih
    rw [putReq]
    all_goals grind [addrs]

theorem getReq_cons (old : CacheReq) (cache : List CacheReq) (addr : UInt32) :
    getReq (old :: cache) addr = if old.addr = addr then old else getReq cache addr := by
  by_cases hold : old.addr = addr <;> simp [getReq, hold]

theorem getReq_addr (cache : List CacheReq) (addr : UInt32) : (getReq cache addr).addr = addr := by
  induction cache with
  | nil => rfl
  | cons old cache ih =>
    rw [getReq_cons]
    split_ifs with hold
    · exact hold
    · exact ih

theorem vote_addr {cache : List CacheReq} {addr data : UInt32} {state : RpmhState} :
    ((getReq cache addr).vote state data).addr = addr := by
  cases state <;> exact getReq_addr cache addr

theorem getReq_putReq (cache : List CacheReq) (req : CacheReq) (addr : UInt32) :
    getReq (putReq cache req) addr = if req.addr = addr then req else getReq cache addr := by
  induction cache with
  | nil => exact getReq_cons req [] addr
  | cons old cache ih =>
    rw [putReq]
    by_cases hold : old.addr = req.addr
    · rw [if_pos hold, getReq_cons, getReq_cons, hold]
      split_ifs <;> rfl
    · rw [if_neg hold, getReq_cons, getReq_cons, ih]
      split_ifs with h h'
      · exact absurd (h.trans h'.symm) hold
      all_goals rfl

/-- The cache is a map from addresses to votes. -/
theorem CacheMap.step {reqs : List Request} {s s' : RpmhCtrlr} {r : Request} (h : CacheMap reqs s.nonBatchCache)
    (hs : cacheRequest s r = some s') : CacheMap (reqs ++ [r]) s'.nonBatchCache := by
  obtain ⟨state, cmd⟩ := r
  rw [cacheRequest, cacheRpmRequest] at hs
  split_ifs at hs
  cases hs
  constructor
  · rw [addrs_putReq]
    split_ifs with hmem
    · exact h.nodup
    · rw [← concat_eq_append]
      exact h.nodup.concat hmem
  · intro addr
    rw [getReq_putReq, vote_addr, h.votes addr, h.votes cmd.addr]
    by_cases hsame : cmd.addr = addr
    · cases state <;> simp [lastData, hsame, CacheReq.vote]
    · simp [lastData, hsame]

theorem CacheMap.run {pre reqs : List Request} {s₀ s : RpmhCtrlr} (h : CacheMap pre s₀.nonBatchCache)
    (hrun : run cacheRequest s₀ reqs = some s) : CacheMap (pre ++ reqs) s.nonBatchCache := by
  induction reqs generalizing pre s₀ with
  | nil =>
    cases hrun
    rwa [append_nil]
  | cons r reqs ih =>
    obtain ⟨s', hs, hrun⟩ := run_cons hrun
    have hrest := ih (h.step hs) hrun
    rwa [append_assoc] at hrest

/-- The cache keeps the last votes of every sequence of requests, and has room for a request to an address
that it does not have unless it is full; for one that it has, if and only if it is not. -/
theorem rpmh_cache_map (s₀ s : RpmhCtrlr) (reqs : List Request) (hempty : s₀.nonBatchCache = [])
    (hrun : run cacheRequest s₀ reqs = some s) : CacheMap reqs s.nonBatchCache ∧
      ∀ r, (cacheRequest s r = none →
          r.2.addr ∉ addrs s.nonBatchCache ∧ CMD_DB_MAX_RESOURCES ≤ (addrs s.nonBatchCache).length) ↔
        (r.2.addr ∈ addrs s.nonBatchCache → s.nonBatchCache.length < CMD_DB_MAX_RESOURCES) := by
  constructor
  · have hini : CacheMap [] s₀.nonBatchCache := hempty ▸ ⟨nodup_nil, fun _ => rfl⟩
    exact hini.run hrun
  · intro r
    have hnone : cacheRequest s r = none ↔ CMD_DB_MAX_RESOURCES ≤ s.nonBatchCache.length := by
      simp [cacheRequest, cacheRpmRequest]
    rw [addrs, length_map, ← not_le]
    tauto

def emptyCtrlr : RpmhCtrlr := .start false false false false 1 (fun _ _ => 0) 0 0

def someRequests : List Request :=
  [(.sleep, ⟨5, 7, false⟩), (.wakeOnly, ⟨5, 9, false⟩), (.sleep, ⟨6, 1, false⟩), (.sleep, ⟨5, 8, false⟩)]

/-- Four requests for two addresses. -/
theorem rpmh_cache_map_some : CacheMap someRequests [⟨5, 8, 9⟩, ⟨6, 1, UINT_MAX⟩] :=
  (rpmh_cache_map emptyCtrlr _ someRequests rfl rfl).1

theorem cacheRequest_fills {n : ℕ} (hn : n ≤ CMD_DB_MAX_RESOURCES) :
    ∃ s, run cacheRequest emptyCtrlr ((range n).map fun i => (.wakeOnly, ⟨.ofNat i, 0, false⟩)) = some s ∧
      addrs s.nonBatchCache = (range n).map UInt32.ofNat := by
  induction n with
  | zero => exact ⟨_, rfl, rfl⟩
  | succ n ih =>
    obtain ⟨s, hrun, had⟩ := ih (Nat.le_of_succ_le hn)
    have hlen : s.nonBatchCache.length = n := by simpa [addrs] using congrArg length had
    have hnew : UInt32.ofNat n ∉ addrs s.nonBatchCache := by
      simp only [had, mem_map, mem_range, ← UInt32.toNat_inj, UInt32.toNat_ofNat', CMD_DB_MAX_RESOURCES] at *
      omega
    rw [range_succ, map_append, map_append, ← had]
    have hs : cacheRequest s (.wakeOnly, ⟨.ofNat n, 0, false⟩) = some _ := if_neg (by omega)
    refine ⟨_, run_append hrun (by rw [map_singleton, run, hs]; rfl), ?_⟩
    rw [addrs_putReq, vote_addr, if_neg hnew]
    rfl

/-- With 250 addresses in the cache a new vote for one of them is refused. -/
theorem rpmh_full_cache_refuses : ∃ s, run cacheRequest emptyCtrlr
    ((List.range 250).map fun i => (.wakeOnly, ⟨.ofNat i, 0, false⟩)) = some s ∧
      0 ∈ addrs s.nonBatchCache ∧ (cacheRequest s (.wakeOnly, ⟨0, 1, false⟩)).isNone := by
  obtain ⟨s, hrun, had⟩ := cacheRequest_fills le_rfl
  refine ⟨s, hrun, had ▸ mem_map.mpr ⟨0, by decide, rfl⟩, ?_⟩
  have hlen : s.nonBatchCache.length = CMD_DB_MAX_RESOURCES := by simpa [addrs] using congrArg length had
  simp [cacheRequest, cacheRpmRequest, hlen]

end VendorKernel.Rpmh

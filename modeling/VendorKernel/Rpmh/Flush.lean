import VendorKernel.Rpmh.CacheMap

/-! What the flush leaves in the TCSes: the commands of the cached votes, if the cache was written
to the selected channel last and its wake TCSes were not borrowed. -/
namespace VendorKernel.Rpmh

open Machine List RpmhCtrlr List.Perm Option TcsGroup

def sleepVotes (cache : List CacheReq) : List TcsCmd :=
  (cache.filter fun req => isReqValid req).map fun req => ⟨req.addr, req.sleepVal, false⟩

def wakeVotes (cache : List CacheReq) : List TcsCmd :=
  (cache.filter fun req => isReqValid req).map fun req => ⟨req.addr, req.wakeVal, false⟩

def cmdsFor (state : RpmhState) (msgs : List TcsRequest) : List TcsCmd :=
  (msgs.filter fun msg => msg.state = state).flatMap TcsRequest.cmds

namespace RpmhCtrlr

variable {s s' s'' : RpmhCtrlr}

structure Reflects (s : RpmhCtrlr) (ch : ℕ) : Prop where
  sleep : (s.tcs ch .sleep).enabled.Perm (s.batchCache .sleep ++ sleepVotes s.nonBatchCache)
  wake : (s.tcs ch .wake).enabled.Perm (s.batchCache .wakeOnly ++ wakeVotes s.nonBatchCache)

/-- A successful `rpmh_write_sleep_and_wake` leaves the cache in the channel that it selected, and has
switched to it. -/
def Flushes (s : RpmhCtrlr) : RpmhOp → Prop
  | .writeSleepAndWake => s.rpmhWriteSleepAndWake.2 = 0 →
    ∃ ch, s.rpmhRscGetChannel = some ch ∧ s.rpmhWriteSleepAndWake.1.Reflects ch ∧
      (s.hwChannelPresent = true → s.rpmhWriteSleepAndWake.1.chnUpdate = 1 <<< ch)
  | _ => True

def Dedicated (s : RpmhCtrlr) (state : RpmhState) : Prop :=
  state = .activeOnly → ∀ ch ∈ s.rpmhRscGetChannel, (s.tcs ch .active).numTcs ≠ 0

instance (s : RpmhCtrlr) (state : RpmhState) : Decidable (s.Dedicated state) :=
  inferInstanceAs (Decidable (_ → ∀ ch ∈ s.rpmhRscGetChannel, (s.tcs ch .active).numTcs ≠ 0))

/-- No vote is `UINT_MAX`. A flush that finds the cache clean selects the channel written last, and no
request borrows a wake TCS. -/
def Current (s : RpmhCtrlr) : RpmhOp → Prop
  | .write state _ cmd _ => (∀ c ∈ cmd, c.data ≠ UINT_MAX) ∧ s.Dedicated state
  | .writeBatch state _ _ _ => s.Dedicated state
  | .writeSleepAndWake => s.dirty = false → ∀ last ∈ s.last, ∀ ch ∈ s.rpmhRscGetChannel, ch = last
  | .invalidate | .txDone _ _ => True

/-! ### The cache -/

theorem votes_putReq {cache : List CacheReq} {addr : UInt32} {req : CacheReq} (haddr : req.addr = addr)
    (hsame : req = getReq cache addr ∨ isReqValid (getReq cache addr) = false ∧ isReqValid req = false) :
    (putReq cache req).filter (fun req => isReqValid req) = cache.filter fun req => isReqValid req := by
  have hnew : isReqValid ⟨addr, UINT_MAX, UINT_MAX⟩ = false := by simp [isReqValid]
  induction cache with
  | nil =>
    have hreq : isReqValid req = false := by
      rcases hsame with rfl | ⟨-, hreq⟩
      · exact hnew
      · exact hreq
    simp [putReq, hreq]
  | cons old cache ih =>
    rw [getReq_cons] at hsame
    rw [putReq, haddr]
    split_ifs at hsame ⊢ with hold
    · rcases hsame with rfl | ⟨hbad, hreq⟩
      · rfl
      · simp [hbad, hreq]
    · rw [filter_cons, filter_cons, ih hsame]

/-- What caching requests leaves alone; a controller that is clean afterwards was clean before, with the same
votes. -/
structure Caches (s s' : RpmhCtrlr) : Prop where
  same : s' = { s with nonBatchCache := s'.nonBatchCache, dirty := s'.dirty }
  clean : s'.dirty = false → s.dirty = false ∧
    s'.nonBatchCache.filter (fun req => isReqValid req) = s.nonBatchCache.filter fun req => isReqValid req

theorem Caches.refl (s : RpmhCtrlr) : s.Caches s := ⟨rfl, fun h => ⟨h, rfl⟩⟩

theorem Caches.trans (h : s.Caches s') (h' : s'.Caches s'') : s.Caches s'' := by
  refine ⟨?_, fun hcln => ?_⟩
  · exact h'.same.trans (congrArg (fun x : RpmhCtrlr =>
      { x with nonBatchCache := s''.nonBatchCache, dirty := s''.dirty }) h.same)
  · obtain ⟨hcln', hvo'⟩ := h'.clean hcln
    obtain ⟨hcln, hvo⟩ := h.clean hcln'
    exact ⟨hcln, hvo'.trans hvo⟩

theorem cacheRpmRequest_caches {state : RpmhState} {cmd : TcsCmd} (hdata : cmd.data ≠ UINT_MAX)
    (h : s.cacheRpmRequest state cmd = some s') : s.Caches s' := by
  unfold cacheRpmRequest at h
  split_ifs at h
  cases h
  refine ⟨rfl, fun hcln => ?_⟩
  simp only [Bool.or_eq_false_iff, decide_eq_false_iff_not] at hcln
  refine ⟨hcln.1, votes_putReq vote_addr ?_⟩
  have hsame := hcln.2
  generalize getReq s.nonBatchCache cmd.addr = old at hsame ⊢
  obtain ⟨addr, sleepVal, wakeVal⟩ := old
  cases state <;> simp only [CacheReq.vote, isReqValid] at hsame ⊢ <;> grind

theorem cacheRpmRequests_caches (state : RpmhState) {cmds : List TcsCmd}
    (hdata : ∀ cmd ∈ cmds, cmd.data ≠ UINT_MAX) (s : RpmhCtrlr) :
    s.Caches (s.cacheRpmRequests state cmds).1 := by
  induction cmds generalizing s with
  | nil => exact Caches.refl s
  | cons cmd cmds ih =>
    rw [cacheRpmRequests]
    split
    · exact Caches.refl s
    · next s' hs' =>
      obtain ⟨hcmd, hcmds⟩ := forall_mem_cons.mp hdata
      exact (cacheRpmRequest_caches hcmd hs').trans (ih hcmds s')

/-! ### The flush -/

variable {ch numChannels ncpt chnUpdate : ℕ} {type type' : TcsType} {g : TcsGroup} {msg : TcsRequest}
  {idle : ℕ → Bool} {ret : ℤ} {state : RpmhState} {s'' : RpmhCtrlr} {msgs msgs' : List TcsRequest} {cmd : List TcsCmd}

def Tidy (s : RpmhCtrlr) : Prop := ∀ ch type, type ≠ .active → (s.tcs ch type).Tidy

theorem setTcs_same (s : RpmhCtrlr) (ch : ℕ) (type : TcsType) (g : TcsGroup) :
    (s.setTcs ch type g).tcs ch type = g := by
  simp [setTcs]

theorem setTcs_of_ne (h : type' ≠ type) (ch' : ℕ) : (s.setTcs ch type g).tcs ch' type' = s.tcs ch' type' := by
  simp [setTcs, h]

theorem Tidy.setTcs (h : s.Tidy) (hg : type ≠ .active → g.Tidy) : (s.setTcs ch type g).Tidy := by
  intro ch' type' htype
  simp only [RpmhCtrlr.setTcs]
  split_ifs with heq
  · exact hg (heq.2 ▸ htype)
  · exact h ch' type' htype

structure SameCache (s s' : RpmhCtrlr) : Prop where
  same : s' = { s with tcs := s'.tcs }
  active : ∀ ch, s'.tcs ch .active = s.tcs ch .active

theorem SameCache.refl (s : RpmhCtrlr) : s.SameCache s := ⟨rfl, fun _ => rfl⟩

theorem SameCache.trans (h : s.SameCache s') (h' : s'.SameCache s'') : s.SameCache s'' :=
  ⟨h'.same.trans (congrArg (fun x : RpmhCtrlr => { x with tcs := s''.tcs }) h.same),
    fun ch => (h'.active ch).trans (h.active ch)⟩

theorem setTcs_sameCache (htype : type ≠ .active) (s : RpmhCtrlr) (ch : ℕ) (g : TcsGroup) :
    s.SameCache (s.setTcs ch type g) :=
  ⟨rfl, setTcs_of_ne htype.symm⟩

structure Adds (s s' : RpmhCtrlr) (ch : ℕ) (msgs : List TcsRequest) : Prop where
  same : s.SameCache s'
  tidy : s'.Tidy
  sleep : (s'.tcs ch .sleep).enabled.Perm ((s.tcs ch .sleep).enabled ++ cmdsFor .sleep msgs)
  wake : (s'.tcs ch .wake).enabled.Perm ((s.tcs ch .wake).enabled ++ cmdsFor .wakeOnly msgs)

theorem cmdsFor_append (state : RpmhState) (msgs msgs' : List TcsRequest) :
    cmdsFor state (msgs ++ msgs') = cmdsFor state msgs ++ cmdsFor state msgs' := by
  simp [cmdsFor]

theorem write_adds (h : s.Tidy) (hsta : msg.state ≠ .activeOnly)
    (hs : s.rpmhRscWriteCtrlData msg ch = (s', true)) : s.Adds s' ch [msg] := by
  unfold rpmhRscWriteCtrlData at hs
  dsimp only at hs
  split at hs
  · cases hs
  · next g hg =>
    obtain rfl := (Prod.mk.inj hs).1
    have hcmds : ∀ state, cmdsFor state [msg] = if msg.state = state then msg.cmds else [] := by
      intro state
      by_cases hst : msg.state = state <;> simp [cmdsFor, hst]
    cases hmsg : msg.state with
    | activeOnly => exact absurd hmsg hsta
    | sleep =>
      rw [hmsg] at hg
      obtain ⟨htidy, hperm⟩ := (h ch .sleep (by decide)).write hg
      refine ⟨setTcs_sameCache (by simp [getTcsForMsg]) s ch g, h.setTcs fun _ => htidy, ?_, ?_⟩
      · rw [hcmds, if_pos hmsg]
        exact (setTcs_same s ch .sleep g).symm ▸ hperm
      · rw [hcmds, if_neg (by simp [hmsg]), append_nil]
        simp only [getTcsForMsg]
        rw [setTcs_of_ne (by decide)]
    | wakeOnly =>
      rw [hmsg] at hg
      obtain ⟨htidy, hperm⟩ := (h ch .wake (by decide)).write hg
      refine ⟨setTcs_sameCache (by simp [getTcsForMsg]) s ch g, h.setTcs fun _ => htidy, ?_, ?_⟩
      · rw [hcmds, if_neg (by simp [hmsg]), append_nil]
        simp only [getTcsForMsg]
        rw [setTcs_of_ne (by decide)]
      · rw [hcmds, if_pos hmsg]
        exact (setTcs_same s ch .wake g).symm ▸ hperm

theorem Adds.trans (h : s.Adds s' ch msgs) (h' : s'.Adds s'' ch msgs') : s.Adds s'' ch (msgs ++ msgs') := by
  refine ⟨h.same.trans h'.same, h'.tidy, ?_, ?_⟩
  · rw [cmdsFor_append, ← append_assoc]
    exact h'.sleep.trans (h.sleep.append_right _)
  · rw [cmdsFor_append, ← append_assoc]
    exact h'.wake.trans (h.wake.append_right _)

theorem write_fails (hs : s.rpmhRscWriteCtrlData msg ch = (s', false)) : s' = s := by
  unfold rpmhRscWriteCtrlData at hs
  dsimp only at hs
  split at hs
  · exact (Prod.mk.inj hs).1.symm
  · cases (Prod.mk.inj hs).2

theorem writeAll_adds (ch : ℕ) (h : s.Tidy) (hsta : ∀ msg ∈ msgs, msg.state ≠ .activeOnly) :
    (s.SameCache (s.writeAll ch msgs).1 ∧ (s.writeAll ch msgs).1.Tidy) ∧
      ((s.writeAll ch msgs).2 = true → s.Adds (s.writeAll ch msgs).1 ch msgs) := by
  induction msgs generalizing s with
  | nil =>
    refine ⟨⟨SameCache.refl s, h⟩, fun _ => ⟨SameCache.refl s, h, ?_, ?_⟩⟩
    · exact of_eq (append_nil _).symm
    · exact of_eq (append_nil _).symm
  | cons msg msgs ih =>
    obtain ⟨hmsg, hmsgs⟩ := forall_mem_cons.mp hsta
    rw [writeAll]
    split
    · next s' hs' =>
      obtain rfl := write_fails hs'
      exact ⟨⟨SameCache.refl _, h⟩, fun hfalse => by cases hfalse⟩
    · next s' hs' =>
      have hadds := write_adds h hmsg hs'
      obtain ⟨⟨hsame, htidy⟩, hrest⟩ := ih hadds.tidy hmsgs
      exact ⟨⟨hadds.same.trans hsame, htidy⟩, fun hok => hadds.trans (hrest hok)⟩

theorem invalidate_spec (h : s.Tidy) (ch : ℕ) :
    s.SameCache (s.rpmhRscInvalidate ch) ∧ (s.rpmhRscInvalidate ch).Tidy ∧
      ((s.rpmhRscInvalidate ch).tcs ch .sleep).enabled = [] ∧
      ((s.rpmhRscInvalidate ch).tcs ch .wake).enabled = [] := by
  obtain ⟨hsle, hsle'⟩ := (h ch .sleep (by decide)).invalidate
  obtain ⟨hwake, hwake'⟩ := (h ch .wake (by decide)).invalidate
  have hoth : (s.setTcs ch .sleep (s.tcs ch .sleep).tcsInvalidate).tcs ch .wake = s.tcs ch .wake :=
    setTcs_of_ne (by decide) ch
  unfold rpmhRscInvalidate
  dsimp only
  rw [hoth]
  refine ⟨?_, (h.setTcs fun _ => hsle).setTcs fun _ => hwake, ?_, ?_⟩
  · exact (setTcs_sameCache (by decide) s ch _).trans (setTcs_sameCache (by decide) _ ch _)
  · rw [setTcs_of_ne (by decide), setTcs_same]
    exact hsle'
  · rw [setTcs_same]
    exact hwake'

theorem cmdsFor_batch (s : RpmhCtrlr) :
    cmdsFor .sleep s.flushBatch = s.batchCache .sleep ∧ cmdsFor .wakeOnly s.flushBatch = s.batchCache .wakeOnly := by
  simp [cmdsFor, flushBatch]

theorem cmdsFor_singles (reqs : List CacheReq) :
    cmdsFor .sleep (reqs.flatMap sendSingle) = reqs.map (fun req => ⟨req.addr, req.sleepVal, false⟩) ∧
      cmdsFor .wakeOnly (reqs.flatMap sendSingle) = reqs.map fun req => ⟨req.addr, req.wakeVal, false⟩ := by
  induction reqs with
  | nil => exact ⟨rfl, rfl⟩
  | cons req reqs ih =>
    rw [flatMap_cons, cmdsFor_append, cmdsFor_append, ih.1, ih.2]
    exact ⟨rfl, rfl⟩

theorem flush_state (s : RpmhCtrlr) (reqs : List CacheReq) :
    ∀ msg ∈ s.flushBatch ++ reqs.flatMap sendSingle, msg.state ≠ .activeOnly := by
  intro msg hmsg
  rcases mem_append.mp hmsg with hmsg | hmsg
  · simp only [flushBatch, mem_cons, not_mem_nil, or_false] at hmsg
    rcases hmsg with rfl | rfl <;> simp
  · obtain ⟨req, -, hmsg⟩ := mem_flatMap.mp hmsg
    simp only [sendSingle, mem_cons, not_mem_nil, or_false] at hmsg
    rcases hmsg with rfl | rfl <;> simp

/-- Free slots are disabled, active requests are not on borrowed TCSes, and a clean cache is in the channel
written last. -/
structure Kept (s : RpmhCtrlr) : Prop where
  tidy : s.Tidy
  pending : ∀ ch m, s.pending ch m = true → (s.tcs ch .active).numTcs ≠ 0
  standalone : s.rpmhStandalone = true → s.dirty = false
  current : s.dirty = false → ∀ ch, (∀ last ∈ s.last, ch = last) → s.Reflects ch

theorem kept_start {rpmhStandalone solverPresent hwChannelPresent inSolverMode : Bool} {numTcs : ℕ → TcsType → ℕ} :
    (start rpmhStandalone solverPresent hwChannelPresent inSolverMode numChannels numTcs ncpt chnUpdate).Kept := by
  refine ⟨fun _ _ _ => tidy_empty _ _, fun _ _ h => by simp [start] at h, fun _ => rfl,
    fun _ _ _ => ⟨?_, ?_⟩⟩
  · exact of_eq (enabled_empty _ _)
  · exact of_eq (enabled_empty _ _)

/-- A flush that succeeds leaves the cache in the channel. -/
theorem Kept.flush (h : s.Kept) (ch : ℕ) (hch : s.dirty = false → ∀ last ∈ s.last, ch = last) :
    (s.rpmhFlush ch).1.Kept ∧ (s.rpmhFlush ch).1.hwChannelPresent = s.hwChannelPresent ∧
      ((s.rpmhFlush ch).2 = 0 → (s.rpmhFlush ch).1.Reflects ch) := by
  unfold rpmhFlush
  split_ifs with hsolo hdi
  · have hcln := h.standalone hsolo
    exact ⟨h, rfl, fun _ => h.current hcln ch (hch hcln)⟩
  · exact ⟨h, rfl, fun _ => h.current hdi ch (hch hdi)⟩
  · obtain ⟨hinv, htidy, hsle, hwake⟩ := invalidate_spec h.tidy ch
    have hwr := writeAll_adds ch htidy (flush_state s (s.nonBatchCache.filter fun req => isReqValid req))
    obtain ⟨hsingles, hsingles'⟩ := cmdsFor_singles (s.nonBatchCache.filter fun req => isReqValid req)
    obtain ⟨⟨hsame, htidy'⟩, hadds⟩ := hwr
    replace hsame := hinv.trans hsame
    generalize hall : (s.rpmhRscInvalidate ch).writeAll ch _ = all at hsame htidy' hadds ⊢
    obtain ⟨s', ok⟩ := all
    dsimp only at hsame htidy' hadds
    have hpend : ∀ ch m, s'.pending ch m = true → (s'.tcs ch .active).numTcs ≠ 0 := by
      intro ch m hp
      rw [hsame.active]
      rw [hsame.same] at hp
      exact h.pending ch m hp
    have hhw : s'.hwChannelPresent = s.hwChannelPresent := by
      rw [hsame.same]
    cases ok with
    | false =>
      have hdi' : s'.dirty = s.dirty := by
        rw [hsame.same]
      refine ⟨⟨htidy', hpend, fun hs => ?_, fun hcln => ?_⟩, hhw, fun hret => by cases hret⟩
      · rw [hsame.same] at hs
        exact absurd hs hsolo
      · exact absurd (hdi'.symm.trans hcln) hdi
    | true =>
      have hadds := hadds rfl
      have hrefl : Reflects { s' with dirty := false, last := some ch } ch := by
        constructor
        · have hperm := hadds.sleep
          rw [hsle, cmdsFor_append, (cmdsFor_batch s).1, hsingles] at hperm
          rw [hsame.same]
          exact hperm
        · have hperm := hadds.wake
          rw [hwake, cmdsFor_append, (cmdsFor_batch s).2, hsingles'] at hperm
          rw [hsame.same]
          exact hperm
      refine ⟨⟨htidy', hpend, fun _ => rfl, fun _ ch' hch' => ?_⟩, hhw, fun _ => hrefl⟩
      obtain rfl := hch' ch rfl
      exact hrefl

theorem Kept.caches (h : s.Kept) (hc : s.Caches s') (hsolo : s.rpmhStandalone = false) : s'.Kept := by
  have htcs : s'.tcs = s.tcs := by
    rw [hc.same]
  have hlast : s'.last = s.last := by
    rw [hc.same]
  refine ⟨fun ch type htype => htcs ▸ h.tidy ch type htype, fun ch m hp => ?_, fun hs => ?_,
    fun hcln ch hch => ?_⟩
  · rw [hc.same] at hp
    exact htcs ▸ h.pending ch m hp
  · rw [hc.same] at hs
    exact absurd hs (by simp [hsolo])
  · obtain ⟨hcln', hvo⟩ := hc.clean hcln
    have hold := h.current hcln' ch (hlast ▸ hch)
    have hba : s'.batchCache = s.batchCache := by
      rw [hc.same]
    constructor
    · rw [htcs, hba, sleepVotes, hvo]
      exact hold.sleep
    · rw [htcs, hba, wakeVotes, hvo]
      exact hold.wake

theorem Kept.active (h : s.Kept) {pending : ℕ → ℕ → Bool} (hg : g.numTcs = (s.tcs ch .active).numTcs)
    (hpend : ∀ ch' m, pending ch' m = true → s.pending ch' m = true ∨ ch' = ch)
    (hact : (s.tcs ch .active).numTcs ≠ 0) : Kept { s.setTcs ch .active g with pending := pending } := by
  have hnum : ∀ ch', ((s.setTcs ch .active g).tcs ch' .active).numTcs = (s.tcs ch' .active).numTcs := by
    intro ch'
    simp only [setTcs, and_true]
    split_ifs with heq
    · rw [hg, heq]
    · rfl
  refine ⟨fun ch' type htype => ?_, fun ch' m hp => ?_, h.standalone, fun hcln ch' hch' => ?_⟩
  · rw [setTcs_of_ne htype]
    exact h.tidy ch' type htype
  · rw [hnum]
    rcases hpend ch' m hp with hp | rfl
    · exact h.pending ch' m hp
    · exact hact
  · have hold := h.current hcln ch' hch'
    constructor
    · rw [setTcs_of_ne (by decide)]
      exact hold.sleep
    · rw [setTcs_of_ne (by decide)]
      exact hold.wake

theorem Kept.sendActive (h : s.Kept) (hsta : msg.state = .activeOnly) (hok : s.Dedicated .activeOnly)
    (hs : s.sendActive msg idle = some (s', ret)) : s'.Kept := by
  unfold RpmhCtrlr.sendActive at hs
  split at hs
  · cases hs
    exact h
  · next ch hch =>
    have hact := hok rfl ch hch
    unfold rpmhRscSendData at hs
    rw [hsta, getTcsForMsg, if_neg hact] at hs
    by_cases hslv : s.inSolverMode = true
    · rw [if_pos hslv] at hs
      cases hs
      exact h
    · rw [if_neg hslv] at hs
      dsimp only at hs
      split at hs
      · cases hs
      · next tcsId _ =>
        cases hs
        refine h.active ?_ (fun ch' m hp => ?_) hact
        · split_ifs <;> rfl
        · split_ifs at hp with heq
          · exact .inr heq.1
          · exact .inl hp

theorem dedicated_caches (hc : s.Caches s') (hok : s.Dedicated state) : s'.Dedicated state := by
  rw [hc.same]
  exact hok

theorem Kept.write (h : s.Kept) {waitForCompl : Bool} (hdata : ∀ c ∈ cmd, c.data ≠ UINT_MAX)
    (hok : s.Dedicated state) (hs : s.rpmhWrite state waitForCompl cmd idle = some (s', ret)) :
    s'.Kept := by
  have hcch := cacheRpmRequests_caches state hdata s
  revert hs
  fun_cases rpmhWrite s state waitForCompl cmd idle with
  | case1 | case2 | case3 =>
    rintro ⟨⟩
    exact h
  | case4 hsolo _ _ s₁ hca | case6 hsolo _ _ s₁ hca =>
    rintro ⟨⟩
    rw [hca] at hcch
    exact h.caches hcch (by simpa using hsolo)
  | case5 hsolo _ _ s₁ hca hact =>
    rw [hca] at hcch
    exact (h.caches hcch (by simpa using hsolo)).sendActive hact
      (dedicated_caches hcch (hact ▸ hok))

theorem Kept.dirty (h : s.Kept) (hsolo : s.rpmhStandalone = false)
    (batchCache : RpmhState → List TcsCmd) : Kept { s with batchCache := batchCache, dirty := true } :=
  ⟨h.tidy, h.pending, fun hs => absurd hs (by simp [hsolo]), fun hcln => by cases hcln⟩

theorem Kept.writeBatch (h : s.Kept) {n : List ℕ} (hok : s.Dedicated state)
    (hs : s.rpmhWriteBatch state cmd n idle = some (s', ret)) : s'.Kept := by
  revert hs
  fun_cases rpmhWriteBatch s state cmd n idle with
  | case1 | case2 | case3 =>
    rintro ⟨⟩
    exact h
  | case4 _ _ _ hact => exact h.sendActive hact (hact ▸ hok)
  | case5 _ hsolo =>
    rintro ⟨⟩
    exact h.dirty (by simpa using hsolo) _

theorem Kept.sleepAndWake (h : s.Kept)
    (hok : s.dirty = false → ∀ last ∈ s.last, ∀ ch ∈ s.rpmhRscGetChannel, ch = last) :
    s.rpmhWriteSleepAndWake.1.Kept ∧ s.Flushes .writeSleepAndWake := by
  unfold Flushes rpmhWriteSleepAndWake
  cases hget : s.rpmhRscGetChannel with
  | none => exact ⟨h, fun hret => by simp [EBUSY] at hret⟩
  | some ch =>
    obtain ⟨hkept, hhw, hrefl⟩ := h.flush ch fun hcln last hlast => hok hcln last hlast ch hget
    dsimp only
    split_ifs with hdone
    · refine ⟨hkept, fun hret => ⟨ch, rfl, hrefl hret, fun hpres => ?_⟩⟩
      rcases hdone with hne | hnone
      · exact absurd hret hne
      · rw [← hhw, hnone] at hpres
        cases hpres
    · have hret : (s.rpmhFlush ch).2 = 0 := by
        by_contra hne
        exact hdone (.inl hne)
      have hsw := hrefl hret
      exact ⟨⟨hkept.tidy, hkept.pending, hkept.standalone, fun hcln ch' hch' =>
        ⟨(hkept.current hcln ch' hch').sleep, (hkept.current hcln ch' hch').wake⟩⟩,
        fun _ => ⟨ch, rfl, ⟨hsw.sleep, hsw.wake⟩, fun _ => rfl⟩⟩

/-- A clean cache is in the channel written last. -/
theorem kept_step {op : RpmhOp} (h : s.Kept) (hok : s.Current op) (hs : s.step op = some s') : s'.Kept := by
  cases op with
  | write state waitForCompl cmd idle =>
    obtain ⟨⟨s₁, ret⟩, hwr, rfl⟩ := map_eq_some_iff.mp hs
    exact h.write hok.1 hok.2 hwr
  | writeBatch state cmd n idle =>
    obtain ⟨⟨s₁, ret⟩, hwr, rfl⟩ := map_eq_some_iff.mp hs
    exact h.writeBatch hok hwr
  | invalidate =>
    cases hs
    unfold rpmhInvalidate
    split_ifs with hsolo
    · exact h
    · exact h.dirty (by simpa using hsolo) _
  | writeSleepAndWake =>
    cases hs
    exact (h.sleepAndWake hok).1
  | txDone ch tcsId =>
    simp only [step, tcsTxDone, ite_none_right_eq_some, some.injEq] at hs
    obtain ⟨hpend, rfl⟩ := hs
    have hact := h.pending ch tcsId hpend
    rw [getTcsForMsg, if_neg hact]
    refine h.active (by rfl) (fun ch' m hp => ?_) hact
    split_ifs at hp with heq
    exact .inl hp

end RpmhCtrlr

instance (s : RpmhCtrlr) (op : RpmhOp) : Decidable (s.Current op) := by
  cases op <;> unfold RpmhCtrlr.Current <;> infer_instance

/-- Along every run in which a flush that finds the cache clean selects the channel written last and no
request borrows a wake TCS, each successful `rpmh_write_sleep_and_wake` leaves the cached votes, and nothing
else, enabled in the channel that it selects. -/
theorem rpmh_flush_reflects (rpmhStandalone solverPresent hwChannelPresent inSolverMode : Bool)
    (numChannels : ℕ) (numTcs : ℕ → TcsType → ℕ) (ncpt chnUpdate : ℕ) (ops : List RpmhOp)
    (hok : Meets step RpmhCtrlr.Current (start rpmhStandalone solverPresent
      hwChannelPresent inSolverMode numChannels numTcs ncpt chnUpdate) ops) :
    Meets step RpmhCtrlr.Flushes (start rpmhStandalone solverPresent
      hwChannelPresent inSolverMode numChannels numTcs ncpt chnUpdate) ops := by
  refine hok.mono_inv (fun s op h hcur => ?_)
    (fun _ _ _ h hcur hs => kept_step h hcur hs) kept_start
  cases op with
  | writeSleepAndWake => exact (h.sleepAndWake hcur).2
  | write state waitForCompl cmd idle => trivial
  | writeBatch state cmd n idle => trivial
  | invalidate => trivial
  | txDone ch tcsId => trivial

def votesFlushed : List RpmhOp :=
  [.writeBatch .sleep [⟨0x50000, 1, false⟩, ⟨0x50004, 2, true⟩] [2, 0] fun _ => true,
    .write .sleep true [⟨0x30000, 0, false⟩] fun _ => true,
    .write .activeOnly true [⟨0x30000, 7, false⟩] fun _ => true, .txDone 0 0, .writeSleepAndWake,
    .writeSleepAndWake]

/-- A batch and two votes for an address, and a flush on a controller with one channel. -/
theorem rpmh_flush_reflects_votes :
    Meets step RpmhCtrlr.Current (.start false false false false 1 (fun _ _ => 2) 4 0)
        votesFlushed ∧
      (run step (.start false false false false 1 (fun _ _ => 2) 4 0) votesFlushed).map
        (fun s => (s.tcs 0 .sleep).enabled.length) = some 3 ∧
      Meets step RpmhCtrlr.Flushes (.start false false false false 1 (fun _ _ => 2) 4 0)
        votesFlushed := by
  have hok : Meets step RpmhCtrlr.Current (.start false false false false 1 (fun _ _ => 2) 4 0)
      votesFlushed := by decide
  exact ⟨hok, by decide, rpmh_flush_reflects false false false false 1 (fun _ _ => 2) 4 0 votesFlushed hok⟩

def flushedTwice : List RpmhOp :=
  [.writeBatch .sleep [⟨0x50000, 1, false⟩] [1, 0] fun _ => true, .writeSleepAndWake, .writeSleepAndWake]

/-- A batch is flushed twice on a controller with two hardware channels. -/
theorem rpmh_flush_stale :
    (run step (.start false true true true 2 (fun _ _ => 2) 4 1) flushedTwice).map
        (fun s => (s.chnUpdate, (s.tcs 0 .sleep).enabled, s.batchCache .sleep)) =
      some (1, [], [⟨0x50000, 1, false⟩]) ∧
    ¬Meets step RpmhCtrlr.Flushes (.start false true true true 2 (fun _ _ => 2) 4 1)
      flushedTwice := by
  refine ⟨by decide, fun h => ?_⟩
  obtain ⟨ch, hch, hrefl, -⟩ := h.2.2.1 (by decide)
  obtain rfl : 0 = ch := by
    have hselected : some 0 = some ch := hch
    simpa using hselected
  have hlth := hrefl.sleep.length_eq
  revert hlth
  decide

end VendorKernel.Rpmh

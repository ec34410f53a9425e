import VendorKernel.Glink.ChannelTables

/-! Local opens of GLINK channels: the remote's OPEN is looked up in `rcids`, where a channel that
is being opened locally is not. -/
namespace VendorKernel.Glink

open Machine List CallerPlace Option Function Edge Nat

def CallerPlace.chan : CallerPlace → Option (ℕ × Bool)
  | .idle => none
  | .closeAck r => some (r, false)
  | .sendOpen r own | .assign r _ own | .tx r own | .openAck r own => some (r, own)
  | .openReq r | .returned r | .release r | .releaseAlloc r => some (r, true)

def CallerPlace.WaitsFor (r : ℕ) (p : CallerPlace) : Prop := p = .openAck r true ∨ p = .openReq r

namespace Edge

variable {s s' : Edge} {r t id lcid rcid : ℕ} {name : List UInt8} {p : CallerPlace}
  {own dropped registered isLocal : Bool} {op : EdgeOp}

def Unique (s : Edge) : Prop :=
  ∀ r r', s.Entered r → s.Entered r' → (s.objs r).name = (s.objs r').name → r = r'

/-- A local open answered with OPEN_ACK and OPEN is bound to an id of the remote, and both waits are over. -/
def LocalOpens (s : Edge) : Prop :=
  ∀ t r, (s.callers t).WaitsFor r → (s.objs r).openAck = true → (s.objs r).asked = true →
    (∃ rcid, (rcid, r) ∈ s.rcids) ∧ (s.objs r).openReq = true

/-- No local open is bound to an id of the remote, completed by its OPEN or returned. -/
def NeverBinds (s : Edge) : Prop :=
  ∀ t r, s.callers t ≠ .returned r ∧
    ((s.callers t).WaitsFor r → (s.objs r).openReq = false ∧ ∀ e ∈ s.rcids, e.2 ≠ r)

/-- A local open enters a name that is in neither table, other endpoints a channel that is in `rcids`. -/
def EntersApart (s : Edge) : CallerPlace → Prop
  | .sendOpen r true => ∀ e ∈ s.rcids ++ s.lcids, (s.objs e.2).name ≠ (s.objs r).name
  | .sendOpen r false => ∃ e ∈ s.rcids, e.2 = r
  | _ => True

/-- OPEN names a channel in `lcids` only if it is in `rcids` too, and calls keep names apart. -/
def Separate (s : Edge) : EdgeOp → Prop
  | .rxOpen _ name => ∀ e ∈ s.lcids, (s.objs e.2).name = name → ∃ e' ∈ s.rcids, e'.2 = e.2
  | .caller t _ => s.EntersApart (s.callers t)
  | _ => True

/-- Channels are allocated before they are used, those in `rcids` for an OPEN, and no OPEN has completed the others.
-/
structure Formed (s : Edge) : Prop where
  entry_lt : ∀ e ∈ s.rcids ++ s.lcids, e.2 < s.fresh
  rcid_remote : ∀ e ∈ s.rcids, (s.objs e.2).isLocal = false
  caller : ∀ t r own, (s.callers t).chan = some (r, own) → r < s.fresh ∧ (s.objs r).isLocal = own
  openReq : ∀ r < s.fresh, (s.objs r).isLocal = true → (s.objs r).openReq = false
  not_returned : ∀ t r, s.callers t ≠ .returned r

/-- A call goes on with its channel or ends, and a local open returns when the channel has its `open_req`. -/
structure Goes (s : Edge) (p p' : CallerPlace) : Prop where
  chan : ∀ c, p'.chan = some c → p.chan = some c
  sendOpen : ∀ r, p' = .sendOpen r true → p = .sendOpen r true
  returned : ∀ r, p' = .returned r → p = .returned r ∨ p = .openReq r ∧ (s.objs r).openReq = true

theorem Goes.refl (p : CallerPlace) : s.Goes p p :=
  ⟨fun _ hc => hc, fun _ hr => hr, fun _ hr => .inl hr⟩

structure Stays (s s' : Edge) : Prop where
  fresh : s'.fresh = s.fresh
  rcids : ∀ e ∈ s'.rcids, e ∈ s.rcids
  lcids : ∀ e ∈ s'.lcids, e ∈ s.lcids
  name : ∀ r, (s'.objs r).name = (s.objs r).name
  isLocal : ∀ r, (s'.objs r).isLocal = (s.objs r).isLocal
  openReq : ∀ r, (s'.objs r).openReq = (s.objs r).openReq
  asked : ∀ r, (s'.objs r).asked = (s.objs r).asked
  goes : ∀ t, s.Goes (s.callers t) (s'.callers t)

theorem Stays.formed (hs : s.Stays s') (h : s.Formed) : s'.Formed where
  entry_lt e he := by
    rw [hs.fresh]
    exact h.entry_lt e (mem_append.mpr ((mem_append.mp he).imp (hs.rcids e) (hs.lcids e)))
  rcid_remote e he := by
    rw [hs.isLocal]
    exact h.rcid_remote e (hs.rcids e he)
  caller t r own hc := by
    rw [hs.fresh, hs.isLocal]
    exact h.caller t r own ((hs.goes t).chan _ hc)
  openReq r hr hl := by
    rw [hs.openReq]
    exact h.openReq r (hs.fresh ▸ hr) (hs.isLocal r ▸ hl)
  not_returned t r hr := by
    rcases (hs.goes t).returned r hr with hr | ⟨hp, hreq⟩
    · exact h.not_returned t r hr
    · obtain ⟨hlt, hloc⟩ := h.caller t r true (by rw [hp, chan])
      rw [h.openReq r hlt hloc] at hreq
      cases hreq

theorem Stays.unique (hs : s.Stays s') (h : s.Unique) : s'.Unique := by
  have hent : ∀ r, s'.Entered r → s.Entered r := fun r ⟨e, he, hr⟩ =>
    ⟨e, mem_append.mpr ((mem_append.mp he).imp (hs.rcids e) (hs.lcids e)), hr⟩
  intro r r' hr hr' hname
  rw [hs.name, hs.name] at hname
  exact h r r' (hent r hr) (hent r' hr') hname

theorem idrFind_mem {ids : List (ℕ × ℕ)} (h : idrFind ids id = some r) : (id, r) ∈ ids := by
  obtain ⟨e, he, rfl⟩ := map_eq_some_iff.mp h
  have hid : e.1 = id := by simpa using find?_some he
  exact hid ▸ mem_of_find?_eq_some he

theorem findName_some (h : s.findName name = some r) : (∃ e ∈ s.rcids, e.2 = r) ∧ (s.objs r).name = name := by
  obtain ⟨e, he, rfl⟩ := map_eq_some_iff.mp h
  exact ⟨⟨e, mem_of_find?_eq_some he, rfl⟩, by simpa using find?_some he⟩

theorem findName_none (h : s.findName name = none) : ∀ e ∈ s.rcids, (s.objs e.2).name ≠ name := by
  simpa [findName] using h

/-- A channel changes in its ids, its count and the completions other than `open_req`. -/
def SameChannel (obj obj' : ChannelObj) : Prop :=
  obj'.name = obj.name ∧ obj'.isLocal = obj.isLocal ∧ obj'.openReq = obj.openReq ∧ obj'.asked = obj.asked

theorem sameChannel_update {obj : ChannelObj} (h : SameChannel (s.objs r) obj) (r' : ℕ) :
    SameChannel (s.objs r') (update s.objs r obj r') := by
  by_cases hr : r' = r
  · rw [hr, update_self]
    exact h
  · rw [update_of_ne hr]
    exact ⟨rfl, rfl, rfl, rfl⟩

theorem stays_of {objs : ℕ → ChannelObj} {rcids lcids : List (ℕ × ℕ)} {work : WorkPlace} {irq : Option ℕ}
    {callers : ℕ → CallerPlace} (hobjs : ∀ r, SameChannel (s.objs r) (objs r)) (hrc : ∀ e ∈ rcids, e ∈ s.rcids)
    (hlc : ∀ e ∈ lcids, e ∈ s.lcids) (hcall : ∀ t, s.Goes (s.callers t) (callers t)) :
    s.Stays ⟨objs, rcids, lcids, work, irq, callers, s.fresh, dropped⟩ :=
  ⟨rfl, hrc, hlc, fun r => (hobjs r).1, fun r => (hobjs r).2.1, fun r => (hobjs r).2.2.1,
    fun r => (hobjs r).2.2.2, hcall⟩

theorem mem_of_idrRemove {ids : List (ℕ × ℕ)} : ∀ e ∈ idrRemove ids id, e ∈ ids :=
  fun _ he => mem_of_mem_filter he

theorem Stays.refl (s : Edge) : s.Stays s :=
  stays_of (fun _ => ⟨rfl, rfl, rfl, rfl⟩) (fun _ he => he) (fun _ he => he) fun _ => Goes.refl _

theorem stays_channel {obj : ChannelObj} {rcids lcids : List (ℕ × ℕ)} {work : WorkPlace} {irq : Option ℕ}
    (hobj : SameChannel (s.objs r) obj) (hrc : ∀ e ∈ rcids, e ∈ s.rcids) (hlc : ∀ e ∈ lcids, e ∈ s.lcids) :
    s.Stays ⟨update s.objs r obj, rcids, lcids, work, irq, s.callers, s.fresh, dropped⟩ :=
  stays_of (sameChannel_update hobj) hrc hlc fun _ => Goes.refl _

theorem krefPut_stays (s : Edge) (r : ℕ) : s.Stays (s.krefPut r) :=
  stays_channel ⟨rfl, rfl, rfl, rfl⟩ (fun _ he => he) fun _ he => he

theorem krefGet_stays (s : Edge) (r : ℕ) : s.Stays (s.krefGet r) :=
  stays_channel ⟨rfl, rfl, rfl, rfl⟩ (fun _ he => he) fun _ he => he

theorem removeLcid_stays (s : Edge) (r : ℕ) : s.Stays (s.removeLcid r) :=
  stays_channel ⟨rfl, rfl, rfl, rfl⟩ (fun _ he => he) mem_of_idrRemove

theorem work_stays (h : s.qcomGlinkWork registered = some s') : s.Stays s' := by
  have hrmv : ∀ r, s.Stays { s.removeRcid r with work := .putting r } := fun r =>
    stays_channel ⟨rfl, rfl, rfl, rfl⟩ mem_of_idrRemove fun _ he => he
  revert h
  fun_cases qcomGlinkWork s registered <;> rintro ⟨⟩
  · exact { Stays.refl s with }
  · exact hrmv _
  · exact hrmv _
  · exact { krefPut_stays s _ with }

theorem rxClose_stays (s : Edge) (rcid : ℕ) : s.Stays (s.qcomGlinkRxClose rcid) := by
  unfold qcomGlinkRxClose
  split
  · exact .refl s
  · exact stays_channel ⟨rfl, rfl, rfl, rfl⟩ (fun _ he => he) fun _ he => he

theorem rxCloseAck_stays (s : Edge) (lcid : ℕ) : s.Stays (s.qcomGlinkRxCloseAck lcid) := by
  unfold qcomGlinkRxCloseAck
  split
  · exact .refl s
  · next r _ =>
    simp only [removeLcid, setObj, update_self, update_idem]
    refine stays_channel ?_ (fun _ he => he) mem_of_idrRemove
    exact ⟨rfl, rfl, rfl, rfl⟩

theorem openAck_stays (h : s.step (.rxOpenAck lcid) = some s') : s.Stays s' := by
  simp only [step] at h
  split_ifs at h
  split at h
  · cases h
    exact .refl s
  · cases h
    exact { krefGet_stays s _ with }

theorem irq_stays (h : s.step .irq = some s') : s.Stays s' := by
  simp only [step] at h
  split at h
  · cases h
  · next r _ =>
    cases h
    simp only [krefPut, setObj, update_self, update_idem]
    refine stays_channel ?_ (fun _ he => he) fun _ he => he
    exact ⟨rfl, rfl, rfl, rfl⟩

theorem goes_update (hp : s.Goes (s.callers t) p) (t' : ℕ) : s.Goes (s.callers t') (update s.callers t p t') := by
  by_cases ht : t' = t
  · rw [ht, update_self]
    exact hp
  · rw [update_of_ne ht]
    exact Goes.refl _

theorem goes_giveUp (hp : (s.callers t).chan = some (r, own)) : s.Goes (s.callers t) (giveUp own r) := by
  cases own with
  | true =>
    refine ⟨fun c hc => hp.trans ?_, fun _ hr => by simp [giveUp] at hr,
      fun _ hr => by simp [giveUp] at hr⟩
    simpa [giveUp, chan] using hc
  | false => constructor <;> simp [giveUp, chan]

theorem Stays.setCaller (h : s.Stays s') (hcall : s'.callers = s.callers) (hp : s.Goes (s.callers t) p) :
    s.Stays (s'.setCaller t p) :=
  { h with goes := fun t' => by simpa only [Edge.setCaller, hcall] using goes_update hp t' }

/-- The ids under which a local channel is in `lcids` as its open goes on. -/
def Placed (s : Edge) : CallerPlace → Prop
  | .sendOpen r true | .release r | .releaseAlloc r => ∀ e ∈ s.lcids, e.2 ≠ r
  | .assign r id true => ∀ e ∈ s.lcids, e.2 = r → e.1 = id
  | .tx r true | .openAck r true | .openReq r => ∀ e ∈ s.lcids, e.2 = r → e.1 = (s.objs r).lcid
  | _ => True

inductive CallerMoves (s : Edge) (t : ℕ) : Edge → Prop
  | goes {p : CallerPlace} (hp : s.Goes (s.callers t) p)
      (hplaced : s.Placed (s.callers t) → s.Placed p) : CallerMoves s t (s.setCaller t p)
  | noId {r : ℕ} {own : Bool} (hp : s.callers t = .sendOpen r own) :
      CallerMoves s t ((s.krefGet r).setCaller t (giveUp own r))
  | insert {r id : ℕ} {own : Bool} (hp : s.callers t = .sendOpen r own) : CallerMoves s t
      { (s.krefGet r).setCaller t (.assign r id own) with lcids := s.lcids ++ [(id, r)] }
  | assign {r id : ℕ} {own : Bool} (hp : s.callers t = .assign r id own) :
      CallerMoves s t ((s.setObj r { s.objs r with lcid := id }).setCaller t (.tx r own))
  | notSent {r : ℕ} {own : Bool} (hp : s.callers t = .tx r own) :
      CallerMoves s t ((s.removeLcid r).setCaller t (giveUp own r))
  | timedOut {r : ℕ} (hp : s.callers t = .openAck r true ∨ s.callers t = .openReq r) : CallerMoves s t
      { s.setCaller t (.release r) with lcids := idrRemove s.lcids (s.objs r).lcid }
  | put {r : ℕ} {p : CallerPlace} (hp : s.callers t = .release r ∧ p = .releaseAlloc r ∨
      s.callers t = .releaseAlloc r ∧ p = .idle) : CallerMoves s t ((s.krefPut r).setCaller t p)

/-- What a thread that creates an endpoint can do. -/
theorem callerStep_moves {env : CallerEnv} (h : s.callerStep t env = some s') : CallerMoves s t s' := by
  have hgoes {p p'} (hp : s.callers t = p) (hgoes : s.Goes p p') (hpl : s.Placed p → s.Placed p') :
      CallerMoves s t (s.setCaller t p') := .goes (hp ▸ hgoes) (hp ▸ hpl)
  revert h
  fun_cases callerStep s t env <;> rintro ⟨⟩
  case case3 hp _ | case4 hp _ _ | case14 hp _ _ _ =>
    exact hgoes hp (by constructor <;> simp [chan]) fun _ => trivial
  case case6 hp _ => exact .noId hp
  case case7 hp _ _ _ => exact .insert hp
  case case9 hp => exact .assign hp
  case case10 own hp _ =>
    exact hgoes hp (by constructor <;> simp [chan]) fun hpl => by cases own <;> exact hpl
  case case11 hp _ => exact .notSent hp
  case case12 own hp _ =>
    cases own with
    | true => exact hgoes hp (by constructor <;> simp [chan]) id
    | false => exact hgoes hp (by constructor <;> simp [chan]) fun _ => trivial
  case case13 hp => exact .timedOut (.inl hp)
  case case16 hp hreq => exact hgoes hp (by constructor <;> simp [hreq, chan]) fun _ => trivial
  case case17 hp _ _ => exact .timedOut (.inr hp)
  case case19 hp => exact .put (.inl ⟨hp, rfl⟩)
  case case20 hp => exact .put (.inr ⟨hp, rfl⟩)

theorem CallerMoves.stays (h : CallerMoves s t s') :
    s.Stays s' ∨ ∃ r id own, s.callers t = .sendOpen r own ∧
      s' = { (s.krefGet r).setCaller t (.assign r id own) with lcids := s.lcids ++ [(id, r)] } := by
  cases h with
  | goes hp => exact .inl ((Stays.refl s).setCaller rfl hp)
  | noId hp => exact .inl ((krefGet_stays s _).setCaller rfl (goes_giveUp (by rw [hp, chan])))
  | insert hp => exact .inr ⟨_, _, _, hp, rfl⟩
  | @assign r id own hp =>
    have hset : s.Stays (s.setObj r { s.objs r with lcid := id }) :=
      stays_channel ⟨rfl, rfl, rfl, rfl⟩ (fun _ he => he) fun _ he => he
    exact .inl (hset.setCaller rfl (by constructor <;> simp [hp, chan]))
  | notSent hp => exact .inl ((removeLcid_stays s _).setCaller rfl (goes_giveUp (by rw [hp, chan])))
  | timedOut hp =>
    refine .inl (stays_of (fun _ => ⟨rfl, rfl, rfl, rfl⟩) (fun _ he => he) mem_of_idrRemove (goes_update ?_))
    rcases hp with hp | hp <;> constructor <;> simp [hp, chan]
  | put hp =>
    refine .inl ((krefPut_stays s _).setCaller rfl ?_)
    rcases hp with ⟨hp, rfl⟩ | ⟨hp, rfl⟩ <;> constructor <;> simp [hp, chan]

theorem formed_start : start.Formed := by
  constructor <;> simp [start, chan]

theorem alloc_objs (hr : r < s.fresh) : (s.qcomGlinkAllocChannel name isLocal).objs r = s.objs r :=
  update_of_ne (Nat.ne_of_lt hr) ..

theorem alloc_fresh (s : Edge) (name : List UInt8) (isLocal : Bool) :
    (s.qcomGlinkAllocChannel name isLocal).objs s.fresh = ⟨name, 0, 0, 1, false, false, true, isLocal, false⟩ :=
  update_self ..

theorem Formed.alloc (h : s.Formed) (name : List UInt8) (isLocal : Bool) :
    (s.qcomGlinkAllocChannel name isLocal).Formed := by
  refine ⟨fun e he => lt_succ_of_lt (h.entry_lt e he), fun e he => ?_, fun t r own hc => ?_,
    fun r hr hl => ?_, h.not_returned⟩
  · rw [alloc_objs (h.entry_lt e (mem_append_left _ he))]
    exact h.rcid_remote e he
  · obtain ⟨hr, hl⟩ := h.caller t r own hc
    rw [alloc_objs hr]
    exact ⟨Nat.lt_succ_of_lt hr, hl⟩
  · rcases Nat.lt_succ_iff_lt_or_eq.mp hr with hlt | rfl
    · rw [alloc_objs hlt] at hl ⊢
      exact h.openReq r hlt hl
    · rw [alloc_fresh]

theorem markAsked_objs (s : Edge) (name : List UInt8) (r : ℕ) :
    ((s.markAsked name).objs r).name = (s.objs r).name ∧
      ((s.markAsked name).objs r).isLocal = (s.objs r).isLocal ∧
      ((s.markAsked name).objs r).openReq = (s.objs r).openReq := by
  simp only [markAsked]
  split_ifs <;> exact ⟨rfl, rfl, rfl⟩

theorem Formed.markAsked (h : s.Formed) (name : List UInt8) : (s.markAsked name).Formed := by
  have hobjs := markAsked_objs s name
  refine ⟨h.entry_lt, fun e he => ?_, fun t r own hc => ?_, fun r hr hl => ?_, h.not_returned⟩
  · rw [(hobjs e.2).2.1]
    exact h.rcid_remote e he
  · rw [(hobjs r).2.1]
    exact h.caller t r own hc
  · rw [(hobjs r).2.2]
    exact h.openReq r hr ((hobjs r).2.1 ▸ hl)

theorem enterRcid_objs (s : Edge) (rcid r r' : ℕ) :
    ((s.enterRcid rcid r).objs r').name = (s.objs r').name ∧
      ((s.enterRcid rcid r).objs r').isLocal = (s.objs r').isLocal ∧
      ((s.enterRcid rcid r).objs r').asked = (s.objs r').asked := by
  simp only [enterRcid, setObj, update_apply]
  split_ifs with he
  · exact he ▸ ⟨rfl, rfl, rfl⟩
  · exact ⟨rfl, rfl, rfl⟩

theorem enterRcid_mem {e : ℕ × ℕ} : e ∈ (s.enterRcid rcid r).rcids ↔ e ∈ s.rcids ∨ e = (rcid, r) := by
  simp [enterRcid]

section
variable (h : s.Formed)
include h

theorem Formed.enterRcid (rcid : ℕ) (hr : r < s.fresh) (hrem : (s.objs r).isLocal = false) :
    (s.enterRcid rcid r).Formed := by
  have hobjs := enterRcid_objs s rcid r
  refine ⟨fun e he => ?_, fun e he => ?_, fun t r own hc => ?_, fun r' hr' hl => ?_, h.not_returned⟩
  · rcases mem_append.mp he with he | he
    · rcases enterRcid_mem.mp he with he | rfl
      · exact h.entry_lt e (mem_append_left _ he)
      · exact hr
    · exact h.entry_lt e (mem_append_right _ he)
  · rw [(hobjs e.2).2.1]
    rcases enterRcid_mem.mp he with he | rfl
    · exact h.rcid_remote e he
    · exact hrem
  · rw [(hobjs r).2.1]
    exact h.caller t r own hc
  · rw [(hobjs r').2.1] at hl
    have hne : r' ≠ r := by
      rintro rfl
      rw [hrem] at hl
      cases hl
    simp only [Edge.enterRcid, setObj, update_of_ne hne]
    exact h.openReq r' hr' hl

theorem Formed.setCaller (hp : p.chan = some (r, own)) (hreturned : p ≠ .returned r) (hr : r < s.fresh)
    (hloc : (s.objs r).isLocal = own) : (s.setCaller t p).Formed := by
  refine ⟨h.entry_lt, h.rcid_remote, fun t' r' own' hc => ?_, h.openReq, fun t' r' hc => ?_⟩
  · by_cases ht : t' = t
    · simp only [Edge.setCaller, ht, update_self, hp] at hc
      cases hc
      exact ⟨hr, hloc⟩
    · simp only [Edge.setCaller, update_of_ne ht] at hc
      exact h.caller t' r' own' hc
  · by_cases ht : t' = t
    · simp only [Edge.setCaller, ht, update_self] at hc
      rw [hc] at hp hreturned
      cases hp
      exact hreturned rfl
    · simp only [Edge.setCaller, update_of_ne ht] at hc
      exact h.not_returned t' r' hc

theorem Formed.remote_of_rcids (hr : ∃ e ∈ s.rcids, e.2 = r) : r < s.fresh ∧ (s.objs r).isLocal = false := by
  obtain ⟨e, he, rfl⟩ := hr
  exact ⟨h.entry_lt e (mem_append_left _ he), h.rcid_remote e he⟩

theorem Formed.work (work : WorkPlace) : Formed { s with work := work } :=
  { h with }

theorem Formed.rxOpen (rcid : ℕ) (name : List UInt8) : (s.qcomGlinkRxOpen rcid name).Formed := by
  unfold qcomGlinkRxOpen
  split
  · next r hfind =>
    obtain ⟨hlt, hrem⟩ := h.remote_of_rcids (findName_some hfind).1
    split_ifs
    · exact h.enterRcid rcid hlt hrem
    · exact h
  · have hac := h.alloc name false
    split_ifs
    · exact (hac.enterRcid rcid (lt_succ_self s.fresh) (by rw [alloc_fresh])).work _
    · exact (krefPut_stays _ _).formed hac

theorem Formed.createEpt (name : List UInt8) : (s.qcomGlinkCreateEpt t name).Formed := by
  unfold qcomGlinkCreateEpt
  split
  · next r hfind =>
    obtain ⟨hlt, hrem⟩ := h.remote_of_rcids (findName_some hfind).1
    exact h.setCaller (by rw [chan]) (by simp) hlt hrem
  · exact (h.alloc name true).setCaller (by rw [chan]) (by simp) (lt_succ_self s.fresh)
      (by rw [alloc_fresh])

theorem Formed.insert (id : ℕ) (hp : s.callers t = .sendOpen r own) :
    Formed { (s.krefGet r).setCaller t (.assign r id own) with lcids := s.lcids ++ [(id, r)] } := by
  obtain ⟨hlt, hloc⟩ := h.caller t r own (by rw [hp, chan])
  have hget := krefGet_stays s r
  have hset : ((s.krefGet r).setCaller t (.assign r id own)).Formed :=
    (hget.formed h).setCaller (by rw [chan]) (by simp) hlt ((hget.isLocal r).trans hloc)
  refine ⟨fun e he => ?_, hset.rcid_remote, hset.caller, hset.openReq, hset.not_returned⟩
  simp only [mem_append, mem_singleton] at he
  rcases he with he | he | rfl
  · exact h.entry_lt e (mem_append_left _ he)
  · exact h.entry_lt e (mem_append_right _ he)
  · exact hlt

end

/-- What a step does to the tables: it enters nothing, it handles an OPEN, it starts a call, or a
call enters its channel in `lcids`. -/
theorem step_cases (h : s.step op = some s') :
    s.Stays s' ∨
    (∃ rcid name, op = .rxOpen rcid name ∧ s' = (s.markAsked name).qcomGlinkRxOpen rcid name) ∨
    (∃ t name, op = .createEpt t name ∧ s' = s.qcomGlinkCreateEpt t name) ∨
    ∃ t env r id own, op = .caller t env ∧ s.callers t = .sendOpen r own ∧
      s' = { (s.krefGet r).setCaller t (.assign r id own) with lcids := s.lcids ++ [(id, r)] } := by
  cases op with
  | rxOpen rcid name =>
    simp only [step, ite_none_right_eq_some, some.injEq] at h
    exact .inr (.inl ⟨rcid, name, rfl, h.2.symm⟩)
  | rxClose rcid =>
    simp only [step, ite_none_right_eq_some, some.injEq] at h
    exact .inl (h.2 ▸ rxClose_stays s rcid)
  | rxCloseAck lcid =>
    simp only [step, ite_none_right_eq_some, some.injEq] at h
    exact .inl (h.2 ▸ rxCloseAck_stays s lcid)
  | work registered => exact .inl (work_stays h)
  | rxOpenAck lcid => exact .inl (openAck_stays h)
  | irq => exact .inl (irq_stays h)
  | createEpt t name =>
    simp only [step, ite_none_right_eq_some, some.injEq] at h
    exact .inr (.inr (.inl ⟨t, name, rfl, h.2.symm⟩))
  | caller t env =>
    rcases (callerStep_moves h).stays with hs | ⟨r, id, own, hp, rfl⟩
    · exact .inl hs
    · exact .inr (.inr (.inr ⟨t, env, r, id, own, rfl, hp, rfl⟩))

theorem formed_step (h : s.Formed) (hs : s.step op = some s') : s'.Formed := by
  obtain hs | ⟨rcid, name, -, rfl⟩ | ⟨t, name, -, rfl⟩ | ⟨t, env, r, id, own, -, hp, rfl⟩ :=
    step_cases hs
  · exact hs.formed h
  · exact (h.markAsked name).rxOpen rcid name
  · exact h.createEpt name
  · exact h.insert id hp

/-- The remote's OPEN never reaches a channel that is being opened locally, so no call of
`qcom_glink_create_local` returns a channel. -/
theorem create_local_never_returns {ops : List EdgeOp} (hrun : run step start ops = some s) :
    ∀ t r, s.callers t ≠ .returned r :=
  (run_inv_always (fun _ _ _ h hs => formed_step h hs) formed_start hrun).not_returned

/-- The tables gain entries of one channel, which was entered before or has a name of its own. -/
theorem Unique.enter (h : s.Unique) (hname : ∀ r, s.Entered r → (s'.objs r).name = (s.objs r).name)
    (hent : ∀ r', s'.Entered r' → s.Entered r' ∨ r' = r)
    (hnew : s.Entered r ∨ ∀ r', s.Entered r' → (s.objs r').name ≠ (s'.objs r).name) : s'.Unique := by
  have hold : ∀ r', s.Entered r' → ((s'.objs r').name = (s'.objs r).name) → r' = r := by
    intro r' hr' heq
    rcases hnew with hr | hne
    · rw [hname r' hr', hname r hr] at heq
      exact h r' r hr' hr heq
    · rw [hname r' hr'] at heq
      exact absurd heq (hne r' hr')
  intro r₁ r₂ h₁ h₂ heq
  rcases hent r₁ h₁ with h₁ | rfl <;> rcases hent r₂ h₂ with h₂ | rfl
  · rw [hname r₁ h₁, hname r₂ h₂] at heq
    exact h r₁ r₂ h₁ h₂ heq
  · exact hold r₁ h₁ heq
  · exact (hold r₂ h₂ heq.symm).symm
  · rfl

/-- Names are kept apart, and no OPEN has named a channel that is being opened locally. -/
structure Apart (s : Edge) : Prop where
  unique : s.Unique
  not_asked : ∀ r < s.fresh, (s.objs r).isLocal = true → (s.objs r).asked = false

theorem apart_start : start.Apart :=
  ⟨fun _ _ ⟨_, he, _⟩ => by simp [start] at he, fun _ hr => by simp [start] at hr⟩

theorem Stays.apart (hs : s.Stays s') (h : s.Apart) : s'.Apart where
  unique := hs.unique h.unique
  not_asked r hr hl := by
    rw [hs.asked]
    exact h.not_asked r (hs.fresh ▸ hr) (hs.isLocal r ▸ hl)

theorem Apart.markAsked (h : s.Apart) (hf : s.Formed)
    (hsep : ∀ e ∈ s.lcids, (s.objs e.2).name = name → ∃ e' ∈ s.rcids, e'.2 = e.2) :
    (s.markAsked name).Apart := by
  refine ⟨fun r r' hr hr' heq => ?_, fun r hr hl => ?_⟩
  · rw [(markAsked_objs s name r).1, (markAsked_objs s name r').1] at heq
    exact h.unique r r' hr hr' heq
  · simp only [Edge.markAsked] at hl ⊢
    split_ifs at hl ⊢ with hasked
    · obtain ⟨⟨e, he, rfl⟩, hn⟩ := hasked
      have hrem := (hf.remote_of_rcids (hsep e he hn)).2
      rw [hrem] at hl
      cases hl
    · exact h.not_asked r hr hl

theorem Apart.enterRcid (h : s.Apart) (rcid : ℕ)
    (hnew : s.Entered r ∨ ∀ r', s.Entered r' → (s.objs r').name ≠ (s.objs r).name) :
    (s.enterRcid rcid r).Apart := by
  have hobjs := enterRcid_objs s rcid r
  refine ⟨?_, fun r' hr' hl => ?_⟩
  · refine h.unique.enter (fun r' _ => (hobjs r').1) (fun r' hr' => ?_) ((hobjs r).1 ▸ hnew)
    obtain ⟨e, he, rfl⟩ := hr'
    rcases mem_append.mp he with he | he
    · rcases enterRcid_mem.mp he with he | rfl
      · exact .inl ⟨e, mem_append_left _ he, rfl⟩
      · exact .inr rfl
    · exact .inl ⟨e, mem_append_right _ he, rfl⟩
  · rw [(hobjs r').2.2]
    exact h.not_asked r' hr' ((hobjs r').2.1 ▸ hl)

theorem Formed.lt_of_entered (hf : s.Formed) (hr : s.Entered r) : r < s.fresh := by
  obtain ⟨e, he, rfl⟩ := hr
  exact hf.entry_lt e he

theorem Apart.alloc (h : s.Apart) (hf : s.Formed) (name : List UInt8) (isLocal : Bool) :
    (s.qcomGlinkAllocChannel name isLocal).Apart := by
  refine ⟨fun r r' hr hr' heq => ?_, fun r hr hl => ?_⟩
  · rw [alloc_objs (hf.lt_of_entered hr), alloc_objs (hf.lt_of_entered hr')] at heq
    exact h.unique r r' hr hr' heq
  · rcases Nat.lt_succ_iff_lt_or_eq.mp hr with hlt | rfl
    · rw [alloc_objs hlt] at hl ⊢
      exact h.not_asked r hlt hl
    · rw [alloc_fresh]

theorem Apart.rxOpen (h : s.Apart) (hf : s.Formed)
    (hsep : ∀ e ∈ s.lcids, (s.objs e.2).name = name → ∃ e' ∈ s.rcids, e'.2 = e.2) :
    (s.qcomGlinkRxOpen rcid name).Apart := by
  unfold qcomGlinkRxOpen
  split
  · next r hfind =>
    split_ifs
    · obtain ⟨⟨e, he, rfl⟩, -⟩ := findName_some hfind
      exact h.enterRcid rcid (.inl ⟨e, mem_append_left _ he, rfl⟩)
    · exact h
  · next hfind =>
    have hnew : ∀ r', s.Entered r' → (s.objs r').name ≠ name := by
      rintro r' ⟨e, he, rfl⟩ hn
      rcases mem_append.mp he with he | he
      · exact findName_none hfind e he hn
      · obtain ⟨e', he', heq⟩ := hsep e he hn
        exact findName_none hfind e' he' (heq ▸ hn)
    split_ifs
    · have hen := (h.alloc hf name false).enterRcid rcid (.inr fun r' hr' => by
        rw [alloc_fresh, alloc_objs (hf.lt_of_entered hr')]
        exact hnew r' hr')
      exact ⟨hen.unique, hen.not_asked⟩
    · exact (krefPut_stays _ _).apart (h.alloc hf name false)

theorem Apart.createEpt (h : s.Apart) (hf : s.Formed) (name : List UInt8) : (s.qcomGlinkCreateEpt t name).Apart := by
  unfold qcomGlinkCreateEpt
  split
  · exact ⟨h.unique, h.not_asked⟩
  · exact ⟨(h.alloc hf name true).unique, (h.alloc hf name true).not_asked⟩

theorem Apart.insert (h : s.Apart)
    (hnew : s.Entered r ∨ ∀ r', s.Entered r' → (s.objs r').name ≠ (s.objs r).name) :
    Apart { (s.krefGet r).setCaller t (.assign r id own) with lcids := s.lcids ++ [(id, r)] } := by
  have hget := krefGet_stays s r
  refine ⟨h.unique.enter (r := r) (fun r' _ => hget.name r') (fun r' hr' => ?_) ?_, (hget.apart h).not_asked⟩
  · obtain ⟨e, he, rfl⟩ := hr'
    simp only [mem_append, mem_singleton] at he
    rcases he with he | he | rfl
    · exact .inl ⟨e, mem_append_left _ he, rfl⟩
    · exact .inl ⟨e, mem_append_right _ he, rfl⟩
    · exact .inr rfl
  · exact hnew.imp (fun hr => hr) fun hne r' hr' => (hget.name r).symm ▸ hne r' hr'

/-- Names stay apart as long as the steps are separate. -/
theorem apart_step (h : s.Formed ∧ s.Apart) (hok : s.Separate op) (hs : s.step op = some s') :
    s'.Formed ∧ s'.Apart := by
  obtain ⟨hf, h⟩ := h
  refine ⟨formed_step hf hs, ?_⟩
  obtain hs | ⟨rcid, name, rfl, rfl⟩ | ⟨t, name, -, rfl⟩ | ⟨t, env, r, id, own, rfl, hp, rfl⟩ :=
    step_cases hs
  · exact hs.apart h
  · refine (h.markAsked hf hok).rxOpen (hf.markAsked name) fun e he hn => ?_
    rw [(markAsked_objs s name e.2).1] at hn
    exact hok e he hn
  · exact h.createEpt hf name
  · cases own with simp only [Separate, hp, EntersApart] at hok
    | true =>
      exact h.insert (.inr fun r' ⟨e, he, hr⟩ => hr ▸ hok e he)
    | false =>
      obtain ⟨e, he, hr⟩ := hok
      exact h.insert (.inl ⟨e, mem_append_left _ he, hr⟩)

end Edge

instance (s : Edge) (p : CallerPlace) : Decidable (s.EntersApart p) := by
  unfold Edge.EntersApart
  split <;> infer_instance

instance (s : Edge) (op : EdgeOp) : Decidable (s.Separate op) := by
  cases op <;> unfold Edge.Separate <;> infer_instance

theorem CallerPlace.WaitsFor.chan {r : ℕ} {p : CallerPlace} (h : p.WaitsFor r) : p.chan = some (r, true) := by
  rcases h with rfl | rfl <;> rfl

/-- Over every run local opens are never bound or returned. If the remote names no channel that is only in `lcids`,
and new names are entered once, one channel at most has a name, and local opens that were answered are bound and
complete: there are none. -/
theorem glink_local_open (ops : List EdgeOp) (s : Edge) (hrun : run step start ops = some s) :
    s.NeverBinds ∧ (Meets step Edge.Separate start ops → s.Unique ∧ s.LocalOpens) := by
  have hf := run_inv_always (fun _ _ _ h hs => formed_step h hs) formed_start hrun
  have hopen : ∀ t r, (s.callers t).WaitsFor r → r < s.fresh ∧ (s.objs r).isLocal = true :=
    fun t r hwait => hf.caller t r true hwait.chan
  refine ⟨fun t r => ⟨hf.not_returned t r, fun hwait => ?_⟩, fun hok => ?_⟩
  · obtain ⟨hlt, hloc⟩ := hopen t r hwait
    refine ⟨hf.openReq r hlt hloc, fun e he hr => ?_⟩
    rw [← hr, hf.rcid_remote e he] at hloc
    cases hloc
  · have h := (run_inv (fun _ _ _ h hok hs => apart_step h hok hs) ⟨formed_start, apart_start⟩ hok hrun).2
    refine ⟨h.unique, fun t r hwait _ hasked => ?_⟩
    obtain ⟨hlt, hloc⟩ := hopen t r hwait
    rw [h.not_asked r hlt hloc] at hasked
    cases hasked

def acknowledgedOpen : List EdgeOp :=
  [.createEpt 0 [65], .caller 0 ⟨false, some 1, true⟩, .caller 0 ⟨false, none, true⟩,
    .caller 0 ⟨false, none, true⟩, .rxOpen 7 [66], .work true, .rxOpenAck 1, .irq]

/-- A channel is opened locally and the remote acknowledges, while the remote opens another. -/
theorem glink_local_open_acknowledged :
    Meets step Edge.Separate start acknowledgedOpen ∧
      ∃ s, run step start acknowledgedOpen = some s ∧
        (s.rcids = [(7, 1)] ∧ s.lcids = [(1, 0)] ∧ (s.objs 0).openAck = true) ∧
        s.Unique ∧ s.LocalOpens := by
  have hok : Meets step Edge.Separate start acknowledgedOpen := by decide
  exact ⟨hok, _, rfl, by decide, (glink_local_open acknowledgedOpen _ rfl).2 hok⟩

def answeredOpen : List EdgeOp :=
  [.createEpt 0 [65], .caller 0 ⟨false, some 1, true⟩, .caller 0 ⟨false, none, true⟩,
    .caller 0 ⟨false, none, true⟩, .rxOpenAck 1, .irq, .rxOpen 7 [65], .work true]

/-- The remote acknowledges a local open and opens the channel itself. -/
theorem create_local_never_returns_answered :
    ∃ s, run step start answeredOpen = some s ∧ ∀ t r, s.callers t ≠ .returned r :=
  ⟨_, rfl, @create_local_never_returns _ answeredOpen rfl⟩

/-- The remote's OPEN makes a second channel of the name. -/
theorem glink_local_open_unbound :
    ∃ s, run step start answeredOpen = some s ∧
      (s.rcids = [(7, 1)] ∧ s.lcids = [(1, 0)] ∧ (s.objs 0).openReq = false) ∧
      ¬s.Unique ∧ ¬s.LocalOpens := by
  refine ⟨_, rfl, by decide, fun h => ?_, fun h => ?_⟩
  · exact absurd (h 0 1 ⟨(1, 0), by decide, rfl⟩ ⟨(7, 1), by decide, rfl⟩ (by decide)) (by decide)
  · exact absurd (h 0 0 (.inl (by decide)) (by decide) (by decide)).2 (by decide)

end VendorKernel.Glink

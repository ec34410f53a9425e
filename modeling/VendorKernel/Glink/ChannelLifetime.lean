import VendorKernel.Glink.ChannelOpen

/-! The lifetime of GLINK channels: each entry in a table stands for a reference, as long as the ids that a
channel holds are those it is entered under. -/
namespace VendorKernel.Glink

open Machine List CallerPlace Function ChannelObj Option Edge Nat

variable {ids : List (ℕ × ℕ)} {r id : ℕ}

def entriesOf (ids : List (ℕ × ℕ)) (r : ℕ) : ℕ := ids.countP fun e => e.2 = r

theorem entriesOf_pos : 0 < entriesOf ids r ↔ ∃ e ∈ ids, e.2 = r := by
  simp [entriesOf, countP_pos_iff]

theorem entriesOf_eq_zero (h : ∀ e ∈ ids, e.2 ≠ r) : entriesOf ids r = 0 := by
  simpa [entriesOf] using h

theorem entriesOf_concat (ids : List (ℕ × ℕ)) (id r r' : ℕ) :
    entriesOf (ids ++ [(id, r)]) r' = entriesOf ids r' + if r = r' then 1 else 0 := by
  simp [entriesOf, countP_append, countP_cons]

theorem entriesOf_idrRemove_le (ids : List (ℕ × ℕ)) (id r : ℕ) : entriesOf (idrRemove ids id) r ≤ entriesOf ids r :=
  List.Sublist.countP_le filter_sublist

theorem entriesOf_idrRemove_lt (h : (id, r) ∈ ids) : entriesOf (idrRemove ids id) r < entriesOf ids r := by
  have hspl := countP_eq_countP_filter_add ids (fun e => decide (e.2 = r))
    (fun e => decide (e.1 ≠ id))
  have hpos : 0 < entriesOf (ids.filter fun e => !decide (e.1 ≠ id)) r :=
    entriesOf_pos.mpr ⟨(id, r), by simpa using h, rfl⟩
  simp only [entriesOf, idrRemove] at hpos ⊢
  omega

/-- The references to a channel that `qcom_glink_work` and the interrupt are about to drop. -/
def owedBy (work : WorkPlace) (irq : Option ℕ) (r : ℕ) : ℕ :=
  (if work = .putting r then 1 else 0) + if irq = some r then 1 else 0

theorem owedBy_of_ne {work : WorkPlace} (h : ∀ r, work ≠ .putting r) (irq : Option ℕ) (r : ℕ) :
    owedBy work irq r = owedBy .idle irq r := by
  simp [owedBy, h r]

theorem owedBy_putting (irq : Option ℕ) (r r' : ℕ) :
    owedBy (.putting r) irq r' = owedBy .idle irq r' + if r = r' then 1 else 0 := by
  simp only [owedBy, WorkPlace.putting.injEq, reduceCtorEq, if_false]
  omega

theorem owedBy_some (work : WorkPlace) (r r' : ℕ) :
    owedBy work (some r) r' = owedBy work none r' + if r = r' then 1 else 0 := by
  simp [owedBy]

namespace Edge

variable {s s' : Edge} {r t lcid rcid : ℕ}

def entries (s : Edge) (r : ℕ) : ℕ := entriesOf s.rcids r + entriesOf s.lcids r

def owed (s : Edge) (r : ℕ) : ℕ := owedBy s.work s.irq r

/-- There is a reference for each entry and for each drop to come. -/
def Backed (s : Edge) (r : ℕ) : Prop := (s.entries r : ℤ) + s.owed r ≤ (s.objs r).refcount

/-- A local channel that is out of the tables and will not be entered again. -/
structure GivenUp (s : Edge) (r : ℕ) : Prop where
  isLocal : (s.objs r).isLocal = true
  not_entered : ∀ e ∈ s.lcids, e.2 ≠ r
  not_opening : ∀ t, s.callers t ≠ .sendOpen r true

structure Owned (s : Edge) : Prop where
  owner : ∀ t t' r, (s.callers t).chan = some (r, true) → (s.callers t').chan = some (r, true) → t = t'
  placed : ∀ t, s.Placed (s.callers t)

/-- The id that a channel holds is the one it is in `rcids` under, and references are there for
what will be dropped. -/
structure Counted (s : Edge) : Prop where
  rcid_eq : ∀ e ∈ s.rcids, (s.objs e.2).rcid = e.1
  busy : ∀ r, s.work = .registering r ∨ s.work = .closing r → ((s.objs r).rcid, r) ∈ s.rcids
  backed : ∀ r < s.fresh, s.Backed r ∨ s.GivenUp r
  owed_lt : ∀ r, s.owed r ≠ 0 → r < s.fresh
  not_dropped : s.dropped = false

/-- OPEN does not name a channel in `rcids`, and CLOSE_ACK addresses a channel by the id that the
channel holds. -/
def Matched (s : Edge) : EdgeOp → Prop
  | .rxOpen _ name => s.findName name = none
  | .rxCloseAck lcid => ∀ e ∈ s.lcids, e.1 = lcid → (s.objs e.2).lcid = lcid
  | _ => True

/-! ### Local opens -/

variable {p : CallerPlace}

def MayHave (lcid id : ℕ) : CallerPlace → Prop
  | .sendOpen .. | .release _ | .releaseAlloc _ => False
  | .assign _ id' _ => id = id'
  | .tx .. | .openAck .. | .openReq _ => id = lcid
  | _ => True

theorem placed_iff : s.Placed p ↔
    ∀ r, p.chan = some (r, true) → ∀ e ∈ s.lcids, e.2 = r → MayHave (s.objs r).lcid e.1 p := by
  rcases p with _ | _ | ⟨_, _ | _⟩ | ⟨_, _, _ | _⟩ | ⟨_, _ | _⟩ | ⟨_, _ | _⟩ | _ | _ | _ | _
  all_goals simp [Placed, chan, MayHave]

theorem Placed.mono (h : s.Placed p) (hlc : ∀ e ∈ s'.lcids, e ∈ s.lcids)
    (hlcid : ∀ e ∈ s'.lcids, e.1 = (s.objs e.2).lcid → (s'.objs e.2).lcid = (s.objs e.2).lcid) :
    s'.Placed p := by
  refine placed_iff.mpr fun r hc e he hr => ?_
  have hmay := placed_iff.mp h r hc e (hlc e he) hr
  subst hr
  by_cases hid : e.1 = (s.objs e.2).lcid
  · rwa [hlcid e he hid]
  · cases p <;> first | exact hmay | exact absurd hmay hid

theorem Placed.other (h : s.Placed p) (hlc : ∀ e ∈ s'.lcids, e.2 ≠ r → e ∈ s.lcids)
    (hlcid : ∀ r', r' ≠ r → (s'.objs r').lcid = (s.objs r').lcid) (hne : p.chan ≠ some (r, true)) :
    s'.Placed p := by
  refine placed_iff.mpr fun r' hc e he hr => ?_
  have hr' : r' ≠ r := by
    rintro rfl
    exact hne hc
  rw [hlcid r' hr']
  exact placed_iff.mp h r' hc e (hlc e he (hr ▸ hr')) hr

theorem Placed.removeLcid (h : s.Placed p) (r : ℕ) : (s.removeLcid r).Placed p := by
  refine h.mono mem_of_idrRemove fun e he hid => ?_
  have hne : e.1 ≠ (s.objs r).lcid := by simpa using of_mem_filter he
  have hr : e.2 ≠ r := by
    intro heq
    rw [heq] at hid
    exact hne hid
  simp only [Edge.removeLcid, setObj, update_of_ne hr]

theorem not_mem_idrRemove (h : ∀ e ∈ s.lcids, e.2 = r → e.1 = lcid) : ∀ e ∈ idrRemove s.lcids lcid, e.2 ≠ r := by
  intro e he hr
  have hne : e.1 ≠ lcid := by simpa using of_mem_filter he
  exact hne (h e (mem_of_idrRemove e he) hr)

theorem owned_start : start.Owned := by
  constructor
  · simp [start, chan]
  · exact fun _ => trivial

theorem update_proj {α : Type} (f : ChannelObj → α) {obj : ChannelObj} (h : f obj = f (s.objs r)) (r' : ℕ) :
    f (update s.objs r obj r') = f (s.objs r') := by
  by_cases hr : r' = r
  · rw [hr, update_self]
    exact h
  · rw [update_of_ne hr]

theorem krefGet_lcid (s : Edge) (r r' : ℕ) : ((s.krefGet r).objs r').lcid = (s.objs r').lcid :=
  update_proj lcid (by rfl) r'

theorem placed_giveUp {own : Bool} (h : own = true → ∀ e ∈ s.lcids, e.2 ≠ r) : s.Placed (giveUp own r) := by
  cases own with
  | true => exact h rfl
  | false => trivial

section

variable (h : s.Owned)
include h

theorem Owned.mono (hcall : s'.callers = s.callers)
    (hlc : ∀ e ∈ s'.lcids, e ∈ s.lcids)
    (hlcid : ∀ e ∈ s'.lcids, e.1 = (s.objs e.2).lcid → (s'.objs e.2).lcid = (s.objs e.2).lcid) :
    s'.Owned := by
  refine ⟨?_, ?_⟩ <;> rw [hcall]
  · exact h.owner
  · exact fun t => (h.placed t).mono hlc hlcid

theorem Owned.goes (hcall : s'.callers = update s.callers t p) (hgoes : s.Goes (s.callers t) p)
    (hoth : ∀ t', t' ≠ t → s'.Placed (s.callers t')) (hp : s'.Placed p) : s'.Owned := by
  have hchan : ∀ t' r, (s'.callers t').chan = some (r, true) → (s.callers t').chan = some (r, true) := by
    intro t' r hc
    rw [hcall] at hc
    exact (goes_update hgoes t').chan _ hc
  refine ⟨fun t t' r hc hc' => h.owner t t' r (hchan t r hc) (hchan t' r hc'), fun t' => ?_⟩
  rw [hcall]
  by_cases ht : t' = t
  · rw [ht, update_self]
    exact hp
  · rw [update_of_ne ht]
    exact hoth t' ht

theorem Owned.change {obj : ChannelObj} (hobjs : s'.objs = update s.objs r obj)
    (hobj : obj.lcid = (s.objs r).lcid) (hcall : s'.callers = s.callers)
    (hlc : ∀ e ∈ s'.lcids, e ∈ s.lcids) : s'.Owned :=
  h.mono hcall hlc fun e _ _ => by rw [hobjs, update_proj lcid hobj]

theorem Owned.place (hcall : s'.callers = update s.callers t p) (hgoes : s.Goes (s.callers t) p)
    (hlc : ∀ e ∈ s'.lcids, e ∈ s.lcids) (hlcid : ∀ r, (s'.objs r).lcid = (s.objs r).lcid)
    (hp : s'.Placed p) : s'.Owned :=
  h.goes hcall hgoes (fun t' _ => (h.placed t').mono hlc fun e _ _ => hlcid e.2) hp

variable (hf : s.Formed)
include hf

variable {own : Bool} {id rcid t' : ℕ}

theorem Owned.alloc (name : List UInt8) (isLocal : Bool) : (s.qcomGlinkAllocChannel name isLocal).Owned :=
  h.mono rfl (fun _ he => he) fun e he _ => by
    rw [alloc_objs (hf.entry_lt e (mem_append_right _ he))]

theorem Owned.rxOpen {name : List UInt8} : (s.qcomGlinkRxOpen rcid name).Owned := by
  have hac := h.alloc hf name false
  unfold qcomGlinkRxOpen
  split
  · split_ifs
    · exact h.change rfl rfl rfl fun _ he => he
    · exact h
  · split_ifs
    · exact hac.change rfl rfl rfl fun _ he => he
    · exact hac.change rfl rfl rfl fun _ he => he

theorem Owned.createEpt (name : List UInt8) : (s.qcomGlinkCreateEpt t name).Owned := by
  unfold qcomGlinkCreateEpt
  split
  · next r hfind =>
    refine ⟨fun t₁ t₂ r' h₁ h₂ => ?_, (forall_update_iff s.callers fun _ => s.Placed).mpr
      ⟨trivial, fun t' _ => h.placed t'⟩⟩
    have hold : ∀ t', ((s.setCaller t (.closeAck r)).callers t').chan = some (r', true) →
        (s.callers t').chan = some (r', true) := by
      intro t' hc
      by_cases ht : t' = t
      · simp [setCaller, ht, chan] at hc
      · simpa only [setCaller, update_of_ne ht] using hc
    exact h.owner t₁ t₂ r' (hold t₁ h₁) (hold t₂ h₂)
  · have hac := h.alloc hf name true
    -- the new channel is in no call and in no table
    have hnew : ∀ t', (s.callers t').chan ≠ some (s.fresh, true) := fun t' hc =>
      Nat.lt_irrefl _ (hf.caller t' s.fresh true hc).1
    refine ⟨fun t₁ t₂ r' h₁ h₂ => ?_, fun t' => ?_⟩
    · simp only [setCaller, update_apply] at h₁ h₂
      split_ifs at h₁ h₂ with ht₁ ht₂ ht₂
      · rw [ht₁, ht₂]
      · obtain rfl : s.fresh = r' := by simpa [chan] using h₁
        exact absurd h₂ (hnew t₂)
      · obtain rfl : s.fresh = r' := by simpa [chan] using h₂
        exact absurd h₁ (hnew t₁)
      · exact h.owner t₁ t₂ r' h₁ h₂
    · by_cases ht : t' = t
      · simp only [setCaller, ht, update_self]
        exact fun e he => Nat.ne_of_lt (hf.entry_lt e (mem_append_right _ he))
      · simp only [setCaller, update_of_ne ht]
        exact hac.placed t'

theorem Owned.other (hc : (s.callers t).chan = some (r, own)) (ht : t' ≠ t) :
    (s.callers t').chan ≠ some (r, true) := by
  intro hc'
  cases own with
  | true => exact ht (h.owner t' t r hc' hc)
  | false =>
    have hloc := (hf.caller t' r true hc').2
    have hrem := (hf.caller t r false hc).2
    rw [hloc] at hrem
    cases hrem

theorem Owned.insert (hp : s.callers t = .sendOpen r own) :
    Owned { (s.krefGet r).setCaller t (.assign r id own) with lcids := s.lcids ++ [(id, r)] } := by
  refine h.goes rfl ?_ (fun t' ht => ?_) ?_
  · rw [hp]
    constructor <;> simp [chan]
  · refine (h.placed t').other (fun e he hr => ?_) (fun r' _ => krefGet_lcid s r r')
      (h.other hf (by rw [hp, chan]) ht)
    rcases mem_append.mp he with he | he
    · exact he
    · rw [mem_singleton.mp he] at hr
      exact absurd rfl hr
  · cases own with
    | true =>
      have hnone := h.placed t
      rw [hp] at hnone
      intro e he hr
      rcases mem_append.mp he with he | he
      · exact absurd hr (hnone e he)
      · rw [mem_singleton.mp he]
    | false => trivial

theorem Owned.assign (hp : s.callers t = .assign r id own) :
    ((s.setObj r { s.objs r with lcid := id }).setCaller t (.tx r own)).Owned := by
  refine h.goes rfl ?_ (fun t' ht => ?_) ?_
  · rw [hp]
    constructor <;> simp [chan]
  · refine (h.placed t').other (fun e he _ => he) (fun r' hr => ?_)
      (h.other hf (by rw [hp, chan]) ht)
    simp only [setCaller, setObj, update_of_ne hr]
  · cases own with
    | true =>
      have hid := h.placed t
      rw [hp] at hid
      intro e he hr
      simp only [setCaller, setObj, update_self]
      exact hid e he hr
    | false => trivial

theorem Owned.caller {env : CallerEnv} (hs : s.callerStep t env = some s') :
    s'.Owned := by
  have hpl := h.placed t
  cases callerStep_moves hs with
  | goes hp hkp => exact h.place rfl hp (fun _ he => he) (fun _ => rfl) (hkp hpl)
  | @noId r own hp =>
    refine h.place rfl (goes_giveUp (by rw [hp, chan])) (fun _ he => he) (krefGet_lcid s r)
      (placed_giveUp ?_)
    rintro rfl
    rw [hp] at hpl
    exact hpl
  | insert hp => exact h.insert hf hp
  | assign hp => exact h.assign hf hp
  | @notSent r own hp =>
    refine h.goes rfl (goes_giveUp (by rw [hp, chan])) (fun t' _ => (h.placed t').removeLcid r)
      (placed_giveUp ?_)
    rintro rfl
    rw [hp] at hpl
    exact not_mem_idrRemove hpl
  | timedOut hp =>
    rcases hp with hp | hp
    all_goals
      rw [hp] at hpl
      exact h.place rfl (by rw [hp]; constructor <;> simp [chan]) mem_of_idrRemove
        (fun _ => rfl) (not_mem_idrRemove hpl)
  | @put r p hp =>
    rcases hp with ⟨hp, rfl⟩ | ⟨hp, rfl⟩
    all_goals
      refine h.place rfl (by rw [hp]; constructor <;> simp [chan]) (fun _ he => he)
        (update_proj lcid (by rfl)) ?_
    · rw [hp] at hpl
      exact hpl
    · trivial

end

/-! ### References -/

theorem entered_iff : s.Entered r ↔ 0 < s.entries r := by
  have hpos : 0 < s.entries r ↔ 0 < entriesOf s.rcids r ∨ 0 < entriesOf s.lcids r := by
    unfold entries
    omega
  rw [hpos, entriesOf_pos, entriesOf_pos]
  simp only [Entered, mem_append, or_and_right, exists_or]

theorem Backed.mono (h : s.Backed r)
    (hle : (s'.entries r : ℤ) + s'.owed r + (s.objs r).refcount ≤
      s.entries r + s.owed r + (s'.objs r).refcount) : s'.Backed r := by
  unfold Backed at *
  omega

theorem krefPut_dropped (hdrop : s.dropped = false) (hput : s.Entered r → 2 ≤ (s.objs r).refcount) :
    (s.krefPut r).dropped = false := by
  simp only [krefPut, hdrop, Bool.false_or, decide_eq_false_iff_not, not_and]
  intro hzero hent
  have := hput hent
  omega

theorem GivenUp.stays (h : s.GivenUp r) (hs : s.Stays s') : s'.GivenUp r :=
  ⟨(hs.isLocal r).trans h.isLocal, fun e he => h.not_entered e (hs.lcids e he),
    fun t hc => h.not_opening t ((hs.goes t).sendOpen r hc)⟩

theorem GivenUp.not_mem (h : s.GivenUp r) (hf : s.Formed) : ¬s.Entered r := by
  rintro ⟨e, he, hr⟩
  rcases mem_append.mp he with he | he
  · have hrem := hf.rcid_remote e he
    rw [hr, h.isLocal] at hrem
    cases hrem
  · exact h.not_entered e he hr

theorem Counted.put_dropped (h : s.Counted) (hf : s.Formed) (howed : s.owed r ≠ 0) :
    (s.krefPut r).dropped = false := by
  refine krefPut_dropped h.not_dropped fun hent => ?_
  rcases h.backed r (h.owed_lt r howed) with hb | hg
  · have hpos := entered_iff.mp hent
    unfold Backed at hb
    omega
  · exact absurd hent (hg.not_mem hf)

theorem Counted.stays (h : s.Counted) (hs : s.Stays s')
    (hrcid : ∀ e ∈ s'.rcids, (s'.objs e.2).rcid = e.1)
    (hbusy : ∀ r, s'.work = .registering r ∨ s'.work = .closing r → ((s'.objs r).rcid, r) ∈ s'.rcids)
    (hback : ∀ r < s.fresh, s.Backed r → s'.Backed r ∨ s'.GivenUp r)
    (howed : ∀ r, s'.owed r ≠ 0 → r < s.fresh) (hdrop : s'.dropped = false) : s'.Counted := by
  refine ⟨hrcid, hbusy, fun r hr => ?_, fun r hr => hs.fresh ▸ howed r hr, hdrop⟩
  rcases h.backed r (hs.fresh ▸ hr) with hb | hg
  · exact hback r (hs.fresh ▸ hr) hb
  · exact .inr (hg.stays hs)

theorem Counted.call (h : s.Counted) (hs : s.Stays s') (hrc : s'.rcids = s.rcids)
    (hrcid : ∀ r, (s'.objs r).rcid = (s.objs r).rcid) (hwork : s'.work = s.work) (hirq : s'.irq = s.irq)
    (hback : ∀ r < s.fresh, s.Backed r → s'.Backed r ∨ s'.GivenUp r) (hdrop : s'.dropped = false) :
    s'.Counted := by
  have howed : ∀ r, s'.owed r = s.owed r := fun r => by rw [owed, owed, hwork, hirq]
  refine h.stays hs (fun e he => ?_) (fun r hr => ?_) hback (fun r hr => ?_) hdrop
  · rw [hrcid]
    exact h.rcid_eq e (hrc ▸ he)
  · rw [hrcid, hrc]
    exact h.busy r (hwork ▸ hr)
  · exact h.owed_lt r (howed r ▸ hr)

theorem Backed.call (h : s.Backed r) (hrc : s'.rcids = s.rcids) (hwork : s'.work = s.work)
    (hirq : s'.irq = s.irq) (hlc : entriesOf s'.lcids r ≤ entriesOf s.lcids r)
    (hcnt : (s.objs r).refcount ≤ (s'.objs r).refcount) : s'.Backed r := by
  have howed : s'.owed r = s.owed r := by rw [owed, owed, hwork, hirq]
  refine h.mono ?_
  rw [entries, entries, hrc]
  omega

theorem counted_start : start.Counted := by
  constructor <;> simp [start, owed, owedBy]

theorem Counted.owes (h : s.Counted) (hs : s.Stays s') (hidle : ∀ r', s.work ≠ .putting r')
    (hwork : s'.work = .putting r) (hirq : s'.irq = s.irq)
    (hrcid : ∀ e ∈ s'.rcids, (s'.objs e.2).rcid = e.1)
    (hents : ∀ r', s'.entries r' + (if r = r' then 1 else 0) ≤ s.entries r')
    (hcnt : ∀ r', (s'.objs r').refcount = (s.objs r').refcount) (hlt : r < s.fresh)
    (hdrop : s'.dropped = s.dropped) : s'.Counted := by
  have howed : ∀ r', s'.owed r' = s.owed r' + if r = r' then 1 else 0 := by
    intro r'
    rw [owed, owed, hwork, hirq, owedBy_of_ne hidle]
    exact owedBy_putting s.irq r r'
  refine h.stays hs hrcid (fun r' hr' => by simp [hwork] at hr') (fun r' _ hb => .inl (hb.mono ?_))
    (fun r' hr' => ?_) (hdrop.trans h.not_dropped)
  · have hle := hents r'
    rw [howed, hcnt]
    split_ifs at hle ⊢ <;> omega
  · by_cases hr : r = r'
    · exact hr ▸ hlt
    · rw [howed, if_neg hr] at hr'
      exact h.owed_lt r' hr'

theorem entriesOf_idrRemove_add_le (h : (id, r) ∈ ids) (r' : ℕ) :
    entriesOf (idrRemove ids id) r' + (if r = r' then 1 else 0) ≤ entriesOf ids r' := by
  split_ifs with hr
  · exact hr ▸ entriesOf_idrRemove_lt h
  · exact entriesOf_idrRemove_le ids id r'

/-- A channel leaves `rcids`, and its reference is to be dropped. -/
theorem Counted.removeRcid (h : s.Counted) (hf : s.Formed)
    (hwork : s.work = .registering r ∨ s.work = .closing r)
    (hs : s.Stays { s.removeRcid r with work := .putting r }) :
    Counted { s.removeRcid r with work := .putting r } := by
  have hmem := h.busy r hwork
  have hidle : ∀ r', s.work ≠ .putting r' := by
    rcases hwork with hwork | hwork <;> simp [hwork]
  refine h.owes hs hidle rfl rfl (fun e he => ?_) (fun r' => ?_) (update_proj refcount (by rfl))
    (hf.entry_lt _ (mem_append_left _ hmem)) rfl
  · have hne : e.1 ≠ (s.objs r).rcid := by simpa using of_mem_filter he
    have heq := h.rcid_eq e (mem_of_idrRemove e he)
    have hr : e.2 ≠ r := by
      intro hr
      rw [hr] at heq
      exact hne heq.symm
    simp only [Edge.removeRcid, setObj, update_of_ne hr]
    exact heq
  · have hle := entriesOf_idrRemove_add_le hmem r'
    change entriesOf (idrRemove s.rcids (s.objs r).rcid) r' + entriesOf s.lcids r' + _ ≤
      entriesOf s.rcids r' + entriesOf s.lcids r'
    omega

theorem krefPut_refcount (s : Edge) (r r' : ℕ) :
    ((s.krefPut r).objs r').refcount = (s.objs r').refcount - if r = r' then 1 else 0 := by
  by_cases hr : r = r'
  · subst hr
    simp [krefPut, setObj]
  · simp [krefPut, setObj, hr, update_of_ne (Ne.symm hr)]

theorem krefGet_refcount (s : Edge) (r r' : ℕ) :
    ((s.krefGet r).objs r').refcount = (s.objs r').refcount + if r = r' then 1 else 0 := by
  by_cases hr : r = r'
  · subst hr
    simp [krefGet, setObj]
  · simp [krefGet, setObj, hr, update_of_ne (Ne.symm hr)]

/-- A reference that is owed is dropped. -/
theorem Counted.put (h : s.Counted) (hf : s.Formed) (hs : s.Stays s')
    (hrc : s'.rcids = s.rcids) (hlc : s'.lcids = s.lcids)
    (hrcid : ∀ r, (s'.objs r).rcid = (s.objs r).rcid)
    (hcnt : ∀ r', (s'.objs r').refcount = (s.objs r').refcount - if r = r' then 1 else 0)
    (hwork : ∀ r, s'.work = .registering r ∨ s'.work = .closing r → s.work = s'.work)
    (howed : ∀ r', s.owed r' = s'.owed r' + if r = r' then 1 else 0)
    (hdrop : s'.dropped = (s.krefPut r).dropped) : s'.Counted := by
  have hents : ∀ r', s'.entries r' = s.entries r' := fun r' => by rw [entries, entries, hrc, hlc]
  refine h.stays hs (fun e he => ?_) (fun r' hr' => ?_) (fun r' _ hb => .inl (hb.mono ?_))
    (fun r' hr' => ?_) ?_
  · rw [hrcid]
    exact h.rcid_eq e (hrc ▸ he)
  · rw [hrcid, hrc]
    exact h.busy r' ((hwork r' hr').symm ▸ hr')
  · rw [hents, howed, hcnt]
    split_ifs <;> omega
  · refine h.owed_lt r' ?_
    rw [howed]
    omega
  · rw [hdrop]
    refine h.put_dropped hf ?_
    rw [howed, if_pos rfl]
    omega

section
variable (ho : s.Owned)
include ho

section
variable (h : s.Counted)
include h

theorem work_inv (hf : s.Formed) {registered : Bool} (hs : s.qcomGlinkWork registered = some s') :
    s'.Owned ∧ s'.Counted := by
  have hsty := work_stays hs
  revert hs hsty
  fun_cases qcomGlinkWork s registered with
  | case1 => rintro ⟨⟩
  | case2 r hwork =>
    rintro ⟨⟩ hsty
    have howed : ∀ r', owed { s with work := .idle } r' = s.owed r' := fun r' =>
      (owedBy_of_ne (by simp [hwork]) s.irq r').symm
    refine ⟨{ ho with }, h.stays hsty h.rcid_eq (fun r' hr' => by simp at hr')
      (fun r' _ hb => .inl (hb.mono ?_)) (fun r' hr' => h.owed_lt r' (howed r' ▸ hr')) h.not_dropped⟩
    rw [howed]
    exact Int.le_refl _
  | case3 | case4 =>
    rintro ⟨⟩ hsty
    exact ⟨ho.change rfl rfl rfl fun _ he => he, h.removeRcid hf (by simp [*]) hsty⟩
  | case5 r hwork =>
    rintro ⟨⟩ hsty
    refine ⟨ho.change rfl rfl rfl fun _ he => he, h.put hf hsty rfl rfl
      (update_proj rcid (by rfl)) (krefPut_refcount s r) (fun r' hr' => by simp at hr')
      (fun r' => ?_) rfl⟩
    rw [owed, hwork]
    exact owedBy_putting s.irq r r'

theorem irq_inv (hf : s.Formed) (hs : s.step .irq = some s') : s'.Owned ∧ s'.Counted := by
  have hsty := irq_stays hs
  simp only [step] at hs
  split at hs
  · cases hs
  · next r hirq =>
    cases hs
    refine ⟨ho.mono rfl (fun _ he => he) fun e _ _ => ?_, h.put (r := r) hf hsty rfl rfl (fun r' => ?_)
      (fun r' => ?_) (fun _ _ => rfl) (fun r' => ?_) ?_⟩
    · simp only [krefPut, setObj, update_self, update_idem]
      exact update_proj lcid (by rfl) e.2
    · simp only [krefPut, setObj, update_self, update_idem]
      exact update_proj rcid (by rfl) r'
    · rw [krefPut_refcount]
      congr 1
      exact update_proj refcount (by rfl) r'
    · rw [owed, hirq]
      exact owedBy_some s.work r r'
    · simp only [krefPut, setObj, update_self]
      rfl

theorem rxOpenAck_inv (hf : s.Formed) (hs : s.step (.rxOpenAck lcid) = some s') : s'.Owned ∧ s'.Counted := by
  have hsty := openAck_stays hs
  simp only [step] at hs
  split_ifs at hs with hirq
  split at hs
  · cases hs
    exact ⟨ho, h⟩
  · next r hfind =>
    cases hs
    have howed : ∀ r', owed { s.krefGet r with irq := some r } r' = s.owed r' + if r = r' then 1 else 0 := by
      intro r'
      rw [show s.owed r' = owedBy s.work none r' from by rw [owed, hirq]]
      exact owedBy_some s.work r r'
    have hrcid : ∀ r', ((s.krefGet r).objs r').rcid = (s.objs r').rcid :=
      update_proj rcid (by rfl)
    refine ⟨ho.change rfl rfl rfl fun _ he => he,
      h.stays hsty (fun e he => (hrcid e.2).trans (h.rcid_eq e he)) (fun r' hr' => ?_)
        (fun r' _ hb => .inl (hb.mono ?_)) (fun r' hr' => ?_) h.not_dropped⟩
    · rw [hrcid]
      exact h.busy r' hr'
    · have hents : entries { s.krefGet r with irq := some r } r' = s.entries r' := rfl
      rw [howed, hents]
      rw [krefGet_refcount]
      split_ifs <;> omega
    · by_cases hr : r = r'
      · exact hr ▸ hf.entry_lt _ (mem_append_right _ (idrFind_mem hfind))
      · rw [howed, if_neg hr] at hr'
        exact h.owed_lt r' hr'

theorem rxClose_inv (hidle : s.work = .idle) (rcid : ℕ) :
    (s.qcomGlinkRxClose rcid).Owned ∧ (s.qcomGlinkRxClose rcid).Counted := by
  have hsty := rxClose_stays s rcid
  unfold qcomGlinkRxClose at *
  split at hsty
  · exact ⟨ho, h⟩
  · next r hfind =>
    have howed : ∀ r', owed { s.setObj r { s.objs r with closeAck := true } with work := .closing r } r' =
        s.owed r' := by
      intro r'
      rw [show s.owed r' = owedBy .idle s.irq r' from by rw [owed, hidle]]
      exact owedBy_of_ne (by simp) s.irq r'
    have hrcid : ∀ r', (update s.objs r { s.objs r with closeAck := true } r').rcid =
        (s.objs r').rcid := update_proj ChannelObj.rcid (by rfl)
    refine ⟨ho.change rfl rfl rfl fun _ he => he,
      h.stays hsty (fun e he => (hrcid e.2).trans (h.rcid_eq e he)) (fun r' hr' => ?_)
        (fun r' _ hb => .inl (hb.mono ?_)) (fun r' hr' => h.owed_lt r' (howed r' ▸ hr')) h.not_dropped⟩
    · obtain rfl : r = r' := by simpa using hr'
      have hmem := idrFind_mem hfind
      simp only [setObj, hrcid]
      exact (h.rcid_eq _ hmem).symm ▸ hmem
    · rw [howed]
      have hcnt : (update s.objs r { s.objs r with closeAck := true } r').refcount =
          (s.objs r').refcount := update_proj refcount (by rfl) r'
      simp only [setObj, hcnt]
      exact Int.le_refl _

/-- CLOSE_ACK for the id that the channel holds. -/
theorem rxCloseAck_inv (hf : s.Formed) (hidle : s.work = .idle)
    (hid : ∀ e ∈ s.lcids, e.1 = lcid → (s.objs e.2).lcid = lcid) :
    (s.qcomGlinkRxCloseAck lcid).Owned ∧ (s.qcomGlinkRxCloseAck lcid).Counted := by
  have hsty := rxCloseAck_stays s lcid
  unfold qcomGlinkRxCloseAck at *
  split at hsty
  · exact ⟨ho, h⟩
  · next r hfind =>
    have hmem := idrFind_mem hfind
    have hlcid := hid _ hmem rfl
    have hrmv : (s.removeLcid r).Owned := { ho with placed := fun t => (ho.placed t).removeLcid r }
    refine ⟨hrmv.change rfl rfl rfl fun _ he => he, ?_⟩
    generalize hs' : ({ (s.removeLcid r).setObj r { (s.removeLcid r).objs r with openAck := false } with
      work := .putting r } : Edge) = s' at hsty ⊢
    have hobjs : s'.objs = update s.objs r { s.objs r with lcid := 0, openAck := false } := by
      rw [← hs']
      simp only [removeLcid, setObj, update_self, update_idem]
    refine h.owes (r := r) hsty (by simp [hidle]) (by rw [← hs']) (by rw [← hs']; rfl) (fun e he => ?_) (fun r' => ?_)
      (fun r' => ?_) (hf.entry_lt _ (mem_append_right _ hmem)) (by rw [← hs']; rfl)
    · rw [hobjs, update_proj rcid (by rfl)]
      exact h.rcid_eq e (hsty.rcids e he)
    · have hle := entriesOf_idrRemove_add_le hmem r'
      have hents : s'.entries r' = entriesOf s.rcids r' + entriesOf (idrRemove s.lcids lcid) r' := by
        rw [← hs', ← hlcid]
        rfl
      rw [hents, entries]
      omega
    · rw [hobjs]
      exact update_proj refcount (by rfl) r'

end

end

theorem Formed.fresh_entries (hf : s.Formed) : s.entries s.fresh = 0 := by
  rw [entries, entriesOf_eq_zero, entriesOf_eq_zero]
  · exact fun e he => Nat.ne_of_lt (hf.entry_lt e (mem_append_right _ he))
  · exact fun e he => Nat.ne_of_lt (hf.entry_lt e (mem_append_left _ he))

section
variable (h : s.Counted)
include h

theorem Counted.fresh_owed : s.owed s.fresh = 0 := by
  by_contra hne
  exact Nat.lt_irrefl _ (h.owed_lt _ hne)

theorem Counted.alloc (hf : s.Formed) (name : List UInt8) (isLocal : Bool) :
    (s.qcomGlinkAllocChannel name isLocal).Counted := by
  have hmem_lt : ∀ e ∈ s.rcids, e.2 < s.fresh := fun e he => hf.entry_lt e (mem_append_left _ he)
  refine ⟨fun e he => ?_, fun r hr => ?_, fun r hr => ?_, fun r hr => lt_succ_of_lt (h.owed_lt r hr), h.not_dropped⟩
  · rw [alloc_objs (hmem_lt e he)]
    exact h.rcid_eq e he
  · have hmem := h.busy r hr
    rw [alloc_objs (hmem_lt _ hmem)]
    exact hmem
  · rcases Nat.lt_succ_iff_lt_or_eq.mp hr with hlt | rfl
    · rcases h.backed r hlt with hb | hg
      · refine .inl (hb.mono ?_)
        rw [alloc_objs hlt]
        exact Int.le_refl _
      · refine .inr ⟨?_, hg.not_entered, hg.not_opening⟩
        rw [alloc_objs hlt]
        exact hg.isLocal
    · refine .inl ?_
      have hents := hf.fresh_entries
      have howed := h.fresh_owed
      rw [Backed, alloc_fresh]
      change (s.entries s.fresh : ℤ) + s.owed s.fresh ≤ 1
      omega

/-- A new channel is entered for an OPEN. -/
theorem Counted.enterFresh (hf : s.Formed) (hidle : s.work = .idle) (rcid : ℕ) (name : List UInt8) :
    Counted { (s.qcomGlinkAllocChannel name false).enterRcid rcid s.fresh with
      work := .registering s.fresh } := by
  have hold : ∀ r < s.fresh, ((s.qcomGlinkAllocChannel name false).enterRcid rcid s.fresh).objs r =
      s.objs r := fun r hr => by
    simp only [enterRcid, setObj, update_of_ne (Nat.ne_of_lt hr), alloc_objs hr]
  have howed : ∀ r, owed { (s.qcomGlinkAllocChannel name false).enterRcid rcid s.fresh with
      work := .registering s.fresh } r = s.owed r := by
    intro r
    rw [show s.owed r = owedBy .idle s.irq r from by rw [owed, hidle]]
    exact owedBy_of_ne (by simp) s.irq r
  have hents : ∀ r, entries { (s.qcomGlinkAllocChannel name false).enterRcid rcid s.fresh with
      work := .registering s.fresh } r = s.entries r + if s.fresh = r then 1 else 0 := by
    intro r
    have hrc := entriesOf_concat s.rcids rcid s.fresh r
    change entriesOf (s.rcids ++ [(rcid, s.fresh)]) r + entriesOf s.lcids r =
      entriesOf s.rcids r + entriesOf s.lcids r + _
    omega
  refine ⟨fun e he => ?_, fun r hr => ?_, fun r hr => ?_, fun r hr => ?_, h.not_dropped⟩
  · rcases enterRcid_mem.mp he with he | rfl
    · rw [hold e.2 (hf.entry_lt e (mem_append_left _ he))]
      exact h.rcid_eq e he
    · simp [enterRcid, setObj]
  · obtain rfl : s.fresh = r := by simpa using hr
    exact enterRcid_mem.mpr (.inr (by simp [enterRcid, setObj]))
  · rcases Nat.lt_succ_iff_lt_or_eq.mp hr with hlt | rfl
    · rcases h.backed r hlt with hb | hg
      · refine .inl (hb.mono ?_)
        rw [howed, hents, if_neg (Nat.ne_of_gt hlt)]
        rw [hold r hlt]
        omega
      · refine .inr ⟨?_, hg.not_entered, hg.not_opening⟩
        rw [hold r hlt]
        exact hg.isLocal
    · rw [Backed, howed, hents, hf.fresh_entries, h.fresh_owed]
      simp [enterRcid, setObj, alloc_fresh]
  · exact lt_succ_of_lt (h.owed_lt r (howed r ▸ hr))

theorem Counted.putFresh (hf : s.Formed) (name : List UInt8) :
    ((s.qcomGlinkAllocChannel name false).krefPut s.fresh).Counted := by
  have hac := h.alloc hf name false
  have hcnt := krefPut_refcount (s.qcomGlinkAllocChannel name false) s.fresh
  refine hac.stays (krefPut_stays _ _) (fun e he => ?_) (fun r hr => ?_) (fun r hr hb => .inl ?_) hac.owed_lt ?_
  · exact (update_proj rcid (by rfl) e.2).trans (hac.rcid_eq e he)
  · rw [show (((s.qcomGlinkAllocChannel name false).krefPut s.fresh).objs r).rcid =
      ((s.qcomGlinkAllocChannel name false).objs r).rcid from update_proj rcid (by rfl) r]
    exact hac.busy r hr
  · by_cases hr : s.fresh = r
    · subst hr
      rw [Backed, hcnt, alloc_fresh, if_pos rfl]
      change (s.entries s.fresh : ℤ) + s.owed s.fresh ≤ 1 - 1
      rw [hf.fresh_entries, h.fresh_owed]
      exact Int.le_refl _
    · refine hb.mono ?_
      rw [hcnt, if_neg hr, Int.sub_zero]
      exact Int.le_refl _
  · refine krefPut_dropped hac.not_dropped fun hent => ?_
    exact absurd (hf.lt_of_entered hent) (Nat.lt_irrefl _)

theorem Counted.markAsked (name : List UInt8) : (s.markAsked name).Counted := by
  have hobjs : ∀ r, ((s.markAsked name).objs r).rcid = (s.objs r).rcid ∧
      ((s.markAsked name).objs r).refcount = (s.objs r).refcount := by
    intro r
    simp only [Edge.markAsked]
    split_ifs <;> exact ⟨rfl, rfl⟩
  refine ⟨fun e he => (hobjs e.2).1.trans (h.rcid_eq e he), fun r hr => ?_, fun r hr => ?_, h.owed_lt, h.not_dropped⟩
  · rw [(hobjs r).1]
    exact h.busy r hr
  · rcases h.backed r hr with hb | hg
    · refine .inl (hb.mono ?_)
      rw [(hobjs r).2]
      exact Int.le_refl _
    · exact .inr ⟨(markAsked_objs s name r).2.1.trans hg.isLocal, hg.not_entered, hg.not_opening⟩

theorem Counted.rxOpen (hf : s.Formed) (hidle : s.work = .idle) {name : List UInt8} (hname : s.findName name = none) :
    (s.qcomGlinkRxOpen rcid name).Counted := by
  unfold qcomGlinkRxOpen
  rw [hname]
  split_ifs
  · exact h.enterFresh hf hidle rcid name
  · exact h.putFresh hf name

theorem Counted.setCaller (hp : ∀ r, p = .sendOpen r true → s.Backed r) : (s.setCaller t p).Counted := by
  refine ⟨h.rcid_eq, h.busy, fun r hr => ?_, h.owed_lt, h.not_dropped⟩
  rcases h.backed r hr with hb | hg
  · exact .inl hb
  · by_cases hopen : p = .sendOpen r true
    · exact .inl (hp r hopen)
    · refine .inr ⟨hg.isLocal, hg.not_entered, fun t' hc => ?_⟩
      by_cases ht : t' = t
      · simp only [Edge.setCaller, ht, update_self] at hc
        exact hopen hc
      · simp only [Edge.setCaller, update_of_ne ht] at hc
        exact hg.not_opening t' hc

theorem Counted.createEpt (hf : s.Formed) (name : List UInt8) : (s.qcomGlinkCreateEpt t name).Counted := by
  unfold qcomGlinkCreateEpt
  split
  · exact h.setCaller fun r hr => by cases hr
  · refine (h.alloc hf name true).setCaller fun r hr => ?_
    obtain rfl : s.fresh = r := by simpa using hr
    rw [Backed, alloc_fresh]
    change (s.entries s.fresh : ℤ) + s.owed s.fresh ≤ 1
    rw [hf.fresh_entries, h.fresh_owed]
    decide

theorem Counted.insert (hf : s.Formed) {own : Bool} (hp : s.callers t = .sendOpen r own) :
    Counted { (s.krefGet r).setCaller t (.assign r id own) with lcids := s.lcids ++ [(id, r)] } := by
  have hrcid : ∀ r', ((s.krefGet r).objs r').rcid = (s.objs r').rcid :=
    update_proj rcid (by rfl)
  have hcnt := krefGet_refcount s r
  refine ⟨fun e he => (hrcid e.2).trans (h.rcid_eq e he), fun r' hr' => (hrcid r').symm ▸ h.busy r' hr',
    fun r' hr' => ?_, h.owed_lt, h.not_dropped⟩
  rcases h.backed r' hr' with hb | hg
  · refine .inl (hb.mono ?_)
    have hlc := entriesOf_concat s.lcids id r r'
    change ((entriesOf s.rcids r' + entriesOf (s.lcids ++ [(id, r)]) r' : ℕ) : ℤ) + s.owed r' +
      (s.objs r').refcount ≤ (entriesOf s.rcids r' + entriesOf s.lcids r' : ℕ) + s.owed r' +
        ((s.krefGet r).objs r').refcount
    rw [hcnt, hlc]
    split_ifs <;> omega
  · -- the open of a channel that was given up is over
    have hr : r ≠ r' := by
      rintro rfl
      have hloc := (hf.caller t r own (by rw [hp, chan])).2
      rw [hg.isLocal] at hloc
      exact hg.not_opening t (hloc ▸ hp)
    refine .inr ⟨((krefGet_stays s r).isLocal r').trans hg.isLocal, ?_, fun t' hc => ?_⟩
    · exact forall_mem_append.mpr ⟨hg.not_entered, forall_mem_singleton.mpr hr⟩
    · by_cases ht : t' = t
      · simp [Edge.setCaller, ht] at hc
      · simp only [Edge.setCaller, update_of_ne ht] at hc
        exact hg.not_opening t' hc

end

theorem Owned.givenUp (h : s.Owned) (hf : s.Formed) (hc : (s.callers t).chan = some (r, true))
    (hnone : ∀ e ∈ s.lcids, e.2 ≠ r) (hpc : s.callers t ≠ .sendOpen r true) : s.GivenUp r := by
  refine ⟨(hf.caller t r true hc).2, hnone, fun t' hc' => ?_⟩
  have ht := h.owner t' t r (by rw [hc', chan]) hc
  exact hpc (ht ▸ hc')

theorem Counted.release (h : s.Counted) (hf : s.Formed) (hg : s.GivenUp r)
    (hs : s.Stays ((s.krefPut r).setCaller t p)) : ((s.krefPut r).setCaller t p).Counted := by
  refine h.call hs rfl (update_proj rcid (by rfl)) rfl rfl (fun r' _ hb => ?_) ?_
  · by_cases hr : r = r'
    · exact .inr ((hr ▸ hg).stays hs)
    · refine .inl (hb.mono ?_)
      rw [show (((s.krefPut r).setCaller t p).objs r').refcount = _ from krefPut_refcount s r r',
        if_neg hr, Int.sub_zero]
      exact Int.le_refl _
  · exact krefPut_dropped h.not_dropped fun hent => absurd hent (hg.not_mem hf)

theorem Counted.place (h : s.Counted) (hs : s.Stays s') (hrc : s'.rcids = s.rcids)
    (hrcid : ∀ r, (s'.objs r).rcid = (s.objs r).rcid) (hwork : s'.work = s.work) (hirq : s'.irq = s.irq)
    (hlc : ∀ r, entriesOf s'.lcids r ≤ entriesOf s.lcids r)
    (hcnt : ∀ r, (s.objs r).refcount ≤ (s'.objs r).refcount) (hdrop : s'.dropped = s.dropped) :
    s'.Counted :=
  h.call hs hrc hrcid hwork hirq
    (fun r _ hb => .inl (hb.call hrc hwork hirq (hlc r) (hcnt r)))
    (hdrop.trans h.not_dropped)

theorem Counted.caller (h : s.Counted) (hf : s.Formed) (ho : s.Owned) {env : CallerEnv}
    (hs : s.callerStep t env = some s') : s'.Counted := by
  have hpl := ho.placed t
  have hmoves := callerStep_moves hs
  rcases hmoves.stays with hsty | ⟨r, id, own, hp, rfl⟩
  swap
  · exact h.insert hf hp
  cases hmoves with
  | goes =>
    exact h.place hsty rfl (fun _ => rfl) rfl rfl (fun _ => Nat.le_refl _) (fun _ => Int.le_refl _) rfl
  | @noId r own hp =>
    refine h.place hsty rfl (update_proj rcid (by rfl)) rfl rfl (fun _ => Nat.le_refl _)
      (fun r' => ?_) rfl
    rw [show (((s.krefGet r).setCaller t (giveUp own r)).objs r').refcount = _ from
      krefGet_refcount s r r']
    split_ifs <;> omega
  | insert hp => exact h.insert hf hp
  | assign =>
    exact h.place hsty rfl (update_proj rcid (by rfl)) rfl rfl (fun _ => Nat.le_refl _)
      (fun r' => Int.le_of_eq (update_proj refcount (by rfl) r').symm) rfl
  | notSent =>
    exact h.place hsty rfl (update_proj rcid (by rfl)) rfl rfl
      (entriesOf_idrRemove_le s.lcids _)
      (fun r' => Int.le_of_eq (update_proj refcount (by rfl) r').symm) rfl
  | timedOut =>
    exact h.place hsty rfl (fun _ => rfl) rfl rfl (entriesOf_idrRemove_le s.lcids _)
      (fun _ => Int.le_refl _) rfl
  | put hp =>
    rcases hp with ⟨hp, rfl⟩ | ⟨hp, rfl⟩
    all_goals
      rw [hp] at hpl
      exact h.release hf (ho.givenUp hf (by rw [hp, chan]) hpl (by simp [hp])) hsty

structure Kept (s : Edge) : Prop where
  formed : s.Formed
  owned : s.Owned
  counted : s.Counted

theorem kept_start : start.Kept := ⟨formed_start, owned_start, counted_start⟩

/-- References are kept by every step that is matched. -/
theorem kept_step {op : EdgeOp} (h : s.Kept) (hok : s.Matched op) (hs : s.step op = some s') : s'.Kept := by
  obtain ⟨hf, ho, hc⟩ := h
  suffices hboth : s'.Owned ∧ s'.Counted from ⟨formed_step hf hs, hboth.1, hboth.2⟩
  cases op with
  | rxOpen rcid name =>
    simp only [step, ite_none_right_eq_some, some.injEq] at hs
    have hfind : (s.markAsked name).findName name = none := by
      have hname := findName_none hok
      simp only [findName, map_eq_none_iff, find?_eq_none, decide_eq_true_eq]
      intro e he
      rw [(markAsked_objs s name e.2).1]
      exact hname e he
    have hmark : (s.markAsked name).Owned := by
      refine ho.mono rfl (fun _ he => he) fun e _ _ => ?_
      simp only [markAsked]
      split_ifs <;> rfl
    have hformed := hf.markAsked name
    exact hs.2 ▸ ⟨hmark.rxOpen hformed, (hc.markAsked name).rxOpen hformed hs.1 hfind⟩
  | rxClose rcid =>
    simp only [step, ite_none_right_eq_some, some.injEq] at hs
    exact hs.2 ▸ rxClose_inv ho hc hs.1 rcid
  | rxCloseAck lcid =>
    simp only [step, ite_none_right_eq_some, some.injEq] at hs
    exact hs.2 ▸ rxCloseAck_inv ho hc hf hs.1 hok
  | work registered => exact work_inv ho hc hf hs
  | rxOpenAck lcid => exact rxOpenAck_inv ho hc hf hs
  | irq => exact irq_inv ho hc hf hs
  | createEpt t name =>
    simp only [step, ite_none_right_eq_some, some.injEq] at hs
    exact hs.2 ▸ ⟨ho.createEpt hf name, hc.createEpt hf name⟩
  | caller t env => exact ⟨ho.caller hf hs, hc.caller hf ho hs⟩

end Edge

instance (s : Edge) : ∀ op, Decidable (s.Matched op)
  | .rxOpen _ name => inferInstanceAs (Decidable (s.findName name = none))
  | .rxCloseAck lcid =>
    inferInstanceAs (Decidable (∀ e ∈ s.lcids, e.1 = lcid → (s.objs e.2).lcid = lcid))
  | .caller _ _ | .rxClose _ | .work _ | .rxOpenAck _ | .irq | .createEpt _ _ => .isTrue trivial

/-- Over every run in which OPEN names no channel in `rcids` and CLOSE_ACK addresses channels by the ids they
hold, no reference count becomes zero while the channel is in a table. -/
theorem glink_channel_lifetime (ops : List EdgeOp) (hok : Meets step Edge.Matched start ops)
    (s : Edge) (hrun : run step start ops = some s) : s.dropped = false :=
  (run_inv (fun _ _ _ h hok hs => kept_step h hok hs) kept_start hok hrun).counted.not_dropped

def openedAndClosed : List EdgeOp :=
  [.rxOpen 7 [65], .work true, .createEpt 0 [65], .caller 0 ⟨false, none, true⟩,
    .caller 0 ⟨false, some 1, true⟩, .caller 0 ⟨false, none, true⟩, .caller 0 ⟨false, none, true⟩,
    .rxOpenAck 1, .irq, .caller 0 ⟨false, none, true⟩, .rxCloseAck 1, .work true, .rxClose 7, .work true,
    .work true]

/-- A remote channel gets an endpoint and is closed at both ends. -/
theorem glink_channel_lifetime_closed :
    Meets step Edge.Matched start openedAndClosed ∧
      ∃ s, run step start openedAndClosed = some s ∧
        ((s.objs 0).refcount = 0 ∧ ¬s.Entered 0) ∧ s.dropped = false := by
  have hok : Meets step Edge.Matched start openedAndClosed := by decide
  exact ⟨hok, _, rfl, by decide, glink_channel_lifetime openedAndClosed hok _ rfl⟩

def openedTwice : List EdgeOp :=
  [.rxOpen 7 [65], .work true, .rxOpen 8 [65], .rxClose 8, .work true, .work true]

/-- OPEN comes twice for one name, and the second id is closed. -/
theorem glink_channel_dropped :
    ∃ s, run step start openedTwice = some s ∧ (s.objs 0).refcount = 0 ∧ s.rcids = [(7, 0)] ∧ s.dropped = true :=
  ⟨_, rfl, by decide⟩

end VendorKernel.Glink

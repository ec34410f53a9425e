import VendorKernel.Glink.DeliveryStream

/-! GLINK links with intents: each intent is with one party at a time, and fragments are sent to
an intent only while it is with the thread that sends them. -/
namespace VendorKernel.Glink

open Machine RingBuffer Reassembly Function List Reply RxChannel

def Place.Carries : Place → Prop
  | .sending _ | .flying => True
  | _ => False

namespace Exchange

/-- Intent `id` of channel `c` is at place `p`, as both ends and the commands between them have it. -/
structure Token (s : Exchange) (st st' : ℕ × ℕ → Option (List UInt8 × ℕ)) (c id : ℕ) (p : Place) :
    Prop where
  riid : ∀ t ∈ s.riids c, t.id = id → p ≠ .unused ∧ p ≠ .offered
  riid_free : s.abortTx = false → ∀ t ∈ s.riids c, t.id = id → t.inUse = false → p = .free
  riid_size : ∀ t ∈ s.riids c, t.id = id → ∀ intent, (s.rx c).liids id = some intent → intent.size = t.size
  listed : p ≠ .unused → p ≠ .offered → ∃ t ∈ s.riids c, t.id = id
  promised : p = .offered → ∃ size, .intent c id size ∈ s.replies
  offered : ∀ size, .intent c id size ∈ s.replies → p = .offered ∧
    ∀ intent, (s.rx c).liids id = some intent → intent.size = size
  done : ∀ reuse, .rxDone c id reuse ∈ s.replies → p = .done reuse
  empty : p = .offered ∨ p = .free ∨ p = .done true → ∃ intent, (s.rx c).liids id = some intent ∧ intent.message = []
  small : ∀ intent, (s.rx c).liids id = some intent → intent.size < 2 ^ 32
  carried : p.Carries → ∃ intent, (s.rx c).liids id = some intent ∧
    intent.message = (st (c, id)).elim [] Prod.fst ∧
    ∀ d ∈ s.cmds, d.key = (c, id) → d.fragment.total ≤ intent.size
  rests : ¬p.Carries → st (c, id) = none ∧ ∀ d ∈ s.cmds, d.key ≠ (c, id)
  unfinished : ∀ i, p = .sending i → ∀ d ∈ s.cmds, d.key = (c, id) → d.leftSize ≠ 0
  sender : s.abortTx = false → ∀ i m offset, s.senders i = .sending c m id offset →
    p = .sending i ∧ st' (c, id) = progress m.bytes offset ∧
    ∀ intent, (s.rx c).liids id = some intent → m.len ≤ intent.size
  held : id ∈ (s.rx c).held → p = .busy

/-- Every intent is at one place. At most one message at a time is on its way to an intent. -/
structure Tokens (s : Exchange) (place : ℕ × ℕ → Place)
    (st st' : ℕ × ℕ → Option (List UInt8 × ℕ)) : Prop where
  token : ∀ c id, s.Token st st' c id (place (c, id))
  replies : (s.replies.map key).Nodup
  last : s.cmds.Pairwise fun d e => d.key = e.key → d.leftSize ≠ 0

structure Untouched (s s' : Exchange) (c id : ℕ) : Prop where
  abortTx : s'.abortTx = s.abortTx
  riids : ∀ t, t.id = id → (t ∈ s'.riids c ↔ t ∈ s.riids c)
  replies : ∀ r, r.key = (c, id) → (r ∈ s'.replies ↔ r ∈ s.replies)
  liids : (s'.rx c).liids id = (s.rx c).liids id
  cmds : ∀ d ∈ s'.cmds, d.key = (c, id) → d ∈ s.cmds
  senders : ∀ i m offset, s'.senders i = .sending c m id offset → s.senders i = .sending c m id offset
  held : id ∈ (s'.rx c).held → id ∈ (s.rx c).held

variable {s s' : Exchange} {st st' st₁ st₁' : ℕ × ℕ → Option (List UInt8 × ℕ)} {place : ℕ × ℕ → Place} {p : Place}
  {i c id offset len k c' id' size : ℕ} {m : Payload} {riids : List RemoteIntent} {inUse reuse : Bool}
  {t : RemoteIntent}

/-- What does not touch an intent leaves it at its place. -/
theorem Token.frame (h : s.Token st st' c id p) (hu : s.Untouched s' c id)
    (hst : st₁ (c, id) = st (c, id)) (hst' : st₁' (c, id) = st' (c, id)) :
    s'.Token st₁ st₁' c id p where
  riid t ht hid := h.riid t ((hu.riids t hid).mp ht) hid
  riid_free hab t ht hid := h.riid_free (hu.abortTx ▸ hab) t ((hu.riids t hid).mp ht) hid
  riid_size t ht hid := by
    rw [hu.liids]
    exact h.riid_size t ((hu.riids t hid).mp ht) hid
  listed hunused hoff2 := by
    obtain ⟨t, ht, hid⟩ := h.listed hunused hoff2
    exact ⟨t, (hu.riids t hid).mpr ht, hid⟩
  promised hp := by
    obtain ⟨size, hr⟩ := h.promised hp
    exact ⟨size, (hu.replies _ rfl).mpr hr⟩
  offered size hr := by
    rw [hu.liids]
    exact h.offered size ((hu.replies _ rfl).mp hr)
  done reuse hr := h.done reuse ((hu.replies _ rfl).mp hr)
  empty := by
    rw [hu.liids]
    exact h.empty
  small := by
    rw [hu.liids]
    exact h.small
  carried hp := by
    obtain ⟨intent, hint, hmsg, htot⟩ := h.carried hp
    rw [hu.liids, hst]
    exact ⟨intent, hint, hmsg, fun d hd hk => htot d (hu.cmds d hd hk) hk⟩
  rests hp := by
    rw [hst]
    exact ⟨(h.rests hp).1, fun d hd hk => (h.rests hp).2 d (hu.cmds d hd hk) hk⟩
  unfinished i hp d hd hk := h.unfinished i hp d (hu.cmds d hd hk) hk
  sender hab i m offset hi := by
    rw [hst', hu.liids]
    exact h.sender (hu.abortTx ▸ hab) i m offset (hu.senders i m offset hi)
  held hid := h.held (hu.held hid)

theorem Tokens.update (h : s.Tokens place st st')
    (hoth : ∀ c' id', (c', id') ≠ (c, id) → s.Untouched s' c' id')
    (hst : ∀ k ≠ (c, id), st₁ k = st k ∧ st₁' k = st' k)
    (hown : s'.Token st₁ st₁' c id p) (hrep : (s'.replies.map key).Nodup)
    (hlast : s'.cmds.Pairwise fun d e => d.key = e.key → d.leftSize ≠ 0) :
    s'.Tokens (update place (c, id) p) st₁ st₁' := by
  refine ⟨fun c' id' => ?_, hrep, hlast⟩
  by_cases hk : (c', id') = (c, id)
  · cases hk
    rw [update_self]
    exact hown
  · rw [update_of_ne hk]
    exact (h.token c' id').frame (hoth c' id' hk) (hst _ hk).1 (hst _ hk).2

theorem pickIntent_spec :
    ∀ {best : Option RemoteIntent} {intent : RemoteIntent}, pickIntent len best riids = some intent →
      best = some intent ∨ intent ∈ riids ∧ len ≤ intent.size ∧ intent.inUse = false := by
  induction riids with
  | nil => exact fun h => .inl h
  | cons tmp riids ih =>
    intro best intent h
    unfold pickIntent at h
    grind

theorem mem_setInUse (h : t ∈ setInUse riids id inUse) :
    (∃ t₀ ∈ riids, t₀.id = t.id ∧ t₀.size = t.size) ∧ (t.id = id → t.inUse = inUse) := by
  obtain ⟨t₀, ht₀, rfl⟩ := mem_map.mp h
  grind

theorem mem_setInUse_of_ne (hne : t.id ≠ id) : t ∈ setInUse riids id inUse ↔ t ∈ riids := by
  simp only [setInUse, mem_map]
  grind

theorem exists_setInUse (id : ℕ) (inUse : Bool) (h : ∃ t ∈ riids, t.id = k) :
    ∃ t ∈ setInUse riids id inUse, t.id = k := by
  obtain ⟨t, ht, hid⟩ := h
  refine ⟨_, mem_map_of_mem ht, ?_⟩
  split_ifs <;> exact hid

theorem untouched_sender {sender : Sender} (hk : (c', id') ≠ (c, id))
    (hsnd : ∀ m offset, sender ≠ .sending c' m id' offset) (hriids : ∀ t, t.id ≠ id → (t ∈ riids ↔ t ∈ s.riids c)) :
    s.Untouched ((s.setSender i sender).setRiids c riids) c' id' := by
  refine ⟨rfl, fun t hid => ?_, fun _ _ => Iff.rfl, rfl, fun _ hd _ => hd, fun j m offset hj => ?_,
    fun hid => hid⟩
  · by_cases hc : c' = c
    · subst hc
      simp only [setRiids, update_self]
      exact hriids t fun he => hk (by rw [← hid, he])
    · simp only [setRiids, update_of_ne hc]
      rfl
  · by_cases hji : j = i
    · simp only [setRiids, setSender, hji, update_self] at hj
      exact absurd hj (hsnd m offset)
    · simpa only [setRiids, setSender, update_of_ne hji] using hj

namespace Tokens

variable {rest rs : List Reply} {ch' : RxChannel}

section
variable (h : s.Tokens place st st')
include h

variable {out : List ((ℕ × ℕ) × List UInt8)} {r : Reply}

theorem shutDown : Tokens { s with abortTx := true } place st st' := by
  refine ⟨fun c id => ?_, h.replies, h.last⟩
  have ht := h.token c id
  exact { ht with riid_free := Bool.noConfusion, sender := Bool.noConfusion }

theorem setSender {sender : Sender} (hsnd : ∀ c m id offset, sender ≠ .sending c m id offset) :
    (s.setSender i sender).Tokens place st st' := by
  refine ⟨fun c id => (h.token c id).frame ?_ rfl rfl, h.replies, h.last⟩
  refine ⟨rfl, fun _ _ => Iff.rfl, fun _ _ => Iff.rfl, rfl, fun _ hd _ => hd, fun j m offset hj => ?_,
    fun hid => hid⟩
  by_cases hji : j = i
  · simp only [hji, Exchange.setSender, update_self] at hj
    exact absurd hj (hsnd c m id offset)
  · simpa only [Exchange.setSender, update_of_ne hji] using hj

theorem aborted (hab : s.abortTx = true) (sender : Sender) (inUse : Bool) :
    Tokens ((s.setSender i sender).setRiids c (setInUse (s.riids c) id inUse)) place st st' := by
  have hmem : ∀ c' t, t ∈ Function.update s.riids c (setInUse (s.riids c) id inUse) c' →
      ∃ t₀ ∈ s.riids c', t₀.id = t.id ∧ t₀.size = t.size := by
    intro c' t ht
    by_cases hc : c' = c
    · subst hc
      rw [update_self] at ht
      exact (mem_setInUse ht).1
    · rw [update_of_ne hc] at ht
      exact ⟨t, ht, rfl, rfl⟩
  have hno : s.abortTx ≠ false := by simp [hab]
  refine ⟨fun c' id' => ?_, h.replies, h.last⟩
  have htok := h.token c' id'
  refine { htok with
    riid := fun t ht hid => ?_, riid_free := fun hfalse => absurd hfalse hno
    riid_size := fun t ht hid => ?_, listed := fun hu ho => ?_
    sender := fun hfalse => absurd hfalse hno }
  · obtain ⟨t₀, ht₀, hid₀, -⟩ := hmem c' t ht
    exact htok.riid t₀ ht₀ (hid₀.trans hid)
  · obtain ⟨t₀, ht₀, hid₀, hsize⟩ := hmem c' t ht
    rw [← hsize]
    exact htok.riid_size t₀ ht₀ (hid₀.trans hid)
  · simp only [setRiids, update_apply]
    split_ifs with hc
    · subst hc
      exact exists_setInUse id inUse (htok.listed hu ho)
    · exact htok.listed hu ho

/-- The sending end takes a free intent. -/
theorem pick (hfe : Feeds st (s.cmds.map DataCmd.fragment) st' out) (ht : t ∈ s.riids c)
    (hfree : t.inUse = false) (hlen : m.len ≤ t.size) :
    ∃ place', Tokens ((s.setSender i (.sending c m t.id 0)).setRiids c
      (setInUse (s.riids c) t.id true)) place' st st' := by
  cases hab : s.abortTx with
  | true => exact ⟨place, h.aborted hab _ true⟩
  | false =>
    have htok := h.token c t.id
    have hpc : place (c, t.id) = .free := htok.riid_free hab t ht rfl hfree
    rw [hpc] at htok
    obtain ⟨hst, hcmds⟩ := htok.rests (by simp [Place.Carries])
    have hst' : st' (c, t.id) = none := by
      rw [hfe.eq_of_forall_ne fun f hf => ?_, hst]
      obtain ⟨d, hd, rfl⟩ := mem_map.mp hf
      exact hcmds d hd
    refine ⟨_, h.update (p := .sending i) (fun c' id' hk => untouched_sender hk ?_
      fun _ hne => mem_setInUse_of_ne hne) (fun _ _ => ⟨rfl, rfl⟩) ?_ h.replies h.last⟩
    · rintro m' offset' he
      obtain ⟨rfl, -, rfl, -⟩ := Sender.sending.inj he
      exact hk rfl
    · have hmem : ∀ t' ∈ setInUse (s.riids c) t.id true, t'.id = t.id →
          t'.inUse = true ∧ ∃ t₀ ∈ s.riids c, t₀.id = t.id ∧ t₀.size = t'.size := by
        intro t' ht' hid
        obtain ⟨⟨t₀, ht₀, hid₀, hsize⟩, huse⟩ := mem_setInUse ht'
        exact ⟨huse hid, t₀, ht₀, hid₀.trans hid, hsize⟩
      have hlst := exists_setInUse t.id true ⟨t, ht, rfl⟩
      cases htok
      constructor
      all_goals
        simp only [setRiids, Exchange.setSender, update_apply]
        grind [Place.Carries, progress_zero]

theorem push (hab : s.abortTx = false) (hi : s.senders i = .sending c m id offset) (hlt : offset < m.len)
    (sent : ℕ → List Payload) :
    ∃ place', Tokens
      { s.setSender i (nextSender c m id offset) with cmds := s.cmds ++ [dataCmd c m id offset], sent := sent }
      place' st (Function.update st' (c, id) (progress m.bytes (offset + (dataCmd c m id offset).chunkSize))) := by
  have htot := dataCmd_total c id hlt
  have hle : (dataCmd c m id offset).chunkSize ≤ m.len - offset := Nat.min_le_left ..
  have hleft : (dataCmd c m id offset).leftSize = 0 ↔ ¬offset + (dataCmd c m id offset).chunkSize < m.len := by
    rw [dataCmd_left c id hlt]
    omega
  have htok := h.token c id
  obtain ⟨hpc, -, hsize⟩ := htok.sender hab i m offset hi
  rw [hpc] at htok
  have hnext : nextSender c m id offset = if (dataCmd c m id offset).leftSize = 0 then .idle else
      .sending c m id (offset + (dataCmd c m id offset).chunkSize) := by
    rw [nextSender, ← ite_not]
    exact if_congr hleft.symm rfl rfl
  refine ⟨_, h.update
    (p := if (dataCmd c m id offset).leftSize = 0 then .flying else .sending i)
    (fun c' id' hk => ?_) (fun k hk => ⟨rfl, update_of_ne hk ..⟩) ?_ h.replies ?_⟩
  · refine ⟨rfl, fun _ _ => Iff.rfl, fun _ _ => Iff.rfl, rfl, fun d hd hd' => ?_,
      fun j m' offset' hj => ?_, fun hid => hid⟩
    · rcases mem_append.mp hd with hold | hnew
      · exact hold
      · rw [mem_singleton.mp hnew] at hd'
        exact absurd hd'.symm hk
    · simp only [Exchange.setSender, update_apply, hnext] at hj
      grind
  · cases htok
    constructor
    all_goals
      simp only [Exchange.setSender, update_apply]
      grind [Place.Carries]
  · refine pairwise_append.mpr ⟨h.last, pairwise_singleton .., fun d hd e he hk => ?_⟩
    rw [mem_singleton.mp he] at hk
    exact htok.unfinished i rfl d hd hk

theorem fail (hab : s.abortTx = false) (hfe : Feeds st (s.cmds.map DataCmd.fragment) st' out)
    (hi : s.senders i = .sending c m id 0) :
    Tokens ((s.setSender i .idle).setRiids c (setInUse (s.riids c) id false))
      (Function.update place (c, id) .free) st st' := by
  have htok := h.token c id
  obtain ⟨hpc, hst, -⟩ := htok.sender hab i m 0 hi
  rw [hpc] at htok
  obtain ⟨hnone, hcmds⟩ := hfe.eq_none_of_unfinished (hst.trans (progress_zero _)) fun f hf hk => by
    obtain ⟨d, hd, rfl⟩ := mem_map.mp hf
    exact htok.unfinished i rfl d hd hk
  have hcmds' : ∀ d ∈ s.cmds, d.key ≠ (c, id) := fun d hd => hcmds _ (mem_map_of_mem hd)
  refine h.update (fun c' id' hk => untouched_sender hk (by simp) fun _ hne => mem_setInUse_of_ne hne)
    (fun _ _ => ⟨rfl, rfl⟩) ?_ h.replies h.last
  have hmem : ∀ t' ∈ setInUse (s.riids c) id false, t'.id = id →
      ∃ t₀ ∈ s.riids c, t₀.id = id ∧ t₀.size = t'.size := by
    intro t' ht' hid
    obtain ⟨⟨t₀, ht₀, hid₀, hsize⟩, -⟩ := mem_setInUse ht'
    exact ⟨t₀, ht₀, hid₀.trans hid, hsize⟩
  have hlst := exists_setInUse id false (htok.listed (by simp) (by simp))
  cases htok
  constructor
  all_goals
    simp only [setRiids, Exchange.setSender, update_apply]
    grind [Place.Carries]

theorem other_replies (hrep : s.replies = r :: rest) :
    (rest.map key).Nodup ∧ (∀ r' ∈ rest, r'.key ≠ r.key) ∧ ∀ r', r'.key ≠ r.key → (r' ∈ rest ↔ r' ∈ s.replies) := by
  have hnd := h.replies
  rw [hrep, map_cons, nodup_cons] at hnd
  refine ⟨hnd.2, fun r' hr' he => hnd.1 (mem_map.mpr ⟨r', hr', he⟩), fun r' hne => ?_⟩
  rw [hrep, mem_cons, or_iff_right]
  rintro rfl
  exact hne rfl

theorem untouched_reply (hrep : s.replies = r :: rest) (hr : r.key = (c, id))
    (hriids : ∀ t, t.id ≠ id → (t ∈ riids ↔ t ∈ s.riids c)) (hk : (c', id') ≠ (c, id)) :
    s.Untouched { s.setRiids c riids with replies := rest } c' id' := by
  obtain ⟨-, -, hoth⟩ := h.other_replies hrep
  refine ⟨rfl, fun t hid => ?_, fun r' hr' => hoth r' (by rw [hr, hr']; exact hk), rfl,
    fun _ hd _ => hd, fun _ _ _ hj => hj, fun hid => hid⟩
  by_cases hc : c' = c
  · subst hc
    simp only [setRiids, update_self]
    exact hriids t fun he => hk (by rw [← hid, he])
  · simp only [setRiids, update_of_ne hc]

theorem handleIntent (hrep : s.replies = .intent c id size :: rest) :
    Tokens { s.setRiids c (qcomGlinkHandleIntent (s.riids c) id size) with replies := rest }
      (Function.update place (c, id) .free) st st' := by
  have htok := h.token c id
  obtain ⟨hpc, hsize⟩ := htok.offered size (hrep ▸ mem_cons_self ..)
  rw [hpc] at htok
  have hnew : ¬(s.riids c).any (fun tmp => tmp.id = id) = true := fun hany => by
    obtain ⟨t, ht, hid⟩ := any_eq_true.mp hany
    exact (htok.riid t ht (of_decide_eq_true hid)).2 rfl
  have hmem : ∀ t, t ∈ qcomGlinkHandleIntent (s.riids c) id size ↔ t = ⟨id, size, false⟩ ∨ t ∈ s.riids c := by
    intro t
    rw [qcomGlinkHandleIntent, if_neg hnew, mem_orderedInsert]
  obtain ⟨hrest, hkeys, -⟩ := h.other_replies hrep
  refine h.update (fun c' id' hk => h.untouched_reply hrep rfl (fun t hne => ?_) hk)
    (fun _ _ => ⟨rfl, rfl⟩) ?_ hrest h.last
  · grind
  · have hlst : ∃ t ∈ qcomGlinkHandleIntent (s.riids c) id size, t.id = id :=
      ⟨⟨id, size, false⟩, (hmem _).mpr (.inl rfl), rfl⟩
    cases htok
    constructor
    all_goals
      simp only [setRiids, update_self]
      grind [Place.Carries, key]

theorem handleRxDone (hrep : s.replies = .rxDone c id reuse :: rest) :
    Tokens { s.setRiids c (qcomGlinkHandleRxDone (s.riids c) id reuse) with replies := rest }
      (Function.update place (c, id) (if reuse then .free else .unused)) st st' := by
  have htok := h.token c id
  have hpc := htok.done reuse (hrep ▸ mem_cons_self ..)
  rw [hpc] at htok
  obtain ⟨hrest, hkeys, -⟩ := h.other_replies hrep
  refine h.update (fun c' id' hk => h.untouched_reply hrep rfl (fun t hne => ?_) hk)
    (fun _ _ => ⟨rfl, rfl⟩) ?_ hrest h.last
  · cases reuse with
    | true => exact mem_setInUse_of_ne hne
    | false => simp [qcomGlinkHandleRxDone, hne]
  · have hmem : ∀ t' ∈ qcomGlinkHandleRxDone (s.riids c) id reuse, t'.id = id →
        reuse = true ∧ ∃ t₀ ∈ s.riids c, t₀.id = id ∧ t₀.size = t'.size := by
      intro t' ht' hid
      cases reuse with
      | true =>
        obtain ⟨⟨t₀, ht₀, hid₀, hsize⟩, -⟩ := mem_setInUse ht'
        exact ⟨rfl, t₀, ht₀, hid₀.trans hid, hsize⟩
      | false => simp [qcomGlinkHandleRxDone, hid] at ht'
    have hlst : reuse = true → ∃ t ∈ qcomGlinkHandleRxDone (s.riids c) id reuse, t.id = id := by
      rintro rfl
      exact exists_setInUse id false (htok.listed (by simp) (by simp))
    cases htok
    constructor
    all_goals
      simp only [setRiids, update_self]
      grind [Place.Carries, key]

end

theorem untouched_rx (hk : (c', id') ≠ (c, id)) (hli : ∀ id' ≠ id, ch'.liids id' = (s.rx c).liids id')
    (hheld : ∀ id' ∈ ch'.held, id' = id ∨ id' ∈ (s.rx c).held) (hrs : ∀ r ∈ rs, r.key = (c, id)) :
    s.Untouched (s.setRx c (ch', rs)) c' id' := by
  have hid : c' = c → id' ≠ id := by
    rintro rfl rfl
    exact hk rfl
  refine ⟨rfl, fun _ _ => Iff.rfl, fun r hr => ?_, ?_, fun _ hd _ => hd, fun _ _ _ hj => hj, ?_⟩
  · simp only [setRx, mem_append, or_iff_left_iff_imp]
    exact fun hmem => absurd (hr.symm.trans (hrs r hmem)) hk
  · by_cases hc : c' = c
    · simp only [hc, setRx, update_self]
      exact hli id' (hid hc)
    · simp only [setRx, update_of_ne hc]
  · by_cases hc : c' = c
    · simp only [hc, setRx, update_self]
      exact fun hmem => (hheld id' hmem).resolve_left (hid hc)
    · simp only [setRx, update_of_ne hc]
      exact fun hmem => hmem

section
variable (h : s.Tokens place st st')
include h

theorem releases (hpc : place (c, id) = .busy) (hr : RxChannel.Releases c id (s.rx c) ch' rs p) :
    Tokens (s.setRx c (ch', rs)) (Function.update place (c, id) p) st st' := by
  have htok := h.token c id
  rw [hpc] at htok
  have hkey : ∀ r ∈ rs, r.key = (c, id) := by
    rcases hr.out with ⟨rfl, -⟩ | ⟨reuse, rfl, -⟩
    · simp
    · simp [key]
  have hfs : ∀ r ∈ s.replies, r.key ≠ (c, id) := by
    intro r hmem he
    cases r with
    | intent c' id' size =>
      cases he
      cases (htok.offered size hmem).1
    | rxDone c' id' reuse =>
      cases he
      cases htok.done reuse hmem
  refine h.update (fun c' id' hk => untouched_rx hk hr.other hr.held hkey) (fun _ _ => ⟨rfl, rfl⟩) ?_ ?_ h.last
  · have hsize := hr.size
    have hout := hr.out
    cases htok
    constructor
    all_goals
      simp only [setRx, update_self]
      grind [Place.Carries, key]
  · simp only [setRx, map_append]
    rcases hr.out with ⟨rfl, -⟩ | ⟨reuse, rfl, -⟩
    · simpa using h.replies
    · refine nodup_append.mpr ⟨h.replies, by simp, ?_⟩
      simpa [key] using fun r hr => hfs r hr

theorem keeps (hk : (s.rx c).Keeps ch') : Tokens (s.setRx c (ch', [])) place st st' := by
  refine ⟨fun c' id' => (h.token c' id').frame ?_ rfl rfl, by simpa [setRx] using h.replies, h.last⟩
  refine ⟨rfl, fun _ _ => Iff.rfl, fun r _ => by simp [setRx], ?_, fun _ hd _ => hd, fun _ _ _ hj => hj, ?_⟩
  · by_cases hc : c' = c
    · simp only [hc, setRx, update_self, hk.liids]
    · simp only [setRx, update_of_ne hc]
  · by_cases hc : c' = c
    · simp only [hc, setRx, update_self]
      exact hk.held id'
    · simp only [setRx, update_of_ne hc]
      exact fun hmem => hmem

theorem alloc (hnew : ¬s.Known c id) {intent : Intent} (hmsg : intent.message = [])
    (hsm : intent.size < 2 ^ 32) :
    Tokens (s.setRx c ((s.rx c).setIntent id (some intent), [.intent c id intent.size]))
      (Function.update place (c, id) .offered) st st' := by
  have htok := h.token c id
  have hpc : place (c, id) = .unused := by
    by_contra hne
    by_cases hoff2 : place (c, id) = .offered
    · obtain ⟨size, hr⟩ := htok.promised hoff2
      exact hnew (.inr ⟨_, hr, rfl⟩)
    · exact hnew (.inl (htok.listed hne hoff2))
  have hfs : ∀ r ∈ s.replies, r.key ≠ (c, id) := fun r hr he => hnew (.inr ⟨r, hr, he⟩)
  refine h.update (fun c' id' hk => untouched_rx hk (fun id' hne => update_of_ne hne ..)
    (fun id' hid' => .inr hid') (by simp [key])) (fun _ _ => ⟨rfl, rfl⟩) ?_ ?_ h.last
  · cases htok
    constructor
    all_goals
      simp only [setRx, update_self, liids_setIntent, held_setIntent]
      grind [Place.Carries, key]
  · simp only [setRx, map_append]
    refine nodup_append.mpr ⟨h.replies, by simp, ?_⟩
    simpa [key] using fun r hr => hfs r hr

/-- A fragment is appended to the intent. -/
theorem receive {d : DataCmd} {rest : List DataCmd} (hcmds : s.cmds = d :: rest) {intent new : Intent}
    (hint : (s.rx d.lcid).liids d.iid = some intent)
    (hmsg : new.message = d.fragment.joined (st d.key)) (hsize : new.size = intent.size) :
    ∃ place', Tokens
        { s.setRx d.lcid ((s.rx d.lcid).setIntent d.iid (some new), []) with cmds := rest }
        place' (Function.update st d.key (d.fragment.gather (st d.key))) st' ∧
      (d.leftSize = 0 → place' d.key = .busy) := by
  have hmem : d ∈ s.cmds := hcmds ▸ mem_cons_self ..
  have htok := h.token d.lcid d.iid
  generalize place (d.lcid, d.iid) = p at htok
  have hcar : p.Carries := by
    by_contra hno
    exact (htok.rests hno).2 d hmem rfl
  have hlast := h.last
  rw [hcmds, pairwise_cons] at hlast
  have hrest : ∀ e ∈ rest, e ∈ s.cmds := fun e he => hcmds ▸ mem_cons_of_mem d he
  refine ⟨_, h.update (p := if d.leftSize = 0 then .busy else p)
    (fun c' id' hk => ?_) (fun k hk => ⟨update_of_ne hk .., rfl⟩) ?_
    (by simpa [setRx] using h.replies) hlast.2, fun hleft => ?_⟩
  · have hu : s.Untouched (s.setRx d.lcid ((s.rx d.lcid).setIntent d.iid (some new), [])) c' id' :=
      untouched_rx hk (fun id' hne => update_of_ne hne ..) (fun id' hid' => .inr hid') (by simp)
    exact { hu with cmds := fun e he _ => hrest e he }
  · have hkey : d.key = (d.lcid, d.iid) := rfl
    have hgather : d.fragment.gather (st d.key) =
        if d.leftSize = 0 then none else some (new.message, d.fragment.total) := by
      rw [Fragment.gather, hmsg, DataCmd.fragment_left]
    have hmore : ∀ i, p = .sending i → d.leftSize ≠ 0 := fun i hp => htok.unfinished i hp d hmem rfl
    cases htok
    cases p with
    | unused | offered | free | busy | done reuse => cases hcar
    | sending i | flying =>
      constructor
      all_goals
        simp only [setRx, update_self, liids_setIntent, held_setIntent, append_nil, hkey] at *
        grind [Place.Carries]
  · rw [DataCmd.key, update_self, if_pos hleft]

end

end Tokens

end Exchange

end VendorKernel.Glink

import VendorKernel.Glink.Delivery

/-! The receiving end of a GLINK link: what a fragment does to its intent, and how an intent with a complete
message goes through the queue, the callback and the clients. -/
namespace VendorKernel.Glink

open Machine RingBuffer Reassembly List RxItem DataCmd Fragment Function

variable {intent : Intent}

def DataCmd.key (d : DataCmd) : ℕ × ℕ := (d.lcid, d.iid)

def DataCmd.fragment (d : DataCmd) : Fragment (ℕ × ℕ) UInt8 :=
  ⟨d.key, d.offset, slice d.payload 0 d.chunkSize, d.leftSize⟩

@[simp] theorem DataCmd.fragment_key (d : DataCmd) : d.fragment.key = d.key := rfl

@[simp] theorem DataCmd.fragment_left (d : DataCmd) : d.fragment.left = d.leftSize := rfl

theorem DataCmd.fragment_total (d : DataCmd) : d.fragment.total = d.offset + d.chunkSize + d.leftSize := by
  simp [fragment, total]

def Intent.message (intent : Intent) : List UInt8 := slice intent.bytes 0 intent.offset

theorem Intent.message_of_offset (h : intent.offset = 0) : intent.message = [] := by
  rw [Intent.message, h, slice]

/-- A fragment that continues the message fits behind it. -/
theorem Intent.append_joined {d : DataCmd} {g : Option (List UInt8 × ℕ)}
    (hmsg : intent.message = g.elim [] Prod.fst) (hcont : d.fragment.Continues g)
    (htot : d.fragment.total ≤ intent.size) (hsize : intent.size < 2 ^ 32) :
    ¬intent.room < d.chunkSize ∧ (intent.append d.payload d.chunkSize).message = d.fragment.joined g := by
  have hofs : intent.offset = d.offset := by
    have hlen : intent.offset = (g.elim [] Prod.fst).length := by
      rw [← hmsg, Intent.message, slice_length]
    cases g with
    | none => exact hlen.trans (Eq.symm hcont)
    | some p => exact hlen.trans hcont.1
  rw [fragment_total] at htot
  constructor
  · rw [Intent.room, subSize_of_le (by omega) (by omega)]
    omega
  · have hend : u32 (intent.offset + d.chunkSize) = intent.offset + d.chunkSize :=
      u32_of_lt (by omega)
    simp only [joined, ← hmsg, Intent.message, Intent.append, hend]
    exact slice_memcpy_append ..

def RxItem.messages (liids : ℕ → Option Intent) : RxItem → List (List UInt8)
  | .intent id => (liids id).toList.map Intent.message
  | .buffer buf => [buf.message]
  | .done _ _ => []

def RxItem.intentId : RxItem → Option ℕ
  | .intent id => some id
  | .buffer _ => none
  | .done id _ => some id

namespace RxChannel

variable {ch : RxChannel} {id : ℕ}

def items (ch : RxChannel) : List RxItem := ch.thread.toList ++ ch.rxQueue

def arrived (ch : RxChannel) : List (List UInt8) :=
  ch.delivered.map Payload.bytes ++ ch.items.flatMap (RxItem.messages ch.liids)

def held (ch : RxChannel) : List ℕ := ch.items.filterMap RxItem.intentId ++ ch.deferIntents

/-- No intent is held twice; an intent whose RX_DONE is to be sent is empty if it is used again. -/
structure Sorted (ch : RxChannel) : Prop where
  nodup : ch.held.Nodup
  complete : ∀ id, .intent id ∈ ch.items → ∃ intent, ch.liids id = some intent
  done : ∀ id, .done id true ∈ ch.items → ∃ intent, ch.liids id = some intent ∧ intent.message = []
  deferred : ∀ id ∈ ch.deferIntents, ∃ intent, ch.liids id = some intent

theorem sorted_new : new.Sorted := by
  constructor <;> simp [new, held, items]

theorem mem_held_of_intent (h : .intent id ∈ ch.items) : id ∈ ch.held :=
  mem_append_left _ (mem_filterMap.mpr ⟨_, h, rfl⟩)

section
variable (id : ℕ) (x : Option Intent)

@[simp] theorem items_setIntent : (ch.setIntent id x).items = ch.items := rfl

@[simp] theorem held_setIntent : (ch.setIntent id x).held = ch.held := rfl

@[simp] theorem liids_setIntent : (ch.setIntent id x).liids id = x :=
  update_self ..

end

theorem Sorted.setIntent (h : ch.Sorted) (hid : id ∉ ch.held) (x : Option Intent) : (ch.setIntent id x).Sorted := by
  have hoth : ∀ id' ∈ ch.held, (ch.setIntent id x).liids id' = ch.liids id' := by
    intro id' hid'
    exact update_of_ne (ne_of_mem_of_not_mem hid' hid) ..
  refine ⟨h.nodup, fun id' hmem => ?_, fun id' hmem => ?_, fun id' hmem => ?_⟩
  · rw [hoth id' (mem_held_of_intent hmem)]
    exact h.complete id' hmem
  · rw [hoth id' (mem_append_left _ (mem_filterMap.mpr ⟨_, hmem, rfl⟩))]
    exact h.done id' hmem
  · rw [hoth id' (mem_append_right _ hmem)]
    exact h.deferred id' hmem

theorem messages_setIntent {items : List RxItem} (hid : .intent id ∉ items) (liids : ℕ → Option Intent)
    (x : Option Intent) :
    items.flatMap (RxItem.messages (update liids id x)) = items.flatMap (RxItem.messages liids) := by
  refine flatMap_congr fun item hitem => ?_
  cases item with
  | intent id' =>
    have hne : id' ≠ id := fun he => hid (he ▸ hitem)
    simp only [messages, update_of_ne hne]
  | buffer buf => rfl
  | done id' reuse => rfl

theorem arrived_setIntent (hid : id ∉ ch.held) (x : Option Intent) : (ch.setIntent id x).arrived = ch.arrived := by
  have hmessages := messages_setIntent (fun hmem => hid (mem_held_of_intent hmem)) ch.liids x
  rw [arrived, arrived, ← hmessages]
  rfl

theorem arrived_callback (intent : Intent) : (ch.callback intent).arrived.Perm (intent.message :: ch.arrived) := by
  have hone : (ch.callback intent).arrived =
      ch.delivered.map Payload.bytes ++ intent.message :: ch.items.flatMap (messages ch.liids) := by
    simp [arrived, callback, items, Payload.bytes, Intent.message]
  rw [hone]
  exact perm_middle

end RxChannel

/-- Who has an intent: one of the two ends or of the commands between them, or nobody. -/
inductive Place where
  | unused
  | offered
  | free
  | sending (i : ℕ)
  | flying
  | busy
  | done (reuse : Bool)

namespace RxChannel

variable {c id : ℕ} {ch ch' old : RxChannel} {rs : List Reply} {p : Place} {next : RxChannel × List Reply}

structure Releases (c id : ℕ) (ch ch' : RxChannel) (rs : List Reply) (p : Place) : Prop where
  sorted : ch'.Sorted
  held : ∀ id' ∈ ch'.held, id' = id ∨ id' ∈ ch.held
  other : ∀ id' ≠ id, ch'.liids id' = ch.liids id'
  size : ∀ intent, ch'.liids id = some intent → ∃ old, ch.liids id = some old ∧ intent.size = old.size
  out : rs = [] ∧ p = .busy ∨ ∃ reuse, rs = [.rxDone c id reuse] ∧ p = .done reuse ∧ id ∉ ch'.held ∧
    (reuse = true → ∃ intent, ch'.liids id = some intent ∧ intent.message = [])

theorem takeOff_liids_self (ch : RxChannel) (id : ℕ) (intent : Intent) :
    (ch.takeOff id intent).liids id =
      if intent.reuse then some { intent with offset := 0 } else none :=
  update_self ..

theorem Releases.of_takeOff (hsrt : ch.Sorted) (hid : id ∉ ch.held)
    (hint : ch.liids id = some intent) (sent : Bool) :
    Releases c id ch (ch.takeOff id intent) (rxDone c id intent.reuse sent)
      (if sent then .done intent.reuse else .busy) where
  sorted := hsrt.setIntent hid _
  held := fun id' hid' => .inr hid'
  other := fun id' hne => update_of_ne hne ..
  size := by
    intro new hnew
    rw [takeOff_liids_self] at hnew
    cases hru : intent.reuse with
    | false => simp [hru] at hnew
    | true =>
      simp only [hru, if_true, Option.some.injEq] at hnew
      exact ⟨intent, hint, by rw [← hnew]⟩
  out := by
    cases sent with
    | false => exact .inl ⟨rfl, rfl⟩
    | true =>
      refine .inr ⟨intent.reuse, rfl, rfl, hid, fun hru => ?_⟩
      rw [takeOff_liids_self, if_pos hru]
      exact ⟨_, rfl, Intent.message_of_offset rfl⟩

theorem Releases.mono (h : Releases c id ch ch' rs p) (hli : ch.liids = old.liids)
    (hheld : ∀ id' ∈ ch.held, id' ∈ old.held) : Releases c id old ch' rs p := by
  refine ⟨h.sorted, fun id' hid' => (h.held id' hid').imp_right (hheld id'), fun id' hne => ?_, ?_, h.out⟩
  · rw [← hli]
    exact h.other id' hne
  · rw [← hli]
    exact h.size

structure Keeps (ch ch' : RxChannel) : Prop where
  sorted : ch'.Sorted
  held : ∀ id ∈ ch'.held, id ∈ ch.held
  liids : ch'.liids = ch.liids

section
variable (h : ch.Sorted)
include h

theorem Sorted.of_held (hli : ch'.liids = ch.liids) (hnd : ch'.held.Nodup)
    (hit : ∀ item ∈ ch'.items, item ∈ ch.items)
    (hdf : ∀ id ∈ ch'.deferIntents, ∃ intent, ch.liids id = some intent) : ch'.Sorted := by
  refine ⟨hnd, fun id hid => ?_, fun id hid => ?_, fun id hid => ?_⟩
  · rw [hli]
    exact h.complete id (hit _ hid)
  · rw [hli]
    exact h.done id (hit _ hid)
  · rw [hli]
    exact hdf id hid

theorem Sorted.enqueue (item : RxItem) (hitem : item.intentId = some id) (hid : id ∉ ch.held)
    (hcomp : item = .intent id → ∃ intent, ch.liids id = some intent)
    (hdone : item = .done id true → ∃ intent, ch.liids id = some intent ∧ intent.message = []) :
    { ch with rxQueue := ch.rxQueue ++ [item] }.Sorted ∧
      { ch with rxQueue := ch.rxQueue ++ [item] }.held.Perm (id :: ch.held) := by
  have hit : { ch with rxQueue := ch.rxQueue ++ [item] }.items = ch.items ++ [item] := by
    simp [items]
  have hperm : { ch with rxQueue := ch.rxQueue ++ [item] }.held.Perm (id :: ch.held) := by
    simp only [held, hit, filterMap_append, filterMap_cons, filterMap_nil, hitem, append_assoc, singleton_append]
    exact perm_middle
  refine ⟨⟨hperm.nodup_iff.mpr (nodup_cons.mpr ⟨hid, h.nodup⟩), fun id' hid' => ?_,
    fun id' hid' => ?_, h.deferred⟩, hperm⟩
  · rw [hit, mem_append, mem_singleton] at hid'
    rcases hid' with hold | rfl
    · exact h.complete id' hold
    · obtain rfl : id' = id := by simpa [intentId] using hitem
      exact hcomp rfl
  · rw [hit, mem_append, mem_singleton] at hid'
    rcases hid' with hold | rfl
    · exact h.done id' hold
    · obtain rfl : id' = id := by simpa [intentId] using hitem
      exact hdone rfl

theorem Sorted.defer (hid : id ∉ ch.held) (hint : ∃ intent, ch.liids id = some intent) :
    { ch with deferIntents := ch.deferIntents ++ [id] }.Sorted ∧
      { ch with deferIntents := ch.deferIntents ++ [id] }.held.Perm (id :: ch.held) := by
  have hperm : { ch with deferIntents := ch.deferIntents ++ [id] }.held.Perm (id :: ch.held) := by
    have hheld : { ch with deferIntents := ch.deferIntents ++ [id] }.held = ch.held ++ [id] :=
      (append_assoc ..).symm
    rw [hheld]
    exact perm_append_singleton ..
  have hdeferred := forall_mem_append.mpr ⟨h.deferred, forall_mem_singleton.mpr hint⟩
  exact ⟨⟨hperm.nodup_iff.mpr (nodup_cons.mpr ⟨hid, h.nodup⟩), h.complete, h.done, hdeferred⟩, hperm⟩

/-- A complete intent arrives, and is kept or released. -/
theorem handler_intent (hid : id ∉ ch.held) (hint : ch.liids id = some intent)
    (env : IrqEnv) (hnext : ch.qcomGlinkRxDataHandler c (.intent id) env = next) :
    next.1.arrived.Perm (intent.message :: ch.arrived) ∧ ∃ p, Releases c id ch next.1 next.2 p := by
  subst hnext
  by_cases hcb : env.cbIrq = true ∧ ch.rxQueue = []
  · have hcld : (ch.callback intent).Sorted := { h with }
    have harr : ∀ x, ((ch.callback intent).setIntent id x).arrived.Perm (intent.message :: ch.arrived) := by
      intro x
      have hid' : id ∉ (ch.callback intent).held := hid
      rw [arrived_setIntent hid' x]
      exact arrived_callback intent
    simp only [qcomGlinkRxDataHandler, if_pos hcb, hint]
    split_ifs with hdefers hsent
    · -- the client keeps the intent
      obtain ⟨hsrt, hheld⟩ := (hcld.setIntent hid (some { intent with offset := 0 })).defer hid ⟨_, update_self ..⟩
      refine ⟨harr _, .busy, hsrt, fun id' hid' => mem_cons.mp (hheld.mem_iff.mp hid'),
        fun id' hne => update_of_ne hne .., fun new hnew => ?_, .inl ⟨rfl, rfl⟩⟩
      obtain rfl : { intent with offset := 0 } = new := by
        simpa [callback] using hnew
      exact ⟨intent, hint, rfl⟩
    · obtain ⟨hsrt, hheld, hoth, hsize, hout⟩ :=
        Releases.of_takeOff hcld hid hint true
      exact ⟨harr _, _, hsrt, hheld, hoth, hsize, hout⟩
    · -- the intent waits in the queue for RX_DONE
      obtain ⟨hsrt, hheld, hoth, hsize, -⟩ :=
        Releases.of_takeOff (c := c) hcld hid hint false
      obtain ⟨hsrt', hheld'⟩ := hsrt.enqueue (.done id intent.reuse) rfl hid (by simp) fun hdone => by
        obtain ⟨-, hru⟩ := done.inj hdone
        rw [takeOff_liids_self, if_pos hru]
        exact ⟨_, rfl, Intent.message_of_offset rfl⟩
      refine ⟨?_, .busy, hsrt', fun id' hid' => mem_cons.mp (hheld'.mem_iff.mp hid'), hoth, hsize, .inl ⟨rfl, rfl⟩⟩
      have hone : { (ch.callback intent).takeOff id intent with
          rxQueue := ch.rxQueue ++ [done id intent.reuse] }.arrived =
            ((ch.callback intent).takeOff id intent).arrived := by
        simp [arrived, items, messages, takeOff, setIntent, callback]
      rw [hone]
      exact harr _
  · have hhandler : ch.qcomGlinkRxDataHandler c (.intent id) env =
        ({ ch with rxQueue := ch.rxQueue ++ [.intent id] }, []) := if_neg hcb
    obtain ⟨hsrt, hheld⟩ := h.enqueue (.intent id) rfl hid (fun _ => ⟨intent, hint⟩) (by simp)
    rw [hhandler]
    refine ⟨?_, .busy, hsrt, fun id' hid' => mem_cons.mp (hheld.mem_iff.mp hid'),
      fun _ _ => rfl, fun new hnew => ⟨new, hnew, rfl⟩, .inl ⟨rfl, rfl⟩⟩
    have hone : { ch with rxQueue := ch.rxQueue ++ [RxItem.intent id] }.arrived = ch.arrived ++ [intent.message] := by
      simp [arrived, items, RxItem.messages, hint]
    rw [hone]
    exact perm_append_singleton ..

theorem Sorted.taken {item : RxItem} (hthr : ch.thread = some item) :
    { ch with thread := none }.Sorted ∧
      ch.held = item.intentId.toList ++ { ch with thread := none }.held ∧
      ch.arrived.Perm (item.messages ch.liids ++ { ch with thread := none }.arrived) := by
  have hit : ch.items = item :: { ch with thread := none }.items := by simp [items, hthr]
  have hheld : ch.held = item.intentId.toList ++ { ch with thread := none }.held := by
    rw [held, held, hit]
    cases hid : item.intentId <;> simp [hid]
  refine ⟨h.of_held rfl ?_ ?_ h.deferred, hheld, ?_⟩
  · have hnd := h.nodup
    rw [hheld] at hnd
    exact (nodup_append.mp hnd).2.1
  · rw [hit]
    exact fun _ hmem => mem_cons_of_mem _ hmem
  · rw [arrived, arrived, hit, flatMap_cons, ← append_assoc, ← append_assoc]
    exact perm_append_comm.append_right _

theorem Sorted.taken_id (hheld : ch.held = id :: { ch with thread := none }.held) :
    id ∈ ch.held ∧ id ∉ { ch with thread := none }.held ∧ ∀ id' ∈ { ch with thread := none }.held, id' ∈ ch.held := by
  have hnd := h.nodup
  rw [hheld] at hnd ⊢
  exact ⟨mem_cons_self, (nodup_cons.mp hnd).1, fun _ => mem_cons_of_mem _⟩

theorem Sorted.called (hthr : ch.thread = some (.intent id))
    (hint : ch.liids id = some intent) :
    ({ ch with thread := none }.callback intent).Sorted ∧ id ∈ ch.held ∧
      id ∉ { ch with thread := none }.held ∧ (∀ id' ∈ { ch with thread := none }.held, id' ∈ ch.held) ∧
      ({ ch with thread := none }.callback intent).arrived.Perm ch.arrived := by
  obtain ⟨hsrt, hheld, harr⟩ := h.taken hthr
  obtain ⟨hmem, hid, hsub⟩ := h.taken_id hheld
  refine ⟨{ hsrt with }, hmem, hid, hsub, (arrived_callback intent).trans (List.Perm.symm ?_)⟩
  simpa [messages, hint] using harr

/-- The thread loses no message, and releases what it holds. -/
theorem thread_spec {defers sent : Bool} (hstep : ch.qcomGlinkRxThread c defers sent = some (ch', rs)) :
    ch'.arrived.Perm ch.arrived ∧ ch'.buf = ch.buf ∧
      ((rs = [] ∧ ch.Keeps ch') ∨ ∃ id ∈ ch.held, ∃ p, Releases c id ch ch' rs p) := by
  revert hstep
  fun_cases RxChannel.qcomGlinkRxThread c ch defers sent with
  | case1 => exact nofun
  | case2 hthr item rest hqu =>
    rintro ⟨⟩
    have hit : { ch with rxQueue := rest, thread := some item }.items = ch.items := by
      simp [items, hthr, hqu]
    have hheld : { ch with rxQueue := rest, thread := some item }.held = ch.held := by
      rw [held, hit]
      rfl
    refine ⟨?_, rfl, .inl ⟨rfl, ?_, fun id hid => hheld ▸ hid, rfl⟩⟩
    · rw [arrived, hit]
      exact List.Perm.refl _
    · refine h.of_held rfl (hheld ▸ h.nodup) ?_ h.deferred
      rw [hit]
      exact fun _ hmem => hmem
  | case3 id reuse hthr =>
    rintro ⟨⟩
    obtain ⟨hsrt, hheld, harr⟩ := h.taken hthr
    obtain ⟨hmem, hid, hsub⟩ := h.taken_id hheld
    refine ⟨harr.symm, rfl, .inr ⟨id, hmem, if sent then .done reuse else .busy, hsrt,
      fun id' hid' => .inr (hsub id' hid'), fun _ _ => rfl, fun new hnew => ⟨new, hnew, rfl⟩, ?_⟩⟩
    cases sent with
    | false => exact .inl ⟨rfl, rfl⟩
    | true =>
      refine .inr ⟨reuse, rfl, rfl, hid, ?_⟩
      rintro rfl
      exact h.done id (by simp [items, hthr])
  | case4 buf hthr =>
    rintro ⟨⟩
    obtain ⟨hsrt, hheld, harr⟩ := h.taken hthr
    refine ⟨(arrived_callback buf).trans harr.symm, rfl, .inl ⟨rfl,
      { hsrt with }, fun id hid => ?_, rfl⟩⟩
    rw [hheld]
    exact mem_append_right _ hid
  | case5 id hthr hnone =>
    obtain ⟨intent, hint⟩ := h.complete id (by simp [items, hthr])
    rw [hnone] at hint
    cases hint
  | case6 id hthr intent hint =>
    rintro ⟨⟩
    obtain ⟨hcld, hmem, hid, hsub, harr⟩ := h.called hthr hint
    obtain ⟨hdeferred, hheld'⟩ := hcld.defer hid ⟨intent, hint⟩
    refine ⟨harr, rfl, .inr ⟨id, hmem, .busy, hdeferred, fun id' hid' => ?_, fun _ _ => rfl,
      fun new hnew => ⟨new, hnew, rfl⟩, .inl ⟨rfl, rfl⟩⟩⟩
    exact (mem_cons.mp (hheld'.mem_iff.mp hid')).imp_right (hsub id')
  | case7 id hthr intent hint =>
    rintro ⟨⟩
    obtain ⟨hcld, hmem, hid, hsub, harr⟩ := h.called hthr hint
    have hid' : id ∉ ({ ch with thread := none }.callback intent).held := hid
    refine ⟨?_, rfl, .inr ⟨id, hmem, _, (Releases.of_takeOff hcld hid hint sent).mono rfl hsub⟩⟩
    exact (List.Perm.of_eq (arrived_setIntent hid' _)).trans harr

theorem rxDone_spec {sent : Bool} (hstep : ch.qcomGlinkRxDone c id sent = some (ch', rs)) :
    ch'.arrived = ch.arrived ∧ ch'.buf = ch.buf ∧ id ∈ ch.held ∧ ∃ p, Releases c id ch ch' rs p := by
  unfold qcomGlinkRxDone at hstep
  split_ifs at hstep with hmem
  obtain ⟨intent, hint⟩ := h.deferred id hmem
  simp only [hint] at hstep
  cases hstep
  obtain ⟨hit, hdf, hdisjoint⟩ := nodup_append.mp h.nodup
  have hid : id ∉ { ch with deferIntents := ch.deferIntents.erase id }.held := by
    intro hheld
    rcases mem_append.mp hheld with hitem | her
    · exact hdisjoint id hitem id hmem rfl
    · exact hdf.not_mem_erase her
  have hsub : ∀ id' ∈ { ch with deferIntents := ch.deferIntents.erase id }.held, id' ∈ ch.held := by
    intro id' hid'
    rcases mem_append.mp hid' with hitem | her
    · exact mem_append_left _ hitem
    · exact mem_append_right _ (mem_of_mem_erase her)
  have hsrt : { ch with deferIntents := ch.deferIntents.erase id }.Sorted := by
    refine h.of_held rfl (nodup_append.mpr ⟨hit, hdf.erase id, ?_⟩) (fun _ hitem => hitem)
      fun id' hid' => h.deferred id' (mem_of_mem_erase hid')
    exact fun a ha b hb => hdisjoint a ha b (mem_of_mem_erase hb)
  exact ⟨arrived_setIntent hid _, rfl, mem_append_right _ hmem, _,
    (Releases.of_takeOff hsrt hid hint sent).mono rfl hsub⟩

end

def completed (d : DataCmd) (g : Option (List UInt8 × ℕ)) : List (List UInt8) :=
  if d.leftSize = 0 then [d.fragment.joined g] else []

/-- The buffer of a link without intents holds what has been gathered. -/
def Gathers (buf : Option Intent) : Option (List UInt8 × ℕ) → Prop
  | none => buf = none
  | some (part, n) => ∃ intent, buf = some intent ∧ intent.message = part ∧ intent.size = n

theorem handler_buffer (h : ch.Sorted) (buf : Intent) (env : IrqEnv)
    (hnext : ch.qcomGlinkRxDataHandler c (.buffer buf) env = next) :
    next.1.arrived.Perm (buf.message :: ch.arrived) ∧ next.1.Sorted ∧ next.1.held = ch.held ∧
      next.1.buf = ch.buf ∧ next.2 = [] := by
  by_cases hcb : env.cbIrq = true ∧ ch.rxQueue = []
  · obtain rfl : (ch.callback buf, []) = next := (if_pos hcb).symm.trans hnext
    exact ⟨arrived_callback buf, { h with }, rfl, rfl, rfl⟩
  · obtain rfl : ({ ch with rxQueue := ch.rxQueue ++ [.buffer buf] }, []) = next :=
      (if_neg hcb).symm.trans hnext
    have hit : { ch with rxQueue := ch.rxQueue ++ [buffer buf] }.items = ch.items ++ [.buffer buf] := by simp [items]
    have hheld : { ch with rxQueue := ch.rxQueue ++ [buffer buf] }.held = ch.held := by
      rw [held, hit]
      simp [held, intentId]
    refine ⟨?_, ⟨hheld ▸ h.nodup, fun id hid => ?_, fun id hid => ?_, h.deferred⟩, hheld, rfl, rfl⟩
    · rw [arrived, hit]
      simpa [arrived, messages] using perm_append_singleton buf.message ch.arrived
    · exact h.complete id (by simpa [hit] using hid)
    · exact h.done id (by simpa [hit] using hid)

/-- A link without intents gathers fragments in its buffer. -/
theorem rxData_buffer (h : ch.Sorted) {d : DataCmd} {g : Option (List UInt8 × ℕ)} (hbuf : Gathers ch.buf g)
    (hcont : d.fragment.Continues g) (hsm : d.fragment.total < 2 ^ 32) (env : IrqEnv)
    (hnext : ch.qcomGlinkRxData true d env = next) :
    next.1.arrived.Perm (completed d g ++ ch.arrived) ∧ next.1.Sorted ∧ next.1.held = ch.held ∧
      Gathers next.1.buf (d.fragment.gather g) ∧ next.2 = [] := by
  -- the buffer, new or not, has the size of the message
  obtain ⟨intent, hint, hmsg, hsize⟩ : ∃ intent,
      ch.buf.getD (newBuf d.chunkSize d.leftSize) = intent ∧
        intent.message = g.elim [] Prod.fst ∧ intent.size = d.fragment.total := by
    refine ⟨_, rfl, ?_⟩
    cases g with
    | none =>
      have h0 : d.offset = 0 := hcont
      have htot : d.fragment.total = d.chunkSize + d.leftSize := by
        rw [fragment_total, h0, Nat.zero_add]
      rw [show ch.buf = none from hbuf, htot]
      exact ⟨Intent.message_of_offset rfl, u32_of_lt (htot ▸ hsm)⟩
    | some p =>
      obtain ⟨intent, hsome, hmsg, hsize⟩ := hbuf
      rw [hsome]
      exact ⟨hmsg, hsize.trans hcont.2⟩
  obtain ⟨hroom, hjoin⟩ := Intent.append_joined hmsg hcont hsize.ge (hsize ▸ hsm)
  simp only [qcomGlinkRxData, if_true, hint, if_neg hroom] at hnext
  by_cases hleft : d.leftSize = 0
  · rw [if_pos hleft] at hnext
    have hsrt : { ch with buf := none }.Sorted := { h with }
    obtain ⟨harr, hsrt, hheld, hbuf', hrep⟩ := handler_buffer hsrt _ env hnext
    refine ⟨?_, hsrt, hheld, ?_, hrep⟩
    · rw [completed, if_pos hleft, ← hjoin]
      exact harr
    · rw [gather, fragment_left, if_pos hleft]
      exact hbuf'
  · rw [if_neg hleft] at hnext
    subst hnext
    refine ⟨?_, { h with }, rfl, ?_, rfl⟩
    · rw [completed, if_neg hleft]
      exact List.Perm.refl _
    · rw [gather, fragment_left, if_neg hleft]
      exact ⟨_, rfl, hjoin, hsize⟩

end RxChannel

end VendorKernel.Glink

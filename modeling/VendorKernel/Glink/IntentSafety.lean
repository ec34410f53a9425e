import VendorKernel.Glink.Intents

/-! An intent that is not busy belongs to nobody: while the remote addresses only such intents, handler,
thread and clients never link an intent that is linked. -/
namespace VendorKernel.Glink

open Machine RingBuffer List Channel IrqPlace Function Option Nat

variable {place : IrqPlace}

variable {r s chunkSize : ℕ} {q rest : List ℕ}

def IrqPlace.owns : IrqPlace → Option ℕ
  | .idle | .callback _ | .rxDone _ => none
  | .handler r | .sendRxDone r | .requeue r => some r

theorem IrqPlace.ref_of_owns (h : place.owns = some r) : place.ref = some r := by
  cases place <;> simp_all [owns, ref]

theorem not_mem_snoc (hs : s ∉ q) (hne : s ≠ r) : s ∉ q ++ [r] :=
  not_mem_append hs fun hmem => hne (mem_singleton.mp hmem)

theorem mem_erase_or_eq (hs : s ∈ q) : s ∈ q.erase r ∨ s = r := by
  by_cases heq : s = r
  · exact .inr heq
  · exact .inl ((mem_erase_of_ne heq).mpr hs)

theorem nodup_snoc (hq : q.Nodup) (hr : r ∉ q) : (q ++ [r]).Nodup := by
  rw [← concat_eq_append]
  exact hq.concat hr

namespace Channel

def Refers (ch : Channel) (r : ℕ) : Prop :=
  r ∈ ch.rxQueue ∨ r ∈ ch.deferIntents ∨ ch.irq.ref = some r ∨ ch.thread.ref = some r ∨
    ch.buf = some r ∨ ∃ id, ch.liids id = some r

namespace Refers
variable {ch : Channel} {r id : ℕ}

theorem queue (h : r ∈ ch.rxQueue) : ch.Refers r := .inl h

theorem defer (h : r ∈ ch.deferIntents) : ch.Refers r := .inr (.inl h)

theorem irq (h : ch.irq.ref = some r) : ch.Refers r := .inr (.inr (.inl h))

theorem thread (h : ch.thread.ref = some r) : ch.Refers r := .inr (.inr (.inr (.inl h)))

theorem buf (h : ch.buf = some r) : ch.Refers r := .inr (.inr (.inr (.inr (.inl h))))

theorem liid (h : ch.liids id = some r) : ch.Refers r := .inr (.inr (.inr (.inr (.inr ⟨id, h⟩))))

end Refers

structure Linked (intentless : Bool) (ch : Channel) : Prop where
  queue_nodup : ch.rxQueue.Nodup
  defer_nodup : ch.deferIntents.Nodup
  disjoint : ∀ r ∈ ch.rxQueue, r ∉ ch.deferIntents
  irq_queue : ∀ r, ch.irq.ref = some r → r ∉ ch.rxQueue
  irq_defer : ∀ r, ch.irq.owns = some r → r ∉ ch.deferIntents
  irq_thread : ∀ r, ch.irq.ref = some r → ch.thread.ref ≠ some r
  popped : ∀ r, ch.thread = .popped r → r ∉ ch.rxQueue ∧ r ∉ ch.deferIntents
  buf : ∀ r, ch.buf = some r → r ∉ ch.rxQueue ∧ r ∉ ch.deferIntents ∧ ch.thread.ref ≠ some r
  no_buf : intentless = false → ch.buf = none
  fresh : ∀ r, ch.Refers r → r < ch.fresh

namespace Linked

variable {intentless : Bool} {ch ch' : Channel} {r : ℕ}

theorem new : new.Linked intentless := by
  constructor <;> simp [Channel.new, ref, owns, ThreadPlace.ref, Refers]

section
variable (ch : Channel) (r : ℕ)

@[simp] theorem resetOffset_fields :
    (ch.resetOffset r).irq = ch.irq ∧ (ch.resetOffset r).thread = ch.thread := ⟨rfl, rfl⟩

@[simp] theorem setCbIrqDone_fields (done : Bool) :
    (ch.setCbIrqDone r done).irq = ch.irq ∧ (ch.setCbIrqDone r done).thread = ch.thread := ⟨rfl, rfl⟩

@[simp] theorem clearData_thread : (ch.clearData r).thread = ch.thread := by
  unfold clearData
  split_ifs <;> rfl

@[simp] theorem takeOff_fields :
    (ch.takeOff r).irq = ch.irq ∧ (ch.takeOff r).thread = ch.thread ∧ (ch.takeOff r).intents = ch.intents ∧
      (ch.takeOff r).clients = ch.clients := by
  unfold takeOff
  split_ifs <;> exact ⟨rfl, rfl, rfl, rfl⟩

end

variable (h : ch.Linked intentless)
include h

theorem nodup : (ch.rxQueue ++ ch.deferIntents).Nodup :=
  nodup_append'.mpr ⟨h.queue_nodup, h.defer_nodup, h.disjoint⟩

theorem not_refers_fresh : ¬ch.Refers ch.fresh :=
  fun hr => lt_irrefl _ (h.fresh _ hr)

theorem fresh_of (hfs : r < ch.fresh) (hrefers : ∀ s ≠ r, ch'.Refers s → ch.Refers s) (s : ℕ)
    (hs : ch'.Refers s) : s < ch.fresh := by
  by_cases heq : s = r
  · exact heq ▸ hfs
  · exact h.fresh s (hrefers s heq hs)

theorem setIntent (r : ℕ) (intent : Intent) : (ch.setIntent r intent).Linked intentless :=
  { h with }

theorem clearData (r : ℕ) : (ch.clearData r).Linked intentless := by
  unfold Channel.clearData
  split_ifs
  · exact h.setIntent r _
  · exact h

theorem queue (hqu : r ∉ ch.rxQueue) (hdf : r ∉ ch.deferIntents)
    (hirq : ch.irq.ref ≠ some r) (hthr : ch.thread.ref ≠ some r) (hbuf : ch.buf ≠ some r)
    (hfs : r < ch.fresh) : Linked intentless { ch with rxQueue := ch.rxQueue ++ [r] } := by
  refine { h with
    queue_nodup := nodup_snoc h.queue_nodup hqu, irq_queue := fun s hs => ?_,
    disjoint := forall_mem_append.mpr ⟨h.disjoint, forall_mem_singleton.mpr hdf⟩,
    popped := fun s hs => ?_, buf := fun s hs => ?_, fresh := h.fresh_of hfs (by grind [Refers]) }
  · exact not_mem_snoc (h.irq_queue s hs) fun heq => hirq (heq ▸ hs)
  · have href : ch.thread.ref = some s := congrArg ThreadPlace.ref hs
    obtain ⟨hsq, hsd⟩ := h.popped s hs
    exact ⟨not_mem_snoc hsq fun heq => hthr (heq ▸ href), hsd⟩
  · obtain ⟨hsq, hrest⟩ := h.buf s hs
    exact ⟨not_mem_snoc hsq fun heq => hbuf (heq ▸ hs), hrest⟩

theorem giveToClient (hqu : r ∉ ch.rxQueue) (hdf : r ∉ ch.deferIntents)
    (hirq : ch.irq.owns ≠ some r) (hthr : ch.thread ≠ .popped r) (hbuf : ch.buf ≠ some r)
    (hfs : r < ch.fresh) :
    Linked intentless { ch with deferIntents := ch.deferIntents ++ [r] } := by
  refine { h with
    defer_nodup := nodup_snoc h.defer_nodup hdf, disjoint := fun s hs => ?_, irq_defer := fun s hs => ?_,
    popped := fun s hs => ?_, buf := fun s hs => ?_, fresh := h.fresh_of hfs (by grind [Refers]) }
  · exact not_mem_snoc (h.disjoint s hs) fun heq => hqu (heq ▸ hs)
  · exact not_mem_snoc (h.irq_defer s hs) fun heq => hirq (heq ▸ hs)
  · obtain ⟨hsq, hsd⟩ := h.popped s hs
    exact ⟨hsq, not_mem_snoc hsd fun heq => hthr (heq ▸ hs)⟩
  · obtain ⟨hsq, hsd, hsthread⟩ := h.buf s hs
    exact ⟨hsq, not_mem_snoc hsd fun heq => hbuf (heq ▸ hs), hsthread⟩

theorem grow : Linked intentless { ch with fresh := ch.fresh + 1 } :=
  { h with fresh := fun r hr => (h.fresh r hr).trans (lt_succ_self _) }

theorem queueAlloc (size : ℕ) (reuse ack : Bool) :
    (ch.qcomGlinkQueueRxIntentAlloc size reuse ack).Linked intentless := by
  have hfs := h.not_refers_fresh
  simp only [Refers, not_or] at hfs
  obtain ⟨hqu, hdf, hirq, hthr, hbuf, -⟩ := hfs
  exact (h.grow.setIntent ch.fresh _).queue hqu hdf hirq hthr hbuf (lt_succ_self _)

theorem newBuf (hmode : intentless = true) (chunkSize leftSize : ℕ) :
    (ch.newBuf chunkSize leftSize).Linked intentless := by
  have hbuf : ∀ {c : Channel}, c.Linked intentless →
      Linked intentless { c with buf := some c.fresh, fresh := c.fresh + 1 } := by
    intro c hc
    have hfs := hc.not_refers_fresh
    refine { hc.grow with
      buf := fun s hs => ?_, no_buf := by simp [hmode],
      fresh := hc.grow.fresh_of (lt_succ_self _) (by grind [Refers]) }
    obtain rfl : c.fresh = s := some.inj hs
    exact ⟨fun hs => hfs (.queue hs), fun hs => hfs (.defer hs), fun hs => hfs (.thread hs)⟩
  exact hbuf (h.setIntent ch.fresh _)

theorem irqSet (href : place.ref = some r)
    (hqu : r ∉ ch.rxQueue) (hown : place.owns = some r → r ∉ ch.deferIntents)
    (hthr : ch.thread.ref ≠ some r) (hfs : r < ch.fresh) :
    Linked intentless { ch with irq := place } := by
  have hsame : ∀ s, place.ref = some s → s = r := fun s hs => some.inj (hs.symm.trans href)
  refine { h with
    irq_queue := fun s hs => ?_, irq_defer := fun s hs => ?_, irq_thread := fun s hs => ?_,
    fresh := h.fresh_of hfs (by grind [Refers]) }
  · rw [hsame s hs]
    exact hqu
  · have heq : s = r := hsame s (ref_of_owns hs)
    rw [heq]
    exact hown (heq ▸ hs)
  · rw [hsame s hs]
    exact hthr

theorem rxFill (hidle : ch.irq = .idle) (hqu : r ∉ ch.rxQueue)
    (hdf : r ∉ ch.deferIntents) (hthr : ch.thread.ref ≠ some r) (hfs : r < ch.fresh)
    (chunkSize leftSize : ℕ) (payload : ℕ → UInt8) :
    (ch.rxFill r chunkSize leftSize payload).Linked intentless := by
  unfold Channel.rxFill
  split_ifs with hroom
  · exact h
  · have hset : Linked intentless { ch.setIntent r ((ch.intents r).append payload chunkSize) with
        irq := .handler r } :=
      (h.setIntent r _).irqSet rfl hqu (fun _ => hdf) hthr hfs
    exact { hset with }
  · rw [← hidle]
    exact { h with }

theorem not_busy {liid : ℕ} (hr : ch.liids liid = some r)
    (hok : ch.Idle liid) :
    r ∉ ch.rxQueue ∧ r ∉ ch.deferIntents ∧ ch.thread.ref ≠ some r ∧ r < ch.fresh := by
  have hbusy := hok r hr
  simp only [Busy, not_or] at hbusy
  exact ⟨hbusy.1, hbusy.2.1, hbusy.2.2.1, h.fresh r (.liid hr)⟩

theorem irqIdle : Linked intentless { ch with buf := none, irq := .idle } := by
  refine { h with
    irq_queue := nofun, irq_defer := nofun, irq_thread := nofun, buf := nofun, no_buf := fun _ => rfl,
    fresh := fun s hs => h.fresh s ?_ }
  grind [Refers, ref]

theorem handOver (hown : ch.irq.owns = some r) : (ch.handOver r).Linked intentless := by
  have hr := ref_of_owns hown
  exact h.irqIdle.queue (h.irq_queue r hr) (h.irq_defer r hown) nofun (h.irq_thread r hr) nofun (h.fresh r (.irq hr))

theorem idrRemove (id : ℕ) : Linked intentless { ch with liids := update ch.liids id none } := by
  refine { h with fresh := fun s hs => h.fresh s ?_ }
  grind [Refers, update_apply]

theorem listDel (r : ℕ) : (ch.listDel r).Linked intentless := by
  have hqu : ∀ {s}, s ∉ ch.rxQueue → s ∉ ch.rxQueue.erase r := fun hs hmem => hs (mem_of_mem_erase hmem)
  have hdf : ∀ {s}, s ∉ ch.deferIntents → s ∉ ch.deferIntents.erase r :=
    fun hs hmem => hs (mem_of_mem_erase hmem)
  refine { h with
    queue_nodup := h.queue_nodup.erase r, defer_nodup := h.defer_nodup.erase r,
    disjoint := fun s hs => hdf (h.disjoint s (mem_of_mem_erase hs)),
    irq_queue := fun s hs => hqu (h.irq_queue s hs), irq_defer := fun s hs => hdf (h.irq_defer s hs),
    popped := fun s hs => ?_, buf := fun s hs => ?_,
    fresh := fun s hs => h.fresh s (hs.imp mem_of_mem_erase (Or.imp_left mem_of_mem_erase)) }
  · obtain ⟨hsq, hsd⟩ := h.popped s hs
    exact ⟨hqu hsq, hdf hsd⟩
  · obtain ⟨hsq, hsd, hthr⟩ := h.buf s hs
    exact ⟨hqu hsq, hdf hsd, hthr⟩

theorem takeOff (r : ℕ) : (ch.takeOff r).Linked intentless := by
  unfold Channel.takeOff
  split_ifs
  · exact h.listDel r
  · exact (h.idrRemove _).listDel r

theorem not_mem_takeOff (r : ℕ) : r ∉ (ch.takeOff r).deferIntents := by
  unfold Channel.takeOff
  split_ifs <;> exact h.defer_nodup.not_mem_erase

theorem irqMove (href : place.ref = some r)
    (hirq : ch.irq.ref = some r) (hown : place.owns = some r → r ∉ ch.deferIntents) :
    Linked intentless { ch with irq := place } :=
  h.irqSet href (h.irq_queue r hirq) hown (h.irq_thread r hirq) (h.fresh r (.irq hirq))

theorem irqDefer (hirq : ch.irq = .handler r) :
    Linked intentless { ch.defer intentless r with irq := .callback r } := by
  have href : ch.irq.ref = some r := congrArg ref hirq
  have hdf : r ∉ ch.deferIntents := h.irq_defer r (congrArg owns hirq)
  have hmove : Linked intentless { ch with irq := .callback r } := h.irqMove rfl href nofun
  cases intentless with
  | true => exact hmove
  | false =>
    have hbuf : ch.buf ≠ some r := by rw [h.no_buf rfl]; exact nofun
    have hthr : ch.thread ≠ .popped r := fun hr => h.irq_thread r href (congrArg ThreadPlace.ref hr)
    exact hmove.giveToClient (h.irq_queue r href) hdf nofun hthr hbuf (h.fresh r (.irq href))

theorem pop (hqu : ch.rxQueue = r :: rest) : Linked intentless { ch with rxQueue := rest, thread := .popped r } := by
  have hmem : r ∈ ch.rxQueue := hqu ▸ mem_cons_self
  have hsub : ∀ s ∈ rest, s ∈ ch.rxQueue := fun s hs => hqu ▸ mem_cons_of_mem r hs
  obtain ⟨hnew, hnd⟩ := nodup_cons.mp (hqu ▸ h.queue_nodup)
  refine { h with
    queue_nodup := hnd, disjoint := fun s hs => h.disjoint s (hsub s hs),
    irq_queue := fun s hs hrest => h.irq_queue s hs (hsub s hrest), irq_thread := fun s hs hr => ?_,
    popped := fun s hs => ?_, buf := fun s hs => ?_,
    fresh := h.fresh_of (h.fresh r (.queue hmem)) (by grind [Refers, ThreadPlace.ref]) }
  · obtain rfl : r = s := some.inj hr
    exact h.irq_queue r hs hmem
  · obtain rfl : r = s := ThreadPlace.popped.inj hs
    exact ⟨hnew, h.disjoint r hmem⟩
  · obtain ⟨hsq, hsd, -⟩ := h.buf s hs
    refine ⟨fun hrest => hsq (hsub s hrest), hsd, fun hr => ?_⟩
    obtain rfl : r = s := some.inj hr
    exact hsq hmem

theorem threadMove {place : ThreadPlace}
    (href : place.ref = none ∨ place.ref = ch.thread.ref) (hpopped : ∀ s, place ≠ .popped s) :
    Linked intentless { ch with thread := place } := by
  have hold : ∀ s, place.ref = some s → ch.thread.ref = some s := by
    intro s hs
    rcases href with hnone | hsame
    · exact absurd (hnone.symm.trans hs) nofun
    · exact hsame ▸ hs
  refine { h with
    irq_thread := fun s hs hr => h.irq_thread s hs (hold s hr), popped := fun s hs => absurd hs (hpopped s),
    buf := fun s hs => ?_,
    fresh := fun s hs => h.fresh s (hs.imp_right (Or.imp_right (Or.imp_right (Or.imp_left (hold s))))) }
  obtain ⟨hqu, hdf, hthr⟩ := h.buf s hs
  exact ⟨hqu, hdf, fun hr => hthr (hold s hr)⟩

section
variable (hthr : ch.thread = .popped r)
include hthr

theorem threadDefer : Linked intentless { ch.defer intentless r with thread := .callback r } := by
  have href : ch.thread.ref = some r := congrArg ThreadPlace.ref hthr
  have hmove : Linked intentless { ch with thread := .callback r } :=
    h.threadMove (.inr href.symm) nofun
  cases intentless with
  | true => exact hmove
  | false =>
    obtain ⟨hqu, hdf⟩ := h.popped r hthr
    have hirq : ch.irq.owns ≠ some r := fun hr => h.irq_thread r (ref_of_owns hr) href
    have hbuf : ch.buf ≠ some r := by rw [h.no_buf rfl]; exact nofun
    exact hmove.giveToClient hqu hdf hirq nofun hbuf (h.fresh r (.thread href))

theorem putBack : Linked intentless { ch with rxQueue := r :: ch.rxQueue, thread := .idle } := by
  have href : ch.thread.ref = some r := congrArg ThreadPlace.ref hthr
  obtain ⟨hqu, hdf⟩ := h.popped r hthr
  have hidle : Linked intentless { ch with thread := .idle } := h.threadMove (.inl rfl) nofun
  refine { hidle with
    queue_nodup := nodup_cons.mpr ⟨hqu, h.queue_nodup⟩,
    disjoint := forall_mem_cons.mpr ⟨hdf, h.disjoint⟩, irq_queue := fun s hs => ?_, popped := nofun,
    buf := fun s hs => ?_, fresh := h.fresh_of (h.fresh r (.thread href)) (by grind [Refers, ThreadPlace.ref]) }
  · have hne : s ≠ r := fun heq => h.irq_thread s hs (heq ▸ href)
    exact not_mem_cons_of_ne_of_not_mem hne (h.irq_queue s hs)
  · obtain ⟨hsq, hsd, hsthread⟩ := h.buf s hs
    have hne : s ≠ r := fun heq => hsthread (heq ▸ href)
    exact ⟨not_mem_cons_of_ne_of_not_mem hne hsq, hsd, nofun⟩

theorem idrAlloc (id : ℕ) : Linked intentless { ch with liids := update ch.liids id (some r) } := by
  have hr := h.fresh r (.thread (congrArg ThreadPlace.ref hthr))
  exact { h with fresh := h.fresh_of hr (by grind [Refers, update_apply]) }

end

theorem clients (clients sentClients : List ℕ) :
    Linked intentless { ch with clients := clients, sentClients := sentClients } :=
  { h with }

end Linked

end Channel

def Intent.Within (intent : Intent) : Prop := intent.offset ≤ intent.size

theorem Intent.Within.append {intent : Intent} (h : intent.Within) (hsize : intent.size < 2 ^ 32)
    (hroom : ¬intent.room < chunkSize) (payload : ℕ → UInt8) :
    intent.offset + chunkSize ≤ intent.size ∧ (intent.append payload chunkSize).Within := by
  have hle : intent.offset ≤ intent.size := h
  rw [Intent.room, subSize_of_le hle (by omega)] at hroom
  have hsum : intent.offset + chunkSize ≤ intent.size := by omega
  refine ⟨hsum, ?_⟩
  change u32 (intent.offset + chunkSize) ≤ intent.size
  rwa [u32_of_lt (by omega)]

namespace Channel

/-- Only the offset of a zero-copy intent that is busy is outside the buffer. -/
structure Sized (intentless : Bool) (ch : Channel) : Prop where
  size_lt : ∀ r, (ch.intents r).size < 2 ^ 32
  idle_within : ∀ r, ¬ch.Busy r → (ch.intents r).Within
  irq_within : ∀ r, ch.irq.ref = some r → (ch.intents r).Within
  buf_within : ∀ r, ch.buf = some r → (ch.intents r).Within
  null_within : ∀ r, (ch.intents r).data = none → (ch.intents r).Within
  sent_within : ∀ r, ch.thread = .sentRxDone r ∨ r ∈ ch.sentClients → (ch.intents r).Within
  callback : ∀ r, ch.thread = .callback r → r ∈ ch.deferIntents ∨ r ∈ ch.clients ∨ (ch.intents r).Within
  intentless_within : intentless = true → ∀ r, (ch.intents r).Within
  inside : ∀ c ∈ ch.copies, c.offset + c.count ≤ c.size

namespace Sized

variable {intentless : Bool} {ch ch' : Channel} {r : ℕ}

theorem new : new.Sized intentless := by
  constructor <;> simp [Channel.new, blank, Intent.Within, ref]

theorem within_resetOffset (ch : Channel) (r : ℕ) : ((ch.resetOffset r).intents r).Within := by
  simp [resetOffset, Intent.Within]

theorem within_clearData (hr : (ch.intents r).Within) : ((ch.clearData r).intents r).Within := by
  unfold clearData
  split_ifs
  · simpa [Intent.Within] using hr
  · exact hr

variable (h : ch.Sized intentless)
include h

variable {intent : Intent}

theorem move (hintents : ch'.intents = ch.intents)
    (hcopies : ch'.copies = ch.copies)
    (hbusy : ∀ r, ch.Busy r → ch'.Busy r ∨ (ch.intents r).Within)
    (hirq : ∀ r, ch'.irq.ref = some r → ch.irq.ref = some r)
    (hbuf : ∀ r, ch'.buf = some r → ch.buf = some r)
    (hsent : ∀ r, ch'.thread = .sentRxDone r ∨ r ∈ ch'.sentClients →
      ch.thread = .sentRxDone r ∨ r ∈ ch.sentClients ∨ (ch.intents r).Within)
    (hcallback : ∀ r, ch'.thread = .callback r →
      r ∈ ch'.deferIntents ∨ r ∈ ch'.clients ∨ (ch.intents r).Within) : ch'.Sized intentless := by
  constructor <;> simp only [hintents, hcopies]
  case size_lt => exact h.size_lt
  case idle_within =>
    intro r hidle
    by_cases hr : ch.Busy r
    · exact (hbusy r hr).resolve_left hidle
    · exact h.idle_within r hr
  case irq_within => exact fun r hr => h.irq_within r (hirq r hr)
  case buf_within => exact fun r hr => h.buf_within r (hbuf r hr)
  case null_within => exact h.null_within
  case sent_within =>
    intro r hr
    rcases hsent r hr with hthr | hcli | hwin
    · exact h.sent_within r (.inl hthr)
    · exact h.sent_within r (.inr hcli)
    · exact hwin
  case callback => exact hcallback
  case intentless_within => exact h.intentless_within
  case inside => exact h.inside

theorem update (hsize : intent.size < 2 ^ 32) (hwin : (ch.intents r).Within → intent.Within)
    (hdata : intent.data = none → intent.Within) : (ch.setIntent r intent).Sized intentless := by
  have hupd : ∀ {s}, (ch.intents s).Within → ((ch.setIntent r intent).intents s).Within := by
    intro s hs
    simp only [setIntent, update_apply]
    split_ifs with heq
    · exact hwin (heq ▸ hs)
    · exact hs
  refine { h with
    size_lt := fun s => ?_, idle_within := fun s hs => hupd (h.idle_within s hs),
    irq_within := fun s hs => hupd (h.irq_within s hs),
    buf_within := fun s hs => hupd (h.buf_within s hs), null_within := fun s hs => ?_,
    sent_within := fun s hs => hupd (h.sent_within s hs),
    callback := fun s hs => (h.callback s hs).imp_right (Or.imp_right hupd),
    intentless_within := fun hmode s => hupd (h.intentless_within hmode s) }
  · simp only [setIntent, update_apply]
    split_ifs
    · exact hsize
    · exact h.size_lt s
  · simp only [setIntent, update_apply] at hs ⊢
    split_ifs at hs ⊢
    · exact hdata hs
    · exact h.null_within s hs

theorem set (hsize : intent.size < 2 ^ 32) (hwin : intent.Within) : (ch.setIntent r intent).Sized intentless :=
  h.update hsize (fun _ => hwin) fun _ => hwin

theorem set_same (hsize : intent.size = (ch.intents r).size)
    (hofs : intent.offset = (ch.intents r).offset)
    (hdata : intent.data = none → (ch.intents r).data = none) :
    (ch.setIntent r intent).Sized intentless := by
  have hwin : (ch.intents r).Within → intent.Within := by
    intro hr
    rw [Intent.Within, hsize, hofs]
    exact hr
  exact h.update (hsize ▸ h.size_lt r) hwin fun hnone => hwin (h.null_within r (hdata hnone))

theorem resetOffset (r : ℕ) : (ch.resetOffset r).Sized intentless :=
  h.set (h.size_lt r) (zero_le _)

theorem setCbIrqDone (r : ℕ) (done : Bool) : (ch.setCbIrqDone r done).Sized intentless :=
  h.set_same rfl rfl id

theorem clearData (hr : (ch.intents r).Within) : (ch.clearData r).Sized intentless := by
  unfold Channel.clearData
  split_ifs
  · exact h.set (h.size_lt r) hr
  · exact h

theorem queueAlloc (size : ℕ) (reuse ack : Bool) :
    (ch.qcomGlinkQueueRxIntentAlloc size reuse ack).Sized intentless := by
  have hset : (ch.setIntent ch.fresh
      { blank with size := u32 size, reuse := reuse, ackPending := ack }).Sized intentless :=
    h.set (mod_lt _ (by decide)) (zero_le _)
  exact hset.move rfl rfl (fun _ hr => .inl (hr.imp_left (mem_append_left _))) (fun _ => id) (fun _ => id)
    (fun _ hr => hr.imp_right .inl) hset.callback

theorem newBuf (chunkSize leftSize : ℕ) : (ch.newBuf chunkSize leftSize).Sized intentless := by
  have hset : (ch.setIntent ch.fresh { blank with
      data := some 0, id := BUF_ID, size := u32 (chunkSize + leftSize) }).Sized intentless :=
    h.set (mod_lt _ (by decide)) (zero_le _)
  refine { hset with buf_within := fun r hr => ?_ }
  obtain rfl : ch.fresh = r := some.inj hr
  simp [Channel.newBuf, Intent.Within, blank]

theorem rxFill (hr : (ch.intents r).Within) (chunkSize leftSize : ℕ)
    (payload : ℕ → UInt8) : (ch.rxFill r chunkSize leftSize payload).Sized intentless := by
  unfold Channel.rxFill
  by_cases hroom : (ch.intents r).room < chunkSize
  · rw [if_pos hroom]
    exact h
  · rw [if_neg hroom]
    obtain ⟨hins, hwin⟩ := hr.append (h.size_lt r) hroom payload
    have hset : (ch.setIntent r ((ch.intents r).append payload chunkSize)).Sized intentless :=
      h.set (h.size_lt r) hwin
    refine { hset with irq_within := fun s hs => ?_, inside := ?_ }
    · obtain rfl : r = s := by
        split_ifs at hs
        · exact some.inj hs
        · cases hs
      simpa using hwin
    · simp only [mem_append, mem_singleton]
      rintro c (hc | rfl)
      · exact h.inside c hc
      · exact hins

/-- Zero copy is safe for an intent that is not busy. -/
theorem zeroCopy (hmode : intentless = false) (hidle : ch.irq = .idle) (hbuf : ch.buf = none)
    (hr : ¬ch.Busy r) (addr len : ℕ) :
    Sized intentless { ch.setIntent r { ch.intents r with data := some addr, offset := u32 len } with
      rxQueue := ch.rxQueue ++ [r] } := by
  have hoth : ∀ {s} {intent : Intent}, s ≠ r → (ch.intents s).Within →
      (Function.update ch.intents r intent s).Within := by
    intro s intent hne hs
    rwa [update_of_ne hne]
  constructor
  case size_lt =>
    intro s
    simp only [setIntent, update_apply]
    split_ifs
    · exact h.size_lt r
    · exact h.size_lt s
  case idle_within =>
    intro s hs
    have hne : s ≠ r := by
      rintro rfl
      exact hs (.inl (mem_append_right _ (mem_singleton_self s)))
    exact hoth hne (h.idle_within s fun hbusy => hs (hbusy.imp_left (mem_append_left _)))
  case irq_within => exact fun s hs => absurd ((congrArg ref hidle).symm.trans hs) nofun
  case buf_within => exact fun s hs => absurd (hbuf.symm.trans hs) nofun
  case null_within =>
    intro s hs
    have hne : s ≠ r := by
      rintro rfl
      exact nomatch (congrArg Intent.data (update_self ..)).symm.trans hs
    refine hoth hne (h.null_within s ?_)
    rwa [← update_of_ne hne _ ch.intents]
  case sent_within =>
    intro s hs
    have hbusy : ch.Busy s := by
      rcases hs with hthr | hcli
      · exact .inr (.inr (.inl (congrArg ThreadPlace.ref hthr)))
      · exact .inr (.inr (.inr (.inr hcli)))
    exact hoth (fun heq => hr (heq ▸ hbusy)) (h.sent_within s hs)
  case callback =>
    intro s hs
    have hbusy : ch.Busy s := .inr (.inr (.inl (congrArg ThreadPlace.ref hs)))
    exact (h.callback s hs).imp_right (Or.imp_right (hoth fun heq => hr (heq ▸ hbusy)))
  case intentless_within => simp [hmode]
  case inside => exact h.inside

theorem handOver (r : ℕ) : (ch.handOver r).Sized intentless := by
  exact h.move rfl rfl (fun _ hs => .inl (hs.imp_left (mem_append_left _))) nofun nofun
    (fun _ hs => hs.imp_right .inl) h.callback

theorem defer (r : ℕ) : (ch.defer intentless r).Sized intentless := by
  cases intentless with
  | true => exact h
  | false =>
    exact h.move rfl rfl (fun _ hs => .inl (hs.imp_right (Or.imp_left (mem_append_left _))))
      (fun _ => id) (fun _ => id) (fun _ hs => hs.imp_right .inl)
      fun s hs => (h.callback s hs).imp_left (mem_append_left _)

theorem irqMove
    (href : place.ref = none ∨ place.ref = ch.irq.ref) {buf : Option ℕ}
    (hbuf : buf = none ∨ buf = ch.buf) :
    Sized intentless { ch with buf := buf, irq := place } := by
  refine h.move rfl rfl (fun s hs => .inl hs) (fun s hs => ?_) (fun s hs => ?_)
    (fun _ hs => hs.imp_right .inl) h.callback
  · rcases href with hnone | hsame
    · exact absurd (hnone.symm.trans hs) nofun
    · exact hsame ▸ hs
  · rcases hbuf with hnone | hsame
    · exact absurd (hnone.symm.trans hs) nofun
    · exact hsame ▸ hs

theorem takeOff {clients : List ℕ} (hsub : ∀ s ∈ ch.clients, s ∈ clients)
    (hr : ch.thread = .rxDone r ∨ r ∈ clients ∨ (ch.intents r).Within) :
    Sized intentless { ch.takeOff r with clients := clients } := by
  have hdel : ∀ {c : Channel}, c.Sized intentless → (∀ s ∈ c.clients, s ∈ clients) →
      (c.thread = .rxDone r ∨ r ∈ clients ∨ (c.intents r).Within) →
      Sized intentless { c.listDel r with clients := clients } := by
    intro c hc hsub hcr
    refine hc.move rfl rfl (fun s hs => ?_) (fun _ => id) (fun _ => id)
      (fun _ hs => hs.imp_right .inl) fun s hs => ?_
    · by_cases heq : s = r
      · rw [heq]
        rcases hcr with hthr | hcli | hwin
        · exact .inl (.inr (.inr (.inl (congrArg ThreadPlace.ref hthr))))
        · exact .inl (.inr (.inr (.inr (.inl hcli))))
        · exact .inr hwin
      · refine .inl (hs.imp (mem_erase_of_ne heq).mpr (Or.imp (mem_erase_of_ne heq).mpr ?_))
        exact Or.imp_right (Or.imp_left (hsub s))
    · by_cases heq : s = r
      · rw [heq] at hs ⊢
        rcases hcr with hthr | hcli | hwin
        · exact absurd (hthr.symm.trans hs) nofun
        · exact .inr (.inl hcli)
        · exact .inr (.inr hwin)
      · exact (hc.callback s hs).imp (mem_erase_of_ne heq).mpr (Or.imp_left (hsub s))
  unfold Channel.takeOff
  split_ifs
  · exact hdel h hsub hr
  · exact hdel { h with } hsub hr

theorem takeOff_keep
    (hr : ch.thread = .rxDone r ∨ r ∈ ch.clients ∨ (ch.intents r).Within) :
    (ch.takeOff r).Sized intentless := by
  have hkeep := h.takeOff (fun _ => id) hr
  rwa [← (Linked.takeOff_fields ch r).2.2.2] at hkeep

theorem threadMove {place : ThreadPlace}
    (hpc : ∀ r, ch.thread.ref = some r → place.ref = some r ∨ r ∈ ch.deferIntents ∨
      r ∈ ch.clients ∨ (ch.intents r).Within)
    (hsent : ∀ r, place = .sentRxDone r → (ch.intents r).Within)
    (hcallback : ∀ r, place = .callback r → r ∈ ch.deferIntents ∨ (ch.intents r).Within) :
    Sized intentless { ch with thread := place } := by
  refine h.move rfl rfl (fun s hs => ?_) (fun _ => id) (fun _ => id) (fun s hs => ?_)
    fun s hs => (hcallback s hs).imp_right .inr
  · have hs' := hpc s
    simp only [Busy] at hs ⊢
    tauto
  · exact .inr (hs.symm.imp_right (hsent s))

theorem pop (hqu : ch.rxQueue = r :: rest) (hidle : ch.thread = .idle) :
    Sized intentless { ch with rxQueue := rest, thread := .popped r } := by
  refine h.move rfl rfl (fun s hs => .inl ?_) (fun _ => id) (fun _ => id) (fun s hs => ?_) nofun
  · simp only [Busy, hqu, hidle, ThreadPlace.ref, mem_cons] at hs ⊢
    grind
  · exact .inr (.inl (hs.resolve_left nofun))

theorem putBack (hthr : ch.thread = .popped r) :
    Sized intentless { ch with rxQueue := r :: ch.rxQueue, thread := .idle } := by
  refine h.move rfl rfl (fun s hs => .inl ?_) (fun _ => id) (fun _ => id) (fun s hs => ?_) nofun
  · simp only [Busy, hthr, ThreadPlace.ref, mem_cons] at hs ⊢
    grind
  · exact .inr (.inl (hs.resolve_left nofun))

theorem threadDefer (hthr : ch.thread = .popped r) :
    Sized intentless { ch.defer intentless r with thread := .callback r } := by
  refine (h.defer r).threadMove (by simp [hthr, ThreadPlace.ref]) (by simp) fun s hs => ?_
  obtain rfl : r = s := by simpa using hs
  cases intentless with
  | true => exact .inr (h.intentless_within rfl r)
  | false => simp [Channel.defer]

theorem clients (hr : (ch.intents r).Within) {clients sentClients : List ℕ}
    (hclients : ∀ s ∈ ch.clients, s ∈ clients ∨ s = r)
    (hsent : ∀ s ∈ ch.sentClients, s ∈ sentClients ∨ s = r)
    (hsub : ∀ s ∈ sentClients, s ∈ ch.sentClients ∨ s = r) :
    Sized intentless { ch with clients := clients, sentClients := sentClients } := by
  have hwin : ∀ {s}, s = r → (ch.intents s).Within := fun heq => heq ▸ hr
  refine h.move rfl rfl (fun s hs => ?_) (fun _ => id) (fun _ => id) (fun s hs => ?_) fun s hs => ?_
  · have hc := hclients s
    have hs' := hsent s
    simp only [Busy] at hs ⊢
    tauto
  · exact hs.imp_right fun hs => (hsub s hs).imp_right hwin
  · exact (h.callback s hs).imp_right (Or.elim · (fun hs => (hclients s hs).imp_right hwin) .inr)

end Sized

section

variable {intentless : Bool} {ch ch' : Channel} (hl : ch.Linked intentless) (h : ch.Sized intentless)
include hl h

section
variable (hidle : ch.irq = .idle) {liid : ℕ} (hok : intentless = false → ch.Idle liid)
include hidle hok

theorem rxData_inv (chunkSize leftSize : ℕ) (payload : ℕ → UInt8) :
    (ch.qcomGlinkRxData intentless liid chunkSize leftSize payload).Linked intentless ∧
      (ch.qcomGlinkRxData intentless liid chunkSize leftSize payload).Sized intentless := by
  cases intentless with
  | true =>
    cases hbuf : ch.buf with
    | some r =>
      obtain ⟨hqu, hdf, hthr⟩ := hl.buf r hbuf
      have hlt := hl.fresh r (.buf hbuf)
      simp only [qcomGlinkRxData, if_true, hbuf]
      exact ⟨hl.rxFill hidle hqu hdf hthr hlt _ _ _, h.rxFill (h.buf_within r hbuf) _ _ _⟩
    | none =>
      have hfs := hl.not_refers_fresh
      simp only [Refers, not_or] at hfs
      obtain ⟨hqu, hdf, -, hthr, -, -⟩ := hfs
      have hnew := h.newBuf chunkSize leftSize
      simp only [qcomGlinkRxData, if_true, hbuf]
      exact ⟨(hl.newBuf rfl chunkSize leftSize).rxFill hidle hqu hdf hthr (lt_succ_self _) _ _ _,
        hnew.rxFill (hnew.buf_within _ rfl) _ _ _⟩
  | false =>
    cases hr : ch.liids liid with
    | some r =>
      obtain ⟨hqu, hdf, hthr, hlt⟩ := hl.not_busy hr (hok rfl)
      simp only [qcomGlinkRxData, Bool.false_eq_true, if_false, hr]
      exact ⟨hl.rxFill hidle hqu hdf hthr hlt _ _ _, h.rxFill (h.idle_within r (hok rfl r hr)) _ _ _⟩
    | none => simpa only [qcomGlinkRxData, Bool.false_eq_true, if_false, hr] using And.intro hl h

theorem rxDataZeroCopy_inv (len : ℕ) (addr : Option ℕ) :
    (ch.qcomGlinkRxDataZeroCopy intentless liid len addr).Linked intentless ∧
      (ch.qcomGlinkRxDataZeroCopy intentless liid len addr).Sized intentless := by
  unfold qcomGlinkRxDataZeroCopy
  cases intentless with
  | true => exact ⟨hl, h⟩
  | false =>
    have hbuf := hl.no_buf rfl
    simp only [Bool.false_eq_true, if_false]
    split
    case h_1 r addr hr =>
      obtain ⟨hqu, hdf, hthr, hlt⟩ := hl.not_busy hr (hok rfl)
      split_ifs
      · exact ⟨hl, h⟩
      · exact ⟨(hl.setIntent r _).queue hqu hdf (by simp [hidle, ref]) hthr
          (by simp [setIntent, hbuf]) hlt, h.zeroCopy rfl hidle hbuf (hok rfl r hr) addr len⟩
    case h_2 => exact ⟨hl, h⟩

end

theorem handler_inv {env : IrqEnv} (hs : ch.qcomGlinkRxDataHandler intentless env = some ch') :
    ch'.Linked intentless ∧ ch'.Sized intentless := by
  revert hs
  fun_cases qcomGlinkRxDataHandler intentless ch env <;> rintro ⟨⟩
  case case2 r hirq _ => exact ⟨hl.irqDefer hirq, (h.defer r).irqMove (.inr (by simp [hirq, ref])) (.inr rfl)⟩
  case case3 r hirq _ | case10 r hirq => exact ⟨hl.handOver (by rw [hirq]; rfl), h.handOver r⟩
  case case4 r hirq _ =>
    exact ⟨(hl.setIntent r _).irqIdle, (h.resetOffset r).irqMove (.inl rfl) (.inl rfl)⟩
  case case5 r hirq _ =>
    exact ⟨(hl.setIntent r _).irqMove rfl (by simp [hirq, ref]) (by simp [owns]),
      (h.resetOffset r).irqMove (.inr (by simp [hirq, ref])) (.inr rfl)⟩
  case case6 r hirq _ => exact ⟨hl.irqIdle, h.irqMove (.inl rfl) (.inl rfl)⟩
  case case7 r hirq _ =>
    have hwin := h.irq_within r (by simp [hirq, ref])
    exact ⟨(hl.takeOff r).irqMove rfl (by simp [hirq, ref]) fun _ => hl.not_mem_takeOff r,
      (h.takeOff_keep (.inr (.inr hwin))).irqMove (.inr (by simp [hirq, ref])) (.inr rfl)⟩
  case case8 r hirq _ =>
    exact ⟨((hl.setIntent r _).clearData r).irqIdle,
      ((h.resetOffset r).clearData (Sized.within_resetOffset ch r)).irqMove (.inl rfl) (.inl rfl)⟩
  case case9 r hirq _ =>
    exact ⟨((hl.setIntent r _).setIntent r _).irqMove rfl (by simp [hirq, ref])
        fun _ => hl.irq_defer r (by simp [hirq, owns]),
      ((h.resetOffset r).setCbIrqDone r true).irqMove (.inr (by simp [hirq, ref])) (.inr rfl)⟩

/-- The thread takes no intent that is linked elsewhere. -/
theorem rxThread_inv {env : ThreadEnv} (hs : ch.qcomGlinkRxThread intentless env = some ch') :
    ch'.Linked intentless ∧ ch'.Sized intentless := by
  revert hs
  fun_cases qcomGlinkRxThread intentless ch env <;> rintro ⟨⟩
  case case2 hthr r rest hqu => exact ⟨hl.pop hqu, h.pop hqu hthr⟩
  case case3 r hthr hdata => exact ⟨hl.threadDefer hthr, h.threadDefer hthr⟩
  case case4 r hthr hdata hnone => exact ⟨hl.putBack hthr, h.putBack hthr⟩
  case case5 r hthr hdata addr id hac hfree =>
    have hwin := h.null_within r (by simpa using hdata)
    refine ⟨((hl.setIntent r _).idrAlloc hthr _).threadMove (.inl rfl) (by simp), ?_⟩
    have hset : (ch.qcomGlinkAllocIntentData r addr id).Sized intentless :=
      { @Sized.set intentless ch r h { ch.intents r with data := some addr, id := id } (h.size_lt r) hwin with }
    refine hset.threadMove (fun s hs => .inr (.inr (.inr ?_))) (by simp) (by simp)
    obtain rfl : r = s := by
      simpa [qcomGlinkAllocIntentData, hthr, ThreadPlace.ref] using hs
    simpa [qcomGlinkAllocIntentData, Intent.Within] using hwin
  case case7 r hthr hdone =>
    exact ⟨(hl.setIntent r _).threadMove (.inr (by simp [hthr, ThreadPlace.ref])) (by simp),
      (h.setCbIrqDone r false).threadMove (by simp [hthr, ThreadPlace.ref]) (by simp) (by simp)⟩
  case case8 r hthr _ _ =>
    refine ⟨hl.threadMove (.inl rfl) (by simp), h.threadMove (fun s hs => .inr ?_) (by simp) (by simp)⟩
    obtain rfl : r = s := by simpa [hthr, ThreadPlace.ref] using hs
    exact h.callback r hthr
  case case9 r hthr _ _ =>
    exact ⟨hl.threadMove (.inr (by simp [hthr, ThreadPlace.ref])) (by simp),
      h.threadMove (by simp [hthr, ThreadPlace.ref]) (by simp) (by simp)⟩
  case case10 r hthr hmode =>
    exact ⟨hl.threadMove (.inl rfl) (by simp),
      h.threadMove (fun s _ => .inr (.inr (.inr (h.intentless_within hmode s)))) (by simp) (by simp)⟩
  case case11 r hthr hmode =>
    exact ⟨(hl.takeOff r).threadMove (.inr (by simp [hthr, ThreadPlace.ref])) (by simp),
      (h.takeOff_keep (.inl hthr)).threadMove (by simp [hthr, ThreadPlace.ref]) (by simp) (by simp)⟩
  case case12 r hthr =>
    have hwin := Sized.within_resetOffset ch r
    have hset := hl.setIntent r { ch.intents r with offset := 0 }
    refine ⟨?_, (h.resetOffset r).threadMove (fun s hs => .inr (.inr (.inr ?_))) (fun s hs => ?_)
      (by split_ifs <;> simp)⟩
    · split_ifs
      · exact hset.threadMove (.inr (by simp [hthr, ThreadPlace.ref])) (by simp)
      · exact hset.threadMove (.inl rfl) (by simp)
    · obtain rfl : r = s := by simpa [hthr, ThreadPlace.ref] using hs
      exact hwin
    · obtain rfl : r = s := by
        split_ifs at hs
        exact ThreadPlace.sentRxDone.inj hs
      exact hwin
  case case13 r hthr =>
    have hwin := h.sent_within r (.inl hthr)
    refine ⟨(hl.clearData r).threadMove (.inl rfl) (by simp),
      (h.clearData hwin).threadMove (fun s hs => .inr (.inr (.inr ?_))) (by simp) (by simp)⟩
    obtain rfl : r = s := by simpa [hthr, ThreadPlace.ref] using hs
    exact Sized.within_clearData hwin

/-- Steps keep intents linked once and offsets inside. -/
theorem step_inv {op : ChannelOp} (hok : ch.Addressed intentless op)
    (hs : ch.step intentless op = some ch') : ch'.Linked intentless ∧ ch'.Sized intentless := by
  revert hs
  fun_cases step intentless ch op
  case case6 env => exact handler_inv hl h
  case case7 env => exact rxThread_inv hl h
  all_goals rintro ⟨⟩
  case case1 size reuse ack => exact ⟨hl.queueAlloc size reuse ack, h.queueAlloc size reuse ack⟩
  case case2 hidle => exact rxData_inv hl h hidle hok _ _ _
  case case4 hidle => exact rxDataZeroCopy_inv hl h hidle hok _ _
  case case8 data =>
    rw [qcomGlinkRxDone]
    split
    · exact ⟨hl, h⟩
    · exact ⟨(hl.takeOff _).clients _ _, h.takeOff (fun s hs => mem_cons_of_mem _ hs) (.inr (.inl mem_cons_self))⟩
  case case9 r sent hr =>
    have hrs := h.resetOffset r
    have hwin := Sized.within_resetOffset ch r
    refine ⟨(hl.setIntent r _).clients _ _, ?_⟩
    split_ifs
    · exact hrs.clients hwin (fun _ => mem_erase_or_eq)
        (fun _ hs => .inl (mem_cons_of_mem r hs)) fun _ hs => (mem_cons.mp hs).symm
    · exact hrs.clients hwin (fun _ => mem_erase_or_eq) (fun _ => .inl) fun _ => .inl
  case case11 r hr =>
    have hwin := h.sent_within r (.inr hr)
    have hsent : (ch.clearData r).sentClients = ch.sentClients := by
      unfold clearData
      split_ifs <;> rfl
    refine ⟨(hl.clearData r).clients _ _, (h.clearData hwin).clients (Sized.within_clearData hwin)
      (fun _ => .inl) (fun s hs => ?_) fun s hs => ?_⟩
    · exact mem_erase_or_eq (hsent ▸ hs)
    · exact .inl (hsent ▸ mem_of_mem_erase hs)

end

end Channel

abbrev Channels := ℕ → Option Channel

/-- A command for a channel that does not exist is dropped, and nobody works for such a channel. -/
def Channels.step (intentless : Bool) (s : Channels) (op : ℕ × ChannelOp) : Option Channels :=
  match s op.1 with
  | none => some s
  | some ch => (ch.step intentless op.2).map fun ch => update s op.1 (some ch)

def Channels.Addressed (intentless : Bool) (s : Channels) (op : ℕ × ChannelOp) : Prop :=
  ∀ ch ∈ s op.1, ch.Addressed intentless op.2

instance (intentless : Bool) (s : Channels) (op : ℕ × ChannelOp) :
    Decidable (s.Addressed intentless op) :=
  inferInstanceAs (Decidable (∀ ch ∈ s op.1, _))

def Channels.start (rcids : ℕ → Bool) : Channels := fun c => if rcids c then some .new else none

theorem Channels.step_inv {intentless : Bool} {s s' : Channels} {op : ℕ × ChannelOp}
    (h : ∀ c ch, s c = some ch → ch.Linked intentless ∧ ch.Sized intentless)
    (hok : s.Addressed intentless op) (hs : s.step intentless op = some s') :
    ∀ c ch, s' c = some ch → ch.Linked intentless ∧ ch.Sized intentless := by
  unfold Channels.step at hs
  cases hc : s op.1 with
  | none =>
    rw [hc] at hs
    cases hs
    exact h
  | some ch =>
    simp only [hc, map_eq_some_iff] at hs
    obtain ⟨ch', hstep, rfl⟩ := hs
    obtain ⟨hlinked, hsz⟩ := h op.1 ch hc
    intro c t ht
    by_cases hcase : c = op.1
    · subst hcase
      rw [update_self] at ht
      cases ht
      exact Channel.step_inv hlinked hsz (hok ch hc) hstep
    · rw [update_of_ne hcase] at ht
      exact h c t ht

/-- As long as the remote addresses only intents that are not busy, payload stays inside the buffers and no
intent is linked twice, at any interleaving. -/
theorem glink_rx_intents_safe (intentless : Bool) (rcids : ℕ → Bool) (ops : List (ℕ × ChannelOp))
    (s : Channels)
    (hok : Meets (Channels.step intentless) (Channels.Addressed intentless) (.start rcids) ops)
    (hrun : run (Channels.step intentless) (.start rcids) ops = some s) :
    ∀ c ch, s c = some ch → ch.Safe := by
  have hini : ∀ c ch, Channels.start rcids c = some ch → ch.Linked intentless ∧ ch.Sized intentless := by
    intro c ch hch
    simp only [Channels.start] at hch
    split_ifs at hch
    cases hch
    exact ⟨.new, .new⟩
  have hinv := run_inv (fun s op s' hi ho hs => Channels.step_inv hi ho hs) hini hok hrun
  intro c ch hch
  obtain ⟨hlinked, hsz⟩ := hinv c ch hch
  exact ⟨hsz.inside, hlinked.nodup⟩

def allocated (size id : ℕ) : List ChannelOp :=
  [.intentAlloc size true false, .thread ⟨false, true, none⟩, .thread ⟨false, true, some (64, id)⟩]

def upToRxDone : List ChannelOp :=
  replicate 5 (.thread ⟨false, true, none⟩)

def onChannel7 (ops : List ChannelOp) : List (ℕ × ChannelOp) := ops.map fun op => (7, op)

def outcome7 (ops : List ChannelOp) : Option (Option (List PayloadCopy × List ℕ)) :=
  (run (Channels.step false) (.start fun c => c == 7) (onChannel7 ops)).map fun s =>
    (s 7).map fun ch => (ch.copies, ch.rxQueue ++ ch.deferIntents)

def usedAgain : List ChannelOp :=
  allocated 16 1 ++ [.txData 1 8 4 (fun _ => 1), .txData 1 4 0 (fun _ => 2), .irq ⟨false, false, true⟩] ++
    upToRxDone ++ [.thread ⟨false, true, none⟩, .txData 1 16 0 (fun _ => 3), .irq ⟨false, false, true⟩]

/-- A message of two fragments is received, and the intent used again after RX_DONE. -/
theorem glink_rx_intents_safe_used_again :
    outcome7 usedAgain = some (some ([⟨0, 8, 16⟩, ⟨8, 4, 16⟩, ⟨0, 16, 16⟩], [0])) ∧
      ∀ s, run (Channels.step false) (.start fun c => c == 7) (onChannel7 usedAgain) = some s →
        ∀ c ch, s c = some ch → ch.Safe :=
  ⟨by decide +kernel, fun s hs => glink_rx_intents_safe false _ _ s (by decide +kernel) hs⟩

/-- A data command for a zero-copy intent that is queued copies far outside its buffer. A second data command
for a queued intent links it again. And a remote that uses a zero-copy intent as soon as it has its RX_DONE
has its address cleared by the thread. -/
theorem glink_rx_intents_unsafe :
    outcome7 (allocated 0 1 ++ [.txDataZeroCopy 1 64 (some 128), .txData 1 8 0 fun _ => 1]) =
        some (some ([⟨64, 8, 0⟩], [0])) ∧
      outcome7 (allocated 16 1 ++ [.txData 1 8 0 (fun _ => 1), .irq ⟨false, false, true⟩,
        .txData 1 8 0 (fun _ => 2), .irq ⟨false, false, true⟩]) =
        some (some ([⟨0, 8, 16⟩, ⟨8, 8, 16⟩], [0, 0])) ∧
      outcome7 (allocated 0 1 ++ [.txDataZeroCopy 1 64 (some 128)] ++ upToRxDone ++
        [.txDataZeroCopy 1 64 (some 128), .thread ⟨false, true, none⟩,
          .thread ⟨false, true, none⟩, .thread ⟨false, true, some (16, 2)⟩,
          .txData 1 8 0 fun _ => 1]) = some (some ([⟨64, 8, 0⟩], [])) := by
  decide +kernel

end VendorKernel.Glink

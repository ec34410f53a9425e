import VendorKernel.Glink.DeliveryTokens

/-! Messages over a GLINK link arrive once and as they were sent, unless fragments of different
messages are mixed on a channel of a link without intents. -/
namespace VendorKernel.Glink

open Machine RingBuffer Reassembly RxChannel List Option Payload Exchange Nat Function Bool List.Perm

namespace Exchange

variable {intentless granted : Bool} {length i c : ℕ} {s s' : Exchange} {st st' : ℕ × ℕ → Option (List UInt8 × ℕ)}
  {out : List ((ℕ × ℕ) × List UInt8)} {place : ℕ × ℕ → Place}

section
variable (hstr : Stream length s st st' out) (h : s.Tokens place st st')
include hstr h

/-- A fragment reaches the intent it was sent to. -/
theorem tokens_receive {d : DataCmd} {rest : List DataCmd} (hcmds : s.cmds = d :: rest) (env : IrqEnv) :
    ∃ place st st' out,
      Stream length { s.setRx d.lcid ((s.rx d.lcid).qcomGlinkRxData false d env) with cmds := rest } st st' out ∧
      Tokens { s.setRx d.lcid ((s.rx d.lcid).qcomGlinkRxData false d env) with cmds := rest } place st st' := by
  have hmem : d ∈ s.cmds := hcmds ▸ mem_cons_self ..
  have htok := h.token d.lcid d.iid
  have hcar : (place (d.lcid, d.iid)).Carries := by
    by_contra hno
    exact (htok.rests hno).2 d hmem rfl
  have hheld : d.iid ∉ (s.rx d.lcid).held := by
    intro hid
    rw [htok.held hid] at hcar
    exact hcar
  obtain ⟨intent, hint, hmsg, htot⟩ := htok.carried hcar
  have hcont := hstr.continues hcmds
  have hmsg' : intent.message = (st d.key).elim [] Prod.fst := hmsg
  obtain ⟨hroom, hjoin⟩ := Intent.append_joined hmsg' hcont (htot d hmem rfl) (htok.small intent hint)
  obtain ⟨place', htoks, hbusy⟩ := h.receive hcmds hint hjoin rfl
  have hsrt := (hstr.sorted d.lcid).setIntent hheld (some (intent.append d.payload d.chunkSize))
  have harr := arrived_setIntent hheld (some (intent.append d.payload d.chunkSize))
  by_cases hleft : d.leftSize = 0
  · have hnext : (s.rx d.lcid).qcomGlinkRxData false d env =
        ((s.rx d.lcid).setIntent d.iid (some (intent.append d.payload d.chunkSize))).qcomGlinkRxDataHandler
          d.lcid (.intent d.iid) env := by
      simp only [qcomGlinkRxData, false_eq_true, if_false, hint, if_neg hroom, if_pos hleft]
    rw [hnext]
    obtain ⟨harr', p, hrel⟩ := handler_intent hsrt hheld (liids_setIntent ..) env rfl
    rw [harr] at harr'
    obtain ⟨out', hrcv⟩ := hstr.receive hcmds _ (by rw [completed, if_pos hleft, ← hjoin]; exact harr') hrel.sorted
    refine ⟨update place' (d.lcid, d.iid) p, _, _, out', hrcv, ?_⟩
    have hdone := htoks.releases (hbusy hleft) (by simpa [setRx] using hrel)
    simpa [setRx] using hdone
  · have hnext : (s.rx d.lcid).qcomGlinkRxData false d env =
        ((s.rx d.lcid).setIntent d.iid (some (intent.append d.payload d.chunkSize)), []) := by
      simp only [qcomGlinkRxData, false_eq_true, if_false, hint, if_neg hroom, if_neg hleft]
    rw [hnext]
    have hperm : ((s.rx d.lcid).setIntent d.iid (some (intent.append d.payload d.chunkSize))).arrived.Perm
        (completed d (st d.key) ++ (s.rx d.lcid).arrived) := by
      rw [completed, if_neg hleft, nil_append, harr]
    obtain ⟨out', hrcv⟩ := hstr.receive hcmds (_, []) hperm hsrt
    exact ⟨place', _, _, out', hrcv, htoks⟩

theorem tokens_proceed (hs : s.proceed false length i granted = some s') :
    ∃ place st st' out, Stream length s' st st' out ∧ s'.Tokens place st st' := by
  have hval := hstr.valid i
  revert hs
  fun_cases proceed false length s i granted with
  | case1 => exact nofun
  | case2 c m hi t hpick =>
    rintro ⟨⟩
    rw [hi] at hval
    obtain ⟨ht, hlen, hfree⟩ := (pickIntent_spec hpick).resolve_left (by simp)
    have hstr' : Stream length (s.setSender i (.sending c m t.id 0)) st st' out :=
      hstr.setSender ⟨hval.1, hval.2, fun h0 => absurd h0 (lt_irrefl 0)⟩
    obtain ⟨place', hpicked⟩ := h.pick hstr.feeds ht hfree hlen
    exact ⟨place', st, st', out, { hstr' with }, hpicked⟩
  | case3 c m hi | case4 c m hi =>
    rintro ⟨⟩
    rw [hi] at hval
    refine ⟨place, st, st', out, hstr.setSender ?_, h.setSender ?_⟩
    · split_ifs
      all_goals first | exact hval | trivial
    · split_ifs <;> simp
  | case5 c m iid offset hi =>
    rintro ⟨⟩
    rw [hi] at hval
    by_cases hfail : s.abortTx = true ∨ length ≤ 16 + (dataCmd c m iid offset).chunkSize
    · rw [sendFragment_fail hfail]
      have hstr' : Stream length (s.setSender i .idle) st st' out := hstr.setSender trivial
      have hfinal : ∀ riids, Stream length ((s.setSender i .idle).setRiids c riids) st st' out :=
        fun _ => { hstr' with }
      cases hab : s.abortTx with
      | true => exact ⟨place, st, st', out, hfinal _, h.aborted hab _ false⟩
      | false =>
        obtain rfl : offset = 0 := offset_eq_zero hval (hfail.resolve_left (by simp [hab]))
        exact ⟨_, st, st', out, hfinal _, h.fail hab hstr.feeds hi⟩
    · rw [sendFragment_sent hfail]
      have hab : s.abortTx = false := by
        simpa using fun hab => hfail (.inl hab)
      obtain ⟨-, hst, -⟩ := (h.token c iid).sender hab i m offset hi
      obtain ⟨out', hpush⟩ := hstr.push hi (fun hlen => hfail (.inr hlen)) hst
      obtain ⟨place', hpushed⟩ := h.push hab hi hval.1 (update s.sent c (s.sent c ++ nextSent c m iid offset))
      exact ⟨place', st, _, out', hpush, hpushed⟩

/-- Every intent stays at one place. -/
theorem tokens_step {op : ExchangeOp} (hok : s.Orderly false op) (hs : s.step false length op = some s') :
    ∃ place st st' out, Stream length s' st st' out ∧ s'.Tokens place st st' := by
  revert hs
  fun_cases step false length s op with
  | case1 i c m hi hlen =>
    rintro ⟨⟩
    exact ⟨place, st, st', out, hstr.setSender hlen, h.setSender (by simp)⟩
  | case4 i granted => exact tokens_proceed hstr h
  | case6 c id size rest hrep =>
    rintro ⟨⟩
    exact ⟨_, st, st', out, { hstr with }, h.handleIntent hrep⟩
  | case7 c id reuse rest hrep =>
    rintro ⟨⟩
    exact ⟨_, st, st', out, { hstr with }, h.handleRxDone hrep⟩
  | case8 =>
    rintro ⟨⟩
    exact ⟨place, st, st', out, { hstr with }, h.shutDown⟩
  | case10 env d rest hcmds =>
    rintro ⟨⟩
    exact tokens_receive hstr h hcmds env
  | case11 c id size reuse hfree =>
    rintro ⟨⟩
    have hheld : id ∉ (s.rx c).held := by
      intro hid
      have hbusy := (h.token c id).held hid
      exact hok (.inl ((h.token c id).listed (by simp [hbusy]) (by simp [hbusy])))
    refine ⟨_, st, st', out, hstr.setRx (of_eq (arrived_setIntent hheld _))
      ((hstr.sorted c).setIntent hheld _), h.alloc hok (Intent.message_of_offset rfl) ?_⟩
    exact Nat.mod_lt _ (Nat.two_pow_pos 32)
  | case13 c defers sent =>
    intro hs
    obtain ⟨⟨ch', rs⟩, hthr, rfl⟩ := map_eq_some_iff.mp hs
    obtain ⟨harr, -, ⟨rfl, hkp⟩ | ⟨id, hid, p, hrel⟩⟩ :=
      thread_spec (hstr.sorted c) hthr
    · exact ⟨place, st, st', out, hstr.setRx harr hkp.sorted, h.keeps hkp⟩
    · exact ⟨_, st, st', out, hstr.setRx harr hrel.sorted, h.releases ((h.token c id).held hid) hrel⟩
  | case14 c id sent =>
    intro hs
    obtain ⟨⟨ch', rs⟩, hdone, rfl⟩ := map_eq_some_iff.mp hs
    obtain ⟨harr, -, hid, p, hrel⟩ := rxDone_spec (hstr.sorted c) hdone
    exact ⟨_, st, st', out, hstr.setRx (of_eq harr) hrel.sorted, h.releases ((h.token c id).held hid) hrel⟩
  | _ => rintro ⟨⟩

end

def Inv (intentless : Bool) (length : ℕ) (s : Exchange) : Prop :=
  ∃ st st' out, Stream length s st st' out ∧
    match intentless with
    | true => s.Buffers st st'
    | false => ∃ place, s.Tokens place st st'

theorem inv_start (intentless : Bool) (length : ℕ) : Inv intentless length start := by
  refine ⟨fun _ => none, fun _ => none, [], ⟨Feeds.nil _, fun c => List.Perm.refl _, by simp [start],
    fun _ => trivial, fun _ => sorted_new⟩, ?_⟩
  cases intentless with
  | true => constructor <;> simp [start, new, held, items, RxChannel.Gathers]
  | false =>
    refine ⟨fun _ => .unused, fun c id => ?_, by simp [start], by simp [start]⟩
    constructor <;> simp [start, new, held, items, Place.Carries]

theorem inv_step {op : ExchangeOp} (h : Inv intentless length s) (hok : s.Orderly intentless op)
    (hs : s.step intentless length op = some s') : Inv intentless length s' := by
  obtain ⟨st, st', out, hstr, hmode⟩ := h
  cases intentless with
  | true => exact buffers_step hstr hmode hok hs
  | false =>
    obtain ⟨place, htoks⟩ := hmode
    obtain ⟨place', st, st', out, hstr', htoks'⟩ := tokens_step hstr htoks hok hs
    exact ⟨st, st', out, hstr', place', htoks'⟩

theorem Stream.at_most_once (h : Stream length s st st' out) (c : ℕ) :
    ((s.rx c).delivered.map bytes).Subperm ((s.sent c).map bytes) := by
  have hsub : ((s.rx c).delivered.map bytes).Sublist ((s.rx c).arrived ++ arriving c out) :=
    (sublist_append_left ..).trans (sublist_append_left ..)
  exact hsub.subperm.trans (h.arrives c).subperm

theorem Stream.exactly_once (h : Stream length s st st' out) (hcmds : s.cmds = []) (hqu : (s.rx c).rxQueue = [])
    (hthr : (s.rx c).thread = none) : ((s.rx c).delivered.map bytes).Perm ((s.sent c).map bytes) := by
  have hout : out = [] := by
    have hfe := h.feeds
    rw [hcmds] at hfe
    cases hfe
    rfl
  have harrives := h.arrives c
  simpa [hout, arriving, arrived, items, hqu, hthr] using harrives

theorem drain_cmds (h : Inv intentless length s) :
    ∃ n s', run (step intentless length) s (replicate n (.receive ⟨false, false, false⟩)) = some s' ∧
      (Inv intentless length s' ∧ s'.sent = s.sent) ∧ s'.cmds = [] := by
  refine run_until (fun s => s.cmds.length) (fun t ht hne => ?_) ⟨h, rfl⟩
  obtain ⟨d, rest, hcmds⟩ := exists_cons_of_ne_nil hne
  have hstep : t.step intentless length (.receive ⟨false, false, false⟩) =
      some { t.setRx d.lcid ((t.rx d.lcid).qcomGlinkRxData intentless d ⟨false, false, false⟩) with
        cmds := rest } := by
    simp only [step, hcmds]
  have hok : t.Orderly intentless (.receive ⟨false, false, false⟩) := trivial
  refine ⟨_, hstep, ⟨inv_step ht.1 hok hstep, ht.2⟩, ?_⟩
  simp [hcmds]

def backlog (ch : RxChannel) : ℕ := 2 * ch.rxQueue.length + ch.thread.toList.length

/-- The receive thread works its queue off. -/
theorem thread_advances (c : ℕ) {ch : RxChannel} (h : ¬(ch.rxQueue = [] ∧ ch.thread = none)) :
    ∃ next, ch.qcomGlinkRxThread c false true = some next ∧ backlog next.1 < backlog ch := by
  cases hthr : ch.thread with
  | none =>
    cases hqu : ch.rxQueue with
    | nil => exact absurd ⟨hqu, hthr⟩ h
    | cons item rest =>
      refine ⟨({ ch with rxQueue := rest, thread := some item }, []), ?_, ?_⟩
      · simp only [qcomGlinkRxThread, hthr, hqu]
      · simp only [backlog, hthr, hqu, length_cons, toList_some, toList_none,
          length_nil]
        omega
  | some item =>
    have hlt : ∀ next : RxChannel × List Reply, next.1.rxQueue = ch.rxQueue → next.1.thread = none →
        backlog next.1 < backlog ch := by
      intro next hqu hnone
      simp [backlog, hqu, hnone, hthr]
    cases item with
    | buffer buf =>
      refine ⟨({ ch.callback buf with thread := none }, []), ?_, hlt _ rfl rfl⟩
      simp only [qcomGlinkRxThread, hthr]
    | done id reuse =>
      refine ⟨({ ch with thread := none }, rxDone c id reuse true), ?_, hlt _ rfl rfl⟩
      simp only [qcomGlinkRxThread, hthr]
    | intent id =>
      cases hint : ch.liids id with
      | none =>
        refine ⟨({ ch with thread := none }, []), ?_, hlt _ rfl rfl⟩
        simp only [qcomGlinkRxThread, hthr, hint]
      | some intent =>
        refine ⟨({ (ch.callback intent).takeOff id intent with thread := none },
          rxDone c id intent.reuse true), ?_, hlt _ rfl rfl⟩
        simp only [qcomGlinkRxThread, hthr, hint, false_eq_true, if_false]

theorem drain_queue (h : Inv intentless length s) (hcmds : s.cmds = []) (c : ℕ) :
    ∃ n s', run (step intentless length) s (replicate n (.thread c false true)) = some s' ∧
      (Inv intentless length s' ∧ s'.sent = s.sent ∧ s'.cmds = []) ∧
      ((s'.rx c).rxQueue = [] ∧ (s'.rx c).thread = none) := by
  refine run_until (fun s => backlog (s.rx c)) (fun t ht hne => ?_) ⟨h, rfl, hcmds⟩
  obtain ⟨next, hnext, hlt⟩ := thread_advances c hne
  have hstep : t.step intentless length (.thread c false true) = some (t.setRx c next) := by
    simp only [step, hnext, map_some]
  have hok : t.Orderly intentless (.thread c false true) := trivial
  refine ⟨_, hstep, ⟨inv_step ht.1 hok hstep, ht.2.1, ht.2.2⟩, ?_⟩
  simpa [setRx] using hlt

theorem Inv.intact (h : Inv intentless length s) : s.Intact intentless length := by
  obtain ⟨st, st', out, hstr, -⟩ := id h
  refine ⟨hstr.at_most_once, fun c hcmds hqu hthr => hstr.exactly_once hcmds hqu hthr,
    fun c => ?_⟩
  obtain ⟨n, s₁, hrun, ⟨hinv, hsent⟩, hcmds⟩ := drain_cmds h
  obtain ⟨n', s₂, hrun', ⟨⟨st, st', out, hstr', -⟩, hsent', hcmds'⟩, hqu, hthr⟩ :=
    drain_queue hinv hcmds c
  refine ⟨_, s₂, fun op hop => ?_, run_append hrun hrun', by rw [hsent', hsent], ?_⟩
  · rcases mem_append.mp hop with hmem | hmem
    · rw [eq_of_mem_replicate hmem]
      trivial
    · rw [eq_of_mem_replicate hmem]
      rfl
  · have honce := hstr'.exactly_once hcmds' hqu hthr
    rwa [hsent', hsent] at honce

end Exchange

instance (s : Exchange) : ∀ op, Decidable (s.Orderly false op)
  | .alloc c id _ _ => inferInstanceAs (Decidable (¬s.Known c id))
  | .proceed _ _ => .isTrue Bool.noConfusion
  | .send _ _ _ | .reply | .abortTx | .receive _ | .thread _ _ _ | .rxDone _ _ _ => .isTrue trivial

/-- Threads send messages over a link with the same driver at the other end. Messages are delivered exactly
once and unchanged, on a link with intents if ids are not given out again while the sending end knows them,
and on a link without intents if no thread begins a message on a channel while another is between two
fragments on it. -/
theorem glink_messages_intact (intentless : Bool) (length : ℕ) (ops : List ExchangeOp)
    (hok : Meets (step intentless length) (Exchange.Orderly intentless) start ops)
    (s : Exchange) (hrun : run (step intentless length) start ops = some s) :
    s.Intact intentless length :=
  (run_inv (fun _ _ _ h hok hs => inv_step h hok hs) (inv_start intentless length) hok hrun).intact

def threeBytesSent : List ExchangeOp :=
  [.alloc 0 1 16 true, .reply, .send 0 0 ⟨fun k => UInt8.ofNat k, 3⟩, .proceed 0 false,
    .proceed 0 false, .receive ⟨false, false, false⟩, .thread 0 false true, .thread 0 false true]

/-- A message of three bytes to an intent. -/
theorem glink_messages_intact_three :
    Meets (step false 64) (Exchange.Orderly false) start threeBytesSent ∧
      ∃ s, run (step false 64) start threeBytesSent = some s ∧
        (s.rx 0).delivered.map Payload.bytes = [[0, 1, 2]] ∧ s.Intact false 64 := by
  have hok : Meets (step false 64) (Exchange.Orderly false) start threeBytesSent := by
    decide
  exact ⟨hok, _, rfl, by decide, glink_messages_intact false 64 threeBytesSent hok _ rfl⟩

theorem Exchange.not_intact {intentless : Bool} {length : ℕ} {s : Exchange} (c k : ℕ)
    (h : ∃ p ∈ (s.rx c).delivered, k < p.len ∧
      ∀ m ∈ s.sent c, m.len ≠ p.len ∨ m.data k ≠ p.data k) : ¬s.Intact intentless length := by
  intro hintact
  obtain ⟨p, hp, hk, hdiffer⟩ := h
  obtain ⟨m, hm, hbs⟩ :=
    mem_map.mp ((hintact.at_most_once c).subset (mem_map_of_mem hp))
  have hlen : m.len = p.len := by
    simpa using congrArg List.length hbs
  rcases hdiffer m hm with hne | hne
  · exact hne hlen
  · rw [bytes, hlen] at hbs
    simpa using hne ((zero_add k) ▸ slice_eq_iff.mp hbs k hk)

def mixedFragments : List ExchangeOp :=
  [.send 0 0 ⟨fun _ => 1, 8193⟩, .send 1 0 ⟨fun _ => 2, 1⟩, .proceed 0 false, .proceed 1 false,
    .proceed 0 false, .receive ⟨true, false, true⟩, .receive ⟨true, false, true⟩,
    .receive ⟨true, false, true⟩]

/-- A byte of another message comes between the two fragments of a message of 8193 bytes. -/
theorem glink_messages_mixed :
    ∃ s, run (step true 65536) start mixedFragments = some s ∧
      (s.sent 0).map Payload.len = [1, 8193] ∧ (s.rx 0).delivered.map Payload.len = [8193, 1] ∧
      ¬s.Intact true 65536 := by
  exact ⟨_, rfl, by decide, by decide, not_intact 0 8192 (by decide)⟩

end VendorKernel.Glink

import VendorKernel.Qrtr.NameService

/-! Observers of the name service: what a lookup has been told, replayed, against the servers that
match it. -/
namespace VendorKernel.Qrtr

open Machine Replay List NameService Option

def QrtrLookup.Wants (lookup : QrtrLookup) (srv : QrtrServer) : Prop :=
  serverMatch srv ⟨lookup.service, lookup.inst, 0⟩ = true

instance (lookup : QrtrLookup) (srv : QrtrServer) : Decidable (lookup.Wants srv) :=
  inferInstanceAs (Decidable (_ = true))

def QrtrLookup.Knows (lookup : QrtrLookup) (srv : QrtrServer) : Prop :=
  replay lookup.sent (some srv) = true

instance (lookup : QrtrLookup) (srv : QrtrServer) : Decidable (lookup.Knows srv) :=
  inferInstanceAs (Decidable (_ = true))

theorem wants_iff (lookup : QrtrLookup) (srv : QrtrServer) :
    lookup.Wants srv ↔ ¬(lookup.service ≠ 0 ∧ lookup.service ≠ srv.service) ∧
      ¬(lookup.inst ≠ 0 ∧ lookup.inst ≠ srv.inst) := by
  unfold QrtrLookup.Wants serverMatch
  by_cases hsv : lookup.service ≠ 0 ∧ srv.service ≠ lookup.service
  · simp [hsv, Ne.symm hsv.2]
  · by_cases hinst : lookup.inst = 0
    · simp [hsv, hinst]
      grind
    · simp [hsv, hinst]
      grind

namespace NameService

variable {s : NameService} {node port : UInt32} {srv : QrtrServer}

def Informed (s : NameService) : Prop :=
  ∀ lookup ∈ s.lookups, ∀ srv, lookup.Knows srv ↔ srv ∈ s.servers ∧ lookup.Wants srv

def Unobserved (s : NameService) (srv : QrtrServer) : Prop := ∀ lookup ∈ s.lookups, ¬lookup.Wants srv

instance (s : NameService) (srv : QrtrServer) : Decidable (s.Unobserved srv) :=
  inferInstanceAs (Decidable (∀ lookup ∈ s.lookups, ¬lookup.Wants srv))

/-- If the server is added, the one it replaces on its port was unobserved; so is a new local server
whose broadcast fails. -/
def AddsTold (s : NameService) (srv : QrtrServer) (alloc announced : Bool) : Prop :=
  s.serverAdd srv alloc ≠ none →
    (∀ old ∈ s.load srv.node srv.port, old ≠ srv → s.Unobserved old) ∧
    (srv.node = s.localNode → announced = false → srv ∉ s.servers → s.Unobserved srv)

def Told (s : NameService) (msg : CtrlMsg) : Prop :=
  match msg.pkt with
  | .newServer service inst node port =>
    s.AddsTold (s.described msg.sq service inst node port) msg.alloc msg.announced
  | _ => True

def Distinct (s : NameService) : Prop :=
  ∀ srv ∈ s.servers, ∀ srv' ∈ s.servers, srv.node = srv'.node → srv.port = srv'.port → srv = srv'

theorem mem_erase : srv ∈ s.erase node port ↔ srv ∈ s.servers ∧ ¬(srv.node = node ∧ srv.port = port) := by
  simp only [erase, mem_filter, decide_eq_true_eq]

theorem load_some (h : s.load node port = some srv) : srv ∈ s.servers ∧ srv.node = node ∧ srv.port = port :=
  ⟨mem_of_find?_eq_some h, by simpa using find?_some h⟩

theorem load_none (h : s.load node port = none) : ∀ srv ∈ s.servers, ¬(srv.node = node ∧ srv.port = port) := by
  simpa [load] using h

end NameService

theorem mem_notifyLookups {lookups : List QrtrLookup} {srv : QrtrServer} {new : Bool}
    {lookup' : QrtrLookup} (h : lookup' ∈ notifyLookups lookups srv new) :
    ∃ lookup ∈ lookups, lookup' = if lookup.Wants srv then lookup.lookupNotify (some srv) new else lookup := by
  obtain ⟨lookup, hmem, rfl⟩ := mem_map.mp h
  refine ⟨lookup, hmem, ?_⟩
  have hwa := wants_iff lookup srv
  split_ifs <;> tauto

section
variable (lookup : QrtrLookup) (srv srv' : QrtrServer) (new : Bool)

theorem wants_lookupNotify :
    (lookup.lookupNotify (some srv) new).Wants srv' ↔ lookup.Wants srv' := Iff.rfl

theorem knows_lookupNotify :
    (lookup.lookupNotify (some srv) new).Knows srv' ↔
      if srv = srv' then new = true else lookup.Knows srv' := by
  unfold QrtrLookup.Knows QrtrLookup.lookupNotify
  rw [replay_concat]
  simp only [some.injEq]
  split_ifs <;> rfl

end

namespace NameService

variable {s s' : NameService} {srv : QrtrServer} {msg : CtrlMsg}

theorem mem_erase_of_load (hd : s.Distinct) {node port : UInt32} (hload : s.load node port = some srv)
    (srv' : QrtrServer) : srv' ∈ s.erase node port ↔ srv' ∈ s.servers ∧ srv' ≠ srv := by
  obtain ⟨hmem, hnode, hport⟩ := load_some hload
  rw [mem_erase]
  constructor
  · rintro ⟨hmem', hne⟩
    refine ⟨hmem', ?_⟩
    rintro rfl
    exact hne ⟨hnode, hport⟩
  · rintro ⟨hmem', hne⟩
    refine ⟨hmem', fun hslot => hne ?_⟩
    exact hd srv' hmem' srv hmem (hslot.1.trans hnode.symm) (hslot.2.trans hport.symm)

theorem load_of_mem (hd : s.Distinct) (hmem : srv ∈ s.servers) : s.load srv.node srv.port = some srv := by
  cases hload : s.load srv.node srv.port with
  | none => exact absurd ⟨rfl, rfl⟩ (load_none hload srv hmem)
  | some old =>
    obtain ⟨hmem', hnode, hport⟩ := load_some hload
    rw [hd old hmem' srv hmem hnode hport]

theorem Distinct.serverDel (hd : s.Distinct) (node port : UInt32) : (s.serverDel node port).Distinct := by
  unfold NameService.serverDel
  split
  · exact hd
  · intro srv hmem srv' hmem'
    exact hd srv (mem_erase.mp hmem).1 srv' (mem_erase.mp hmem').1

theorem Distinct.store (hd : s.Distinct) (srv : QrtrServer) : (s.store srv).Distinct := by
  intro a ha b hb hnode hport
  simp only [NameService.store, mem_append, mem_erase, mem_singleton] at ha hb
  rcases ha with ⟨ha, hne⟩ | rfl <;> rcases hb with ⟨hb, hne'⟩ | rfl
  · exact hd a ha b hb hnode hport
  · exact absurd ⟨hnode, hport⟩ hne
  · exact absurd ⟨hnode.symm, hport.symm⟩ hne'
  · rfl

theorem Informed.serverDel (h : s.Informed) (hd : s.Distinct) (node port : UInt32) :
    (s.serverDel node port).Informed := by
  unfold NameService.serverDel
  split
  · exact h
  · next srv hload =>
    intro lookup' hmem srv'
    obtain ⟨lookup, hlk, rfl⟩ := mem_notifyLookups hmem
    have hkn := h lookup hlk srv'
    have hleft := mem_erase_of_load hd hload srv'
    split_ifs with hwa
    · rw [knows_lookupNotify, wants_lookupNotify, hleft]
      split_ifs with heq
      · simp [heq]
      · simp only [hkn, ne_eq, Ne.symm heq, not_false_eq_true, and_true]
    · rw [hkn, hleft]
      constructor
      · rintro ⟨hin, hw⟩
        refine ⟨⟨hin, ?_⟩, hw⟩
        rintro rfl
        exact hwa hw
      · rintro ⟨⟨hin, -⟩, hw⟩
        exact ⟨hin, hw⟩

theorem mem_store_wanted (hd : s.Distinct) {lookup : QrtrLookup}
    (hold : ∀ old, s.load srv.node srv.port = some old → old ≠ srv → ¬lookup.Wants old) (srv' : QrtrServer) :
    srv' ∈ (s.store srv).servers ∧ lookup.Wants srv' ↔ (srv' ∈ s.servers ∨ srv' = srv) ∧ lookup.Wants srv' := by
  refine and_congr_left fun hw => ?_
  simp only [store, mem_append, mem_erase, mem_singleton]
  constructor
  · exact Or.imp_left And.left
  · rintro (hmem | rfl)
    · by_cases heq : srv' = srv
      · exact .inr heq
      · refine .inl ⟨hmem, fun hslot => ?_⟩
        exact hold srv' (hslot.1 ▸ hslot.2 ▸ load_of_mem hd hmem) heq hw
    · exact .inr rfl

section
variable (h : s.Informed)
include h

theorem Informed.newServer (hd : s.Distinct) {service inst node port : UInt32}
    (hpkt : msg.pkt = .newServer service inst node port) (hok : s.Told msg) :
    (s.ctrlCmdNewServer msg.sq service inst node port msg.alloc msg.announced).Informed := by
  simp only [Told, hpkt, AddsTold] at hok
  unfold ctrlCmdNewServer
  generalize s.described msg.sq service inst node port = srv at hok ⊢
  dsimp only
  cases hadd : s.serverAdd srv msg.alloc with
  | none => exact h
  | some s' =>
    obtain ⟨hold, hfail⟩ := hok (by simp [hadd])
    replace hold : ∀ lookup ∈ s.lookups, ∀ old, s.load srv.node srv.port = some old → old ≠ srv →
        ¬lookup.Wants old := fun lookup hlk old hload hne => hold old hload hne lookup hlk
    obtain rfl : s.store srv = s' := by
      unfold serverAdd at hadd
      split_ifs at hadd
      exact some.inj hadd
    split_ifs with hloc
    · intro lookup hlk srv'
      rw [mem_store_wanted hd (hold lookup hlk), h lookup hlk srv']
      refine and_congr_left fun hw => (or_iff_left_of_imp ?_).symm
      rintro rfl
      by_contra hnew
      exact hfail hloc.1 hloc.2 hnew lookup hlk hw
    · intro lookup' hmem srv'
      obtain ⟨lookup, hlk, rfl⟩ := mem_notifyLookups hmem
      have hsr := mem_store_wanted hd (hold lookup hlk) srv'
      have hkn := h lookup hlk srv'
      split_ifs with hwa
      · rw [knows_lookupNotify, wants_lookupNotify, hsr]
        split_ifs with heq
        · simp [← heq, hwa]
        · simp only [hkn, Ne.symm heq, or_false]
      · rw [hsr, hkn]
        refine and_congr_left fun hw => (or_iff_left_of_imp ?_).symm
        rintro rfl
        exact absurd hw hwa

theorem Informed.newLookup {sender : NsAddr} {service inst : UInt32} {alloc : Bool} :
    (s.ctrlCmdNewLookup sender service inst alloc).Informed := by
  unfold ctrlCmdNewLookup
  split_ifs
  · exact h
  · intro lookup hmem srv
    rcases mem_append.mp hmem with hmem | hmem
    · exact h lookup hmem srv
    · obtain rfl := mem_singleton.mp hmem
      have hlst := replay_map_true
        ((s.servers.filter fun srv => serverMatch srv ⟨service, inst, 0⟩).map some) (some srv)
      simp only [QrtrLookup.Knows, QrtrLookup.lookupNotify]
      rw [replay_concat]
      simpa [Function.comp_def, QrtrLookup.Wants] using hlst
  · exact h

theorem Informed.fewer {lookups : List QrtrLookup} (hsub : ∀ l ∈ lookups, l ∈ s.lookups) :
    Informed { s with lookups := lookups } :=
  fun lookup hmem => h lookup (hsub lookup hmem)

theorem Informed.bye (hd : s.Distinct) (sender : NsAddr) :
    (s.ctrlCmdBye sender).Informed ∧ (s.ctrlCmdBye sender).Distinct := by
  unfold ctrlCmdBye
  generalize s.servers.filter (fun srv => srv.node = sender.node) = gone
  induction gone generalizing s with
  | nil => exact ⟨h, hd⟩
  | cons srv gone ih =>
    exact ih (h.serverDel hd _ _) (hd.serverDel _ _)

theorem distinct_step (hd : s.Distinct) : (s.qrtrNsWorker msg).Distinct := by
  unfold qrtrNsWorker
  split
  · exact hd
  · exact hd
  · exact (h.bye hd msg.sq).2
  · next node port _ =>
    unfold ctrlCmdDelClient
    split_ifs
    · exact hd
    · exact hd
    · have hfewer : Distinct { s with lookups := s.lookups.filter fun lookup =>
          ¬(lookup.sq.node = node ∧ lookup.sq.port = port) } := hd
      exact hfewer.serverDel node port
  · unfold ctrlCmdNewServer
    dsimp only
    split
    · exact hd
    · next s' hadd =>
      unfold serverAdd at hadd
      split_ifs at hadd
      cases hadd
      split_ifs
      · exact hd.store _
      · exact hd.store _
  · unfold ctrlCmdDelServer
    dsimp only
    split_ifs
    · exact hd
    · exact hd.serverDel _ _
  · unfold ctrlCmdNewLookup
    split_ifs <;> exact hd
  · exact hd

/-- Lookups go on knowing the servers they want. -/
theorem informed_step (hd : s.Distinct) (hok : s.Told msg) : (s.qrtrNsWorker msg).Informed := by
  unfold qrtrNsWorker
  split
  · exact h
  · exact h
  · exact (h.bye hd msg.sq).1
  · unfold ctrlCmdDelClient
    split_ifs
    · exact h
    · exact h
    · exact (h.fewer fun l hl => (mem_filter.mp hl).1).serverDel hd _ _
  · next hpkt => exact h.newServer hd hpkt hok
  · unfold ctrlCmdDelServer
    dsimp only
    split_ifs
    · exact h
    · exact h.serverDel hd _ _
  · exact h.newLookup
  · exact h.fewer fun l hl => (mem_filter.mp hl).1

end

structure Tracked (s : NameService) : Prop where
  informed : s.Informed
  distinct : s.Distinct

theorem tracked_init (localNode : UInt32) : (init localNode).Tracked :=
  ⟨fun _ hmem => by simp [init] at hmem, fun _ hmem => by simp [init] at hmem⟩

theorem tracked_step (h : s.Tracked) (hok : s.Told msg) (hs : s.step msg = some s') : s'.Tracked := by
  cases hs
  exact ⟨informed_step h.informed h.distinct hok, distinct_step h.informed h.distinct⟩

end NameService

instance (s : NameService) (srv : QrtrServer) (alloc announced : Bool) :
    Decidable (s.AddsTold srv alloc announced) := by
  unfold NameService.AddsTold
  infer_instance

instance (s : NameService) (msg : CtrlMsg) : Decidable (s.Told msg) := by
  unfold NameService.Told
  obtain ⟨_, pkt, _, _⟩ := msg
  cases pkt <;> infer_instance

/-- Over every run in which no observed server is replaced on its port and no broadcast of an observed new
server fails, what each lookup was told adds up to the registered servers that match it. -/
theorem ns_observers_informed (localNode : UInt32) (msgs : List CtrlMsg)
    (hok : Meets step NameService.Told (init localNode) msgs) (s : NameService)
    (hrun : run step (init localNode) msgs = some s) : s.Informed :=
  (run_inv (fun _ _ _ h hok hs => tracked_step h hok hs) (tracked_init localNode) hok hrun).informed

def remoteLeaves : List CtrlMsg :=
  [⟨⟨1, 20⟩, .newLookup 15 0, true, true⟩, ⟨⟨1, 30⟩, .newServer 15 1 1 30, true, true⟩,
    ⟨⟨7, 2⟩, .newServer 15 2 7 40, true, true⟩, ⟨⟨7, 2⟩, .bye, true, true⟩]

/-- A client of node 1 looks for service 15, which a local and a remote server offer; the remote
node leaves. -/
theorem ns_observers_informed_bye :
    Meets step NameService.Told (init 1) remoteLeaves ∧
      ∃ s, run step (init 1) remoteLeaves = some s ∧
        (s.servers = [⟨15, 1, 1, 30⟩] ∧ s.lookups.map (fun l => l.sent.length) = [4]) ∧ s.Informed := by
  have hok : Meets step NameService.Told (init 1) remoteLeaves := by decide
  exact ⟨hok, _, rfl, by decide, ns_observers_informed 1 remoteLeaves hok _ rfl⟩

def serviceReplaced : List CtrlMsg :=
  [⟨⟨1, 20⟩, .newLookup 15 0, true, true⟩, ⟨⟨1, 30⟩, .newServer 15 1 1 30, true, true⟩,
    ⟨⟨1, 30⟩, .newServer 16 1 1 30, true, true⟩]

def broadcastFailed : List CtrlMsg :=
  [⟨⟨1, 20⟩, .newLookup 15 0, true, true⟩, ⟨⟨1, 30⟩, .newServer 15 1 1 30, true, false⟩]

/-- A server registers another service on its port. -/
theorem ns_observers_misinformed :
    (∃ s, run step (init 1) serviceReplaced = some s ∧ s.servers = [⟨16, 1, 1, 30⟩] ∧ ¬s.Informed) ∧
    ∃ s, run step (init 1) broadcastFailed = some s ∧ s.servers = [⟨15, 1, 1, 30⟩] ∧ ¬s.Informed := by
  refine ⟨⟨_, rfl, by decide, fun h => ?_⟩, ⟨_, rfl, by decide, fun h => ?_⟩⟩
  · exact absurd ((h _ (mem_singleton.mpr rfl) ⟨15, 1, 1, 30⟩).mp (by decide)).1 (by decide)
  · exact absurd ((h _ (mem_singleton.mpr rfl) ⟨15, 1, 1, 30⟩).mpr (by decide)) (by decide)

end VendorKernel.Qrtr

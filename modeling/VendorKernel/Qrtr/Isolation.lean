import VendorKernel.Qrtr.NameService

/-! Local servers and lookups of the name service against messages of remote nodes. -/
namespace VendorKernel.Qrtr

open Machine QrtrLookup List NameService Function

def QrtrLookup.key (lookup : QrtrLookup) : UInt32 × UInt32 × NsAddr :=
  (lookup.service, lookup.inst, lookup.sq)

namespace NameService

variable {s s' s'' : NameService} {node service inst port : UInt32} {sender : NsAddr}

def localServers (s : NameService) : List QrtrServer :=
  s.servers.filter fun srv => srv.node = s.localNode

def localLookups (s : NameService) : List (UInt32 × UInt32 × NsAddr) :=
  (s.lookups.map QrtrLookup.key).filter fun key => key.2.2.node = s.localNode

structure SameLocal (s s' : NameService) : Prop where
  node : s'.localNode = s.localNode
  servers : s'.localServers = s.localServers
  lookups : s'.localLookups = s.localLookups

def Isolated (s : NameService) (msg : CtrlMsg) : Prop :=
  msg.sq.node ≠ s.localNode → s.SameLocal (s.qrtrNsWorker msg)

def Foreign (s : NameService) (msg : CtrlMsg) : Prop :=
  msg.sq.node ≠ s.localNode →
    match msg.pkt with
    | .newServer _ _ node _ | .delServer _ _ node _ => node ≠ s.localNode
    | _ => True

theorem SameLocal.refl (s : NameService) : s.SameLocal s := ⟨rfl, rfl, rfl⟩

theorem SameLocal.trans (h : s.SameLocal s') (h' : s'.SameLocal s'') : s.SameLocal s'' :=
  ⟨h'.node.trans h.node, h'.servers.trans h.servers, h'.lookups.trans h.lookups⟩

theorem notifyLookups_key (lookups : List QrtrLookup) (srv : QrtrServer) (new : Bool) :
    (notifyLookups lookups srv new).map key = lookups.map key := by
  rw [notifyLookups, map_map]
  refine map_congr_left fun lookup _ => ?_
  dsimp only [comp_apply]
  split_ifs <;> rfl

theorem filter_erase (hnode : node ≠ s.localNode) (port : UInt32) :
    (s.erase node port).filter (fun srv => srv.node = s.localNode) = s.localServers := by
  rw [erase, filter_filter]
  refine filter_congr fun srv _ => ?_
  by_cases hloc : srv.node = s.localNode
  · simp [hloc, Ne.symm hnode]
  · simp [hloc]

theorem serverDel_sameLocal (hnode : node ≠ s.localNode) (port : UInt32) : s.SameLocal (s.serverDel node port) := by
  unfold serverDel
  split
  · exact SameLocal.refl s
  · refine ⟨rfl, filter_erase hnode port, ?_⟩
    unfold localLookups
    rw [notifyLookups_key]

theorem fewerLookups_sameLocal {p : QrtrLookup → Prop} [DecidablePred p]
    (hp : ∀ lookup, p lookup → lookup.sq.node ≠ s.localNode) :
    s.SameLocal { s with lookups := s.lookups.filter (¬p ·) } := by
  refine ⟨rfl, rfl, ?_⟩
  unfold localLookups
  rw [filter_map, filter_map, filter_filter]
  refine congrArg (map key) (filter_congr fun lookup _ => ?_)
  dsimp only [comp_apply, key]
  by_cases hgone : p lookup
  · simp [hp lookup hgone]
  · simp [hgone]

theorem bye_sameLocal (hrem : sender.node ≠ s.localNode) : s.SameLocal (s.ctrlCmdBye sender) := by
  unfold ctrlCmdBye
  generalize s.servers.filter (fun srv => srv.node = sender.node) = gone
  induction gone generalizing s with
  | nil => exact SameLocal.refl s
  | cons srv gone ih =>
    have hdel := serverDel_sameLocal hrem srv.port
    exact hdel.trans (ih (hdel.node.symm ▸ hrem))

theorem newServer_sameLocal {alloc announced : Bool} (hrem : sender.node ≠ s.localNode) (hnode : node ≠ s.localNode) :
    s.SameLocal (s.ctrlCmdNewServer sender service inst node port alloc announced) := by
  have hsr : s.SameLocal (s.store (s.described sender service inst node port)) := by
    refine ⟨rfl, ?_, rfl⟩
    have hdescribed : (s.described sender service inst node port).node = node := by
      simp [described, address, hrem]
    unfold localServers store
    rw [hdescribed, filter_append, filter_erase hnode]
    simp [hdescribed, hnode, localServers]
  unfold ctrlCmdNewServer serverAdd
  dsimp only
  split
  · exact SameLocal.refl s
  · next s' hadd =>
    split_ifs at hadd
    cases hadd
    split_ifs
    · exact hsr
    · refine hsr.trans ⟨rfl, rfl, ?_⟩
      unfold localLookups
      rw [notifyLookups_key]

/-- By the command of the message. -/
theorem isolated_of_foreign {msg : CtrlMsg} (hok : s.Foreign msg) : s.Isolated msg := by
  intro hrem
  have hok := hok hrem
  unfold qrtrNsWorker
  cases hpkt : msg.pkt with
  | hello => exact SameLocal.refl s
  | other => exact SameLocal.refl s
  | bye => exact bye_sameLocal hrem
  | delClient node port =>
    dsimp only
    unfold ctrlCmdDelClient
    split_ifs with hspoofed hloc
    · exact SameLocal.refl s
    · exact SameLocal.refl s
    · have hnode : node ≠ s.localNode := by
        rintro rfl
        exact hspoofed hrem
      have hfewer : s.SameLocal { s with lookups := s.lookups.filter fun lookup =>
          ¬(lookup.sq.node = node ∧ lookup.sq.port = port) } := by
        exact fewerLookups_sameLocal fun lookup hgone => hgone.1 ▸ hnode
      refine hfewer.trans ?_
      apply serverDel_sameLocal
      exact hnode
  | newServer service inst node port =>
    rw [hpkt] at hok
    exact newServer_sameLocal hrem hok
  | delServer service inst node port =>
    rw [hpkt] at hok
    unfold ctrlCmdDelServer
    dsimp only
    split_ifs
    · exact SameLocal.refl s
    · rw [address, if_neg hrem]
      exact serverDel_sameLocal hok port
  | newLookup service inst =>
    dsimp only
    rw [ctrlCmdNewLookup, if_pos hrem]
    exact SameLocal.refl s
  | delLookup service inst =>
    exact fewerLookups_sameLocal fun lookup hgone => hgone.1 ▸ hrem

end NameService

instance (s : NameService) (msg : CtrlMsg) : Decidable (s.Foreign msg) := by
  unfold NameService.Foreign
  cases msg.pkt <;> infer_instance

/-- Along every run in which remote nodes name other nodes than the local one in NEW_SERVER and DEL_SERVER,
their messages change no local server and no lookup of a local client. -/
theorem ns_local_isolated (localNode : UInt32) (msgs : List CtrlMsg)
    (hok : Meets step NameService.Foreign (init localNode) msgs) :
    Meets step NameService.Isolated (init localNode) msgs :=
  hok.mono fun _ _ hforeign => isolated_of_foreign hforeign

def remoteSession : List CtrlMsg :=
  [⟨⟨1, 20⟩, .newLookup 15 0, true, true⟩, ⟨⟨1, 30⟩, .newServer 15 1 1 30, true, true⟩,
    ⟨⟨7, 2⟩, .newServer 15 2 7 40, true, true⟩, ⟨⟨7, 2⟩, .delClient 7 30, true, true⟩,
    ⟨⟨7, 2⟩, .bye, true, true⟩]

/-- A remote node registers a server, says that a client of its own has gone, and leaves. -/
theorem ns_local_isolated_session :
    Meets step NameService.Foreign (init 1) remoteSession ∧
      (∃ msg ∈ remoteSession, msg.sq.node ≠ 1) ∧
      Meets step NameService.Isolated (init 1) remoteSession := by
  have hok : Meets step NameService.Foreign (init 1) remoteSession := by decide
  exact ⟨hok, ⟨⟨⟨7, 2⟩, .bye, true, true⟩, by simp [remoteSession], by decide⟩,
    ns_local_isolated 1 remoteSession hok⟩

def spoofedServer : List CtrlMsg :=
  [⟨⟨1, 30⟩, .newServer 15 1 1 30, true, true⟩, ⟨⟨7, 2⟩, .delServer 15 1 1 30, true, true⟩]

/-- A remote node removes a local server. -/
theorem ns_local_server_removed :
    (∃ s, run step (init 1) spoofedServer = some s ∧ s.localServers = []) ∧
      ¬Meets step NameService.Isolated (init 1) spoofedServer := by
  refine ⟨⟨_, rfl, by decide⟩, fun h => ?_⟩
  have hserver := (h.2.1 (by decide)).servers
  revert hserver
  decide

end VendorKernel.Qrtr

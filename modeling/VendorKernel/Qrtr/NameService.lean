import VendorKernel.Lib.Machine
import VendorKernel.Lib.Replay

/-! The QRTR name service (`ns.c`): the table of servers, the lookups that observe it, and the
handlers of control messages, which `qrtr_ns_worker` runs one after the other. -/
namespace VendorKernel.Qrtr

open Machine

structure NsAddr where
  node : UInt32
  port : UInt32
deriving DecidableEq

structure QrtrServer where
  service : UInt32
  inst : UInt32
  node : UInt32
  port : UInt32
deriving DecidableEq

structure QrtrServerFilter where
  service : UInt32
  inst : UInt32
  ifilter : UInt32

structure QrtrLookup where
  service : UInt32
  inst : UInt32
  sq : NsAddr
  /-- Not in the source: the servers in the notifications sent, `true` for NEW_SERVER; `none` is the empty
  one that ends the listing. -/
  sent : List (Option QrtrServer × Bool)
deriving DecidableEq

/-- The servers of all `nodes`, each on its node and port, and the list of lookups. -/
structure NameService where
  localNode : UInt32
  servers : List QrtrServer
  lookups : List QrtrLookup

/-- A control packet, by its command. EXIT, PING and RESUME_TX do nothing. -/
inductive CtrlPkt where
  | hello
  | bye
  | delClient (node port : UInt32)
  | newServer (service inst node port : UInt32)
  | delServer (service inst node port : UInt32)
  | other
  | newLookup (service inst : UInt32)
  | delLookup (service inst : UInt32)

/-- A control message with its source, whether memory could be allocated, and whether the broadcast of a new
local server could be sent. -/
structure CtrlMsg where
  sq : NsAddr
  pkt : CtrlPkt
  alloc : Bool
  announced : Bool

def serverMatch (srv : QrtrServer) (f : QrtrServerFilter) : Bool :=
  if f.service ≠ 0 ∧ srv.service ≠ f.service then false
  else
    let ifilter := if f.ifilter = 0 ∧ f.inst ≠ 0 then ~~~(0 : UInt32) else f.ifilter
    srv.inst &&& ifilter = f.inst

def QrtrLookup.lookupNotify (lookup : QrtrLookup) (srv : Option QrtrServer) (new : Bool) : QrtrLookup :=
  { lookup with sent := lookup.sent ++ [(srv, new)] }

def notifyLookups (lookups : List QrtrLookup) (srv : QrtrServer) (new : Bool) : List QrtrLookup :=
  lookups.map fun lookup =>
    if lookup.service ≠ 0 ∧ lookup.service ≠ srv.service then lookup
    else if lookup.inst ≠ 0 ∧ lookup.inst ≠ srv.inst then lookup
    else lookup.lookupNotify (some srv) new

namespace NameService

variable {s : NameService}

def init (localNode : UInt32) : NameService := ⟨localNode, [], []⟩

def load (s : NameService) (node port : UInt32) : Option QrtrServer :=
  s.servers.find? fun srv => srv.node = node ∧ srv.port = port

def erase (s : NameService) (node port : UInt32) : List QrtrServer :=
  s.servers.filter fun srv => ¬(srv.node = node ∧ srv.port = port)

def store (s : NameService) (srv : QrtrServer) : NameService :=
  { s with servers := s.erase srv.node srv.port ++ [srv] }

/-- Whether a server is added depends on its service and port and on memory. -/
def serverAdd (s : NameService) (srv : QrtrServer) (alloc : Bool) : Option NameService :=
  if srv.service = 0 ∨ srv.port = 0 then none
  else if alloc then some (s.store srv)
  else none

/-- `server_del`, without the broadcast. -/
def serverDel (s : NameService) (node port : UInt32) : NameService :=
  match s.load node port with
  | none => s
  | some srv => { s with servers := s.erase node port, lookups := notifyLookups s.lookups srv false }

/-- `ctrl_cmd_bye`, without the messages to local servers. -/
def ctrlCmdBye (s : NameService) (sender : NsAddr) : NameService :=
  (s.servers.filter fun srv => srv.node = sender.node).foldl
    (fun s srv => s.serverDel sender.node srv.port) s

/-- `ctrl_cmd_del_client`, without the messages to local servers. -/
def ctrlCmdDelClient (s : NameService) (sender : NsAddr) (node port : UInt32) : NameService :=
  -- Don't accept spoofed messages
  if sender.node ≠ node then s
  -- Local DEL_CLIENT messages comes from the port being closed
  else if sender.node = s.localNode ∧ sender.port ≠ port then s
  else
    { s with
      lookups := s.lookups.filter fun lookup => ¬(lookup.sq.node = node ∧ lookup.sq.port = port)
    }.serverDel node port

def address (s : NameService) (sender : NsAddr) (node port : UInt32) : NsAddr :=
  if sender.node = s.localNode then sender else ⟨node, port⟩

def described (s : NameService) (sender : NsAddr) (service inst node port : UInt32) : QrtrServer :=
  ⟨service, inst, (s.address sender node port).node, (s.address sender node port).port⟩

def ctrlCmdNewServer (s : NameService) (sender : NsAddr) (service inst node port : UInt32)
    (alloc announced : Bool) : NameService :=
  let srv := s.described sender service inst node port
  match s.serverAdd srv alloc with
  | none => s
  | some s' =>
    if srv.node = s.localNode ∧ announced = false then s'
    else { s' with lookups := notifyLookups s'.lookups srv true }

def ctrlCmdDelServer (s : NameService) (sender : NsAddr) (node port : UInt32) : NameService :=
  let addr := s.address sender node port
  if sender.node = s.localNode ∧ sender.port ≠ addr.port then s
  else s.serverDel addr.node addr.port

def ctrlCmdNewLookup (s : NameService) (sender : NsAddr) (service inst : UInt32) (alloc : Bool) :
    NameService :=
  -- Accept only local observers
  if sender.node ≠ s.localNode then s
  else if alloc then
    let found := s.servers.filter fun srv => serverMatch srv ⟨service, inst, 0⟩
    let lookup : QrtrLookup :=
      ⟨service, inst, sender, found.map (fun srv => (some srv, true))⟩
    { s with lookups := s.lookups ++ [lookup.lookupNotify none true] }
  else s

def ctrlCmdDelLookup (s : NameService) (sender : NsAddr) (service inst : UInt32) : NameService :=
  { s with lookups := s.lookups.filter fun lookup =>
      ¬(lookup.sq.node = sender.node ∧ lookup.sq.port = sender.port ∧ lookup.service = service ∧
        ¬(lookup.inst ≠ 0 ∧ lookup.inst ≠ inst)) }

def qrtrNsWorker (s : NameService) (msg : CtrlMsg) : NameService :=
  match msg.pkt with
  | .hello | .other => s
  | .bye => s.ctrlCmdBye msg.sq
  | .delClient node port => s.ctrlCmdDelClient msg.sq node port
  | .newServer service inst node port =>
    s.ctrlCmdNewServer msg.sq service inst node port msg.alloc msg.announced
  | .delServer _ _ node port => s.ctrlCmdDelServer msg.sq node port
  | .newLookup service inst => s.ctrlCmdNewLookup msg.sq service inst msg.alloc
  | .delLookup service inst => s.ctrlCmdDelLookup msg.sq service inst

def step (s : NameService) (msg : CtrlMsg) : Option NameService := some (s.qrtrNsWorker msg)

end NameService

end VendorKernel.Qrtr

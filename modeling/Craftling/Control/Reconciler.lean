import Craftling.Effects.Program
import Craftling.Control.Records

namespace Craftling.Control
open Effects

inductive VMState where
  | running | stopped | missing
  deriving DecidableEq, Repr

structure Health where
  reachable : Bool
  playersOnline : Int
  playersMax : Int
  deriving DecidableEq, Repr

structure VMView where
  id : VMID
  host : String
  port : Nat
  state : VMState
  health : Option Health
  deriving DecidableEq, Repr

structure VMSpec where
  serverID : ServerID
  game : String
  version : String
  cpus : Nat
  memoryMB : Nat
  imageRef : Option String
  env : List String
  deriving DecidableEq, Repr

inductive Op where
  | provision (spec : VMSpec)
  | start (vm : VMID)
  | stop (vm : VMID)
  | snapshot (vm : VMID)
  | evict (vm : VMID)
  | deprovision (vm : VMID)
  | status (vm : VMID)
  | logs (vm : VMID)
  | whitelist (vm : VMID) (names : List String)
  deriving DecidableEq, Repr

def Op.name : Op → String
  | .provision _ => "provision"
  | .start _ => "start"
  | .stop _ => "stop"
  | .snapshot _ => "snapshot"
  | .evict _ => "evict"
  | .deprovision _ => "deprovision"
  | .status _ => "status"
  | .logs _ => "logs"
  | .whitelist _ _ => "whitelist"

/-- What the reconciler asks of the database, the inventory, the meter and the agents.
`enter` and `leave` do nothing: they mark where the work on one server begins and ends. -/
inductive Call where
  | enter (id : ServerID)
  | leave (id : ServerID)
  | now
  | listRunning
  | listReconcilable
  | markLost (id : ServerID) (message : String)
  | markHealth (id : ServerID) (reachable : Bool) (online max : Int)
  | markBackedUp (id : ServerID)
  | markStatus (id : ServerID) (status : Status) (message : String)
  | markRunning (id : ServerID) (vm : Option VMID) (host : String) (port : Nat)
  | assignHost (id : ServerID) (host : HostID)
  | unassignHost (id : ServerID)
  | markStopped (id : ServerID)
  | softDelete (id : ServerID)
  | listHosts
  | listReady
  | reserve (host : HostID) (cpus memMB : Nat)
  | release (host : HostID) (cpus memMB : Nat)
  | command (host : HostID) (op : Op)
  | startRunning (id : ServerID)
  | stopRunning (id : ServerID)
  deriving DecidableEq, Repr

abbrev Answer : Call → Type
  | .enter _ => Unit
  | .leave _ => Unit
  | .now => Time
  | .listRunning => Except Err (List GameServer)
  | .listReconcilable => Except Err (List GameServer)
  | .markLost _ _ | .markHealth _ _ _ _ | .markBackedUp _ | .markStatus _ _ _
  | .markRunning _ _ _ _ | .assignHost _ _ | .unassignHost _ | .markStopped _ | .softDelete _ =>
    Except Err Unit
  | .listHosts => Except Err (List Host)
  | .listReady => Except Err (List Host)
  | .reserve _ _ _ => Except Err Unit
  | .release _ _ _ => Except Err Unit
  | .command _ _ => Except Err (Option VMView)
  | .startRunning _ => Except Err Unit
  | .stopRunning _ => Except Err Unit

abbrev Act := Prog Call Answer

def ask (e : Call) : Act (Answer e) := .call e .done

def onOk (r : Except Err α) (next : α → Act (Except Err β)) : Act (Except Err β) :=
  match r with
  | .error e => .done (.error e)
  | .ok a => next a

/-- Most free memory first, then most free cpu. Hosts that tie keep their order. -/
def fittingHosts (hosts : List Host) (cpus memMB : Nat) : List Host :=
  (hosts.filter fun h => cpus ≤ h.cpusAllocatable && memMB ≤ h.memoryMBAllocatable).insertionSort
    fun a b => a.memoryMBAllocatable > b.memoryMBAllocatable ∨
      (a.memoryMBAllocatable = b.memoryMBAllocatable ∧ a.cpusAllocatable ≥ b.cpusAllocatable)

def reserveFirst (cpus memMB : Nat) : List Host → Act (Except Err HostID)
  | [] => return .error .noCapacity
  | h :: rest => do
    match ← ask (.reserve h.id cpus memMB) with
    | .ok _ => return .ok h.id
    | .error _ => reserveFirst cpus memMB rest

def schedule (s : GameServer) : Act (Except Err HostID) := do
  onOk (← ask .listReady) fun ready =>
  reserveFirst s.cpus s.memoryMB (fittingHosts ready s.cpus s.memoryMB)

def placeable (host : HostID) : Act (Except Err Bool) := do
  onOk (← ask .listReady) fun ready =>
  return .ok (ready.any (·.id = host))

def lastHeartbeat (host : HostID) : Act (Except Err (Option Time)) := do
  onOk (← ask .listHosts) fun all =>
  return .ok ((all.find? (·.id = host)).map Host.lastHeartbeatAt)

structure Instance where
  vmID : Option VMID
  host : String
  port : Nat
  deriving DecidableEq, Repr

structure StatusReport where
  state : VMState
  health : Option Health
  deriving DecidableEq, Repr

def instanceOf : Option VMView → Instance
  | none => ⟨none, "", 0⟩
  | some vm => ⟨some vm.id, vm.host, vm.port⟩

def stateOf : Option VMView → VMState
  | none => .missing
  | some vm => vm.state

def assignedHost (s : GameServer) : Except Err HostID :=
  match s.hostID with
  | none => .error .unplaced
  | some h => .ok h

def specOf (s : GameServer) : VMSpec :=
  ⟨s.id, s.game, s.version, s.cpus, s.memoryMB, s.imageRef, s.env⟩

namespace Remote

def provision (s : GameServer) : Act (Except Err Instance) :=
  onOk (assignedHost s) fun h => do
  onOk (← ask (.command h (.provision (specOf s)))) fun vm =>
  return .ok (instanceOf vm)

def start (s : GameServer) : Act (Except Err Instance) :=
  match s.vmID with
  | none => provision s
  | some v =>
    onOk (assignedHost s) fun h => do
    onOk (← ask (.command h (.start v))) fun vm =>
    return .ok (instanceOf vm)

def stop (s : GameServer) : Act (Except Err Unit) :=
  match s.vmID with
  | none => return .ok ()
  | some v =>
    onOk (assignedHost s) fun h => do
    onOk (← ask (.command h (.stop v))) fun _ =>
    return .ok ()

def evict (s : GameServer) : Act (Except Err Unit) := do
  match s.hostID, s.vmID with
  | some h, some v =>
    onOk (← ask (.command h (.evict v))) fun _ =>
    return .ok ()
  | _, _ => return .ok ()

def deprovision (s : GameServer) : Act (Except Err Unit) := do
  match s.hostID, s.vmID with
  | some h, some v =>
    onOk (← ask (.command h (.deprovision v))) fun _ =>
    return .ok ()
  | _, _ => return .ok ()

def status (s : GameServer) : Act (Except Err StatusReport) :=
  match s.vmID with
  | none => return .ok ⟨.missing, none⟩
  | some v =>
    onOk (assignedHost s) fun h => do
    onOk (← ask (.command h (.status v))) fun vm =>
    return .ok ⟨stateOf vm, vm.bind VMView.health⟩

def snapshot (s : GameServer) : Act (Except Err Unit) :=
  match s.vmID with
  | none => return .ok ()
  | some v =>
    onOk (assignedHost s) fun h => do
    onOk (← ask (.command h (.snapshot v))) fun _ =>
    return .ok ()

end Remote

structure Config where
  hostDeadAfter : Time
  meter : Bool
  deriving DecidableEq, Repr

def startBilling (cfg : Config) (s : GameServer) : Act Unit := do
  if cfg.meter then
    let _ ← ask (.startRunning s.id)

def stopBilling (cfg : Config) (id : ServerID) : Act Unit := do
  if cfg.meter then
    let _ ← ask (.stopRunning id)

def markLost (cfg : Config) (s : GameServer) (message : String) : Act Unit := do
  match ← ask (.markLost s.id message) with
  | .error _ => return
  | .ok _ => stopBilling cfg s.id

def hostDeadTooLong (cfg : Config) (s : GameServer) : Act (Except Err Bool) :=
  match s.hostID with
  | none => return .ok true
  | some h => do
    onOk (← lastHeartbeat h) fun last => do
    match last with
    | none => return .ok true
    | some last =>
      let now ← ask .now
      return .ok (now - last > cfg.hostDeadAfter)

def healthRefreshInterval : Time := 10

def healthNeedsWrite (s : GameServer) (h : Health) (now : Time) : Bool :=
  let online := if h.reachable then some h.playersOnline else none
  let max := if h.reachable then some h.playersMax else none
  if s.playersOnline ≠ online || s.playersMax ≠ max then true
  else h.reachable &&
    match s.lastSeen with
    | none => true
    | some seen => now - seen ≥ healthRefreshInterval

def recordHealth (s : GameServer) (h : Option Health) : Act Unit := do
  match h with
  | none => return
  | some h =>
    if healthNeedsWrite s h (← ask .now) then
      let _ ← ask (.markHealth s.id h.reachable h.playersOnline h.playersMax)

def checkServerLiveness (cfg : Config) (s : GameServer) : Act Unit := do
  match ← Remote.status s with
  | .error _ =>
    match ← hostDeadTooLong cfg s with
    | .error _ => return
    | .ok false => return
    | .ok true => markLost cfg s "host unreachable; reprovisioning"
  | .ok report =>
    if report.state = .running then recordHealth s report.health
    else markLost cfg s "vm not found on host; reprovisioning"

def checkEach (cfg : Config) : List GameServer → Act Unit
  | [] => return
  | s :: rest => do
    ask (.enter s.id)
    checkServerLiveness cfg s
    ask (.leave s.id)
    checkEach cfg rest

def checkLiveness (cfg : Config) : Act Unit := do
  match ← ask .listRunning with
  | .error _ => return
  | .ok servers => checkEach cfg servers

def backup (s : GameServer) : Act Unit := do
  if s.status ≠ .running || s.vmID.isNone then
    let _ ← ask (.markBackedUp s.id)
  else
    match ← Remote.snapshot s with
    | .error _ => return
    | .ok _ => let _ ← ask (.markBackedUp s.id)

/-- What the server's record says of its host afterwards comes back with it. -/
def place (s : GameServer) : Act (Except Err GameServer) := do
  match ← schedule s with
  | .error .noCapacity =>
    onOk (← ask (.markStatus s.id .unschedulable "no host with sufficient capacity")) fun _ =>
    return .ok s
  | .error e => return .error e
  | .ok h =>
    match ← ask (.assignHost s.id h) with
    | .error e =>
      let _ ← ask (.release h s.cpus s.memoryMB)
      return .error e
    | .ok _ => return .ok { s with hostID := some h }

def dropStalePlacement (s : GameServer) : Act (Except Err GameServer) :=
  match s.hostID with
  | none => return .ok s
  | some h => do
    onOk (← placeable h) fun ready => do
    if ready then return .ok s
    else
      let _ ← ask (.release h s.cpus s.memoryMB)
      onOk (← ask (.unassignHost s.id)) fun _ =>
      return .ok { s with hostID := none }

def hostReachable (s : GameServer) : Act (Except Err Bool) :=
  match s.hostID with
  | none => return .ok false
  | some h => placeable h

def provisionOrStart (s : GameServer) (provisioned : Bool) : Act (Except Err Instance) :=
  if provisioned then Remote.start s else Remote.provision s

def boot (cfg : Config) (s : GameServer) (provisioned : Bool) : Act (Except Err Unit) := do
  onOk (← ask (.markStatus s.id .provisioning "")) fun _ => do
  onOk (← provisionOrStart s provisioned) fun inst => do
  onOk (← ask (.markRunning s.id inst.vmID inst.host inst.port)) fun _ => do
  startBilling cfg s
  return .ok ()

def bootPlaced (cfg : Config) (s : GameServer) : Act (Except Err Unit) :=
  if s.hostID.isNone then return .ok () else boot cfg s false

def start (cfg : Config) (s : GameServer) : Act (Except Err Unit) :=
  if s.status = .running then return .ok ()
  else if s.vmID.isSome then boot cfg s true
  else do
    onOk (← dropStalePlacement s) fun s => do
    if s.hostID.isNone then onOk (← place s) fun s => bootPlaced cfg s
    else boot cfg s false

def releaseHost (s : GameServer) : Act Unit := do
  match s.hostID with
  | none => return
  | some h => let _ ← ask (.release h s.cpus s.memoryMB)

def stop (cfg : Config) (s : GameServer) : Act (Except Err Unit) :=
  if s.status = .stopped then return .ok ()
  else do
    onOk (← ask (.markStatus s.id .stopping "")) fun _ => do
    onOk (← Remote.stop s) fun _ => do
    onOk (← Remote.evict s) fun _ => do
    releaseHost s
    onOk (← ask (.markStopped s.id)) fun _ => do
    stopBilling cfg s.id
    return .ok ()

def finalizeDelete (cfg : Config) (s : GameServer) : Act (Except Err Unit) := do
  releaseHost s
  onOk (← ask (.softDelete s.id)) fun _ => do
  stopBilling cfg s.id
  return .ok ()

def teardown (cfg : Config) (s : GameServer) : Act (Except Err Unit) := do
  match ← Remote.deprovision s with
  | .ok _ => finalizeDelete cfg s
  | .error e =>
    onOk (← hostReachable s) fun reachable =>
    if reachable then return .error e else finalizeDelete cfg s

def delete (cfg : Config) (s : GameServer) : Act (Except Err Unit) := do
  if s.status ≠ .deleting then
    onOk (← ask (.markStatus s.id .deleting "")) fun _ => teardown cfg s
  else teardown cfg s

def converge (cfg : Config) (s : GameServer) : Act (Except Err Unit) :=
  match s.desired with
  | .stopped => stop cfg s
  | .running => start cfg s
  | .deleted => return .ok ()

def reconcile (cfg : Config) (s : GameServer) : Act (Except Err Unit) :=
  if s.desired = .deleted then delete cfg s
  else if s.backupRequested then do
    backup s
    converge cfg s
  else converge cfg s

def reconcileEach (cfg : Config) : List GameServer → Act Unit
  | [] => return
  | s :: rest => do
    ask (.enter s.id)
    match ← reconcile cfg s with
    | .ok _ => pure ()
    | .error e => let _ ← ask (.markStatus s.id .error e.text)
    ask (.leave s.id)
    reconcileEach cfg rest

def reconcileOnce (cfg : Config) : Act Unit := do
  checkLiveness cfg
  match ← ask .listReconcilable with
  | .error _ => return
  | .ok servers => reconcileEach cfg servers

end Craftling.Control

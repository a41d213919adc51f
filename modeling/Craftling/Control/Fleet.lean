import Craftling.Effects.Runs
import Craftling.Control.Conduct

namespace Craftling.Control
open Effects

abbrev AgentID := Nat

/-- A VM that an agent's runtime tracks. `running` is whether a signal still reaches its
process. One that has exited is reached until somebody waits for it. -/
structure VM where
  id : VMID
  serverID : ServerID
  cpus : Nat
  memoryMB : Nat
  port : Nat
  running : Bool
  exited : Bool
  deriving DecidableEq, Repr

def VM.up (m : VM) : Bool := m.running && !m.exited

structure Agent where
  vms : List VM
  deriving DecidableEq, Repr

abbrev Reply := Except String (Option VMView)

/-- What an operation on a host comes to besides what the runtime decides itself. -/
structure Outcome where
  fault : Option String
  port : Nat
  health : Option Health
  deriving DecidableEq, Repr

def Outcome.fine : Outcome := ⟨none, 25565, none⟩

def Agent.find (a : Agent) (v : VMID) : Option VM := a.vms.find? (·.id = v)

def Agent.update (a : Agent) (v : VMID) (f : VM → VM) : Agent :=
  ⟨a.vms.map fun m => if m.id = v then f m else m⟩

def Agent.remove (a : Agent) (v : VMID) : Agent := ⟨a.vms.filter (·.id ≠ v)⟩

def VM.view (hostname : String) (o : Outcome) (m : VM) : VMView :=
  ⟨m.id, hostname, m.port, if m.running then .running else .stopped, o.health⟩

/-- Only running VMs hold their slot. A total of zero leaves a dimension unconstrained. -/
def checkCapacity (info : LinkInfo) (a : Agent) (cpus memMB : Nat) : Bool :=
  let used := a.vms.filter VM.running
  let usedCPUs := (used.map VM.cpus).sum
  let usedMem := (used.map VM.memoryMB).sum
  !(info.cpusTotal > 0 && usedCPUs + cpus > info.cpusTotal) &&
    !(info.memoryMBTotal > 0 && usedMem + memMB > info.memoryMBTotal)

/-- Run a command against the runtime. A VM is tracked once it is up, one that is torn
down is forgotten first, and a stop that cannot save the world has still halted the VM. -/
def Agent.exec (info : LinkInfo) (fresh : VMID) (o : Outcome) (a : Agent) : Op → Reply × Agent
  | .provision spec =>
    if !checkCapacity info a spec.cpus spec.memoryMB then (.error "insufficient host capacity", a)
    else
      match o.fault with
      | some err => (.error err, a)
      | none =>
        let m : VM := ⟨fresh, spec.serverID, spec.cpus, spec.memoryMB, o.port, true, false⟩
        (.ok (some (m.view info.hostname o)), ⟨a.vms ++ [m]⟩)
  | .start v =>
    match a.find v with
    | none => (.error "vm not found", a)
    | some m =>
      if m.running then (.ok (some (m.view info.hostname o)), a)
      else if !checkCapacity info a m.cpus m.memoryMB then
        (.error "insufficient host capacity", a)
      else
        match o.fault with
        | some err => (.error err, a)
        | none =>
          (.ok (some ({ m with running := true, exited := false }.view info.hostname o)),
            a.update v fun m => { m with running := true, exited := false })
  | .stop v =>
    match a.find v with
    | none => (.ok none, a)
    | some _ =>
      let a' := a.update v fun m => { m with running := false, exited := false }
      match o.fault with
      | some err => (.error err, a')
      | none => (.ok none, a')
  | .snapshot v =>
    match a.find v, o.fault with
    | none, _ => (.error "vm not found", a)
    | some _, some err => (.error err, a)
    | some m, none => (if m.up then .ok none else .error "firecracker: dial vsock uds", a)
  | .evict v =>
    match a.find v, o.fault with
    | none, _ => (.ok none, a)
    | some _, some err => (.error err, a.remove v)
    | some _, none => (.ok none, a.remove v)
  | .deprovision v =>
    match a.find v, o.fault with
    | none, _ => (.ok none, a)
    | some _, some err => (.error err, a.remove v)
    | some _, none => (.ok none, a.remove v)
  | .status v =>
    match a.find v with
    | none => (.ok (some ⟨v, "", 0, .missing, none⟩), a)
    | some m => (.ok (some (m.view info.hostname o)), a)
  | .logs v =>
    match a.find v, o.fault with
    | none, _ => (.error "vm not found", a)
    | some _, some err => (.error err, a)
    | some _, none => (.ok none, a)
  | .whitelist v _ =>
    match a.find v, o.fault with
    | none, _ => (.error "vm not found", a)
    | some _, some err => (.error err, a)
    | some m, none => (if m.up then .ok none else .error "firecracker: dial vsock uds", a)

/-- A snapshot of a VM's world that may reach the store, for a sweep, a command or a stop. -/
structure Save where
  serverID : ServerID
  vm : VMID
  deriving DecidableEq, Repr

def Agent.saves (a : Agent) : Op → List Save
  | .stop v | .snapshot v => (a.find v).toList.map fun m => ⟨m.serverID, v⟩
  | _ => []

/-- The life of one Connect handler: the first frame is read, the committed capacity
counted, the host registered, the connection added and served. Once the stream has ended
the connection is removed, the host marked down, and the handler returns. -/
inductive StreamPhase where
  | opened
  | counted (cpus memMB : Nat)
  | registered
  | serving
  | ending
  | removed
  | returned
  deriving DecidableEq, Repr

structure Stream where
  agent : AgentID
  host : Option HostID
  phase : StreamPhase
  deriving DecidableEq, Repr

/-- Where a call stands: it holds a connection, waits for the reply to a command that was
sent, could not send it, or has returned. A waiter is registered while it waits. -/
inductive CallPhase where
  | picked | sent | sendFailed | ended
  deriving DecidableEq, Repr

inductive Carriage where
  | unsent
  | carried
  | executed (r : Reply)
  | lost
  deriving DecidableEq

/-- A call to an agent through the hub. `result` is the waiter's channel. -/
structure HubCall where
  conn : Nat
  op : Op
  deadline : Bool
  phase : CallPhase
  cmd : Carriage
  result : Option Reply
  deriving DecidableEq

def HubCall.outcome (c : HubCall) : Option (Except Err (Option VMView)) :=
  match c.phase, c.result with
  | .sendFailed, _ => some (.error (.sendFailed c.op.name))
  | .sent, some (.error text) => some (.error (.agent c.op.name text))
  | .sent, some (.ok vm) => some (.ok vm)
  | _, _ => none

/-- The reconciler in a tick: what it has yet to do, what it has done so far, and the call
it waits for. -/
structure Thread where
  prog : Act Unit
  stage : Stage
  call : Option Nat

structure Deployment where
  cfg : Config
  info : AgentID → LinkInfo

/-- The control plane, the agents and the world store's clients. `writtenOff` notes what
the reconciler knew when it dropped a VM from a row that it had not seen torn down. -/
structure Fleet where
  rows : List GameServer
  clock : Time
  hosts : List Host
  registry : HostID → Option Nat
  streams : List Stream
  calls : List HubCall
  thread : Option Thread
  agents : AgentID → Agent
  saves : List Save
  nextVM : VMID
  writtenOff : List Work

def Fleet.init : Fleet :=
  ⟨[], 0, [], fun _ => none, [], [], none, fun _ => ⟨[]⟩, [], 0, []⟩

def refused : Option String → Except Err Unit
  | some text => .error (.db text)
  | none => .ok ()

def Fleet.write (f : Fleet) (fault : Option String) (id : ServerID)
    (g : GameServer → GameServer) : Except Err Unit × Fleet :=
  match fault with
  | some text => (.error (.db text), f)
  | none => (.ok (), { f with rows := updateRow f.rows id g })

def Fleet.read (f : Fleet) (fault : Option String) (rows : List GameServer) :
    Except Err (List GameServer) × Fleet :=
  match fault with
  | some text => (.error (.db text), f)
  | none => (.ok rows, f)

def Fleet.answer (f : Fleet) (fault : Option String) (order : Order) :
    (e : Call) → Answer e × Fleet
  | .enter _ => ((), f)
  | .leave _ => ((), f)
  | .now => (f.clock, f)
  | .listRunning => f.read fault (listRunning order f.rows)
  | .listReconcilable => f.read fault (listReconcilable order f.rows)
  | .markLost id message => f.write fault id (·.markedLost message)
  | .markHealth id reachable online max =>
    f.write fault id (·.markedHealth reachable online max f.clock)
  | .markBackedUp id => f.write fault id fun s => { s with backupRequested := false }
  | .markStatus id status message => f.write fault id (·.marked status message)
  | .markRunning id vm host port => f.write fault id (·.markedRunning vm host port)
  | .assignHost id h => f.write fault id fun s => { s with hostID := some h }
  | .unassignHost id => f.write fault id fun s => { s with hostID := none }
  | .markStopped id => f.write fault id GameServer.markedStopped
  | .softDelete id => f.write fault id GameServer.softDeleted
  | .listHosts => (.ok (listHosts f.hosts), f)
  | .listReady => (.ok (listReady f.hosts), f)
  | .reserve h cpus memMB =>
    match reserve f.hosts h cpus memMB with
    | .error e => (.error e, f)
    | .ok hosts => (.ok (), { f with hosts })
  | .release h cpus memMB => (.ok (), { f with hosts := release f.hosts h cpus memMB })
  | .command _ _ => (.error .hostNotConnected, f)
  | .startRunning _ => (refused fault, f)
  | .stopRunning _ => (refused fault, f)

def Call.isCommand : Call → Bool
  | .command _ _ => true
  | _ => false

def Fleet.resume (f : Fleet) (st : Stage) (e : Call) (k : Answer e → Act Unit) (r : Answer e) :
    Fleet :=
  match k r with
  | .done _ => { f with thread := none }
  | p => { f with thread := some ⟨p, st.next e r, none⟩ }

def dropped (st : Stage) : (e : Call) → Answer e → List Work
  | .markLost _ _, .ok _ => st.cur.toList
  | .softDelete _, .ok _ => st.cur.toList
  | _, _ => []

structure NewServer where
  ownerID : UserID
  name : String
  game : String
  version : String
  cpus : Nat
  memoryMB : Nat
  imageRef : Option String
  env : List String
  deriving DecidableEq, Repr

def NewServer.row (n : NewServer) (id : ServerID) : GameServer :=
  { id, ownerID := n.ownerID, name := n.name, game := n.game, version := n.version,
    cpus := n.cpus, memoryMB := n.memoryMB, imageRef := n.imageRef, env := n.env,
    desired := .running, status := .pending,
    hostID := none, vmID := none, host := none, port := none, statusMessage := none,
    backupRequested := false, playersOnline := none, playersMax := none, lastSeen := none,
    deleted := false }

inductive Label where
  | create (n : NewServer)
  | updateSpec (id : ServerID) (name version : String)
  | setDesired (id : ServerID) (d : Desired)
  | requestBackup (id : ServerID)
  | tick
  | act (fault : Option String) (order : Order)
  | issue
  | collect
  | expire
  | otherCall (h : HostID) (op : Op) (deadline : Bool)
  | otherDone (i : Nat)
  | send (i : Nat) (ok : Bool)
  | exec (i : Nat) (o : Outcome)
  | deliver (i : Nat)
  | connect (a : AgentID)
  | count (c : Nat) (fault : Option String)
  | register (c : Nat) (id : HostID)
  | add (c : Nat)
  | heartbeat (c : Nat)
  | streamEnd (c : Nat)
  | remove (c : Nat)
  | markDown (c : Nat)
  | reapHosts (ttl : Time)
  | wait (d : Time)
  | restartControl
  | restartAgent (a : AgentID)
  | exit (a : AgentID) (v : VMID)
  | sweep (a : AgentID) (v : VMID)
  | put (i : Nat)

def Fleet.setCall (f : Fleet) (i : Nat) (c : HubCall) : Fleet :=
  { f with calls := f.calls.set i c }

def Fleet.setStream (f : Fleet) (c : Nat) (s : Stream) : Fleet :=
  { f with streams := f.streams.set c s }

def Fleet.setAgent (f : Fleet) (a : AgentID) (x : Agent) : Fleet :=
  { f with agents := fun b => if b = a then x else f.agents b }

def Fleet.unused (f : Fleet) (id : HostID) : Bool :=
  !f.rows.any (·.hostID = some id) && !f.streams.any (·.host = some id)

/-- The reconciler's own steps: its calls to the database and the inventory happen at
once, a command starts a hub call and waits for it. Only a probe has a deadline. -/
def actStep (f : Fleet) (fault : Option String) (order : Order) : Option Fleet :=
  match f.thread with
  | some ⟨.call e k, st, none⟩ =>
    if e.isCommand then none
    else
      let (r, f') := f.answer fault order e
      some ({ f' with writtenOff := f'.writtenOff ++ dropped st e r }.resume st e k r)
  | _ => none

def Op.isStatus : Op → Bool
  | .status _ => true
  | _ => false

def issueStep (f : Fleet) : Option Fleet :=
  match f.thread with
  | some ⟨.call (.command h op) k, st, none⟩ =>
    match f.registry h with
    | none => some (f.resume st (.command h op) k (.error .hostNotConnected))
    | some c =>
      some { f with
        calls := f.calls ++ [⟨c, op, op.isStatus, .picked, .unsent, none⟩]
        thread := some ⟨.call (.command h op) k, st, some f.calls.length⟩ }
  | _ => none

def collectStep (f : Fleet) : Option Fleet :=
  match f.thread with
  | some ⟨.call (.command h op) k, st, some i⟩ =>
    match f.calls[i]? with
    | none => none
    | some c =>
      match c.outcome with
      | none => none
      | some r => some ((f.setCall i { c with phase := .ended }).resume st (.command h op) k r)
  | _ => none

def expireStep (f : Fleet) : Option Fleet :=
  match f.thread with
  | some ⟨.call (.command h op) k, st, some i⟩ =>
    match f.calls[i]? with
    | none => none
    | some c =>
      if c.deadline && c.phase = .sent then
        some ((f.setCall i { c with phase := .ended }).resume st (.command h op) k
          (.error .deadlineExceeded))
      else none
  | _ => none

def Fleet.awaited (f : Fleet) : Option Nat := f.thread.bind Thread.call

/-- Log and whitelist calls come from elsewhere and change nothing here. -/
def Op.isOther : Op → Bool
  | .logs _ => true
  | .whitelist _ _ => true
  | _ => false

def otherStep (f : Fleet) (h : HostID) (op : Op) (deadline : Bool) : Option Fleet :=
  if op.isOther then
    match f.registry h with
    | none => some f
    | some c => some { f with calls := f.calls ++ [⟨c, op, deadline, .picked, .unsent, none⟩] }
  else none

def otherDoneStep (f : Fleet) (i : Nat) : Option Fleet :=
  match f.calls[i]? with
  | none => none
  | some c =>
    if f.awaited ≠ some i && (c.outcome.isSome || (c.deadline && c.phase = .sent)) then
      some (f.setCall i { c with phase := .ended })
    else none

/-- A connection takes no command once its handler has returned. -/
def sendStep (f : Fleet) (i : Nat) (ok : Bool) : Option Fleet :=
  match f.calls[i]? with
  | none => none
  | some c =>
    if c.phase = .picked then
      if ok then
        match f.streams[c.conn]? with
        | none => none
        | some s =>
          if s.phase = .returned then none
          else some (f.setCall i { c with phase := .sent, cmd := .carried })
      else some (f.setCall i { c with phase := .sendFailed })
    else none

def execStep (d : Deployment) (f : Fleet) (i : Nat) (o : Outcome) : Option Fleet :=
  match f.calls[i]? with
  | none => none
  | some c =>
    match c.cmd, f.streams[c.conn]? with
    | .carried, some s =>
      let a := f.agents s.agent
      let (r, a') := a.exec (d.info s.agent) f.nextVM o c.op
      some { (f.setCall i { c with cmd := .executed r }).setAgent s.agent a' with
        saves := f.saves ++ a.saves c.op
        nextVM := f.nextVM + 1 }
    | _, _ => none

/-- The handler hands a result to its waiter, if one still listens. -/
def deliverStep (f : Fleet) (i : Nat) : Option Fleet :=
  match f.calls[i]? with
  | none => none
  | some c =>
    match c.cmd, f.streams[c.conn]? with
    | .executed r, some s =>
      if s.phase = .serving then
        if c.phase = .sent && c.result.isNone then some (f.setCall i { c with result := some r })
        else some f
      else none
    | _, _ => none

def countStep (d : Deployment) (f : Fleet) (c : Nat) (fault : Option String) : Option Fleet :=
  match f.streams[c]? with
  | none => none
  | some s =>
    if s.phase = .opened then
      match (d.info s.agent).id, fault with
      | none, _ => some (f.setStream c { s with phase := .counted 0 0 })
      | some _, some _ => some (f.setStream c { s with phase := .returned })
      | some h, none =>
        some (f.setStream c { s with
          phase := .counted (usedCPUs f.rows h) (usedMemory f.rows h) })
    else none

def registerStep (d : Deployment) (f : Fleet) (c : Nat) (id : HostID) : Option Fleet :=
  match f.streams[c]? with
  | none => none
  | some s =>
    match s.phase with
    | .counted cpus memMB =>
      match registerReserved f.hosts (d.info s.agent) id (f.unused id) cpus memMB f.clock with
      | none => none
      | some hosts =>
        some { f.setStream c { s with host := some id, phase := .registered } with hosts }
    | _ => none

def addStep (f : Fleet) (c : Nat) : Option Fleet :=
  match f.streams[c]? with
  | some ⟨a, some h, .registered⟩ =>
    some { f.setStream c ⟨a, some h, .serving⟩ with
      registry := fun j => if j = h then some c else f.registry j }
  | _ => none

def heartbeatStep (f : Fleet) (c : Nat) : Option Fleet :=
  match f.streams[c]? with
  | some ⟨_, some h, .serving⟩ => some { f with hosts := heartbeat f.hosts h f.clock }
  | _ => none

def streamEndStep (f : Fleet) (c : Nat) : Option Fleet :=
  match f.streams[c]? with
  | some ⟨a, h, .serving⟩ => some (f.setStream c ⟨a, h, .ending⟩)
  | _ => none

/-- A connection that another has replaced stays out of the registry's way. -/
def removeStep (f : Fleet) (c : Nat) : Option Fleet :=
  match f.streams[c]? with
  | some ⟨a, some h, .ending⟩ =>
    some { f.setStream c ⟨a, some h, .removed⟩ with
      registry := fun j => if j = h && f.registry h = some c then none else f.registry j }
  | _ => none

def markDownStep (f : Fleet) (c : Nat) : Option Fleet :=
  match f.streams[c]? with
  | some ⟨a, some h, .removed⟩ =>
    some { f.setStream c ⟨a, some h, .returned⟩ with hosts := markDown f.hosts h }
  | _ => none

def Fleet.restartControl (f : Fleet) : Fleet :=
  { f with
    hosts := []
    registry := fun _ => none
    streams := f.streams.map fun s => { s with phase := .returned }
    calls := f.calls.map fun c => { c with phase := .ended }
    thread := none }

def Fleet.onAgent (f : Fleet) (a : AgentID) (c : HubCall) : Bool :=
  match f.streams[c.conn]? with
  | some s => s.agent = a
  | none => false

def Fleet.restartAgent (f : Fleet) (a : AgentID) : Fleet :=
  { f.setAgent a ⟨[]⟩ with
    calls := f.calls.map fun c =>
      if f.onAgent a c && c.cmd = .carried then { c with cmd := .lost } else c }

def sweepStep (f : Fleet) (a : AgentID) (v : VMID) : Option Fleet :=
  match (f.agents a).find v with
  | some m => if m.up then some { f with saves := f.saves ++ [⟨m.serverID, v⟩] } else none
  | none => none

def step (d : Deployment) (f : Fleet) : Label → Option Fleet
  | .create n =>
    if 0 < n.cpus && 0 < n.memoryMB then some { f with rows := f.rows ++ [n.row f.rows.length] }
    else none
  | .updateSpec id name version =>
    some { f with rows := updateRow f.rows id fun s => { s with name, version } }
  | .setDesired id desired =>
    some { f with rows := updateRow f.rows id fun s => { s with desired } }
  | .requestBackup id =>
    some { f with rows := updateRow f.rows id fun s => { s with backupRequested := true } }
  | .tick =>
    match f.thread with
    | none => some { f with thread := some ⟨reconcileOnce d.cfg, .start, none⟩ }
    | some _ => none
  | .act fault order => actStep f fault order
  | .issue => issueStep f
  | .collect => collectStep f
  | .expire => expireStep f
  | .otherCall h op deadline => otherStep f h op deadline
  | .otherDone i => otherDoneStep f i
  | .send i ok => sendStep f i ok
  | .exec i o => execStep d f i o
  | .deliver i => deliverStep f i
  | .connect a => some { f with streams := f.streams ++ [⟨a, none, .opened⟩] }
  | .count c fault => countStep d f c fault
  | .register c id => registerStep d f c id
  | .add c => addStep f c
  | .heartbeat c => heartbeatStep f c
  | .streamEnd c => streamEndStep f c
  | .remove c => removeStep f c
  | .markDown c => markDownStep f c
  | .reapHosts ttl => some { f with hosts := markStale f.hosts (f.clock - ttl) }
  | .wait t => some { f with clock := f.clock + t }
  | .restartControl => some f.restartControl
  | .restartAgent a => some (f.restartAgent a)
  | .exit a v => some (f.setAgent a ((f.agents a).update v fun m => { m with exited := true }))
  | .sweep a v => sweepStep f a v
  | .put i => if i < f.saves.length then some { f with saves := f.saves.eraseIdx i } else none

def oneHost : Deployment := ⟨⟨30, true⟩, fun a => ⟨some a, "h", 2, 2048⟩⟩

def oneServer : NewServer := ⟨0, "s", "minecraft", "1.21", 2, 2048, none, []⟩

def plain : Label := .act none .asStored

def joins (a : AgentID) (c : Nat) : List Label := [.connect a, .count c none, .register c a, .add c]

def commanded (i : Nat) : List Label :=
  [.issue, .send i true, .exec i .fine, .deliver i, .collect]

def probed (i : Nat) : List Label := [.tick, plain, plain] ++ commanded i ++ [plain, plain]

def toProvision : List Label :=
  .create oneServer :: joins 0 0 ++ .tick :: List.replicate 7 plain ++ [.issue, .send 0 true]

def toRunning : List Label :=
  toProvision ++ [.exec 0 .fine, .deliver 0, .collect] ++ List.replicate 3 plain

end Craftling.Control

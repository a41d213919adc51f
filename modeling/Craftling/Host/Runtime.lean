import Craftling.Effects.Pool
import Craftling.Control.Reconciler

namespace Craftling.Host
open Effects
open Control (ServerID VMID VMSpec VMState Op)

inductive Proc where
  | unstarted | alive | exited | reaped
  deriving DecidableEq, Repr

/-- A machine that has been made. `tracked` is whether the runtime's table holds it. -/
structure Machine where
  serverID : ServerID
  vcpus : Nat
  memoryMB : Nat
  proc : Proc
  tracked : Bool
  deriving DecidableEq, Repr

def Machine.running (m : Machine) : Bool := m.proc = .alive || m.proc = .exited

def Machine.kill (m : Machine) : Machine :=
  { m with proc := if m.proc = .unstarted then .unstarted else .reaped }

/-- What the runtime is set up with. The store is used only where worlds persist. -/
structure Config where
  cpusTotal : Nat
  memoryMBTotal : Nat
  persist : Bool
  store : Bool
  deriving DecidableEq, Repr

def Config.stores (c : Config) : Bool := c.persist && c.store

/-- The runtime and its host. A machine's id is its place in `machines`. One that is booted
while it has a process leaves that process behind, in `strays`. The disks and the stored
worlds are known by the server they are for. -/
structure Runtime where
  machines : List Machine
  strays : List Machine
  disks : ServerID → Bool
  worlds : ServerID → Bool

def Runtime.init : Runtime := ⟨[], [], fun _ => false, fun _ => false⟩

/-- The steps of a command: its sections under the runtime's lock, and what it does to
processes, disks and the store in between. -/
inductive Call where
  | checkCapacity (cpus memMB : Nat)
  | ensureImage
  | newMachine (spec : VMSpec)
  | prepareWorldDisk (key : ServerID)
  | spawn (v : VMID)
  | configure (v : VMID)
  | insert (v : VMID)
  | find (v : VMID)
  | drop (v : VMID)
  | running (v : VMID)
  | powerOff (v : VMID)
  | kill (v : VMID)
  | snapshotWorldDisk (key : ServerID)
  | snapshotRunning (v : VMID) (key : ServerID)
  | removeDisk (key : ServerID)
  | deleteWorld (key : ServerID)
  | removeDir (v : VMID)
  deriving DecidableEq, Repr

abbrev Answer : Call → Type
  | .newMachine _ => Except String VMID
  | .insert _ => Unit
  | .find _ => Option Machine
  | .drop _ => Option Machine
  | .running _ => Bool
  | .powerOff _ => Unit
  | .kill _ => Unit
  | _ => Except String Unit

inductive Outcome where
  | vm (id : VMID) (state : VMState)
  | done
  | failed (text : String)
  deriving DecidableEq, Repr

abbrev Ops := Prog Call Answer

def ask (e : Call) : Ops (Answer e) := .call e .done

def orFail (context : String) (r : Except String α) (next : α → Ops Outcome) : Ops Outcome :=
  match r with
  | .error text => .done (.failed (context ++ text))
  | .ok a => next a

def vmView (v : VMID) : Ops Outcome := do
  return .vm v (if ← ask (.running v) then .running else .stopped)

/-- Launch the process, wait for its socket, configure it and start the guest. On a failure
the process goes again. -/
def boot (v : VMID) : Ops (Except String Unit) := do
  match ← ask (.spawn v) with
  | .error text => return .error text
  | .ok _ =>
    match ← ask (.configure v) with
    | .error text =>
      ask (.kill v)
      return .error text
    | .ok _ => return .ok ()

def enter (v : VMID) : Ops Outcome := do
  match ← boot v with
  | .error text =>
    let _ ← ask (.removeDir v)
    return .failed ("firecracker: boot vm: " ++ text)
  | .ok _ =>
    ask (.insert v)
    vmView v

def provision (cfg : Config) (spec : VMSpec) : Ops Outcome := do
  if spec.cpus = 0 || spec.memoryMB = 0 then
    let cpus := spec.cpus
    let memMB := spec.memoryMB
    return .failed s!"firecracker: invalid spec: cpus={cpus} memory_mb={memMB}"
  else
    orFail "" (← ask (.checkCapacity spec.cpus spec.memoryMB)) fun _ => do
    orFail "" (← ask .ensureImage) fun _ => do
    orFail "" (← ask (.newMachine spec)) fun v => do
    if cfg.persist then
      match ← ask (.prepareWorldDisk spec.serverID) with
      | .error text =>
        let _ ← ask (.removeDir v)
        return .failed ("firecracker: world disk: " ++ text)
      | .ok _ => enter v
    else enter v

/-- A stopped machine gave up its slot, so that it has to fit again. -/
def start (v : VMID) : Ops Outcome := do
  match ← ask (.find v) with
  | none => return .failed "vm not found"
  | some m =>
    if ← ask (.running v) then vmView v
    else
      orFail "" (← ask (.checkCapacity m.vcpus m.memoryMB)) fun _ => do
      orFail "firecracker: restart vm: " (← boot v) fun _ => vmView v

def shutdown (v : VMID) : Ops Unit := do
  if ← ask (.running v) then
    ask (.powerOff v)
    ask (.kill v)
  else ask (.kill v)

def stop (cfg : Config) (v : VMID) : Ops Outcome := do
  match ← ask (.find v) with
  | none => return .done
  | some m =>
    shutdown v
    if cfg.stores then
      orFail "firecracker: snapshot world on stop: " (← ask (.snapshotWorldDisk m.serverID))
        fun _ => return .done
    else return .done

def removeVM (v : VMID) : Ops Outcome := do
  orFail "firecracker: remove vm dir: " (← ask (.removeDir v)) fun _ => return .done

/-- The machine leaves the table before its process is killed. Its disk goes with it, and
the stored world when the server is deleted. -/
def teardown (cfg : Config) (v : VMID) (deleteWorld : Bool) : Ops Outcome := do
  match ← ask (.drop v) with
  | none => return .done
  | some m =>
    ask (.kill v)
    if cfg.persist then
      orFail "firecracker: remove world disk: " (← ask (.removeDisk m.serverID)) fun _ => do
      if deleteWorld && cfg.stores then
        let _ ← ask (.deleteWorld m.serverID)
        removeVM v
      else removeVM v
    else removeVM v

def status (v : VMID) : Ops Outcome := do
  match ← ask (.find v) with
  | none => return .vm v .missing
  | some _ => vmView v

def snapshot (cfg : Config) (v : VMID) : Ops Outcome := do
  match ← ask (.find v) with
  | none => return .failed "vm not found"
  | some m =>
    if cfg.stores then
      orFail "" (← ask (.snapshotRunning v m.serverID)) fun _ => return .done
    else return .failed s!"firecracker: live snapshot not available for vm {v}"

/-- Logs are read from a machine that is tracked, and its whitelist pushed to it. -/
def lookup (v : VMID) : Ops Outcome := do
  match ← ask (.find v) with
  | none => return .failed "vm not found"
  | some _ => return .done

def execOp (cfg : Config) : Op → Ops Outcome
  | .provision spec => provision cfg spec
  | .start v => start v
  | .stop v => stop cfg v
  | .snapshot v => snapshot cfg v
  | .evict v => teardown cfg v false
  | .deprovision v => teardown cfg v true
  | .status v => status v
  | .logs v => lookup v
  | .whitelist v _ => lookup v

namespace Runtime

def counted (r : Runtime) : List Machine := r.machines.filter fun m => m.tracked && m.running

/-- A total of zero leaves a dimension unconstrained. -/
def fits (cfg : Config) (r : Runtime) (cpus memMB : Nat) : Bool :=
  let usedCPUs := (r.counted.map Machine.vcpus).sum
  let usedMem := (r.counted.map Machine.memoryMB).sum
  !(cfg.cpusTotal > 0 && usedCPUs + cpus > cfg.cpusTotal) &&
    !(cfg.memoryMBTotal > 0 && usedMem + memMB > cfg.memoryMBTotal)

def modify (r : Runtime) (v : VMID) (g : Machine → Machine) : Runtime :=
  { r with machines := r.machines.modify v g }

/-- A machine's new process takes the place of the one it had. -/
def spawn (r : Runtime) (v : VMID) : Runtime :=
  { r.modify v fun m => { m with proc := .alive } with
    strays := r.strays ++ r.machines[v]?.toList.filter Machine.running }

def tracked (r : Runtime) (v : VMID) : Option Machine := r.machines[v]?.filter Machine.tracked

def setDisk (r : Runtime) (key : ServerID) (present : Bool) : Runtime :=
  { r with disks := fun k => if k = key then present else r.disks k }

def setWorld (r : Runtime) (key : ServerID) (present : Bool) : Runtime :=
  { r with worlds := fun k => if k = key then present else r.worlds k }

/-- A process that is gone cannot be configured. One that has exited unnoticed keeps the
boot waiting for its socket. -/
def configure (r : Runtime) (v : VMID) : Except String Unit :=
  match r.machines[v]? with
  | none => .error "firecracker exited before API socket was ready"
  | some m =>
    if m.proc = .alive then .ok ()
    else if m.running then .error "timed out waiting for API socket"
    else .error "firecracker exited before API socket was ready"

/-- A step fails with the text of its fault, or as the state of the runtime has it. A guest
that does not power off in time is left to be killed. -/
def perform (cfg : Config) (fault : Option String) (e : Call) (r : Runtime) :
    Answer e × Runtime :=
  match e, fault with
  | .checkCapacity cpus memMB, _ =>
    (if r.fits cfg cpus memMB then .ok () else .error "insufficient host capacity", r)
  | .ensureImage, some text => (.error text, r)
  | .ensureImage, none => (.ok (), r)
  | .newMachine _, some text => (.error text, r)
  | .newMachine spec, none =>
    (.ok r.machines.length, { r with
      machines := r.machines ++ [⟨spec.serverID, spec.cpus, spec.memoryMB, .unstarted, false⟩] })
  | .prepareWorldDisk _, some text => (.error text, r)
  | .prepareWorldDisk key, none => (.ok (), r.setDisk key true)
  | .spawn _, some text => (.error text, r)
  | .spawn v, none => (.ok (), r.spawn v)
  | .configure _, some text => (.error text, r)
  | .configure v, none => (r.configure v, r)
  | .insert v, _ => ((), r.modify v fun m => { m with tracked := true })
  | .find v, _ => (r.tracked v, r)
  | .drop v, _ => (r.tracked v, r.modify v fun m => { m with tracked := false })
  | .running v, _ => (r.machines[v]?.any Machine.running, r)
  | .powerOff _, some _ => ((), r)
  | .powerOff v, none => ((), r.modify v Machine.kill)
  | .kill v, _ => ((), r.modify v Machine.kill)
  | .snapshotWorldDisk _, some text => (.error text, r)
  | .snapshotWorldDisk key, none => (.ok (), r.setWorld key true)
  | .snapshotRunning _ _, some text => (.error text, r)
  | .snapshotRunning v key, none =>
    if r.machines[v]?.any (·.proc = .alive) then (.ok (), r.setWorld key true)
    else (.error "firecracker: dial vsock uds", r)
  | .removeDisk _, some text => (.error text, r)
  | .removeDisk key, none => (.ok (), r.setDisk key false)
  | .deleteWorld _, some text => (.error text, r)
  | .deleteWorld key, none => (.ok (), r.setWorld key false)
  | .removeDir _, some text => (.error text, r)
  | .removeDir _, none => (.ok (), r)

end Runtime

/-- Processes exit by themselves: a guest resets, a VMM crashes. Nobody waits for them. -/
inductive Event where
  | exit (v : VMID)
  | exitStray (i : Nat)
  deriving DecidableEq, Repr

def Machine.exit (m : Machine) : Machine :=
  { m with proc := if m.proc = .alive then .exited else m.proc }

def Runtime.event (r : Runtime) : Event → Runtime
  | .exit v => r.modify v Machine.exit
  | .exitStray i => { r with strays := r.strays.eraseIdx i }

/-- How far a command has got: it has found a machine, it has room for one, the machine is
ready to boot, its process is up, or a teardown has taken it out of the table. -/
inductive Stage where
  | begun
  | found (v : VMID) (cpus memMB : Nat)
  | checked (cpus memMB : Nat)
  | ready (v : VMID) (cpus memMB : Nat)
  | booted (v : VMID)
  | dropped (key : ServerID)
  | ended
  deriving DecidableEq, Repr

def Stage.next : Stage → (e : Call) → Answer e → Stage
  | .begun, .checkCapacity cpus memMB, .ok _ => .checked cpus memMB
  | .begun, .checkCapacity _ _, .error _ => .ended
  | .begun, .find v, some m => .found v m.vcpus m.memoryMB
  | .begun, .find _, none => .ended
  | .begun, .drop _, some m => .dropped m.serverID
  | .begun, .drop _, none => .ended
  | .found v cpus memMB, .checkCapacity _ _, .ok _ => .ready v cpus memMB
  | .found _ _ _, .checkCapacity _ _, .error _ => .ended
  | .checked _ _, .ensureImage, .error _ => .ended
  | .checked cpus memMB, .newMachine _, .ok v => .ready v cpus memMB
  | .checked _ _, .newMachine _, .error _ => .ended
  | .ready _ _ _, .prepareWorldDisk _, .error _ => .ended
  | .ready v _ _, .spawn _, .ok _ => .booted v
  | .ready _ _ _, .spawn _, .error _ | .booted _, .configure _, .error _ | .booted _, .insert _, _
  | .dropped _, .removeDisk _, .error _ | .dropped _, .removeDir _, _ => .ended
  | st, _, _ => st

def runtime (cfg : Config) :
    System Op Stage Call Answer Outcome Runtime (Option String) Event where
  body := execOp cfg
  first _ := .begun
  note := Stage.next
  perform := Runtime.perform cfg
  other w r := some (r.event w)

abbrev Commands := Pool Op Stage Call Answer Outcome Runtime

def Commands.init : Commands := ⟨Runtime.init, []⟩

def smallHost : Config := ⟨2, 2048, true, true⟩

def smallSpec (id : ServerID) : VMSpec := ⟨id, "minecraft", "1.21", 2, 2048, none, []⟩

end Craftling.Host

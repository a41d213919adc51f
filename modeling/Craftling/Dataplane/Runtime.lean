import Craftling.Effects.Program
import Craftling.Effects.Runs
import Craftling.Dataplane.Ipam

namespace Craftling.Dataplane
open Effects

structure VMEntry where
  vmIP : Addr
  tapIfindex : Nat
  vmMAC : EthAddr
  deriving DecidableEq, Repr

structure DnatKey where
  hostIP : Addr
  hostPort : Port
  proto : UInt8
  deriving DecidableEq, Repr

structure DnatVal where
  vmIP : Addr
  tapIfindex : Nat
  vmPort : Port
  vmMAC : EthAddr
  deriving DecidableEq, Repr

def protoTCP : UInt8 := 6

/-- A machine, with what a command reads of it once it is made. It always has a run spec to
publish. -/
structure Machine where
  id : String
  tapName : String
  net : VMNet
  servicePort : Port
  worldDisk : Bool
  vsock : Bool
  deriving DecidableEq, Repr

def isIdDigit (c : Char) : Bool := ('0' ≤ c ∧ c ≤ '9') ∨ ('a' ≤ c ∧ c ≤ 'f')

def tapNameFor (vmID : String) : String :=
  "fc" ++ String.ofList ((vmID.toList.filter isIdDigit).take 13)

def defaultMinecraftPort : Port := 25565

structure Config where
  hostIP : Addr
  persist : Bool
  store : Bool
  deriving DecidableEq, Repr

/-- The network state of a host: what the allocator has handed out, the maps of the dataplane,
the TAPs that `nat_tap` is attached to and those the dataplane remembers a link for, the TAP
devices with their interface numbers, and the table of machines. -/
structure Host where
  ipam : Ipam
  vmConfig : Addr → Option VMEntry
  dnatRules : DnatKey → Option DnatVal
  attached : List String
  tapLinks : List String
  taps : List (String × Nat)
  nextIfindex : Nat
  vms : List Machine

def Host.start (ipam : Ipam) : Host :=
  { ipam := ipam, vmConfig := fun _ => none, dnatRules := fun _ => none
    attached := [], tapLinks := [], taps := [], nextIfindex := 1, vms := [] }

def Host.tapNames (h : Host) : List String := h.taps.map Prod.fst

def Host.ifindex? (h : Host) (name : String) : Option Nat := h.taps.lookup name

def Host.withTAP (h : Host) (name : String) : Host :=
  if name ∈ h.tapNames then h
  else { h with taps := (name, h.nextIfindex) :: h.taps, nextIfindex := h.nextIfindex + 1 }

inductive Step where
  | checkSpec | checkCapacity | provisionRef | ensureImage | makeDir
  | persistTarget | prepareWorldDisk
  | createLog | startFirecracker | waitForSocket
  | machineConfig | bootSource | rootDrive | worldDrive | vsock
  | openTun | ifreq | setIff | bringUp | attachTAPFilter
  | networkInterface | mmdsConfig | mmdsData | putMmds
  | instanceStart
  | snapshotWorldDisk | removeWorldDisk | removeDir
  deriving DecidableEq, Repr

inductive Call where
  | attempt (step : Step)
  | allocate
  | release (n : VMNet)
  | persistTAP (name : String)
  | interfaceByName (name : String)
  | linked (name : String)
  | attachTCX (name : String)
  | closeLink (name : String)
  | putVMConfig (key : Addr) (e : VMEntry)
  | deleteVMConfig (key : Addr)
  | putDnatRule (key : DnatKey) (v : DnatVal)
  | deleteDnatRule (key : DnatKey)
  | keepLink (name : String)
  | dropLink (name : String)
  | deleteTAP (name : String)
  | lookup (id : String)
  | track (m : Machine)
  | untrack (id : String)
  | running (id : String)
  | kill (id : String)
  deriving DecidableEq

abbrev Answer : Call → Type
  | .attempt _ | .persistTAP _ | .attachTCX _ | .putVMConfig _ _ | .putDnatRule _ _ =>
    Except String Unit
  | .allocate => Except String VMNet
  | .interfaceByName _ => Except String Nat
  | .linked _ | .running _ => Bool
  | .lookup _ | .untrack _ => Option Machine
  | .release _ | .closeLink _ | .deleteVMConfig _ | .deleteDnatRule _ | .keepLink _ | .dropLink _
  | .deleteTAP _ | .track _ | .kill _ => Unit

abbrev Ops := Prog Call Answer

abbrev Act := ExceptT String Ops

def ask (e : Call) : Ops (Answer e) := .call e .done

def Act.within (context : String) (p : Act α) : Act α :=
  p.adapt (context ++ ·)

def attempt (step : Step) (context : String) : Act Unit :=
  Act.within context (ask (.attempt step))

def attemptIf (has : Bool) (step : Step) (context : String) : Act Unit :=
  if has then attempt step context else pure ()

def Act.onError (p : Act α) (cleanup : Ops Unit) : Act α :=
  Prog.bind p fun r => match r with
    | .ok a => .done (.ok a)
    | .error err => cleanup.bind fun _ => .done (.error err)

section Commands

variable (cfg : Config)

/-- The TAP stays from the moment it is made persistent. Before that it goes with the
descriptor. -/
def createTAP (name : String) : Act Unit := do
  attempt .openTun "open /dev/net/tun: "
  attempt .ifreq s!"ifreq {name}: "
  attempt .setIff "TUNSETIFF: "
  Act.within "TUNSETPERSIST: " (ask (.persistTAP name))
  attempt .bringUp ""
  attempt .attachTAPFilter ""

def dnatKey (n : VMNet) : DnatKey := ⟨cfg.hostIP, n.hostPort, protoTCP⟩

def publishVM (tapName : String) (n : VMNet) (vmServicePort : Port) : Act Unit := do
  let index ← Act.within s!"firecracker: tap {tapName}: " (ask (.interfaceByName tapName))
  if ← ask (.linked tapName) then
    return ()
  Act.within s!"firecracker: attach nat_tap to {tapName}: " (ask (.attachTCX tapName))
  Act.onError
    (Act.within "firecracker: write vm_config: "
      (ask (.putVMConfig n.vmIP ⟨n.vmIP, index, macArray n.vmMAC⟩)))
    (ask (.closeLink tapName))
  Act.onError
    (Act.within "firecracker: write dnat rule: "
      (ask (.putDnatRule (dnatKey cfg n) ⟨n.vmIP, index, vmServicePort, macArray n.vmMAC⟩)))
    (do
      ask (.deleteVMConfig n.vmIP)
      ask (.closeLink tapName))
  ask (.keepLink tapName)

def withdrawVM (tapName : String) (n : VMNet) : Ops Unit := do
  if ← ask (.linked tapName) then
    ask (.dropLink tapName)
    ask (.closeLink tapName)
  ask (.deleteVMConfig n.vmIP)
  ask (.deleteDnatRule (dnatKey cfg n))

def configureMMDS (m : Machine) : Act Unit := do
  let tapName := m.tapName
  Act.within s!"create tap {tapName}: " (createTAP tapName)
  attempt .networkInterface "network interface: "
  Act.within "nat dataplane: " (publishVM cfg tapName m.net m.servicePort)
  attempt .mmdsConfig "mmds config: "
  attempt .mmdsData "build mmds data: "
  attempt .putMmds "publish mmds data: "

def configure (m : Machine) : Act Unit := do
  attempt .machineConfig "machine config: "
  attempt .bootSource "boot source: "
  attempt .rootDrive "root drive: "
  attemptIf m.worldDisk .worldDrive "world drive: "
  attemptIf m.vsock .vsock "vsock: "
  Act.within "mmds: " (configureMMDS cfg m)

def boot (m : Machine) : Act Unit := do
  attempt .createLog "create log: "
  attempt .startFirecracker "start firecracker: "
  Act.onError
    (do
      attempt .waitForSocket ""
      configure cfg m
      attempt .instanceStart "instance start: ")
    (ask (.kill m.id))

structure VM where
  id : String
  port : Port
  running : Bool
  deriving DecidableEq, Repr

def vmView (m : Machine) : Ops VM := do
  let up ← ask (.running m.id)
  return ⟨m.id, if m.net.hostPort ≠ 0 then m.net.hostPort else defaultMinecraftPort, up⟩

def prepareWorld : Act Unit := do
  attemptIf cfg.persist .persistTarget
    "firecracker: world persistence requires an absolute, non-root WorkingDir, got "
  attemptIf cfg.persist .prepareWorldDisk "firecracker: world disk: "

def newMachine (id : String) (n : VMNet) : Machine :=
  { id := id, tapName := tapNameFor id, net := n, servicePort := defaultMinecraftPort
    worldDisk := cfg.persist, vsock := cfg.persist }

/-- The id is the one that the source draws at random. -/
def provision (id : String) : Act VM := do
  attempt .checkSpec "firecracker: invalid spec: "
  attempt .checkCapacity ""
  attempt .provisionRef ""
  attempt .ensureImage "firecracker: resolve image: "
  attempt .makeDir "firecracker: vm dir: "
  let n ← ask .allocate
  Act.onError (prepareWorld cfg) (ask (.release n))
  let m := newMachine cfg id n
  Act.onError (Act.within "firecracker: boot vm: " (boot cfg m)) (ask (.release n))
  ask (.track m)
  vmView m

def start (id : String) : Act VM := do
  match ← ask (.lookup id) with
  | none => throw "vm not found"
  | some m =>
    if ← ask (.running id) then
      vmView m
    else
      attempt .checkCapacity ""
      Act.within "firecracker: restart vm: " (boot cfg m)
      vmView m

def stop (id : String) : Act Unit := do
  match ← ask (.lookup id) with
  | none => return ()
  | some m =>
    ask (.kill id)
    attemptIf (cfg.persist && cfg.store && m.worldDisk) .snapshotWorldDisk
      "firecracker: snapshot world on stop: "

/-- The deletion of the stored world, whose result is ignored, is left out. -/
def teardown (id : String) : Act Unit := do
  match ← ask (.untrack id) with
  | none => return ()
  | some m =>
    ask (.kill id)
    withdrawVM cfg m.tapName m.net
    ask (.release m.net)
    ask (.deleteTAP m.tapName)
    attemptIf m.worldDisk .removeWorldDisk "firecracker: remove world disk: "
    attempt .removeDir "firecracker: remove vm dir: "

end Commands

inductive Command where
  | provision (id : String)
  | start (id : String)
  | stop (id : String)
  | evict (id : String)
  | deprovision (id : String)
  deriving DecidableEq, Repr

def Command.prog (cfg : Config) : Command → Ops Bool
  | .provision id => (Dataplane.provision cfg id).run.bind fun r => .done r.isOk
  | .start id => (Dataplane.start cfg id).run.bind fun r => .done r.isOk
  | .stop id => (Dataplane.stop cfg id).run.bind fun r => .done r.isOk
  | .evict id | .deprovision id => (teardown cfg id).run.bind fun r => .done r.isOk

/-- An operation whose failure the source reports fails when its surroundings choose to give
it a fault. -/
def failing (fault : Option String) (a : α) : Except String α :=
  match fault with
  | some text => .error text
  | none => .ok a

def Call.fallible : Call → Bool
  | .attempt _ | .persistTAP _ | .interfaceByName _ | .attachTCX _ | .putVMConfig .. | .putDnatRule .. =>
    true
  | _ => false

/-- How far the TAP of a command has come: it is not made yet, it is made, or it was made and a step
after it has failed. -/
inductive TapStage where
  | before | made | broken
  deriving DecidableEq

def TapStage.next (fault : Option String) (e : Call) : TapStage → TapStage
  | .before =>
    match e with
    | .persistTAP _ => if fault.isSome then .before else .made
    | _ => .before
  | .made => if fault.isSome && e.fallible then .broken else .made
  | .broken => .broken

namespace Host

/-- One operation. A TAP that is removed takes the programs attached to it along. Whether a
process is alive is up to its surroundings: here it has died when there is a fault. -/
def perform (h : Host) (fault : Option String) : (e : Call) → Answer e × Host
  | .attempt _ => (failing fault (), h)
  | .allocate => (h.ipam.allocate.1, { h with ipam := h.ipam.allocate.2 })
  | .release n => ((), { h with ipam := h.ipam.release n })
  | .persistTAP name => (failing fault (), if fault.isSome then h else h.withTAP name)
  | .interfaceByName name =>
    (match h.ifindex? name with
      | some index => failing fault index
      | none => .error "no such network interface", h)
  | .linked name => (decide (name ∈ h.tapLinks), h)
  | .attachTCX name =>
    (failing fault (), if fault.isSome then h else { h with attached := name :: h.attached })
  | .closeLink name => ((), { h with attached := h.attached.filter (· ≠ name) })
  | .putVMConfig key e =>
    (failing fault (), if fault.isSome then h
      else { h with vmConfig := Function.update h.vmConfig key (some e) })
  | .deleteVMConfig key => ((), { h with vmConfig := Function.update h.vmConfig key none })
  | .putDnatRule key v =>
    (failing fault (), if fault.isSome then h
      else { h with dnatRules := Function.update h.dnatRules key (some v) })
  | .deleteDnatRule key => ((), { h with dnatRules := Function.update h.dnatRules key none })
  | .keepLink name => ((), { h with tapLinks := name :: h.tapLinks })
  | .dropLink name => ((), { h with tapLinks := h.tapLinks.filter (· ≠ name) })
  | .deleteTAP name =>
    ((), { h with
      taps := h.taps.filter (·.1 ≠ name)
      attached := h.attached.filter (· ≠ name) })
  | .lookup id => (h.vms.find? (·.id = id), h)
  | .track m => ((), { h with vms := m :: h.vms.filter (·.id ≠ m.id) })
  | .untrack id => (h.vms.find? (·.id = id), { h with vms := h.vms.filter (·.id ≠ id) })
  | .running _ => (fault.isNone, h)
  | .kill _ => ((), h)

def Performs (h : Host) (e : Call) (r : Answer e) (h' : Host) : Prop :=
  ∃ fault, h.perform fault e = (r, h')

/-- The faults are listed one for each operation, in the order of a command's operations. Beside the
host goes how far the command's TAP has come. -/
def serve (e : Call) (s : (Host × TapStage) × List (Option String)) :
    Answer e × (Host × TapStage) × List (Option String) :=
  ((s.1.1.perform (s.2.headD none) e).1,
    ((s.1.1.perform (s.2.headD none) e).2, s.1.2.next (s.2.headD none) e), s.2.tail)

def run (cfg : Config) (h : Host) (c : Command) (faults : List (Option String)) :
    Bool × Host × TapStage :=
  let (ok, s, _) := (c.prog cfg).runOn serve ((h, .before), faults)
  (ok, s)

end Host

/-- A host and what has happened to it: the TAP names that were drawn for its machines, and
whether a Provision was given a fault at a step after the one that makes its TAP persistent. -/
structure History where
  host : Host
  issued : List String
  left : Bool

def Command.draws : Command → Option String
  | .provision id => some (tapNameFor id)
  | _ => none

def History.step (cfg : Config) (g : History) (l : Command × List (Option String)) :
    Option History :=
  let (_, h, stage) := g.host.run cfg l.1 l.2
  some
    { host := h
      issued := l.1.draws.toList ++ g.issued
      left := g.left || (l.1.draws.isSome && stage = .broken) }

/-- The ids drawn so far differ in the digits that make the TAP's name. -/
def History.Fresh (g : History) (l : Command × List (Option String)) (_ : History) : Prop :=
  ∀ name ∈ l.1.draws, name ∉ g.issued

instance (g : History) (l : Command × List (Option String)) (g' : History) :
    Decidable (g.Fresh l g') :=
  inferInstanceAs (Decidable (∀ name ∈ l.1.draws, name ∉ g.issued))

end Craftling.Dataplane

import Craftling.Agent.LiveSnapshot

namespace Craftling.Agent.Lifecycle
open Effects LiveSnapshot

/-- What an operation of the agent's VM lifecycle does to the host. `lookup` and
`take` are the two ways of consulting the table of tracked VMs. -/
inductive Call where
  | lookup
  | take
  | running
  | capacity
  | boot
  | shutdown
  | kill
  | openDisk
  | streamBlock (i : Nat)
  | putStream
  | removeWorld
  | deleteWorld
  | removeDir
  deriving DecidableEq, Repr

abbrev Answer : Call → Type
  | .lookup => Bool
  | .take => Bool
  | .running => Bool
  | .capacity => Except String Unit
  | .boot => Except String Unit
  | .shutdown => Unit
  | .kill => Unit
  | .openDisk | .streamBlock _ | .putStream | .removeWorld => Except String Unit
  | .deleteWorld => Unit
  | .removeDir => Except String Unit

abbrev Ops := Prog Call Answer

def lookup : Ops Bool := .call .lookup .done
def take : Ops Bool := .call .take .done
def running : Ops Bool := .call .running .done
def checkCapacity : Ops (Except String Unit) := .call .capacity .done
def boot : Ops (Except String Unit) := .call .boot .done
def shutdown : Ops Unit := .call .shutdown .done
def kill : Ops Unit := .call .kill .done
def openDisk : Ops (Except String Unit) := .call .openDisk .done
def streamBlock (i : Nat) : Ops (Except String Unit) := .call (.streamBlock i) .done
def putStream : Ops (Except String Unit) := .call .putStream .done
def removeWorld : Ops (Except String Unit) := .call .removeWorld .done
def deleteWorld : Ops Unit := .call .deleteWorld .done
def removeDir : Ops (Except String Unit) := .call .removeDir .done

def streamBlocks (i : Nat) : Nat → Ops (Except String Unit)
  | 0 => return .ok ()
  | n + 1 => do
    match ← streamBlock i with
    | .error e => return .error e
    | .ok () => streamBlocks (i + 1) n

/-- A read error fails the `Put` it feeds, so nothing is published. -/
def snapshotWorldDisk (blocks : Nat) : Ops (Except String Unit) := do
  match ← openDisk with
  | .error e => return .error ("open world disk: " ++ e)
  | .ok () =>
    match ← streamBlocks 0 blocks with
    | .error e => return .error ("store world snapshot: " ++ e)
    | .ok () =>
      match ← putStream with
      | .error e => return .error ("store world snapshot: " ++ e)
      | .ok () => return .ok ()

def start : Ops (Except String Unit) := do
  if !(← lookup) then return .error "vm not found"
  else if ← running then return .ok ()
  else
    match ← checkCapacity with
    | .error e => return .error e
    | .ok () =>
      match ← boot with
      | .error e => return .error ("firecracker: restart vm: " ++ e)
      | .ok () => return .ok ()

def stop (m : Machine) : Ops (Except String Unit) := do
  if !(← lookup) then return .ok ()
  else
    shutdown
    if m.store && m.worldDisk != "" then
      match ← snapshotWorldDisk m.blocks with
      | .error e => return .error ("firecracker: snapshot world on stop: " ++ e)
      | .ok () => return .ok ()
    else return .ok ()

def removeFootprint (m : Machine) (deleting : Bool) : Ops (Except String Unit) := do
  if m.worldDisk != "" then
    match ← removeWorld with
    | .error e => return .error ("firecracker: remove world disk: " ++ e)
    | .ok () =>
      if deleting && m.store then deleteWorld
      removeDirOf
  else removeDirOf
where
  removeDirOf : Ops (Except String Unit) := do
    match ← removeDir with
    | .error e => return .error ("firecracker: remove vm dir: " ++ e)
    | .ok () => return .ok ()

/-- Evict and Deprovision differ in what becomes of the durable snapshot. -/
def teardown (m : Machine) (deleting : Bool) : Ops (Except String Unit) := do
  if !(← take) then return .ok ()
  else
    kill
    removeFootprint m deleting

def evict (m : Machine) : Ops (Except String Unit) := teardown m false

end Craftling.Agent.Lifecycle

import Craftling.Effects.Program
import Craftling.Effects.Runs

namespace Craftling.Agent.Provision
open Effects

/-- How recent a world is: the stamp of the last guest write in it. A freshly
formatted disk holds no write. -/
abbrev Stamp := Nat

/-- The spec of a VM as far as its world depends on it. `workingDir` is the one that
the image and the caller's override come to. -/
structure VMSpec where
  serverID : String
  cpus : Int
  memoryMB : Int
  workingDir : String
  deriving DecidableEq, Repr

structure Config where
  worldPersistence : Bool
  store : Bool
  nat : Bool
  deriving DecidableEq, Repr

/-- What a Provision does to the host and asks of the store. `publish` renames a
finished temp file to the world disk's path. Resolving and building the image is one
call that brings its own error text. -/
inductive Call where
  | capacity (cpus memoryMB : Int)
  | ensureImage
  | makeDir
  | allocNet
  | releaseNet
  | removeDir
  | exists (key : String)
  | get (key : String)
  | gunzip
  | makeWorldDir
  | createTemp
  | fillTemp
  | closeTemp
  | mkfs
  | removeTemp
  | publish (path : String) (world : Stamp)
  | stat (path : String)
  | boot (path : String)
  deriving DecidableEq, Repr

/-- `makeDir` yields the new VM's id, `boot` the world that the VM came up with. -/
abbrev Answer : Call → Type
  | .capacity _ _ => Except String Unit
  | .ensureImage => Except String Unit
  | .makeDir => Except String String
  | .allocNet => Except String Unit
  | .releaseNet => Unit
  | .removeDir => Unit
  | .exists _ => Except String Bool
  | .get _ => Except String Stamp
  | .gunzip | .makeWorldDir | .createTemp | .fillTemp | .closeTemp | .mkfs => Except String Unit
  | .removeTemp => Unit
  | .publish _ _ => Except String Unit
  | .stat _ => Except String Bool
  | .boot _ => Except String (Option Stamp)

abbrev Act := Prog Call Answer

def ask (e : Call) : Act (Answer e) := .call e .done

/-- A safe single path segment. The store names its objects the same way. -/
def sanitizeKey (key : String) : String :=
  let safe := key.toList.map fun c =>
    if ('a' ≤ c && c ≤ 'z') || ('A' ≤ c && c ≤ 'Z') || ('0' ≤ c && c ≤ '9') ||
        c == '.' || c == '_' || c == '-' then c else '_'
  if safe.isEmpty then "_" else String.ofList safe

/-- The overlay needs an absolute working directory below the root. -/
def persistTarget (workingDir : String) : Bool :=
  workingDir.toList.head? = some '/' && workingDir != "/"

def orElse (r : Except String α) (ctx : String) (cleanup : Act Unit)
    (next : α → Act (Except String β)) : Act (Except String β) :=
  match r with
  | .error e => cleanup.bind fun _ => .done (.error (ctx ++ e))
  | .ok a => next a

def removeTemp : Act Unit := ask .removeTemp

def nothing : Act Unit := .done ()

/-- Restore the stored world next to the disk and rename it into place, replacing
whatever is there. -/
def restoreWorldDisk (key path : String) : Act (Except String Unit) := do
  orElse (← ask (.get key)) "get world snapshot: " nothing fun world => do
  orElse (← ask .gunzip) "open world snapshot: " nothing fun _ => do
  orElse (← ask .makeWorldDir) "world disk dir: " nothing fun _ => do
  removeTemp
  orElse (← ask .createTemp) "create world disk: " nothing fun _ => do
  orElse (← ask .fillTemp) "write world disk: " removeTemp fun _ => do
  orElse (← ask .closeTemp) "close world disk: " removeTemp fun _ => do
  orElse (← ask (.publish path world)) "publish world disk: " removeTemp fun _ =>
  return .ok ()

def ensureWorldDisk (path : String) : Act (Except String Unit) := do
  orElse (← ask (.stat path)) ("stat world disk " ++ path.quote ++ ": ") nothing fun present => do
  if present then return .ok ()
  else
    orElse (← ask .makeWorldDir) "world disk dir: " nothing fun _ => do
    removeTemp
    orElse (← ask .createTemp) "create world disk: " nothing fun _ => do
    orElse (← ask .fillTemp) "size world disk: " removeTemp fun _ => do
    orElse (← ask .closeTemp) "close world disk: " removeTemp fun _ => do
    orElse (← ask .mkfs) "mkfs.ext4 world disk: " removeTemp fun _ => do
    orElse (← ask (.publish path 0)) "publish world disk: " removeTemp fun _ =>
    return .ok ()

/-- The choice between a stored world and the disk on the host is made by what the
store holds alone. -/
def prepareWorldDisk (cfg : Config) (key path : String) : Act (Except String Unit) := do
  if cfg.store then
    orElse (← ask (.exists key)) "check world store: " nothing fun stored => do
    if stored then restoreWorldDisk key path else ensureWorldDisk path
  else ensureWorldDisk path

structure Provisioned where
  id : String
  key : String
  world : Option Stamp
  deriving DecidableEq, Repr

def abandon (cfg : Config) : Act Unit := do
  if cfg.nat then ask .releaseNet
  ask .removeDir

def bootVM (cfg : Config) (id key path : String) : Act (Except String Provisioned) := do
  orElse (← ask (.boot path)) "firecracker: boot vm: " (abandon cfg) fun world =>
  return .ok ⟨id, key, world⟩

def provisionIn (cfg : Config) (spec : VMSpec) (id : String) : Act (Except String Provisioned) := do
  if cfg.worldPersistence then
    if persistTarget spec.workingDir then
      let key := if spec.serverID = "" then id else spec.serverID
      let path := sanitizeKey key
      orElse (← prepareWorldDisk cfg key path) "firecracker: world disk: " (abandon cfg) fun _ =>
      bootVM cfg id key path
    else
      abandon cfg
      return .error ("firecracker: world persistence requires an absolute, non-root " ++
        "WorkingDir, got " ++ spec.workingDir.quote)
  else bootVM cfg id "" ""

def provision (cfg : Config) (spec : VMSpec) : Act (Except String Provisioned) := do
  if spec.cpus ≤ 0 ∨ spec.memoryMB ≤ 0 then
    return .error ("firecracker: invalid spec: cpus=" ++ toString spec.cpus ++ " memory_mb=" ++
      toString spec.memoryMB)
  else
    orElse (← ask (.capacity spec.cpus spec.memoryMB)) "" nothing fun _ => do
    orElse (← ask .ensureImage) "" nothing fun _ => do
    orElse (← ask .makeDir) "firecracker: vm dir: " nothing fun id => do
    if cfg.nat then
      orElse (← ask .allocNet) "" (ask .removeDir) fun _ => provisionIn cfg spec id
    else provisionIn cfg spec id

end Craftling.Agent.Provision

import Mathlib

namespace Craftling.Control

abbrev UserID := Nat
abbrev ServerID := Nat
abbrev HostID := Nat
abbrev VMID := Nat
abbrev Time := Nat

inductive Desired where
  | running | stopped | deleted
  deriving DecidableEq, Repr

inductive Status where
  | pending | provisioning | running | stopping | stopped | deleting | deleted | error
  | unschedulable
  deriving DecidableEq, Repr

/-- A row of `game_servers`. Rows are numbered as they are created. A VM id that is NULL
and one that is the empty string are read alike and are both `none`. -/
structure GameServer where
  id : ServerID
  ownerID : UserID
  name : String
  game : String
  version : String
  cpus : Nat
  memoryMB : Nat
  imageRef : Option String
  env : List String
  desired : Desired
  status : Status
  hostID : Option HostID
  vmID : Option VMID
  host : Option String
  port : Option Nat
  statusMessage : Option String
  backupRequested : Bool
  playersOnline : Option Int
  playersMax : Option Int
  lastSeen : Option Time
  deleted : Bool
  deriving DecidableEq, Repr

/-- What the control plane's calls report, apart from `agent`, which brings the text that
the agent sent. -/
inductive Err where
  | db (text : String)
  | hostNotConnected
  | sendFailed (op : String)
  | agent (op text : String)
  | deadlineExceeded
  | unplaced
  | noCapacity
  | notFound
  | hostNotReady
  | insufficientCapacity
  deriving DecidableEq, Repr

def Err.text : Err → String
  | .db text => text
  | .hostNotConnected => "host has no live agent connection"
  | .sendFailed op => "send " ++ op ++ " command: rpc error"
  | .agent op text => "agent " ++ op ++ ": " ++ text
  | .deadlineExceeded => "context deadline exceeded"
  | .unplaced => "server has no host assigned"
  | .noCapacity => "no host with sufficient capacity"
  | .notFound => "not found"
  | .hostNotReady => "host not ready"
  | .insufficientCapacity => "insufficient host capacity"

def updateRow (rows : List GameServer) (id : ServerID) (f : GameServer → GameServer) :
    List GameServer :=
  rows.modify id f

def nullIf (text : String) : Option String := if text = "" then none else some text

def GameServer.marked (status : Status) (message : String) (s : GameServer) : GameServer :=
  { s with status, statusMessage := nullIf message }

def GameServer.markedRunning (vmID : Option VMID) (host : String) (port : Nat) (s : GameServer) :
    GameServer :=
  { s with status := .running, vmID, host := some host, port := some port, statusMessage := none }

def GameServer.markedStopped (s : GameServer) : GameServer :=
  { s with
    status := .stopped, vmID := none, host := none, port := none, hostID := none,
    statusMessage := none, playersOnline := none, playersMax := none, lastSeen := none }

def GameServer.softDeleted (s : GameServer) : GameServer :=
  { s with
    status := .deleted, hostID := none, vmID := none, host := none, port := none,
    statusMessage := none, playersOnline := none, playersMax := none, lastSeen := none,
    deleted := true }

/-- Only a row that is still taken to be running is dropped back to pending. -/
def GameServer.markedLost (message : String) (s : GameServer) : GameServer :=
  if !s.deleted && s.status = .running then
    { s with
      status := .pending, vmID := none, statusMessage := nullIf message,
      playersOnline := none, playersMax := none, lastSeen := none }
  else s

def GameServer.markedHealth (reachable : Bool) (online max : Int) (now : Time) (s : GameServer) :
    GameServer :=
  if !s.deleted && s.status = .running then
    { s with
      playersOnline := if reachable then some online else none
      playersMax := if reachable then some max else none
      lastSeen := if reachable then some now else s.lastSeen }
  else s

def GameServer.reconcilable (s : GameServer) : Bool :=
  !s.deleted && (s.desired = .deleted || s.backupRequested ||
    (s.desired = .running && s.status ≠ .running) ||
    (s.desired = .stopped && s.status ≠ .stopped))

def GameServer.running (s : GameServer) : Bool :=
  !s.deleted && s.status = .running && s.desired = .running

structure Order where
  arrange : List GameServer → List GameServer
  perm : ∀ rows, (arrange rows).Perm rows

def Order.asStored : Order := ⟨id, fun _ => .rfl⟩

def listLimit : Nat := 100

def listReconcilable (order : Order) (rows : List GameServer) : List GameServer :=
  (order.arrange (rows.filter GameServer.reconcilable)).take listLimit

def listRunning (order : Order) (rows : List GameServer) : List GameServer :=
  (order.arrange (rows.filter GameServer.running)).take listLimit

def GameServer.on (h : HostID) (s : GameServer) : Bool := !s.deleted && s.hostID = some h

def usedCPUs (rows : List GameServer) (h : HostID) : Nat :=
  (rows.map fun s => if s.on h then s.cpus else 0).sum

def usedMemory (rows : List GameServer) (h : HostID) : Nat :=
  (rows.map fun s => if s.on h then s.memoryMB else 0).sum

inductive HostStatus where
  | ready | draining | down
  deriving DecidableEq, Repr

structure Host where
  id : HostID
  hostname : String
  cpusTotal : Nat
  memoryMBTotal : Nat
  cpusAllocatable : Nat
  memoryMBAllocatable : Nat
  status : HostStatus
  lastHeartbeatAt : Time
  deriving DecidableEq, Repr

structure LinkInfo where
  id : Option HostID
  hostname : String
  cpusTotal : Nat
  memoryMBTotal : Nat
  deriving DecidableEq, Repr

/-- The record that a registration refers to: by the agent's id when it brings one, by its
hostname otherwise. -/
def LinkInfo.refersTo (info : LinkInfo) (h : Host) : Bool :=
  match info.id with
  | some id => h.id = id
  | none => h.hostname = info.hostname

def findHost (hosts : List Host) (id : HostID) : Option Host := hosts.find? (·.id = id)

def updateHost (hosts : List Host) (id : HostID) (f : Host → Host) : List Host :=
  hosts.map fun h => if h.id = id then f h else h

def Host.reregistered (info : LinkInfo) (now : Time) (h : Host) : Host :=
  { h with
    hostname := info.hostname, cpusTotal := info.cpusTotal, memoryMBTotal := info.memoryMBTotal,
    status := .ready, lastHeartbeatAt := now }

/-- The record of a host that is new to the process. Subtraction stops at zero. -/
def LinkInfo.registered (info : LinkInfo) (id : HostID) (reservedCPUs reservedMemMB : Nat)
    (now : Time) : Host :=
  { id, hostname := info.hostname, cpusTotal := info.cpusTotal,
    memoryMBTotal := info.memoryMBTotal, cpusAllocatable := info.cpusTotal - reservedCPUs,
    memoryMBAllocatable := info.memoryMBTotal - reservedMemMB, status := .ready,
    lastHeartbeatAt := now }

/-- A host that is known keeps its allocatable capacity. `id` is the record's, or the one
that a new record gets: the agent's own, or one that is fresh. -/
def registerReserved (hosts : List Host) (info : LinkInfo) (id : HostID) (fresh : Bool)
    (reservedCPUs reservedMemMB : Nat) (now : Time) : Option (List Host) :=
  if hosts.any info.refersTo then
    if hosts.any fun h => info.refersTo h && h.id = id then
      some (updateHost hosts id (·.reregistered info now))
    else none
  else if info.id = some id || (info.id = none && fresh && (findHost hosts id).isNone) then
    some (hosts ++ [info.registered id reservedCPUs reservedMemMB now])
  else none

variable {id : HostID} {cpus memMB : Nat}

theorem registerReserved_eq {fresh : Bool}
    (h : registerReserved hosts info id fresh cpus memMB now = some hosts') :
    (id ∈ hosts.map Host.id ∧ hosts' = updateHost hosts id (·.reregistered info now)) ∨
      (id ∉ hosts.map Host.id ∧ hosts' = hosts ++ [info.registered id cpus memMB now] ∧
        (info.id = some id ∨ info.id = none ∧ fresh = true)) := by
  unfold registerReserved at h
  split at h
  · split at h
    · rename_i hk
      simp only [List.any_eq_true, Bool.and_eq_true, decide_eq_true_eq] at hk
      obtain ⟨x, hx, -, hi⟩ := hk
      exact .inl ⟨hi ▸ List.mem_map_of_mem hx, (Option.some.inj h).symm⟩
    · cases h
  · rename_i hn
    split at h
    · rename_i hi
      refine .inr ⟨?_, (Option.some.inj h).symm, ?_⟩
      · intro hm
        obtain ⟨x, hx, hxi⟩ := List.mem_map.mp hm
        simp only [Bool.or_eq_true, Bool.and_eq_true, decide_eq_true_eq,
          Option.isNone_iff_eq_none] at hi
        rcases hi with hi | ⟨-, hf⟩
        · exact hn (List.any_eq_true.mpr ⟨x, hx, by simp [LinkInfo.refersTo, hi, hxi]⟩)
        · exact absurd hxi (by simpa using List.find?_eq_none.mp hf x hx)
      · simp only [Bool.or_eq_true, Bool.and_eq_true, decide_eq_true_eq] at hi
        exact hi.imp_right And.left
    · cases h

def heartbeat (hosts : List Host) (id : HostID) (now : Time) : List Host :=
  updateHost hosts id fun h =>
    { h with
      lastHeartbeatAt := now, status := if h.status = .down then .ready else h.status }

def markDown (hosts : List Host) (id : HostID) : List Host :=
  updateHost hosts id fun h => { h with status := .down }

def markStale (hosts : List Host) (cutoff : Time) : List Host :=
  hosts.map fun h => if h.lastHeartbeatAt < cutoff then { h with status := .down } else h

def listHosts (hosts : List Host) : List Host := hosts.reverse

def listReady (hosts : List Host) : List Host :=
  (listHosts hosts).filter (·.status = .ready)

def reserve (hosts : List Host) (id : HostID) (cpus memMB : Nat) : Except Err (List Host) :=
  match findHost hosts id with
  | none => .error .notFound
  | some h =>
    if h.status ≠ .ready then .error .hostNotReady
    else if h.cpusAllocatable < cpus || h.memoryMBAllocatable < memMB then
      .error .insufficientCapacity
    else
      .ok (updateHost hosts id fun h =>
        { h with
          cpusAllocatable := h.cpusAllocatable - cpus
          memoryMBAllocatable := h.memoryMBAllocatable - memMB })

theorem reserve_ok (h : reserve hosts id cpus memMB = .ok hosts') :
    ∃ x ∈ hosts, x.id = id ∧ cpus ≤ x.cpusAllocatable ∧ memMB ≤ x.memoryMBAllocatable ∧
      hosts' = updateHost hosts id fun h =>
        { h with
          cpusAllocatable := h.cpusAllocatable - cpus
          memoryMBAllocatable := h.memoryMBAllocatable - memMB } := by
  unfold reserve at h
  split at h
  · cases h
  rename_i x hx
  split at h
  · cases h
  split at h
  · cases h
  rename_i hf
  simp only [Bool.or_eq_true, decide_eq_true_eq, not_or, not_lt] at hf
  have hi : x.id = id := by simpa using List.find?_some hx
  exact ⟨x, List.mem_of_find?_eq_some hx, hi, hf.1, hf.2, (Except.ok.inj h).symm⟩

def release (hosts : List Host) (id : HostID) (cpus memMB : Nat) : List Host :=
  updateHost hosts id fun h =>
    { h with
      cpusAllocatable := min (h.cpusAllocatable + cpus) h.cpusTotal
      memoryMBAllocatable := min (h.memoryMBAllocatable + memMB) h.memoryMBTotal }

end Craftling.Control

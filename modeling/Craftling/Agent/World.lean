import Craftling.Agent.Lifecycle
import Craftling.Effects.Runs

namespace Craftling.Agent
open Effects Guest LiveSnapshot

/-- A compressed run of one block, with the thread that read it. Two threads
writing into one file leave their runs mixed. -/
structure Piece (D : Type) where
  writer : Nat
  index : Nat
  data : D
  deriving DecidableEq, Repr

abbrev Blob (D : Type) := List (Piece D)

/-- `gunzip`: only a whole stream of a single writer comes out again. -/
def decode (blocks : Nat) (b : Blob D) : Option (List D) :=
  if b.map Piece.index = List.range blocks ∧ ∀ p ∈ b, ∀ p' ∈ b, p.writer = p'.writer then
    some (b.map Piece.data)
  else none

/-- The host's uses of the control channel. The periodic sweep and the on-demand
snapshot are the same session. -/
inductive Job where
  | snapshot
  | health
  | whitelist (payload : String)
  deriving DecidableEq, Repr

abbrev Outcome := Except String String

def Job.session (m : Machine) : Job → Session Outcome
  | .snapshot => (snapshotRunning m).bind fun r => .done (r.map fun _ => "")
  | .health => probeHealth m
  | .whitelist payload => (syncWhitelist m payload).bind fun r => .done (r.map fun _ => "")

/-- A control connection: not dialed yet, dialed while the guest was in the given
boot and waiting to be accepted, or accepted. -/
inductive Conn where
  | undialed
  | pending (boot : Nat)
  | accepted
  deriving DecidableEq, Repr

/-- One session of the host with its connection, which is known by the session's
place in the list of all sessions. `acked` records the guest's OK to
its PREPARE, and `released` that the host no longer counts on the freeze: it sent
RESUME, failed on the connection or closed it. `reads` holds the blocks it
captured, each with the connection the filesystem was frozen for. -/
structure Thread where
  job : Job
  rest : Session Outcome
  conn : Conn
  toGuest : List String
  toHost : List String
  acked : Bool
  released : Bool
  reads : List (Nat × Option Nat)
  out : Nat
  inp : Nat

def Thread.succeeded (t : Thread) : Bool :=
  match t.rest with
  | .done r => r.isOk
  | .call _ _ => false

def Thread.start (m : Machine) (job : Job) : Thread :=
  ⟨job, job.session m, .undialed, [], [], false, false, [], 0, 0⟩

inductive Server where
  | off
  | accepting
  | scanning (c : Nat) (fd : Option Fd)
  | handling (c : Nat) (verb : Verb) (p : Handler (Option Fd))
  | finishing (c : Nat) (p : Handler Unit)

def Server.client : Server → Option Nat
  | .scanning c _ => some c
  | .handling c _ _ => some c
  | _ => none

def Server.isOff : Server → Bool
  | .off => true
  | _ => false

def Server.afterLine (c : Nat) (verb : Verb) : Handler (Option Fd) → Server
  | .done fd => .scanning c fd
  | .call e k => .handling c verb (.call e k)

def Server.afterEnd (c : Nat) : Handler Unit → Server
  | .done _ => .accepting
  | .call e k => .finishing c (.call e k)

inductive Op where
  | start
  | stop
  | evict
  deriving DecidableEq, Repr

def Op.prog (m : Machine) : Op → Lifecycle.Ops (Except String Unit)
  | .start => Lifecycle.start
  | .stop => Lifecycle.stop m
  | .evict => Lifecycle.evict m

structure OpRun (D : Type) where
  op : Op
  rest : Lifecycle.Ops (Except String Unit)
  stream : Blob D

structure Returned where
  op : Op
  ok : Bool
  boot : Nat
  deriving DecidableEq, Repr

/-- One VM of an agent with everything that can touch its world. The agent
serialises the lifecycle of a server, so there is one operation at a time; control
sessions run beside it and beside each other. -/
structure World (D : Type) where
  threads : List Thread
  op : Option (OpRun D)
  returned : List Returned
  guest : Server
  frozenFor : Option Nat
  boots : Nat
  reaped : Bool
  tracked : Bool
  disk : Nat → D
  diskPresent : Bool
  temp : Option Nat
  files : Nat → Blob D
  nextFile : Nat
  store : Option (Blob D)

def World.booted (disk : Nat → D) (store : Option (Blob D)) : World D where
  threads := []
  op := none
  returned := []
  guest := .accepting
  frozenFor := none
  boots := 1
  reaped := false
  tracked := true
  disk := disk
  diskPresent := true
  temp := none
  files := fun _ => []
  nextFile := 0
  store := store

def World.content (m : Machine) (w : World D) : List D := (List.range m.blocks).map w.disk

def World.setThread (w : World D) (k : Nat) (t : Thread) : World D :=
  { w with threads := w.threads.set k t }

def World.setFile (w : World D) (f : Nat) (b : Blob D) : World D :=
  { w with files := fun g => if g = f then b else w.files g }

/-- The guest is gone, and with it the freeze and every connection. -/
def World.halt (w : World D) : World D := { w with guest := .off, frozenFor := none }

/-- A call of a session that fails. Removing the temp file and closing the connection
have no errors to report. -/
def faulted (t : Thread) (err : String) :
    (e : LiveSnapshot.Call) → Option (LiveSnapshot.Answer e × Thread)
  | .dial => some (.error err, t)
  | .write _ | .readLine => some (.error err, { t with released := true })
  | .openDisk | .createTemp | .copyBlock _ | .closeTemp => some (.error err, t)
  | .removeTemp => none
  | .openTemp => some (.error err, t)
  | .put => some (.error err, t)
  | .closeConn => none

/-- A call of session `k` that succeeds. One that cannot come back yet, or cannot
succeed at all, has no answer. -/
def performed (w : World D) (k : Nat) (t : Thread) :
    (e : LiveSnapshot.Call) → Option (LiveSnapshot.Answer e × Thread × World D)
  | .dial => if w.guest.isOff then none else some (.ok (), { t with conn := .pending w.boots }, w)
  | .write line => some (.ok (), { t with
      toGuest := t.toGuest ++ [line], released := t.released || line = snapResume }, w)
  | .readLine =>
    match t.toHost with
    | [] => none
    | line :: rest => some (.ok line, { t with toHost := rest }, w)
  | .openDisk => if w.diskPresent then some (.ok (), t, w) else none
  | .createTemp =>
    match w.temp with
    | some f => some (.ok (), { t with out := f }, w.setFile f [])
    | none => some (.ok (), { t with out := w.nextFile },
        { w.setFile w.nextFile [] with temp := some w.nextFile, nextFile := w.nextFile + 1 })
  | .copyBlock i => some (.ok (), { t with reads := t.reads ++ [(i, w.frozenFor)] },
      w.setFile t.out (w.files t.out ++ [⟨k, i, w.disk i⟩]))
  | .closeTemp => some (.ok (), t, w)
  | .removeTemp => some ((), t, { w with temp := none })
  | .openTemp =>
    match w.temp with
    | none => none
    | some f => some (.ok (), { t with inp := f }, w)
  | .put => some (.ok (), t, { w with store := some (w.files t.inp) })
  | .closeConn => some ((), { t with released := true }, w)

def perform (w : World D) (k : Nat) (t : Thread) (fault : Option String)
    (e : LiveSnapshot.Call) : Option (LiveSnapshot.Answer e × Thread × World D) :=
  match fault with
  | some err => (faulted t err e).map fun (r, t') => (r, t', w)
  | none => performed w k t e

def hostStep (w : World D) (k : Nat) (fault : Option String) : Option (World D) :=
  match w.threads[k]? with
  | none => none
  | some t =>
    match t.rest with
    | .done _ => none
    | .call e cont =>
      (perform w k t fault e).map fun (r, t', w') => w'.setThread k { t' with rest := cont r }

def Thread.hears (t : Thread) (verb : Option Verb) : Guest.Call → Thread
  | .reply line => { t with
      toHost := t.toHost ++ [line],
      acked := t.acked || (verb = some .prepare && line = snapOK) }
  | _ => t

def freezeAfter (fz : Option Nat) (c : Nat) (e : Guest.Call) (r : Guest.Answer e) : Option Nat :=
  match e, r with
  | .fsFreeze _, r => if (show Option String from r).isNone then some c else fz
  | .fsThaw _, _ => none
  | _, _ => fz

def guestEffect (w : World D) (c : Nat) (verb : Option Verb) (e : Guest.Call)
    (r : Guest.Answer e) : World D :=
  { w with
    threads := w.threads.modify c (·.hears verb e)
    frozenFor := freezeAfter w.frozenFor c e r }

/-- A call of a lifecycle operation that fails. A boot that fails leaves no VM. -/
def faultedOp (w : World D) (err : String) :
    (e : Lifecycle.Call) → Option (Lifecycle.Answer e × World D)
  | .capacity => some (.error err, w)
  | .boot => some (.error err, w.halt)
  | .openDisk | .streamBlock _ | .putStream | .removeWorld | .removeDir => some (.error err, w)
  | .lookup | .take | .running | .shutdown | .kill | .deleteWorld => none

def performedOp (w : World D) (stream : Blob D) :
    (e : Lifecycle.Call) → Option (Lifecycle.Answer e × Blob D × World D)
  | .lookup => some (w.tracked, stream, w)
  | .take => some (w.tracked, stream, { w with tracked := false })
  | .running => some (!w.reaped, stream, w)
  | .capacity => some (.ok (), stream, w)
  | .boot => some (.ok (), stream, { w with
      guest := .accepting, frozenFor := none, boots := w.boots + 1, reaped := false })
  | .shutdown | .kill => some ((), stream, { w.halt with reaped := true })
  | .openDisk => if w.diskPresent then some (.ok (), stream, w) else none
  | .streamBlock i => some (.ok (), stream ++ [⟨0, i, w.disk i⟩], w)
  | .putStream => some (.ok (), stream, { w with store := some stream })
  | .removeWorld => some (.ok (), stream, { w with diskPresent := false, temp := none })
  | .deleteWorld => some ((), stream, { w with store := none })
  | .removeDir => some (.ok (), stream, w)

def performOp (w : World D) (stream : Blob D) (fault : Option String) (e : Lifecycle.Call) :
    Option (Lifecycle.Answer e × Blob D × World D) :=
  match fault with
  | some err => (faultedOp w err e).map fun (r, w') => (r, stream, w')
  | none => performedOp w stream e

def World.settleOp (w : World D) (op : Op) (stream : Blob D) :
    Lifecycle.Ops (Except String Unit) → World D
  | .done r => { w with op := none, returned := w.returned ++ [⟨op, r.isOk, w.boots⟩] }
  | .call e k => { w with op := some ⟨op, .call e k, stream⟩ }

def opStep (w : World D) (fault : Option String) : Option (World D) :=
  match w.op with
  | none => none
  | some run =>
    match run.rest with
    | .done _ => none
    | .call e cont =>
      (performOp w run.stream fault e).map fun (r, stream, w') =>
        w'.settleOp run.op stream (cont r)

inductive Label (D : Type) where
  | begin (job : Job)
  | host (k : Nat) (fault : Option String)
  | beginOp (op : Op)
  | op (fault : Option String)
  | accept (c : Nat)
  | nextLine
  | guestCall (o : Oracle)
  | endConn
  | powerOff
  | guestWrite (i : Nat) (d : D)

def step (m : Machine) (q : Option QuiesceConfig) (w : World D) : Label D → Option (World D)
  | .begin job => some { w with threads := w.threads ++ [Thread.start m job] }
  | .host k fault => hostStep w k fault
  | .beginOp op =>
    match w.op with
    | some _ => none
    | none => if op = .stop ∧ w.tracked = false then none
        else some { w with op := some ⟨op, op.prog m, []⟩ }
  | .op fault => opStep w fault
  | .accept c =>
    match w.guest, w.threads[c]? with
    | .accepting, some t =>
      if t.conn = .pending w.boots then
        some { w.setThread c { t with conn := .accepted } with guest := .scanning c none }
      else none
    | _, _ => none
  | .nextLine =>
    match w.guest with
    | .scanning c fd =>
      match w.threads[c]? with
      | none => none
      | some t =>
        match t.toGuest with
        | [] => none
        | line :: rest => some { w.setThread c { t with toGuest := rest } with
            guest := .afterLine c (verbOf line) (handleLine q fd line) }
    | _ => none
  | .guestCall o =>
    match w.guest with
    | .handling c verb (.call e k) =>
      some { guestEffect w c (some verb) e (o e) with guest := .afterLine c verb (k (o e)) }
    | .finishing c (.call e k) =>
      some { guestEffect w c none e (o e) with guest := .afterEnd c (k (o e)) }
    | _ => none
  | .endConn =>
    match w.guest with
    | .scanning c fd => some { w with guest := .afterEnd c (finishConn fd) }
    | _ => none
  | .powerOff => if w.guest.isOff then none else some w.halt
  | .guestWrite i d =>
    if w.guest.isOff ∨ w.frozenFor.isSome then none
    else some { w with disk := fun j => if j = i then d else w.disk j }

end Craftling.Agent

import Craftling.Effects.Files
import Craftling.Effects.Pool

namespace Craftling.Image
open Effects

abbrev Digest := Nat

/-- The names in the cache directory that belong to a digest: of the finished artifact, and of
the one being built, which ends in .tmp. -/
inductive Name where
  | final (d : Digest)
  | tmp (d : Digest)
  deriving DecidableEq, Repr

inductive Err where
  | failed (text : String)
  | notExist
  deriving DecidableEq, Repr

structure Handle where
  name : Name
  ino : Nat
  deriving DecidableEq, Repr

/-- What a build asks for. `pull` stands for everything up to the image's digest and config,
`prepare` for the cache directory and the init binary. -/
inductive Call where
  | pull
  | stat (n : Name)
  | prepare
  | remove (n : Name)
  | create (n : Name)
  | write (h : Handle) (c : Chunk)
  | close (h : Handle)
  | rename (a b : Name)
  deriving DecidableEq, Repr

abbrev Answer : Call → Type
  | .pull | .stat _ | .prepare | .remove _ => Except Err Unit
  | .create _ => Except Err Handle
  | .write _ _ | .close _ | .rename _ _ => Except Err Unit

abbrev Build := Prog Call Answer

def ask (e : Call) : Build (Answer e) := .call e .done

def onOk (r : Except Err α) (next : α → Build (Except Err β)) : Build (Except Err β) :=
  match r with
  | .error e => .done (.error e)
  | .ok a => next a

def writeAll (h : Handle) : List Chunk → Build (Except Err Unit)
  | [] => return .ok ()
  | c :: rest => do
    onOk (← ask (.write h c)) fun _ => writeAll h rest

def closeOut (h : Handle) (r : Except Err Unit) : Build (Except Err Unit) := do
  match r with
  | .error e =>
    let _ ← ask (.close h)
    return .error e
  | .ok _ => ask (.close h)

def buildSquashfs (chunks : List Chunk) (outPath : Name) : Build (Except Err Unit) := do
  onOk (← ask (.create outPath)) fun h => do
  closeOut h (← writeAll h chunks)

/-- A build that failed, at its last step or before it, removes its file. -/
def publish (finalPath tmpPath : Name) (r : Except Err Unit) : Build (Except Err Unit) := do
  match r with
  | .error e =>
    let _ ← ask (.remove tmpPath)
    return .error e
  | .ok _ =>
    match ← ask (.rename tmpPath finalPath) with
    | .error e =>
      let _ ← ask (.remove tmpPath)
      return .error e
    | .ok _ => return .ok ()

def buildInto (chunks : List Chunk) (finalPath tmpPath : Name) : Build (Except Err Unit) := do
  onOk (← ask .prepare) fun _ => do
  let _ ← ask (.remove tmpPath)
  publish finalPath tmpPath (← buildSquashfs chunks tmpPath)

def ensure (d : Digest) (chunks : List Chunk) : Build (Except Err (Option Name)) := do
  onOk (← ask .pull) fun _ => do
  match ← ask (.stat (.final d)) with
  | .ok _ => return .ok (some (.final d))
  | .error .notExist =>
    onOk (← buildInto chunks (.final d) (.tmp d)) fun _ => return .ok (some (.final d))
  | .error e => return .error e

def pullImage (d : Digest) (chunks : List Chunk) : Build (Except Err (Option Name)) := do
  onOk (← ask .pull) fun _ => do
  onOk (← buildInto chunks (.final d) (.tmp d)) fun _ => return .ok none

inductive Method where
  | ensure | pullImage
  deriving DecidableEq, Repr

/-- A call for an image. `chunks` is what the squashfs writer writes, from the placeholder
superblock to the final one, and `builds` says which sequences make a whole image of a
digest. -/
structure Job (builds : Digest → List Chunk → Prop) where
  method : Method
  digest : Digest
  chunks : List Chunk
  complete : builds digest chunks

variable {builds : Digest → List Chunk → Prop}

def Job.program (j : Job builds) : Build (Except Err (Option Name)) :=
  match j.method with
  | .ensure => ensure j.digest j.chunks
  | .pullImage => pullImage j.digest j.chunks

/-- A call that fails. Of a write, some of the data may have got through. -/
structure Fault where
  text : String
  written : Nat
  deriving DecidableEq, Repr

def perform (fault : Option Fault) (e : Call) (fs : FileSys Name) : Answer e × FileSys Name :=
  match e, fault with
  | .write h c, some f =>
    (.error (.failed f.text), fs.write h.ino ⟨c.offset, c.data.take f.written⟩)
  | .write h c, none => (.ok (), fs.write h.ino c)
  | .pull, some f => (.error (.failed f.text), fs)
  | .pull, none => (.ok (), fs)
  | .stat _, some f => (.error (.failed f.text), fs)
  | .stat n, none => (if (fs.names n).isSome then .ok () else .error .notExist, fs)
  | .prepare, some f => (.error (.failed f.text), fs)
  | .prepare, none => (.ok (), fs)
  | .remove _, some f => (.error (.failed f.text), fs)
  | .remove n, none => (if (fs.names n).isSome then .ok () else .error .notExist, fs.unlink n)
  | .create _, some f => (.error (.failed f.text), fs)
  | .create n, none => (.ok ⟨n, (fs.create n).1⟩, (fs.create n).2)
  | .close _, some f => (.error (.failed f.text), fs)
  | .close _, none => (.ok (), fs)
  | .rename _ _, some f => (.error (.failed f.text), fs)
  | .rename a b, none =>
    if (fs.names a).isSome then (.ok (), fs.rename a b) else (.error .notExist, fs)

/-- How far a build has got. One that is `present` has found the artifact or published it. -/
inductive Stage where
  | begun
  | writing (h : Handle) (done : List Chunk)
  | closed (h : Handle)
  | present
  | failing
  deriving DecidableEq, Repr

def Stage.next : Stage → (e : Call) → Answer e → Stage
  | .begun, .stat _, .ok _ => .present
  | .begun, .create _, .ok h => .writing h []
  | .begun, .create _, .error _ => .failing
  | .writing h done, .write _ c, .ok _ => .writing h (done ++ [c])
  | .writing _ _, .write _ _, .error _ => .failing
  | .writing h _, .close _, .ok _ => .closed h
  | .writing _ _, .close _, .error _ => .failing
  | .closed _, .rename _ _, .ok _ => .present
  | .closed _, .rename _ _, .error _ => .failing
  | st, _, _ => st

def Stage.handle : Stage → Option Handle
  | .writing h _ => some h
  | .closed h => some h
  | _ => none

def store (builds : Digest → List Chunk → Prop) :
    System (Job builds) Stage Call Answer (Except Err (Option Name)) (FileSys Name) (Option Fault)
      Empty where
  body := Job.program
  first _ := .begun
  note := Stage.next
  perform := perform
  other w _ := nomatch w

abbrev Builders (builds : Digest → List Chunk → Prop) :=
  Pool (Job builds) Stage Call Answer (Except Err (Option Name)) (FileSys Name)

end Craftling.Image

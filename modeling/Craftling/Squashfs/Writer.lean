import Craftling.Squashfs.Directory
import Craftling.Squashfs.Ids
import Craftling.Squashfs.Paths

namespace Craftling.Squashfs
open Effects

structure Config where
  blockSize : Nat
  compressor : Compressor
  mtime : Time

def minBlockSize : Nat := 4 * 1024

def maxBlockSize : Nat := 1024 * 1024

def withBlockSize (cfg : Config) (n : UInt32) : Except Err Config :=
  if n.toNat < minBlockSize ∨ maxBlockSize < n.toNat then
    .error (.failed "squashfs: block size out of range")
  else if n &&& (n - 1) ≠ 0 then .error (.failed "squashfs: block size must be a power of two")
  else .ok { cfg with blockSize := n.toNat }

/-- What an entry is. Of a file the blocks in the image are known, of a hardlink the path of the
file whose inode it has. -/
inductive Kind where
  | file (blocksStart : Nat) (blockSizes : List Nat) (size : Nat)
  | dir
  | symlink (target : Bytes)
  | hardlink (target : Bytes)
  | charDev (major minor : UInt32)
  | blockDev (major minor : UInt32)
  | fifo
  | socket
  deriving DecidableEq

structure Entry where
  path : Bytes
  kind : Kind
  attrs : Attrs
  deriving DecidableEq

def Attrs.zero : Attrs := ⟨0, 0, 0, Time.zero⟩

structure FileWriter where
  path : Bytes
  buf : Bytes
  deriving DecidableEq

/-- `out` is what has been written, which also tells the position. -/
structure Writer where
  cfg : Config
  closed : Bool
  out : Bytes
  entries : List Entry
  curFile : Option FileWriter

def newWriter (cfg : Config) : Writer :=
  ⟨cfg, false, List.replicate superblockSize 0, [], none⟩

def Writer.find (w : Writer) (p : Bytes) : Option Entry := w.entries.find? (·.path = p)

def Writer.add (w : Writer) (e : Entry) : Writer := { w with entries := w.entries ++ [e] }

def Writer.update (w : Writer) (p : Bytes) (f : Entry → Entry) : Writer :=
  { w with entries := w.entries.map fun e => if e.path = p then f e else e }

def Entry.addBlock (word : Nat) (e : Entry) : Entry :=
  match e.kind with
  | .file start sizes size => { e with kind := .file start (sizes ++ [word]) size }
  | _ => e

def Entry.addSize (n : Nat) (e : Entry) : Entry :=
  match e.kind with
  | .file start sizes size => { e with kind := .file start sizes (size + n) }
  | _ => e

def sizeWord (stored : Bytes) (raw : Bool) : Nat :=
  if raw then stored.length ||| 1 <<< 24 else stored.length

def emitBlock (p : Bytes) (w : Writer) (buf : Bytes) : Except Err Writer :=
  if buf = [] then .ok w
  else
    match pack w.cfg.compressor (.data w.out.length) buf with
    | .error e => .error (.within "squashfs: compress data block" e)
    | .ok (stored, raw) =>
      .ok { w.update p (Entry.addBlock (sizeWord stored raw)) with out := w.out ++ stored }

def flushCurFile (w : Writer) : Except Err Writer :=
  match w.curFile with
  | none => .ok w
  | some fw => do
    let w ← emitBlock fw.path w fw.buf
    return { w with curFile := none }

def Writer.write (w : Writer) (p data : Bytes) : Except Err Writer :=
  match w.curFile with
  | none => .error .staleEntry
  | some fw =>
    if fw.path ≠ p then .error .staleEntry
    else if w.closed then .error .closed
    else do
      let (w, buf) ← feed w.cfg.blockSize (emitBlock p) w fw.buf data
      return { w.update p (Entry.addSize data.length) with curFile := some ⟨p, buf⟩ }

def beginEntry (w : Writer) (p : Bytes) : Except Err Writer :=
  if w.closed then .error .closed
  else do
    let w ← flushCurFile w
    validatePath p
    if (w.find p).isSome then .error (.duplicate p) else .ok w

def createFile (w : Writer) (p : Bytes) (a : Attrs) : Except Err Writer := do
  let w ← beginEntry w p
  return { w.add ⟨p, .file w.out.length [] 0, a⟩ with curFile := some ⟨p, []⟩ }

def createPlain (w : Writer) (p : Bytes) (a : Attrs) (k : Kind) : Except Err Writer := do
  let w ← beginEntry w p
  return w.add ⟨p, k, a⟩

def createDir (w : Writer) (p : Bytes) (a : Attrs) : Except Err Writer := createPlain w p a .dir

def createSymlink (w : Writer) (p : Bytes) (a : Attrs) (target : Bytes) : Except Err Writer := do
  let w ← beginEntry w p
  if target = [] then .error (.failed "squashfs: symlink target must be non-empty")
  else .ok (w.add ⟨p, .symlink target, a⟩)

def createHardlink (w : Writer) (p target : Bytes) : Except Err Writer :=
  if w.closed then .error .closed
  else do
    let w ← flushCurFile w
    validatePath p
    validatePath target
    if (w.find p).isSome then .error (.duplicate p)
    else
      match w.find target with
      | some ⟨_, .file .., _⟩ => .ok (w.add ⟨p, .hardlink target, .zero⟩)
      | _ => .error .hardlinkTarget

def createCharDevice (w : Writer) (p : Bytes) (a : Attrs) (major minor : UInt32) :
    Except Err Writer := createPlain w p a (.charDev major minor)

def createBlockDevice (w : Writer) (p : Bytes) (a : Attrs) (major minor : UInt32) :
    Except Err Writer := createPlain w p a (.blockDev major minor)

def createFIFO (w : Writer) (p : Bytes) (a : Attrs) : Except Err Writer := createPlain w p a .fifo

def createSocket (w : Writer) (p : Bytes) (a : Attrs) : Except Err Writer :=
  createPlain w p a .socket

inductive Call where
  | file (p : Bytes) (a : Attrs)
  | write (p data : Bytes)
  | dir (p : Bytes) (a : Attrs)
  | symlink (p : Bytes) (a : Attrs) (target : Bytes)
  | hardlink (p target : Bytes)
  | charDevice (p : Bytes) (a : Attrs) (major minor : UInt32)
  | blockDevice (p : Bytes) (a : Attrs) (major minor : UInt32)
  | fifo (p : Bytes) (a : Attrs)
  | socket (p : Bytes) (a : Attrs)
  deriving DecidableEq

def Writer.call (w : Writer) : Call → Except Err Writer
  | .file p a => createFile w p a
  | .write p data => w.write p data
  | .dir p a => createDir w p a
  | .symlink p a target => createSymlink w p a target
  | .hardlink p target => createHardlink w p target
  | .charDevice p a major minor => createCharDevice w p a major minor
  | .blockDevice p a major minor => createBlockDevice w p a major minor
  | .fifo p a => createFIFO w p a
  | .socket p a => createSocket w p a

def Writer.run (w : Writer) (calls : List Call) : Except Err Writer := calls.foldlM Writer.call w

end Craftling.Squashfs

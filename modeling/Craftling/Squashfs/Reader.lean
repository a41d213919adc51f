import Craftling.Squashfs.Closing

namespace Craftling.Squashfs
open Effects

inductive Content where
  | dir
  | file (data : Bytes)
  | symlink (target : Bytes)
  | charDev (major minor : Nat)
  | blockDev (major minor : Nat)
  | fifo
  | socket
  deriving DecidableEq

structure Found where
  place : Nat × Nat
  number : Nat
  mode : Nat
  uid : Nat
  gid : Nat
  mtime : Nat
  content : Content
  deriving DecidableEq

def Content.basicType : Content → Nat
  | .dir => inodeBasicDir
  | .file _ => inodeBasicFile
  | .symlink _ => inodeBasicSymlink
  | .blockDev .. => inodeBasicBlock
  | .charDev .. => inodeBasicChar
  | .fifo => inodeBasicFIFO
  | .socket => inodeBasicSocket

section Reading

variable (expand : Bytes → Option Bytes) (img : Bytes)

def readData (blockSize : Nat) : Nat → List Nat → Nat → Option Bytes
  | _, [], size => if size = 0 then some [] else none
  | pos, word :: words, size => do
    let (stored, _) ← readBytes (word % 2 ^ 24) (img.drop pos)
    let block ← unpack expand stored (2 ^ 24 ≤ word)
    if block.length = min blockSize size then do
      let rest ← readData blockSize (pos + word % 2 ^ 24) words (size - block.length)
      return block ++ rest
    else none

def readContent (sb : Superblock) : InodeBody → Option Content
  | .dir .. => some .dir
  | .file start size sizes => (readData expand img sb.blockSize start sizes size).map .file
  | .symlink target => some (.symlink target)
  | .device true dev => some (.blockDev (dev / 256) (dev % 256))
  | .device false dev => some (.charDev (dev / 256) (dev % 256))
  | .ipc true => some .socket
  | .ipc false => some .fifo

def readFound (sb : Superblock) (place : Nat × Nat) : Option (Found × InodeBody) := do
  let inode ← readInode sb.blockSize
    (readAt expand img (sb.inodeTableStart + place.1) place.2)
  let uid ← readID expand img sb.idTableStart inode.header.uidIdx
  let gid ← readID expand img sb.idTableStart inode.header.gidIdx
  let content ← readContent expand img sb inode.body
  return (⟨place, inode.header.inodeNumber, inode.header.perm, uid, gid, inode.header.mtime, content⟩,
    inode.body)

def readDir (sb : Superblock) : InodeBody → Option (List DirEntry)
  | .dir start size offset => do
    let b ← readAt expand img (sb.directoryTableStart + start) offset size
    readListing b.length b
  | _ => some []

def DirEntry.Agrees (e : DirEntry) (f : Found) : Prop :=
  e.childInode.toNat = f.number ∧ e.basicType = f.content.basicType

instance (e : DirEntry) (f : Found) : Decidable (e.Agrees f) := inferInstanceAs (Decidable (_ ∧ _))

/-- What is at a path and below it. `check` is what the entry that leads there says. -/
def decodeFrom (sb : Superblock) :
    Nat → Bytes → Nat × Nat → Option DirEntry → Option (List (Bytes × Found))
  | 0, _, _, _ => none
  | fuel + 1, path, place, check => do
    let (found, body) ← readFound expand img sb place
    if ∀ e ∈ check, e.Agrees found then do
      let entries ← readDir expand img sb body
      let below ← entries.mapM fun e =>
        decodeFrom sb fuel (joinPath path e.name) (e.inodeBlockByte, e.inodeBlockOff) (some e)
      return (path, found) :: below.flatten
    else none

def decode (fuel : Nat) : Option (List (Bytes × Found)) := do
  let sb ← readSuperblock img
  decodeFrom expand img sb fuel [slash] (sb.rootInodeRef / 65536, sb.rootInodeRef % 65536) none

def Decodes (tree : List (Bytes × Found)) : Prop :=
  ∃ n, ∀ fuel, n ≤ fuel → decode expand img fuel = some tree

end Reading

end Craftling.Squashfs

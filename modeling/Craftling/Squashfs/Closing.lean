import Craftling.Squashfs.Writer

namespace Craftling.Squashfs
open Effects

def Entry.isDir (e : Entry) : Bool :=
  match e.kind with
  | .dir => true
  | _ => false

def Entry.isLink (e : Entry) : Bool :=
  match e.kind with
  | .hardlink _ => true
  | _ => false

/-- Entries of one directory, each with what is below it. -/
inductive Forest where
  | nil
  | cons (e : Entry) (below rest : Forest)

def childrenOf (entries : List Entry) (dir : Bytes) : List Entry :=
  (entries.filter fun e => pathDir e.path = dir).insertionSort fun a b =>
    pathBase a.path ≤ pathBase b.path

def grow (entries : List Entry) : Nat → Bytes → Forest
  | 0, _ => .nil
  | fuel + 1, dir =>
    (childrenOf entries dir).foldr
      (fun e rest => .cons e (if e.isDir then grow entries fuel e.path else .nil) rest) .nil

def checkParent (entries : List Entry) (e : Entry) : Except Err Unit :=
  if pathDir e.path = [slash] then .ok ()
  else
    match entries.find? (·.path = pathDir e.path) with
    | none => .error (.noParent e.path (pathDir e.path))
    | some d => if d.isDir then .ok () else .error (.notDirectory (pathDir e.path) e.path)

def depthBound (entries : List Entry) : Nat := (entries.map fun e => e.path.length).sum + 1

/-- What is in the root, which no entry is written for. -/
def buildTree (entries : List Entry) : Except Err Forest := do
  entries.forM (checkParent entries)
  return grow entries (depthBound entries) [slash]

structure Numbers where
  next : UInt32
  number : Bytes → UInt32
  parent : Bytes → UInt32

def Numbers.give (s : Numbers) (p : Bytes) (parent : UInt32) : Numbers :=
  { next := s.next + 1
    number := Function.update s.number p s.next
    parent := Function.update s.parent p parent }

/-- An entry is numbered before what is below it. A hardlink has no number of its own. -/
def Forest.assign : Forest → UInt32 → Numbers → Numbers
  | .nil, _, s => s
  | .cons e below rest, parent, s =>
    if e.isLink then rest.assign parent s
    else rest.assign parent (below.assign s.next (s.give e.path parent))

def assignInodeNumbers (root : Forest) : Numbers :=
  root.assign 1 (Numbers.give ⟨1, fun _ => 0, fun _ => 0⟩ [slash] 1)

def Forest.subdirs : Forest → Nat
  | .nil => 0
  | .cons e _ rest => (if e.isDir then 1 else 0) + rest.subdirs

/-- The link count of a directory, a 32-bit number. Those of files are not stored, and of
everything else they are 1. -/
def Forest.linkCount (below : Forest) : Nat := (2 + below.subdirs) % 2 ^ 32

structure Owners where
  ids : List UInt32
  uidIdx : Bytes → Nat
  gidIdx : Bytes → Nat

def Owners.intern (s : Owners) (p : Bytes) (a : Attrs) : Except Err Owners := do
  let (u, ids) ← Squashfs.intern s.ids a.uid
  let (g, ids) ← Squashfs.intern ids a.gid
  return ⟨ids, Function.update s.uidIdx p u, Function.update s.gidIdx p g⟩

def rootAttrs (cfg : Config) : Attrs := ⟨0o755, 0, 0, cfg.mtime⟩

def internIDs (cfg : Config) (entries : List Entry) : Except Err Owners := do
  let s ← entries.foldlM
    (fun (s : Owners) e => if e.isLink then .ok s else s.intern e.path e.attrs)
    (⟨[], fun _ => 0, fun _ => 0⟩ : Owners)
  s.intern [slash] (rootAttrs cfg)

/-- The time in seconds, that of the configuration if one is set there. A time that is not set
counts as 0. -/
def entryMtime (cfg : Config) (a : Attrs) : Except Err Nat :=
  let t := if cfg.mtime = Time.zero then a.mtime else cfg.mtime
  if t = Time.zero then .ok 0
  else if t.unix < 0 ∨ 0xFFFFFFFF < t.unix then
    .error (.failed "squashfs: mtime out of uint32 epoch range")
  else .ok t.unix.toNat

structure Resolved where
  cfg : Config
  entries : List Entry
  nums : Numbers
  owners : Owners

def Resolved.header (x : Resolved) (p : Bytes) (a : Attrs) (mtime : Nat) : Header :=
  { perm := encodePerm a.mode
    uidIdx := x.owners.uidIdx p
    gidIdx := x.owners.gidIdx p
    mtime := mtime
    inodeNumber := (x.nums.number p).toNat }

/-- Where the link counts are taken from. -/
structure Links where
  leaf : Bytes → Nat
  dir : Bytes → Forest → Nat

/-- The link counts that are worked out in the end. -/
def Links.plain : Links := ⟨fun _ => 1, fun _ below => below.linkCount⟩

structure Leaves where
  inodes : MetaWriter
  refs : Bytes → MetaRef

section Leaves

variable (links : Links)

def encodeLeafWith (cfg : Config) (h : Header) (e : Entry) : Except Err Bytes :=
  match e.kind with
  | .file start sizes size => encodeBasicFile h cfg.blockSize start size sizes
  | .symlink target => encodeBasicSymlink h (links.leaf e.path) target
  | .charDev major minor => encodeBasicDevice h (links.leaf e.path) major minor false
  | .blockDev major minor => encodeBasicDevice h (links.leaf e.path) major minor true
  | .fifo => .ok (encodeBasicIPC h (links.leaf e.path) false)
  | .socket => .ok (encodeBasicIPC h (links.leaf e.path) true)
  | .dir => .error (.unsupported e.path)
  | .hardlink _ => .error (.unsupported e.path)

def Resolved.writeLeafWith (x : Resolved) (s : Leaves) (e : Entry) : Except Err Leaves :=
  if e.isDir || e.isLink then .ok s
  else do
    let mtime ← (entryMtime x.cfg e.attrs).mapError (.inEntry "squashfs" e.path)
    let body ← (encodeLeafWith links x.cfg (x.header e.path e.attrs mtime) e).mapError
      (.inEntry "squashfs: encode inode for" e.path)
    let inodes ← s.inodes.write x.cfg.compressor body
    return ⟨inodes, Function.update s.refs e.path s.inodes.ref⟩

def Resolved.writeLeafInodesWith (x : Resolved) : Except Err Leaves :=
  x.entries.foldlM (x.writeLeafWith links) ⟨newMetaWriter .inode, fun _ => ⟨0, 0⟩⟩

end Leaves

abbrev encodeLeaf := encodeLeafWith .plain

abbrev Resolved.writeLeaf := Resolved.writeLeafWith .plain

abbrev Resolved.writeLeafInodes := Resolved.writeLeafInodesWith .plain

def kindType : Kind → Nat
  | .file .. => inodeBasicFile
  | .dir => inodeBasicDir
  | .symlink _ => inodeBasicSymlink
  | .blockDev .. => inodeBasicBlock
  | .charDev .. => inodeBasicChar
  | .fifo => inodeBasicFIFO
  | .socket => inodeBasicSocket
  | .hardlink _ => 0

def Resolved.basicTypeFor (x : Resolved) (e : Entry) : Nat :=
  match e.kind with
  | .hardlink target => ((x.entries.find? (·.path = target)).map fun t => kindType t.kind).getD 0
  | k => kindType k

def Entry.inodePath (e : Entry) : Bytes :=
  match e.kind with
  | .hardlink target => target
  | _ => e.path

structure DirTables where
  inodes : MetaWriter
  dirs : MetaWriter

def Resolved.dirEntry (x : Resolved) (inodes : MetaWriter) (child : Entry × MetaRef) :
    Except Err DirEntry :=
  if 0xFFFFFFFF < inodes.blockByteOffset child.2.blockIdx then
    .error (.failed "squashfs: inode table exceeds 4 GiB")
  else
    .ok
      { name := pathBase child.1.path
        childInode := x.nums.number child.1.inodePath
        inodeBlockByte := inodes.blockByteOffset child.2.blockIdx
        inodeBlockOff := child.2.offset
        basicType := x.basicTypeFor child.1 }

def Forest.heads : Forest → List Entry
  | .nil => []
  | .cons e _ rest => e :: rest.heads

section Directories

variable (links : Links)

def Resolved.writeDirWith (x : Resolved) (p : Bytes) (a : Attrs) (below : Forest)
    (refs : List MetaRef) (t : DirTables) : Except Err (MetaRef × DirTables) := do
  let entries ← (below.heads.zip refs).mapM (x.dirEntry t.inodes)
  let (start, size, dirs) ← writeDirListing x.cfg.compressor t.dirs entries
  let mtime ← (entryMtime x.cfg a).mapError (.inEntry "squashfs" p)
  let body ← (encodeBasicDir (x.header p a mtime) (dirs.blockByteOffset start.blockIdx)
    (links.dir p below) size start.offset (x.nums.parent p).toNat).mapError
      (.inEntry "squashfs: encode inode for" p)
  let inodes ← t.inodes.write x.cfg.compressor body
  return (t.inodes.ref, ⟨inodes, dirs⟩)

/-- The directories below, deepest first, and the places of the inodes of the entries. Those of
leaves are known. -/
def Resolved.writeDirsWith (x : Resolved) (leafRefs : Bytes → MetaRef) :
    Forest → DirTables → Except Err (List MetaRef × DirTables)
  | .nil, t => .ok ([], t)
  | .cons e below rest, t => do
    let (ref, t) ←
      (if e.isDir then
        x.writeDirsWith leafRefs below t >>= fun (refs, t) =>
          x.writeDirWith links e.path e.attrs below refs t
      else .ok (leafRefs e.inodePath, t))
    let (refs, t) ← x.writeDirsWith leafRefs rest t
    return (ref :: refs, t)

end Directories

abbrev Resolved.writeDir := Resolved.writeDirWith .plain

abbrev Resolved.writeDirs := Resolved.writeDirsWith .plain

def totalInodeCount (entries : List Entry) : Nat :=
  ((entries.filter fun e => !e.isLink).length + 1) % 2 ^ 32

def clampTime (sec : Int) : Nat := if sec < 0 then 0 else if 0xFFFFFFFF < sec then 0xFFFFFFFF else sec.toNat

def imageMtime (cfg : Config) (entries : List Entry) : Nat :=
  if cfg.mtime ≠ Time.zero then clampTime cfg.mtime.unix
  else
    clampTime (entries.foldl
      (fun latest e => if e.attrs.mtime = Time.zero then latest else max latest e.attrs.mtime.unix) 0)

def blockLogFor (blockSize : Nat) : Nat := ((List.range 32).find? fun i => blockSize.testBit i).getD 32

def padAlignment : Nat := 4096

def padding (used : Nat) : Bytes :=
  if used % padAlignment = 0 then [] else List.replicate (padAlignment - used % padAlignment) 0

def flagNoFragments : Nat := 1 <<< 4

def flagNoXattrs : Nat := 1 <<< 9

/-- What `Close` writes after the data, and the superblock that it puts in front at the end. -/
structure Layout where
  inodeTable : Bytes
  directoryTable : Bytes
  idData : Bytes
  idOffsets : List Nat
  rootInodeRef : Nat
  idCount : Nat

def Writer.superblock (w : Writer) (l : Layout) : Superblock :=
  let inodeTableStart := w.out.length
  let directoryTableStart := inodeTableStart + l.inodeTable.length
  let idTableStart := directoryTableStart + l.directoryTable.length + l.idData.length
  { inodeCount := totalInodeCount w.entries
    modTime := imageMtime w.cfg w.entries
    blockSize := w.cfg.blockSize
    fragCount := 0
    compressor := w.cfg.compressor.id.toNat
    blockLog := blockLogFor w.cfg.blockSize
    flags := flagNoFragments ||| flagNoXattrs
    idCount := l.idCount
    rootInodeRef := l.rootInodeRef
    bytesUsed := idTableStart + (writeLookup l.idOffsets).length
    idTableStart := idTableStart
    xattrTableStart := noTable
    inodeTableStart := inodeTableStart
    directoryTableStart := directoryTableStart
    fragmentTableStart := noTable
    exportTableStart := noTable }

def Writer.imageWith (w : Writer) (l : Layout) (superblock : Superblock) : Bytes :=
  superblock.encode ++ w.out.drop superblockSize ++ l.inodeTable ++ l.directoryTable ++ l.idData ++
    writeLookup l.idOffsets ++ padding superblock.bytesUsed

abbrev Writer.image (w : Writer) (l : Layout) : Bytes := w.imageWith l (w.superblock l)

def Writer.layoutWith (links : Forest → Links) (w : Writer) : Except Err Layout := do
  let root ← buildTree w.entries
  let owners ← internIDs w.cfg w.entries
  let x : Resolved := ⟨w.cfg, w.entries, assignInodeNumbers root, owners⟩
  let leaves ← x.writeLeafInodesWith (links root)
  let (refs, t) ← x.writeDirsWith (links root) leaves.refs root
    ⟨leaves.inodes, newMetaWriter .directory⟩
  let (rootRef, t) ← x.writeDirWith (links root) [slash] (rootAttrs w.cfg) root refs t
  let inodes ← t.inodes.flush w.cfg.compressor
  let dirs ← t.dirs.flush w.cfg.compressor
  let inodeTable ← inodes.emitTo.mapError (.within "squashfs: emit inode table")
  let directoryTable ← dirs.emitTo.mapError (.within "squashfs: emit directory table")
  let (idOffsets, idData) ← (writeData w.cfg.compressor owners.ids
    (w.out.length + inodeTable.length + directoryTable.length)).mapError
      (.within "squashfs: emit ID table data")
  return ⟨inodeTable, directoryTable, idData, idOffsets,
    rootRef.encode (inodes.blockByteOffset rootRef.blockIdx), owners.ids.length⟩

abbrev Writer.layout := Writer.layoutWith fun _ => .plain

def Writer.close (w : Writer) : Except Err Writer :=
  if w.closed then .error .closed
  else do
    let w ← flushCurFile w
    let l ← w.layout
    return { w with closed := true, out := w.image l }

end Craftling.Squashfs

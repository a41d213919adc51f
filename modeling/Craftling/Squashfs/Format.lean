import Craftling.Effects.Records
import Craftling.Effects.Blocks

namespace Craftling.Squashfs
open Effects

/-- `within` is an error with the text of a caller before it. -/
inductive Err where
  | incompressible
  | closed
  | invalidPath
  | hardlinkTarget
  | staleEntry
  | duplicate (p : Bytes)
  | noParent (p parent : Bytes)
  | notDirectory (parent p : Bytes)
  | unsupported (p : Bytes)
  | failed (text : String)
  | within (context : String) (e : Err)
  | inEntry (context : String) (p : Bytes) (e : Err)
  deriving DecidableEq

/-- A point in time, in seconds since 1970. The zero value is the start of the year 1. -/
structure Time where
  unix : Int
  nsec : Nat
  deriving DecidableEq

def Time.zero : Time := ⟨-62135596800, 0⟩

/-- The permission bits, owner and time of an entry. -/
structure Attrs where
  mode : UInt32
  uid : UInt32
  gid : UInt32
  mtime : Time
  deriving DecidableEq

inductive Table where
  | inode | directory | id
  deriving DecidableEq

/-- Which block is compressed: a data block by its place in the image, a metadata block by its
number in its table. No two calls of a compressor are for the same block, so what it returns may
depend on more than the bytes. -/
inductive BlockId where
  | data (pos : Nat)
  | metadata (t : Table) (n : Nat)
  deriving DecidableEq

structure Compressor where
  id : UInt16
  compress : BlockId → Bytes → Except Err Bytes

/-- What is stored for a block, and whether it is the block itself. Output that is no smaller than
the block is not used. -/
def pack (c : Compressor) (i : BlockId) (src : Bytes) : Except Err (Bytes × Bool) :=
  match c.compress i src with
  | .error .incompressible => .ok (src, true)
  | .error e => .error e
  | .ok out => if src.length ≤ out.length then .ok (src, true) else .ok (out, false)

def unpack (expand : Bytes → Option Bytes) (stored : Bytes) (raw : Bool) : Option Bytes :=
  if raw then some stored else expand stored

/-- The compressor declines a block, or returns something that gives the block back. -/
def Compressor.Inverted (c : Compressor) (expand : Bytes → Option Bytes) : Prop :=
  ∀ i src, src ≠ [] → c.compress i src = .error .incompressible ∨
    ∃ out, c.compress i src = .ok out ∧ out ≠ [] ∧ expand out = some src

/-- What is stored for a block gives it back, and takes no more room. -/
structure Stores (expand : Bytes → Option Bytes) (stored : Bytes) (raw : Bool) (src : Bytes) :
    Prop where
  unpacks : unpack expand stored raw = some src
  nonempty : stored ≠ []
  small : stored.length ≤ src.length

variable {src stored : Bytes}

theorem pack_stores (hc : c.Inverted expand) (hs : src ≠ [])
    (h : pack c i src = .ok (stored, raw)) : Stores expand stored raw src := by
  unfold pack at h
  obtain hd | ⟨out, ho, hn, hb⟩ := hc i src hs
  · rw [hd] at h
    cases h
    exact ⟨rfl, hs, Nat.le_refl _⟩
  rw [ho] at h
  dsimp only at h
  split at h
  · cases h
    exact ⟨rfl, hs, Nat.le_refl _⟩
  rename_i hsm
  cases h
  exact ⟨hb, hn, by omega⟩

theorem Stores.src_nonempty (h : Stores expand stored raw src) : 0 < src.length :=
  Nat.lt_of_lt_of_le (List.length_pos_iff.mpr h.nonempty) h.small

theorem pack_total (hc : c.Inverted expand) (i : BlockId) (hs : src ≠ []) :
    ∃ x, pack c i src = .ok x := by
  rcases hc i src hs with hd | ⟨out, ho, _⟩
  · exact ⟨_, by rw [pack, hd]⟩
  rw [pack, ho]
  dsimp only
  split
  · exact ⟨_, rfl⟩
  · exact ⟨_, rfl⟩

def rawCompressor : Compressor := ⟨1, fun _ _ => .error .incompressible⟩

theorem rawCompressor_inverted (expand : Bytes → Option Bytes) :
    rawCompressor.Inverted expand := fun _ _ _ => .inl rfl

def magic : Nat := 0x73717368

def superblockSize : Nat := 96

def noTable : Nat := 0xFFFFFFFFFFFFFFFF

structure Superblock where
  inodeCount : Nat
  modTime : Nat
  blockSize : Nat
  fragCount : Nat
  compressor : Nat
  blockLog : Nat
  flags : Nat
  idCount : Nat
  rootInodeRef : Nat
  bytesUsed : Nat
  idTableStart : Nat
  xattrTableStart : Nat
  inodeTableStart : Nat
  directoryTableStart : Nat
  fragmentTableStart : Nat
  exportTableStart : Nat
  deriving DecidableEq

def Superblock.fields (sb : Superblock) : List (Nat × Nat) :=
  [(4, magic), (4, sb.inodeCount), (4, sb.modTime), (4, sb.blockSize), (4, sb.fragCount),
    (2, sb.compressor), (2, sb.blockLog), (2, sb.flags), (2, sb.idCount), (2, 4), (2, 0),
    (8, sb.rootInodeRef), (8, sb.bytesUsed), (8, sb.idTableStart), (8, sb.xattrTableStart),
    (8, sb.inodeTableStart), (8, sb.directoryTableStart), (8, sb.fragmentTableStart),
    (8, sb.exportTableStart)]

def Superblock.encode (sb : Superblock) : Bytes := record sb.fields

def superblockWidths : List Nat :=
  [4, 4, 4, 4, 4, 2, 2, 2, 2, 2, 2, 8, 8, 8, 8, 8, 8, 8, 8]

def readSuperblock (img : Bytes) : Option Superblock :=
  match readRecord superblockWidths img with
  | some ([m, inodeCount, modTime, blockSize, fragCount, compressor, blockLog, flags, idCount,
      major, minor, rootInodeRef, bytesUsed, idTableStart, xattrTableStart, inodeTableStart,
      directoryTableStart, fragmentTableStart, exportTableStart], _) =>
    if m = magic ∧ major = 4 ∧ minor = 0 then
      some
        { inodeCount, modTime, blockSize, fragCount, compressor, blockLog, flags, idCount,
          rootInodeRef, bytesUsed, idTableStart, xattrTableStart, inodeTableStart,
          directoryTableStart, fragmentTableStart, exportTableStart }
    else none
  | _ => none

@[simp] theorem length_superblock (sb : Superblock) : sb.encode.length = superblockSize := by
  simp [Superblock.encode, Superblock.fields, superblockSize]

theorem readSuperblock_encode (h : ∀ f ∈ sb.fields, f.2 < 256 ^ f.1) (rest : Bytes) :
    readSuperblock (sb.encode ++ rest) = some sb := by
  have hr : readRecord superblockWidths (sb.encode ++ rest) =
      some (sb.fields.map Prod.snd, rest) := readRecord_record h rest
  simp only [readSuperblock, hr, Superblock.fields, List.map_cons, List.map_nil, and_self, if_true]

end Craftling.Squashfs

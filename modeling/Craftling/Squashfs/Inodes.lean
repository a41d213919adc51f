import Craftling.Squashfs.Metadata

namespace Craftling.Squashfs
open Effects List Option

def inodeBasicDir : Nat := 1

def inodeBasicFile : Nat := 2

def inodeBasicSymlink : Nat := 3

def inodeBasicBlock : Nat := 4

def inodeBasicChar : Nat := 5

def inodeBasicFIFO : Nat := 6

def inodeBasicSocket : Nat := 7

/-- What every inode has, next to its type: the permission bits, the places of the owners in the
table of ids, the time and the number. -/
structure Header where
  perm : Nat
  uidIdx : Nat
  gidIdx : Nat
  mtime : Nat
  inodeNumber : Nat
  deriving DecidableEq

structure Header.Fits (h : Header) : Prop where
  perm : h.perm < 256 ^ 2
  uidIdx : h.uidIdx < 256 ^ 2
  gidIdx : h.gidIdx < 256 ^ 2
  mtime : h.mtime < 256 ^ 4
  inodeNumber : h.inodeNumber < 256 ^ 4

def encodePerm (mode : UInt32) : Nat := mode.toNat &&& 0o777 ||| mode.toNat &&& 0o7000

def encodeDevice (major minor : UInt32) : Except Err Nat :=
  if 0xFFF < major.toNat then .error (.failed "squashfs: device major exceeds 12-bit limit")
  else if 0xFF < minor.toNat then
    .error (.failed "squashfs: device minor exceeds 8-bit limit (squashfs format constraint)")
  else .ok (major.toNat <<< 8 ||| minor.toNat)

def Header.fields (h : Header) (typ : Nat) : List (Nat × Nat) :=
  [(2, typ), (2, h.perm), (2, h.uidIdx), (2, h.gidIdx), (4, h.mtime), (4, h.inodeNumber)]

def writeCommonHeader (typ : Nat) (h : Header) : Bytes := record (h.fields typ)

/-- The size of a listing is a 32-bit number, and three more than it is recorded. -/
def encodeBasicDir (h : Header) (dirBlockStart nlinks dirListingSize dirBlockOffset parentInode : Nat) :
    Except Err Bytes :=
  if 0xFFFFFFFF < dirBlockStart then
    .error (.failed "squashfs: directory table exceeds 4 GiB (need extended dir support)")
  else if 0xFFFF < (dirListingSize + 3) % 2 ^ 32 then
    .error (.failed "squashfs: directory listing exceeds 64 KiB (need extended dir support)")
  else
    .ok (writeCommonHeader inodeBasicDir h ++
      record [(4, dirBlockStart), (4, nlinks), (2, (dirListingSize + 3) % 2 ^ 32),
        (2, dirBlockOffset), (4, parentInode)])

def invalidFragment : Nat := 0xFFFFFFFF

def blockCount (size blockSize : Nat) : Nat := (size + blockSize - 1) / blockSize

def encodeBasicFile (h : Header) (blockSize fileBlocksStart fileSize : Nat)
    (fileBlockSizes : List Nat) : Except Err Bytes :=
  if 0xFFFFFFFF < fileBlocksStart then
    .error (.failed "squashfs: archive exceeds 4 GiB before file inode (need extended file support)")
  else if 0xFFFFFFFF < fileSize then
    .error (.failed "squashfs: file exceeds 4 GiB (need extended file support)")
  else if fileBlockSizes.length ≠ blockCount fileSize blockSize then
    .error (.failed "squashfs: block-size count does not match file size")
  else
    .ok (writeCommonHeader inodeBasicFile h ++
      record [(4, fileBlocksStart), (4, invalidFragment), (4, 0), (4, fileSize)] ++
      record (fileBlockSizes.map fun s => (4, s)))

def encodeBasicSymlink (h : Header) (nlinks : Nat) (target : Bytes) : Except Err Bytes :=
  if 0xFFFF < target.length then
    .error (.failed "squashfs: symlink target exceeds 65535 bytes")
  else
    .ok (writeCommonHeader inodeBasicSymlink h ++ record [(4, nlinks), (4, target.length)] ++ target)

def encodeBasicDevice (h : Header) (nlinks : Nat) (major minor : UInt32) (block : Bool) :
    Except Err Bytes := do
  let dev ← encodeDevice major minor
  let typ := if block then inodeBasicBlock else inodeBasicChar
  return writeCommonHeader typ h ++ record [(4, nlinks), (4, dev)]

def encodeBasicIPC (h : Header) (nlinks : Nat) (socket : Bool) : Bytes :=
  let typ := if socket then inodeBasicSocket else inodeBasicFIFO
  writeCommonHeader typ h ++ record [(4, nlinks)]

/-- What an inode has besides its header. Link counts and the parent are not kept. -/
inductive InodeBody where
  | dir (blockStart listingSize offset : Nat)
  | file (blocksStart size : Nat) (blockSizes : List Nat)
  | symlink (target : Bytes)
  | device (block : Bool) (dev : Nat)
  | ipc (socket : Bool)
  deriving DecidableEq

structure Inode where
  header : Header
  body : InodeBody
  deriving DecidableEq

/-- Numbers at an offset, from a source that gives as many bytes as it is asked for. -/
def readFields (ws : List Nat) (get : Nat → Option Bytes) (off : Nat) : Option (List Nat) := do
  let b ← get (off + ws.sum)
  let (ns, _) ← readRecord ws (b.drop off)
  return ns

def readBody (blockSize typ : Nat) (get : Nat → Option Bytes) : Option InodeBody :=
  if typ = inodeBasicDir then do
    match ← readFields [4, 4, 2, 2, 4] get 16 with
    | [blockStart, _, size, offset, _] =>
      if size < 3 then none else some (.dir blockStart (size - 3) offset)
    | _ => none
  else if typ = inodeBasicFile then do
    match ← readFields [4, 4, 4, 4] get 16 with
    | [blocksStart, frag, _, size] =>
      if frag = invalidFragment then do
        let sizes ← readFields (List.replicate (blockCount size blockSize) 4) get 32
        return .file blocksStart size sizes
      else none
    | _ => none
  else if typ = inodeBasicSymlink then do
    match ← readFields [4, 4] get 16 with
    | [_, len] => do
      let b ← get (24 + len)
      return .symlink (b.drop 24)
    | _ => none
  else if typ = inodeBasicBlock ∨ typ = inodeBasicChar then do
    match ← readFields [4, 4] get 16 with
    | [_, dev] => return .device (typ = inodeBasicBlock) dev
    | _ => none
  else if typ = inodeBasicFIFO ∨ typ = inodeBasicSocket then
    return .ipc (typ = inodeBasicSocket)
  else none

def readInode (blockSize : Nat) (get : Nat → Option Bytes) : Option Inode := do
  match ← readFields [2, 2, 2, 2, 4, 4] get 0 with
  | [typ, perm, uidIdx, gidIdx, mtime, inodeNumber] => do
    let body ← readBody blockSize typ get
    return ⟨⟨perm, uidIdx, gidIdx, mtime, inodeNumber⟩, body⟩
  | _ => none

def Gives (get : Nat → Option Bytes) (b : Bytes) : Prop := ∀ n, n ≤ b.length → get n = some (b.take n)

section Back

variable {get : Nat → Option Bytes} {b : Bytes} {blockSize dev nlinks size start typ : Nat}

theorem readFields_of_gives {before after : Bytes} {fs : List (Nat × Nat)}
    (hg : Gives get (before ++ record fs ++ after)) (hf : ∀ f ∈ fs, f.2 < 256 ^ f.1) :
    readFields (fs.map Prod.fst) get before.length = some (fs.map Prod.snd) := by
  have hl : before.length + (fs.map Prod.fst).sum = (before ++ record fs).length := by
    rw [length_append, length_record]
  have hb : get (before.length + (fs.map Prod.fst).sum) = some (before ++ record fs) := by
    rw [hg _ (by rw [length_append, ← hl]; omega), hl, take_left]
  have hr := readRecord_record hf []
  rw [append_nil] at hr
  rw [readFields, hb, bind_eq_bind, bind_some, drop_left, hr]
  rfl

theorem header_length (typ : Nat) (h : Header) : (writeCommonHeader typ h).length = 16 := by
  simp [writeCommonHeader, Header.fields]

section

variable {body : Bytes} (hg : Gives get (writeCommonHeader typ h ++ body)) (hh : h.Fits)
    (ht : typ < 256 ^ 2)
include hg hh ht

theorem readHeader :
    readFields [2, 2, 2, 2, 4, 4] get 0 =
      some [typ, h.perm, h.uidIdx, h.gidIdx, h.mtime, h.inodeNumber] := by
  have hf : ∀ f ∈ h.fields typ, f.2 < 256 ^ f.1 := by
    simp only [Header.fields, mem_cons, not_mem_nil, or_false]
    rintro f (rfl | rfl | rfl | rfl | rfl | rfl)
    · exact ht
    · exact hh.perm
    · exact hh.uidIdx
    · exact hh.gidIdx
    · exact hh.mtime
    · exact hh.inodeNumber
  exact @readFields_of_gives get [] body (h.fields typ) hg hf

theorem readInode_of_body (hb : readBody blockSize typ get = some decoded) :
    readInode blockSize get = some ⟨h, decoded⟩ := by
  rw [readInode, readHeader hg hh ht]
  simp [hb]

end

theorem readFields_body {after : Bytes}
    (hg : Gives get (writeCommonHeader typ h ++ record fs ++ after))
    (hf : ∀ f ∈ fs, f.2 < 256 ^ f.1) :
    readFields (fs.map Prod.fst) get 16 = some (fs.map Prod.snd) := by
  have hr := readFields_of_gives hg hf
  rw [header_length] at hr
  exact hr

theorem encodePerm_eq (mode : UInt32) : encodePerm mode = mode.toNat % 4096 := by
  rw [encodePerm, ← Nat.and_or_distrib_left]
  exact Nat.and_two_pow_sub_one_eq_mod mode.toNat 12

theorem encodeDevice_eq (henc : encodeDevice major minor = .ok dev) :
    dev = major.toNat * 256 + minor.toNat ∧ minor.toNat < 256 ∧ dev < 256 ^ 4 := by
  unfold encodeDevice at henc
  split at henc
  · cases henc
  split at henc
  · cases henc
  rename_i hm hmi
  cases henc
  have hm' : minor.toNat < 2 ^ 8 := by omega
  have ho := Nat.two_pow_add_eq_or_of_lt hm' major.toNat
  rw [Nat.shiftLeft_eq, Nat.mul_comm, ← ho]
  omega

theorem readInode_dir (hh : h.Fits) (hn : nlinks < 256 ^ 4) (ho : offset < 256 ^ 2)
    (hp : parent < 256 ^ 4) (hs : size + 3 < 2 ^ 32)
    (henc : encodeBasicDir h start nlinks size offset parent = .ok b) (hg : Gives get b) :
    readInode blockSize get = some ⟨h, .dir start size offset⟩ ∧ start ≤ 0xFFFFFFFF ∧
      size + 3 ≤ 0xFFFF := by
  unfold encodeBasicDir at henc
  rw [Nat.mod_eq_of_lt hs] at henc
  split at henc
  · cases henc
  split at henc
  · cases henc
  rename_i hst hl
  cases henc
  refine ⟨?_, Nat.le_of_not_lt hst, Nat.le_of_not_lt hl⟩
  have hf : ∀ f ∈ [(4, start), (4, nlinks), (2, size + 3), (2, offset), (4, parent)],
      f.2 < 256 ^ f.1 := by
    simp only [mem_cons, not_mem_nil, or_false]
    rintro f (rfl | rfl | rfl | rfl | rfl)
    · exact show start < 256 ^ 4 by omega
    · exact hn
    · exact show size + 3 < 256 ^ 2 by omega
    · exact ho
    · exact hp
  refine readInode_of_body hg hh (by decide) ?_
  rw [← append_nil (_ ++ _)] at hg
  have hr : readFields [4, 4, 2, 2, 4] get 16 = some [start, nlinks, size + 3, offset, parent] :=
    readFields_body hg hf
  rw [readBody, if_pos rfl, hr]
  simp

theorem readInode_file (hh : h.Fits) (hsi : ∀ s ∈ sizes, s < 256 ^ 4)
    (henc : encodeBasicFile h blockSize start size sizes = .ok b) (hg : Gives get b) :
    readInode blockSize get = some ⟨h, .file start size sizes⟩ ∧ start ≤ 0xFFFFFFFF ∧
      size ≤ 0xFFFFFFFF := by
  unfold encodeBasicFile at henc
  split at henc
  · cases henc
  split at henc
  · cases henc
  split at henc
  · cases henc
  rename_i hst hsiz hc
  cases henc
  refine ⟨?_, Nat.le_of_not_lt hst, Nat.le_of_not_lt hsiz⟩
  have hfi : ∀ f ∈ [(4, start), (4, invalidFragment), (4, 0), (4, size)], f.2 < 256 ^ f.1 := by
    simp only [List.mem_cons, List.not_mem_nil, or_false]
    rintro f (rfl | rfl | rfl | rfl)
    · exact show start < 256 ^ 4 by omega
    · decide
    · decide
    · exact show size < 256 ^ 4 by omega
  have hw : ∀ f ∈ sizes.map (fun s => (4, s)), f.2 < 256 ^ f.1 := by
    intro f hf
    obtain ⟨s, hs, rfl⟩ := List.mem_map.mp hf
    exact hsi s hs
  have hb := hg
  rw [List.append_assoc] at hb
  refine readInode_of_body hb hh (by decide) ?_
  have hr : readFields [4, 4, 4, 4] get 16 = some [start, invalidFragment, 0, size] :=
    readFields_body hg hfi
  have hl : readFields (List.replicate (blockCount size blockSize) 4) get 32 = some sizes := by
    have ha : (writeCommonHeader inodeBasicFile h ++
        record [(4, start), (4, invalidFragment), (4, 0), (4, size)]).length = 32 := by
      rw [List.length_append, header_length]
      simp
    rw [← List.append_nil (_ ++ _)] at hg
    have hal := readFields_of_gives hg hw
    rw [ha, List.map_map, List.map_map] at hal
    rw [← Classical.not_not.mp hc, ← List.map_const']
    simpa [Function.comp_def] using hal
  rw [readBody, if_neg (by decide), if_pos rfl, hr]
  simp [hl]

theorem readInode_symlink (hh : h.Fits) (hn : nlinks < 256 ^ 4)
    (henc : encodeBasicSymlink h nlinks target = .ok b) (hg : Gives get b) :
    readInode blockSize get = some ⟨h, .symlink target⟩ := by
  unfold encodeBasicSymlink at henc
  split at henc
  · cases henc
  rename_i ht
  cases henc
  have hf : ∀ f ∈ [(4, nlinks), (4, target.length)], f.2 < 256 ^ f.1 := by
    simp only [mem_cons, not_mem_nil, or_false]
    rintro f (rfl | rfl)
    · exact hn
    · exact show target.length < 256 ^ 4 by omega
  have hb := hg
  rw [append_assoc] at hb
  refine readInode_of_body hb hh (by decide) ?_
  have hr : readFields [4, 4] get 16 = some [nlinks, target.length] := readFields_body hg hf
  have ha : (writeCommonHeader inodeBasicSymlink h ++
      record [(4, nlinks), (4, target.length)]).length = 24 := by
    rw [length_append, header_length]
    simp
  have hw := hg (24 + target.length) (by rw [length_append, ha])
  rw [← ha, ← length_append, take_length] at hw
  rw [readBody, if_neg (by decide), if_neg (by decide), if_pos rfl, hr]
  simp only [bind_eq_bind, bind_some]
  rw [← ha, ← length_append, hw, bind_some, drop_left]
  rfl

theorem readInode_device (hh : h.Fits) (hn : nlinks < 256 ^ 4)
    (hd : encodeDevice major minor = .ok dev)
    (henc : encodeBasicDevice h nlinks major minor block = .ok b) (hg : Gives get b) :
    readInode blockSize get = some ⟨h, .device block dev⟩ := by
  rw [encodeBasicDevice, hd] at henc
  cases henc
  have hf : ∀ f ∈ [(4, nlinks), (4, dev)], f.2 < 256 ^ f.1 := by
    simp only [mem_cons, not_mem_nil, or_false]
    rintro f (rfl | rfl)
    · exact hn
    · exact (encodeDevice_eq hd).2.2
  have hb := hg
  rw [← append_nil (_ ++ _)] at hg
  have hr : readFields [4, 4] get 16 = some [nlinks, dev] := readFields_body hg hf
  cases block with
  | false | true =>
    refine readInode_of_body hb hh (by decide) ?_
    rw [readBody, if_neg (by decide), if_neg (by decide), if_neg (by decide), if_pos (by decide),
      hr]
    rfl

theorem readInode_ipc (hh : h.Fits) (hg : Gives get (encodeBasicIPC h nlinks socket)) :
    readInode blockSize get = some ⟨h, .ipc socket⟩ := by
  cases socket with
  | false | true =>
    refine readInode_of_body hg hh (by decide) ?_
    rw [readBody, if_neg (by decide), if_neg (by decide), if_neg (by decide), if_neg (by decide),
      if_pos (by decide)]
    rfl

end Back

end Craftling.Squashfs

import Craftling.Squashfs.Laid

namespace Craftling.Squashfs
open Effects

def Body.content : Body → Option Content
  | .file data => some (.file data)
  | .dir => some .dir
  | .symlink target => some (.symlink target)
  | .hardlink _ => none
  | .charDev major minor => some (.charDev major.toNat minor.toNat)
  | .blockDev major minor => some (.blockDev major.toNat minor.toNat)
  | .fifo => some .fifo
  | .socket => some .socket

def Time.seconds (t : Time) : Int := if t = Time.zero then 0 else t.unix

def Config.timeOf (cfg : Config) (a : Attrs) : Time :=
  if cfg.mtime = Time.zero then a.mtime else cfg.mtime

structure Shows (cfg : Config) (a : Attrs) (b : Body) (f : Found) : Prop where
  mode : f.mode = a.mode.toNat % 4096
  uid : f.uid = a.uid.toNat
  gid : f.gid = a.gid.toNat
  mtime : f.mtime = (cfg.timeOf a).seconds
  content : b.content = some f.content

structure ImageHolds (expand : Bytes → Option Bytes) (img : Bytes) (sb : Superblock)
    (x : Resolved) (t : Written) (out : Bytes) : Prop where
  inodes : ∃ before after, img = before ++ emitted t.inodeBlocks ++ after ∧
    sb.inodeTableStart = before.length
  inodesSealed : Sealed expand t.inodeBlocks t.inodes
  dirs : ∃ before after, img = before ++ emitted t.dirBlocks ++ after ∧
    sb.directoryTableStart = before.length
  dirsSealed : Sealed expand t.dirBlocks t.dirs
  ids : ∀ i id, x.owners.ids[i]? = some id → readID expand img sb.idTableStart i = some id.toNat
  fewIds : x.owners.ids.length ≤ maxIDs
  blockSize : sb.blockSize = x.cfg.blockSize
  data : ∀ pos, superblockSize ≤ pos → out.drop pos <+: img.drop pos

section Decoding

variable {expand : Bytes → Option Bytes} {img : Bytes} {sb : Superblock} {x : Resolved}
    {t : Written} {out : Bytes} {a : Attrs} {b p path : Bytes} {body : InodeBody} {r : MetaRef}
    {links mtime n pos : Nat}

theorem Sealed.read_lies (h : Sealed expand blocks stream) (hb : Lies stream pos b)
    (hn : n ≤ b.length) (before after : Bytes) :
    readAt expand (before ++ emitted blocks ++ after)
      (before.length + byteOffset blocks (refAt pos).blockIdx) (refAt pos).offset n =
      some (b.take n) := by
  have hl := hb.le
  obtain ⟨front, rest, rfl, rfl⟩ := hb
  rw [h.read (by omega), List.append_assoc, List.drop_left, List.take_append_of_le_length hn]

theorem ImageHolds.gives (h : ImageHolds expand img sb x t out) (hb : Lies t.inodes pos b) :
    Gives (readAt expand img (sb.inodeTableStart + (t.place (refAt pos)).1)
      (t.place (refAt pos)).2) b := by
  obtain ⟨before, after, hi, hs⟩ := h.inodes
  intro n hn
  rw [hi, hs]
  exact h.inodesSealed.read_lies hb hn before after

theorem entryMtime_ok (h : entryMtime cfg a = .ok n) :
    n < 256 ^ 4 ∧ n = (cfg.timeOf a).seconds := by
  unfold entryMtime at h
  dsimp only at h
  rw [← Config.timeOf] at h
  unfold Time.seconds
  split at h
  · rename_i hz
    cases h
    exact ⟨by decide, (if_pos hz).symm⟩
  rename_i hs
  split at h
  · cases h
  cases h
  rw [if_neg hs]
  omega

theorem Owned.fits (h : Owned x.owners p a) (hi : x.owners.ids.length ≤ maxIDs)
    (hm : mtime < 256 ^ 4) : (x.header p a mtime).Fits := by
  have hu := (List.getElem?_eq_some_iff.mp h.uid).1
  have hg := (List.getElem?_eq_some_iff.mp h.gid).1
  rw [maxIDs] at hi
  refine ⟨?_, ?_, ?_, hm, UInt32.toNat_lt _⟩
  · rw [Resolved.header, encodePerm_eq]
    exact Nat.lt_trans (Nat.mod_lt _ (by decide)) (by decide)
  · exact show x.owners.uidIdx p < 256 ^ 2 by omega
  · exact show x.owners.gidIdx p < 256 ^ 2 by omega

section

variable (h : ImageHolds expand img sb x t out)
include h

theorem ImageHolds.found {b : Body}
    (ho : Owned x.owners p a) (hm : entryMtime x.cfg a = .ok mtime)
    (hi : readInode sb.blockSize (readAt expand img (sb.inodeTableStart + (t.place r).1)
      (t.place r).2) = some ⟨x.header p a mtime, body⟩)
    (hc : readContent expand img sb body = some content) (hb : b.content = some content) :
    ∃ f, readFound expand img sb (t.place r) = some (f, body) ∧ f.place = t.place r ∧
      f.number = (x.nums.number p).toNat ∧ Shows x.cfg a b f := by
  refine ⟨⟨t.place r, (x.nums.number p).toNat, encodePerm a.mode, a.uid.toNat, a.gid.toNat, mtime,
    content⟩, ?_, rfl, rfl, ⟨encodePerm_eq _, rfl, rfl, (entryMtime_ok hm).2, hb⟩⟩
  have hu := h.ids _ _ ho.uid
  have hg := h.ids _ _ ho.gid
  rw [readFound, hi]
  simp only [Option.bind_eq_bind, Option.bind_some, Resolved.header, hu, hg, hc]
  rfl

theorem ImageHolds.file {start size : Nat}
    {sizes : List Nat} {data : Bytes}
    (hf : FileHolds expand x.cfg.blockSize out start sizes size data) :
    readData expand img sb.blockSize start sizes size = some data := by
  obtain ⟨blocks, hb, hc, hd⟩ := hf.blocks
  rw [h.blockSize, hf.size, ← hd]
  exact readData_of_holds (hb.of_drop hf.start h.data) hc

theorem ImageHolds.leaf {e : Entry} {i : Item}
    {r : MetaRef} (hl : LeafLaid x t.inodes e r) (ho : Owned x.owners e.path e.attrs)
    (he : EntryHolds expand x.cfg.blockSize out e i) :
    ∃ f body, readFound expand img sb (t.place r) = some (f, body) ∧
      readDir expand img sb body = some [] ∧ f.place = t.place r ∧
      f.number = (x.nums.number e.path).toNat ∧ Shows x.cfg e.attrs i.body f ∧
      f.content.basicType = kindType e.kind := by
  obtain ⟨pos, mtime, bytes, rfl, hm, henc, hli⟩ := hl
  have hfi := ho.fits h.fewIds ((entryMtime_ok hm).1)
  have hg := h.gives hli
  have hk := he.kind
  simp only [encodeLeafWith, Links.plain] at henc
  generalize e.kind = kind at hk henc ⊢
  generalize i.body = b at hk ⊢
  have finish {body : InodeBody} {content : Content}
      (hi : readInode sb.blockSize (readAt expand img
        (sb.inodeTableStart + (t.place (refAt pos)).1) (t.place (refAt pos)).2) =
          some ⟨x.header e.path e.attrs mtime, body⟩)
      (hc : readContent expand img sb body = some content)
      (hb : b.content = some content) (hd : readDir expand img sb body = some [])
      (ht : content.basicType = kindType kind) :
      ∃ f body, readFound expand img sb (t.place (refAt pos)) = some (f, body) ∧
        readDir expand img sb body = some [] ∧ f.place = t.place (refAt pos) ∧
        f.number = (x.nums.number e.path).toNat ∧ Shows x.cfg e.attrs b f ∧
        f.content.basicType = kindType kind := by
    obtain ⟨f, hf, hp, hn, hs⟩ := h.found ho hm hi hc hb
    refine ⟨f, body, hf, hd, hp, hn, hs, ?_⟩
    rw [← Option.some.inj (hb.symm.trans hs.content), ht]
  cases hk with
  | @file start sizes size data hfil =>
    obtain ⟨blocks, hbl, _, _⟩ := hfil.blocks
    rw [← h.blockSize] at henc
    refine finish (readInode_file hfi hbl.words_lt henc hg).1 ?_ rfl rfl rfl
    rw [readContent, h.file hfil]
    rfl
  | dir => cases henc
  | symlink target => exact finish (readInode_symlink hfi (by decide) henc hg) rfl rfl rfl rfl
  | hardlink target => cases henc
  | charDev major minor | blockDev major minor =>
    obtain ⟨dev, hde, _⟩ := bind_eq_ok.mp henc
    obtain ⟨heq, hmi, _⟩ := encodeDevice_eq hde
    refine finish (readInode_device hfi (by decide) hde henc hg) rfl ?_ rfl rfl
    rw [Body.content, heq]
    congr 2 <;> omega
  | fifo | socket =>
    cases henc
    exact finish (readInode_ipc hfi hg) rfl rfl rfl rfl

end

theorem basicTypeFor_lt (e : Entry) : x.basicTypeFor e < 256 ^ 2 := by
  have hk (k : Kind) : kindType k < 256 ^ 2 := by
    cases k <;> simp [kindType, inodeBasicDir, inodeBasicFile, inodeBasicSymlink, inodeBasicBlock,
      inodeBasicChar, inodeBasicFIFO, inodeBasicSocket]
  unfold Resolved.basicTypeFor
  split
  · cases x.entries.find? _ with
    | none => decide
    | some e => exact hk e.kind
  · exact hk _

variable {children : List (Entry × MetaRef)}

theorem DirLaid.fits (h : DirLaid x t p a links children r) :
    ∀ d ∈ children.map (x.childEntry t), d.Fits := by
  intro d hd
  obtain ⟨child, hc, rfl⟩ := List.mem_map.mp hd
  have hn := h.near child hc
  have ho := h.offsets child hc
  rw [metadataBlockSize] at ho
  refine ⟨?_, ?_, basicTypeFor_lt _, (h.names child hc).1, (h.names child hc).2⟩
  · exact show (t.place child.2).1 < 256 ^ 4 by omega
  · exact show child.2.offset < 256 ^ 2 by omega

theorem ImageHolds.dir (h : ImageHolds expand img sb x t out) {p : Bytes} {a : Attrs}
    {links : Nat} {children : List (Entry × MetaRef)} {r : MetaRef}
    (hl : DirLaid x t p a links children r) (ho : Owned x.owners p a)
    (hli : links < 256 ^ 4) (hfe : children.length ≤ 2 ^ 22) :
    ∃ f body, readFound expand img sb (t.place r) = some (f, body) ∧
      readDir expand img sb body = some (children.map (x.childEntry t)) ∧
      f.place = t.place r ∧ f.number = (x.nums.number p).toNat ∧ Shows x.cfg a .dir f := by
  obtain ⟨pos, start, mtime, bytes, rfl, hm, henc, hlie, hlis, _⟩ := hl.inode
  have hfi := ho.fits h.fewIds ((entryMtime_ok hm).1)
  have he := hl.fits
  obtain ⟨hle, hmo⟩ := length_listing fun d hd => (he d hd).short
  rw [List.length_map] at hle hmo
  have hs : (listing (children.map (x.childEntry t))).length + 3 < 2 ^ 32 := by omega
  rw [Nat.mod_eq_of_lt (Nat.lt_of_le_of_lt (Nat.le_add_right _ 3) hs)] at henc
  have hof : (refAt start).offset < 256 ^ 2 :=
    Nat.lt_trans (Nat.mod_lt _ (by decide)) (show metadataBlockSize < 256 ^ 2 by decide)
  have hi : readInode sb.blockSize _ = _ :=
    (readInode_dir hfi hli hof (UInt32.toNat_lt _) hs henc (h.gives hlie)).1
  obtain ⟨f, hf, hp, hn, hsh⟩ := h.found (b := .dir) ho hm hi rfl rfl
  refine ⟨f, _, hf, ?_, hp, hn, hsh⟩
  obtain ⟨before, after, him, hst⟩ := h.dirs
  have hr := h.dirsSealed.read_lies hlis (Nat.le_refl _) before after
  rw [List.take_length, ← him, ← hst] at hr
  rw [readDir, hr]
  exact readListing_listing he (by rw [List.length_map]; exact hle)

theorem decodeFrom_succ {place : Nat × Nat}
    (hf : readFound expand img sb place = some (f, body)) (hc : ∀ e ∈ check, e.Agrees f)
    (hd : readDir expand img sb body = some entries)
    (hb : entries.mapM (fun e => decodeFrom expand img sb fuel (joinPath path e.name)
      (e.inodeBlockByte, e.inodeBlockOff) (some e)) = some outs) :
    decodeFrom expand img sb (fuel + 1) path place check = some ((path, f) :: outs.flatten) := by
  rw [decodeFrom, hf]
  simp only [Option.bind_eq_bind, Option.bind_some]
  rw [if_pos hc, hd, Option.bind_some, hb]
  rfl

def DecodesBelow (expand : Bytes → Option Bytes) (img : Bytes) (sb : Superblock) (path : Bytes)
    (entries : List DirEntry) (found : List (Bytes × Found)) : Prop :=
  ∃ n, ∀ fuel, n ≤ fuel → ∃ outs, entries.mapM (fun e => decodeFrom expand img sb fuel
    (joinPath path e.name) (e.inodeBlockByte, e.inodeBlockOff) (some e)) = some outs ∧
      outs.flatten = found

theorem DecodesBelow.nil : DecodesBelow expand img sb path [] [] :=
  ⟨0, fun _ _ => ⟨[], rfl, rfl⟩⟩

theorem DecodesBelow.cons {path p : Bytes} {e : DirEntry} {entries : List DirEntry}
    {own found : List (Bytes × Found)} {n : Nat} (hp : joinPath path e.name = p)
    (he : ∀ fuel, n ≤ fuel → decodeFrom expand img sb fuel p
      (e.inodeBlockByte, e.inodeBlockOff) (some e) = some own)
    (h : DecodesBelow expand img sb path entries found) :
    DecodesBelow expand img sb path (e :: entries) (own ++ found) := by
  obtain ⟨m, hm⟩ := h
  refine ⟨max n m, fun fuel hf => ?_⟩
  obtain ⟨outs, ho, hfo⟩ := hm fuel (Nat.le_trans (Nat.le_max_right n m) hf)
  refine ⟨own :: outs, ?_, congrArg (own ++ ·) hfo⟩
  rw [List.mapM_cons, hp, he fuel (Nat.le_trans (Nat.le_max_left n m) hf), ho]
  rfl

structure Reads (expand : Bytes → Option Bytes) (img : Bytes) (sb : Superblock) (x : Resolved)
    (t : Written) (out : Bytes) (node : Entry × MetaRef) (found : Bytes × Found) : Prop where
  path : found.1 = node.1.path
  inode : ∃ body, readFound expand img sb (t.place node.2) = some (found.2, body)
  number : found.2.number = (x.nums.number node.1.inodePath).toNat
  shown : ∀ i, EntryHolds expand x.cfg.blockSize out (x.source node.1) i →
    Shows x.cfg i.attrs i.body found.2

structure Resolved.Sound (expand : Bytes → Option Bytes) (x : Resolved) (out : Bytes) : Prop where
  entries : SoundEntries x.entries
  items : ∀ e ∈ x.entries, ∃ i, EntryHolds expand x.cfg.blockSize out e i
  owned : ∀ e ∈ x.entries, e.isLink = false → Owned x.owners e.path e.attrs

variable {e : Entry}

theorem Entry.kind_of_dir (h : e.isDir = true) : e.kind = .dir := by
  unfold Entry.isDir at h
  split at h
  · assumption
  · cases h

theorem decode_leaf (h : ImageHolds expand img sb x t out) (hx : x.Sound expand out)
    (he : e ∈ x.entries) (hdi : e.isDir = false) (hl : LeafLaid x t.inodes (x.source e) r) :
    ∃ f, Reads expand img sb x t out (e, r) (e.path, f) ∧
      ∀ fuel, 1 ≤ fuel → decodeFrom expand img sb fuel e.path (t.place r)
        (some (x.childEntry t (e, r))) = some [(e.path, f)] := by
  obtain ⟨hs, hle, hp, ht⟩ := hx.entries.source_spec he hdi
  have ho : Owned x.owners (x.source e).path (x.source e).attrs := by
    refine hx.owned _ hs ?_
    simp only [Entry.isLeaf, Bool.not_eq_true', Bool.or_eq_false_iff] at hle
    exact hle.2
  obtain ⟨i, hi⟩ := hx.items _ hs
  obtain ⟨f, body, hf, hb, hpl, hn, _, hk⟩ := h.leaf hl ho hi
  refine ⟨f, ⟨rfl, ⟨body, hf⟩, hp ▸ hn, fun i hi => ?_⟩, fun fuel hfu => ?_⟩
  · obtain ⟨f', body', hf', _, _, _, hsh, _⟩ := h.leaf hl ho hi
    rw [hf] at hf'
    cases hf'
    exact hi.attrs ▸ hsh
  obtain ⟨fuel, rfl⟩ : ∃ k, fuel = k + 1 := ⟨fuel - 1, by omega⟩
  refine decodeFrom_succ hf ?_ hb (show List.mapM _ [] = some [] from rfl)
  intro d hd
  cases hd
  refine ⟨?_, ht.trans hk.symm⟩
  rw [hn, hp]
  rfl

theorem decode_dir (h : ImageHolds expand img sb x t out) {found : List (Bytes × Found)}
    (hl : DirLaid x t p a links children r) (ho : Owned x.owners p a)
    (hli : links < 256 ^ 4) (hfe : children.length ≤ 2 ^ 22)
    (hc : ∀ d ∈ check, d.childInode = x.nums.number p ∧ d.basicType = inodeBasicDir)
    (hb : DecodesBelow expand img sb p (children.map (x.childEntry t)) found) :
    ∃ f, (∃ body, readFound expand img sb (t.place r) = some (f, body)) ∧
      f.number = (x.nums.number p).toNat ∧ Shows x.cfg a .dir f ∧ ∃ n, ∀ fuel, n ≤ fuel →
        decodeFrom expand img sb fuel p (t.place r) check = some ((p, f) :: found) := by
  obtain ⟨f, body, hf, hbo, hp, hnu, hs⟩ := h.dir hl ho hli hfe
  obtain ⟨n, hn⟩ := hb
  refine ⟨f, ⟨body, hf⟩, hnu, hs, n + 1, fun fuel hfu => ?_⟩
  obtain ⟨fuel, rfl⟩ : ∃ k, fuel = k + 1 := ⟨fuel - 1, by omega⟩
  obtain ⟨outs, hou, rfl⟩ := hn fuel (by omega)
  refine decodeFrom_succ hf (fun d hd => ?_) hbo hou
  obtain ⟨hi, ht⟩ := hc d hd
  refine ⟨by rw [hi, hnu], ?_⟩
  rw [ht, ← Option.some.inj hs.content]
  rfl

theorem linkCount_lt (f : Forest) : f.linkCount < 256 ^ 4 := Nat.mod_lt _ (by decide)

theorem child_path (hcs : Canonical cs) (hc : IsName c) (hp : e.path = render (cs ++ [c]))
    (r : MetaRef) : joinPath (render cs) (x.childEntry t (e, r)).name = e.path := by
  rw [Resolved.childEntry, hp, pathBase_render (hcs.concat hc), joinPath_render hcs]

theorem decode_forest (h : ImageHolds expand img sb x t out) (hx : x.Sound expand out)
    (hl : Laid x t f refs all) (hc : Canonical cs) (hp : Placed cs f)
    (hin : ∀ e ∈ f.preorder, e ∈ x.entries) (hf : f.Levels fun l => l.length ≤ 2 ^ 22) :
    ∃ found, List.Forall₂ (Reads expand img sb x t out) all found ∧
      DecodesBelow expand img sb (render cs) ((f.heads.zip refs).map (x.childEntry t)) found := by
  induction hl generalizing cs with
  | nil => exact ⟨[], .nil, .nil⟩
  | @leaf e below rest r refs all hle ho hr ih =>
    cases hp with
    | cons hn hpa _ _ hp =>
      have hine : e ∈ x.entries := hin e (.head _)
      obtain ⟨found, hre, hde⟩ := ih hc hp (fun a ha =>
        hin a (.tail _ (List.mem_append_right _ ha))) hf.2.2
      obtain ⟨g, hrea, hdec⟩ := decode_leaf h hx hine hle ho
      exact ⟨_, .cons hrea hre, hde.cons (child_path hc hn hpa r) hdec⟩
  | @dir e below rest r refs all inner under hdi hu ho hr ihbelow ihrest =>
    cases hp with
    | cons hn hpa _ hb hp =>
      have hine : e ∈ x.entries := hin e (.head _)
      have hk := Entry.kind_of_dir hdi
      have hli : e.isLink = false := by rw [Entry.isLink, hk]
      have hs : x.source e = e := by rw [Resolved.source, hk]
      have hino : e.inodePath = e.path := by rw [Entry.inodePath, hk]
      obtain ⟨found, hre, hde⟩ := ihrest hc hp (fun a ha =>
        hin a (.tail _ (List.mem_append_right _ ha))) hf.2.2
      obtain ⟨lower, hlo, hdo⟩ := ihbelow (hc.concat hn) hb (fun a ha =>
        hin a (.tail _ (List.mem_append_left _ ha))) hf.2.1
      rw [← hpa] at hdo
      have hco : (below.heads.zip inner).length ≤ 2 ^ 22 := by
        rw [List.length_zip]
        exact Nat.le_trans (Nat.min_le_left ..) hf.1
      have hch : ∀ d ∈ some (x.childEntry t (e, r)),
          d.childInode = x.nums.number e.path ∧ d.basicType = inodeBasicDir := by
        intro d hd
        cases hd
        refine ⟨by rw [← hino]; rfl, ?_⟩
        rw [Resolved.childEntry, Resolved.basicTypeFor, hk]
        rfl
      obtain ⟨g, hpl, hnu, hsh, n, hdec⟩ := decode_dir h ho (hx.owned e hine hli)
        (linkCount_lt below) hco hch hdo
      refine ⟨_, .cons ⟨rfl, hpl, hino ▸ hnu, fun i hi => ?_⟩ (List.rel_append hlo hre),
        hde.cons (child_path hc hn hpa r) hdec⟩
      have hbo := hi.kind
      rw [hs, hk] at hbo
      generalize i.body = b at hbo ⊢
      cases hbo
      rw [← hi.attrs, hs]
      exact hsh

end Decoding

end Craftling.Squashfs

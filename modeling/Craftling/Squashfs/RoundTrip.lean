import Craftling.Squashfs.Decoded

namespace Craftling.Squashfs
open Effects Entry

section Room

variable {expand : Bytes → Option Bytes}

theorem BlocksHold.three_mul_le (h : BlocksHold expand blocks contents) (hk : k ≤ blocks.length) :
    3 * k ≤ byteOffset blocks k := by
  induction h generalizing k with
  | nil =>
    obtain rfl : k = 0 := Nat.le_zero.mp hk
    exact Nat.le_refl _
  | @cons b content blocks contents hb _ ih =>
    cases k with
    | zero => exact Nat.zero_le _
    | succ k =>
      have hr := ih (Nat.le_of_succ_le_succ hk)
      have hp := List.length_pos_iff.mpr hb.1.nonempty
      rw [byteOffset] at hr ⊢
      rw [List.take_succ_cons, List.map_cons, List.sum_cons]
      omega

theorem Sealed.pos_lt (h : Sealed expand blocks stream)
    (hk : (refAt pos).blockIdx ≤ blocks.length)
    (hn : byteOffset blocks (refAt pos).blockIdx ≤ 0xFFFFFFFF) : pos < 2 ^ 44 := by
  obtain ⟨full, last, hb, _⟩ := h.contents
  have ht := hb.three_mul_le hk
  simp only [refAt, metadataBlockSize] at ht hn
  omega

theorem Sealed.length_emitted_lt (h : Sealed expand blocks stream)
    (hl : stream.length < 2 ^ 45) : (emitted blocks).length < 2 ^ 46 := by
  have hle := h.length_emitted_le
  rw [metadataBlockSize] at hle
  omega

end Room

structure LaidOut (expand : Bytes → Option Bytes) (w : Writer) (l : Layout) (x : Resolved)
    (root : Forest) (t : Written) (refs : List MetaRef) (all : List (Entry × MetaRef))
    (rootRef : MetaRef) : Prop where
  cfg : x.cfg = w.cfg
  entries : x.entries = w.entries
  nums : x.nums = assignInodeNumbers root
  tree : buildTree w.entries = .ok root
  owners : internIDs w.cfg w.entries = .ok x.owners
  laid : Laid x t root refs all
  leaves : ∃ leafRefs : Bytes → MetaRef, ∀ node ∈ all, node.1.isDir = false →
    node.2 = leafRefs node.1.inodePath
  rootLaid : DirLaid x t [slash] (rootAttrs w.cfg) root.linkCount (root.heads.zip refs) rootRef
  inodesSealed : Sealed expand t.inodeBlocks t.inodes
  dirsSealed : Sealed expand t.dirBlocks t.dirs
  inodesSmall : t.inodes.length < 2 ^ 45
  dirsSmall : t.dirs.length < 2 ^ 45
  inodeTable : l.inodeTable = emitted t.inodeBlocks
  directoryTable : l.directoryTable = emitted t.dirBlocks
  ids : writeData w.cfg.compressor x.owners.ids
    (w.out.length + l.inodeTable.length + l.directoryTable.length) = .ok (l.idOffsets, l.idData)
  rootInodeRef : l.rootInodeRef = rootRef.encode (t.place rootRef).1
  idCount : l.idCount = x.owners.ids.length

section Layouts

variable {expand : Bytes → Option Bytes} {x : Resolved}

theorem emitTo_ok {m : MetaWriter} (h : m.emitTo = .ok b) : b = emitted m.blocks := by
  unfold MetaWriter.emitTo at h
  split at h
  · cases h
  · cases h
    rfl

theorem mem_zip_of_mem_right {l : List α} {m : List β} (hl : m.length ≤ l.length) (hb : b ∈ m) :
    ∃ a, (a, b) ∈ l.zip m := by
  rw [← List.map_snd_zip hl] at hb
  obtain ⟨⟨a, b'⟩, hm, rfl⟩ := List.mem_map.mp hb
  exact ⟨a, hm⟩

theorem inodes_short {t t' : Written} {root : Forest} {refs : List MetaRef}
    {all : List (Entry × MetaRef)} {leafRefs : Bytes → MetaRef}
    (hs : Sealed expand t'.inodeBlocks t'.inodes) (hl : Laid x t' root refs all)
    (ht : ∀ node ∈ root.heads.zip refs, (t'.place node.2).1 ≤ 0xFFFFFFFF)
    (ha : ∀ e ∈ x.entries, ∃ r, (e, r) ∈ all)
    (hlea : ∀ node ∈ all, node.1.isDir = false → node.2 = leafRefs node.1.inodePath)
    (hk : ∀ pos, pos ≤ t.inodes.length → (refAt pos).blockIdx ≤ t'.inodeBlocks.length)
    (hf : stream = [] ∨ ∃ e ∈ x.entries, e.isLeaf ∧ Ends stream [leafRefs e.path])
    (hla : t.inodes = stream ∨ Ends t.inodes refs) : t.inodes.length < 2 ^ 44 + 2 ^ 24 := by
  have hen : ∀ {r : MetaRef}, (t'.place r).1 ≤ 0xFFFFFFFF → Ends t.inodes [r] →
      t.inodes.length < 2 ^ 44 + 2 ^ 24 := by
    rintro r hn ⟨pos, hp, hle, hlen⟩
    rw [← List.mem_singleton.mp hp] at hn
    have hlt := hs.pos_lt (hk pos hle) hn
    omega
  rcases hla with hsa | ⟨pos, hp, hn⟩
  · rcases hf with hni | ⟨e, he, hleaf, hend⟩
    · rw [hsa, hni]
      decide
    obtain ⟨r, hr⟩ := ha e he
    simp only [Entry.isLeaf, Bool.not_eq_true', Bool.or_eq_false_iff] at hleaf
    have hpa := inodePath_of_not_link hleaf.2
    have hre : r = leafRefs e.path := hpa ▸ hlea _ hr hleaf.1
    exact hen (hl.near ht _ hr) (by rw [hsa, hre]; exact hend)
  · obtain ⟨e, he⟩ := mem_zip_of_mem_right (Nat.le_of_eq hl.length_refs) hp
    exact hen (ht _ he) ⟨pos, List.mem_singleton_self _, hn⟩

theorem children_few {entries : List Entry} (hf : ∀ dir, (childrenOf entries dir).length ≤ n)
    (fuel : Nat) (dir : Bytes) :
    (grow entries fuel dir).heads.length ≤ n ∧
      (grow entries fuel dir).Levels fun l => l.length ≤ n :=
  grow_levels (P := fun l => l.length ≤ n) (Nat.zero_le _) hf fuel dir

theorem children_sorted (entries : List Entry) (fuel : Nat) (dir : Bytes) :
    ((grow entries fuel dir).heads.Pairwise fun a b => pathBase a.path ≤ pathBase b.path) ∧
      (grow entries fuel dir).Levels fun l => l.Pairwise fun a b =>
        pathBase a.path ≤ pathBase b.path :=
  grow_levels (P := fun l => l.Pairwise fun a b => pathBase a.path ≤ pathBase b.path)
    List.Pairwise.nil childrenOf_sorted fuel dir

theorem layout_spec (hcf : w.cfg.Good expand) (hw : SoundEntries w.entries)
    (hf : ∀ dir, (childrenOf w.entries dir).length ≤ 2 ^ 22) (h : w.layout = .ok l) :
    ∃ x root t refs all rootRef, LaidOut expand w l x root t refs all rootRef := by
  obtain ⟨root, hr, h⟩ := bind_eq_ok.mp h
  obtain ⟨owners, ho, h⟩ := bind_eq_ok.mp h
  obtain ⟨leaves, hl, h⟩ := bind_eq_ok.mp h
  obtain ⟨⟨refs, s1⟩, hdi, h⟩ := bind_eq_ok.mp h
  obtain ⟨⟨rootRef, s2⟩, hro, h⟩ := bind_eq_ok.mp h
  obtain ⟨inodes, hi, h⟩ := bind_eq_ok.mp h
  obtain ⟨dirs, hdir, h⟩ := bind_eq_ok.mp h
  obtain ⟨inodeTable, hino, h⟩ := bind_eq_ok.mp h
  obtain ⟨directoryTable, hdire, h⟩ := bind_eq_ok.mp h
  obtain ⟨⟨idOffsets, idData⟩, hid, heq⟩ := bind_eq_ok.mp h
  cases heq
  rw [mapError_eq_ok] at hino hdire hid
  obtain ⟨hg, hp⟩ := buildTree_spec hw hr
  have hpl : Placed [] root := hg ▸ grow_placed hw _ ⟨fun c hc => absurd hc List.not_mem_nil⟩
  have hs := hg ▸ children_sorted w.entries (depthBound w.entries) [slash]
  have hfe := hg ▸ (children_few hf (depthBound w.entries) [slash]).1
  generalize hx : (⟨w.cfg, w.entries, assignInodeNumbers root, owners⟩ : Resolved) = x at *
  have hxc : x.cfg = w.cfg := by rw [← hx]
  have hxe : x.entries = w.entries := by rw [← hx]
  have hc' : x.cfg.Good expand := hxc ▸ hcf
  -- The leaves, the directories below the root, and the root.
  obtain ⟨stream, hst, hle, hfi⟩ := writeLeafInodes_spec hc' (hxe ▸ hw) hl
  have hs0 : DirTables.Holds expand ⟨leaves.inodes, newMetaWriter .directory⟩
      ⟨leaves.inodes.blocks, stream, [], []⟩ := ⟨hst, newMetaWriter_holds _, rfl, rfl⟩
  obtain ⟨t1, all, hs1, hg1, hla, hk, hlas⟩ := writeDirs_spec hc' (hxe ▸ hw) hs0
    (fun e he => hxe ▸ hp.mem_iff.mp he) hs.2 hle hdi
  obtain ⟨t2, hs2, hg2, hroo, hrootR, hlen, hsta, hli⟩ :=
    writeDir_spec hc' hs1 hla.length_refs hla.refs_lie hs.1 hro
  -- The last blocks.
  obtain ⟨hinod, hinode⟩ := hs2.inodes.flush hcf.inverted hi
  obtain ⟨hdirsS, hdirsP⟩ := hs2.dirs.flush hcf.inverted hdir
  have hg3 : t2.Grows ⟨inodes.blocks, t2.inodes, dirs.blocks, t2.dirs⟩ :=
    ⟨hs2.inodeBlocks ▸ hinode, List.prefix_refl _, hs2.dirBlocks ▸ hdirsP, List.prefix_refl _⟩
  have hl3 := hla.mono (hg2.trans hg3)
  have hr3 := hroo.mono hg3
  refine ⟨x, root, ⟨inodes.blocks, t2.inodes, dirs.blocks, t2.dirs⟩, refs, all, rootRef, ?_⟩
  refine ⟨hxc, hxe, by rw [← hx], hr, by rw [← hx]; exact ho, hl3,
    ⟨leaves.refs, hk⟩, hr3, hinod, hdirsS, ?_, ?_, emitTo_ok hino,
    emitTo_ok hdire, by rw [← hx]; exact hid, rfl, by rw [← hx]⟩
  · have hsh : t1.inodes.length < 2 ^ 44 + 2 ^ 24 := by
      refine inodes_short hinod hl3 hr3.near ?_ hk ?_ hfi hlas
      · intro e he
        rw [hxe, ← hp.mem_iff, ← hla.entries hpl] at he
        obtain ⟨⟨e', r⟩, hm, rfl⟩ := List.mem_map.mp he
        exact ⟨r, hm⟩
      · intro pos hpo
        exact Nat.le_trans (hs1.known hpo) (hg2.inodeBlocks.trans hg3.inodeBlocks).length_le
    exact show t2.inodes.length < 2 ^ 45 by omega
  · have hkn : (refAt t1.dirs.length).blockIdx ≤ t2.dirBlocks.length := by
      rw [hs2.dirBlocks, hs2.dirs.length_blocks, hli]
      exact Nat.div_le_div_right (by rw [List.length_append]; omega)
    have hb : t1.dirs.length < 2 ^ 44 := by
      refine hdirsS.pos_lt (Nat.le_trans hkn hg3.dirBlocks.length_le) ?_
      rw [byteOffset_stable hg3.dirBlocks hkn]
      exact hsta
    have hsi := (length_listing fun d hd => (hroo.fits d hd).short).2
    rw [List.length_map, List.length_zip] at hsi
    refine show t2.dirs.length < 2 ^ 45 from ?_
    rw [hli, List.length_append]
    omega

section Image

variable {w : Writer} {l : Layout} {root : Forest} {e : Entry}

theorem encodeBasicFile_ok {start size : Nat}
    (henc : encodeBasicFile h blockSize start size sizes = .ok b) :
    start ≤ 0xFFFFFFFF ∧ size ≤ 0xFFFFFFFF := by
  unfold encodeBasicFile at henc
  split at henc
  · cases henc
  split at henc
  · cases henc
  · omega

section

variable (h : LaidOut expand w l x root t refs all rootRef)
include h

theorem LaidOut.perm (hw : SoundEntries w.entries) : (all.map Prod.fst).Perm w.entries := by
  obtain ⟨hg, hp⟩ := buildTree_spec hw h.tree
  have hpl : Placed [] root := hg ▸ grow_placed hw _ ⟨fun c hc => absurd hc List.not_mem_nil⟩
  rw [h.laid.entries hpl]
  exact hp

theorem LaidOut.node (hw : SoundEntries w.entries) (he : e ∈ w.entries) : ∃ r, (e, r) ∈ all := by
  rw [← (h.perm hw).mem_iff] at he
  obtain ⟨⟨e', r⟩, hm, rfl⟩ := List.mem_map.mp he
  exact ⟨r, hm⟩

/-- The files of an image end below 8 GiB: the last begins below 4 GiB and is not longer. -/
theorem LaidOut.out_short (hw : Settled expand w items) : w.out.length < 2 ^ 34 := by
  have hs := hw.soundEntries
  rcases hw.tail with hn | ⟨e, he, start, sizes, size, hk, hl⟩
  · rw [hn]
    decide
  obtain ⟨i, _, hi⟩ := forall₂_of_mem_left hw.entries he
  obtain ⟨r, hr⟩ := h.node hs he
  have hd : e.isDir = false := by rw [Entry.isDir, hk]
  have hso : x.source e = e := by rw [Resolved.source, hk]
  obtain ⟨_, _, _, _, _, henc, _⟩ := h.laid.leaf_of_mem hr hd
  rw [hso, encodeLeaf, encodeLeafWith, hk] at henc
  obtain ⟨hst, hsi⟩ := encodeBasicFile_ok henc
  have hf := hi.kind
  rw [hk] at hf
  generalize i.body = b at hf
  cases hf with
  | file hf =>
    obtain ⟨blocks, hb, _, hda⟩ := hf.blocks
    have hdi := hb.diskLen_le
    rw [hda, ← hf.size] at hdi
    omega

theorem LaidOut.ids_short (hc : w.cfg.Good expand) (hi : x.owners.ids.length ≤ maxIDs)
    (hn : x.owners.ids ≠ []) :
    l.idData.length < 2 ^ 20 ∧ (writeLookup l.idOffsets).length < 2 ^ 20 := by
  obtain ⟨blocks, hs, hd, ho⟩ := writeData_spec hc.inverted hn h.ids
  have hl := hs.length_emitted_le
  rw [length_idBytes, metadataBlockSize] at hl
  rw [maxIDs] at hi
  refine ⟨by rw [hd]; omega, ?_⟩
  rw [writeLookup, List.length_flatMap, ho]
  simp only [length_leBytes, List.map_const', List.sum_replicate_nat, List.length_map,
    List.length_range, idsPerMetaBlock]
  omega

theorem LaidOut.owned (hw : SoundEntries w.entries) :
    x.owners.ids.length ≤ maxIDs ∧ Owned x.owners [slash] (rootAttrs w.cfg) ∧
      ∀ e ∈ w.entries, e.isLink = false → Owned x.owners e.path e.attrs :=
  internIDs_spec hw h.owners

end

theorem Owned.ids_ne_nil (h : Owned o p a) : o.ids ≠ [] := by
  intro hn
  have hg := h.uid
  rw [hn] at hg
  cases hg

theorem LaidOut.bounds (h : LaidOut expand w l x root t refs all rootRef)
    (hc : w.cfg.Good expand) (hw : Settled expand w items) :
    superblockSize ≤ (w.superblock l).inodeTableStart ∧
      (w.superblock l).inodeTableStart ≤ (w.superblock l).directoryTableStart ∧
      (w.superblock l).directoryTableStart ≤ (w.superblock l).idTableStart ∧
      (w.superblock l).idTableStart ≤ (w.superblock l).bytesUsed ∧
      (w.superblock l).bytesUsed < 2 ^ 48 ∧ (w.superblock l).bytesUsed ≤ (w.image l).length := by
  have hs := hw.soundEntries
  obtain ⟨hi, hr, _⟩ := h.owned hs
  have ho := h.out_short hw
  have hst := hw.start
  obtain ⟨hd, hl⟩ := h.ids_short hc hi hr.ids_ne_nil
  have hino := h.inodesSealed.length_emitted_lt h.inodesSmall
  have hdi := h.dirsSealed.length_emitted_lt h.dirsSmall
  rw [← h.inodeTable] at hino
  rw [← h.directoryTable] at hdi
  simp only [Writer.image, Writer.imageWith, List.length_append, length_superblock, List.length_drop]
  simp only [Writer.superblock]
  omega

theorem clampTime_le (sec : Int) : clampTime sec ≤ 0xFFFFFFFF := by
  unfold clampTime
  split
  · exact Nat.zero_le _
  split
  · exact Nat.le_refl _
  · omega

theorem imageMtime_le (cfg : Config) (entries : List Entry) : imageMtime cfg entries ≤ 0xFFFFFFFF := by
  unfold imageMtime
  split
  · exact clampTime_le _
  · exact clampTime_le _

theorem blockLogFor_le (blockSize : Nat) : blockLogFor blockSize ≤ 32 := by
  unfold blockLogFor
  cases hf : (List.range 32).find? fun i => blockSize.testBit i with
  | none => exact Nat.le_refl _
  | some i => exact Nat.le_of_lt (List.mem_range.mp (List.mem_of_find?_eq_some hf))

theorem rootRef_split {r : MetaRef} (ho : r.offset < metadataBlockSize) (block : Nat) :
    r.encode block = block * 65536 + r.offset ∧ r.encode block / 65536 = block ∧
      r.encode block % 65536 = r.offset := by
  rw [metadataBlockSize] at ho
  have hl : r.offset < 2 ^ 16 := by omega
  have hor := Nat.two_pow_add_eq_or_of_lt hl block
  have he : r.encode block = block * 65536 + r.offset := by
    rw [MetaRef.encode, Nat.shiftLeft_eq, Nat.mul_comm, ← hor, Nat.mul_comm]
  omega

section

variable (h : LaidOut expand w l x root t refs all rootRef)
include h

theorem LaidOut.root_place :
    rootRef.offset < metadataBlockSize ∧ (t.place rootRef).1 ≤ l.inodeTable.length := by
  obtain ⟨pos, _, _, _, hr, _⟩ := h.rootLaid.inode
  refine ⟨hr ▸ Nat.mod_lt _ (by decide), ?_⟩
  rw [h.inodeTable, Written.place, ← length_emitted_take,
    emitted_split t.inodeBlocks rootRef.blockIdx, List.length_append]
  exact Nat.le_add_right ..

section

variable (hc : w.cfg.Good expand) (hw : Settled expand w items)
include hc hw

theorem LaidOut.superblock_fits : ∀ f ∈ (w.superblock l).fields, f.2 < 256 ^ f.1 := by
  obtain ⟨_, hi, hd, hid, hu, _⟩ := h.bounds hc hw
  have hs := hw.soundEntries
  have hids := (h.owned hs).1
  obtain ⟨ho, hp⟩ := h.root_place
  have ht := h.inodesSealed.length_emitted_lt h.inodesSmall
  rw [← h.inodeTable] at ht
  have hr := (rootRef_split ho (t.place rootRef).1).1
  rw [← h.rootInodeRef] at hr
  rw [metadataBlockSize] at ho
  have hb := hc.most
  have hm := imageMtime_le w.cfg w.entries
  have hl := blockLogFor_le w.cfg.blockSize
  have hco : totalInodeCount w.entries < 2 ^ 32 := Nat.mod_lt _ (by decide)
  have hcom := w.cfg.compressor.id.toNat_lt
  have hidC := h.idCount
  rw [maxIDs] at hids
  rw [maxBlockSize] at hb
  have hsb : (w.superblock l).inodeCount = totalInodeCount w.entries ∧
      (w.superblock l).modTime = imageMtime w.cfg w.entries ∧
      (w.superblock l).blockSize = w.cfg.blockSize ∧ (w.superblock l).fragCount = 0 ∧
      (w.superblock l).compressor = w.cfg.compressor.id.toNat ∧
      (w.superblock l).blockLog = blockLogFor w.cfg.blockSize ∧
      (w.superblock l).flags = 528 ∧ (w.superblock l).idCount = l.idCount ∧
      (w.superblock l).rootInodeRef = l.rootInodeRef ∧
      (w.superblock l).xattrTableStart = 0xFFFFFFFFFFFFFFFF ∧
      (w.superblock l).fragmentTableStart = 0xFFFFFFFFFFFFFFFF ∧
      (w.superblock l).exportTableStart = 0xFFFFFFFFFFFFFFFF :=
    ⟨rfl, rfl, rfl, rfl, rfl, rfl, rfl, rfl, rfl, rfl, rfl, rfl⟩
  simp only [Superblock.fields, List.mem_cons, List.not_mem_nil, or_false, magic]
  generalize w.superblock l = sb at *
  rintro f (rfl | rfl | rfl | rfl | rfl | rfl | rfl | rfl | rfl | rfl | rfl | rfl | rfl | rfl | rfl |
    rfl | rfl | rfl | rfl) <;> dsimp only <;> omega

theorem LaidOut.read_superblock : readSuperblock (w.image l) = some (w.superblock l) := by
  simp only [Writer.image, Writer.imageWith, List.append_assoc]
  exact readSuperblock_encode (h.superblock_fits hc hw) _

theorem LaidOut.image_holds : ImageHolds expand (w.image l) (w.superblock l) x t w.out := by
  have hs := hw.soundEntries
  obtain ⟨hid, hr, _⟩ := h.owned hs
  have hf : ((w.superblock l).encode ++ w.out.drop superblockSize).length = w.out.length := by
    have hst := hw.start
    rw [List.length_append, length_superblock, List.length_drop]
    omega
  refine ⟨?_, h.inodesSealed, ?_, h.dirsSealed, ?_, hid, by rw [h.cfg]; rfl, ?_⟩
  · refine ⟨(w.superblock l).encode ++ w.out.drop superblockSize,
      l.directoryTable ++ l.idData ++ writeLookup l.idOffsets ++ padding (w.superblock l).bytesUsed,
      ?_, hf.symm⟩
    simp only [Writer.image, Writer.imageWith, ← h.inodeTable, List.append_assoc]
  · refine ⟨(w.superblock l).encode ++ w.out.drop superblockSize ++ l.inodeTable,
      l.idData ++ writeLookup l.idOffsets ++ padding (w.superblock l).bytesUsed, ?_, ?_⟩
    · simp only [Writer.image, Writer.imageWith, ← h.directoryTable, List.append_assoc]
    · rw [List.length_append, hf]
      rfl
  · intro i id hi
    have hb : ((w.superblock l).encode ++ w.out.drop superblockSize ++ l.inodeTable ++
        l.directoryTable).length = w.out.length + l.inodeTable.length + l.directoryTable.length := by
      rw [List.length_append, List.length_append, hf]
    have hwr := h.ids
    rw [← hb] at hwr
    have hsm : ((w.superblock l).encode ++ w.out.drop superblockSize ++ l.inodeTable ++
        l.directoryTable ++ l.idData).length < 256 ^ 8 := by
      obtain ⟨_, _, _, hu, hl, _⟩ := h.bounds hc hw
      rw [List.length_append, hb]
      exact Nat.lt_of_le_of_lt hu (Nat.lt_trans hl (by decide))
    have hre : readID expand (w.image l) _ i = some id.toNat :=
      readID_written hc.inverted hr.ids_ne_nil hwr hsm hi
    rw [List.length_append, hb] at hre
    exact hre
  · intro pos hp
    obtain ⟨k, rfl⟩ := Nat.exists_eq_add_of_le hp
    have him : w.image l = (w.superblock l).encode ++ (w.out.drop superblockSize ++
        (l.inodeTable ++ l.directoryTable ++ l.idData ++ writeLookup l.idOffsets ++
          padding (w.superblock l).bytesUsed)) := by
      simp only [Writer.image, Writer.imageWith, List.append_assoc]
    rw [him, ← length_superblock (w.superblock l), List.drop_length_add_append, ← List.drop_drop,
      length_superblock]
    exact (List.prefix_append ..).drop k

end

end

def Item.Own (i : Item) : Prop := ∀ target, i.body ≠ .hardlink target

/-- The root and the items: nothing is missing and nothing else is there. -/
structure Restores (cfg : Config) (items : List Item) (tree : List (Bytes × Found)) : Prop where
  paths : (tree.map Prod.fst).Perm ([slash] :: items.map Item.path)
  root : ∀ f, ([slash], f) ∈ tree → Shows cfg (rootAttrs cfg) .dir f
  own : ∀ i ∈ items, i.Own → ∀ f, (i.path, f) ∈ tree → Shows cfg i.attrs i.body f
  links : ∀ i ∈ items, ∀ target, i.body = .hardlink target → ∀ f, (i.path, f) ∈ tree →
    (target, f) ∈ tree

def Apart (items : List Item) (tree : List (Bytes × Found)) : Prop :=
  ∀ f g, ∀ i ∈ items, i.Own → (i.path, f) ∈ tree →
    (([slash], g) ∈ tree → f.number ≠ g.number) ∧
      ∀ j ∈ items, j.Own → (j.path, g) ∈ tree → f.number = g.number → i = j

theorem KindHolds.isLink_eq {out : Bytes} (h : KindHolds expand blockSize out k b) :
    k = .hardlink target ↔ b = .hardlink target := by
  cases h <;> simp

variable {i : Item}

theorem Settled.entry (hw : Settled expand w items) (hi : i ∈ items) :
    ∃ e ∈ w.entries, EntryHolds expand w.cfg.blockSize w.out e i :=
  forall₂_of_mem_right hw.entries hi

theorem Settled.own (hw : Settled expand w items) (hi : i ∈ items) (ho : i.Own) :
    ∃ e ∈ w.entries, EntryHolds expand w.cfg.blockSize w.out e i ∧ e.isLink = false := by
  obtain ⟨e, he, hei⟩ := hw.entry hi
  refine ⟨e, he, hei, ?_⟩
  unfold Entry.isLink
  split
  · rename_i target hk
    exact absurd (hei.kind.isLink_eq.mp hk) (ho target)
  · rfl

theorem Resolved.source_of_not_link (h : e.isLink = false) : x.source e = e := by
  unfold Entry.isLink at h
  unfold Resolved.source
  split
  · rename_i hk
    rw [hk] at h
    cases h
  · rfl

section

variable (h : LaidOut expand w l x root t refs all rootRef)
include h

theorem LaidOut.read_at (hw : SoundEntries w.entries)
    (hr : List.Forall₂ (Reads expand (w.image l) (w.superblock l) x t w.out) all found)
    (he : e ∈ w.entries) (hf : (e.path, f) ∈ ([slash], f0) :: found) :
    ∃ r, (e, r) ∈ all ∧
      Reads expand (w.image l) (w.superblock l) x t w.out (e, r) (e.path, f) := by
  rcases List.mem_cons.mp hf with heq | hf
  · exact absurd (Prod.mk.inj heq).1 (hw.ne_root he)
  obtain ⟨⟨e', r⟩, hn, hre⟩ := forall₂_of_mem_right hr hf
  have hi : e' ∈ w.entries := (h.perm hw).mem_iff.mp (List.mem_map_of_mem hn)
  obtain rfl : e' = e := hw.eq_of_path hi he hre.path.symm
  exact ⟨r, hn, hre⟩

theorem LaidOut.restores (hw : Settled expand w items)
    (hre : List.Forall₂ (Reads expand (w.image l) (w.superblock l) x t w.out) all found)
    (hro : Shows w.cfg (rootAttrs w.cfg) .dir f0) :
    Restores w.cfg items (([slash], f0) :: found) := by
  have hs := hw.soundEntries
  have hp : found.map Prod.fst = (all.map Prod.fst).map Entry.path := by
    rw [List.map_map]
    exact map_eq_of_forall₂ (hre.imp fun _ _ hrea => hrea.path)
  refine ⟨?_, fun f hf => ?_, fun i hi ho f hf => ?_, fun i hi target ht f hf => ?_⟩
  · rw [List.map_cons, hp, ← paths_eq hw.entries]
    exact ((h.perm hs).map Entry.path).cons _
  · rcases List.mem_cons.mp hf with heq | hf
    · rw [(Prod.mk.inj heq).2]
      exact hro
    obtain ⟨⟨e, r⟩, hn, hrea⟩ := forall₂_of_mem_right hre hf
    have hin : e ∈ w.entries := (h.perm hs).mem_iff.mp (List.mem_map_of_mem hn)
    exact absurd hrea.path.symm (hs.ne_root hin)
  · obtain ⟨e, he, hei, hl⟩ := hw.own hi ho
    obtain ⟨r, _, hrea⟩ := h.read_at hs hre he (hei.path ▸ hf)
    rw [← h.cfg] at hei ⊢
    refine hrea.shown i ?_
    rw [Resolved.source_of_not_link hl]
    exact hei
  obtain ⟨e, he, hei⟩ := hw.entry hi
  have hk := hei.kind.isLink_eq.mpr ht
  have hino : e.inodePath = target := by rw [Entry.inodePath, hk]
  obtain ⟨r, hr, hrea⟩ := h.read_at hs hre he (hei.path ▸ hf)
  obtain ⟨e', he', hpa, hfi⟩ := hs.links e he target hk
  obtain ⟨r', hr'⟩ := h.node hs he'
  obtain ⟨⟨q, g⟩, hg, hre'⟩ := forall₂_of_mem_left hre hr'
  obtain ⟨leafRefs, hle⟩ := h.leaves
  have hl : e.isLink = true := by rw [Entry.isLink, hk]
  have hf' := leaf_of_file hfi
  -- Both inodes are the one that was written for the file.
  have hsa : r' = r := by
    have hli : r = leafRefs e.inodePath := hle _ hr (not_dir_of_link hl)
    have hfil : r' = leafRefs e'.inodePath := hle _ hr' hf'.1
    rw [hli, hfil, hino, inodePath_of_not_link hf'.2, hpa]
  obtain ⟨body, hb⟩ := hrea.inode
  obtain ⟨body', hb'⟩ := hre'.inode
  rw [hsa, hb] at hb'
  cases hb'
  refine List.mem_cons_of_mem _ ?_
  rw [← hpa, ← hre'.path]
  exact hg

theorem LaidOut.apart (hw : Settled expand w items)
    (hr : List.Forall₂ (Reads expand (w.image l) (w.superblock l) x t w.out) all found)
    (hn : f0.number = (x.nums.number [slash]).toNat) (hfe : w.entries.length + 2 < 2 ^ 32) :
    Apart items (([slash], f0) :: found) := by
  have hs := hw.soundEntries
  obtain ⟨ho, hot, hinj⟩ := assignInodeNumbers_spec hs h.tree hfe
  rw [← h.nums] at ho hot hinj
  have hnu : ∀ i ∈ items, i.Own → ∀ f, (i.path, f) ∈ ([slash], f0) :: found →
      ∃ e ∈ w.entries, e.path = i.path ∧ e.isLink = false ∧
        f.number = (x.nums.number e.path).toNat := by
    intro i hi hown f hf
    obtain ⟨e, he, hei, hl⟩ := hw.own hi hown
    obtain ⟨r, _, hre⟩ := h.read_at hs hr he (hei.path ▸ hf)
    refine ⟨e, he, hei.path, hl, ?_⟩
    rw [hre.number, inodePath_of_not_link hl]
  intro f g i hi hown hf
  obtain ⟨e, he, hp, hl, hfn⟩ := hnu i hi hown f hf
  refine ⟨fun hg heq => ?_, fun j hj hjo hg heq => ?_⟩
  · rcases List.mem_cons.mp hg with hro | hg
    · rw [(Prod.mk.inj hro).2, hfn, hn] at heq
      exact hot e he hl ((UInt32.toNat_inj.mp heq).trans ho)
    obtain ⟨⟨e', r⟩, hno, hre⟩ := forall₂_of_mem_right hr hg
    have hin : e' ∈ w.entries := (h.perm hs).mem_iff.mp (List.mem_map_of_mem hno)
    exact hs.ne_root hin hre.path.symm
  obtain ⟨e', he', hp', hl', hgn⟩ := hnu j hj hjo g hg
  rw [hfn, hgn] at heq
  have hsa := hinj e he e' he' hl hl' (UInt32.toNat_inj.mp heq)
  exact List.inj_on_of_nodup_map hw.sound.nodup hi hj (by rw [← hp, ← hp', hsa])

theorem LaidOut.decodes (hcf : w.cfg.Good expand) (hw : Settled expand w items)
    (hf : ∀ dir, (childrenOf w.entries dir).length ≤ 2 ^ 22) :
    ∃ f0 found, Decodes expand (w.image l) (([slash], f0) :: found) ∧
      List.Forall₂ (Reads expand (w.image l) (w.superblock l) x t w.out) all found ∧
      (∃ body, readFound expand (w.image l) (w.superblock l) (t.place rootRef) = some (f0, body)) ∧
      f0.number = (x.nums.number [slash]).toNat ∧ Shows w.cfg (rootAttrs w.cfg) .dir f0 := by
  have hs := hw.soundEntries
  obtain ⟨hg, hp⟩ := buildTree_spec hs h.tree
  have hn : Canonical [] := ⟨fun c hc => absurd hc List.not_mem_nil⟩
  have hpl : Placed [] root := hg ▸ grow_placed hs _ hn
  have hl := hg ▸ children_few hf (depthBound w.entries) [slash]
  obtain ⟨hid, hr, ho⟩ := h.owned hs
  have him := h.image_holds hcf hw
  have hx : x.Sound expand w.out := by
    refine ⟨h.entries ▸ hs, fun e he => ?_, h.entries ▸ ho⟩
    obtain ⟨i, _, hi⟩ := forall₂_of_mem_left hw.entries (h.entries ▸ he)
    exact ⟨i, h.cfg ▸ hi⟩
  obtain ⟨found, hre, hb⟩ := decode_forest him hx h.laid hn hpl
    (fun e he => h.entries ▸ hp.mem_iff.mp he) hl.2
  have hco : (root.heads.zip refs).length ≤ 2 ^ 22 := by
    rw [List.length_zip]
    exact Nat.le_trans (Nat.min_le_left ..) hl.1
  have hch : ∀ d ∈ (none : Option DirEntry),
      d.childInode = x.nums.number [slash] ∧ d.basicType = inodeBasicDir := nofun
  obtain ⟨f0, hbo, hnu, hsh, n, hd⟩ := decode_dir him h.rootLaid hr (linkCount_lt root) hco hch hb
  refine ⟨f0, found, ⟨n, fun fuel hfu => ?_⟩, hre, hbo, hnu, h.cfg ▸ hsh⟩
  obtain ⟨hof, _⟩ := h.root_place
  obtain ⟨_, hbl, hoff⟩ := rootRef_split hof (t.place rootRef).1
  have hpla : ((w.superblock l).rootInodeRef / 65536, (w.superblock l).rootInodeRef % 65536) =
      t.place rootRef := by
    rw [show (w.superblock l).rootInodeRef = l.rootInodeRef from rfl, h.rootInodeRef, hbl, hoff]
    rfl
  rw [decode, h.read_superblock hcf hw, Option.bind_eq_bind, Option.bind_some, hpla]
  exact hd fuel hfu

end

section

variable (hc : w.cfg.Good expand) (hw : Settled expand w items)
    (hf : ∀ dir, (childrenOf w.entries dir).length ≤ 2 ^ 22) (h : w.layout = .ok l)
include hc hw hf h

theorem image_decodes :
    ∃ tree, Decodes expand (w.image l) tree ∧ Restores w.cfg items tree ∧
      (w.entries.length + 2 < 2 ^ 32 → Apart items tree) := by
  have hs := hw.soundEntries
  obtain ⟨x, root, t, refs, all, rootRef, h⟩ := layout_spec hc hs hf h
  obtain ⟨f0, found, hd, hr, _, hn, hsh⟩ := h.decodes hc hw hf
  exact ⟨([slash], f0) :: found, hd, h.restores hw hr hsh, h.apart hw hr hn⟩

theorem image_ordered :
    ∃ sb, readSuperblock (w.image l) = some sb ∧ superblockSize ≤ sb.inodeTableStart ∧
      sb.inodeTableStart ≤ sb.directoryTableStart ∧ sb.directoryTableStart ≤ sb.idTableStart ∧
      sb.idTableStart ≤ sb.bytesUsed ∧ sb.bytesUsed ≤ (w.image l).length := by
  have hs := hw.soundEntries
  obtain ⟨x, root, t, refs, all, rootRef, h⟩ := layout_spec hc hs hf h
  obtain ⟨hst, hi, hd, hid, _, hu⟩ := h.bounds hc hw
  exact ⟨w.superblock l, h.read_superblock hc hw, hst, hi, hd, hid, hu⟩

end

end Image

end Layouts

theorem withBlockSize_ok (h : withBlockSize base n = .ok cfg) :
    minBlockSize ≤ cfg.blockSize ∧ cfg.blockSize ≤ maxBlockSize := by
  unfold withBlockSize at h
  split at h
  · cases h
  rename_i hr
  split at h
  · cases h
  · cases h
    exact ⟨Nat.le_of_not_lt fun hl => hr (.inl hl), Nat.le_of_not_lt fun hl => hr (.inr hl)⟩

theorem length_childrenOf_le (entries : List Entry) (dir : Bytes) :
    (childrenOf entries dir).length ≤ entries.length := by
  rw [childrenOf, List.length_insertionSort]
  exact List.length_filter_le ..

theorem close_ok (hc : w.cfg.Good expand) (hw : Tells expand w items) (h : w.close = .ok w') :
    ∃ w1 l, Settled expand w1 items ∧ w1.cfg = w.cfg ∧ w1.layout = .ok l ∧
      w'.out = w1.image l := by
  unfold Writer.close at h
  split at h
  · cases h
  obtain ⟨w1, hf, h⟩ := bind_eq_ok.mp h
  obtain ⟨l, hl, he⟩ := bind_eq_ok.mp h
  cases he
  obtain ⟨hs, hsa⟩ := hw.flush hc hf
  exact ⟨w1, l, hs, hsa, hl, rfl⟩

/-- An image is read as what was created. -/
theorem image_round_trip {expand : Bytes → Option Bytes} {base cfg : Config} {n : UInt32}
    (hsize : withBlockSize base n = .ok cfg) (hcomp : cfg.compressor.Inverted expand)
    {calls : List Call} (hfew : (created calls).length ≤ 2 ^ 22) {w w' : Writer}
    (hrun : (newWriter cfg).run calls = .ok w) (hclose : w.close = .ok w') :
    ∃ tree sb, Decodes expand w'.out tree ∧ Restores cfg (created calls) tree ∧
      Apart (created calls) tree ∧ readSuperblock w'.out = some sb ∧
      96 ≤ sb.inodeTableStart ∧ sb.inodeTableStart ≤ sb.directoryTableStart ∧
      sb.directoryTableStart ≤ sb.idTableStart ∧ sb.idTableStart ≤ sb.bytesUsed ∧
      sb.bytesUsed ≤ w'.out.length := by
  obtain ⟨hleast, hmost⟩ := withBlockSize_ok hsize
  have hcfg : cfg.Good expand := ⟨hcomp, hleast, hmost⟩
  obtain ⟨htells, hsame⟩ := run_spec hcfg hrun
  obtain ⟨w1, l, hsettled, hsame1, hlayout, hout⟩ := close_ok (hsame ▸ hcfg) htells hclose
  have hcfg1 : w1.cfg = cfg := hsame1.trans hsame
  have hlen : w1.entries.length ≤ 2 ^ 22 := hsettled.entries.length_eq ▸ hfew
  have hdirs : ∀ dir, (childrenOf w1.entries dir).length ≤ 2 ^ 22 := fun dir =>
    Nat.le_trans (length_childrenOf_le ..) hlen
  obtain ⟨tree, hdecodes, hrestores, hapart⟩ := image_decodes (hcfg1 ▸ hcfg) hsettled hdirs hlayout
  obtain ⟨sb, hsb, hordered⟩ := image_ordered (hcfg1 ▸ hcfg) hsettled hdirs hlayout
  rw [hout]
  exact ⟨tree, sb, hdecodes, hcfg1 ▸ hrestores, hapart (by omega), hsb, hordered⟩

def rawConfig : Config := ⟨4096, rawCompressor, Time.zero⟩

def linkedCalls : List Call :=
  [.dir (text ['/', 'a']) ⟨0o755, 0, 0, ⟨1, 0⟩⟩, .file (text ['/', 'a', '/', 'b']) ⟨0o4644, 7, 8, ⟨5, 0⟩⟩,
    .write (text ['/', 'a', '/', 'b']) [1, 2, 3], .hardlink (text ['/', 'c']) (text ['/', 'a', '/', 'b'])]

theorem linked_round_trip :
    ∃ w w', (newWriter rawConfig).run linkedCalls = .ok w ∧ w.close = .ok w' ∧
      ∃ tree, Decodes (fun _ => none) w'.out tree ∧ Restores rawConfig (created linkedCalls) tree := by
  obtain ⟨w, hw⟩ : ∃ w, (newWriter rawConfig).run linkedCalls = .ok w :=
    exists_of_isOk (by decide +kernel)
  obtain ⟨w', hw'⟩ : ∃ w', w.close = .ok w' := by
    have hboth : ((newWriter rawConfig).run linkedCalls >>= Writer.close).isOk = true := by
      decide +kernel
    rw [hw] at hboth
    exact exists_of_isOk hboth
  obtain ⟨tree, _, hdecodes, hrestores, _⟩ := image_round_trip
    (show withBlockSize rawConfig 4096 = .ok rawConfig from rfl)
    (rawCompressor_inverted fun _ => none) (by decide) hw hw'
  exact ⟨w, w', hw, hw', tree, hdecodes, hrestores⟩

end Craftling.Squashfs

import Craftling.Squashfs.Trees

namespace Craftling.Squashfs
open Effects List Function

def Forest.owned (f : Forest) : List Entry := f.preorder.filter fun e => !e.isLink

variable {b stream stream' : Bytes} {cfg : Config} {e : Entry} {f : Forest} {h : Header}
    {n pos : Nat} {s : Numbers}

theorem Entry.not_dir_of_link (h : e.isLink = true) : e.isDir = false := by
  unfold Entry.isLink at h
  unfold Entry.isDir
  split at h
  · rename_i he
    rw [he]
  · cases h

theorem Entry.inodePath_of_not_link (h : e.isLink = false) : e.inodePath = e.path := by
  unfold Entry.isLink at h
  unfold Entry.inodePath
  split
  · rename_i he
    rw [he] at h
    cases h
  · rfl

theorem Entry.leaf_of_file (h : e.isFile = true) : e.isDir = false ∧ e.isLink = false := by
  unfold Entry.isFile at h
  split at h
  · rename_i hk
    rw [Entry.isDir, Entry.isLink, hk]
    exact ⟨rfl, rfl⟩
  · cases h

theorem owned_of_link (h : e.isLink = true) (rest : Forest) :
    (Forest.cons e .nil rest).owned = rest.owned := by
  rw [Forest.owned, Forest.preorder, filter_cons_of_neg (by simp [h])]
  rfl

theorem owned_of_not_link (h : ¬e.isLink = true) (below rest : Forest) :
    (Forest.cons e below rest).owned = e :: (below.owned ++ rest.owned) := by
  rw [Forest.owned, Forest.preorder, filter_cons_of_pos (by simp [h]), filter_append]
  rfl

/-- The entries with an inode have been given the 32-bit numbers from `n` on, one after the
other. -/
structure Given (n : Nat) (s s' : Numbers) (f : Forest) : Prop where
  next : s'.next = UInt32.ofNat (n + f.owned.length)
  other : ∀ p, p ∉ f.preorder.map Entry.path → s'.number p = s.number p ∧ s'.parent p = s.parent p
  number : f.owned.map (fun e => s'.number e.path) =
    (List.range' n f.owned.length).map UInt32.ofNat

theorem give_next (hn : s.next = UInt32.ofNat n) (p : Bytes) (parent : UInt32) :
    (s.give p parent).next = UInt32.ofNat (n + 1) := by
  rw [Numbers.give, hn, UInt32.ofNat_add]
  rfl

theorem assign_given (hf : Placed cs f) (hno : (f.preorder.map Entry.path).Nodup)
    (parent : UInt32) (hn : s.next = UInt32.ofNat n) : Given n s (f.assign parent s) f := by
  induction hf generalizing parent s n with
  | nil => exact ⟨hn, fun _ _ => ⟨rfl, rfl⟩, rfl⟩
  | @cons cs c e below rest hna hpa hl hbe hre ihbelow ihrest =>
    rw [Forest.assign]
    split
    · rename_i hli
      obtain rfl := hl (Entry.not_dir_of_link hli)
      have hr' := ihrest (nodup_cons.mp hno).2 parent hn
      have ho := owned_of_link hli rest
      refine ⟨ho ▸ hr'.next, fun p hp => hr'.other p fun hi => hp ?_, ho ▸ hr'.number⟩
      exact mem_cons_of_mem _ hi
    rename_i hli
    have ho := owned_of_not_link hli below rest
    simp only [Forest.preorder, map_cons, map_append, nodup_cons, mem_append,
      nodup_append, not_or] at hno
    obtain ⟨⟨hnot, hnotr⟩, hnod, hnodu, ha⟩ := hno
    have hb := ihbelow hnod s.next (give_next hn e.path parent)
    have hr := ihrest hnodu parent hb.next
    refine ⟨?_, fun p hp => ?_, ?_⟩
    · rw [hr.next, ho, length_cons, length_append]
      congr 1
      omega
    · simp only [Forest.preorder, map_cons, map_append, mem_cons, mem_append, not_or] at hp
      rw [(hr.other p hp.2.2).1, (hr.other p hp.2.2).2, (hb.other p hp.2.1).1,
        (hb.other p hp.2.1).2]
      exact ⟨update_of_ne hp.1 .., update_of_ne hp.1 ..⟩
    have hs : (rest.assign parent (below.assign s.next (s.give e.path parent))).number
        e.path = UInt32.ofNat n := by
      rw [(hr.other _ hnotr).1, (hb.other _ hnot).1, ← hn]
      exact update_self ..
    have hk := map_congr_left fun x (hx : x ∈ below.owned) =>
      (hr.other x.path fun hi =>
        ha x.path (mem_map_of_mem (mem_of_mem_filter hx)) x.path hi rfl).1
    rw [ho, map_cons, map_append, hs, hk, hb.number, hr.number,
      length_cons, length_append, List.range'_succ, map_cons, ← map_append,
      List.range'_append_1]

structure Numbered (s s' : Numbers) (f : Forest) : Prop where
  next : s'.next.toNat = s.next.toNat + f.owned.length
  other : ∀ p, p ∉ f.preorder.map Entry.path → s'.number p = s.number p
  number : f.owned.map (fun e => (s'.number e.path).toNat) =
    List.range' s.next.toNat f.owned.length

theorem toNat_range'_ofNat (h : n + k ≤ 2 ^ 32) :
    ((List.range' n k).map UInt32.ofNat).map UInt32.toNat = List.range' n k := by
  rw [map_map]
  refine (map_congr_left fun i hi => ?_).trans (map_id _)
  have hl := (mem_range'_1.mp hi).2
  exact UInt32.toNat_ofNat_of_lt' (show i < 2 ^ 32 by omega)

theorem assign_spec (hf : Placed cs f) (hn : (f.preorder.map Entry.path).Nodup)
    (parent : UInt32) (s : Numbers) (hfi : s.next.toNat + f.owned.length < 2 ^ 32) :
    Numbered s (f.assign parent s) f := by
  have hg := assign_given hf hn parent (s := s) (n := s.next.toNat) UInt32.ofNat_toNat.symm
  refine ⟨?_, fun p hp => (hg.other p hp).1, ?_⟩
  · rw [hg.next]
    exact UInt32.toNat_ofNat_of_lt' hfi
  · have hnu := congrArg (List.map UInt32.toNat) hg.number
    rwa [toNat_range'_ofNat (Nat.le_of_lt hfi), map_map] at hnu

theorem assignInodeNumbers_spec {entries : List Entry} (h : SoundEntries entries)
    (hr : buildTree entries = .ok root) (hfe : entries.length + 2 < 2 ^ 32) :
    (assignInodeNumbers root).number [slash] = 1 ∧
      (∀ e ∈ entries, e.isLink = false → (assignInodeNumbers root).number e.path ≠ 1) ∧
      ∀ e ∈ entries, ∀ f ∈ entries, e.isLink = false → f.isLink = false →
        (assignInodeNumbers root).number e.path = (assignInodeNumbers root).number f.path → e = f := by
  obtain ⟨heq, hp⟩ := buildTree_spec h hr
  have hpl : Placed [] root := heq ▸ grow_placed h _ ⟨fun c hc => absurd hc not_mem_nil⟩
  have hpa := (hp.map Entry.path)
  have hco : root.owned.length ≤ entries.length :=
    Nat.le_trans (length_filter_le ..) (Nat.le_of_eq hp.length_eq)
  have hs := assign_spec hpl (hpa.nodup_iff.mpr h.nodup) 1
    (Numbers.give ⟨1, fun _ => 0, fun _ => 0⟩ [slash] 1) (by
      rw [show (Numbers.give ⟨1, fun _ => 0, fun _ => 0⟩ [slash] 1).next.toNat = 2 from rfl]
      omega)
  have ho : ∀ e ∈ entries, e.isLink = false → e ∈ root.owned := fun e he hl =>
    mem_filter.mpr ⟨hp.mem_iff.mpr he, by simp [hl]⟩
  have hn : (root.owned.map fun e => ((assignInodeNumbers root).number e.path).toNat).Nodup :=
    hs.number ▸ nodup_range'
  refine ⟨?_, fun e he hl h1 => ?_, fun e he f hf hle hlf hsa => ?_⟩
  · refine (hs.other [slash] fun hi => ?_).trans (by simp [Numbers.give])
    obtain ⟨e, he, hpat⟩ := mem_map.mp hi
    exact h.ne_root (hp.mem_iff.mp he) hpat
  · have hi := mem_map_of_mem (f := fun e => ((assignInodeNumbers root).number e.path).toNat)
      (ho e he hl)
    rw [assignInodeNumbers, hs.number, ← assignInodeNumbers, h1, mem_range'_1] at hi
    exact absurd hi.1 (by decide)
  · exact inj_on_of_nodup_map hn (ho e he hle) (ho f hf hlf) (congrArg UInt32.toNat hsa)

structure Owned (o : Owners) (p : Bytes) (a : Attrs) : Prop where
  uid : o.ids[o.uidIdx p]? = some a.uid
  gid : o.ids[o.gidIdx p]? = some a.gid

theorem getElem?_stable (h : l <+: l') {i : Nat} (hi : l[i]? = some x) : l'[i]? = some x := by
  obtain ⟨more, rfl⟩ := h
  rw [List.getElem?_append_left (List.getElem?_eq_some_iff.mp hi).1, hi]

theorem Owners.intern_spec (h : o.intern p a = .ok o') (hi : o.ids.length ≤ maxIDs) :
    o'.ids.length ≤ maxIDs ∧ Owned o' p a ∧ ∀ q b, q ≠ p → Owned o q b → Owned o' q b := by
  obtain ⟨⟨u, ids1⟩, hu, h⟩ := bind_eq_ok.mp h
  obtain ⟨⟨g, ids2⟩, hg, he⟩ := bind_eq_ok.mp h
  cases he
  obtain ⟨hp1, hu', hi1⟩ := Squashfs.intern_spec hu hi
  obtain ⟨hp2, hg', hi2⟩ := Squashfs.intern_spec hg hi1
  refine ⟨hi2, ⟨?_, ?_⟩, fun q b hq ho => ⟨?_, ?_⟩⟩
  · simp only [update_self]
    exact getElem?_stable hp2 hu'
  · simp only [update_self]
    exact hg'
  · simp only [update_of_ne hq]
    exact getElem?_stable (hp1.trans hp2) ho.uid
  · simp only [update_of_ne hq]
    exact getElem?_stable (hp1.trans hp2) ho.gid

theorem path_fresh {f : Entry} (h : SoundEntries entries) (hs : entries = done ++ e :: rest)
    (hf : f ∈ done) : f.path ≠ e.path := by
  have hn := h.nodup
  rw [hs, map_append, map_cons, nodup_append] at hn
  exact hn.2.2 f.path (mem_map_of_mem hf) e.path (.head _)

theorem internIDs_spec {entries : List Entry} (h : SoundEntries entries)
    (hi : internIDs cfg entries = .ok o) :
    o.ids.length ≤ maxIDs ∧ Owned o [slash] (rootAttrs cfg) ∧
      ∀ e ∈ entries, e.isLink = false → Owned o e.path e.attrs := by
  obtain ⟨s, hfold, hl⟩ := bind_eq_ok.mp hi
  have ha := foldlM_invariant (I := fun done (s : Owners) => s.ids.length ≤ maxIDs ∧
      ∀ e ∈ done, e.isLink = false → Owned s e.path e.attrs)
    ⟨Nat.zero_le _, nofun⟩
    (fun done e rest s s' hs ⟨hle, hd⟩ hst => by
      split at hst
      · rename_i hli
        cases hst
        refine ⟨hle, fun f hf ho => ?_⟩
        rcases mem_append.mp hf with hf | hf
        · exact hd f hf ho
        · rw [mem_singleton.mp hf, hli] at ho
          cases ho
      · obtain ⟨hl', ho', hk⟩ := Owners.intern_spec hst hle
        refine ⟨hl', fun f hf ho => ?_⟩
        rcases mem_append.mp hf with hf | hf
        · exact hk _ _ (path_fresh h hs hf) (hd f hf ho)
        · exact mem_singleton.mp hf ▸ ho')
    hfold
  obtain ⟨hle, hr, hk⟩ := Owners.intern_spec hl ha.1
  exact ⟨hle, hr, fun e he hli => hk _ _ (h.ne_root he) (ha.2 e he hli)⟩

def Lies (stream : Bytes) (pos : Nat) (b : Bytes) : Prop :=
  ∃ before after, stream = before ++ b ++ after ∧ before.length = pos

theorem Lies.mono (h : Lies stream pos b) (hp : stream <+: stream') : Lies stream' pos b := by
  obtain ⟨before, after, rfl, hpo⟩ := h
  obtain ⟨more, rfl⟩ := hp
  exact ⟨before, after ++ more, by rw [append_assoc], hpo⟩

theorem Lies.last (stream b : Bytes) : Lies (stream ++ b) stream.length b :=
  ⟨stream, [], (append_nil _).symm, rfl⟩

theorem Lies.le (h : Lies stream pos b) : pos + b.length ≤ stream.length := by
  obtain ⟨before, after, rfl, rfl⟩ := h
  rw [length_append, length_append]
  omega

def Entry.isLeaf (e : Entry) : Bool := !(e.isDir || e.isLink)

def LeafLaid (x : Resolved) (stream : Bytes) (e : Entry) (r : MetaRef) : Prop :=
  ∃ pos mtime body, r = refAt pos ∧ entryMtime x.cfg e.attrs = .ok mtime ∧
    encodeLeaf x.cfg (x.header e.path e.attrs mtime) e = .ok body ∧ Lies stream pos body

theorem LeafLaid.mono (h : LeafLaid x stream e r) (hp : stream <+: stream') :
    LeafLaid x stream' e r := by
  obtain ⟨pos, mtime, body, hr, hm, henc, hl⟩ := h
  exact ⟨pos, mtime, body, hr, hm, henc, hl.mono hp⟩

def Ends (stream : Bytes) (refs : List MetaRef) : Prop :=
  ∃ pos, refAt pos ∈ refs ∧ pos ≤ stream.length ∧ stream.length ≤ pos + 2 ^ 23

theorem encodeBasicFile_length {blockSize start size : Nat} (hb : minBlockSize ≤ blockSize)
    (henc : encodeBasicFile h blockSize start size sizes = .ok b) : b.length ≤ 2 ^ 23 := by
  unfold encodeBasicFile at henc
  split at henc
  · cases henc
  split at henc
  · cases henc
  split at henc
  · cases henc
  rename_i hs hc
  cases henc
  have hbl : sizes.length ≤ 2 ^ 20 := by
    rw [Classical.not_not.mp hc, blockCount]
    have hp : 0 < blockSize := Nat.lt_of_lt_of_le (by decide) hb
    rw [Nat.div_le_iff_le_mul_add_pred hp]
    have hm := Nat.mul_le_mul_right (2 ^ 20) hb
    rw [minBlockSize] at hm
    omega
  rw [length_append, length_append, header_length, length_record, length_record, map_map]
  simp only [comp_def, map_cons, map_nil, sum_cons, sum_nil, map_const', sum_replicate_nat]
  omega

theorem encodeBasicDevice_length (henc : encodeBasicDevice h 1 major minor block = .ok b) :
    b.length ≤ 2 ^ 23 := by
  obtain ⟨dev, _, he⟩ := bind_eq_ok.mp henc
  cases he
  rw [length_append, header_length, length_record]
  simp

theorem encodeBasicIPC_length : (encodeBasicIPC h 1 socket).length ≤ 2 ^ 23 := by
  rw [encodeBasicIPC, length_append, header_length, length_record]
  decide

theorem encodeLeaf_length (hb : minBlockSize ≤ cfg.blockSize)
    (henc : encodeLeaf cfg h e = .ok b) : b.length ≤ 2 ^ 23 := by
  simp only [encodeLeafWith, Links.plain] at henc
  split at henc
  · exact encodeBasicFile_length hb henc
  · unfold encodeBasicSymlink at henc
    split at henc
    · cases henc
    cases henc
    rw [length_append, length_append, header_length, length_record]
    simp only [map_cons, map_nil, sum_cons, sum_nil]
    omega
  · exact encodeBasicDevice_length henc
  · exact encodeBasicDevice_length henc
  · cases henc
    exact encodeBasicIPC_length
  · cases henc
    exact encodeBasicIPC_length
  · cases henc
  · cases henc

section Tables

variable {expand : Bytes → Option Bytes} {x : Resolved} {a : Attrs} {p : Bytes} {f : Forest}
    {all children : List (Entry × MetaRef)} {refs : List MetaRef} {r : MetaRef}

theorem writeLeafInodes_spec (hc : x.cfg.Good expand) (h : SoundEntries x.entries) {s : Leaves}
    (hw : x.writeLeafInodes = .ok s) :
    ∃ stream, s.inodes.Holds expand stream ∧
      (∀ e ∈ x.entries, e.isLeaf → LeafLaid x stream e (s.refs e.path)) ∧
      (stream = [] ∨ ∃ e ∈ x.entries, e.isLeaf ∧ Ends stream [s.refs e.path]) := by
  refine foldlM_invariant
    (I := fun done (s : Leaves) => ∃ stream, s.inodes.Holds expand stream ∧
      (∀ e ∈ done, e.isLeaf → LeafLaid x stream e (s.refs e.path)) ∧
      (stream = [] ∨ ∃ e ∈ done, e.isLeaf ∧ Ends stream [s.refs e.path]))
    ⟨[], newMetaWriter_holds .inode, nofun, .inl rfl⟩
    (fun done e rest s s' hs ⟨stream, hh, hd, he⟩ hst => ?_) hw
  unfold Resolved.writeLeafWith at hst
  split at hst
  · rename_i hsk
    cases hst
    refine ⟨stream, hh, fun f hf hl => ?_, he.imp_right ?_⟩
    · rcases mem_append.mp hf with hf | hf
      · exact hd f hf hl
      · rw [mem_singleton.mp hf, Entry.isLeaf, hsk] at hl
        cases hl
    · rintro ⟨f, hf, hla⟩
      exact ⟨f, mem_append_left _ hf, hla⟩
  · rename_i hsk
    have hl : e.isLeaf = true := by rw [Entry.isLeaf, Bool.eq_false_of_not_eq_true hsk]; rfl
    obtain ⟨mtime, hm, hst⟩ := bind_eq_ok.mp hst
    obtain ⟨body, henc, hst⟩ := bind_eq_ok.mp hst
    obtain ⟨inodes, hi, heq⟩ := bind_eq_ok.mp hst
    cases heq
    rw [mapError_eq_ok] at hm henc
    obtain ⟨hh', _⟩ := hh.write hc.inverted hi
    have hse : Function.update s.refs e.path s.inodes.ref e.path = refAt stream.length :=
      (update_self ..).trans hh.ref
    refine ⟨stream ++ body, hh', fun f hf hfl => ?_, .inr ⟨e, by simp, hl, ?_⟩⟩
    · rcases mem_append.mp hf with hf | hf
      · simp only [update_of_ne (path_fresh h hs hf)]
        exact (hd f hf hfl).mono (prefix_append ..)
      · rw [mem_singleton.mp hf]
        exact ⟨stream.length, mtime, body, hse, hm, henc, .last ..⟩
    simp only [hse]
    have hle := encodeLeaf_length hc.least henc
    refine ⟨stream.length, mem_singleton_self _, ?_, ?_⟩
    · rw [length_append]
      exact Nat.le_add_right ..
    · rw [length_append]
      omega

structure Written where
  inodeBlocks : List MetaBlock
  inodes : Bytes
  dirBlocks : List MetaBlock
  dirs : Bytes

structure Written.Grows (t t' : Written) : Prop where
  inodeBlocks : t.inodeBlocks <+: t'.inodeBlocks
  inodes : t.inodes <+: t'.inodes
  dirBlocks : t.dirBlocks <+: t'.dirBlocks
  dirs : t.dirs <+: t'.dirs

theorem Written.Grows.refl (t : Written) : t.Grows t :=
  ⟨prefix_refl _, prefix_refl _, prefix_refl _, prefix_refl _⟩

variable {t t' : Written}

theorem Written.Grows.trans (h : t.Grows t') (h' : t'.Grows t'') : t.Grows t'' :=
  ⟨h.inodeBlocks.trans h'.inodeBlocks, h.inodes.trans h'.inodes, h.dirBlocks.trans h'.dirBlocks,
    h.dirs.trans h'.dirs⟩

def Written.place (t : Written) (r : MetaRef) : Nat × Nat := (byteOffset t.inodeBlocks r.blockIdx, r.offset)

def Resolved.childEntry (x : Resolved) (t : Written) (child : Entry × MetaRef) : DirEntry :=
  { name := pathBase child.1.path
    childInode := x.nums.number child.1.inodePath
    inodeBlockByte := (t.place child.2).1
    inodeBlockOff := (t.place child.2).2
    basicType := x.basicTypeFor child.1 }

structure DirLaid (x : Resolved) (t : Written) (p : Bytes) (a : Attrs) (links : Nat)
    (children : List (Entry × MetaRef)) (r : MetaRef) : Prop where
  inode : ∃ pos start mtime body, r = refAt pos ∧ entryMtime x.cfg a = .ok mtime ∧
    encodeBasicDir (x.header p a mtime) (byteOffset t.dirBlocks (refAt start).blockIdx) links
      ((listing (children.map (x.childEntry t))).length % 2 ^ 32) (refAt start).offset
      (x.nums.parent p).toNat = .ok body ∧
    Lies t.inodes pos body ∧ Lies t.dirs start (listing (children.map (x.childEntry t))) ∧
    (refAt start).blockIdx ≤ t.dirBlocks.length
  names : ∀ child ∈ children, 0 < (pathBase child.1.path).length ∧ (pathBase child.1.path).length ≤ 256
  known : ∀ child ∈ children, child.2.blockIdx ≤ t.inodeBlocks.length
  offsets : ∀ child ∈ children, child.2.offset < metadataBlockSize
  near : ∀ child ∈ children, (t.place child.2).1 ≤ 0xFFFFFFFF

theorem Written.Grows.place_eq (h : t.Grows t') (hr : r.blockIdx ≤ t.inodeBlocks.length) :
    t'.place r = t.place r := by
  rw [Written.place, Written.place, byteOffset_stable h.inodeBlocks hr]

theorem Written.Grows.children_eq (h : t.Grows t')
    (hk : ∀ child ∈ children, child.2.blockIdx ≤ t.inodeBlocks.length) :
    children.map (x.childEntry t') = children.map (x.childEntry t) :=
  map_congr_left fun child hc => by
    rw [Resolved.childEntry, Resolved.childEntry, h.place_eq (hk child hc)]

theorem DirLaid.mono {links : Nat} (h : DirLaid x t p a links children r) (hg : t.Grows t') :
    DirLaid x t' p a links children r := by
  have hs := hg.children_eq (x := x) h.known
  refine ⟨?_, h.names, fun child hc => ?_, h.offsets, fun child hc => ?_⟩
  · obtain ⟨pos, start, mtime, body, hr, hm, henc, hl, hli, hst⟩ := h.inode
    refine ⟨pos, start, mtime, body, hr, hm, ?_, hl.mono hg.inodes, ?_, ?_⟩
    · rw [hs, byteOffset_stable hg.dirBlocks hst]
      exact henc
    · rw [hs]
      exact hli.mono hg.dirs
    · exact Nat.le_trans hst hg.dirBlocks.length_le
  · exact Nat.le_trans (h.known child hc) hg.inodeBlocks.length_le
  · rw [hg.place_eq (h.known child hc)]
    exact h.near child hc

def Resolved.source (x : Resolved) (e : Entry) : Entry :=
  match e.kind with
  | .hardlink t => (x.entries.find? (·.path = t)).getD e
  | _ => e

/-- The inodes of a forest are in the tables, those of its own entries at `refs`. In `all` every
entry is with its inode, in the order of the tree. -/
inductive Laid (x : Resolved) (t : Written) :
    Forest → List MetaRef → List (Entry × MetaRef) → Prop
  | nil : Laid x t .nil [] []
  | leaf {e below rest r refs all} (hleaf : e.isDir = false)
    (h : LeafLaid x t.inodes (x.source e) r) (hrest : Laid x t rest refs all) :
    Laid x t (.cons e below rest) (r :: refs) ((e, r) :: all)
  | dir {e below rest r refs all inner under} (hdir : e.isDir = true)
    (hbelow : Laid x t below inner under)
    (h : DirLaid x t e.path e.attrs below.linkCount (below.heads.zip inner) r)
    (hrest : Laid x t rest refs all) :
    Laid x t (.cons e below rest) (r :: refs) ((e, r) :: (under ++ all))

theorem Laid.mono (hg : t.Grows t') (h : Laid x t f refs all) : Laid x t' f refs all := by
  induction h with
  | nil => exact .nil
  | leaf hl h _ ih => exact .leaf hl (h.mono hg.inodes) ih
  | dir hd _ h _ ihbelow ihrest => exact .dir hd ihbelow (h.mono hg) ihrest

theorem Laid.length_refs (h : Laid x t f refs all) : refs.length = f.heads.length := by
  induction h with
  | nil => rfl
  | leaf _ _ _ ih | dir _ _ _ _ _ ih => exact congrArg Nat.succ ih

theorem Laid.refs_lie (h : Laid x t f refs all) :
    ∀ r ∈ refs, ∃ pos, r = refAt pos ∧ pos ≤ t.inodes.length := by
  induction h with
  | nil => nofun
  | leaf _ h _ ih =>
    intro r hr
    rcases mem_cons.mp hr with rfl | hr
    · obtain ⟨pos, _, _, hp, _, _, hl⟩ := h
      exact ⟨pos, hp, Nat.le_trans (Nat.le_add_right ..) hl.le⟩
    · exact ih r hr
  | dir _ _ h _ _ ih =>
    intro r hr
    rcases mem_cons.mp hr with rfl | hr
    · obtain ⟨pos, _, _, _, hp, _, _, hl, _⟩ := h.inode
      exact ⟨pos, hp, Nat.le_trans (Nat.le_add_right ..) hl.le⟩
    · exact ih r hr

structure DirTables.Holds (expand : Bytes → Option Bytes) (s : DirTables) (t : Written) : Prop where
  inodes : s.inodes.Holds expand t.inodes
  dirs : s.dirs.Holds expand t.dirs
  inodeBlocks : t.inodeBlocks = s.inodes.blocks
  dirBlocks : t.dirBlocks = s.dirs.blocks

variable {s : DirTables}

theorem DirTables.Holds.known (h : s.Holds expand t) (hp : pos ≤ t.inodes.length) :
    (refAt pos).blockIdx ≤ t.inodeBlocks.length := by
  rw [h.inodeBlocks, h.inodes.length_blocks]
  exact Nat.div_le_div_right hp

theorem dirEntry_ok (h : s.Holds expand t) {child : Entry × MetaRef}
    (he : x.dirEntry s.inodes child = .ok d) :
    d = x.childEntry t child ∧ (t.place child.2).1 ≤ 0xFFFFFFFF := by
  have hp : s.inodes.blockByteOffset child.2.blockIdx = (t.place child.2).1 := by
    rw [MetaWriter.blockByteOffset, Written.place, h.inodeBlocks]
  rw [Resolved.dirEntry, hp] at he
  split at he
  · cases he
  · cases he
    exact ⟨rfl, Nat.le_of_not_lt ‹_›⟩

theorem encodeBasicDir_ok {start nlinks size offset parent : Nat}
    (henc : encodeBasicDir h start nlinks size offset parent = .ok b) :
    b.length = 32 ∧ start ≤ 0xFFFFFFFF := by
  unfold encodeBasicDir at henc
  split at henc
  · cases henc
  rename_i hs
  split at henc
  · cases henc
  cases henc
  refine ⟨?_, Nat.le_of_not_lt hs⟩
  rw [length_append, header_length, length_record]
  simp

variable {s' : DirTables}

theorem writeDir_spec (hc : x.cfg.Good expand) (hs : s.Holds expand t)
    (hl : refs.length = below.heads.length)
    (hr : ∀ r ∈ refs, ∃ pos, r = refAt pos ∧ pos ≤ t.inodes.length)
    (hso : below.heads.Pairwise fun a b => pathBase a.path ≤ pathBase b.path)
    (h : x.writeDir p a below refs s = .ok (r, s')) :
    ∃ t', s'.Holds expand t' ∧ t.Grows t' ∧
      DirLaid x t' p a below.linkCount (below.heads.zip refs) r ∧
      r = refAt t.inodes.length ∧ t'.inodes.length = t.inodes.length + 32 ∧
      byteOffset t'.dirBlocks (refAt t.dirs.length).blockIdx ≤ 0xFFFFFFFF ∧
      t'.dirs = t.dirs ++ listing ((below.heads.zip refs).map (x.childEntry t')) := by
  obtain ⟨entries, he, h⟩ := bind_eq_ok.mp h
  obtain ⟨⟨start, size, dirs⟩, hli, h⟩ := bind_eq_ok.mp h
  obtain ⟨mtime, hm, h⟩ := bind_eq_ok.mp h
  obtain ⟨body, henc, h⟩ := bind_eq_ok.mp h
  obtain ⟨inodes, hi, heq⟩ := bind_eq_ok.mp h
  cases heq
  rw [mapError_eq_ok] at hm henc
  have hp := mapM_eq_ok he
  have hpr := hs.inodes.write hc.inverted hi
  obtain rfl : entries = (below.heads.zip refs).map (x.childEntry t) :=
    eq_map_of_forall₂ (hp.imp fun _ _ h => (dirEntry_ok hs h).1)
  have hn : ((below.heads.zip refs).map (x.childEntry t)).Pairwise fun a b => a.name ≤ b.name := by
    rw [← map_fst_zip (Nat.le_of_eq hl.symm), pairwise_map] at hso
    exact pairwise_map.mpr hso
  obtain ⟨hst, hdi, hdir, hsi, hsh⟩ := writeDirListing_spec hc.inverted hs.dirs hn hli
  have hg : t.Grows ⟨inodes.blocks, t.inodes ++ body, dirs.blocks,
      t.dirs ++ listing ((below.heads.zip refs).map (x.childEntry t))⟩ :=
    ⟨hs.inodeBlocks ▸ hpr.2, prefix_append .., hs.dirBlocks ▸ hdir, prefix_append ..⟩
  have hk : ∀ child ∈ below.heads.zip refs, child.2.blockIdx ≤ t.inodeBlocks.length := by
    intro child hch
    obtain ⟨pos, hpo, hle⟩ := hr child.2 (of_mem_zip hch).2
    exact hpo ▸ hs.known hle
  have hsa := hg.children_eq (x := x) hk
  refine ⟨_, ⟨hpr.1, hdi, rfl, rfl⟩, hg, ⟨?_, fun child hch => ?_, fun child hch => ?_,
    fun child hch => ?_, fun child hch => ?_⟩, hs.inodes.ref, ?_, ?_, ?_⟩
  · refine ⟨t.inodes.length, t.dirs.length, mtime, body, hs.inodes.ref, hm, ?_, .last .., ?_, ?_⟩
    · rw [hst, hsi] at henc
      rw [hsa]
      exact henc
    · rw [hsa]
      exact .last ..
    · rw [hdi.length_blocks]
      exact Nat.div_le_div_right (by rw [length_append]; omega)
  · exact hsh (x.childEntry t child) (mem_map_of_mem hch)
  · exact Nat.le_trans (hk child hch) hg.inodeBlocks.length_le
  · obtain ⟨pos, hpo, _⟩ := hr child.2 (of_mem_zip hch).2
    exact hpo ▸ Nat.mod_lt _ (by decide)
  · obtain ⟨d, _, hd⟩ := forall₂_of_mem_left hp hch
    rw [hg.place_eq (hk child hch)]
    exact (dirEntry_ok hs hd).2
  · rw [length_append, (encodeBasicDir_ok henc).1]
  · exact hst ▸ (encodeBasicDir_ok henc).2
  · rw [hsa]

theorem SoundEntries.source_spec (h : SoundEntries x.entries) (he : e ∈ x.entries)
    (hd : e.isDir = false) :
    x.source e ∈ x.entries ∧ (x.source e).isLeaf ∧ (x.source e).path = e.inodePath ∧
      x.basicTypeFor e = kindType (x.source e).kind := by
  cases hk : e.kind with
  | hardlink t =>
    obtain ⟨f, hf, hp, hfi⟩ := h.links e he t hk
    have hfin : x.entries.find? (·.path = t) = some f := hp ▸ h.find?_eq hf
    have hs : x.source e = f := by simp only [Resolved.source, hk, hfin, Option.getD_some]
    have hl : f.isLeaf := by
      obtain ⟨hd, hli⟩ := Entry.leaf_of_file hfi
      rw [Entry.isLeaf, hd, hli]
      rfl
    rw [hs]
    refine ⟨hf, hl, ?_, ?_⟩
    · rw [hp, Entry.inodePath, hk]
    · simp only [Resolved.basicTypeFor, hk, hfin, Option.map_some, Option.getD_some]
  | dir => simp [Entry.isDir, hk] at hd
  | _ =>
    have hs : x.source e = e := by rw [Resolved.source, hk]
    rw [hs]
    refine ⟨he, ?_, ?_, ?_⟩
    · simp [Entry.isLeaf, Entry.isDir, Entry.isLink, hk]
    · rw [Entry.inodePath, hk]
    · rw [Resolved.basicTypeFor, hk]

/-- The directories of a forest go into the tables, each after what is in it. -/
theorem writeDirs_spec (hc : x.cfg.Good expand) (hx : SoundEntries x.entries)
    (hs : s.Holds expand t) (hi : ∀ e ∈ f.preorder, e ∈ x.entries)
    (hso : f.Levels fun l => l.Pairwise fun a b => pathBase a.path ≤ pathBase b.path)
    (hl : ∀ e ∈ x.entries, e.isLeaf → LeafLaid x t.inodes e (leafRefs e.path))
    (h : x.writeDirs leafRefs f s = .ok (refs, s')) :
    ∃ t' all, s'.Holds expand t' ∧ t.Grows t' ∧ Laid x t' f refs all ∧
      (∀ node ∈ all, node.1.isDir = false → node.2 = leafRefs node.1.inodePath) ∧
      (t'.inodes = t.inodes ∨ Ends t'.inodes refs) := by
  induction f generalizing s s' t refs with
  | nil =>
    cases h
    exact ⟨t, [], hs, .refl t, .nil, nofun, .inl rfl⟩
  | cons e below rest ihbelow ihrest =>
    have hine : e ∈ x.entries := hi e (.head _)
    have hinr : ∀ a ∈ rest.preorder, a ∈ x.entries := fun a ha =>
      hi a (.tail _ (mem_append_right _ ha))
    rw [Resolved.writeDirs, Resolved.writeDirsWith] at h
    obtain ⟨⟨r, s1⟩, hhead, h⟩ := bind_eq_ok.mp h
    obtain ⟨⟨rs, s2⟩, hre, he⟩ := bind_eq_ok.mp h
    cases he
    split at hhead
    · rename_i hd
      obtain ⟨⟨inner, s0⟩, hb, ho⟩ := bind_eq_ok.mp hhead
      have hinb : ∀ a ∈ below.preorder, a ∈ x.entries := fun a ha =>
        hi a (.tail _ (mem_append_left _ ha))
      obtain ⟨t0, under, hs0, hg0, hu, hk0, _⟩ := ihbelow hs hinb hso.2.1 hl hb
      obtain ⟨t1, hs1, hg1, hla, hr, hlen, _⟩ :=
        writeDir_spec hc hs0 hu.length_refs hu.refs_lie hso.1 ho
      have hg := hg0.trans hg1
      obtain ⟨t2, all, hs2, hg2, hal, hk, hen⟩ := ihrest hs1 hinr hso.2.2
        (fun a ha hlea => (hl a ha hlea).mono hg.inodes) hre
      refine ⟨t2, _, hs2, hg.trans hg2, .dir hd (hu.mono (hg1.trans hg2))
        (hla.mono hg2) hal, fun node hn hno => ?_, .inr ?_⟩
      · rcases mem_cons.mp hn with rfl | hn
        · rw [hd] at hno
          cases hno
        rcases mem_append.mp hn with hn | hn
        · exact hk0 node hn hno
        · exact hk node hn hno
      rcases hen with hsa | ⟨pos, hp, hle, hne⟩
      · rw [hsa, hr]
        exact ⟨t0.inodes.length, mem_cons_self .., by omega, by omega⟩
      · exact ⟨pos, mem_cons_of_mem _ hp, hle, hne⟩
    · rename_i hd
      cases hhead
      obtain ⟨hsou, hlea, hpa, _⟩ := hx.source_spec hine (Bool.eq_false_of_not_eq_true hd)
      obtain ⟨t2, all, hs2, hg2, hal, hk, hen⟩ := ihrest hs hinr hso.2.2 hl hre
      refine ⟨t2, _, hs2, hg2, .leaf (Bool.eq_false_of_not_eq_true hd) ?_ hal,
        fun node hn hno => ?_, ?_⟩
      · exact hpa ▸ (hl _ hsou hlea).mono hg2.inodes
      · rcases mem_cons.mp hn with rfl | hn
        · rfl
        · exact hk node hn hno
      · refine hen.imp_right ?_
        rintro ⟨pos, hp, hne⟩
        exact ⟨pos, mem_cons_of_mem _ hp, hne⟩

theorem Laid.entries (h : Laid x t f refs all) (hp : Placed cs f) :
    all.map Prod.fst = f.preorder := by
  induction h generalizing cs with
  | nil => rfl
  | leaf hl _ _ ih =>
    cases hp with
    | cons _ _ hn _ hr =>
      rw [hn hl, map_cons, ih hr]
      rfl
  | dir _ _ _ _ ihbelow ihrest =>
    cases hp with
    | cons _ _ _ hb hr =>
      rw [map_cons, map_append, ihbelow hb, ihrest hr]
      rfl

theorem Laid.leaf_of_mem (h : Laid x t f refs all) {node : Entry × MetaRef} (hn : node ∈ all)
    (hl : node.1.isDir = false) : LeafLaid x t.inodes (x.source node.1) node.2 := by
  induction h with
  | nil => exact absurd hn not_mem_nil
  | leaf _ h _ ih =>
    rcases mem_cons.mp hn with rfl | hn
    · exact h
    · exact ih hn
  | dir hd _ _ _ ihbelow ihrest =>
    rcases mem_cons.mp hn with rfl | hn
    · rw [hd] at hl
      cases hl
    rcases mem_append.mp hn with hn | hn
    · exact ihbelow hn
    · exact ihrest hn

theorem Laid.near (h : Laid x t f refs all)
    (ht : ∀ node ∈ f.heads.zip refs, (t.place node.2).1 ≤ 0xFFFFFFFF) :
    ∀ node ∈ all, (t.place node.2).1 ≤ 0xFFFFFFFF := by
  induction h with
  | nil => nofun
  | leaf _ _ _ ih =>
    intro node hno
    rcases mem_cons.mp hno with rfl | hno
    · exact ht _ (.head _)
    · exact ih (fun n hn => ht n (.tail _ hn)) node hno
  | dir _ _ ho _ ihbelow ihrest =>
    intro node hno
    rcases mem_cons.mp hno with rfl | hno
    · exact ht _ (.head _)
    rcases mem_append.mp hno with hno | hno
    · exact ihbelow ho.near node hno
    · exact ihrest (fun n hn => ht n (.tail _ hn)) node hno

end Tables

end Craftling.Squashfs

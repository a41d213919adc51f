import Craftling.Squashfs.Faults

namespace Craftling.Squashfs
open Effects List

structure MapOrders where
  links : List Bytes
  inodes : List Bytes
  times : List Bytes

/-- The map at the end of `buildTree`, which has put the root in it. -/
def Writer.mapEntries (w : Writer) : List Entry := ⟨[slash], .dir, rootAttrs w.cfg⟩ :: w.entries

def Writer.keys (w : Writer) : List Bytes := w.mapEntries.map Entry.path

structure MapOrders.Valid (o : MapOrders) (keys : List Bytes) : Prop where
  links : o.links.Perm keys
  inodes : o.inodes.Perm keys
  times : o.times.Perm keys

def Writer.visit (w : Writer) (order : List Bytes) : List Entry :=
  order.filterMap fun p => w.mapEntries.find? (·.path = p)

def countLink (nlinks : Bytes → Nat) (e : Entry) : Bytes → Nat :=
  match e.kind with
  | .dir => nlinks
  | .hardlink target => Function.update nlinks target ((nlinks target + 1) % 2 ^ 32)
  | _ => Function.update nlinks e.path 1

def Forest.countDirs : Forest → (Bytes → Nat) → Bytes → Nat
  | .nil, nlinks => nlinks
  | .cons e below rest, nlinks =>
    if e.isDir then
      rest.countDirs (Function.update (below.countDirs nlinks) e.path below.linkCount)
    else rest.countDirs nlinks

def computeLinkCounts (visited : List Entry) (root : Forest) : Bytes → Nat :=
  Function.update (root.countDirs (visited.foldl countLink fun _ => 0)) [slash] root.linkCount

def totalInodeCountIn (visited : List Entry) : Nat :=
  (visited.filter fun e => !e.isLink).length % 2 ^ 32

def imageMtimeIn (cfg : Config) (visited : List Entry) : Nat :=
  if cfg.mtime ≠ Time.zero then clampTime cfg.mtime.unix
  else
    clampTime (visited.foldl
      (fun latest e => if e.attrs.mtime = Time.zero then latest else max latest e.attrs.mtime.unix) 0)

def Writer.layoutIn (o : MapOrders) (w : Writer) : Except Err Layout :=
  w.layoutWith fun root =>
    let nlinks := computeLinkCounts (w.visit o.links) root
    ⟨nlinks, fun p _ => nlinks p⟩

def Writer.superblockIn (o : MapOrders) (w : Writer) (l : Layout) : Superblock :=
  { w.superblock l with
    inodeCount := totalInodeCountIn (w.visit o.inodes)
    modTime := imageMtimeIn w.cfg (w.visit o.times) }

def Writer.imageIn (o : MapOrders) (w : Writer) (l : Layout) : Bytes :=
  w.imageWith l (w.superblockIn o l)

def Session.closeIn (faults : Faults) (o : MapOrders) (s : Session) : Option Err × Session :=
  s.closeWith faults fun w => (w.layoutIn o).map (w.imageIn o)

section Orders

variable {w : Writer} {order : List Bytes}

section

variable (hw : SoundEntries w.entries)
include hw

theorem keys_nodup : w.keys.Nodup := by
  refine nodup_cons.mpr ⟨fun hr => ?_, hw.nodup⟩
  obtain ⟨e, he, hp⟩ := mem_map.mp hr
  exact hw.ne_root he hp

theorem visit_perm (ho : order.Perm w.keys) : (w.visit order).Perm w.mapEntries := by
  have ha : (w.visit w.keys) = w.mapEntries := by
    rw [Writer.visit, Writer.keys, filterMap_map]
    refine (filterMap_congr fun e he => ?_).trans filterMap_some
    have hn := keys_nodup hw
    rw [Writer.keys] at hn
    rw [Function.comp]
    cases hf : w.mapEntries.find? (·.path = e.path) with
    | none => exact absurd (decide_eq_true rfl) (List.find?_eq_none.mp hf e he)
    | some f =>
      have hp : f.path = e.path := by simpa using List.find?_some hf
      rw [inj_on_of_nodup_map hn (mem_of_find?_eq_some hf) he hp]
  exact ha ▸ ho.filterMap _

theorem totalInodeCountIn_eq (ho : order.Perm w.keys) :
    totalInodeCountIn (w.visit order) = totalInodeCount w.entries := by
  have hl := ((visit_perm hw ho).filter fun e => !e.isLink).length_eq
  rw [totalInodeCountIn, hl]
  rfl

theorem imageMtimeIn_eq (ho : order.Perm w.keys) :
    imageMtimeIn w.cfg (w.visit order) = imageMtime w.cfg w.entries := by
  unfold imageMtimeIn imageMtime
  by_cases hs : w.cfg.mtime = Time.zero
  · rw [if_neg (not_not.mpr hs), if_neg (not_not.mpr hs)]
    congr 1
    -- The root has no time of its own here.
    refine ((visit_perm hw ho).foldl_eq' (fun e _ f _ latest => ?_) 0).trans ?_
    · split
      · rfl
      split
      · rfl
      · omega
    · rw [Writer.mapEntries, foldl_cons,
        if_pos (show (⟨[slash], .dir, rootAttrs w.cfg⟩ : Entry).attrs.mtime = Time.zero from hs)]
  · rw [if_pos hs, if_pos hs]

end

end Orders

def Forest.Counted (nlinks : Bytes → Nat) : Forest → Prop
  | .nil => True
  | .cons e below rest =>
    (e.isDir = true → nlinks e.path = below.linkCount) ∧ below.Counted nlinks ∧ rest.Counted nlinks

section Counts

variable {nlinks nlinks' : Bytes → Nat} {p : Bytes} {f : Forest}

theorem Forest.Counted.congr (h : f.Counted nlinks)
    (hs : ∀ e ∈ f.preorder, nlinks' e.path = nlinks e.path) : f.Counted nlinks' := by
  induction f with
  | nil => trivial
  | cons e below rest ihbelow ihrest =>
    refine ⟨fun hd => ?_, ihbelow h.2.1 fun x hx => ?_, ihrest h.2.2 fun x hx => ?_⟩
    · rw [hs e (.head _), h.1 hd]
    · exact hs x (.tail _ (mem_append_left _ hx))
    · exact hs x (.tail _ (mem_append_right _ hx))

theorem countDirs_of_ne (hp : ∀ e ∈ f.preorder, e.isDir = true → e.path ≠ p) :
    f.countDirs nlinks p = nlinks p := by
  induction f generalizing nlinks with
  | nil => rfl
  | cons e below rest ihbelow ihrest =>
    have hr : ∀ x ∈ rest.preorder, x.isDir = true → x.path ≠ p := fun x hx =>
      hp x (.tail _ (mem_append_right _ hx))
    rw [Forest.countDirs]
    split
    · rename_i hd
      have hn : p ≠ e.path := Ne.symm (hp e (.head _) hd)
      rw [ihrest hr, Function.update_of_ne hn, ihbelow fun x hx =>
        hp x (.tail _ (mem_append_left _ hx))]
    · exact ihrest hr

theorem countDirs_counted (hp : Placed cs f) (hn : (f.preorder.map Entry.path).Nodup)
    (nlinks : Bytes → Nat) : f.Counted (f.countDirs nlinks) := by
  induction hp generalizing nlinks with
  | nil => trivial
  | @cons cs c e below rest _ _ hl _ _ ihbelow ihrest =>
    rw [Forest.preorder, map_cons, map_append, nodup_cons, nodup_append] at hn
    obtain ⟨hhead, hb, hr, hd⟩ := hn
    have ha : ∀ x ∈ rest.preorder, x.isDir = true → x.path ≠ e.path := fun x hx _ he =>
      hhead (mem_append_right _ (he ▸ mem_map_of_mem hx))
    rw [Forest.countDirs]
    split
    · refine ⟨fun _ => ?_, ?_, ihrest hr _⟩
      · rw [countDirs_of_ne ha, Function.update_self]
      refine (ihbelow hb nlinks).congr fun x hx => ?_
      have hxe : x.path ≠ e.path := fun he =>
        hhead (mem_append_left _ (he ▸ mem_map_of_mem hx))
      rw [countDirs_of_ne fun y hy _ he => hd x.path (mem_map_of_mem hx) y.path
        (mem_map_of_mem hy) he.symm, Function.update_of_ne hxe]
    · rename_i hdi
      refine ⟨fun h => absurd h hdi, ?_, ihrest hr _⟩
      rw [hl (Bool.eq_false_of_not_eq_true hdi)]
      trivial

theorem foldl_countLink {l : List Entry} {e : Entry} {n : Nat} (he : e ∈ l)
    (hs : ∀ nlinks, countLink nlinks e p = n)
    (hk : ∀ x ∈ l, ∀ nlinks, nlinks p = n → countLink nlinks x p = n) (nlinks : Bytes → Nat) :
    l.foldl countLink nlinks p = n := by
  have hr : ∀ l' : List Entry, (∀ x ∈ l', x ∈ l) → ∀ nlinks : Bytes → Nat, nlinks p = n →
      l'.foldl countLink nlinks p = n := by
    intro l' hl'
    induction l' with
    | nil => exact fun _ h => h
    | cons x l' ih =>
      intro nlinks h
      exact ih (fun y hy => hl' y (.tail _ hy)) _ (hk x (hl' x (.head _)) nlinks h)
  obtain ⟨front, back, rfl⟩ := append_of_mem he
  rw [foldl_append, foldl_cons]
  exact hr back (fun x hx => mem_append_right _ (.tail _ hx)) _ (hs _)

end Counts

section Tree

variable {w : Writer} {root : Forest} {o : MapOrders}

theorem root_placed (hw : SoundEntries w.entries) (hr : buildTree w.entries = .ok root) :
    Placed [] root ∧ root.preorder.Perm w.entries := by
  obtain ⟨hg, hp⟩ := buildTree_spec hw hr
  exact ⟨hg ▸ grow_placed hw _ ⟨fun c hc => absurd hc not_mem_nil⟩, hp⟩

theorem computeLinkCounts_dirs (hw : SoundEntries w.entries) (hr : buildTree w.entries = .ok root)
    (visited : List Entry) :
    root.Counted (computeLinkCounts visited root) ∧
      computeLinkCounts visited root [slash] = root.linkCount := by
  obtain ⟨hp, hpe⟩ := root_placed hw hr
  refine ⟨?_, Function.update_self ..⟩
  have hn := (hpe.map Entry.path).nodup_iff.mpr hw.nodup
  refine (countDirs_counted hp hn (visited.foldl countLink fun _ => 0)).congr fun e he => ?_
  exact Function.update_of_ne (hw.ne_root (hpe.mem_iff.mp he)) ..

variable {e : Entry}

theorem computeLinkCounts_of_not_dir (hw : SoundEntries w.entries)
    (hr : buildTree w.entries = .ok root) (visited : List Entry) (he : e ∈ w.entries)
    (hd : e.isDir = false) :
    computeLinkCounts visited root e.path = visited.foldl countLink (fun _ => 0) e.path := by
  obtain ⟨_, hp⟩ := root_placed hw hr
  rw [computeLinkCounts, Function.update_of_ne (hw.ne_root he)]
  refine countDirs_of_ne fun x hx hxd heq => ?_
  rw [hw.eq_of_path (hp.mem_iff.mp hx) he heq, hd] at hxd
  cases hxd

theorem SoundEntries.not_target (hw : SoundEntries w.entries) (he : e ∈ w.entries)
    (hfi : e.isFile = false) (hx : x ∈ w.mapEntries) : x.kind ≠ .hardlink e.path := by
  intro hl
  rcases mem_cons.mp hx with rfl | hx
  · cases hl
  obtain ⟨f, hf, hp, hi⟩ := hw.links x hx e.path hl
  rw [hw.eq_of_path hf he hp, hfi] at hi
  cases hi

theorem computeLinkCounts_one (hw : SoundEntries w.entries) (hr : buildTree w.entries = .ok root)
    {order : List Bytes} (ho : order.Perm w.keys) (he : e ∈ w.entries) (hd : e.isDir = false)
    (hl : e.isLink = false) (ht : ∀ x ∈ w.mapEntries, x.kind ≠ .hardlink e.path) :
    computeLinkCounts (w.visit order) root e.path = 1 := by
  have hp := visit_perm hw ho
  have hs : ∀ nlinks, countLink nlinks e e.path = 1 := by
    intro nlinks
    unfold countLink
    cases hk : e.kind with
    | dir =>
      rw [Entry.isDir, hk] at hd
      cases hd
    | hardlink t =>
      rw [Entry.isLink, hk] at hl
      cases hl
    | _ => exact Function.update_self ..
  rw [computeLinkCounts_of_not_dir hw hr _ he hd]
  refine foldl_countLink (hp.mem_iff.mpr (.tail _ he)) hs ?_ _
  intro x hx nlinks hon
  have hx' := hp.mem_iff.mp hx
  unfold countLink
  cases hk : x.kind with
  | dir => exact hon
  | hardlink t =>
    have hn : e.path ≠ t := fun heq => ht x hx' (heq ▸ hk)
    exact (Function.update_of_ne hn ..).trans hon
  | _ =>
    by_cases hpa : e.path = x.path
    · rw [hpa]
      exact Function.update_self ..
    · exact (Function.update_of_ne hpa ..).trans hon

section Same

variable {links : Links} {x : Resolved}

theorem encodeLeafWith_eq
    (ho : e.isDir = false → e.isLink = false → e.isFile = false → links.leaf e.path = 1) :
    encodeLeafWith links cfg h e = encodeLeaf cfg h e := by
  unfold encodeLeaf encodeLeafWith
  unfold Entry.isDir Entry.isLink Entry.isFile at ho
  cases hk : e.kind with
  | file start sizes size | dir | hardlink t => rfl
  | _ =>
    rw [hk] at ho
    rw [ho rfl rfl rfl]
    rfl

theorem writeLeafInodesWith_eq
    (ho : ∀ e ∈ x.entries, e.isDir = false → e.isLink = false → e.isFile = false →
      links.leaf e.path = 1) :
    x.writeLeafInodesWith links = x.writeLeafInodes := by
  have hl : ∀ e ∈ x.entries, ∀ s, x.writeLeafWith links s e = x.writeLeaf s e := by
    intro e he s
    unfold Resolved.writeLeaf Resolved.writeLeafWith
    simp only [encodeLeafWith_eq (ho e he)]
  unfold Resolved.writeLeafInodes Resolved.writeLeafInodesWith
  generalize (⟨newMetaWriter .inode, fun _ => ⟨0, 0⟩⟩ : Leaves) = s
  generalize x.entries = entries at hl
  induction entries generalizing s with
  | nil => rfl
  | cons e entries ih =>
    rw [foldlM_cons, foldlM_cons, hl e (.head _)]
    exact bind_congr fun s' => ih s' fun f hf => hl f (.tail _ hf)

theorem writeDirWith_eq (h : links.dir p below = below.linkCount) :
    x.writeDirWith links p a below refs t = x.writeDir p a below refs t := by
  unfold Resolved.writeDir Resolved.writeDirWith
  rw [h]
  rfl

theorem writeDirsWith_eq {nlinks : Bytes → Nat} (h : f.Counted nlinks)
    (hl : links.dir = fun p _ => nlinks p) (t : DirTables) :
    x.writeDirsWith links leafRefs f t = x.writeDirs leafRefs f t := by
  induction f generalizing t with
  | nil => rfl
  | cons e below rest ihbelow ihrest =>
    rw [Resolved.writeDirsWith, Resolved.writeDirs, Resolved.writeDirsWith]
    simp only [ihrest h.2.2]
    by_cases hd : e.isDir = true
    · have he : links.dir e.path below = below.linkCount := by rw [hl]; exact h.1 hd
      simp only [if_pos hd, ihbelow h.2.1, writeDirWith_eq he]
    · simp only [if_neg hd]

end Same

theorem layoutIn_eq (hw : SoundEntries w.entries) (ho : o.Valid w.keys) :
    w.layoutIn o = w.layout := by
  unfold Writer.layoutIn Writer.layout Writer.layoutWith
  cases hr : buildTree w.entries with
  | error e => rfl
  | ok root =>
    obtain ⟨hd, ht⟩ := computeLinkCounts_dirs hw hr (w.visit o.links)
    show (internIDs w.cfg w.entries >>= _) = (internIDs w.cfg w.entries >>= _)
    refine bind_congr fun owners => ?_
    dsimp only
    rw [writeLeafInodesWith_eq fun e he hdi hl hf =>
      computeLinkCounts_one hw hr ho.links he hdi hl fun _ hx => hw.not_target he hf hx]
    refine bind_congr fun leaves => ?_
    rw [writeDirsWith_eq hd rfl]
    refine bind_congr fun y => ?_
    rw [writeDirWith_eq ht]

theorem imageIn_eq (hw : SoundEntries w.entries) (ho : o.Valid w.keys) (l : Layout) :
    w.imageIn o l = w.image l := by
  have hs : w.superblockIn o l = w.superblock l := by
    unfold Writer.superblockIn
    rw [totalInodeCountIn_eq hw ho.inodes, imageMtimeIn_eq hw ho.times]
    rfl
  rw [Writer.imageIn, hs]

end Tree

def Entry.shape (e : Entry) : Entry :=
  match e.kind with
  | .file .. => { e with kind := .file 0 [] 0 }
  | _ => e

theorem Entry.shape_path (e : Entry) : e.shape.path = e.path := by
  cases e with
  | mk path kind attrs => cases kind <;> rfl

theorem Entry.shape_isFile (e : Entry) : e.shape.isFile = e.isFile := by
  cases e with
  | mk path kind attrs => cases kind <;> rfl

theorem Entry.shape_hardlink (e : Entry) (t : Bytes) :
    e.shape.kind = .hardlink t ↔ e.kind = .hardlink t := by
  cases e with
  | mk path kind attrs => cases kind <;> simp [Entry.shape]

theorem Entry.shape_addBlock (word : Nat) (e : Entry) : (e.addBlock word).shape = e.shape := by
  cases e with
  | mk path kind attrs => cases kind <;> rfl

theorem Entry.shape_addSize (n : Nat) (e : Entry) : (e.addSize n).shape = e.shape := by
  cases e with
  | mk path kind attrs => cases kind <;> rfl

def Writer.shapes (w : Writer) : List Entry := w.entries.map Entry.shape

variable {w : Writer}

theorem Writer.shapes_update (hf : ∀ e, (f e).shape = e.shape) :
    (w.update p f).shapes = w.shapes := by
  rw [Writer.shapes, Writer.update, map_map]
  apply map_congr_left
  intro e _
  simp only [Function.comp]
  split
  · exact hf e
  · rfl

theorem Writer.shapes_paths (w : Writer) : w.shapes.map Entry.path = w.entries.map Entry.path := by
  rw [Writer.shapes, map_map]
  exact map_congr_left fun e _ => e.shape_path

theorem SoundEntries.shapes : SoundEntries (es.map Entry.shape) ↔ SoundEntries es := by
  have hp : (es.map Entry.shape).map Entry.path = es.map Entry.path := by
    rw [map_map]
    exact map_congr_left fun e _ => e.shape_path
  refine ⟨fun h => ⟨hp ▸ h.nodup, fun e he => ?_, fun e he t ht => ?_⟩,
    fun h => ⟨hp.symm ▸ h.nodup, fun e he => ?_, fun e he t ht => ?_⟩⟩
  · exact e.shape_path ▸ h.valid _ (mem_map_of_mem he)
  · obtain ⟨f, hf, hpa, hfi⟩ := h.links _ (mem_map_of_mem he) t ((e.shape_hardlink t).mpr ht)
    obtain ⟨g, hg, rfl⟩ := mem_map.mp hf
    exact ⟨g, hg, g.shape_path ▸ hpa, g.shape_isFile ▸ hfi⟩
  · obtain ⟨g, hg, rfl⟩ := mem_map.mp he
    exact g.shape_path.symm ▸ h.valid g hg
  · obtain ⟨e, he', rfl⟩ := mem_map.mp he
    obtain ⟨f, hf, hpa, hfi⟩ := h.links e he' t ((e.shape_hardlink t).mp ht)
    exact ⟨f.shape, mem_map_of_mem hf, f.shape_path.trans hpa, f.shape_isFile.trans hfi⟩

theorem SoundEntries.of_shapes {w' : Writer} (h : SoundEntries w.entries)
    (hs : w'.shapes = w.shapes) : SoundEntries w'.entries :=
  SoundEntries.shapes.mp (show SoundEntries w'.shapes from hs ▸ SoundEntries.shapes.mpr h)

theorem SoundEntries.add (h : SoundEntries w.entries) (hv : validatePath e.path = .ok ())
    (hfr : ¬(w.find e.path).isSome = true)
    (hl : ∀ t, e.kind = .hardlink t → ∃ f ∈ w.entries, f.path = t ∧ f.isFile) :
    SoundEntries (w.add e).entries := by
  have hfre : e.path ∉ w.entries.map Entry.path := by
    intro hp
    obtain ⟨f, hf, hpa⟩ := mem_map.mp hp
    rw [Bool.not_eq_true, Option.isSome_eq_false_iff, Option.isNone_iff_eq_none, Writer.find,
      List.find?_eq_none] at hfr
    exact hfr f hf (by simp [hpa])
  refine ⟨?_, fun f hf => ?_, fun f hf t ht => ?_⟩
  · rw [Writer.add, map_append, map_singleton, nodup_append]
    refine ⟨h.nodup, pairwise_singleton _ _, fun p hp q hq => ?_⟩
    rw [mem_singleton.mp hq]
    exact fun he => hfre (he ▸ hp)
  · rcases mem_append.mp hf with hf | hf
    · exact h.valid f hf
    · rw [mem_singleton.mp hf]
      exact validatePath_ok_iff.mp hv
  have ho : ∃ g ∈ w.entries, g.path = t ∧ g.isFile := by
    rcases mem_append.mp hf with hf | hf
    · exact h.links f hf t ht
    · exact hl t (mem_singleton.mp hf ▸ ht)
  obtain ⟨g, hg, hgt, hfi⟩ := ho
  exact ⟨g, mem_append_left _ hg, hgt, hfi⟩

structure Writer.Inert (f : Writer → β) : Prop where
  out : ∀ w out, f { w with out := out } = f w
  curFile : ∀ w cur, f { w with curFile := cur } = f w
  block : ∀ w p word, f (w.update p (Entry.addBlock word)) = f w
  size : ∀ w p n, f (w.update p (Entry.addSize n)) = f w

theorem Writer.shapes_inert : Writer.Inert Writer.shapes :=
  ⟨fun _ _ => rfl, fun _ _ => rfl, fun _ _ _ => Writer.shapes_update (Entry.shape_addBlock _),
    fun _ _ _ => Writer.shapes_update (Entry.shape_addSize _)⟩

section Sound

variable {faults : Faults} {s s' : Session} {f : Writer → β} {p : Bytes}

section

variable (hf : Writer.Inert f) (faults : Faults)
include hf

theorem Session.emitBlock_inert (p : Bytes) (s : Session)
    (buf : Bytes) : f (s.emitBlock faults p buf).2.writer = f s.writer := by
  unfold Session.emitBlock
  split
  · rfl
  split
  · rfl
  split
  · exact hf.out ..
  · exact (hf.out ..).trans (hf.block ..)

theorem Session.flushCurFile_inert (s : Session) :
    f (s.flushCurFile faults).2.writer = f s.writer := by
  unfold Session.flushCurFile
  split
  · rfl
  rename_i fw _
  have he := Session.emitBlock_inert hf faults fw.path s fw.buf
  split
  · rename_i hr
    rw [hr] at he
    exact he
  rename_i hr
  rw [hr] at he
  exact (hf.curFile ..).trans he

theorem writeLoop_inert (p : Bytes) (s : Session)
    (buf data : Bytes) (written : Nat) :
    f (writeLoop faults p s buf data written).2.2.1.writer = f s.writer := by
  fun_induction writeLoop faults p s buf data written with
  | case1 => rfl
  | case2 s buf data written hm hfu e s1 he =>
    have hs := Session.emitBlock_inert hf faults p s
      (buf ++ data.take (s.writer.cfg.blockSize - buf.length))
    rw [he] at hs
    exact hs
  | case3 s buf data written hm hfu s1 he ih =>
    have hs := Session.emitBlock_inert hf faults p s
      (buf ++ data.take (s.writer.cfg.blockSize - buf.length))
    rw [he] at hs
    exact ih.trans hs
  | case4 => rfl

theorem Session.write_inert (s : Session) (p data : Bytes) :
    f (s.write faults p data).2.2.writer = f s.writer := by
  unfold Session.write
  split
  · rfl
  rename_i fw _
  split
  · rfl
  split
  · rfl
  have hl := writeLoop_inert hf faults p s fw.buf data 0
  split
  · rename_i hr
    rw [hr] at hl
    exact (hf.curFile ..).trans hl
  rename_i hr
  rw [hr] at hl
  exact (hf.curFile ..).trans ((hf.size ..).trans hl)

end

theorem Session.flushCurFile_shapes (faults : Faults) (s : Session) :
    (s.flushCurFile faults).2.writer.shapes = s.writer.shapes :=
  Session.flushCurFile_inert Writer.shapes_inert faults s

section

variable (h : SoundEntries s.writer.entries)
include h

theorem Session.beginEntry_sound (hb : s.beginEntry faults p = (err, s')) :
    SoundEntries s'.writer.entries ∧
      (err = none → validatePath p = .ok () ∧ ¬(s'.writer.find p).isSome = true) := by
  unfold Session.beginEntry at hb
  split at hb
  · cases hb
    exact ⟨h, by simp⟩
  have hs := Session.flushCurFile_shapes faults s
  split at hb
  · rename_i hf
    rw [hf] at hs
    cases hb
    exact ⟨h.of_shapes hs, by simp⟩
  rename_i s1 hf
  rw [hf] at hs
  split at hb
  · cases hb
    exact ⟨h.of_shapes hs, by simp⟩
  rename_i hv
  split at hb
  · cases hb
    exact ⟨h.of_shapes hs, by simp⟩
  rename_i hfi
  cases hb
  exact ⟨h.of_shapes hs, fun _ => ⟨hv, hfi⟩⟩

theorem Session.create_sound {refused : Option Err}
    (hm : ∀ w, ∃ e, e.path = p ∧ e.isLink = false ∧ (make w).entries = (w.add e).entries) :
    SoundEntries (s.create faults p refused make).2.writer.entries := by
  unfold Session.create
  split
  · rename_i hb
    exact (Session.beginEntry_sound h hb).1
  rename_i s1 hb
  obtain ⟨hs, hf⟩ := Session.beginEntry_sound h hb
  obtain ⟨hv, hfi⟩ := hf rfl
  split
  · exact hs
  obtain ⟨e, rfl, hl, he⟩ := hm s1.writer
  refine show SoundEntries (make s1.writer).entries from ?_
  rw [he]
  refine hs.add hv hfi fun t ht => ?_
  rw [Entry.isLink, ht] at hl
  cases hl

theorem Session.createHardlink_sound (p target : Bytes) :
    SoundEntries (s.createHardlink faults p target).2.writer.entries := by
  unfold Session.createHardlink
  split
  · exact h
  have hs := Session.flushCurFile_shapes faults s
  split
  · rename_i hf
    rw [hf] at hs
    exact h.of_shapes hs
  rename_i s1 hf
  rw [hf] at hs
  have hso := h.of_shapes hs
  split
  · exact hso
  · exact hso
  rename_i hv _
  split
  · exact hso
  rename_i hfi
  split
  · rename_i q start sizes size a hta
    refine hso.add (e := ⟨p, .hardlink target, .zero⟩) hv hfi fun t ht => ?_
    cases ht
    exact ⟨_, mem_of_find?_eq_some hta, by simpa using List.find?_some hta, rfl⟩
  · exact hso

theorem Session.call_sound (c : Call) : SoundEntries (s.call faults c).2.writer.entries := by
  cases c with
  | write p data => exact h.of_shapes (Session.write_inert Writer.shapes_inert faults s p data)
  | hardlink p target => exact Session.createHardlink_sound h p target
  | _ => exact Session.create_sound h fun w => ⟨_, rfl, rfl, rfl⟩

end

theorem Session.run_sound (faults : Faults) (h : SoundEntries s.writer.entries) (calls : List Call) :
    SoundEntries (s.run faults (calls.map Act.call)).2.writer.entries := by
  induction calls generalizing s with
  | nil => exact h
  | cons c calls ih => exact ih (Session.call_sound h c)

end Sound

/-- In whatever orders the loops over the map go, `Close` does what it does in the order of
creation. -/
theorem Session.closeIn_eq {s : Session} (hs : SoundEntries s.writer.entries) {o : MapOrders}
    (ho : o.Valid s.writer.keys) : s.closeIn faults o = s.close faults := by
  have hsh := Session.flushCurFile_shapes faults s
  unfold Session.closeIn Session.close Session.closeWith
  split
  · rfl
  split
  · rfl
  rename_i s1 hf
  rw [hf] at hsh
  have hk : s1.writer.keys = s.writer.keys := by
    rw [Writer.keys, Writer.keys, Writer.mapEntries, Writer.mapEntries, map_cons, map_cons,
      ← Writer.shapes_paths, ← Writer.shapes_paths, hsh]
  have hs1 : SoundEntries s1.writer.entries := hs.of_shapes hsh
  rw [← hk] at ho
  have hi : (s1.writer.layoutIn o).map (s1.writer.imageIn o) =
      s1.writer.layout.map s1.writer.image := by
    rw [layoutIn_eq hs1 ho, funext (imageIn_eq hs1 ho)]
  dsimp only
  rw [hi]

theorem newSession_sound (cfg : Config) : SoundEntries (newSession cfg).writer.entries :=
  ⟨nodup_nil, nofun, nofun⟩

/-- Two runs of the same calls that go through the map in different orders end in the same way, with
the same image. -/
theorem images_reproducible (cfg : Config) (faults : Faults) (calls : List Call) {o o' : MapOrders}
    (ho : o.Valid ((newSession cfg).run faults (calls.map Act.call)).2.writer.keys)
    (ho' : o'.Valid ((newSession cfg).run faults (calls.map Act.call)).2.writer.keys) :
    ((newSession cfg).run faults (calls.map Act.call)).2.closeIn faults o =
      ((newSession cfg).run faults (calls.map Act.call)).2.closeIn faults o' := by
  have hsound := Session.run_sound faults (newSession_sound cfg) calls
  rw [Session.closeIn_eq hsound ho, Session.closeIn_eq hsound ho']

def linkedOrders : MapOrders × MapOrders :=
  let keys := [[slash], text ['/', 'a'], text ['/', 'a', '/', 'b'], text ['/', 'c']]
  (⟨keys, keys, keys⟩, ⟨keys.reverse, keys, keys⟩)

theorem linked_reproducible :
    (((newSession rawConfig).run (fun _ => none) (linkedCalls.map Act.call)).2.closeIn (fun _ => none)
      linkedOrders.1).1 = none ∧
    ((newSession rawConfig).run (fun _ => none) (linkedCalls.map Act.call)).2.closeIn (fun _ => none)
      linkedOrders.1 =
      ((newSession rawConfig).run (fun _ => none) (linkedCalls.map Act.call)).2.closeIn (fun _ => none)
        linkedOrders.2 := by
  have hkeys : ((newSession rawConfig).run (fun _ => none) (linkedCalls.map Act.call)).2.writer.keys =
      linkedOrders.1.links := by decide +kernel
  have hclosed : (((newSession rawConfig).run (fun _ => none)
      (linkedCalls.map Act.call)).2.closeIn (fun _ => none) linkedOrders.1).1.isNone = true := by
    decide +kernel
  refine ⟨Option.isNone_iff_eq_none.mp hclosed, images_reproducible rawConfig _ linkedCalls ?_ ?_⟩
  · rw [hkeys]
    exact ⟨.refl _, .refl _, .refl _⟩
  · rw [hkeys]
    exact ⟨reverse_perm _, .refl _, .refl _⟩

end Craftling.Squashfs

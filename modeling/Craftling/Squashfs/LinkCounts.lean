import Craftling.Squashfs.MapOrder
import Craftling.Squashfs.Reported

namespace Craftling.Squashfs
open Effects List Option

/-- One for each name of a file. A directory has its name, itself and its subdirectories. -/
def Item.links (items : List Item) (i : Item) : Nat :=
  match i.body with
  | .file _ => 1 + items.countP fun j => j.body = .hardlink i.path
  | .dir => 2 + items.countP fun j => j.body = .dir ∧ pathDir j.path = i.path
  | _ => 1

def rootLinks (items : List Item) : Nat :=
  2 + items.countP fun j => j.body = .dir ∧ pathDir j.path = [slash]

def Writer.nlinks (o : MapOrders) (w : Writer) : Bytes → Nat :=
  match buildTree w.entries with
  | .ok root => computeLinkCounts (w.visit o.links) root
  | .error _ => fun _ => 0

def readLinks (get : Nat → Option Bytes) : Option Nat := do
  match ← readFields [2, 2, 2, 2, 4, 4] get 0 with
  | [typ, _, _, _, _, _] =>
    if typ = inodeBasicFile then some 1
    else if typ = inodeBasicDir then do
      match ← readFields [4, 4] get 16 with
      | [_, n] => some n
      | _ => none
    else do
      match ← readFields [4] get 16 with
      | [n] => some n
      | _ => none
  | _ => none

def linksAt (expand : Bytes → Option Bytes) (img : Bytes) (place : Nat × Nat) : Option Nat := do
  let sb ← readSuperblock img
  readLinks (readAt expand img (sb.inodeTableStart + place.1) place.2)

/-- The counts of a closed writer, and of the image that is decoded. -/
structure LinksRight (expand : Bytes → Option Bytes) (items : List Item) (nlinks : Bytes → Nat)
    (img : Bytes) (tree : List (Bytes × Found)) : Prop where
  recorded : ∀ i ∈ items, i.Own → nlinks i.path = i.links items
  recordedRoot : nlinks [slash] = rootLinks items
  decoded : ∀ i ∈ items, i.Own → ∀ f, (i.path, f) ∈ tree →
    linksAt expand img f.place = some (i.links items)
  decodedRoot : ∀ f, ([slash], f) ∈ tree → linksAt expand img f.place = some (rootLinks items)

section Inodes

variable {get : Nat → Option Bytes} {h : Header} {n size start typ : Nat}

theorem readLinks_leaf {after : Bytes} (hh : h.Fits) (ht : typ < 256 ^ 2)
    (hfi : typ ≠ inodeBasicFile) (hd : typ ≠ inodeBasicDir) (hn : n < 256 ^ 4)
    (hg : Gives get (writeCommonHeader typ h ++ record [(4, n)] ++ after)) :
    readLinks get = some n := by
  have hfit : ∀ f ∈ [(4, n)], f.2 < 256 ^ f.1 := by
    intro f hf
    rw [mem_singleton.mp hf]
    exact hn
  have hr : readFields [4] get 16 = some [n] := readFields_body hg hfit
  rw [append_assoc] at hg
  rw [readLinks, readHeader hg hh ht]
  simp only [bind_eq_bind, bind_some, if_neg hfi, if_neg hd, hr]

theorem readLinks_file (hh : h.Fits) (henc : encodeBasicFile h blockSize start size sizes = .ok b)
    (hg : Gives get b) : readLinks get = some 1 := by
  unfold encodeBasicFile at henc
  split at henc
  · cases henc
  split at henc
  · cases henc
  split at henc
  · cases henc
  cases henc
  rw [append_assoc] at hg
  rw [readLinks, readHeader hg hh (by decide)]
  rfl

theorem readLinks_symlink (hh : h.Fits) (hn : n < 256 ^ 4)
    (henc : encodeBasicSymlink h n target = .ok b) (hg : Gives get b) : readLinks get = some n := by
  unfold encodeBasicSymlink at henc
  split at henc
  · cases henc
  cases henc
  have hb : writeCommonHeader inodeBasicSymlink h ++ record [(4, n), (4, target.length)] ++ target =
      writeCommonHeader inodeBasicSymlink h ++ record [(4, n)] ++
        (record [(4, target.length)] ++ target) := by simp [record]
  exact readLinks_leaf hh (by decide) (by decide) (by decide) hn (hb ▸ hg)

theorem readLinks_device (hh : h.Fits) (hn : n < 256 ^ 4)
    (henc : encodeBasicDevice h n major minor block = .ok b) (hg : Gives get b) :
    readLinks get = some n := by
  obtain ⟨dev, _, he⟩ := bind_eq_ok.mp henc
  cases he
  have hb (typ : Nat) : writeCommonHeader typ h ++ record [(4, n), (4, dev)] =
      writeCommonHeader typ h ++ record [(4, n)] ++ record [(4, dev)] := by simp [record]
  rw [hb] at hg
  cases block with
  | false | true => exact readLinks_leaf hh (by decide) (by decide) (by decide) hn hg

theorem readLinks_ipc (hh : h.Fits) (hn : n < 256 ^ 4) (hg : Gives get (encodeBasicIPC h n socket)) :
    readLinks get = some n := by
  rw [encodeBasicIPC, ← append_nil (_ ++ _)] at hg
  cases socket with
  | false | true => exact readLinks_leaf hh (by decide) (by decide) (by decide) hn hg

theorem readLinks_dir {nlinks offset parent : Nat} (hh : h.Fits) (hn : nlinks < 256 ^ 4)
    (henc : encodeBasicDir h start nlinks size offset parent = .ok b) (hg : Gives get b) :
    readLinks get = some nlinks := by
  unfold encodeBasicDir at henc
  split at henc
  · cases henc
  rename_i hs
  split at henc
  · cases henc
  cases henc
  have hb : record [(4, start), (4, nlinks), (2, (size + 3) % 2 ^ 32), (2, offset), (4, parent)] =
      record [(4, start), (4, nlinks)] ++ record [(2, (size + 3) % 2 ^ 32), (2, offset), (4, parent)] := by
    simp [record]
  have hhe := readHeader hg hh (by decide)
  rw [hb, ← append_assoc] at hg
  have hf : ∀ f ∈ [(4, start), (4, nlinks)], f.2 < 256 ^ f.1 := by
    simp only [mem_cons, not_mem_nil, or_false]
    rintro f (rfl | rfl)
    · exact show start < 256 ^ 4 by omega
    · exact hn
  have hr : readFields [4, 4] get 16 = some [start, nlinks] := readFields_body hg hf
  rw [readLinks, hhe]
  simp only [bind_eq_bind, bind_some, hr]
  rfl

theorem readLinks_encodeLeaf (hh : h.Fits) (henc : encodeLeaf cfg h e = .ok b) (hg : Gives get b) :
    readLinks get = some 1 := by
  simp only [encodeLeafWith, Links.plain] at henc
  generalize e.kind = kind at henc
  cases kind with
  | file start sizes size => exact readLinks_file hh henc hg
  | symlink target => exact readLinks_symlink hh (by decide) henc hg
  | charDev major minor | blockDev major minor => exact readLinks_device hh (by decide) henc hg
  | fifo | socket =>
    cases henc
    exact readLinks_ipc hh (by decide) hg
  | dir | hardlink t => cases henc

end Inodes

def Forest.Whole (entries : List Entry) : Forest → Prop
  | .nil => True
  | .cons e below rest =>
    (e.isDir = true → below.heads = childrenOf entries e.path) ∧ below.Whole entries ∧
      rest.Whole entries

section Whole

variable {entries : List Entry} {f : Forest}

theorem whole_row
    (h : ∀ e ∈ l, (e.isDir = true → (g e).heads = childrenOf entries e.path) ∧ (g e).Whole entries) :
    (row g l).Whole entries := by
  induction l with
  | nil => trivial
  | cons e l ih =>
    have hhead := h e (.head _)
    exact ⟨hhead.1, hhead.2, ih fun x hx => h x (.tail _ hx)⟩

theorem heads_grow (fuel : Nat) (dir : Bytes) :
    (grow entries (fuel + 1) dir).heads = childrenOf entries dir := heads_row _

theorem grow_whole (h : SoundEntries entries) (hcs : Canonical cs)
    (hd : ∀ e ∈ entries, ∀ ds, Canonical ds → e.path = render ds → ds.length ≤ cs.length + fuel) :
    (grow entries fuel (render cs)).Whole entries := by
  induction fuel generalizing cs with
  | zero => trivial
  | succ fuel ih =>
    refine whole_row fun e he => ?_
    obtain ⟨_, c, hc, hp⟩ := (h.child hcs).mp he
    by_cases hdi : e.isDir = true
    · rw [if_pos hdi, hp]
      refine ⟨fun _ => ?_, ih (hcs.concat hc) fun x hx ds hds hxp => ?_⟩
      · cases fuel with
        | succ fuel => exact heads_grow fuel _
        | zero =>
          refine (eq_nil_iff_forall_not_mem.mpr fun x hx => ?_).symm
          obtain ⟨hx, c', hc', hxp⟩ := (h.child (hcs.concat hc)).mp hx
          have hl := hd x hx _ ((hcs.concat hc).concat hc') hxp
          simp only [length_append, length_singleton] at hl
          omega
      · have hl := hd x hx ds hds hxp
        rw [length_append, length_singleton]
        omega
    · rw [if_neg hdi]
      exact ⟨fun ht => absurd ht hdi, trivial⟩

theorem subdirs_eq (f : Forest) : f.subdirs = f.heads.countP Entry.isDir := by
  induction f with
  | nil => rfl
  | cons e below rest _ ih =>
    rw [Forest.subdirs, Forest.heads, countP_cons, ih, Nat.add_comm]

def subdirsOf (entries : List Entry) (dir : Bytes) : Nat :=
  entries.countP fun e => e.isDir ∧ pathDir e.path = dir

theorem countP_childrenOf (dir : Bytes) :
    (childrenOf entries dir).countP Entry.isDir = subdirsOf entries dir := by
  rw [childrenOf, (perm_insertionSort _ _).countP_eq, countP_filter, subdirsOf]
  congr 1
  funext e
  simp

theorem linkCount_eq {dir : Bytes} (hf : entries.length ≤ 2 ^ 22)
    (h : f.heads = childrenOf entries dir) : f.linkCount = 2 + subdirsOf entries dir := by
  have hl : subdirsOf entries dir ≤ entries.length := countP_le_length
  rw [Forest.linkCount, subdirs_eq, h, countP_childrenOf]
  exact Nat.mod_eq_of_lt (by omega)

theorem Forest.Counted.of_mem {nlinks : Bytes → Nat} (hc : f.Counted nlinks) (hw : f.Whole entries)
    (hf : entries.length ≤ 2 ^ 22) (he : e ∈ f.preorder) (hd : e.isDir = true) :
    nlinks e.path = 2 + subdirsOf entries e.path := by
  induction f with
  | nil => exact absurd he not_mem_nil
  | cons d below rest ihbelow ihrest =>
    rcases mem_cons.mp he with rfl | he
    · rw [hc.1 hd]
      exact linkCount_eq hf (hw.1 hd)
    rcases mem_append.mp he with he | he
    · exact ihbelow hc.2.1 hw.2.1 he
    · exact ihrest hc.2.2 hw.2.2 he

end Whole

section Recorded

variable {expand : Bytes → Option Bytes} {w : Writer} {items : List Item} {root : Forest}
    {out : Bytes} {i : Item}

theorem KindHolds.dir_iff (h : KindHolds expand blockSize out k b) : k = .dir ↔ b = .dir := by
  cases h <;> simp

variable {e : Entry}

theorem Entry.isDir_iff : e.isDir = true ↔ e.kind = .dir := by
  cases e with
  | mk path kind attrs => cases kind <;> simp [Entry.isDir]

theorem EntryHolds.isDir (h : EntryHolds expand blockSize out e i) :
    e.isDir = decide (i.body = .dir) := by
  rw [Bool.eq_iff_iff, Entry.isDir_iff, decide_eq_true_iff]
  exact h.kind.dir_iff

theorem Settled.subdirs (hw : Settled expand w items) (dir : Bytes) :
    subdirsOf w.entries dir = items.countP fun j => j.body = .dir ∧ pathDir j.path = dir := by
  refine countP_eq_of_forall₂ hw.entries fun e i he => ?_
  rw [Bool.eq_iff_iff, decide_eq_true_iff, decide_eq_true_iff, he.isDir, decide_eq_true_iff, he.path]

theorem Settled.root_whole (hw : Settled expand w items) (hr : buildTree w.entries = .ok root) :
    root.Whole w.entries ∧ root.heads = childrenOf w.entries [slash] := by
  have hs := hw.soundEntries
  obtain ⟨hg, _⟩ := buildTree_spec hs hr
  have hn : Canonical [] := ⟨fun c hc => absurd hc not_mem_nil⟩
  rw [hg]
  refine ⟨grow_whole hs hn fun e he ds hd hp => ?_, heads_grow _ _⟩
  have hde := Nat.le_trans (length_le_render ds) (hp ▸ path_le_depthBound he)
  simpa using hde

variable {o : MapOrders}

theorem Settled.nlinks_eq (hr : buildTree w.entries = .ok root) :
    w.nlinks o = computeLinkCounts (w.visit o.links) root := by
  rw [Writer.nlinks, hr]

theorem Settled.root_links (hw : Settled expand w items) (hr : buildTree w.entries = .ok root)
    (hf : items.length ≤ 2 ^ 22) : w.nlinks o [slash] = rootLinks items := by
  have hs := hw.soundEntries
  have hl : w.entries.length ≤ 2 ^ 22 := hw.entries.length_eq ▸ hf
  rw [Settled.nlinks_eq hr, (computeLinkCounts_dirs hs hr _).2,
    linkCount_eq hl (hw.root_whole hr).2, hw.subdirs]
  rfl

theorem Settled.recorded (hw : Settled expand w items) (hr : buildTree w.entries = .ok root)
    (ho : o.Valid w.keys) (hf : items.length ≤ 2 ^ 22) (hown : ∀ i ∈ items, i.Own)
    (he : e ∈ w.entries) (hei : EntryHolds expand w.cfg.blockSize w.out e i)
    (hl : e.isLink = false) :
    w.nlinks o e.path = i.links items ∧ (e.isDir = false → i.links items = 1) := by
  have hs := hw.soundEntries
  have hle : w.entries.length ≤ 2 ^ 22 := hw.entries.length_eq ▸ hf
  have hn : w.nlinks o = _ := Settled.nlinks_eq hr
  by_cases hd : e.isDir = true
  · have hbo : i.body = .dir := hei.kind.dir_iff.mp (Entry.isDir_iff.mp hd)
    have hm := (root_placed hs hr).2.mem_iff.mpr he
    refine ⟨?_, fun hfa => absurd hd (by simp [hfa])⟩
    rw [hn, (computeLinkCounts_dirs hs hr _).1.of_mem (hw.root_whole hr).1 hle hm hd,
      hw.subdirs, Item.links, hbo, hei.path]
  have hlea := Bool.eq_false_of_not_eq_true hd
  have ht : ∀ x ∈ w.mapEntries, x.kind ≠ .hardlink e.path := by
    intro x hx hk
    rcases mem_cons.mp hx with rfl | hx
    · cases hk
    · obtain ⟨j, hj, hxj⟩ := forall₂_of_mem_left hw.entries hx
      exact hown j hj e.path (hxj.kind.isLink_eq.mp hk)
  have hon : i.links items = 1 := by
    have hz : items.countP (fun j => j.body = .hardlink i.path) = 0 := by
      rw [countP_eq_zero]
      exact fun j hj => by simp [hown j hj i.path]
    have hbo : i.body ≠ .dir := fun hb => hd (Entry.isDir_iff.mpr (hei.kind.dir_iff.mpr hb))
    unfold Item.links
    split
    · rw [hz]
    · exact absurd ‹_› hbo
    · rfl
  refine ⟨?_, fun _ => hon⟩
  rw [hn, computeLinkCounts_one hs hr ho.links he hlea hl ht, hon]

end Recorded

section Decoded

variable {expand : Bytes → Option Bytes} {w : Writer} {l : Layout} {x : Resolved}
    {root : Forest} {t : Written} {refs : List MetaRef} {all : List (Entry × MetaRef)}
    {rootRef : MetaRef} {items : List Item} {nlinks : Bytes → Nat} {img out : Bytes}
    {node : Entry × MetaRef} {r : MetaRef} {sb : Superblock}

theorem Laid.dir_of_mem (h : Laid x t f refs all) (hc : f.Counted nlinks) (hn : node ∈ all)
    (hd : node.1.isDir = true) :
    nlinks node.1.path < 256 ^ 4 ∧
      ∃ children, DirLaid x t node.1.path node.1.attrs (nlinks node.1.path) children node.2 := by
  induction h with
  | nil => exact absurd hn not_mem_nil
  | leaf hl _ _ ih =>
    rcases mem_cons.mp hn with rfl | hn
    · rw [hl] at hd
      cases hd
    · exact ih hc.2.2 hn
  | dir hi _ hla _ ihbelow ihrest =>
    rcases mem_cons.mp hn with rfl | hn
    · rw [hc.1 hi]
      exact ⟨linkCount_lt _, _, hla⟩
    rcases mem_append.mp hn with hn | hn
    · exact ihbelow hc.2.1 hn
    · exact ihrest hc.2.2 hn

section

variable (h : ImageHolds expand img sb x t out) (hs : readSuperblock img = some sb)
include h hs

theorem DirLaid.read_links (hl : DirLaid x t p a n children r)
    (ho : Owned x.owners p a) (hn : n < 256 ^ 4) : linksAt expand img (t.place r) = some n := by
  obtain ⟨pos, start, mtime, bytes, rfl, hm, henc, hli, _, _⟩ := hl.inode
  rw [linksAt, hs, bind_eq_bind, bind_some]
  exact readLinks_dir (ho.fits h.fewIds (entryMtime_ok hm).1) hn henc (h.gives hli)

theorem LeafLaid.read_links (hl : LeafLaid x t.inodes e r)
    (ho : Owned x.owners e.path e.attrs) : linksAt expand img (t.place r) = some 1 := by
  obtain ⟨pos, mtime, bytes, rfl, hm, henc, hli⟩ := hl
  rw [linksAt, hs, bind_eq_bind, bind_some]
  exact readLinks_encodeLeaf (ho.fits h.fewIds (entryMtime_ok hm).1) henc (h.gives hli)

end

theorem LaidOut.links_at (h : LaidOut expand w l x root t refs all rootRef)
    (hcf : w.cfg.Good expand) (hw : Settled expand w items) (hc : root.Counted nlinks)
    (hno : node ∈ all) (hl : node.1.isLink = false)
    (hr : Reads expand (w.image l) (w.superblock l) x t w.out node y) :
    linksAt expand (w.image l) y.2.place =
      some (if node.1.isDir then nlinks node.1.path else 1) := by
  have hs := hw.soundEntries
  have hi := h.image_holds hcf hw
  have hsb := h.read_superblock hcf hw
  have hin : node.1 ∈ w.entries := (h.perm hs).mem_iff.mp (mem_map_of_mem hno)
  have ho := (h.owned hs).2.2 _ hin hl
  obtain ⟨body, hb⟩ := hr.inode
  rw [(readFound_ok hb).1]
  by_cases hd : node.1.isDir = true
  · obtain ⟨hn, children, hla⟩ := h.laid.dir_of_mem hc hno hd
    rw [if_pos hd]
    exact hla.read_links hi hsb ho hn
  have hla := h.laid.leaf_of_mem hno (Bool.eq_false_of_not_eq_true hd)
  rw [Resolved.source_of_not_link hl] at hla
  rw [if_neg hd]
  exact hla.read_links hi hsb ho

end Decoded

theorem flushCurFile_keys (h : flushCurFile w = .ok w') : w'.keys = w.keys := by
  have hs : w'.cfg = w.cfg ∧ w'.shapes = w.shapes := by
    unfold flushCurFile at h
    split at h
    · cases h
      exact ⟨rfl, rfl⟩
    obtain ⟨w1, he, heq⟩ := bind_eq_ok.mp h
    cases heq
    unfold emitBlock at he
    split at he
    · cases he
      exact ⟨rfl, rfl⟩
    split at he
    · cases he
    · cases he
      exact ⟨rfl, Writer.shapes_update (Entry.shape_addBlock _)⟩
  rw [Writer.keys, Writer.keys, Writer.mapEntries, Writer.mapEntries, map_cons, map_cons,
    ← Writer.shapes_paths, ← Writer.shapes_paths, hs.2]

/-- The counts are right, in the writer and in the image, exactly if there is no hardlink. -/
theorem links_right_iff {expand : Bytes → Option Bytes} {base cfg : Config} {n : UInt32}
    (hsize : withBlockSize base n = .ok cfg) (hcomp : cfg.compressor.Inverted expand)
    {calls : List Call} (hfew : (created calls).length ≤ 2 ^ 22) {w : Writer}
    (hrun : (newWriter cfg).run calls = .ok w) {o : MapOrders} (ho : o.Valid w.keys)
    {faults : Faults} {k : Nat} {s' : Session}
    (hclose : (⟨w, k⟩ : Session).closeIn faults o = (none, s')) :
    ∃ tree, Decodes expand s'.writer.out tree ∧
      (LinksRight expand (created calls) (s'.writer.nlinks o) s'.writer.out tree ↔
        ∀ i ∈ created calls, i.Own) := by
  obtain ⟨hleast, hmost⟩ := withBlockSize_ok hsize
  have hcfg : cfg.Good expand := ⟨hcomp, hleast, hmost⟩
  obtain ⟨htells, hsame⟩ := run_spec hcfg hrun
  obtain ⟨_, w1, img, hflush, himg, hs'⟩ := Session.closeWith_ok hclose
  obtain ⟨hsettled, hsame1⟩ := htells.flush (hsame ▸ hcfg) hflush
  have hgood : w1.cfg.Good expand := (hsame1.trans hsame) ▸ hcfg
  have hsound := hsettled.soundEntries
  have ho1 : o.Valid w1.keys := (flushCurFile_keys hflush).symm ▸ ho
  obtain ⟨l, hlayout, rfl⟩ : ∃ l, w1.layout = .ok l ∧ w1.image l = img := by
    rw [layoutIn_eq hsound ho1, funext (imageIn_eq hsound ho1)] at himg
    cases hl : w1.layout with
    | error e =>
      rw [hl] at himg
      cases himg
    | ok l =>
      rw [hl] at himg
      cases himg
      exact ⟨l, rfl, rfl⟩
  have hlen : w1.entries.length ≤ 2 ^ 22 := hsettled.entries.length_eq ▸ hfew
  have hdirs : ∀ dir, (childrenOf w1.entries dir).length ≤ 2 ^ 22 := fun dir =>
    Nat.le_trans (length_childrenOf_le ..) hlen
  obtain ⟨x, root, t, refs, all, rootRef, hlaid⟩ := layout_spec hgood hsound hdirs hlayout
  obtain ⟨f0, found, hdecodes, hreads, ⟨body, hbody⟩, _, hshows⟩ := hlaid.decodes hgood hsettled hdirs
  have hrestores := hlaid.restores hsettled hreads hshows
  have hnlinks : w1.nlinks o = _ := Settled.nlinks_eq hlaid.tree
  have hcounted := (computeLinkCounts_dirs hsound hlaid.tree (w1.visit o.links)).1
  rw [← hnlinks] at hcounted
  have hsame' : s'.writer.nlinks o = w1.nlinks o := by
    rw [hs']
    rfl
  have hroot : w1.nlinks o [slash] = rootLinks (created calls) :=
    hsettled.root_links hlaid.tree hfew
  rw [hsame', show s'.writer.out = w1.image l by rw [hs']]
  refine ⟨_, hdecodes, fun h i hi target htarget => ?_, fun hown => ⟨?_, hroot, ?_, fun f hf => ?_⟩⟩
  · -- The file of a hardlink has two links at least, and one in its inode.
    obtain ⟨j, hj, rfl, d, hd⟩ := hsettled.sound.links i hi target htarget
    have hjown : j.Own := fun t ht => by rw [hd] at ht; cases ht
    have hmem : j.path ∈ (([slash], f0) :: found).map Prod.fst :=
      hrestores.paths.mem_iff.mpr (.tail _ (mem_map_of_mem hj))
    obtain ⟨⟨_, f⟩, hf, rfl⟩ := mem_map.mp hmem
    have hright := h.decoded j hj hjown f hf
    obtain ⟨e, he, hej, hlink⟩ := hsettled.own hj hjown
    obtain ⟨r, hnode, hread⟩ := hlaid.read_at hsound hreads he (hej.path ▸ hf)
    have hat := hlaid.links_at hgood hsettled hcounted hnode hlink hread
    have hdir : e.isDir = false := by rw [hej.isDir, hd]; rfl
    rw [hdir, if_neg Bool.false_ne_true] at hat
    rw [hat, Item.links, hd] at hright
    have hpos : 0 < (created calls).countP fun k => k.body = .hardlink j.path :=
      countP_pos_iff.mpr ⟨i, hi, decide_eq_true htarget⟩
    have hone : 1 = 1 + (created calls).countP fun k => k.body = .hardlink j.path :=
      Option.some.inj hright
    omega
  · intro i hi _
    obtain ⟨e, he, hei, hlink⟩ := hsettled.own hi (hown i hi)
    rw [← hei.path]
    exact (hsettled.recorded hlaid.tree ho1 hfew hown he hei hlink).1
  · intro i hi _ f hf
    obtain ⟨e, he, hei, hlink⟩ := hsettled.own hi (hown i hi)
    obtain ⟨r, hnode, hread⟩ := hlaid.read_at hsound hreads he (hei.path ▸ hf)
    obtain ⟨hrecorded, hone⟩ := hsettled.recorded hlaid.tree ho1 hfew hown he hei hlink
    rw [hlaid.links_at hgood hsettled hcounted hnode hlink hread]
    split
    · rw [hrecorded]
    · rw [hone (Bool.eq_false_of_not_eq_true ‹_›)]
  · have hf0 : f = f0 := by
      rcases mem_cons.mp hf with heq | hf
      · exact (Prod.mk.inj heq).2
      obtain ⟨⟨e, r⟩, hnode, hread⟩ := forall₂_of_mem_right hreads hf
      have hin : e ∈ w1.entries := (hlaid.perm hsound).mem_iff.mp (mem_map_of_mem hnode)
      exact absurd hread.path.symm (hsound.ne_root hin)
    have hlinks := hlaid.rootLaid.read_links (hlaid.image_holds hgood hsettled)
      (hlaid.read_superblock hgood hsettled) (hlaid.owned hsound).2.1 (linkCount_lt root)
    rw [hf0, (readFound_ok hbody).1, hlinks, ← hroot, hnlinks,
      (computeLinkCounts_dirs hsound hlaid.tree _).2]

def nestedCalls : List Call :=
  [.dir (text ['/', 'a']) .zero, .dir (text ['/', 'a', '/', 'b']) .zero, .file (text ['/', 'c']) .zero]

def nestedOrders : MapOrders :=
  let keys := [[slash], text ['/', 'a'], text ['/', 'a', '/', 'b'], text ['/', 'c']]
  ⟨keys.reverse, keys, keys⟩

theorem nested_links_right : ∃ w s', (newWriter rawConfig).run nestedCalls = .ok w ∧
      (⟨w, 0⟩ : Session).closeIn (fun _ => none) nestedOrders = (none, s') ∧
      ∃ tree, Decodes (fun _ => none) s'.writer.out tree ∧
        LinksRight (fun _ => none) (created nestedCalls) (s'.writer.nlinks nestedOrders) s'.writer.out
          tree := by
  obtain ⟨w, hw⟩ : ∃ w, (newWriter rawConfig).run nestedCalls = .ok w :=
    exists_of_isOk (by decide +kernel)
  have hkeys : w.keys = nestedOrders.inodes := by
    have hboth : ((newWriter rawConfig).run nestedCalls).map Writer.keys = .ok nestedOrders.inodes := by
      decide +kernel
    rw [hw] at hboth
    exact Except.ok.inj hboth
  have hclosed : ((⟨w, 0⟩ : Session).closeIn (fun _ => none) nestedOrders).1.isNone = true := by
    have hboth : ((newWriter rawConfig).run nestedCalls).map (fun w =>
        ((⟨w, 0⟩ : Session).closeIn (fun _ => none) nestedOrders).1.isNone) = .ok true := by
      decide +kernel
    rw [hw] at hboth
    exact Except.ok.inj hboth
  have hclose : (⟨w, 0⟩ : Session).closeIn (fun _ => none) nestedOrders = (none, _) :=
    Prod.ext (isNone_iff_eq_none.mp hclosed) rfl
  obtain ⟨tree, hdecodes, hiff⟩ := links_right_iff
    (show withBlockSize rawConfig 4096 = .ok rawConfig from rfl)
    (rawCompressor_inverted fun _ => none) (by decide) hw
    (hkeys ▸ ⟨reverse_perm _, .refl _, .refl _⟩) hclose
  refine ⟨w, _, hw, hclose, tree, hdecodes, hiff.mpr fun i hi target htarget => ?_⟩
  have hbodies : (created nestedCalls).map Item.body = [.dir, .dir, .file []] := by decide
  have hmem : Body.hardlink target ∈ (created nestedCalls).map Item.body :=
    htarget ▸ mem_map_of_mem hi
  rw [hbodies] at hmem
  simp at hmem

/-- The file with two names is gone through after its hardlink: its count is set to 1 again, and its
inode has none. -/
theorem linked_links_wrong :
    ∃ w s', (newWriter rawConfig).run linkedCalls = .ok w ∧ linkedOrders.2.Valid w.keys ∧
      (⟨w, 0⟩ : Session).closeIn (fun _ => none) linkedOrders.2 = (none, s') ∧
      s'.writer.nlinks linkedOrders.2 (text ['/', 'a', '/', 'b']) = 1 ∧
      ∃ tree, Decodes (fun _ => none) s'.writer.out tree ∧
        ¬LinksRight (fun _ => none) (created linkedCalls) (s'.writer.nlinks linkedOrders.2)
          s'.writer.out tree := by
  obtain ⟨w, hw⟩ : ∃ w, (newWriter rawConfig).run linkedCalls = .ok w :=
    exists_of_isOk (by decide +kernel)
  have hkeys : w.keys = linkedOrders.2.inodes := by
    have hboth : ((newWriter rawConfig).run linkedCalls).map Writer.keys = .ok linkedOrders.2.inodes := by
      decide +kernel
    rw [hw] at hboth
    exact Except.ok.inj hboth
  have hclosed : ((⟨w, 0⟩ : Session).closeIn (fun _ => none) linkedOrders.2).1.isNone = true ∧
      ((⟨w, 0⟩ : Session).closeIn (fun _ => none) linkedOrders.2).2.writer.nlinks linkedOrders.2
        (text ['/', 'a', '/', 'b']) = 1 ∧
      (decode (fun _ => none)
        ((⟨w, 0⟩ : Session).closeIn (fun _ => none) linkedOrders.2).2.writer.out 4).isSome = true := by
    have hboth : ((newWriter rawConfig).run linkedCalls).map (fun w =>
        (((⟨w, 0⟩ : Session).closeIn (fun _ => none) linkedOrders.2).1.isNone,
          ((⟨w, 0⟩ : Session).closeIn (fun _ => none) linkedOrders.2).2.writer.nlinks linkedOrders.2
            (text ['/', 'a', '/', 'b']),
          (decode (fun _ => none) ((⟨w, 0⟩ : Session).closeIn (fun _ => none)
            linkedOrders.2).2.writer.out 4).isSome)) = .ok (true, 1, true) := by decide +kernel
    rw [hw] at hboth
    simpa using Except.ok.inj hboth
  obtain ⟨hnone, hone, hsome⟩ := hclosed
  obtain ⟨tree, htree⟩ := isSome_iff_exists.mp hsome
  refine ⟨w, _, hw, hkeys ▸ ⟨reverse_perm _, .refl _, .refl _⟩,
    Prod.ext (isNone_iff_eq_none.mp hnone) rfl, hone, tree, .of_decode htree, fun h => ?_⟩
  -- Both names count.
  have hright := h.recorded ⟨text ['/', 'a', '/', 'b'], ⟨0o4644, 7, 8, ⟨5, 0⟩⟩, .file [1, 2, 3]⟩
    (by decide) nofun
  rw [hone] at hright
  exact absurd hright (by decide)

end Craftling.Squashfs

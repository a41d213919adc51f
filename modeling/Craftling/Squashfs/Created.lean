import Craftling.Squashfs.Reader

namespace Craftling.Squashfs
open Effects List

inductive Body where
  | file (data : Bytes)
  | dir
  | symlink (target : Bytes)
  | hardlink (target : Bytes)
  | charDev (major minor : UInt32)
  | blockDev (major minor : UInt32)
  | fifo
  | socket
  deriving DecidableEq

structure Item where
  path : Bytes
  attrs : Attrs
  body : Body
  deriving DecidableEq

def Item.append (data : Bytes) (i : Item) : Item :=
  match i.body with
  | .file d => { i with body := .file (d ++ data) }
  | _ => i

def itemsAfter (items : List Item) : Call → List Item
  | .file p a => items ++ [⟨p, a, .file []⟩]
  | .write p data => items.map fun i => if i.path = p then i.append data else i
  | .dir p a => items ++ [⟨p, a, .dir⟩]
  | .symlink p a target => items ++ [⟨p, a, .symlink target⟩]
  | .hardlink p target => items ++ [⟨p, .zero, .hardlink target⟩]
  | .charDevice p a major minor => items ++ [⟨p, a, .charDev major minor⟩]
  | .blockDevice p a major minor => items ++ [⟨p, a, .blockDev major minor⟩]
  | .fifo p a => items ++ [⟨p, a, .fifo⟩]
  | .socket p a => items ++ [⟨p, a, .socket⟩]

def created (calls : List Call) : List Item := calls.foldl itemsAfter []

section Data

variable {block out stored : Bytes} {blocks : List Bytes} {words : List Nat} {blockSize pos : Nat}

def diskLen (words : List Nat) : Nat := (words.map (· % 2 ^ 24)).sum

def DataHolds (expand : Bytes → Option Bytes) (out : Bytes) : Nat → List Nat → List Bytes → Prop
  | _, [], [] => True
  | pos, word :: words, block :: blocks =>
    (∃ stored raw, word = sizeWord stored raw ∧ Stores expand stored raw block ∧
      block.length ≤ maxBlockSize ∧ stored <+: out.drop pos) ∧
      DataHolds expand out (pos + word % 2 ^ 24) words blocks
  | _, _, _ => False

theorem sizeWord_eq (raw : Bool) (h : stored.length ≤ maxBlockSize) :
    sizeWord stored raw = stored.length + if raw then 2 ^ 24 else 0 := by
  have hs : stored.length < 2 ^ 24 := Nat.lt_of_le_of_lt h (by decide)
  rw [sizeWord]
  split
  · exact or_bit hs
  · rfl

theorem sizeWord_spec (raw : Bool) (h : stored.length ≤ maxBlockSize) :
    sizeWord stored raw % 2 ^ 24 = stored.length ∧
      decide (2 ^ 24 ≤ sizeWord stored raw) = raw ∧ sizeWord stored raw < 256 ^ 4 := by
  have hs : stored.length < 2 ^ 24 := Nat.lt_of_le_of_lt h (by decide)
  rw [sizeWord_eq raw h]
  cases raw with
  | false =>
    simp only [Bool.false_eq_true, if_false, decide_eq_false_iff_not]
    omega
  | true =>
    simp only [if_true, decide_eq_true_eq]
    omega

theorem DataHolds.of_drop (h : DataHolds expand out pos words blocks) {start : Nat}
    (hp : start ≤ pos) (hs : ∀ pos, start ≤ pos → out.drop pos <+: out'.drop pos) :
    DataHolds expand out' pos words blocks := by
  induction words generalizing pos blocks with
  | nil =>
    cases blocks with
    | nil => trivial
    | cons block blocks => exact h.elim
  | cons word words ih =>
    cases blocks with
    | nil => exact h.elim
    | cons block blocks =>
      obtain ⟨⟨stored, raw, hword, hst, hl, ha⟩, hr⟩ := h
      exact ⟨⟨stored, raw, hword, hst, hl, ha.trans (hs pos hp)⟩,
        ih hr (Nat.le_trans hp (Nat.le_add_right ..))⟩

theorem DataHolds.mono (hp : out <+: out') (h : DataHolds expand out pos words blocks) :
    DataHolds expand out' pos words blocks :=
  h.of_drop (Nat.zero_le pos) fun pos _ => hp.drop pos

section

variable (h : DataHolds expand out pos words blocks)
include h

theorem DataHolds.concat (hs : Stores expand stored raw block) (hl : block.length ≤ maxBlockSize)
    (he : pos + diskLen words = out.length) :
    DataHolds expand (out ++ stored) pos (words ++ [sizeWord stored raw]) (blocks ++ [block]) := by
  induction words generalizing pos blocks with
  | nil =>
    cases blocks with
    | cons block blocks => exact h.elim
    | nil =>
      rw [diskLen, map_nil, sum_nil, Nat.add_zero] at he
      refine ⟨⟨stored, raw, rfl, hs, hl, ?_⟩, trivial⟩
      rw [he, drop_left]
  | cons word words ih =>
    cases blocks with
    | nil => exact h.elim
    | cons b blocks =>
      obtain ⟨⟨stored', raw', hword, hs', hl', ha⟩, hr⟩ := h
      refine ⟨⟨stored', raw', hword, hs', hl', ?_⟩, ih hr ?_⟩
      · exact ha.trans ((prefix_append ..).drop pos)
      · rw [diskLen, map_cons, sum_cons] at he
        rw [diskLen]
        omega

theorem DataHolds.diskLen_le : diskLen words ≤ blocks.flatten.length := by
  induction words generalizing pos blocks with
  | nil => exact Nat.zero_le _
  | cons word words ih =>
    cases blocks with
    | nil => exact h.elim
    | cons block blocks =>
      obtain ⟨⟨stored, raw, rfl, hs, hl, _⟩, hr⟩ := h
      have hword := (sizeWord_spec raw (Nat.le_trans hs.small hl)).1
      have hsm := hs.small
      have ht := ih hr
      rw [diskLen] at ht ⊢
      rw [map_cons, sum_cons, flatten_cons, length_append, hword]
      omega

theorem DataHolds.words_lt : ∀ word ∈ words, word < 256 ^ 4 := by
  induction words generalizing pos blocks with
  | nil => nofun
  | cons word words ih =>
    cases blocks with
    | nil => exact h.elim
    | cons block blocks =>
      obtain ⟨⟨stored, raw, rfl, hs, hl, _⟩, hr⟩ := h
      intro w hw
      rcases mem_cons.mp hw with rfl | hw
      · exact (sizeWord_spec raw (Nat.le_trans hs.small hl)).2.2
      · exact ih hr w hw

end

def Cut (blockSize : Nat) (blocks : List Bytes) : Prop :=
  ∃ full last, blocks = full ++ last ∧ (∀ b ∈ full, b.length = blockSize) ∧ last.length ≤ 1 ∧
    ∀ b ∈ last, b.length < blockSize

theorem Cut.tail (h : Cut blockSize (block :: blocks)) :
    block.length = min blockSize (block :: blocks).flatten.length ∧ Cut blockSize blocks := by
  obtain ⟨full, last, ha, hf, ho, hl⟩ := h
  cases full with
  | nil =>
    rw [nil_append] at ha
    subst ha
    obtain rfl : blocks = [] :=  length_eq_zero_iff.mp (Nat.le_zero.mp (Nat.le_of_succ_le_succ ho))
    have hs := hl block (mem_singleton_self _)
    refine ⟨?_, [], [], rfl, nofun, by simp, nofun⟩
    rw [flatten_singleton]
    omega
  | cons b full =>
    rw [cons_append, List.cons.injEq] at ha
    obtain ⟨rfl, rfl⟩ := ha
    have hbl := hf block (.head _)
    refine ⟨?_, full, last, rfl, fun b hb => hf b (.tail _ hb), ho, hl⟩
    rw [flatten_cons, length_append]
    omega

theorem readData_of_holds (h : DataHolds expand img pos words blocks)
    (hc : Cut blockSize blocks) :
    readData expand img blockSize pos words blocks.flatten.length = some blocks.flatten := by
  induction words generalizing pos blocks with
  | nil =>
    cases blocks with
    | nil => rfl
    | cons block blocks => exact h.elim
  | cons word words ih =>
    cases blocks with
    | nil => exact h.elim
    | cons block blocks =>
      obtain ⟨⟨stored, raw, rfl, hs, hl, after, ha⟩, hr⟩ := h
      obtain ⟨hsi, hra, _⟩ := sizeWord_spec raw (Nat.le_trans hs.small hl)
      obtain ⟨hb, hc'⟩ := hc.tail
      have hn := ih hr hc'
      have hle : (block :: blocks).flatten.length - block.length = blocks.flatten.length := by
        rw [flatten_cons, length_append]
        omega
      rw [readData, ← ha, hsi, readBytes_append rfl]
      simp only [Option.bind_eq_bind, Option.bind_some, hra, hs.unpacks]
      rw [if_pos hb, hle, ← hsi, hn]
      rfl

end Data

structure FileHolds (expand : Bytes → Option Bytes) (blockSize : Nat) (out : Bytes)
    (start : Nat) (sizes : List Nat) (size : Nat) (data : Bytes) : Prop where
  blocks : ∃ blocks, DataHolds expand out start sizes blocks ∧ Cut blockSize blocks ∧
    blocks.flatten = data
  size : size = data.length
  start : superblockSize ≤ start

inductive KindHolds (expand : Bytes → Option Bytes) (blockSize : Nat) (out : Bytes) :
    Kind → Body → Prop
  | file {start sizes size data} (h : FileHolds expand blockSize out start sizes size data) :
    KindHolds expand blockSize out (.file start sizes size) (.file data)
  | dir : KindHolds expand blockSize out .dir .dir
  | symlink (t : Bytes) : KindHolds expand blockSize out (.symlink t) (.symlink t)
  | hardlink (t : Bytes) : KindHolds expand blockSize out (.hardlink t) (.hardlink t)
  | charDev (major minor : UInt32) :
    KindHolds expand blockSize out (.charDev major minor) (.charDev major minor)
  | blockDev (major minor : UInt32) :
    KindHolds expand blockSize out (.blockDev major minor) (.blockDev major minor)
  | fifo : KindHolds expand blockSize out .fifo .fifo
  | socket : KindHolds expand blockSize out .socket .socket

structure EntryHolds (expand : Bytes → Option Bytes) (blockSize : Nat) (out : Bytes) (e : Entry)
    (i : Item) : Prop where
  path : e.path = i.path
  attrs : e.attrs = i.attrs
  kind : KindHolds expand blockSize out e.kind i.body

structure SoundItems (items : List Item) : Prop where
  nodup : (items.map Item.path).Nodup
  valid : ∀ i ∈ items, ∃ cs, cs ≠ [] ∧ Canonical cs ∧ i.path = render cs
  links : ∀ i ∈ items, ∀ t, i.body = .hardlink t → ∃ j ∈ items, j.path = t ∧ ∃ d, j.body = .file d

structure Settled (expand : Bytes → Option Bytes) (w : Writer) (items : List Item) : Prop where
  opened : w.closed = false
  idle : w.curFile = none
  entries : List.Forall₂ (EntryHolds expand w.cfg.blockSize w.out) w.entries items
  sound : SoundItems items
  start : superblockSize ≤ w.out.length
  tail : w.out.length = superblockSize ∨ ∃ e ∈ w.entries, ∃ start sizes size,
    e.kind = .file start sizes size ∧ w.out.length = start + diskLen sizes

/-- The last entry is a file that is being written: `done` is in the image. -/
structure Fills (expand : Bytes → Option Bytes) (es : List Entry) (is : List Item) (p : Bytes)
    (a : Attrs) (size : Nat) (w : Writer) (done : Bytes) : Prop where
  opened : w.closed = false
  file : ∃ start sizes blocks, w.entries = es ++ [⟨p, .file start sizes size, a⟩] ∧
    DataHolds expand w.out start sizes blocks ∧ (∀ b ∈ blocks, b.length = w.cfg.blockSize) ∧
    blocks.flatten = done ∧ start + diskLen sizes = w.out.length ∧ superblockSize ≤ start
  before : List.Forall₂ (EntryHolds expand w.cfg.blockSize w.out) es is

/-- A file is being written, and the rest of its data is in the buffer. -/
structure Filling (expand : Bytes → Option Bytes) (w : Writer) (items : List Item) : Prop where
  file : ∃ es is p a data done buf, items = is ++ [⟨p, a, .file data⟩] ∧
    Fills expand es is p a data.length w done ∧ done ++ buf = data ∧
    w.curFile = some ⟨p, buf⟩ ∧ buf.length < w.cfg.blockSize
  sound : SoundItems items

def Tells (expand : Bytes → Option Bytes) (w : Writer) (items : List Item) : Prop :=
  Settled expand w items ∨ Filling expand w items

section Calls

variable {a : Attrs} {b : Body} {data done out out' p target : Bytes} {i : Item} {es : List Entry}
    {is items : List Item} {blockSize size : Nat}

theorem KindHolds.mono (hp : out <+: out') (h : KindHolds expand blockSize out k b) :
    KindHolds expand blockSize out' k b := by
  cases h with
  | file h =>
    obtain ⟨blocks, hb, hc, hd⟩ := h.blocks
    exact .file ⟨⟨blocks, hb.mono hp, hc, hd⟩, h.size, h.start⟩
  | dir => exact .dir
  | symlink t => exact .symlink t
  | hardlink t => exact .hardlink t
  | charDev major minor => exact .charDev major minor
  | blockDev major minor => exact .blockDev major minor
  | fifo => exact .fifo
  | socket => exact .socket

theorem entries_mono (hp : out <+: out')
    (h : List.Forall₂ (EntryHolds expand blockSize out) es is) :
    List.Forall₂ (EntryHolds expand blockSize out') es is :=
  h.imp fun _ _ he => ⟨he.path, he.attrs, he.kind.mono hp⟩

theorem paths_eq (h : List.Forall₂ (EntryHolds expand blockSize out) es is) :
    es.map Entry.path = is.map Item.path :=
  (map_eq_of_forall₂ (h.imp fun _ _ he => he.path.symm)).symm

theorem map_last {α β : Type} {path : α → β} [DecidableEq β] {l : List α} {x : α} {f : α → α}
    (h : path x ∉ l.map path) :
    ((l ++ [x]).map fun y => if path y = path x then f y else y) = l ++ [f x] := by
  rw [map_append, map_singleton, if_pos rfl]
  congr 1
  conv_rhs => rw [← map_id l]
  apply map_congr_left
  intro y hy
  have hn : path y ≠ path x := fun he => h (he ▸ mem_map_of_mem hy)
  exact if_neg hn

theorem Fills.fresh (h : Fills expand es is p a size w done)
    (hs : SoundItems (is ++ [⟨p, a, .file data⟩])) : p ∉ es.map Entry.path := by
  have hn := hs.nodup
  rw [map_append, map_singleton, nodup_append] at hn
  rw [paths_eq h.before]
  exact fun hp => hn.2.2 p hp p (mem_singleton_self p) rfl

theorem emitBlock_spec {start : Nat} (hc : w.cfg.compressor.Inverted expand)
    (hw : w.entries = es ++ [⟨p, .file start sizes size, a⟩]) (hp : p ∉ es.map Entry.path)
    (hb : buf ≠ []) (h : emitBlock p w buf = .ok w') :
    ∃ stored raw, Stores expand stored raw buf ∧
      w' = { w with
        out := w.out ++ stored
        entries := es ++ [⟨p, .file start (sizes ++ [sizeWord stored raw]) size, a⟩] } := by
  rw [emitBlock, if_neg hb] at h
  split at h
  · cases h
  rename_i stored raw hpa
  cases h
  refine ⟨stored, raw, pack_stores hc hb hpa, ?_⟩
  have hl := @map_last Entry Bytes Entry.path _ es ⟨p, .file start sizes size, a⟩
    (Entry.addBlock (sizeWord stored raw)) hp
  simp only [Writer.update, hw]
  rw [hl]
  rfl

structure Config.Good (expand : Bytes → Option Bytes) (cfg : Config) : Prop where
  inverted : cfg.compressor.Inverted expand
  least : minBlockSize ≤ cfg.blockSize
  most : cfg.blockSize ≤ maxBlockSize

variable {cfg : Config}

theorem Config.Good.positive (h : cfg.Good expand) : 0 < cfg.blockSize :=
  Nat.lt_of_lt_of_le (by decide) h.least

theorem Fills.emit {b : Bytes} (hc : w.cfg.Good expand) (hp : p ∉ es.map Entry.path)
    (h : Fills expand es is p a size w done) (hb : b.length = w.cfg.blockSize)
    (he : emitBlock p w b = .ok w') :
    Fills expand es is p a size w' (done ++ b) ∧ w'.cfg = w.cfg := by
  obtain ⟨start, sizes, blocks, hen, hd, hf, rfl, hend, hs⟩ := h.file
  have hn : b ≠ [] := length_pos_iff.mp (hb ▸ hc.positive)
  obtain ⟨stored, raw, hst, rfl⟩ := emitBlock_spec hc.inverted hen hp hn he
  have hl : b.length ≤ maxBlockSize := hb ▸ hc.most
  have hsi := (sizeWord_spec raw (Nat.le_trans hst.small hl)).1
  refine ⟨⟨h.opened, ⟨start, sizes ++ [sizeWord stored raw], blocks ++ [b], rfl,
    hd.concat hst hl hend, ?_, by simp, ?_, hs⟩,
    entries_mono (prefix_append ..) h.before⟩, rfl⟩
  · intro x hx
    rcases mem_append.mp hx with hx | hx
    · exact hf x hx
    · rw [mem_singleton.mp hx]
      exact hb
  · rw [length_append, ← hend, ← hsi, diskLen, diskLen, map_append, sum_append,
      map_singleton, sum_singleton, Nat.add_assoc]

theorem SoundItems.append (h : SoundItems (is ++ [⟨p, a, .file d⟩])) :
    SoundItems (is ++ [⟨p, a, .file (d ++ data)⟩]) := by
  have hp : (is ++ [(⟨p, a, .file (d ++ data)⟩ : Item)]).map Item.path =
      (is ++ [(⟨p, a, .file d⟩ : Item)]).map Item.path := by simp
  refine ⟨hp ▸ h.nodup, fun i hi => ?_, fun i hi t ht => ?_⟩
  · rcases mem_append.mp hi with hi | hi
    · exact h.valid i (mem_append_left _ hi)
    · rw [mem_singleton.mp hi]
      exact h.valid ⟨p, a, .file d⟩ (mem_append_right _ (mem_singleton_self _))
  rcases mem_append.mp hi with hi | hi
  · obtain ⟨j, hj, hjt, hf⟩ := h.links i (mem_append_left _ hi) t ht
    rcases mem_append.mp hj with hj | hj
    · exact ⟨j, mem_append_left _ hj, hjt, hf⟩
    · rw [mem_singleton.mp hj] at hjt
      exact ⟨_, mem_append_right _ (mem_singleton_self _), hjt, _, rfl⟩
  · rw [mem_singleton.mp hi] at ht
    cases ht

theorem Filling.write (hc : w.cfg.Good expand) (hw : Filling expand w items)
    (h : w.write p data = .ok w') :
    Filling expand w' (itemsAfter items (.write p data)) ∧ w'.cfg = w.cfg := by
  obtain ⟨es, is, q, a, d, done, buf, rfl, hf, hd, hcu, hr⟩ := hw.file
  have hso := hw.sound
  have hp := hf.fresh hso
  unfold Writer.write at h
  rw [hcu] at h
  dsimp only at h
  split at h
  · cases h
  rename_i hq
  obtain rfl : q = p := Classical.not_not.mp hq
  split at h
  · cases h
  obtain ⟨⟨w1, buf'⟩, hfe, he⟩ := bind_eq_ok.mp h
  cases he
  obtain ⟨done', ⟨hf', hc'⟩, ha, hr'⟩ := feed_invariant
    (I := fun w' done => Fills expand es is q a d.length w' done ∧ w'.cfg = w.cfg)
    (fun s done b s' ⟨hs, hsc⟩ hb hem => by
      have hn := hs.emit (hsc ▸ hc) hp (hsc ▸ hb) hem
      exact ⟨hn.1, hn.2.trans hsc⟩)
    hr ⟨hf, rfl⟩ hfe
  obtain ⟨start, sizes, blocks, hen, hda, hfu, hdo, hend, hst⟩ := hf'.file
  have hp' : (⟨q, a, .file d⟩ : Item).path ∉ is.map Item.path := by
    rw [← paths_eq hf.before]
    exact hp
  have hi : itemsAfter (is ++ [⟨q, a, .file d⟩]) (.write q data) =
      is ++ [⟨q, a, .file (d ++ data)⟩] :=
    @map_last Item Bytes Item.path _ is ⟨q, a, .file d⟩ (Item.append data) hp'
  have hu := @map_last Entry Bytes Entry.path _ es ⟨q, .file start sizes d.length, a⟩
    (Entry.addSize data.length) hp
  rw [hi]
  refine ⟨⟨⟨es, is, q, a, d ++ data, done', buf', rfl, ⟨hf'.opened, ⟨start, sizes, blocks, ?_,
    hda, hfu, hdo, hend, hst⟩, hf'.before⟩, ?_, rfl, ?_⟩, hso.append⟩, hc'⟩
  · simp only [Writer.update, hen]
    rw [hu, length_append]
    rfl
  · rw [ha, hd]
  · exact hc'.symm ▸ hr'

theorem Cut.of_full (h : ∀ b ∈ blocks, b.length = blockSize) : Cut blockSize blocks :=
  ⟨blocks, [], by simp, h, by simp, nofun⟩

theorem Filling.flush (hc : w.cfg.Good expand) (hw : Filling expand w items)
    (h : flushCurFile w = .ok w') : Settled expand w' items ∧ w'.cfg = w.cfg := by
  obtain ⟨es, is, p, a, d, done, buf, rfl, hf, hd, hcu, hr⟩ := hw.file
  have hp := hf.fresh hw.sound
  obtain ⟨start, sizes, blocks, he, hda, hfu, rfl, hen, hs⟩ := hf.file
  unfold flushCurFile at h
  rw [hcu] at h
  obtain ⟨w1, hem, heq⟩ := bind_eq_ok.mp h
  cases heq
  by_cases hbu : buf = []
  · rw [emitBlock, if_pos hbu] at hem
    cases hem
    rw [hbu, append_nil] at hd
    refine ⟨⟨hf.opened, rfl, ?_, hw.sound, ?_, .inr ⟨⟨p, .file start sizes d.length, a⟩, ?_,
      start, sizes, d.length, rfl, hen.symm⟩⟩, rfl⟩
    · rw [show _ = es ++ _ from he]
      exact rel_append hf.before
        (.cons ⟨rfl, rfl, .file ⟨⟨blocks, hda, .of_full hfu, hd⟩, rfl, hs⟩⟩ .nil)
    · exact Nat.le_trans hs (Nat.le_trans (Nat.le_add_right ..) (Nat.le_of_eq hen))
    · rw [show _ = es ++ _ from he]
      exact mem_append_right _ (mem_singleton_self _)
  · obtain ⟨stored, raw, hst, rfl⟩ := emitBlock_spec hc.inverted he hp hbu hem
    have hl : buf.length ≤ maxBlockSize := Nat.le_trans (Nat.le_of_lt hr) hc.most
    have hsi := (sizeWord_spec raw (Nat.le_trans hst.small hl)).1
    refine ⟨⟨hf.opened, rfl, ?_, hw.sound, ?_, .inr ⟨_, mem_append_right _
      (mem_singleton_self _), start, _, d.length, rfl, ?_⟩⟩, rfl⟩
    · refine rel_append (entries_mono (prefix_append ..) hf.before)
        (.cons ⟨rfl, rfl, .file ⟨⟨blocks ++ [buf], hda.concat hst hl hen,
          ⟨blocks, [buf], rfl, hfu, by simp, fun b hb => ?_⟩, ?_⟩, rfl, hs⟩⟩ .nil)
      · rw [mem_singleton.mp hb]
        exact hr
      · rw [← hd]
        simp
    · rw [length_append, ← hen]
      omega
    · rw [length_append, ← hen, ← hsi, diskLen, diskLen, map_append, sum_append,
        map_singleton, sum_singleton, Nat.add_assoc]

theorem Tells.flush (hc : w.cfg.Good expand) (hw : Tells expand w items)
    (h : flushCurFile w = .ok w') : Settled expand w' items ∧ w'.cfg = w.cfg := by
  rcases hw with hw | hw
  · unfold flushCurFile at h
    rw [hw.idle] at h
    cases h
    exact ⟨hw, rfl⟩
  · exact hw.flush hc h

structure Free (items : List Item) (p : Bytes) : Prop where
  valid : ∃ cs, cs ≠ [] ∧ Canonical cs ∧ p = render cs
  fresh : p ∉ items.map Item.path

theorem Settled.find_none (hw : Settled expand w items) (h : ¬(w.find p).isSome = true) :
    p ∉ items.map Item.path := by
  rw [← paths_eq hw.entries]
  intro hp
  obtain ⟨e, he, rfl⟩ := mem_map.mp hp
  rw [Bool.not_eq_true, Option.isSome_eq_false_iff, Option.isNone_iff_eq_none, Writer.find,
    List.find?_eq_none] at h
  exact h e he (by simp)

theorem beginEntry_spec (hc : w.cfg.Good expand) (hw : Tells expand w items)
    (h : beginEntry w p = .ok w') :
    Settled expand w' items ∧ w'.cfg = w.cfg ∧ Free items p := by
  unfold beginEntry at h
  split at h
  · cases h
  obtain ⟨w1, hf, h⟩ := bind_eq_ok.mp h
  obtain ⟨_, hv, h⟩ := bind_eq_ok.mp h
  obtain ⟨hs, hsa⟩ := hw.flush hc hf
  split at h
  · cases h
  · rename_i hfi
    cases h
    exact ⟨hs, hsa, validatePath_ok_iff.mp hv, hs.find_none hfi⟩

theorem SoundItems.add (h : SoundItems items) (hf : Free items i.path)
    (hl : ∀ t, i.body = .hardlink t → ∃ j ∈ items, j.path = t ∧ ∃ d, j.body = .file d) :
    SoundItems (items ++ [i]) := by
  refine ⟨?_, fun j hj => ?_, fun j hj t ht => ?_⟩
  · rw [map_append, map_singleton, nodup_append]
    refine ⟨h.nodup, pairwise_singleton _ _, fun p hp q hq => ?_⟩
    rw [mem_singleton.mp hq]
    exact fun he => hf.fresh (he ▸ hp)
  · rcases mem_append.mp hj with hj | hj
    · exact h.valid j hj
    · rw [mem_singleton.mp hj]
      exact hf.valid
  have ho : ∃ k ∈ items, k.path = t ∧ ∃ d, k.body = .file d := by
    rcases mem_append.mp hj with hj | hj
    · exact h.links j hj t ht
    · exact hl t (mem_singleton.mp hj ▸ ht)
  obtain ⟨k, hk, hkt, hfi⟩ := ho
  exact ⟨k, mem_append_left _ hk, hkt, hfi⟩

theorem Settled.add (hw : Settled expand w items)
    (he : EntryHolds expand w.cfg.blockSize w.out e i) (hfr : Free items i.path)
    (hl : ∀ t, i.body = .hardlink t → ∃ j ∈ items, j.path = t ∧ ∃ d, j.body = .file d) :
    Settled expand (w.add e) (items ++ [i]) := by
  refine ⟨hw.opened, hw.idle, rel_append hw.entries (.cons he .nil), hw.sound.add hfr hl,
    hw.start, ?_⟩
  rcases hw.tail with ht | ⟨f, hf, hfi⟩
  · exact .inl ht
  · exact .inr ⟨f, mem_append_left _ hf, hfi⟩

section

variable (hc : w.cfg.Good expand) (hw : Tells expand w items)
include hc hw

theorem createPlain_spec (hk : ∀ out, KindHolds expand w.cfg.blockSize out k b) (hb : ∀ t, b ≠ .hardlink t)
    (h : createPlain w p a k = .ok w') :
    Tells expand w' (items ++ [⟨p, a, b⟩]) ∧ w'.cfg = w.cfg := by
  obtain ⟨w1, hbe, he⟩ := bind_eq_ok.mp h
  cases he
  obtain ⟨hs, hsa, hf⟩ := beginEntry_spec hc hw hbe
  refine ⟨.inl (hs.add ⟨rfl, rfl, ?_⟩ hf fun t ht => absurd ht (hb t)), hsa⟩
  rw [hsa]
  exact hk _

theorem createFile_spec (h : createFile w p a = .ok w') :
    Tells expand w' (items ++ [⟨p, a, .file []⟩]) ∧ w'.cfg = w.cfg := by
  obtain ⟨w1, hb, he⟩ := bind_eq_ok.mp h
  cases he
  obtain ⟨hs, hsa, hf⟩ := beginEntry_spec hc hw hb
  refine ⟨.inr ⟨⟨w1.entries, items, p, a, [], [], [], rfl, ⟨hs.opened,
    ⟨w1.out.length, [], [], rfl, trivial, nofun, rfl, rfl, hs.start⟩, hs.entries⟩, rfl,
    rfl, ?_⟩, hs.sound.add hf nofun⟩, hsa⟩
  have hp := hc.positive
  rw [← hsa] at hp
  exact hp

theorem createSymlink_spec (h : createSymlink w p a target = .ok w') :
    Tells expand w' (items ++ [⟨p, a, .symlink target⟩]) ∧ w'.cfg = w.cfg := by
  obtain ⟨w1, hb, h⟩ := bind_eq_ok.mp h
  obtain ⟨hs, hsa, hf⟩ := beginEntry_spec hc hw hb
  split at h
  · cases h
  · cases h
    exact ⟨.inl (hs.add ⟨rfl, rfl, .symlink target⟩ hf nofun), hsa⟩

theorem createHardlink_spec (h : createHardlink w p target = .ok w') :
    Tells expand w' (items ++ [⟨p, .zero, .hardlink target⟩]) ∧ w'.cfg = w.cfg := by
  unfold createHardlink at h
  split at h
  · cases h
  obtain ⟨w1, hf, h⟩ := bind_eq_ok.mp h
  obtain ⟨_, hv, h⟩ := bind_eq_ok.mp h
  obtain ⟨_, _, h⟩ := bind_eq_ok.mp h
  obtain ⟨hs, hsa⟩ := hw.flush hc hf
  split at h
  · cases h
  rename_i hfi
  split at h
  · rename_i q start sizes size a hta
    cases h
    have hq : q = target := by
      have hp := List.find?_some hta
      simpa using hp
    -- The target's entry is an item that is a file.
    have hfil : ∃ j ∈ items, j.path = target ∧ ∃ d, j.body = .file d := by
      obtain ⟨j, hj, hh⟩ := forall₂_of_mem_left hs.entries (mem_of_find?_eq_some hta)
      refine ⟨j, hj, hh.path.symm.trans hq, ?_⟩
      have hk := hh.kind
      generalize j.body = body at hk
      cases hk
      exact ⟨_, rfl⟩
    refine ⟨.inl (hs.add ⟨rfl, rfl, .hardlink target⟩
      ⟨validatePath_ok_iff.mp hv, hs.find_none hfi⟩ fun t ht => ?_), hsa⟩
    cases ht
    exact hfil
  · cases h

end

theorem call_spec {call : Call} (hc : w.cfg.Good expand) (hw : Tells expand w items)
    (h : w.call call = .ok w') : Tells expand w' (itemsAfter items call) ∧ w'.cfg = w.cfg := by
  cases call with
  | file p a => exact createFile_spec hc hw h
  | write p data =>
    rcases hw with hw | hw
    · have hs : w.write p data = .error .staleEntry := by rw [Writer.write, hw.idle]
      rw [show w.write p data = .ok w' from h] at hs
      cases hs
    · obtain ⟨hf, hsa⟩ := hw.write hc h
      exact ⟨.inr hf, hsa⟩
  | dir p a => exact createPlain_spec hc hw (fun _ => .dir) nofun h
  | symlink p a target => exact createSymlink_spec hc hw h
  | hardlink p target => exact createHardlink_spec hc hw h
  | charDevice p a major minor =>
    exact createPlain_spec hc hw (fun _ => .charDev major minor) nofun h
  | blockDevice p a major minor =>
    exact createPlain_spec hc hw (fun _ => .blockDev major minor) nofun h
  | fifo p a => exact createPlain_spec hc hw (fun _ => .fifo) nofun h
  | socket p a => exact createPlain_spec hc hw (fun _ => .socket) nofun h

theorem run_spec (hc : cfg.Good expand) (h : (newWriter cfg).run calls = .ok w) :
    Tells expand w (created calls) ∧ w.cfg = cfg := by
  refine foldlM_invariant (I := fun done w => Tells expand w (created done) ∧ w.cfg = cfg)
    ⟨.inl ?_, rfl⟩ (fun done call _ w w' _ ⟨hw, hs⟩ hca => ?_) h
  · exact ⟨rfl, rfl, .nil, ⟨nodup_nil, nofun, nofun⟩, Nat.le_of_eq (length_replicate).symm,
      .inl length_replicate⟩
  · obtain ⟨hw', hs'⟩ := call_spec (hs ▸ hc) hw hca
    rw [created, foldl_append]
    exact ⟨hw', hs'.trans hs⟩

end Calls

end Craftling.Squashfs

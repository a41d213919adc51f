import Craftling.Squashfs.Format

namespace Craftling.Squashfs
open Effects List Option

def metadataBlockSize : Nat := 8192

/-- A place in a stream: the number of its block, and the offset in what the block holds. -/
structure MetaRef where
  blockIdx : Nat
  offset : Nat
  deriving DecidableEq

structure MetaBlock where
  data : Bytes
  uncompressed : Bool
  deriving DecidableEq

structure MetaWriter where
  table : Table
  cur : Bytes
  blocks : List MetaBlock
  deriving DecidableEq

def newMetaWriter (t : Table) : MetaWriter := ⟨t, [], []⟩

def MetaWriter.ref (m : MetaWriter) : MetaRef := ⟨m.blocks.length, m.cur.length⟩

def MetaWriter.sealCurrent (c : Compressor) (m : MetaWriter) : Except Err MetaWriter :=
  if m.cur = [] then .ok m
  else do
    let (data, raw) ← pack c (.metadata m.table m.blocks.length) m.cur
    return { m with cur := [], blocks := m.blocks ++ [⟨data, raw⟩] }

def MetaWriter.write (c : Compressor) (m : MetaWriter) (p : Bytes) : Except Err MetaWriter := do
  let (m, cur) ←
    feed metadataBlockSize (fun m cur => MetaWriter.sealCurrent c { m with cur }) m m.cur p
  return { m with cur }

def MetaWriter.flush (c : Compressor) (m : MetaWriter) : Except Err MetaWriter := m.sealCurrent c

def byteOffset (blocks : List MetaBlock) (k : Nat) : Nat :=
  ((blocks.take k).map fun b => 2 + b.data.length).sum

def MetaWriter.blockByteOffset (m : MetaWriter) (k : Nat) : Nat := byteOffset m.blocks k

def MetaBlock.header (b : MetaBlock) : Nat :=
  if b.uncompressed then b.data.length ||| 1 <<< 15 else b.data.length

def emitted (blocks : List MetaBlock) : Bytes :=
  blocks.flatMap fun b => leBytes 2 b.header ++ b.data

def MetaWriter.emitTo (m : MetaWriter) : Except Err Bytes :=
  if ∃ b ∈ m.blocks, metadataBlockSize < b.data.length then
    .error (.failed "squashfs: metadata block exceeds 8KiB on-disk size")
  else .ok (emitted m.blocks)

def MetaRef.encode (r : MetaRef) (blockByteOffset : Nat) : Nat := blockByteOffset <<< 16 ||| r.offset

def readMeta (expand : Bytes → Option Bytes) : Nat → Nat → Bytes → Option Bytes
  | _, 0, _ => some []
  | 0, _ + 1, _ => none
  | fuel + 1, need + 1, b => do
    let (h, b) ← readBytes 2 b
    let (stored, b) ← readBytes (leNat h % 32768) b
    let content ← unpack expand stored (32768 ≤ leNat h)
    let rest ← readMeta expand fuel (need + 1 - content.length) b
    return content.take (need + 1) ++ rest

def readAt (expand : Bytes → Option Bytes) (img : Bytes) (pos off n : Nat) : Option Bytes := do
  let b ← readMeta expand (off + n) (off + n) (img.drop pos)
  return b.drop off

section Streams

variable {expand : Bytes → Option Bytes} {c : Compressor} {content p stream : Bytes}
    {contents : List Bytes} {blocks : List MetaBlock} {b : MetaBlock} {m m' : MetaWriter}
    {fuel need : Nat}

def BlocksHold (expand : Bytes → Option Bytes) : List MetaBlock → List Bytes → Prop :=
  List.Forall₂ fun b content =>
    Stores expand b.data b.uncompressed content ∧ content.length ≤ metadataBlockSize

/-- The writer has been given `stream`: its blocks are full, and the rest is in the open one. -/
structure MetaWriter.Holds (expand : Bytes → Option Bytes) (m : MetaWriter) (stream : Bytes) :
    Prop where
  blocks : ∃ contents, BlocksHold expand m.blocks contents ∧
    (∀ content ∈ contents, content.length = metadataBlockSize) ∧
    contents.flatten ++ m.cur = stream
  cur : m.cur.length < metadataBlockSize

theorem newMetaWriter_holds (t : Table) : (newMetaWriter t).Holds expand [] :=
  ⟨⟨[], .nil, nofun, rfl⟩, by simp [newMetaWriter, metadataBlockSize]⟩

theorem length_flatten_full (h : ∀ content ∈ contents, content.length = metadataBlockSize) :
    contents.flatten.length = metadataBlockSize * contents.length := by
  induction contents with
  | nil => rfl
  | cons content contents ih =>
    have hhead := h content (.head _)
    have ht := ih fun x hx => h x (.tail _ hx)
    rw [flatten_cons, length_append, length_cons, hhead, ht, Nat.mul_succ, Nat.add_comm]

def refAt (pos : Nat) : MetaRef := ⟨pos / metadataBlockSize, pos % metadataBlockSize⟩

theorem MetaWriter.Holds.length_blocks (h : m.Holds expand stream) :
    m.blocks.length = stream.length / metadataBlockSize := by
  obtain ⟨contents, hb, hf, rfl⟩ := h.blocks
  have hc := h.cur
  rw [hb.length_eq, length_append, length_flatten_full hf, Nat.mul_add_div (by decide),
    Nat.div_eq_of_lt hc, Nat.add_zero]

theorem MetaWriter.Holds.ref (h : m.Holds expand stream) : m.ref = refAt stream.length := by
  have hl := h.length_blocks
  obtain ⟨contents, hb, hf, rfl⟩ := h.blocks
  have hc := h.cur
  rw [MetaWriter.ref, refAt, hl, length_append, length_flatten_full hf, Nat.mul_add_mod,
    Nat.mod_eq_of_lt hc]

theorem sealCurrent_holds (hc : c.Inverted expand) (hcu : m.cur ≠ [])
    (h : m.sealCurrent c = .ok m') :
    m'.cur = [] ∧ ∃ b, m'.blocks = m.blocks ++ [b] ∧
      Stores expand b.data b.uncompressed m.cur := by
  rw [MetaWriter.sealCurrent, if_neg hcu] at h
  obtain ⟨⟨data, raw⟩, hp, he⟩ := bind_eq_ok.mp h
  cases he
  exact ⟨rfl, ⟨data, raw⟩, rfl, pack_stores hc hcu hp⟩

/-- The bytes `p` have been added: the open block and `p` are in the new blocks, all full, and in the
block that is open now. -/
structure Appends (expand : Bytes → Option Bytes) (m m' : MetaWriter) (p : Bytes) : Prop where
  blocks : ∃ more contents, m'.blocks = m.blocks ++ more ∧ BlocksHold expand more contents ∧
    (∀ content ∈ contents, content.length = metadataBlockSize) ∧
    contents.flatten ++ m'.cur = m.cur ++ p
  cur : m'.cur.length < metadataBlockSize

theorem Appends.refl (h : m.cur.length < metadataBlockSize) : Appends expand m m [] :=
  ⟨⟨[], [], by simp, .nil, nofun, by simp⟩, h⟩

theorem Appends.trans (h : Appends expand m m' p) (h' : Appends expand m' m'' q) :
    Appends expand m m'' (p ++ q) := by
  obtain ⟨more, contents, hm', hb, hf, ha⟩ := h.blocks
  obtain ⟨more', contents', hm'', hb', hf', ha'⟩ := h'.blocks
  refine ⟨⟨more ++ more', contents ++ contents', ?_, rel_append hb hb', ?_, ?_⟩, h'.cur⟩
  · rw [hm'', hm', append_assoc]
  · intro x hx
    rcases mem_append.mp hx with hx | hx
    · exact hf x hx
    · exact hf' x hx
  · rw [flatten_append, append_assoc, ha', ← append_assoc, ha, append_assoc]

theorem MetaWriter.write_appends (hc : c.Inverted expand)
    (hcu : m.cur.length < metadataBlockSize) (h : m.write c p = .ok m') :
    Appends expand m m' p := by
  obtain ⟨⟨m1, cur⟩, hf, he⟩ := bind_eq_ok.mp h
  cases he
  -- What has been handed on is the contents of the new blocks.
  obtain ⟨done, ⟨more, contents, hm, hbl, hfu, hd⟩, ha, hc'⟩ := feed_invariant
      (I := fun m' done => ∃ more contents, m'.blocks = m.blocks ++ more ∧
        BlocksHold expand more contents ∧
        (∀ content ∈ contents, content.length = metadataBlockSize) ∧ contents.flatten = done)
      (fun s done b s' ⟨more, contents, hm, hbl, hfu, hd⟩ hb hs => by
        have hn : b ≠ [] := fun hni => by
          rw [hni] at hb
          exact absurd hb (by decide)
        obtain ⟨_, blk, hs', hst⟩ := sealCurrent_holds (m := { s with cur := b }) hc hn hs
        have hs'' : s'.blocks = s.blocks ++ [blk] := hs'
        refine ⟨more ++ [blk], contents ++ [b], ?_, ?_, ?_, ?_⟩
        · rw [hs'', hm, append_assoc]
        · exact rel_append hbl (.cons ⟨hst, Nat.le_of_eq hb⟩ .nil)
        · intro x hx
          rcases mem_append.mp hx with hx | hx
          · exact hfu x hx
          · rw [mem_singleton.mp hx, hb]
        · rw [flatten_append, hd, flatten_singleton])
      hcu ⟨[], [], by simp, .nil, nofun, rfl⟩ hf
  refine ⟨⟨more, contents, hm, hbl, hfu, ?_⟩, hc'⟩
  rw [hd, ha, flatten_nil, nil_append]

theorem MetaWriter.Holds.appends (hm : m.Holds expand stream) (h : Appends expand m m' p) :
    m'.Holds expand (stream ++ p) ∧ m.blocks <+: m'.blocks := by
  obtain ⟨contents, hb, hf, rfl⟩ := hm.blocks
  obtain ⟨more, contents', hm', hb', hf', ha⟩ := h.blocks
  refine ⟨⟨⟨contents ++ contents', ?_, ?_, ?_⟩, h.cur⟩, ?_⟩
  · rw [hm']
    exact rel_append hb hb'
  · intro x hx
    rcases mem_append.mp hx with hx | hx
    · exact hf x hx
    · exact hf' x hx
  · rw [flatten_append, append_assoc, ha, append_assoc]
  · rw [hm']
    exact prefix_append ..

theorem MetaWriter.Holds.write (hc : c.Inverted expand) (hm : m.Holds expand stream)
    (h : m.write c p = .ok m') : m'.Holds expand (stream ++ p) ∧ m.blocks <+: m'.blocks :=
  hm.appends (m.write_appends hc hm.cur h)

structure Sealed (expand : Bytes → Option Bytes) (blocks : List MetaBlock) (stream : Bytes) :
    Prop where
  contents : ∃ full last, BlocksHold expand blocks (full ++ last) ∧
    (∀ content ∈ full, content.length = metadataBlockSize) ∧ last.length ≤ 1 ∧
    (∀ content ∈ last, content.length < metadataBlockSize) ∧ (full ++ last).flatten = stream

theorem MetaWriter.Holds.flush (hc : c.Inverted expand) (hm : m.Holds expand stream)
    (h : m.flush c = .ok m') : Sealed expand m'.blocks stream ∧ m.blocks <+: m'.blocks := by
  obtain ⟨contents, hb, hf, rfl⟩ := hm.blocks
  have hcu := hm.cur
  by_cases he : m.cur = []
  · rw [MetaWriter.flush, MetaWriter.sealCurrent, if_pos he] at h
    cases h
    refine ⟨⟨contents, [], ?_, hf, by simp, nofun, by rw [he]; simp⟩, prefix_refl _⟩
    rw [append_nil]
    exact hb
  obtain ⟨_, b, hm', hs⟩ := sealCurrent_holds hc he h
  refine ⟨⟨contents, [m.cur], ?_, hf, by simp, ?_, by simp⟩, ?_⟩
  · rw [hm']
    exact rel_append hb (.cons ⟨hs, Nat.le_of_lt hcu⟩ .nil)
  · intro x hx
    rw [mem_singleton.mp hx]
    exact hcu
  · rw [hm']
    exact prefix_append ..

theorem length_emitted (blocks : List MetaBlock) :
    (emitted blocks).length = (blocks.map fun b => 2 + b.data.length).sum := by
  induction blocks with
  | nil => rfl
  | cons b blocks ih =>
    rw [emitted, flatMap_cons, length_append, length_append, length_leBytes,
      map_cons, sum_cons, ← ih, emitted]

theorem emitted_split (blocks : List MetaBlock) (k : Nat) :
    emitted blocks = emitted (blocks.take k) ++ emitted (blocks.drop k) := by
  rw [emitted, emitted, emitted, ← flatMap_append, take_append_drop]

theorem length_emitted_take (blocks : List MetaBlock) (k : Nat) :
    (emitted (blocks.take k)).length = byteOffset blocks k := length_emitted _

theorem byteOffset_stable (h : blocks <+: blocks') (hk : k ≤ blocks.length) :
    byteOffset blocks' k = byteOffset blocks k := by
  obtain ⟨more, rfl⟩ := h
  rw [byteOffset, byteOffset, take_append_of_le_length hk]

theorem header_eq (h : b.data.length < 32768) :
    b.header = b.data.length + if b.uncompressed then 32768 else 0 := by
  rw [MetaBlock.header]
  split
  · exact or_bit h
  · rfl

section

variable (hb : Stores expand b.data b.uncompressed content)
    (hl : content.length ≤ metadataBlockSize)
include hb hl

theorem header_reads :
    leNat (leBytes 2 b.header) % 32768 = b.data.length ∧
      decide (32768 ≤ leNat (leBytes 2 b.header)) = b.uncompressed := by
  have hd : b.data.length < 32768 := Nat.lt_of_le_of_lt (Nat.le_trans hb.small hl) (by decide)
  have hh := header_eq hd
  have hv : leNat (leBytes 2 b.header) = b.header := by
    apply leNat_leBytes
    rw [hh]
    split
    · omega
    · omega
  rw [hv, hh]
  constructor
  · split
    · omega
    · omega
  cases b.uncompressed
  · simp only [Bool.false_eq_true, if_false]
    exact decide_eq_false (by omega)
  · simp

theorem readMeta_cons (hn : 0 < need) :
    readMeta expand (fuel + 1) need (leBytes 2 b.header ++ b.data ++ rest) =
      (readMeta expand fuel (need - content.length) rest).map (content.take need ++ ·) := by
  obtain ⟨hs, hr⟩ := header_reads hb hl
  obtain ⟨need, rfl⟩ : ∃ n, need = n + 1 := ⟨need - 1, by omega⟩
  rw [append_assoc, readMeta, readBytes_append (length_leBytes ..)]
  simp only [bind_eq_bind, bind_some, hs, hr,
    readBytes_append (rfl : b.data.length = _), hb.unpacks]
  cases readMeta expand fuel (need + 1 - content.length) rest with
  | none => rfl
  | some _ => rfl

end

theorem readMeta_blocks (h : BlocksHold expand blocks contents) (hf : need ≤ fuel)
    (hn : need ≤ contents.flatten.length) (rest : Bytes) :
    readMeta expand fuel need (emitted blocks ++ rest) = some (contents.flatten.take need) := by
  induction h generalizing fuel need with
  | nil =>
    obtain rfl : need = 0 := Nat.le_zero.mp hn
    cases fuel with
    | zero => rfl
    | succ fuel => rfl
  | @cons b content blocks contents hb _ ih =>
    obtain ⟨hs, hl⟩ := hb
    have hp := hs.src_nonempty
    rw [flatten_cons, length_append] at hn
    rcases Nat.eq_zero_or_pos need with rfl | hn'
    · cases fuel with
      | zero | succ fuel => rfl
    obtain ⟨fuel, rfl⟩ : ∃ n, fuel = n + 1 := ⟨fuel - 1, by omega⟩
    rw [emitted, flatMap_cons, append_assoc, readMeta_cons hs hl hn', ← emitted,
      ih (by omega) (by omega), flatten_cons, take_append, map_some]

theorem BlocksHold.length_emitted_le (h : BlocksHold expand blocks contents) :
    (emitted blocks).length ≤ contents.flatten.length + 2 * contents.length := by
  induction h with
  | nil => exact Nat.le_refl _
  | @cons b content blocks contents hb _ ih =>
    have hs := hb.1.small
    rw [length_emitted] at ih ⊢
    rw [map_cons, sum_cons, flatten_cons, length_append, length_cons]
    omega

theorem Sealed.length_emitted_le (h : Sealed expand blocks stream) :
    (emitted blocks).length ≤ stream.length + 2 * (stream.length / metadataBlockSize + 1) := by
  obtain ⟨full, last, hb, hf, ho, _, rfl⟩ := h.contents
  have hs := hb.length_emitted_le
  have hc : (full ++ last).length ≤ (full ++ last).flatten.length / metadataBlockSize + 1 := by
    have hb : full.length ≤ (full ++ last).flatten.length / metadataBlockSize := by
      rw [Nat.le_div_iff_mul_le (by decide), flatten_append, length_append,
        length_flatten_full hf, Nat.mul_comm]
      exact Nat.le_add_right ..
    rw [length_append]
    omega
  omega

theorem Sealed.read (h : Sealed expand blocks stream) (hp : pos + n ≤ stream.length)
    (before after : Bytes) :
    readAt expand (before ++ emitted blocks ++ after)
      (before.length + byteOffset blocks (refAt pos).blockIdx) (refAt pos).offset n =
      some ((stream.drop pos).take n) := by
  obtain ⟨full, last, hb, hf, ho, hl, rfl⟩ := h.contents
  have hk : pos / metadataBlockSize ≤ full.length := by
    have hla : last.flatten.length < metadataBlockSize := by
      match last, ho, hl with
      | [], _, _ => decide
      | [t], _, hl =>
        rw [flatten_singleton]
        exact hl t (mem_singleton_self t)
    rw [flatten_append, length_append, length_flatten_full hf] at hp
    apply Nat.le_of_lt_succ
    rw [Nat.div_lt_iff_lt_mul (by decide)]
    simp only [metadataBlockSize] at hp hla ⊢
    omega
  -- The blocks before this one are full.
  have ht : ((full ++ last).take (pos / metadataBlockSize)).flatten.length =
      metadataBlockSize * (pos / metadataBlockSize) := by
    rw [take_append_of_le_length hk,
      length_flatten_full fun x hx => hf x (mem_of_mem_take hx), length_take,
      Nat.min_eq_left hk]
  have hd : (full ++ last).flatten.drop (metadataBlockSize * (pos / metadataBlockSize)) =
      ((full ++ last).drop (pos / metadataBlockSize)).flatten := by
    conv_lhs => rw [← take_append_drop (pos / metadataBlockSize) (full ++ last),
      flatten_append, ← ht, drop_left]
  have hpl : metadataBlockSize * (pos / metadataBlockSize) + pos % metadataBlockSize = pos :=
    Nat.div_add_mod ..
  have hi : (before ++ emitted blocks ++ after).drop
      (before.length + byteOffset blocks (pos / metadataBlockSize)) =
      emitted (blocks.drop (pos / metadataBlockSize)) ++ after := by
    rw [← drop_drop, append_assoc, drop_left,
      emitted_split blocks (pos / metadataBlockSize), append_assoc, ← length_emitted_take,
      drop_left]
  rw [readAt, refAt, hi, readMeta_blocks (forall₂_drop _ hb) (Nat.le_refl _)]
  · rw [← hd, bind_eq_bind, bind_some, drop_take, drop_drop, hpl]
    simp
  · rw [← hd, length_drop]
    dsimp only
    omega

end Streams

end Craftling.Squashfs

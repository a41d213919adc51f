import Craftling.Squashfs.Metadata

namespace Craftling.Squashfs
open Effects List MetaWriter

inductive MetaOp where
  | write (p : Bytes)
  | flush
  deriving DecidableEq

def MetaOp.bytes : MetaOp → Bytes
  | write p => p
  | flush => []

def MetaWriter.act (c : Compressor) (m : MetaWriter) : MetaOp → Except Err MetaWriter
  | .write p => m.write c p
  | .flush => m.flush c

def MetaWriter.run (c : Compressor) (m : MetaWriter) (ops : List MetaOp) : Except Err MetaWriter :=
  ops.foldlM (MetaWriter.act c) m

structure Frame where
  start : Nat
  stored : Bytes
  content : Bytes
  deriving DecidableEq

def readFrames (expand : Bytes → Option Bytes) : Nat → Nat → Bytes → Option (List Frame)
  | 0, _, b => if b = [] then some [] else none
  | fuel + 1, pos, b =>
    if b = [] then some []
    else do
      let (h, b) ← readBytes 2 b
      let (stored, b) ← readBytes (leNat h % 32768) b
      let content ← unpack expand stored (32768 ≤ leNat h)
      let rest ← readFrames expand fuel (pos + (2 + stored.length)) b
      return ⟨pos, stored, content⟩ :: rest

section Runs

variable {expand : Bytes → Option Bytes} {c : Compressor} {p row : Bytes}
    {contents contents' more : List Bytes} {blocks : List MetaBlock} {ops : List MetaOp}
    {m m' : MetaWriter} {pos : Nat}

/-- The sealed blocks hold `contents`, of any sizes, and the open block has room. -/
structure MetaWriter.Carries (expand : Bytes → Option Bytes) (m : MetaWriter)
    (contents : List Bytes) : Prop where
  blocks : BlocksHold expand m.blocks contents
  cur : m.cur.length < metadataBlockSize

theorem newMetaWriter_carries (t : Table) : (newMetaWriter t).Carries expand [] :=
  ⟨.nil, by simp [newMetaWriter, metadataBlockSize]⟩

def RowsGrow (rows rows' : List Bytes) : Prop :=
  ∀ (k : Nat) (row : Bytes), rows[k]? = some row → ∃ row', rows'[k]? = some row' ∧ row <+: row'

theorem RowsGrow.trans (h : RowsGrow a b) (h' : RowsGrow b d) : RowsGrow a d := by
  intro k row hr
  obtain ⟨row', hr', hp⟩ := h k row hr
  obtain ⟨row'', hr'', hp'⟩ := h' k row' hr'
  exact ⟨row'', hr'', hp.trans hp'⟩

theorem RowsGrow.of_head (h : ∃ row', more.head? = some row' ∧ row <+: row') :
    RowsGrow (contents ++ [row]) (contents ++ more) := by
  obtain ⟨row', hm, hp⟩ := h
  intro k r hr
  rcases Nat.lt_or_ge k contents.length with hk | hk
  · rw [List.getElem?_append_left hk] at hr ⊢
    exact ⟨r, hr, prefix_refl _⟩
  rw [List.getElem?_append_right hk] at hr ⊢
  rw [List.getElem?_singleton] at hr
  split at hr
  · rename_i hl
    cases hr
    rw [hl, ← List.head?_eq_getElem?]
    exact ⟨row', hm, hp⟩
  · cases hr

theorem Appends.head (hc : m.cur.length < metadataBlockSize)
    (hf : ∀ content ∈ contents, content.length = metadataBlockSize)
    (ha : contents.flatten ++ m'.cur = m.cur ++ p) :
    ∃ row, (contents ++ [m'.cur]).head? = some row ∧ m.cur ++ p.take 1 <+: row := by
  have hs : m.cur ++ p.take 1 <+: m.cur ++ p := (prefix_append_right_inj _).mpr ( take_prefix 1 p)
  cases contents with
  | nil =>
    simp only [flatten_nil, nil_append] at ha
    exact ⟨m'.cur, rfl, ha ▸ hs⟩
  | cons content contents =>
    refine ⟨content, rfl, ?_⟩
    have hr : content <+: m.cur ++ p := by
      rw [← ha, flatten_cons, append_assoc]
      exact prefix_append ..
    apply prefix_of_prefix_length_le hs hr
    rw [hf content (.head _), length_append, length_take]
    omega

structure MetaWriter.Adds (expand : Bytes → Option Bytes) (m m' : MetaWriter)
    (contents more : List Bytes) (p : Bytes) : Prop where
  carries : m'.Carries expand (contents ++ more)
  kept : m.blocks <+: m'.blocks
  all : more.flatten ++ m'.cur = m.cur ++ p
  head : ∃ row, (more ++ [m'.cur]).head? = some row ∧ m.cur ++ p.take 1 <+: row

theorem MetaWriter.Carries.write (hc : c.Inverted expand) (hm : m.Carries expand contents)
    (h : m.write c p = .ok m') : ∃ more, m.Adds expand m' contents more p := by
  have ha := m.write_appends hc hm.cur h
  obtain ⟨more, news, hmo, hb, hf, hal⟩ := ha.blocks
  refine ⟨news, ⟨?_, ha.cur⟩, ?_, hal, Appends.head hm.cur hf hal⟩
  · rw [hmo]
    exact rel_append hm.blocks hb
  · rw [hmo]
    exact prefix_append ..

theorem MetaWriter.flush_cur (h : m.flush c = .ok m') : m'.cur = [] := by
  rw [MetaWriter.flush, MetaWriter.sealCurrent] at h
  split at h
  · rename_i he
    cases h
    exact he
  obtain ⟨x, _, heq⟩ := bind_eq_ok.mp h
  cases heq
  rfl

theorem MetaWriter.Carries.flush (hc : c.Inverted expand) (hm : m.Carries expand contents)
    (h : m.flush c = .ok m') : ∃ more, m.Adds expand m' contents more [] := by
  have hc' := flush_cur h
  by_cases he : m.cur = []
  · rw [MetaWriter.flush, MetaWriter.sealCurrent, if_pos he] at h
    cases h
    refine ⟨[], ?_, prefix_refl _, by simp, by simp⟩
    rw [append_nil]
    exact hm
  obtain ⟨_, b, hm', hs⟩ := sealCurrent_holds hc he h
  refine ⟨[m.cur], ⟨?_, ?_⟩, ?_, ?_, ?_⟩
  · rw [hm']
    exact rel_append hm.blocks (.cons ⟨hs, Nat.le_of_lt hm.cur⟩ .nil)
  · simp [hc', metadataBlockSize]
  · rw [hm']
    exact prefix_append ..
  · simp [hc']
  · simp

theorem MetaWriter.Carries.act (hc : c.Inverted expand) {op : MetaOp}
    (hm : m.Carries expand contents) (h : m.act c op = .ok m') :
    ∃ more, m.Adds expand m' contents more op.bytes := by
  cases op with
  | write p => exact hm.write hc h
  | flush => exact hm.flush hc h

theorem MetaWriter.Adds.rows (h : m.Adds expand m' contents more p) :
    RowsGrow (contents ++ [m.cur ++ p.take 1]) (contents ++ more ++ [m'.cur]) := by
  rw [append_assoc]
  exact RowsGrow.of_head h.head

theorem RowsGrow.of_longer (contents : List Bytes) (row more : Bytes) :
    RowsGrow (contents ++ [row]) (contents ++ [row ++ more]) :=
  RowsGrow.of_head ⟨row ++ more, rfl, prefix_append ..⟩

theorem MetaWriter.Carries.run (hc : c.Inverted expand) (hm : m.Carries expand contents)
    (h : m.run c ops = .ok m') :
    ∃ more, m'.Carries expand (contents ++ more) ∧ m.blocks <+: m'.blocks ∧
      more.flatten ++ m'.cur = m.cur ++ ops.flatMap MetaOp.bytes ∧
      RowsGrow (contents ++ [m.cur]) (contents ++ more ++ [m'.cur]) := by
  induction ops generalizing m contents with
  | nil =>
    cases h
    refine ⟨[], ?_, prefix_refl _, by simp, ?_⟩
    · rw [append_nil]
      exact hm
    · rw [append_nil]
      exact fun k row hr => ⟨row, hr, prefix_refl _⟩
  | cons op ops ih =>
    rw [MetaWriter.run, foldlM_cons] at h
    obtain ⟨m1, ha, hre⟩ := bind_eq_ok.mp h
    obtain ⟨more1, had⟩ := hm.act hc ha
    obtain ⟨more2, hm', hk, hal, hro⟩ := ih had.carries hre
    refine ⟨more1 ++ more2, ?_, had.kept.trans hk, ?_, ?_⟩
    · rw [← append_assoc]
      exact hm'
    · rw [flatten_append, append_assoc, hal, ← append_assoc, had.all, flatMap_cons, append_assoc]
    · rw [← append_assoc contents]
      exact ((RowsGrow.of_longer contents m.cur (op.bytes.take 1)).trans had.rows).trans hro

section

variable (hc : c.Inverted expand) (m : MetaWriter)
include hc

theorem sealCurrent_total : ∃ m', m.sealCurrent c = .ok m' := by
  rw [MetaWriter.sealCurrent]
  split
  · exact ⟨m, rfl⟩
  rename_i hcu
  obtain ⟨x, hx⟩ := pack_total hc (.metadata m.table m.blocks.length) hcu
  exact ⟨_, bind_eq_ok.mpr ⟨x, hx, rfl⟩⟩

theorem MetaWriter.write_total (p : Bytes) : ∃ m', m.write c p = .ok m' := by
  obtain ⟨x, hx⟩ : ∃ x, feed metadataBlockSize
      (fun m cur => MetaWriter.sealCurrent c { m with cur }) m m.cur p = .ok x := by
    apply feed_total (P := fun _ => True) _ trivial
    intro s b _ _
    obtain ⟨m', hm'⟩ := sealCurrent_total hc { s with cur := b }
    exact ⟨m', hm', trivial⟩
  exact ⟨_, bind_eq_ok.mpr ⟨x, hx, rfl⟩⟩

theorem MetaWriter.run_total (ops : List MetaOp) : ∃ m', m.run c ops = .ok m' := by
  refine foldlM_total (fun m op => ?_) ops m
  cases op with
  | write p => exact m.write_total hc p
  | flush => exact sealCurrent_total hc m

end

theorem MetaWriter.run_append (m : MetaWriter) (ops ops' : List MetaOp) :
    m.run c (ops ++ ops') = m.run c ops >>= fun m' => m'.run c ops' :=
  foldlM_append ..

theorem BlocksHold.small (h : BlocksHold expand blocks contents) :
    ∀ b ∈ blocks, b.data.length ≤ metadataBlockSize := by
  intro b hb
  obtain ⟨content, _, hs, hl⟩ := forall₂_of_mem_left h hb
  exact Nat.le_trans hs.small hl

theorem BlocksHold.emitTo (h : BlocksHold expand m.blocks contents) :
    m.emitTo = .ok (emitted m.blocks) := by
  apply if_neg
  rintro ⟨b, hb, hl⟩
  exact absurd (h.small b hb) (Nat.not_le.mpr hl)

def framesFrom (pos : Nat) : List MetaBlock → List Bytes → List Frame
  | b :: blocks, content :: contents =>
    ⟨pos, b.data, content⟩ :: framesFrom (pos + (2 + b.data.length)) blocks contents
  | _, _ => []

section

variable (h : BlocksHold expand blocks contents)
include h

theorem readFrames_emitted (pos : Nat)
    (hf : blocks.length ≤ fuel) :
    readFrames expand fuel pos (emitted blocks) = some (framesFrom pos blocks contents) := by
  induction h generalizing pos fuel with
  | nil => cases fuel <;> rfl
  | @cons b content blocks contents hb _ ih =>
    obtain ⟨hs, hl⟩ := hb
    obtain ⟨hsi, hr⟩ := header_reads hs hl
    obtain ⟨fuel, rfl⟩ : ∃ n, fuel = n + 1 := ⟨fuel - 1, by simp at hf; omega⟩
    have hre := ih (pos + (2 + b.data.length)) (Nat.le_of_succ_le_succ hf)
    have hn : leBytes 2 b.header ++ b.data ++ emitted blocks ≠ [] := by
      simp [hs.nonempty]
    rw [emitted, flatMap_cons, ← emitted, readFrames, if_neg hn, append_assoc,
      readBytes_append (length_leBytes ..)]
    simp only [Option.bind_eq_bind, Option.bind_some, hsi, hr,
      readBytes_append (rfl : b.data.length = _), hs.unpacks, hre]
    rfl

theorem map_content_framesFrom :
    (framesFrom pos blocks contents).map Frame.content = contents := by
  induction h generalizing pos with
  | nil => rfl
  | cons _ _ ih => simp [framesFrom, ih]

theorem stored_framesFrom :
    ∀ f ∈ framesFrom pos blocks contents, f.stored.length ≤ metadataBlockSize := by
  induction h generalizing pos with
  | nil => simp [framesFrom]
  | cons hb _ ih =>
    intro f hf
    rcases mem_cons.mp hf with rfl | hf
    · exact Nat.le_trans hb.1.small hb.2
    · exact ih f hf

end

theorem framesFrom_start (pos : Nat) (h : BlocksHold expand blocks contents)
    (hr : contents[k]? = some row) :
    ∃ f, (framesFrom pos blocks contents)[k]? = some f ∧ f.start = pos + byteOffset blocks k ∧
      f.content = row := by
  induction h generalizing pos k with
  | nil => simp at hr
  | @cons b content blocks contents _ _ ih =>
    cases k with
    | zero =>
      simp only [List.getElem?_cons_zero, Option.some.injEq] at hr
      exact ⟨_, rfl, rfl, hr⟩
    | succ k =>
      rw [List.getElem?_cons_succ] at hr
      obtain ⟨f, hf, hs, hc⟩ := ih (pos + (2 + b.data.length)) hr
      refine ⟨f, hf, ?_, hc⟩
      simp only [hs, byteOffset, take_succ_cons, map_cons, sum_cons]
      omega

theorem length_blocks_le_emitted (blocks : List MetaBlock) :
    blocks.length ≤ (emitted blocks).length := by
  rw [length_emitted]
  induction blocks with
  | nil => exact Nat.le_refl _
  | cons b blocks ih =>
    rw [map_cons, sum_cons, length_cons]
    omega

theorem blocksHold_unique (h : BlocksHold expand blocks contents)
    (h' : BlocksHold expand blocks contents') : contents = contents' := by
  induction h generalizing contents' with
  | nil =>
    cases h'
    rfl
  | cons hb _ ih =>
    cases h' with
    | cons hb' hr =>
      have hs := Option.some.inj (hb.1.unpacks.symm.trans hb'.1.unpacks)
      rw [hs, ih hr]

theorem MetaWriter.Carries.referenced (hc : c.Inverted expand) (hp : p ≠ [])
    (hm : m.Carries expand contents) (h : m.run c (.write p :: ops) = .ok m')
    (hm' : BlocksHold expand m'.blocks contents') (hcu : m'.cur = []) :
    ∃ row, contents'[m.ref.blockIdx]? = some row ∧ row[m.ref.offset]? = p.head? := by
  rw [MetaWriter.run, foldlM_cons] at h
  obtain ⟨m1, hw, hr⟩ := bind_eq_ok.mp h
  obtain ⟨more1, ha⟩ := hm.write hc hw
  obtain ⟨more2, hca, _, _, hro⟩ := ha.carries.run hc hr
  have hs : contents ++ more1 ++ more2 = contents' := blocksHold_unique hca.blocks hm'
  -- The row that the write begins in is not the empty open block at the end.
  obtain ⟨row, hrow, hpr⟩ := ha.rows.trans hro contents.length (m.cur ++ p.take 1) (by simp)
  rw [hs, hcu] at hrow
  obtain ⟨b, p, rfl⟩ := exists_cons_of_ne_nil hp
  have hl : contents.length < contents'.length := by
    by_contra hg
    rw [List.getElem?_append_right (Nat.le_of_not_lt hg), List.getElem?_singleton] at hrow
    split at hrow
    · cases hrow
      simp at hpr
    · cases hrow
  rw [List.getElem?_append_left hl] at hrow
  refine ⟨row, ?_, ?_⟩
  · rw [MetaWriter.ref, hm.blocks.length_eq]
    exact hrow
  · obtain ⟨rest, rfl⟩ := hpr
    simp [MetaWriter.ref]

/-- The writes and the final flush go through, and the emitted stream is read as blocks of at most
8192 stored bytes that hold all that was written. A reference taken before a write tells the block
and the offset of its first byte, and whenever the block is looked up from then on, its header is
found. -/
theorem metadata_references_stay (hc : c.Inverted expand) (t : Table) (ops : List MetaOp) :
    ∃ m bytes frames, (newMetaWriter t).run c (ops ++ [.flush]) = .ok m ∧ m.emitTo = .ok bytes ∧
      readFrames expand bytes.length 0 bytes = some frames ∧
      (∀ f ∈ frames, f.stored.length ≤ metadataBlockSize) ∧
      (frames.map Frame.content).flatten = ops.flatMap MetaOp.bytes ∧
      ∀ before p after, ops ++ [.flush] = before ++ .write p :: after → p ≠ [] →
        ∃ m0 f, (newMetaWriter t).run c before = .ok m0 ∧
          frames[m0.ref.blockIdx]? = some f ∧ m0.ref.offset < metadataBlockSize ∧
          f.content[m0.ref.offset]? = p.head? ∧
          ∀ later, later <+: .write p :: after →
            ∃ m1, (newMetaWriter t).run c (before ++ later) = .ok m1 ∧
              m0.ref.blockIdx ≤ m1.blocks.length ∧
              m1.blockByteOffset m0.ref.blockIdx = f.start := by
  obtain ⟨m, hm⟩ := (newMetaWriter t).run_total hc (ops ++ [.flush])
  obtain ⟨contents, hcarries, _, hall, _⟩ := (newMetaWriter_carries t).run hc hm
  rw [nil_append] at hcarries
  have hblocks := hcarries.blocks
  have hcur : m.cur = [] := by
    rw [run_append] at hm
    obtain ⟨m', _, hlast⟩ := bind_eq_ok.mp hm
    rw [MetaWriter.run, foldlM_cons] at hlast
    obtain ⟨m'', hflush, hnil⟩ := bind_eq_ok.mp hlast
    cases hnil
    exact flush_cur hflush
  refine ⟨m, emitted m.blocks, framesFrom 0 m.blocks contents, hm, hblocks.emitTo,
    readFrames_emitted hblocks 0 (length_blocks_le_emitted _), stored_framesFrom hblocks, ?_, ?_⟩
  · rw [map_content_framesFrom hblocks]
    simpa [hcur, newMetaWriter, MetaOp.bytes] using hall
  intro before p after hops hp
  rw [hops, run_append] at hm
  obtain ⟨m0, hm0, hrest⟩ := bind_eq_ok.mp hm
  obtain ⟨contents0, hcarries0, _, _, _⟩ := (newMetaWriter_carries t).run hc hm0
  obtain ⟨row, hrow, hfirst⟩ := hcarries0.referenced hc hp hrest hblocks hcur
  obtain ⟨f, hf, hstart, rfl⟩ := framesFrom_start 0 hblocks hrow
  refine ⟨m0, f, hm0, hf, hcarries0.cur, hfirst, ?_⟩
  rintro later ⟨others, hlater⟩
  -- The state in which the block is looked up is on the way to the end.
  rw [← hlater, run_append] at hrest
  obtain ⟨m1, hm1, hend⟩ := bind_eq_ok.mp hrest
  obtain ⟨_, hcarries1, hkept, _⟩ := hcarries0.run hc hm1
  obtain ⟨_, _, hkept', _⟩ := hcarries1.run hc hend
  refine ⟨m1, ?_, hkept.length_le, ?_⟩
  · rw [run_append, hm0]
    exact hm1
  · rw [hstart, Nat.zero_add]
    exact (byteOffset_stable hkept' hkept.length_le).symm

end Runs

/-- The first byte of the second write is found, looked up when it has just been written. -/
theorem second_write_referenced : ∃ (m0 m1 : MetaWriter) (f : Frame),
      (newMetaWriter .inode).run rawCompressor [.write [1, 2], .flush] = .ok m0 ∧
      (newMetaWriter .inode).run rawCompressor [.write [1, 2], .flush, .write [3]] = .ok m1 ∧
      m1.blockByteOffset m0.ref.blockIdx = f.start ∧ f.content[m0.ref.offset]? = some 3 := by
  obtain ⟨_, _, frames, _, _, _, _, _, hrefs⟩ := metadata_references_stay
    (rawCompressor_inverted fun _ => none) .inode [.write [1, 2], .flush, .write [3]]
  obtain ⟨m0, f, hm0, _, _, hfirst, hlater⟩ := hrefs [.write [1, 2], .flush] [3] [.flush] rfl (by simp)
  obtain ⟨m1, hm1, _, hstart⟩ := hlater [.write [3]] ⟨[.flush], rfl⟩
  exact ⟨m0, m1, f, hm0, hm1, hstart, hfirst⟩

end Craftling.Squashfs

import Craftling.Squashfs.RoundTrip

namespace Craftling.Squashfs
open Effects List Entry

def Writer.writeAll (w : Writer) (p : Bytes) (chunks : List Bytes) : Except Err Writer :=
  chunks.foldlM (fun w data => w.write p data) w

/-- The file at `p` can be written, and its buffer has room. -/
structure Open (w : Writer) (p buf : Bytes) : Prop where
  opened : w.closed = false
  current : w.curFile = some ⟨p, buf⟩
  room : buf.length < w.cfg.blockSize

variable {buf p : Bytes} {w w' : Writer}

theorem Open.write_eq (h : Open w p buf) (data : Bytes) :
    w.write p data = feed w.cfg.blockSize (emitBlock p) w buf data >>= fun x =>
      .ok { x.1.update p (Entry.addSize data.length) with curFile := some ⟨p, x.2⟩ } := by
  unfold Writer.write
  rw [h.current]
  dsimp only
  rw [if_neg (by simp), if_neg (by simp [h.opened])]
  rfl

theorem Entry.addSize_addSize (n m : Nat) (e : Entry) :
    (e.addSize n).addSize m = e.addSize (n + m) := by
  cases e with
  | mk path kind attrs =>
    cases kind <;> simp [Entry.addSize, Nat.add_assoc]

theorem Entry.addSize_zero (e : Entry) : e.addSize 0 = e := by
  cases e with
  | mk path kind attrs => cases kind <;> rfl

theorem Entry.addBlock_addSize (word n : Nat) (e : Entry) :
    (e.addSize n).addBlock word = (e.addBlock word).addSize n := by
  cases e with
  | mk path kind attrs => cases kind <;> rfl

theorem Entry.addSize_path (n : Nat) (e : Entry) : (e.addSize n).path = e.path := by
  cases e with
  | mk path kind attrs => cases kind <;> rfl

theorem Entry.addBlock_path (word : Nat) (e : Entry) : (e.addBlock word).path = e.path := by
  cases e with
  | mk path kind attrs => cases kind <;> rfl

theorem Writer.update_update (hf : ∀ e, (f e).path = e.path) :
    (w.update p f).update p g = w.update p fun e => g (f e) := by
  simp only [Writer.update, map_map]
  congr 1
  apply map_congr_left
  intro e _
  by_cases he : e.path = p
  · simp [he, hf]
  · simp [he]

def Writer.grown (w : Writer) (p buf : Bytes) (n : Nat) : Writer :=
  { w.update p (Entry.addSize n) with curFile := some ⟨p, buf⟩ }

theorem emitBlock_grown (p buf : Bytes) (n : Nat) (w : Writer) (b : Bytes) :
    emitBlock p (w.grown p buf n) b = (emitBlock p w b).map fun w => w.grown p buf n := by
  unfold emitBlock
  split
  · rfl
  have hc : (w.grown p buf n).cfg = w.cfg := rfl
  have ho : (w.grown p buf n).out = w.out := rfl
  rw [hc, ho]
  cases pack w.cfg.compressor (.data w.out.length) b with
  | error e => rfl
  | ok stored =>
    have hco : (w.update p (Entry.addSize n)).update p (Entry.addBlock (sizeWord stored.1 stored.2)) =
        (w.update p (Entry.addBlock (sizeWord stored.1 stored.2))).update p (Entry.addSize n) := by
      rw [Writer.update_update (addSize_path n), Writer.update_update (addBlock_path _)]
      simp only [addBlock_addSize]
    have he := congrArg Writer.entries hco
    simp only [Except.map, Writer.grown, Writer.update] at he ⊢
    rw [he]

theorem emitBlock_same (h : emitBlock p w b = .ok w') : w'.cfg = w.cfg ∧ w'.closed = w.closed := by
  unfold emitBlock at h
  split at h
  · cases h
    exact ⟨rfl, rfl⟩
  split at h
  · cases h
  · cases h
    exact ⟨rfl, rfl⟩

theorem Open.fed (h : Open w p buf)
    (hf : feed w.cfg.blockSize (emitBlock p) w buf a = .ok (w', buf')) (n : Nat) :
    Open (w'.grown p buf' n) p buf' ∧ w'.cfg = w.cfg := by
  have hk : ∀ s (done b : Bytes) s', s.cfg = w.cfg ∧ s.closed = w.closed →
      b.length = w.cfg.blockSize → emitBlock p s b = .ok s' →
      s'.cfg = w.cfg ∧ s'.closed = w.closed := by
    rintro s _ b s' ⟨hc, hcl⟩ _ he
    obtain ⟨hc', hcl'⟩ := emitBlock_same he
    exact ⟨hc'.trans hc, hcl'.trans hcl⟩
  obtain ⟨_, ⟨hc, hcl⟩, _, hr⟩ := @feed_invariant _ _ _ _ _
    (fun s (_ : Bytes) => s.cfg = w.cfg ∧ s.closed = w.closed) hk w w' buf buf' a [] h.room
    ⟨rfl, rfl⟩ hf
  exact ⟨⟨hcl.trans h.opened, rfl, show buf'.length < w'.cfg.blockSize from hc ▸ hr⟩, hc⟩

theorem Open.write_write (h : Open w p buf) (a b : Bytes) :
    (w.write p a >>= fun w => w.write p b) = w.write p (a ++ b) := by
  rw [h.write_eq, h.write_eq, feed_append h.room, bind_assoc, bind_assoc]
  cases hf : feed w.cfg.blockSize (emitBlock p) w buf a with
  | error e => rfl
  | ok x =>
    obtain ⟨ho, hc⟩ := h.fed hf a.length
    have hs := ho.write_eq b
    have hm := feed_map (n := w.cfg.blockSize) (emitBlock_grown p x.2 a.length) x.1 x.2 b
    rw [show (x.1.grown p x.2 a.length).cfg = w.cfg from hc, hm] at hs
    refine (show _ = (x.1.grown p x.2 a.length).write p b from rfl).trans (hs.trans ?_)
    show _ = feed w.cfg.blockSize (emitBlock p) x.1 x.2 b >>= _
    cases feed w.cfg.blockSize (emitBlock p) x.1 x.2 b with
    | error e => rfl
    | ok y =>
      have he : (y.1.update p (Entry.addSize a.length)).update p (Entry.addSize b.length) =
          y.1.update p (Entry.addSize (a ++ b).length) := by
        rw [Writer.update_update (addSize_path _), length_append]
        simp only [addSize_addSize]
      have hfi := congrArg Writer.entries he
      simp only [Except.map, bind, Except.bind, Writer.grown, Writer.update] at hfi ⊢
      rw [hfi]

theorem Open.write_nil (h : Open w p buf) : w.write p [] = .ok w := by
  rw [h.write_eq, feed, if_pos (.inl rfl)]
  have hs : w.entries.map (fun e => if e.path = p then e.addSize 0 else e) = w.entries := by
    conv_rhs => rw [← map_id w.entries]
    apply map_congr_left
    intro e _
    simp [addSize_zero]
  simp only [bind, Except.bind, Writer.update, length_nil, hs, ← h.current]

theorem Open.writeAll_eq (h : Open w p buf) (chunks : List Bytes) :
    w.writeAll p chunks = w.write p chunks.flatten := by
  induction chunks generalizing w buf with
  | nil => exact h.write_nil.symm
  | cons a chunks ih =>
    rw [flatten_cons, ← h.write_write, Writer.writeAll, foldlM_cons, h.write_eq, bind_assoc,
      bind_assoc]
    cases hf : feed w.cfg.blockSize (emitBlock p) w buf a with
    | error e => rfl
    | ok x => exact ih (h.fed hf a.length).1

structure StoredBlock where
  stored : Bytes
  raw : Bool
  block : Bytes

def StoredBlock.word (b : StoredBlock) : Nat := sizeWord b.stored b.raw

/-- The size word gives the length of what is stored, and says if that is the block itself. What is
stored gives the block back. -/
structure StoredBlock.Valid (expand : Bytes → Option Bytes) (b : StoredBlock) : Prop where
  size : b.word % 2 ^ 24 = b.stored.length
  flag : 2 ^ 24 ≤ b.word ↔ b.raw = true
  own : b.raw = true ↔ b.stored = b.block
  back : unpack expand b.stored b.raw = some b.block

theorem pack_raw {src stored : Bytes} (h : pack c i src = .ok (stored, raw)) :
    raw = true ↔ stored = src := by
  unfold pack at h
  split at h
  · cases h
    exact ⟨fun _ => rfl, fun _ => rfl⟩
  · cases h
  split at h
  · cases h
    exact ⟨fun _ => rfl, fun _ => rfl⟩
  rename_i hs
  cases h
  exact ⟨nofun, fun he => absurd (Nat.le_of_eq (congrArg List.length he).symm) hs⟩

structure Blocks (expand : Bytes → Option Bytes) (blockSize : Nat) (data : Bytes)
    (sizes : List Nat) (content : Bytes) (bs : List StoredBlock) : Prop where
  valid : ∀ b ∈ bs, b.Valid expand
  contiguous : (bs.map StoredBlock.stored).flatten = data
  words : bs.map StoredBlock.word = sizes
  whole : (bs.map StoredBlock.block).flatten = content
  cut : Cut blockSize (bs.map StoredBlock.block)
  count : bs.length = blockCount content.length blockSize

theorem flatten_length_eq {bs : List Bytes} (h : ∀ b ∈ bs, b.length = n) :
    bs.flatten.length = n * bs.length := by
  induction bs with
  | nil => rfl
  | cons b bs ih =>
    rw [flatten_cons, length_append, h b (.head _),
      ih fun x hx => h x (.tail _ hx), length_cons, Nat.mul_succ, Nat.add_comm]

theorem Cut.count {blockSize : Nat} (h : Cut blockSize blocks) (hp : 0 < blockSize)
    (hn : ∀ b ∈ blocks, 0 < b.length) :
    blocks.length = blockCount blocks.flatten.length blockSize := by
  obtain ⟨full, last, rfl, hf, ho, hl⟩ := h
  rw [length_append, blockCount, flatten_append, length_append, flatten_length_eq hf]
  cases last with
  | nil =>
    simp only [flatten_nil, length_nil, Nat.add_zero]
    rw [Nat.add_sub_assoc hp, Nat.mul_add_div hp, Nat.div_eq_of_lt (Nat.sub_lt hp Nat.one_pos),
      Nat.add_zero]
  | cons b last =>
    obtain rfl : last = [] := length_eq_zero_iff.mp (Nat.le_zero.mp (Nat.le_of_succ_le_succ ho))
    have hs := hl b (mem_singleton_self _)
    have hb := hn b (by simp)
    rw [flatten_singleton, length_singleton]
    have hr : blockSize * full.length + b.length + blockSize - 1 =
        blockSize * (full.length + 1) + (b.length - 1) := by
      rw [Nat.mul_succ]
      omega
    rw [hr, Nat.mul_add_div hp, Nat.div_eq_of_lt (by omega), Nat.add_zero]

section Written

variable {expand : Bytes → Option Bytes} {w : Writer} {p : Bytes} {a : Attrs}
    {before block : Bytes} {es : List Entry}

structure Emitted (w : Writer) (es : List Entry) (p : Bytes) (a : Attrs) (before : Bytes) (size : Nat)
    (bs : List StoredBlock) : Prop where
  entries : w.entries =
    es ++ [⟨p, .file before.length (bs.map StoredBlock.word) size, a⟩]
  out : w.out = before ++ (bs.map StoredBlock.stored).flatten

theorem Emitted.emit (hc : w.cfg.Good expand) (hp : p ∉ es.map Entry.path)
    (h : Emitted w es p a before size bs) (hn : block ≠ []) (hl : block.length ≤ w.cfg.blockSize) :
    ∃ w' b, emitBlock p w block = .ok w' ∧ w'.cfg = w.cfg ∧ w'.closed = w.closed ∧
      b.block = block ∧ b.Valid expand ∧ Emitted w' es p a before size (bs ++ [b]) := by
  obtain ⟨⟨stored, raw⟩, hpa⟩ := pack_total hc.inverted (.data w.out.length) hn
  have hs := pack_stores hc.inverted hn hpa
  have hsp := sizeWord_spec raw (Nat.le_trans hs.small (Nat.le_trans hl hc.most))
  have he : emitBlock p w block = .ok
      { w.update p (Entry.addBlock (sizeWord stored raw)) with out := w.out ++ stored } := by
    rw [emitBlock, if_neg hn, hpa]
  have hla := @map_last Entry Bytes Entry.path _ es
    ⟨p, .file before.length (bs.map StoredBlock.word) size, a⟩ (Entry.addBlock (sizeWord stored raw)) hp
  have hf : 2 ^ 24 ≤ sizeWord stored raw ↔ raw = true := ⟨fun hle => hsp.2.1 ▸ decide_eq_true hle,
      fun hr => of_decide_eq_true (hsp.2.1.trans hr)⟩
  refine ⟨_, ⟨stored, raw, block⟩, he, rfl, rfl, rfl, ⟨hsp.1, hf, pack_raw hpa, hs.unpacks⟩, ?_, ?_⟩
  · simp only [Writer.update, h.entries]
    rw [hla, map_append]
    rfl
  · simp [h.out]

def FullBlocks (expand : Bytes → Option Bytes) (cfg : Config) (es : List Entry) (p : Bytes)
    (a : Attrs) (before : Bytes) (s : Writer) (done : Bytes) : Prop :=
  s.cfg = cfg ∧ ∃ bs, Emitted s es p a before 0 bs ∧ (∀ b ∈ bs, b.Valid expand) ∧
    (∀ b ∈ bs, b.block.length = cfg.blockSize) ∧ (bs.map StoredBlock.block).flatten = done

theorem FullBlocks.emit {done : Bytes} (hc : cfg.Good expand) (hp : p ∉ es.map Entry.path)
    (h : FullBlocks expand cfg es p a before w done) (hbl : block.length = cfg.blockSize) :
    ∃ w', emitBlock p w block = .ok w' ∧
      FullBlocks expand cfg es p a before w' (done ++ block) := by
  obtain ⟨hs, bs, hbs, hv, hf, hd⟩ := h
  have hn : block ≠ [] := length_pos_iff.mp (hbl ▸ hc.positive)
  obtain ⟨w', b, he, hc', _, hb, hbv, hem⟩ := hbs.emit (hs ▸ hc) hp hn (hs ▸ Nat.le_of_eq hbl)
  refine ⟨w', he, hc'.trans hs, bs ++ [b], hem, ?_, ?_, ?_⟩
  · intro x hx
    rcases mem_append.mp hx with hx | hx
    · exact hv x hx
    · exact mem_singleton.mp hx ▸ hbv
  · intro x hx
    rcases mem_append.mp hx with hx | hx
    · exact hf x hx
    · rw [mem_singleton.mp hx, hb]
      exact hbl
  · rw [map_append, map_singleton, flatten_append, flatten_singleton, hd, hb]

theorem Open.write_content (hc : w.cfg.Good expand) (ho : Open w p [])
    (hp : p ∉ es.map Entry.path) (h : Emitted w es p a before 0 []) (content : Bytes) :
    ∃ w' bs, (w.write p content >>= flushCurFile) = .ok w' ∧
      Emitted w' es p a before content.length bs ∧ (∀ b ∈ bs, b.Valid expand) ∧
      (∀ b ∈ bs, 0 < b.block.length) ∧ (bs.map StoredBlock.block).flatten = content ∧
      Cut w.cfg.blockSize (bs.map StoredBlock.block) := by
  have hst : FullBlocks expand w.cfg es p a before w [] := ⟨rfl, [], h, nofun, nofun, rfl⟩
  obtain ⟨⟨w1, buf⟩, hf⟩ : ∃ x, feed w.cfg.blockSize (emitBlock p) w [] content = .ok x :=
    feed_total (P := fun s => ∃ done, FullBlocks expand w.cfg es p a before s done)
      (fun s b ⟨done, hs⟩ hb => by
        obtain ⟨s', hs', hn⟩ := hs.emit hc hp hb
        exact ⟨s', hs', _, hn⟩) ⟨_, hst⟩ [] content
  obtain ⟨done, ⟨hsa, bs, hbs, hv, hfu, hd⟩, ha, hr⟩ := feed_invariant
    (I := FullBlocks expand w.cfg es p a before)
    (fun s done b s' hs hb he => by
      obtain ⟨s'', hs'', hn⟩ := hs.emit hc hp hb
      rw [he] at hs''
      cases hs''
      exact hn) ho.room hst hf
  rw [nil_append, nil_append] at ha
  have hu := @map_last Entry Bytes Entry.path _ es
    ⟨p, .file before.length (bs.map StoredBlock.word) 0, a⟩ (Entry.addSize content.length) hp
  have hw : w.write p content = .ok (w1.grown p buf content.length) := by
    rw [ho.write_eq, hf]
    rfl
  have hg : Emitted (w1.grown p buf content.length) es p a before content.length bs := by
    refine ⟨?_, hbs.out⟩
    simp only [Writer.grown, Writer.update, hbs.entries]
    rw [hu]
    simp [Entry.addSize]
  have hpo : ∀ b ∈ bs, 0 < b.block.length := fun b hb => hfu b hb ▸ hc.positive
  rw [hw]
  by_cases hbu : buf = []
  · refine ⟨{ w1.grown p buf content.length with curFile := none }, bs, ?_,
      ⟨hg.entries, hg.out⟩, hv, hpo, ?_, ?_⟩
    · show (emitBlock p _ buf >>= _) = _
      rw [emitBlock, if_pos hbu]
      rfl
    · rw [hd, ← ha, hbu, append_nil]
    · refine .of_full fun b hb => ?_
      obtain ⟨x, hx, rfl⟩ := mem_map.mp hb
      exact hfu x hx
  · obtain ⟨w2, b, he, _, _, hb, hbv, hem⟩ := hg.emit
      (show (w1.grown p buf content.length).cfg.Good expand from hsa ▸ hc) hp hbu
      (show buf.length ≤ w1.cfg.blockSize from hsa ▸ Nat.le_of_lt hr)
    refine ⟨{ w2 with curFile := none }, bs ++ [b], ?_, ⟨hem.entries, hem.out⟩, ?_, ?_, ?_, ?_⟩
    · show (emitBlock p _ buf >>= _) = _
      rw [he]
      rfl
    · intro x hx
      rcases mem_append.mp hx with hx | hx
      · exact hv x hx
      · exact mem_singleton.mp hx ▸ hbv
    · intro x hx
      rcases mem_append.mp hx with hx | hx
      · exact hpo x hx
      · rw [mem_singleton.mp hx, hb]
        exact length_pos_iff.mpr hbu
    · rw [map_append, map_singleton, flatten_append, flatten_singleton, hd, hb, ha]
    rw [map_append, map_singleton, hb]
    refine ⟨_, _, rfl, fun y hy => ?_, by simp, fun y hy => ?_⟩
    · obtain ⟨x, hx, rfl⟩ := mem_map.mp hy
      exact hfu x hx
    · rw [mem_singleton.mp hy]
      exact hr

end Written

theorem createFile_ok (hpo : 0 < w0.cfg.blockSize) (h : createFile w0 p a = .ok w) :
    w.cfg = w0.cfg ∧ Open w p [] ∧ ∃ es, p ∉ es.map Entry.path ∧ Emitted w es p a w.out 0 [] := by
  obtain ⟨w1, hb, heq⟩ := bind_eq_ok.mp h
  cases heq
  unfold beginEntry at hb
  split at hb
  · cases hb
  rename_i ho
  obtain ⟨w2, hf, hb⟩ := bind_eq_ok.mp hb
  obtain ⟨_, _, hb⟩ := bind_eq_ok.mp hb
  split at hb
  · cases hb
  rename_i hfi
  cases hb
  have hs : w1.cfg = w0.cfg ∧ w1.closed = w0.closed := by
    unfold flushCurFile at hf
    split at hf
    · cases hf
      exact ⟨rfl, rfl⟩
    obtain ⟨w3, hem, heq⟩ := bind_eq_ok.mp hf
    cases heq
    have hk := emitBlock_same hem
    exact hk
  refine ⟨hs.1, ⟨?_, rfl, show 0 < w1.cfg.blockSize from hs.1 ▸ hpo⟩, w1.entries, fun hp => ?_,
    rfl, (append_nil _).symm⟩
  · exact hs.2.trans (Bool.eq_false_of_not_eq_true ho)
  obtain ⟨e, he, hpa⟩ := mem_map.mp hp
  rw [Bool.not_eq_true, Option.isSome_eq_false_iff, Option.isNone_iff_eq_none, Writer.find,
    List.find?_eq_none] at hfi
  exact hfi e he (by simp [hpa])

/-- Whatever the parts in which the data of a file comes, what is written is the same: blocks one
after the other from where the file begins, all full but the last. -/
theorem chunking_irrelevant {base : Config} {n : UInt32} {w0 w : Writer} {p : Bytes} {a : Attrs}
    (hsize : withBlockSize base n = .ok w0.cfg) (hcreate : createFile w0 p a = .ok w)
    {chunks chunks' : List Bytes} (hsame : chunks.flatten = chunks'.flatten) :
    (w.writeAll p chunks >>= flushCurFile) = (w.writeAll p chunks' >>= flushCurFile) ∧
      ∀ expand, w0.cfg.compressor.Inverted expand →
        ∃ w' data sizes bs, (w.writeAll p chunks >>= flushCurFile) = .ok w' ∧
          w'.out = w.out ++ data ∧
          w'.find p = some ⟨p, .file w.out.length sizes chunks.flatten.length, a⟩ ∧
          Blocks expand w0.cfg.blockSize data sizes chunks.flatten bs := by
  obtain ⟨hleast, hmost⟩ := withBlockSize_ok hsize
  have hpos : 0 < w0.cfg.blockSize := Nat.lt_of_lt_of_le (by decide) hleast
  obtain ⟨hcfg, hopen, es, hp, hemitted⟩ := createFile_ok hpos hcreate
  rw [hopen.writeAll_eq, hopen.writeAll_eq, hsame]
  refine ⟨rfl, fun expand hinv => ?_⟩
  have hgood : w0.cfg.Good expand := ⟨hinv, hleast, hmost⟩
  obtain ⟨w', bs, hw', hbs, hvalid, hne, hwhole, hcut⟩ :=
    hopen.write_content (hcfg ▸ hgood) hp hemitted chunks'.flatten
  refine ⟨w', _, _, bs, hw', hbs.out, ?_, hvalid, rfl, rfl, hwhole, hcfg ▸ hcut, ?_⟩
  · rw [Writer.find, hbs.entries, List.find?_append, List.find?_eq_none.mpr fun e he hpath => ?_]
    · simp
    · exact hp (of_decide_eq_true hpath ▸ mem_map_of_mem he)
  have hcount := (hcfg ▸ hcut).count hpos fun b hb => by
    obtain ⟨x, hx, rfl⟩ := mem_map.mp hb
    exact hne x hx
  rw [length_map, hwhole] at hcount
  exact hcount

theorem two_chunkings : ∃ w, createFile (newWriter rawConfig) (text ['/', 'f']) .zero = .ok w ∧
      (w.writeAll (text ['/', 'f']) [replicate 3000 7, [], replicate 3000 7] >>= flushCurFile) =
        (w.writeAll (text ['/', 'f']) [replicate 6000 7] >>= flushCurFile) := by
  obtain ⟨w, hw⟩ := exists_of_isOk
    (show (createFile (newWriter rawConfig) (text ['/', 'f']) .zero).isOk = true by decide +kernel)
  have hsame : [replicate 3000 7, [], replicate 3000 7].flatten =
      [replicate 6000 (7 : UInt8)].flatten := by
    rw [flatten_cons, flatten_cons, flatten_cons, flatten_nil, flatten_singleton, append_nil,
      nil_append, replicate_append_replicate]
  exact ⟨w, hw,
    (chunking_irrelevant (show withBlockSize rawConfig 4096 = .ok rawConfig from rfl) hw hsame).1⟩

end Craftling.Squashfs

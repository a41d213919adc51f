import Craftling.Squashfs.Metadata

namespace Craftling.Squashfs
open Effects List

def idsPerMetaBlock : Nat := 2048

def maxIDs : Nat := 0xFFFF

/-- The place of an id in the table, which it gets when it is first seen. -/
def intern (ids : List UInt32) (id : UInt32) : Except Err (Nat × List UInt32) :=
  if id ∈ ids then .ok (ids.idxOf id, ids)
  else if maxIDs ≤ ids.length then
    .error (.failed "squashfs: more than 65535 distinct UID/GID values")
  else .ok (ids.length, ids ++ [id])

def beginBlock (c : Compressor) (s : MetaWriter × List Nat) (i : Nat) :
    Except Err (MetaWriter × List Nat) :=
  if i % idsPerMetaBlock = 0 then do
    let m ← (if i = 0 then .ok s.1 else s.1.flush c)
    return (m, s.2 ++ [m.blocks.length])
  else .ok s

def writeID (c : Compressor) (s : MetaWriter × List Nat) (x : UInt32 × Nat) :
    Except Err (MetaWriter × List Nat) := do
  let (m, starts) ← beginBlock c s x.2
  let m ← m.write c (leBytes 4 x.1.toNat)
  return (m, starts)

/-- The blocks of the table, and where each of them is if the first is at `base`. -/
def writeData (c : Compressor) (ids : List UInt32) (base : Nat) : Except Err (List Nat × Bytes) :=
  if ids = [] then .ok ([], [])
  else do
    let (m, starts) ← ids.zipIdx.foldlM (writeID c) (newMetaWriter .id, [])
    let m ← m.flush c
    let bytes ← m.emitTo
    return (starts.map fun k => base + m.blockByteOffset k, bytes)

def writeLookup (offsets : List Nat) : Bytes := offsets.flatMap (leBytes 8)

def readID (expand : Bytes → Option Bytes) (img : Bytes) (idTableStart i : Nat) :
    Option Nat := do
  let (off, _) ← readBytes 8 (img.drop (idTableStart + 8 * (i / idsPerMetaBlock)))
  let b ← readAt expand img (leNat off) (4 * (i % idsPerMetaBlock)) 4
  return leNat b

theorem intern_spec {id : UInt32} (h : intern ids id = .ok (i, ids')) (hi : ids.length ≤ maxIDs) :
    ids <+: ids' ∧ ids'[i]? = some id ∧ ids'.length ≤ maxIDs := by
  unfold intern at h
  split at h
  · rename_i hm
    cases h
    refine ⟨prefix_refl _, ?_, hi⟩
    rw [List.getElem?_eq_getElem (idxOf_lt_length_iff.mpr hm), getElem_idxOf]
  split at h
  · cases h
  rename_i hr
  cases h
  refine ⟨prefix_append .., by simp, ?_⟩
  rw [length_append, length_singleton]
  omega

section Written

variable {bytes : Bytes} {ids : List UInt32} {id : UInt32}

def idBytes (ids : List UInt32) : Bytes := ids.flatMap fun id => leBytes 4 id.toNat

theorem length_idBytes (ids : List UInt32) : (idBytes ids).length = 4 * ids.length := by
  induction ids with
  | nil => rfl
  | cons id ids ih =>
    rw [idBytes, flatMap_cons, length_append, length_leBytes, length_cons, ← idBytes, ih]
    omega

theorem flush_of_whole {m m' : MetaWriter} (hm : m.Holds expand stream)
    (hw : stream.length % metadataBlockSize = 0) (h : m.flush c = .ok m') : m' = m := by
  have ho : m.cur.length = 0 := by
    have hr := congrArg MetaRef.offset hm.ref
    simp only [MetaWriter.ref, refAt] at hr
    omega
  rw [MetaWriter.flush, MetaWriter.sealCurrent, if_pos (length_eq_zero_iff.mp ho)] at h
  cases h
  rfl

theorem writeID_spec (hc : c.Inverted expand) {s s' : MetaWriter × List Nat}
    (hm : s.1.Holds expand (idBytes ids))
    (hs : s.2 = List.range ((ids.length + (idsPerMetaBlock - 1)) / idsPerMetaBlock))
    (h : writeID c s (id, ids.length) = .ok s') :
    s'.1.Holds expand (idBytes (ids ++ [id])) ∧
      s'.2 = List.range (((ids ++ [id]).length + (idsPerMetaBlock - 1)) / idsPerMetaBlock) := by
  obtain ⟨⟨m, starts⟩, hb, h⟩ := bind_eq_ok.mp h
  obtain ⟨m', hw, he⟩ := bind_eq_ok.mp h
  cases he
  have hl := length_idBytes ids
  suffices hsa : m = s.1 ∧
      starts = List.range ((ids.length + 1 + (idsPerMetaBlock - 1)) / idsPerMetaBlock) by
    obtain ⟨rfl, rfl⟩ := hsa
    refine ⟨?_, by rw [length_append, length_singleton]⟩
    have hby : idBytes (ids ++ [id]) = idBytes ids ++ leBytes 4 id.toNat := by
      rw [idBytes, flatMap_append, flatMap_singleton, idBytes]
    rw [hby]
    exact (hm.write hc hw).1
  unfold beginBlock at hb
  dsimp only at hb
  split at hb
  · rename_i hf
    obtain ⟨m1, hfl, he⟩ := bind_eq_ok.mp hb
    have hm1 : m1 = s.1 := by
      split at hfl
      · cases hfl
        rfl
      refine flush_of_whole hm ?_ hfl
      simp only [idsPerMetaBlock, metadataBlockSize] at hf ⊢
      omega
    subst hm1
    cases he
    refine ⟨rfl, ?_⟩
    have hco : (ids.length + 1 + (idsPerMetaBlock - 1)) / idsPerMetaBlock =
        (ids.length + (idsPerMetaBlock - 1)) / idsPerMetaBlock + 1 := by
      simp only [idsPerMetaBlock] at hf ⊢
      omega
    have hbl : s.1.blocks.length = (ids.length + (idsPerMetaBlock - 1)) / idsPerMetaBlock := by
      rw [hm.length_blocks, hl]
      simp only [idsPerMetaBlock, metadataBlockSize] at hf ⊢
      omega
    rw [hco, range_succ, hs, hbl]
  · rename_i hf
    cases hb
    refine ⟨rfl, ?_⟩
    have hco : (ids.length + 1 + (idsPerMetaBlock - 1)) / idsPerMetaBlock =
        (ids.length + (idsPerMetaBlock - 1)) / idsPerMetaBlock := by
      simp only [idsPerMetaBlock] at hf ⊢
      omega
    rw [hco]
    exact hs

/-- After the ids the writer holds their bytes, and a block was begun for every 2048 of them. -/
theorem writeIDs_holds (hc : c.Inverted expand) {s : MetaWriter × List Nat}
    (h : ids.zipIdx.foldlM (writeID c) (newMetaWriter .id, []) = .ok s) :
    s.1.Holds expand (idBytes ids) ∧
      s.2 = List.range ((ids.length + (idsPerMetaBlock - 1)) / idsPerMetaBlock) := by
  have hw := foldlM_invariant
    (I := fun done s => s.1.Holds expand (idBytes (done.map Prod.fst)) ∧
      s.2 = List.range ((done.length + (idsPerMetaBlock - 1)) / idsPerMetaBlock))
    ⟨newMetaWriter_holds .id, rfl⟩
    (fun done x rest s s' hl ⟨hm, hst⟩ hs => by
      have hp : x.2 = (done.map Prod.fst).length := by
        have hg := congrArg (·[done.length]?) hl
        simp only [List.getElem?_zipIdx, List.getElem?_append_right (Nat.le_refl _), Nat.sub_self,
          List.getElem?_cons_zero] at hg
        obtain ⟨id, _, hx⟩ := Option.map_eq_some_iff.mp hg
        rw [← hx, length_map, Nat.zero_add]
      obtain ⟨id, i⟩ := x
      obtain rfl : i = _ := hp
      rw [← length_map (f := Prod.fst)] at hst
      have hn := writeID_spec hc hm hst hs
      rw [map_append, map_singleton]
      rw [length_append, length_map] at hn
      exact ⟨hn.1, by rw [length_append]; exact hn.2⟩)
    h
  rw [zipIdx_map_fst, length_zipIdx] at hw
  exact hw

theorem writeData_spec (hc : c.Inverted expand) (hi : ids ≠ [])
    (h : writeData c ids base = .ok (offsets, bytes)) :
    ∃ blocks, Sealed expand blocks (idBytes ids) ∧ bytes = emitted blocks ∧
      offsets = (List.range ((ids.length + (idsPerMetaBlock - 1)) / idsPerMetaBlock)).map
        fun k => base + byteOffset blocks k := by
  rw [writeData, if_neg hi] at h
  obtain ⟨⟨m, starts⟩, hfold, h⟩ := bind_eq_ok.mp h
  obtain ⟨m', hf, h⟩ := bind_eq_ok.mp h
  obtain ⟨b, he, heq⟩ := bind_eq_ok.mp h
  cases heq
  have hw := writeIDs_holds hc hfold
  obtain ⟨hse, _⟩ := hw.1.flush hc hf
  refine ⟨m'.blocks, hse, ?_, ?_⟩
  · unfold MetaWriter.emitTo at he
    split at he
    · cases he
    · cases he
      rfl
  · rw [← hw.2]
    rfl

theorem readID_written (hc : c.Inverted expand) {before after : Bytes} (hids : ids ≠ [])
    (h : writeData c ids before.length = .ok (offsets, bytes))
    (hs : (before ++ bytes).length < 256 ^ 8) (hi : ids[i]? = some id) :
    readID expand (before ++ bytes ++ writeLookup offsets ++ after) (before ++ bytes).length i =
      some id.toNat := by
  obtain ⟨blocks, hse, rfl, ho⟩ := writeData_spec hc hids h
  obtain ⟨hl, hg⟩ := List.getElem?_eq_some_iff.mp hi
  have hle := length_idBytes ids
  have hb : i / idsPerMetaBlock < (ids.length + (idsPerMetaBlock - 1)) / idsPerMetaBlock := by
    simp only [idsPerMetaBlock]
    omega
  -- The entry of the lookup list.
  have he : offsets[i / idsPerMetaBlock]? =
      some (before.length + byteOffset blocks (i / idsPerMetaBlock)) := by
    rw [ho, List.getElem?_map, List.getElem?_range hb]
    rfl
  have hof : before.length + byteOffset blocks (i / idsPerMetaBlock) < 256 ^ 8 := by
    refine Nat.lt_of_le_of_lt ?_ hs
    rw [length_append, ← length_emitted_take, emitted_split blocks (i / idsPerMetaBlock),
      length_append]
    omega
  have hd : (before ++ emitted blocks ++ writeLookup offsets ++ after).drop
      ((before ++ emitted blocks).length + 8 * (i / idsPerMetaBlock)) =
      leBytes 8 (before.length + byteOffset blocks (i / idsPerMetaBlock)) ++
        (writeLookup (offsets.drop (i / idsPerMetaBlock + 1)) ++ after) := by
    have hlo := drop_flatMap_of_length (length_leBytes 8) he
    have hr : 8 * (i / idsPerMetaBlock) ≤ (writeLookup offsets).length := by
      by_contra hsh
      have hn := drop_of_length_le (Nat.le_of_lt (Nat.lt_of_not_le hsh))
      rw [writeLookup, hlo] at hn
      have hleng := congrArg List.length hn
      simp at hleng
    rw [append_assoc, ← drop_drop, drop_left, drop_append_of_le_length hr, ← append_assoc]
    exact congrArg (· ++ after) hlo
  -- The block, at the offset of the id.
  have hp : refAt (4 * i) = ⟨i / idsPerMetaBlock, 4 * (i % idsPerMetaBlock)⟩ := by
    simp only [refAt, idsPerMetaBlock, metadataBlockSize, MetaRef.mk.injEq]
    omega
  have hr : 4 * i + 4 ≤ (idBytes ids).length := by omega
  have hre := hse.read hr before (writeLookup offsets ++ after)
  rw [hp, ← append_assoc] at hre
  have hid := drop_flatMap_of_length (fun id : UInt32 => length_leBytes 4 id.toNat) hi
  rw [← idBytes] at hid
  rw [hid, take_left' (length_leBytes ..)] at hre
  rw [readID, hd, readBytes_append (length_leBytes ..)]
  simp only [Option.bind_eq_bind, Option.bind_some, leNat_leBytes hof, hre,
    leNat_leBytes (show id.toNat < 256 ^ 4 from id.toNat_lt)]
  rfl

end Written

end Craftling.Squashfs

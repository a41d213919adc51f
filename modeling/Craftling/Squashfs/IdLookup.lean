import Craftling.Squashfs.Laid
import Craftling.Squashfs.Streams

namespace Craftling.Squashfs
open Effects

def internAll : List UInt32 → List UInt32 → Except Err (List Nat × List UInt32)
  | ids, [] => .ok ([], ids)
  | ids, id :: calls => do
    let (i, ids) ← intern ids id
    let (is, ids) ← internAll ids calls
    return (i :: is, ids)

theorem internAll_spec (hn : ids.Nodup)
    (hb : ∀ l : List UInt32, l.Nodup → (∀ id ∈ l, id ∈ ids ∨ id ∈ calls) → l.length ≤ maxIDs) :
    ∃ is ids', internAll ids calls = .ok (is, ids') ∧ ids <+: ids' ∧ ids'.Nodup ∧
      (∀ x ∈ ids', x ∈ ids ∨ x ∈ calls) ∧ is.length = calls.length ∧
      ∀ p ∈ is.zip calls, ids'[p.1]? = some p.2 := by
  induction calls generalizing ids with
  | nil => exact ⟨[], ids, rfl, List.prefix_refl _, hn, fun x hx => .inl hx, rfl, nofun⟩
  | cons id calls ih =>
    obtain ⟨i, mid, hi, hp, hm, hg, hsub⟩ : ∃ i mid, intern ids id = .ok (i, mid) ∧ ids <+: mid ∧
        mid.Nodup ∧ mid[i]? = some id ∧ ∀ x ∈ mid, x ∈ ids ∨ x = id := by
      unfold intern
      split
      · rename_i h
        refine ⟨_, _, rfl, List.prefix_refl _, hn, ?_, fun x hx => .inl hx⟩
        rw [List.getElem?_eq_getElem (List.idxOf_lt_length_iff.mpr h), List.getElem_idxOf]
      rename_i h
      have hnew : (ids ++ [id]).Nodup := List.concat_eq_append ▸ hn.concat h
      have hl := hb _ hnew fun x hx => by
        rcases List.mem_append.mp hx with hx | hx
        · exact .inl hx
        · rw [List.mem_singleton.mp hx]
          exact .inr List.mem_cons_self
      rw [List.length_append, List.length_singleton] at hl
      rw [if_neg (by omega)]
      exact ⟨_, _, rfl, List.prefix_append .., hnew, by simp, by simp⟩
    have hfrom : ∀ x, x ∈ mid ∨ x ∈ calls → x ∈ ids ∨ x ∈ id :: calls := by
      rintro x (h | h)
      · rcases hsub x h with h | rfl
        · exact .inl h
        · exact .inr List.mem_cons_self
      · exact .inr (.tail _ h)
    obtain ⟨is, ids', ha, hp', hn', hof, hl, hz⟩ := ih hm fun l hl hs =>
      hb l hl fun x hx => hfrom x (hs x hx)
    refine ⟨i :: is, ids', ?_, hp.trans hp', hn', fun x hx => hfrom x (hof x hx),
      congrArg (· + 1) hl, ?_⟩
    · rw [internAll, hi]
      exact bind_eq_ok.mpr ⟨_, rfl, bind_eq_ok.mpr ⟨_, ha, rfl⟩⟩
    · rw [List.zip_cons_cons, List.forall_mem_cons]
      exact ⟨getElem?_stable hp' hg, hz⟩

/-- With a compressor that can be undone the blocks of the table are always written. -/
theorem writeData_total (hc : c.Inverted expand) (ids : List UInt32) (base : Nat) :
    ∃ offsets bytes, writeData c ids base = .ok (offsets, bytes) := by
  by_cases hi : ids = []
  · rw [writeData, if_pos hi]
    exact ⟨_, _, rfl⟩
  have hid : ∀ (s : MetaWriter × List Nat) x, ∃ s', writeID c s x = .ok s' := by
    intro s x
    obtain ⟨s1, hs1⟩ : ∃ s1, beginBlock c s x.2 = .ok s1 := by
      unfold beginBlock
      split
      · obtain ⟨m, hm⟩ : ∃ m, (if x.2 = 0 then .ok s.1 else s.1.flush c) = .ok m := by
          split
          · exact ⟨_, rfl⟩
          · exact sealCurrent_total hc s.1
        exact ⟨_, bind_eq_ok.mpr ⟨m, hm, rfl⟩⟩
      · exact ⟨_, rfl⟩
    obtain ⟨m, hm⟩ := s1.1.write_total hc (leBytes 4 x.1.toNat)
    exact ⟨_, bind_eq_ok.mpr ⟨s1, hs1, bind_eq_ok.mpr ⟨m, hm, rfl⟩⟩⟩
  obtain ⟨s, hs⟩ := foldlM_total hid ids.zipIdx (newMetaWriter .id, [])
  obtain ⟨m, hm⟩ := sealCurrent_total hc s.1
  obtain ⟨full, last, hb, -⟩ := ((writeIDs_holds hc hs).1.flush hc hm).1.contents
  rw [writeData, if_neg hi]
  exact ⟨_, _, bind_eq_ok.mpr ⟨s, hs, bind_eq_ok.mpr ⟨m, hm, bind_eq_ok.mpr ⟨_, hb.emitTo, rfl⟩⟩⟩⟩

/-- Wherever in the image the table is to go: it is written, its lookup list has an entry for every
2048 ids, and each id is found through the list. -/
def LookedUp (c : Compressor) (expand : Bytes → Option Bytes) (ids : List UInt32) : Prop :=
  ∀ before : Bytes, ∃ offsets bytes, writeData c ids before.length = .ok (offsets, bytes) ∧
    offsets.length = (ids.length + (idsPerMetaBlock - 1)) / idsPerMetaBlock ∧
    ∀ after : Bytes, (before ++ bytes).length < 256 ^ 8 → ∀ i id, ids[i]? = some id →
      readID expand (before ++ bytes ++ writeLookup offsets ++ after) (before ++ bytes).length i =
        some id.toNat

theorem LookedUp.of_inverted (hc : c.Inverted expand) (ids : List UInt32) :
    LookedUp c expand ids := by
  intro before
  obtain ⟨offsets, bytes, h⟩ := writeData_total hc ids before.length
  refine ⟨offsets, bytes, h, ?_, fun after hs i id hi => ?_⟩
  · by_cases hi : ids = []
    · subst hi
      cases h
      rfl
    · obtain ⟨blocks, -, -, rfl⟩ := writeData_spec hc hi h
      rw [List.length_map, List.length_range]
  · have hids : ids ≠ [] := by
      rintro rfl
      cases hi
    exact readID_written hc hids h hs hi

/-- Ids are interned under one index each, below the count, which is the number of distinct ones. The
table of them is written, and every id can be looked up by its index. -/
theorem ids_looked_up (calls : List UInt32) (hd : calls.toFinset.card ≤ maxIDs)
    (hc : c.Inverted expand) :
    ∃ is ids, internAll [] calls = .ok (is, ids) ∧ is.length = calls.length ∧
      ids.length = calls.toFinset.card ∧
      (∀ p ∈ is.zip calls, p.1 < ids.length ∧ ids[p.1]? = some p.2) ∧
      (∀ p ∈ is.zip calls, ∀ q ∈ is.zip calls, p.1 = q.1 ↔ p.2 = q.2) ∧
      LookedUp c expand ids := by
  obtain ⟨is, ids, ha, -, hn, hof, hl, hz⟩ := @internAll_spec [] calls List.nodup_nil
    fun l hl hs => by
      rw [← List.toFinset_card_of_nodup hl]
      refine Nat.le_trans (Finset.card_le_card fun x hx => ?_) hd
      rw [List.mem_toFinset] at hx ⊢
      exact (hs x hx).resolve_left List.not_mem_nil
  refine ⟨is, ids, ha, hl, ?_, fun p hp => ⟨?_, hz p hp⟩, fun p hp q hq => ?_, .of_inverted hc ids⟩
  · rw [← List.toFinset_card_of_nodup hn]
    congr 1
    ext x
    rw [List.mem_toFinset, List.mem_toFinset]
    refine ⟨fun hx => (hof x hx).resolve_left List.not_mem_nil, fun hx => ?_⟩
    obtain ⟨k, hk⟩ := List.mem_iff_getElem?.mp hx
    have hkc := (List.getElem?_eq_some_iff.mp hk).1
    obtain ⟨i, hi⟩ : ∃ i, is[k]? = some i := ⟨_, List.getElem?_eq_getElem (hl ▸ hkc)⟩
    have hm : (i, x) ∈ is.zip calls :=
      List.mem_iff_getElem?.mpr ⟨k, List.getElem?_zip_eq_some.mpr ⟨hi, hk⟩⟩
    exact List.mem_of_getElem? (hz _ hm)
  · exact (List.getElem?_eq_some_iff.mp (hz p hp)).1
  have hpi := hz p hp
  have hqi := hz q hq
  constructor
  · intro he
    rw [he, hqi] at hpi
    exact (Option.some.inj hpi).symm
  · intro he
    rw [← he, ← hpi] at hqi
    exact (List.getElem?_inj (List.getElem?_eq_some_iff.mp hpi).1 hn).mp hqi.symm

def manyIDs : List UInt32 := (List.range 5000).map UInt32.ofNat

theorem card_manyIDs : (manyIDs ++ manyIDs).toFinset.card = 5000 := by
  have hn : manyIDs.Nodup := by
    apply List.Nodup.map_on _ List.nodup_range
    intro i hi j hj hij
    rw [List.mem_range] at hi hj
    have hv := congrArg UInt32.toNat hij
    rw [UInt32.toNat_ofNat', UInt32.toNat_ofNat'] at hv
    omega
  rw [List.toFinset_append, Finset.union_self, List.toFinset_card_of_nodup hn, manyIDs,
    List.length_map, List.length_range]

/-- Five thousand ids, all interned twice, fill two blocks and begin a third. -/
theorem many_ids_looked_up :
    ∃ is ids offsets bytes, internAll [] (manyIDs ++ manyIDs) = .ok (is, ids) ∧ ids.length = 5000 ∧
      writeData rawCompressor ids 0 = .ok (offsets, bytes) ∧ offsets.length = 3 ∧
      LookedUp rawCompressor some ids := by
  obtain ⟨is, ids, ha, -, hn, -, -, hl⟩ := ids_looked_up (manyIDs ++ manyIDs)
    (by rw [card_manyIDs]; decide) (rawCompressor_inverted some)
  rw [card_manyIDs] at hn
  obtain ⟨offsets, bytes, hw, ho, -⟩ := hl []
  rw [hn] at ho
  exact ⟨is, ids, offsets, bytes, ha, hn, hw, ho, hl⟩

end Craftling.Squashfs

import Craftling.Squashfs.Directory
import Craftling.Squashfs.Streams

namespace Craftling.Squashfs
open Effects List

def readGroups : Nat → Bytes → Option (List DirGroup)
  | 0, b => if b = [] then some [] else none
  | fuel + 1, b =>
    if b = [] then some []
    else do
      let (g, b) ← readGroup b
      let rest ← readGroups fuel b
      return g :: rest

def dirGroups : List DirEntry → List DirGroup
  | [] => []
  | base :: es =>
    ⟨base.inodeBlockByte, base.childInode.toNat,
      base :: (splitGroup base (maxDirEntriesPerHeader - 1) es).1⟩ ::
      dirGroups (splitGroup base (maxDirEntriesPerHeader - 1) es).2
termination_by es => es.length
decreasing_by exact Nat.lt_succ_of_le (length_splitGroup ..)

def byName (entries : List DirEntry) : List DirEntry :=
  entries.insertionSort fun a b => a.name ≤ b.name

def listingSize (entries : List DirEntry) : Nat :=
  12 * (dirGroups (byName entries)).length + (entries.map fun e => 8 + e.name.length).sum

/-- The entries under a header are one to 256, all of them in its block, and the differences of
their numbers to the header's fit in 16 bits with a sign. -/
structure DirGroup.WellFormed (g : DirGroup) : Prop where
  some : 1 ≤ g.entries.length
  most : g.entries.length ≤ maxDirEntriesPerHeader
  block : ∀ e ∈ g.entries, e.inodeBlockByte = g.block
  delta : ∀ e ∈ g.entries, -32768 ≤ (e.childInode.toNat : Int) - g.reference ∧
    (e.childInode.toNat : Int) - g.reference ≤ 32767

/-- The listing of the entries has been added to the stream: it is read as well-formed headers with
all the entries in the order of their names, and the size that is returned is the listing's. -/
def ListsRight (c : Compressor) (expand : Bytes → Option Bytes) (m : MetaWriter)
    (entries : List DirEntry) : Prop :=
  ∃ n m' bytes groups, writeDirListing c m entries = .ok (m.ref, n, m') ∧
    Appends expand m m' bytes ∧ readGroups bytes.length bytes = some groups ∧
    (groups.flatMap DirGroup.entries).Perm entries ∧
    ((groups.flatMap DirGroup.entries).map DirEntry.name).Pairwise (· < ·) ∧
    (∀ g ∈ groups, g.WellFormed) ∧ n = bytes.length

theorem entries_dirGroups (es : List DirEntry) : (dirGroups es).flatMap DirGroup.entries = es := by
  fun_induction dirGroups es with
  | case1 => rfl
  | case2 base es ih =>
    rw [flatMap_cons, ih, cons_append, (splitGroup_spec base _ es).1]

theorem dirGroups_wellFormed (es : List DirEntry) : ∀ g ∈ dirGroups es, g.WellFormed := by
  fun_induction dirGroups es with
  | case1 => nofun
  | case2 base es ih =>
    obtain ⟨_, hl, hg⟩ := splitGroup_spec base (maxDirEntriesPerHeader - 1) es
    have hf : ∀ e ∈ base :: (splitGroup base (maxDirEntriesPerHeader - 1) es).1,
        base.Follows e := forall_mem_cons.mpr ⟨base.follows_self, hg⟩
    refine forall_mem_cons.mpr ⟨⟨?_, ?_, ?_, ?_⟩, ih⟩
    · simp
    · exact Nat.succ_le_succ hl
    · exact fun e he => (hf e he).1
    · exact fun e he => (hf e he).2

theorem length_listing_eq (es : List DirEntry) :
    (listing es).length = 12 * (dirGroups es).length + (es.map fun e => 8 + e.name.length).sum := by
  fun_induction listing es with
  | case1 => simp [dirGroups]
  | case2 base es ih =>
    have ha := congrArg (fun l => (l.map fun e : DirEntry => 8 + e.name.length).sum)
      (splitGroup_spec base (maxDirEntriesPerHeader - 1) es).1
    simp only [map_append, sum_append] at ha
    rw [dirGroups, length_append, length_append, length_dirHeader, ih, length_cons, length_flatMap]
    simp only [length_dirEntryBytes, map_cons, sum_cons]
    omega

theorem readGroups_listing (h : ∀ e ∈ es, e.Fits) (hf : es.length ≤ fuel) :
    readGroups fuel (listing es) = some (dirGroups es) := by
  fun_induction listing es generalizing fuel with
  | case1 =>
    rw [dirGroups]
    cases fuel with
    | zero => rfl
    | succ fuel => rfl
  | case2 base es ih =>
    obtain ⟨_, hl, hg⟩ := splitGroup_spec base (maxDirEntriesPerHeader - 1) es
    obtain ⟨hb, hi, ha⟩ := forall_splitGroup (n := maxDirEntriesPerHeader - 1) h
    obtain ⟨fuel, rfl⟩ : ∃ n, fuel = n + 1 := ⟨fuel - 1, by simp at hf; omega⟩
    have hr := ih ha (Nat.le_trans (length_splitGroup ..) (Nat.le_of_succ_le_succ hf))
    have hre := readGroup_bytes hb hi hg (Nat.lt_succ_of_le hl)
      (listing (splitGroup base (maxDirEntriesPerHeader - 1) es).2)
    rw [readGroups, if_neg, hre, dirGroups]
    · simp only [Option.bind_eq_bind, Option.bind_some, hr]
      rfl
    · intro hn
      rw [hn] at hre
      cases hre

theorem perm_byName (entries : List DirEntry) : (byName entries).Perm entries :=
  perm_insertionSort _ _

theorem byName_increasing {entries : List DirEntry} (h : (entries.map DirEntry.name).Nodup) :
    ((byName entries).map DirEntry.name).Pairwise (· < ·) := by
  have hs : (byName entries).Pairwise fun a b => a.name ≤ b.name := by
    have : Std.Total fun a b : DirEntry => a.name ≤ b.name := ⟨fun a b => List.le_total a.name b.name⟩
    have : IsTrans DirEntry fun a b => a.name ≤ b.name := ⟨fun _ _ _ => List.le_trans⟩
    exact pairwise_insertionSort _ _
  have hn : ((byName entries).map DirEntry.name).Nodup :=
    ((perm_byName entries).map _).nodup_iff.mpr h
  rw [pairwise_map]
  rw [List.Nodup, pairwise_map] at hn
  apply (hs.and hn).imp
  rintro a b ⟨hl, hne⟩
  by_contra hg
  exact hne (List.le_antisymm hl (List.not_lt.mp hg))

section Calls

variable {expand : Bytes → Option Bytes} {c : Compressor} {entries es : List DirEntry}
    {m : MetaWriter}

theorem writeEntries_total (hc : c.Inverted expand) (base : DirEntry) (h : ∀ e ∈ es, e.Fits)
    (m : MetaWriter) : ∃ x, writeEntries c base es m = .ok x := by
  induction es generalizing m with
  | nil => exact ⟨_, rfl⟩
  | cons e es ih =>
    have he := h e (.head _)
    have hn : ¬(e.name.length = 0 ∨ 256 < e.name.length) := by
      have hna := he.named
      have hs := he.short
      omega
    obtain ⟨m1, hw⟩ := m.write_total hc (dirEntryBytes base e)
    obtain ⟨x, hr⟩ := ih (fun x hx => h x (.tail _ hx)) m1
    rw [writeEntries, if_neg hn]
    exact ⟨_, bind_eq_ok.mpr ⟨m1, hw, bind_eq_ok.mpr ⟨x, hr, rfl⟩⟩⟩

theorem writeGroups_total (hc : c.Inverted expand) (h : ∀ e ∈ es, e.Fits) (m : MetaWriter) :
    ∃ x, writeGroups c es m = .ok x := by
  fun_induction dirGroups es generalizing m with
  | case1 =>
    rw [writeGroups]
    exact ⟨_, rfl⟩
  | case2 base es ih =>
    obtain ⟨hb, hi, ha⟩ := forall_splitGroup (n := maxDirEntriesPerHeader - 1) h
    obtain ⟨m1, hw⟩ := m.write_total hc
      (dirHeader base ((splitGroup base (maxDirEntriesPerHeader - 1) es).1.length + 1))
    obtain ⟨x, hg⟩ := writeEntries_total hc base (forall_mem_cons.mpr ⟨hb, hi⟩) m1
    obtain ⟨y, hr⟩ := ih ha x.2
    rw [writeGroups]
    exact ⟨_, bind_eq_ok.mpr ⟨m1, hw, bind_eq_ok.mpr ⟨x, hg, bind_eq_ok.mpr ⟨y, hr, rfl⟩⟩⟩⟩

theorem Appends.unique (h : Appends expand m m' p) (h' : Appends expand m m' q) : p = q := by
  obtain ⟨more, contents, hm', hb, _, ha⟩ := h.blocks
  obtain ⟨more', contents', hm'', hb', _, ha'⟩ := h'.blocks
  have hm : more = more' := append_cancel_left (hm'.symm.trans hm'')
  subst hm
  rw [blocksHold_unique hb hb'] at ha
  exact append_cancel_left (ha.symm.trans ha')

theorem length_listing_byName (entries : List DirEntry) :
    (listing (byName entries)).length = listingSize entries := by
  rw [length_listing_eq, listingSize, ((perm_byName entries).map _).sum_nat]

section

variable (hc : c.Inverted expand) (hm : m.cur.length < metadataBlockSize)
    (hf : ∀ e ∈ entries, e.Fits)
include hc hm hf

theorem writeDirListing_appends :
    ∃ m', writeDirListing c m entries = .ok (m.ref, listingSize entries % 2 ^ 32, m') ∧
      Appends expand m m' (listing (byName entries)) := by
  have hf' : ∀ e ∈ byName entries, e.Fits := fun e he =>
    hf e ((perm_byName entries).mem_iff.mp he)
  obtain ⟨⟨n, m'⟩, hg⟩ := writeGroups_total hc hf' m
  obtain ⟨ha, hn, _⟩ := writeGroups_spec hc hm hg
  refine ⟨m', ?_, ha⟩
  rw [← length_listing_byName, ← hn]
  exact bind_eq_ok.mpr ⟨(n, m'), hg, rfl⟩

theorem ListsRight.size_lt (h : ListsRight c expand m entries) :
    listingSize entries < 2 ^ 32 := by
  obtain ⟨n, m', bytes, groups, hca, ha, _, _, _, _, hn⟩ := h
  obtain ⟨m'', hc', ha'⟩ := writeDirListing_appends hc hm hf
  rw [hca] at hc'
  cases hc'
  have hl := congrArg List.length (ha.unique ha')
  rw [length_listing_byName] at hl
  have hmo : listingSize entries % 2 ^ 32 = listingSize entries := hn.trans hl
  rw [← hmo]
  exact Nat.mod_lt _ (by decide)

end

/-- Entries with distinct names and fields of their sizes are listed right, at any place of the
directory table, exactly if the listing has less than 2^32 bytes. -/
theorem directory_listing_right_iff (hc : c.Inverted expand) (m : MetaWriter)
    (hm : m.cur.length < metadataBlockSize) (entries : List DirEntry)
    (hfit : ∀ e ∈ entries, e.Fits) (hnames : (entries.map DirEntry.name).Nodup) :
    ListsRight c expand m entries ↔ listingSize entries < 2 ^ 32 := by
  constructor
  · intro h
    exact h.size_lt hc hm hfit
  intro hsize
  obtain ⟨m', hcall, happ⟩ := writeDirListing_appends hc hm hfit
  have hfit' : ∀ e ∈ byName entries, e.Fits := fun e he =>
    hfit e ((perm_byName entries).mem_iff.mp he)
  have hfuel := (length_listing fun e he => (hfit' e he).short).1
  refine ⟨_, m', _, _, hcall, happ, readGroups_listing hfit' hfuel, ?_, ?_,
    dirGroups_wellFormed _, ?_⟩
  · rw [entries_dirGroups]
    exact perm_byName entries
  · rw [entries_dirGroups]
    exact byName_increasing hnames
  · rw [Nat.mod_eq_of_lt hsize, length_listing_byName]

end Calls

def twoEntries : List DirEntry := [⟨[98], 1, 8194, 0, 1⟩, ⟨[97], 40000, 0, 32, 2⟩]

theorem two_entries_listed :
    ListsRight rawCompressor (fun _ => none) (newMetaWriter .directory) twoEntries := by
  have hsize : listingSize twoEntries < 2 ^ 32 := by decide +kernel
  refine (directory_listing_right_iff (rawCompressor_inverted fun _ => none) _ (by decide) _ ?_
    (by decide)).mpr hsize
  simp only [twoEntries, forall_mem_cons]
  refine ⟨⟨?_, ?_, ?_, ?_, ?_⟩, ⟨?_, ?_, ?_, ?_, ?_⟩, nofun⟩
  all_goals decide

def manyEntries : List DirEntry :=
  (List.range (256 ^ 3)).map fun i => ⟨leBytes 3 i ++ List.replicate 253 97, 1, 0, 0, 2⟩

theorem manyEntries_fit : ∀ e ∈ manyEntries, e.Fits := by
  intro e he
  obtain ⟨i, _, rfl⟩ := mem_map.mp he
  have hn : (leBytes 3 i ++ List.replicate 253 97).length = 256 := by
    rw [length_append, length_leBytes, length_replicate]
  constructor
  · simp
  · simp
  · simp
  · rw [hn]
    simp
  · exact Nat.le_of_eq hn

theorem manyEntries_nodup : (manyEntries.map DirEntry.name).Nodup := by
  rw [manyEntries, map_map]
  apply List.Nodup.map_on _ nodup_range
  intro i hi j hj hij
  have hb : leBytes 3 i = leBytes 3 j := append_cancel_right hij
  rw [← leNat_leBytes (mem_range.mp hi), ← leNat_leBytes (mem_range.mp hj), hb]

theorem manyEntries_size : 2 ^ 32 ≤ listingSize manyEntries := by
  have hs : (manyEntries.map fun e => 8 + e.name.length).sum = 256 ^ 3 * 264 := by
    rw [manyEntries, map_map]
    simp only [Function.comp_def, length_append, length_leBytes, length_replicate,
      map_const', length_range, sum_replicate_nat]
  rw [listingSize, hs]
  omega

theorem many_entries_listed_wrong :
    (∀ e ∈ manyEntries, e.Fits) ∧ (manyEntries.map DirEntry.name).Nodup ∧
      ¬ListsRight rawCompressor (fun _ => none) (newMetaWriter .directory) manyEntries := by
  refine ⟨manyEntries_fit, manyEntries_nodup, fun h => ?_⟩
  have hlt := h.size_lt (rawCompressor_inverted fun _ => none) (by decide) manyEntries_fit
  exact absurd manyEntries_size (Nat.not_le.mpr hlt)

end Craftling.Squashfs

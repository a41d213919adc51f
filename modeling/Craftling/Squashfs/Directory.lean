import Craftling.Squashfs.Inodes

namespace Craftling.Squashfs
open Effects List Option

structure DirEntry where
  name : Bytes
  childInode : UInt32
  inodeBlockByte : Nat
  inodeBlockOff : Nat
  basicType : Nat
  deriving DecidableEq

def maxDirEntriesPerHeader : Nat := 256

def DirEntry.delta (base e : DirEntry) : Int := e.childInode.toNat - base.childInode.toNat

def DirEntry.Follows (base e : DirEntry) : Prop :=
  e.inodeBlockByte = base.inodeBlockByte ∧ -32768 ≤ base.delta e ∧ base.delta e ≤ 32767

instance (base e : DirEntry) : Decidable (base.Follows e) :=
  inferInstanceAs (Decidable (_ ∧ _ ∧ _))

/-- The longest run that may stand under the header of `base`, of at most `n` entries, and the
entries after it. -/
def splitGroup (base : DirEntry) : Nat → List DirEntry → List DirEntry × List DirEntry
  | 0, es => ([], es)
  | _ + 1, [] => ([], [])
  | n + 1, e :: es =>
    if base.Follows e then (e :: (splitGroup base n es).1, (splitGroup base n es).2) else ([], e :: es)

def dirHeader (base : DirEntry) (count : Nat) : Bytes :=
  record [(4, count - 1), (4, base.inodeBlockByte), (4, base.childInode.toNat)]

/-- The difference to the header's number is stored as 16 bits in two's complement. -/
def dirEntryBytes (base e : DirEntry) : Bytes :=
  record [(2, e.inodeBlockOff), (2, (base.delta e % 65536).toNat), (2, e.basicType),
    (2, e.name.length - 1)] ++ e.name

def writeEntries (c : Compressor) (base : DirEntry) :
    List DirEntry → MetaWriter → Except Err (Nat × MetaWriter)
  | [], m => .ok (0, m)
  | e :: es, m =>
    if e.name.length = 0 ∨ 256 < e.name.length then
      .error (.failed "squashfs: directory entry name must be 1..256 bytes")
    else do
      let m ← m.write c (dirEntryBytes base e)
      let (n, m) ← writeEntries c base es m
      return ((dirEntryBytes base e).length + n, m)

theorem length_splitGroup (base : DirEntry) (n : Nat) (es : List DirEntry) :
    (splitGroup base n es).2.length ≤ es.length := by
  fun_induction splitGroup base n es with
  | case1 es => exact Nat.le_refl _
  | case2 n => exact Nat.le_refl _
  | case3 n e es hf ih => exact Nat.le_succ_of_le ih
  | case4 n e es hf => exact Nat.le_refl _

def writeGroups (c : Compressor) : List DirEntry → MetaWriter → Except Err (Nat × MetaWriter)
  | [], m => .ok (0, m)
  | base :: es, m => do
    let group := (splitGroup base (maxDirEntriesPerHeader - 1) es).1
    let m ← m.write c (dirHeader base (group.length + 1))
    let (n, m) ← writeEntries c base (base :: group) m
    let (k, m) ← writeGroups c (splitGroup base (maxDirEntriesPerHeader - 1) es).2 m
    return (12 + n + k, m)
termination_by es => es.length
decreasing_by exact Nat.lt_succ_of_le (length_splitGroup ..)

/-- The listing of one directory goes to the directory table. Its size is a 32-bit number. -/
def writeDirListing (c : Compressor) (m : MetaWriter) (entries : List DirEntry) :
    Except Err (MetaRef × Nat × MetaWriter) := do
  let entries := entries.insertionSort fun a b => a.name ≤ b.name
  let (n, m') ← writeGroups c entries m
  return (m.ref, n % 2 ^ 32, m')

def readDirEntry (block base : Nat) (b : Bytes) : Option (DirEntry × Bytes) :=
  match readRecord [2, 2, 2, 2] b with
  | some ([off, delta, typ, len], b) => do
    let (name, b) ← readBytes (len + 1) b
    let number := if delta < 32768 then base + delta else base + (2 ^ 32 - 65536) + delta
    return (⟨name, UInt32.ofNat number, block, off, typ⟩, b)
  | _ => none

structure DirGroup where
  block : Nat
  reference : Nat
  entries : List DirEntry
  deriving DecidableEq

def readGroup (b : Bytes) : Option (DirGroup × Bytes) :=
  match readRecord [4, 4, 4] b with
  | some ([count, block, base], b) => do
    let (es, b) ← readTimes (readDirEntry block base) (count + 1) b
    return (⟨block, base, es⟩, b)
  | _ => none

def readListing : Nat → Bytes → Option (List DirEntry)
  | 0, b => if b = [] then some [] else none
  | fuel + 1, b =>
    if b = [] then some []
    else
      match readRecord [4, 4, 4] b with
      | some ([count, block, base], b) => do
        let (es, b) ← readTimes (readDirEntry block base) (count + 1) b
        let rest ← readListing fuel b
        return es ++ rest
      | _ => none

def listing : List DirEntry → Bytes
  | [] => []
  | base :: es =>
    dirHeader base ((splitGroup base (maxDirEntriesPerHeader - 1) es).1.length + 1) ++
      (base :: (splitGroup base (maxDirEntriesPerHeader - 1) es).1).flatMap (dirEntryBytes base) ++
      listing (splitGroup base (maxDirEntriesPerHeader - 1) es).2
termination_by es => es.length
decreasing_by exact Nat.lt_succ_of_le (length_splitGroup ..)

structure DirEntry.Fits (e : DirEntry) : Prop where
  block : e.inodeBlockByte < 256 ^ 4
  off : e.inodeBlockOff < 256 ^ 2
  typ : e.basicType < 256 ^ 2
  named : 0 < e.name.length
  short : e.name.length ≤ 256

theorem DirEntry.follows_self (e : DirEntry) : e.Follows e := by
  simp [DirEntry.Follows, DirEntry.delta]

theorem splitGroup_spec (base : DirEntry) (n : Nat) (es : List DirEntry) :
    (splitGroup base n es).1 ++ (splitGroup base n es).2 = es ∧
      (splitGroup base n es).1.length ≤ n ∧ ∀ e ∈ (splitGroup base n es).1, base.Follows e := by
  fun_induction splitGroup base n es with
  | case1 es => exact ⟨rfl, Nat.le_refl _, nofun⟩
  | case2 n => exact ⟨rfl, Nat.zero_le _, nofun⟩
  | case3 n e es hf ih =>
    obtain ⟨ha, hl, hg⟩ := ih
    refine ⟨congrArg (e :: ·) ha, Nat.succ_le_succ hl, fun x hx => ?_⟩
    rcases mem_cons.mp hx with rfl | hx
    · exact hf
    · exact hg x hx
  | case4 n e es hf => exact ⟨rfl, Nat.zero_le _, nofun⟩

section Writing

variable {es : List DirEntry} {m m' : MetaWriter} {n : Nat}

theorem writeEntries_spec (hc : c.Inverted expand) (hcu : m.cur.length < metadataBlockSize)
    (h : writeEntries c base es m = .ok (n, m')) :
    Appends expand m m' (es.flatMap (dirEntryBytes base)) ∧
      n = (es.flatMap (dirEntryBytes base)).length ∧
      ∀ e ∈ es, 0 < e.name.length ∧ e.name.length ≤ 256 := by
  induction es generalizing m n with
  | nil =>
    cases h
    exact ⟨.refl hcu, rfl, nofun⟩
  | cons e es ih =>
    rw [writeEntries] at h
    split at h
    · cases h
    rename_i hn
    obtain ⟨m1, hw, h⟩ := bind_eq_ok.mp h
    obtain ⟨⟨k, m2⟩, hr, he⟩ := bind_eq_ok.mp h
    cases he
    have hm1 := m.write_appends hc hcu hw
    obtain ⟨hm2, hk, hna⟩ := ih hm1.cur hr
    refine ⟨?_, ?_, fun x hx => ?_⟩
    · rw [flatMap_cons]
      exact hm1.trans hm2
    · rw [flatMap_cons, length_append, hk]
    · rcases mem_cons.mp hx with rfl | hx
      · omega
      · exact hna x hx

theorem length_dirHeader (base : DirEntry) (count : Nat) : (dirHeader base count).length = 12 := by
  simp [dirHeader]

theorem writeGroups_spec (hc : c.Inverted expand) (hcu : m.cur.length < metadataBlockSize)
    (h : writeGroups c es m = .ok (n, m')) :
    Appends expand m m' (listing es) ∧ n = (listing es).length ∧
      ∀ e ∈ es, 0 < e.name.length ∧ e.name.length ≤ 256 := by
  fun_induction listing es generalizing m n with
  | case1 =>
    rw [writeGroups] at h
    cases h
    exact ⟨.refl hcu, rfl, nofun⟩
  | case2 base es ih =>
    rw [writeGroups] at h
    obtain ⟨m1, hw, h⟩ := bind_eq_ok.mp h
    obtain ⟨⟨k, m2⟩, hg, h⟩ := bind_eq_ok.mp h
    obtain ⟨⟨j, m3⟩, hr, he⟩ := bind_eq_ok.mp h
    cases he
    have hm1 := m.write_appends hc hcu hw
    obtain ⟨hm2, hk, hn2⟩ := writeEntries_spec hc hm1.cur hg
    obtain ⟨hm3, hj, hn3⟩ := ih hm2.cur hr
    refine ⟨(hm1.trans hm2).trans hm3, ?_, fun x hx => ?_⟩
    · rw [length_append, length_append, length_dirHeader, hk, hj]
    rcases mem_cons.mp hx with rfl | hx
    · exact hn2 x (.head _)
    rw [← (splitGroup_spec base (maxDirEntriesPerHeader - 1) es).1] at hx
    rcases mem_append.mp hx with hx | hx
    · exact hn2 x (.tail _ hx)
    · exact hn3 x hx

end Writing

variable {base e : DirEntry} {es : List DirEntry} {n : Nat}

theorem number_of_delta (h : base.Follows e) : UInt32.ofNat (if (base.delta e % 65536).toNat < 32768
      then base.childInode.toNat + (base.delta e % 65536).toNat
      else base.childInode.toNat + (2 ^ 32 - 65536) + (base.delta e % 65536).toNat) =
      e.childInode := by
  obtain ⟨_, hl, hh⟩ := h
  have hb := base.childInode.toNat_lt
  have he := e.childInode.toNat_lt
  have hd : base.delta e = e.childInode.toNat - base.childInode.toNat := rfl
  apply UInt32.toNat_inj.mp
  rw [UInt32.toNat_ofNat']
  split
  · omega
  · omega

theorem readDirEntry_bytes (h : base.Follows e) (he : e.Fits) (rest : Bytes) :
    readDirEntry base.inodeBlockByte base.childInode.toNat (dirEntryBytes base e ++ rest) =
      some (e, rest) := by
  have hn := he.named
  have hs := he.short
  have hf : ∀ f ∈ [(2, e.inodeBlockOff), (2, (base.delta e % 65536).toNat), (2, e.basicType),
      (2, e.name.length - 1)], f.2 < 256 ^ f.1 := by
    simp only [mem_cons, not_mem_nil, or_false]
    rintro f (rfl | rfl | rfl | rfl)
    · exact he.off
    · exact show (base.delta e % 65536).toNat < 256 ^ 2 by omega
    · exact he.typ
    · exact show e.name.length - 1 < 256 ^ 2 by omega
  have hr : readRecord [2, 2, 2, 2] (dirEntryBytes base e ++ rest) =
      some ([e.inodeBlockOff, (base.delta e % 65536).toNat, e.basicType, e.name.length - 1],
        e.name ++ rest) := by
    rw [dirEntryBytes, append_assoc]
    exact readRecord_record hf (e.name ++ rest)
  have hna : readBytes (e.name.length - 1 + 1) (e.name ++ rest) = some (e.name, rest) :=
    readBytes_append (by omega) rest
  rw [readDirEntry, hr]
  simp only [hna, bind_eq_bind, bind_some, number_of_delta h, h.1.symm]
  rfl

theorem readGroup_bytes (hb : base.Fits) (hf : ∀ e ∈ group, e.Fits)
    (hg : ∀ e ∈ group, base.Follows e) (hl : group.length < maxDirEntriesPerHeader) (rest : Bytes) :
    readGroup (dirHeader base (group.length + 1) ++ (base :: group).flatMap (dirEntryBytes base) ++
      rest) = some (⟨base.inodeBlockByte, base.childInode.toNat, base :: group⟩, rest) := by
  have hfi : ∀ f ∈ [(4, group.length + 1 - 1), (4, base.inodeBlockByte),
      (4, base.childInode.toNat)], f.2 < 256 ^ f.1 := by
    simp only [List.mem_cons, List.not_mem_nil, or_false]
    rintro f (rfl | rfl | rfl)
    · exact show group.length + 1 - 1 < 256 ^ 4 by
        simp only [maxDirEntriesPerHeader] at hl
        omega
    · exact hb.block
    · exact base.childInode.toNat_lt
  have hr : readRecord [4, 4, 4] (dirHeader base (group.length + 1) ++
      (base :: group).flatMap (dirEntryBytes base) ++ rest) =
      some ([group.length, base.inodeBlockByte, base.childInode.toNat],
        (base :: group).flatMap (dirEntryBytes base) ++ rest) := by
    rw [List.append_assoc]
    exact readRecord_record hfi ((base :: group).flatMap (dirEntryBytes base) ++ rest)
  have hen : ∀ e ∈ base :: group, ∀ rest, readDirEntry base.inodeBlockByte
      base.childInode.toNat (dirEntryBytes base e ++ rest) = some (id e, rest) := by
    intro e he rest
    rcases List.mem_cons.mp he with rfl | he
    · exact readDirEntry_bytes e.follows_self hb rest
    · exact readDirEntry_bytes (hg e he) (hf e he) rest
  have hent := readTimes_append hen rest
  rw [List.map_id, List.length_cons] at hent
  rw [readGroup, hr]
  simp only [hent, Option.bind_eq_bind, Option.bind_some]
  rfl

theorem readListing_group (h : readGroup b = some (g, rest)) (fuel : Nat) :
    readListing (fuel + 1) b = (readListing fuel rest).map (g.entries ++ ·) := by
  have hn : b ≠ [] := fun hni => by
    rw [hni] at h
    cases h
  rw [readGroup] at h
  rw [readListing, if_neg hn]
  split at h
  · obtain ⟨⟨es, b'⟩, he, heq⟩ := bind_eq_some_iff.mp h
    cases heq
    simp only [he, bind_eq_bind, bind_some]
    cases readListing fuel rest with
    | none => rfl
    | some _ => rfl
  · cases h

theorem forall_splitGroup {P : DirEntry → Prop} (h : ∀ e ∈ base :: es, P e) :
    P base ∧ (∀ e ∈ (splitGroup base n es).1, P e) ∧ ∀ e ∈ (splitGroup base n es).2, P e := by
  have ha := (splitGroup_spec base n es).1
  refine ⟨h base (.head _), fun e he => ?_, fun e he => ?_⟩
  · exact h e (.tail _ (ha ▸ mem_append_left _ he))
  · exact h e (.tail _ (ha ▸ mem_append_right _ he))

theorem readListing_listing (h : ∀ e ∈ es, e.Fits) (hf : es.length ≤ fuel) :
    readListing fuel (listing es) = some es := by
  fun_induction listing es generalizing fuel with
  | case1 => cases fuel <;> rfl
  | case2 base es ih =>
    obtain ⟨ha, hl, hg⟩ := splitGroup_spec base (maxDirEntriesPerHeader - 1) es
    obtain ⟨hb, hi, haf⟩ := forall_splitGroup (n := maxDirEntriesPerHeader - 1) h
    obtain ⟨fuel, rfl⟩ : ∃ n, fuel = n + 1 := ⟨fuel - 1, by simp at hf; omega⟩
    have hr := ih haf (Nat.le_trans (length_splitGroup ..) (Nat.le_of_succ_le_succ hf))
    rw [readListing_group (readGroup_bytes hb hi hg (Nat.lt_succ_of_le hl) _), hr, map_some]
    exact congrArg (fun l => some (base :: l)) ha

theorem length_dirEntryBytes (base e : DirEntry) :
    (dirEntryBytes base e).length = 8 + e.name.length := by
  rw [dirEntryBytes, length_append, length_record]
  simp

theorem length_listing (h : ∀ e ∈ es, e.name.length ≤ 256) :
    es.length ≤ (listing es).length ∧ (listing es).length ≤ 276 * es.length := by
  fun_induction listing es with
  | case1 => exact ⟨Nat.le_refl _, Nat.le_refl _⟩
  | case2 base es ih =>
    obtain ⟨hb, hi, ha⟩ := forall_splitGroup (n := maxDirEntriesPerHeader - 1) h
    have hr := ih ha
    have hl := congrArg List.length (splitGroup_spec base (maxDirEntriesPerHeader - 1) es).1
    rw [length_append] at hl
    generalize (splitGroup base (maxDirEntriesPerHeader - 1) es).1 = group at *
    generalize (splitGroup base (maxDirEntriesPerHeader - 1) es).2 = after at *
    have hg : (base :: group).length ≤ ((base :: group).flatMap (dirEntryBytes base)).length ∧
        ((base :: group).flatMap (dirEntryBytes base)).length ≤ 264 * (base :: group).length := by
      have hn : ∀ e ∈ base :: group, e.name.length ≤ 256 := forall_mem_cons.mpr ⟨hb, hi⟩
      generalize base :: group = es' at hn
      induction es' with
      | nil => exact ⟨Nat.le_refl _, Nat.le_refl _⟩
      | cons e es' ih' =>
        have he := hn e (.head _)
        have hr := ih' fun x hx => hn x (.tail _ hx)
        rw [flatMap_cons, length_append, length_dirEntryBytes, length_cons]
        omega
    rw [length_append, length_append, length_dirHeader]
    rw [length_cons] at hg ⊢
    omega

theorem writeDirListing_spec (hc : c.Inverted expand) (hm : m.Holds expand stream)
    (hs : es.Pairwise fun a b => a.name ≤ b.name) (h : writeDirListing c m es = .ok (r, n, m')) :
    r = refAt stream.length ∧ m'.Holds expand (stream ++ listing es) ∧ m.blocks <+: m'.blocks ∧
      n = (listing es).length % 2 ^ 32 ∧ ∀ e ∈ es, 0 < e.name.length ∧ e.name.length ≤ 256 := by
  have hso : es.insertionSort (fun a b => a.name ≤ b.name) = es := hs.insertionSort_eq
  obtain ⟨⟨k, m1⟩, hg, he⟩ := bind_eq_ok.mp h
  rw [hso] at hg
  cases he
  obtain ⟨ha, hk, hn⟩ := writeGroups_spec hc hm.cur hg
  obtain ⟨hm', hp⟩ := hm.appends ha
  exact ⟨hm.ref, hm', hp, by rw [hk], hn⟩

end Craftling.Squashfs

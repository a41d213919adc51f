import Craftling.Rootfs.CacheNames

namespace Craftling.Storage
open Effects Squashfs Rootfs List

def isSafe (c : Char) : Bool :=
  'a'.toNat ≤ c.toNat && c.toNat ≤ 'z'.toNat || 'A'.toNat ≤ c.toNat && c.toNat ≤ 'Z'.toNat ||
    '0'.toNat ≤ c.toNat && c.toNat ≤ '9'.toNat || c = '.' || c = '_' || c = '-'

def safeChar (c : Char) : Char := if isSafe c then c else '_'

/-- Both packages have this function, each in a copy of its own. -/
def safeToken (key : List Char) : List Char := if key = [] then ['_'] else key.map safeChar

def sanitizeKey (key : List Char) : List Char := safeToken key

def safeKey (serverID : List Char) : List Char := safeToken serverID

/-- `filepath.Join` of the data directory, the sanitized key and the name of the disk. -/
def worldDiskPath (dataDir : Bytes) (key : List Char) : FilePath :=
  FilePath.clean (dataDir ++ slash :: (text (sanitizeKey key) ++ slash ::
    text ['w', 'o', 'r', 'l', 'd', '.', 'e', 'x', 't', '4']))

/-- `filepath.Dir` of a clean path that is not the root. -/
def FilePath.dir (p : FilePath) : FilePath := ⟨p.rooted, p.parts.dropLast⟩

def removedDir (dataDir : Bytes) (key : List Char) : FilePath := FilePath.dir (worldDiskPath dataDir key)

theorem safeChar_safe (c : Char) : isSafe (safeChar c) = true := by
  unfold safeChar
  split
  · assumption
  · decide

theorem safeToken_safe (h : c ∈ safeToken key) : isSafe c = true := by
  unfold safeToken at h
  split at h
  · rw [mem_singleton.mp h]
    decide
  · obtain ⟨d, _, rfl⟩ := mem_map.mp h
    exact safeChar_safe d

theorem safeToken_ne_nil (key : List Char) : safeToken key ≠ [] := by
  unfold safeToken
  split
  · exact cons_ne_nil _ _
  · rename_i h
    simpa using h

theorem safeToken_idempotent (key : List Char) : safeToken (safeToken key) = safeToken key := by
  rw [safeToken, if_neg (safeToken_ne_nil key)]
  conv_rhs => rw [← map_id (safeToken key)]
  exact map_congr_left fun c hc => if_pos (safeToken_safe hc)

theorem safeChar_eq_dot : safeChar c = '.' ↔ c = '.' := by
  unfold safeChar
  constructor
  · intro h
    split at h
    · exact h
    · exact absurd h (by decide)
  · rintro rfl
    decide

theorem safeToken_eq_dot : safeToken key = ['.'] ↔ key = ['.'] := by
  unfold safeToken
  split
  · rename_i h
    simp [h]
  · simp [map_eq_cons_iff, safeChar_eq_dot]

theorem safeToken_eq_dotdot : safeToken key = ['.', '.'] ↔ key = ['.', '.'] := by
  unfold safeToken
  split
  · rename_i h
    simp [h]
  · simp [map_eq_cons_iff, safeChar_eq_dot]

theorem isSafe_toNat (h : isSafe c = true) : c.toNat < 128 ∧ c.toNat ≠ 47 := by
  simp only [isSafe, Bool.or_eq_true, Bool.and_eq_true, decide_eq_true_eq] at h
  rcases h with ((((h | h) | h) | rfl) | rfl) | rfl
  iterate 3
    · exact ⟨Nat.lt_of_le_of_lt h.2 (by decide), Nat.ne_of_gt (Nat.lt_of_lt_of_le (by decide) h.1)⟩
  all_goals decide

theorem byte_injective {c d : Char} (hc : c.toNat < 128) (hd : d.toNat < 128)
    (h : UInt8.ofNat c.toNat = UInt8.ofNat d.toNat) : c = d := by
  have ht := congrArg UInt8.toNat h
  rw [UInt8.toNat_ofNat', UInt8.toNat_ofNat', Nat.mod_eq_of_lt (by omega),
    Nat.mod_eq_of_lt (by omega)] at ht
  exact Char.ext (UInt32.toNat_inj.mp ht)

theorem text_injective (hs : ∀ c ∈ s, c.toNat < 128) (ht : ∀ c ∈ t, c.toNat < 128)
    (h : text s = text t) : s = t := by
  induction s generalizing t with
  | nil =>
    cases t with
    | nil => rfl
    | cons d t => cases h
  | cons c s ih =>
    cases t with
    | nil => cases h
    | cons d t =>
      obtain ⟨hcd, hst⟩ := List.cons.inj h
      rw [byte_injective (hs c (.head _)) (ht d (.head _)) hcd,
        ih (fun x hx => hs x (.tail _ hx)) (fun x hx => ht x (.tail _ hx)) hst]

theorem sanitized_ascii (key : List Char) : ∀ c ∈ sanitizeKey key, c.toNat < 128 :=
  fun _ hc => (isSafe_toNat (safeToken_safe hc)).1

theorem sanitized_whole (key : List Char) : slash ∉ text (sanitizeKey key) := by
  intro h
  obtain ⟨c, hc, hb⟩ := mem_map.mp h
  obtain ⟨hlt, hne⟩ := isSafe_toNat (safeToken_safe hc)
  have ht := congrArg UInt8.toNat hb
  rw [UInt8.toNat_ofNat', Nat.mod_eq_of_lt (by omega)] at ht
  exact hne ht

theorem sanitized_name (h : key ≠ ['.'] ∧ key ≠ ['.', '.']) : IsName (text (sanitizeKey key)) := by
  refine ⟨?_, sanitized_whole key, fun hd => h.1 ?_, fun hd => h.2 ?_⟩
  · intro hn
    exact safeToken_ne_nil key (map_eq_nil_iff.mp hn)
  · exact safeToken_eq_dot.mp (text_injective (sanitized_ascii key) (by simp) hd)
  · exact safeToken_eq_dotdot.mp (text_injective (sanitized_ascii key) (by simp) hd)

theorem splitOn_whole {l : Bytes} (h : slash ∉ l) : l.splitOn slash = [l] := by
  have hs := splitOn_intercalate slash (show ∀ m ∈ [l], slash ∉ m by simpa using h)
    (cons_ne_nil _ _)
  rwa [intercalate_singleton] at hs

theorem cleanStep_rooted (h : dotdot ∉ kept) : dotdot ∉ cleanStep true kept part := by
  unfold cleanStep
  split
  · exact h
  split
  · split
    · exact h
    split
    · rename_i hl
      exact absurd (mem_of_getLast? hl) h
    · exact fun hm => h (dropLast_subset _ hm)
  · rename_i hd
    simpa [h] using Ne.symm hd

theorem clean_rooted (h : p.head? = some slash) : dotdot ∉ (FilePath.clean p).parts := by
  have hf : ∀ (parts kept : List Bytes), dotdot ∉ kept →
      dotdot ∉ parts.foldl (cleanStep true) kept := by
    intro parts
    induction parts with
    | nil => exact fun _ hk => hk
    | cons part parts ih => exact fun kept hk => ih _ (cleanStep_rooted hk)
  simp only [FilePath.clean, h, decide_true]
  exact hf _ [] not_mem_nil

section Removed

variable {dataDir : Bytes} {key key' : List Char}

theorem removedDir_eq (h : dataDir.head? = some slash) (key : List Char) : removedDir dataDir key =
      ⟨true, cleanStep true (FilePath.clean dataDir).parts (text (sanitizeKey key))⟩ := by
  obtain ⟨rest, rfl⟩ : ∃ rest, dataDir = slash :: rest := by
    cases dataDir with
    | nil => cases h
    | cons b rest =>
      cases h
      exact ⟨rest, rfl⟩
  have hworld : (text ['w', 'o', 'r', 'l', 'd', '.', 'e', 'x', 't', '4']).splitOn slash =
      [text ['w', 'o', 'r', 'l', 'd', '.', 'e', 'x', 't', '4']] := by decide
  have hkey : (text (sanitizeKey key)).splitOn slash = [text (sanitizeKey key)] :=
    splitOn_whole (sanitized_whole key)
  have hlast : ∀ parts : List Bytes, (cleanStep true parts
      (text ['w', 'o', 'r', 'l', 'd', '.', 'e', 'x', 't', '4'])).dropLast = parts := by
    intro parts
    rw [cleanStep, if_neg (by decide), if_neg (by decide), dropLast_concat]
  unfold removedDir FilePath.dir worldDiskPath FilePath.clean
  simp only [cons_append, List.head?_cons, decide_true]
  rw [← cons_append, splitOn_append_slash, splitOn_append_slash, hworld, hkey,
    foldl_append, foldl_append, foldl_cons, foldl_nil, foldl_cons,
    foldl_nil, hlast]

theorem removedDir_name (h : dataDir.head? = some slash) (hk : key ≠ ['.'] ∧ key ≠ ['.', '.']) :
    removedDir dataDir key =
      ⟨true, (FilePath.clean dataDir).parts ++ [text (sanitizeKey key)]⟩ := by
  have hn := sanitized_name hk
  rw [removedDir_eq h, cleanStep, if_neg (not_or.mpr ⟨hn.nonempty, hn.not_dot⟩),
    if_neg hn.not_dotdot]

theorem removedDir_dots (h : dataDir.head? = some slash) (hk : ¬(key ≠ ['.'] ∧ key ≠ ['.', '.'])) :
    (removedDir dataDir key).parts.length ≤ (FilePath.clean dataDir).parts.length := by
  rw [removedDir_eq h]
  by_cases hd : key = ['.']
  · subst hd
    rw [show text (sanitizeKey ['.']) = dot by decide, cleanStep, if_pos (.inr rfl)]
  have hdd : key = ['.', '.'] := by
    by_contra hne
    exact hk ⟨hd, hne⟩
  subst hdd
  rw [show text (sanitizeKey ['.', '.']) = dotdot by decide, cleanStep, if_neg (by decide),
    if_pos rfl]
  split
  · exact Nat.le_refl _
  split
  · rename_i hl
    exact absurd (mem_of_getLast? hl) (clean_rooted h)
  · rw [length_dropLast]
    exact Nat.sub_le ..

/-- The removed directory is directly in the data directory, and no other key's directory is it
or below it. -/
structure RemovesOwn (dataDir : Bytes) (key : List Char) : Prop where
  inside : (FilePath.clean dataDir).Inside (removedDir dataDir key)
  others : ∀ key', sanitizeKey key' ≠ sanitizeKey key →
    ¬(removedDir dataDir key).parts <+: (removedDir dataDir key').parts

theorem RemovesOwn.of_name (h : dataDir.head? = some slash)
    (hk : key ≠ ['.'] ∧ key ≠ ['.', '.']) : RemovesOwn dataDir key where
  inside := by
    rw [removedDir_name h hk]
    exact ⟨by rw [FilePath.clean, h]; rfl, _, sanitized_name hk, rfl⟩
  others := by
    intro key' hne hp
    rw [removedDir_name h hk] at hp
    by_cases hk' : key' ≠ ['.'] ∧ key' ≠ ['.', '.']
    · rw [removedDir_name h hk', prefix_append_right_inj] at hp
      have he := List.cons.inj (hp.eq_of_length rfl)
      exact hne (text_injective (sanitized_ascii _) (sanitized_ascii _) he.1).symm
    have hl := hp.length_le
    have hd := removedDir_dots h hk'
    rw [length_append, length_singleton] at hl
    omega

theorem RemovesOwn.name (h : dataDir.head? = some slash) (hr : RemovesOwn dataDir key) :
    key ≠ ['.'] ∧ key ≠ ['.', '.'] := by
  by_contra hk
  obtain ⟨_, c, _, hp⟩ := hr.inside
  have hd := removedDir_dots h hk
  rw [hp, length_append, length_singleton] at hd
  omega

/-- Tearing a server down removes its own directory and nothing else exactly for the keys that are
not one dot or two. The two packages agree on every key, and a sanitized key stays as it is. -/
theorem removes_own_iff (h : dataDir.head? = some slash) (key : List Char) :
    (RemovesOwn dataDir key ↔ key ≠ ['.'] ∧ key ≠ ['.', '.']) ∧
      sanitizeKey key = safeKey key ∧ sanitizeKey (sanitizeKey key) = sanitizeKey key :=
  ⟨⟨fun hr => hr.name h, .of_name h⟩, rfl, safeToken_idempotent key⟩

theorem data_removes_own :
    RemovesOwn (text ['/', 'd']) ['s'] ∧ ¬RemovesOwn (text ['/', 'd']) ['.', '.'] :=
  ⟨(removes_own_iff (by decide) ['s']).1.mpr (by decide),
    fun h => ((removes_own_iff (by decide) ['.', '.']).1.mp h).2 rfl⟩

/-- The directory of the key `.` is the data directory, and that of `..` is the one above it. -/
theorem dots_remove_data : removedDir (text ['/', 'd']) ['.'] = FilePath.clean (text ['/', 'd']) ∧
      removedDir (text ['/', 'd']) ['.', '.'] = ⟨true, []⟩ ∧
        (removedDir (text ['/', 'd']) ['.']).parts <+: (removedDir (text ['/', 'd']) ['s']).parts := by
  decide

end Removed

end Craftling.Storage

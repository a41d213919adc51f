import Craftling.Rootfs.TarNames

namespace Craftling.Rootfs
open Effects Squashfs List

def colon : UInt8 := 58

def dash : UInt8 := 45

def rootfsSuffix : Bytes := text ['.', 's', 'q', 's', 'h']

inductive StoreErr where
  | invalidDigest (digest : Bytes)
  | removeFailed (digest : Bytes)
  deriving DecidableEq

/-- The algorithm and the value of a digest. One without an algorithm is taken for sha256. -/
def splitDigest (s : Bytes) : Option (Bytes × Bytes) :=
  if s = [] then none
  else if colon ∈ s then
    if s.idxOf colon = 0 ∨ s.idxOf colon = s.length - 1 then none
    else some (s.take (s.idxOf colon), s.drop (s.idxOf colon + 1))
  else some (text ['s', 'h', 'a', '2', '5', '6'], s)

def encodeRootfsName (digest : Bytes) : Except StoreErr Bytes :=
  match splitDigest digest with
  | none => .error (.invalidDigest digest)
  | some (algo, hex) => .ok (algo ++ dash :: hex ++ rootfsSuffix)

def decodeRootfsName (name : Bytes) : Option Bytes :=
  if ¬rootfsSuffix <:+ name then none
  else
    let stem := trimSuffix rootfsSuffix name
    if dash ∉ stem ∨ stem.idxOf dash = 0 ∨ stem.idxOf dash = stem.length - 1 then none
    else some (stem.take (stem.idxOf dash) ++ colon :: stem.drop (stem.idxOf dash + 1))

def canonicalDigest (s : Bytes) : Option Bytes :=
  (splitDigest s).map fun (algo, hex) => algo ++ colon :: hex

/-- What `filepath.Clean` makes of a path: its components, and whether they start at the root. -/
structure FilePath where
  rooted : Bool
  parts : List Bytes
  deriving DecidableEq

/-- A ".." takes the component before it away. At the root it does nothing, and at the start of a
relative path it stays. -/
def cleanStep (rooted : Bool) (kept : List Bytes) (part : Bytes) : List Bytes :=
  if part = [] ∨ part = dot then kept
  else if part = dotdot then
    if kept = [] then if rooted then kept else [dotdot]
    else if kept.getLast? = some dotdot then kept ++ [dotdot]
    else kept.dropLast
  else kept ++ [part]

def FilePath.clean (p : Bytes) : FilePath :=
  ⟨p.head? = some slash, (p.splitOn slash).foldl (cleanStep (p.head? = some slash)) []⟩

/-- `filepath.Join` of two elements. An empty one is left out. -/
def FilePath.join (dir name : Bytes) : FilePath :=
  if dir = [] then FilePath.clean name else FilePath.clean (dir ++ slash :: name)

def FilePath.Inside (dir p : FilePath) : Prop :=
  p.rooted = dir.rooted ∧ ∃ c, IsName c ∧ p.parts = dir.parts ++ [c]

def pathFor (cacheDir digest : Bytes) : Except StoreErr FilePath := do
  let name ← encodeRootfsName digest
  return FilePath.join cacheDir name

/-- `UntagImage` on the files that there are. The removal may fail, but not because there is no such
file. -/
def untagImage (fails : Bool) (cacheDir digest : Bytes) (files : List FilePath) :
    Except StoreErr (List FilePath) := do
  let name ← encodeRootfsName digest
  if FilePath.join cacheDir name ∈ files then
    if fails then .error (.removeFailed digest)
    else return files.filter (· ≠ FilePath.join cacheDir name)
  else return files

/-- The components that a relative path leads down to. There are none if it leaves its start. -/
def descend (kept : List Bytes) (parts : List Bytes) : Option (List Bytes) :=
  parts.foldlM
    (fun kept part =>
      if part = [] ∨ part = dot then some kept
      else if part = dotdot then if kept = [] then none else some kept.dropLast
      else some (kept ++ [part]))
    kept

section Splitting

variable {s digest name algo hex : Bytes}

theorem idxOf_append_cons (h : x ∉ algo) (hex : Bytes) : (algo ++ x :: hex).idxOf x = algo.length := by
  rw [idxOf_append_of_notMem h, idxOf_cons_self, Nat.add_zero]

theorem splitDigest_nonempty (h : splitDigest digest = some (algo, hex)) : algo ≠ [] ∧ hex ≠ [] := by
  unfold splitDigest at h
  split at h
  · cases h
  split at h
  · rename_i hm
    split at h
    · cases h
    rename_i hn hb
    cases h
    have hl := idxOf_lt_length_iff.mpr hm
    rw [not_or] at hb
    constructor
    · intro hni
      have hle := congrArg List.length hni
      rw [length_take, length_nil] at hle
      omega
    intro hni
    have hle := congrArg List.length hni
    rw [length_drop, length_nil] at hle
    omega
  · rename_i hn _
    cases h
    exact ⟨by decide, hn⟩

theorem encodeRootfsName_ok (h : encodeRootfsName digest = .ok name) :
    ∃ algo hex, splitDigest digest = some (algo, hex) ∧ name = algo ++ dash :: hex ++ rootfsSuffix := by
  unfold encodeRootfsName at h
  split at h
  · cases h
  rename_i algo hex hs
  cases h
  exact ⟨algo, hex, hs, rfl⟩

theorem decodeRootfsName_eq (ha : algo ≠ []) (hh : hex ≠ []) (h : dash ∉ algo) :
    decodeRootfsName (algo ++ dash :: hex ++ rootfsSuffix) = some (algo ++ colon :: hex) := by
  have hp := idxOf_append_cons h hex
  have hl : 0 < algo.length := length_pos_iff.mpr ha
  have hl' : 0 < hex.length := length_pos_iff.mpr hh
  rw [decodeRootfsName, if_neg (not_not.mpr (suffix_append ..)), trimSuffix_append]
  dsimp only
  rw [if_neg, hp]
  · simp
  · rw [hp, length_append, length_cons]
    simp only [mem_append, mem_cons, true_or, or_true, not_true, false_or]
    omega

theorem decodeRootfsName_ne (h : dash ∈ algo) :
    decodeRootfsName (algo ++ dash :: hex ++ rootfsSuffix) ≠ some (algo ++ colon :: hex) := by
  rw [decodeRootfsName, if_neg (not_not.mpr (suffix_append ..)), trimSuffix_append]
  dsimp only
  split
  · simp
  have hp : (algo ++ dash :: hex).idxOf dash = algo.idxOf dash := idxOf_append_of_mem h
  have hl := idxOf_lt_length_iff.mpr h
  rw [hp]
  intro he
  -- At the place of the first dash the digest that is read back has a colon.
  have ha := congrArg (fun l : Bytes => l[algo.idxOf dash]?) (Option.some.inj he)
  rw [List.getElem?_append_right (by rw [length_take]; omega),
    List.getElem?_append_left hl, length_take, length_append,
    Nat.min_eq_left (by omega), Nat.sub_self, List.getElem?_cons_zero,
    List.getElem?_eq_getElem hl, getElem_idxOf hl] at ha
  exact absurd ha (by decide)

end Splitting

section Leading

variable {base kept parts ws : List Bytes} {part : Bytes}

theorem cleanStep_append (hk : dotdot ∉ kept) (h : part = dotdot → kept ≠ []) :
    cleanStep rooted (base ++ kept) part = base ++ cleanStep rooted kept part := by
  unfold cleanStep
  split
  · rfl
  split
  · have hn := h ‹_›
    have hl : kept.getLast? ≠ some dotdot := fun hl => hk (mem_of_getLast? hl)
    have hl' : (base ++ kept).getLast? ≠ some dotdot := by
      rw [List.getLast?_append_of_ne_nil _ hn]
      exact hl
    rw [if_neg (by simp [hn]), if_neg hl', if_neg hn, if_neg hl, dropLast_append_of_ne_nil hn]
  · rw [append_assoc]

theorem descend_cons (h : descend kept (part :: parts) = some ws) (hk : dotdot ∉ kept) :
    (part = dotdot → kept ≠ []) ∧ dotdot ∉ cleanStep true kept part ∧
      (∀ rooted, cleanStep rooted kept part = cleanStep true kept part) ∧
      descend (cleanStep true kept part) parts = some ws := by
  rw [descend, foldlM_cons] at h
  obtain ⟨kept', hs, hr⟩ := Option.bind_eq_some_iff.mp h
  unfold cleanStep
  split at hs
  · rename_i hp
    cases hs
    refine ⟨?_, ?_⟩
    · rintro rfl
      exact absurd hp (by decide)
    · simp only [if_pos hp]
      exact ⟨hk, fun _ => trivial, hr⟩
  · rename_i hp
    split at hs
    · rename_i hup
      split at hs
      · cases hs
      rename_i hn
      cases hs
      have hl : kept.getLast? ≠ some dotdot := fun hl => hk (mem_of_getLast? hl)
      simp only [if_neg hp, if_pos hup, if_neg hn, if_neg hl]
      exact ⟨fun _ => hn, fun hi => hk (dropLast_subset _ hi), fun _ => trivial, hr⟩
    · rename_i hup
      cases hs
      simp only [if_neg hp, if_neg hup]
      refine ⟨fun he => absurd he hup, ?_, fun _ => trivial, hr⟩
      simp only [mem_append, mem_singleton, not_or]
      exact ⟨hk, Ne.symm hup⟩

theorem foldl_cleanStep_of_descend (base : List Bytes) (rooted : Bool) (hk : dotdot ∉ kept)
    (h : descend kept parts = some ws) :
    parts.foldl (cleanStep rooted) (base ++ kept) = base ++ ws := by
  induction parts generalizing kept with
  | nil =>
    cases h
    rfl
  | cons part parts ih =>
    obtain ⟨hup, hk', hs, hr⟩ := descend_cons h hk
    rw [foldl_cons, cleanStep_append hk hup, hs]
    exact ih hk' hr

theorem mem_descend (h : descend kept parts = some ws) (hc : c ∈ ws) :
    c ∈ kept ∨ (c ∈ parts ∧ c ≠ [] ∧ c ≠ dot ∧ c ≠ dotdot) := by
  induction parts generalizing kept with
  | nil =>
    cases h
    exact .inl hc
  | cons part parts ih =>
    rw [descend, foldlM_cons] at h
    obtain ⟨kept', hs, hr⟩ := Option.bind_eq_some_iff.mp h
    rcases ih hr with hi | hi
    · split at hs
      · cases hs
        exact .inl hi
      split at hs
      · split at hs
        · cases hs
        · cases hs
          exact .inl (dropLast_subset _ hi)
      rename_i hp hup
      cases hs
      rw [not_or] at hp
      rcases mem_append.mp hi with hi | hi
      · exact .inl hi
      · rw [mem_singleton.mp hi]
        exact .inr ⟨mem_cons_self .., hp.1, hp.2, hup⟩
    · exact .inr ⟨mem_cons_of_mem _ hi.1, hi.2⟩

/-- A ".." at the start of a relative path stays there. -/
theorem cleanStep_up (part : Bytes) (h : kept.head? = some dotdot) :
    (cleanStep false kept part).head? = some dotdot := by
  obtain ⟨rest, rfl⟩ : ∃ rest, kept = dotdot :: rest := by
    cases kept with
    | nil => cases h
    | cons c rest =>
      cases h
      exact ⟨rest, rfl⟩
  unfold cleanStep
  split
  · rfl
  split
  · rw [if_neg (by simp)]
    split
    · rfl
    rename_i hl
    cases rest with
    | nil => exact absurd rfl hl
    | cons c rest => rfl
  · rfl

theorem foldl_cleanStep_up (h : kept.head? = some dotdot) :
    (parts.foldl (cleanStep false) kept).head? = some dotdot := by
  induction parts generalizing kept with
  | nil => exact h
  | cons part parts ih => exact ih (cleanStep_up part h)

theorem foldl_cleanStep_of_leaves (hk : dotdot ∉ kept) (h : descend kept parts = none) :
    (parts.foldl (cleanStep false) kept).head? = some dotdot := by
  induction parts generalizing kept with
  | nil => cases h
  | cons part parts ih =>
    rw [foldl_cons]
    rw [descend, foldlM_cons] at h
    unfold cleanStep
    split at h
    · rename_i hp
      rw [if_pos hp]
      exact ih hk h
    rename_i hp
    rw [if_neg hp]
    split at h
    · rename_i hup
      rw [if_pos hup]
      split at h
      · rename_i hn
        rw [if_pos hn]
        exact foldl_cleanStep_up rfl
      rename_i hne
      have hl : kept.getLast? ≠ some dotdot := fun hl => hk (mem_of_getLast? hl)
      rw [if_neg hne, if_neg hl]
      exact ih (fun hi => hk (dropLast_subset _ hi)) h
    · rename_i hup
      rw [if_neg hup]
      refine ih ?_ h
      simp only [mem_append, mem_singleton, not_or]
      exact ⟨hk, Ne.symm hup⟩

end Leading

theorem splitOn_append_slash (dir name : Bytes) :
    (dir ++ slash :: name).splitOn slash = dir.splitOn slash ++ name.splitOn slash := by
  have hd := splitOn_ne_nil slash dir
  have hn := splitOn_ne_nil slash name
  have hj : [slash].intercalate (dir.splitOn slash ++ name.splitOn slash) = dir ++ slash :: name := by
    have ha : render (dir.splitOn slash ++ name.splitOn slash) =
        slash :: [slash].intercalate (dir.splitOn slash ++ name.splitOn slash) :=
      render_eq (by simp [hd])
    have hl := render_eq hd
    have hr := render_eq hn
    rw [render, if_neg (by simp [hd]), flatMap_append] at ha
    rw [render, if_neg hd, intercalate_splitOn] at hl
    rw [render, if_neg hn, intercalate_splitOn] at hr
    rw [hl, hr, cons_append] at ha
    exact (List.cons.inj ha).2.symm
  rw [← hj]
  refine splitOn_intercalate slash (fun part hp => ?_) (by simp [hd])
  rcases mem_append.mp hp with hp | hp
  · exact not_mem_of_mem_splitOn hp
  · exact not_mem_of_mem_splitOn hp

theorem join_inside_iff (name : Bytes) :
    (∀ dir, dir ≠ [] → (FilePath.clean dir).Inside (FilePath.join dir name)) ↔
      ∃ c, descend [] (name.splitOn slash) = some [c] := by
  constructor
  · intro h
    obtain ⟨_, c, hc, hp⟩ := h dot (by decide)
    have hfold : (name.splitOn slash).foldl (cleanStep false) [] = [c] := by
      have hs : (dot ++ slash :: name).splitOn slash = dot :: name.splitOn slash := by
        rw [splitOn_append_slash]
        rfl
      rw [FilePath.join, if_neg (by decide), FilePath.clean, hs] at hp
      exact hp
    cases hd : descend [] (name.splitOn slash) with
    | none =>
      have hup := foldl_cleanStep_of_leaves not_mem_nil hd
      rw [hfold] at hup
      exact absurd (Option.some.inj hup) hc.not_dotdot
    | some ws =>
      have hw := foldl_cleanStep_of_descend [] false not_mem_nil hd
      rw [nil_append, hfold, nil_append] at hw
      exact ⟨c, by rw [hw]⟩
  · rintro ⟨c, hd⟩ dir hdi
    have hhead : (dir ++ slash :: name).head? = dir.head? := by
      cases dir with
      | nil => exact absurd rfl hdi
      | cons x dir => rfl
    rw [FilePath.join, if_neg hdi]
    refine ⟨by rw [FilePath.clean, FilePath.clean, hhead], c, ?_, ?_⟩
    · rcases mem_descend hd (mem_singleton_self c) with hi | ⟨hi, hn, hdo, hup⟩
      · exact absurd hi not_mem_nil
      · exact ⟨hn, not_mem_of_mem_splitOn hi, hdo, hup⟩
    rw [FilePath.clean, FilePath.clean, hhead, splitOn_append_slash, foldl_append]
    have hw := foldl_cleanStep_of_descend
      ((dir.splitOn slash).foldl (cleanStep (dir.head? = some slash)) [])
      (decide (dir.head? = some slash)) not_mem_nil hd
    rw [append_nil] at hw
    exact hw

/-- Two names of prepared files tell their digests apart, each is read back, and both files are
directly in the cache directory, whatever that is. -/
structure NamesIdentify (digest digest' name name' : Bytes) : Prop where
  apart : name = name' → canonicalDigest digest = canonicalDigest digest'
  decodes : decodeRootfsName name = canonicalDigest digest
  decodes' : decodeRootfsName name' = canonicalDigest digest'
  inside : ∀ d ∈ [digest, digest'], ∀ dir, dir ≠ [] →
    ∃ p, pathFor dir d = .ok p ∧ (FilePath.clean dir).Inside p
  removes : ∀ d ∈ [digest, digest'], ∀ dir, dir ≠ [] → ∀ fails files files',
    untagImage fails dir d files = .ok files' → ∀ p ∈ files, p ∉ files' →
      (FilePath.clean dir).Inside p

def PlainDigest (digest name : Bytes) : Prop :=
  (∀ algo hex, splitDigest digest = some (algo, hex) → dash ∉ algo) ∧
    ∃ c, descend [] (name.splitOn slash) = some [c]

section Identifying

variable {digest digest' name name' : Bytes}

section

variable (h : encodeRootfsName digest = .ok name)
include h

theorem decodes_iff :
    decodeRootfsName name = canonicalDigest digest ↔
      ∀ algo hex, splitDigest digest = some (algo, hex) → dash ∉ algo := by
  obtain ⟨algo, hex, hs, rfl⟩ := encodeRootfsName_ok h
  obtain ⟨ha, hh⟩ := splitDigest_nonempty hs
  rw [canonicalDigest, hs, Option.map_some]
  constructor
  · intro hd algo' hex' he hda
    cases he
    exact decodeRootfsName_ne hda hd
  · intro hp
    exact decodeRootfsName_eq ha hh (hp algo hex rfl)

theorem inside_iff :
    (∀ dir, dir ≠ [] → ∃ p, pathFor dir digest = .ok p ∧ (FilePath.clean dir).Inside p) ↔
      ∃ c, descend [] (name.splitOn slash) = some [c] := by
  rw [← join_inside_iff]
  have hpa : ∀ dir, pathFor dir digest = .ok (FilePath.join dir name) := fun dir => by
    rw [pathFor, h]
    rfl
  constructor
  · intro hi dir hd
    obtain ⟨p, hp, hins⟩ := hi dir hd
    rw [hpa] at hp
    cases hp
    exact hins
  · intro hi dir hd
    exact ⟨_, hpa dir, hi dir hd⟩

theorem untagImage_removes {dir : Bytes}
    (hr : untagImage fails dir digest files = .ok files') (hp : p ∈ files) (hg : p ∉ files') :
    p = FilePath.join dir name := by
  rw [untagImage, h] at hr
  replace hr : (if FilePath.join dir name ∈ files then
      if fails then Except.error (StoreErr.removeFailed digest)
      else .ok (files.filter (· ≠ FilePath.join dir name))
    else .ok files) = .ok files' := hr
  split at hr
  · split at hr
    · cases hr
    cases hr
    by_contra hn
    exact hg (mem_filter.mpr ⟨hp, decide_eq_true hn⟩)
  · cases hr
    exact absurd hp hg

end

/-- Two digests that are accepted have names that identify them exactly if both are plain. -/
theorem cache_names_identify_iff (h : encodeRootfsName digest = .ok name)
    (h' : encodeRootfsName digest' = .ok name') :
    NamesIdentify digest digest' name name' ↔ PlainDigest digest name ∧ PlainDigest digest' name' := by
  constructor
  · intro hnames
    exact ⟨⟨(decodes_iff h).mp hnames.decodes, (inside_iff h).mp (hnames.inside digest (.head _))⟩,
      (decodes_iff h').mp hnames.decodes', (inside_iff h').mp (hnames.inside digest' (by simp))⟩
  rintro ⟨⟨hdash, hdown⟩, hdash', hdown'⟩
  have hdecodes := (decodes_iff h).mpr hdash
  have hdecodes' := (decodes_iff h').mpr hdash'
  refine ⟨fun heq => ?_, hdecodes, hdecodes', ?_, ?_⟩
  · rw [← hdecodes, ← hdecodes', heq]
  · refine forall_mem_cons.mpr ⟨(inside_iff h).mpr hdown, ?_⟩
    exact forall_mem_singleton.mpr ((inside_iff h').mpr hdown')
  refine forall_mem_cons.mpr ⟨?_, forall_mem_singleton.mpr ?_⟩
  · intro dir hdir fails files files' hrun p hp hgone
    rw [untagImage_removes h hrun hp hgone]
    exact (join_inside_iff name).mpr hdown dir hdir
  · intro dir hdir fails files files' hrun p hp hgone
    rw [untagImage_removes h' hrun hp hgone]
    exact (join_inside_iff name').mpr hdown' dir hdir

end Identifying

/-- A digest with its algorithm and the same without. -/
theorem bare_digest_identified :
    NamesIdentify (text ['s', 'h', 'a', '2', '5', '6', ':', 'a', 'b']) (text ['a', 'b'])
      (text ['s', 'h', 'a', '2', '5', '6', '-', 'a', 'b', '.', 's', 'q', 's', 'h'])
      (text ['s', 'h', 'a', '2', '5', '6', '-', 'a', 'b', '.', 's', 'q', 's', 'h']) := by
  refine (cache_names_identify_iff (by decide) (by decide)).mpr ⟨⟨fun algo hex h => ?_, ?_⟩,
    fun algo hex h => ?_, ?_⟩
  · cases h
    decide
  · exact ⟨text ['s', 'h', 'a', '2', '5', '6', '-', 'a', 'b', '.', 's', 'q', 's', 'h'], by decide⟩
  · cases h
    decide
  · exact ⟨text ['s', 'h', 'a', '2', '5', '6', '-', 'a', 'b', '.', 's', 'q', 's', 'h'], by decide⟩

/-- Two digests of one name, and one whose file is not in the directory. -/
theorem digests_misnamed : encodeRootfsName (text ['a', '-', 'b', ':', 'c']) =
        .ok (text ['a', '-', 'b', '-', 'c', '.', 's', 'q', 's', 'h']) ∧
      encodeRootfsName (text ['a', ':', 'b', '-', 'c']) =
        .ok (text ['a', '-', 'b', '-', 'c', '.', 's', 'q', 's', 'h']) ∧
      canonicalDigest (text ['a', '-', 'b', ':', 'c']) ≠ canonicalDigest (text ['a', ':', 'b', '-', 'c']) ∧
      ¬NamesIdentify (text ['a', '-', 'b', ':', 'c']) (text ['a', ':', 'b', '-', 'c'])
        (text ['a', '-', 'b', '-', 'c', '.', 's', 'q', 's', 'h'])
        (text ['a', '-', 'b', '-', 'c', '.', 's', 'q', 's', 'h']) ∧
      pathFor (text ['/', 'c']) (text ['x', ':', '/', '.', '.', '/', '.', '.', '/', 'e', '/', 'y']) =
        .ok ⟨true, [text ['e'], text ['y', '.', 's', 'q', 's', 'h']]⟩ := by
  have hapart : canonicalDigest (text ['a', '-', 'b', ':', 'c']) ≠
      canonicalDigest (text ['a', ':', 'b', '-', 'c']) := by decide
  exact ⟨by decide, by decide, hapart, fun h => hapart (h.apart rfl), by decide⟩

end Craftling.Rootfs

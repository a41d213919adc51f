import Craftling.Squashfs.Format

namespace Craftling.Squashfs
open Effects List

def slash : UInt8 := 47

def dot : Bytes := [46]

def dotdot : Bytes := [46, 46]

def text (cs : List Char) : Bytes := cs.map fun c => UInt8.ofNat c.toNat

/-- An entry's path begins with a slash and does not end with one, and none of its components is
empty, "." or "..". -/
def validatePath (p : Bytes) : Except Err Unit :=
  if p = [] ∨ p = [slash] then .error .invalidPath
  else if p.head? ≠ some slash then .error .invalidPath
  else if p.getLast? = some slash then .error .invalidPath
  else if ∃ part ∈ (p.drop 1).splitOn slash, part = [] ∨ part = dot ∨ part = dotdot then
    .error .invalidPath
  else .ok ()

def tidy (parts : List Bytes) : List Bytes :=
  parts.foldl
    (fun kept part =>
      if part = [] ∨ part = dot then kept
      else if part = dotdot then kept.dropLast
      else kept ++ [part])
    []

/-- The path with these components. That of none is the root's. -/
def render (cs : List Bytes) : Bytes :=
  if cs = [] then [slash] else cs.flatMap (slash :: ·)

/-- `path.Clean`, for paths that begin with a slash. -/
def clean (p : Bytes) : Bytes := render (tidy (p.splitOn slash))

def pathDir (p : Bytes) : Bytes := clean (p.reverse.dropWhile (· ≠ slash)).reverse

def pathBase (p : Bytes) : Bytes :=
  if p = [] then dot
  else
    let base := ((p.reverse.dropWhile (· = slash)).takeWhile (· ≠ slash)).reverse
    if base = [] then [slash] else base

def joinPath (dir name : Bytes) : Bytes :=
  if dir = [slash] then slash :: name else dir ++ slash :: name

structure IsName (c : Bytes) : Prop where
  nonempty : c ≠ []
  whole : slash ∉ c
  not_dot : c ≠ dot
  not_dotdot : c ≠ dotdot

structure Canonical (cs : List Bytes) : Prop where
  names : ∀ c ∈ cs, IsName c

theorem intercalate_nil_cons (s : α) (ls : List (List α)) :
    [s].intercalate ([] :: ls) = ls.flatMap (s :: ·) := by
  induction ls with
  | nil => rfl
  | cons a ls ih =>
    rw [intercalate_cons_cons, flatMap_cons]
    cases ls with
    | nil => simp
    | cons b ls =>
      rw [intercalate_cons_cons] at ih ⊢
      rw [← ih]
      simp

theorem not_mem_of_mem_splitOn {l part : Bytes} (h : part ∈ l.splitOn s) : s ∉ part := by
  induction l generalizing part with
  | nil =>
    rw [splitOn_nil, mem_singleton] at h
    rw [h]
    exact not_mem_nil
  | cons x l ih =>
    rw [splitOn_cons_eq_if_modifyHead] at h
    split at h
    · rcases mem_cons.mp h with rfl | h
      · exact not_mem_nil
      · exact ih h
    rename_i hx
    cases hp : l.splitOn s with
    | nil => exact absurd hp (splitOn_ne_nil s l)
    | cons a parts =>
      rw [hp] at h ih
      rw [modifyHead_cons] at h
      rcases mem_cons.mp h with rfl | h
      · intro hs
        rcases mem_cons.mp hs with rfl | hs
        · simp at hx
        · exact ih (.head _) hs
      · exact ih (.tail _ h)

variable {c : Bytes}

theorem Canonical.init (h : Canonical (cs ++ [c])) : Canonical cs :=
  ⟨fun x hx => h.names x (mem_append_left _ hx)⟩

theorem Canonical.last (h : Canonical (cs ++ [c])) : IsName c :=
  h.names c (mem_append_right _ (mem_singleton_self c))

theorem Canonical.concat (h : Canonical cs) (hc : IsName c) : Canonical (cs ++ [c]) := by
  refine ⟨fun x hx => ?_⟩
  rcases mem_append.mp hx with hx | hx
  · exact h.names x hx
  · exact mem_singleton.mp hx ▸ hc

theorem render_eq (h : cs ≠ []) : render cs = slash :: [slash].intercalate cs := by
  rw [render, if_neg h, ← intercalate_nil_cons]
  cases cs with
  | nil => exact absurd rfl h
  | cons c cs =>
    rw [intercalate_cons_cons]
    rfl

theorem render_concat (cs : List Bytes) (c : Bytes) :
    render (cs ++ [c]) = cs.flatMap (slash :: ·) ++ slash :: c := by
  rw [render, if_neg (by simp), flatMap_append, flatMap_singleton]

theorem splitOn_render (hcs : cs ≠ []) (h : Canonical cs) :
    ((render cs).drop 1).splitOn slash = cs := by
  rw [render_eq hcs, drop_one, tail_cons]
  exact splitOn_intercalate slash (fun c hc => (h.names c hc).whole) hcs

theorem render_ne_root (hc : cs ≠ []) (h : Canonical cs) : render cs ≠ [slash] := by
  intro hr
  have hp := splitOn_render hc h
  rw [hr, drop_one, tail_cons, splitOn_nil] at hp
  exact (h.names [] (hp ▸ mem_singleton_self _)).nonempty rfl

theorem render_getLast? (hcs : cs ≠ []) (h : Canonical cs) : (render cs).getLast? ≠ some slash := by
  obtain ⟨ds, c, rfl⟩ : ∃ ds c, cs = ds ++ [c] :=
    ⟨cs.dropLast, cs.getLast hcs, (dropLast_append_getLast hcs).symm⟩
  rw [render_concat]
  intro hs
  have hc := h.last
  rw [List.getLast?_append, List.getLast?_cons] at hs
  cases he : c.getLast? with
  | none => exact hc.nonempty (List.getLast?_eq_none_iff.mp he)
  | some y =>
    rw [he] at hs
    simp only [Option.getD_some, Option.some_or, Option.some.injEq] at hs
    exact hc.whole (hs ▸ mem_of_getLast? he)

theorem validatePath_ok_iff :
    validatePath p = .ok () ↔ ∃ cs, cs ≠ [] ∧ Canonical cs ∧ p = render cs := by
  constructor
  · intro h
    unfold validatePath at h
    split at h
    · cases h
    split at h
    · cases h
    split at h
    · cases h
    split at h
    · cases h
    rename_i hhead _ hp
    match p, hhead, hp with
    | x :: q, hhead, hp =>
      obtain rfl : x = slash := by simpa using hhead
      refine ⟨q.splitOn slash, splitOn_ne_nil slash q, ⟨fun c hc => ?_⟩, ?_⟩
      · have hpl : ¬(c = [] ∨ c = dot ∨ c = dotdot) := fun hb => hp ⟨c, hc, hb⟩
        rw [not_or, not_or] at hpl
        exact ⟨hpl.1, not_mem_of_mem_splitOn hc, hpl.2.1, hpl.2.2⟩
      · rw [render_eq (splitOn_ne_nil slash q), intercalate_splitOn]
  · rintro ⟨cs, hcs, hn, rfl⟩
    have hp := splitOn_render hcs hn
    unfold validatePath
    rw [if_neg, if_neg, if_neg (render_getLast? hcs hn), if_neg]
    · rintro ⟨part, hpa, hb⟩
      rw [hp] at hpa
      have hna := hn.names part hpa
      rcases hb with rfl | rfl | rfl
      · exact hna.nonempty rfl
      · exact hna.not_dot rfl
      · exact hna.not_dotdot rfl
    · rw [render_eq hcs]
      simp
    · rintro (hni | hr)
      · rw [render_eq hcs] at hni
        cases hni
      · exact render_ne_root hcs hn hr

theorem tidy_fold (h : Canonical cs) (kept : List Bytes) : cs.foldl (fun kept part =>
      if part = [] ∨ part = dot then kept
      else if part = dotdot then kept.dropLast
      else kept ++ [part]) kept = kept ++ cs := by
  induction cs generalizing kept with
  | nil => exact (append_nil kept).symm
  | cons c cs ih =>
    have hc := h.names c (.head _)
    have hp : ¬(c = [] ∨ c = dot) := not_or.mpr ⟨hc.nonempty, hc.not_dot⟩
    rw [foldl_cons, if_neg hp, if_neg hc.not_dotdot,
      ih ⟨fun x hx => h.names x (.tail _ hx)⟩, append_assoc, singleton_append]

theorem pathDir_render (h : Canonical (cs ++ [c])) : pathDir (render (cs ++ [c])) = render cs := by
  have hd : ((render (cs ++ [c])).reverse.dropWhile (· ≠ slash)).reverse =
      cs.flatMap (slash :: ·) ++ [slash] := by
    rw [render_concat, reverse_append, reverse_cons, append_assoc,
      dropWhile_append_of_pos fun x hx => ?_]
    · simp
    · have hx' := mem_reverse.mp hx
      simpa using fun hs : x = slash => h.last.whole (hs ▸ hx')
  have hsp : (cs.flatMap (slash :: ·) ++ [slash]).splitOn slash = [] :: (cs ++ [[]]) := by
    have hj : cs.flatMap (slash :: ·) ++ [slash] = [slash].intercalate ([] :: (cs ++ [[]])) := by
      rw [intercalate_nil_cons, flatMap_append, flatMap_singleton]
    rw [hj]
    refine splitOn_intercalate slash (fun part hp => ?_) (cons_ne_nil _ _)
    rcases mem_cons.mp hp with rfl | hp
    · exact not_mem_nil
    rcases mem_append.mp hp with hp | hp
    · exact (h.init.names part hp).whole
    · rw [mem_singleton.mp hp]
      exact not_mem_nil
  rw [pathDir, clean, hd, hsp, tidy, foldl_cons, foldl_append, if_pos (.inl rfl),
    tidy_fold h.init, foldl_cons, if_pos (.inl rfl), foldl_nil, nil_append]

theorem pathBase_render (h : Canonical (cs ++ [c])) : pathBase (render (cs ++ [c])) = c := by
  have hc := h.last
  have hw : ∀ x ∈ c.reverse, x ≠ slash := fun x hx hs =>
    hc.whole (hs ▸ mem_reverse.mp hx)
  have hre : (render (cs ++ [c])).reverse =
      c.reverse ++ slash :: (cs.flatMap (slash :: ·)).reverse := by
    rw [render_concat, reverse_append, reverse_cons, append_assoc, singleton_append]
  have hd : (render (cs ++ [c])).reverse.dropWhile (· = slash) = (render (cs ++ [c])).reverse := by
    rw [hre]
    cases hr : c.reverse with
    | nil => exact absurd (reverse_eq_nil_iff.mp hr) hc.nonempty
    | cons y ys =>
      have hy : y ≠ slash := hw y (hr ▸ mem_cons_self ..)
      simp [hy]
  have ht : (render (cs ++ [c])).reverse.takeWhile (· ≠ slash) = c.reverse := by
    rw [hre, takeWhile_append_of_pos fun x hx => by simpa using hw x hx]
    simp
  have hn : render (cs ++ [c]) ≠ [] := by
    rw [render_concat]
    simp
  rw [pathBase, if_neg hn, hd, ht, reverse_reverse, if_neg hc.nonempty]

theorem joinPath_render (h : Canonical cs) (c : Bytes) :
    joinPath (render cs) c = render (cs ++ [c]) := by
  rw [joinPath, render_concat]
  by_cases hc : cs = []
  · subst hc
    rfl
  · rw [if_neg (render_ne_root hc h), render, if_neg hc]

theorem render_injective (hc : Canonical cs) (hd : Canonical ds) (h : render cs = render ds) :
    cs = ds := by
  by_cases hcs : cs = []
  · subst hcs
    by_contra hn
    exact render_ne_root (Ne.symm hn) hd h.symm
  by_cases hds : ds = []
  · subst hds
    exact absurd h (render_ne_root hcs hc)
  · rw [← splitOn_render hcs hc, h, splitOn_render hds hd]

end Craftling.Squashfs

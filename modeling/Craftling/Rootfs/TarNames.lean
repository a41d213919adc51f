import Craftling.Squashfs.Paths

namespace Craftling.Rootfs
open Effects Squashfs List

def trimPrefix (lead s : Bytes) : Bytes := if lead <+: s then s.drop lead.length else s

def trimSuffix (trail s : Bytes) : Bytes :=
  if trail <:+ s then s.take (s.length - trail.length) else s

def dotSlash : Bytes := [46, 47]

def trimName (name : Bytes) : Bytes := trimSuffix [slash] (trimPrefix dotSlash name)

/-- The path of an entry of the archive. The archive's own root has an empty one, and names that are
not admitted have none. -/
def normalizeTarPath (name : Bytes) : Option Bytes :=
  if name = [] ∨ 0 ∈ name then none
  else if name = dot ∨ name = [slash] ∨ name = dotSlash then some []
  else if (trimPrefix dotSlash name).head? = some slash then none
  else if trimName name = [] then none
  else if ∃ seg ∈ (trimName name).splitOn slash, seg = [] ∨ seg = dot ∨ seg = dotdot then none
  else some (slash :: trimName name)

def ArchiveRoot (name : Bytes) : Prop := name = dot ∨ name = [slash] ∨ name = dotSlash

instance (name : Bytes) : Decidable (ArchiveRoot name) :=
  inferInstanceAs (Decidable (_ ∨ _ ∨ _))

/-- Segments with slashes between them, a "./" before them or not, and a slash after them or not. -/
structure TarForm (name : Bytes) (segs : List Bytes) : Prop where
  nonempty : segs ≠ []
  names : Canonical segs
  spelled : ∃ lead ∈ [[], dotSlash], ∃ trail ∈ [[], [slash]],
    name = lead ++ [slash].intercalate segs ++ trail

theorem trimPrefix_append (lead s : Bytes) : trimPrefix lead (lead ++ s) = s := by
  rw [trimPrefix, if_pos (prefix_append ..), drop_left]

theorem trimSuffix_append (s trail : Bytes) : trimSuffix trail (s ++ trail) = s := by
  rw [trimSuffix, if_pos (suffix_append ..), length_append, Nat.add_sub_cancel, take_left]

theorem eq_of_trimPrefix (lead s : Bytes) : ∃ x ∈ [[], lead], s = x ++ trimPrefix lead s := by
  rw [trimPrefix]
  split
  · rename_i hl
    obtain ⟨rest, rfl⟩ := hl
    exact ⟨lead, by simp, by rw [drop_left]⟩
  · exact ⟨[], by simp, rfl⟩

theorem eq_of_trimSuffix (trail s : Bytes) : ∃ x ∈ [[], trail], s = trimSuffix trail s ++ x := by
  rw [trimSuffix]
  split
  · rename_i ht
    obtain ⟨rest, rfl⟩ := ht
    refine ⟨trail, by simp, ?_⟩
    rw [length_append, Nat.add_sub_cancel, take_left]
  · exact ⟨[], by simp, (append_nil s).symm⟩

theorem trimPrefix_name (hc : IsName c) (rest : Bytes) :
    trimPrefix dotSlash (c ++ rest) = c ++ rest := by
  apply if_neg
  rintro ⟨t, ht⟩
  match c, hc, ht with
  | [], hc, _ => exact hc.nonempty rfl
  | [x], hc, ht =>
    simp only [dotSlash, cons_append, nil_append, List.cons.injEq] at ht
    exact hc.not_dot (by rw [← ht.1]; rfl)
  | x :: y :: c, hc, ht =>
    simp only [dotSlash, cons_append, nil_append, List.cons.injEq] at ht
    exact hc.whole (by rw [← ht.2.1]; simp [slash])

theorem trimSuffix_of_getLast? (h : s.getLast? ≠ some slash) : trimSuffix [slash] s = s := by
  apply if_neg
  rintro ⟨t, rfl⟩
  exact h (by simp)

section Segments

variable {name p : Bytes} {segs : List Bytes}

theorem intercalate_cons_eq (c : Bytes) (cs : List Bytes) :
    [slash].intercalate (c :: cs) = c ++ cs.flatMap (slash :: ·) := by
  have hr := render_eq (cons_ne_nil c cs)
  rw [render, if_neg (cons_ne_nil c cs), flatMap_cons, cons_append] at hr
  exact (List.cons.inj hr).2.symm

theorem intercalate_ne_nil (hs : segs ≠ []) (h : Canonical segs) :
    [slash].intercalate segs ≠ [] := by
  intro hn
  have hr := render_eq hs
  rw [hn] at hr
  exact render_ne_root hs h hr

theorem trimSuffix_intercalate (hs : segs ≠ []) (h : Canonical segs) :
    trimSuffix [slash] ([slash].intercalate segs) = [slash].intercalate segs := by
  apply trimSuffix_of_getLast?
  have hl := render_getLast? hs h
  rw [render_eq hs, List.getLast?_cons_of_ne_nil (intercalate_ne_nil hs h)] at hl
  exact hl

theorem TarForm.trimPrefix (h : TarForm name segs) :
    ∃ trail ∈ [[], [slash]], trimPrefix dotSlash name = [slash].intercalate segs ++ trail := by
  obtain ⟨lead, hl, trail, ht, rfl⟩ := h.spelled
  refine ⟨trail, ht, ?_⟩
  rw [mem_cons, mem_singleton] at hl
  rcases hl with rfl | rfl
  · obtain ⟨c, cs, rfl⟩ := exists_cons_of_ne_nil h.nonempty
    rw [nil_append, intercalate_cons_eq, append_assoc]
    exact trimPrefix_name (h.names.names c (.head _)) _
  · rw [append_assoc, trimPrefix_append]

theorem TarForm.trimName (h : TarForm name segs) : trimName name = [slash].intercalate segs := by
  obtain ⟨trail, ht, he⟩ := h.trimPrefix
  rw [Rootfs.trimName, he]
  rw [mem_cons, mem_singleton] at ht
  rcases ht with rfl | rfl
  · rw [append_nil]
    exact trimSuffix_intercalate h.nonempty h.names
  · exact trimSuffix_append ..

theorem tarForm_of_trimName (hs : segs ≠ []) (hn : Canonical segs)
    (h : trimName name = [slash].intercalate segs) : TarForm name segs := by
  obtain ⟨lead, hl, hna⟩ := eq_of_trimPrefix dotSlash name
  obtain ⟨trail, ht, hr⟩ := eq_of_trimSuffix [slash] (trimPrefix dotSlash name)
  refine ⟨hs, hn, lead, hl, trail, ht, ?_⟩
  rw [← h, Rootfs.trimName, append_assoc, ← hr]
  exact hna

theorem TarForm.head (h : TarForm name segs) : (Rootfs.trimPrefix dotSlash name).head? ≠ some slash := by
  obtain ⟨trail, _, he⟩ := h.trimPrefix
  obtain ⟨c, cs, rfl⟩ := exists_cons_of_ne_nil h.nonempty
  have hc := h.names.names c (.head _)
  obtain ⟨x, c, rfl⟩ := exists_cons_of_ne_nil hc.nonempty
  rw [he, intercalate_cons_eq]
  simp only [cons_append, List.head?_cons, ne_eq, Option.some.injEq]
  intro hx
  exact hc.whole (hx ▸ mem_cons_self ..)

theorem normalizeTarPath_eq_some_iff (hr : ¬ArchiveRoot name) :
    normalizeTarPath name = some p ↔ 0 ∉ name ∧ ∃ segs, TarForm name segs ∧ p = render segs := by
  constructor
  · intro h
    unfold normalizeTarPath at h
    split at h
    · cases h
    split at h
    · exact absurd ‹_› hr
    split at h
    · cases h
    split at h
    · cases h
    split at h
    · cases h
    rename_i hpl _ _ _ hs
    cases h
    rw [not_or] at hpl
    refine ⟨hpl.2, (trimName name).splitOn slash, tarForm_of_trimName
      (splitOn_ne_nil slash _) ⟨fun c hc => ?_⟩ (intercalate_splitOn ..).symm, ?_⟩
    · have hg : ¬(c = [] ∨ c = dot ∨ c = dotdot) := fun hb => hs ⟨c, hc, hb⟩
      rw [not_or, not_or] at hg
      exact ⟨hg.1, not_mem_of_mem_splitOn hc, hg.2.1, hg.2.2⟩
    · rw [render_eq (splitOn_ne_nil slash _), intercalate_splitOn]
  · rintro ⟨hn, segs, hf, hp⟩
    have ht := hf.trimName
    have hne := intercalate_ne_nil hf.nonempty hf.names
    have hsp : (trimName name).splitOn slash = segs := by
      rw [ht]
      exact splitOn_intercalate slash (fun c hc => (hf.names.names c hc).whole) hf.nonempty
    have hna : ¬(name = [] ∨ 0 ∈ name) := by
      rw [not_or]
      refine ⟨fun hni => hne ?_, hn⟩
      rw [← ht, hni]
      rfl
    have hspe : ¬(name = dot ∨ name = [slash] ∨ name = dotSlash) := hr
    unfold normalizeTarPath
    rw [if_neg hna, if_neg hspe, if_neg hf.head, if_neg (ht ▸ hne), if_neg, ht, hp,
      render_eq hf.nonempty]
    rintro ⟨seg, hse, hb⟩
    rw [hsp] at hse
    have hg := hf.names.names seg hse
    rcases hb with rfl | rfl | rfl
    · exact hg.nonempty rfl
    · exact hg.not_dot rfl
    · exact hg.not_dotdot rfl

theorem normalizeTarPath_root (h : ArchiveRoot name) : normalizeTarPath name = some [] := by
  rcases h with rfl | rfl | rfl
  · decide
  · decide
  · decide

/-- Which names are admitted, that the writer lets their paths through, and which of them have the
same path. -/
theorem tar_name_grammar : (∀ name, (∃ p, normalizeTarPath name = some p) ↔
      ArchiveRoot name ∨ (0 ∉ name ∧ ∃ segs, TarForm name segs)) ∧
    (∀ name p, ¬ArchiveRoot name → normalizeTarPath name = some p → validatePath p = .ok ()) ∧
    (∀ name name' p p', ¬ArchiveRoot name → ¬ArchiveRoot name' → normalizeTarPath name = some p →
      normalizeTarPath name' = some p' → (p = p' ↔ trimName name = trimName name')) := by
  refine ⟨fun name => ?_, fun name p hroot h => ?_, fun name name' p p' hroot hroot' h h' => ?_⟩
  · by_cases hroot : ArchiveRoot name
    · exact ⟨fun _ => .inl hroot, fun _ => ⟨[], normalizeTarPath_root hroot⟩⟩
    constructor
    · rintro ⟨p, hp⟩
      obtain ⟨hnul, segs, hform, _⟩ := (normalizeTarPath_eq_some_iff hroot).mp hp
      exact .inr ⟨hnul, segs, hform⟩
    · intro h
      obtain ⟨hnul, segs, hform⟩ := h.resolve_left hroot
      exact ⟨_, (normalizeTarPath_eq_some_iff hroot).mpr ⟨hnul, segs, hform, rfl⟩⟩
  · obtain ⟨_, segs, hform, rfl⟩ := (normalizeTarPath_eq_some_iff hroot).mp h
    exact validatePath_ok_iff.mpr ⟨segs, hform.nonempty, hform.names, rfl⟩
  · obtain ⟨_, segs, hform, rfl⟩ := (normalizeTarPath_eq_some_iff hroot).mp h
    obtain ⟨_, segs', hform', rfl⟩ := (normalizeTarPath_eq_some_iff hroot').mp h'
    rw [hform.trimName, hform'.trimName, render_eq hform.nonempty,
      render_eq hform'.nonempty, cons_inj_right]

end Segments

/-- A directory's name in two spellings. -/
theorem two_spellings_same_path :
    normalizeTarPath (text ['.', '/', 'a', '/', 'b', '/']) = some (text ['/', 'a', '/', 'b']) ∧
      normalizeTarPath (text ['a', '/', 'b']) = some (text ['/', 'a', '/', 'b']) ∧
      trimName (text ['.', '/', 'a', '/', 'b', '/']) = trimName (text ['a', '/', 'b']) := by
  have h : normalizeTarPath (text ['.', '/', 'a', '/', 'b', '/']) = some (text ['/', 'a', '/', 'b']) := by
    decide
  have h' : normalizeTarPath (text ['a', '/', 'b']) = some (text ['/', 'a', '/', 'b']) := by decide
  exact ⟨h, h', (tar_name_grammar.2.2 _ _ _ _ (by decide) (by decide) h h').mp rfl⟩

end Craftling.Rootfs

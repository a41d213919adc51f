import Craftling.Squashfs.Created

namespace Craftling.Squashfs
open Effects List

def Entry.isFile (e : Entry) : Bool :=
  match e.kind with
  | .file .. => true
  | _ => false

structure SoundEntries (entries : List Entry) : Prop where
  nodup : (entries.map Entry.path).Nodup
  valid : ∀ e ∈ entries, ∃ cs, cs ≠ [] ∧ Canonical cs ∧ e.path = render cs
  links : ∀ e ∈ entries, ∀ t, e.kind = .hardlink t → ∃ f ∈ entries, f.path = t ∧ f.isFile

theorem Settled.soundEntries (hw : Settled expand w items) : SoundEntries w.entries := by
  have hit := hw.sound
  have h := hw.entries
  refine ⟨paths_eq h ▸ hit.nodup, fun e he => ?_, fun e he t ht => ?_⟩
  · obtain ⟨i, hi, hei⟩ := forall₂_of_mem_left h he
    exact hei.path ▸ hit.valid i hi
  obtain ⟨i, hi, hei⟩ := forall₂_of_mem_left h he
  have hb : i.body = .hardlink t := by
    have hk := hei.kind
    rw [ht] at hk
    generalize i.body = body at hk
    cases hk
    rfl
  obtain ⟨j, hj, hp, d, hd⟩ := hit.links i hi t hb
  obtain ⟨f, hf, hfj⟩ := forall₂_of_mem_right h hj
  refine ⟨f, hf, hfj.path.trans hp, ?_⟩
  have hk := hfj.kind
  rw [hd] at hk
  rw [Entry.isFile]
  generalize f.kind = kind at hk
  cases hk
  rfl

namespace SoundEntries

variable {entries : List Entry} {e : Entry}

section

variable (h : SoundEntries entries) (he : e ∈ entries)
include h he

theorem eq_of_path (hf : f ∈ entries) (hp : e.path = f.path) : e = f :=
  inj_on_of_nodup_map h.nodup he hf hp

theorem ne_root : e.path ≠ [slash] := by
  obtain ⟨cs, hc, hca, hp⟩ := h.valid e he
  exact hp ▸ render_ne_root hc hca

theorem find?_eq : entries.find? (·.path = e.path) = some e := by
  cases hf : entries.find? (·.path = e.path) with
  | none => exact absurd (decide_eq_true rfl) (List.find?_eq_none.mp hf e he)
  | some f =>
    have hp : f.path = e.path := by simpa using List.find?_some hf
    rw [h.eq_of_path (mem_of_find?_eq_some hf) he hp]

end

end SoundEntries

def Forest.preorder : Forest → List Entry
  | .nil => []
  | .cons e below rest => e :: (below.preorder ++ rest.preorder)

/-- A forest of the directory with these components: every entry has a name there, and only
directories have something below them. -/
inductive Placed : List Bytes → Forest → Prop
  | nil {cs} : Placed cs .nil
  | cons {cs c e below rest} (name : IsName c) (path : e.path = render (cs ++ [c]))
    (leaf : e.isDir = false → below = .nil) (hbelow : Placed (cs ++ [c]) below)
    (hrest : Placed cs rest) : Placed cs (.cons e below rest)

def Forest.Levels (P : List Entry → Prop) : Forest → Prop
  | .nil => True
  | .cons _ below rest => P below.heads ∧ below.Levels P ∧ rest.Levels P

abbrev row (g : Entry → Forest) (l : List Entry) : Forest :=
  l.foldr (fun e rest => .cons e (g e) rest) .nil

@[simp] theorem heads_row (l : List Entry) : (row g l).heads = l := by
  induction l with
  | nil => rfl
  | cons e l ih => exact congrArg (e :: ·) ih

theorem preorder_row (l : List Entry) :
    (row g l).preorder = l.flatMap fun e => e :: (g e).preorder := by
  induction l with
  | nil => rfl
  | cons e l ih =>
    rw [flatMap_cons, ← ih]
    rfl

theorem levels_row {P : List Entry → Prop} (h : ∀ e ∈ l, P (g e).heads ∧ (g e).Levels P) :
    (row g l).Levels P := by
  induction l with
  | nil => trivial
  | cons e l ih =>
    have hhead := h e (.head _)
    exact ⟨hhead.1, hhead.2, ih fun x hx => h x (.tail _ hx)⟩

section Growing

variable {entries : List Entry} {e : Entry} {cs : List Bytes} {fuel : Nat}

theorem mem_childrenOf {dir : Bytes} :
    e ∈ childrenOf entries dir ↔ e ∈ entries ∧ pathDir e.path = dir := by
  rw [childrenOf, mem_insertionSort, mem_filter, decide_eq_true_eq]

theorem SoundEntries.child (h : SoundEntries entries) (hcs : Canonical cs) :
    e ∈ childrenOf entries (render cs) ↔
      e ∈ entries ∧ ∃ c, IsName c ∧ e.path = render (cs ++ [c]) := by
  rw [mem_childrenOf]
  refine and_congr_right fun he => ⟨fun hd => ?_, fun ⟨c, hc, hp⟩ => ?_⟩
  · obtain ⟨ds, hds, hca, hp⟩ := h.valid e he
    obtain ⟨init, c, rfl⟩ := (eq_nil_or_concat' ds).resolve_left hds
    rw [hp, pathDir_render hca] at hd
    exact ⟨c, hca.last, render_injective hca.init hcs hd ▸ hp⟩
  · rw [hp]
    exact pathDir_render (hcs.concat hc)

theorem childrenOf_sorted (dir : Bytes) :
    (childrenOf entries dir).Pairwise fun a b => pathBase a.path ≤ pathBase b.path := by
  have : Std.Total fun a b : Entry => pathBase a.path ≤ pathBase b.path :=
    ⟨fun _ _ => List.le_total _ _⟩
  have : IsTrans Entry fun a b => pathBase a.path ≤ pathBase b.path := ⟨fun _ _ _ => List.le_trans⟩
  exact pairwise_insertionSort _ _

theorem childrenOf_nodup (h : SoundEntries entries) (dir : Bytes) :
    ((childrenOf entries dir).map Entry.path).Nodup := by
  have hp := perm_insertionSort (fun a b : Entry => pathBase a.path ≤ pathBase b.path)
    (entries.filter fun e => pathDir e.path = dir)
  rw [childrenOf, (hp.map Entry.path).nodup_iff]
  exact h.nodup.sublist (filter_sublist.map Entry.path)

theorem grow_placed (h : SoundEntries entries) (fuel : Nat) (hcs : Canonical cs) :
    Placed cs (grow entries fuel (render cs)) := by
  induction fuel generalizing cs with
  | zero => exact .nil
  | succ fuel ih =>
    have hr : ∀ l : List Entry, (∀ e ∈ l, e ∈ childrenOf entries (render cs)) →
        Placed cs (row (fun e => if e.isDir then grow entries fuel e.path else .nil) l) := by
      intro l hl
      induction l with
      | nil => exact .nil
      | cons e l ihl =>
        obtain ⟨_, c, hc, hp⟩ := (h.child hcs).mp (hl e (.head _))
        refine .cons hc hp (fun hd => if_neg (by simp [hd])) ?_ (ihl fun x hx => hl x (.tail _ hx))
        dsimp only
        split
        · exact hp ▸ ih (hcs.concat hc)
        · exact .nil
    exact hr _ fun _ he => he

theorem grow_levels {P : List Entry → Prop} (hn : P []) (hd : ∀ dir, P (childrenOf entries dir))
    (fuel : Nat) (dir : Bytes) :
    P (grow entries fuel dir).heads ∧ (grow entries fuel dir).Levels P := by
  induction fuel generalizing dir with
  | zero => exact ⟨hn, trivial⟩
  | succ fuel ih =>
    refine ⟨(heads_row _).symm ▸ hd dir, levels_row fun e _ => ?_⟩
    split
    · exact ih e.path
    · exact ⟨hn, trivial⟩

theorem mem_grow (h : SoundEntries entries) (hcs : Canonical cs)
    (he : e ∈ (grow entries fuel (render cs)).preorder) :
    e ∈ entries ∧ ∃ c ds, Canonical (cs ++ c :: ds) ∧ e.path = render (cs ++ c :: ds) := by
  induction fuel generalizing cs with
  | zero => exact absurd he not_mem_nil
  | succ fuel ih =>
    rw [grow, preorder_row, mem_flatMap] at he
    obtain ⟨d, hd, he⟩ := he
    obtain ⟨hm, c, hc, hp⟩ := (h.child hcs).mp hd
    rcases mem_cons.mp he with rfl | he
    · exact ⟨hm, c, [], hcs.concat hc, hp⟩
    split at he
    · rw [hp] at he
      obtain ⟨hi, c', ds, hca, hb⟩ := ih (hcs.concat hc) he
      rw [append_assoc] at hca hb
      exact ⟨hi, c, c' :: ds, hca, hb⟩
    · exact absurd he not_mem_nil

theorem mem_under (h : SoundEntries entries) (hc : Canonical (cs ++ [c]))
    (hp : e.path = render (cs ++ [c]))
    (hx : x ∈ e :: (if e.isDir then grow entries fuel e.path else .nil).preorder) :
    ∃ ds, Canonical (cs ++ c :: ds) ∧ x.path = render (cs ++ c :: ds) := by
  rcases mem_cons.mp hx with rfl | hx
  · exact ⟨[], hc, hp⟩
  split at hx
  · rw [hp] at hx
    obtain ⟨_, c', ds, hca, hb⟩ := mem_grow h hc hx
    rw [append_assoc] at hca hb
    exact ⟨c' :: ds, hca, hb⟩
  · exact absurd hx not_mem_nil

theorem grow_nodup (h : SoundEntries entries) (fuel : Nat) (hcs : Canonical cs) :
    (grow entries fuel (render cs)).preorder.Nodup := by
  induction fuel generalizing cs with
  | zero => exact nodup_nil
  | succ fuel ih =>
    rw [grow, preorder_row, nodup_flatMap]
    refine ⟨fun e he => ?_, ?_⟩
    · obtain ⟨_, c, hc, hp⟩ := (h.child hcs).mp he
      split
      · rw [hp, nodup_cons]
        refine ⟨fun hs => ?_, ih (hcs.concat hc)⟩
        obtain ⟨_, c', ds, hca, hb⟩ := mem_grow h (hcs.concat hc) hs
        have hl := congrArg List.length (render_injective (hcs.concat hc) hca (hp.symm.trans hb))
        simp at hl
      · exact pairwise_singleton _ _
    · refine (pairwise_map.mp (childrenOf_nodup h (render cs))).imp_of_mem ?_
      intro e f he hf hn x hxe hxf
      obtain ⟨_, c, hc, hp⟩ := (h.child hcs).mp he
      obtain ⟨_, c', hc', hp'⟩ := (h.child hcs).mp hf
      obtain ⟨ds, hca, hx⟩ := mem_under h (hcs.concat hc) hp hxe
      obtain ⟨ds', hca', hx'⟩ := mem_under h (hcs.concat hc') hp' hxf
      have hsa := append_cancel_left (render_injective hca hca' (hx.symm.trans hx'))
      rw [List.cons.injEq] at hsa
      exact hn (by rw [hp, hp', hsa.1])

theorem checkParent_ok (h : checkParent entries e = .ok ()) :
    pathDir e.path = [slash] ∨ ∃ d ∈ entries, d.path = pathDir e.path ∧ d.isDir := by
  unfold checkParent at h
  split at h
  · exact .inl ‹_›
  split at h
  · cases h
  · rename_i d hf
    split at h
    · refine .inr ⟨d, mem_of_find?_eq_some hf, ?_, ‹_›⟩
      simpa using List.find?_some hf
    · cases h

theorem ancestor_dir (hp : ∀ e ∈ entries, checkParent entries e = .ok ()) (hc : cs ≠ [])
    (hds : ds ≠ []) (he : e ∈ entries) (hpa : e.path = render (cs ++ ds))
    (hca : Canonical (cs ++ ds)) : ∃ d ∈ entries, d.path = render cs ∧ d.isDir := by
  induction ds using List.reverseRecOn generalizing e with
  | nil => exact absurd rfl hds
  | append_singleton ds c ih =>
    rw [← append_assoc] at hpa hca
    have hdi : pathDir e.path = render (cs ++ ds) := hpa ▸ pathDir_render hca
    have hr : render (cs ++ ds) ≠ [slash] := render_ne_root (by simp [hc]) hca.init
    obtain ⟨d, hd, hdp, hi⟩ := (checkParent_ok (hp e he)).resolve_left (hdi ▸ hr)
    rw [hdi] at hdp
    by_cases hem : ds = []
    · rw [hem, append_nil] at hdp
      exact ⟨d, hd, hdp, hi⟩
    · exact ih hem hd hdp hca.init

theorem mem_grow_of_below (h : SoundEntries entries)
    (hp : ∀ e ∈ entries, checkParent entries e = .ok ()) {fuel : Nat} {cs ds : List Bytes}
    (hds : ds ≠ []) (hf : ds.length ≤ fuel) {e : Entry} (he : e ∈ entries)
    (hpa : e.path = render (cs ++ ds)) (hca : Canonical (cs ++ ds)) :
    e ∈ (grow entries fuel (render cs)).preorder := by
  induction fuel generalizing cs ds with
  | zero => exact absurd (length_eq_zero_iff.mp (Nat.le_zero.mp hf)) hds
  | succ fuel ih =>
    obtain ⟨c, ds, rfl⟩ := exists_cons_of_ne_nil hds
    have hcs : Canonical cs := ⟨fun x hx => hca.names x (mem_append_left _ hx)⟩
    have hc : IsName c := hca.names c (by simp)
    rw [grow, preorder_row, mem_flatMap]
    by_cases hem : ds = []
    · subst hem
      exact ⟨e, (h.child hcs).mpr ⟨he, c, hc, hpa⟩, mem_cons_self ..⟩
    · rw [append_cons] at hpa hca
      obtain ⟨d, hd, hdp, hi⟩ := ancestor_dir hp (by simp) hem he hpa hca
      refine ⟨d, (h.child hcs).mpr ⟨hd, c, hc, hdp⟩, mem_cons_of_mem _ ?_⟩
      rw [if_pos hi, hdp]
      exact ih hem (Nat.le_of_succ_le_succ hf) hpa hca

theorem length_le_render (cs : List Bytes) : cs.length ≤ (render cs).length := by
  rw [render]
  split
  · simp_all
  induction cs with
  | nil => exact Nat.le_refl _
  | cons c cs ih =>
    rw [flatMap_cons, length_append, length_cons, length_cons]
    by_cases hc : cs = []
    · subst hc
      simp
    · have := ih hc
      omega

theorem path_le_depthBound (he : e ∈ entries) : e.path.length ≤ depthBound entries :=
  Nat.le_succ_of_le (List.le_sum_of_mem (mem_map_of_mem he))

theorem buildTree_spec (h : SoundEntries entries) (hr : buildTree entries = .ok root) :
    root = grow entries (depthBound entries) [slash] ∧ root.preorder.Perm entries := by
  obtain ⟨_, hch, heq⟩ := bind_eq_ok.mp hr
  cases heq
  refine ⟨rfl, ?_⟩
  have hp := forM_eq_ok hch
  have hn : Canonical [] := ⟨fun c hc => absurd hc not_mem_nil⟩
  refine (perm_ext_iff_of_nodup ?_ (List.Nodup.of_map _ h.nodup)).mpr fun e => ⟨fun he => ?_,
    fun he => ?_⟩
  · exact grow_nodup h (depthBound entries) hn
  · exact (mem_grow h hn he).1
  · obtain ⟨cs, hcs, hca, hpa⟩ := h.valid e he
    have hd := Nat.le_trans (length_le_render cs) (hpa ▸ path_le_depthBound he)
    exact @mem_grow_of_below entries h hp _ [] cs hcs hd e he hpa hca

end Growing

end Craftling.Squashfs

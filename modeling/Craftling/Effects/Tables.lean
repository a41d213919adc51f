import Mathlib

namespace Craftling.Effects
open List Function

structure Grows (move : Nat → α → α → Prop) (fresh : α → Prop) (t t' : List α) : Prop where
  old : ∀ (i : Nat) (x : α), t[i]? = some x → ∃ x', t'[i]? = some x' ∧ move i x x'
  new : ∀ (i : Nat) (x' : α), t'[i]? = some x' →
    (∃ x, t[i]? = some x ∧ move i x x') ∨ (t.length ≤ i ∧ fresh x')

namespace Grows

variable {move : Nat → α → α → Prop} {fresh : α → Prop} {t : List α}

section

variable (hs : ∀ i x, move i x x)
include hs

theorem refl (t : List α) : Grows move fresh t t :=
  ⟨fun i x hx => ⟨x, hx, hs i x⟩, fun i x hx => .inl ⟨x, hx, hs i x⟩⟩

theorem set (hx : t[i]? = some x) (hm : move i x x') :
    Grows move fresh t (t.set i x') := by
  have hl : i < t.length := (List.getElem?_eq_some_iff.mp hx).1
  have hg : ∀ j, (t.set i x')[j]? = if i = j then some x' else t[j]? := by
    intro j
    rw [List.getElem?_set]
    simp [hl]
  constructor
  · intro j y hy
    by_cases hj : i = j
    · subst hj
      rw [hx] at hy
      cases hy
      exact ⟨x', by simp [hg], hm⟩
    · exact ⟨y, by simp [hg, hj, hy], hs j y⟩
  · intro j y hy
    rw [hg] at hy
    split at hy
    · rename_i hj
      cases hy
      exact .inl ⟨x, hj ▸ hx, hj ▸ hm⟩
    · exact .inl ⟨y, hy, hs j y⟩

theorem append (hx : fresh x) : Grows move fresh t (t ++ [x]) := by
  constructor
  · intro i y hy
    have hl : i < t.length := (List.getElem?_eq_some_iff.mp hy).1
    exact ⟨y, by rw [List.getElem?_append_left hl, hy], hs i y⟩
  intro i y hy
  by_cases hl : i < t.length
  · rw [List.getElem?_append_left hl] at hy
    exact .inl ⟨y, hy, hs i y⟩
  · rw [List.getElem?_append_right (by omega)] at hy
    have hm := mem_of_getElem? hy
    rw [mem_singleton] at hm
    subst hm
    exact .inr ⟨by omega, hx⟩

theorem modify (hg : ∀ x, t[i]? = some x → move i x (g x)) :
    Grows move fresh t (t.modify i g) := by
  cases hx : t[i]? with
  | none =>
    rw [modify_eq_self (List.getElem?_eq_none_iff.mp hx)]
    exact refl hs t
  | some x =>
    have hse : t.modify i g = t.set i (g x) := by
      apply ext_getElem?
      intro j
      rw [List.getElem?_modify, List.getElem?_set]
      by_cases hj : i = j
      · subst hj
        rw [hx, if_pos rfl, if_pos (List.getElem?_eq_some_iff.mp hx).1]
        simp
      · simp [hj]
    rw [hse]
    exact set hs hx (hg x hx)

end

theorem map (g : α → α) (hg : ∀ i x, move i x (g x)) : Grows move fresh t (t.map g) := by
  constructor
  · intro i x hx
    exact ⟨g x, by simp [hx], hg i x⟩
  · intro i y hy
    rw [List.getElem?_map, Option.map_eq_some_iff] at hy
    obtain ⟨x, hx, rfl⟩ := hy
    exact .inl ⟨x, hx, hg i x⟩

end Grows

theorem sum_map_modify (f : α → Nat) (g : α → α) {t : List α} {i : Nat} (hx : t[i]? = some x) :
    ((t.modify i g).map f).sum + f x = (t.map f).sum + f (g x) := by
  induction t generalizing i with
  | nil => simp at hx
  | cons y t ih =>
    cases i with
    | zero =>
      simp only [List.getElem?_cons_zero, Option.some.injEq] at hx
      subst hx
      simp only [modify_zero_cons, map_cons, sum_cons]
      omega
    | succ i =>
      have hr := ih (i := i) (by simpa using hx)
      simp only [modify_succ_cons, map_cons, sum_cons]
      omega

def Tabulates (rows : List α) (key : α → κ) (val : α → Option ν) (t : κ → Option ν) : Prop :=
  ∀ k v, t k = some v ↔ ∃ a ∈ rows, key a = k ∧ val a = some v

namespace Tabulates

variable {rows : List α} {key : α → κ} {val : α → Option ν} {t : κ → Option ν}

theorem congr (h : Tabulates rows key val t) (hva : ∀ a ∈ rows, val' a = val a) :
    Tabulates rows key val' t := by
  intro k v
  rw [h k v]
  constructor
  · rintro ⟨a, ha, hk, hv⟩
    exact ⟨a, ha, hk, (hva a ha).trans hv⟩
  · rintro ⟨a, ha, hk, hv⟩
    exact ⟨a, ha, hk, (hva a ha).symm.trans hv⟩

variable [DecidableEq κ]

theorem put (h : Tabulates rows key val t) (hf : ∀ b ∈ rows, key b ≠ key a) (hv : val a = some v) :
    Tabulates (a :: rows) key val (Function.update t (key a) (some v)) := by
  intro k w
  by_cases hk : k = key a
  · subst hk
    rw [update_self]
    constructor
    · intro hw
      exact ⟨a, mem_cons_self, rfl, hv.trans hw⟩
    · rintro ⟨b, hb, hke, hw⟩
      rcases mem_cons.mp hb with rfl | hb
      · exact hv.symm.trans hw
      · exact absurd hke (hf b hb)
  · rw [update_of_ne hk, h k w]
    constructor
    · rintro ⟨b, hb, hr⟩
      exact ⟨b, mem_cons_of_mem a hb, hr⟩
    · rintro ⟨b, hb, hke, hw⟩
      rcases mem_cons.mp hb with rfl | hb
      · exact absurd hke.symm hk
      · exact ⟨b, hb, hke, hw⟩

theorem delete (h : Tabulates rows key val t) (hr : ∀ b, b ∈ rest ↔ b ∈ rows ∧ b ≠ a)
    (hs : ∀ b ∈ rows, key b = key a → b = a) :
    Tabulates rest key val (Function.update t (key a) none) := by
  intro k w
  by_cases hk : k = key a
  · subst hk
    rw [update_self]
    constructor
    · exact nofun
    · rintro ⟨b, hb, hke, _⟩
      obtain ⟨hro, hn⟩ := (hr b).mp hb
      exact absurd (hs b hro hke) hn
  · rw [update_of_ne hk, h k w]
    constructor
    · rintro ⟨b, hb, hke, hw⟩
      refine ⟨b, (hr b).mpr ⟨hb, ?_⟩, hke, hw⟩
      rintro rfl
      exact hk hke.symm
    · rintro ⟨b, hb, hkw⟩
      exact ⟨b, ((hr b).mp hb).1, hkw⟩

end Tabulates

end Craftling.Effects

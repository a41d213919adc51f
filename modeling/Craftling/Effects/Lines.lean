import Mathlib

namespace Craftling.Effects

/-- Those who wait to be served, each with the time of the last turn. -/
structure Line (ι : Type) where
  waiting : Finset ι
  since : ι → ℕ

section Line

variable {ι : Type}

/-- A batch is taken from the front of the line, `k` strong unless the line is shorter. Of
those served, the ones that still wait go behind everyone who was left, and nothing else
changes. -/
structure Line.Serves (k : ℕ) (batch : Finset ι) (l l' : Line ι) : Prop where
  taken : batch ⊆ l.waiting
  full : ∀ i ∈ l.waiting, i ∉ batch → k ≤ batch.card
  front : ∀ i ∈ l.waiting, i ∉ batch → ∀ j ∈ batch, l.since j ≤ l.since i
  behind : ∀ i ∈ l.waiting, i ∉ batch → ∀ j ∈ batch, j ∈ l'.waiting → l.since i < l'.since j
  rest : ∀ i, i ∉ batch →
    (i ∈ l'.waiting ↔ i ∈ l.waiting) ∧ (i ∈ l.waiting → l'.since i = l.since i)

def Line.ahead (l : Line ι) (i : ι) : Finset ι := l.waiting.filter fun j => l.since j ≤ l.since i

theorem Line.mem_ahead {l : Line ι} :
    j ∈ l.ahead i ↔ j ∈ l.waiting ∧ l.since j ≤ l.since i := Finset.mem_filter

theorem Line.ahead_subset (l : Line ι) (i : ι) : l.ahead i ⊆ l.waiting := Finset.filter_subset _ _

theorem Line.Serves.ahead [DecidableEq ι] {l l' : Line ι} (h : Line.Serves k batch l l')
    (hi : i ∈ l.waiting) (hb : i ∉ batch) : (l'.ahead i).card + k ≤ (l.ahead i).card := by
  have hs : l'.since i = l.since i := (h.rest i hb).2 hi
  have hba : batch ⊆ l.ahead i := fun j hj =>
    Line.mem_ahead.mpr ⟨h.taken hj, h.front i hi hb j hj⟩
  have hl : l'.ahead i ⊆ l.ahead i \ batch := by
    intro j hj
    obtain ⟨hw, hle⟩ := Line.mem_ahead.mp hj
    rw [hs] at hle
    have ho : j ∉ batch := fun hm => absurd hle (not_le.mpr (h.behind i hi hb j hm hw))
    obtain ⟨hsa, hk⟩ := h.rest j ho
    have hol : j ∈ l.waiting := hsa.mp hw
    rw [hk hol] at hle
    exact Finset.mem_sdiff.mpr ⟨Line.mem_ahead.mpr ⟨hol, hle⟩, ho⟩
  have hc := Finset.card_le_card hl
  rw [Finset.card_sdiff_of_subset hba] at hc
  have hle := Finset.card_le_card hba
  have hf := h.full i hi hb
  omega

inductive Line.Run (k : ℕ) : Line ι → List (Finset ι) → Line ι → Prop where
  | nil (l : Line ι) : Line.Run k l [] l
  | cons {l l' l'' : Line ι} {b : Finset ι} {bs : List (Finset ι)} :
      Line.Serves k b l l' → Line.Run k l' bs l'' → Line.Run k l (b :: bs) l''

theorem Line.Run.served_of_ahead [DecidableEq ι] {bs : List (Finset ι)} (h : Line.Run k l bs l')
    (hi : i ∈ l.waiting) (hn : (l.ahead i).card ≤ k * bs.length) : ∃ b ∈ bs, i ∈ b := by
  induction h with
  | nil l =>
    have hs : i ∈ l.ahead i := Line.mem_ahead.mpr ⟨hi, le_rfl⟩
    have hp := Finset.card_pos.mpr ⟨i, hs⟩
    simp only [List.length_nil, Nat.mul_zero] at hn
    omega
  | @cons l l1 l2 b bs hse hr ih =>
    by_cases hb : i ∈ b
    · exact ⟨b, List.mem_cons_self, hb⟩
    -- not served yet: a batch fewer is ahead, and a turn fewer is left
    have hf := hse.ahead hi hb
    rw [List.length_cons, Nat.mul_succ] at hn
    obtain ⟨b', hm, hib⟩ := ih ((hse.rest i hb).1.mpr hi) (by omega)
    exact ⟨b', List.mem_cons_of_mem _ hm, hib⟩

theorem Line.Run.served [DecidableEq ι] {bs : List (Finset ι)} (h : Line.Run k l bs l')
    (hn : l.waiting.card ≤ k * bs.length) (hi : i ∈ l.waiting) : ∃ b ∈ bs, i ∈ b :=
  h.served_of_ahead hi ((Finset.card_le_card (l.ahead_subset i)).trans hn)

end Line

end Craftling.Effects

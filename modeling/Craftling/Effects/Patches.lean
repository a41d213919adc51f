import Craftling.Effects.Pool

namespace Craftling.Effects
open List

variable {φ : Type} {β : φ → Type}

/-- A record that requests have written to, each giving values to some of its fields. A field
has a value that one of them gave it, or none of them gave it any and it is as it was. -/
def Patched (init : (f : φ) → β f) (wrote : ((f : φ) → Option (β f)) → Prop)
    (row : (f : φ) → β f) : Prop :=
  ∀ f, (∃ g, wrote g ∧ g f = some (row f)) ∨ (∀ g, wrote g → g f = none) ∧ row f = init f

namespace Patched

variable {init row : (f : φ) → β f} {wrote wrote' : ((f : φ) → Option (β f)) → Prop}

theorem start (hn : ∀ g, ¬ wrote g) : Patched init wrote init :=
  fun _ => .inr ⟨fun g hg => absurd hg (hn g), rfl⟩

theorem congr (h : Patched init wrote row) (he : ∀ g, wrote' g ↔ wrote g) :
    Patched init wrote' row := by
  intro f
  rcases h f with ⟨g, hg, hgf⟩ | ⟨hn, hi⟩
  · exact .inl ⟨g, (he g).mpr hg, hgf⟩
  · exact .inr ⟨fun g hg => hn g ((he g).mp hg), hi⟩

theorem extend (h : Patched init wrote row) (hl : ∀ g, wrote g → wrote' g)
    (hr : ∀ g, wrote' g → wrote g ∨ ∀ f, g f = none) : Patched init wrote' row := by
  intro f
  rcases h f with ⟨g, hg, hgf⟩ | ⟨hn, hi⟩
  · exact .inl ⟨g, hl g hg, hgf⟩
  refine .inr ⟨fun g hg => ?_, hi⟩
  rcases hr g hg with ho | he
  · exact hn g ho
  · exact he f

theorem write (h : Patched init wrote row) (hr : ∀ f, row' f = (g f).getD (row f))
    (he : ∀ g', wrote' g' ↔ g' = g ∨ wrote g') : Patched init wrote' row' := by
  intro f
  cases hg : g f with
  | some v =>
    left
    exact ⟨g, (he g).mpr (.inl rfl), by rw [hr, hg]; rfl⟩
  | none =>
    have hs : row' f = row f := by
      rw [hr, hg]
      rfl
    rw [hs]
    rcases h f with ⟨g', hg', hgf⟩ | ⟨hn, hi⟩
    · exact .inl ⟨g', (he g').mpr (.inr hg'), hgf⟩
    refine .inr ⟨fun g' hg' => ?_, hi⟩
    rcases (he g').mp hg' with rfl | ho
    · exact hg
    · exact hn g' ho

end Patched

section Pool

variable {J σ E : Type} {R : E → Type} {α S O W : Type} {sys : System J σ E R α S O W}
  {p p' : Pool J σ E R α S} {l : Turn J O W} {given : J → (f : φ) → Option (β f)}
  {written : σ → Prop} {view : S → (f : φ) → β f} {init : (f : φ) → β f}

def Pool.Wrote (given : J → (f : φ) → Option (β f)) (written : σ → Prop) (p : Pool J σ E R α S)
    (g : (f : φ) → Option (β f)) : Prop :=
  ∃ t ∈ p.threads, written t.stage ∧ given t.job = g

/-- The rule for requests that run beside each other: the one that moves leaves the record
alone, or writes what it gives and nothing else. -/
theorem Patched.step (h : Patched init (p.Wrote given written) (view p.shared))
    (hs : sys.step p l = some p') (hf : ∀ j, ¬ written (sys.first j))
    (htu : ∀ i o j st e k, l = .turn i o → p.threads[i]? = some ⟨j, st, .call e k⟩ →
      ((written (sys.note st e (sys.perform o e p.shared).1) ↔ written st) ∧
        view (sys.perform o e p.shared).2 = view p.shared) ∨
      (written (sys.note st e (sys.perform o e p.shared).1) ∧
        ∀ f, view (sys.perform o e p.shared).2 f = (given j f).getD (view p.shared f)))
    (ho : ∀ w shared, l = .other w → sys.other w p.shared = some shared →
      view shared = view p.shared) :
    Patched init (p'.Wrote given written) (view p'.shared) := by
  cases l with
  | start j =>
    cases hs
    refine h.congr fun g => ?_
    simp only [Pool.Wrote, mem_append, mem_singleton]
    constructor
    · rintro ⟨t, hol | rfl, hw, hg⟩
      · exact ⟨t, hol, hw, hg⟩
      · exact absurd hw (hf j)
    · rintro ⟨t, hol, hw, hg⟩
      exact ⟨t, .inl hol, hw, hg⟩
  | other w =>
    obtain ⟨shared, hw, rfl⟩ := System.step_other hs
    rw [show view _ = view p.shared from ho w shared rfl hw]
    exact h
  | turn i o =>
    obtain ⟨j, st, e, k, hi, rfl⟩ := System.step_turn hs
    have hl := (List.getElem?_eq_some_iff.mp hi).1
    have hse : (⟨j, sys.note st e (sys.perform o e p.shared).1,
        k (sys.perform o e p.shared).1⟩ : Thread J σ E R α) ∈ p.threads.set i
          ⟨j, sys.note st e (sys.perform o e p.shared).1, k (sys.perform o e p.shared).1⟩ :=
      mem_of_getElem? (List.getElem?_set_self hl)
    -- a thread that has written and is not the one that moves is still there
    have hk : ∀ g, p.Wrote given written g → given j = g ∧ written st ∨
        ∃ t ∈ p.threads.set i ⟨j, sys.note st e (sys.perform o e p.shared).1,
          k (sys.perform o e p.shared).1⟩, written t.stage ∧ given t.job = g := by
      rintro g ⟨t, ht, hw, hg⟩
      obtain ⟨i', hi'⟩ := mem_iff_getElem?.mp ht
      by_cases hn : i = i'
      · subst hn
        rw [hi] at hi'
        cases hi'
        exact .inl ⟨hg, hw⟩
      · exact .inr ⟨t, mem_of_getElem? ((List.getElem?_set_ne hn).trans hi'), hw, hg⟩
    have hb : ∀ g, Pool.Wrote given written ⟨(sys.perform o e p.shared).2, p.threads.set i
        ⟨j, sys.note st e (sys.perform o e p.shared).1, k (sys.perform o e p.shared).1⟩⟩ g →
        p.Wrote given written g ∨
          written (sys.note st e (sys.perform o e p.shared).1) ∧ given j = g := by
      rintro g ⟨t, ht, hw, hg⟩
      rcases mem_or_eq_of_mem_set ht with hol | rfl
      · exact .inl ⟨t, hol, hw, hg⟩
      · exact .inr ⟨hw, hg⟩
    rcases htu i o j st e k rfl hi with ⟨hsa, hv⟩ | ⟨hno, hv⟩
    · rw [show view _ = view p.shared from hv]
      refine h.congr fun g => ⟨fun hg => ?_, fun hg => ?_⟩
      · rcases hb g hg with hol | ⟨hw, hgi⟩
        · exact hol
        · exact ⟨_, mem_of_getElem? hi, hsa.mp hw, hgi⟩
      · rcases hk g hg with ⟨hgi, hw⟩ | hst
        · exact ⟨_, hse, hsa.mpr hw, hgi⟩
        · exact hst
    · refine h.write (g := given j) hv fun g => ⟨fun hg => ?_, fun hg => ?_⟩
      · rcases hb g hg with hol | ⟨-, hgi⟩
        · exact .inr hol
        · exact .inl hgi.symm
      · rcases hg with rfl | hol
        · exact ⟨_, hse, hno, rfl⟩
        rcases hk g hol with ⟨hgi, -⟩ | hst
        · exact ⟨_, hse, hno, hgi⟩
        · exact hst

end Pool

end Craftling.Effects

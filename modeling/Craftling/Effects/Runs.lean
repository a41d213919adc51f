import Mathlib

namespace Craftling.Effects

def runLabels (step : S → L → Option S) : S → List L → Option S
  | s, [] => some s
  | s, l :: rest => (step s l).bind (fun s' => runLabels step s' rest)

/-- The states that runs from `s0` reach when every step of them meets `ok`. -/
inductive Reaches (step : S → L → Option S) (ok : S → L → S → Prop) (s0 : S) : S → Prop where
  | start : Reaches step ok s0 s0
  | next {s s' : S} (l : L) : Reaches step ok s0 s → step s l = some s' → ok s l s' →
      Reaches step ok s0 s'

variable {ok : S → L → S → Prop} {s t : S}

theorem Reaches.invariant {I : S → Prop} (h0 : I s0)
    (hst : ∀ s l s', I s → step s l = some s' → ok s l s' → I s') (h : Reaches step ok s0 s) :
    I s := by
  induction h with
  | start => exact h0
  | next l _ hs ho ih => exact hst _ l _ ih hs ho

theorem Reaches.mono {ok' : S → L → S → Prop} (hl : ∀ s l s', ok s l s' → ok' s l s')
    (h : Reaches step ok s0 s) : Reaches step ok' s0 s := by
  induction h with
  | start => exact .start
  | next l _ hs ho ih => exact .next l ih hs (hl _ _ _ ho)

theorem Reaches.trans (h : Reaches step ok s0 s) (h' : Reaches step ok s t) :
    Reaches step ok s0 t := by
  induction h' with
  | start => exact h
  | next l _ hs ho ih => exact .next l ih hs ho

def runChecked (step : S → L → Option S) (ok : S → L → S → Prop)
    [∀ s l s', Decidable (ok s l s')] : S → List L → Option S :=
  runLabels fun s l => (step s l).filter fun s' => ok s l s'

theorem Reaches.of_runChecked [∀ s l s', Decidable (ok s l s')]
    (h : runChecked step ok s ls = some t) : Reaches step ok s t := by
  induction ls generalizing s with
  | nil =>
    simp only [runChecked, runLabels, Option.some.injEq] at h
    subst h
    exact .start
  | cons l ls ih =>
    simp only [runChecked, runLabels, Option.bind_eq_some_iff, Option.filter_eq_some_iff,
      decide_eq_true_eq] at h
    obtain ⟨s', ⟨hs, ho⟩, hr⟩ := h
    exact Reaches.trans (.next l .start hs ho) (ih hr)

theorem Reaches.exists_run (step : S → L → Option S) (ok : S → L → S → Prop)
    [∀ s l s', Decidable (ok s l s')] (s : S) (ls : List L) (p : S → Bool)
    (h : (runChecked step ok s ls).any p = true) :
    ∃ t, Reaches step ok s t ∧ p t = true := by
  cases ht : runChecked step ok s ls with
  | none => simp [ht] at h
  | some t => exact ⟨t, .of_runChecked ht, by simpa [ht] using h⟩

theorem Reaches.exists_check [∀ s l s', Decidable (ok s l s')] {p : S → Prop} [DecidablePred p]
    (ls : List L) (h : (runChecked step ok s ls).any (fun t => p t) = true) :
    ∃ t, Reaches step ok s t ∧ p t := by
  obtain ⟨t, ht, hp⟩ := exists_run step ok s ls (fun t => p t) h
  exact ⟨t, ht, of_decide_eq_true hp⟩

theorem Reaches.exists_then [∀ s l s', Decidable (ok s l s')] {p q : S → Prop} [DecidablePred p]
    (ls : List L) (h : (runChecked step ok s ls).any (fun t => p t) = true)
    (hq : ∀ t, Reaches step ok s t → p t → q t) : ∃ t, Reaches step ok s t ∧ p t ∧ q t := by
  obtain ⟨t, ht, hp⟩ := exists_check ls h
  exact ⟨t, ht, hp, hq t ht hp⟩

/-- A step, with a count of those that `p` picks out. -/
def counting (step : S → L → Option S) (p : L → Bool) (x : S × Nat) (l : L) : Option (S × Nat) :=
  (step x.1 l).map fun s => (s, if p l then x.2 + 1 else x.2)

theorem counting_eq {p : L → Bool} {x x' : S × Nat} (h : counting step p x l = some x') :
    step x.1 l = some x'.1 ∧ x'.2 = if p l then x.2 + 1 else x.2 := by
  obtain ⟨s, hs, rfl⟩ := Option.map_eq_some_iff.mp h
  exact ⟨hs, rfl⟩

end Craftling.Effects

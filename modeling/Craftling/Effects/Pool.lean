import Craftling.Effects.Program
import Craftling.Effects.Runs

namespace Craftling.Effects
open List

/-- A program in progress: what it is for, how far it has got, and what it has yet to do. -/
structure Thread (J σ E : Type) (R : E → Type) (α : Type) where
  job : J
  stage : σ
  prog : Prog E R α

structure Pool (J σ E : Type) (R : E → Type) (α S : Type) where
  shared : S
  threads : List (Thread J σ E R α)

/-- What can happen next: a job begins, the program of one makes its next call, or the state
moves by itself. -/
inductive Turn (J O W : Type) where
  | start (j : J)
  | turn (i : Nat) (o : O)
  | other (w : W)
  deriving DecidableEq

/-- The programs for jobs, what is noted of a job when it begins and behind each call, how
the state answers a call that comes out as `o` says, and how it moves by itself. -/
structure System (J σ E : Type) (R : E → Type) (α S O W : Type) where
  body : J → Prog E R α
  first : J → σ
  note : σ → (e : E) → R e → σ
  perform : O → (e : E) → S → R e × S
  other : W → S → Option S

variable {J σ E : Type} {R : E → Type} {α S O W : Type}

namespace Pool

def next? (p : Pool J σ E R α S) (i : Nat) : Option E := p.threads[i]?.bind fun t => t.prog.next?

def Answered (p : Pool J σ E R α S) (j : J) (a : α) : Prop :=
  ∃ t ∈ p.threads, t.job = j ∧ t.prog.result? = some a

instance [DecidableEq J] [DecidableEq α] (p : Pool J σ E R α S) (j : J) (a : α) :
    Decidable (p.Answered j a) := by
  unfold Answered
  infer_instance

end Pool

namespace System

def step (sys : System J σ E R α S O W) (p : Pool J σ E R α S) :
    Turn J O W → Option (Pool J σ E R α S)
  | .start j => some { p with threads := p.threads ++ [⟨j, sys.first j, sys.body j⟩] }
  | .turn i o =>
    match p.threads[i]? with
    | some ⟨j, st, .call e k⟩ =>
      let (r, shared) := sys.perform o e p.shared
      some ⟨shared, p.threads.set i ⟨j, sys.note st e r, k r⟩⟩
    | _ => none
  | .other w => (sys.other w p.shared).map fun shared => { p with shared }

variable {sys : System J σ E R α S O W} {p p' : Pool J σ E R α S} {i : Nat}

theorem step_turn (h : sys.step p (.turn i o) = some p') :
    ∃ j st e k, p.threads[i]? = some ⟨j, st, .call e k⟩ ∧
      p' = ⟨(sys.perform o e p.shared).2, p.threads.set i
        ⟨j, sys.note st e (sys.perform o e p.shared).1, k (sys.perform o e p.shared).1⟩⟩ := by
  simp only [step] at h
  split at h
  · rename_i j st e k hi
    exact ⟨j, st, e, k, hi, (Option.some.inj h).symm⟩
  · cases h

theorem step_other (h : sys.step p (.other w) = some p') :
    ∃ shared, sys.other w p.shared = some shared ∧ p' = { p with shared } := by
  simp only [step, Option.map_eq_some_iff] at h
  obtain ⟨shared, hw, rfl⟩ := h
  exact ⟨shared, hw, rfl⟩

theorem step_thread (h : sys.step p l = some p') (hi : p'.threads[i]? = some t) :
    p.threads[i]? = some t ∨
      (∃ j, l = .start j ∧ i = p.threads.length ∧ t = ⟨j, sys.first j, sys.body j⟩) ∨
      ∃ o j st e k, l = .turn i o ∧ p.threads[i]? = some ⟨j, st, .call e k⟩ ∧
        t = ⟨j, sys.note st e (sys.perform o e p.shared).1, k (sys.perform o e p.shared).1⟩ := by
  cases l with
  | start j =>
    cases h
    by_cases hl : i < p.threads.length
    · rw [List.getElem?_append_left hl] at hi
      exact .inl hi
    have hl' := (List.getElem?_eq_some_iff.mp hi).1
    rw [length_append, length_singleton] at hl'
    obtain rfl : i = p.threads.length := by omega
    rw [List.getElem?_append_right (Nat.le_refl _), Nat.sub_self] at hi
    exact .inr (.inl ⟨j, rfl, rfl, (Option.some.inj hi).symm⟩)
  | turn i0 o =>
    obtain ⟨j, st, e, k, hi0, rfl⟩ := step_turn h
    have hl := (List.getElem?_eq_some_iff.mp hi0).1
    by_cases hn : i = i0
    · subst hn
      rw [List.getElem?_set_self hl] at hi
      exact .inr (.inr ⟨o, j, st, e, k, rfl, hi0, (Option.some.inj hi).symm⟩)
    · rw [List.getElem?_set_ne (Ne.symm hn)] at hi
      exact .inl hi
  | other w =>
    obtain ⟨shared, -, rfl⟩ := step_other h
    exact .inl hi

/-- The calls a job may make at each stage, and the results it may end with. -/
structure Conduct (J σ E α : Type) where
  allows : J → σ → E → Prop
  answers : J → σ → α → Prop

def Keeps (sys : System J σ E R α S O W) (c : Conduct J σ E α) : Prop :=
  ∀ j, (sys.body j).Follows (c.allows j) sys.note (c.answers j) (sys.first j)

/-- The state is as `I` says, and every thread keeps to its conduct at a stage that is as
`T` says. -/
structure Holds (sys : System J σ E R α S O W) (c : Conduct J σ E α) (I : S → Prop)
    (T : Nat → J → σ → S → Prop) (p : Pool J σ E R α S) : Prop where
  shared : I p.shared
  keeps : ∀ t ∈ p.threads, t.prog.Follows (c.allows t.job) sys.note (c.answers t.job) t.stage
  threads : ∀ i t, p.threads[i]? = some t → T i t.job t.stage p.shared

variable {c : Conduct J σ E α} {I : S → Prop} {T : Nat → J → σ → S → Prop}

theorem Holds.start (h : I s) : Holds sys c I T ⟨s, []⟩ := by
  refine ⟨h, ?_, ?_⟩
  · intro t ht
    cases ht
  · intro i t ht
    cases ht

theorem Holds.keeps_step (h : Holds sys c I T p) (hb : sys.Keeps c) (hs : sys.step p l = some p') :
    ∀ t ∈ p'.threads, t.prog.Follows (c.allows t.job) sys.note (c.answers t.job) t.stage := by
  intro t ht
  obtain ⟨i, hi⟩ := mem_iff_getElem?.mp ht
  rcases step_thread hs hi with ho | ⟨j, -, -, rfl⟩ | ⟨o, j, st, e, k, -, ho, rfl⟩
  · exact h.keeps t (mem_of_getElem? ho)
  · exact hb j
  · exact (h.keeps _ (mem_of_getElem? ho)).2 _

theorem Holds.step (h : Holds sys c I T p) (hb : sys.Keeps c) (hs : sys.step p l = some p')
    (hst : ∀ j, l = .start j → T p.threads.length j (sys.first j) p.shared)
    (htu : ∀ i o j st e k, l = .turn i o → p.threads[i]? = some ⟨j, st, .call e k⟩ →
      c.allows j st e → T i j st p.shared →
      I (sys.perform o e p.shared).2 ∧
        T i j (sys.note st e (sys.perform o e p.shared).1) (sys.perform o e p.shared).2 ∧
        ∀ i' t, i' ≠ i → p.threads[i']? = some t → T i' t.job t.stage p.shared →
          T i' t.job t.stage (sys.perform o e p.shared).2)
    (ho : ∀ w shared, l = .other w → sys.other w p.shared = some shared →
      I shared ∧ ∀ i t, p.threads[i]? = some t → T i t.job t.stage p.shared →
        T i t.job t.stage shared) : Holds sys c I T p' := by
  have hk := h.keeps_step hb hs
  cases l with
  | start j =>
    have hsh : p'.shared = p.shared := by
      cases hs
      rfl
    refine ⟨hsh ▸ h.shared, hk, fun i t ht => hsh ▸ ?_⟩
    rcases step_thread hs ht with hol | ⟨j', hj, rfl, rfl⟩ | ⟨o, j', st, e, k, ht', -, -⟩
    · exact h.threads i t hol
    · cases hj
      exact hst j rfl
    · cases ht'
  | turn i o =>
    obtain ⟨j, st, e, k, hi, rfl⟩ := step_turn hs
    have hl := (List.getElem?_eq_some_iff.mp hi).1
    have ha := (h.keeps _ (mem_of_getElem? hi)).1
    obtain ⟨hsh, hse, hr⟩ := htu i o j st e k rfl hi ha (h.threads _ _ hi)
    refine ⟨hsh, hk, fun i' t ht => ?_⟩
    by_cases hn : i' = i
    · subst hn
      rw [List.getElem?_set_self hl] at ht
      cases ht
      exact hse
    · rw [List.getElem?_set_ne (Ne.symm hn)] at ht
      exact hr i' t hn ht (h.threads i' t ht)
  | other w =>
    obtain ⟨shared, hw, rfl⟩ := step_other hs
    obtain ⟨hsh, hr⟩ := ho w shared rfl hw
    exact ⟨hsh, hk, fun i t ht => hr i t ht (h.threads i t ht)⟩

theorem Holds.answered (h : Holds sys c I T p) (ha : p.Answered j a) :
    ∃ i st, T i j st p.shared ∧ c.answers j st a := by
  obtain ⟨t, hm, rfl, hr⟩ := ha
  obtain ⟨i, hi⟩ := mem_iff_getElem?.mp hm
  refine ⟨i, t.stage, h.threads i t hi, ?_⟩
  have hk := h.keeps t hm
  rw [Prog.eq_done_of_result? hr] at hk
  exact hk

def Apart (P : J → σ → J → σ → Prop) (p : Pool J σ E R α S) : Prop :=
  ∀ (i i' : Nat) (t t' : Thread J σ E R α), i ≠ i' → p.threads[i]? = some t →
    p.threads[i']? = some t' → P t.job t.stage t'.job t'.stage

theorem Apart.step {P : J → σ → J → σ → Prop} (hsy : ∀ j st j' st', P j st j' st' → P j' st' j st)
    (h : Apart P p) (hs : sys.step p l = some p')
    (hst : ∀ j, l = .start j → ∀ t ∈ p.threads, P j (sys.first j) t.job t.stage)
    (htu : ∀ i o j st e k, l = .turn i o → p.threads[i]? = some ⟨j, st, .call e k⟩ →
      ∀ i' t, i' ≠ i → p.threads[i']? = some t →
        P j (sys.note st e (sys.perform o e p.shared).1) t.job t.stage) : Apart P p' := by
  intro i i' t t' hn ht ht'
  rcases step_thread hs ht with hi | ⟨j, hl, hi, rfl⟩ | ⟨o, j, st, e, k, hl, hi, rfl⟩ <;>
    rcases step_thread hs ht' with hi' | ⟨j', hl', hi', rfl⟩ | ⟨o', j', st', e', k', hl', hi', rfl⟩
  · exact h i i' t t' hn hi hi'
  · exact hsy _ _ _ _ (hst j' hl' t (mem_of_getElem? hi))
  · exact hsy _ _ _ _ (htu i' o' j' st' e' k' hl' hi' i t hn hi)
  · exact hst j hl t' (mem_of_getElem? hi')
  · exact absurd (hi.trans hi'.symm) hn
  · rw [hl] at hl'
    cases hl'
  · exact htu i o j st e k hl hi i' t' (Ne.symm hn) hi'
  · rw [hl] at hl'
    cases hl'
  rw [hl] at hl'
  cases hl'
  exact absurd rfl hn

end System

end Craftling.Effects

import Mathlib

namespace Craftling.Effects

/-- A program that reaches its surroundings only through calls `e : E`, each of
which is answered by a value of type `R e`. Whoever runs the program decides
when a call happens and what it answers. -/
inductive Prog (E : Type) (R : E → Type) (α : Type) : Type where
  | done (a : α)
  | call (e : E) (k : R e → Prog E R α)

namespace Prog

variable {E : Type} {R : E → Type}

def bind (p : Prog E R α) (f : α → Prog E R β) : Prog E R β :=
  match p with
  | .done a => f a
  | .call e k => .call e (fun r => (k r).bind f)

instance : Monad (Prog E R) where
  pure := .done
  bind := .bind

@[simp] theorem pure_eq (a : α) : (pure a : Prog E R α) = .done a := rfl

@[simp] theorem bind_eq (p : Prog E R α) (f : α → Prog E R β) : p >>= f = p.bind f := rfl

@[simp] theorem done_bind (a : α) (f : α → Prog E R β) : (Prog.done a).bind f = f a := rfl

@[simp] theorem call_bind (e : E) (k : R e → Prog E R α) (f : α → Prog E R β) :
    (Prog.call e k).bind f = .call e (fun r => (k r).bind f) := rfl

theorem bind_assoc (p : Prog E R α) (f : α → Prog E R β) (g : β → Prog E R γ) :
    (p.bind f).bind g = p.bind (fun a => (f a).bind g) := by
  induction p with
  | done a => rfl
  | call e k ih =>
    simp only [call_bind]
    congr 1
    funext r
    exact ih r

def next? : Prog E R α → Option E
  | .done _ => none
  | .call e _ => some e

def result? : Prog E R α → Option α
  | .done a => some a
  | .call _ _ => none

theorem eq_done_of_result? {p : Prog E R α} (h : p.result? = some a) : p = .done a := by
  cases p with
  | done b => rw [Option.some.inj h]
  | call e k => cases h

structure Answered (E : Type) (R : E → Type) where
  call : E
  answer : R call

def answerWith (o : (e : E) → R e) : Prog E R α → α × List (Answered E R)
  | .done a => (a, [])
  | .call e k =>
    let (a, log) := (k (o e)).answerWith o
    (a, ⟨e, o e⟩ :: log)

@[simp] theorem answerWith_done (o : (e : E) → R e) (a : α) :
    (Prog.done a : Prog E R α).answerWith o = (a, []) := rfl

@[simp] theorem answerWith_call (o : (e : E) → R e) (e : E) (k : R e → Prog E R α) :
    (Prog.call e k).answerWith o =
      (((k (o e)).answerWith o).1, ⟨e, o e⟩ :: ((k (o e)).answerWith o).2) := rfl

def runOn (h : (e : E) → S → R e × S) : Prog E R α → S → α × S
  | .done a, s => (a, s)
  | .call e k, s => (k (h e s).1).runOn h (h e s).2

@[simp] theorem runOn_done (h : (e : E) → S → R e × S) (a : α) (s : S) :
    (Prog.done a : Prog E R α).runOn h s = (a, s) := rfl

@[simp] theorem runOn_call (h : (e : E) → S → R e × S) (e : E) (k : R e → Prog E R α) (s : S) :
    (Prog.call e k).runOn h s = (k (h e s).1).runOn h (h e s).2 := rfl

theorem runOn_bind (h : (e : E) → S → R e × S) (p : Prog E R α) (f : α → Prog E R β) (s : S) :
    (p.bind f).runOn h s = (f (p.runOn h s).1).runOn h (p.runOn h s).2 := by
  induction p generalizing s with
  | done a => rfl
  | call e k ih => simpa using ih (h e s).1 (h e s).2

/-- The program keeps to a protocol: from stage `st` on it makes only calls that
its stage allows, each answer leads on to the stage `δ` gives, and it ends with a
result that its last stage accepts. -/
def Follows (allowed : σ → E → Prop) (δ : σ → (e : E) → R e → σ) (fin : σ → α → Prop) :
    σ → Prog E R α → Prop
  | st, .done a => fin st a
  | st, .call e k => allowed st e ∧ ∀ r, (k r).Follows allowed δ fin (δ st e r)

section Follows

variable {allowed : σ → E → Prop}

@[simp] theorem follows_done (fin : σ → α → Prop) (st : σ) (a : α) :
    (Prog.done a : Prog E R α).Follows allowed δ fin st ↔ fin st a := Iff.rfl

@[simp] theorem follows_call (fin : σ → α → Prop) (st : σ) (e : E) (k : R e → Prog E R α) :
    (Prog.call e k).Follows allowed δ fin st ↔
      allowed st e ∧ ∀ r, (k r).Follows allowed δ fin (δ st e r) := Iff.rfl

theorem Follows.mono {fin fin' : σ → α → Prop} (hle : ∀ st a, fin st a → fin' st a) {p : Prog E R α}
    (h : p.Follows allowed δ fin st) : p.Follows allowed δ fin' st := by
  induction p generalizing st with
  | done a => exact hle st a h
  | call e k ih => exact ⟨h.1, fun r => ih r (h.2 r)⟩

theorem Follows.of_any {fin : σ → α → Prop} (hallowed : ∀ st e, allowed st e)
    (hfin : ∀ st a, fin st a) (p : Prog E R α) (st : σ) : p.Follows allowed δ fin st := by
  induction p generalizing st with
  | done a => exact hfin st a
  | call e k ih => exact ⟨hallowed st e, fun r => ih r _⟩

theorem Follows.bind {fin : σ → β → Prop} {p : Prog E R α} {f : α → Prog E R β}
    (h : p.Follows allowed δ (fun st' a => (f a).Follows allowed δ fin st') st) :
    (p.bind f).Follows allowed δ fin st := by
  induction p generalizing st with
  | done a => exact h
  | call e k ih => exact ⟨h.1, fun r => ih r (h.2 r)⟩

end Follows

def Within (quick : E → Prop) : Nat → Prog E R α → Prop
  | _, .done _ => True
  | 0, .call _ _ => False
  | n + 1, .call e k => quick e ∧ ∀ r, (k r).Within quick n

theorem Within.more {quick : E → Prop} {p : Prog E R α} (h : p.Within quick n) :
    p.Within quick (n + 1) := by
  induction p generalizing n with
  | done a => trivial
  | call e k ih =>
    cases n with
    | zero => exact h.elim
    | succ n => exact ⟨h.1, fun r => ih r (h.2 r)⟩

def Only (ok : E → Prop) : Prog E R α → Prop
  | .done _ => True
  | .call e k => ok e ∧ ∀ r, (k r).Only ok

theorem Only.any (p : Prog E R α) : p.Only fun _ => True := by
  induction p with
  | done a => trivial
  | call e k ih => exact ⟨trivial, ih⟩

theorem Only.bind {ok : E → Prop} {p : Prog E R α} {f : α → Prog E R β} (hp : p.Only ok)
    (hf : ∀ a, (f a).Only ok) : (p.bind f).Only ok := by
  induction p with
  | done a => exact hf a
  | call e k ih => exact ⟨hp.1, fun r => ih r (hp.2 r)⟩

/-- Whatever the surroundings do within `rel`, which tells how a call is answered in a state
and what state it leaves, the program ends in a state and with a result that `Q` relates. -/
def Ensures (rel : S → (e : E) → R e → S → Prop) (Q : S → α → Prop) : S → Prog E R α → Prop
  | s, .done a => Q s a
  | s, .call e k => ∀ r s', rel s e r s' → (k r).Ensures rel Q s'

section Ensures

variable {rel : S → (e : E) → R e → S → Prop}

theorem Ensures.mono {Q Q' : S → α → Prop} (hle : ∀ s a, Q s a → Q' s a) {p : Prog E R α}
    (h : p.Ensures rel Q s) : p.Ensures rel Q' s := by
  induction p generalizing s with
  | done a => exact hle s a h
  | call e k ih => exact fun r s' hrel => ih r (h r s' hrel)

theorem Ensures.bind {Q : S → β → Prop} {p : Prog E R α} {f : α → Prog E R β}
    (h : p.Ensures rel (fun s' a => (f a).Ensures rel Q s') s) : (p.bind f).Ensures rel Q s := by
  induction p generalizing s with
  | done a => exact h
  | call e k ih => exact fun r s' hrel => ih r (h r s' hrel)

theorem Ensures.and {Q Q' : S → α → Prop} {p : Prog E R α} (h : p.Ensures rel Q s)
    (h' : p.Ensures rel Q' s) : p.Ensures rel (fun s a => Q s a ∧ Q' s a) s := by
  induction p generalizing s with
  | done a => exact ⟨h, h'⟩
  | call e k ih => exact fun r s' hrel => ih r (h r s' hrel) (h' r s' hrel)

/-- Surroundings that answer by a rule lead the program where it says, when `rel` covers the
rule in what it shows of their state. -/
theorem Ensures.runOn (view : T → S) {Q : S → α → Prop}
    (hrel : ∀ e t, rel (view t) e (h e t).1 (view (h e t).2)) {p : Prog E R α}
    (hp : p.Ensures rel Q (view t)) : Q (view (p.runOn h t).2) (p.runOn h t).1 := by
  induction p generalizing t with
  | done a => exact hp
  | call e k ih => exact ih _ (hp _ _ (hrel e t))

theorem Ensures.of_only {ok : E → Prop} {I : S → Prop}
    (hstep : ∀ s e r s', ok e → rel s e r s' → I s → I s') {p : Prog E R α} (hp : p.Only ok)
    (hs : I s) : p.Ensures rel (fun s' _ => I s') s := by
  induction p generalizing s with
  | done a => exact hs
  | call e k ih => exact fun r s' hrel => ih r (hp.2 r) (hstep s e r s' hp.1 hrel hs)

/-- A program that may fail, in sequence: the second part is reached only when the first has
succeeded. -/
theorem Ensures.tryBind {Q : S → Except ε β → Prop} {p : ExceptT ε (Prog E R) α}
    {f : α → ExceptT ε (Prog E R) β} {s : S}
    (h : Prog.Ensures rel (fun s' r => match r with
      | .ok a => Prog.Ensures rel Q s' (f a)
      | .error err => Q s' (.error err)) s p) :
    Prog.Ensures rel Q s (p >>= f : ExceptT ε (Prog E R) β) := by
  refine Ensures.bind (Ensures.mono ?_ h)
  intro s' r hr
  cases r with
  | ok a | error err => exact hr

inductive Ends (rel : S → (e : E) → R e → S → Prop) : S → Prog E R α → α → S → Prop where
  | done (s : S) (a : α) : Ends rel s (.done a) a s
  | call {s s' t : S} {e : E} {k : R e → Prog E R α} {r : R e} {a : α} :
      rel s e r s' → Ends rel s' (k r) a t → Ends rel s (.call e k) a t

theorem Ends.mono {rel' : S → (e : E) → R e → S → Prop}
    (hle : ∀ s e r s', rel s e r s' → rel' s e r s') (h : Ends rel s p a t) :
    Ends rel' s p a t := by
  induction h with
  | done s a => exact .done s a
  | call hrel _ ih => exact .call (hle _ _ _ _ hrel) ih

theorem Ends.bind (hp : Ends rel s p a s') (hf : Ends rel s' (f a) b t) :
    Ends rel s (p.bind f) b t := by
  induction hp with
  | done s a => exact hf
  | call hrel _ ih => exact .call hrel (ih hf)

theorem Ensures.ends {Q : S → α → Prop} (h : p.Ensures rel Q s) (hends : Ends rel s p a t) :
    Q t a := by
  induction hends with
  | done s a => exact h
  | call hrel _ ih => exact ih (h _ _ hrel)

end Ensures

end Prog

end Craftling.Effects

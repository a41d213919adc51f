import Craftling.Agent.Protocol

namespace Craftling.Agent
open Effects Guest LiveSnapshot

inductive Grant where
  | asking
  | frozen
  | refused
  | granted
  deriving DecidableEq, Repr

def Grant.allows : Grant → Guest.Call → Prop
  | .asking, e => (∃ cmds, e = .rconExec cmds) ∨ e = .openScratch ∨ (∃ fd, e = .fsFreeze fd) ∨
      (∃ fd, e = .close fd) ∨ ∃ line, e = .reply line ∧ line ≠ snapOK
  | .frozen, e => e = .reply snapOK
  | .refused, _ => False
  | .granted, _ => False

def Grant.next (st : Grant) (e : Guest.Call) (r : Guest.Answer e) : Grant :=
  match e, r with
  | .fsFreeze _, r => if (show Option String from r).isNone then .frozen else st
  | .reply line, _ => if line = snapOK then .granted else .refused
  | _, _ => st

def Grant.accepts : Grant → Option Fd → Prop
  | .granted, fd => fd.isSome = true
  | .refused, fd => fd = none
  | _, _ => False

abbrev Grants (st : Grant) (p : Handler (Option Fd)) : Prop :=
  p.Follows Grant.allows Grant.next Grant.accepts st

theorem Grant.next_refusal (st : Grant) (e : String) (r : Unit) :
    Grant.next st (.reply (snapErrPrefix ++ e)) r = .refused := by
  simp [Grant.next, SnapshotLink.errPrefix_ne_ok]

theorem freezeScratch_grants : freezeScratch.Follows Grant.allows Grant.next
      (fun st r => st = match r with
        | .ok _ => .frozen
        | .error _ => .asking) .asking := by
  refine ⟨.inr (.inl rfl), fun o => ?_⟩
  cases o with
  | error e => rfl
  | ok fd =>
    refine ⟨.inr (.inr (.inl ⟨fd, rfl⟩)), fun f => ?_⟩
    cases f with
    | some e => exact ⟨.inr (.inr (.inr (.inl ⟨fd, rfl⟩))), fun _ => rfl⟩
    | none => rfl

/-- The guest says OK to a PREPARE only with the filesystem frozen, and then keeps
the freeze. -/
theorem handleLine_grants (q : Option QuiesceConfig) (line : String)
    (h : verbOf line = .prepare) : Grants .asking (handleLine q none line) := by
  simp only [handleLine, h, prepareSnapshot]
  cases hq : rconConfigured q
  case' true => refine ⟨.inl ⟨_, rfl⟩, fun _ => ?_⟩
  all_goals
    refine Prog.Follows.bind (Prog.Follows.mono ?_ freezeScratch_grants)
    intro st r hs
    subst hs
    cases r with
    | error e =>
      refine ⟨.inr (.inr (.inr (.inr ⟨_, rfl, SnapshotLink.errPrefix_ne_ok e⟩))), fun r => ?_⟩
      rw [Grant.next_refusal]
      rfl
    | ok fd => exact ⟨rfl, fun _ => rfl⟩

def Server.Apart (g : Server) (k : Nat) : Prop :=
  (∀ fd, g ≠ .scanning k (some fd)) ∧ ∀ v p, g ≠ .handling k v p

/-- Where the PREPARE of session `k` is: on its way, in the guest's hands, or done
with. A reply on its way back is an OK exactly when the guest acknowledged. -/
def AwaitsGrant (g : Server) (fz : Option Nat) (k : Nat) (t : Thread) : Prop :=
  (∃ line, t.toGuest = [line] ∧ verbOf line = .prepare ∧ t.toHost = [] ∧ t.acked = false ∧
    g.Apart k) ∨
  (t.toGuest = [] ∧ t.toHost = [] ∧ t.acked = false ∧ ∃ st p, g = .handling k .prepare p ∧
    Grants st p ∧ (st = .frozen → fz = some k)) ∨
  (t.toGuest = [] ∧ (∀ v p, g ≠ .handling k v p) ∧
    ((t.toHost = [] ∧ t.acked = false) ∨
      ∃ line, t.toHost = [line] ∧ (t.acked = true ↔ line = snapOK)))

def Placed (g : Server) (fz : Option Nat) (k : Nat) (t : Thread) : Stage → Prop
  | .fresh => t.toGuest = [] ∧ t.toHost = [] ∧ t.conn = .undialed ∧ t.acked = false ∧
      t.reads = [] ∧ t.released = false ∧ g.Apart k
  | .dialed => t.toGuest = [] ∧ t.toHost = [] ∧ t.acked = false ∧ t.reads = [] ∧
      t.released = false ∧ g.Apart k
  | .asked => t.reads = [] ∧ t.released = false ∧ AwaitsGrant g fz k t
  | .granted _ => t.acked = true ∧ t.released = false ∧ t.toGuest = [] ∧ t.toHost = [] ∧
      ∀ v p, g ≠ .handling k v p
  | .resumed _ => t.acked = true ∧ t.released = true
  | .ended => t.released = true ∨
      (t.acked = false ∧ (∀ l ∈ t.toGuest, verbOf l ≠ .prepare) ∧ ∀ p, g ≠ .handling k .prepare p)

/-- The host counts on the freeze: it was acknowledged and not yet given back. -/
def Thread.capturing (t : Thread) : Bool := t.acked && !t.released

/-- The blocks `0 … n - 1`, each read with the filesystem frozen for session `k`. -/
def frozenReads (k n : Nat) : List (Nat × Option Nat) :=
  (List.range n).map fun i => (i, some k)

/-- The freeze is where the host believes it to be, and was for every block read. -/
structure Faithful (m : Machine) (g : Server) (fz : Option Nat) (k : Nat) (t : Thread)
    (st : Stage) : Prop where
  held : t.capturing = true → fz = some k ∧ ∃ fd, g = .scanning k (some fd)
  reading : ∀ n, st = .granted n → t.reads = frozenReads k n
  read : st = .resumed true → t.reads = frozenReads k m.blocks

/-- Session `k` is at some stage of its protocol. `strict` adds that its freeze is
in place, which takes that no connection is lost under it. -/
def Standing (m : Machine) (strict : Prop) (g : Server) (fz : Option Nat) (k : Nat)
    (t : Thread) : Prop :=
  ∃ st, Keeps m (Accepts t.job) st t.rest ∧ Placed g fz k t st ∧ (strict → Faithful m g fz k t st)

/-- A session's call leaves everything but its own thread, the files and the store. -/
structure Beside (w w' : World D) : Prop where
  threads : w'.threads = w.threads
  op : w'.op = w.op
  returned : w'.returned = w.returned
  guest : w'.guest = w.guest
  frozenFor : w'.frozenFor = w.frozenFor
  boots : w'.boots = w.boots
  reaped : w'.reaped = w.reaped
  tracked : w'.tracked = w.tracked
  disk : w'.disk = w.disk

theorem Beside.rfl (w : World D) : Beside w w := by
  constructor <;> trivial

variable {e : LiveSnapshot.Call} {strict : Prop}

theorem perform_beside (h : perform w k t fault e = some (r, t', w')) :
    Beside w w' ∧ t'.acked = t.acked ∧ (e ≠ .put → w'.store = w.store) := by
  cases fault with
  | some err =>
    simp only [perform, Option.map_eq_some_iff, Prod.mk.injEq, Prod.exists] at h
    obtain ⟨r', t'', hf, rfl, rfl, rfl⟩ := h
    refine ⟨Beside.rfl w, ?_, fun _ => rfl⟩
    cases e <;> cases hf <;> rfl
  | none =>
    cases e <;> simp only [perform, performed] at h <;> (try split at h) <;> cases h
    case put.refl => exact ⟨⟨rfl, rfl, rfl, rfl, rfl, rfl, rfl, rfl, rfl⟩, rfl, fun h => absurd rfl h⟩
    all_goals exact ⟨⟨rfl, rfl, rfl, rfl, rfl, rfl, rfl, rfl, rfl⟩, rfl, fun _ => rfl⟩

theorem Faithful.not_capturing (hc : t.capturing = false) (hg : ∀ n, st ≠ .granted n)
    (hr : st ≠ .resumed true) : Faithful m g fz k t st :=
  ⟨fun h => by simp [hc] at h, fun n h => absurd h (hg n), fun h => absurd h hr⟩

theorem Standing.faulted (h : Standing m strict g fz k t) (hr : t.rest = .call e cont)
    (hf : Agent.faulted t err e = some (r, t')) :
    Standing m strict g fz k { t' with rest := cont r } := by
  obtain ⟨st, hk, hp, hfa⟩ := h
  rw [hr] at hk
  obtain ⟨ha, hn⟩ := hk
  have hk := hn r
  cases st with
  | fresh =>
    obtain rfl : e = .dial := ha
    cases hf
    obtain ⟨hg, _, _, hac, _, _, hap⟩ := hp
    exact ⟨.ended, hk, .inr ⟨hac, by simp [hg], fun p => hap.2 _ p⟩,
      fun _ => .not_capturing (by simp [Thread.capturing, hac]) nofun nofun⟩
  | dialed =>
    obtain ⟨line, rfl⟩ := ha
    cases hf
    exact ⟨.ended, hk, .inl rfl, fun _ => .not_capturing (by simp [Thread.capturing]) nofun nofun⟩
  | asked =>
    obtain rfl : e = .readLine := ha
    cases hf
    exact ⟨.ended, hk, .inl rfl, fun _ => .not_capturing (by simp [Thread.capturing]) nofun nofun⟩
  | granted n =>
    rcases ha with rfl | rfl | rfl | rfl | rfl <;> cases hf
    case inr.inr.inr.inr.refl =>
      refine ⟨.resumed (n = m.blocks), hk, ⟨hp.1, rfl⟩, fun hs => ?_⟩
      refine ⟨by simp [Thread.capturing], nofun, fun hw => ?_⟩
      rw [(hfa hs).reading n rfl]
      simp only [Stage.resumed.injEq, decide_eq_true_eq] at hw
      rw [hw]
    all_goals exact ⟨.granted n, hk, hp, fun hs =>
      ⟨(hfa hs).held, (hfa hs).reading, (hfa hs).read⟩⟩
  | resumed b =>
    rcases ha with rfl | rfl | rfl | rfl | rfl <;> cases hf
    all_goals
      refine ⟨.resumed b, hk, ⟨hp.1, by simp [hp.2]⟩, fun hs => ?_⟩
      exact ⟨by simp [Thread.capturing, hp.2], nofun, (hfa hs).read⟩
  | ended =>
    rcases ha with rfl | rfl <;> cases hf
    exact ⟨.ended, hk, .inl rfl, fun _ => .not_capturing (by simp [Thread.capturing]) nofun nofun⟩

theorem frozenReads_succ (k n : Nat) :
    frozenReads k (n + 1) = frozenReads k n ++ [(n, some k)] := by
  simp [frozenReads, List.range_succ]

theorem resume_ne_of_prepare {line : String} (h : verbOf line = .prepare) : line ≠ snapResume := by
  rintro rfl
  rw [SnapshotLink.verbOf_resume] at h
  cases h

theorem Standing.performed (h : Standing m strict w.guest w.frozenFor k t)
    (hre : t.rest = .call e cont) (hp : Agent.performed w k t e = some (r, t', w')) :
    Standing m strict w.guest w.frozenFor k { t' with rest := cont r } := by
  obtain ⟨st, hk, hpl, hf⟩ := h
  rw [hre] at hk
  obtain ⟨ha, hnex⟩ := hk
  have hk := hnex r
  cases st with
  | fresh =>
    obtain rfl : e = .dial := ha
    simp only [Agent.performed] at hp
    split at hp
    · cases hp
    · cases hp
      obtain ⟨hg, hh, _, hac, hrea, hrel, hap⟩ := hpl
      exact ⟨.dialed, hk, ⟨hg, hh, hac, hrea, hrel, hap⟩,
        fun _ => .not_capturing (by simp [Thread.capturing, hac]) (by simp) (by simp)⟩
  | dialed =>
    obtain ⟨line, rfl⟩ := ha
    cases hp
    obtain ⟨hg, hh, hac, hrea, hrel, hap⟩ := hpl
    have hc : ∀ st, (∀ n, st ≠ .granted n) → st ≠ .resumed true →
        strict → Faithful m w.guest w.frozenFor k { t with
          toGuest := t.toGuest ++ [line], released := t.released || line = snapResume,
          rest := cont (.ok ()) } st :=
      fun st hn hr _ => .not_capturing (by simp [Thread.capturing, hac]) hn hr
    by_cases hv : verbOf line = .prepare
    · simp only [Stage.next, hv, if_true] at hk
      refine ⟨.asked, hk, ⟨hrea, ?_, .inl ⟨line, by simp [hg], hv, hh, hac, hap⟩⟩,
        hc _ (by simp) (by simp)⟩
      simp [hrel, resume_ne_of_prepare hv]
    · simp only [Stage.next, hv, if_false] at hk
      exact ⟨.ended, hk, .inr ⟨hac, by simp [hg, hv], fun p => hap.2 _ p⟩,
        hc _ (by simp) (by simp)⟩
  | asked =>
    obtain rfl : e = .readLine := ha
    simp only [Agent.performed] at hp
    obtain ⟨hrea, hrel, hwa⟩ := hpl
    cases ht : t.toHost with
    | nil => simp [ht] at hp
    | cons line rest =>
      rw [ht] at hp
      cases hp
      rcases hwa with ⟨_, _, _, hni, _⟩ | ⟨_, hni, _⟩ | ⟨hg, hi, hrep⟩
      · simp [ht] at hni
      · simp [ht] at hni
      rcases hrep with ⟨hni, _⟩ | ⟨line', hl, hac⟩
      · simp [ht] at hni
      obtain ⟨rfl, rfl⟩ : line = line' ∧ rest = [] := by simpa [ht] using hl
      by_cases ho : line = snapOK
      · simp only [Stage.next, ho, if_true] at hk
        refine ⟨.granted 0, by rw [ho]; exact hk, ⟨hac.mpr ho, hrel, hg, rfl, hi⟩,
          fun hs => ⟨(hf hs).held, ?_, by simp⟩⟩
        rintro n ⟨⟩
        exact hrea
      · have hno : t.acked = false := by simpa using fun h => ho (hac.mp h)
        have hne : (Except.ok line : Except String String) ≠ .ok snapOK := by simpa using ho
        simp only [Stage.next, hne, if_false] at hk
        exact ⟨.ended, hk, .inr ⟨hno, by simp [hg], fun p => hi _ p⟩,
          fun _ => .not_capturing (by simp [Thread.capturing, hno]) (by simp) (by simp)⟩
  | granted n =>
    rcases ha with rfl | rfl | rfl | rfl | rfl <;> simp only [Agent.performed] at hp
    case inl =>
      split at hp <;> cases hp
      exact ⟨.granted n, hk, hpl, fun hs =>
        ⟨(hf hs).held, (hf hs).reading, (hf hs).read⟩⟩
    case inr.inl =>
      split at hp <;> cases hp
      all_goals exact ⟨.granted n, hk, hpl, fun hs =>
        ⟨(hf hs).held, (hf hs).reading, (hf hs).read⟩⟩
    case inr.inr.inl =>
      cases hp
      refine ⟨.granted (n + 1), hk, hpl, fun hs => ⟨(hf hs).held, ?_, by simp⟩⟩
      rintro _ ⟨⟩
      have hhe := (hf hs).held (by simp [Thread.capturing, hpl.1, hpl.2.1])
      simp only [(hf hs).reading n rfl, hhe.1, frozenReads_succ]
    case inr.inr.inr.inl =>
      cases hp
      exact ⟨.granted n, hk, hpl, fun hs =>
        ⟨(hf hs).held, (hf hs).reading, (hf hs).read⟩⟩
    case inr.inr.inr.inr =>
      cases hp
      refine ⟨.resumed (n = m.blocks), hk, ⟨hpl.1, by simp⟩, fun hs => ?_⟩
      refine ⟨by simp [Thread.capturing], by simp, fun hw => ?_⟩
      simp only [Stage.resumed.injEq, decide_eq_true_eq] at hw
      rw [← hw]
      exact (hf hs).reading n rfl
  | resumed b =>
    have hst : ∀ t'', t''.acked = t.acked → t''.released = true → t''.reads = t.reads →
        t''.job = t.job → Keeps m (Accepts t.job) (.resumed b) t''.rest →
        Standing m strict w.guest w.frozenFor k t'' := by
      intro t'' hac hrel hrea hj hk'
      refine ⟨.resumed b, by rw [hj]; exact hk', ⟨by rw [hac, hpl.1], hrel⟩, fun hs => ?_⟩
      exact ⟨by simp [Thread.capturing, hrel], by simp, fun hb => by rw [hrea, (hf hs).read hb]⟩
    rcases ha with rfl | rfl | rfl | rfl | rfl <;> simp only [Agent.performed] at hp <;>
      (try split at hp) <;> cases hp
    all_goals exact hst _ rfl (by simp [hpl.2]) rfl rfl hk
  | ended =>
    rcases ha with rfl | rfl <;> simp only [Agent.performed] at hp
    case inl =>
      split at hp <;> cases hp
      exact ⟨.ended, hk, hpl, fun hs =>
        ⟨(hf hs).held, (hf hs).reading, (hf hs).read⟩⟩
    case inr =>
      cases hp
      exact ⟨.ended, hk, .inl rfl, fun _ => .not_capturing (by simp [Thread.capturing]) (by simp) (by simp)⟩

theorem Standing.perform (h : Standing m strict w.guest w.frozenFor k t)
    (hr : t.rest = .call e cont) (hp : Agent.perform w k t fault e = some (r, t', w')) :
    Standing m strict w.guest w.frozenFor k { t' with rest := cont r } := by
  cases fault with
  | some err =>
    simp only [Agent.perform, Option.map_eq_some_iff, Prod.mk.injEq, Prod.exists] at hp
    obtain ⟨r', t'', hf, rfl, rfl, rfl⟩ := hp
    exact h.faulted hr hf
  | none => exact h.performed hr hp

theorem Standing.acked_of_put (h : Standing m strict g fz k t) (hr : t.rest = .call .put cont) :
    t.acked = true := by
  obtain ⟨st, hk, hp, _⟩ := h
  rw [hr] at hk
  have ha := hk.1
  cases st with
  | resumed b => exact hp.1
  | fresh | dialed | asked | granted | ended => simp [Stage.allows] at ha

end Craftling.Agent

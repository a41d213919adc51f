import Craftling.Control.Metering

namespace Craftling.Control
open Effects

/-- `OwnerLedger` for one server: an interval that reaches into the period counts from the
period's start at the earliest, and to now while it is open. -/
def ledgerSeconds (usage : List Interval) (id : ServerID) (periodStart now : Time) : Int :=
  max 0 (usage.map fun x =>
    if x.serverID = id ∧ x.endedAt.all (periodStart ≤ ·) then
      (x.endedAt.getD now : Int) - max x.startedAt periodStart
    else 0).sum

def Interval.covers (id : ServerID) (now t : Time) (x : Interval) : Bool :=
  x.serverID = id && x.startedAt ≤ t && t < x.endedAt.getD now

/-- Intervals are over before the next one of their server begins. -/
structure InTurn (usage : List Interval) (now : Time) : Prop where
  past : ∀ x ∈ usage, x.startedAt ≤ x.endedAt.getD now ∧ x.endedAt.getD now ≤ now
  apart : usage.Pairwise fun x y =>
    x.serverID = y.serverID → ∃ t, x.endedAt = some t ∧ t ≤ y.startedAt

variable {usage : List Interval} {now now' since : Time} {id : ServerID} {m m' : Metered}

theorem InTurn.later (h : InTurn usage now) (hn : now ≤ now') : InTurn usage now' := by
  refine ⟨fun x hx => ?_, h.apart⟩
  have hp := h.past x hx
  obtain ⟨i, s, _ | t⟩ := x
  · exact ⟨hp.1.trans hn, le_rfl⟩
  · exact ⟨hp.1, hp.2.trans hn⟩

theorem InTurn.start (h : InTurn usage now) (id : ServerID) :
    InTurn (startRunning usage id now) now := by
  unfold startRunning
  split
  · exact h
  rename_i ho
  refine ⟨?_, List.pairwise_append.mpr ⟨h.apart, List.pairwise_singleton .., ?_⟩⟩
  · intro x hx
    rcases List.mem_append.mp hx with hx | hx
    · exact h.past x hx
    · cases List.mem_singleton.mp hx
      exact ⟨le_rfl, le_rfl⟩
  · intro x hx y hy hs
    -- the server has no open interval, so what it has is over by now
    cases List.mem_singleton.mp hy
    cases he : x.endedAt with
    | none =>
      exact absurd (List.any_eq_true.mpr ⟨x, hx, by simpa [Interval.openFor, he] using hs⟩) ho
    | some t => exact ⟨t, rfl, by simpa [he] using (h.past x hx).2⟩

theorem InTurn.stop (h : InTurn usage now) (id : ServerID) :
    InTurn (stopRunning usage id now) now := by
  refine ⟨?_, List.pairwise_map.mpr (h.apart.imp fun {x y} hxy hs => ?_)⟩
  · intro y hy
    obtain ⟨x, hx, rfl⟩ := List.mem_map.mp hy
    have hp := h.past x hx
    split
    · exact ⟨hp.1.trans hp.2, le_rfl⟩
    · exact hp
  · obtain ⟨t, ht, hl⟩ := hxy (by split at hs <;> split at hs <;> exact hs)
    refine ⟨t, by simp [Interval.openFor, ht], ?_⟩
    split <;> exact hl

theorem card_filter_any {l : List α} {p : α → Nat → Bool} (s : Finset Nat)
    (h : l.Pairwise fun x y => ∀ t, p x t = true → p y t = false) :
    (s.filter fun t => l.any (p · t)).card = (l.map fun x => (s.filter (p x ·)).card).sum := by
  induction l with
  | nil => simp
  | cons x l ih =>
    rw [List.pairwise_cons] at h
    rw [List.map_cons, List.sum_cons, ← ih h.2, ← Finset.card_union_of_disjoint]
    · simp [Finset.filter_or]
    · rw [Finset.disjoint_filter]
      intro t _ hx hl
      obtain ⟨y, hy, hp⟩ := List.any_eq_true.mp hl
      simp [h.1 y hy t hx] at hp

theorem card_covers (id : ServerID) (x : Interval) (hs : since ≤ now)
    (hp : x.startedAt ≤ x.endedAt.getD now ∧ x.endedAt.getD now ≤ now) :
    (((Finset.Ico since now).filter (x.covers id now ·)).card : Int) =
      if x.serverID = id ∧ x.endedAt.all (since ≤ ·) then
        (x.endedAt.getD now : Int) - max x.startedAt since
      else 0 := by
  obtain ⟨i, s, e⟩ := x
  have hf : (Finset.Ico since now).filter (Interval.covers id now · ⟨i, s, e⟩) =
      if i = id then Finset.Ico (max s since) (e.getD now) else ∅ := by
    ext t
    by_cases hi : i = id
    · simp [Interval.covers, hi]
      grind
    · simp [Interval.covers, hi]
  rw [hf]
  cases e <;> grind [Nat.card_Ico]

theorem InTurn.ledgerSeconds (h : InTurn usage now) (hs : since ≤ now) :
    Control.ledgerSeconds usage id since now =
      ((Finset.Ico since now).filter fun t => usage.any (·.covers id now t)).card := by
  rw [card_filter_any]
  · have hm := List.map_congr_left fun x hx => card_covers id x hs (h.past x hx)
    rw [Control.ledgerSeconds, ← hm, max_eq_right (List.sum_nonneg (by simp))]
    simp [Function.comp_def]
  · refine h.apart.imp fun {x y} hxy t hx => ?_
    simp only [Interval.covers, Bool.and_eq_true, decide_eq_true_eq] at hx
    by_cases hy : y.serverID = id
    · obtain ⟨e, he, hl⟩ := hxy (hx.1.1.trans hy.symm)
      simp [Interval.covers, he] at hx ⊢
      grind
    · simp [Interval.covers, hy]

theorem step_clock (hs : step d f l = some f') : f.clock ≤ f'.clock := by
  by_cases hr : l.isReconciler = true ∧ l ≠ .restartControl
  · exact (reconcilerStep_unmoved hs hr.1 hr.2).clock.ge
  cases l with
  | wait t => cases hs; exact Nat.le_add_right ..
  | restartControl => cases hs; rfl
  | _ =>
    first
    | exact absurd ⟨rfl, by simp⟩ hr
    | simp only [step, otherStep, otherDoneStep, sendStep, execStep, deliverStep, countStep,
        registerStep, addStep, heartbeatStep, streamEndStep, removeStep, markDownStep,
        sweepStep] at hs
      repeat' split at hs
      all_goals cases hs; try rfl

theorem Metered.step_inTurn (h : InTurn m.usage m.fleet.clock) (hs : m.step d l = some m') :
    InTurn m'.usage m'.fleet.clock := by
  obtain ⟨hst, hu⟩ := Metered.step_eq hs
  refine InTurn.later ?_ (step_clock hst)
  rw [hu]
  unfold Fleet.meters
  split
  · split
    · exact h.start _
    · exact h.stop _
    · exact h
  · exact h

/-- In every run, whatever fails, a server is billed for exactly those instants of a period that
lie in its intervals, each once. -/
theorem billed_once (id : ServerID) (since : Time)
    (hr : Reaches (Metered.step d) (fun _ _ _ => True) .init m)
    (hp : since ≤ m.fleet.clock) : ledgerSeconds m.usage id since m.fleet.clock =
      ((Finset.Ico since m.fleet.clock).filter fun t =>
        m.usage.any (·.covers id m.fleet.clock t)).card :=
  InTurn.ledgerSeconds (hr.invariant (I := fun m => InTurn m.usage m.fleet.clock)
    ⟨by simp [Metered.init], .nil⟩ fun _ _ _ h hs _ => Metered.step_inTurn h hs) hp

/-- The server starts at 3, and at 9 the bill for the time since 2 is over six seconds. -/
theorem billed_once_running : ∃ m : Metered,
    Reaches (Metered.step oneHost) (fun _ _ _ => True) .init m ∧
      ((Finset.Ico 2 9).filter fun t => m.usage.any (·.covers 0 9 t)).card = (6 : Int) := by
  obtain ⟨m, hrun, hm⟩ := Reaches.exists_run (Metered.step oneHost) (fun _ _ _ => True) .init
    (.wait 3 :: toRunning ++ [.wait 6])
    (fun m => decide (m.fleet.clock = 9) && decide (ledgerSeconds m.usage 0 2 9 = 6))
    (by decide +kernel)
  simp only [Bool.and_eq_true, decide_eq_true_eq] at hm
  have h := billed_once 0 2 hrun (by rw [hm.1]; decide)
  rw [hm.1, hm.2] at h
  exact ⟨m, hrun, h.symm⟩

end Craftling.Control

import Craftling.Control.Names

namespace Craftling.Control
open Effects

structure Interval where
  serverID : ServerID
  startedAt : Time
  endedAt : Option Time
  deriving DecidableEq, Repr

def Interval.openFor (id : ServerID) (x : Interval) : Bool := x.serverID = id && x.endedAt.isNone

def opened (usage : List Interval) (id : ServerID) : Bool := usage.any (Interval.openFor id)

/-- An interval that would be the second open one of its server is not inserted. -/
def startRunning (usage : List Interval) (id : ServerID) (now : Time) : List Interval :=
  if opened usage id then usage else usage ++ [⟨id, now, none⟩]

def stopRunning (usage : List Interval) (id : ServerID) (now : Time) : List Interval :=
  usage.map fun x => if x.openFor id then { x with endedAt := some now } else x

theorem opened_startRunning (usage : List Interval) (id j : ServerID) (now : Time) :
    opened (startRunning usage id now) j = (decide (j = id) || opened usage j) := by
  unfold startRunning
  split
  · rename_i ho
    by_cases hj : j = id
    · subst hj
      simp [ho]
    · simp [hj]
  by_cases hj : j = id
  · simp [opened, Interval.openFor, hj]
  · simp [opened, Interval.openFor, hj, Ne.symm hj]

theorem opened_stopRunning (usage : List Interval) (id j : ServerID) (now : Time) :
    opened (stopRunning usage id now) j = (decide (j ≠ id) && opened usage j) := by
  induction usage with
  | nil => simp [stopRunning, opened]
  | cons x usage ih =>
    simp only [stopRunning, opened, List.map_cons, List.any_cons] at ih ⊢
    rw [ih, Bool.and_or_distrib_left]
    congr 1
    by_cases hx : x.openFor id = true
    · have hi : x.serverID = id := by
        simp only [Interval.openFor, Bool.and_eq_true, decide_eq_true_eq] at hx
        exact hx.1
      rw [if_pos hx]
      by_cases hj : j = id
      · simp [Interval.openFor, hj]
      · simp [Interval.openFor, hi, Ne.symm hj]
    · rw [if_neg hx]
      by_cases hj : j = id
      · subst hj
        simp [hx]
      · simp [hj]

def Fleet.meters (f : Fleet) (usage : List Interval) : Label → List Interval
  | .act none _ =>
    match f.asks with
    | some (.startRunning id) => startRunning usage id f.clock
    | some (.stopRunning id) => stopRunning usage id f.clock
    | _ => usage
  | _ => usage

structure Metered where
  fleet : Fleet
  usage : List Interval

def Metered.init : Metered := ⟨.init, []⟩

def Metered.step (d : Deployment) (m : Metered) (l : Label) : Option Metered :=
  (Control.step d m.fleet l).map fun f => ⟨f, m.fleet.meters m.usage l⟩

theorem Metered.step_eq {d : Deployment} {m m' : Metered} {l : Label} (hs : m.step d l = some m') :
    Control.step d m.fleet l = some m'.fleet ∧ m'.usage = m.fleet.meters m.usage l := by
  obtain ⟨f, hf, rfl⟩ := Option.map_eq_some_iff.mp hs
  exact ⟨hf, rfl⟩

/-- The call that closes an interval does not fail in the step. -/
def Metered.closes (m : Metered) : Label → Bool
  | .act (some _) _ =>
    match m.fleet.asks with
    | some (.stopRunning _) => false
    | _ => true
  | _ => true

end Craftling.Control

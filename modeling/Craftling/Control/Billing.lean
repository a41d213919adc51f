import Craftling.Control.Intervals
import Craftling.Control.Converged

namespace Craftling.Control
open Effects

/-- A metered run in which no interval fails to be closed, and the fleet in it. -/
structure Invoiced (d : Deployment) (m : Metered) : Prop where
  unbroken : Unbroken d m.fleet
  billed : Billed d.cfg m

theorem Invoiced.step (h : Invoiced d m) (hs : m.step d l = some m') (hl : l.spares = true)
    (hc : m.closes l = true) : Invoiced d m' :=
  ⟨h.unbroken.step (Metered.step_eq hs).1 (by rintro rfl; cases hl),
    h.billed.step h.unbroken.orderly hs hl hc⟩

theorem closes_of_fine {m : Metered} {l : Label} {id : ServerID}
    (hf : m.fleet.fine d full id l = true) : m.closes l = true := by
  cases l with
  | act fault order =>
    cases fault with
    | none => rfl
    | some text => cases hf
  | _ => rfl

theorem Invoiced.init (d : Deployment) : Invoiced d .init := ⟨.init d, .init d.cfg⟩

/-- From a row and an agent's table that are sound, between ticks of a run in which no call that
closes an interval fails, a quiet period with one tick closes the server's interval unless it
runs. -/
theorem metered_intervals_close (d : Deployment) (id : ServerID) (m : Metered) (x : Metered × Nat)
    (hrun : Reaches (Metered.step d) (fun y l _ => l.spares = true ∧ y.closes l = true) .init m)
    (hidle : m.fleet.thread = none)
    (hsound : ∀ r, m.fleet.rows[id]? = some r → m.fleet.sound false r = true)
    (hquiet : Reaches (counting (Metered.step d) Label.isTick)
      (fun y l _ => y.1.fleet.fine d false id l = true) (m, 0) x)
    (hticks : 1 ≤ x.2) (hidle' : x.1.fleet.thread = none) (hopen : opened x.1.usage id = true) :
    ∃ r, x.1.fleet.rows[id]? = some r ∧ r.deleted = false ∧ r.status = .running := by
  have hinvoiced : Invoiced d m := hrun.invariant (.init d) fun y l y' hy hs hok =>
    hy.step hs hok.1 hok.2
  obtain ⟨hinvoiced', hbound⟩ : Invoiced d x.1 ∧ Bound d false id x.2 x.1.fleet :=
    hquiet.invariant (I := fun y => Invoiced d y.1 ∧ Bound d false id y.2 y.1.fleet)
      ⟨hinvoiced, .start hinvoiced.unbroken hidle hsound⟩ fun y l y' hy hs hf => by
        obtain ⟨hst, hn⟩ := counting_eq hs
        have hl := spares_of_fine hf
        refine ⟨hy.1.step hst ?_ ?_, hn ▸ hy.2.step (Metered.step_eq hst).1 hf⟩
        · cases l <;> first | rfl | exact absurd rfl hl
        · exact closes_of_fine hf
  obtain ⟨r, hr, hvm⟩ := hinvoiced'.billed.bill id hopen
  have hvm : r.vmID.isSome = true := by
    refine hvm.resolve_right ?_
    rintro ⟨w, hw, -⟩
    simp [Fleet.cur, hidle'] at hw
  have hcoherent := hbound.unbroken.orderly.coherent.rows r (List.mem_of_getElem? hr)
  refine ⟨r, hr, hcoherent.placed (hcoherent.hosted hvm), ?_⟩
  refine (hbound.rested hidle' hticks r hr).quit.resolve_left fun hnone => ?_
  rw [hnone] at hvm
  cases hvm

/-- A server is created and a host joins. After two quiet ticks it runs, and its interval is
open. -/
theorem metered_intervals_close_running : ∃ (m : Metered) (x : Metered × Nat),
      Reaches (Metered.step oneHost) (fun y l _ => l.spares = true ∧ y.closes l = true) .init m ∧
      m.fleet.thread.isNone = true ∧
      Reaches (counting (Metered.step oneHost) Label.isTick)
        (fun y l _ => y.1.fleet.fine oneHost false 0 l = true) (m, 0) x ∧
      x.2 = 2 ∧ x.1.fleet.thread.isNone = true ∧ opened x.1.usage 0 = true ∧
      ∃ r, x.1.fleet.rows[0]? = some r ∧ r.deleted = false ∧ r.status = .running := by
  obtain ⟨m, hrun, hm⟩ := Reaches.exists_run (Metered.step oneHost)
    (fun y l _ => l.spares = true ∧ y.closes l = true) .init (.create oneServer :: joins 0 0)
    (fun m => m.fleet.thread.isNone && (m.fleet.rows[0]?.all (m.fleet.sound false) &&
      (runChecked (counting (Metered.step oneHost) Label.isTick)
        (fun y l _ => y.1.fleet.fine oneHost false 0 l = true) (m, 0)
        (.tick :: List.replicate 7 plain ++ commanded 0 ++ List.replicate 3 plain ++
          probed 1)).any fun x : Metered × Nat =>
        decide (x.2 = 2) && (x.1.fleet.thread.isNone && opened x.1.usage 0))) (by decide +kernel)
  simp only [Bool.and_eq_true] at hm
  obtain ⟨hidle, hsound, hquiet⟩ := hm
  obtain ⟨x, hquiet, hx⟩ := Reaches.exists_run _ _ _ _ _ hquiet
  simp only [Bool.and_eq_true, decide_eq_true_eq] at hx
  obtain ⟨hticks, hidle', hopen⟩ := hx
  have hsound : ∀ r, m.fleet.rows[0]? = some r → m.fleet.sound false r = true := by
    intro r hr
    simpa [hr] using hsound
  exact ⟨m, x, hrun, hidle, hquiet, hticks, hidle', hopen,
    metered_intervals_close oneHost 0 m x hrun (by simpa using hidle) hsound hquiet (by omega)
      (by simpa using hidle') hopen⟩

/-- No call to the database or the meter fails in the step. -/
def Label.faultless : Label → Bool
  | .act (some _) _ => false
  | _ => true

/-- The step is no user's call either. -/
def Label.calm : Label → Bool
  | .create _ | .updateSpec _ _ _ | .setDesired _ _ | .requestBackup _ | .restartControl => false
  | l => l.faultless

/-- The server's stop goes through, but the call that closes its interval fails. -/
def toUnclosed : List Label :=
  toRunning ++ [.setDesired 0 .stopped, .tick, plain, plain, plain, plain] ++ commanded 1 ++
    commanded 2 ++ [plain, plain, .act (some "conflict") .asStored, plain]

/-- The host is lost, and the user stops the server. -/
def toUnstopped : List Label :=
  toRunning ++ [.streamEnd 0, .remove 0, .markDown 0, .setDesired 0 .stopped]

/-- Two calm ticks from here leave the interval of a server that does not run open. -/
def Metered.LeftOpen (m : Metered) (status : Status) : Prop :=
  m.fleet.thread.isNone = true ∧ ∃ x : Metered × Nat,
    Reaches (counting (Metered.step oneHost) Label.isTick) (fun _ l _ => l.calm = true) (m, 0) x ∧
    x.2 = 2 ∧ x.1.fleet.thread.isNone = true ∧ opened x.1.usage 0 = true ∧
    x.1.fleet.rows[0]?.map GameServer.status = some status

def Metered.leftOpen (m : Metered) (ls : List Label) (status : Status) : Bool :=
  m.fleet.thread.isNone && (runChecked (counting (Metered.step oneHost) Label.isTick)
    (fun _ l _ => l.calm = true) (m, 0) ls).any fun x =>
      decide (x.2 = 2) && (x.1.fleet.thread.isNone && (opened x.1.usage 0 &&
        decide (x.1.fleet.rows[0]?.map GameServer.status = some status)))

theorem Metered.leftOpen_spec {m : Metered} (h : m.leftOpen ls status = true) :
    m.LeftOpen status := by
  simp only [Metered.leftOpen, Bool.and_eq_true] at h
  obtain ⟨hidle, hquiet⟩ := h
  obtain ⟨x, hquiet, hx⟩ := Reaches.exists_run _ _ _ _ _ hquiet
  simp only [Bool.and_eq_true, decide_eq_true_eq] at hx
  exact ⟨hidle, x, hquiet, hx⟩

/-- One interval stays open with a server that was stopped, after a single call failed, and
one with a server in error, though none has. -/
theorem intervals_left_open :
    (∃ m, Reaches (Metered.step oneHost) (fun _ l _ => l.spares = true) .init m ∧
      m.LeftOpen .stopped) ∧
    ∃ m, Reaches (Metered.step oneHost) (fun _ l _ => l.spares = true ∧ l.faultless = true)
      .init m ∧ m.LeftOpen .error := by
  constructor
  · obtain ⟨m, hrun, hm⟩ := Reaches.exists_run (Metered.step oneHost)
      (fun _ l _ => l.spares = true) .init toUnclosed
      (fun m => m.leftOpen [.tick, plain, plain, .tick, plain, plain] .stopped) (by decide +kernel)
    exact ⟨m, hrun, Metered.leftOpen_spec hm⟩
  · obtain ⟨m, hrun, hm⟩ := Reaches.exists_run (Metered.step oneHost)
      (fun _ l _ => l.spares = true ∧ l.faultless = true) .init toUnstopped
      (fun m => m.leftOpen (List.replicate 2
        [.tick, plain, plain, plain, plain, .issue, plain, plain]).flatten .error)
      (by decide +kernel)
    exact ⟨m, hrun, Metered.leftOpen_spec hm⟩

end Craftling.Control

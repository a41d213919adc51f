import Craftling.Host.Conduct

namespace Craftling.Host
open Effects List
open Control (ServerID VMID VMSpec Op)

def Runtime.Alive (r : Runtime) (v : VMID) : Prop :=
  ∃ m, r.machines[v]? = some m ∧ m.proc = .alive

/-- A machine is reported running, takes up capacity, and is taken to be up by a start only
when its process is alive. -/
structure Truthful (cfg : Config) (r : Runtime) : Prop where
  status : ∀ v fault, ((status v).runOn (Runtime.perform cfg fault) r).1 = .vm v .running →
    r.Alive v
  counted : ∀ m ∈ r.counted, m.proc = .alive
  start : ∀ v fault, (r.perform cfg fault (.running v)).1 = true → r.Alive v

/-- No process has exited without anybody having waited for it. -/
def Reaped (r : Runtime) : Prop := ∀ m ∈ r.machines, m.proc ≠ .exited

section Reports

variable {cfg : Config} {r : Runtime} {v : VMID}

theorem Reaped.alive (h : Reaped r) (hm : m ∈ r.machines) (hr : m.running = true) :
    m.proc = .alive := by
  simp only [Machine.running, Bool.or_eq_true, decide_eq_true_eq] at hr
  exact hr.resolve_right (h m hm)

theorem Reaped.probe (h : Reaped r) (hr : r.machines[v]?.any Machine.running = true) :
    r.Alive v := by
  rw [Option.any_eq_true] at hr
  obtain ⟨m, hm, hru⟩ := hr
  exact ⟨m, hm, h.alive (mem_of_getElem? hm) hru⟩

theorem status_runOn (cfg : Config) (fault : Option String) (r : Runtime) (v : VMID) :
    ((status v).runOn (Runtime.perform cfg fault) r).1 =
      if (r.tracked v).isSome then
        .vm v (if r.machines[v]?.any Machine.running then .running else .stopped)
      else .vm v .missing := by
  have hf : r.perform cfg fault (.find v) = (r.tracked v, r) := rfl
  rw [show status v = Prog.call (.find v) _ from rfl, Prog.runOn_call, hf]
  cases r.tracked v <;> rfl

theorem Reaped.truthful (h : Reaped r) : Truthful cfg r := by
  refine ⟨?_, ?_, ?_⟩
  · intro v fault hs
    rw [status_runOn] at hs
    split at hs
    · split at hs
      · exact h.probe ‹_›
      · cases hs
    · cases hs
  · intro m hm
    simp only [Runtime.counted, mem_filter, Bool.and_eq_true] at hm
    exact h.alive hm.1 hm.2.2
  · intro v fault hr
    exact h.probe hr

theorem not_truthful_exit (h : r.Alive v) : ¬ Truthful cfg (r.event (.exit v)) := by
  obtain ⟨m, hm, hp⟩ := h
  have he : (r.event (.exit v)).machines[v]? = some m.exit := by
    simp [Runtime.event, Runtime.modify, hm]
  have hz : m.exit.proc = .exited := by simp [Machine.exit, hp]
  intro ht
  obtain ⟨m', hm', ha⟩ := ht.start v none (by
    simp [Runtime.perform, he, Machine.running, hz])
  rw [he] at hm'
  cases hm'
  rw [hz] at ha
  cases ha

theorem Reaped.perform (h : Reaped r) (fault : Option String) (e : Call) :
    Reaped (r.perform cfg fault e).2 := by
  intro m' hm' he
  obtain ⟨v, hv⟩ := mem_iff_getElem?.mp hm'
  rcases (r.perform_grows cfg fault e).new v m' hv with ⟨m, hm, hmo⟩ | ⟨-, spec, -, rfl⟩
  · have ho := h m (mem_of_getElem? hm)
    rcases hmo.proc with hs | ⟨-, hb⟩ | hk
    · exact ho (hs ▸ he)
    · rw [hb] at he
      cases he
    · rw [hk, Machine.kill] at he
      by_cases hp : m.proc = .unstarted <;> simp [hp] at he
  · cases he

end Reports

def Cared (p : Commands) : Turn Op (Option String) Event → Prop
  | .other (.exit v) => ¬ p.shared.machines[v]?.any (·.proc = .alive) = true
  | _ => True

instance (p : Commands) (l : Turn Op (Option String) Event) : Decidable (Cared p l) := by
  unfold Cared
  induction l using Turn.casesOn
  case other w => induction w using Event.casesOn <;> infer_instance
  all_goals infer_instance

variable {p : Commands}

theorem Reaped.event (h : Reaped p.shared) (hl : Cared p (.other w)) :
    Reaped (p.shared.event w) := by
  cases w with
  | exitStray i => exact h
  | exit v =>
    intro m' hm'
    obtain ⟨u, hu⟩ := mem_iff_getElem?.mp hm'
    simp only [Runtime.event, Runtime.modify, List.getElem?_modify] at hu
    obtain ⟨m, hm, rfl⟩ := Option.map_eq_some_iff.mp hu
    have ho := h m (mem_of_getElem? hm)
    split
    · rename_i huv
      subst huv
      have hd : m.proc ≠ .alive := by simpa [Cared, hm] using hl
      simpa [Machine.exit, hd] using ho
    · exact ho

theorem Reaped.step (h : Reaped p.shared) (hs : (runtime cfg).step p l = some p') (hl : Cared p l) :
    Reaped p'.shared := by
  cases l with
  | start j =>
    cases hs
    exact h
  | turn i fault =>
    obtain ⟨j, st, e, k, -, rfl⟩ := System.step_turn hs
    exact h.perform fault e
  | other w =>
    obtain ⟨r, hw, rfl⟩ := System.step_other hs
    cases hw
    exact h.event hl

/-- What the runtime tells of its machines is true as long as no process exits by itself. -/
theorem observed_state_truthful (cfg : Config) (p : Commands)
    (hrun : Reaches (runtime cfg).step (fun q l _ => Cared q l) Commands.init p) :
    Truthful cfg p.shared ∧
      ∀ v, p.shared.Alive v → ¬ Truthful cfg (p.shared.event (.exit v)) := by
  have hreaped : Reaped p.shared := by
    refine hrun.invariant (I := fun q => Reaped q.shared) ?_ fun q l q' hq hs hl => hq.step hs hl
    intro m hm
    cases hm
  exact ⟨hreaped.truthful, fun v hv => not_truthful_exit hv⟩

/-- A machine that has been stopped is not counted, and is reported stopped. -/
theorem observed_state_truthful_stopped : ∃ p : Commands,
      Reaches (runtime smallHost).step (fun q l _ => Cared q l) Commands.init p ∧
      p.threads.map (fun t => t.prog.result?) = [some (.vm 0 .running), some (.vm 0 .running),
        some .done, some (.vm 0 .stopped)] ∧
      Truthful smallHost p.shared := by
  exact Reaches.exists_then
    (.start (.provision (smallSpec 0)) :: List.replicate 8 (.turn 0 none) ++
      .start (.status 0) :: List.replicate 2 (.turn 1 none) ++
      .start (.stop 0) :: List.replicate 5 (.turn 2 none) ++
      .start (.status 0) :: List.replicate 2 (.turn 3 none)) (by decide +kernel)
    fun p hrun _ => (observed_state_truthful smallHost p hrun).1

/-- The process of a machine exits. Status reports it running, a start leaves it as it is,
and a provision is refused for the room that it no longer takes up. -/
theorem exited_process_reported_running :
    ∃ p : Commands, Reaches (runtime smallHost).step (fun _ _ _ => True) Commands.init p ∧
      p.threads.map (fun t => t.prog.result?) = [some (.vm 0 .running), some (.vm 0 .running),
        some (.vm 0 .running), some (.failed "insufficient host capacity")] ∧
      p.shared.machines.map Machine.proc = [.exited] ∧ ¬ Truthful smallHost p.shared := by
  obtain ⟨p, hrun, hp⟩ := Reaches.exists_run (runtime smallHost).step
    (fun _ _ _ => True) Commands.init
    (.start (.provision (smallSpec 0)) :: List.replicate 8 (.turn 0 none) ++
      .other (.exit 0) :: .start (.status 0) :: List.replicate 2 (.turn 1 none) ++
      .start (.start 0) :: List.replicate 3 (.turn 2 none) ++
      [.start (.provision (smallSpec 1)), .turn 3 none])
    (fun p => p.threads.map (fun t => t.prog.result?) = [some (.vm 0 .running),
        some (.vm 0 .running), some (.vm 0 .running),
        some (.failed "insufficient host capacity")] &&
      p.shared.machines.map Machine.proc = [.exited] &&
      p.shared.counted.any (·.proc = .exited)) (by decide +kernel)
  simp only [Bool.and_eq_true, decide_eq_true_eq, any_eq_true] at hp
  obtain ⟨⟨hresults, hprocs⟩, m, hm, hexited⟩ := hp
  refine ⟨p, hrun, hresults, hprocs, fun htruth => ?_⟩
  rw [htruth.counted m hm] at hexited
  cases hexited

end Craftling.Host

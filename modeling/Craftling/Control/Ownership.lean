import Craftling.Control.Names
import Craftling.Control.Reaper

namespace Craftling.Control
open Effects List

theorem Agent.update_others {l : List VM} {g : VM → VM} (hg : ∀ m, (g m).serverID = m.serverID)
    (hl : ∀ m ∈ l, m.id = v → m.serverID = j) :
    (l.map fun m => if m.id = v then g m else m).filter (·.serverID ≠ j) =
      l.filter (·.serverID ≠ j) := by
  induction l with
  | nil => rfl
  | cons m l ih =>
    rw [map_cons, filter_cons, filter_cons, ih fun x hx => hl x (mem_cons_of_mem _ hx)]
    by_cases hm : m.id = v
    · simp [hm, hg, hl m mem_cons_self hm]
    · simp [hm]

/-- A command for a server leaves what an agent tracks of others as it is. -/
theorem Agent.exec_others {r : GameServer} {a : Agent} (hm : (Work.on r).mayCommand op)
    (hv : ∀ v, r.vmID = some v → ∀ m ∈ a.vms, m.id = v → m.serverID = r.id) :
    (a.exec info fresh o op).2.vms.filter (·.serverID ≠ r.id) =
      a.vms.filter (·.serverID ≠ r.id) := by
  have hre : ∀ v, r.vmID = some v →
      (a.remove v).vms.filter (·.serverID ≠ r.id) = a.vms.filter (·.serverID ≠ r.id) := by
    intro v hi
    rw [Agent.remove, filter_filter]
    refine filter_congr fun m hme => ?_
    have := hv v hi m hme
    grind
  cases op with
  | provision spec =>
    have hs : spec.serverID = r.id := hm.1
    simp only [Agent.exec]
    split
    · rfl
    · split <;> simp [hs]
  | start v | stop v =>
    simp only [Agent.exec]
    repeat' split
    all_goals first | rfl | exact update_others (fun _ => rfl) (hv v hm)
  | evict v | deprovision v =>
    simp only [Agent.exec]
    split <;> first | rfl | exact hre v hm
  | _ => simp only [Agent.exec]; split <;> rfl

variable {d : Deployment} {f f' : Fleet}

/-- A command that is asked for is about a row that is not deleted, and goes to its host. -/
theorem Orderly.asks (ho : Orderly d f) (ha : f.asks = some (.command h op)) :
    ∃ r ∈ f.rows, r.deleted = false ∧ r.hostID = some h ∧ (Work.on r).mayCommand op := by
  obtain ⟨⟨p, st, j⟩, ht, hn⟩ := Option.bind_eq_some_iff.mp ha
  cases p with
  | done a => cases hn
  | call e k =>
    cases hn
    obtain ⟨w, hcu, -, hh, hm, -⟩ := (ho.informed.keeps _ ht).1
    obtain ⟨r, hi, hcore⟩ := ho.informed.row (w := w) (by rw [Fleet.cur, ht]; exact hcu)
    have hme := mem_of_getElem? hi
    have hho := (hostID_of_core hcore).trans hh
    refine ⟨r, hme, (ho.coherent.rows r hme).placed (by simp [hho]), hho, ?_⟩
    unfold Work.mayCommand at hm ⊢
    simp only [Work.on, id_of_core hcore, vmID_of_core hcore]
    exact hm

theorem orderly_of_reaches (hr : Reaches (step d) (fun _ _ _ => True) .init f) : Orderly d f :=
  hr.invariant (.init d) fun _ _ _ h hs _ => h.step hs

/-- In every run, whatever fails or restarts and whatever users change meanwhile: the command that
the reconciler waits for went to the host of a row that is not deleted, and is about the VM on
record or brings up the first one. When an agent carries it out, no VM of another server changes,
on any host. -/
theorem commands_concern_their_server (hr : Reaches (step d) (fun _ _ _ => True) .init f)
    (hw : f.awaited = some i) :
    ∃ r ∈ f.rows, r.deleted = false ∧ ∃ h op, f.asks = some (.command h op) ∧
      r.hostID = some h ∧ (Work.on r).mayCommand op ∧
      ∀ o f', step d f (.exec i o) = some f' → ∀ a,
        (f'.agents a).vms.filter (·.serverID ≠ r.id) =
          (f.agents a).vms.filter (·.serverID ≠ r.id) := by
  have ho := orderly_of_reaches hr
  obtain ⟨⟨p, st, j⟩, ht, rfl⟩ := Option.bind_eq_some_iff.mp hw
  obtain ⟨h, op, k, c, s, rfl, hc, hop, -⟩ := ho.waits.call _ i ht rfl
  have ha : f.asks = some (.command h op) := by simp [Fleet.asks, ht, Prog.next?]
  obtain ⟨r, hme, hd, hho, hmay⟩ := ho.asks ha
  refine ⟨r, hme, hd, h, op, ha, hho, hmay, fun o f' hs a => ?_⟩
  obtain ⟨own, hn⟩ := ho.named
  have hv : ∀ v, r.vmID = some v → ∀ m ∈ (f.agents a).vms, m.id = v → m.serverID = r.id := by
    -- an id was drawn for one server, the one on record and the one that is tracked
    intro v hv m hm hi
    rw [← (hn.vms a m hm).2, hi]
    exact (hn.rows r.id r v (ho.informed.numbered.row hme) hv).2
  obtain ⟨c', s', hc', -, -, rfl⟩ := execStep_eq hs
  rw [hc] at hc'
  cases hc'
  simp only [Fleet.setAgent, Fleet.setCall]
  split
  · rename_i ha
    subst ha hop
    exact Agent.exec_others hmay hv
  · rfl

/-- While a second server is brought up on a second host, the first one's VM stays as it is. -/
theorem commands_concern_their_server_provision : ∃ f f' : Fleet,
    Reaches (step oneHost) (fun _ _ _ => True) .init f ∧ f.awaited = some 2 ∧
      step oneHost f (.exec 2 .fine) = some f' ∧ ∃ r ∈ f.rows, r.hostID = some 1 ∧
        ((f.agents 0).vms.filter (·.serverID ≠ r.id)).length = 1 ∧
        ∀ a, (f'.agents a).vms.filter (·.serverID ≠ r.id) =
          (f.agents a).vms.filter (·.serverID ≠ r.id) := by
  obtain ⟨f, hrun, hf⟩ := Reaches.exists_run (step oneHost) (fun _ _ _ => True) .init
    (toRunning ++ joins 1 1 ++ .create oneServer :: probed 1 ++ replicate 5 plain ++
      [.issue, .send 2 true])
    (fun f => decide (f.awaited = some 2) && (step oneHost f (.exec 2 .fine)).isSome &&
      (f.rows.any fun r => f.asks = some (.command 1 (.provision (specOf r)))) &&
      f.rows.all fun r => r.hostID = some 1 →
        ((f.agents 0).vms.filter (·.serverID ≠ r.id)).length = 1)
    (by decide +kernel)
  simp only [Bool.and_eq_true, decide_eq_true_eq, any_eq_true, all_eq_true] at hf
  obtain ⟨⟨⟨hw, hs⟩, s, -, ha⟩, hfirst⟩ := hf
  obtain ⟨f', hs⟩ := Option.isSome_iff_exists.mp hs
  obtain ⟨r, hr, -, h, op, ha', hh, -, ho⟩ := commands_concern_their_server hrun hw
  obtain ⟨rfl, -⟩ : 1 = h ∧ _ := by simpa [ha] using ha'
  exact ⟨f, f', hrun, hw, hs, r, hr, hh, hfirst r hr hh, ho .fine f' hs⟩

/-- A soft-deleted row is never brought back, not by users either. It has no host and no VM, and
its server is not provisioned again. -/
theorem deleted_for_good (hr : Reaches (step d) (fun _ _ _ => True) .init f)
    (hd : f.rows[i]?.any (·.deleted) = true) (hl : Reaches (step d) (fun _ _ _ => True) f f') :
    (∃ r, f'.rows[i]? = some r ∧ r.deleted = true ∧ r.hostID = none ∧ r.vmID = none) ∧
      ∀ h spec, f'.asks = some (.command h (.provision spec)) → spec.serverID ≠ i := by
  have hlater : Orderly d f' ∧ ∃ r, f'.rows[i]? = some r ∧ r.deleted = true := by
    refine hl.invariant (I := fun f => Orderly d f ∧ ∃ r, f.rows[i]? = some r ∧ r.deleted = true)
      ⟨orderly_of_reaches hr, by simpa [Option.any_eq_true] using hd⟩ ?_
    rintro g l g' ⟨ho, r, hg, hd⟩ hs -
    exact ⟨ho.step hs, Reaper.rows_deleted hs i r hg hd⟩
  obtain ⟨ho, r, hi, hde⟩ := hlater
  have hc := ho.coherent.rows r (mem_of_getElem? hi)
  have hh : r.hostID = none := by
    by_contra hn
    simp [hc.placed (Option.isSome_iff_ne_none.mpr hn)] at hde
  refine ⟨⟨r, hi, hde, hh, ?_⟩, ?_⟩
  · by_contra hn
    simpa [hh] using hc.hosted (Option.isSome_iff_ne_none.mpr hn)
  · rintro h spec ha rfl
    obtain ⟨r', hme, hd', -, hid, -⟩ := ho.asks ha
    have hi' := ho.informed.numbered.row hme
    rw [← show spec.serverID = r'.id from hid, hi] at hi'
    cases hi'
    rw [hde] at hd'
    cases hd'

/-- A user who wants the server to run after all comes too late. -/
theorem deleted_for_good_revived : ∃ f' : Fleet,
    Reaches (step oneHost) (fun _ _ _ => True) .init f' ∧
      ∃ r, f'.rows[0]? = some r ∧ r.deleted = true ∧ r.hostID = none ∧ r.vmID = none := by
  obtain ⟨f, hrun, hf⟩ := Reaches.exists_run (step oneHost) (fun _ _ _ => True) .init
    ([.create oneServer, .setDesired 0 .deleted, .tick] ++ replicate 7 plain)
    (fun f => f.rows[0]?.any (·.deleted)) (by decide +kernel)
  have hlate : Reaches (step oneHost) (fun _ _ _ => True) f _ :=
    .next (.setDesired 0 .running) .start rfl trivial
  exact ⟨_, hrun.trans hlate, (deleted_for_good hrun hf hlate).1⟩

end Craftling.Control

import Craftling.Control.Departed

namespace Craftling.Control
open Effects

/-- What an agent's answer tells of the VM it names. -/
def Meant (own : VMID → ServerID) (next : VMID) : Op → Option VMView → Prop
  | .provision spec, view => ∃ x, view = some x ∧ x.id < next ∧ own x.id = spec.serverID
  | .start v, view => ∃ x, view = some x ∧ x.id = v
  | _, _ => True

/-- Every VM id that is in use stands for a VM of one server: on the hosts, on record, and in
the answers of agents. -/
structure NamedBy (own : VMID → ServerID) (f : Fleet) : Prop where
  vms : ∀ a, ∀ m ∈ (f.agents a).vms, m.id < f.nextVM ∧ own m.id = m.serverID
  rows : ∀ (i : Nat) r v, f.rows[i]? = some r → r.vmID = some v → v < f.nextVM ∧ own v = i
  calls : ∀ c ∈ f.calls, ∀ view, c.cmd = .executed (.ok view) → Meant own f.nextVM c.op view
  said : ∀ w op view, f.cur = some w → w.said = some (op, .ok view) → Meant own f.nextVM op view

def Named (f : Fleet) : Prop := ∃ own, NamedBy own f

section Step

variable {own own' : VMID → ServerID}

theorem Meant.mono {op : Op} (h : Meant own next op view) (ho : ∀ v < next, own' v = own v)
    (hl : next ≤ next') : Meant own' next' op view := by
  cases op with
  | provision spec =>
    obtain ⟨x, hx, hlt, hs⟩ := h
    exact ⟨x, hx, Nat.lt_of_lt_of_le hlt hl, (ho _ hlt).trans hs⟩
  | _ => exact h

theorem NamedBy.recording (h : NamedBy own f) (hi : Informed d f) (hre : f.recording = some (i, v)) :
    v < f.nextVM ∧ own v = i := by
  obtain ⟨w, hf, hid, view, hv, ⟨-, spec, hsp, hs⟩ | ⟨v0, hv0, hs⟩⟩ := hi.recording hre
  · obtain ⟨x, rfl, hl, hse⟩ := h.said w _ view hf hs
    cases hv
    exact ⟨hl, by rw [hse, hsp, hid]⟩
  obtain ⟨x, rfl, hx⟩ := h.said w _ view hf hs
  cases hv
  obtain ⟨r, hr, hcore⟩ := hi.row hf
  rw [hid, hx]
  exact h.rows _ r v0 hr ((vmID_of_core hcore).trans hv0)

theorem NamedBy.step (h : NamedBy own f) (hi : Informed d f) (hw : Waits f)
    (hs : step d f l = some f') (ho : ∀ v < f.nextVM, own' v = own v)
    (hn : ∀ i o c spec, l = .exec i o → f.calls[i]? = some c → c.op = .provision spec →
      own' f.nextVM = spec.serverID) : NamedBy own' f' := by
  have hne := step_nextVM hs
  refine ⟨?_, ?_, ?_, ?_⟩
  · intro a m hm
    rcases step_vms hs hm with ⟨m', hm', hid, hse⟩ |
      ⟨i, o, c, s, spec, view, hl, hc, -, hop, -, -, hid, hse, -⟩
    · obtain ⟨hlt, hm'⟩ := h.vms a m' hm'
      rw [← hid, ← hse]
      exact ⟨Nat.lt_of_lt_of_le hlt hne, (ho _ hlt).trans hm'⟩
    · subst hl
      refine ⟨?_, by rw [hid, hse]; exact hn i o c spec rfl hc hop⟩
      obtain ⟨c, s, -, -, -, rfl⟩ := execStep_eq hs
      rw [hid]
      exact Nat.lt_succ_self _
  · intro i r v hr hv
    have hol : v < f.nextVM ∧ own v = i → v < f'.nextVM ∧ own' v = i := fun hv =>
      ⟨Nat.lt_of_lt_of_le hv.1 hne, (ho v hv.1).trans hv.2⟩
    rcases step_vmID hs hr hv with ⟨r0, hr0, hv0⟩ | ⟨order, -, hre⟩
    · exact hol (h.rows i r0 v hr0 hv0)
    · exact hol (h.recording hi hre)
  · intro c' hc' view hd
    obtain ⟨i, hci⟩ := List.mem_iff_getElem?.mp hc'
    rcases step_executed hs hci hd with
      ⟨c, hc, hop, hol⟩ | ⟨o, c, s, hl, hc, -, hop, -, hsu, hr⟩
    · rw [← hop]
      exact (h.calls c (List.mem_of_getElem? hc) view hol).mono ho hne
    rw [← hop]
    cases hco : c.op with
    | provision spec =>
      rw [hco] at hr
      obtain ⟨x, hx, hid⟩ := Agent.exec_provision hr
      refine ⟨x, hx, ?_, ?_⟩
      · rw [hid, hsu]
        exact Nat.lt_succ_self _
      · rw [hid]
        exact hn i o c spec hl hc hco
    | start v =>
      rw [hco] at hr
      exact Agent.exec_start hr
    | _ => trivial
  · intro w' op view hcu hsa
    rcases step_said hi hw hs hcu hsa with
      ⟨w, hwc, hsam, -⟩ | ⟨i, c, w, -, -, hc, hop, hd, -⟩
    · exact (h.said w op view hwc hsam).mono ho hne
    · exact (hop ▸ h.calls c (List.mem_of_getElem? hc) view hd).mono ho hne

theorem Named.step (h : Named f) (hi : Informed d f) (hw : Waits f) (hs : step d f l = some f') :
    Named f' := by
  obtain ⟨own, hn⟩ := h
  by_cases hp : ∃ i o c spec, l = .exec i o ∧ f.calls[i]? = some c ∧ c.op = .provision spec
  · obtain ⟨i, o, c, spec, hl, hc, ho⟩ := hp
    refine ⟨fun v => if v = f.nextVM then spec.serverID else own v, hn.step hi hw hs ?_ ?_⟩
    · intro v hv
      exact if_neg (Nat.ne_of_lt hv)
    intro i' o' c' spec' hl' hc' ho'
    rw [hl] at hl'
    cases hl'
    rw [hc] at hc'
    cases hc'
    rw [ho] at ho'
    cases ho'
    exact if_pos rfl
  · refine ⟨own, hn.step hi hw hs (fun _ _ => rfl) ?_⟩
    intro i o c spec hl hc ho
    exact absurd ⟨i, o, c, spec, hl, hc, ho⟩ hp

theorem Named.init : Named .init :=
  ⟨fun _ => 0, by simp [Fleet.init], by simp [Fleet.init], by simp [Fleet.init],
    by simp [Fleet.init, Fleet.cur]⟩

end Step

theorem Named.server (h : Named f) (hr : f.rows[i]? = some r) (hv : r.vmID = some v)
    (hm : (f.agents a).find v = some m) : m.serverID = i := by
  obtain ⟨own, hn⟩ := h
  obtain ⟨hme, hi⟩ := Agent.find_eq_some hm
  rw [← (hn.vms a m hme).2, hi]
  exact (hn.rows i r v hr hv).2

structure Orderly (d : Deployment) (f : Fleet) : Prop where
  informed : Informed d f
  coherent : Coherent f
  wired : Wired f
  waits : Waits f
  named : Named f

theorem Orderly.init (d : Deployment) : Orderly d .init := ⟨.init, .init, .init, .init, .init⟩

theorem Orderly.step (h : Orderly d f) (hs : step d f l = some f') : Orderly d f' :=
  ⟨h.informed.step hs, h.coherent.step h.informed hs, h.wired.step hs, h.waits.step h.wired hs,
    h.named.step h.informed h.waits hs⟩

end Craftling.Control

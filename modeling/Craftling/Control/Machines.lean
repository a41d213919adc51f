import Craftling.Control.Hub

namespace Craftling.Control
open Effects List

section Agent

variable {a : Agent} {v : VMID} {view : Option VMView}

theorem Agent.find_eq_some (h : a.find v = some m) : m ∈ a.vms ∧ m.id = v :=
  ⟨mem_of_find?_eq_some h, by simpa using List.find?_some h⟩

theorem Agent.find_eq_none (h : a.find v = none) : ∀ m ∈ a.vms, m.id ≠ v := by
  intro m hm
  simpa using List.find?_eq_none.mp h m hm

theorem Agent.mem_update (h : m ∈ (a.update v g).vms)
    (hg : ∀ m, (g m).id = m.id ∧ (g m).serverID = m.serverID) :
    ∃ m' ∈ a.vms, m'.id = m.id ∧ m'.serverID = m.serverID := by
  obtain ⟨m', hm', he⟩ := mem_map.mp h
  refine ⟨m', hm', ?_⟩
  split at he
  · subst he
    exact ⟨(hg m').1.symm, (hg m').2.symm⟩
  · subst he
    exact ⟨rfl, rfl⟩

theorem Agent.mem_remove (h : m ∈ (a.remove v).vms) : m ∈ a.vms ∧ m.id ≠ v := by
  simpa [Agent.remove] using h

theorem Agent.exec_vms (h : m ∈ (a.exec info fresh o op).2.vms) :
    (∃ m' ∈ a.vms, m'.id = m.id ∧ m'.serverID = m.serverID) ∨
      ∃ spec view, op = .provision spec ∧ (a.exec info fresh o op).1 = .ok (some view) ∧
        view.id = fresh ∧ m.id = fresh ∧ m.serverID = spec.serverID := by
  have hk : m ∈ a.vms → ∃ m' ∈ a.vms, m'.id = m.id ∧ m'.serverID = m.serverID :=
    fun hm => ⟨m, hm, rfl, rfl⟩
  cases op with
  | provision spec =>
    simp only [Agent.exec] at h ⊢
    split at h
    · exact .inl (hk h)
    rename_i hr
    cases hf : o.fault with
    | some err =>
      rw [hf] at h
      exact .inl (hk h)
    | none =>
      rw [hf] at h
      rcases mem_append.mp h with ho | hn
      · exact .inl (hk ho)
      rw [mem_singleton] at hn
      subst hn
      let up : VM := ⟨fresh, spec.serverID, spec.cpus, spec.memoryMB, o.port, true, false⟩
      refine .inr ⟨spec, up.view info.hostname o, rfl, ?_, rfl, rfl, rfl⟩
      rw [if_neg hr]
  | start v =>
    left
    simp only [Agent.exec] at h
    split at h
    · exact hk h
    split at h
    · exact hk h
    split at h
    · exact hk h
    split at h
    · exact hk h
    · exact mem_update h fun _ => ⟨rfl, rfl⟩
  | stop v =>
    left
    simp only [Agent.exec] at h
    split at h
    · exact hk h
    · split at h <;> exact mem_update h fun _ => ⟨rfl, rfl⟩
  | evict v | deprovision v =>
    left
    simp only [Agent.exec] at h
    split at h
    · exact hk h
    · exact hk (mem_remove h).1
    · exact hk (mem_remove h).1
  | _ =>
    left
    simp only [Agent.exec] at h
    split at h <;> exact hk h

def Fair (next : VMID) : Op → Option VMView → Prop
  | .provision _, view => ∃ x, view = some x ∧ x.id < next
  | .start v, view => ∃ x, view = some x ∧ x.id = v
  | _, _ => True

theorem Fair.mono {next next' : VMID} (h : Fair next op view) (hl : next ≤ next') :
    Fair next' op view := by
  cases op with
  | provision spec =>
    obtain ⟨x, hx, hi⟩ := h
    exact ⟨x, hx, Nat.lt_of_lt_of_le hi hl⟩
  | _ => exact h

theorem Agent.exec_provision (h : (a.exec info fresh o (.provision spec)).1 = .ok view) :
    ∃ x, view = some x ∧ x.id = fresh := by
  simp only [Agent.exec] at h
  split at h
  · cases h
  split at h
  · cases h
  · cases h
    exact ⟨_, rfl, rfl⟩

theorem Agent.exec_start (h : (a.exec info fresh o (.start v)).1 = .ok view) :
    ∃ x, view = some x ∧ x.id = v := by
  simp only [Agent.exec] at h
  split at h
  · cases h
  rename_i m hm
  have hi : m.id = v := (find_eq_some hm).2
  split at h
  · cases h
    exact ⟨_, rfl, hi⟩
  split at h
  · cases h
  split at h
  · cases h
  · cases h
    exact ⟨_, rfl, hi⟩

theorem Agent.exec_fair (h : (a.exec info fresh o op).1 = .ok view) : Fair (fresh + 1) op view := by
  cases op with
  | provision spec =>
    obtain ⟨x, hx, hi⟩ := exec_provision h
    exact ⟨x, hx, hi ▸ Nat.lt_succ_self _⟩
  | start v => exact exec_start h
  | _ => trivial

def Op.tearsDown : Op → Option VMID
  | .evict v => some v
  | .deprovision v => some v
  | _ => none

theorem Agent.exec_tearsDown (ho : op.tearsDown = some v)
    (h : (a.exec info fresh o op).1 = .ok view) :
    ∀ m ∈ (a.exec info fresh o op).2.vms, m.id ≠ v := by
  cases op <;> cases ho <;>
    (simp only [Agent.exec] at h ⊢
     cases hf : a.find v with
     | none => exact find_eq_none hf
     | some m =>
       rw [hf] at h
       cases hfa : o.fault with
       | none => exact fun m hm => (mem_remove hm).2
       | some err =>
         rw [hfa] at h
         cases h)

theorem Agent.mem_saves (h : s ∈ a.saves op) :
    ∃ m ∈ a.vms, m.id = s.vm ∧ m.serverID = s.serverID := by
  have hf : ∀ v, s ∈ (a.find v).toList.map (fun m : VM => (⟨m.serverID, v⟩ : Save)) →
      ∃ m ∈ a.vms, m.id = s.vm ∧ m.serverID = s.serverID := by
    intro v hs
    obtain ⟨m, hm, rfl⟩ := mem_map.mp hs
    obtain ⟨hme, hi⟩ := find_eq_some (Option.mem_toList.mp hm)
    exact ⟨m, hme, hi, rfl⟩
  cases op with
  | stop v | snapshot v => exact hf v h
  | _ => cases h

end Agent

def HubCall.pending (c : HubCall) : Bool := c.phase = .picked || c.cmd = .carried

theorem CallMove.pending (hm : CallMove f l i c c') (hp : c'.pending = true) :
    c.pending = true := by
  simp only [HubCall.pending, Bool.or_eq_true, decide_eq_true_eq] at hp ⊢
  cases hm with
  | same => exact hp
  | send hpi _ _ | fail _ hpi => exact .inl hpi
  | exec _ _ hc _ | lose hc => exact .inr hc
  | deliver _ _ _ _ _ _ => exact hp
  | finish _ _ => exact .inr (hp.resolve_left (by simp))

def Label.onHost : Label → Bool
  | .exec _ _ | .restartAgent _ | .exit _ _ | .sweep _ _ | .put _ => true
  | _ => false

section

variable (hs : step d f l = some f')
include hs

theorem step_offHost (hl : l.onHost = false) :
    f'.agents = f.agents ∧ f'.saves = f.saves ∧ f'.nextVM = f.nextVM := by
  by_cases hr : l = .restartControl
  · subst hr
    cases hs
    exact ⟨rfl, rfl, rfl⟩
  by_cases hrec : l.isReconciler = true
  · have h := reconcilerStep_unmoved hs hrec hr
    exact ⟨h.agents, h.saves, h.nextVM⟩
  refine (step_leaves hs (by simpa using hrec)).agents ?_
  cases l <;> first | rfl | cases hl

/-- A tracked VM was tracked before, or a provision command has just made it. -/
theorem step_vms (hm : m ∈ (f'.agents a).vms) :
    (∃ m' ∈ (f.agents a).vms, m'.id = m.id ∧ m'.serverID = m.serverID) ∨
      ∃ i o c s spec view, l = .exec i o ∧ f.calls[i]? = some c ∧ c.cmd = .carried ∧
        c.op = .provision spec ∧ f.streams[c.conn]? = some s ∧ s.agent = a ∧ m.id = f.nextVM ∧
        m.serverID = spec.serverID ∧
        f'.calls = f.calls.set i { c with cmd := .executed (.ok (some view)) } ∧
        view.id = f.nextVM := by
  have hk : f'.agents = f.agents → ∃ m' ∈ (f.agents a).vms, m'.id = m.id ∧
      m'.serverID = m.serverID := by
    intro h
    rw [h] at hm
    exact ⟨m, hm, rfl, rfl⟩
  by_cases hl : l.onHost = false
  · exact .inl (hk (step_offHost hs hl).1)
  cases l with
  | exec i o =>
    obtain ⟨c, s, hc, hcm, hst, rfl⟩ := execStep_eq hs
    simp only [Fleet.setAgent, Fleet.setCall] at hm
    split at hm
    · rename_i ha
      subst ha
      rcases Agent.exec_vms hm with ho | ⟨spec, view, hop, hr, hv, hi, hse⟩
      · exact .inl ho
      · refine .inr ⟨i, o, c, s, spec, view, rfl, hc, hcm, hop, hst, rfl, hi, hse, ?_, hv⟩
        simp only [Fleet.setAgent, Fleet.setCall, hr]
    · exact .inl ⟨m, hm, rfl, rfl⟩
  | restartAgent b =>
    cases hs
    simp only [Fleet.restartAgent, Fleet.setAgent] at hm
    split at hm
    · cases hm
    · exact .inl ⟨m, hm, rfl, rfl⟩
  | exit b v =>
    cases hs
    simp only [Fleet.setAgent] at hm
    split at hm
    · rename_i ha
      subst ha
      exact .inl (Agent.mem_update hm fun _ => ⟨rfl, rfl⟩)
    · exact .inl ⟨m, hm, rfl, rfl⟩
  | sweep b v => obtain ⟨m', -, -, rfl⟩ := sweepStep_eq hs; exact .inl (hk rfl)
  | put i => exact .inl (hk (by rw [(put_eq hs).2]))
  | _ => exact absurd rfl hl

theorem step_saves (hx : x ∈ f'.saves) :
    x ∈ f.saves ∨ ∃ a, ∃ m ∈ (f.agents a).vms, m.id = x.vm ∧ m.serverID = x.serverID := by
  by_cases hl : l.onHost = false
  · rw [(step_offHost hs hl).2.1] at hx
    exact .inl hx
  cases l with
  | exec i o =>
    obtain ⟨c, s, -, -, -, rfl⟩ := execStep_eq hs
    rcases mem_append.mp hx with ho | hn
    · exact .inl ho
    · exact .inr ⟨s.agent, Agent.mem_saves hn⟩
  | restartAgent b | exit b v => cases hs; exact .inl hx
  | sweep b v =>
    obtain ⟨m, hm, -, rfl⟩ := sweepStep_eq hs
    rcases mem_append.mp hx with ho | hn
    · exact .inl ho
    rw [mem_singleton] at hn
    subst hn
    obtain ⟨hme, hi⟩ := Agent.find_eq_some hm
    exact .inr ⟨b, m, hme, hi, rfl⟩
  | put i =>
    rw [(put_eq hs).2] at hx
    exact .inl (mem_of_mem_eraseIdx hx)
  | _ => exact absurd rfl hl

theorem step_pending (hc : c ∈ f'.calls) (hp : c.pending = true) :
    (∃ c0 ∈ f.calls, c0.op = c.op ∧ c0.pending = true) ∨ (∃ h, f.commands h c.op) ∨
      c.op.isOther = true := by
  by_cases hr : l = .restartControl
  · subst hr
    cases hs
    obtain ⟨c0, hc0, rfl⟩ := mem_map.mp hc
    refine .inl ⟨c0, hc0, rfl, ?_⟩
    simp only [HubCall.pending, Bool.or_eq_true, decide_eq_true_eq] at hp ⊢
    exact .inr (hp.resolve_left (by simp))
  obtain ⟨i, hi⟩ := mem_iff_getElem?.mp hc
  rcases (step_calls hs hr).new i c hi with ⟨c0, hc0, hm⟩ | ⟨-, -, -, -, h, -, ho⟩
  · exact .inl ⟨c0, mem_of_getElem? hc0, hm.op.symm, hm.pending hp⟩
  rcases ho with ⟨-, hcm⟩ | hot
  · exact .inr (.inl ⟨h, hcm⟩)
  · exact .inr (.inr hot)

end

end Craftling.Control

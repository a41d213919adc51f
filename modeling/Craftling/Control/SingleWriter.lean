import Craftling.Control.Informed
import Craftling.Control.Machines

namespace Craftling.Control
open Effects List Option Fleet

def Fleet.recording (f : Fleet) : Option (ServerID × VMID) :=
  match f.thread with
  | some ⟨.call (.markRunning id (some v) _ _) _, _, _⟩ => some (id, v)
  | _ => none

def Op.provisions (s : ServerID) : Op → Bool
  | .provision spec => spec.serverID = s
  | _ => false

section Step

variable {d : Deployment} {f f' : Fleet} {l : Label} {r : GameServer} {i : Nat} {s : ServerID}
    {v : VMID}

theorem vmID_of_move {rows rows' : List GameServer} (hm : RowsMove rows rows')
    (hr : rows'[i]? = some r) (hv : r.vmID = some v) :
    ∃ r0, rows[i]? = some r0 ∧ r0.vmID = some v := by
  cases hm with
  | same => exact ⟨r, hr, hv⟩
  | create n =>
    rw [List.getElem?_append] at hr
    split at hr
    · exact ⟨r, hr, hv⟩
    have hme := mem_of_getElem? hr
    rw [mem_singleton] at hme
    subst hme
    cases hv
  | edit id g hg =>
    rw [getElem?_updateRow] at hr
    split at hr
    · obtain ⟨r0, hr0, rfl⟩ := map_eq_some_iff.mp hr
      have hcore := hg r0
      simp only [GameServer.core, Core.mk.injEq] at hcore
      exact ⟨r0, hr0, hcore.2.2.2.2.2.1 ▸ hv⟩
    · exact ⟨r, hr, hv⟩

theorem step_vmID (hs : step d f l = some f') (hr : f'.rows[i]? = some r) (hv : r.vmID = some v) :
    (∃ r0, f.rows[i]? = some r0 ∧ r0.vmID = some v) ∨
      ∃ order, l = .act none order ∧ f.recording = some (i, v) := by
  by_cases hl : l.isReconciler = false
  · exact .inl (vmID_of_move (step_rows hs hl) hr hv)
  cases l with
  | tick =>
    rw [(tick_eq hs).2] at hr
    exact .inl ⟨r, hr, hv⟩
  | act fault order =>
    obtain ⟨e, k, st, ht, -, rfl⟩ := actStep_eq hs
    rw [resume_rows] at hr
    dsimp only at hr
    cases hw : e.writes f.clock with
    | none =>
      rw [answer_rows_of_not_writes hw] at hr
      exact .inl ⟨r, hr, hv⟩
    | some write =>
      obtain ⟨id, g⟩ := write
      cases fault with
      | some text =>
        rw [answer_rows_of_fault] at hr
        exact .inl ⟨r, hr, hv⟩
      | none =>
        rw [answer_rows_of_writes hw, getElem?_updateRow] at hr
        split at hr
        · rename_i hi
          obtain ⟨r0, hr0, rfl⟩ := map_eq_some_iff.mp hr
          rcases Call.writes_vmID hw r0 with hsa | hn | ⟨vm, host, port, rfl, hvm⟩
          · exact .inl ⟨r0, hr0, hsa ▸ hv⟩
          · rw [hn] at hv
            cases hv
          have hvm : vm = some v := hvm.symm.trans hv
          subst hvm hi
          exact .inr ⟨order, rfl, by rw [Fleet.recording, ht]⟩
        · exact .inl ⟨r, hr, hv⟩
  | issue =>
    obtain ⟨h, op, k, st, -, ⟨-, rfl⟩ | ⟨c, -, rfl⟩⟩ := issueStep_eq hs
    · rw [resume_rows] at hr
      exact .inl ⟨r, hr, hv⟩
    · exact .inl ⟨r, hr, hv⟩
  | collect =>
    obtain ⟨h, op, k, st, j, c, x, -, -, -, rfl⟩ := collectStep_eq hs
    rw [resume_rows] at hr
    exact .inl ⟨r, hr, hv⟩
  | expire =>
    obtain ⟨h, op, k, st, j, c, -, -, -, -, rfl⟩ := expireStep_eq hs
    rw [resume_rows] at hr
    exact .inl ⟨r, hr, hv⟩
  | restartControl =>
    cases hs
    exact .inl ⟨r, hr, hv⟩
  | _ => exact absurd rfl hl

theorem step_keeps_streams (hs : step d f l = some f') {s : Stream} (h : s ∈ f.streams) :
    ∃ s' ∈ f'.streams, s'.agent = s.agent := by
  by_cases hr : l = .restartControl
  · subst hr
    cases hs
    exact ⟨_, mem_map_of_mem h, rfl⟩
  obtain ⟨k, hk⟩ := mem_iff_getElem?.mp h
  obtain ⟨s', hs', hm⟩ := (step_streams hs hr).old k s hk
  exact ⟨s', mem_of_getElem? hs', hm.agent⟩

def Housed (f : Fleet) : Prop :=
  ∀ a, ∀ m ∈ (f.agents a).vms, ∃ s ∈ f.streams, s.agent = a

theorem Housed.step (h : Housed f) (hs : step d f l = some f') : Housed f' := by
  intro a m hm
  have hst : ∃ s ∈ f.streams, s.agent = a := by
    rcases step_vms hs hm with ⟨m', hm', -, -⟩ | ⟨i, o, c, s, spec, view, -, -, -, -, hs', ha, -⟩
    · exact h a m' hm'
    · exact ⟨s, mem_of_getElem? hs', ha⟩
  obtain ⟨s, hs', rfl⟩ := hst
  exact step_keeps_streams hs hs'

/-- No VM of the server but the given one runs or is being saved anywhere, and none is about
to come up. -/
structure Alone (f : Fleet) (s : ServerID) (v : VMID) : Prop where
  vms : ∀ a, ∀ m ∈ (f.agents a).vms, m.serverID = s → m.id = v
  saves : ∀ x ∈ f.saves, x.serverID = s → x.vm = v
  calls : ∀ c ∈ f.calls, c.op.provisions s = true → c.pending = false

/-- When MarkRunning records a VM, no other VM of its server is tracked by an agent that has
ever connected, none is still being saved, and no provision command for the server may yet be
carried out. -/
def Fenced (f : Fleet) : Label → Prop
  | .act none _ => ∀ p ∈ f.recording,
      (∀ s ∈ f.streams, ∀ m ∈ (f.agents s.agent).vms, m.serverID = p.1 → m.id = p.2) ∧
      (∀ x ∈ f.saves, x.serverID = p.1 → x.vm = p.2) ∧
      ∀ c ∈ f.calls, c.op.provisions p.1 = true → c.pending = false
  | _ => True

theorem Fenced.alone (h : Fenced f (.act none order)) (hh : Housed f)
    (hr : f.recording = some (s, v)) : Alone f s v := by
  obtain ⟨hv, hs, hc⟩ := h (s, v) (by rw [hr]; rfl)
  refine ⟨fun a m hm => ?_, hs, hc⟩
  obtain ⟨st, hst, rfl⟩ := hh a m hm
  exact hv st hst m hm

theorem Alone.step (h : Alone f s v) (hs : step d f l = some f')
    (hq : ∀ host op, f.commands host op → op.provisions s = false) : Alone f' s v := by
  refine ⟨?_, ?_, ?_⟩
  · intro a m hm hse
    rcases step_vms hs hm with ⟨m', hm', hi, hs'⟩ |
      ⟨i, o, c, st, spec, view, -, hc, hca, ho, -, -, -, hsp, -⟩
    · rw [← hi]
      exact h.vms a m' hm' (hs'.trans hse)
    · have hd := h.calls c (mem_of_getElem? hc) (by simp [ho, Op.provisions, ← hsp, hse])
      simp [HubCall.pending, hca] at hd
  · intro x hx hse
    rcases step_saves hs hx with hol | ⟨a, m, hm, hi, hs'⟩
    · exact h.saves x hol hse
    · rw [← hi]
      exact h.vms a m hm (hs'.trans hse)
  · intro c hc ho
    by_contra hp
    have hp : c.pending = true := by simpa using hp
    rcases step_pending hs hc hp with ⟨c0, hc0, ho0, hp0⟩ | ⟨host, hcm⟩ | hot
    · rw [h.calls c0 hc0 (ho0 ▸ ho)] at hp0
      cases hp0
    · rw [hq host c.op hcm] at ho
      cases ho
    · cases hc' : c.op <;> simp [hc', Op.provisions, Op.isOther] at ho hot

theorem Informed.provisions (hi : Informed d f) (hr : f.rows[i]? = some r) (hv : r.vmID = some v) :
    ∀ host op, f.commands host op → op.provisions i = false := by
  rintro host op ⟨k, st, ht⟩
  obtain ⟨w, hc, -, -, hm, -⟩ := (hi.keeps _ ht).1
  cases op with
  | provision spec =>
    obtain ⟨hs, hn⟩ := hm
    simp only [Op.provisions, decide_eq_false_iff_not]
    intro hid
    obtain ⟨r', hr', hcore⟩ := hi.agrees _ ht w.row (by
      change w.row ∈ st.known
      simp [Stage.known, show st.cur = some w from hc])
    rw [← hs, hid, hr] at hr'
    cases hr'
    simp only [GameServer.core, Core.mk.injEq] at hcore
    rw [hcore.2.2.2.2.2.1, hn] at hv
    cases hv
  | _ => rfl

def SoleWriters (f : Fleet) : Prop :=
  ∀ (i : Nat) r v, f.rows[i]? = some r → r.vmID = some v → Alone f i v

theorem Alone.of_same (h : Alone f s v) (ha : f'.agents = f.agents)
    (hs : f'.saves = f.saves) (hc : f'.calls = f.calls) : Alone f' s v :=
  ⟨ha ▸ h.vms, hs ▸ h.saves, hc ▸ h.calls⟩

theorem SoleWriters.step (h : SoleWriters f) (hi : Informed d f) (hh : Housed f)
    (hs : step d f l = some f') (hf : Fenced f l) : SoleWriters f' := by
  intro i r v hr hv
  rcases step_vmID hs hr hv with ⟨r0, hr0, hv0⟩ | ⟨order, rfl, hre⟩
  · exact (h i r0 v hr0 hv0).step hs (hi.provisions hr0 hv0)
  have ha : Alone f i v := hf.alone hh hre
  refine ha.of_same ?_ ?_ ?_
  · exact (step_offHost hs rfl).1
  · exact (step_offHost hs rfl).2.1
  · obtain ⟨e, k, st, -, -, rfl⟩ := actStep_eq hs
    obtain ⟨rows, hosts, he⟩ := f.answer_eq none order e
    rw [resume_calls, he]

end Step

instance (f : Fleet) (l : Label) : Decidable (Fenced f l) := by
  unfold Fenced
  split <;> infer_instance

/-- In a fenced run only the VM on record puts a world of its server. -/
theorem puts_by_recorded_vm (d : Deployment) (f : Fleet)
    (hrun : Reaches (step d) (fun g l _ => Fenced g l) .init f) (i : Nat) (f' : Fleet)
    (_ : step d f (.put i) = some f') (x : Save) (hx : f.saves[i]? = some x) (r : GameServer)
    (hr : f.rows[x.serverID]? = some r) (v : VMID) (hv : r.vmID = some v) : x.vm = v := by
  have h : Informed d f ∧ Housed f ∧ SoleWriters f := by
    refine hrun.invariant (I := fun g => Informed d g ∧ Housed g ∧ SoleWriters g) ⟨.init, ?_, ?_⟩ ?_
    · intro a m hm
      cases hm
    · intro j r v hr
      cases hr
    · rintro g l g' ⟨hi, hh, hw⟩ hs hfenced
      exact ⟨hi.step hs, hh.step hs, hw.step hi hh hs hfenced⟩
  have halone := h.2.2 x.serverID r v hr hv
  exact halone.saves x (mem_of_getElem? hx) rfl

theorem puts_by_recorded_vm_sweep :
    ∃ f f' x r v, Reaches (step oneHost) (fun g l _ => Fenced g l) .init f ∧
      step oneHost f (.put 0) = some f' ∧ f.saves[0]? = some x ∧
      f.rows[x.serverID]? = some r ∧ r.vmID = some v ∧ x.vm = v := by
  obtain ⟨f, hrun, hf⟩ := Reaches.exists_run (step oneHost) (fun g l _ => Fenced g l)
    .init (toRunning ++ [.sweep 0 0]) (fun f => (step oneHost f (.put 0)).isSome &&
      f.saves[0]?.any fun x => f.rows[x.serverID]?.any fun r => r.vmID.isSome)
    (by decide +kernel)
  simp only [Bool.and_eq_true, Option.any_eq_true, Option.isSome_iff_exists] at hf
  obtain ⟨⟨f', hput⟩, x, hx, r, hr, v, hv⟩ := hf
  exact ⟨f, f', x, r, v, hrun, hput, hx, hr, hv,
    puts_by_recorded_vm oneHost f hrun 0 f' hput x hx r hr v hv⟩

/-- The host of a running server is cut off for longer than the grace. The reconciler gives the VM
up and boots another on a second host. -/
def toMoved : List Label :=
  toRunning ++ [.streamEnd 0, .remove 0, .markDown 0, .wait 31] ++ joins 1 1 ++
    -- the probe fails, the host has been silent for too long, and the VM is given up
    [.tick, plain, plain, .issue] ++ List.replicate 5 plain ++
    -- the server is taken off its host, placed on the other one and booted there
    List.replicate 9 plain ++ commanded 1 ++ List.replicate 3 plain

/-- The first agent has noticed nothing: its sweep still saves the world of the old VM over the new
one's. -/
theorem partitioned_agent_puts : ∃ f f' x r v, Reaches (step oneHost) (fun _ _ _ => True) .init f ∧
      step oneHost f (.put 0) = some f' ∧ f.saves[0]? = some x ∧
      f.rows[x.serverID]? = some r ∧ r.vmID = some v ∧ x.vm ≠ v := by
  obtain ⟨f, hrun, hf⟩ := Reaches.exists_run (step oneHost) (fun _ _ _ => True) .init
    (toMoved ++ [.sweep 0 0])
    (fun f => (step oneHost f (.put 0)).isSome &&
      f.saves[0]?.any fun x => f.rows[x.serverID]?.any fun r => r.vmID.any fun v => x.vm ≠ v)
    (by decide +kernel)
  simp only [Bool.and_eq_true, Option.any_eq_true, Option.isSome_iff_exists,
    decide_eq_true_eq] at hf
  obtain ⟨⟨f', hput⟩, x, hx, r, hr, v, hv, hne⟩ := hf
  exact ⟨f, f', x, r, v, hrun, hput, hx, hr, hv, hne⟩

end Craftling.Control

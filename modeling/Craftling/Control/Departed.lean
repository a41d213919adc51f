import Craftling.Control.Awaited
import Craftling.Control.SingleWriter

namespace Craftling.Control
open Effects List Option

def Fleet.writing (f : Fleet) : Bool :=
  match f.thread with
  | some ⟨.call e _, _, _⟩ => (e.writes f.clock).isSome
  | _ => false

/-- No process restarts, no write of a row fails, and a host is registered by one agent only. -/
def Undisturbed (f : Fleet) : Label → Prop
  | .restartControl => False
  | .restartAgent _ => False
  | .act fault _ => fault = none ∨ f.writing = false
  | .register c id =>
    ∀ s ∈ f.streams[c]?, ∀ s' ∈ f.streams, s'.host = some id → s'.agent = s.agent
  | _ => True

instance (f : Fleet) (l : Label) : Decidable (Undisturbed f l) := by
  induction l using Label.casesOn <;> unfold Undisturbed <;> infer_instance

def OneAgent (f : Fleet) : Prop :=
  ∀ s ∈ f.streams, ∀ s' ∈ f.streams, ∀ h, s.host = some h → s'.host = some h → s.agent = s'.agent

section Step

variable {d : Deployment} {f f' : Fleet} {l : Label} {a : AgentID} {e : Call} {h : HostID}
    {c : HubCall} {i : Nat} {op : Op} {view : Option VMView} {v : VMID}

theorem Undisturbed.lives (h : Undisturbed f l) : l ≠ .restartControl := by
  rintro rfl
  exact h

theorem step_host (hs : step d f l = some f') (hl : l ≠ .restartControl) {s' : Stream}
    (hs' : s' ∈ f'.streams) (hh : s'.host = some h) :
    (∃ s ∈ f.streams, s.agent = s'.agent ∧ s.host = some h) ∨
      ∃ k s, l = .register k h ∧ f.streams[k]? = some s ∧ s.agent = s'.agent := by
  obtain ⟨k, hk⟩ := mem_iff_getElem?.mp hs'
  rcases (step_streams hs hl).new k s' hk with ⟨s, hks, hm⟩ | ⟨-, hn, -⟩
  · cases hm with
    | register h' hr _ =>
      cases hh
      exact .inr ⟨k, s, hr, hks, rfl⟩
    | same => exact .inl ⟨s', mem_of_getElem? hks, rfl, hh⟩
    | _ => exact .inl ⟨s, mem_of_getElem? hks, rfl, hh⟩
  · rw [hn] at hh
    cases hh

theorem OneAgent.step (h : OneAgent f) (hs : step d f l = some f') (hl : Undisturbed f l) :
    OneAgent f' := by
  intro s1 hs1 s2 hs2 host hh1 hh2
  rcases step_host hs hl.lives hs1 hh1 with ⟨x1, hx1, ha1, hx1h⟩ | ⟨k, x1, rfl, hk1, ha1⟩
  · rcases step_host hs hl.lives hs2 hh2 with ⟨x2, hx2, ha2, hx2h⟩ | ⟨k, x2, rfl, hk2, ha2⟩
    · rw [← ha1, ← ha2]
      exact h x1 hx1 x2 hx2 host hx1h hx2h
    · rw [← ha1, ← ha2]
      exact hl x2 (by rw [hk2]; rfl) x1 hx1 hx1h
  rcases step_host hs hl.lives hs2 hh2 with ⟨x2, hx2, ha2, hx2h⟩ | ⟨k', x2, he, hk2, ha2⟩
  · rw [← ha1, ← ha2]
    exact (hl x1 (by rw [hk1]; rfl) x2 hx2 hx2h).symm
  cases he
  rw [hk1] at hk2
  cases hk2
  rw [← ha1, ← ha2]

theorem step_serves (hs : step d f l = some f') (hw : Wired f) (hl : l ≠ .restartControl)
    (hse : ∃ s ∈ f.streams, s.agent = a ∧ s.host = some h) :
    ∃ s ∈ f'.streams, s.agent = a ∧ s.host = some h := by
  obtain ⟨s, hs0, ha, hh⟩ := hse
  obtain ⟨k, hk⟩ := mem_iff_getElem?.mp hs0
  obtain ⟨s', hs', hm⟩ := (step_streams hs hl).old k s hk
  exact ⟨s', mem_of_getElem? hs', hm.agent.trans ha, hm.host hh (hw.late k s h hk hh)⟩

theorem step_nextVM (hs : step d f l = some f') : f.nextVM ≤ f'.nextVM := by
  by_cases hl : l.onHost = false
  · rw [(step_offHost hs hl).2.2]
  cases l with
  | exec i o =>
    obtain ⟨c, s, -, -, -, rfl⟩ := execStep_eq hs
    exact Nat.le_succ _
  | restartAgent b | exit b v => cases hs; exact Nat.le_refl _
  | sweep b v => obtain ⟨m, -, -, rfl⟩ := sweepStep_eq hs; exact Nat.le_refl _
  | put i => rw [(put_eq hs).2]
  | _ => exact absurd rfl hl

/-- Ids in use are below the next one, and agents answer about the VM that they were asked
about. -/
structure Fresh (f : Fleet) : Prop where
  vms : ∀ a, ∀ m ∈ (f.agents a).vms, m.id < f.nextVM
  rows : ∀ r ∈ f.rows, ∀ v, r.vmID = some v → v < f.nextVM
  calls : ∀ c ∈ f.calls, ∀ view, c.cmd = .executed (.ok view) → Fair f.nextVM c.op view
  said : ∀ w op view, f.cur = some w → w.said = some (op, .ok view) → Fair f.nextVM op view

variable {st : Stage}

theorem Informed.commanding {i : Option Nat} (hi : Informed d f)
    (ht : f.thread = some ⟨.call (.command h op) k, st, i⟩) :
    ∃ w, st.cur = some w ∧ f.cur = some w ∧ w.books = .settled ∧ w.row.hostID = some h ∧
      w.mayCommand op ∧ w.owed = none := by
  obtain ⟨w, hc, hb, hh, hm, ho⟩ := (hi.keeps _ ht).1
  change st.cur = some w at hc
  exact ⟨w, hc, by simp [Fleet.cur, ht, hc], hb, hh, hm, ho⟩

variable {w : Work}

theorem Informed.row (hi : Informed d f) (hc : f.cur = some w) :
    ∃ r, f.rows[w.row.id]? = some r ∧ r.core = w.row.core := by
  unfold Fleet.cur at hc
  obtain ⟨t, ht, htc⟩ := bind_eq_some_iff.mp hc
  exact hi.agrees t ht w.row (by simp [Stage.known, htc])

theorem Informed.recording (hi : Informed d f) (hre : f.recording = some (i, v)) :
    ∃ w, f.cur = some w ∧ i = w.row.id ∧ w.booted (some v) := by
  unfold Fleet.recording at hre
  split at hre
  · rename_i id v' host port k st call ht
    cases hre
    obtain ⟨w, hc, hid, -, -, hb, -⟩ := (hi.keeps _ ht).1
    change st.cur = some w at hc
    exact ⟨w, by simp [Fleet.cur, ht, hc], hid, hb⟩
  · cases hre

theorem Fresh.recording (h : Fresh f) (hi : Informed d f) (hre : f.recording = some (i, v)) :
    v < f.nextVM := by
  obtain ⟨w, hf, -, view, hv, ⟨-, spec, -, hs⟩ | ⟨v0, hv0, hs⟩⟩ := hi.recording hre
  · obtain ⟨x, rfl, hl⟩ := h.said w _ view hf hs
    cases hv
    exact hl
  obtain ⟨x, rfl, hid⟩ := h.said w _ view hf hs
  cases hv
  obtain ⟨r, hr, hcore⟩ := hi.row hf
  exact hid ▸ h.rows r (mem_of_getElem? hr) v0 ((vmID_of_core hcore).trans hv0)

theorem Work.next_said (he : e.isCommand = false) (r : Answer e) : (w.next e r).said = w.said := by
  cases e <;> first | (cases he; done) | rfl | (cases r <;> rfl)

theorem Stage.next_said (he : e.isCommand = false) {r : Answer e} (h : (st.next e r).cur = some w) :
    w.said = none ∨ ∃ w0, st.cur = some w0 ∧ w = w0.next e r ∧ w.said = w0.said := by
  have hm : (st.cur.map fun w0 => w0.next e r) = some w →
      w.said = none ∨ ∃ w0, st.cur = some w0 ∧ w = w0.next e r ∧ w.said = w0.said := by
    intro hw
    obtain ⟨w0, hw0, rfl⟩ := map_eq_some_iff.mp hw
    exact .inr ⟨w0, hw0, rfl, Work.next_said he r⟩
  cases e with
  | enter id =>
    cases ht : st.todo with
    | nil =>
      rw [Stage.next, ht] at h
      exact .inr ⟨w, h, rfl, rfl⟩
    | cons s rest =>
      rw [Stage.next, ht] at h
      cases h
      exact .inl rfl
  | leave id => cases h
  | listRunning | listReconcilable => cases r <;> cases h
  | _ => exact hm h

theorem Work.next_id (e : Call) (r : Answer e) : (w.next e r).row.id = w.row.id := by
  cases e with
  | markLost id message =>
    cases r with
    | error e => rfl
    | ok u => exact markedLost_id _ _
  | _ => first | rfl | (cases r <;> rfl)

/-- Where an agent's answer to the work at hand comes from: it was there, or it is collected. -/
theorem step_said_cases (hi : Informed d f) (hs : step d f l = some f') {w' : Work}
    (hcu : f'.cur = some w') (hsa : w'.said = some (op, .ok view)) :
    f.cur = some w' ∨
      (∃ e k st i r, f.thread = some ⟨.call e k, st, i⟩ ∧ e.isCommand = false ∧
        (st.next e r).cur = some w') ∨
      ∃ host k st i c w, l = .collect ∧ f.thread = some ⟨.call (.command host op) k, st, some i⟩ ∧
        f.calls[i]? = some c ∧ c.outcome = some (.ok view) ∧ st.cur = some w ∧ w'.row = w.row := by
  by_cases hre : l.isReconciler = false
  · rw [Fleet.cur, step_thread hs hre] at hcu
    exact .inl hcu
  cases l with
  | tick =>
    rw [(tick_eq hs).2] at hcu
    cases hcu
  | act fault order =>
    obtain ⟨e, k, st, ht, hcm, rfl⟩ := actStep_eq hs
    rw [hi.resume_cur ht] at hcu
    exact .inr (.inl ⟨e, k, st, _, _, ht, hcm, hcu⟩)
  | issue =>
    obtain ⟨host, op', k, st, ht, ⟨-, rfl⟩ | ⟨c, -, rfl⟩⟩ := issueStep_eq hs
    · rw [hi.resume_cur ht] at hcu
      obtain ⟨w, hw, rfl⟩ := map_eq_some_iff.mp hcu
      cases hsa
    · exact .inl (by simpa [Fleet.cur, ht] using hcu)
  | collect =>
    obtain ⟨host, op', k, st, i, c, r, ht, hc, hr, rfl⟩ := collectStep_eq hs
    rw [hi.resume_cur ht] at hcu
    obtain ⟨w, hw, rfl⟩ := map_eq_some_iff.mp hcu
    cases r with
    | error e => cases hsa
    | ok view' =>
      cases hsa
      exact .inr (.inr ⟨host, k, st, i, c, w, rfl, ht, hc, hr, hw, rfl⟩)
  | expire =>
    obtain ⟨host, op', k, st, i, c, ht, -, -, -, rfl⟩ := expireStep_eq hs
    rw [hi.resume_cur ht] at hcu
    obtain ⟨w, hw, rfl⟩ := map_eq_some_iff.mp hcu
    cases hsa
  | restartControl =>
    cases hs
    cases hcu
  | _ => exact absurd rfl hre

theorem step_said (hi : Informed d f) (hw : Waits f) (hs : step d f l = some f') {w' : Work}
    (hcu : f'.cur = some w') (hsa : w'.said = some (op, .ok view)) :
    (∃ w, f.cur = some w ∧ w.said = some (op, .ok view) ∧ w.row.id = w'.row.id) ∨
      ∃ i c w, l = .collect ∧ f.awaited = some i ∧ f.calls[i]? = some c ∧ c.op = op ∧
        c.cmd = .executed (.ok view) ∧ f.cur = some w ∧ w.row.id = w'.row.id := by
  rcases step_said_cases hi hs hcu hsa with hcur | ⟨e, k, st, i, r, ht, hcm, hcur⟩ |
    ⟨host, k, st, i, c, w, hl, ht, hc, hr, hw0, hro⟩
  · exact .inl ⟨w', hcur, hsa, rfl⟩
  · rcases Stage.next_said hcm hcur with hn | ⟨w, hw, rfl, hsam⟩
    · rw [hn] at hsa
      cases hsa
    · exact .inl ⟨w, by simp [Fleet.cur, ht, hw], hsam ▸ hsa, (Work.next_id e _).symm⟩
  · obtain ⟨_, op2, _, c2, _, hp, hc2, ho2, -⟩ := hw.call _ i ht rfl
    rw [hc] at hc2
    cases hc2
    cases hp
    have hd := (hw.fits c (mem_of_getElem? hc)).outcome_ok hr
    exact .inr ⟨i, c, w, hl, awaited_of_thread ht rfl, hc, ho2, hd,
      by simp [Fleet.cur, ht, hw0], by rw [hro]⟩

theorem step_executed (hs : step d f l = some f') {r : Reply} (hc' : f'.calls[i]? = some c')
    (hd : c'.cmd = .executed r) :
    (∃ c, f.calls[i]? = some c ∧ c.op = c'.op ∧ c.cmd = .executed r) ∨
      ∃ o c s, l = .exec i o ∧ f.calls[i]? = some c ∧ c.cmd = .carried ∧ c.op = c'.op ∧
        f.streams[c.conn]? = some s ∧ f'.nextVM = f.nextVM + 1 ∧
        ((f.agents s.agent).exec (d.info s.agent) f.nextVM o c.op).1 = r := by
  by_cases hl : l = .restartControl
  · subst hl
    cases hs
    simp only [Fleet.restartControl, List.getElem?_map] at hc'
    obtain ⟨c, hc, rfl⟩ := map_eq_some_iff.mp hc'
    exact .inl ⟨c, hc, rfl, hd⟩
  rcases (step_calls hs hl).new i c' hc' with ⟨c, hc, hm⟩ | ⟨-, -, hcm, -⟩
  · cases hm with
    | exec r' he hca _ =>
      subst he
      obtain ⟨c1, s, hc1, hca, hst, rfl⟩ := execStep_eq hs
      rw [hc] at hc1
      cases hc1
      simp only [Fleet.setAgent, Fleet.setCall] at hc'
      rw [List.getElem?_set_self (List.getElem?_eq_some_iff.mp hc).1] at hc'
      cases hc'
      exact .inr ⟨_, c, s, rfl, hc, hca, rfl, hst, rfl, Carriage.executed.inj hd⟩
    | same => exact .inl ⟨c', hc, rfl, hd⟩
    | send _ _ _ | lose _ => cases hd
    | fail _ _ | deliver r' _ _ _ _ _ | finish _ _ => exact .inl ⟨c, hc, rfl, hd⟩
  · rw [hcm] at hd
    cases hd

theorem Fresh.step (h : Fresh f) (hi : Informed d f) (ha : Awaits f) (hs : step d f l = some f')
    (hl : l ≠ .restartControl) : Fresh f' := by
  have hn := step_nextVM hs
  refine ⟨?_, ?_, ?_, ?_⟩
  · intro a m hm
    rcases step_vms hs hm with ⟨m', hm', hid, -⟩ |
      ⟨i, o, c, s, spec, view, rfl, -, -, -, -, -, hid, -⟩
    · rw [← hid]
      exact Nat.lt_of_lt_of_le (h.vms a m' hm') hn
    · obtain ⟨c, s, -, -, -, rfl⟩ := execStep_eq hs
      rw [hid]
      exact Nat.lt_succ_self _
  · intro r hr v hv
    obtain ⟨i, hri⟩ := mem_iff_getElem?.mp hr
    refine Nat.lt_of_lt_of_le ?_ hn
    rcases step_vmID hs hri hv with ⟨r0, hr0, hv0⟩ | ⟨order, -, hre⟩
    · exact h.rows r0 (mem_of_getElem? hr0) v hv0
    · exact h.recording hi hre
  · intro c' hc' view hd
    obtain ⟨i, hci⟩ := mem_iff_getElem?.mp hc'
    rcases step_executed hs hci hd with
      ⟨c, hc, ho, hol⟩ | ⟨o, c, s, -, -, -, ho, -, hsu, hr⟩
    · rw [← ho]
      exact (h.calls c (mem_of_getElem? hc) view hol).mono hn
    · rw [← ho, hsu]
      exact Agent.exec_fair hr
  · intro w' op view hcu hsa
    rcases step_said hi ha.waits hs hcu hsa with
      ⟨w, hw, hsam, -⟩ | ⟨i, c, w, -, -, hc, ho, hd, -⟩
    · exact (h.said w op view hw hsam).mono hn
    · exact (ho ▸ h.calls c (mem_of_getElem? hc) view hd).mono hn

/-- A VM that an agent has torn down is gone from the host that its row names: while the
reconciler waits for the reply, and once it has it. -/
structure Departed (f : Fleet) : Prop where
  call : ∀ (i : Nat) c s v view, f.awaited = some i → f.calls[i]? = some c →
    c.op.tearsDown = some v → c.cmd = .executed (.ok view) → f.streams[c.conn]? = some s →
    ∀ m ∈ (f.agents s.agent).vms, m.id ≠ v
  said : ∀ w op v view h, f.cur = some w → w.said = some (op, .ok view) → op.tearsDown = some v →
    w.row.vmID = some v → w.row.hostID = some h → ∃ s ∈ f.streams, s.host = some h ∧
      ∀ m ∈ (f.agents s.agent).vms, m.id ≠ v

theorem untracked_step (hs : step d f l = some f') (hv : v < f.nextVM)
    (h : ∀ m ∈ (f.agents a).vms, m.id ≠ v) : ∀ m ∈ (f'.agents a).vms, m.id ≠ v := by
  intro m hm
  rcases step_vms hs hm with ⟨m', hm', hi, -⟩ | ⟨i, o, c, s, spec, view, -, -, -, -, -, -, hi, -⟩
  · rw [← hi]
    exact h m' hm'
  · rw [hi]
    exact Nat.ne_of_gt hv

theorem mayCommand_tearsDown (h : w.mayCommand op) (ho : op.tearsDown = some v) :
    w.row.vmID = some v := by
  cases op <;> cases ho <;> exact h

theorem Awaits.tearsDown (ha : Awaits f) (hi : Informed d f) (hf : Fresh f)
    (haw : f.awaited = some i) (hc : f.calls[i]? = some c) (ho : c.op.tearsDown = some v) :
    v < f.nextVM := by
  obtain ⟨t, ht, hca⟩ := bind_eq_some_iff.mp haw
  obtain ⟨host, op, k, c', s, hp, hc', ho', -⟩ := ha.call t i ht hca
  rw [hc] at hc'
  cases hc'
  obtain ⟨prog, st, call⟩ := t
  cases hp
  obtain ⟨w, -, hcu, -, -, hm, -⟩ := hi.commanding ht
  obtain ⟨r, hr, hcore⟩ := hi.row hcu
  rw [ho'] at ho
  exact hf.rows r (mem_of_getElem? hr) v ((vmID_of_core hcore).trans (mayCommand_tearsDown hm ho))

theorem Departed.call_step (h : Departed f) (hi : Informed d f) (ha : Awaits f) (hf : Fresh f)
    (hs : step d f l = some f') (hl : l ≠ .restartControl) {s : Stream}
    (haw : f'.awaited = some i) (hc : f'.calls[i]? = some c) (ho : c.op.tearsDown = some v)
    (hdo : c.cmd = .executed (.ok view)) (hst : f'.streams[c.conn]? = some s) :
    ∀ m ∈ (f'.agents s.agent).vms, m.id ≠ v := by
  rcases (step_calls hs hl).new i c hc with ⟨c0, hc0, hm⟩ | ⟨-, -, hcm, -⟩
  · have ho0 : c0.op.tearsDown = some v := hm.op ▸ ho
    have ha0 : f.awaited = some i := by
      rcases step_awaited hs haw with ⟨ht, -⟩ | ⟨c1, hc1, hu⟩
      · rw [Fleet.awaited, ht] at haw
        exact haw
      · rw [hc] at hc1
        cases hc1
        cases hu.symm.trans hdo
    have hv : v < f.nextVM := ha.tearsDown hi hf ha0 hc0 ho0
    obtain ⟨t, ht, hca⟩ := bind_eq_some_iff.mp ha0
    obtain ⟨_, _, _, c1, s0, _, hc1, _, _, hs0, _⟩ := ha.call t i ht hca
    rw [hc0] at hc1
    cases hc1
    have hag : s.agent = s0.agent := by
      obtain ⟨s1, hs1, hsm⟩ := (step_streams hs hl).old c0.conn s0 hs0
      rw [← hm.conn, hst] at hs1
      cases hs1
      exact hsm.agent
    rw [hag]
    have hol : c0.cmd = .executed (.ok view) → ∀ m ∈ (f'.agents s0.agent).vms, m.id ≠ v :=
      fun hd => untracked_step hs hv (h.call i c0 s0 v view ha0 hc0 ho0 hd hs0)
    cases hm with
    | exec r he hcar _ =>
      subst he
      obtain ⟨c1, s1, hc1, -, hs1, rfl⟩ := execStep_eq hs
      rw [hc0] at hc1
      cases hc1
      rw [hs0] at hs1
      cases hs1
      simp only [Fleet.setAgent, Fleet.setCall] at hc ⊢
      rw [List.getElem?_set_self (List.getElem?_eq_some_iff.mp hc0).1] at hc
      cases hc
      simp only [if_true]
      exact Agent.exec_tearsDown ho0 (Carriage.executed.inj hdo)
    | same => exact hol hdo
    | send _ _ _ | lose _ => cases hdo
    | _ => exact hol hdo
  · rw [hcm] at hdo
    cases hdo

theorem Work.next_row {cfg : Config} (hm : w.may cfg e) (r : Answer e)
    (hv : (w.next e r).row.vmID = some v) :
    (∃ id vm host port, e = .markRunning id vm host port) ∨
      (w.row.vmID = some v ∧ (w.next e r).row.hostID = w.row.hostID) := by
  cases e with
  | markRunning id vm host port => exact .inl ⟨id, vm, host, port, rfl⟩
  | markLost id message =>
    right
    cases r with
    | error e => exact ⟨hv, rfl⟩
    | ok u =>
      simp only [Work.next, GameServer.markedLost] at hv ⊢
      split at hv
      · cases hv
      rename_i hk
      rw [if_neg hk]
      exact ⟨hv, rfl⟩
  | assignHost id h =>
    cases r with
    | error e => exact .inr ⟨hv, rfl⟩
    | ok u =>
      have hn : w.row.vmID = none := hm.2.2.2.1
      rw [show (w.next (.assignHost id h) (.ok u)).row.vmID = w.row.vmID from rfl, hn] at hv
      cases hv
  | unassignHost id =>
    cases r with
    | error e => exact .inr ⟨hv, rfl⟩
    | ok u =>
      have hn : w.row.vmID = none := hm.2.2.1
      rw [show (w.next (.unassignHost id) (.ok u)).row.vmID = w.row.vmID from rfl, hn] at hv
      cases hv
  | markStopped id | softDelete id =>
    cases r with
    | error e => exact .inr ⟨hv, rfl⟩
    | ok u => cases hv
  | _ => exact .inr (by first | exact ⟨hv, rfl⟩ | (cases r <;> exact ⟨hv, rfl⟩))

theorem Departed.said_act {k : Answer e → Act Unit} {i : Option Nat} (hi : Informed d f)
    (ht : f.thread = some ⟨.call e k, st, i⟩) (hc : e.isCommand = false) {r : Answer e}
    (hcu : (st.next e r).cur = some w) (hs : w.said = some (op, .ok view))
    (ho : op.tearsDown = some v) (hv : w.row.vmID = some v) :
    ∃ w0, f.cur = some w0 ∧ w0.said = some (op, .ok view) ∧ w0.row.vmID = some v ∧
      w0.row.hostID = w.row.hostID := by
  rcases Stage.next_said hc hcu with hn | ⟨w0, hw0, rfl, hsa⟩
  · rw [hn] at hs
    cases hs
  rw [hsa] at hs
  have hf : f.cur = some w0 := by simp [Fleet.cur, ht, hw0]
  have ha : st.allows d.cfg e := (hi.keeps _ ht).1
  have hm : w0.may d.cfg e := by
    rcases Stage.allows_cur ha hw0 with ⟨⟨id, rfl⟩, -⟩ | ⟨hm, -⟩
    · cases hcu
    · exact hm
  rcases Work.next_row hm r hv with ⟨id, vm, host, port, rfl⟩ | ⟨hv0, hh⟩
  · obtain ⟨-, -, -, ⟨view', -, hb⟩, -⟩ := hm
    rcases hb with ⟨-, spec, -, hs'⟩ | ⟨v', -, hs'⟩ <;> rw [hs'] at hs <;> cases hs <;> cases ho
  · exact ⟨w0, hf, hs, hv0, hh.symm⟩

theorem Departed.step (h : Departed f) (hi : Informed d f) (hw : Wired f) (ha : Awaits f)
    (hf : Fresh f) (hs : step d f l = some f') (hl : l ≠ .restartControl) : Departed f' := by
  refine ⟨fun i c s v view haw hc ho hd hst =>
    h.call_step hi ha hf hs hl haw hc ho hd hst, ?_⟩
  intro w op v view host hcu hsa ho hv hho
  -- what the agent of the row's host has let go it does not take up again
  have hla : ∀ w0, f.cur = some w0 → w0.row.vmID = some v →
      (∃ s ∈ f.streams, s.host = some host ∧ ∀ m ∈ (f.agents s.agent).vms, m.id ≠ v) →
      ∃ s ∈ f'.streams, s.host = some host ∧ ∀ m ∈ (f'.agents s.agent).vms, m.id ≠ v := by
    rintro w0 hw0 hv0 ⟨s, hs0, hh, hg⟩
    obtain ⟨r, hr, hcore⟩ := hi.row hw0
    have hlt : v < f.nextVM := hf.rows r (mem_of_getElem? hr) v ((vmID_of_core hcore).trans hv0)
    obtain ⟨s', hs', hag, hh'⟩ := step_serves hs hw hl ⟨s, hs0, rfl, hh⟩
    refine ⟨s', hs', hh', ?_⟩
    rw [hag]
    exact untracked_step hs hlt hg
  rcases step_said_cases hi hs hcu hsa with hcur | ⟨e, k, st, i, r, ht, hcm, hcur⟩ |
    ⟨host', k, st, i, c, w0, -, ht, hc, hr, hw0, hro⟩
  · exact hla w hcur hv (h.said w op v view host hcur hsa ho hv hho)
  · obtain ⟨w0, hw0, hsa0, hv0, hh0⟩ := Departed.said_act hi ht hcm hcur hsa ho hv
    exact hla w0 hw0 hv0 (h.said w0 op v view host hw0 hsa0 ho hv0 (hh0.trans hho))
  · obtain ⟨_, op2, _, c2, s, hp, hc2, ho2, -, hs2, hh2⟩ := ha.call _ i ht rfl
    rw [hc] at hc2
    cases hc2
    cases hp
    obtain ⟨w1, hw1, hfc, -, hh1, -, -⟩ := hi.commanding ht
    rw [hw0] at hw1
    cases hw1
    rw [hro] at hv hho
    have hd := (ha.fits c (mem_of_getElem? hc)).outcome_ok hr
    have hho' : host' = host := Option.some.inj (hh1.symm.trans hho)
    refine hla w0 hfc hv ⟨s, mem_of_getElem? hs2, hho' ▸ hh2, ?_⟩
    exact h.call i c s v view (awaited_of_thread ht rfl) hc (ho2 ▸ ho) hd hs2

end Step

end Craftling.Control

import Craftling.Control.Departed

namespace Craftling.Control
open Effects List Option Fleet

def Fleet.serves (f : Fleet) (a : AgentID) (h : HostID) : Prop :=
  ∃ s ∈ f.streams, s.agent = a ∧ s.host = some h

def Owned (f : Fleet) (a : AgentID) (i : ServerID) (v : VMID) : Prop :=
  ∃ r h, f.rows[i]? = some r ∧ r.deleted = false ∧ r.vmID = some v ∧ r.hostID = some h ∧
    f.serves a h

/-- The delete of a server whose host was down went through without its agent. -/
def Work.stranded (w : Work) : Prop :=
  ∃ v e, w.row.vmID = some v ∧ w.said = some (.deprovision v, .error e) ∧ w.ready = some false

/-- What is behind a VM that an agent tracks: its row, the provision command that has brought
it up, the reconciler that has yet to record it, or a write that has dropped it. -/
inductive Tracked (cfg : Config) (f : Fleet) (a : AgentID) (i : ServerID) (v : VMID) : Prop where
  | owned : Owned f a i v → Tracked cfg f a i v
  | bringing {j : Nat} {c : HubCall} {s : Stream} (spec : VMSpec) (view : VMView) :
      f.awaited = some j → f.calls[j]? = some c → c.op = .provision spec → spec.serverID = i →
      c.cmd = .executed (.ok (some view)) → view.id = v → f.streams[c.conn]? = some s →
      s.agent = a → Tracked cfg f a i v
  | owing {w : Work} {h : HostID} : f.cur = some w → w.owed = some v → w.row.id = i →
      w.row.hostID = some h → f.serves a h → Tracked cfg f a i v
  | writtenOff {w : Work} : w ∈ f.writtenOff → w.row.id = i → w.row.vmID = some v →
      w.silent cfg ∨ w.dead ∨ w.stranded → Tracked cfg f a i v

section Step

variable {d : Deployment} {f f' : Fleet} {l : Label} {a : AgentID} {v : VMID} {e : Call}
    {cfg : Config} {g : GameServer → GameServer} {id : ServerID} {w : Work}

theorem step_writtenOff (hs : step d f l = some f') :
    f'.writtenOff = f.writtenOff ∨ ∃ fault order e k st, l = .act fault order ∧
      f.thread = some ⟨.call e k, st, none⟩ ∧
      f'.writtenOff = f.writtenOff ++ dropped st e (f.answer fault order e).1 := by
  have hr : ∀ (g : Fleet) st e k r, (g.resume st e k r).writtenOff = g.writtenOff := by
    intro g st e k r
    obtain ⟨t, ht⟩ := g.resume_eq st e k r
    rw [ht]
  cases l with
  | act fault order =>
    obtain ⟨e, k, st, ht, -, rfl⟩ := actStep_eq hs
    obtain ⟨rows, hosts, he⟩ := f.answer_eq fault order e
    exact .inr ⟨fault, order, e, k, st, rfl, ht, by rw [hr, he]⟩
  | issue =>
    obtain ⟨h, op, k, st, -, ⟨-, rfl⟩ | ⟨c, -, rfl⟩⟩ := issueStep_eq hs
    · exact .inl (hr ..)
    · exact .inl rfl
  | collect =>
    obtain ⟨h, op, k, st, j, c, r, -, -, -, rfl⟩ := collectStep_eq hs
    exact .inl (hr ..)
  | expire =>
    obtain ⟨h, op, k, st, j, c, -, -, -, -, rfl⟩ := expireStep_eq hs
    exact .inl (hr ..)
  | tick => exact .inl (by rw [(tick_eq hs).2])
  | restartControl => cases hs; exact .inl rfl
  | _ => exact .inl (step_leaves hs rfl).writtenOff

theorem writtenOff_mono (hs : step d f l = some f') (h : w ∈ f.writtenOff) : w ∈ f'.writtenOff := by
  rcases step_writtenOff hs with he | ⟨_, _, _, _, _, -, -, he⟩ <;> rw [he]
  · exact h
  · exact mem_append_left _ h

theorem Owned.move (h : Owned f a i v) (hm : RowsMove f.rows f'.rows)
    (hse : ∀ h, f.serves a h → f'.serves a h) : Owned f' a i v := by
  obtain ⟨r, host, hr, hd, hv, hh, hs⟩ := h
  obtain ⟨r', hr', hcore⟩ := hm.core hr
  exact ⟨r', host, hr', (deleted_of_core hcore).trans hd, (vmID_of_core hcore).trans hv,
    (hostID_of_core hcore).trans hh, hse host hs⟩

theorem Owned.of_rows (h : Owned f a i v) (hr : f'.rows = f.rows)
    (hs : ∀ h, f.serves a h → f'.serves a h) : Owned f' a i v := by
  refine h.move ?_ hs
  rw [hr]
  exact .same

variable {c : HubCall}

theorem CallMove.executed (hm : CallMove f l j c c') (hf : c.Fits) (hd : c.cmd = .executed r) :
    c'.cmd = .executed r := by
  cases hm with
  | send hp _ _ =>
    rw [hf.unsent (.inl hp)] at hd
    cases hd
  | exec _ _ hc _ | lose hc =>
    rw [hc] at hd
    cases hd
  | _ => exact hd

theorem Tracked.other (h : Tracked d.cfg f a i v) (hwi : Wired f) (ha : Awaits f)
    (hs : step d f l = some f') (hl : l.isReconciler = false) : Tracked d.cfg f' a i v := by
  have hr : l ≠ .restartControl := by
    rintro rfl
    cases hl
  have ht := step_thread hs hl
  have hse : ∀ h, f.serves a h → f'.serves a h := fun h => step_serves hs hwi hr
  cases h with
  | owned h => exact .owned (h.move (step_rows hs hl) hse)
  | bringing spec view haw hc ho hser hd hi hst hag =>
    obtain ⟨c', hc', hm⟩ := (step_calls hs hr).old _ _ hc
    obtain ⟨s', hs', hsm⟩ := (step_streams hs hr).old _ _ hst
    refine .bringing spec view (by rw [Fleet.awaited, ht]; exact haw) hc' (hm.op.trans ho)
      hser ?_ hi (hm.conn ▸ hs') (hsm.agent.trans hag)
    exact hm.executed (ha.fits _ (mem_of_getElem? hc)) hd
  | owing hcu howe hi hh hserv =>
    exact .owing (by rw [Fleet.cur, ht]; exact hcu) howe hi hh (hse _ hserv)
  | writtenOff hw hi hv hwh => exact .writtenOff (writtenOff_mono hs hw) hi hv hwh

theorem Tracked.issue (h : Tracked d.cfg f a i v) (hi : Informed d f) (hwi : Wired f)
    (hs : step d f .issue = some f') : Tracked d.cfg f' a i v := by
  have hse : ∀ h, f.serves a h → f'.serves a h := fun h => step_serves hs hwi (by simp)
  obtain ⟨host, op, k, st, ht, hc⟩ := issueStep_eq hs
  have hr : f'.rows = f.rows := by
    rcases hc with ⟨-, rfl⟩ | ⟨c, -, rfl⟩
    · exact resume_rows ..
    · rfl
  cases h with
  | owned h => exact .owned (h.of_rows hr hse)
  | bringing _ _ ha _ _ _ _ _ _ _ =>
    rw [Fleet.awaited, ht] at ha
    cases ha
  | owing hcu ho _ _ _ =>
    obtain ⟨w, -, hc', -, -, -, hn⟩ := hi.commanding ht
    rw [hcu] at hc'
    cases hc'
    rw [hn] at ho
    cases ho
  | writtenOff hw hid hv hwh => exact .writtenOff (writtenOff_mono hs hw) hid hv hwh

theorem HubCall.Fits.outcome_executed (h : c.Fits) {view : Option VMView}
    (hd : c.cmd = .executed (.ok view)) (ho : c.outcome = some r) : r = .ok view := by
  unfold HubCall.outcome at ho
  split at ho
  · rename_i hp
    rw [h.unsent (.inr hp)] at hd
    cases hd
  · rename_i hr
    rw [h.result _ hr] at hd
    cases hd
  · rename_i hr
    rw [h.result _ hr] at hd
    cases hd
    exact (Option.some.inj ho).symm
  · cases ho

section

variable (h : Tracked d.cfg f a i v) (hi : Informed d f) (hwi : Wired f) (ha : Awaits f)
include h hi hwi ha

theorem Tracked.collect (hs : step d f .collect = some f') : Tracked d.cfg f' a i v := by
  have hse : ∀ h, f.serves a h → f'.serves a h := fun h => step_serves hs hwi (by simp)
  obtain ⟨host, op, k, st, j, c, r, ht, hc, hr, rfl⟩ := collectStep_eq hs
  obtain ⟨w, hw, hcu, -, hh, hm, hn⟩ := hi.commanding ht
  cases h with
  | owned h => exact .owned (h.of_rows (resume_rows ..) hse)
  | bringing spec view haw hc' ho hser hd hid hst hag =>
    rw [awaited_of_thread ht rfl] at haw
    cases haw
    rw [hc] at hc'
    cases hc'
    obtain ⟨_, op2, _, c2, s2, hp, hc2, ho2, -, hs2, hh2⟩ := ha.call _ j ht rfl
    rw [hc] at hc2
    cases hc2
    cases hp
    rw [hst] at hs2
    cases hs2
    rw [ho] at ho2
    subst ho2
    have hok := (ha.fits c (mem_of_getElem? hc)).outcome_executed hd hr
    subst hok
    refine .owing (w := w.next (.command host (.provision spec)) (.ok (some view))) ?_
      (congrArg some hid) ?_ hh (hse host ?_)
    · rw [hi.resume_cur ht]
      simp only [Stage.next, hw]
      rfl
    · exact hm.1.symm.trans hser
    · exact ⟨_, mem_of_getElem? hst, hag, hh2⟩
  | owing hcu' howe _ _ _ =>
    rw [hcu] at hcu'
    cases hcu'
    rw [hn] at howe
    cases howe
  | writtenOff hw hid hv hwh => exact .writtenOff (writtenOff_mono hs hw) hid hv hwh

theorem Tracked.expire (hs : step d f .expire = some f') : Tracked d.cfg f' a i v := by
  have hse : ∀ h, f.serves a h → f'.serves a h := fun h => step_serves hs hwi (by simp)
  obtain ⟨host, op, k, st, j, c, ht, hc, hd, -, rfl⟩ := expireStep_eq hs
  obtain ⟨w, hw, hcu, -, -, -, hn⟩ := hi.commanding ht
  cases h with
  | owned h => exact .owned (h.of_rows (resume_rows ..) hse)
  | bringing _ _ haw hc' ho _ _ _ _ _ =>
    rw [awaited_of_thread ht rfl] at haw
    cases haw
    obtain ⟨_, op2, _, c2, _, _, hc2, ho2, hd2, _, _⟩ := ha.call _ _ ht rfl
    rw [hc] at hc' hc2
    cases hc'
    cases hc2
    rw [hd2, ← ho2, ho] at hd
    cases hd
  | owing hcu' howe _ _ _ =>
    rw [hcu] at hcu'
    cases hcu'
    rw [hn] at howe
    cases howe
  | writtenOff hw hid hv hwh => exact .writtenOff (writtenOff_mono hs hw) hid hv hwh

end

theorem Work.writes_row {host : HostID} (hm : w.may cfg e) (hw : e.writes now = some (id, g))
    (hv : w.row.vmID = some v) (hh : w.row.hostID = some host)
    (hs : ∀ view, w.said = some (.start v, .ok view) → (instanceOf view).vmID = some v)
    (hg : ∀ op view, op.tearsDown = some v → w.said ≠ some (op, .ok view)) (hr : r.vmID = some v) :
    ((g r).deleted = r.deleted ∧ (g r).vmID = r.vmID ∧ (g r).hostID = r.hostID) ∨
      ((∃ id message, e = .markLost id message) ∨ ∃ id, e = .softDelete id) ∧
        (w.silent cfg ∨ w.dead ∨ w.stranded) := by
  cases e <;> cases hw
  case markLost message =>
    exact .inr ⟨.inl ⟨_, message, rfl⟩, hm.2.2.elim .inl fun hd => .inr (.inl hd)⟩
  case markHealth =>
    left
    simp only [GameServer.markedHealth]
    split <;> exact ⟨rfl, rfl, rfl⟩
  case markRunning =>
    obtain ⟨-, -, -, ⟨view, hvm, hb⟩, -⟩ := hm
    rcases hb with ⟨hn, -⟩ | ⟨v', hv', hsa⟩
    · rw [hv] at hn
      cases hn
    rw [hv] at hv'
    cases hv'
    refine .inl ⟨rfl, ?_, rfl⟩
    rw [hr, ← hs view hsa]
    exact hvm
  case assignHost =>
    rw [hm.2.2.1] at hh
    cases hh
  case unassignHost =>
    rw [hm.2.2.1] at hv
    cases hv
  case markStopped =>
    rcases hm.2.2.1 with hn | ⟨v', view, hv', hsa⟩
    · rw [hv] at hn
      cases hn
    rw [hv] at hv'
    cases hv'
    exact absurd hsa (hg _ view rfl)
  case softDelete =>
    rcases hm.2.2.1 with hn | hn | ⟨v', hv', ⟨view, hsa⟩ | ⟨⟨x, hsa⟩, hre⟩⟩
    · rw [hv] at hn
      cases hn
    · rw [hh] at hn
      cases hn
    · rw [hv] at hv'
      cases hv'
      exact absurd hsa (hg _ view rfl)
    · exact .inr ⟨.inr ⟨_, rfl⟩, .inr (.inr ⟨v', x, hv', hsa, hre⟩)⟩
  all_goals exact .inl ⟨rfl, rfl, rfl⟩

theorem Owned.written {call : Option Nat} (h : Owned f a i v) (hi : Informed d f) (hf : Fresh f)
    (hd : Departed f) (ho : OneAgent f) (hm : ∃ m ∈ (f.agents a).vms, m.id = v)
    (ht : f.thread = some ⟨.call e k, st, call⟩) (hw : e.writes f.clock = some (id, g))
    (order : Order) :
    Owned { f with rows := updateRow f.rows id g } a i v ∨
      ∃ w ∈ dropped st e (f.answer none order e).1, w.row.id = i ∧ w.row.vmID = some v ∧
        (w.silent d.cfg ∨ w.dead ∨ w.stranded) := by
  obtain ⟨r, host, hr, hde, hv, hh, hse⟩ := h
  by_cases hid : id = i
  · obtain ⟨w, hc, hma, hidw, -⟩ := Stage.writes_cur (hi.keeps _ ht).1 hw
    change st.cur = some w at hc
    have hfc : f.cur = some w := by simp [Fleet.cur, ht, hc]
    obtain ⟨r', hr', hcore⟩ := hi.row hfc
    rw [← hidw, hid, hr] at hr'
    cases hr'
    have hwv : w.row.vmID = some v := (vmID_of_core hcore).symm.trans hv
    have hwh : w.row.hostID = some host := (hostID_of_core hcore).symm.trans hh
    have hst : ∀ view, w.said = some (.start v, .ok view) → (instanceOf view).vmID = some v := by
      intro view hsa
      obtain ⟨x, rfl, hx⟩ := hf.said w _ view hfc hsa
      exact congrArg some hx
    -- an agent that has torn the VM down does not track it
    have hg : ∀ op view, op.tearsDown = some v → w.said ≠ some (op, .ok view) := by
      intro op view hop hsa
      obtain ⟨s, hs, hsh, hu⟩ := hd.said w op v view host hfc hsa hop hwv hwh
      obtain ⟨s', hs', ha, hs'h⟩ := hse
      obtain ⟨m, hm, hmi⟩ := hm
      rw [ho s hs s' hs' host hsh hs'h, ha] at hu
      exact hu m hm hmi
    rcases w.writes_row hma hw hwv hwh hst hg hv with ⟨h1, h2, h3⟩ | ⟨hdr, hwhy⟩
    · exact .inl ⟨g r, host, by simp [getElem?_updateRow, hid, hr], h1.trans hde, h2.trans hv,
        h3.trans hh, hse⟩
    · refine .inr ⟨w, ?_, hidw.symm.trans hid, hwv, hwhy⟩
      rcases hdr with ⟨_, _, rfl⟩ | ⟨_, rfl⟩ <;> simp [dropped, Fleet.answer, Fleet.write, hc]
  · exact .inl ⟨r, host, by simp [getElem?_updateRow, hid, hr], hde, hv, hh, hse⟩

theorem Work.next_owed (hm : w.may cfg e) (ho : w.owed = some v) (r : Answer e) :
    (∃ id host port, e = .markRunning id (some v) host port ∧ id = w.row.id) ∨
      ((w.next e r).owed = some v ∧ (w.next e r).row.id = w.row.id ∧
        (w.next e r).row.hostID = w.row.hostID) := by
  have hn : w.owed ≠ none := by simp [ho]
  cases e with
  | markRunning id vm host port =>
    obtain ⟨hi, -, -, -, hv⟩ := hm
    have hv : w.owed = vm := hv.resolve_left hn
    rw [ho] at hv
    subst hv
    exact .inl ⟨id, host, port, rfl, hi⟩
  | markLost id message =>
    right
    cases r with
    | error e => exact ⟨ho, rfl, rfl⟩
    | ok u =>
      refine ⟨ho, markedLost_id _ _, ?_⟩
      simp only [Work.next, GameServer.markedLost]
      split <;> rfl
  | assignHost id h => exact absurd hm.2.2.2.2.1 hn
  | unassignHost id | markStopped id | softDelete id | command h op => exact absurd hm.2.2.2 hn
  | _ =>
    right
    first | exact ⟨ho, rfl, rfl⟩ | (cases r <;> exact ⟨ho, rfl, rfl⟩)

/-- The reconciler's own calls. A VM that is owed is recorded by a write that goes through. -/
theorem Tracked.act (h : Tracked d.cfg f a i v) (hi : Informed d f) (hc : Coherent f)
    (hwi : Wired f) (hf : Fresh f) (hd : Departed f) (ho : OneAgent f)
    (hm : ∃ m ∈ (f.agents a).vms, m.id = v) (hs : step d f (.act fault order) = some f')
    (hl : Undisturbed f (.act fault order)) : Tracked d.cfg f' a i v := by
  have hse : ∀ h, f.serves a h → f'.serves a h := fun h => step_serves hs hwi (by simp)
  have hg : ∀ w ∈ f.writtenOff, w ∈ f'.writtenOff := fun w => writtenOff_mono hs
  obtain ⟨e, k, st, ht, hcm, hf'⟩ := actStep_eq hs
  have hro : f'.rows = (f.answer fault order e).2.rows := by rw [hf', resume_rows]
  cases h with
  | owned h =>
    cases hw : e.writes f.clock with
    | none => exact .owned (h.of_rows (hro.trans (answer_rows_of_not_writes hw)) hse)
    | some write =>
      cases hfa : fault with
      | some text =>
        subst hfa
        exact .owned (h.of_rows (hro.trans (answer_rows_of_fault text)) hse)
      | none =>
        subst hfa
        rcases h.written hi hf hd ho hm ht hw order with hk | ⟨w, hme, hid, hv, hwh⟩
        · exact .owned (hk.of_rows (hro.trans (answer_rows_of_writes hw)) hse)
        refine .writtenOff ?_ hid hv hwh
        obtain ⟨t, hre⟩ := resume_eq { (f.answer none order e).2 with
          writtenOff := (f.answer none order e).2.writtenOff ++
            dropped st e (f.answer none order e).1 } st e k (f.answer none order e).1
        rw [hf', hre]
        exact mem_append_right _ hme
  | bringing _ _ ha _ _ _ _ _ _ _ =>
    rw [Fleet.awaited, ht] at ha
    cases ha
  | @owing w host hcu howe hid hh hser =>
    have hcu : st.cur = some w := by simpa [Fleet.cur, ht] using hcu
    rcases Stage.allows_cur (hi.keeps _ ht).1 hcu with ⟨-, hn, -⟩ | ⟨hma, hne⟩
    · rw [hn] at howe
      cases howe
    rcases w.next_owed hma howe (f.answer fault order e).1 with
      ⟨id, host', port, rfl, hidw⟩ | ⟨ho', hi', hh'⟩
    · have hfa : fault = none := hl.resolve_right (by simp [Fleet.writing, ht, Call.writes])
      subst hfa
      rw [answer_rows_of_writes rfl] at hro
      obtain ⟨r, hr, hcore⟩ := hi.row (w := w) (by simp [Fleet.cur, ht, hcu])
      have hrh : r.hostID = some host := (hostID_of_core hcore).trans hh
      have hde : r.deleted = false := (hc.rows r (mem_of_getElem? hr)).placed (by simp [hrh])
      refine .owned ⟨r.markedRunning (some v) host' port, host, ?_, hde, rfl, hrh, hse host hser⟩
      rw [hro, getElem?_updateRow, hidw.trans hid, if_pos rfl, ← hid, hr]
      rfl
    · refine .owing ?_ ho' (hi'.trans hid) (hh'.trans hh) (hse host hser)
      rw [hf', hi.resume_cur ht]
      exact hne _
  | writtenOff hw hid hv hwh => exact .writtenOff (hg _ hw) hid hv hwh

def Accounted (cfg : Config) (f : Fleet) : Prop :=
  ∀ a, ∀ m ∈ (f.agents a).vms, Tracked cfg f a m.serverID m.id

structure Kept (d : Deployment) (f : Fleet) : Prop where
  informed : Informed d f
  coherent : Coherent f
  wired : Wired f
  awaits : Awaits f
  fresh : Fresh f
  departed : Departed f
  oneAgent : OneAgent f
  accounted : Accounted d.cfg f

theorem Accounted.step (h : Kept d f) (hs : step d f l = some f') (hl : Undisturbed f l) :
    Accounted d.cfg f' := by
  intro a m hm
  rcases step_vms hs hm with ⟨m', hm', hid, hse⟩ |
    ⟨j, o, c, s, spec, view, rfl, hc, hca, hop, hst, ha, hid, hse, hcal, hvi⟩
  · rw [← hid, ← hse]
    have ht := h.accounted a m' hm'
    by_cases hr : l.isReconciler = false
    · exact ht.other h.wired h.awaits hs hr
    cases l with
    | tick =>
      cases ht with
      | owned ho =>
        refine .owned (ho.of_rows ?_ fun host => step_serves hs h.wired (by simp))
        rw [(tick_eq hs).2]
      | bringing _ _ haw _ _ _ _ _ _ _ =>
        rw [Fleet.awaited, (tick_eq hs).1] at haw
        cases haw
      | owing hcu _ _ _ _ =>
        rw [Fleet.cur, (tick_eq hs).1] at hcu
        cases hcu
      | writtenOff hw hi hv hwh => exact .writtenOff (writtenOff_mono hs hw) hi hv hwh
    | act fault order =>
      exact ht.act h.informed h.coherent h.wired h.fresh h.departed h.oneAgent ⟨m', hm', rfl⟩ hs hl
    | issue => exact ht.issue h.informed h.wired hs
    | collect => exact ht.collect h.informed h.wired h.awaits hs
    | expire => exact ht.expire h.informed h.wired h.awaits hs
    | restartControl => exact hl.elim
    | _ => exact absurd rfl hr
  · -- the command that has brought the VM up is the one that the reconciler waits for
    have haw : f.awaited = some j :=
      h.awaits.provision j c spec hc hop (by simp [HubCall.pending, hca])
    have hlt : j < f.calls.length := (List.getElem?_eq_some_iff.mp hc).1
    obtain ⟨s', hs', hmo⟩ := (step_streams hs (by simp)).old c.conn s hst
    refine .bringing (j := j) (c := { c with cmd := .executed (.ok (some view)) }) spec view ?_ ?_
      hop hse.symm rfl (hvi.trans hid.symm) hs' (hmo.agent.trans ha)
    · rw [Fleet.awaited, step_thread hs rfl]
      exact haw
    · rw [hcal, List.getElem?_set_self hlt]

theorem Kept.step (h : Kept d f) (hs : step d f l = some f') (hl : Undisturbed f l) : Kept d f' where
  informed := h.informed.step hs
  coherent := h.coherent.step h.informed hs
  wired := h.wired.step hs
  awaits := h.awaits.step h.wired hs hl.lives
  fresh := h.fresh.step h.informed h.awaits hs hl.lives
  departed := h.departed.step h.informed h.wired h.awaits h.fresh hs hl.lives
  oneAgent := h.oneAgent.step hs hl
  accounted := Accounted.step h hs hl

theorem Kept.init : Kept d .init where
  informed := .init
  coherent := .init
  wired := .init
  awaits := .init
  fresh := ⟨(fun a m hm => by cases hm), (fun r hr => by cases hr), (fun c hc => by cases hc),
    fun w op view hcu => by cases hcu⟩
  departed := ⟨(fun i c s v view ha => by cases ha), fun w op v view h hcu => by cases hcu⟩
  oneAgent := fun s hs => by cases hs
  accounted := fun a m hm => by cases hm

def Fleet.dropping (f : Fleet) : Option VMID :=
  match f.thread with
  | some ⟨.call (.markLost id _) _, _, _⟩ => f.rows[id]?.bind GameServer.vmID
  | some ⟨.call (.softDelete id) _, _, _⟩ => f.rows[id]?.bind GameServer.vmID
  | _ => none

/-- No VM is dropped from its row while an agent that has ever connected tracks it. -/
def DropsUntracked (f : Fleet) : Label → Prop
  | .act none _ => ∀ v ∈ f.dropping, ∀ s ∈ f.streams, ∀ m ∈ (f.agents s.agent).vms, m.id ≠ v
  | _ => True

instance (f : Fleet) (l : Label) : Decidable (DropsUntracked f l) := by
  unfold DropsUntracked
  induction l using Label.casesOn
  case act fault _ => induction fault using Option.casesOn <;> infer_instance
  all_goals infer_instance

def Forgotten (f : Fleet) : Prop :=
  ∀ w ∈ f.writtenOff, ∀ v, w.row.vmID = some v → v < f.nextVM ∧
    ∀ a, ∀ m ∈ (f.agents a).vms, m.id ≠ v

theorem mem_dropped (h : w ∈ dropped st e (f.answer fault order e).1) :
    fault = none ∧ st.cur = some w ∧
      ((∃ id message, e = .markLost id message) ∨ ∃ id, e = .softDelete id) := by
  cases e with
  | markLost id message =>
    cases fault with
    | some text => cases h
    | none => exact ⟨rfl, mem_toList.mp h, .inl ⟨id, message, rfl⟩⟩
  | softDelete id =>
    cases fault with
    | some text => cases h
    | none => exact ⟨rfl, mem_toList.mp h, .inr ⟨id, rfl⟩⟩
  | _ => cases h

theorem Forgotten.step (h : Forgotten f) (hi : Informed d f) (hf : Fresh f) (hh : Housed f)
    (hs : step d f l = some f') (hl : DropsUntracked f l) : Forgotten f' := by
  have hla : ∀ v, (v < f.nextVM ∧ ∀ a, ∀ m ∈ (f.agents a).vms, m.id ≠ v) →
      v < f'.nextVM ∧ ∀ a, ∀ m ∈ (f'.agents a).vms, m.id ≠ v := by
    intro v hv
    exact ⟨Nat.lt_of_lt_of_le hv.1 (step_nextVM hs), fun a => untracked_step hs hv.1 (hv.2 a)⟩
  intro w hw v hv
  rcases step_writtenOff hs with he | ⟨fault, order, e, k, st, rfl, ht, he⟩ <;> rw [he] at hw
  · exact hla v (h w hw v hv)
  rcases List.mem_append.mp hw with ho | hn
  · exact hla v (h w ho v hv)
  obtain ⟨rfl, hc, hca⟩ := mem_dropped hn
  obtain ⟨r, hr, hcore⟩ := hi.row (w := w) (by simp [Fleet.cur, ht, hc])
  have hrv : r.vmID = some v := (vmID_of_core hcore).trans hv
  have hd : f.dropping = some v := by
    have ha := (hi.keeps _ ht).1
    rcases hca with ⟨id, message, rfl⟩ | ⟨id, rfl⟩ <;>
      (obtain ⟨w', hc', hid, -⟩ := ha
       rw [show st.cur = some w' from hc'] at hc
       cases hc
       simp [Fleet.dropping, ht, hid, hr, hrv])
  refine hla v ⟨hf.rows r (List.mem_of_getElem? hr) v hrv, fun a m hm => ?_⟩
  obtain ⟨s, hs', rfl⟩ := hh a m hm
  exact hl v (by rw [hd]; rfl) s hs' m hm

end Step

theorem tracked_owned_or_dropped (d : Deployment) (f : Fleet)
    (hr : Reaches (step d) (fun g l _ => Undisturbed g l) .init f) (hi : f.thread = none)
    (a : AgentID) (m : VM) (hm : m ∈ (f.agents a).vms) :
    Owned f a m.serverID m.id ∨ ∃ w ∈ f.writtenOff, w.row.id = m.serverID ∧
      w.row.vmID = some m.id ∧ (w.silent d.cfg ∨ w.dead ∨ w.stranded) := by
  have h : Kept d f := hr.invariant (I := Kept d) .init fun g l g' hk hs hl => hk.step hs hl
  cases h.accounted a m hm with
  | owned h => exact .inl h
  | bringing _ _ ha _ _ _ _ _ _ _ =>
    rw [Fleet.awaited, hi] at ha
    cases ha
  | owing hc _ _ _ _ =>
    rw [Fleet.cur, hi] at hc
    cases hc
  | writtenOff hw hid hv hwh => exact .inr ⟨_, hw, hid, hv, hwh⟩

/-- In an undisturbed run that drops no tracked VM, each is on record between ticks. -/
theorem tracked_vms_owned (d : Deployment) (f : Fleet)
    (hrun : Reaches (step d) (fun g l _ => Undisturbed g l ∧ DropsUntracked g l) .init f)
    (hidle : f.thread = none) (a : AgentID) (m : VM) (hm : m ∈ (f.agents a).vms) :
    Owned f a m.serverID m.id := by
  have hkept : Kept d f ∧ Housed f ∧ Forgotten f := by
    refine hrun.invariant (I := fun g => Kept d g ∧ Housed g ∧ Forgotten g) ⟨.init, ?_, ?_⟩ ?_
    · intro a m hm
      cases hm
    · intro w hw
      cases hw
    · rintro g l g' ⟨hk, hh, hf⟩ hs ⟨hl, hdrops⟩
      exact ⟨hk.step hs hl, hh.step hs, hf.step hk.informed hk.fresh hh hs hdrops⟩
  have hundisturbed : Reaches (step d) (fun g l _ => Undisturbed g l) .init f :=
    hrun.mono fun _ _ _ h => h.1
  rcases tracked_owned_or_dropped d f hundisturbed hidle a m hm with h | ⟨w, hw, -, hv, -⟩
  · exact h
  · exact absurd rfl ((hkept.2.2 w hw m.id hv).2 a m hm)

theorem tracked_vms_owned_running :
    ∃ f m, Reaches (step oneHost) (fun g l _ => Undisturbed g l ∧ DropsUntracked g l) .init f ∧
      f.thread = none ∧ m ∈ (f.agents 0).vms ∧ Owned f 0 m.serverID m.id := by
  obtain ⟨f, hrun, hf⟩ := Reaches.exists_run (step oneHost)
    (fun g l _ => Undisturbed g l ∧ DropsUntracked g l) .init toRunning
    (fun f => f.thread.isNone && (f.agents 0).vms.head?.isSome) (by decide +kernel)
  simp only [Bool.and_eq_true, isNone_iff_eq_none, isSome_iff_exists] at hf
  obtain ⟨hidle, m, hm⟩ := hf
  have hm : m ∈ (f.agents 0).vms := mem_of_head? hm
  exact ⟨f, m, hrun, hidle, hm, tracked_vms_owned oneHost f hrun hidle 0 m hm⟩

/-- The first agent connects again, its VM still running. Two ticks later it goes on running, tracked by its agent and named by no row. -/
theorem given_up_vm_stays_tracked :
    ∃ f f', Reaches (step oneHost) (fun g l _ => Undisturbed g l) .init f ∧ f.thread = none ∧
      runLabels (step oneHost) f (probed 2 ++ probed 3) = some f' ∧ f'.thread = none ∧
      f'.streams = [⟨0, some 0, .returned⟩, ⟨1, some 1, .serving⟩, ⟨0, some 0, .serving⟩] ∧
      f'.registry 0 = some 2 ∧ f'.registry 1 = some 1 ∧
      ∃ m ∈ (f'.agents 0).vms, m.up = true ∧ ∀ r ∈ f'.rows, r.vmID ≠ some m.id := by
  obtain ⟨f, hrun, hf⟩ := Reaches.exists_run (step oneHost)
    (fun g l _ => Undisturbed g l) .init
    (toMoved ++ joins 0 2)
    (fun f => f.thread.isNone && (runLabels (step oneHost) f (probed 2 ++ probed 3)).any fun f' =>
      f'.thread.isNone &&
      f'.streams = [⟨0, some 0, .returned⟩, ⟨1, some 1, .serving⟩, ⟨0, some 0, .serving⟩] &&
      f'.registry 0 = some 2 && f'.registry 1 = some 1 &&
        (f'.agents 0).vms.any fun m => m.up && f'.rows.all fun r => r.vmID ≠ some m.id)
    (by decide +kernel)
  simp only [Bool.and_eq_true, Option.any_eq_true, Option.isNone_iff_eq_none, List.any_eq_true,
    List.all_eq_true, decide_eq_true_eq] at hf
  obtain ⟨hidle, f', hrest, ⟨⟨⟨hidle', hstreams⟩, hreg0⟩, hreg1⟩, m, hm, hup, hnone⟩ := hf
  exact ⟨f, f', hrun, hidle, hrest, hidle', hstreams, hreg0, hreg1, m, hm, hup, hnone⟩

end Craftling.Control

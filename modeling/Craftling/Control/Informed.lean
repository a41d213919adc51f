import Craftling.Control.Hub

namespace Craftling.Control
open Effects List Fleet Stage

/-- The columns of a row that only the reconciler writes, with those that never change. -/
structure Core where
  id : ServerID
  cpus : Nat
  memoryMB : Nat
  status : Status
  hostID : Option HostID
  vmID : Option VMID
  deleted : Bool
  deriving DecidableEq, Repr

def GameServer.core (s : GameServer) : Core :=
  ⟨s.id, s.cpus, s.memoryMB, s.status, s.hostID, s.vmID, s.deleted⟩

def Agrees (rows : List GameServer) (s : GameServer) : Prop :=
  ∃ r, rows[s.id]? = some r ∧ r.core = s.core

def Stage.known (st : Stage) : List GameServer := (st.cur.map Work.row).toList ++ st.todo

def Call.writes (now : Time) : Call → Option (ServerID × (GameServer → GameServer))
  | .markLost id message => some (id, (·.markedLost message))
  | .markHealth id reachable online max => some (id, (·.markedHealth reachable online max now))
  | .markBackedUp id => some (id, fun s => { s with backupRequested := false })
  | .markStatus id status message => some (id, (·.marked status message))
  | .markRunning id vm host port => some (id, (·.markedRunning vm host port))
  | .assignHost id h => some (id, fun s => { s with hostID := some h })
  | .unassignHost id => some (id, fun s => { s with hostID := none })
  | .markStopped id => some (id, GameServer.markedStopped)
  | .softDelete id => some (id, GameServer.softDeleted)
  | _ => none

variable {e : Call} {d : Deployment} {f : Fleet} {r s s' : GameServer} {g : GameServer → GameServer}
    {rows rows' : List GameServer} {order : Order} {id : ServerID} {now : Time}

theorem answer_rows_of_writes (hw : e.writes f.clock = some (id, g)) :
    (f.answer none order e).2.rows = updateRow f.rows id g := by
  cases e <;> first | (cases hw; rfl) | cases hw

theorem answer_rows_of_fault (text : String) : (f.answer (some text) order e).2.rows = f.rows := by
  cases e with
  | reserve h cpus memMB =>
    simp only [Fleet.answer]
    split <;> rfl
  | _ => rfl

theorem answer_rows_of_not_writes {f : Fleet} {fault : Option String} {order : Order} {e : Call}
    (hw : e.writes f.clock = none) : (f.answer fault order e).2.rows = f.rows := by
  cases e with
  | reserve h cpus memMB =>
    simp only [Fleet.answer]
    split <;> rfl
  | listRunning | listReconcilable => cases fault <;> rfl
  | _ => first | rfl | cases hw

theorem Call.writes_core (hw : e.writes now = some (id, g)) (h : r.core = s.core) :
    (g r).core = (g s).core ∧ (g r).id = r.id := by
  simp only [GameServer.core, Core.mk.injEq] at h
  obtain ⟨hi, hc, hm, hs, hh, hv, hd⟩ := h
  cases e <;> cases hw
  case markLost =>
    simp only [GameServer.markedLost, hs, hd]
    split <;> simp [GameServer.core, *]
  case markHealth =>
    simp only [GameServer.markedHealth, hs, hd]
    split <;> simp [GameServer.core, *]
  all_goals simp [GameServer.core, GameServer.marked, GameServer.markedRunning,
    GameServer.markedStopped, GameServer.softDeleted, *]

variable {w : Work}

theorem Work.next_core (order : Order) (hw : e.writes f.clock = some (id, g)) :
    (w.next e (f.answer none order e).1).row.core = (g w.row).core := by
  cases e <;> cases hw
  case markHealth =>
    simp only [Work.next, GameServer.markedHealth]
    split <;> rfl
  all_goals rfl

theorem Work.next_core_of_fault (order : Order) (hw : e.writes f.clock = some (id, g))
    (text : String) : (w.next e (f.answer (some text) order e).1).row.core = w.row.core := by
  cases e <;> first | rfl | cases hw

theorem Work.next_core_of_not_writes (hw : e.writes now = none) (r : Answer e) :
    (w.next e r).row = w.row := by
  cases e <;> first | (cases hw; done) | rfl | (cases r <;> rfl)

theorem Work.may_writes (now : Time) (hm : w.may cfg e) (hw : e.writes now = some (id, g)) :
    id = w.row.id := by
  cases e <;> cases hw
  case markHealth => exact hm
  case markBackedUp => exact hm
  all_goals exact hm.1

/-- What happens to the table in a step that is not the reconciler's own. -/
inductive RowsMove (rows : List GameServer) : List GameServer → Prop where
  | same : RowsMove rows rows
  | create (n : NewServer) : RowsMove rows (rows ++ [n.row rows.length])
  | edit (id : ServerID) (g : GameServer → GameServer) :
      (∀ s, (g s).core = s.core) → RowsMove rows (updateRow rows id g)

/-- Where a change to the server table comes from: a user or a write of the reconciler. -/
inductive Rewrites (f : Fleet) : Label → List GameServer → Prop where
  | same (l : Label) : Rewrites f l f.rows
  | create (n : NewServer) : Rewrites f (.create n) (f.rows ++ [n.row f.rows.length])
  | updateSpec (id : ServerID) (name version : String) :
      Rewrites f (.updateSpec id name version)
        (updateRow f.rows id fun s => { s with name, version })
  | setDesired (id : ServerID) (desired : Desired) :
      Rewrites f (.setDesired id desired) (updateRow f.rows id fun s => { s with desired })
  | requestBackup (id : ServerID) :
      Rewrites f (.requestBackup id)
        (updateRow f.rows id fun s => { s with backupRequested := true })
  | write (order : Order) (e : Call) (k : Answer e → Act Unit) (st : Stage) (id : ServerID)
      (g : GameServer → GameServer) : f.thread = some ⟨.call e k, st, none⟩ →
      e.writes f.clock = some (id, g) → Rewrites f (.act none order) (updateRow f.rows id g)

theorem step_rewrites (hs : step d f l = some f') : Rewrites f l f'.rows := by
  have hk : f'.rows = f.rows → Rewrites f l f'.rows := by
    intro h
    rw [h]
    exact .same l
  cases l with
  | create n => rw [create_eq hs]; exact .create n
  | updateSpec id name v => cases hs; exact .updateSpec id name v
  | setDesired id x => cases hs; exact .setDesired id x
  | requestBackup id => cases hs; exact .requestBackup id
  | tick => exact hk (by rw [(tick_eq hs).2])
  | act fault order =>
    obtain ⟨e, k, st, ht, -, rfl⟩ := actStep_eq hs
    rw [resume_rows] at hk ⊢
    cases fault with
    | some text => exact hk (answer_rows_of_fault text)
    | none =>
      cases hw : e.writes f.clock with
      | none => exact hk (answer_rows_of_not_writes hw)
      | some w =>
        change Rewrites f _ (f.answer none order e).2.rows
        rw [answer_rows_of_writes hw]
        exact .write order e k st w.1 w.2 ht hw
  | issue =>
    obtain ⟨h, op, k, st, -, ⟨-, rfl⟩ | ⟨c, -, rfl⟩⟩ := issueStep_eq hs
    · exact hk (resume_rows ..)
    · exact hk rfl
  | collect =>
    obtain ⟨h, op, k, st, i, c, r, -, -, -, rfl⟩ := collectStep_eq hs
    exact hk (resume_rows ..)
  | expire =>
    obtain ⟨h, op, k, st, i, c, -, -, -, -, rfl⟩ := expireStep_eq hs
    exact hk (resume_rows ..)
  | restartControl => cases hs; exact hk rfl
  | _ => exact hk ((step_leaves hs rfl).rows rfl)

theorem step_rows (hs : step d f l = some f') (hl : l.isReconciler = false) :
    RowsMove f.rows f'.rows := by
  have hm := step_rewrites hs
  generalize f'.rows = rows at hm
  cases hm with
  | same => exact .same
  | create n => exact .create n
  | updateSpec id name version | setDesired id desired | requestBackup id =>
    exact .edit id _ fun s => rfl
  | write => cases hl

theorem Call.writes_vmID (hw : e.writes now = some (id, g)) (r : GameServer) :
    (g r).vmID = r.vmID ∨ (g r).vmID = none ∨
      ∃ vm host port, e = .markRunning id vm host port ∧ (g r).vmID = vm := by
  cases e <;> cases hw
  case markLost =>
    simp only [GameServer.markedLost]
    split
    · exact .inr (.inl rfl)
    · exact .inl rfl
  case markHealth =>
    simp only [GameServer.markedHealth]
    split <;> exact .inl rfl
  case markRunning vm host port => exact .inr (.inr ⟨vm, host, port, rfl, rfl⟩)
  case markStopped => exact .inr (.inl rfl)
  case softDelete => exact .inr (.inl rfl)
  all_goals exact .inl rfl

def Numbered (rows : List GameServer) : Prop := ∀ (i : Nat) r, rows[i]? = some r → r.id = i

theorem getElem?_updateRow (rows : List GameServer) (id : ServerID) (g : GameServer → GameServer)
    (i : Nat) : (updateRow rows id g)[i]? = if id = i then rows[i]?.map g else rows[i]? := by
  unfold updateRow
  rw [List.getElem?_modify]
  split
  · rfl
  · simp

theorem Numbered.updateRow (h : Numbered rows) (id : ServerID) (hg : ∀ s, (g s).id = s.id) :
    Numbered (updateRow rows id g) := by
  intro i r hr
  rw [getElem?_updateRow] at hr
  split at hr
  · rw [Option.map_eq_some_iff] at hr
    obtain ⟨r', hr', rfl⟩ := hr
    rw [hg]
    exact h i r' hr'
  · exact h i r hr

theorem id_of_core (h : r.core = s.core) : r.id = s.id :=
  congrArg Core.id h

theorem hostID_of_core (h : r.core = s.core) : r.hostID = s.hostID :=
  congrArg Core.hostID h

theorem vmID_of_core (h : r.core = s.core) : r.vmID = s.vmID :=
  congrArg Core.vmID h

theorem deleted_of_core (h : r.core = s.core) : r.deleted = s.deleted :=
  congrArg Core.deleted h

theorem Numbered.move (h : Numbered rows) (hm : RowsMove rows rows') : Numbered rows' := by
  cases hm with
  | same => exact h
  | create n =>
    intro i r hr
    rw [List.getElem?_append] at hr
    split at hr
    · exact h i r hr
    rename_i hl
    have hme := mem_of_getElem? hr
    rw [mem_singleton] at hme
    have hi : i - rows.length < [n.row rows.length].length := (List.getElem?_eq_some_iff.mp hr).1
    subst hme
    simp only [length_cons, length_nil] at hi
    change rows.length = i
    omega
  | edit id g hg => exact h.updateRow id fun s => id_of_core (hg s)

theorem Agrees.of_core (h : Agrees rows s) (hcore : s'.core = s.core) : Agrees rows s' := by
  obtain ⟨r, hr, hrs⟩ := h
  exact ⟨r, by rw [id_of_core hcore, hr], hrs.trans hcore.symm⟩

theorem RowsMove.core (hm : RowsMove rows rows') {i : Nat} (hr : rows[i]? = some r) :
    ∃ r', rows'[i]? = some r' ∧ r'.core = r.core := by
  cases hm with
  | same => exact ⟨r, hr, rfl⟩
  | create n =>
    have hl : i < rows.length := (List.getElem?_eq_some_iff.mp hr).1
    exact ⟨r, by rw [List.getElem?_append_left hl, hr], rfl⟩
  | edit id g hg =>
    by_cases hi : id = i
    · exact ⟨g r, by simp [getElem?_updateRow, hi, hr], hg r⟩
    · exact ⟨r, by simp [getElem?_updateRow, hi, hr], rfl⟩

theorem Agrees.move (h : Agrees rows s) (hm : RowsMove rows rows') : Agrees rows' s := by
  obtain ⟨r, hr, hrs⟩ := h
  obtain ⟨r', hr', hcore⟩ := hm.core hr
  exact ⟨r', hr', hcore.trans hrs⟩

theorem Agrees.updateRow_ne (h : Agrees rows s) (hi : id ≠ s.id) :
    Agrees (updateRow rows id g) s := by
  obtain ⟨r, hr, hrs⟩ := h
  exact ⟨r, by simp [getElem?_updateRow, hi, hr], hrs⟩

theorem Agrees.written (h : Agrees rows s) (hw : e.writes now = some (id, g)) (hi : id = s.id)
    (hs' : s'.core = (g s).core) : Agrees (updateRow rows id g) s' := by
  obtain ⟨r, hr, hrs⟩ := h
  have hcore := e.writes_core hw hrs
  have hi' : s'.id = s.id := (id_of_core hs').trans (e.writes_core hw (s := s) rfl).2
  exact ⟨g r, by simp [getElem?_updateRow, hi, hi', hr], hcore.1.trans hs'.symm⟩

theorem Numbered.row (hn : Numbered rows) (h : s ∈ rows) : rows[s.id]? = some s := by
  obtain ⟨i, hi⟩ := mem_iff_getElem?.mp h
  rw [hn i s hi, hi]

theorem agrees_of_mem (hn : Numbered rows) (h : s ∈ rows) : Agrees rows s :=
  ⟨s, hn.row h, rfl⟩

theorem Numbered.nodup (h : Numbered rows) : (rows.map GameServer.id).Nodup := by
  have hr : rows.map GameServer.id = List.range rows.length := by
    refine ext_getElem (by simp) fun i hi _ => ?_
    rw [length_map] at hi
    simp [h i rows[i] (List.getElem?_eq_getElem hi)]
  rw [hr]
  exact nodup_range

theorem arranged (h : Numbered rows) (order : Order) (p : GameServer → Bool) :
    (∀ s, s ∈ order.arrange (rows.filter p) ↔ s ∈ rows ∧ p s = true) ∧
      ((order.arrange (rows.filter p)).map GameServer.id).Nodup := by
  have hp := order.perm (rows.filter p)
  refine ⟨fun s => by rw [hp.mem_iff, mem_filter], ?_⟩
  rw [(hp.map GameServer.id).nodup_iff]
  exact h.nodup.sublist (filter_sublist.map _)

theorem listed (h : Numbered rows) (order : Order) (p : GameServer → Bool) :
    (∀ s ∈ (order.arrange (rows.filter p)).take listLimit, s ∈ rows ∧ p s = true) ∧
      (((order.arrange (rows.filter p)).take listLimit).map GameServer.id).Nodup := by
  obtain ⟨hm, hn⟩ := arranged h order p
  exact ⟨fun s hs => (hm s).mp (mem_of_mem_take hs), hn.sublist ((take_sublist _ _).map _)⟩

/-- The records that the reconciler goes by say what the table says, whatever users have
changed since, and it makes only calls that are in order. -/
structure Informed (d : Deployment) (f : Fleet) : Prop where
  numbered : Numbered f.rows
  keeps : ∀ t, f.thread = some t →
    Keeps d.cfg (fun st _ => st.cur = none) t.stage t.prog
  agrees : ∀ t, f.thread = some t → ∀ s ∈ t.stage.known, Agrees f.rows s
  distinct : ∀ t, f.thread = some t → (t.stage.known.map GameServer.id).Nodup

theorem Fleet.resume_thread {k : Answer e → Act Unit} {r : Answer e}
    (h : (f.resume st e k r).thread = some t) : t = ⟨k r, st.next e r, none⟩ := by
  unfold Fleet.resume at h
  split at h
  · cases h
  · rename_i p hp
    exact (Option.some.inj h).symm

section

variable {d : Deployment} {f f' : Fleet} {e : Call} {cfg : Config} {r : GameServer}
    {g : GameServer → GameServer} {i : Option Nat} {id : ServerID} {st : Stage} {now : Time}
    {w : Work}

theorem Informed.resume (h : Informed d f) (ht : f.thread = some ⟨.call e k, st, i⟩)
    (hn : Numbered f'.rows) {r : Answer e} (ha : ∀ s ∈ (st.next e r).known, Agrees f'.rows s)
    (hd : ((st.next e r).known.map GameServer.id).Nodup) : Informed d (f'.resume st e k r) := by
  have hk := (h.keeps _ ht).2 r
  refine ⟨by rw [resume_rows]; exact hn, ?_, ?_, ?_⟩ <;> intro t ht' <;> cases resume_thread ht'
  · exact hk
  · rw [resume_rows]
    exact ha
  · exact hd

def Fleet.cur (f : Fleet) : Option Work := f.thread.bind fun t => t.stage.cur

theorem Informed.resume_cur (hi : Informed d f) (ht : f.thread = some ⟨.call e k, st, i⟩)
    (r : Answer e) : (f'.resume st e k r).cur = (st.next e r).cur := by
  have hk := (hi.keeps _ ht).2 r
  unfold Fleet.resume
  split
  · rename_i a hd
    rw [hd] at hk
    exact (show (st.next e r).cur = none from hk).symm
  · rfl

theorem Stage.next_known (now : Time) (ha : st.allows cfg e) (hw : e.writes now = none)
    (hr : e ≠ .listRunning) (hre : e ≠ .listReconcilable) (r : Answer e) :
    (st.next e r).known.Sublist st.known := by
  have hs : ∀ w : Work, st.cur = some w → (w.next e r).row = w.row →
      ((⟨st.todo, st.cur.map fun w => w.next e r⟩ : Stage).known).Sublist st.known := by
    intro w hc hro
    simp [Stage.known, hc, hro]
  cases e with
  | enter id =>
    obtain ⟨hc, s, rest, ht, -⟩ := ha
    simp [Stage.next, Stage.known, ht, hc, Work.on]
  | leave id => simp [Stage.next, Stage.known]
  | listRunning => exact absurd rfl hr
  | listReconcilable => exact absurd rfl hre
  | _ =>
    first
    | cases hw; done
    | (obtain ⟨w, hc, -⟩ := ha
       exact hs w hc (Work.next_core_of_not_writes hw r))

theorem Stage.allows_cur (ha : st.allows cfg e) (hc : st.cur = some w) :
    ((∃ id, e = .leave id) ∧ w.owed = none ∧ (cfg.meter = true → w.due = false)) ∨
      (w.may cfg e ∧ ∀ r : Answer e, (st.next e r).cur = some (w.next e r)) := by
  cases e with
  | enter id =>
    rw [ha.1] at hc
    cases hc
  | listRunning | listReconcilable =>
    rw [show st.cur = none from ha] at hc
    cases hc
  | leave id =>
    obtain ⟨w', hc', -, -, ho⟩ := ha
    rw [hc] at hc'
    cases hc'
    exact .inl ⟨⟨id, rfl⟩, ho⟩
  | _ =>
    obtain ⟨w', hc', hm⟩ := ha
    rw [hc] at hc'
    cases hc'
    exact .inr ⟨hm, fun r => by simp [Stage.next, hc]⟩

theorem Stage.writes_cur (ha : st.allows cfg e) (hw : e.writes now = some (id, g)) :
    ∃ w, st.cur = some w ∧ w.may cfg e ∧ id = w.row.id ∧
      ∀ r : Answer e, st.next e r = ⟨st.todo, some (w.next e r)⟩ := by
  cases e <;> cases hw <;>
    (obtain ⟨w, hc, hm⟩ := ha
     exact ⟨w, hc, hm, w.may_writes now hm rfl, fun r => by simp [Stage.next, hc]⟩)

theorem Stage.known_cur (h : st.cur = some w) : st.known = w.row :: st.todo := by
  simp [Stage.known, h]

theorem Informed.answered (h : Informed d f) (ht : f.thread = some ⟨.call e k, st, i⟩)
    (fault : Option String) (order : Order) :
    Numbered (f.answer fault order e).2.rows ∧
      (∀ s ∈ (st.next e (f.answer fault order e).1).known,
        Agrees (f.answer fault order e).2.rows s) ∧
      ((st.next e (f.answer fault order e).1).known.map GameServer.id).Nodup := by
  have ha : st.allows d.cfg e := (h.keeps _ ht).1
  have hag : ∀ s ∈ st.known, Agrees f.rows s := h.agrees _ ht
  have hd : (st.known.map GameServer.id).Nodup := h.distinct _ ht
  have hl : ∀ p, (∀ s ∈ (order.arrange (f.rows.filter p)).take listLimit, Agrees f.rows s) ∧
      (((order.arrange (f.rows.filter p)).take listLimit).map GameServer.id).Nodup := fun p =>
    ⟨fun s hs => agrees_of_mem h.numbered ((listed h.numbered order p).1 s hs).1,
      (listed h.numbered order p).2⟩
  cases hw : e.writes f.clock with
  | none =>
    rw [answer_rows_of_not_writes hw]
    refine ⟨h.numbered, ?_⟩
    by_cases hr : e = .listRunning
    · subst hr
      cases fault with
      | some text => simp [Fleet.answer, Fleet.read, Stage.next, Stage.known]
      | none => simpa [Fleet.answer, Fleet.read, Stage.next, Stage.known, listRunning]
          using hl GameServer.running
    by_cases hre : e = .listReconcilable
    · subst hre
      cases fault with
      | some text => simp [Fleet.answer, Fleet.read, Stage.next, Stage.known]
      | none => simpa [Fleet.answer, Fleet.read, Stage.next, Stage.known, listReconcilable]
          using hl GameServer.reconcilable
    have hsu := next_known _ ha hw hr hre (f.answer fault order e).1
    exact ⟨fun s hs => hag s (hsu.subset hs), hd.sublist (hsu.map _)⟩
  | some write =>
    obtain ⟨id, g⟩ := write
    obtain ⟨w, hc, -, hi, hn⟩ := writes_cur ha hw
    have hk := known_cur hc
    rw [hk] at hag hd
    rw [hn, known_cur rfl]
    simp only [map_cons, nodup_cons, mem_map, not_exists, not_and] at hd ⊢
    have hro : Agrees f.rows w.row := hag _ mem_cons_self
    cases fault with
    | some text =>
      have hcore := w.next_core_of_fault order hw text
      rw [answer_rows_of_fault, id_of_core hcore]
      refine ⟨h.numbered, fun s hs => ?_, hd⟩
      rcases mem_cons.mp hs with rfl | hto
      · exact hro.of_core hcore
      · exact hag s (.tail _ hto)
    | none =>
      have hcore := w.next_core order hw
      have hne : (w.next e (f.answer none order e).1).row.id = w.row.id :=
        (id_of_core hcore).trans (Call.writes_core hw rfl).2
      rw [answer_rows_of_writes hw, hne]
      refine ⟨h.numbered.updateRow id fun s => (Call.writes_core hw (s := s) rfl).2,
        fun s hs => ?_, hd⟩
      rcases mem_cons.mp hs with rfl | hto
      · exact hro.written hw hi hcore
      · refine (hag s (.tail _ hto)).updateRow_ne fun he => ?_
        exact hd.1 s hto (he.symm.trans hi)

theorem Informed.command {op : Op} {k : Answer (.command h op) → Act Unit} (hi : Informed d f)
    (ht : f.thread = some ⟨.call (.command h op) k, st, i⟩) (hr : f'.rows = f.rows)
    (r : Except Err (Option VMView)) : Informed d (f'.resume st (.command h op) k r) := by
  have hsu := next_known 0 (hi.keeps _ ht).1 rfl (by simp) (by simp) r
  refine hi.resume ht (hr ▸ hi.numbered) (fun s hs => ?_) ((hi.distinct _ ht).sublist (hsu.map _))
  rw [hr]
  exact hi.agrees _ ht s (hsu.subset hs)

/-- What the reconciler knows of a row stays what the row says, whoever moves. -/
theorem Informed.step (h : Informed d f) (hs : step d f l = some f') : Informed d f' := by
  by_cases hl : l.isReconciler = true
  · cases l with
    | tick =>
      rw [(tick_eq hs).2]
      refine ⟨h.numbered, ?_, ?_, ?_⟩ <;> intro t ht <;> cases ht
      · exact reconcileOnce_keeps d.cfg
      · simp [Stage.start, Stage.known]
      · simp [Stage.start, Stage.known]
    | act fault order =>
      obtain ⟨e, k, st, ht, -, rfl⟩ := actStep_eq hs
      obtain ⟨hn, ha, hd⟩ := h.answered ht fault order
      refine h.resume ht ?_ ?_ hd
      · exact hn
      · exact ha
    | issue =>
      obtain ⟨host, op, k, st, ht, ⟨-, rfl⟩ | ⟨c, -, rfl⟩⟩ := issueStep_eq hs
      · exact h.command ht rfl _
      have hk := h.keeps _ ht
      have ha := h.agrees _ ht
      have hd := h.distinct _ ht
      refine ⟨h.numbered, ?_, ?_, ?_⟩ <;> intro t ht' <;> cases ht'
      · exact hk
      · exact ha
      · exact hd
    | collect =>
      obtain ⟨host, op, k, st, i, c, r, ht, -, -, rfl⟩ := collectStep_eq hs
      refine h.command ht ?_ r
      rfl
    | expire =>
      obtain ⟨host, op, k, st, i, c, ht, -, -, -, rfl⟩ := expireStep_eq hs
      refine h.command ht ?_ _
      rfl
    | restartControl =>
      cases hs
      exact ⟨h.numbered, (fun t ht => by cases ht), (fun t ht => by cases ht),
        (fun t ht => by cases ht)⟩
    | _ => cases hl
  · have hl : l.isReconciler = false := by simpa using hl
    have hm := step_rows hs hl
    have hth := step_thread hs hl
    refine ⟨h.numbered.move hm, ?_, ?_, ?_⟩ <;> intro t ht <;> rw [hth] at ht
    · exact h.keeps t ht
    · exact fun s hs => (h.agrees t ht s hs).move hm
    · exact h.distinct t ht

theorem Informed.init : Informed d .init :=
  ⟨fun i r hr => by simp [Fleet.init] at hr, (fun t ht => by cases ht),
    (fun t ht => by cases ht), (fun t ht => by cases ht)⟩

structure GameServer.Coherent (s : GameServer) : Prop where
  placed : s.hostID.isSome → s.deleted = false
  hosted : s.vmID.isSome → s.hostID.isSome
  stopped : s.status = .stopped → s.vmID = none

theorem GameServer.Coherent.of_core (h : s.Coherent) (hcore : r.core = s.core) : r.Coherent := by
  simp only [GameServer.core, Core.mk.injEq] at hcore
  obtain ⟨-, -, -, hs, hh, hv, hd⟩ := hcore
  constructor
  · rw [hh, hd]
    exact h.placed
  · rw [hv, hh]
    exact h.hosted
  · rw [hs, hv]
    exact h.stopped

structure Stage.Live (st : Stage) : Prop where
  todo : ∀ s ∈ st.todo, s.deleted = false
  cur : ∀ w, st.cur = some w → w.retired = false → w.row.deleted = false

theorem Work.next_live (h : w.retired = false → w.row.deleted = false) (e : Call) (r : Answer e) :
    (w.next e r).retired = false → (w.next e r).row.deleted = false := by
  cases e with
  | softDelete id => cases r <;> simp_all [Work.next]
  | markLost id message =>
    cases r with
    | error e => exact h
    | ok u =>
      simp only [Work.next, GameServer.markedLost]
      split <;> exact h
  | _ => first | exact h | (cases r <;> exact h)

theorem Stage.Live.next {st : Stage} (h : st.Live) {e : Call} {r : Answer e}
    (hl : ∀ s ∈ (st.next e r).todo, s ∈ st.todo ∨ s.deleted = false)  :
    (st.next e r).Live := by
  refine ⟨fun s hs => (hl s hs).elim (h.todo s) id, ?_⟩
  have hc : ∀ w', (st.cur.map fun w => w.next e r) = some w' → w'.retired = false →
      w'.row.deleted = false := by
    intro w' hw'
    obtain ⟨w, hw, rfl⟩ := Option.map_eq_some_iff.mp hw'
    exact Work.next_live (h.cur w hw) e r
  cases e with
  | enter id =>
    simp only [Stage.next]
    split
    · rename_i s rest ht
      rintro w ⟨⟩ -
      exact h.todo s (by simp [ht])
    · exact h.cur
  | leave id => rintro w ⟨⟩
  | listRunning | listReconcilable => cases r <;> rintro w ⟨⟩
  | _ => exact hc

theorem Work.writes_coherent (hm : w.may cfg e) (hw : e.writes now = some (id, g))
    (hl : w.retired = false → w.row.deleted = false) (hr : r.Coherent)
    (hcore : r.core = w.row.core) : (g r).Coherent := by
  simp only [GameServer.core, Core.mk.injEq] at hcore
  obtain ⟨-, -, -, -, hh, hv, hd⟩ := hcore
  cases e <;> cases hw
  case markLost =>
    simp only [GameServer.markedLost]
    split
    · exact ⟨hr.placed, by simp, by simp⟩
    · exact hr
  case markHealth =>
    simp only [GameServer.markedHealth]
    split
    · exact ⟨hr.placed, hr.hosted, hr.stopped⟩
    · exact hr
  case markBackedUp => exact ⟨hr.placed, hr.hosted, hr.stopped⟩
  case markStatus => exact ⟨hr.placed, hr.hosted, fun hs => absurd hs hm.2.2.2⟩
  case markRunning =>
    have hp : r.hostID.isSome := by
      rw [hh]
      exact hm.2.2.1
    exact ⟨hr.placed, fun _ => hp, by simp [GameServer.markedRunning]⟩
  case assignHost =>
    have hk : r.deleted = false := hd.trans (hl hm.2.2.2.2.2)
    exact ⟨fun _ => hk, fun _ => rfl, hr.stopped⟩
  case unassignHost =>
    have hn : r.vmID = none := hv.trans hm.2.2.1
    exact ⟨by simp, by simp [hn], fun _ => hn⟩
  case markStopped => constructor <;> simp [GameServer.markedStopped]
  case softDelete => constructor <;> simp [GameServer.softDeleted]

structure Coherent (f : Fleet) : Prop where
  rows : ∀ r ∈ f.rows, r.Coherent
  live : ∀ t, f.thread = some t → t.stage.Live

theorem coherent_move {rows rows' : List GameServer} (hm : RowsMove rows rows')
    (h : ∀ r ∈ rows, r.Coherent) : ∀ r ∈ rows', r.Coherent := by
  intro r hr
  cases hm with
  | same => exact h r hr
  | create n =>
    rcases mem_append.mp hr with ho | hn
    · exact h r ho
    rw [mem_singleton] at hn
    subst hn
    constructor <;> simp [NewServer.row]
  | edit id g hg =>
    obtain ⟨i, hi⟩ := mem_iff_getElem?.mp hr
    rw [getElem?_updateRow] at hi
    split at hi
    · obtain ⟨r', hr', rfl⟩ := Option.map_eq_some_iff.mp hi
      exact (h r' (mem_of_getElem? hr')).of_core (hg r')
    · exact h r (mem_of_getElem? hi)

theorem Coherent.resume (hr : ∀ r ∈ f'.rows, r.Coherent) {r : Answer e} (hl : (st.next e r).Live) :
    Coherent (f'.resume st e k r) := by
  refine ⟨by rw [resume_rows]; exact hr, fun t ht => ?_⟩
  cases resume_thread ht
  exact hl

theorem Coherent.act (h : Coherent f) (hi : Informed d f) (ht : f.thread = some ⟨.call e k, st, i⟩)
    (fault : Option String) (order : Order) :
    (∀ r ∈ (f.answer fault order e).2.rows, r.Coherent) ∧
      (st.next e (f.answer fault order e).1).Live := by
  have ha : st.allows d.cfg e := (hi.keeps _ ht).1
  have hl : st.Live := h.live _ ht
  constructor
  · cases hw : e.writes f.clock with
    | none =>
      rw [answer_rows_of_not_writes hw]
      exact h.rows
    | some write =>
      obtain ⟨id, g⟩ := write
      cases fault with
      | some text =>
        rw [answer_rows_of_fault]
        exact h.rows
      | none =>
        rw [answer_rows_of_writes hw]
        obtain ⟨w, hc, hm, hid, -⟩ := writes_cur ha hw
        obtain ⟨r0, hr0, hcore⟩ := hi.agrees _ ht w.row (by simp [Stage.known, hc])
        intro r hr
        obtain ⟨j, hj⟩ := mem_iff_getElem?.mp hr
        rw [getElem?_updateRow] at hj
        split at hj
        · rename_i hidj
          rw [← hidj, hid, hr0] at hj
          cases hj
          exact Work.writes_coherent hm hw (hl.cur w hc) (h.rows _ (mem_of_getElem? hr0)) hcore
        · exact h.rows r (mem_of_getElem? hj)
  · have hli : ∀ p : GameServer → Bool, (∀ s, p s = true → s.deleted = false) →
        ∀ s ∈ (order.arrange (f.rows.filter p)).take listLimit, s.deleted = false :=
      fun p hp s hs => hp s ((listed hi.numbered order p).1 s hs).2
    refine hl.next fun s hs => ?_
    cases e with
    | listRunning =>
      cases fault with
      | some text => simp [Fleet.answer, Fleet.read, Stage.next] at hs
      | none => exact .inr (hli GameServer.running (by simp [GameServer.running]; tauto) s hs)
    | listReconcilable =>
      cases fault with
      | some text => simp [Fleet.answer, Fleet.read, Stage.next] at hs
      | none =>
        exact .inr (hli GameServer.reconcilable (by simp [GameServer.reconcilable]; tauto) s hs)
    | enter id =>
      obtain ⟨-, s', rest, hto, -⟩ := ha
      simp only [Stage.next, hto] at hs
      exact .inl (by rw [hto]; exact mem_cons_of_mem _ hs)
    | _ => exact .inl hs

/-- No step leaves a VM without a host, or a host with a deleted row. -/
theorem Coherent.step (h : Coherent f) (hi : Informed d f) (hs : step d f l = some f') :
    Coherent f' := by
  by_cases hl : l.isReconciler = true
  · cases l with
    | tick =>
      rw [(tick_eq hs).2]
      refine ⟨h.rows, fun t ht => ?_⟩
      cases ht
      exact ⟨by simp [Stage.start], by simp [Stage.start]⟩
    | act fault order =>
      obtain ⟨e, k, st, ht, -, rfl⟩ := actStep_eq hs
      obtain ⟨hr, hli⟩ := h.act hi ht fault order
      exact .resume (by exact hr) hli
    | issue =>
      obtain ⟨host, op, k, st, ht, ⟨-, rfl⟩ | ⟨c, -, rfl⟩⟩ := issueStep_eq hs
      · exact .resume h.rows ((h.live _ ht).next fun s hs => .inl hs)
      have hli := h.live _ ht
      refine ⟨h.rows, fun t ht' => ?_⟩
      cases ht'
      exact hli
    | collect =>
      obtain ⟨host, op, k, st, i, c, r, ht, -, -, rfl⟩ := collectStep_eq hs
      exact .resume (by exact h.rows) ((h.live _ ht).next fun s hs => .inl hs)
    | expire =>
      obtain ⟨host, op, k, st, i, c, ht, -, -, -, rfl⟩ := expireStep_eq hs
      exact .resume (by exact h.rows) ((h.live _ ht).next fun s hs => .inl hs)
    | restartControl =>
      cases hs
      exact ⟨h.rows, fun t ht => by cases ht⟩
    | _ => cases hl
  · have hl : l.isReconciler = false := by simpa using hl
    refine ⟨coherent_move (step_rows hs hl) h.rows, fun t ht => ?_⟩
    rw [step_thread hs hl] at ht
    exact h.live t ht

theorem Coherent.init : Coherent .init :=
  ⟨by simp [Fleet.init], fun t ht => by cases ht⟩

end

end Craftling.Control

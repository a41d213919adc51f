import Craftling.Control.Reconciler

namespace Craftling.Control
open Effects Prog

/-- Where a server's reservation is: as the row says, taken on a host and not yet on
record, to be given back again, or returned while the row still names the host. -/
inductive Books where
  | settled
  | reserved (h : HostID)
  | undo (h : HostID)
  | released (h : HostID)
  deriving DecidableEq, Repr

/-- What the reconciler knows while it works on a server: the row, the last command and
what became of it, and what the inventory said of the server's host. `owed` is a VM that an
agent has brought up and that is not yet on record. `due` is set while the row has lost its VM
and the server's interval is still to be closed. -/
structure Work where
  row : GameServer
  books : Books
  said : Option (Op × Except Err (Option VMView))
  heard : Option (Option Time)
  time : Option Time
  ready : Option Bool
  owed : Option VMID
  retired : Bool
  due : Bool

def Work.on (s : GameServer) : Work := ⟨s, .settled, none, none, none, none, none, false, false⟩

def Op.brings : Op → Option VMView → Option VMID
  | .provision _, view => (instanceOf view).vmID
  | _, _ => none

/-- The probe of the server's VM failed and its host was found to have been silent for
longer than the grace, or to be unknown. -/
def Work.silent (cfg : Config) (w : Work) : Prop :=
  w.row.hostID = none ∨
    ∃ v e, w.row.vmID = some v ∧ w.said = some (.status v, .error e) ∧
      (w.heard = some none ∨ ∃ last now, w.heard = some (some last) ∧ w.time = some now ∧
        now - last > cfg.hostDeadAfter)

def Work.dead (w : Work) : Prop :=
  w.row.vmID = none ∨
    ∃ v view, w.row.vmID = some v ∧ w.said = some (.status v, .ok view) ∧ stateOf view ≠ .running

def Work.returned (w : Work) : Prop :=
  (w.row.hostID = none ∧ w.books = .settled) ∨
    ∃ h, w.row.hostID = some h ∧ w.books = .released h

def Work.evicted (w : Work) : Prop :=
  w.row.vmID = none ∨
    ∃ v view, w.row.vmID = some v ∧ w.said = some (.evict v, .ok view)

def Work.deprovisioned (w : Work) : Prop :=
  w.row.vmID = none ∨ w.row.hostID = none ∨
    ∃ v, w.row.vmID = some v ∧ ((∃ view, w.said = some (.deprovision v, .ok view)) ∨
      (∃ e, w.said = some (.deprovision v, .error e)) ∧ w.ready = some false)

def Work.booted (w : Work) (vm : Option VMID) : Prop :=
  ∃ view, vm = (instanceOf view).vmID ∧
    ((w.row.vmID = none ∧ ∃ spec, spec.serverID = w.row.id ∧
        w.said = some (.provision spec, .ok view)) ∨
      ∃ v, w.row.vmID = some v ∧ w.said = some (.start v, .ok view))

def Work.mayCommand (w : Work) : Op → Prop
  | .provision spec => spec.serverID = w.row.id ∧ w.row.vmID = none
  | .start v | .stop v | .snapshot v | .evict v | .deprovision v | .status v => w.row.vmID = some v
  | .logs _ => False
  | .whitelist _ _ => False

def Work.may (cfg : Config) (w : Work) : Call → Prop
  | .enter _ => False
  | .leave _ => False
  | .listRunning => False
  | .listReconcilable => False
  | .now => True
  | .listHosts => True
  | .listReady => True
  | .startRunning id => id = w.row.id ∧ cfg.meter = true ∧ w.row.status = .running
  | .stopRunning id | .markHealth id _ _ _ | .markBackedUp id => id = w.row.id
  | .markLost id _ => id = w.row.id ∧ w.books = .settled ∧ (w.silent cfg ∨ w.dead)
  | .markStatus id status _ =>
    id = w.row.id ∧ w.books = .settled ∧ status ≠ .running ∧ status ≠ .stopped
  | .markRunning id vm _ _ =>
    id = w.row.id ∧ w.books = .settled ∧ w.row.hostID.isSome ∧ w.booted vm ∧
      (w.owed = none ∨ w.owed = vm)
  | .assignHost id h =>
    id = w.row.id ∧ w.books = .reserved h ∧ w.row.hostID = none ∧ w.row.vmID = none ∧
      w.owed = none ∧ w.retired = false
  | .unassignHost id => id = w.row.id ∧ w.returned ∧ w.row.vmID = none ∧ w.owed = none
  | .markStopped id => id = w.row.id ∧ w.returned ∧ w.evicted ∧ w.owed = none
  | .softDelete id => id = w.row.id ∧ w.returned ∧ w.deprovisioned ∧ w.owed = none
  | .reserve _ cpus memMB =>
    w.books = .settled ∧ w.row.hostID = none ∧ w.row.vmID = none ∧ cpus = w.row.cpus ∧
      memMB = w.row.memoryMB ∧ w.retired = false
  | .release h cpus memMB =>
    cpus = w.row.cpus ∧ memMB = w.row.memoryMB ∧
      (w.books = .undo h ∨ w.books = .settled ∧ w.row.hostID = some h)
  | .command h op =>
    w.books = .settled ∧ w.row.hostID = some h ∧ w.mayCommand op ∧ w.owed = none

/-- What an answer adds. A failed write leaves the row as it was. -/
def Work.next (w : Work) : (e : Call) → Answer e → Work
  | .now, t => { w with time := some t }
  | .listHosts, .ok all =>
    { w with heard := w.row.hostID.map fun h =>
        (all.find? (·.id = h)).map Host.lastHeartbeatAt }
  | .listReady, .ok ready => { w with ready := w.row.hostID.map fun h => ready.any (·.id = h) }
  | .markLost _ message, .ok _ => { w with row := w.row.markedLost message, due := true }
  | .markStatus _ status message, .ok _ => { w with row := w.row.marked status message }
  | .markRunning _ vm host port, .ok _ =>
    { w with row := w.row.markedRunning vm host port, owed := none }
  | .markRunning _ _ _ _, .error _ => { w with owed := none }
  | .assignHost _ h, .ok _ =>
    { w with row := { w.row with hostID := some h }, books := .settled }
  | .assignHost _ h, .error _ => { w with books := .undo h }
  | .unassignHost _, .ok _ => { w with row := { w.row with hostID := none }, books := .settled }
  | .unassignHost _, .error _ => { w with books := .settled }
  | .markStopped _, .ok _ => { w with row := w.row.markedStopped, books := .settled, due := true }
  | .markStopped _, .error _ => { w with books := .settled }
  | .softDelete _, .ok _ =>
    { w with row := w.row.softDeleted, books := .settled, retired := true, due := true }
  | .softDelete _, .error _ => { w with books := .settled }
  | .reserve h _ _, .ok _ => { w with books := .reserved h }
  | .release h _ _, _ =>
    { w with books := if w.books = .settled then .released h else .settled }
  | .stopRunning _, _ => { w with due := false }
  | .command _ op, .ok view => { w with said := some (op, .ok view), owed := op.brings view }
  | .command _ op, .error e => { w with said := some (op, .error e) }
  | _, _ => w

structure Stage where
  todo : List GameServer
  cur : Option Work

def Stage.start : Stage := ⟨[], none⟩

def Stage.allows (cfg : Config) (st : Stage) : Call → Prop
  | .enter id => st.cur = none ∧ ∃ s rest, st.todo = s :: rest ∧ s.id = id
  | .leave id => ∃ w, st.cur = some w ∧ w.row.id = id ∧ w.books = .settled ∧ w.owed = none ∧
      (cfg.meter = true → w.due = false)
  | .listRunning => st.cur = none
  | .listReconcilable => st.cur = none
  | e => ∃ w, st.cur = some w ∧ w.may cfg e

def Stage.next (st : Stage) : (e : Call) → Answer e → Stage
  | .enter _, _ =>
    match st.todo with
    | s :: rest => ⟨rest, some (.on s)⟩
    | [] => st
  | .leave _, _ => { st with cur := none }
  | .listRunning, .ok rows => ⟨rows, none⟩
  | .listRunning, .error _ => ⟨[], none⟩
  | .listReconcilable, .ok rows => ⟨rows, none⟩
  | .listReconcilable, .error _ => ⟨[], none⟩
  | e, r => { st with cur := st.cur.map fun w => w.next e r }

abbrev Keeps (cfg : Config) (fin : Stage → α → Prop) (st : Stage) (p : Act α) : Prop :=
  p.Follows (Stage.allows cfg) Stage.next fin st

/-- Working on a server from what `w` knows, a program makes only calls that are in order
and ends with a result and knowledge related by `Q`. -/
def Does (cfg : Config) (w : Work) (p : Act α) (Q : Work → α → Prop) : Prop :=
  ∀ todo, Keeps cfg (fun st a => ∃ w', st = ⟨todo, some w'⟩ ∧ Q w' a) ⟨todo, some w⟩ p

section Does

variable {w : Work} {e : Call}

section

variable {Q : Work → α → Prop}

theorem Does.done (h : Q w a) : Does cfg w (.done a) Q :=
  fun _ => ⟨w, rfl, h⟩

theorem Does.call (hm : w.may cfg e) (h : ∀ r, Does cfg (w.next e r) (k r) Q) :
    Does cfg w (.call e k) Q := by
  intro todo
  have ha : Stage.allows cfg ⟨todo, some w⟩ e := by
    cases e <;> first | exact hm.elim | exact ⟨w, rfl, hm⟩
  have hn : ∀ r, Stage.next ⟨todo, some w⟩ e r = ⟨todo, some (w.next e r)⟩ := by
    intro r
    cases e <;> first | exact hm.elim | rfl
  refine ⟨ha, fun r => ?_⟩
  rw [hn r]
  exact h r todo

theorem not_keeps_of_shorter (hs : st.todo.length < todo.length) :
    ¬ Keeps cfg (fun st a => ∃ w', st = ⟨todo, some w'⟩ ∧ Q w' a) st p := by
  induction p generalizing st with
  | done a =>
    rintro ⟨w', hst, _⟩
    rw [hst] at hs
    exact Nat.lt_irrefl _ hs
  | call e k ih =>
    intro h
    obtain ⟨r, hr⟩ : ∃ r : Answer e, (st.next e r).todo.length ≤ st.todo.length := by
      cases e with
      | enter id =>
        refine ⟨(), ?_⟩
        simp only [Stage.next]
        split
        · rename_i ht
          rw [ht]
          exact Nat.le_succ _
        · exact Nat.le_refl _
      | leave id => exact ⟨(), Nat.le_refl _⟩
      | now => exact ⟨0, Nat.le_refl _⟩
      | listRunning | listReconcilable => exact ⟨.error .notFound, Nat.zero_le _⟩
      | _ => exact ⟨.error .notFound, Nat.le_refl _⟩
    exact ih r (Nat.lt_of_le_of_lt hr hs) (h.2 r)

/-- A program that works on a server makes a call that is in order, and goes on with what it
then knows: it neither leaves the server nor lists others. -/
theorem Does.of_call (h : Does cfg w (.call e k) Q) :
    w.may cfg e ∧ ∀ r, Does cfg (w.next e r) (k r) Q := by
  cases e with
  | enter id => cases (h []).1.1
  | listRunning | listReconcilable => cases (h []).1
  | leave id =>
    exfalso
    have hl : Keeps cfg (fun st a => ∃ w', st = ⟨[w.row], some w'⟩ ∧ Q w' a) ⟨[w.row], none⟩
        (k ()) := (h [w.row]).2 ()
    cases hp : k () with
    | done a =>
      rw [hp] at hl
      obtain ⟨w', hs, -⟩ := hl
      cases hs
    | call e' k' =>
      rw [hp] at hl
      obtain ⟨ha, hr⟩ := hl
      cases e' with
      | enter id' => exact not_keeps_of_shorter (by simp [Stage.next]) (hr ())
      | listRunning => exact not_keeps_of_shorter (by simp [Stage.next]) (hr (.error .notFound))
      | listReconcilable =>
        exact not_keeps_of_shorter (by simp [Stage.next]) (hr (.error .notFound))
      | _ =>
        obtain ⟨w', hc, -⟩ := ha
        cases hc
  | _ =>
    obtain ⟨w', hc, hm⟩ := (h []).1
    cases hc
    exact ⟨hm, fun r todo => (h todo).2 r⟩

end

theorem Does.mono {Q Q' : Work → α → Prop} (hl : ∀ w a, Q w a → Q' w a) (h : Does cfg w p Q) :
    Does cfg w p Q' := by
  intro todo
  refine Prog.Follows.mono ?_ (h todo)
  rintro st a ⟨w', rfl, hq⟩
  exact ⟨w', rfl, hl w' a hq⟩

theorem Does.bind {Q : Work → β → Prop} (h : Does cfg w p fun w' a => Does cfg w' (f a) Q) :
    Does cfg w (p.bind f) Q := by
  intro todo
  refine Prog.Follows.bind (Prog.Follows.mono ?_ (h todo))
  rintro st a ⟨w', rfl, hr⟩
  exact hr todo

theorem Does.onOk {Q : Work → Except Err β → Prop} {next : α → Act (Except Err β)}
    (he : ∀ e, r = .error e → Q w (.error e)) (ho : ∀ a, r = .ok a → Does cfg w (next a) Q) :
    Does cfg w (onOk r next) Q := by
  cases r with
  | error e => exact .done (he e rfl)
  | ok a => exact ho a rfl

end Does

/-- Where calls go as `rel` says, the program takes `T` to a state and a result that `Q`
relates. -/
def Brings (rel : S → (e : Call) → Answer e → S → Prop) (T : S) (p : Act α) (Q : S → α → Prop) :
    Prop :=
  p.Ensures rel Q T

section Brings

variable {rel : S → (e : Call) → Answer e → S → Prop}

theorem Brings.done {Q : S → α → Prop} (h : Q T a) : Brings rel T (.done a) Q := h

theorem Brings.call {Q : S → α → Prop} (h : ∀ r T', rel T e r T' → Brings rel T' (k r) Q) :
    Brings rel T (.call e k) Q := h

theorem Brings.mono {Q Q' : S → α → Prop} (h : Brings rel T p Q) (hl : ∀ T' a, Q T' a → Q' T' a) :
    Brings rel T p Q' :=
  Prog.Ensures.mono hl h

theorem Brings.bind {Q : S → β → Prop} (h : Brings rel T p fun T' a => Brings rel T' (f a) Q) :
    Brings rel T (p.bind f) Q :=
  Prog.Ensures.bind h

theorem Brings.and {Q Q' : S → α → Prop} (h : Brings rel T p Q) (h' : Brings rel T p Q') :
    Brings rel T p fun T' a => Q T' a ∧ Q' T' a :=
  Prog.Ensures.and h h'

theorem Brings.onOk {Q : S → Except Err β → Prop} {next : α → Act (Except Err β)}
    (he : ∀ e, r = .error e → Q T (.error e)) (ho : ∀ a, r = .ok a → Brings rel T (next a) Q) :
    Brings rel T (onOk r next) Q := by
  cases r with
  | error e => exact he e rfl
  | ok a => exact ho a rfl

end Brings

/-- The record in the program's hands says what the row says, up to the columns that
users and the probes write, and the reservation is where the row says. -/
structure Knows (w : Work) (s : GameServer) : Prop where
  id : w.row.id = s.id
  hostID : w.row.hostID = s.hostID
  vmID : w.row.vmID = s.vmID
  cpus : w.row.cpus = s.cpus
  memoryMB : w.row.memoryMB = s.memoryMB
  books : w.books = .settled
  owed : w.owed = none
  kept : w.retired = false
  paid : w.due = false

theorem Knows.on (s : GameServer) : Knows (.on s) s := ⟨rfl, rfl, rfl, rfl, rfl, rfl, rfl, rfl, rfl⟩

def Closable (cfg : Config) (id : ServerID) (w : Work) : Prop :=
  w.row.id = id ∧ w.books = .settled ∧ w.owed = none ∧ (cfg.meter = true → w.due = false)

variable {s : GameServer} {w : Work}

theorem Knows.command {op : Op} (hw : Knows w s) (ho : ∀ view, op.brings view = none) :
    Knows (w.next (.command h op) r) s := by
  cases r with
  | error e => exact ⟨hw.id, hw.hostID, hw.vmID, hw.cpus, hw.memoryMB, hw.books, hw.owed, hw.kept, hw.paid⟩
  | ok view =>
    exact ⟨hw.id, hw.hostID, hw.vmID, hw.cpus, hw.memoryMB, hw.books, ho view, hw.kept, hw.paid⟩

theorem Knows.closable (h : Knows w s) : Closable cfg s.id w :=
  ⟨h.id, h.books, h.owed, fun _ => h.paid⟩

section Liveness

variable {w : Work} {s : GameServer} {Q : Work → Unit → Prop}

theorem stopBilling_does {id : ServerID} (hi : w.row.id = id) (hb : w.books = .settled)
    (ho : w.owed = none) : Does cfg w (stopBilling cfg id) fun w' _ => Closable cfg id w' := by
  unfold stopBilling
  split
  · exact .call hi.symm fun _ => .done ⟨hi, hb, ho, fun _ => rfl⟩
  · rename_i hm
    exact .done ⟨hi, hb, ho, fun h => absurd h hm⟩

theorem startBilling_does (hw : Closable cfg s.id w) (hr : w.row.status = .running) :
    Does cfg w (startBilling cfg s) fun w' _ => Closable cfg s.id w' := by
  unfold startBilling
  split
  · rename_i hm
    exact .call ⟨hw.1.symm, hm, hr⟩ fun _ => .done hw
  · exact .done hw

theorem markedLost_id (s : GameServer) (message : String) : (s.markedLost message).id = s.id := by
  unfold GameServer.markedLost
  split <;> rfl

theorem markLost_does (hw : Knows w s) (hl : w.silent cfg ∨ w.dead) (message : String) :
    Does cfg w (markLost cfg s message) fun w' _ => Closable cfg s.id w' := by
  refine .call ⟨hw.id.symm, hw.books, hl⟩ fun r => ?_
  cases r with
  | error e => exact .done hw.closable
  | ok u =>
    have hi : (w.row.markedLost message).id = s.id := (markedLost_id _ _).trans hw.id
    exact stopBilling_does hi hw.books hw.owed

def Work.unanswered (w : Work) : Prop :=
  w.row.hostID = none ∨ ∃ v e, w.row.vmID = some v ∧ w.said = some (.status v, .error e)

theorem status_does (hw : Knows w s) : Does cfg w (Remote.status s) fun w' r => Knows w' s ∧
      match r with
      | .error _ => w'.unanswered
      | .ok report => report.state ≠ .running → w'.dead := by
  unfold Remote.status
  cases hv : s.vmID with
  | none => exact .done ⟨hw, fun _ => .inl (hw.vmID.trans hv)⟩
  | some v =>
    cases hh : s.hostID with
    | none =>
      simp only [assignedHost, hh, onOk]
      exact .done ⟨hw, .inl (hw.hostID.trans hh)⟩
    | some h =>
      simp only [assignedHost, hh, onOk]
      have hvm : w.row.vmID = some v := hw.vmID.trans hv
      refine .call ⟨hw.books, hw.hostID.trans hh, hvm, hw.owed⟩ fun r => ?_
      have hw' : Knows (w.next (.command h (.status v)) r) s := hw.command fun _ => rfl
      cases r with
      | error e => exact .done ⟨hw', .inr ⟨v, e, hvm, rfl⟩⟩
      | ok view => exact .done ⟨hw', fun hs => .inr ⟨v, view, hvm, rfl, hs⟩⟩

theorem hostDeadTooLong_does (hw : Knows w s) (hu : w.unanswered) :
    Does cfg w (hostDeadTooLong cfg s) fun w' r => Knows w' s ∧ (r = .ok true → w'.silent cfg) := by
  unfold hostDeadTooLong
  cases hh : s.hostID with
  | none => exact .done ⟨hw, fun _ => .inl (hw.hostID.trans hh)⟩
  | some h =>
    have hho : w.row.hostID = some h := hw.hostID.trans hh
    obtain ⟨v, e, hv, hs⟩ := hu.resolve_left (by simp [hho])
    refine .call trivial fun r => ?_
    cases r with
    | error e' => exact .done ⟨hw, by simp⟩
    | ok all =>
      have hw' : Knows (w.next .listHosts (.ok all)) s :=
        ⟨hw.id, hw.hostID, hw.vmID, hw.cpus, hw.memoryMB, hw.books, hw.owed, hw.kept, hw.paid⟩
      have hhe : (w.next .listHosts (.ok all)).heard =
          some ((all.find? (·.id = h)).map Host.lastHeartbeatAt) := by
        simp [Work.next, hho]
      cases hl : (all.find? (·.id = h)).map Host.lastHeartbeatAt with
      | none =>
        simp only [onOk, pure_eq, done_bind, hl]
        exact .done ⟨hw', fun _ => .inr ⟨v, e, hv, hs, .inl (hhe.trans (by rw [hl]))⟩⟩
      | some last =>
        simp only [onOk, pure_eq, done_bind, hl]
        refine .call trivial fun now => .done ⟨⟨hw.id, hw.hostID, hw.vmID, hw.cpus, hw.memoryMB,
          hw.books, hw.owed, hw.kept, hw.paid⟩, fun hr => ?_⟩
        simp only [Except.ok.injEq, decide_eq_true_eq] at hr
        exact .inr ⟨v, e, hv, hs, .inr ⟨last, now, hhe.trans (by rw [hl]), rfl, hr⟩⟩

theorem recordHealth_does (hw : Knows w s) (h : Option Health) :
    Does cfg w (recordHealth s h) fun w' _ => Closable cfg s.id w' := by
  cases h with
  | none => exact .done hw.closable
  | some h =>
    refine .call trivial fun now => ?_
    simp only [done_bind]
    split
    · exact .call hw.id.symm fun r => .done hw.closable
    · exact .done hw.closable

theorem checkServerLiveness_does (hw : Knows w s) :
    Does cfg w (checkServerLiveness cfg s) fun w' _ => Closable cfg s.id w' := by
  refine .bind (.mono ?_ (status_does hw))
  rintro w1 (e | report) ⟨hw1, hr⟩
  · refine .bind (.mono ?_ (hostDeadTooLong_does hw1 hr))
    rintro w2 (e | dead) ⟨hw2, hs⟩
    · exact .done hw2.closable
    · cases dead with
      | false => exact .done hw2.closable
      | true => exact markLost_does hw2 (.inl (hs rfl)) _
  dsimp only
  split
  · exact recordHealth_does hw1 _
  · rename_i hst
    exact markLost_does hw1 (.inr (hr hst)) _

end Liveness

section Reconcile

variable {w : Work} {s : GameServer} {h : HostID}

theorem command_does (op : Op) (hw : Knows w s) (hh : s.hostID = some h) (ho : w.mayCommand op)
    (hb : ∀ view, op.brings view = none) {next : Option VMView → Act (Except Err β)}
    {Q : Work → Except Err β → Prop}
    (he : ∀ w' e, Knows w' s → w'.said = some (op, .error e) → Q w' (.error e))
    (hok : ∀ w' view, Knows w' s → w'.said = some (op, .ok view) → Does cfg w' (next view) Q) :
    Does cfg w ((ask (.command h op)).bind fun r => onOk r next) Q := by
  refine .call ⟨hw.books, hw.hostID.trans hh, ho, hw.owed⟩ fun r => ?_
  have hw' : Knows (w.next (.command h op) r) s := hw.command hb
  cases r with
  | error e => exact .done (he _ e hw' rfl)
  | ok view => exact hok _ view hw' rfl

theorem snapshot_does (hw : Knows w s) : Does cfg w (Remote.snapshot s) fun w' _ => Knows w' s := by
  unfold Remote.snapshot
  cases hv : s.vmID with
  | none => exact .done hw
  | some v =>
    cases hh : s.hostID with
    | none =>
      simp only [assignedHost, hh, onOk]
      exact .done hw
    | some h =>
      simp only [assignedHost, hh, onOk]
      exact command_does (.snapshot v) hw hh (hw.vmID.trans hv) (fun _ => rfl) (fun w' e hw' _ => hw')
        (fun w' view hw' _ => .done hw')

theorem backup_does (hw : Knows w s) : Does cfg w (backup s) fun w' _ => Knows w' s := by
  unfold backup
  split
  · exact .call hw.id.symm fun r => .done hw
  refine .bind (.mono ?_ (snapshot_does hw))
  rintro w' (e | u) hw'
  · exact .done hw'
  · exact .call hw'.id.symm fun r => .done hw'

theorem remoteStop_does (hw : Knows w s) : Does cfg w (Remote.stop s) fun w' r => Knows w' s ∧
      (r = .ok () → s.vmID = none ∨ ∃ h, s.hostID = some h) := by
  unfold Remote.stop
  cases hv : s.vmID with
  | none => exact .done ⟨hw, fun _ => .inl rfl⟩
  | some v =>
    cases hh : s.hostID with
    | none =>
      simp only [assignedHost, hh, onOk]
      exact .done ⟨hw, by simp⟩
    | some h =>
      simp only [assignedHost, hh, onOk]
      exact command_does (.stop v) hw hh (hw.vmID.trans hv) (fun _ => rfl)
        (fun w' e hw' _ => ⟨hw', by simp⟩) (fun w' view hw' _ => .done ⟨hw', fun _ => .inr ⟨h, rfl⟩⟩)

theorem evict_does (hw : Knows w s) (hp : s.vmID = none ∨ ∃ h, s.hostID = some h) :
    Does cfg w (Remote.evict s) fun w' r => Knows w' s ∧ (r = .ok () → w'.evicted) := by
  unfold Remote.evict
  cases hv : s.vmID with
  | none =>
    have hg : w.evicted := .inl (hw.vmID.trans hv)
    cases s.hostID <;> exact .done ⟨hw, fun _ => hg⟩
  | some v =>
    obtain ⟨h, hh⟩ := hp.resolve_left (by simp [hv])
    simp only [hh]
    have hvm : w.row.vmID = some v := hw.vmID.trans hv
    exact command_does (.evict v) hw hh hvm (fun _ => rfl) (fun w' e hw' _ => ⟨hw', by simp⟩)
      (fun w' view hw' hs => .done ⟨hw', fun _ => .inr ⟨v, view, hw'.vmID.trans hv, hs⟩⟩)

/-- Once the reservation is back, only the row's own write may follow. -/
structure Returns (w : Work) (s : GameServer) (w' : Work) : Prop where
  row : w'.row = w.row
  said : w'.said = w.said
  ready : w'.ready = w.ready
  owed : w'.owed = none
  due : w'.due = false
  returned : w'.returned

section

variable (hw : Knows w s)
include hw

theorem releaseHost_does : Does cfg w (releaseHost s) fun w' _ => Returns w s w' := by
  unfold releaseHost
  cases hh : s.hostID with
  | none => exact .done ⟨rfl, rfl, rfl, hw.owed, hw.paid, .inl ⟨hw.hostID.trans hh, hw.books⟩⟩
  | some h =>
    have hho : w.row.hostID = some h := hw.hostID.trans hh
    refine .call ⟨hw.cpus.symm, hw.memoryMB.symm, .inr ⟨hw.books, hho⟩⟩ fun r => .done ?_
    exact ⟨rfl, rfl, rfl, hw.owed, hw.paid, .inr ⟨h, hho, by simp [Work.next, hw.books]⟩⟩

theorem stop_does : Does cfg w (stop cfg s) fun w' _ => Closable cfg s.id w' := by
  unfold stop
  split
  · exact .done hw.closable
  refine .call ⟨hw.id.symm, hw.books, by decide, by decide⟩ fun r => ?_
  cases r with
  | error e => exact .done hw.closable
  | ok u =>
    have hw1 : Knows (w.next (.markStatus s.id .stopping "") (.ok u)) s :=
      ⟨hw.id, hw.hostID, hw.vmID, hw.cpus, hw.memoryMB, hw.books, hw.owed, hw.kept, hw.paid⟩
    simp only [done_bind, onOk]
    refine .bind (.mono ?_ (remoteStop_does hw1))
    rintro w2 r ⟨hw2, hp⟩
    refine .onOk (fun e _ => hw2.closable) fun _ hr => .bind (.mono ?_ (evict_does hw2 (hp hr)))
    rintro w3 r ⟨hw3, hg⟩
    refine .onOk (fun e _ => hw3.closable) fun _ hr => .bind (.mono ?_ (releaseHost_does hw3))
    rintro w4 _ hre
    have hi : w4.row.id = s.id := by rw [hre.row]; exact hw3.id
    have hg4 : w4.evicted := by
      unfold Work.evicted
      rw [hre.row, hre.said]
      exact hg hr
    refine .call ⟨hi.symm, hre.returned, hg4, hre.owed⟩ fun r => ?_
    cases r with
    | error e => exact .done ⟨hi, rfl, hre.owed, fun _ => hre.due⟩
    | ok u =>
      have hi' : (w4.next (.markStopped s.id) (.ok u)).row.id = s.id := hi
      simp only [done_bind]
      exact .bind (.mono (fun _ _ h => .done h) (stopBilling_does hi' rfl hre.owed))

theorem finalizeDelete_does (hg : w.deprovisioned) :
    Does cfg w (finalizeDelete cfg s) fun w' _ => Closable cfg s.id w' := by
  refine .bind (.mono ?_ (releaseHost_does hw))
  rintro w' _ hr
  have hi : w'.row.id = s.id := by rw [hr.row]; exact hw.id
  have hg' : w'.deprovisioned := by
    unfold Work.deprovisioned
    rw [hr.row, hr.said, hr.ready]
    exact hg
  refine .call ⟨hi.symm, hr.returned, hg', hr.owed⟩ fun r => ?_
  cases r with
  | error e => exact .done ⟨hi, rfl, hr.owed, fun _ => hr.due⟩
  | ok u =>
    have hi' : (w'.next (.softDelete s.id) (.ok u)).row.id = s.id := hi
    simp only [done_bind]
    exact .bind (.mono (fun _ _ h => .done h) (stopBilling_does hi' rfl hr.owed))

theorem placeable_does (hh : s.hostID = some h) :
    Does cfg w (placeable h) fun w' r => Knows w' s ∧ w'.said = w.said ∧
      ∀ b, r = .ok b → w'.ready = some b := by
  refine .call trivial fun r => ?_
  cases r with
  | error e => exact .done ⟨hw, rfl, by simp⟩
  | ok ready =>
    refine .done ⟨⟨hw.id, hw.hostID, hw.vmID, hw.cpus, hw.memoryMB, hw.books, hw.owed, hw.kept, hw.paid⟩,
      rfl, fun b hb => ?_⟩
    cases hb
    simp [Work.next, hw.hostID, hh]

theorem deprovision_does :
    Does cfg w (Remote.deprovision s) fun w' r => Knows w' s ∧
      match r with
      | .ok _ => w'.deprovisioned
      | .error _ => ∃ h v e, s.hostID = some h ∧ s.vmID = some v ∧
          w'.said = some (.deprovision v, .error e) := by
  unfold Remote.deprovision
  cases hh : s.hostID with
  | none => exact .done ⟨hw, .inr (.inl (hw.hostID.trans hh))⟩
  | some h =>
    cases hv : s.vmID with
    | none => exact .done ⟨hw, .inl (hw.vmID.trans hv)⟩
    | some v =>
      exact command_does (.deprovision v) hw hh (hw.vmID.trans hv) (fun _ => rfl)
        (fun w' e hw' hs => ⟨hw', h, v, e, rfl, rfl, hs⟩)
        (fun w' view hw' hs =>
          .done ⟨hw', .inr (.inr ⟨v, hw'.vmID.trans hv, .inl ⟨view, hs⟩⟩)⟩)

theorem teardown_does : Does cfg w (teardown cfg s) fun w' _ => Closable cfg s.id w' := by
  refine .bind (.mono ?_ (deprovision_does hw))
  rintro w1 (e | u) ⟨hw1, hr⟩
  · obtain ⟨h, v, e', hh, hv, hs⟩ := hr
    simp only [hostReachable, hh]
    refine .bind (.mono ?_ (placeable_does hw1 hh))
    rintro w2 r ⟨hw2, hsa, hre⟩
    refine .onOk (fun e _ => hw2.closable) fun reachable hr => ?_
    cases reachable with
    | true => exact .done hw2.closable
    | false =>
      have hg : w2.deprovisioned :=
        .inr (.inr ⟨v, hw2.vmID.trans hv, .inr ⟨⟨e', hsa.trans hs⟩, hre false hr⟩⟩)
      exact finalizeDelete_does hw2 hg
  · exact finalizeDelete_does hw1 hr

theorem delete_does : Does cfg w (delete cfg s) fun w' _ => Closable cfg s.id w' := by
  unfold delete
  split
  · refine .call ⟨hw.id.symm, hw.books, by decide, by decide⟩ fun r => ?_
    cases r with
    | error e => exact .done hw.closable
    | ok u =>
      exact teardown_does (w := w.next (.markStatus s.id .deleting "") (.ok u))
        ⟨hw.id, hw.hostID, hw.vmID, hw.cpus, hw.memoryMB, hw.books, hw.owed, hw.kept, hw.paid⟩
  · exact teardown_does hw

end

structure Seeks (w w' : Work) : Prop where
  row : w'.row = w.row
  owed : w'.owed = w.owed
  retired : w'.retired = w.retired
  due : w'.due = w.due

theorem reserveFirst_does (hw : Knows w s) (hh : s.hostID = none) (hv : s.vmID = none)
    (hosts : List Host) :
    Does cfg w (reserveFirst s.cpus s.memoryMB hosts) fun w' r => Seeks w w' ∧
      match r with
      | .ok h => w'.books = .reserved h
      | .error _ => w'.books = .settled := by
  induction hosts with
  | nil => exact .done ⟨⟨rfl, rfl, rfl, rfl⟩, hw.books⟩
  | cons host rest ih =>
    refine .call ⟨hw.books, hw.hostID.trans hh, hw.vmID.trans hv, hw.cpus.symm,
      hw.memoryMB.symm, hw.kept⟩ fun r => ?_
    cases r with
    | error e => exact ih
    | ok u => exact .done ⟨⟨rfl, rfl, rfl, rfl⟩, rfl⟩

theorem schedule_does (hw : Knows w s) (hh : s.hostID = none) (hv : s.vmID = none) :
    Does cfg w (schedule s) fun w' r => Seeks w w' ∧
      match r with
      | .ok h => w'.books = .reserved h
      | .error _ => w'.books = .settled := by
  refine .call trivial fun r => ?_
  cases r with
  | error e => exact .done ⟨⟨rfl, rfl, rfl, rfl⟩, hw.books⟩
  | ok ready =>
    refine .mono (fun w' r h => ⟨⟨h.1.row, h.1.owed, h.1.retired, h.1.due⟩, h.2⟩)
      (reserveFirst_does (w := w.next .listReady (.ok ready)) ?_ hh hv _)
    exact ⟨hw.id, hw.hostID, hw.vmID, hw.cpus, hw.memoryMB, hw.books, hw.owed, hw.kept, hw.paid⟩

theorem Knows.of_seeks (hw : Knows w s) (hs : Seeks w w') (hb : w'.books = .settled) :
    Knows w' s := by
  refine ⟨?_, ?_, ?_, ?_, ?_, hb, hs.owed.trans hw.owed, hs.retired.trans hw.kept,
    hs.due.trans hw.paid⟩ <;> rw [hs.row]
  · exact hw.id
  · exact hw.hostID
  · exact hw.vmID
  · exact hw.cpus
  · exact hw.memoryMB

def Replaced (cfg : Config) (s : GameServer) (w : Work) : Except Err GameServer → Prop
  | .error _ => Closable cfg s.id w
  | .ok s' => Knows w s' ∧ s'.id = s.id ∧ s'.vmID = none

theorem place_does (hw : Knows w s) (hh : s.hostID = none) (hv : s.vmID = none) :
    Does cfg w (place s) (Replaced cfg s) := by
  refine .bind (.mono ?_ (schedule_does hw hh hv))
  rintro w1 (e | h) ⟨hs, hb⟩
  · have hw1 := hw.of_seeks hs hb
    cases e with
    | noCapacity =>
      refine .call ⟨hw1.id.symm, hw1.books, by decide, by decide⟩ fun r => ?_
      cases r with
      | error e => exact .done hw1.closable
      | ok u =>
        exact .done ⟨⟨hw1.id, hw1.hostID, hw1.vmID, hw1.cpus, hw1.memoryMB, hw1.books, hw1.owed,
          hw1.kept, hw1.paid⟩, rfl, hv⟩
    | _ => exact .done hw1.closable
  · have hi : w1.row.id = s.id := by rw [hs.row]; exact hw.id
    have hc : w1.row.cpus = s.cpus := by rw [hs.row]; exact hw.cpus
    have hm : w1.row.memoryMB = s.memoryMB := by rw [hs.row]; exact hw.memoryMB
    have hvm : w1.row.vmID = none := by rw [hs.row]; exact hw.vmID.trans hv
    have hho : w1.row.hostID = none := by rw [hs.row]; exact hw.hostID.trans hh
    have ho : w1.owed = none := hs.owed.trans hw.owed
    have hk : w1.retired = false := hs.retired.trans hw.kept
    have hp : w1.due = false := hs.due.trans hw.paid
    refine .call ⟨hi.symm, hb, hho, hvm, ho, hk⟩ fun r => ?_
    cases r with
    | error e =>
      refine .call ⟨hc.symm, hm.symm, .inl rfl⟩ fun r => .done ?_
      exact ⟨hi, by simp [Work.next], ho, fun _ => hp⟩
    | ok u => exact .done ⟨⟨hi, rfl, hvm.trans hv.symm, hc, hm, rfl, ho, hk, hp⟩, rfl, hv⟩

theorem dropStalePlacement_does (hw : Knows w s) (hv : s.vmID = none) :
    Does cfg w (dropStalePlacement s) (Replaced cfg s) := by
  unfold dropStalePlacement
  cases hh : s.hostID with
  | none => exact .done ⟨hw, rfl, hv⟩
  | some h =>
    refine .bind (.mono ?_ (placeable_does hw hh))
    rintro w1 r ⟨hw1, -, -⟩
    refine .onOk (fun e _ => hw1.closable) fun ready _ => ?_
    cases ready with
    | true => exact .done ⟨hw1, rfl, hv⟩
    | false =>
      have hho : w1.row.hostID = some h := hw1.hostID.trans hh
      have hvm : w1.row.vmID = none := hw1.vmID.trans hv
      refine .call ⟨hw1.cpus.symm, hw1.memoryMB.symm, .inr ⟨hw1.books, hho⟩⟩ fun r => ?_
      refine .call ⟨hw1.id.symm, .inr ⟨h, hho, by simp [Work.next, hw1.books]⟩, hvm,
        hw1.owed⟩ fun r => ?_
      cases r with
      | error e => exact .done ⟨hw1.id, rfl, hw1.owed, fun _ => hw1.paid⟩
      | ok u =>
        exact .done ⟨⟨hw1.id, rfl, hw1.vmID, hw1.cpus, hw1.memoryMB, rfl, hw1.owed, hw1.kept, hw1.paid⟩, rfl,
          hv⟩

def Boots (s : GameServer) (w : Work) : Except Err Instance → Prop
  | .error _ => Knows w s
  | .ok inst => w.row.id = s.id ∧ w.books = .settled ∧ w.row.hostID.isSome ∧
      w.booted inst.vmID ∧ (w.owed = none ∨ w.owed = inst.vmID) ∧ w.due = false

section

variable (hw : Knows w s)
include hw

theorem provision_does (hv : s.vmID = none) : Does cfg w (Remote.provision s) (Boots s) := by
  unfold Remote.provision
  cases hh : s.hostID with
  | none =>
    simp only [assignedHost, hh, onOk]
    exact .done hw
  | some h =>
    simp only [assignedHost, hh, onOk]
    have hho : w.row.hostID = some h := hw.hostID.trans hh
    have hvm : w.row.vmID = none := hw.vmID.trans hv
    refine .call ⟨hw.books, hho, ⟨hw.id.symm, hvm⟩, hw.owed⟩ fun r => ?_
    cases r with
    | error e =>
      exact .done ⟨hw.id, hw.hostID, hw.vmID, hw.cpus, hw.memoryMB, hw.books, hw.owed, hw.kept, hw.paid⟩
    | ok view =>
      refine .done ⟨hw.id, hw.books, ?_, ⟨view, rfl, .inl ⟨hvm, specOf s, hw.id.symm, rfl⟩⟩, .inr rfl,
        hw.paid⟩
      simp [Work.next, hho]

theorem remoteStart_does (hv : s.vmID = some v) : Does cfg w (Remote.start s) (Boots s) := by
  unfold Remote.start
  simp only [hv]
  cases hh : s.hostID with
  | none =>
    simp only [assignedHost, hh, onOk]
    exact .done hw
  | some h =>
    simp only [assignedHost, hh, onOk]
    refine command_does (.start v) hw hh (hw.vmID.trans hv) (fun _ => rfl) (fun w' e hw' _ => hw')
      (fun w' view hw' hs => .done ?_)
    exact ⟨hw'.id, hw'.books, by simp [hw'.hostID, hh],
      ⟨view, rfl, .inr ⟨v, hw'.vmID.trans hv, hs⟩⟩, .inl hw'.owed, hw'.paid⟩

theorem provisionOrStart_does : Does cfg w (provisionOrStart s s.vmID.isSome) (Boots s) := by
  unfold provisionOrStart
  cases hv : s.vmID with
  | none => exact provision_does hw hv
  | some v => exact remoteStart_does hw hv

theorem boot_does (provisioned : Bool) (hp : provisioned = s.vmID.isSome) :
    Does cfg w (boot cfg s provisioned) fun w' _ => Closable cfg s.id w' := by
  refine .call ⟨hw.id.symm, hw.books, by decide, by decide⟩ fun r => ?_
  cases r with
  | error e => exact .done hw.closable
  | ok u =>
    have hw1 : Knows (w.next (.markStatus s.id .provisioning "") (.ok u)) s :=
      ⟨hw.id, hw.hostID, hw.vmID, hw.cpus, hw.memoryMB, hw.books, hw.owed, hw.kept, hw.paid⟩
    simp only [done_bind, onOk, hp]
    refine .bind (.mono ?_ (provisionOrStart_does hw1))
    intro w2 r hb
    cases r with
    | error e => exact .done (Knows.closable hb)
    | ok inst =>
      obtain ⟨hi, hbo, hh, hboo, ho, hp⟩ := hb
      refine .call ⟨hi.symm, hbo, hh, hboo, ho⟩ fun r => ?_
      cases r with
      | error e => exact .done ⟨hi, hbo, rfl, fun _ => hp⟩
      | ok u =>
        have hw3 : Closable cfg s.id
            (w2.next (.markRunning s.id inst.vmID inst.host inst.port) (.ok u)) :=
          ⟨hi, hbo, rfl, fun _ => hp⟩
        simp only [done_bind]
        exact .bind (.mono (fun _ _ h => .done h) (startBilling_does hw3 rfl))

theorem start_does : Does cfg w (start cfg s) fun w' _ => Closable cfg s.id w' := by
  unfold start
  split
  · exact .done hw.closable
  split
  · rename_i hv
    exact boot_does hw true hv.symm
  rename_i hv
  have hv : s.vmID = none := by simpa using hv
  refine .bind (.mono ?_ (dropStalePlacement_does hw hv))
  rintro w1 r hr
  cases r with
  | error e => exact .done hr
  | ok s1 =>
    obtain ⟨hw1, hi1, hv1⟩ := hr
    simp only [onOk]
    split
    · rename_i hh
      refine .bind (.mono ?_ (place_does hw1 (by simpa using hh) hv1))
      rintro w2 r hr
      cases r with
      | error e => exact .done (hi1 ▸ hr)
      | ok s2 =>
        obtain ⟨hw2, hi2, hv2⟩ := hr
        have hc : ∀ w', Closable cfg s2.id w' → Closable cfg s.id w' := by
          rw [hi2, hi1]
          exact fun _ h => h
        simp only [bootPlaced]
        split
        · exact .done (hc _ hw2.closable)
        · exact .mono (fun w' _ h => hc w' h) (boot_does hw2 false (by simp [hv2]))
    · exact .mono (fun w' _ h => hi1 ▸ h) (boot_does hw1 false (by simp [hv1]))

theorem converge_does : Does cfg w (converge cfg s) fun w' _ => Closable cfg s.id w' := by
  unfold converge
  split
  · exact stop_does hw
  · exact start_does hw
  · exact .done hw.closable

theorem reconcile_does : Does cfg w (reconcile cfg s) fun w' _ => Closable cfg s.id w' := by
  unfold reconcile
  split
  · exact delete_does hw
  split
  · refine .bind (.mono ?_ (backup_does hw))
    exact fun w' _ hw' => converge_does hw'
  · exact converge_does hw

end

end Reconcile

theorem checkEach_keeps (cfg : Config) (servers : List GameServer) :
    Keeps cfg (fun st _ => st.cur = none) ⟨servers, none⟩ (checkEach cfg servers) := by
  induction servers with
  | nil => exact rfl
  | cons s rest ih =>
    refine ⟨⟨rfl, s, rest, rfl, rfl⟩, fun _ => ?_⟩
    simp only [done_bind]
    refine Prog.Follows.bind (Prog.Follows.mono ?_ (checkServerLiveness_does (.on s) rest))
    rintro st _ ⟨w, rfl, hi, hb⟩
    exact ⟨⟨w, rfl, hi, hb⟩, fun _ => ih⟩

theorem reconcileEach_keeps (cfg : Config) (servers : List GameServer) :
    Keeps cfg (fun st _ => st.cur = none) ⟨servers, none⟩ (reconcileEach cfg servers) := by
  induction servers with
  | nil => exact rfl
  | cons s rest ih =>
    refine ⟨⟨rfl, s, rest, rfl, rfl⟩, fun _ => ?_⟩
    simp only [done_bind]
    refine Prog.Follows.bind (Prog.Follows.mono ?_ (reconcile_does (.on s) rest))
    rintro st r ⟨w, rfl, hi, hb, ho, hp⟩
    cases r with
    | ok u => exact ⟨⟨w, rfl, hi, hb, ho, hp⟩, fun _ => ih⟩
    | error e =>
      refine ⟨⟨w, rfl, hi.symm, hb, by decide, by decide⟩, fun r => ?_⟩
      cases r with
      | error e' => exact ⟨⟨w, rfl, hi, hb, ho, hp⟩, fun _ => ih⟩
      | ok u => exact ⟨⟨_, rfl, hi, hb, ho, hp⟩, fun _ => ih⟩

theorem reconcileOnce_keeps (cfg : Config) :
    Keeps cfg (fun st _ => st.cur = none) .start (reconcileOnce cfg) := by
  have hc : Keeps cfg (fun st _ => st.cur = none) .start (checkLiveness cfg) := by
    refine ⟨rfl, fun r => ?_⟩
    cases r with
    | error e => exact rfl
    | ok servers => exact checkEach_keeps cfg servers
  refine Prog.Follows.bind (Prog.Follows.mono (fun st _ hs => ⟨hs, fun r => ?_⟩) hc)
  cases r with
  | error e => exact rfl
  | ok servers => exact reconcileEach_keeps cfg servers

end Craftling.Control

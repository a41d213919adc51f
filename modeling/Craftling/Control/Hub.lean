import Craftling.Control.Fleet
import Craftling.Effects.Tables

namespace Craftling.Control
open Effects Bool Fleet

def Label.finishes (f : Fleet) (i : Nat) : Label → Prop
  | .collect => f.awaited = some i
  | .expire => f.awaited = some i
  | .otherDone j => j = i ∧ f.awaited ≠ some i
  | _ => False

inductive CallMove (f : Fleet) (l : Label) (i : Nat) (c : HubCall) : HubCall → Prop where
  | same : CallMove f l i c c
  | send {s : Stream} : c.phase = .picked → f.streams[c.conn]? = some s → s.phase ≠ .returned →
      CallMove f l i c { c with phase := .sent, cmd := .carried }
  | fail : l = .send i false → c.phase = .picked → CallMove f l i c { c with phase := .sendFailed }
  | exec {s : Stream} {o : Outcome} (r : Reply) : l = .exec i o → c.cmd = .carried →
      f.streams[c.conn]? = some s → CallMove f l i c { c with cmd := .executed r }
  | lose : c.cmd = .carried → CallMove f l i c { c with cmd := .lost }
  | deliver {s : Stream} (r : Reply) : f.streams[c.conn]? = some s → s.phase = .serving →
      c.phase = .sent → c.result = none → c.cmd = .executed r →
      CallMove f l i c { c with result := some r }
  | finish : l.finishes f i → c.outcome.isSome ∨ (c.deadline = true ∧ c.phase = .sent) →
      CallMove f l i c { c with phase := .ended }

/-- What can become of a stream in one step of a process that lives on. -/
inductive StreamMove (l : Label) (k : Nat) (s : Stream) : Stream → Prop where
  | same : StreamMove l k s s
  | count (cpus memMB : Nat) {fault : Option String} : l = .count k fault → s.phase = .opened →
      StreamMove l k s { s with phase := .counted cpus memMB }
  | refuse : s.phase = .opened → StreamMove l k s { s with phase := .returned }
  | register {cpus memMB : Nat} (h : HostID) : l = .register k h →
      s.phase = .counted cpus memMB →
      StreamMove l k s { s with host := some h, phase := .registered }
  | add : s.phase = .registered → StreamMove l k s { s with phase := .serving }
  | streamEnd : s.phase = .serving → StreamMove l k s { s with phase := .ending }
  | remove : s.phase = .ending → StreamMove l k s { s with phase := .removed }
  | markDown : l = .markDown k → s.phase = .removed → StreamMove l k s { s with phase := .returned }

def Fleet.commands (f : Fleet) (h : HostID) (op : Op) : Prop :=
  ∃ k st, f.thread = some ⟨.call (.command h op) k, st, none⟩

def Picked (f : Fleet) (l : Label) (c : HubCall) : Prop :=
  c.phase = .picked ∧ c.cmd = .unsent ∧ c.result = none ∧
    ∃ h, f.registry h = some c.conn ∧ (l = .issue ∧ f.commands h c.op ∨ c.op.isOther = true)

abbrev CallsMove (f : Fleet) (l : Label) (calls : List HubCall) : Prop :=
  Grows (CallMove f l) (Picked f l) f.calls calls

abbrev StreamsMove (f : Fleet) (l : Label) (streams : List Stream) : Prop :=
  Grows (StreamMove l) (fun s => s.host = none ∧ s.phase = .opened) f.streams streams

section

variable (f : Fleet) (st : Stage) (e : Call) (k : Answer e → Act Unit) (r : Answer e)

theorem Fleet.resume_eq : ∃ t, f.resume st e k r = { f with thread := t } := by
  unfold Fleet.resume
  split
  · exact ⟨_, rfl⟩
  · exact ⟨_, rfl⟩

@[simp] theorem Fleet.resume_calls : (f.resume st e k r).calls = f.calls := by
  obtain ⟨t, ht⟩ := f.resume_eq st e k r
  rw [ht]

@[simp] theorem Fleet.resume_rows : (f.resume st e k r).rows = f.rows := by
  obtain ⟨t, ht⟩ := f.resume_eq st e k r
  rw [ht]

@[simp] theorem Fleet.resume_hosts : (f.resume st e k r).hosts = f.hosts := by
  obtain ⟨t, ht⟩ := f.resume_eq st e k r
  rw [ht]

end

theorem Fleet.answer_eq (f : Fleet) (fault : Option String) (order : Order) (e : Call) :
    ∃ rows hosts, (f.answer fault order e).2 = { f with rows, hosts } := by
  cases e with
  | reserve h cpus memMB =>
    simp only [Fleet.answer]
    split <;> exact ⟨_, _, rfl⟩
  | _ => first | exact ⟨_, _, rfl⟩ | (cases fault <;> exact ⟨_, _, rfl⟩)

structure Unmoved (f f' : Fleet) : Prop where
  clock : f'.clock = f.clock
  registry : f'.registry = f.registry
  streams : f'.streams = f.streams
  agents : f'.agents = f.agents
  saves : f'.saves = f.saves
  nextVM : f'.nextVM = f.nextVM

theorem Unmoved.refl (f : Fleet) : Unmoved f f := ⟨rfl, rfl, rfl, rfl, rfl, rfl⟩

theorem Fleet.resume_unmoved (h : Unmoved f g) (st : Stage) (e : Call) (k : Answer e → Act Unit)
    (r : Answer e) : Unmoved f (g.resume st e k r) := by
  obtain ⟨t, ht⟩ := g.resume_eq st e k r
  rw [ht]
  exact ⟨h.clock, h.registry, h.streams, h.agents, h.saves, h.nextVM⟩

section Step

variable {h : HostID} {c i k : Nat} {s s' : Stream}

theorem actStep_eq (hs : actStep f fault order = some f') :
    ∃ e k st, f.thread = some ⟨.call e k, st, none⟩ ∧ e.isCommand = false ∧
      f' = Fleet.resume { (f.answer fault order e).2 with
        writtenOff := (f.answer fault order e).2.writtenOff ++
          dropped st e (f.answer fault order e).1 } st e k (f.answer fault order e).1 := by
  unfold actStep at hs
  split at hs
  · rename_i e k st ht
    split at hs
    · cases hs
    · rename_i hc
      exact ⟨e, k, st, ht, by simpa using hc, (Option.some.inj hs).symm⟩
  · cases hs

theorem issueStep_eq (hs : issueStep f = some f') :
    ∃ h op k st, f.thread = some ⟨.call (.command h op) k, st, none⟩ ∧
      ((f.registry h = none ∧ f' = f.resume st (.command h op) k (.error .hostNotConnected)) ∨
        ∃ c, f.registry h = some c ∧ f' = { f with
          calls := f.calls ++ [⟨c, op, op.isStatus, .picked, .unsent, none⟩]
          thread := some ⟨.call (.command h op) k, st, some f.calls.length⟩ }) := by
  unfold issueStep at hs
  split at hs
  · rename_i h op k st ht
    refine ⟨h, op, k, st, ht, ?_⟩
    split at hs
    · rename_i hr
      exact .inl ⟨hr, (Option.some.inj hs).symm⟩
    · rename_i c hr
      exact .inr ⟨c, hr, (Option.some.inj hs).symm⟩
  · cases hs

theorem collectStep_eq (hs : collectStep f = some f') :
    ∃ h op k st i c r, f.thread = some ⟨.call (.command h op) k, st, some i⟩ ∧
      f.calls[i]? = some c ∧ c.outcome = some r ∧
      f' = (f.setCall i { c with phase := .ended }).resume st (.command h op) k r := by
  unfold collectStep at hs
  split at hs
  · rename_i h op k st i ht
    split at hs
    · cases hs
    rename_i c hc
    split at hs
    · cases hs
    · rename_i r hr
      exact ⟨h, op, k, st, i, c, r, ht, hc, hr, (Option.some.inj hs).symm⟩
  · cases hs

theorem expireStep_eq (hs : expireStep f = some f') :
    ∃ h op k st i c, f.thread = some ⟨.call (.command h op) k, st, some i⟩ ∧
      f.calls[i]? = some c ∧ c.deadline = true ∧ c.phase = .sent ∧
      f' = (f.setCall i { c with phase := .ended }).resume st (.command h op) k
        (.error .deadlineExceeded) := by
  unfold expireStep at hs
  split at hs
  · rename_i h op k st i ht
    split at hs
    · cases hs
    rename_i c hc
    split at hs
    · rename_i hco
      simp only [and_eq_true, decide_eq_true_eq] at hco
      exact ⟨h, op, k, st, i, c, ht, hc, hco.1, hco.2, (Option.some.inj hs).symm⟩
    · cases hs
  · cases hs

theorem execStep_eq (hs : execStep d f i o = some f') :
    ∃ c s, f.calls[i]? = some c ∧ c.cmd = .carried ∧ f.streams[c.conn]? = some s ∧
      f' = { (f.setCall i { c with
          cmd := .executed ((f.agents s.agent).exec (d.info s.agent) f.nextVM o c.op).1 }).setAgent
            s.agent ((f.agents s.agent).exec (d.info s.agent) f.nextVM o c.op).2 with
          saves := f.saves ++ (f.agents s.agent).saves c.op
          nextVM := f.nextVM + 1 } := by
  unfold execStep at hs
  split at hs
  · cases hs
  rename_i c hc
  split at hs
  · rename_i s hcm hst
    cases hs
    exact ⟨c, s, hc, hcm, hst, rfl⟩
  · cases hs

theorem create_eq (hs : step d f (.create n) = some f') :
    f' = { f with rows := f.rows ++ [n.row f.rows.length] } := by
  simp only [step] at hs
  split at hs <;> cases hs
  rfl

theorem tick_eq (hs : step d f .tick = some f') :
    f.thread = none ∧ f' = { f with thread := some ⟨reconcileOnce d.cfg, .start, none⟩ } := by
  simp only [step] at hs
  split at hs
  · rename_i ht
    exact ⟨ht, (Option.some.inj hs).symm⟩
  · cases hs

theorem put_eq (hs : step d f (.put i) = some f') :
    i < f.saves.length ∧ f' = { f with saves := f.saves.eraseIdx i } := by
  simp only [step] at hs
  split at hs
  · rename_i hi
    exact ⟨hi, (Option.some.inj hs).symm⟩
  · cases hs

theorem sweepStep_eq (hs : sweepStep f a v = some f') :
    ∃ m, (f.agents a).find v = some m ∧ m.up = true ∧
      f' = { f with saves := f.saves ++ [⟨m.serverID, v⟩] } := by
  unfold sweepStep at hs
  split at hs
  · rename_i m hm
    split at hs
    · rename_i hr
      exact ⟨m, hm, hr, (Option.some.inj hs).symm⟩
    · cases hs
  · cases hs

theorem otherStep_eq {op : Op} (hs : otherStep f h op deadline = some f') :
    op.isOther = true ∧ (f' = f ∨ ∃ c, f.registry h = some c ∧
      f' = { f with calls := f.calls ++ [⟨c, op, deadline, .picked, .unsent, none⟩] }) := by
  unfold otherStep at hs
  split at hs
  · rename_i ho
    refine ⟨ho, ?_⟩
    split at hs
    · exact .inl (Option.some.inj hs).symm
    · rename_i c hr
      exact .inr ⟨c, hr, (Option.some.inj hs).symm⟩
  · cases hs

theorem otherDoneStep_eq (hs : otherDoneStep f i = some f') :
    ∃ c, f.calls[i]? = some c ∧ f.awaited ≠ some i ∧
      (c.outcome.isSome ∨ (c.deadline = true ∧ c.phase = .sent)) ∧
      f' = f.setCall i { c with phase := .ended } := by
  unfold otherDoneStep at hs
  split at hs
  · cases hs
  rename_i c hc
  split at hs
  · rename_i hco
    simp only [and_eq_true, or_eq_true, decide_eq_true_eq] at hco
    exact ⟨c, hc, hco.1, hco.2, (Option.some.inj hs).symm⟩
  · cases hs

theorem sendStep_eq (hs : sendStep f i ok = some f') :
    ∃ c, f.calls[i]? = some c ∧ c.phase = .picked ∧
      ((∃ s, f.streams[c.conn]? = some s ∧ s.phase ≠ .returned ∧
          f' = f.setCall i { c with phase := .sent, cmd := .carried }) ∨
        (ok = false ∧ f' = f.setCall i { c with phase := .sendFailed })) := by
  unfold sendStep at hs
  split at hs
  · cases hs
  rename_i c hc
  split at hs
  · rename_i hp
    refine ⟨c, hc, hp, ?_⟩
    split at hs
    · split at hs
      · cases hs
      rename_i s hst
      split at hs
      · cases hs
      · rename_i hr
        exact .inl ⟨s, hst, hr, (Option.some.inj hs).symm⟩
    · rename_i ho
      exact .inr ⟨by simpa using ho, (Option.some.inj hs).symm⟩
  · cases hs

theorem deliverStep_eq (hs : deliverStep f i = some f') :
    f' = f ∨ ∃ c r s, f.calls[i]? = some c ∧ c.cmd = .executed r ∧
      f.streams[c.conn]? = some s ∧ s.phase = .serving ∧ c.phase = .sent ∧ c.result = none ∧
      f' = f.setCall i { c with result := some r } := by
  unfold deliverStep at hs
  split at hs
  · cases hs
  rename_i c hc
  split at hs
  · rename_i r s hcm hst
    split at hs
    · rename_i hse
      split at hs
      · rename_i hw
        simp only [and_eq_true, decide_eq_true_eq, Option.isNone_iff_eq_none] at hw
        exact .inr ⟨c, r, s, hc, hcm, hst, hse, hw.1, hw.2, (Option.some.inj hs).symm⟩
      · exact .inl (Option.some.inj hs).symm
    · cases hs
  · cases hs

theorem countStep_eq (hs : countStep d f c fault = some f') :
    ∃ s, f.streams[c]? = some s ∧ s.phase = .opened ∧
      ((f' = f.setStream c { s with phase := .returned }) ∨
        ((d.info s.agent).id = none ∧ f' = f.setStream c { s with phase := .counted 0 0 }) ∨
        ∃ h, (d.info s.agent).id = some h ∧ f' = f.setStream c { s with
          phase := .counted (usedCPUs f.rows h) (usedMemory f.rows h) }) := by
  unfold countStep at hs
  split at hs
  · cases hs
  rename_i s hst
  split at hs
  · rename_i ho
    refine ⟨s, hst, ho, ?_⟩
    split at hs
    · rename_i hi
      exact .inr (.inl ⟨hi, (Option.some.inj hs).symm⟩)
    · exact .inl (Option.some.inj hs).symm
    · rename_i h hi
      exact .inr (.inr ⟨h, hi, (Option.some.inj hs).symm⟩)
  · cases hs

theorem registerStep_eq {id : HostID} (hs : registerStep d f c id = some f') :
    ∃ s cpus memMB hosts, f.streams[c]? = some s ∧ s.phase = .counted cpus memMB ∧
      registerReserved f.hosts (d.info s.agent) id (f.unused id) cpus memMB f.clock = some hosts ∧
      f' = { f.setStream c { s with host := some id, phase := .registered } with hosts } := by
  unfold registerStep at hs
  split at hs
  · cases hs
  rename_i s hst
  split at hs
  · rename_i cpus memMB hp
    split at hs
    · cases hs
    · rename_i hosts hr
      exact ⟨s, cpus, memMB, hosts, hst, hp, hr, (Option.some.inj hs).symm⟩
  · cases hs

theorem addStep_eq (hs : addStep f c = some f') :
    ∃ a h, f.streams[c]? = some ⟨a, some h, .registered⟩ ∧
      f' = { f.setStream c ⟨a, some h, .serving⟩ with
        registry := fun j => if j = h then some c else f.registry j } := by
  unfold addStep at hs
  split at hs
  · rename_i a h hst
    exact ⟨a, h, hst, (Option.some.inj hs).symm⟩
  · cases hs

theorem heartbeatStep_eq (hs : heartbeatStep f c = some f') :
    ∃ h, f' = { f with hosts := heartbeat f.hosts h f.clock } := by
  unfold heartbeatStep at hs
  split at hs
  · rename_i a h hst
    exact ⟨h, (Option.some.inj hs).symm⟩
  · cases hs

theorem streamEndStep_eq (hs : streamEndStep f c = some f') :
    ∃ a h, f.streams[c]? = some ⟨a, h, .serving⟩ ∧ f' = f.setStream c ⟨a, h, .ending⟩ := by
  unfold streamEndStep at hs
  split at hs
  · rename_i a h hst
    exact ⟨a, h, hst, (Option.some.inj hs).symm⟩
  · cases hs

theorem removeStep_eq (hs : removeStep f c = some f') :
    ∃ a h, f.streams[c]? = some ⟨a, some h, .ending⟩ ∧
      f' = { f.setStream c ⟨a, some h, .removed⟩ with
        registry := fun j => if j = h && f.registry h = some c then none else f.registry j } := by
  unfold removeStep at hs
  split at hs
  · rename_i a h hst
    exact ⟨a, h, hst, (Option.some.inj hs).symm⟩
  · cases hs

theorem markDownStep_eq (hs : markDownStep f c = some f') :
    ∃ a h, f.streams[c]? = some ⟨a, some h, .removed⟩ ∧
      f' = { f.setStream c ⟨a, some h, .returned⟩ with hosts := markDown f.hosts h } := by
  unfold markDownStep at hs
  split at hs
  · rename_i a h hst
    exact ⟨a, h, hst, (Option.some.inj hs).symm⟩
  · cases hs

def Label.isReconciler : Label → Bool
  | .tick | .act _ _ | .issue | .collect | .expire | .restartControl => true
  | _ => false

theorem reconcilerStep_unmoved (hs : step d f l = some f') (hl : l.isReconciler = true)
    (hr : l ≠ .restartControl) : Unmoved f f' := by
  cases l with
  | tick =>
    rw [(tick_eq hs).2]
    exact ⟨rfl, rfl, rfl, rfl, rfl, rfl⟩
  | act fault order =>
    obtain ⟨e, k, st, -, -, rfl⟩ := actStep_eq hs
    obtain ⟨rows, hosts, he⟩ := f.answer_eq fault order e
    refine resume_unmoved ?_ st e k _
    rw [he]
    exact ⟨rfl, rfl, rfl, rfl, rfl, rfl⟩
  | issue =>
    obtain ⟨h, op, k, st, -, ⟨-, rfl⟩ | ⟨c, -, rfl⟩⟩ := issueStep_eq hs
    · exact resume_unmoved (.refl f) _ _ _ _
    · exact ⟨rfl, rfl, rfl, rfl, rfl, rfl⟩
  | collect =>
    obtain ⟨h, op, k, st, i, c, r, -, -, -, rfl⟩ := collectStep_eq hs
    refine resume_unmoved ?_ _ _ _ _
    exact ⟨rfl, rfl, rfl, rfl, rfl, rfl⟩
  | expire =>
    obtain ⟨h, op, k, st, i, c, -, -, -, -, rfl⟩ := expireStep_eq hs
    refine resume_unmoved ?_ _ _ _ _
    exact ⟨rfl, rfl, rfl, rfl, rfl, rfl⟩
  | restartControl => exact absurd rfl hr
  | _ => cases hl

inductive Part where
  | rows | hosts | registry | streams | calls | agents
  deriving DecidableEq

/-- The parts of the fleet that a step other than the reconciler's may change. The agents' part
takes in what they save and the next VM's name. -/
def Label.changes : Label → List Part
  | .create _ | .updateSpec _ _ _ | .setDesired _ _ | .requestBackup _ => [.rows]
  | .otherCall _ _ _ | .otherDone _ | .send _ _ | .deliver _ => [.calls]
  | .exec _ _ | .restartAgent _ => [.calls, .agents]
  | .connect _ | .count _ _ | .streamEnd _ => [.streams]
  | .register _ _ | .markDown _ => [.streams, .hosts]
  | .add _ | .remove _ => [.streams, .registry]
  | .heartbeat _ | .reapHosts _ => [.hosts]
  | .exit _ _ | .sweep _ _ | .put _ => [.agents]
  | _ => []

structure Leaves (l : Label) (f f' : Fleet) : Prop where
  thread : f'.thread = f.thread
  writtenOff : f'.writtenOff = f.writtenOff
  rows : l.changes.contains .rows = false → f'.rows = f.rows
  hosts : l.changes.contains .hosts = false → f'.hosts = f.hosts
  registry : l.changes.contains .registry = false → f'.registry = f.registry
  streams : l.changes.contains .streams = false → f'.streams = f.streams
  calls : l.changes.contains .calls = false → f'.calls = f.calls
  agents : l.changes.contains .agents = false →
    f'.agents = f.agents ∧ f'.saves = f.saves ∧ f'.nextVM = f.nextVM

section

variable (hs : step d f l = some f')
include hs

/-- A step leaves alone what is not among its changes. -/
theorem step_leaves (hl : l.isReconciler = false) : Leaves l f f' := by
  cases l <;> first | (cases hl; done) | skip
  all_goals
    simp only [step, otherStep, otherDoneStep, sendStep, execStep, deliverStep, countStep,
      registerStep, addStep, heartbeatStep, streamEndStep, removeStep, markDownStep,
      sweepStep] at hs
    repeat' split at hs
    all_goals cases hs
    all_goals
      constructor <;> first
        | rfl
        | exact fun _ => rfl
        | exact fun _ => ⟨rfl, rfl, rfl⟩
        | exact fun h => by cases h

theorem step_thread (hl : l.isReconciler = false) :
    f'.thread = f.thread := (step_leaves hs hl).thread

theorem step_calls (hl : l ≠ .restartControl) : CallsMove f l f'.calls := by
  have hsa : ∀ i c, CallMove f l i c c := fun _ _ => .same
  have hk : f'.calls = f.calls → CallsMove f l f'.calls := by
    intro h
    rw [h]
    exact .refl hsa _
  cases l with
  | act fault order =>
    obtain ⟨e, k, st, -, -, rfl⟩ := actStep_eq hs
    obtain ⟨rows, hosts, he⟩ := f.answer_eq fault order e
    refine hk ?_
    rw [resume_calls, he]
  | issue =>
    obtain ⟨h, op, k, st, ht, ⟨-, rfl⟩ | ⟨c, hre, rfl⟩⟩ := issueStep_eq hs
    · exact hk (resume_calls ..)
    · exact .append hsa ⟨rfl, rfl, rfl, h, hre, .inl ⟨rfl, k, st, ht⟩⟩
  | collect =>
    obtain ⟨h, op, k, st, i, c, r, ht, hc, hr, rfl⟩ := collectStep_eq hs
    rw [resume_calls]
    exact .set hsa hc (.finish (by simp [Label.finishes, Fleet.awaited, ht]) (.inl (by simp [hr])))
  | expire =>
    obtain ⟨h, op, k, st, i, c, ht, hc, hd, hp, rfl⟩ := expireStep_eq hs
    rw [resume_calls]
    exact .set hsa hc (.finish (by simp [Label.finishes, Fleet.awaited, ht]) (.inr ⟨hd, hp⟩))
  | otherCall h op deadline =>
    obtain ⟨ho, rfl | ⟨c, hre, rfl⟩⟩ := otherStep_eq hs
    · exact hk rfl
    · exact .append hsa ⟨rfl, rfl, rfl, h, hre, .inr ho⟩
  | otherDone i =>
    obtain ⟨c, hc, hw, hdo, rfl⟩ := otherDoneStep_eq hs
    exact .set hsa hc (.finish ⟨rfl, hw⟩ hdo)
  | send i ok =>
    obtain ⟨c, hc, hp, ⟨s, hst, hret, rfl⟩ | ⟨rfl, rfl⟩⟩ := sendStep_eq hs
    · exact .set hsa hc (.send hp hst hret)
    · exact .set hsa hc (.fail rfl hp)
  | exec i o =>
    obtain ⟨c, s, hc, hcm, hst, rfl⟩ := execStep_eq hs
    exact .set hsa hc (.exec _ rfl hcm hst)
  | deliver i =>
    obtain rfl | ⟨c, r, s, hc, hcm, hst, hse, hp, hn, rfl⟩ := deliverStep_eq hs
    · exact hk rfl
    · exact .set hsa hc (.deliver r hst hse hp hn hcm)
  | restartControl => exact absurd rfl hl
  | restartAgent a =>
    cases hs
    refine .map _ fun i c => ?_
    split
    · rename_i hco
      simp only [and_eq_true, decide_eq_true_eq] at hco
      exact .lose hco.2
    · exact .same
  | tick => rw [(tick_eq hs).2]; exact .refl hsa _
  | _ => exact hk ((step_leaves hs rfl).calls rfl)

theorem step_streams (hl : l ≠ .restartControl) : StreamsMove f l f'.streams := by
  have hsa : ∀ k s, StreamMove l k s s := fun _ _ => .same
  have hk : f'.streams = f.streams → StreamsMove f l f'.streams := by
    intro h
    rw [h]
    exact .refl hsa _
  by_cases hr : l.isReconciler = true
  · exact hk (reconcilerStep_unmoved hs hr hl).streams
  cases l with
  | connect a =>
    cases hs
    exact .append hsa ⟨rfl, rfl⟩
  | count c fault =>
    obtain ⟨s, hst, ho, rfl | ⟨-, rfl⟩ | ⟨h, -, rfl⟩⟩ := countStep_eq hs
    · exact .set hsa hst (.refuse ho)
    · exact .set hsa hst (.count _ _ rfl ho)
    · exact .set hsa hst (.count _ _ rfl ho)
  | register c id =>
    obtain ⟨s, cpus, memMB, hosts, hst, hp, -, rfl⟩ := registerStep_eq hs
    exact .set hsa hst (.register id rfl hp)
  | add c =>
    obtain ⟨a, h, hst, rfl⟩ := addStep_eq hs
    exact .set hsa hst (.add rfl)
  | streamEnd c =>
    obtain ⟨a, h, hst, rfl⟩ := streamEndStep_eq hs
    exact .set hsa hst (.streamEnd rfl)
  | remove c =>
    obtain ⟨a, h, hst, rfl⟩ := removeStep_eq hs
    exact .set hsa hst (.remove rfl)
  | markDown c =>
    obtain ⟨a, h, hst, rfl⟩ := markDownStep_eq hs
    exact .set hsa hst (.markDown rfl rfl)
  | restartControl => exact absurd rfl hl
  | _ => first | exact absurd rfl hr | exact hk ((step_leaves hs rfl).streams rfl)

end

theorem StreamMove.returned (h : StreamMove l k s s') (hs : s.phase = .returned) : s' = s := by
  cases h with
  | same => rfl
  | count _ _ _ hp => simp [hs] at hp
  | refuse hp | register _ _ hp | add hp | streamEnd hp | remove hp | markDown _ hp =>
    simp [hs] at hp

theorem StreamMove.agent (h : StreamMove l k s s') : s'.agent = s.agent := by
  cases h <;> rfl

theorem step_registry (hs : step d f l = some f') (hk : f'.registry h = some k) :
    f.registry h = some k ∨ ∃ s, f.streams[k]? = some s ∧ s.host = some h := by
  cases l with
  | add c =>
    obtain ⟨a, h', hst, rfl⟩ := addStep_eq hs
    dsimp only at hk
    split at hk
    · rename_i he
      cases hk
      exact .inr ⟨_, hst, congrArg some he.symm⟩
    · exact .inl hk
  | remove c =>
    obtain ⟨a, h', -, rfl⟩ := removeStep_eq hs
    dsimp only at hk
    split at hk
    · cases hk
    · exact .inl hk
  | restartControl =>
    cases hs
    cases hk
  | _ =>
    refine .inl (Eq.trans (congrFun (Eq.symm ?_) h) hk)
    first
    | exact (reconcilerStep_unmoved hs rfl (by simp)).registry
    | exact (step_leaves hs rfl).registry rfl

/-- A host stays connected through a stream while no other is added for it and none is removed. -/
theorem step_registry_of_ne (hs : step d f l = some f') (hl : l ≠ .restartControl)
    (hn : ∀ c s, l = .add c ∨ l = .remove c → f.streams[c]? = some s → s.host ≠ some h) :
    f'.registry h = f.registry h := by
  cases l with
  | add c =>
    obtain ⟨a, h', hst, rfl⟩ := addStep_eq hs
    have hne := hn c _ (.inl rfl) hst
    simp only [ne_eq, Option.some.injEq] at hne
    simp [Ne.symm hne]
  | remove c =>
    obtain ⟨a, h', hst, rfl⟩ := removeStep_eq hs
    have hne := hn c _ (.inr rfl) hst
    simp only [ne_eq, Option.some.injEq] at hne
    simp [Ne.symm hne]
  | _ =>
    refine congrFun ?_ h
    first
    | exact (reconcilerStep_unmoved hs rfl hl).registry
    | exact (step_leaves hs rfl).registry rfl

def StreamPhase.early : StreamPhase → Bool
  | .opened => true
  | .counted _ _ => true
  | _ => false

/-- Streams, registry and calls fit together: a stream has a host once it is registered,
and calls are made on such streams only. -/
structure Wired (f : Fleet) : Prop where
  late : ∀ (k : Nat) s h, f.streams[k]? = some s → s.host = some h → s.phase.early = false
  registry : ∀ h k, f.registry h = some k → ∃ s, f.streams[k]? = some s ∧ s.host = some h
  calls : ∀ (i : Nat) c, f.calls[i]? = some c → ∃ s h, f.streams[c.conn]? = some s ∧ s.host = some h

theorem StreamMove.host (hm : StreamMove l k s s') (hh : s.host = some h)
    (hl : s.phase.early = false) : s'.host = some h := by
  cases hm with
  | register _ _ hp => simp [hp, StreamPhase.early] at hl
  | _ => exact hh

theorem StreamMove.late (hm : StreamMove l k s s')
    (hl : ∀ h, s.host = some h → s.phase.early = false) :
    ∀ h, s'.host = some h → s'.phase.early = false := by
  intro h hh
  cases hm with
  | same => exact hl h hh
  | count _ _ _ hp => simp [hp, StreamPhase.early] at hl; exact absurd hh (hl h)
  | _ => rfl

section

variable {c : HubCall} (hm : CallMove f l i c c')
include hm

theorem CallMove.conn : c'.conn = c.conn := by
  cases hm <;> rfl

theorem CallMove.op : c'.op = c.op := by
  cases hm <;> rfl

theorem CallMove.deadline : c'.deadline = c.deadline := by
  cases hm <;> rfl

end

theorem Wired.step (h : Wired f) (hs : step d f l = some f') : Wired f' := by
  by_cases hl : l = .restartControl
  · subst hl
    cases hs
    refine ⟨?_, (fun _ _ hk => by cases hk), ?_⟩
    · intro k s host hk _
      simp only [Fleet.restartControl, List.getElem?_map, Option.map_eq_some_iff] at hk
      obtain ⟨s', -, rfl⟩ := hk
      rfl
    intro i c hc
    simp only [Fleet.restartControl, List.getElem?_map, Option.map_eq_some_iff] at hc ⊢
    obtain ⟨c', hc', rfl⟩ := hc
    obtain ⟨s, host, hst, hh⟩ := h.calls i c' hc'
    exact ⟨_, host, ⟨s, hst, rfl⟩, hh⟩
  · have hstr := step_streams hs hl
    have hst : ∀ (k : Nat) (host : HostID), (∃ s, f.streams[k]? = some s ∧ s.host = some host) →
        ∃ s, f'.streams[k]? = some s ∧ s.host = some host := by
      rintro k host ⟨s, hk, hh⟩
      obtain ⟨s', hk', hm⟩ := hstr.old k s hk
      exact ⟨s', hk', hm.host hh (h.late k s host hk hh)⟩
    refine ⟨?_, ?_, ?_⟩
    · intro k s' host hk hh
      rcases hstr.new k s' hk with ⟨s, hs', hm⟩ | ⟨-, hn, -⟩
      · exact hm.late (fun host' => h.late k s host' hs') host hh
      · rw [hn] at hh
        cases hh
    · intro host k hk
      rcases step_registry hs hk with ho | hne
      · exact hst k host (h.registry host k ho)
      · exact hst k host hne
    intro i c' hc'
    rcases (step_calls hs hl).new i c' hc' with ⟨c, hc, hm⟩ | ⟨-, -, -, -, host, hr, -⟩
    · obtain ⟨s, host, hk, hh⟩ := h.calls i c hc
      obtain ⟨s', hs', hh'⟩ := hst c.conn host ⟨s, hk, hh⟩
      exact ⟨s', host, hm.conn ▸ hs', hh'⟩
    · obtain ⟨s', hs', hh'⟩ := hst c'.conn host (h.registry host _ hr)
      exact ⟨s', host, hs', hh'⟩

theorem Wired.init : Wired .init := by
  refine ⟨?_, ?_, ?_⟩
  · intro k s h hk
    simp [Fleet.init] at hk
  · intro h k hk
    cases hk
  · intro i c hc
    simp [Fleet.init] at hc

end Step

end Craftling.Control

import Craftling.Effects.Lines
import Craftling.Control.Batches
import Craftling.Control.Departed

namespace Craftling.Control
open Effects List Option Prog Call

structure Listed where
  row : GameServer
  updatedAt : Time
  deriving DecidableEq, Repr

/-- The server table with the times of its rows' last updates, the time of the database's
latest write, and the rows that the last ListReconcilable gave. -/
structure Queue where
  rows : List GameServer
  updatedAt : ServerID → Time
  clock : Time
  batch : List Listed

def Queue.Waiting (q : Queue) (id : ServerID) : Prop :=
  ∃ r, q.rows[id]? = some r ∧ r.reconcilable = true

def Queue.listed (q : Queue) (s : GameServer) : Listed := ⟨s, q.updatedAt s.id⟩

def Queue.written (q : Queue) (e : Call) (now : Time) : Queue :=
  match e.writes now with
  | none => q
  | some (id, g) =>
    { q with
      rows := updateRow q.rows id g
      updatedAt := fun i => if e.bumps q.rows = some i then now else q.updatedAt i
      clock := now }

/-- The statements on the server table go through. What the agents, the inventory and the
meter answer is left open. -/
def Call.goesThrough : (e : Call) → Answer e → Prop
  | .markLost _ _, r | .markHealth _ _ _ _, r | .markBackedUp _, r | .markStatus _ _ _, r
  | .markRunning _ _ _ _, r | .assignHost _ _, r | .unassignHost _, r | .markStopped _, r
  | .softDelete _, r => r = .ok ()
  | _, _ => True

/-- What a call may be answered and what becomes of the table. Each write has a time of its
own. -/
def Queue.Performs (q : Queue) : (e : Call) → Answer e → Queue → Prop
  | .listRunning, r, q' =>
    (∃ order : Order, order.byUpdate q.updatedAt ∧ r = .ok (listRunning order q.rows)) ∧ q' = q
  | .listReconcilable, r, q' =>
    ∃ order : Order, order.byUpdate q.updatedAt ∧ r = .ok (listReconcilable order q.rows) ∧
      q' = { q with batch := (listReconcilable order q.rows).map q.listed }
  | e, r, q' => e.goesThrough r ∧ ∃ now, q.clock < now ∧ q' = q.written e now

/-- What others do to the table between two calls of a tick: they create rows and edit them,
and every such statement sets the time of update. -/
structure Outside (q q' : Queue) : Prop where
  clock : q.clock ≤ q'.clock
  numbered : Numbered q'.rows
  rows : ∀ id, (q'.rows[id]? = q.rows[id]? ∧ q'.updatedAt id = q.updatedAt id) ∨
    (q.clock < q'.updatedAt id ∧ q'.updatedAt id ≤ q'.clock)
  batch : q'.batch = q.batch

structure Quiet (q q' : Queue) : Prop extends Outside q q' where
  waiting : ∀ id, q'.Waiting id ↔ q.Waiting id
  kept : ∀ id, q.Waiting id → q'.updatedAt id = q.updatedAt id

/-- What is asked of the others, and of the answers to a tick's calls. -/
structure Terms where
  outside : Queue → Queue → Prop
  answers : Queue → (e : Call) → Answer e → Prop

def Terms.Goes (t : Terms) (q : Queue) (e : Call) (r : Answer e) (q' : Queue) : Prop :=
  ∃ q1, t.outside q q1 ∧ q1.Performs e r q' ∧ t.answers q1 e r

def Terms.Tick (t : Terms) (cfg : Config) (q q' : Queue) : Prop :=
  Prog.Ends t.Goes q (reconcileOnce cfg) () q'

inductive Terms.Ticks (t : Terms) (cfg : Config) : Queue → List (List Listed) → Queue → Prop where
  | nil (q : Queue) : t.Ticks cfg q [] q
  | cons {q q1 q' : Queue} {batches : List (List Listed)} :
      t.Tick cfg q q1 → t.Ticks cfg q1 batches q' → t.Ticks cfg q (q1.batch :: batches) q'

/-- The server is wanted up and is up: only a backup can be left to do. -/
def GameServer.atRest (s : GameServer) : Bool := s.desired = .running && s.status = .running

/-- The snapshot of a listed server that is up goes well: the server has a host and its agent
reports no error. -/
def Saves (q : Queue) : (e : Call) → Answer e → Prop
  | .listReconcilable, r =>
    ∀ rows, r = .ok rows → ∀ s ∈ rows, s.atRest = true → s.vmID.isSome → s.hostID.isSome
  | .command _ (.snapshot v), r =>
    (∃ x ∈ q.batch, x.row.atRest = true ∧ x.row.vmID = some v) → ∃ view, r = .ok view
  | _, _ => True

def Retains (q : Queue) (e : Call) : Prop :=
  ∀ id message, e = .markLost id message → e.bumps q.rows = none

/-- Nobody else moves a row in the queue, and agents answer as they like. -/
def Terms.free : Terms := ⟨Quiet, fun _ _ _ => True⟩

/-- Others do what they like, and the snapshots of servers that are up go well. -/
def Terms.saving : Terms := ⟨Outside, Saves⟩

/-- The snapshots of servers that are up go well, and nothing but the work on the listed rows
moves a row in the queue. -/
def Terms.undisturbed : Terms := ⟨Quiet, fun q e r => Saves q e r ∧ Retains q e⟩

structure Queue.Valid (q : Queue) : Prop where
  numbered : Numbered q.rows
  past : ∀ id, q.updatedAt id ≤ q.clock

theorem markedHealth_reconcilable (s : GameServer) (reachable : Bool) (online max : Int)
    (now : Time) : (s.markedHealth reachable online max now).reconcilable = s.reconcilable := by
  unfold GameServer.markedHealth
  split <;> rfl

variable {e : Call} {cfg : Config} {rows : List GameServer} {ids : List ServerID} {q q' q1 : Queue}
    {id : ServerID} {now : Time}

theorem Call.bumps_eq (now : Time) (h : e.bumps rows = some i) :
    ∃ g, e.writes now = some (i, g) := by
  cases e with
  | markLost id message =>
    simp only [Call.bumps] at h
    split at h
    · cases h
      exact ⟨_, rfl⟩
    · cases h
  | _ => cases h <;> exact ⟨_, rfl⟩

theorem Call.reconcilable_of_not_bumps (hw : e.writes now = some (id, g))
    (hb : e.bumps rows ≠ some id) (hr : rows[id]? = some r) :
    (g r).reconcilable = r.reconcilable := by
  cases e <;> cases hw
  case markLost message =>
    simp only [Call.bumps, hr, any_some] at hb
    split at hb
    · exact absurd rfl hb
    rename_i hg
    simp only [GameServer.markedLost, hg]
    rfl
  case markHealth => exact markedHealth_reconcilable ..
  all_goals exact absurd rfl hb

/-- What a call does: it moves rows of the table only by updating them, and a row that it
does not update waits as it did. -/
structure Moves (q : Queue) (e : Call) (q' : Queue) : Prop where
  clock : q.clock ≤ q'.clock
  valid : q.Valid → q'.Valid
  batch : e ≠ .listReconcilable → q'.batch = q.batch
  bumped : ∀ i, e.bumps q.rows = some i → q.clock < q'.updatedAt i
  waiting : ∀ i, e.bumps q.rows ≠ some i → (q'.Waiting i ↔ q.Waiting i)
  kept : ∀ i, e.bumps q.rows ≠ some i → q'.updatedAt i = q.updatedAt i

theorem written_moves (q : Queue) (e : Call) (hn : q.clock < now) :
    Moves q e (q.written e now) := by
  unfold Queue.written
  split
  · rename_i hw
    refine ⟨le_rfl, id, fun _ => rfl, ?_, fun _ _ => Iff.rfl, fun _ _ => rfl⟩
    intro i hi
    obtain ⟨g, hg⟩ := bumps_eq now hi
    rw [hw] at hg
    cases hg
  rename_i id g hw
  refine ⟨hn.le, ?_, fun _ => rfl, ?_, ?_, ?_⟩
  · intro hv
    refine ⟨hv.numbered.updateRow id fun s => (writes_core hw rfl).2, fun i => ?_⟩
    simp only
    split
    · exact le_rfl
    · exact (hv.past i).trans hn.le
  · intro i hi
    simpa [hi] using hn
  · intro i hi
    simp only [Queue.Waiting, getElem?_updateRow]
    split
    · subst i
      constructor
      · rintro ⟨r', hr', hwa⟩
        obtain ⟨r, hr, rfl⟩ := map_eq_some_iff.mp hr'
        rw [reconcilable_of_not_bumps hw hi hr] at hwa
        exact ⟨r, hr, hwa⟩
      rintro ⟨r, hr, hwa⟩
      refine ⟨g r, by rw [hr]; rfl, ?_⟩
      rw [reconcilable_of_not_bumps hw hi hr]
      exact hwa
    · exact Iff.rfl
  · intro i hi
    simp [hi]

theorem Queue.Performs.moves (h : q.Performs e r q') : Moves q e q' := by
  cases e with
  | listRunning =>
    obtain ⟨-, rfl⟩ := h
    exact ⟨le_rfl, id, fun _ => rfl, (fun i hi => by cases hi), fun _ _ => Iff.rfl, fun _ _ => rfl⟩
  | listReconcilable =>
    obtain ⟨order, -, -, rfl⟩ := h
    exact ⟨le_rfl, fun hv => ⟨hv.numbered, hv.past⟩, fun hn => absurd rfl hn,
      (fun i hi => by cases hi), fun _ _ => Iff.rfl, fun _ _ => rfl⟩
  | _ =>
    obtain ⟨-, now, hno, rfl⟩ := h
    exact written_moves _ _ hno

theorem Outside.valid (h : Outside q q') (hv : q.Valid) : q'.Valid := by
  refine ⟨h.numbered, fun id => ?_⟩
  rcases h.rows id with ⟨-, hs⟩ | ⟨-, hl⟩
  · rw [hs]
    exact (hv.past id).trans h.clock
  · exact hl

structure Terms.Sound (t : Terms) : Prop where
  outside : ∀ {q q' : Queue}, t.outside q q' → Outside q q'
  saves : ∀ {q : Queue} {e : Call} {r : Answer e}, t.answers q e r → Saves q e r

/-- If the row still waits, it has been updated since `c`. -/
def Queue.Later (q : Queue) (c : Time) (id : ServerID) : Prop :=
  q.Waiting id → c < q.updatedAt id

section Goes

variable {t : Terms} {q q' : Queue} {e : Call} {r : Answer e} {c : Time} {id : ServerID}

section

variable (h : t.Goes q e r q') (ht : t.Sound)
include h ht

theorem Terms.Goes.clock : q.clock ≤ q'.clock := by
  obtain ⟨q1, ho, hp, -⟩ := h
  exact (ht.outside ho).clock.trans hp.moves.clock

theorem Terms.Goes.valid (hv : q.Valid) : q'.Valid := by
  obtain ⟨q1, ho, hp, -⟩ := h
  exact hp.moves.valid ((ht.outside ho).valid hv)

theorem Terms.Goes.batch (he : e ≠ .listReconcilable) : q'.batch = q.batch := by
  obtain ⟨q1, ho, hp, -⟩ := h
  exact (hp.moves.batch he).trans (ht.outside ho).batch

/-- A row that has been updated since `c` stays so, whatever is called. -/
theorem Terms.Goes.later (hc : c ≤ q.clock) (hl : q.Later c id) : q'.Later c id := by
  obtain ⟨q1, ho, hp, -⟩ := h
  have hm := hp.moves
  have hcl := (ht.outside ho).clock
  intro hw
  by_cases hb : e.bumps q1.rows = some id
  · exact (hc.trans hcl).trans_lt (hm.bumped id hb)
  rw [hm.kept id hb]
  rcases (ht.outside ho).rows id with ⟨hr, hs⟩ | ⟨hlt, -⟩
  · have hw1 : q1.Waiting id := (hm.waiting id hb).mp hw
    unfold Queue.Waiting at hw1
    rw [hr] at hw1
    rw [hs]
    exact hl hw1
  · exact hc.trans_lt hlt

theorem Terms.Goes.updated (hc : c ≤ q.clock)
    (hb : ∀ rows, e.bumps rows = some id) : q'.Later c id := by
  obtain ⟨q1, ho, hp, -⟩ := h
  intro _
  exact (hc.trans (ht.outside ho).clock).trans_lt (hp.moves.bumped id (hb q1.rows))

end

end Goes

/-- The program fails, or the row has been updated since `c` if it still waits. -/
def Clears (t : Terms) (c : Time) (id : ServerID) (q : Queue) (p : Act (Except Err α)) : Prop :=
  Brings t.Goes q p fun q' r => c ≤ q'.clock ∧ ((∃ e, r = .error e) ∨ q'.Later c id)

section Clears

variable {t : Terms} {c : Time} {id : ServerID} {q : Queue}

theorem clock_kept (ht : t.Sound) (p : Act α) (hc : c ≤ q.clock) :
    Brings t.Goes q p fun q' _ => c ≤ q'.clock :=
  Prog.Ensures.of_only (fun _ _ _ _ _ hg hl => hl.trans (hg.clock ht)) (.any p) hc

theorem later_kept (ht : t.Sound) (p : Act α) (hc : c ≤ q.clock) (hl : q.Later c id) :
    Brings t.Goes q p fun q' _ => c ≤ q'.clock ∧ q'.Later c id :=
  Prog.Ensures.of_only (fun _ _ _ _ _ hg h => ⟨h.1.trans (hg.clock ht), hg.later ht h.1 h.2⟩)
    (.any p) ⟨hc, hl⟩

theorem Clears.failed (hc : c ≤ q.clock) (e : Err) :
    Clears t c id q (.done (.error e) : Act (Except Err α)) := .done ⟨hc, .inl ⟨e, rfl⟩⟩

section

variable (ht : t.Sound) (hc : c ≤ q.clock)
include ht hc

theorem Clears.of_later (hl : q.Later c id)
    (p : Act (Except Err α)) : Clears t c id q p :=
  (later_kept ht p hc hl).mono fun _ _ h => ⟨h.1, .inr h.2⟩

theorem Clears.update (hb : ∀ rows, e.bumps rows = some id)
    (k : Answer e → Act (Except Err α)) : Clears t c id q (.call e k) :=
  .call fun r _ hg => Clears.of_later ht (hc.trans (hg.clock ht)) (hg.updated ht hc hb) (k r)

theorem Clears.after (p : Act β)
    (h : ∀ a q', c ≤ q'.clock → Clears t c id q' (f a)) : Clears t c id q (p.bind f) :=
  .bind ((clock_kept ht p hc).mono fun q' a hc' => h a q' hc')

end

theorem Clears.onOk (hc : c ≤ q.clock) (r : Except Err β) {next : β → Act (Except Err α)}
    (h : ∀ a, r = .ok a → Clears t c id q (next a)) : Clears t c id q (onOk r next) :=
  Brings.onOk (fun e _ => ⟨hc, .inl ⟨e, rfl⟩⟩) h

theorem Clears.andThen (ht : t.Sound) {p : Act (Except Err β)} (hp : Clears t c id q p)
    (next : β → Act (Except Err α)) :
    Clears t c id q (p.bind fun r => Control.onOk r next) := by
  refine .bind (Brings.mono hp fun q' r he => ?_)
  obtain ⟨hc', he⟩ := he
  refine Clears.onOk hc' r fun a ho => ?_
  rcases he with ⟨e, her⟩ | hl
  · rw [ho] at her
    cases her
  · exact .of_later ht hc' hl (next a)

end Clears

section Reconcile

variable {t : Terms} {c : Time} {q : Queue} {s : GameServer} {cfg : Config}

section

variable (ht : t.Sound) (hc : c ≤ q.clock)
include ht hc

theorem boot_clears (provisioned : Bool) : Clears t c s.id q (boot cfg s provisioned) :=
  .update ht hc (e := .markStatus s.id .provisioning "") (fun _ => rfl) _

theorem place_clears : Clears t c s.id q (place s) := by
  refine .after ht hc (schedule s) fun r q1 hc1 => ?_
  split
  · exact .update ht hc1 (fun _ => rfl) _
  · exact .failed hc1 _
  · rename_i h
    exact .update ht hc1 (e := .assignHost s.id h) (fun _ => rfl) _

theorem dropStalePlacement_same :
    Brings t.Goes q (dropStalePlacement s) fun q' r =>
      c ≤ q'.clock ∧ ∀ s', r = .ok s' → s'.id = s.id := by
  unfold dropStalePlacement
  split
  · exact .done ⟨hc, fun s' hs => by cases hs; rfl⟩
  rename_i h _
  refine .bind ((clock_kept ht (placeable h) hc).mono fun q1 r hc1 => ?_)
  refine .onOk (fun e _ => ⟨hc1, fun s' hs => by cases hs⟩) fun ready _ => ?_
  split
  · exact .done ⟨hc1, fun s' hs => by cases hs; rfl⟩
  refine .call fun _ q2 hg => .call fun r q3 hg' => ?_
  have hc3 := (hc1.trans (hg.clock ht)).trans (hg'.clock ht)
  exact .onOk (fun e _ => ⟨hc3, fun s' hs => by cases hs⟩) fun _ _ =>
    .done ⟨hc3, fun s' hs => by cases hs; rfl⟩

theorem start_clears (hs : s.status ≠ .running) : Clears t c s.id q (start cfg s) := by
  unfold start
  rw [if_neg hs]
  split
  · exact boot_clears ht hc true
  refine .bind ((dropStalePlacement_same ht hc).mono fun q1 r hsa => ?_)
  obtain ⟨hc1, hsa⟩ := hsa
  refine Clears.onOk hc1 r fun s' hr => ?_
  rw [← hsa s' hr]
  split
  · exact (place_clears ht hc1).andThen ht _
  · exact boot_clears ht hc1 false

theorem stop_clears (hs : s.status ≠ .stopped) : Clears t c s.id q (stop cfg s) := by
  unfold stop
  rw [if_neg hs]
  exact .update ht hc (e := .markStatus s.id .stopping "") (fun _ => rfl) _

theorem finalizeDelete_clears : Clears t c s.id q (finalizeDelete cfg s) :=
  .after ht hc (releaseHost s) fun _ _ hc1 =>
    .update ht hc1 (e := .softDelete s.id) (fun _ => rfl) _

theorem teardown_clears : Clears t c s.id q (teardown cfg s) := by
  refine .after ht hc (Remote.deprovision s) fun r q1 hc1 => ?_
  split
  · exact finalizeDelete_clears ht hc1
  refine .after ht hc1 (hostReachable s) fun r' q2 hc2 => .onOk hc2 r' fun reachable _ => ?_
  split
  · exact .failed hc2 _
  · exact finalizeDelete_clears ht hc2

theorem delete_clears : Clears t c s.id q (delete cfg s) := by
  unfold delete
  split
  · exact .update ht hc (e := .markStatus s.id .deleting "") (fun _ => rfl) _
  · exact teardown_clears ht hc

end

def GameServer.converged (s : GameServer) : Bool :=
  s.atRest || (s.desired = .stopped && s.status = .stopped)

theorem converge_clears (ht : t.Sound) (hc : c ≤ q.clock) (hd : s.desired ≠ .deleted)
    (hs : s.converged = false) : Clears t c s.id q (converge cfg s) := by
  unfold converge
  split
  · rename_i hd'
    refine stop_clears ht hc fun hst => ?_
    simp [GameServer.converged, hd', hst] at hs
  · rename_i hd'
    refine start_clears ht hc fun hr => ?_
    simp [GameServer.converged, GameServer.atRest, hd', hr] at hs
  · rename_i hd'
    exact absurd hd' hd

theorem backup_later (ht : t.Sound) (hc : c ≤ q.clock) (hb : ∃ x ∈ q.batch, x.row = s)
    (hs : s.converged = true) (hho : s.atRest = true → s.vmID.isSome → s.hostID.isSome) :
    Brings t.Goes q (backup s) fun q' _ => c ≤ q'.clock ∧ q'.Later c s.id := by
  have hm : ∀ q1 : Queue, c ≤ q1.clock → Brings t.Goes q1
      ((ask (.markBackedUp s.id)).bind fun _ => .done ()) fun q' _ =>
        c ≤ q'.clock ∧ q'.Later c s.id := fun q1 hc1 =>
    .call fun _ _ hg => .done ⟨hc1.trans (hg.clock ht), hg.updated ht hc1 fun _ => rfl⟩
  unfold backup
  split
  · exact hm q hc
  rename_i hup
  simp only [ne_eq, decide_not, Bool.or_eq_true, Bool.not_eq_true', decide_eq_false_iff_not,
    isNone_iff_eq_none, not_or, not_not] at hup
  obtain ⟨hr, hvm⟩ := hup
  have hre : s.atRest = true := by simpa [GameServer.converged, hr] using hs
  obtain ⟨v, hv⟩ := ne_none_iff_exists'.mp hvm
  obtain ⟨h, hh⟩ := isSome_iff_exists.mp (hho hre (by simp [hv]))
  simp only [Remote.snapshot, hv, assignedHost, hh, Control.onOk]
  refine .call fun r q1 hg => ?_
  have hc1 := hc.trans (hg.clock ht)
  obtain ⟨q2, ho, -, ha⟩ := hg
  obtain ⟨x, hx, rfl⟩ := hb
  obtain ⟨view, rfl⟩ := ht.saves ha ⟨x, (ht.outside ho).batch ▸ hx, hre, hv⟩
  exact hm q1 hc1

structure InHand (q : Queue) (s : GameServer) : Prop where
  batch : ∃ x ∈ q.batch, x.row = s
  reconcilable : s.reconcilable = true
  placed : s.atRest = true → s.vmID.isSome → s.hostID.isSome

theorem InHand.backupRequested (hs : InHand q s) (hc : s.converged = true) :
    s.backupRequested = true := by
  have hr := hs.reconcilable
  simp only [GameServer.converged, GameServer.atRest, Bool.or_eq_true, Bool.and_eq_true,
    decide_eq_true_eq] at hc
  cases hb : s.backupRequested with
  | true => rfl
  | false =>
    rcases hc with ⟨hd, hst⟩ | ⟨hd, hst⟩ <;> simp [GameServer.reconcilable, hd, hst, hb] at hr

theorem reconcile_clears (ht : t.Sound) (hc : c ≤ q.clock) (hs : InHand q s) :
    Clears t c s.id q (reconcile cfg s) := by
  unfold reconcile
  split
  · exact delete_clears ht hc
  rename_i hd
  cases hco : s.converged with
  | false =>
    split
    · exact .after ht hc (backup s) fun _ _ hc1 => converge_clears ht hc1 hd hco
    · exact converge_clears ht hc hd hco
  | true =>
    -- only the backup is left to do
    rw [if_pos (hs.backupRequested hco)]
    refine .bind ((backup_later ht hc hs.batch hco hs.placed).mono fun q1 _ he => ?_)
    exact Clears.of_later ht he.1 he.2 _

end Reconcile

def Call.Minds (id : ServerID) (e : Call) : Prop :=
  e ≠ .listReconcilable ∧ ∀ rows i, e.bumps rows = some i → i = id

theorem does_minds {Q : Work → α → Prop} (h : Does cfg w p Q) : p.Only (Call.Minds w.row.id) := by
  induction p generalizing w with
  | done a => trivial
  | call e k ih =>
    obtain ⟨hm, hr⟩ := h.of_call
    refine ⟨⟨?_, ?_⟩, fun r => ?_⟩
    · rintro rfl
      exact hm
    · intro rows i hb
      obtain ⟨g, hw⟩ := bumps_eq 0 hb
      exact w.may_writes 0 hm hw
    · have hl := ih r (hr r)
      rwa [Work.next_id] at hl

def reconcileOne (cfg : Config) (s : GameServer) : Act Unit := do
  ask (.enter s.id)
  match ← reconcile cfg s with
  | .ok _ => pure ()
  | .error e => let _ ← ask (.markStatus s.id .error e.text)
  ask (.leave s.id)

theorem reconcileEach_cons (cfg : Config) (s : GameServer) (rest : List GameServer) :
    reconcileEach cfg (s :: rest) = (reconcileOne cfg s).bind fun _ => reconcileEach cfg rest := by
  simp only [reconcileEach, reconcileOne, Prog.bind_eq, Prog.bind_assoc]
  congr 1
  funext _
  congr 1
  funext r
  cases r with
  | ok u => rfl
  | error e => rfl

theorem reconcileOne_minds (cfg : Config) (s : GameServer) :
    (reconcileOne cfg s).Only (Call.Minds s.id) := by
  have hl : (ask (.leave s.id)).Only (Call.Minds s.id) :=
    ⟨⟨by simp, fun rows i h => by cases h⟩, fun _ => trivial⟩
  refine ⟨⟨by simp, fun rows i h => by cases h⟩, fun _ => ?_⟩
  simp only [done_bind]
  refine Prog.Only.bind (does_minds (reconcile_does (.on s))) fun r => ?_
  cases r with
  | ok u => exact hl
  | error e => exact ⟨⟨by simp, fun rows i h => by cases h; rfl⟩, fun _ => hl⟩

section Batch

variable {t : Terms} {c : Time} {q : Queue} (cfg : Config)

/-- An error is put on record, so that the row has been updated either way. -/
theorem reconcileOne_later (ht : t.Sound) (hc : c ≤ q.clock) (hs : InHand q s) :
    Brings t.Goes q (reconcileOne cfg s) fun q' _ => c ≤ q'.clock ∧ q'.Later c s.id := by
  refine .call fun _ q1 hg => ?_
  have hc1 := hc.trans (hg.clock ht)
  have hs1 : InHand q1 s := by
    refine ⟨?_, hs.reconcilable, hs.placed⟩
    rw [hg.batch ht (by simp)]
    exact hs.batch
  rw [done_bind]
  refine .bind (Brings.mono (reconcile_clears ht hc1 hs1) fun q2 r hen => ?_)
  obtain ⟨hc2, hen⟩ := hen
  cases r with
  | ok u =>
    rcases hen with ⟨e, he⟩ | hl
    · cases he
    · exact later_kept ht (ask (.leave s.id)) hc2 hl
  | error e =>
    refine .call fun _ q3 hg' => ?_
    exact later_kept ht (ask (.leave s.id)) (hc2.trans (hg'.clock ht))
      (hg'.updated ht hc2 fun _ => rfl)

theorem batch_kept (ht : t.Sound) {id : ServerID} (hp : p.Only (Call.Minds id)) :
    Brings t.Goes q p fun q' _ => q'.batch = q.batch :=
  Prog.Ensures.of_only (fun _ _ _ _ he hg h => (hg.batch ht he.1).trans h) hp rfl

theorem reconcileEach_later (ht : t.Sound) (hc : c ≤ q.clock) (hs : ∀ s ∈ servers, InHand q s) :
    Brings t.Goes q (reconcileEach cfg servers) fun q' _ =>
      q'.batch = q.batch ∧ ∀ s ∈ servers, q'.Later c s.id := by
  induction servers generalizing q with
  | nil => exact .done ⟨rfl, fun s hs => absurd hs not_mem_nil⟩
  | cons s rest ih =>
    rw [reconcileEach_cons]
    have ho := (reconcileOne_later cfg ht hc (hs s mem_cons_self)).and
      (batch_kept ht (reconcileOne_minds cfg s))
    refine .bind (ho.mono fun q1 _ he => ?_)
    obtain ⟨⟨hc1, hl⟩, hb⟩ := he
    have hs1 : ∀ s' ∈ rest, InHand q1 s' := by
      intro s' hs'
      obtain ⟨hm, hr, hp⟩ := hs s' (.tail _ hs')
      exact ⟨hb ▸ hm, hr, hp⟩
    refine ((ih hc1 hs1).and (later_kept ht _ hc1 hl)).mono fun q2 _ he => ?_
    obtain ⟨⟨hb', hre⟩, -, hl'⟩ := he
    refine ⟨hb'.trans hb, ?_⟩
    intro s' hs'
    rcases mem_cons.mp hs' with rfl | hs'
    · exact hl'
    · exact hre s' hs'

theorem listed_later (ht : t.Sound) (hv : q.Valid) :
    Brings t.Goes q ((ask .listReconcilable).bind fun r =>
        match r with
        | .error _ => .done ()
        | .ok servers => reconcileEach cfg servers) fun q' _ =>
      ∀ x ∈ q'.batch, q'.Later x.updatedAt x.row.id := by
  refine .call fun r q2 hg => ?_
  obtain ⟨q1, ho, ⟨order, -, rfl, rfl⟩, ha⟩ := hg
  have hv1 := (ht.outside ho).valid hv
  generalize hq2 : { q1 with batch := (listReconcilable order q1.rows).map q1.listed } = q2
  have hs : ∀ s ∈ listReconcilable order q1.rows, InHand q2 s := by
    intro s hs
    subst hq2
    exact ⟨⟨q1.listed s, mem_map_of_mem hs, rfl⟩, ((listed hv1.numbered order _).1 s hs).2,
      ht.saves ha _ rfl s hs⟩
  refine (reconcileEach_later cfg (c := q1.clock) ht (hq2 ▸ le_rfl) hs).mono fun q' _ he => ?_
  obtain ⟨hb, hl⟩ := he
  intro x hx hw
  rw [hb, ← hq2] at hx
  obtain ⟨s, hs, rfl⟩ := mem_map.mp hx
  exact (hv1.past s.id).trans_lt (hl s hs hw)

theorem reconcileOnce_later (ht : t.Sound) (hv : q.Valid) :
    Brings t.Goes q (reconcileOnce cfg) fun q' _ =>
      ∀ x ∈ q'.batch, q'.Later x.updatedAt x.row.id := by
  have hva : Brings t.Goes q (checkLiveness cfg) fun q' _ => q'.Valid :=
    Prog.Ensures.of_only (fun _ _ _ _ _ hg h => hg.valid ht h) (.any _) hv
  exact .bind (hva.mono fun q1 _ hv1 => listed_later cfg ht hv1)

end Batch

structure Elsewhere (ids : List ServerID) (q q' : Queue) : Prop where
  waiting : ∀ i ∉ ids, (q'.Waiting i ↔ q.Waiting i)
  kept : ∀ i ∉ ids, q.Waiting i → q'.updatedAt i = q.updatedAt i

theorem Elsewhere.refl (ids : List ServerID) (q : Queue) : Elsewhere ids q q :=
  ⟨fun _ _ => Iff.rfl, fun _ _ _ => rfl⟩

theorem Elsewhere.trans (h : Elsewhere ids q q1) (h' : Elsewhere ids q1 q2) :
    Elsewhere ids q q2 := by
  refine ⟨fun i hi => (h'.waiting i hi).trans (h.waiting i hi), fun i hi hw => ?_⟩
  rw [h'.kept i hi ((h.waiting i hi).mpr hw), h.kept i hi hw]

theorem Elsewhere.mono (h : Elsewhere ids q q') (hs : ids ⊆ ids') : Elsewhere ids' q q' :=
  ⟨fun i hi => h.waiting i fun hm => hi (hs hm), fun i hi => h.kept i fun hm => hi (hs hm)⟩

theorem Quiet.elsewhere (h : Quiet q q') : Elsewhere [] q q' :=
  ⟨fun i _ => h.waiting i, fun i _ => h.kept i⟩

theorem undisturbed_sound : Terms.undisturbed.Sound := ⟨fun h => h.toOutside, fun h => h.1⟩

theorem Terms.Goes.elsewhere (h : Terms.undisturbed.Goes q e r q')
    (hb : ∀ q1, Retains q1 e → ∀ i, e.bumps q1.rows = some i → i ∈ ids) : Elsewhere ids q q' := by
  obtain ⟨q1, hq, hp, -, hr⟩ := h
  have hm := hp.moves
  have hn : ∀ i ∉ ids, e.bumps q1.rows ≠ some i := fun i hi hbu => hi (hb q1 hr i hbu)
  have ht : Elsewhere ids q1 q' :=
    ⟨fun i hi => hm.waiting i (hn i hi), fun i hi _ => hm.kept i (hn i hi)⟩
  exact (hq.elsewhere.mono (nil_subset ids)).trans ht

/-- The call updates a row only when it gives up a server that was on record as running. -/
def Call.Glances (e : Call) : Prop :=
  (∀ rows, e.bumps rows = none) ∨ ∃ id message, e = .markLost id message

theorem onOk_only {ok : Call → Prop} (r : Except Err α) {next : α → Act (Except Err β)}
    (h : ∀ a, (next a).Only ok) : (onOk r next).Only ok := by
  cases r with
  | error e => trivial
  | ok a => exact h a

section Liveness

variable (cfg : Config) (s : GameServer)

theorem status_glances : (Remote.status s).Only Call.Glances := by
  unfold Remote.status
  split
  · trivial
  · refine onOk_only _ fun h => ⟨.inl fun _ => rfl, fun r => ?_⟩
    exact onOk_only r fun vm => trivial

theorem hostDeadTooLong_glances : (hostDeadTooLong cfg s).Only Call.Glances := by
  unfold hostDeadTooLong
  split
  · trivial
  refine Prog.Only.bind ⟨.inl fun _ => rfl, fun r => onOk_only r fun all => trivial⟩ fun r => ?_
  refine onOk_only r fun last => ?_
  cases last with
  | none => trivial
  | some last => exact ⟨.inl fun _ => rfl, fun now => trivial⟩

theorem markLost_glances (message : String) : (markLost cfg s message).Only Call.Glances := by
  refine ⟨.inr ⟨s.id, message, rfl⟩, fun r => ?_⟩
  cases r with
  | error e => trivial
  | ok u =>
    simp only [done_bind, stopBilling]
    split
    · exact ⟨.inl fun _ => rfl, fun _ => trivial⟩
    · trivial

theorem recordHealth_glances (h : Option Health) : (recordHealth s h).Only Call.Glances := by
  cases h with
  | none => trivial
  | some h =>
    refine ⟨.inl fun _ => rfl, fun now => ?_⟩
    simp only [done_bind]
    split
    · exact ⟨.inl fun _ => rfl, fun _ => trivial⟩
    · trivial

theorem checkServerLiveness_glances : (checkServerLiveness cfg s).Only Call.Glances := by
  refine Prog.Only.bind (status_glances s) fun r => ?_
  cases r with
  | error e =>
    refine Prog.Only.bind (hostDeadTooLong_glances cfg s) fun r => ?_
    split
    · trivial
    · trivial
    · exact markLost_glances cfg s _
  | ok report =>
    simp only
    split
    · exact recordHealth_glances s _
    · exact markLost_glances cfg s _

theorem checkEach_glances (servers : List GameServer) :
    (checkEach cfg servers).Only Call.Glances := by
  induction servers with
  | nil => trivial
  | cons s rest ih =>
    refine ⟨.inl fun _ => rfl, fun _ => ?_⟩
    simp only [done_bind]
    refine Prog.Only.bind (checkServerLiveness_glances cfg s) fun _ => ?_
    exact ⟨.inl fun _ => rfl, fun _ => ih⟩

theorem checkLiveness_glances : (checkLiveness cfg).Only Call.Glances := by
  refine ⟨.inl fun _ => rfl, fun r => ?_⟩
  cases r with
  | error e => trivial
  | ok servers => exact checkEach_glances cfg servers

theorem checkLiveness_elsewhere (hv : q.Valid) :
    Brings Terms.undisturbed.Goes q (checkLiveness cfg) fun q' _ =>
      q'.Valid ∧ q.clock ≤ q'.clock ∧ Elsewhere [] q q' := by
  have hs : ∀ (q1 : Queue) (e : Call) (r : Answer e) (q2 : Queue), e.Glances →
      Terms.undisturbed.Goes q1 e r q2 → q1.Valid ∧ q.clock ≤ q1.clock ∧ Elsewhere [] q q1 →
      q2.Valid ∧ q.clock ≤ q2.clock ∧ Elsewhere [] q q2 := by
    rintro q1 e r q2 hg hgo ⟨hv1, hc, he⟩
    refine ⟨hgo.valid undisturbed_sound hv1, hc.trans (hgo.clock undisturbed_sound), ?_⟩
    refine he.trans (hgo.elsewhere fun q3 hr i hb => ?_)
    rcases hg with hn | ⟨id, message, rfl⟩
    · rw [hn] at hb
      cases hb
    · rw [hr id message rfl] at hb
      cases hb
  exact Prog.Ensures.of_only hs (checkLiveness_glances cfg) ⟨hv, le_rfl, .refl [] q⟩

end Liveness

theorem reconcileEach_elsewhere (cfg : Config) (servers : List GameServer) (hv : q.Valid) :
    Brings Terms.undisturbed.Goes q (reconcileEach cfg servers) fun q' _ =>
      q'.Valid ∧ Elsewhere (servers.map GameServer.id) q q' := by
  have hst : ∀ s ∈ servers, ∀ (q1 : Queue) (e : Call) (r : Answer e) (q2 : Queue),
      e.Minds s.id → Terms.undisturbed.Goes q1 e r q2 →
      q1.Valid ∧ Elsewhere (servers.map GameServer.id) q q1 →
      q2.Valid ∧ Elsewhere (servers.map GameServer.id) q q2 := by
    rintro s hs q1 e r q2 hm hg ⟨hv1, he⟩
    refine ⟨hg.valid undisturbed_sound hv1, he.trans (hg.elsewhere fun q3 _ i hb => ?_)⟩
    rw [hm.2 q3.rows i hb]
    exact mem_map_of_mem hs
  suffices ha : ∀ (todo : List GameServer) (q1 : Queue), todo ⊆ servers →
      q1.Valid ∧ Elsewhere (servers.map GameServer.id) q q1 →
      Brings Terms.undisturbed.Goes q1 (reconcileEach cfg todo) fun q' _ =>
        q'.Valid ∧ Elsewhere (servers.map GameServer.id) q q' from
    ha servers q (List.Subset.refl _) ⟨hv, .refl _ q⟩
  intro todo
  induction todo with
  | nil => exact fun q1 _ h => .done h
  | cons s rest ih =>
    intro q1 hsu h
    rw [reconcileEach_cons]
    have ho := Prog.Ensures.of_only (hst s (hsu mem_cons_self)) (reconcileOne_minds cfg s) h
    exact .bind (Brings.mono ho fun q2 _ h2 =>
      ih q2 (fun s' hs' => hsu (.tail _ hs')) h2)

def Queue.line (q : Queue) : Line ServerID :=
  ⟨((q.rows.filter GameServer.reconcilable).map GameServer.id).toFinset, q.updatedAt⟩

theorem Queue.Valid.mem_line (hv : q.Valid) : id ∈ q.line.waiting ↔ q.Waiting id := by
  simp only [Queue.line, List.mem_toFinset, List.mem_map, List.mem_filter]
  constructor
  · rintro ⟨r, ⟨hr, hre⟩, rfl⟩
    exact ⟨r, hv.numbered.row hr, hre⟩
  · rintro ⟨r, hr, hre⟩
    exact ⟨r, ⟨List.mem_of_getElem? hr, hre⟩, hv.numbered id r hr⟩

theorem numbered_singleton (h : s.id = 0) : Numbered [s] := by
  intro i r hr
  cases i with
  | zero =>
    cases hr
    exact h
  | succ i => cases hr

def batchIDs (batch : List Listed) : Finset ServerID := (batch.map fun x => x.row.id).toFinset

theorem mem_batchIDs {batch : List Listed} : id ∈ batchIDs batch ↔ ∃ x ∈ batch, x.row.id = id := by
  simp [batchIDs]

section Listing

variable {q : Queue} {order : Order}

theorem batchIDs_listing : batchIDs ((listReconcilable order q.rows).map q.listed) =
    ((listReconcilable order q.rows).map GameServer.id).toFinset := by
  rw [batchIDs, List.map_map]
  rfl

theorem listing_front (hv : q.Valid) (ho : order.byUpdate q.updatedAt) (hw : q.Waiting i)
    (hou : i ∉ (listReconcilable order q.rows).map GameServer.id) :
    (listReconcilable order q.rows).length = listLimit ∧
      ∀ s ∈ listReconcilable order q.rows, q.updatedAt s.id ≤ q.updatedAt i := by
  obtain ⟨r, hr, hre⟩ := hw
  have hi : r.id = i := hv.numbered i r hr
  unfold listReconcilable at hou ⊢
  have hm : r ∈ order.arrange (q.rows.filter GameServer.reconcilable) :=
    (order.perm _).mem_iff.mpr (mem_filter.mpr ⟨mem_of_getElem? hr, hre⟩)
  have hso := ho (q.rows.filter GameServer.reconcilable)
  generalize order.arrange (q.rows.filter GameServer.reconcilable) = all at hou hm hso ⊢
  have hd : r ∈ all.drop listLimit := by
    rw [← take_append_drop listLimit all, mem_append] at hm
    rcases hm with ht | hd
    · exact absurd (mem_map.mpr ⟨r, ht, hi⟩) hou
    · exact hd
  have hl : listLimit < all.length := by
    have hp := length_pos_of_mem hd
    rw [length_drop] at hp
    omega
  refine ⟨by rw [length_take]; omega, ?_⟩
  intro s hs
  rw [← take_append_drop listLimit all] at hso
  rw [← hi]
  exact (pairwise_append.mp hso).2.2 s hs r hd

end Listing

theorem listing_serves (hv : q.Valid) (hv1 : q1.Valid) (hv' : q'.Valid) (hc : q.clock ≤ q1.clock)
    (hb : Elsewhere [] q q1) (ho : order.byUpdate q1.updatedAt)
    (ha : Elsewhere ((listReconcilable order q1.rows).map GameServer.id) q1 q')
    (hl : ∀ s ∈ listReconcilable order q1.rows, q'.Later q1.clock s.id) :
    Line.Serves listLimit ((listReconcilable order q1.rows).map GameServer.id).toFinset
      q.line q'.line := by
  have hw : ∀ i, q1.Waiting i ↔ q.Waiting i := fun i => hb.waiting i not_mem_nil
  have hsi : ∀ i, q.Waiting i → q1.updatedAt i = q.updatedAt i := fun i => hb.kept i not_mem_nil
  have ht : ∀ s ∈ listReconcilable order q1.rows, q1.Waiting s.id := by
    intro s hs
    obtain ⟨hm, hr⟩ := (listed hv1.numbered order _).1 s hs
    exact ⟨s, hv1.numbered.row hm, hr⟩
  refine ⟨?_, ?_, ?_, ?_, ?_⟩
  · intro i hi
    obtain ⟨s, hs, rfl⟩ := mem_map.mp (List.mem_toFinset.mp hi)
    exact hv.mem_line.mpr ((hw _).mp (ht s hs))
  · intro i hi hou
    rw [List.mem_toFinset] at hou
    obtain ⟨hlen, -⟩ := listing_front hv1 ho ((hw i).mpr (hv.mem_line.mp hi)) hou
    have hn : ((listReconcilable order q1.rows).map GameServer.id).Nodup :=
      (listed hv1.numbered order _).2
    rw [List.toFinset_card_of_nodup hn, length_map, hlen]
  · intro i hi hou j hj
    rw [List.mem_toFinset] at hou hj
    obtain ⟨s, hs, rfl⟩ := mem_map.mp hj
    have hi' := hv.mem_line.mp hi
    obtain ⟨-, hle⟩ := listing_front hv1 ho ((hw i).mpr hi') hou
    have hf := hle s hs
    rw [hsi i hi', hsi s.id ((hw _).mp (ht s hs))] at hf
    exact hf
  · intro i hi hou j hj hj'
    obtain ⟨s, hs, rfl⟩ := mem_map.mp (List.mem_toFinset.mp hj)
    exact ((hv.past i).trans hc).trans_lt (hl s hs (hv'.mem_line.mp hj'))
  · intro i hou
    rw [List.mem_toFinset] at hou
    rw [hv'.mem_line, hv.mem_line]
    refine ⟨(ha.waiting i hou).trans (hw i), fun hi => ?_⟩
    exact (ha.kept i hou ((hw i).mpr hi)).trans (hsi i hi)

theorem reconcileOnce_serves (cfg : Config) (hv : q.Valid) :
    Brings Terms.undisturbed.Goes q (reconcileOnce cfg) fun q' _ =>
      q'.Valid ∧ Line.Serves listLimit (batchIDs q'.batch) q.line q'.line := by
  refine .bind ((checkLiveness_elsewhere cfg hv).mono fun q1 _ hl => ?_)
  obtain ⟨hv1, hc1, he1⟩ := hl
  refine .call fun r q3 hg => ?_
  obtain ⟨q2, hq, ⟨order, ho, rfl, hq3⟩, ha, -⟩ := hg
  have hv2 := hq.toOutside.valid hv1
  have hv3 : q3.Valid := by
    rw [hq3]
    exact ⟨hv2.numbered, hv2.past⟩
  have hs : ∀ s ∈ listReconcilable order q2.rows, InHand q3 s := by
    intro s hs
    rw [hq3]
    exact ⟨⟨q2.listed s, mem_map_of_mem hs, rfl⟩, ((listed hv2.numbered order _).1 s hs).2,
      ha _ rfl s hs⟩
  have hb := (reconcileEach_later cfg (c := q2.clock) undisturbed_sound
    (hq3 ▸ le_rfl) hs).and (reconcileEach_elsewhere cfg _ hv3)
  refine hb.mono fun q' _ he => ?_
  obtain ⟨⟨hba, hla⟩, hv', haf⟩ := he
  have ha2 : Elsewhere ((listReconcilable order q2.rows).map GameServer.id) q2 q' := by
    subst hq3
    exact ⟨haf.waiting, haf.kept⟩
  refine ⟨hv', ?_⟩
  rw [hba, hq3]
  simp only [batchIDs_listing]
  exact listing_serves hv hv2 hv' (hc1.trans hq.clock) (he1.trans hq.elsewhere) ho ha2 hla

theorem Terms.Ticks.run {batches : List (List Listed)}
    (h : Terms.undisturbed.Ticks cfg q batches q') (hv : q.Valid) :
    Line.Run listLimit q.line (batches.map batchIDs) q'.line := by
  induction h with
  | nil q => exact .nil _
  | cons ht _ ih =>
    obtain ⟨hv1, hs⟩ := (reconcileOnce_serves cfg hv).ends ht
    exact .cons hs (ih hv1)

/-- What a tick lists is done or goes back in the queue, and with a tick for each batch and one more
every waiting server is listed. -/
theorem queue_fair (cfg : Config) :
    (∀ q q' : Queue, q.Valid → Terms.saving.Tick cfg q q' → ∀ x ∈ q'.batch,
      ¬ q'.Waiting x.row.id ∨ x.updatedAt < q'.updatedAt x.row.id) ∧
    (∀ (q q' : Queue) (batches : List (List Listed)), q.Valid →
      Terms.undisturbed.Ticks cfg q batches q' →
      batches.length = ((q.rows.filter GameServer.reconcilable).length + 99) / 100 + 1 →
      ∀ id, q.Waiting id → ∃ batch ∈ batches, ∃ x ∈ batch, x.row.id = id) := by
  constructor
  · intro q q' hv htick x hx
    have hsound : Terms.saving.Sound := ⟨fun h => h, fun h => h⟩
    exact imp_iff_not_or.mp ((reconcileOnce_later cfg hsound hv).ends htick x hx)
  intro q q' batches hv hticks hlen id hwait
  have hcard : q.line.waiting.card ≤ (q.rows.filter GameServer.reconcilable).length :=
    (List.toFinset_card_le _).trans (length_map _).le
  have hroom : q.line.waiting.card ≤ listLimit * (batches.map batchIDs).length := by
    rw [length_map, hlen]
    unfold listLimit
    omega
  obtain ⟨ids, hids, hmem⟩ := (hticks.run hv).served hroom (hv.mem_line.mpr hwait)
  obtain ⟨batch, hbatch, rfl⟩ := mem_map.mp hids
  exact ⟨batch, hbatch, mem_batchIDs.mp hmem⟩

theorem Quiet.refl (hn : Numbered q.rows) : Quiet q q :=
  ⟨⟨le_rfl, hn, fun _ => .inl ⟨rfl, rfl⟩, rfl⟩, fun _ => Iff.rfl, fun _ _ => rfl⟩

def downed : GameServer :=
  { oneServer.row 0 with desired := .stopped, status := .stopped, backupRequested := true }

def downedQueue : Queue := ⟨[downed], fun _ => 0, 0, []⟩

def backedUpQueue : Queue :=
  { downedQueue.written (.markBackedUp 0) 1 with batch := [⟨downed, 0⟩] }

/-- The only row's backup is taken off the queue in the first of the two ticks that it may
take. -/
theorem downed_backed_up : Terms.saving.Tick oneHost.cfg downedQueue backedUpQueue ∧
      (¬ backedUpQueue.Waiting 0 ∨ 0 < backedUpQueue.updatedAt 0) ∧
      Terms.undisturbed.Ticks oneHost.cfg downedQueue [backedUpQueue.batch, []]
        { backedUpQueue with batch := [] } ∧
      ∃ batch ∈ [backedUpQueue.batch, []], ∃ x ∈ batch, x.row.id = 0 := by
  have hn : Numbered [downed] := numbered_singleton rfl
  have hn1 : Numbered backedUpQueue.rows := numbered_singleton rfl
  have hvalid : downedQueue.Valid := ⟨hn, fun _ => le_rfl⟩
  have hcall : ∀ {q q' : Queue} {e : Call} {r : Answer e}, Numbered q.rows → q.Performs e r q' →
      Saves q e r → (∀ id message, e ≠ .markLost id message) →
      Terms.undisturbed.Goes q e r q' := fun hq hperf hsaves hne =>
    ⟨_, .refl hq, hperf, hsaves, fun id message he => absurd he (hne id message)⟩
  have hmark : Terms.undisturbed.Goes { downedQueue with batch := [⟨downed, 0⟩] }
      (.markBackedUp 0) (.ok ()) backedUpQueue :=
    hcall hn ⟨rfl, 1, by decide, rfl⟩ trivial (by simp)
  have hfirst : Terms.undisturbed.Tick oneHost.cfg downedQueue backedUpQueue := by
    refine .call (r := .ok []) (hcall hn ⟨⟨.byAge _, Order.byAge_byUpdate _, rfl⟩, rfl⟩ trivial
      (by simp)) ?_
    refine .call (r := .ok [downed]) (hcall hn ⟨.byAge _, Order.byAge_byUpdate _, rfl, rfl⟩ ?_
      (by simp)) ?_
    · rintro rows hrows s hs hrest
      cases hrows
      rw [mem_singleton.mp hs] at hrest
      cases hrest
    refine .call (r := ()) (hcall hn ⟨trivial, 1, by decide, rfl⟩ trivial (by simp)) ?_
    refine .call hmark ?_
    exact .call (r := ()) (hcall hn1 ⟨trivial, 2, by decide, rfl⟩ trivial (by simp)) (.done _ _)
  have hsecond : Terms.undisturbed.Tick oneHost.cfg backedUpQueue
      { backedUpQueue with batch := [] } := by
    refine .call (r := .ok []) (hcall hn1 ⟨⟨.byAge _, Order.byAge_byUpdate _, rfl⟩, rfl⟩ trivial
      (by simp)) ?_
    refine .call (r := .ok []) (hcall hn1 ⟨.byAge _, Order.byAge_byUpdate _, rfl, rfl⟩ ?_
      (by simp)) (.done _ _)
    rintro rows hrows s hs
    cases hrows
    exact absurd hs not_mem_nil
  have hsaving : Terms.saving.Tick oneHost.cfg downedQueue backedUpQueue := by
    refine hfirst.mono ?_
    rintro q e r q' ⟨q1, hquiet, hperf, hsaves, -⟩
    exact ⟨q1, hquiet.toOutside, hperf, hsaves⟩
  have hticks := Terms.Ticks.cons hfirst (.cons hsecond (.nil _))
  refine ⟨hsaving, ?_, hticks, ?_⟩
  · exact (queue_fair oneHost.cfg).1 _ _ hvalid hsaving ⟨downed, 0⟩ (mem_singleton.mpr rfl)
  · exact (queue_fair oneHost.cfg).2 _ _ _ hvalid hticks rfl 0 ⟨downed, rfl, rfl⟩

structure Stuck (s : GameServer) : Prop where
  status : s.status = .running
  desired : s.desired = .running
  backupRequested : s.backupRequested = true
  kept : s.deleted = false
  placed : s.Placed

section Stuck

variable {q : Queue} (cfg : Config) {s : GameServer} {servers : List GameServer}

section

variable (hn : Numbered q.rows)
include hn

theorem free_stays (h : q.Performs e r q) :
    Terms.free.Goes q e r q := ⟨q, .refl hn, h, trivial⟩

theorem checkServerLiveness_stays (hs : Stuck s) :
    Prog.Ends Terms.free.Goes q (checkServerLiveness cfg s) () q := by
  obtain ⟨h, v, hh, hv⟩ := hs.placed
  simp only [checkServerLiveness, Remote.status, hv, assignedHost, hh, onOk]
  refine .call (r := .ok (some ⟨v, "", 0, .running, none⟩)) ?_ (.done _ _)
  exact free_stays hn ⟨trivial, q.clock + 1, Nat.lt_succ_self _, rfl⟩

theorem checkEach_stays (hs : ∀ s ∈ servers, Stuck s) :
    Prog.Ends Terms.free.Goes q (checkEach cfg servers) () q := by
  induction servers with
  | nil => exact .done _ _
  | cons s rest ih =>
    refine .call (r := ()) (free_stays hn ⟨trivial, q.clock + 1, Nat.lt_succ_self _, rfl⟩) ?_
    simp only [done_bind]
    refine .bind (checkServerLiveness_stays cfg hn (hs s mem_cons_self)) ?_
    refine .call (r := ()) (free_stays hn ⟨trivial, q.clock + 1, Nat.lt_succ_self _, rfl⟩) ?_
    exact ih fun s' hs' => hs s' (.tail _ hs')

theorem reconcileOne_stays (hs : Stuck s) :
    Prog.Ends Terms.free.Goes q (reconcileOne cfg s) () q := by
  obtain ⟨h, v, hh, hv⟩ := hs.placed
  refine .call (r := ()) (free_stays hn ⟨trivial, q.clock + 1, Nat.lt_succ_self _, rfl⟩) ?_
  simp only [reconcile, hs.desired, hs.backupRequested, backup, hs.status, Remote.snapshot, hv,
    assignedHost, hh, onOk, converge, start]
  refine .call (r := .error .deadlineExceeded)
    (free_stays hn ⟨trivial, q.clock + 1, Nat.lt_succ_self _, rfl⟩) ?_
  exact .call (r := ()) (free_stays hn ⟨trivial, q.clock + 1, Nat.lt_succ_self _, rfl⟩) (.done _ _)

theorem reconcileEach_stays (hs : ∀ s ∈ servers, Stuck s) :
    Prog.Ends Terms.free.Goes q (reconcileEach cfg servers) () q := by
  induction servers with
  | nil => exact .done _ _
  | cons s rest ih =>
    rw [reconcileEach_cons]
    exact .bind (reconcileOne_stays cfg hn (hs s mem_cons_self))
      (ih fun s' hs' => hs s' (.tail _ hs'))

end

def Queue.oldest (q : Queue) : List Listed :=
  (listReconcilable (.byAge q.updatedAt) q.rows).map q.listed

theorem stuck_tick (hn : Numbered q.rows) (hs : ∀ s ∈ q.rows, Stuck s) :
    Terms.free.Tick cfg q { q with batch := q.oldest } := by
  have hl : Prog.Ends Terms.free.Goes q (checkLiveness cfg) () q := by
    refine .call (r := .ok (listRunning (.byAge q.updatedAt) q.rows))
      (free_stays hn ⟨⟨_, Order.byAge_byUpdate _, rfl⟩, rfl⟩) ?_
    exact checkEach_stays cfg hn fun s hm => hs s (mem_listRunning hm).1
  refine .bind hl (.call (r := .ok (listReconcilable (.byAge q.updatedAt) q.rows))
    ⟨q, .refl hn, ⟨_, Order.byAge_byUpdate _, rfl, rfl⟩, trivial⟩ ?_)
  refine reconcileEach_stays cfg (q := { q with batch := q.oldest }) hn fun s hm => ?_
  exact hs s ((listed hn _ _).1 s hm).1

theorem stuck_ticks (hn : Numbered q.rows) (hs : ∀ s ∈ q.rows, Stuck s) (k : Nat) :
    ∃ q', Terms.free.Ticks cfg q (List.replicate k q.oldest) q' := by
  suffices ha : ∀ batch, ∃ q', Terms.free.Ticks cfg { q with batch }
      (List.replicate k q.oldest) q' from ha q.batch
  induction k with
  | zero => exact fun batch => ⟨_, .nil _⟩
  | succ k ih =>
    intro batch
    obtain ⟨q', hr⟩ := ih q.oldest
    exact ⟨q', .cons (stuck_tick cfg (q := { q with batch }) hn hs) hr⟩

theorem oldest_waiting (hn : Numbered q.rows) (hx : x ∈ q.oldest) :
    q.Waiting x.row.id ∧ q.updatedAt x.row.id = x.updatedAt := by
  obtain ⟨s, hs, rfl⟩ := mem_map.mp hx
  obtain ⟨hm, hr⟩ := (listed hn (.byAge q.updatedAt) GameServer.reconcilable).1 s hs
  exact ⟨⟨s, hn.row hm, hr⟩, rfl⟩

theorem oldest_leaves_out (hn : Numbered q.rows)
    (hl : listLimit < (q.rows.filter GameServer.reconcilable).length) :
    ∃ id, q.Waiting id ∧ ∀ x ∈ q.oldest, x.row.id ≠ id := by
  obtain ⟨hm, hno⟩ := arranged hn (.byAge q.updatedAt) GameServer.reconcilable
  have hle := ((Order.byAge q.updatedAt).perm (q.rows.filter GameServer.reconcilable)).length_eq
  unfold Queue.oldest listReconcilable
  generalize (Order.byAge q.updatedAt).arrange (q.rows.filter GameServer.reconcilable) = all
    at hm hno hle ⊢
  obtain ⟨r, hr⟩ : ∃ r, r ∈ all.drop listLimit := by
    apply exists_mem_of_length_pos
    rw [length_drop]
    omega
  obtain ⟨hro, hre⟩ := (hm r).mp (mem_of_mem_drop hr)
  refine ⟨r.id, ?_, ?_⟩
  · exact ⟨r, hn.row hro, hre⟩
  intro x hx hid
  obtain ⟨s, hs, rfl⟩ := mem_map.mp hx
  rw [← take_append_drop listLimit all, map_append, nodup_append] at hno
  exact hno.2.2 s.id (mem_map_of_mem hs) r.id (mem_map_of_mem hr) hid

end Stuck

def stuckServer (i : Nat) : GameServer :=
  { oneServer.row i with
    status := .running, hostID := some 0, vmID := some i, backupRequested := true }

def stuckQueue (n : Nat) : Queue := ⟨(List.range n).map stuckServer, fun _ => 0, 0, []⟩

theorem stuckQueue_valid (n : Nat) : (stuckQueue n).Valid := by
  refine ⟨?_, fun _ => le_rfl⟩
  intro i r hr
  obtain ⟨j, hj, rfl⟩ := map_eq_some_iff.mp ((List.getElem?_map ..).symm.trans hr)
  obtain ⟨hl, hv⟩ := List.getElem?_eq_some_iff.mp hj
  rw [getElem_range] at hv
  exact hv.symm

theorem stuckQueue_stuck (n : Nat) : ∀ s ∈ (stuckQueue n).rows, Stuck s := by
  intro s hs
  obtain ⟨i, -, rfl⟩ := mem_map.mp hs
  exact ⟨rfl, rfl, rfl, rfl, 0, i, rfl, rfl⟩

/-- A failed snapshot leaves its row at the front of the queue, and a hundred of them keep
another row from ever being listed. -/
theorem failed_snapshots_starve : (∃ q', Terms.free.Tick oneHost.cfg (stuckQueue 101) q' ∧
      ∃ x ∈ q'.batch, q'.Waiting x.row.id ∧ q'.updatedAt x.row.id = x.updatedAt) ∧
    ∃ id, (stuckQueue 101).Waiting id ∧ ∀ k, ∃ batches q', batches.length = k ∧
      Terms.free.Ticks oneHost.cfg (stuckQueue 101) batches q' ∧
      ∀ batch ∈ batches, ∀ x ∈ batch, x.row.id ≠ id := by
  have hn := (stuckQueue_valid 101).numbered
  have hs := stuckQueue_stuck 101
  have hfilter : ((stuckQueue 101).rows.filter GameServer.reconcilable).length = 101 := by decide
  constructor
  · have hpos : 0 < (stuckQueue 101).oldest.length := by
      simp only [Queue.oldest, listReconcilable, length_map, length_take,
        ((Order.byAge (stuckQueue 101).updatedAt).perm _).length_eq, hfilter]
      decide
    obtain ⟨x, hx⟩ := exists_mem_of_length_pos hpos
    exact ⟨_, stuck_tick _ hn hs, x, hx, oldest_waiting hn hx⟩
  obtain ⟨id, hwait, hout⟩ := oldest_leaves_out (q := stuckQueue 101) hn (by rw [hfilter]; decide)
  refine ⟨id, hwait, fun k => ?_⟩
  obtain ⟨q', hticks⟩ := stuck_ticks oneHost.cfg hn hs k
  refine ⟨_, q', length_replicate, hticks, ?_⟩
  intro batch hbatch
  rw [eq_of_mem_replicate hbatch]
  exact hout

end Craftling.Control

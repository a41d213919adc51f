import Craftling.Control.Informed

namespace Craftling.Control
open Effects List Prog

/-- What the whitelist sweep asks for. `enter` marks where the work on one server begins. -/
inductive SweepCall where
  | enter (id : ServerID)
  | listRunning
  | usernamesForServer (id : ServerID)
  | command (host : HostID) (op : Op)
  deriving DecidableEq, Repr

abbrev SweepAnswer : SweepCall → Type
  | .enter _ => Unit
  | .listRunning => Except Err (List GameServer)
  | .usernamesForServer _ => Except Err (List String)
  | .command _ _ => Except Err (Option VMView)

abbrev Sweep := Prog SweepCall SweepAnswer

def askSweep (e : SweepCall) : Sweep (SweepAnswer e) := .call e .done

def Remote.syncWhitelist (s : GameServer) (names : List String) : Sweep (Except Err Unit) :=
  match s.vmID with
  | none => return .ok ()
  | some v =>
    match assignedHost s with
    | .error e => return .error e
    | .ok h => do
      match ← askSweep (.command h (.whitelist v names)) with
      | .error e => return .error e
      | .ok _ => return .ok ()

/-- A failure leaves one server as it is and the sweep goes on. -/
def syncEach : List GameServer → Sweep Unit
  | [] => return
  | s :: rest => do
    askSweep (.enter s.id)
    match ← askSweep (.usernamesForServer s.id) with
    | .error _ => syncEach rest
    | .ok names =>
      let _ ← Remote.syncWhitelist s names
      syncEach rest

def syncWhitelists : Sweep Unit := do
  match ← askSweep .listRunning with
  | .error _ => return
  | .ok servers => syncEach servers

structure Sent where
  server : ServerID
  host : HostID
  op : Op
  deriving DecidableEq, Repr

/-- The control plane with the times of its rows' last updates, the server that a pass is at
and what the pass has sent so far. -/
structure Watch where
  fleet : Fleet
  updatedAt : ServerID → Time
  calls : Nat
  cur : ServerID
  sent : List Sent

/-- The row whose time of update a call sets. Telemetry does not count as an update. -/
def Call.bumps (rows : List GameServer) : Call → Option ServerID
  | .markLost id _ =>
    if rows[id]?.any fun s => !s.deleted && s.status = .running then some id else none
  | .markBackedUp id | .markStatus id _ _ | .markRunning id _ _ _ | .assignHost id _
  | .unassignHost id | .markStopped id | .softDelete id => some id
  | _ => none

/-- What a tick meets: the order among rows of one age, the time that passes before each
call, and what the agents report of their VMs' workloads. -/
structure Tick where
  order : Order
  elapse : Nat → Time
  health : HostID → VMID → Option Health

/-- Every VM that is asked about is running, and no statement fails. -/
def Watch.answer (t : Tick) (e : Call) (w : Watch) : Answer e × Watch :=
  let clock := w.fleet.clock + t.elapse w.calls
  let w := { w with calls := w.calls + 1 }
  match e with
  | .enter id => ((), { w with cur := id })
  | .command h op =>
    let view : Option VMView :=
      match op with
      | .status v => some ⟨v, "", 0, .running, t.health h v⟩
      | _ => none
    (.ok view, { w with sent := w.sent ++ [⟨w.cur, h, op⟩] })
  | e =>
    let (r, fleet) := { w.fleet with clock }.answer none t.order e
    (r, { w with
      fleet
      updatedAt := fun id => if e.bumps w.fleet.rows = some id then clock else w.updatedAt id })

def Watch.tick (cfg : Config) (t : Tick) (w : Watch) : Watch :=
  ((reconcileOnce cfg).runOn (Watch.answer t) { w with sent := [] }).2

def Watch.ticks (cfg : Config) (ts : Nat → Tick) (w : Watch) : Nat → Watch
  | 0 => w
  | k + 1 => (w.ticks cfg ts k).tick cfg (ts k)

structure Round where
  order : Order
  names : ServerID → List String

def sweepAnswer (r : Round) (rows : List GameServer) (e : SweepCall) (p : ServerID × List Sent) :
    SweepAnswer e × ServerID × List Sent :=
  match e with
  | .enter id => ((), id, p.2)
  | .listRunning => (.ok (listRunning r.order rows), p)
  | .usernamesForServer id => (.ok (r.names id), p)
  | .command h op => (.ok none, p.1, p.2 ++ [⟨p.1, h, op⟩])

def pushes (r : Round) (rows : List GameServer) : List Sent :=
  (syncWhitelists.runOn (sweepAnswer r rows) (0, [])).2.2

def Order.byUpdate (order : Order) (updatedAt : ServerID → Time) : Prop :=
  ∀ rows, (order.arrange rows).Pairwise fun a b => updatedAt a.id ≤ updatedAt b.id

def GameServer.plain (s : GameServer) : GameServer :=
  { s with playersOnline := none, playersMax := none, lastSeen := none }

theorem plain_id {a b : GameServer} (h : a.plain = b.plain) : a.id = b.id := by
  have hi := congrArg GameServer.id h
  exact hi

def Alike (rows rows' : List GameServer) : Prop :=
  rows'.map GameServer.plain = rows.map GameServer.plain

theorem markedHealth_plain (s : GameServer) (reachable : Bool) (online max : Int) (now : Time) :
    (s.markedHealth reachable online max now).plain = s.plain := by
  unfold GameServer.markedHealth
  split <;> rfl

section Alike

variable {rows rows' : List GameServer}

theorem Alike.updateRow (h : Alike rows rows') (id : ServerID) (hg : ∀ s, (g s).plain = s.plain) :
    Alike rows (updateRow rows' id g) := by
  unfold Alike at h ⊢
  rw [← h]
  apply ext_getElem?
  intro i
  rw [List.getElem?_map, List.getElem?_map, getElem?_updateRow]
  split
  · rw [Option.map_map]
    congr 1
    funext s
    exact hg s
  · rfl

theorem Alike.running (h : Alike rows rows') :
    (rows'.filter GameServer.running).map GameServer.plain =
      (rows.filter GameServer.running).map GameServer.plain := by
  have hp : ∀ l : List GameServer, (l.filter GameServer.running).map GameServer.plain =
      (l.map GameServer.plain).filter GameServer.running := by
    intro l
    rw [filter_map]
    rfl
  rw [hp, hp, h]

theorem Alike.mem (h : Alike rows rows') (hs : s ∈ rows') : ∃ r ∈ rows, r.plain = s.plain := by
  have hm : s.plain ∈ rows.map GameServer.plain := h ▸ mem_map_of_mem hs
  simpa using hm

theorem Alike.symm (h : Alike rows rows') : Alike rows' rows := Eq.symm h

end Alike

variable {rows rows' : List GameServer} {w : Watch}

theorem Alike.trans (h : Alike rows rows') (h' : Alike rows' rows'') :
    Alike rows rows'' := Eq.trans h' h

structure Passes (w w' : Watch) (sent : List Sent) : Prop where
  sent : w'.sent = w.sent ++ sent
  updatedAt : w'.updatedAt = w.updatedAt
  rows : Alike w.fleet.rows w'.fleet.rows

theorem Passes.trans {sent sent' : List Sent} (h : Passes w w' sent) (h' : Passes w' w'' sent') :
    Passes w w'' (sent ++ sent') := by
  refine ⟨?_, h'.updatedAt.trans h.updatedAt, h.rows.trans h'.rows⟩
  rw [h'.sent, h.sent, append_assoc]

section Tick

variable (cfg : Config) (t : Tick) {s : GameServer} {rows : List GameServer} {order : Order}
    {w : Watch}

def Call.quiet : Call → Bool
  | .enter _ | .leave _ | .now | .listRunning | .listReconcilable | .markHealth _ _ _ _ => true
  | _ => false

theorem answer_quiet (he : e.quiet = true) (w : Watch) : Passes w (Watch.answer t e w).2 [] := by
  have hs : w.sent = w.sent ++ [] := (append_nil _).symm
  cases e with
  | markHealth id reachable online max =>
    refine ⟨hs, rfl, ?_⟩
    exact Alike.updateRow rfl id fun s => markedHealth_plain s reachable online max _
  | enter id | leave id | now | listRunning | listReconcilable => exact ⟨hs, rfl, rfl⟩
  | _ => cases he

theorem recordHealth_passes (s : GameServer) (health : Option Health) (w : Watch) :
    Passes w ((recordHealth s health).runOn (Watch.answer t) w).2 [] := by
  cases health with
  | none => exact ⟨(append_nil _).symm, rfl, rfl⟩
  | some h =>
    have hn := answer_quiet t (e := .now) rfl w
    simp only [recordHealth, ask, bind_eq, call_bind, done_bind, runOn_call]
    split
    · exact hn.trans (answer_quiet t (e := .markHealth s.id h.reachable h.playersOnline
        h.playersMax) rfl _)
    · exact hn

def GameServer.probe (s : GameServer) : List Sent :=
  match s.hostID, s.vmID with
  | some h, some v => [⟨s.id, h, .status v⟩]
  | _, _ => []

def GameServer.Placed (s : GameServer) : Prop := ∃ h v, s.hostID = some h ∧ s.vmID = some v

theorem checkServerLiveness_passes (hs : s.Placed) (hc : w.cur = s.id) :
    Passes w ((checkServerLiveness cfg s).runOn (Watch.answer t) w).2 s.probe := by
  obtain ⟨h, v, hh, hv⟩ := hs
  have hse : Passes w (Watch.answer t (.command h (.status v)) w).2 [⟨w.cur, h, .status v⟩] :=
    ⟨rfl, rfl, rfl⟩
  have hr := hse.trans (recordHealth_passes t s (t.health h v) _)
  simp only [GameServer.probe, hh, hv]
  rw [← hc]
  simpa [checkServerLiveness, Remote.status, hh, hv, assignedHost, onOk, ask, Watch.answer, stateOf]
    using hr

theorem checkEach_passes (servers : List GameServer) (hp : ∀ s ∈ servers, s.Placed) (w : Watch) :
    Passes w ((checkEach cfg servers).runOn (Watch.answer t) w).2
      (servers.flatMap GameServer.probe) := by
  induction servers generalizing w with
  | nil => exact ⟨(append_nil _).symm, rfl, rfl⟩
  | cons s rest ih =>
    have he := answer_quiet t (e := .enter s.id) rfl w
    have hc := checkServerLiveness_passes cfg t (hp s (by simp))
      (w := (Watch.answer t (.enter s.id) w).2) rfl
    have hl := answer_quiet t (e := .leave s.id) rfl
      ((checkServerLiveness cfg s).runOn (Watch.answer t) (Watch.answer t (.enter s.id) w).2).2
    have hre := ih (fun r hr => hp r (by simp [hr])) (Watch.answer t (.leave s.id)
      ((checkServerLiveness cfg s).runOn (Watch.answer t) (Watch.answer t (.enter s.id) w).2).2).2
    have ha := ((he.trans hc).trans hl).trans hre
    simp only [nil_append, append_nil] at ha
    simpa [checkEach, ask, runOn_bind] using ha

theorem mem_listRunning (h : s ∈ listRunning order rows) : s ∈ rows ∧ s.running = true := by
  have hm := (order.perm _).mem_iff.mp (mem_of_mem_take h)
  exact mem_filter.mp hm

theorem listReconcilable_nil (h : ∀ s ∈ rows, s.reconcilable = false) :
    listReconcilable order rows = [] := by
  have hn : rows.filter GameServer.reconcilable = [] := by
    apply filter_eq_nil_iff.mpr
    intro s hs
    simp [h s hs]
  unfold listReconcilable
  rw [hn, (order.perm []).eq_nil]
  rfl

theorem checkLiveness_passes (hp : ∀ s ∈ w.fleet.rows, s.running = true → s.Placed) :
    Passes w ((checkLiveness cfg).runOn (Watch.answer t) w).2
      ((listRunning t.order w.fleet.rows).flatMap GameServer.probe) := by
  have hl := answer_quiet t (e := .listRunning) rfl w
  refine hl.trans (checkEach_passes cfg t _ ?_ _)
  intro s hs
  obtain ⟨hm, hr⟩ := mem_listRunning hs
  exact hp s hm hr

/-- There is nothing to converge, and every server that should run has a VM on a host. -/
structure Steady (rows : List GameServer) : Prop where
  placed : ∀ s ∈ rows, s.running = true → s.Placed
  settled : ∀ s ∈ rows, s.reconcilable = false

theorem Steady.alike (h : Steady rows) (ha : Alike rows rows') : Steady rows' := by
  constructor
  · intro s hs hru
    obtain ⟨r, hr, hp⟩ := ha.mem hs
    have hsa : r.plain.running = s.plain.running := by rw [hp]
    obtain ⟨host, v, hh, hv⟩ := h.placed r hr (hsa.trans hru)
    refine ⟨host, v, ?_, ?_⟩
    · exact (congrArg GameServer.hostID hp).symm.trans hh
    · exact (congrArg GameServer.vmID hp).symm.trans hv
  · intro s hs
    obtain ⟨r, hr, hp⟩ := ha.mem hs
    have hsa : s.plain.reconcilable = r.plain.reconcilable := by rw [hp]
    exact hsa.trans (h.settled r hr)

theorem tick_passes (hs : Steady w.fleet.rows) : Passes { w with sent := [] } (w.tick cfg t)
      ((listRunning t.order w.fleet.rows).flatMap GameServer.probe) := by
  have hl := checkLiveness_passes cfg t (w := { w with sent := [] }) hs.placed
  unfold Watch.tick reconcileOnce
  rw [bind_eq, runOn_bind]
  generalize ((checkLiveness cfg).runOn (Watch.answer t) { w with sent := [] }).2 = w' at hl ⊢
  have hr : (Watch.answer t .listReconcilable w').1 = .ok [] :=
    congrArg Except.ok (listReconcilable_nil (hs.alike hl.rows).settled)
  have hq := hl.trans (answer_quiet t (e := .listReconcilable) rfl w')
  rw [append_nil] at hq
  simp only [ask, bind_eq, call_bind, done_bind, runOn_call, hr]
  exact hq

end Tick

def GameServer.push (r : Round) (s : GameServer) : List Sent :=
  match s.hostID, s.vmID with
  | some h, some v => [⟨s.id, h, .whitelist v (r.names s.id)⟩]
  | _, _ => []

theorem syncEach_pushes (r : Round) (rows servers : List GameServer)
    (hp : ∀ s ∈ servers, s.Placed) (p : ServerID × List Sent) :
    ((syncEach servers).runOn (sweepAnswer r rows) p).2.2 =
      p.2 ++ servers.flatMap (GameServer.push r) := by
  induction servers generalizing p with
  | nil => exact (append_nil _).symm
  | cons s rest ih =>
    obtain ⟨h, v, hh, hv⟩ := hp s (by simp)
    have hre := ih (fun r hr => hp r (by simp [hr]))
      (s.id, p.2 ++ [⟨s.id, h, .whitelist v (r.names s.id)⟩])
    simpa [syncEach, askSweep, runOn_bind, Remote.syncWhitelist, hh, hv, assignedHost,
      sweepAnswer, GameServer.push] using hre

theorem pushes_eq (r : Round) (hp : ∀ s ∈ rows, s.running = true → s.Placed) :
    pushes r rows = (listRunning r.order rows).flatMap (GameServer.push r) := by
  have h := syncEach_pushes r rows (listRunning r.order rows) (fun s hs => by
    obtain ⟨hm, hr⟩ := mem_listRunning hs
    exact hp s hm hr) (0, [])
  exact h

theorem listed_of_le (order : Order) (h : Alike rows rows')
    (hl : (rows.filter GameServer.running).length ≤ listLimit) (hs : s ∈ rows)
    (hr : s.running = true) : ∃ s' ∈ listRunning order rows', s'.plain = s.plain := by
  have hlen : (rows'.filter GameServer.running).length ≤ listLimit := by
    have he := congrArg List.length h.running
    simp only [length_map] at he
    omega
  obtain ⟨s', hs', hp⟩ := h.symm.mem hs
  refine ⟨s', ?_, hp⟩
  have hr' : s'.running = true := by
    have hsa : s'.plain.running = s.plain.running := by rw [hp]
    exact hsa.trans hr
  unfold listRunning
  rw [take_of_length_le]
  · exact (order.perm _).mem_iff.mpr (mem_filter.mpr ⟨hs', hr'⟩)
  · rw [(order.perm _).length_eq]
    exact hlen

/-- Older updates first, and among rows of one age the earlier row. -/
def older (updatedAt : ServerID → Time) (a b : GameServer) : Prop :=
  updatedAt a.id < updatedAt b.id ∨ (updatedAt a.id = updatedAt b.id ∧ a.id ≤ b.id)

instance (updatedAt : ServerID → Time) : DecidableRel (older updatedAt) := by
  intro a b
  unfold older
  infer_instance

def Order.byAge (updatedAt : ServerID → Time) : Order :=
  ⟨List.insertionSort (older updatedAt), perm_insertionSort _⟩

theorem Order.byAge_byUpdate (updatedAt : ServerID → Time) :
    (Order.byAge updatedAt).byUpdate updatedAt := by
  intro rows
  have ht : ∀ a b, older updatedAt a b ∨ older updatedAt b a := by
    intro a b
    unfold older
    rcases Nat.lt_trichotomy (updatedAt a.id) (updatedAt b.id) with h | h | h
    · exact .inl (.inl h)
    · rcases Nat.le_total a.id b.id with hi | hi
      · exact .inl (.inr ⟨h, hi⟩)
      · exact .inr (.inr ⟨h.symm, hi⟩)
    · exact .inr (.inl h)
  have htr : ∀ a b c, older updatedAt a b → older updatedAt b c → older updatedAt a c := by
    intro a b c ha hb
    unfold older at *
    rcases ha with ha | ⟨ha, hi⟩ <;> rcases hb with hb | ⟨hb, hi'⟩
    · exact .inl (Nat.lt_trans ha hb)
    · exact .inl (hb ▸ ha)
    · exact .inl (ha ▸ hb)
    · exact .inr ⟨ha.trans hb, Nat.le_trans hi hi'⟩
  have : Std.Total (older updatedAt) := ⟨ht⟩
  have : IsTrans GameServer (older updatedAt) := ⟨htr⟩
  refine (pairwise_insertionSort (older updatedAt) rows).imp ?_
  intro a b ha
  rcases ha with hl | ⟨he, -⟩
  · exact Nat.le_of_lt hl
  · exact Nat.le_of_eq he

theorem listRunning_byAge (updatedAt : ServerID → Time) (h : Alike rows rows') :
    (listRunning (.byAge updatedAt) rows').map GameServer.plain =
      (listRunning (.byAge updatedAt) rows).map GameServer.plain := by
  have hs : ∀ l : List GameServer, (l.insertionSort (older updatedAt)).map GameServer.plain =
      (l.map GameServer.plain).insertionSort (older updatedAt) := by
    intro l
    apply map_insertionSort
    intro a _ b _
    rfl
  unfold listRunning Order.byAge
  dsimp only
  rw [map_take, map_take, hs, hs, h.running]

theorem starved (updatedAt : ServerID → Time) (hn : Numbered rows)
    (hl : listLimit < (rows.filter GameServer.running).length) :
    ∃ s ∈ rows, s.running = true ∧ ∀ rows', Alike rows rows' →
      ∀ s' ∈ listRunning (.byAge updatedAt) rows', s'.id ≠ s.id := by
  have hp := (Order.byAge updatedAt).perm (rows.filter GameServer.running)
  generalize ha : (Order.byAge updatedAt).arrange (rows.filter GameServer.running) = l at hp
  have hle : listLimit < l.length := hp.length_eq ▸ hl
  have hno : (l.map GameServer.id).Nodup := by
    apply (hp.map _).nodup_iff.mpr
    exact hn.nodup.sublist ((filter_sublist).map _)
  have hs := hp.mem_iff.mp (getElem_mem hle)
  obtain ⟨hm, hru⟩ := mem_filter.mp hs
  refine ⟨l[listLimit], hm, hru, ?_⟩
  intro rows' hal s' hs' hid
  -- the batch is made of the same servers as the one that was cut off before this server
  have hpl : s'.plain ∈ (l.take listLimit).map GameServer.plain := by
    have hb := listRunning_byAge updatedAt hal
    have hm' := mem_map_of_mem (f := GameServer.plain) hs'
    rw [hb] at hm'
    unfold listRunning at hm'
    rw [ha] at hm'
    exact hm'
  obtain ⟨r, hr, hsa⟩ := mem_map.mp hpl
  have hri : r.id = l[listLimit].id := (plain_id hsa).trans hid
  obtain ⟨i, hi, hg⟩ := mem_take_iff_getElem.mp hr
  have hli : listLimit < (l.map GameServer.id).length := by
    rw [length_map]
    exact hle
  have hl' : i < (l.map GameServer.id).length := by omega
  have hids : (l.map GameServer.id)[i] = (l.map GameServer.id)[listLimit] := by simp [hg, hri]
  have he := hno.getElem_inj_iff.mp hids
  omega

def Watch.Probed (w : Watch) (s : GameServer) : Prop :=
  ∃ h v, ⟨s.id, h, .status v⟩ ∈ w.sent

def Pushed (sent : List Sent) (s : GameServer) : Prop :=
  ∃ h v names, ⟨s.id, h, .whitelist v names⟩ ∈ sent

theorem ticks_alike (cfg : Config) (ts : Nat → Tick) (hs : Steady w.fleet.rows) (k : Nat) :
    Alike w.fleet.rows (w.ticks cfg ts k).fleet.rows ∧
      (w.ticks cfg ts k).updatedAt = w.updatedAt := by
  induction k with
  | zero => exact ⟨rfl, rfl⟩
  | succ k ih =>
    have hp := tick_passes cfg (ts k) (hs.alike ih.1)
    exact ⟨ih.1.trans hp.rows, hp.updatedAt.trans ih.2⟩

theorem probed_iff (hs : Steady w.fleet.rows) (k : Nat) (s : GameServer) :
    (w.ticks cfg ts (k + 1)).Probed s ↔
      ∃ s' ∈ listRunning (ts k).order (w.ticks cfg ts k).fleet.rows, s'.id = s.id := by
  have hst' := hs.alike (ticks_alike cfg ts hs k).1
  have hse := (tick_passes cfg (ts k) hst').sent
  change (w.ticks cfg ts (k + 1)).sent = _ at hse
  unfold Watch.Probed
  rw [hse]
  constructor
  · rintro ⟨h, v, hm⟩
    obtain ⟨s', hs', hp⟩ := mem_flatMap.mp hm
    refine ⟨s', hs', ?_⟩
    unfold GameServer.probe at hp
    split at hp
    · rw [mem_singleton] at hp
      exact (congrArg Sent.server hp).symm
    · cases hp
  · rintro ⟨s', hs', hi⟩
    obtain ⟨hm, hr⟩ := mem_listRunning hs'
    obtain ⟨h, v, hh, hv⟩ := hst'.placed s' hm hr
    refine ⟨h, v, mem_flatMap.mpr ⟨s', hs', ?_⟩⟩
    simp [GameServer.probe, hh, hv, hi]

theorem pushed_iff (hs : Steady rows) (s : GameServer) :
    Pushed (pushes r rows) s ↔ ∃ s' ∈ listRunning r.order rows, s'.id = s.id := by
  unfold Pushed
  rw [pushes_eq r hs.placed]
  constructor
  · rintro ⟨h, v, names, hm⟩
    obtain ⟨s', hs', hp⟩ := mem_flatMap.mp hm
    refine ⟨s', hs', ?_⟩
    unfold GameServer.push at hp
    split at hp
    · rw [mem_singleton] at hp
      exact (congrArg Sent.server hp).symm
    · cases hp
  · rintro ⟨s', hs', hi⟩
    obtain ⟨hm, hr⟩ := mem_listRunning hs'
    obtain ⟨h, v, hh, hv⟩ := hs.placed s' hm hr
    refine ⟨h, v, r.names s'.id, mem_flatMap.mpr ⟨s', hs', ?_⟩⟩
    simp [GameServer.push, hh, hv, hi]

def batches (rows : List GameServer) : Nat :=
  ((rows.filter GameServer.running).length + listLimit - 1) / listLimit

/-- Whatever the order among rows of one age, every running server is probed in as many
ticks as there are batches, and one more. -/
def ProbesCover (cfg : Config) (w : Watch) : Prop :=
  ∀ ts : Nat → Tick, (∀ k, (ts k).order.byUpdate (w.ticks cfg ts k).updatedAt) →
    ∀ k, ∀ s ∈ w.fleet.rows, s.running = true →
      ∃ j, k ≤ j ∧ j < k + (batches w.fleet.rows + 1) ∧ (w.ticks cfg ts (j + 1)).Probed s

/-- Likewise for the whitelists, over sweeps that meet tables with any telemetry. -/
def PushesCover (w : Watch) : Prop :=
  ∀ (tables : Nat → List GameServer) (rounds : Nat → Round),
    (∀ k, Alike w.fleet.rows (tables k)) → (∀ k, (rounds k).order.byUpdate w.updatedAt) →
    ∀ k, ∀ s ∈ w.fleet.rows, s.running = true →
      ∃ j, k ≤ j ∧ j < k + (batches w.fleet.rows + 1) ∧ Pushed (pushes (rounds j) (tables j)) s

section Coverage

variable (cfg : Config) {w : Watch}

section

variable (hst : Steady w.fleet.rows)
    (hl : (w.fleet.rows.filter GameServer.running).length ≤ listLimit)
include hst hl

theorem probesCover_of_le : ProbesCover cfg w := by
  intro ts _ k s hs hr
  refine ⟨k, Nat.le_refl k, by omega, (probed_iff hst k s).mpr ?_⟩
  obtain ⟨s', hs', hp⟩ := listed_of_le (ts k).order (ticks_alike cfg ts hst k).1 hl hs hr
  exact ⟨s', hs', plain_id hp⟩

theorem pushesCover_of_le : PushesCover w := by
  intro tables rounds ha _ k s hs hr
  refine ⟨k, Nat.le_refl k, by omega, (pushed_iff (hst.alike (ha k)) s).mpr ?_⟩
  obtain ⟨s', hs', hp⟩ := listed_of_le (rounds k).order (ha k) hl hs hr
  exact ⟨s', hs', plain_id hp⟩

end

section

variable (hn : Numbered w.fleet.rows) (hst : Steady w.fleet.rows)
    (hl : listLimit < (w.fleet.rows.filter GameServer.running).length)
include hn hst hl

theorem never_probed :
    ∃ ts : Nat → Tick, (∀ k, (ts k).order.byUpdate (w.ticks cfg ts k).updatedAt) ∧
      ∃ s ∈ w.fleet.rows, s.running = true ∧ ∀ j, ¬ (w.ticks cfg ts (j + 1)).Probed s := by
  obtain ⟨s, hs, hr, hne⟩ := starved w.updatedAt hn hl
  refine ⟨fun _ => ⟨.byAge w.updatedAt, fun _ => 0, fun _ _ => none⟩, ?_, s, hs, hr, ?_⟩
  · intro k
    rw [(ticks_alike cfg _ hst k).2]
    exact Order.byAge_byUpdate w.updatedAt
  · intro j hp
    obtain ⟨s', hs', hi⟩ := (probed_iff hst j s).mp hp
    exact hne _ (ticks_alike cfg _ hst j).1 s' hs' hi

theorem never_pushed :
    ∃ r : Round, r.order.byUpdate w.updatedAt ∧
      ∃ s ∈ w.fleet.rows, s.running = true ∧ ¬ Pushed (pushes r w.fleet.rows) s := by
  obtain ⟨s, hs, hr, hne⟩ := starved w.updatedAt hn hl
  refine ⟨⟨.byAge w.updatedAt, fun _ => []⟩, Order.byAge_byUpdate w.updatedAt, s, hs, hr, ?_⟩
  intro hp
  obtain ⟨s', hs', hi⟩ := (pushed_iff hst s).mp hp
  exact hne _ rfl s' hs' hi

end

end Coverage

/-- In steady state every running server gets its turn exactly if they fit in one batch. -/
theorem running_servers_covered_iff (cfg : Config) (w : Watch) (hn : Numbered w.fleet.rows)
    (hsteady : Steady w.fleet.rows) :
    (ProbesCover cfg w ↔ (w.fleet.rows.filter GameServer.running).length ≤ 100) ∧
      (PushesCover w ↔ (w.fleet.rows.filter GameServer.running).length ≤ 100) := by
  constructor
  · refine ⟨fun hcover => ?_, probesCover_of_le cfg hsteady⟩
    by_contra hmany
    obtain ⟨ts, horder, s, hs, hrunning, hnever⟩ :=
      never_probed cfg hn hsteady (Nat.lt_of_not_le hmany)
    obtain ⟨j, -, -, hprobed⟩ := hcover ts horder 0 s hs hrunning
    exact hnever j hprobed
  refine ⟨fun hcover => ?_, pushesCover_of_le hsteady⟩
  by_contra hmany
  obtain ⟨r, horder, s, hs, hrunning, hnever⟩ := never_pushed hn hsteady (Nat.lt_of_not_le hmany)
  obtain ⟨j, -, -, hpushed⟩ :=
    hcover (fun _ => w.fleet.rows) (fun _ => r) (fun _ => rfl) (fun _ => horder) 0 s hs hrunning
  exact hnever hpushed

def crowd (n : Nat) : Watch :=
  ⟨{ Fleet.init with
      rows := (List.range n).map fun i =>
        { oneServer.row i with status := .running, hostID := some 0, vmID := some i } },
    fun _ => 0, 0, 0, []⟩

section Crowd

variable (n : Nat)

theorem crowd_numbered : Numbered (crowd n).fleet.rows := by
  intro i r hr
  change ((List.range n).map _)[i]? = some r at hr
  rw [List.getElem?_map, Option.map_eq_some_iff] at hr
  obtain ⟨j, hj, rfl⟩ := hr
  obtain ⟨hl, hv⟩ := List.getElem?_eq_some_iff.mp hj
  rw [getElem_range] at hv
  exact hv.symm

theorem crowd_steady : Steady (crowd n).fleet.rows := by
  constructor
  · intro s hs _
    obtain ⟨i, -, rfl⟩ := mem_map.mp hs
    exact ⟨0, i, rfl, rfl⟩
  · intro s hs
    obtain ⟨i, -, rfl⟩ := mem_map.mp hs
    rfl

theorem crowd_running : ((crowd n).fleet.rows.filter GameServer.running).length = n := by
  have ha : ∀ s ∈ (crowd n).fleet.rows, s.running = true := by
    intro s hs
    obtain ⟨i, -, rfl⟩ := mem_map.mp hs
    rfl
  rw [filter_eq_self.mpr ha]
  simp [crowd]

end Crowd

/-- A hundred servers are all probed in every two ticks, and their whitelists pushed in every
two sweeps. -/
theorem running_servers_covered_hundred :
    Steady (crowd 100).fleet.rows ∧ ProbesCover oneHost.cfg (crowd 100) ∧
      PushesCover (crowd 100) := by
  obtain ⟨hprobes, hpushes⟩ := running_servers_covered_iff oneHost.cfg (crowd 100)
    (crowd_numbered 100) (crowd_steady 100)
  rw [crowd_running] at hprobes hpushes
  exact ⟨crowd_steady 100, hprobes.mpr (Nat.le_refl _), hpushes.mpr (Nat.le_refl _)⟩

/-- With one server more, there is one that no tick ever probes. -/
theorem last_of_crowd_never_probed : ∃ ts : Nat → Tick,
      (∀ k, (ts k).order.byUpdate ((crowd 101).ticks oneHost.cfg ts k).updatedAt) ∧
      ∃ s ∈ (crowd 101).fleet.rows, s.running = true ∧
        ∀ j, ¬ ((crowd 101).ticks oneHost.cfg ts (j + 1)).Probed s := by
  apply never_probed oneHost.cfg (crowd_numbered 101) (crowd_steady 101)
  rw [crowd_running]
  decide

end Craftling.Control

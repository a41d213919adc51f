import Craftling.Control.Reports

namespace Craftling.Control
open Effects Option Prog

/-- The commands about a server that are to succeed: those that move the VM on its record and,
where `full` asks for all it needs, those that bring one up, probe it and save its world. -/
def Op.tends (full : Bool) (r : GameServer) : Op → Bool
  | .provision spec => full && spec.serverID = r.id
  | .start v | .stop v | .evict v | .deprovision v => r.vmID = some v
  | .snapshot v => full && r.vmID = some v
  | .status v => full && r.vmID = some v
  | _ => false

/-- What an agent has to have of a VM for a command to succeed. -/
def Op.needs (vm : VMID → Option VM) : Op → Prop
  | .start v => (vm v).isSome = true
  | .snapshot v => (vm v).any VM.up = true
  | _ => True

/-- The rows, the VMs that agents report running, and those that the agents which the hosts are
connected to track. -/
structure Scene where
  rows : List GameServer
  up : HostID → VMID → Prop
  vm : HostID → VMID → Option VM

def Scene.Serves (full : Bool) (id : ServerID) (T : Scene) (h : HostID) (op : Op) : Prop :=
  (∃ r, T.rows[id]? = some r ∧ op.tends full r = true ∧ r.hostID = some h) ∧ op.needs (T.vm h)

/-- The rows tell the same of where a server is and of what is asked for. -/
def GameServer.Like (r s : GameServer) : Prop :=
  r.core = s.core ∧ r.desired = s.desired ∧ r.backupRequested = s.backupRequested

theorem GameServer.Like.trans {r s t : GameServer} (h : r.Like s) (h' : s.Like t) : r.Like t :=
  ⟨h.1.trans h'.1, h.2.1.trans h'.2.1, h.2.2.trans h'.2.2⟩

def Call.rewrites (now : Time) (e : Call) (rows : List GameServer) : List GameServer :=
  match e.writes now with
  | some (id, g) => updateRow rows id g
  | none => rows

def Call.halts : Call → Option VMID
  | .command _ op => op.halts
  | _ => none

/-- The database refuses nothing, and the inventory nothing where that is asked for. -/
def Call.well (full : Bool) : (e : Call) → Answer e → Bool
  | .enter _, _ | .leave _, _ | .now, _ | .command _ _, _ => true
  | .reserve _ _ _, r => !full || r.isOk
  | .listRunning, r | .listReconcilable, r | .markLost _ _, r | .markHealth _ _ _ _, r
  | .markBackedUp _, r | .markStatus _ _ _, r | .markRunning _ _ _ _, r | .assignHost _ _, r
  | .unassignHost _, r | .markStopped _, r | .softDelete _, r | .listHosts, r | .listReady, r
  | .release _ _ _, r | .startRunning _, r | .stopRunning _, r => r.isOk

def Roomy (hosts : List Host) (r : GameServer) : Prop :=
  r.desired = .running → r.hostID = none → r.deleted = false →
    ∃ x ∈ hosts, r.cpus ≤ x.cpusAllocatable ∧ r.memoryMB ≤ x.memoryMBAllocatable

def Lists (rows : List GameServer) (p : GameServer → Bool) (servers : List GameServer) : Prop :=
  ∃ order : Order, servers = (order.arrange (rows.filter p)).take listLimit

def Scene.Said (full : Bool) (id : ServerID) (T T' : Scene) : (e : Call) → Answer e → Prop
  | .listRunning, .ok servers =>
    Lists T.rows GameServer.running servers ∧
      (full = true → (T.rows.filter GameServer.running).length ≤ listLimit)
  | .listReconcilable, .ok servers =>
    Lists T.rows GameServer.reconcilable servers ∧
      (T.rows.filter GameServer.reconcilable).length ≤ listLimit
  | .listReady, .ok ready => full = true → ∀ r, T.rows[id]? = some r → Roomy ready r
  | .command h op, .error _ => ¬ T.Serves full id h op
  | .command h op, .ok view =>
    Tells op view ∧ (full = true → ∀ x, view = some x → x.state = .running → T'.up h x.id)
  | _, _ => True

/-- The VM on the row's record is still with its agent, and is up if it was. -/
def Remains (full : Bool) (T T' : Scene) (r : GameServer) : Prop :=
  ∀ h v m, r.hostID = some h → r.vmID = some v → T.vm h v = some m →
    ∃ m', T'.vm h v = some m' ∧ (full = true → m.up = true → m'.up = true)

structure Scene.Answers (full : Bool) (id : ServerID) (T : Scene) (e : Call) (r : Answer e)
    (T' : Scene) : Prop where
  well : e.well full r = true
  rows : ∃ now, T'.rows = e.rewrites now T.rows
  up : full = true → ∀ h v, e.halts ≠ some v → T.up h v → T'.up h v
  kept : ∀ r, T.rows[id]? = some r → (∀ v, r.vmID = some v → e.halts ≠ some v) → Remains full T T' r
  said : Scene.Said full id T T' e r

/-- What others do in the meantime: nothing that concerns where servers are or what is asked
of the server `id`. -/
structure Scene.Stirred (full : Bool) (id : ServerID) (T T' : Scene) : Prop where
  rows : ∀ (j : Nat) r, T.rows[j]? = some r → ∃ r', T'.rows[j]? = some r' ∧ r'.core = r.core
  mine : ∀ r', T'.rows[id]? = some r' → ∃ r, T.rows[id]? = some r ∧ r'.Like r
  up : full = true → ∀ h v, T.up h v → T'.up h v
  kept : ∀ r, T.rows[id]? = some r → Remains full T T' r

structure Proper (rows : List GameServer) : Prop where
  numbered : Numbered rows
  coherent : ∀ r ∈ rows, r.Coherent
  apart : ∀ (i j : Nat) r s v, rows[i]? = some r → rows[j]? = some s → r.vmID = some v →
    s.vmID = some v → i = j

def Scene.Goes (full : Bool) (id : ServerID) (T : Scene) (e : Call) (r : Answer e) (T' : Scene) :
    Prop :=
  ∃ T1, T.Stirred full id T1 ∧ Proper T1.rows ∧ T1.Answers full id e r T'

abbrev Turns (full : Bool) (id : ServerID) (T : Scene) (p : Act α) (Q : Scene → α → Prop) : Prop :=
  Brings (Scene.Goes full id) T p Q

section Scene

variable {full : Bool} {id : ServerID} {T T' T'' : Scene} {e : Call} {r r' : GameServer}

theorem Remains.refl (full : Bool) (T : Scene) (r : GameServer) : Remains full T T r :=
  fun _ _ m _ _ hm => ⟨m, hm, fun _ h => h⟩

theorem Remains.trans (h : Remains full T T' r) (h' : Remains full T' T'' r') (hcore : r'.core = r.core) :
    Remains full T T'' r := by
  intro host v m hh hv hm
  obtain ⟨m', hm', hup⟩ := h host v m hh hv hm
  obtain ⟨m'', hm'', hup'⟩ :=
    h' host v m' ((hostID_of_core hcore).trans hh) ((vmID_of_core hcore).trans hv) hm'
  exact ⟨m'', hm'', fun hf hm => hup' hf (hup hf hm)⟩

theorem Scene.Stirred.refl (full : Bool) (id : ServerID) (T : Scene) : T.Stirred full id T :=
  ⟨fun _ r hr => ⟨r, hr, rfl⟩, fun r hr => ⟨r, hr, rfl, rfl, rfl⟩, fun _ _ _ h => h,
    fun r _ => .refl full T r⟩

theorem Scene.Stirred.trans (h : T.Stirred full id T') (h' : T'.Stirred full id T'') :
    T.Stirred full id T'' := by
  refine ⟨fun j r hr => ?_, fun r'' hr'' => ?_, fun hf host v hup => ?_, fun r hr => ?_⟩
  · obtain ⟨r', hr', hcore⟩ := h.rows j r hr
    obtain ⟨r'', hr'', hcore'⟩ := h'.rows j r' hr'
    exact ⟨r'', hr'', hcore'.trans hcore⟩
  · obtain ⟨r', hr', hl⟩ := h'.mine r'' hr''
    obtain ⟨r, hr, hl'⟩ := h.mine r' hr'
    exact ⟨r, hr, hl.trans hl'⟩
  · exact h'.up hf host v (h.up hf host v hup)
  · obtain ⟨r', hr', hcore⟩ := h.rows id r hr
    exact (h.kept r hr).trans (h'.kept r' hr') hcore

theorem Agrees.stirred (h : Agrees T.rows s) (hm : T.Stirred full id T') : Agrees T'.rows s := by
  obtain ⟨r, hr, hcore⟩ := h
  obtain ⟨r', hr', hcore'⟩ := hm.rows _ r hr
  exact ⟨r', hr', hcore'.trans hcore⟩

theorem Scene.Goes.well {r : Answer e} (h : T.Goes full id e r T') : e.well full r = true := by
  obtain ⟨T1, -, -, ha⟩ := h
  exact ha.well

theorem Scene.Goes.stirred {r : Answer e} (h : T.Goes full id e r T')
    (hw : ∀ now, e.writes now = none) (hh : e.halts = none) : T.Stirred full id T' := by
  obtain ⟨T1, hm, -, ha⟩ := h
  refine hm.trans ⟨?_, ?_, fun hf host v hup => ha.up hf host v (by simp [hh]) hup,
    fun r hr => ha.kept r hr (by simp [hh])⟩ <;>
    (obtain ⟨now, hro⟩ := ha.rows
     rw [hro, Call.rewrites, hw now])
  · exact fun j r hr => ⟨r, hr, rfl⟩
  · exact fun r hr => ⟨r, hr, rfl, rfl, rfl⟩

end Scene

/-- The work on server `k` touches no other row, and none of the VM of server `id`, unless
that is it. -/
structure Frame (full : Bool) (id k : ServerID) (T T' : Scene) : Prop where
  rows : ∀ (j : Nat) r, j ≠ k → T.rows[j]? = some r → ∃ r', T'.rows[j]? = some r' ∧ r'.core = r.core
  mine : id ≠ k → ∀ r', T'.rows[id]? = some r' → ∃ r, T.rows[id]? = some r ∧ r'.Like r
  up : full = true → id ≠ k → ∀ r v h, T.rows[id]? = some r → r.vmID = some v → T.up h v → T'.up h v
  kept : id ≠ k → ∀ r, T.rows[id]? = some r → Remains full T T' r

section Frame

variable {full : Bool} {id k : ServerID} {T T' T'' : Scene} {e : Call} {cfg : Config}

theorem Scene.Stirred.frame (h : T.Stirred full id T') (k : ServerID) : Frame full id k T T' :=
  ⟨fun j r _ hr => h.rows j r hr, fun _ => h.mine, fun hf _ _ v host _ _ hup => h.up hf host v hup,
    fun _ => h.kept⟩

theorem Frame.trans (h : Frame full id k T T') (h' : Frame full id k T' T'') :
    Frame full id k T T'' := by
  refine ⟨fun j r hj hr => ?_, fun hi r'' hr'' => ?_, fun hf hi r v host hr hv hup => ?_,
    fun hi r hr => ?_⟩
  · obtain ⟨r', hr', hcore⟩ := h.rows j r hj hr
    obtain ⟨r'', hr'', hcore'⟩ := h'.rows j r' hj hr'
    exact ⟨r'', hr'', hcore'.trans hcore⟩
  · obtain ⟨r', hr', hl⟩ := h'.mine hi r'' hr''
    obtain ⟨r, hr, hl'⟩ := h.mine hi r' hr'
    exact ⟨r, hr, hl.trans hl'⟩
  · obtain ⟨r', hr', hcore⟩ := h.rows id r hi hr
    exact h'.up hf hi r' v host hr' ((vmID_of_core hcore).trans hv) (h.up hf hi r v host hr hv hup)
  · obtain ⟨r', hr', hcore⟩ := h.rows id r hi hr
    exact (h.kept hi r hr).trans (h'.kept hi r' hr') hcore

variable {w : Work}

theorem Work.next_well {i : ServerID} {g : GameServer → GameServer} {r : Answer e}
    (hw : e.writes now = some (i, g)) (hr : e.well full r = true) :
    (w.next e r).row.core = (g w.row).core := by
  cases e <;> cases hw <;> cases r <;> first
    | (cases hr; done)
    | rfl
    | (simp only [Work.next, GameServer.markedHealth]; split <;> rfl)

theorem Scene.Answers.frame {r : Answer e} (h : T.Answers full id e r T') (hm : w.may cfg e)
    (ha : Agrees T.rows w.row) (hp : Proper T.rows) :
    Frame full id w.row.id T T' ∧ Agrees T'.rows (w.next e r).row := by
  obtain ⟨now, hro⟩ := h.rows
  have hno : id ≠ w.row.id → ∀ r v, T.rows[id]? = some r → r.vmID = some v → e.halts ≠ some v := by
    intro hid r0 v hr hv hh
    cases e with
    | command host' op =>
      obtain ⟨r', hr', hcore⟩ := ha
      have ht : w.row.vmID = some v := by
        have hm := hm.2.2.1
        cases op <;> cases hh <;> exact hm
      exact hid (hp.apart id w.row.id r0 r' v hr hr' hv ((vmID_of_core hcore).trans ht))
    | _ => cases hh
  have hup : full = true → id ≠ w.row.id → ∀ r v host, T.rows[id]? = some r → r.vmID = some v →
      T.up host v → T'.up host v := fun hf hid r0 v host hr hv =>
    h.up hf host v (hno hid r0 v hr hv)
  have hke : id ≠ w.row.id → ∀ r, T.rows[id]? = some r → Remains full T T' r := fun hid r0 hr =>
    h.kept r0 hr fun v hv => hno hid r0 v hr hv
  cases hw : e.writes now with
  | none =>
    rw [Call.rewrites, hw] at hro
    have hro : T'.rows = T.rows := hro
    refine ⟨⟨?_, ?_, hup, hke⟩, ?_⟩
    · rw [hro]
      exact fun j r _ hr => ⟨r, hr, rfl⟩
    · rw [hro]
      exact fun _ r hr => ⟨r, hr, rfl, rfl, rfl⟩
    · rw [hro, Work.next_core_of_not_writes hw]
      exact ha
  | some write =>
    obtain ⟨i, g⟩ := write
    rw [Call.rewrites, hw] at hro
    have hro : T'.rows = updateRow T.rows i g := hro
    have hi : i = w.row.id := w.may_writes now hm hw
    refine ⟨⟨?_, ?_, hup, hke⟩, ?_⟩
    · intro j r hj hr
      exact ⟨r, by simp [hro, getElem?_updateRow, hi, Ne.symm hj, hr], rfl⟩
    · intro hid r hr
      refine ⟨r, ?_, rfl, rfl, rfl⟩
      simpa [hro, getElem?_updateRow, hi, Ne.symm hid] using hr
    · rw [hro]
      exact ha.written hw hi (Work.next_well hw h.well)

theorem does_frames {Q : Work → α → Prop} (h : Does cfg w p Q) (ha : Agrees T.rows w.row) :
    Turns full id T p fun T' _ => Frame full id w.row.id T T' := by
  induction p generalizing w T with
  | done a => exact (Scene.Stirred.refl full id T).frame _
  | call e k ih =>
    obtain ⟨hm, hr⟩ := h.of_call
    refine .call fun r T' hg => ?_
    obtain ⟨T1, hmo, hp, han⟩ := hg
    obtain ⟨hfr, ha'⟩ := han.frame hm (ha.stirred hmo) hp
    have hl := ih r (hr r) ha'
    rw [Work.next_id] at hl
    exact hl.mono fun T'' _ hf => (hmo.frame _).trans (hfr.trans hf)

end Frame

def Mine (T : Scene) (s : GameServer) (b : Bool) : Prop :=
  ∃ r, T.rows[s.id]? = some r ∧ r.core = s.core ∧ r.desired = s.desired ∧ r.backupRequested = b

def Up (T : Scene) (s : GameServer) : Prop :=
  ∃ h v, s.hostID = some h ∧ s.vmID = some v ∧ T.up h v

/-- What a tick has to find. A VM that is to be started is still with its agent. Where all is asked
for, a row is not deleted against what is wanted, not stopped with a host, and a VM to be saved is
up. -/
structure GameServer.Sound (full : Bool) (T : Scene) (r : GameServer) : Prop where
  gone : full = true → r.deleted = true → r.desired = .deleted
  placed : full = true → r.status = .stopped → r.desired = .stopped → r.hostID = none
  has : ∀ h v, r.hostID = some h → r.vmID = some v → r.desired = .running → r.status ≠ .running →
    (T.vm h v).isSome = true
  saves : full = true → ∀ h v, r.hostID = some h → r.vmID = some v → r.backupRequested = true →
    r.status = .running → (T.vm h v).any VM.up = true

/-- Where a tick leaves a row: it has no VM or runs. Where all is asked for it is as wanted. -/
structure GameServer.AtRest (full : Bool) (T : Scene) (r : GameServer) : Prop where
  quit : r.vmID = none ∨ r.status = .running
  home : full = true → (r.deleted = true ∧ r.desired = .deleted) ∨
    (r.deleted = false ∧ r.reconcilable = false ∧ (r.desired = .running → Up T r) ∧
      (r.desired = .stopped → r.hostID = none))

def Rested (full : Bool) (id : ServerID) (T : Scene) : Prop :=
  ∀ r, T.rows[id]? = some r → r.AtRest full T

def Checked (full : Bool) (id : ServerID) (T : Scene) : Prop :=
  ∀ r, T.rows[id]? = some r → r.Sound full T ∧ (full = true → r.running = true → Up T r)

section Own

variable {full : Bool} {cfg : Config} {T T' : Scene} {s : GameServer} {b : Bool} {id : ServerID}
    {e : Call} {s0 : GameServer} {h : HostID} {P : Prop}

theorem Mine.stirred (h : Mine T s b) (hm : T.Stirred full s.id T') : Mine T' s b := by
  obtain ⟨r, hr, hcore, hd, hb⟩ := h
  obtain ⟨r', hr', -⟩ := hm.rows s.id r hr
  obtain ⟨r0, hr0, hl⟩ := hm.mine r' hr'
  rw [hr] at hr0
  cases hr0
  exact ⟨r', hr', hl.1.trans hcore, hl.2.1.trans hd, hl.2.2.trans hb⟩

theorem Remains.of_core {r : GameServer} (h : Remains full T T' r) (hcore : r.core = s.core) :
    Remains full T T' s := fun host v m hh hv =>
  h host v m ((hostID_of_core hcore).trans hh) ((vmID_of_core hcore).trans hv)

theorem Mine.kept (h : Mine T s b) (hm : T.Stirred full s.id T') : Remains full T T' s := by
  obtain ⟨r, hr, hcore, -⟩ := h
  exact (hm.kept r hr).of_core hcore

theorem Mine.kept_goes {r : Answer e} (h : Mine T s b) (hg : T.Goes full s.id e r T')
    (hh : e.halts = none) : Remains full T T' s := by
  obtain ⟨T1, hm, -, ha⟩ := hg
  obtain ⟨r1, hr1, hcore, -⟩ := h.stirred hm
  exact (h.kept hm).trans (ha.kept r1 hr1 (by simp [hh])) hcore

theorem Remains.isSome (h : Remains full T T' s) (hh : s.hostID = some host) (hv : s.vmID = some v)
    (hs : (T.vm host v).isSome = true) : (T'.vm host v).isSome = true := by
  obtain ⟨m, hm⟩ := isSome_iff_exists.mp hs
  obtain ⟨m', hm', -⟩ := h host v m hh hv hm
  rw [hm']
  rfl

theorem Remains.up (h : Remains full T T' s) (hf : full = true) (hh : s.hostID = some host)
    (hv : s.vmID = some v) (hs : (T.vm host v).any VM.up = true) :
    (T'.vm host v).any VM.up = true := by
  rw [Option.any_eq_true] at hs ⊢
  obtain ⟨m, hm, hup⟩ := hs
  obtain ⟨m', hm', hk⟩ := h host v m hh hv hm
  exact ⟨m', hm', hk hf hup⟩

theorem GameServer.Sound.kept (h : s.Sound full T) (hk : Remains full T T' s) : s.Sound full T' :=
  ⟨h.gone, h.placed, fun host v hh hv hd hs => hk.isSome hh hv (h.has host v hh hv hd hs),
    fun hf host v hh hv hb hs => hk.up hf hh hv (h.saves hf host v hh hv hb hs)⟩

theorem GameServer.Sound.like {r : GameServer} (h : s.Sound full T) (hl : r.Like s) :
    r.Sound full T := by
  obtain ⟨hcore, hd, hb⟩ := hl
  have hs : r.status = s.status := congrArg Core.status hcore
  constructor
  · rw [deleted_of_core hcore, hd]
    exact h.gone
  · rw [hs, hd, hostID_of_core hcore]
    exact h.placed
  · rw [hostID_of_core hcore, vmID_of_core hcore, hd, hs]
    exact h.has
  · rw [hostID_of_core hcore, vmID_of_core hcore, hb, hs]
    exact h.saves

theorem Up.stirred (h : Up T s) (hf : full = true) (hm : T.Stirred full id T') : Up T' s := by
  obtain ⟨host, v, hh, hv, hup⟩ := h
  exact ⟨host, v, hh, hv, hm.up hf host v hup⟩

theorem Up.of_core (h : Up T s) (hcore : r.core = s.core) : Up T r := by
  obtain ⟨host, v, hh, hv, hup⟩ := h
  exact ⟨host, v, (hostID_of_core hcore).trans hh, (vmID_of_core hcore).trans hv, hup⟩

theorem Call.writes_wants {now : Time} {i : ServerID} {g : GameServer → GameServer}
    (hw : e.writes now = some (i, g)) (r : GameServer) :
    (g r).desired = r.desired ∧
      (e ≠ .markBackedUp i → (g r).backupRequested = r.backupRequested) := by
  cases e <;> cases hw
  case markLost =>
    simp only [GameServer.markedLost]
    split <;> exact ⟨rfl, fun _ => rfl⟩
  case markHealth =>
    simp only [GameServer.markedHealth]
    split <;> exact ⟨rfl, fun _ => rfl⟩
  case markBackedUp => exact ⟨rfl, fun hn => absurd rfl hn⟩
  all_goals exact ⟨rfl, fun _ => rfl⟩

theorem Mine.wrote {r : Answer e} {g : Time → GameServer → GameServer} (h : Mine T s b)
    (hg : T.Goes full s.id e r T') (hw : ∀ now, e.writes now = some (s.id, g now))
    (hn : e ≠ .markBackedUp s.id) : ∃ now, Mine T' (g now s) b := by
  obtain ⟨T1, hm, -, ha⟩ := hg
  obtain ⟨r1, hr1, hcore, hd, hb⟩ := h.stirred hm
  obtain ⟨now, hr⟩ := ha.rows
  rw [Call.rewrites, hw now] at hr
  have hr : T'.rows = updateRow T1.rows s.id (g now) := hr
  have hi : (g now s).id = s.id := (Call.writes_core (hw now) (s := s) rfl).2
  have hmi := Call.writes_wants (hw now) r1
  have hre := Call.writes_wants (hw now) s
  refine ⟨now, g now r1, ?_, (Call.writes_core (hw now) hcore).1, ?_, ?_⟩
  · simp [hr, hi, getElem?_updateRow, hr1]
  · rw [hmi.1, hre.1, hd]
  · rw [hmi.2 hn, hb]

theorem Up.goes {r : Answer e} (h : Up T s) (hf : full = true) (hg : T.Goes full id e r T')
    (hh : e.halts = none) : Up T' s := by
  obtain ⟨T1, hm, -, ha⟩ := hg
  obtain ⟨host, v, hho, hv, hup⟩ := h
  exact ⟨host, v, hho, hv, ha.up hf host v (by simp [hh]) (hm.up hf host v hup)⟩

theorem Op.tends_of_core {op : Op} {r : GameServer} (hcore : r.core = s.core) :
    op.tends full r = op.tends full s := by
  cases op <;> simp [Op.tends, id_of_core hcore, vmID_of_core hcore]

/-- A command about the server fails only if it need not succeed. -/
theorem command_turns {op : Op} {k : Answer (.command h op) → Act α} {Q : Scene → α → Prop}
    (hm : Mine T s b) (hh : s.hostID = some h)
    (he : (op.tends full s = true → ∃ T', T.Stirred full s.id T' ∧ ¬ op.needs (T'.vm h)) →
      ∀ err T', Mine T' s b → (op.halts = none → T.Stirred full s.id T') →
        Turns full s.id T' (k (.error err)) Q)
    (hk : ∀ view T', Mine T' s b → Tells op view → (full = true → ∀ x, view = some x →
      x.state = .running → T'.up h x.id) → (op.halts = none → T.Stirred full s.id T') →
        Turns full s.id T' (k (.ok view)) Q) :
    Turns full s.id T (.call (.command h op) k) Q := by
  refine .call fun r T' hg => ?_
  have hs : op.halts = none → T.Stirred full s.id T' := fun ho => hg.stirred (fun _ => rfl) ho
  obtain ⟨T1, hmo, -, ha⟩ := hg
  have hm1 := hm.stirred hmo
  have hm' : Mine T' s b := by
    obtain ⟨now, hr⟩ := ha.rows
    have hr : T'.rows = T1.rows := hr
    unfold Mine
    rw [hr]
    exact hm1
  cases r with
  | error err =>
    refine he (fun ht => ⟨T1, hmo, fun hn => ?_⟩) err T' hm' hs
    obtain ⟨r1, hr1, hcore, -⟩ := hm1
    exact ha.said ⟨⟨r1, hr1, (Op.tends_of_core hcore).trans ht, (hostID_of_core hcore).trans hh⟩, hn⟩
  | ok view => exact hk view T' hm' ha.said.1 ha.said.2 hs

theorem stopBilling_turns :
    Turns full id T (stopBilling cfg id) fun T' _ => T.Stirred full id T' := by
  unfold stopBilling
  split
  · exact .call fun r T' hg => .done (hg.stirred (fun _ => rfl) rfl)
  · exact .done (.refl full id T)

theorem startBilling_turns :
    Turns full s.id T (startBilling cfg s) fun T' _ => T.Stirred full s.id T' := by
  unfold startBilling
  split
  · exact .call fun r T' hg => .done (hg.stirred (fun _ => rfl) rfl)
  · exact .done (.refl full s.id T)

theorem releaseHost_turns : Turns full id T (releaseHost s) fun T' _ => T.Stirred full id T' := by
  unfold releaseHost
  cases s.hostID with
  | none => exact .done (.refl full id T)
  | some h => exact .call fun r T' hg => .done (hg.stirred (fun _ => rfl) rfl)

theorem placeable_turns (h : HostID) :
    Turns full id T (placeable h) fun T' r => T.Stirred full id T' ∧ ∃ ready, r = .ok ready := by
  refine .call fun r T' hg => ?_
  cases r with
  | error e => cases hg.well
  | ok ready => exact .done ⟨hg.stirred (fun _ => rfl) rfl, _, rfl⟩

theorem hostDeadTooLong_turns :
    Turns full id T (hostDeadTooLong cfg s) fun T' _ => T.Stirred full id T' := by
  unfold hostDeadTooLong
  cases s.hostID with
  | none => exact .done (.refl full id T)
  | some h =>
    refine .call fun r T1 hg => ?_
    have hm : T.Stirred full id T1 := hg.stirred (fun _ => rfl) rfl
    cases r with
    | error e => cases hg.well
    | ok all =>
      simp only [onOk, pure_eq, done_bind]
      split
      · exact .done hm
      · exact .call fun now T2 hg => .done (hm.trans (hg.stirred (fun _ => rfl) rfl))

theorem recordHealth_turns (h : Option Health) (hm : Mine T s b) (hs : s.Sound full T)
    (hup : full = true → Up T s) : Turns full s.id T (recordHealth s h) fun T' _ =>
      Mine T' s b ∧ s.Sound full T' ∧ (full = true → Up T' s) := by
  unfold recordHealth
  cases h with
  | none => exact .done ⟨hm, hs, hup⟩
  | some h =>
    refine .call fun now T1 hg => ?_
    have hmo : T.Stirred full s.id T1 := hg.stirred (fun _ => rfl) rfl
    have hm1 := hm.stirred hmo
    have hs1 := hs.kept (hm.kept hmo)
    have hup1 : full = true → Up T1 s := fun hf => (hup hf).stirred hf hmo
    simp only [bind_eq, done_bind]
    split
    · refine .call fun r T2 hg => .done ⟨?_, hs1.kept (hm1.kept_goes hg rfl),
        fun hf => (hup1 hf).goes hf hg rfl⟩
      obtain ⟨now', r, hr, hcore, hd, hb⟩ := hm1.wrote hg (fun _ => rfl) (by simp)
      have hs : (s.markedHealth h.reachable h.playersOnline h.playersMax now').core = s.core ∧
          (s.markedHealth h.reachable h.playersOnline h.playersMax now').desired = s.desired := by
        unfold GameServer.markedHealth
        split <;> exact ⟨rfl, rfl⟩
      rw [id_of_core hs.1] at hr
      exact ⟨r, hr, hcore.trans hs.1, hd.trans hs.2, hb⟩
    · exact .done ⟨hm1, hs1, hup1⟩

theorem markLost_turns (message : String) (hm : Mine T s b) (hru : s.running = true) :
    Turns full s.id T (markLost cfg s message) fun T' _ => Checked full s.id T' := by
  refine .call fun r T1 hg => ?_
  obtain ⟨now, hm1⟩ := hm.wrote hg (fun _ => rfl) (by simp)
  simp only [GameServer.running, Bool.and_eq_true, Bool.not_eq_true', decide_eq_true_eq] at hru
  have hl : s.markedLost message = { s with
      status := .pending, vmID := none, statusMessage := nullIf message,
      playersOnline := none, playersMax := none, lastSeen := none } := by
    simp [GameServer.markedLost, hru]
  cases r with
  | error e => cases hg.well
  | ok u =>
    refine Brings.mono stopBilling_turns fun T2 _ hmo r hr => ?_
    rw [hl] at hm1
    obtain ⟨r', hr', hcore, -⟩ := hm1.stirred hmo
    rw [show T2.rows[s.id]? = some r' from hr'] at hr
    cases hr
    have hp : r.status = .pending := congrArg Core.status hcore
    have hv : r.vmID = none := congrArg Core.vmID hcore
    have hd : r.deleted = false := (congrArg Core.deleted hcore).trans hru.1.1
    refine ⟨⟨?_, ?_, ?_, ?_⟩, ?_⟩ <;> simp [hp, hv, hd, GameServer.running]

theorem Checked.of_mine (hm : Mine T s s.backupRequested) (hs : s.Sound full T)
    (hup : full = true → Up T s) : Checked full s.id T := by
  intro r hr
  obtain ⟨r', hr', hcore, hd, hb⟩ := hm
  rw [hr] at hr'
  cases hr'
  exact ⟨hs.like ⟨hcore, hd, hb⟩, fun hf _ => (hup hf).of_core hcore⟩

theorem checkServerLiveness_turns (hm : Mine T s s.backupRequested) (hs : s.Sound full T)
    (hc : s.Coherent) (hr : s.running = true) :
    Turns full s.id T (checkServerLiveness cfg s) fun T' _ => Checked full s.id T' := by
  refine .bind ?_
  unfold Remote.status
  cases hv : s.vmID with
  | none => exact .done (markLost_turns _ hm hr)
  | some v =>
    obtain ⟨h, hh⟩ := isSome_iff_exists.mp (hc.hosted (by rw [hv]; rfl))
    simp only [assignedHost, hh, onOk]
    refine command_turns hm hh (fun hno err T1 hm1 hmo => .done ?_)
      fun view T1 hm1 ht hup hmo => .done ?_
    · have hf : full = true → False := fun hf => by
        obtain ⟨T', -, hn⟩ := hno (by simp [Op.tends, hf, hv])
        exact hn trivial
      have hs1 := hs.kept (hm.kept (hmo rfl))
      refine .bind (Brings.mono hostDeadTooLong_turns fun T2 r hmo2 => ?_)
      have hm2 := hm1.stirred hmo2
      have hch : Checked full s.id T2 :=
        .of_mine hm2 (hs1.kept (hm1.kept hmo2)) fun hfu => (hf hfu).elim
      cases r with
      | error e => exact .done hch
      | ok dead =>
        cases dead with
        | false => exact .done hch
        | true => exact markLost_turns _ hm2 hr
    · obtain ⟨x, rfl, hx⟩ := ht
      dsimp only [stateOf]
      split
      · rename_i hst
        have hup1 : full = true → Up T1 s := fun hf => ⟨h, v, hh, hv, hx ▸ hup hf x rfl hst⟩
        exact Brings.mono (recordHealth_turns _ hm1 (hs.kept (hm.kept (hmo rfl))) hup1)
          fun T2 _ he => .of_mine he.1 he.2.1 he.2.2
      · exact markLost_turns _ hm1 hr

def Runs (full : Bool) (T : Scene) (s : GameServer) (b : Bool) : Prop :=
  ∃ s', s'.id = s.id ∧ s'.desired = s.desired ∧ s'.status = .running ∧ s'.deleted = false ∧
    Mine T s' b ∧ (full = true → Up T s')

/-- The server has no VM, and need not have one. -/
def Bare (full : Bool) (T : Scene) (s : GameServer) : Prop :=
  full = false ∧ ∃ s' b, s'.id = s.id ∧ s'.vmID = none ∧ Mine T s' b

theorem provisionOrStart_turns (hm : Mine T s b) (hi : s0.id = s.id) (hh0 : s0.hostID = some h)
    (hh : s.hostID = some h) (hvm : s0.vmID = s.vmID)
    (hv : ∀ v, s.vmID = some v → (T.vm h v).isSome = true) :
    Turns full s.id T (provisionOrStart s0 s0.vmID.isSome) fun T' r => Mine T' s b ∧
      ((∃ inst v, r = .ok inst ∧ inst.vmID = some v ∧ (full = true → T'.up h v)) ∨
        full = false ∧ s.vmID = none ∧ ∃ err, r = .error err) := by
  unfold provisionOrStart
  cases hv0 : s0.vmID with
  | none =>
    change Turns _ _ _ (Remote.provision s0) _
    unfold Remote.provision
    simp only [assignedHost, hh0, onOk]
    refine command_turns hm hh (fun hno err T' hm' _ => .done ⟨hm', .inr ⟨?_, ?_, _, rfl⟩⟩)
      fun view T' hm' ht hup _ => ?_
    · cases hf : full with
      | false => rfl
      | true =>
        obtain ⟨T', -, hn⟩ := hno (by simp [Op.tends, specOf, hi, hf])
        exact absurd trivial hn
    · exact hvm.symm.trans hv0
    · obtain ⟨x, rfl, hs⟩ := ht
      exact .done ⟨hm', .inl ⟨_, x.id, rfl, rfl, fun hf => hup hf x rfl hs⟩⟩
  | some v =>
    change Turns _ _ _ (Remote.start s0) _
    unfold Remote.start
    simp only [hv0, assignedHost, hh0, onOk]
    have hsv : s.vmID = some v := hvm.symm.trans hv0
    refine command_turns hm hh (fun hno err T' _ _ => ?_) fun view T' hm' ht hup _ => ?_
    · obtain ⟨T', hmo, hn⟩ := hno (by simp [Op.tends, hsv])
      exact absurd ((hm.kept hmo).isSome hh hsv (hv v hsv)) hn
    · obtain ⟨x, rfl, -, hs⟩ := ht
      exact .done ⟨hm', .inl ⟨_, x.id, rfl, rfl, fun hf => hup hf x rfl hs⟩⟩

theorem boot_turns (provisioned : Bool) (hp : provisioned = s.vmID.isSome) (hm : Mine T s b)
    (hh : s.hostID = some h) (hl : s.deleted = false)
    (hv : ∀ v, s.vmID = some v → (T.vm h v).isSome = true) :
    Turns full s.id T (boot cfg s provisioned) fun T' r =>
      (r = .ok () ∧ Runs full T' s b) ∨ Bare full T' s := by
  subst hp
  refine .call fun r T1 hg => ?_
  obtain ⟨-, hm1⟩ := hm.wrote hg (fun _ => rfl) (by simp)
  have hv1 : ∀ v, s.vmID = some v → (T1.vm h v).isSome = true := fun v hsv =>
    (hm.kept_goes hg rfl).isSome hh hsv (hv v hsv)
  cases r with
  | error e => cases hg.well
  | ok u =>
    simp only [bind_eq, done_bind, onOk]
    refine .bind ((provisionOrStart_turns (s := s.marked .provisioning "") hm1 rfl hh hh rfl
      hv1).mono ?_)
    rintro T2 r ⟨hm2, ⟨inst, v, hr, hvm, hup⟩ | ⟨hf, hn, err, hr⟩⟩
    · subst hr
      refine .call fun r T3 hg => ?_
      obtain ⟨-, hm3⟩ := hm2.wrote hg (fun _ => rfl) (by simp)
      have hup3 : full = true →
          Up T3 ((s.marked .provisioning "").markedRunning inst.vmID inst.host inst.port) :=
        fun hf => Up.goes ⟨h, v, hh, hvm, hup hf⟩ hf hg rfl
      cases r with
      | error e => cases hg.well
      | ok u =>
        simp only [done_bind]
        refine .bind (Brings.mono startBilling_turns fun T4 _ hmo => .done (.inl ⟨rfl, ?_⟩))
        exact ⟨(s.marked .provisioning "").markedRunning inst.vmID inst.host inst.port, rfl, rfl,
          rfl, hl, hm3.stirred hmo, fun hf => (hup3 hf).stirred hf hmo⟩
    · subst hr
      exact .done (.inr ⟨hf, s.marked .provisioning "", b, rfl, hn, hm2⟩)

theorem fittingHosts_ne_nil
    (h : ∃ x ∈ hosts, cpus ≤ x.cpusAllocatable ∧ memMB ≤ x.memoryMBAllocatable) :
    fittingHosts hosts cpus memMB ≠ [] := by
  obtain ⟨x, hx, hc, hm⟩ := h
  unfold fittingHosts
  intro hn
  have hp := List.perm_insertionSort (fun a b : Host =>
    a.memoryMBAllocatable > b.memoryMBAllocatable ∨
      (a.memoryMBAllocatable = b.memoryMBAllocatable ∧ a.cpusAllocatable ≥ b.cpusAllocatable))
    (hosts.filter fun h => cpus ≤ h.cpusAllocatable && memMB ≤ h.memoryMBAllocatable)
  rw [hn] at hp
  have hm' : x ∈ hosts.filter fun h => cpus ≤ h.cpusAllocatable && memMB ≤ h.memoryMBAllocatable := by
    rw [List.mem_filter]
    exact ⟨hx, by simp [hc, hm]⟩
  rw [← hp.nil_eq] at hm'
  cases hm'

section

variable (hm : Mine T s b)
include hm

theorem reserveFirst_turns (hosts : List Host) (hn : full = true → hosts ≠ []) :
    Turns full s.id T (reserveFirst cpus memMB hosts) fun T' r =>
      Mine T' s b ∧ ((∃ h, r = .ok h) ∨ full = false ∧ r = .error .noCapacity) := by
  induction hosts generalizing T with
  | nil =>
    refine .done ⟨hm, .inr ⟨?_, rfl⟩⟩
    cases hf : full with
    | false => rfl
    | true => exact absurd rfl (hn hf)
  | cons x rest ih =>
    refine .call fun r T1 hg => ?_
    have hm1 := hm.stirred (hg.stirred (fun _ => rfl) rfl)
    cases r with
    | error e =>
      refine ih hm1 fun hf => ?_
      have hw := hg.well
      rw [hf] at hw
      cases hw
    | ok u => exact .done ⟨hm1, .inl ⟨x.id, rfl⟩⟩

theorem schedule_turns (hde : s.desired = .running)
    (hh : s.hostID = none) (hl : s.deleted = false) :
    Turns full s.id T (schedule s) fun T' r =>
      Mine T' s b ∧ ((∃ h, r = .ok h) ∨ full = false ∧ r = .error .noCapacity) := by
  refine .call fun r T1 hg => ?_
  have hm1 := hm.stirred (hg.stirred (fun _ => rfl) rfl)
  cases r with
  | error e => cases hg.well
  | ok ready =>
    obtain ⟨T', hmo, -, ha⟩ := hg
    obtain ⟨r, hr, hcore, hd, -⟩ := hm.stirred hmo
    refine reserveFirst_turns hm1 _ fun hf => fittingHosts_ne_nil ?_
    have hro := ha.said hf r hr (hd.trans hde) ((hostID_of_core hcore).trans hh)
      ((deleted_of_core hcore).trans hl)
    rwa [show r.cpus = s.cpus from congrArg Core.cpus hcore,
      show r.memoryMB = s.memoryMB from congrArg Core.memoryMB hcore] at hro

theorem place_turns (hd : s.desired = .running) (hh : s.hostID = none)
    (hl : s.deleted = false) : Turns full s.id T (place s) fun T' r =>
      (∃ h, r = .ok { s with hostID := some h } ∧ Mine T' { s with hostID := some h } b) ∨
        full = false ∧ r = .ok s ∧ ∃ s', s'.id = s.id ∧ s'.vmID = s.vmID ∧ Mine T' s' b := by
  refine .bind ((schedule_turns hm hd hh hl).mono ?_)
  rintro T1 r ⟨hm1, ⟨h, hr⟩ | ⟨hf, hr⟩⟩ <;> subst hr
  · refine .call fun r T2 hg => ?_
    obtain ⟨-, hm2⟩ := hm1.wrote hg (fun _ => rfl) (by simp)
    cases r with
    | error e => cases hg.well
    | ok u => exact .done (.inl ⟨h, rfl, hm2⟩)
  · refine .call fun r T2 hg => ?_
    obtain ⟨-, hm2⟩ := hm1.wrote hg (fun _ => rfl) (by simp)
    cases r with
    | error e => cases hg.well
    | ok u => exact .done (.inr ⟨hf, rfl, s.marked .unschedulable _, rfl, rfl, hm2⟩)

theorem dropStalePlacement_turns :
    Turns full s.id T (dropStalePlacement s) fun T' r =>
      ∃ host, r = .ok { s with hostID := host } ∧ Mine T' { s with hostID := host } b := by
  unfold dropStalePlacement
  cases hh : s.hostID with
  | none => exact .done ⟨none, by rw [← hh], by rw [← hh]; exact hm⟩
  | some h =>
    refine .bind ((placeable_turns h).mono ?_)
    rintro T1 r ⟨hmo, ready, hr⟩
    subst hr
    have hm1 := hm.stirred hmo
    simp only [onOk]
    split
    · exact .done ⟨some h, by rw [← hh], by rw [← hh]; exact hm1⟩
    refine .call fun r T2 hg => ?_
    have hm2 := hm1.stirred (hg.stirred (fun _ => rfl) rfl)
    refine .call fun r T3 hg => ?_
    obtain ⟨-, hm3⟩ := hm2.wrote hg (fun _ => rfl) (by simp)
    cases r with
    | error e => cases hg.well
    | ok u => exact .done ⟨none, rfl, hm3⟩

theorem start_turns (hs : s.Sound full T) (hc : s.Coherent)
    (hd : s.desired = .running) (hl : s.deleted = false)
    (hup : full = true → s.status = .running → Up T s) :
    Turns full s.id T (start cfg s) fun T' r =>
      (r = .ok () ∧ Runs full T' s b) ∨ Bare full T' s := by
  unfold start
  split
  · rename_i hru
    exact .done (.inl ⟨rfl, s, rfl, rfl, hru, hl, hm, fun hf => hup hf hru⟩)
  rename_i hru
  split
  · rename_i hv
    obtain ⟨h, hh⟩ := isSome_iff_exists.mp (hc.hosted hv)
    exact boot_turns true hv.symm hm hh hl fun v hsv => hs.has h v hh hsv hd hru
  rename_i hv
  have hv : s.vmID = none := by simpa using hv
  refine .bind ((dropStalePlacement_turns hm).mono ?_)
  rintro T1 r ⟨host, hr, hm1⟩
  subst hr
  simp only [onOk]
  cases host with
  | some h => exact boot_turns false (by simp [hv]) hm1 rfl hl (by simp [hv])
  | none =>
    refine .bind ((place_turns hm1 hd rfl hl).mono ?_)
    rintro T2 r (⟨h, hr, hm2⟩ | ⟨hf, hr, s', hi, hsv, hm2⟩) <;> subst hr
    · exact boot_turns false (by simp [hv]) hm2 rfl hl (by simp [hv])
    · exact .done (.inr ⟨hf, s', b, hi, hsv.trans hv, hm2⟩)

end

def Rests (full : Bool) (T : Scene) (s : GameServer) (b : Bool) : Prop :=
  ∃ s', s'.id = s.id ∧ s'.desired = s.desired ∧ s'.status = .stopped ∧ s'.deleted = false ∧
    s'.vmID = none ∧ (full = true → s'.hostID = none) ∧ Mine T s' b

def Gone (T : Scene) (s : GameServer) (b : Bool) : Prop :=
  ∃ s', s'.id = s.id ∧ s'.desired = s.desired ∧ s'.deleted = true ∧ s'.vmID = none ∧ Mine T s' b

/-- A command that takes down the VM on record succeeds. -/
theorem halt_turns {op : Op} {f : Option VMView → Except Err Unit} (hm : Mine T s b)
    (hh : s.hostID = some h) (ht : op.tends full s = true) (hn : ∀ vm, op.needs vm)
    (hf : ∀ view, f view = .ok ()) :
    Turns full s.id T (do onOk (← ask (.command h op)) fun vm => return f vm) fun T' r =>
      r = .ok () ∧ Mine T' s b := by
  refine command_turns hm hh (fun hno err T' _ _ => ?_) fun view T' hm' _ _ _ => .done ⟨hf view, hm'⟩
  obtain ⟨T', -, hno⟩ := hno ht
  exact absurd (hn _) hno

theorem remoteStop_turns (hm : Mine T s b) (hc : s.Coherent) (hh : s0.hostID = s.hostID)
    (hvm : s0.vmID = s.vmID) :
    Turns full s.id T (Remote.stop s0) fun T' r => r = .ok () ∧ Mine T' s b := by
  unfold Remote.stop
  rw [hvm]
  cases hv : s.vmID with
  | none => exact .done ⟨rfl, hm⟩
  | some v =>
    obtain ⟨h, hho⟩ := isSome_iff_exists.mp (hc.hosted (by rw [hv]; rfl))
    simp only [assignedHost, hh, hho, onOk]
    exact halt_turns hm hho (by simp [Op.tends, hv]) (fun _ => trivial) fun _ => rfl

theorem evict_turns (hm : Mine T s b) (hh : s0.hostID = s.hostID) (hvm : s0.vmID = s.vmID) :
    Turns full s.id T (Remote.evict s0) fun T' r => r = .ok () ∧ Mine T' s b := by
  unfold Remote.evict
  rw [hh, hvm]
  split
  · rename_i h v hho hv
    exact halt_turns hm hho (by simp [Op.tends, hv]) (fun _ => trivial) fun _ => rfl
  · exact .done ⟨rfl, hm⟩

theorem deprovision_turns (hm : Mine T s b) (hh : s0.hostID = s.hostID) (hvm : s0.vmID = s.vmID) :
    Turns full s.id T (Remote.deprovision s0) fun T' r => r = .ok () ∧ Mine T' s b := by
  unfold Remote.deprovision
  rw [hh, hvm]
  split
  · rename_i h v hho hv
    exact halt_turns hm hho (by simp [Op.tends, hv]) (fun _ => trivial) fun _ => rfl
  · exact .done ⟨rfl, hm⟩

theorem stop_turns (hm : Mine T s b) (hc : s.Coherent) (hl : s.deleted = false)
    (hp : full = true → s.status = .stopped → s.hostID = none) :
    Turns full s.id T (stop cfg s) fun T' r => r = .ok () ∧ Rests full T' s b := by
  unfold stop
  split
  · rename_i hs
    exact .done ⟨rfl, s, rfl, rfl, hs, hl, hc.stopped hs, fun hf => hp hf hs, hm⟩
  refine .call fun r T1 hg => ?_
  obtain ⟨-, hm1⟩ := hm.wrote hg (fun _ => rfl) (by simp)
  have hc1 : (s.marked .stopping "").Coherent := ⟨hc.placed, hc.hosted, by simp [GameServer.marked]⟩
  cases r with
  | error e => cases hg.well
  | ok u =>
    simp only [bind_eq, done_bind, onOk]
    refine .bind ((remoteStop_turns (s := s.marked .stopping "") hm1 hc1 rfl rfl).mono ?_)
    rintro T2 r ⟨hr, hm2⟩
    subst hr
    refine .bind ((evict_turns (s := s.marked .stopping "") hm2 rfl rfl).mono ?_)
    rintro T3 r ⟨hr, hm3⟩
    subst hr
    refine .bind (Brings.mono releaseHost_turns fun T4 _ hmo => ?_)
    have hm4 := hm3.stirred hmo
    refine .call fun r T5 hg => ?_
    obtain ⟨-, hm5⟩ := hm4.wrote hg (fun _ => rfl) (by simp)
    cases r with
    | error e => cases hg.well
    | ok u =>
      simp only [done_bind]
      refine .bind (Brings.mono stopBilling_turns fun T6 _ hmo => .done ⟨rfl, ?_⟩)
      exact ⟨(s.marked .stopping "").markedStopped, rfl, rfl, rfl, hl, rfl, fun _ => rfl,
        hm5.stirred hmo⟩

theorem finalizeDelete_turns (hi : s0.id = s.id) (hm : Mine T s b) :
    Turns full s.id T (finalizeDelete cfg s0) fun T' r => r = .ok () ∧ Gone T' s b := by
  refine .bind (Brings.mono releaseHost_turns fun T1 _ hmo => ?_)
  have hm1 := hm.stirred hmo
  rw [hi]
  refine .call fun r T2 hg => ?_
  obtain ⟨-, hm2⟩ := hm1.wrote hg (fun _ => rfl) (by simp)
  cases r with
  | error e => cases hg.well
  | ok u =>
    simp only [bind_eq, done_bind, onOk]
    refine .bind (Brings.mono stopBilling_turns fun T3 _ hmo => .done ⟨rfl, ?_⟩)
    exact ⟨s.softDeleted, rfl, rfl, rfl, rfl, hm2.stirred hmo⟩

theorem teardown_turns (hi : s0.id = s.id) (hh : s0.hostID = s.hostID) (hvm : s0.vmID = s.vmID)
    (hm : Mine T s b) :
    Turns full s.id T (teardown cfg s0) fun T' r => r = .ok () ∧ Gone T' s b := by
  refine .bind ((deprovision_turns hm hh hvm).mono ?_)
  rintro T1 r ⟨hr, hm1⟩
  subst hr
  exact finalizeDelete_turns hi hm1

theorem delete_turns (hm : Mine T s b) :
    Turns full s.id T (delete cfg s) fun T' r => r = .ok () ∧ Gone T' s b := by
  unfold delete
  split
  · refine .call fun r T1 hg => ?_
    obtain ⟨-, hm1⟩ := hm.wrote hg (fun _ => rfl) (by simp)
    cases r with
    | error e => cases hg.well
    | ok u =>
      refine (teardown_turns (s := s.marked .deleting "") rfl rfl rfl hm1).mono ?_
      rintro T2 r ⟨hr, s', hs'⟩
      exact ⟨hr, s', hs'⟩
  · exact teardown_turns rfl rfl rfl hm

theorem markBackedUp_turns (hm : Mine T s b) (hs : s.Sound full T) (hup : full = true → P → Up T s) :
    Turns full s.id T (do let _ ← ask (.markBackedUp s.id)) fun T' _ =>
      Mine T' s false ∧ s.Sound full T' ∧ (full = true → P → Up T' s) := by
  refine .call fun r T' hg => .done ⟨?_, hs.kept (hm.kept_goes hg rfl),
    fun hf hp => (hup hf hp).goes hf hg rfl⟩
  obtain ⟨T1, hmo, -, ha⟩ := hg
  obtain ⟨r1, hr1, hcore, hd, -⟩ := hm.stirred hmo
  obtain ⟨now, hr⟩ := ha.rows
  have hr : T'.rows = updateRow T1.rows s.id fun s => { s with backupRequested := false } := hr
  exact ⟨{ r1 with backupRequested := false }, by simp [hr, getElem?_updateRow, hr1], hcore,
    hd, rfl⟩

/-- A request for a backup is dealt with, unless the snapshot may fail. -/
theorem backup_turns (hm : Mine T s b) (hs : s.Sound full T) (hc : s.Coherent)
    (hb : s.backupRequested = true) (hup : full = true → P → Up T s) :
    Turns full s.id T (backup s) fun T' _ => (∃ b', Mine T' s b' ∧ (full = true → b' = false)) ∧
      s.Sound full T' ∧ (full = true → P → Up T' s) := by
  unfold backup
  split
  · exact (markBackedUp_turns hm hs hup).mono fun T' _ h => ⟨⟨false, h.1, fun _ => rfl⟩, h.2⟩
  rename_i hha
  rw [Bool.or_eq_true, not_or, decide_eq_true_eq, not_not, Bool.not_eq_true] at hha
  obtain ⟨v, hv⟩ := isSome_iff_exists.mp (isNone_eq_false_iff.mp hha.2)
  obtain ⟨h, hh⟩ := isSome_iff_exists.mp (hc.hosted (by rw [hv]; rfl))
  refine .bind ?_
  unfold Remote.snapshot
  simp only [hv, assignedHost, hh, onOk]
  refine command_turns hm hh (fun hno err T' hm' hmo => .done (.done ?_))
    fun view T' hm' _ _ hmo => .done ?_
  · refine ⟨⟨b, hm', fun hf => ?_⟩, hs.kept (hm.kept (hmo rfl)),
      fun hf hp => (hup hf hp).stirred hf (hmo rfl)⟩
    obtain ⟨T', hmo, hn⟩ := hno (by simp [Op.tends, hf, hv])
    exact absurd ((hm.kept hmo).up hf hh hv (hs.saves hf h v hh hv hb hha.1)) hn
  · exact (markBackedUp_turns hm' (hs.kept (hm.kept (hmo rfl))) fun hf hp =>
      (hup hf hp).stirred hf (hmo rfl)).mono fun T' _ h => ⟨⟨false, h.1, fun _ => rfl⟩, h.2⟩

theorem Runs.rested (h : Runs full T s b) (hb : full = true → b = false)
    (hde : s.desired = .running) : Rested full s.id T := by
  obtain ⟨s', hi, hd, hs, hl, ⟨r, hr, hcore, hrd, hrb⟩, hup⟩ := h
  intro r' hr'
  rw [hi, hr'] at hr
  cases hr
  have hru : r.status = .running := (congrArg Core.status hcore).trans hs
  have hw : r.desired = .running := hrd.trans (hd.trans hde)
  refine ⟨.inr hru, fun hf => .inr ⟨(deleted_of_core hcore).trans hl, ?_,
    fun _ => (hup hf).of_core hcore, by simp [hw]⟩⟩
  simp [GameServer.reconcilable, hru, hw, hrb, hb hf]

theorem Rests.rested (h : Rests full T s b) (hb : full = true → b = false)
    (hde : s.desired = .stopped) : Rested full s.id T := by
  obtain ⟨s', hi, hd, hs, hl, hv, hh, r, hr, hcore, hrd, hrb⟩ := h
  intro r' hr'
  rw [hi, hr'] at hr
  cases hr
  have hst : r.status = .stopped := (congrArg Core.status hcore).trans hs
  have hw : r.desired = .stopped := hrd.trans (hd.trans hde)
  refine ⟨.inl ((vmID_of_core hcore).trans hv), fun hf => .inr ⟨(deleted_of_core hcore).trans hl, ?_,
    by simp [hw], fun _ => (hostID_of_core hcore).trans (hh hf)⟩⟩
  simp [GameServer.reconcilable, hst, hw, hrb, hb hf]

theorem Gone.rested (h : Gone T s b) (hde : s.desired = .deleted) : Rested full s.id T := by
  obtain ⟨s', hi, hd, hl, hv, r, hr, hcore, hrd, -⟩ := h
  intro r' hr'
  rw [hi, hr'] at hr
  cases hr
  exact ⟨.inl ((vmID_of_core hcore).trans hv),
    fun _ => .inl ⟨(deleted_of_core hcore).trans hl, hrd.trans (hd.trans hde)⟩⟩

theorem Bare.rested (h : Bare full T s) : Rested full s.id T := by
  obtain ⟨hf, s', b, hi, hv, r, hr, hcore, -⟩ := h
  intro r' hr'
  rw [hi, hr'] at hr
  cases hr
  refine ⟨.inl ((vmID_of_core hcore).trans hv), fun hfu => ?_⟩
  rw [hf] at hfu
  cases hfu

theorem converge_turns (hm : Mine T s b) (hb : full = true → b = false) (hs : s.Sound full T)
    (hc : s.Coherent) (hl : s.deleted = false) (hk : s.desired ≠ .deleted)
    (hup : full = true → s.desired = .running ∧ s.status = .running → Up T s) :
    Turns full s.id T (converge cfg s) fun T' r =>
      (r = .ok () ∧ Rested full s.id T') ∨ Bare full T' s := by
  unfold converge
  cases hd : s.desired with
  | stopped =>
    refine (stop_turns hm hc hl fun hf hst => hs.placed hf hst hd).mono ?_
    exact fun T' r h => .inl ⟨h.1, h.2.rested hb hd⟩
  | running =>
    refine (start_turns hm hs hc hd hl fun hf hst => hup hf ⟨hd, hst⟩).mono ?_
    exact fun T' r h => h.imp_left fun h => ⟨h.1, h.2.rested hb hd⟩
  | deleted => exact absurd hd hk

/-- The work on one server ends where it should, or with a server that has no VM and need not have
one. -/
theorem reconcile_turns (hm : Mine T s s.backupRequested) (hs : s.Sound full T) (hc : s.Coherent)
    (hl : s.deleted = false) (hup : full = true → s.running = true → Up T s) :
    Turns full s.id T (reconcile cfg s) fun T' r =>
      (r = .ok () ∧ Rested full s.id T') ∨ Bare full T' s := by
  have hup' : full = true → s.desired = .running ∧ s.status = .running → Up T s := fun hf hst =>
    hup hf (by simp [GameServer.running, hst.1, hst.2, hl])
  unfold reconcile
  split
  · rename_i hk
    exact (delete_turns hm).mono fun T' r h => .inl ⟨h.1, h.2.rested hk⟩
  rename_i hk
  split
  · rename_i hb
    refine .bind ((backup_turns hm hs hc hb hup').mono ?_)
    rintro T' _ ⟨⟨b', hm', hb'⟩, hs', hup''⟩
    exact converge_turns hm' hb' hs' hc hl hk hup''
  · rename_i hb
    exact converge_turns hm (fun _ => by simpa using hb) hs hc hl hk hup'

end Own

end Craftling.Control

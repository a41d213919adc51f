import Craftling.Control.Names

namespace Craftling.Control
open Effects Option Bool

def Fleet.carries (f : Fleet) (i : Nat) : Bool := f.calls[i]?.any (·.cmd = .carried)

/-- The server whose live snapshot succeeds when an agent carries a command out. -/
def Fleet.snapshotTaken (d : Deployment) (f : Fleet) (i : Nat) (o : Outcome) : Option ServerID := do
  let c ← f.calls[i]?
  let s ← f.streams[c.conn]?
  let a := f.agents s.agent
  match c.op, (a.exec (d.info s.agent) f.nextVM o c.op).1 with
  | .snapshot v, .ok _ => (a.find v).map VM.serverID
  | _, _ => none

/-- A fleet with a record of when the latest backup request for a server was recorded, when a
command was sent, and when the latest of a server's live snapshots that have succeeded was
started. A snapshot counts as started when its command is sent. -/
structure Logged where
  fleet : Fleet
  now : Nat
  requested : ServerID → Nat
  sentAt : Nat → Nat
  saved : ServerID → Nat

def Logged.init : Logged := ⟨.init, 1, fun _ => 0, fun _ => 0, fun _ => 0⟩

def Logged.noteRequest (x : Logged) : Label → ServerID → Nat
  | .requestBackup id => fun s => if s = id then x.now else x.requested s
  | _ => x.requested

def Logged.noteSend (x : Logged) (f : Fleet) (i : Nat) : Nat :=
  if f.carries i && !x.fleet.carries i then x.now else x.sentAt i

def Logged.noteSave (d : Deployment) (x : Logged) : Label → ServerID → Nat
  | .exec i o => fun s =>
    if x.fleet.snapshotTaken d i o = some s then max (x.saved s) (x.sentAt i) else x.saved s
  | _ => x.saved

def Logged.step (d : Deployment) (x : Logged) (l : Label) : Option Logged :=
  (Control.step d x.fleet l).map fun f =>
    ⟨f, x.now + 1, x.noteRequest l, x.noteSend f, x.noteSave d l⟩

def Op.isSnapshot : Op → Bool
  | .snapshot _ => true
  | _ => false

/-- The last command about the server in hand was a live snapshot, and went well. -/
def Work.snapped (w : Work) : Bool :=
  match w.said with
  | some (.snapshot _, .ok _) => true
  | _ => false

/-- The reconciler has the server in hand and has sent a snapshot command for it, which it
waits for, or which was the last one and went well. -/
def Fleet.snapping (f : Fleet) (id : ServerID) : Bool :=
  f.cur.any fun w => w.row.id = id && (w.snapped ||
    (f.awaited.bind fun i => f.calls[i]?).any fun c => c.op.isSnapshot && c.phase ≠ .picked)

def Fleet.untracked (f : Fleet) (id : ServerID) : Prop :=
  ∀ r ∈ f.rows[id]?, ∀ s ∈ f.streams, s.host.isSome = true → s.host = r.hostID →
    ∀ m ∈ (f.agents s.agent).vms, m.serverID ≠ id

instance (f : Fleet) (id : ServerID) : Decidable (f.untracked id) := by
  unfold Fleet.untracked
  infer_instance

/-- The server whose backup request the reconciler's next call clears. -/
def Fleet.clearing (f : Fleet) : Option ServerID :=
  match f.thread with
  | some ⟨.call (.markBackedUp id) _, _, none⟩ => some id
  | _ => none

/-- No backup is requested while the reconciler is at a snapshot of the server, and it clears
a request without one only when there is no VM. -/
def Heeded (f : Fleet) : Label → Prop
  | .requestBackup id => f.snapping id = false
  | .act none _ => ∀ id ∈ f.clearing, f.cur.any Work.snapped = false → f.untracked id
  | _ => True

instance (f : Fleet) (l : Label) : Decidable (Heeded f l) := by
  unfold Heeded
  induction l using Label.casesOn
  case act fault _ => induction fault using Option.casesOn <;> infer_instance
  all_goals infer_instance

/-- The answer and the command that the reconciler may clear a request upon are younger than
the request. -/
structure Honoured (x : Logged) : Prop where
  past : ∀ id, x.requested id < x.now
  said : ∀ w, x.fleet.cur = some w → w.snapped = true → x.requested w.row.id < x.saved w.row.id
  carried : ∀ w i c, x.fleet.cur = some w → x.fleet.awaited = some i →
    x.fleet.calls[i]? = some c → c.op.isSnapshot = true → c.cmd = .carried →
    x.requested w.row.id < x.sentAt i
  executed : ∀ w i c view, x.fleet.cur = some w → x.fleet.awaited = some i →
    x.fleet.calls[i]? = some c → c.op.isSnapshot = true → c.cmd = .executed (.ok view) →
    x.requested w.row.id < x.saved w.row.id

section Step

variable {d : Deployment} {x x' : Logged} {l : Label} {f : Fleet} {w : Work}

theorem Logged.step_eq (hs : x.step d l = some x') :
    Control.step d x.fleet l = some x'.fleet ∧ x'.now = x.now + 1 ∧
      x'.requested = x.noteRequest l ∧ x'.sentAt = x.noteSend x'.fleet ∧
      x'.saved = x.noteSave d l := by
  obtain ⟨f, hf, rfl⟩ := map_eq_some_iff.mp hs
  exact ⟨hf, rfl, rfl, rfl, rfl⟩

theorem Logged.saved_le (d : Deployment) (x : Logged) (l : Label) (s : ServerID) :
    x.saved s ≤ x.noteSave d l s := by
  unfold noteSave
  split
  · split
    · exact Nat.le_max_left _ _
    · exact Nat.le_refl _
  · exact Nat.le_refl _

theorem Heeded.requested (hl : Heeded x.fleet l) (hcu : x.fleet.cur = some w)
    (ha : w.snapped = true ∨ ∃ i c, x.fleet.awaited = some i ∧ x.fleet.calls[i]? = some c ∧
      c.op.isSnapshot = true ∧ c.phase ≠ .picked) :
    x.noteRequest l w.row.id = x.requested w.row.id := by
  cases l with
  | requestBackup id =>
    simp only [Logged.noteRequest]
    split
    · rename_i hid
      have hf : x.fleet.snapping id = false := hl
      have hs : x.fleet.snapping id = true := by
        simp only [Fleet.snapping, hcu, any_some, hid, decide_true, Bool.true_and, Bool.or_eq_true]
        rcases ha with hsa | ⟨i, c, hi, hc, ho, hp⟩
        · exact .inl hsa
        · right
          simp [hi, hc, ho, hp]
      rw [hf] at hs
      cases hs
    · rfl
  | _ => rfl

variable {c : HubCall}

theorem HubCall.Fits.sent (h : c.Fits) (hc : c.cmd ≠ .unsent) : c.phase ≠ .picked :=
  fun hp => hc (h.unsent (.inl hp))

theorem snapshotTaken_cur (hi : Informed d f) (hn : Named f) (hw : Waits f) {view : Option VMView}
    (hcu : f.cur = some w) (ha : f.awaited = some i) (hc : f.calls[i]? = some c)
    (ho : c.op.isSnapshot = true) (hs : f.streams[c.conn]? = some s)
    (hok : ((f.agents s.agent).exec (d.info s.agent) f.nextVM o c.op).1 = .ok view) :
    f.snapshotTaken d i o = some w.row.id := by
  obtain ⟨⟨prog, st, call⟩, ht, hti⟩ := bind_eq_some_iff.mp ha
  obtain ⟨h, op, k, c2, _, hp, hc2, ho2, -⟩ := hw.call _ i ht hti
  rw [hc] at hc2
  cases hc2
  cases hp
  obtain ⟨w2, -, hcu2, -, -, hm, -⟩ := hi.commanding ht
  rw [hcu] at hcu2
  cases hcu2
  cases op with
  | snapshot v =>
    rw [ho2] at hok
    obtain ⟨r, hr, hcore⟩ := hi.row hcu
    cases hf : (f.agents s.agent).find v with
    | none => simp [Agent.exec, hf] at hok
    | some m =>
      have hse := hn.server hr ((vmID_of_core hcore).trans hm) hf
      simp [Fleet.snapshotTaken, hc, hs, ho2, hok, hf, hse]
  | _ =>
    rw [ho2] at ho
    cases ho

theorem snapped_iff : w.snapped = true ↔ ∃ v view, w.said = some (.snapshot v, .ok view) := by
  unfold Work.snapped
  split
  · rename_i v view hs
    exact ⟨fun _ => ⟨v, view, hs⟩, fun _ => rfl⟩
  rename_i ho
  constructor
  · intro h
    cases h
  · rintro ⟨v, view, hs⟩
    exact absurd hs (ho v view)

theorem Honoured.step (h : Honoured x) (hi : Informed d x.fleet) (hn : Named x.fleet)
    (hw : Waits x.fleet) (hs : x.step d l = some x') (hl : Heeded x.fleet l) : Honoured x' := by
  obtain ⟨hst, hno, hre, hse, hsa⟩ := Logged.step_eq hs
  have hg : ∀ s, x.saved s ≤ x'.saved s := by
    intro s
    rw [hsa]
    exact x.saved_le d l s
  have hp : ∀ id, x'.requested id < x'.now := by
    intro id
    have ho := h.past id
    rw [hre, hno]
    unfold Logged.noteRequest
    split
    · split <;> omega
    · omega
  refine ⟨hp, ?_, ?_, ?_⟩
  · intro w' hcu' hsn
    obtain ⟨v, view, hsai⟩ := snapped_iff.mp hsn
    rcases step_said hi hw hst hcu' hsai with
      ⟨w, hcu, hsam, hid⟩ | ⟨i, c, w, rfl, ha, hc, hop, hd, hcu, hid⟩
    · have ho := h.said w hcu (snapped_iff.mpr ⟨v, view, hsam⟩)
      have hr' := hl.requested hcu (.inl (snapped_iff.mpr ⟨v, view, hsam⟩))
      rw [← hid, hre, hr']
      exact Nat.lt_of_lt_of_le ho (hg _)
    · have ho := h.executed w i c view hcu ha hc (by rw [hop]; rfl) hd
      rw [← hid, hre]
      exact Nat.lt_of_lt_of_le ho (hg _)
  · intro w i c' hcu' ha' hc' hop hca
    rcases step_awaited hst ha' with ⟨ht, hrec⟩ | ⟨c2, hc2, hu⟩
    · have hcu : x.fleet.cur = some w := by rwa [Fleet.cur, ht] at hcu'
      have ha : x.fleet.awaited = some i := by rwa [Fleet.awaited, ht] at ha'
      obtain ⟨c, hc, hco, -⟩ := awaited_call hst hrec hw ha hc'
      have hca' : x'.fleet.carries i = true := by simp [Fleet.carries, hc', hca]
      rw [hse]
      by_cases hcar : c.cmd = .carried
      · have hcarr : x.fleet.carries i = true := by simp [Fleet.carries, hc, hcar]
        have hph := (hw.fits c (List.mem_of_getElem? hc)).sent (by simp [hcar])
        have hr' := hl.requested hcu (.inr ⟨i, c, ha, hc, hco ▸ hop, hph⟩)
        rw [hre, hr', Logged.noteSend, hcarr]
        simp only [Bool.not_true, Bool.and_false, Bool.false_eq_true, if_false]
        exact h.carried w i c hcu ha hc (hco ▸ hop) hcar
      -- the command has just gone out
      have hcarr : x.fleet.carries i = false := by simp [Fleet.carries, hc, hcar]
      rw [Logged.noteSend, hca', hcarr]
      simp only [Bool.not_false, Bool.and_self, if_true]
      have hnot : ∀ id, l ≠ .requestBackup id := by
        intro id he
        subst he
        have hcal : x'.fleet.calls = x.fleet.calls := by rw [← Option.some.inj hst]
        rw [hcal, hc] at hc'
        cases hc'
        exact hcar hca
      rw [hre, Logged.noteRequest]
      · exact h.past _
      · exact hnot
    · rw [hc'] at hc2
      cases hc2
      rw [hca] at hu
      cases hu
  · intro w i c' view hcu' ha' hc' hop hd
    rcases step_awaited hst ha' with ⟨ht, hrec⟩ | ⟨c2, hc2, hu⟩
    · have hcu : x.fleet.cur = some w := by rwa [Fleet.cur, ht] at hcu'
      have ha : x.fleet.awaited = some i := by rwa [Fleet.awaited, ht] at ha'
      rcases step_executed hst hc' hd with
        ⟨c, hc, hco, ho⟩ | ⟨o, c, s, rfl, hc, hcar, hco, hstr, -, hr⟩
      · have hph := (hw.fits c (List.mem_of_getElem? hc)).sent (by simp [ho])
        have hr' := hl.requested hcu (.inr ⟨i, c, ha, hc, hco ▸ hop, hph⟩)
        rw [hre, hr']
        exact Nat.lt_of_lt_of_le (h.executed w i c view hcu ha hc (hco ▸ hop) ho) (hg _)
      have hta := snapshotTaken_cur hi hn hw hcu ha hc (hco ▸ hop) hstr hr
      rw [hre, hsa]
      simp only [Logged.noteRequest, Logged.noteSave, hta, if_true]
      exact Nat.lt_of_lt_of_le (h.carried w i c hcu ha hc (hco ▸ hop) hcar) (Nat.le_max_right _ _)
    · rw [hc'] at hc2
      cases hc2
      rw [hd] at hu
      cases hu

theorem step_clears (hs : Control.step d f l = some f') {id : Nat} (hr : f.rows[id]? = some r)
    (hr' : f'.rows[id]? = some r') (hse : r.backupRequested = true)
    (hclear : r'.backupRequested = false) :
    ∃ order, l = .act none order ∧ f.clearing = some id := by
  have hm := step_rewrites hs
  generalize f'.rows = rows at hm hr'
  have hk : ∀ {j : ServerID} {g : GameServer → GameServer},
      (updateRow f.rows j g)[id]? = some r' → (∀ s, (g s).backupRequested = s.backupRequested ∨
      (g s).backupRequested = true) → False := by
    intro j g hge hg
    rw [getElem?_updateRow, hr] at hge
    split at hge
    · cases hge
      rcases hg r with hsa | htr
      · rw [hsa, hse] at hclear
        cases hclear
      · rw [htr] at hclear
        cases hclear
    · cases hge
      rw [hse] at hclear
      cases hclear
  cases hm with
  | same l =>
    rw [hr] at hr'
    cases hr'
    rw [hse] at hclear
    cases hclear
  | create n =>
    rw [List.getElem?_append_left (List.getElem?_eq_some_iff.mp hr).1, hr] at hr'
    cases hr'
    rw [hse] at hclear
    cases hclear
  | updateSpec j name version | setDesired j desired => exact (hk hr' fun _ => .inl rfl).elim
  | requestBackup j => exact (hk hr' fun _ => .inr rfl).elim
  | write order e k st j g ht hw =>
    cases e with
    | markBackedUp j' =>
      cases hw
      refine ⟨order, rfl, ?_⟩
      rw [getElem?_updateRow, hr] at hr'
      split at hr'
      · rename_i hj
        simp [Fleet.clearing, ht, hj]
      cases hr'
      rw [hse] at hclear
      cases hclear
    | markLost j' message =>
      cases hw
      refine (hk hr' fun s => .inl ?_).elim
      unfold GameServer.markedLost
      split <;> rfl
    | markHealth j' reachable online max =>
      cases hw
      refine (hk hr' fun s => .inl ?_).elim
      unfold GameServer.markedHealth
      split <;> rfl
    | _ =>
      first
      | (cases hw; done)
      | (cases hw; exact (hk hr' fun _ => .inl rfl).elim)

end Step

structure Recorded (d : Deployment) (x : Logged) : Prop where
  informed : Informed d x.fleet
  wired : Wired x.fleet
  waits : Waits x.fleet
  named : Named x.fleet
  honoured : Honoured x

variable {d : Deployment} {x : Logged}

theorem Recorded.step (h : Recorded d x) (hs : x.step d l = some x') (hl : Heeded x.fleet l) :
    Recorded d x' := by
  have hst := (Logged.step_eq hs).1
  exact ⟨h.informed.step hst, h.wired.step hst, h.waits.step h.wired hst,
    h.named.step h.informed h.waits hst,
    h.honoured.step h.informed h.named h.waits hs hl⟩

theorem Recorded.init (d : Deployment) : Recorded d .init := by
  refine ⟨.init, .init, .init, .init, ⟨fun _ => Nat.zero_lt_one, ?_, ?_, ?_⟩⟩
  · intro w hc
    cases hc
  · intro w i c hc
    cases hc
  · intro w i c view hc
    cases hc

/-- While requests are heeded, one is cleared only with a later save or with no VM there. -/
theorem backup_requests_honoured (d : Deployment) (x x' : Logged) (l : Label)
    (hrun : Reaches (Logged.step d) (fun y l' _ => Heeded y.fleet l') .init x)
    (hs : x.step d l = some x') (hl : Heeded x.fleet l) (id : ServerID) (r r' : GameServer)
    (hr : x.fleet.rows[id]? = some r) (hr' : x'.fleet.rows[id]? = some r')
    (hset : r.backupRequested = true) (hclear : r'.backupRequested = false) :
    x.requested id < x.saved id ∨ x.fleet.untracked id := by
  have hkept : Recorded d x :=
    hrun.invariant (I := Recorded d) (.init d) fun y l' y' hy hstep hl' => hy.step hstep hl'
  obtain ⟨order, rfl, hclearing⟩ := step_clears (Logged.step_eq hs).1 hr hr' hset hclear
  cases hsnap : x.fleet.cur.any Work.snapped with
  | false => exact .inr (hl id hclearing hsnap)
  | true =>
    left
    rw [any_eq_true] at hsnap
    obtain ⟨w, hcur, hsnapped⟩ := hsnap
    have hid : id = w.row.id := by
      unfold Fleet.clearing at hclearing
      split at hclearing
      · rename_i id' k st ht
        cases hclearing
        obtain ⟨w2, hcur2, hid⟩ := (hkept.informed.keeps _ ht).1
        rw [Fleet.cur, ht] at hcur
        have hcur : st.cur = some w := hcur
        rw [hcur] at hcur2
        cases hcur2
        exact hid
      · cases hclearing
    rw [hid]
    exact hkept.honoured.said w hcur hsnapped

def toBackedUp : List Label :=
  toRunning ++ [.requestBackup 0, .tick, plain, plain] ++ commanded 1 ++ [plain, plain, plain] ++
    commanded 2

/-- The reconciler's next call clears the request for a server that has a VM. -/
def Logged.clears (d : Deployment) (x : Logged) (id : ServerID) : Bool :=
  x.fleet.rows[id]?.any (·.backupRequested) && !decide (x.fleet.untracked id) &&
    (x.step d plain).any fun x' => x'.fleet.rows[id]?.any fun r => !r.backupRequested

theorem Logged.clears_step {id : ServerID} (h : x.clears d id = true) :
    ∃ x' r r', x.step d plain = some x' ∧
      x.fleet.rows[id]? = some r ∧ x'.fleet.rows[id]? = some r' ∧ r.backupRequested = true ∧
      r'.backupRequested = false ∧ ¬ x.fleet.untracked id := by
  simp only [clears, and_eq_true, not_eq_true', decide_eq_false_iff_not, any_eq_true] at h
  obtain ⟨⟨⟨r, hr, hse⟩, ht⟩, x', hs, r', hr', hclear⟩ := h
  exact ⟨x', r, r', hs, hr, hr', hse, hclear, ht⟩

/-- The snapshot that the request was for is what it is cleared upon. -/
theorem backup_requests_honoured_running : ∃ x x' : Logged,
      Reaches (Logged.step oneHost) (fun y l' _ => Heeded y.fleet l') .init x ∧
      x.step oneHost plain = some x' ∧ x.fleet.rows[0]?.map (·.backupRequested) = some true ∧
      x'.fleet.rows[0]?.map (·.backupRequested) = some false ∧ ¬ x.fleet.untracked 0 ∧
      x.requested 0 < x.saved 0 := by
  obtain ⟨x, hrun, hx⟩ := Reaches.exists_run (Logged.step oneHost)
    (fun y l' _ => Heeded y.fleet l') .init toBackedUp
    (fun x => x.clears oneHost 0 && decide (Heeded x.fleet plain)) (by decide +kernel)
  simp only [and_eq_true, decide_eq_true_eq] at hx
  obtain ⟨x', r, r', hs, hr, hr', hset, hclear, htracked⟩ := Logged.clears_step hx.1
  have hhonoured := backup_requests_honoured oneHost x x' plain hrun hs hx.2 0 r r' hr hr' hset
    hclear
  exact ⟨x, x', hrun, hs, by simp [hr, hset], by simp [hr', hclear], htracked,
    hhonoured.resolve_right htracked⟩

/-- A backup is requested again while the reconciler has the snapshot's answer in hand. Both
requests are cleared upon the one snapshot. -/
theorem late_request_cleared :
    ∃ x x' : Logged, Reaches (Logged.step oneHost) (fun _ _ _ => True) .init x ∧
      x.step oneHost plain = some x' ∧ x.fleet.rows[0]?.map (·.backupRequested) = some true ∧
      x'.fleet.rows[0]?.map (·.backupRequested) = some false ∧
      ¬ (x.requested 0 < x.saved 0 ∨ x.fleet.untracked 0) := by
  obtain ⟨x, hrun, hx⟩ := Reaches.exists_run (Logged.step oneHost)
    (fun _ _ _ => True) .init (toBackedUp ++ [.requestBackup 0])
    (fun x => x.clears oneHost 0 && decide (x.saved 0 ≤ x.requested 0)) (by decide +kernel)
  simp only [and_eq_true, decide_eq_true_eq] at hx
  obtain ⟨x', r, r', hs, hr, hr', hset, hclear, htracked⟩ := Logged.clears_step hx.1
  refine ⟨x, x', hrun, hs, by simp [hr, hset], by simp [hr', hclear], ?_⟩
  intro hhonoured
  rcases hhonoured with hsaved | hnone
  · exact Nat.lt_irrefl _ (Nat.lt_of_lt_of_le hsaved hx.2)
  · exact htracked hnone

end Craftling.Control

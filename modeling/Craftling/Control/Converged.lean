import Craftling.Control.Arrivals

namespace Craftling.Control
open Effects List Option

instance (hosts : List Host) (r : GameServer) : Decidable (Roomy hosts r) := by
  unfold Roomy
  infer_instance

/-- Queries are not cut short. Where all that the server needs is asked for, the inventory does
not refuse the reconciler's next call, and a ready host has room when one is looked for. -/
def Fleet.grants (full : Bool) (id : ServerID) (f : Fleet) : Bool :=
  match f.asks with
  | some (.reserve h cpus memMB) => !full || (reserve f.hosts h cpus memMB).isOk
  | some .listReady => !full || f.rows[id]?.all fun r => Roomy (listReady f.hosts) r
  | some .listRunning => !full || (f.rows.filter GameServer.running).length ≤ listLimit
  | some .listReconcilable => (f.rows.filter GameServer.reconcilable).length ≤ listLimit
  | _ => true

/-- The agent that the host is connected to. -/
def Fleet.leads (f : Fleet) (h : HostID) : Option AgentID :=
  (f.registry h).bind fun c => f.streams[c]?.map Stream.agent

def Fleet.tracked (f : Fleet) (h : HostID) (v : VMID) : Option VM :=
  (f.leads h).bind fun a => (f.agents a).find v

def Fleet.tends (full : Bool) (id : ServerID) (f : Fleet) (op : Op) : Bool :=
  f.rows[id]?.any fun r => op.tends full r

/-- The agent has room for what a command brings up. -/
def Agent.admits (info : LinkInfo) (a : Agent) : Op → Bool
  | .provision spec => checkCapacity info a spec.cpus spec.memoryMB
  | .start v => (a.find v).all fun m => m.running || checkCapacity info a m.cpus m.memoryMB
  | _ => true

/-- The stream is not one of the host that the server's VM is on. -/
def Fleet.apart (id : ServerID) (f : Fleet) (c : Nat) : Bool :=
  f.streams[c]?.all fun s => f.rows[id]?.all fun r => r.vmID.isNone || s.host ≠ r.hostID

/-- Nothing new is asked of the server in the step, no database or meter call fails, and the
commands that tend it reach a connected host whose agent carries them out. While it has a VM the
connection of its host stays, and so does the agent's table. -/
def Fleet.fine (d : Deployment) (full : Bool) (id : ServerID) (f : Fleet) : Label → Bool
  | .create _ => f.rows.length ≠ id
  | .setDesired i _ => i ≠ id
  | .requestBackup i => i ≠ id
  | .act fault _ => fault.isNone && f.grants full id
  | .issue =>
    match f.asks with
    | some (.command h op) => !f.tends full id op || (f.registry h).isSome
    | _ => true
  | .expire =>
    match f.asks with
    | some (.command _ op) => !f.tends full id op
    | _ => true
  | .send i ok => ok || f.calls[i]?.all fun c => !f.tends full id c.op
  | .exec i o => f.calls[i]?.all fun c => !f.tends full id c.op || (o.fault.isNone &&
      f.streams[c.conn]?.all fun s => (f.agents s.agent).admits (d.info s.agent) c.op)
  | .add c => f.apart id c
  | .remove c => f.apart id c
  | .exit _ v => !full || f.rows[id]?.all fun r => r.vmID ≠ some v
  | .restartAgent a => !full && f.rows[id]?.all fun r =>
      r.vmID.isNone || r.hostID.bind f.leads ≠ some a
  | .restartControl => false
  | _ => true

/-- The server as the quiet period finds it, in its row and in the table of the agent that its host
is connected to. A VM that is to be started is in that table. Where all is asked for, the row is
not deleted against what is wanted and not stopped with a host, and a VM to be saved is up. -/
def Fleet.sound (full : Bool) (f : Fleet) (r : GameServer) : Bool :=
  (!full || ((!r.deleted || r.desired = .deleted) &&
    (r.status ≠ .stopped || r.desired ≠ .stopped || r.hostID.isNone))) &&
  match r.hostID, r.vmID with
  | some h, some v =>
    (r.desired ≠ .running || r.status = .running || (f.tracked h v).isSome) &&
      (!full || !r.backupRequested || r.status ≠ .running || (f.tracked h v).any VM.up)
  | _, _ => true

def Fleet.scene (f : Fleet) : Scene := ⟨f.rows, fun h v => f.reports h v = true, f.tracked⟩

def Scene.without (T : Scene) (target : Option VMID) : Scene :=
  { T with
    up := fun h v => target ≠ some v ∧ T.up h v
    vm := fun h v => if target = some v then none else T.vm h v }

def Fleet.halting (f : Fleet) : Option VMID := f.asks.bind Call.halts

section Step

variable {d : Deployment} {full : Bool} {id : ServerID} {f f' : Fleet} {l : Label} {T T' : Scene}
    {h : HostID} {v : VMID} {op : Op}

theorem Fleet.sound_scene {r : GameServer} (hs : f.sound full r = true) : r.Sound full f.scene := by
  simp only [Fleet.sound, Bool.and_eq_true, Bool.or_eq_true, Bool.not_eq_true', decide_eq_true_eq,
    isNone_iff_eq_none] at hs
  obtain ⟨hro, hvm⟩ := hs
  refine ⟨fun hf hd => ?_, fun hf hst hde => ?_, fun h v hh hv hde hst => ?_,
    fun hf h v hh hv hb hst => ?_⟩
  · simpa [hf, hd] using hro.imp_right And.left
  · simpa [hf, hst, hde] using hro.imp_right And.right
  · rw [hh, hv] at hvm
    simp only [Bool.and_eq_true, Bool.or_eq_true, decide_eq_true_eq] at hvm
    simpa [hde, hst, Fleet.scene] using hvm.1
  · rw [hh, hv] at hvm
    simp only [Bool.and_eq_true, Bool.or_eq_true, Bool.not_eq_true', decide_eq_true_eq] at hvm
    simpa [hf, hb, hst, Fleet.scene] using hvm.2

theorem Agent.exec_served {a : Agent} {o : Outcome} {r : GameServer} (ht : op.tends full r = true)
    (hn : op.needs a.find) (ha : a.admits info op = true) (ho : o.fault = none) (text : String) :
    (a.exec info fresh o op).1 ≠ .error text := by
  cases op with
  | provision spec =>
    have ha : checkCapacity info a spec.cpus spec.memoryMB = true := ha
    simp [Agent.exec, ho, ha]
  | start v =>
    obtain ⟨m, hm⟩ := Option.isSome_iff_exists.mp hn
    simp only [Agent.admits, hm, Option.all_some, Bool.or_eq_true] at ha
    simp only [Agent.exec, hm, ho]
    rcases ha with hr | hc
    · simp [hr]
    · split <;> simp [hc]
  | snapshot v =>
    have hn : (a.find v).any VM.up = true := hn
    rw [Option.any_eq_true] at hn
    obtain ⟨m, hm, hu⟩ := hn
    simp [Agent.exec, hm, ho, hu]
  | logs v | whitelist v names => cases ht
  | stop v | evict v | deprovision v => cases hm : a.find v <;> simp [Agent.exec, hm, ho]
  | status v => cases hm : a.find v <;> simp [Agent.exec, hm]

theorem Orderly.proper (h : Orderly d f) : Proper f.rows := by
  refine ⟨h.informed.numbered, h.coherent.rows, ?_⟩
  intro i j r s v hr hs hv hv'
  obtain ⟨own, hn⟩ := h.named
  exact (hn.rows i r v hr hv).2.symm.trans (hn.rows j s v hs hv').2

theorem step_mine (hs : step d f l = some f') (hre : l.isReconciler = false)
    (hf : f.fine d full id l = true) (hr' : f'.rows[id]? = some r') :
    ∃ r, f.rows[id]? = some r ∧ r'.Like r := by
  have hm := step_rewrites hs
  generalize f'.rows = rows at hm hr'
  have hed : ∀ {i : ServerID} {g : GameServer → GameServer},
      (updateRow f.rows i g)[id]? = some r' → (i = id → ∀ s, (g s).Like s) →
      ∃ r, f.rows[id]? = some r ∧ r'.Like r := by
    intro i g hge hg
    rw [getElem?_updateRow] at hge
    split at hge
    · rename_i hi
      obtain ⟨r, hr, rfl⟩ := map_eq_some_iff.mp hge
      exact ⟨r, hr, hg hi r⟩
    · exact ⟨r', hge, rfl, rfl, rfl⟩
  cases hm with
  | same => exact ⟨r', hr', rfl, rfl, rfl⟩
  | create n =>
    have hn : f.rows.length ≠ id := by simpa [Fleet.fine] using hf
    rw [List.getElem?_append] at hr'
    split at hr'
    · exact ⟨r', hr', rfl, rfl, rfl⟩
    have hl := (List.getElem?_eq_some_iff.mp hr').1
    simp only [length_cons, length_nil] at hl
    omega
  | updateSpec i name version => exact hed hr' fun _ _ => ⟨rfl, rfl, rfl⟩
  | setDesired i desired | requestBackup i =>
    have hn : i ≠ id := by simpa [Fleet.fine] using hf
    exact hed hr' fun he => absurd he hn
  | write => cases hre

theorem halting_of_exec (hw : Waits f) (hs : Sole f) {i : Nat} {c : HubCall}
    (hc : f.calls[i]? = some c) (hca : c.cmd = .carried) (hh : c.op.halts = some v) :
    f.halting = some v := by
  obtain ⟨hst, ho⟩ := Op.plain_of_halts hh
  have hi := hs i c hc (by simp [HubCall.pending, hca]) hst ho
  obtain ⟨t, ht, hti⟩ := bind_eq_some_iff.mp hi
  obtain ⟨h, op, k, c', -, hp, hc', hop, -⟩ := hw.call t i ht hti
  rw [hc] at hc'
  cases hc'
  simp [Fleet.halting, Fleet.asks, ht, hp, Prog.next?, Call.halts, ← hop, hh]

theorem spares_of_fine (hf : f.fine d full id l = true) : l ≠ .restartControl := by
  rintro rfl
  cases hf

theorem fine_apart (hf : f.fine d full id l = true) (hr : f.rows[id]? = some r)
    (hv : r.vmID = some v) (hh : r.hostID = some h) (c : Nat) (s : Stream)
    (hl : l = .add c ∨ l = .remove c) (hs : f.streams[c]? = some s) : s.host ≠ some h := by
  have ha : f.apart id c = true := by
    rcases hl with rfl | rfl <;> exact hf
  simpa [Fleet.apart, hs, hr, hv, hh] using ha

theorem fine_restartAgent (hf : f.fine d full id (.restartAgent a) = true) :
    full = false ∧ ∀ r h v, f.rows[id]? = some r → r.hostID = some h → r.vmID = some v →
      f.leads h ≠ some a := by
  simp only [Fleet.fine, Bool.and_eq_true, Bool.not_eq_true'] at hf
  refine ⟨hf.1, fun r h v hr hh hv => ?_⟩
  simpa [hr, hh, hv] using hf.2

theorem step_leads (ho : Orderly d f) (hs : step d f l = some f') (hf : f.fine d full id l = true)
    (hr : f.rows[id]? = some r) (hv : r.vmID = some v) (hh : r.hostID = some h)
    (ha : f.leads h = some a) : f'.leads h = some a := by
  obtain ⟨c, hc, hsa⟩ := bind_eq_some_iff.mp ha
  obtain ⟨s, hst, hag⟩ := map_eq_some_iff.mp hsa
  obtain ⟨s0, hst0, hho⟩ := ho.wired.registry h c hc
  rw [hst] at hst0
  cases hst0
  have hre := spares_of_fine hf
  obtain ⟨s', hst', -, hag'⟩ := step_stream ho.wired hs hre hst hho
  have hc' : f'.registry h = some c :=
    (step_registry_of_ne hs hre (fine_apart hf hr hv hh)).trans hc
  simp [Fleet.leads, hc', hst', hag', hag]

theorem step_scene (ho : Orderly d f) (hso : Sole f) (hs : step d f l = some f')
    (hrec : l.isReconciler = false) (hf : f.fine d full id l = true) :
    (f.scene.without f.halting).Stirred full id f'.scene := by
  refine ⟨fun j r hr => (step_rows hs hrec).core hr, fun r' hr' => step_mine hs hrec hf hr', ?_, ?_⟩
  · rintro hfu h v ⟨ht, hup⟩
    have ha : ∀ a, l ≠ .restartAgent a := by
      rintro a rfl
      rw [(fine_restartAgent hf).1] at hfu
      cases hfu
    rcases step_reports ho.wired hs (spares_of_fine hf) ha hup with hst | ⟨i, o, c, -, hc, hca, hh⟩
    · exact hst
    · exact absurd (halting_of_exec ho.waits hso hc hca hh) ht
  · intro r hr h v m hh hv hm
    have hr : f.rows[id]? = some r := hr
    have hm : (if f.halting = some v then none else f.tracked h v) = some m := hm
    split at hm
    · cases hm
    rename_i hne
    obtain ⟨a, ha, hfi⟩ := bind_eq_some_iff.mp hm
    have hla : l ≠ .restartAgent a := by
      rintro rfl
      exact (fine_restartAgent hf).2 r h v hr hh hv ha
    rcases step_find hs hla hfi with ⟨m', hfi', -, hup⟩ | ⟨i, o, c, -, hc, hca, hha⟩
    · refine ⟨m', ?_, fun hfu hu => hup (fun b hl => ?_) hu⟩
      · have hl := step_leads ho hs hf hr hv hh ha
        change f'.tracked h v = some m'
        simp [Fleet.tracked, hl, hfi']
      · subst hl
        simp [Fleet.fine, hfu, hr, hv] at hf
    · exact absurd (halting_of_exec ho.waits hso hc hca hha) hne

/-- The command that tends the server has not failed, and the agent it goes to is the one that the
VM's host is connected to. -/
def Fleet.Attended (full : Bool) (id : ServerID) (T : Scene) (f : Fleet) : Prop :=
  ∀ t i h op k c, f.thread = some t → t.call = some i → t.prog = .call (.command h op) k →
    f.calls[i]? = some c → Scene.Serves full id { T with rows := f.rows } h op →
    c.phase ≠ .sendFailed ∧ (∀ text, c.cmd ≠ .executed (.error text)) ∧
      ∀ r v, f.rows[id]? = some r → r.vmID = some v → f.registry h = some c.conn

/-- Between ticks the server is as a tick has to find it, and at rest once there has been one. In a
tick the rest of it, from a scene that has since moved on, leads there. -/
def Fleet.Owes (full : Bool) (id : ServerID) (n : Nat) (f : Fleet) : Prop :=
  match f.thread with
  | none => f.scene.Sound full id ∧ (0 < n → Rested full id f.scene)
  | some t => ∃ T, Turns full id T t.prog (fun T' _ => Rested full id T') ∧
      (T.without f.halting).Stirred full id f.scene ∧ f.Attended full id T

theorem Remains.without {r : GameServer} (hk : Remains full (T.without target) T' r)
    (hn : ∀ v, r.vmID = some v → target ≠ some v) : Remains full T T' r := by
  intro h v m hh hv hm
  refine hk h v m hh hv ?_
  simp only [Scene.without]
  rw [if_neg (hn v hv)]
  exact hm

theorem Scene.without_stirred {T'' : Scene} (hm : (T.without target).Stirred full id T')
    (hm' : (T'.without target).Stirred full id T'') : (T.without target).Stirred full id T'' := by
  have hw : (T.without target).Stirred full id (T'.without target) := by
    refine ⟨hm.rows, hm.mine, fun hf host v hup => ⟨hup.1, hm.up hf host v hup⟩, ?_⟩
    intro r hr h v m hh hv hvm
    obtain ⟨m', hm', hu⟩ := hm.kept r hr h v m hh hv hvm
    refine ⟨m', ?_, hu⟩
    simp only [Scene.without] at hvm ⊢
    split at hvm
    · cases hvm
    · rename_i hn
      rw [if_neg hn]
      exact hm'
  exact hw.trans hm'

theorem Scene.stirred_without (T : Scene) (target : Option VMID) :
    (T.without target).Stirred full id T := by
  refine ⟨fun _ r hr => ⟨r, hr, rfl⟩, fun r hr => ⟨r, hr, rfl, rfl, rfl⟩, fun _ _ _ hup => hup.2, ?_⟩
  intro r _ h v m _ _ hm
  simp only [Scene.without] at hm
  split at hm
  · cases hm
  · exact ⟨m, hm, fun _ hu => hu⟩

/-- A server at rest is as the next tick has to find it. -/
theorem GameServer.AtRest.sound {r : GameServer} (hr : r.AtRest full T) (hc : r.Coherent) :
    r.Sound full T := by
  refine ⟨fun hf hd => ?_, fun hf hst hde => ?_, fun h v hh hv hde hst => ?_,
    fun hf h v hh hv hb hst => ?_⟩
  · rcases hr.home hf with ⟨-, he⟩ | ⟨hl, -⟩
    · exact he
    · rw [hd] at hl
      cases hl
  · rcases hr.home hf with ⟨-, he⟩ | ⟨-, -, -, hp⟩
    · rw [hde] at he
      cases he
    · exact hp hde
  · rcases hr.quit with hn | hru
    · rw [hv] at hn
      cases hn
    · exact absurd hru hst
  · have hp := hc.placed (hc.hosted (by simp [hv]))
    rcases hr.home hf with ⟨hd, -⟩ | ⟨hl, hi, -⟩
    · rw [hd] at hp
      cases hp
    · simp [GameServer.reconcilable, hl, hb, hst] at hi

theorem Rested.sound (hs : Rested full id T) (hp : Proper T.rows) : T.Sound full id :=
  fun r hr => (hs r hr).sound (hp.coherent r (mem_of_getElem? hr))

theorem Fleet.Owes.resume {i : Option Nat} {e : Call} {k : Answer e → Act Unit} {r : Answer e}
    {g : Fleet} (h : f.Owes full id n) (ho : Orderly d f')
    (ht : f.thread = some ⟨.call e k, st, i⟩) (hf' : f' = g.resume st e k r)
    (hg : ∀ T : Scene, (T.without e.halts).Stirred full id f.scene → f.Attended full id T →
      T.Goes full id e r f'.scene) : f'.Owes full id n := by
  unfold Fleet.Owes at h
  rw [ht] at h
  obtain ⟨T, htu, hm, hat⟩ := h
  have hh : f.halting = e.halts := by simp [Fleet.halting, Fleet.asks, ht, Prog.next?]
  rw [hh] at hm
  have hl : Turns full id f'.scene (k r) fun T' _ => Rested full id T' :=
    htu r f'.scene (hg T hm hat)
  unfold Fleet.Owes
  cases ht' : f'.thread with
  | none =>
    rw [hf', Fleet.resume] at ht'
    split at ht'
    · rename_i hd
      rw [hd] at hl
      have hse : Rested full id f'.scene := hl
      exact ⟨hse.sound ho.proper, fun _ => hse⟩
    · cases ht'
  | some t =>
    refine ⟨f'.scene, ?_, Scene.stirred_without _ _, ?_⟩
    · rw [hf'] at ht'
      rw [Fleet.resume_thread ht']
      exact hl
    · intro t' i h op k c ht2 hi
      have ha := awaited_of_thread ht2 hi
      rw [hf', resume_awaited] at ha
      cases ha

theorem reports_eq (hs : f'.streams = f.streams) (ha : f'.agents = f.agents) (h : HostID)
    (v : VMID) : f'.reports h v = f.reports h v := by
  unfold Fleet.reports
  rw [hs, ha]

theorem tracked_eq (hm : Unmoved f f') : f'.tracked = f.tracked := by
  funext h v
  unfold Fleet.tracked Fleet.leads
  rw [hm.registry, hm.streams, hm.agents]

theorem answer_goes (order : Order) (ht : f.thread = some ⟨.call e k, st, none⟩)
    (he : e.isCommand = false) (hg : f.grants full id = true) (T' : Scene)
    (hro : T'.rows = (f.answer none order e).2.rows)
    (hup : ∀ h v, f.reports h v = true → T'.up h v) (hvm : T'.vm = f.tracked) :
    f.scene.Answers full id e (f.answer none order e).1 T' := by
  have ha : f.asks = some e := by simp [Fleet.asks, ht, Prog.next?]
  unfold Fleet.grants at hg
  rw [ha] at hg
  refine ⟨?_, ⟨f.clock, ?_⟩, fun _ h v _ h' => hup h v h', ?_, ?_⟩
  · cases e with
    | command h op => cases he
    | reserve h cpus memMB =>
      simp only [Fleet.answer]
      cases hre : reserve f.hosts h cpus memMB with
      | error err =>
        dsimp only at hg
        rw [hre] at hg
        have hfu : full = false := by simpa [Except.isOk, Except.toBool] using hg
        simp [Call.well, hfu]
      | ok hosts => exact Bool.or_true _
    | _ => rfl
  · rw [hro, Call.rewrites]
    cases hw : e.writes f.clock with
    | none => exact answer_rows_of_not_writes hw
    | some write => exact answer_rows_of_writes hw
  · intro r _ _ h v m _ _ hm
    exact ⟨m, hvm ▸ hm, fun _ hu => hu⟩
  · cases e with
    | command h op => cases he
    | listRunning => exact ⟨⟨order, rfl⟩, fun hf => by simpa [hf, Fleet.scene] using hg⟩
    | listReconcilable => exact ⟨⟨order, rfl⟩, by simpa [Fleet.scene] using hg⟩
    | listReady =>
      intro hf r hr
      have hr : f.rows[id]? = some r := hr
      simpa [hf, hr] using hg
    | reserve h cpus memMB => trivial
    | _ => trivial

theorem Fleet.Owes.act {order : Order} (h : f.Owes full id n) (ho : Orderly d f)
    (hs : step d f (.act fault order) = some f')
    (hf : f.fine d full id (.act fault order) = true) : f'.Owes full id n := by
  obtain ⟨e, k, st, ht, he, hf'⟩ := actStep_eq hs
  simp only [Fleet.fine, Bool.and_eq_true, isNone_iff_eq_none] at hf
  obtain ⟨rfl, hg⟩ := hf
  have hm := reconcilerStep_unmoved hs rfl (by simp)
  refine h.resume (ho.step hs) ht hf' fun T hmo _ => ⟨f.scene, ?_, ho.proper, ?_⟩
  · have hn : e.halts = none := by
      cases e with
      | command => cases he
      | _ => rfl
    rw [hn] at hmo
    exact ⟨hmo.rows, hmo.mine, fun hf host v hup => hmo.up hf host v ⟨by simp, hup⟩,
      fun r hr => (hmo.kept r hr).without (by simp)⟩
  refine answer_goes order ht he hg f'.scene (by rw [hf']; simp [Fleet.scene]) ?_ (tracked_eq hm)
  intro host v hup
  change f'.reports host v = true
  rw [reports_eq hm.streams hm.agents]
  exact hup

/-- A command that tends the server has been carried out when it is answered. -/
theorem Fleet.Owes.answered {i : Option Nat} {g : Fleet}
    {k : Answer (.command h op) → Act Unit} {r : Answer (.command h op)} (howe : f.Owes full id n)
    (ho : Orderly d f) (ho' : Orderly d f') (ht : f.thread = some ⟨.call (.command h op) k, st, i⟩)
    (hf' : f' = g.resume st (.command h op) k r) (hm : Unmoved f f') (hro : f'.rows = f.rows)
    (herr : ∀ T e, r = .error e → f.Attended full id T →
      ¬ Scene.Serves full id { T with rows := f.rows } h op)
    (hok : ∀ view, r = .ok view → Tells op view ∧
      (full = true → ∀ x, view = some x → x.state = .running → f.reports h x.id = true)) :
    f'.Owes full id n := by
  refine howe.resume ho' ht hf' fun T hmo hat => ⟨{ T with rows := f.rows },
    ⟨hmo.rows, hmo.mine, fun _ _ _ hup => hup, fun r _ => ?_⟩, ho.proper, rfl, ⟨0, ?_⟩, ?_, ?_, ?_⟩
  · exact fun _ _ m _ _ hm => ⟨m, hm, fun _ hu => hu⟩
  · exact hro
  · intro hfu h' v hta hup
    change f'.reports h' v = true
    rw [reports_eq hm.streams hm.agents]
    exact hmo.up hfu h' v ⟨hta, hup⟩
  · intro r hr hn
    obtain ⟨r0, hr0, hl⟩ := hmo.mine r hr
    have hk := ((hmo.kept r0 hr0).of_core hl.1.symm).without hn
    intro h' v m hh hv hvm
    obtain ⟨m', hm', hu⟩ := hk h' v m hh hv hvm
    exact ⟨m', (congrFun (congrFun (tracked_eq hm) h') v).trans hm', hu⟩
  · cases r with
    | error e => exact herr T e rfl hat
    | ok view =>
      refine ⟨(hok view rfl).1, fun hfu x hx hst => ?_⟩
      change f'.reports h x.id = true
      rw [reports_eq hm.streams hm.agents]
      exact (hok view rfl).2 hfu x hx hst

theorem Fleet.Owes.collect (hw : f.Owes full id n) (ho : Orderly d f) (hto : Told f)
    (htr : full = true → Truthful f) (hs : step d f .collect = some f') : f'.Owes full id n := by
  obtain ⟨host, op, k, st, i, c, r, ht, hc, hou, hf'⟩ := collectStep_eq hs
  obtain ⟨_, _, _, c', s, hp, hc', hop, -, hst, hh⟩ := ho.waits.call _ i ht rfl
  rw [hc] at hc'
  cases hc'
  cases hp
  have ha : f.awaited = some i := awaited_of_thread ht rfl
  have hfit := ho.waits.fits c (mem_of_getElem? hc)
  refine hw.answered ho (ho.step hs) ht hf' (reconcilerStep_unmoved hs rfl (by simp)) ?_ ?_ ?_
  · rw [hf']
    simp [Fleet.setCall]
  · intro T e he hat hse
    obtain ⟨hph, hcm, -⟩ := hat _ i host op k c ht rfl rfl hc hse
    rw [he] at hou
    unfold HubCall.outcome at hou
    split at hou
    · rename_i hsf
      exact hph hsf
    · rename_i text _ hre
      exact hcm text (hfit.result _ hre)
    · cases hou
    · cases hou
  · intro view hv
    rw [hv] at hou
    have hd := hfit.outcome_ok hou
    refine ⟨hop ▸ hto c (mem_of_getElem? hc) view hd, fun hfu x hx hsta => ?_⟩
    subst hx
    have hr := htr hfu i c s x ha hc hd hsta hst
    unfold Fleet.reports
    rw [List.any_eq_true]
    exact ⟨s, List.mem_of_getElem? hst, by simp [hh, hr]⟩

theorem not_serves (ht : f.tends full id op = false) :
    ¬ Scene.Serves full id { T with rows := f.rows } h op := by
  rintro ⟨⟨r, hr, hte, -⟩, -⟩
  have hr : f.rows[id]? = some r := hr
  simp [Fleet.tends, hr, hte] at ht

theorem Fleet.Owes.issue (hw : f.Owes full id n) (ho : Orderly d f)
    (hs : step d f .issue = some f') (hf : f.fine d full id .issue = true) :
    f'.Owes full id n := by
  obtain ⟨host, op, k, st, ht, ⟨hn, hf'⟩ | ⟨c, hre, rfl⟩⟩ := issueStep_eq hs
  · have hte : f.tends full id op = false := by
      simpa [Fleet.fine, Fleet.asks, ht, Prog.next?, hn] using hf
    refine hw.answered ho (ho.step hs) ht hf' (reconcilerStep_unmoved hs rfl (by simp)) ?_
      (fun T e _ _ => not_serves hte) ?_
    · rw [hf']
      simp
    · intro view hv
      cases hv
  · unfold Fleet.Owes at hw ⊢
    rw [ht] at hw
    obtain ⟨T, htu, hm, -⟩ := hw
    have hh : f.halting = op.halts := by
      simp [Fleet.halting, Fleet.asks, ht, Prog.next?, Call.halts]
    rw [hh] at hm
    refine ⟨T, htu, hm, ?_⟩
    intro t i h' op' k' c' ht' hi hp hc' _
    cases ht'
    cases hi
    cases hp
    simp only [List.getElem?_concat_length, Option.some.injEq] at hc'
    subst hc'
    exact ⟨by simp, by simp, fun _ _ _ _ => hre⟩

theorem Fleet.Owes.expire (hw : f.Owes full id n) (ho : Orderly d f)
    (hs : step d f .expire = some f') (hf : f.fine d full id .expire = true) :
    f'.Owes full id n := by
  obtain ⟨host, op, k, st, i, c, ht, -, -, -, hf'⟩ := expireStep_eq hs
  have hte : f.tends full id op = false := by
    simpa [Fleet.fine, Fleet.asks, ht, Prog.next?] using hf
  refine hw.answered ho (ho.step hs) ht hf' (reconcilerStep_unmoved hs rfl (by simp)) ?_
    (fun T e _ _ => not_serves hte) ?_
  · rw [hf']
    simp [Fleet.setCall]
  · intro view hv
    cases hv

theorem Op.needs_kept {r : GameServer} {vm : VMID → Option VM}
    (hk : Remains full (T.without op.halts) T' r) (hh : r.hostID = some h)
    (hvm : ∀ v, r.vmID = some v → T'.vm h v = vm v) (ht : op.tends full r = true)
    (hn : op.needs (T.vm h)) : op.needs vm := by
  cases op with
  | start v =>
    have hv : r.vmID = some v := by simpa [Op.tends] using ht
    obtain ⟨m, hm⟩ := Option.isSome_iff_exists.mp hn
    obtain ⟨m', hm', -⟩ := hk h v m hh hv (by simpa [Scene.without, Op.halts] using hm)
    simp [Op.needs, ← hvm v hv, hm']
  | snapshot v =>
    obtain ⟨hf, hv⟩ : full = true ∧ r.vmID = some v := by simpa [Op.tends] using ht
    have hn : (T.vm h v).any VM.up = true := hn
    rw [Option.any_eq_true] at hn
    obtain ⟨m, hm, hu⟩ := hn
    obtain ⟨m', hm', hu'⟩ := hk h v m hh hv (by simpa [Scene.without, Op.halts] using hm)
    simp [Op.needs, ← hvm v hv, hm', hu' hf hu]
  | _ => trivial

theorem Fleet.Attended.step (ha : f.Attended full id T) (ho : Orderly d f)
    (hm : (T.without f.halting).Stirred full id f.scene) (hs : step d f l = some f')
    (hrec : l.isReconciler = false) (hf : f.fine d full id l = true) : f'.Attended full id T := by
  intro t i h op k c' ht hi hp hc' hse
  rw [step_thread hs hrec] at ht
  obtain ⟨c, hc, -, hmv⟩ := awaited_call hs hrec ho.waits (awaited_of_thread ht hi) hc'
  obtain ⟨_, _, _, c2, s, hp2, hc2, hco, -, hst, hsh⟩ := ho.waits.call t i ht hi
  rw [hc] at hc2
  cases hc2
  rw [hp] at hp2
  cases hp2
  obtain ⟨⟨r', hr', hte, hh⟩, hn⟩ := hse
  obtain ⟨r, hr, hl⟩ := step_mine hs hrec hf hr'
  have hte : op.tends full r = true := (Op.tends_of_core hl.1).symm.trans hte
  have hh : r.hostID = some h := (hostID_of_core hl.1).symm.trans hh
  have hse : f.tends full id op = true := by simp [Fleet.tends, hr, hte]
  obtain ⟨hph, hcm, hreg⟩ := ha t i h op k c ht hi hp hc ⟨⟨r, hr, hte, hh⟩, hn⟩
  refine ⟨?_, ?_, ?_⟩
  · cases hmv with
    | fail hl _ =>
      subst hl
      simp [Fleet.fine, hc, hco, hse] at hf
    | send => simp
    | finish => simp
    | _ => exact hph
  · intro text hcmd
    rcases step_executed hs hc' hcmd with
      ⟨c1, hc1, -, hol⟩ | ⟨o, c1, s1, rfl, hc1, -, -, hs1, -, he⟩
    · rw [hc] at hc1
      cases hc1
      exact hcm text hol
    rw [hc] at hc1
    cases hc1
    rw [hst] at hs1
    cases hs1
    obtain ⟨hfa, had⟩ : o.fault = none ∧
        (f.agents s.agent).admits (d.info s.agent) op = true := by
      simpa [Fleet.fine, hc, hco, hse, hst] using hf
    rw [hco] at he
    refine Agent.exec_served hte ?_ had hfa text he
    -- the VM that the command is about is still where the scene has it
    have hha : f.halting = op.halts := by
      simp [Fleet.halting, Fleet.asks, ht, hp, Prog.next?, Call.halts]
    rw [hha] at hm
    obtain ⟨r0, hr0, hl0⟩ := hm.mine r hr
    refine Op.needs_kept ((hm.kept r0 hr0).of_core hl0.1.symm) hh (fun v hv => ?_) hte hn
    change f.tracked h v = _
    simp [Fleet.tracked, Fleet.leads, hreg r v hr hv, hst]
  · intro r2 v hr2 hv
    have hr2 : f'.rows[id]? = some r2 := hr2
    rw [hr'] at hr2
    cases hr2
    have hv : r.vmID = some v := (vmID_of_core hl.1).symm.trans hv
    rw [step_registry_of_ne hs (spares_of_fine hf) (fine_apart hf hr hv hh), hreg r v hr hv, hmv.conn]

theorem Fleet.Owes.step (hw : f.Owes full id n) (ho : Orderly d f) (hso : Sole f) (hto : Told f)
    (htr : full = true → Truthful f) (hs : step d f l = some f') (hf : f.fine d full id l = true) :
    f'.Owes full id (if l.isTick then n + 1 else n) := by
  by_cases hr : l.isReconciler = true
  · cases l with
    | tick =>
      obtain ⟨hi, rfl⟩ := tick_eq hs
      unfold Fleet.Owes at hw ⊢
      rw [hi] at hw
      refine ⟨f.scene, reconcileOnce_turns hw.1, Scene.stirred_without _ _, ?_⟩
      intro t i h op k c ht hi
      cases ht
      cases hi
    | act fault order => exact hw.act ho hs hf
    | collect => exact hw.collect ho hto htr hs
    | issue => exact hw.issue ho hs hf
    | expire => exact hw.expire ho hs hf
    | restartControl => cases hf
    | _ => cases hr
  · have hr : l.isReconciler = false := by simpa using hr
    have hti : l.isTick = false := by
      cases l with
      | tick => cases hr
      | _ => rfl
    rw [hti]
    have hsc := step_scene ho hso hs hr hf
    have hth := step_thread hs hr
    unfold Fleet.Owes at hw ⊢
    rw [hth]
    cases ht : f.thread with
    | none =>
      rw [ht] at hw
      have hh : f.halting = none := by simp [Fleet.halting, Fleet.asks, ht]
      rw [hh] at hsc
      have hst : f.scene.Stirred full id f'.scene :=
        ⟨hsc.rows, hsc.mine, fun hfu host v hup => hsc.up hfu host v ⟨by simp, hup⟩,
          fun r hr => (hsc.kept r hr).without (by simp)⟩
      exact ⟨hw.1.stirred hst, fun hn => (hw.2 hn).stirred hst⟩
    | some t =>
      rw [ht] at hw
      obtain ⟨T, htu, hm, hat⟩ := hw
      have hh : f'.halting = f.halting := by simp [Fleet.halting, Fleet.asks, hth]
      rw [hh]
      exact ⟨T, htu, Scene.without_stirred hm hsc, hat.step ho hm hs hr hf⟩

structure Unbroken (d : Deployment) (f : Fleet) : Prop where
  orderly : Orderly d f
  sole : Sole f
  told : Told f

theorem Unbroken.step (h : Unbroken d f) (hs : step d f l = some f') (hl : l ≠ .restartControl) :
    Unbroken d f' :=
  ⟨h.orderly.step hs, h.sole.step h.orderly.waits hs hl, h.told.step h.orderly.named hs⟩

theorem Unbroken.init (d : Deployment) : Unbroken d .init := ⟨.init d, .init, .init⟩

structure Bound (d : Deployment) (full : Bool) (id : ServerID) (n : Nat) (f : Fleet) : Prop where
  unbroken : Unbroken d f
  truthful : full = true → Truthful f
  owes : f.Owes full id n

theorem Bound.step (h : Bound d full id n f) (hs : Control.step d f l = some f')
    (hf : f.fine d full id l = true) : Bound d full id (if l.isTick then n + 1 else n) f' := by
  have ho := h.unbroken.orderly
  have hl := spares_of_fine hf
  refine ⟨h.unbroken.step hs hl, fun hfu => ?_,
    h.owes.step ho h.unbroken.sole h.unbroken.told h.truthful hs hf⟩
  refine (h.truthful hfu).step ho.named ho.waits ho.wired h.unbroken.sole hs hl ?_
  rintro a rfl
  rw [(fine_restartAgent hf).1] at hfu
  cases hfu

/-- A quiet period may begin between ticks when the tables fit together. -/
theorem Bound.start (h : Unbroken d f) (hi : f.thread = none)
    (hs : ∀ r, f.rows[id]? = some r → f.sound full r = true) : Bound d full id 0 f := by
  refine ⟨h, fun _ i c s x ha => ?_, ?_⟩
  · rw [Fleet.awaited, hi] at ha
    cases ha
  · unfold Fleet.Owes
    rw [hi]
    exact ⟨fun r hr => f.sound_scene (hs r hr), fun hn => absurd hn (Nat.lt_irrefl 0)⟩

theorem Bound.rested (h : Bound d full id n f) (hi : f.thread = none) (hn : 0 < n) :
    Rested full id f.scene := by
  have ho := h.owes
  unfold Fleet.Owes at ho
  rw [hi] at ho
  exact ho.2 hn

end Step

/-- The server is in the state that is asked for: it runs, as an agent of its host reports, it
is stopped and holds neither VM nor host, or it is gone. -/
def Fleet.InState (f : Fleet) (r : GameServer) : Prop :=
  match r.desired with
  | .running => r.deleted = false ∧ r.status = .running ∧
      ∃ h v, r.hostID = some h ∧ r.vmID = some v ∧ f.reports h v = true
  | .stopped => r.deleted = false ∧ r.status = .stopped ∧ r.vmID = none ∧ r.hostID = none
  | .deleted => r.deleted = true

theorem GameServer.AtRest.inState {f : Fleet} {r : GameServer} (h : r.AtRest true f.scene)
    (hc : r.Coherent) : f.InState r ∧ r.reconcilable = false := by
  unfold Fleet.InState
  rcases h.home rfl with ⟨hd, hde⟩ | ⟨hl, hi, hup, hh⟩
  · rw [hde]
    exact ⟨hd, by simp [GameServer.reconcilable, hd]⟩
  refine ⟨?_, hi⟩
  rcases running_of_not_reconcilable hi hl with ⟨hde, hst⟩ | ⟨hde, hst⟩
  · obtain ⟨host, v, hho, hv, hre⟩ := hup hde
    rw [hde]
    exact ⟨hl, hst, host, v, hho, hv, hre⟩
  · rw [hde]
    exact ⟨hl, hst, hc.stopped hst, hh hde⟩

/-- From a row and agents' tables that are sound, between ticks of any run in which the control
process lives on, a quiet period with one tick brings the server where it is wanted. -/
theorem servers_converge (d : Deployment) (id : ServerID) (f : Fleet) (x : Fleet × Nat)
    (hrun : Reaches (step d) (fun _ l _ => l.spares = true) .init f) (hidle : f.thread = none)
    (hsound : ∀ r, f.rows[id]? = some r → f.sound true r = true)
    (hquiet : Reaches (counting (step d) Label.isTick) (fun y l _ => y.1.fine d true id l = true)
      (f, 0) x)
    (hticks : 1 ≤ x.2) (hidle' : x.1.thread = none) (r : GameServer)
    (hr : x.1.rows[id]? = some r) : x.1.InState r ∧ r.reconcilable = false := by
  have hunbroken : Unbroken d f := hrun.invariant (.init d) fun y l y' hy hs hl =>
    hy.step hs (by rintro rfl; cases hl)
  have hbound : Bound d true id x.2 x.1 :=
    hquiet.invariant (I := fun y => Bound d true id y.2 y.1) (.start hunbroken hidle hsound)
      fun y l y' hy hs hf => by
        obtain ⟨hst, hn⟩ := counting_eq hs
        rw [hn]
        exact hy.step hst hf
  have hcoherent := hbound.unbroken.orderly.coherent.rows r (mem_of_getElem? hr)
  exact (hbound.rested hidle' hticks r hr).inState hcoherent

/-- A server is created and a host joins. After three quiet ticks it runs. -/
theorem servers_converge_running : ∃ (f : Fleet) (x : Fleet × Nat) (r : GameServer),
      Reaches (step oneHost) (fun _ l _ => l.spares = true) .init f ∧ f.thread.isNone = true ∧
      Reaches (counting (step oneHost) Label.isTick)
        (fun y l _ => y.1.fine oneHost true 0 l = true) (f, 0) x ∧
      x.2 = 3 ∧ x.1.thread.isNone = true ∧ x.1.rows[0]? = some r ∧ r.desired = .running ∧
      x.1.InState r ∧ r.reconcilable = false := by
  obtain ⟨f, hrun, hf⟩ := Reaches.exists_run (step oneHost) (fun _ l _ => l.spares = true) .init
    (.create oneServer :: joins 0 0)
    (fun f => f.thread.isNone && (f.rows[0]?.all (f.sound true) &&
      (runChecked (counting (step oneHost) Label.isTick)
        (fun y l _ => y.1.fine oneHost true 0 l = true) (f, 0) (.tick :: List.replicate 7 plain ++
          commanded 0 ++ List.replicate 3 plain ++ probed 1 ++ probed 2)).any fun x : Fleet × Nat =>
        decide (x.2 = 3) && (x.1.thread.isNone &&
          x.1.rows[0]?.any fun r : GameServer => decide (r.desired = .running)))) (by decide +kernel)
  simp only [Bool.and_eq_true] at hf
  obtain ⟨hidle, hsound, hquiet⟩ := hf
  obtain ⟨x, hquiet, hx⟩ := Reaches.exists_run _ _ _ _ _ hquiet
  simp only [Bool.and_eq_true, decide_eq_true_eq, Option.any_eq_true] at hx
  obtain ⟨hticks, hidle', r, hr, hdesired⟩ := hx
  have hsound : ∀ r, f.rows[0]? = some r → f.sound true r = true := by
    intro r hr
    simpa [hr] using hsound
  exact ⟨f, x, r, hrun, hidle, hquiet, hticks, hidle', hr, hdesired,
    servers_converge oneHost 0 f x hrun (by simpa using hidle) hsound hquiet (by omega)
      (by simpa using hidle') r hr⟩

/-- A stopped server is to run. It is placed, but its status cannot be written, and the user
takes the request back. -/
def toStranded : List Label :=
  [.create oneServer, .setDesired 0 .stopped, .tick] ++ List.replicate 7 plain ++ joins 0 0 ++
    joins 1 1 ++ [.setDesired 0 .running, .tick] ++ List.replicate 6 plain ++
    [.act (some "conflict") .asStored, .act (some "conflict") .asStored, plain,
      .setDesired 0 .stopped]

/-- A stop fails after it has halted the VM, the agent restarts, and the server is to run
again. -/
def toForgotten : List Label :=
  toRunning ++ [.setDesired 0 .stopped, .tick, plain, plain, plain, plain, .issue, .send 1 true,
    .exec 1 ⟨some "put world: timeout", 0, none⟩, .deliver 1, .collect, plain, plain,
    .restartAgent 0, .streamEnd 0, .remove 0, .markDown 0] ++ joins 0 1 ++ joins 1 2 ++
    [.setDesired 0 .running]

def restarted (i : Nat) : List Label :=
  [.tick, plain, plain, plain, plain] ++ commanded i ++ [plain, plain]

def Fleet.roomy (f : Fleet) (n : NewServer) : Bool :=
  (listReady f.hosts).any fun h => (f.registry h.id).isSome && n.cpus ≤ h.cpusAllocatable &&
    n.memoryMB ≤ h.memoryMBAllocatable

/-- From here three quiet ticks leave the server out of the state that is asked for, though a
ready, connected host has room. -/
def Fleet.Stuck (f : Fleet) (desired : Desired) : Prop :=
  f.thread.isNone = true ∧ ∃ (x : Fleet × Nat) (r : GameServer),
    Reaches (counting (step oneHost) Label.isTick)
      (fun y l _ => y.1.fine oneHost true 0 l = true) (f, 0) x ∧
    x.2 = 3 ∧ x.1.thread.isNone = true ∧ x.1.roomy oneServer = true ∧ x.1.rows[0]? = some r ∧
    r.desired = desired ∧ ¬ x.1.InState r

/-- The same, checked along a run. -/
def Fleet.stuck (f : Fleet) (ls : List Label) (p : GameServer → Bool) : Bool :=
  f.thread.isNone && (runChecked (counting (step oneHost) Label.isTick)
    (fun y l _ => y.1.fine oneHost true 0 l = true) (f, 0) ls).any fun x =>
      decide (x.2 = 3) && (x.1.thread.isNone && (x.1.roomy oneServer && x.1.rows[0]?.any p))

theorem Fleet.stuck_spec {f : Fleet} {desired : Desired} (h : f.stuck ls p = true)
    (hp : ∀ f r, p r = true → r.desired = desired ∧ ¬ Fleet.InState f r) : f.Stuck desired := by
  simp only [Fleet.stuck, Bool.and_eq_true] at h
  obtain ⟨hidle, hquiet⟩ := h
  obtain ⟨x, hquiet, hx⟩ := Reaches.exists_run _ _ _ _ _ hquiet
  simp only [Bool.and_eq_true, decide_eq_true_eq, Option.any_eq_true] at hx
  obtain ⟨hticks, hidle', hroom, r, hr, hpr⟩ := hx
  exact ⟨hidle, x, r, hquiet, hticks, hidle', hroom, hr, hp x.1 r hpr⟩

/-- One server is stopped and still holds a host after three quiet ticks. Another, whose VM its
agent has forgotten, is in error after three. -/
theorem servers_stuck :
    (∃ f, Reaches (step oneHost) (fun _ l _ => l.spares = true) .init f ∧ f.Stuck .stopped) ∧
      ∃ f, Reaches (step oneHost) (fun _ l _ => l.spares = true) .init f ∧ f.Stuck .running := by
  constructor
  · obtain ⟨f, hrun, hf⟩ := Reaches.exists_run (step oneHost) (fun _ l _ => l.spares = true) .init
      toStranded (fun f => f.stuck [.tick, plain, plain, .tick, plain, plain, .tick, plain, plain]
        fun r => decide (r.desired = .stopped) && r.hostID.isSome) (by decide +kernel)
    refine ⟨f, hrun, Fleet.stuck_spec hf fun f r hr => ?_⟩
    simp only [Bool.and_eq_true, decide_eq_true_eq] at hr
    refine ⟨hr.1, fun hin => ?_⟩
    simp only [Fleet.InState, hr.1] at hin
    simp [hin.2.2.2] at hr
  · obtain ⟨f, hrun, hf⟩ := Reaches.exists_run (step oneHost) (fun _ l _ => l.spares = true) .init
      toForgotten (fun f => f.stuck (restarted 2 ++ restarted 3 ++ restarted 4)
        fun r => decide (r.desired = .running) && decide (r.status = .error)) (by decide +kernel)
    refine ⟨f, hrun, Fleet.stuck_spec hf fun f r hr => ?_⟩
    simp only [Bool.and_eq_true, decide_eq_true_eq] at hr
    refine ⟨hr.1, fun hin => ?_⟩
    simp only [Fleet.InState, hr.1, hr.2] at hin
    cases hin.2.1

end Craftling.Control

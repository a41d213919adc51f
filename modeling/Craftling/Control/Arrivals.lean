import Craftling.Control.Convergence

namespace Craftling.Control
open Effects List

section Others

variable {full : Bool} {id k : ServerID} {T T' : Scene} {s r : GameServer} {b : Bool}

theorem GameServer.Like.reconcilable (h : r.Like s) : r.reconcilable = s.reconcilable := by
  obtain ⟨hcore, hd, hb⟩ := h
  simp only [GameServer.core, Core.mk.injEq] at hcore
  obtain ⟨-, -, -, hs, -, -, hde⟩ := hcore
  simp [GameServer.reconcilable, hd, hb, hs, hde]

theorem GameServer.Like.running (h : r.Like s) : r.running = s.running := by
  obtain ⟨hcore, hd, -⟩ := h
  simp only [GameServer.core, Core.mk.injEq] at hcore
  obtain ⟨-, -, -, hs, -, -, hde⟩ := hcore
  simp [GameServer.running, hd, hs, hde]

theorem Up.frame (h : Up T s) (hu : full = true) (hf : Frame full id k T T') (hk : id ≠ k)
    (hr : T.rows[id]? = some r) (hcore : r.core = s.core) : Up T' s := by
  obtain ⟨host, v, hh, hv, hup⟩ := h
  exact ⟨host, v, hh, hv, hf.up hu hk r v host hr ((vmID_of_core hcore).trans hv) hup⟩

section

variable (h : Mine T s b) (hf : Frame full id k T T') (hk : id ≠ k) (hi : s.id = id)
include h hf hk hi

theorem Mine.frame :
    Mine T' s b := by
  obtain ⟨r, hr, hcore, hd, hb⟩ := h
  rw [hi] at hr
  obtain ⟨r', hr', -⟩ := hf.rows id r hk hr
  obtain ⟨r0, hr0, hl⟩ := hf.mine hk r' hr'
  rw [hr] at hr0
  cases hr0
  exact ⟨r', hi ▸ hr', hl.1.trans hcore, hl.2.1.trans hd, hl.2.2.trans hb⟩

theorem Mine.kept_frame : Remains full T T' s := by
  obtain ⟨r, hr, hcore, -⟩ := h
  exact (hf.kept hk r (hi ▸ hr)).of_core hcore

end

def Scene.Sound (full : Bool) (id : ServerID) (T : Scene) : Prop :=
  ∀ r, T.rows[id]? = some r → r.Sound full T

theorem Scene.Sound.frame (h : T.Sound full id) (hf : Frame full id k T T') (hk : id ≠ k) :
    T'.Sound full id := by
  intro r' hr'
  obtain ⟨r, hr, hl⟩ := hf.mine hk r' hr'
  exact ((h r hr).kept (hf.kept hk r hr)).like hl

theorem Checked.sound (h : Checked full id T) : T.Sound full id := fun r hr => (h r hr).1

theorem Checked.frame (h : Checked full id T) (hf : Frame full id k T T') (hk : id ≠ k) :
    Checked full id T' := by
  intro r' hr'
  refine ⟨h.sound.frame hf hk r' hr', fun hu hru => ?_⟩
  obtain ⟨r, hr, hl⟩ := hf.mine hk r' hr'
  rw [hl.running] at hru
  exact (((h r hr).2 hu hru).frame hu hf hk hr rfl).of_core hl.1

theorem Rested.frame (h : Rested full id T) (hf : Frame full id k T T') (hk : id ≠ k) :
    Rested full id T' := by
  intro r' hr'
  obtain ⟨r, hr, hl⟩ := hf.mine hk r' hr'
  have hq := (h r hr).quit
  rw [← vmID_of_core hl.1, ← show r'.status = r.status from congrArg Core.status hl.1] at hq
  refine ⟨hq, fun hu => ?_⟩
  rw [deleted_of_core hl.1, hl.reconcilable, hl.2.1, hostID_of_core hl.1]
  refine ((h r hr).home hu).imp_right ?_
  rintro ⟨hd, hi, hup, hh⟩
  exact ⟨hd, hi, fun hde => ((hup hde).frame hu hf hk hr rfl).of_core hl.1, hh⟩

theorem Scene.Stirred.other (h : T.Stirred full id T') : Frame full id (id + 1) T T' := h.frame _

theorem Rested.stirred (h : Rested full id T) (hm : T.Stirred full id T') : Rested full id T' :=
  h.frame hm.other (Nat.ne_of_lt (Nat.lt_succ_self id))

theorem Scene.Sound.stirred (h : T.Sound full id) (hm : T.Stirred full id T') : T'.Sound full id :=
  h.frame hm.other (Nat.ne_of_lt (Nat.lt_succ_self id))

end Others

/-- Servers are still to be looked at. If `id` is among them its record is up to date and
meets `R`, and if it is not, `P` holds. -/
structure Ahead (id : ServerID) (P : Scene → Prop) (R : Scene → GameServer → Prop)
    (todo : List GameServer) (T : Scene) : Prop where
  agrees : ∀ s ∈ todo, Agrees T.rows s
  distinct : (todo.map GameServer.id).Nodup
  mine : ∀ s ∈ todo, s.id = id → Mine T s s.backupRequested ∧ s.deleted = false ∧ s.Coherent ∧ R T s
  done : id ∉ todo.map GameServer.id → P T

/-- Work on other servers leaves `P` and `R` as they are. -/
structure Framed (full : Bool) (id : ServerID) (P : Scene → Prop) (R : Scene → GameServer → Prop) :
    Prop where
  done : ∀ k T T', id ≠ k → Frame full id k T T' → P T → P T'
  mine : ∀ k T T' s b, id ≠ k → Frame full id k T T' → s.id = id → Mine T s b → R T s → R T' s

section Ahead

variable {full : Bool} {id : ServerID} {P : Scene → Prop} {R : Scene → GameServer → Prop}
    {T T' : Scene} {s : GameServer}

theorem Ahead.stirred (h : Ahead id P R todo T) (hf : Framed full id P R)
    (hm : T.Stirred full id T') : Ahead id P R todo T' := by
  have hk : id ≠ id + 1 := Nat.ne_of_lt (Nat.lt_succ_self id)
  refine ⟨fun s hs => (h.agrees s hs).stirred hm, h.distinct, fun s hs hi => ?_,
    fun ho => hf.done _ T T' hk hm.other (h.done ho)⟩
  obtain ⟨hmi, hl, hc, hr⟩ := h.mine s hs hi
  exact ⟨hmi.frame hm.other hk hi, hl, hc, hf.mine _ T T' s _ hk hm.other hi hmi hr⟩

theorem Ahead.left (h : Ahead id P R (s :: todo) T) (hf : Framed full id P R)
    (hfr : Frame full id s.id T T') (ho : s.id = id → P T') : Ahead id P R todo T' := by
  have hd := h.distinct
  simp only [map_cons, nodup_cons] at hd
  have hn : ∀ s' ∈ todo, s'.id ≠ s.id := by
    intro s' hs' he
    exact hd.1 (he ▸ mem_map_of_mem hs')
  refine ⟨?_, hd.2, ?_, ?_⟩
  · intro s' hs'
    obtain ⟨r, hr, hcore⟩ := h.agrees s' (.tail _ hs')
    obtain ⟨r', hr', hcore'⟩ := hfr.rows _ r (hn s' hs') hr
    exact ⟨r', hr', hcore'.trans hcore⟩
  · intro s' hs' hi
    have hk : id ≠ s.id := hi ▸ hn s' hs'
    obtain ⟨hm, hl, hc, hr⟩ := h.mine s' (.tail _ hs') hi
    exact ⟨hm.frame hfr hk hi, hl, hc, hf.mine _ T T' s' _ hk hfr hi hm hr⟩
  intro hou
  by_cases hi : s.id = id
  · exact ho hi
  refine hf.done _ T T' (Ne.symm hi) hfr (h.done ?_)
  rw [map_cons, mem_cons, not_or]
  exact ⟨Ne.symm hi, hou⟩

theorem checked_framed (full : Bool) (id : ServerID) :
    Framed full id (Checked full id) fun T s => s.Sound full T ∧ s.running = true :=
  ⟨fun _ _ _ hk hf h => h.frame hf hk,
    fun _ _ _ _ _ hk hf hi hm hr => ⟨hr.1.kept (hm.kept_frame hf hk hi), hr.2⟩⟩

theorem rested_framed (full : Bool) (id : ServerID) :
    Framed full id (Rested full id) fun T s =>
      s.Sound full T ∧ (full = true → s.running = true → Up T s) := by
  refine ⟨fun _ _ _ hk hf h => h.frame hf hk, ?_⟩
  intro k T T' s b hk hf hi hm hr
  refine ⟨hr.1.kept (hm.kept_frame hf hk hi), fun hu hru => ?_⟩
  obtain ⟨r, hro, hcore, -⟩ := hm
  exact (hr.2 hu hru).frame hu hf hk (hi ▸ hro) hcore

end Ahead

section Tick

variable {full : Bool} {id : ServerID} {T T' : Scene}

theorem checkEach_turns
    (h : Ahead id (Checked full id) (fun T s => s.Sound full T ∧ s.running = true) todo T) :
    Turns full id T (checkEach cfg todo) fun T' _ => Checked full id T' := by
  induction todo generalizing T with
  | nil => exact .done (h.done (by simp))
  | cons s rest ih =>
    refine .call fun _ T1 hg => ?_
    have h1 := h.stirred (checked_framed full id) (hg.stirred (fun _ => rfl) rfl)
    have hf : Turns full id T1 (checkServerLiveness cfg s) fun T' _ => Frame full id s.id T1 T' :=
      does_frames (checkServerLiveness_does (.on s)) (h1.agrees s mem_cons_self)
    have ho : Turns full id T1 (checkServerLiveness cfg s) fun T' _ =>
        s.id = id → Checked full id T' := by
      by_cases hi : s.id = id
      · subst hi
        obtain ⟨hm, -, hco, hs, hr⟩ := h1.mine s mem_cons_self rfl
        exact (checkServerLiveness_turns hm hs hco hr).mono fun _ _ hc _ => hc
      · exact hf.mono fun _ _ _ hs => absurd hs hi
    simp only [Prog.bind_eq, Prog.done_bind]
    refine .bind ((hf.and ho).mono fun T2 _ he => .call fun _ T3 hg => ?_)
    have h2 := h1.left (checked_framed full id) he.1 he.2
    exact ih (h2.stirred (checked_framed full id) (hg.stirred (fun _ => rfl) rfl))

theorem markStatus_frame {status : Status} {r : Answer (.markStatus k status message)}
    (hg : T.Goes full id (.markStatus k status message) r T') : Frame full id k T T' := by
  obtain ⟨T1, hm, -, ha⟩ := hg
  obtain ⟨now, hro⟩ := ha.rows
  have hro : T'.rows = updateRow T1.rows k (·.marked status message) := hro
  refine (hm.frame k).trans ⟨?_, ?_,
    fun hf _ _ v h _ _ hup => ha.up hf h v (by simp [Call.halts]) hup,
    fun _ r hr => ha.kept r hr (by simp [Call.halts])⟩
  · intro j r hj hr
    exact ⟨r, by simp [hro, getElem?_updateRow, Ne.symm hj, hr], rfl⟩
  · intro hk r hr
    exact ⟨r, by simpa [hro, getElem?_updateRow, Ne.symm hk] using hr, rfl, rfl, rfl⟩

theorem Bare.errored {r : Answer (.markStatus s.id status message)} (h : Bare full T s)
    (hg : T.Goes full s.id (.markStatus s.id status message) r T') : Bare full T' s := by
  obtain ⟨hf, s', b, hi, hv, hm⟩ := h
  rw [← hi] at hg
  obtain ⟨-, hm'⟩ := hm.wrote hg (fun _ => rfl) (by simp)
  exact ⟨hf, s'.marked status message, b, hi, hv, hm'⟩

theorem reconcileEach_turns (h : Ahead id (Rested full id) (fun T s => s.Sound full T ∧
      (full = true → s.running = true → Up T s)) todo T) :
    Turns full id T (reconcileEach cfg todo) fun T' _ => Rested full id T' := by
  induction todo generalizing T with
  | nil => exact .done (h.done (by simp))
  | cons s rest ih =>
    refine .call fun _ T1 hg => ?_
    have h1 := h.stirred (rested_framed full id) (hg.stirred (fun _ => rfl) rfl)
    have hfr : Turns full id T1 (reconcile cfg s) fun T' _ => Frame full id s.id T1 T' :=
      does_frames (reconcile_does (.on s)) (h1.agrees s mem_cons_self)
    have ho : Turns full id T1 (reconcile cfg s) fun T' r =>
        s.id = id → (r = .ok () ∧ Rested full id T') ∨ Bare full T' s := by
      by_cases hi : s.id = id
      · subst hi
        obtain ⟨hm, hl, hc, hs, hup⟩ := h1.mine s mem_cons_self rfl
        exact (reconcile_turns hm hs hc hl hup).mono fun _ _ he _ => he
      · exact hfr.mono fun _ _ _ hs => absurd hs hi
    have hle : ∀ {T2}, Frame full id s.id T1 T2 → (s.id = id → Rested full id T2) →
        Turns full id T2 (do ask (.leave s.id); reconcileEach cfg rest)
          fun T' _ => Rested full id T' := by
      intro T2 hf ha
      refine .call fun _ T3 hg => ?_
      have h2 := h1.left (rested_framed full id) hf ha
      exact ih (h2.stirred (rested_framed full id) (hg.stirred (fun _ => rfl) rfl))
    simp only [Prog.bind_eq, Prog.done_bind]
    refine .bind ((hfr.and ho).mono fun T2 r he => ?_)
    cases r with
    | ok u =>
      refine hle he.1 fun hi => ?_
      rcases he.2 hi with ⟨-, hs⟩ | hb
      · exact hs
      · exact hi ▸ hb.rested
    | error e =>
      refine .call fun _ T3 hg => ?_
      refine hle (he.1.trans (markStatus_frame hg)) fun hi => ?_
      subst hi
      rcases he.2 rfl with ⟨hr, -⟩ | hb
      · cases hr
      · exact (hb.errored hg).rested

theorem Lists.mem (h : Lists rows p servers)
    (hl : (rows.filter p).length ≤ listLimit) (hr : r ∈ rows) (hp : p r = true) : r ∈ servers := by
  obtain ⟨order, rfl⟩ := h
  have hperm := order.perm (rows.filter p)
  rw [take_of_length_le (by rw [hperm.length_eq]; exact hl), hperm.mem_iff, mem_filter]
  exact ⟨hr, hp⟩

theorem checkLiveness_turns (hs : T.Sound full id) :
    Turns full id T (checkLiveness cfg) fun T' _ => Checked full id T' := by
  refine .call fun r T1 hg => ?_
  cases r with
  | error e => cases hg.well
  | ok servers =>
    have hs1 := hs.stirred (hg.stirred (fun _ => rfl) rfl)
    obtain ⟨T', -, hp, ha⟩ := hg
    obtain ⟨hli, hall⟩ := ha.said
    obtain ⟨now, hro⟩ := ha.rows
    have hro : T1.rows = T'.rows := hro
    have hme := hli
    obtain ⟨order, rfl⟩ := hme
    obtain ⟨hm, hd⟩ := listed hp.numbered order GameServer.running
    refine checkEach_turns ⟨?_, hd, ?_, ?_⟩
    · intro s hs
      rw [hro]
      exact agrees_of_mem hp.numbered (hm s hs).1
    · intro s hs hi
      obtain ⟨hs, hru⟩ := hm s hs
      have hrow : T1.rows[s.id]? = some s := hro ▸ hp.numbered.row hs
      refine ⟨⟨s, hrow, rfl, rfl, rfl⟩, ?_, hp.coherent s hs, hs1 s (hi ▸ hrow), hru⟩
      simp only [GameServer.running, Bool.and_eq_true, Bool.not_eq_true'] at hru
      exact hru.1.1
    · intro ho r hr
      refine ⟨hs1 r hr, fun hu hru => absurd ?_ ho⟩
      rw [hro] at hr
      rw [← hp.numbered id r hr]
      exact mem_map_of_mem (hli.mem (hall hu) (mem_of_getElem? hr) hru)

theorem running_of_not_reconcilable {r : GameServer} (h : r.reconcilable = false)
    (hl : r.deleted = false) : (r.desired = .running ∧ r.status = .running) ∨
      (r.desired = .stopped ∧ r.status = .stopped) := by
  simp only [GameServer.reconcilable, hl, Bool.not_false, Bool.true_and, Bool.or_eq_false_iff,
    Bool.and_eq_false_iff, decide_eq_false_iff_not, not_not] at h
  obtain ⟨⟨⟨hk, -⟩, hr⟩, hs⟩ := h
  cases hd : r.desired with
  | running => exact .inl ⟨rfl, hr.resolve_left fun hn => hn hd⟩
  | stopped => exact .inr ⟨rfl, hs.resolve_left fun hn => hn hd⟩
  | deleted => exact absurd hd hk

/-- A row that asks for no work and has been looked at is where it should be. -/
theorem GameServer.AtRest.of_idle {r : GameServer} (h : r.Sound full T)
    (hup : full = true → r.running = true → Up T r) (hc : r.Coherent) (hi : r.reconcilable = false) :
    r.AtRest full T := by
  cases hd : r.deleted with
  | true =>
    refine ⟨.inl ?_, fun hu => .inl ⟨hd, h.gone hu hd⟩⟩
    by_contra hv
    have hp := hc.placed (hc.hosted (Option.isSome_iff_ne_none.mpr hv))
    rw [hd] at hp
    cases hp
  | false =>
    rcases running_of_not_reconcilable hi hd with ⟨hde, hst⟩ | ⟨hde, hst⟩
    · refine ⟨.inr hst, fun hu => .inr ⟨hd, hi, fun _ => hup hu ?_, by simp [hde]⟩⟩
      simp [GameServer.running, hd, hst, hde]
    · exact ⟨.inl (hc.stopped hst),
        fun hu => .inr ⟨hd, hi, by simp [hde], fun _ => h.placed hu hst hde⟩⟩

/-- A tick in which what is asked for succeeds leaves the server where it should be. -/
theorem reconcileOnce_turns (hs : T.Sound full id) :
    Turns full id T (reconcileOnce cfg) fun T' _ => Rested full id T' := by
  refine .bind (Brings.mono (checkLiveness_turns hs) fun T1 _ hc => ?_)
  refine .call fun r T2 hg => ?_
  have hm : T1.Stirred full id T2 := hg.stirred (fun _ => rfl) rfl
  have hk : id ≠ id + 1 := Nat.ne_of_lt (Nat.lt_succ_self id)
  have hc2 := hc.frame hm.other hk
  cases r with
  | error e => cases hg.well
  | ok servers =>
    obtain ⟨T', -, hp, ha⟩ := hg
    obtain ⟨hli, hall⟩ := ha.said
    obtain ⟨now, hro⟩ := ha.rows
    have hro : T2.rows = T'.rows := hro
    have hme := hli
    obtain ⟨order, rfl⟩ := hme
    obtain ⟨hme, hd⟩ := listed hp.numbered order GameServer.reconcilable
    refine reconcileEach_turns ⟨?_, hd, ?_, ?_⟩
    · intro s hs
      rw [hro]
      exact agrees_of_mem hp.numbered (hme s hs).1
    · intro s hs hid
      obtain ⟨hs, hw⟩ := hme s hs
      have hrow : T2.rows[s.id]? = some s := hro ▸ hp.numbered.row hs
      refine ⟨⟨s, hrow, rfl, rfl, rfl⟩, ?_, hp.coherent s hs, hc2 s (hid ▸ hrow)⟩
      simp only [GameServer.reconcilable, Bool.and_eq_true, Bool.not_eq_true'] at hw
      exact hw.1
    · intro ho r hr
      have hr' : T'.rows[id]? = some r := hro ▸ hr
      have hmem := mem_of_getElem? hr'
      refine .of_idle (hc2 r hr).1 (hc2 r hr).2 (hp.coherent r hmem) ?_
      cases hw : r.reconcilable with
      | false => rfl
      | true =>
        refine absurd ?_ ho
        rw [← hp.numbered id r hr']
        exact mem_map_of_mem (hli.mem hall hmem hw)

end Tick

end Craftling.Control

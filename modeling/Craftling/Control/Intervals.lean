import Craftling.Control.Metering

namespace Craftling.Control
open Effects List

/-- The server in hand has lost its VM, and its interval is still to be closed. -/
def Fleet.Due (f : Fleet) (id : ServerID) : Prop :=
  ∃ w, f.cur = some w ∧ w.row.id = id ∧ w.due = true

/-- Rows that run have a VM, and so do those with an open interval, unless the interval is about to
be closed. Without a meter there are no intervals. -/
structure Billed (cfg : Config) (m : Metered) : Prop where
  housed : ∀ r ∈ m.fleet.rows, r.status = .running → r.vmID.isSome = true
  meter : ∀ id, opened m.usage id = true → cfg.meter = true
  bill : ∀ id, opened m.usage id = true → ∃ r, m.fleet.rows[id]? = some r ∧
    (r.vmID.isSome = true ∨ m.fleet.Due id)

section Writes

variable {d : Deployment} {f f' : Fleet} {l : Label} {w : Work} {e : Call} {cfg : Config}
    {g : GameServer → GameServer} {id : ServerID} {now : Time}

theorem Orderly.booted (h : Orderly d f) (hc : f.cur = some w) (hb : w.booted vm) :
    vm.isSome = true := by
  obtain ⟨own, hn⟩ := h.named
  obtain ⟨view, rfl, ⟨-, spec, -, hs⟩ | ⟨v, -, hs⟩⟩ := hb
  · obtain ⟨x, rfl, -⟩ := hn.said w _ view hc hs
    rfl
  · obtain ⟨x, rfl, -⟩ := hn.said w _ view hc hs
    rfl

section

variable (hm : w.may cfg e) (hw : e.writes now = some (id, g))
    (hb : ∀ vm, w.booted vm → vm.isSome = true) {r : GameServer}
include hm hw hb

theorem Work.writes_housed (h : r.status = .running → r.vmID.isSome = true) :
    (g r).status = .running → (g r).vmID.isSome = true := by
  cases e <;> cases hw
  case markLost =>
    simp only [GameServer.markedLost]
    split
    · simp
    · exact h
  case markHealth =>
    simp only [GameServer.markedHealth]
    split <;> exact h
  case markStatus => exact fun hs => absurd hs hm.2.2.1
  case markRunning => exact fun _ => hb _ hm.2.2.2.1
  case markStopped => simp [GameServer.markedStopped]
  case softDelete => simp [GameServer.softDeleted]
  all_goals exact h

/-- What a write takes the VM from is noted as due. -/
theorem Work.writes_due (h : r.vmID.isSome = true)
    {f : Fleet} (order : Order) :
    (g r).vmID.isSome = true ∨ (w.next e (f.answer none order e).1).due = true := by
  cases e <;> cases hw
  case markLost => exact .inr rfl
  case markStopped => exact .inr rfl
  case softDelete => exact .inr rfl
  case markRunning => exact .inl (hb _ hm.2.2.2.1)
  case markHealth =>
    left
    simp only [GameServer.markedHealth]
    split <;> exact h
  all_goals exact .inl h

end

theorem Work.next_due (h : w.due = true) (he : ∀ id, e ≠ .stopRunning id) (r : Answer e) :
    (w.next e r).due = true := by
  cases e <;> first | exact absurd rfl (he _) | exact h | (cases r <;> first | exact h | rfl)

theorem housed_step (h : Orderly d f) (hs : step d f l = some f')
    (hh : ∀ r ∈ f.rows, r.status = .running → r.vmID.isSome = true) :
    ∀ r ∈ f'.rows, r.status = .running → r.vmID.isSome = true := by
  have hm := step_rewrites hs
  generalize f'.rows = rows at hm
  have hed : ∀ {id : ServerID} {g : GameServer → GameServer},
      (∀ r, f.rows[id]? = some r → (g r).status = .running → (g r).vmID.isSome = true) →
      ∀ r ∈ updateRow f.rows id g, r.status = .running → r.vmID.isSome = true := by
    intro id g hg r hr
    obtain ⟨i, hi⟩ := mem_iff_getElem?.mp hr
    rw [getElem?_updateRow] at hi
    split at hi
    · rename_i hid
      obtain ⟨r0, hr0, rfl⟩ := Option.map_eq_some_iff.mp hi
      exact hg r0 (hid ▸ hr0)
    · exact hh r (mem_of_getElem? hi)
  cases hm with
  | same => exact hh
  | create n =>
    intro r hr
    rcases mem_append.mp hr with ho | hn
    · exact hh r ho
    · rw [mem_singleton.mp hn]
      simp [NewServer.row]
  | updateSpec i name version | setDesired i desired | requestBackup i =>
    exact hed fun r hr => hh r (mem_of_getElem? hr)
  | write order e k st id g ht hw =>
    have ha : st.allows d.cfg e := (h.informed.keeps _ ht).1
    obtain ⟨w, hc, hm, -, -⟩ := Stage.writes_cur ha hw
    have hcur : f.cur = some w := by simp [Fleet.cur, ht, hc]
    refine hed fun r hr => ?_
    exact Work.writes_housed hm hw (fun vm => h.booted hcur) (hh r (mem_of_getElem? hr))

end Writes

section Step

variable {d : Deployment} {m m' : Metered} {l : Label} {e : Call} {id : ServerID} {f : Fleet}

theorem opened_meters (ha : m.fleet.asks = some e) (hc : m.closes (.act fault order) = true)
    (ho : opened (m.fleet.meters m.usage (.act fault order)) id = true) :
    (opened m.usage id = true ∧ e ≠ .stopRunning id) ∨ e = .startRunning id := by
  unfold Metered.closes at hc
  unfold Fleet.meters at ho
  cases fault with
  | some text =>
    refine .inl ⟨ho, ?_⟩
    rintro rfl
    simp [ha] at hc
  | none =>
    simp only [ha] at ho
    split at ho
    · rename_i i hi
      cases hi
      rw [opened_startRunning, Bool.or_eq_true, decide_eq_true_eq] at ho
      rcases ho with rfl | ho
      · exact .inr rfl
      · exact .inl ⟨ho, by simp⟩
    · rename_i i hi
      cases hi
      rw [opened_stopRunning, Bool.and_eq_true, decide_eq_true_eq] at ho
      exact .inl ⟨ho.2, by simpa using Ne.symm ho.1⟩
    · rename_i hn
      exact .inl ⟨ho, fun he => hn id (by rw [he])⟩

theorem Billed.act (h : Billed d.cfg m) (ho : Orderly d m.fleet)
    (hs : m.step d (.act fault order) = some m') (hc : m.closes (.act fault order) = true)
    (hop : opened m'.usage id = true) :
    d.cfg.meter = true ∧ ∃ r, m'.fleet.rows[id]? = some r ∧
      (r.vmID.isSome = true ∨ m'.fleet.Due id) := by
  obtain ⟨hst, hu⟩ := Metered.step_eq hs
  obtain ⟨e, k, st, ht, -, hf'⟩ := actStep_eq hst
  have ha : m.fleet.asks = some e := by simp [Fleet.asks, ht, Prog.next?]
  have hal : st.allows d.cfg e := (ho.informed.keeps _ ht).1
  have hro : m'.fleet.rows = (m.fleet.answer fault order e).2.rows := by simp [hf']
  have hcu : m'.fleet.cur = (st.next e (m.fleet.answer fault order e).1).cur := by
    rw [hf']
    exact ho.informed.resume_cur ht _
  rw [hu] at hop
  rcases opened_meters ha hc hop with ⟨hopen, hne⟩ | rfl
  · have hmeter := h.meter id hopen
    refine ⟨hmeter, ?_⟩
    obtain ⟨r, hr, hb⟩ := h.bill id hopen
    -- what is due stays so until the interval is closed, and that is another server's
    have hdue : m.fleet.Due id → m'.fleet.Due id := by
      rintro ⟨w, hw, hid, hd⟩
      have hw : st.cur = some w := by simpa [Fleet.cur, ht] using hw
      rcases Stage.allows_cur hal hw with ⟨-, -, hp⟩ | ⟨hm, hn⟩
      · rw [hp hmeter] at hd
        cases hd
      · refine ⟨_, hcu.trans (hn _), (Work.next_id ..).trans hid, Work.next_due hd ?_ _⟩
        rintro i rfl
        exact hne (by rw [← hid, ← show i = w.row.id from hm])
    cases hw : e.writes m.fleet.clock with
    | none =>
      rw [answer_rows_of_not_writes hw] at hro
      exact ⟨r, by rw [hro, hr], hb.imp_right hdue⟩
    | some write =>
      obtain ⟨i, g⟩ := write
      cases fault with
      | some text =>
        rw [answer_rows_of_fault] at hro
        exact ⟨r, by rw [hro, hr], hb.imp_right hdue⟩
      | none =>
        rw [answer_rows_of_writes hw] at hro
        by_cases hi : i = id
        · subst hi
          refine ⟨g r, by simp [hro, getElem?_updateRow, hr], ?_⟩
          rcases hb with hv | hd
          · obtain ⟨w, hwc, hm, hid, hn⟩ := Stage.writes_cur hal hw
            have hcur : m.fleet.cur = some w := by simp [Fleet.cur, ht, hwc]
            refine (Work.writes_due hm hw (fun vm => ho.booted hcur) hv order).imp_right
              fun hd => ⟨_, hcu.trans (by rw [hn]), (Work.next_id ..).trans hid.symm, hd⟩
          · exact .inr (hdue hd)
        · exact ⟨r, by simp [hro, getElem?_updateRow, hi, hr], hb.imp_right hdue⟩
  · obtain ⟨w, hwc, hid, hmeter, hrun⟩ := hal
    have hcur : m.fleet.cur = some w := by simp [Fleet.cur, ht, hwc]
    obtain ⟨r, hr, hcore⟩ := ho.informed.row hcur
    refine ⟨hmeter, r, ?_, .inl (h.housed r (mem_of_getElem? hr) ?_)⟩
    · rw [hro, answer_rows_of_not_writes rfl, hid, hr]
    · exact (congrArg Core.status hcore).trans hrun

theorem Billed.same (h : Billed d.cfg m) (hu : m'.usage = m.usage)
    (hh : ∀ r ∈ m'.fleet.rows, r.status = .running → r.vmID.isSome = true)
    (hr : ∀ (i : Nat) r, m.fleet.rows[i]? = some r → ∃ r', m'.fleet.rows[i]? = some r' ∧
      r'.core = r.core)
    (hd : ∀ id, m.fleet.Due id → m'.fleet.Due id) : Billed d.cfg m' := by
  refine ⟨hh, by rw [hu]; exact h.meter, fun id hop => ?_⟩
  rw [hu] at hop
  obtain ⟨r, hri, hb⟩ := h.bill id hop
  obtain ⟨r', hr', hcore⟩ := hr id r hri
  refine ⟨r', hr', hb.imp (fun hv => ?_) (hd id)⟩
  rwa [vmID_of_core hcore]

theorem Fleet.Due.command {op : Op} {k : Answer (.command h op) → Act Unit} {i : Option Nat}
    {st : Stage} {g : Fleet} (hd : f.Due id) (hi : Informed d f)
    (ht : f.thread = some ⟨.call (.command h op) k, st, i⟩) (r : Except Err (Option VMView)) :
    (g.resume st (.command h op) k r).Due id := by
  obtain ⟨w, hw, hid, hd⟩ := hd
  have hw : st.cur = some w := by simpa [Fleet.cur, ht] using hw
  obtain ⟨w', hc', -⟩ := (hi.keeps _ ht).1
  refine ⟨w.next (.command h op) r, ?_, (Work.next_id ..).trans hid, Work.next_due hd (by simp) _⟩
  rw [hi.resume_cur ht]
  simp [Stage.next, hw]

/-- While no close fails, an open interval has a VM or its close is due. -/
theorem Billed.step (h : Billed d.cfg m) (ho : Orderly d m.fleet) (hs : m.step d l = some m')
    (hl : l.spares = true) (hc : m.closes l = true) : Billed d.cfg m' := by
  obtain ⟨hst, hu⟩ := Metered.step_eq hs
  have hh := housed_step ho hst h.housed
  have hsame : ∀ (i : Nat) r, m.fleet.rows[i]? = some r → ∃ r', m.fleet.rows[i]? = some r' ∧
      r'.core = r.core := fun _ r hr => ⟨r, hr, rfl⟩
  by_cases hre : l.isReconciler = true
  · cases l with
    | restartControl => cases hl
    | act fault order =>
      exact ⟨hh, fun id hop => (h.act ho hs hc hop).1, fun id hop => (h.act ho hs hc hop).2⟩
    | tick =>
      obtain ⟨hi, hf'⟩ := tick_eq hst
      refine h.same hu hh (by rw [hf']; exact hsame) ?_
      rintro id ⟨w, hw, -⟩
      simp [Fleet.cur, hi] at hw
    | issue =>
      obtain ⟨host, op, k, st, ht, ⟨-, hf'⟩ | ⟨c, -, hf'⟩⟩ := issueStep_eq hst
      · refine h.same hu hh (by rw [hf', Fleet.resume_rows]; exact hsame) fun id hd => ?_
        rw [hf']
        exact hd.command ho.informed ht _
      · refine h.same hu hh (by rw [hf']; exact hsame) ?_
        rintro id ⟨w, hw, hid, hd⟩
        exact ⟨w, by simpa [hf', Fleet.cur, ht] using hw, hid, hd⟩
    | collect =>
      obtain ⟨host, op, k, st, i, c, r, ht, -, -, hf'⟩ := collectStep_eq hst
      refine h.same hu hh (by rw [hf', Fleet.resume_rows]; exact hsame) fun id hd => ?_
      rw [hf']
      exact hd.command ho.informed ht r
    | expire =>
      obtain ⟨host, op, k, st, i, c, ht, -, -, -, hf'⟩ := expireStep_eq hst
      refine h.same hu hh (by rw [hf', Fleet.resume_rows]; exact hsame) fun id hd => ?_
      rw [hf']
      exact hd.command ho.informed ht _
    | _ => cases hre
  · have hre : l.isReconciler = false := by simpa using hre
    refine h.same ?_ hh (fun i r hr => (step_rows hst hre).core hr) ?_
    · rw [hu]
      cases l with
      | act fault order => cases hre
      | _ => rfl
    · rintro id ⟨w, hw, hid, hd⟩
      refine ⟨w, ?_, hid, hd⟩
      rwa [Fleet.cur, step_thread hst hre]

theorem Billed.init (cfg : Config) : Billed cfg .init := by
  constructor <;> simp [Metered.init, Fleet.init, opened]

end Step

end Craftling.Control

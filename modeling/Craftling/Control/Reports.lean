import Craftling.Control.Names

namespace Craftling.Control
open Effects

def Op.halts : Op → Option VMID
  | .stop v => some v
  | .evict v => some v
  | .deprovision v => some v
  | _ => none

def Agent.runs (a : Agent) (v : VMID) : Bool := (a.find v).any VM.running

section Agent

variable {a : Agent} {v w : VMID} {op : Op}

theorem Agent.find_update (hg : ∀ m, (g m).id = m.id) :
    (a.update w g).find v = (a.find v).map fun m => if m.id = w then g m else m := by
  unfold Agent.update Agent.find
  rw [List.find?_map]
  congr 2
  funext m
  simp only [Function.comp_apply]
  split
  · rw [hg]
  · rfl

theorem Agent.find_remove_ne (hn : w ≠ v) : (a.remove w).find v = a.find v := by
  unfold Agent.remove Agent.find
  rw [List.find?_filter]
  congr 1
  funext m
  by_cases hm : m.id = v
  · simp [hm, Ne.symm hn]
  · simp [hm]

/-- A VM that a step does not take down runs, and is up, if it was. -/
structure VM.Lasts (m m' : VM) : Prop where
  running : m.running = true → m'.running = true
  up : m.up = true → m'.up = true

theorem VM.Lasts.refl (m : VM) : m.Lasts m := ⟨fun h => h, fun h => h⟩

theorem Agent.exec_find (ho : op.halts ≠ some v) (h : a.find v = some m) :
    ∃ m', (a.exec info fresh o op).2.find v = some m' ∧ m.Lasts m' := by
  have hi := (Agent.find_eq_some h).2
  have hsame : a.find v = some m ∧ m.Lasts m := ⟨h, .refl m⟩
  cases op with
  | provision spec =>
    simp only [Agent.exec]
    split
    · exact ⟨m, hsame⟩
    split
    · exact ⟨m, hsame⟩
    · refine ⟨m, ?_, .refl m⟩
      unfold Agent.find at h ⊢
      rw [List.find?_append, h]
      rfl
  | start w =>
    simp only [Agent.exec]
    split
    · exact ⟨m, hsame⟩
    split
    · exact ⟨m, hsame⟩
    split
    · exact ⟨m, hsame⟩
    split
    · exact ⟨m, hsame⟩
    refine ⟨if m.id = w then { m with running := true, exited := false } else m, ?_, ?_⟩
    · dsimp only
      rw [Agent.find_update, h]
      · rfl
      · exact fun _ => rfl
    · split
      · exact ⟨fun _ => rfl, fun _ => rfl⟩
      · exact .refl m
  | stop w =>
    have hw : m.id ≠ w := fun he => ho (by rw [← hi, he]; rfl)
    have hf : (a.update w fun m => { m with running := false, exited := false }).find v = some m := by
      rw [Agent.find_update, h]
      · simp [hw]
      · exact fun _ => rfl
    simp only [Agent.exec]
    split
    · exact ⟨m, hsame⟩
    · split <;> exact ⟨m, hf, .refl m⟩
  | evict w | deprovision w =>
    have hw : w ≠ v := fun he => ho (by rw [he]; rfl)
    simp only [Agent.exec]
    split <;> first | exact ⟨m, hsame⟩ | exact ⟨m, (Agent.find_remove_ne hw).trans h, .refl m⟩
  | _ =>
    simp only [Agent.exec]
    split <;> exact ⟨m, hsame⟩

def Tells : Op → Option VMView → Prop
  | .provision _, view => ∃ x, view = some x ∧ x.state = .running
  | .start v, view => ∃ x, view = some x ∧ x.id = v ∧ x.state = .running
  | .status v, view => ∃ x, view = some x ∧ x.id = v
  | _, _ => True

theorem Agent.exec_tells {view : Option VMView} (hf : ∀ m ∈ a.vms, m.id ≠ fresh)
    (h : (a.exec info fresh o op).1 = .ok view) :
    Tells op view ∧ ∀ x, view = some x → x.state = .running →
      (a.exec info fresh o op).2.runs x.id = true := by
  cases op with
  | provision spec =>
    simp only [Agent.exec] at h ⊢
    split at h
    · cases h
    rename_i hr
    cases hfa : o.fault with
    | some err =>
      rw [hfa] at h
      cases h
    | none =>
      rw [hfa] at h
      cases h
      refine ⟨⟨_, rfl, rfl⟩, ?_⟩
      rintro x ⟨⟩ -
      rw [if_neg hr]
      have hn : a.vms.find? (·.id = fresh) = none := by simpa using hf
      simp [Agent.runs, Agent.find, VM.view, List.find?_append, hn]
  | start w =>
    simp only [Agent.exec] at h ⊢
    split at h
    · cases h
    rename_i m hfi
    have hi := (Agent.find_eq_some hfi).2
    split at h
    · rename_i hru
      cases h
      refine ⟨⟨_, rfl, hi, by simp [VM.view, hru]⟩, ?_⟩
      rintro x ⟨⟩ -
      simp [hru, Agent.runs, VM.view, hi, hfi]
    rename_i hru
    split at h
    · cases h
    rename_i hr
    cases hfa : o.fault with
    | some err =>
      rw [hfa] at h
      cases h
    | none =>
      rw [hfa] at h
      cases h
      refine ⟨⟨_, rfl, hi, rfl⟩, ?_⟩
      rintro x ⟨⟩ -
      rw [if_neg hru, if_neg hr]
      unfold Agent.runs
      dsimp only [VM.view]
      rw [Agent.find_update, hi, hfi]
      · simp [hi]
      · exact fun _ => rfl
  | status w =>
    simp only [Agent.exec] at h ⊢
    split at h
    · cases h
      refine ⟨⟨_, rfl, rfl⟩, ?_⟩
      rintro x ⟨⟩ hs
      cases hs
    rename_i m hfi
    have hi := (Agent.find_eq_some hfi).2
    cases h
    refine ⟨⟨_, rfl, hi⟩, ?_⟩
    rintro x ⟨⟩ hs
    have hru : m.running = true := by
      cases hm : m.running with
      | true => rfl
      | false => simp [VM.view, hm] at hs
    simp [Agent.runs, VM.view, hi, hfi, hru]
  | stop w =>
    refine ⟨trivial, ?_⟩
    simp only [Agent.exec] at h
    rintro x rfl
    split at h
    · cases h
    · split at h <;> cases h
  | snapshot w | whitelist w names =>
    refine ⟨trivial, ?_⟩
    simp only [Agent.exec] at h
    rintro x rfl
    split at h
    · cases h
    · cases h
    · split at h <;> cases h
  | _ =>
    refine ⟨trivial, ?_⟩
    simp only [Agent.exec] at h
    rintro x rfl
    split at h <;> cases h

end Agent

def Fleet.reports (f : Fleet) (h : HostID) (v : VMID) : Bool :=
  f.streams.any fun s => s.host = some h && (f.agents s.agent).runs v

/-- No command that may yet be carried out takes a VM down or brings one up, but the one that
the reconciler waits for. -/
def Sole (f : Fleet) : Prop :=
  ∀ (i : Nat) c, f.calls[i]? = some c → c.pending = true → c.op.isStatus = false →
    c.op.isOther = false → f.awaited = some i

section Step

variable {v : VMID}

theorem Sole.step (h : Sole f) (hw : Waits f) (hs : step d f l = some f')
    (hl : l ≠ .restartControl) : Sole f' := by
  intro i c' hc' hp hst ho
  refine pending_step hw hs hl hc' hp hst ho fun c hc hco hpe => ?_
  exact h i c hc hpe (by rw [hco]; exact hst) (by rw [hco]; exact ho)

theorem Sole.init : Sole .init := fun i c hc => by simp [Fleet.init] at hc

/-- A VM stays with its agent, unless the agent restarts or is told to take it down. -/
theorem step_find (hs : step d f l = some f') (hl : l ≠ .restartAgent a)
    (h : (f.agents a).find v = some m) :
    (∃ m', (f'.agents a).find v = some m' ∧ (m.running = true → m'.running = true) ∧
        ((∀ b, l ≠ .exit b v) → m.up = true → m'.up = true)) ∨
      ∃ i o c, l = .exec i o ∧ f.calls[i]? = some c ∧ c.cmd = .carried ∧ c.op.halts = some v := by
  have hk : f'.agents a = f.agents a → ∃ m', (f'.agents a).find v = some m' ∧
      (m.running = true → m'.running = true) ∧
      ((∀ b, l ≠ .exit b v) → m.up = true → m'.up = true) := by
    intro he
    rw [he]
    exact ⟨m, h, id, fun _ => id⟩
  by_cases hh : l.onHost = false
  · exact .inl (hk (by rw [(step_offHost hs hh).1]))
  cases l with
  | exec i o =>
    obtain ⟨c, s, hc, hcm, -, rfl⟩ := execStep_eq hs
    by_cases ho : c.op.halts = some v
    · exact .inr ⟨i, o, c, rfl, hc, hcm, ho⟩
    left
    simp only [Fleet.setAgent, Fleet.setCall] at hk ⊢
    split
    · rename_i ha
      subst ha
      obtain ⟨m', hf', hla⟩ := Agent.exec_find ho h
      exact ⟨m', hf', hla.running, fun _ => hla.up⟩
    · exact ⟨m, h, id, fun _ => id⟩
  | restartAgent b =>
    cases hs
    refine .inl (hk ?_)
    simp only [Fleet.restartAgent, Fleet.setAgent]
    exact if_neg fun hab => hl (by rw [hab])
  | exit b w =>
    cases hs
    left
    simp only [Fleet.setAgent] at hk ⊢
    split
    · rename_i ha
      subst ha
      rw [Agent.find_update, h]
      · refine ⟨_, rfl, ?_, fun hno => ?_⟩ <;> dsimp only
        · split <;> exact id
        · have hw : m.id ≠ w := fun he => hno a (by rw [← (Agent.find_eq_some h).2, he])
          rw [if_neg hw]
          exact id
      · exact fun _ => rfl
    · exact ⟨m, h, id, fun _ => id⟩
  | sweep b w => obtain ⟨m', -, -, rfl⟩ := sweepStep_eq hs; exact .inl (hk rfl)
  | put i => exact .inl (hk (by rw [(put_eq hs).2]))
  | _ => exact absurd rfl hh

theorem step_runs (hs : step d f l = some f') (hl : ∀ a, l ≠ .restartAgent a)
    (h : (f.agents a).runs v = true) :
    (f'.agents a).runs v = true ∨
      ∃ i o c, l = .exec i o ∧ f.calls[i]? = some c ∧ c.cmd = .carried ∧ c.op.halts = some v := by
  unfold Agent.runs at h ⊢
  rw [Option.any_eq_true] at h
  obtain ⟨m, hm, hr⟩ := h
  refine (step_find hs (hl a) hm).imp_left ?_
  rintro ⟨m', hm', hr', -⟩
  rw [hm']
  exact hr' hr

section

variable (hw : Wired f) (hs : step d f l = some f') (hl : l ≠ .restartControl)
include hw hs hl

theorem step_stream {k : Nat}
    (hk : f.streams[k]? = some s) (hh : s.host = some h) :
    ∃ s', f'.streams[k]? = some s' ∧ s'.host = some h ∧ s'.agent = s.agent := by
  obtain ⟨s', hk', hm⟩ := (step_streams hs hl).old k s hk
  exact ⟨s', hk', hm.host hh (hw.late k s h hk hh), hm.agent⟩

theorem step_reports (ha : ∀ a, l ≠ .restartAgent a) (hup : f.reports h v = true) :
    f'.reports h v = true ∨
      ∃ i o c, l = .exec i o ∧ f.calls[i]? = some c ∧ c.cmd = .carried ∧ c.op.halts = some v := by
  unfold Fleet.reports at hup ⊢
  simp only [List.any_eq_true, Bool.and_eq_true, decide_eq_true_eq] at hup ⊢
  obtain ⟨s, hs0, hh, hr⟩ := hup
  obtain ⟨k, hk⟩ := List.mem_iff_getElem?.mp hs0
  obtain ⟨s', hk', hh', ha'⟩ := step_stream hw hs hl hk hh
  rcases step_runs hs ha hr with hst | ht
  · exact .inl ⟨s', List.mem_of_getElem? hk', hh', by rw [ha']; exact hst⟩
  · exact .inr ht

end

def Told (f : Fleet) : Prop :=
  ∀ c ∈ f.calls, ∀ view, c.cmd = .executed (.ok view) → Tells c.op view

def Truthful (f : Fleet) : Prop :=
  ∀ i c s x, f.awaited = some i → f.calls[i]? = some c → c.cmd = .executed (.ok (some x)) →
    x.state = .running → f.streams[c.conn]? = some s → (f.agents s.agent).runs x.id = true

theorem fresh_of_named (h : Named f) (a : AgentID) : ∀ m ∈ (f.agents a).vms, m.id ≠ f.nextVM := by
  obtain ⟨own, hn⟩ := h
  intro m hm
  exact Nat.ne_of_lt (hn.vms a m hm).1

theorem Told.step (h : Told f) (hn : Named f) (hs : step d f l = some f') : Told f' := by
  intro c' hc' view hd
  obtain ⟨i, hi⟩ := List.mem_iff_getElem?.mp hc'
  rcases step_executed hs hi hd with ⟨c, hc, ho, hol⟩ | ⟨o, c, s, -, hc, -, ho, -, -, hr⟩
  · rw [← ho]
    exact h c (List.mem_of_getElem? hc) view hol
  · rw [← ho]
    exact (Agent.exec_tells (fresh_of_named hn s.agent) hr).1

theorem Told.init : Told .init := by
  intro c hc
  cases hc

theorem Op.plain_of_halts {op : Op} (h : op.halts = some v) :
    op.isStatus = false ∧ op.isOther = false := by
  cases op <;> first | cases h; done | exact ⟨rfl, rfl⟩

theorem Truthful.step (h : Truthful f) (hn : Named f) (hw : Waits f) (hwi : Wired f)
    (hso : Sole f) (hs : step d f l = some f') (hl : l ≠ .restartControl)
    (ha : ∀ a, l ≠ .restartAgent a) : Truthful f' := by
  intro i c' s' x hi hc' hd hst hs'
  rcases step_awaited hs hi with ⟨ht, hre⟩ | ⟨c2, hc2, hu⟩
  · have hi0 : f.awaited = some i := by rwa [Fleet.awaited, ht] at hi
    obtain ⟨c, hc, ho, hm⟩ := awaited_call hs hre hw hi0 hc'
    obtain ⟨s, host, hstr, hh⟩ := hwi.calls i c hc
    obtain ⟨s2, hs2, -, ha2⟩ := step_stream hwi hs hl hstr hh
    rw [hm.conn, hs2] at hs'
    cases hs'
    rw [ha2]
    rcases step_executed hs hc' hd with
      ⟨c1, hc1, -, hol⟩ | ⟨o, c1, s1, rfl, hc1, -, -, hs1, -, hr⟩
    · rw [hc] at hc1
      cases hc1
      rcases step_runs hs ha (h i c s x hi0 hc hol hst hstr) with
        hsti | ⟨j, o, c2, -, hc2, hca, hha⟩
      · exact hsti
      -- a command that takes a VM down is the awaited one, which has been carried out
      obtain ⟨hsta, hot⟩ := Op.plain_of_halts hha
      have hj := hso j c2 hc2 (by simp [HubCall.pending, hca]) hsta hot
      rw [hi0] at hj
      cases hj
      rw [hc] at hc2
      cases hc2
      rw [hol] at hca
      cases hca
    · rw [hc] at hc1
      cases hc1
      rw [hstr] at hs1
      cases hs1
      obtain ⟨c3, s3, hc3, -, hs3, rfl⟩ := execStep_eq hs
      rw [hc] at hc3
      cases hc3
      rw [hstr] at hs3
      cases hs3
      have hru := (Agent.exec_tells (fresh_of_named hn s.agent) hr).2 x rfl hst
      simpa [Fleet.setAgent, Fleet.setCall] using hru
  · rw [hc'] at hc2
    cases hc2
    rw [hd] at hu
    cases hu

end Step

end Craftling.Control

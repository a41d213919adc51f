import Craftling.Control.Hub

namespace Craftling.Control
open Effects Option

variable {d : Deployment} {f : Fleet} {c : HubCall} {l : Label} {i : Nat}

theorem CallMove.not_over (h : CallMove f l i c c') (hc : c.phase ≠ .ended) (hl : ¬ l.finishes f i) :
    c'.phase ≠ .ended := by
  cases h with
  | same => exact hc
  | send _ _ _ => simp
  | fail _ _ => simp
  | exec _ _ _ | lose _ | deliver _ _ _ _ _ _ => exact hc
  | finish hf _ => exact absurd hf hl

def Awaiting (f : Fleet) : Prop :=
  ∀ t i, f.thread = some t → t.call = some i →
    ∃ h op k, t.prog = .call (.command h op) k ∧ ∃ c, f.calls[i]? = some c ∧ c.phase ≠ .ended

section Step

variable {d : Deployment} {f f' : Fleet} {l : Label}

theorem Fleet.resume_call (h : (f.resume st e k r).thread = some t) : t.call = none := by
  unfold Fleet.resume at h
  split at h
  · cases h
  · cases h
    rfl

theorem Awaiting.resume (st : Stage) (e : Call) (k : Answer e → Act Unit) (r : Answer e) :
    Awaiting (f.resume st e k r) := by
  intro t i ht hi
  rw [Fleet.resume_call ht] at hi
  cases hi

theorem Awaiting.step (h : Awaiting f) (hs : step d f l = some f') : Awaiting f' := by
  by_cases hr : l.isReconciler = false
  · have hth := step_thread hs hr
    intro t i ht hi
    rw [hth] at ht
    obtain ⟨h', op, k, hp, c, hc, hph⟩ := h t i ht hi
    have hl : l ≠ .restartControl := by
      rintro rfl
      cases hr
    obtain ⟨c', hc', hm⟩ := (step_calls hs hl).old i c hc
    refine ⟨h', op, k, hp, c', hc', hm.not_over hph ?_⟩
    have ha : f.awaited = some i := by simp [Fleet.awaited, ht, hi]
    intro hf
    cases l with
    | otherDone j => exact hf.2 ha
    | collect | expire => cases hr
    | _ => exact hf
  · cases l with
    | tick =>
      simp only [Control.step] at hs
      split at hs <;> cases hs
      intro t i ht hi
      cases ht
      cases hi
    | act fault order =>
      obtain ⟨e, k, st, -, -, rfl⟩ := actStep_eq hs
      exact .resume _ _ _ _
    | issue =>
      obtain ⟨host, op, k, st, -, ⟨-, rfl⟩ | ⟨c, -, rfl⟩⟩ := issueStep_eq hs
      · exact .resume _ _ _ _
      · intro t i ht hi
        cases ht
        cases hi
        exact ⟨host, op, k, rfl, ⟨c, op, op.isStatus, .picked, .unsent, none⟩, by simp, by simp⟩
    | collect =>
      obtain ⟨host, op, k, st, i, c, r, -, -, -, rfl⟩ := collectStep_eq hs
      exact .resume _ _ _ _
    | expire =>
      obtain ⟨host, op, k, st, i, c, -, -, -, -, rfl⟩ := expireStep_eq hs
      exact .resume _ _ _ _
    | restartControl =>
      cases hs
      intro t i ht
      cases ht
    | _ => simp [Label.isReconciler] at hr

end Step

def Answered (f : Fleet) : Prop :=
  ∀ (i : Nat) c s, f.calls[i]? = some c → f.streams[c.conn]? = some s → s.phase = .returned →
    c.phase = .sent → c.result.isSome ∨ c.deadline = true

/-- No handler returns before the calls without a deadline that have sent their commands
on its connection are answered. -/
def AnsweredFirst (f : Fleet) : Label → Prop
  | .markDown k => ∀ c ∈ f.calls, c.conn = k → c.phase = .sent → c.result.isSome ∨ c.deadline = true
  | _ => True

variable {f' : Fleet}

theorem Answered.step (hw : Wired f) (h : Answered f) (hs : step d f l = some f')
    (ho : AnsweredFirst f l) : Answered f' := by
  intro i c' s' hc' hs' hr hse
  by_cases hl : l = .restartControl
  · subst hl
    cases hs
    simp only [Fleet.restartControl, List.getElem?_map, map_eq_some_iff] at hc'
    obtain ⟨c, -, rfl⟩ := hc'
    cases hse
  rcases (step_calls hs hl).new i c' hc' with ⟨c, hc, hm⟩ | ⟨-, hpi, -⟩
  · obtain ⟨s, host, hst, hh⟩ := hw.calls i c hc
    have hla := hw.late c.conn s host hst hh
    obtain ⟨s'', hs'', hsm⟩ := (step_streams hs hl).old c.conn s hst
    rw [hm.conn] at hs'
    rw [hs'] at hs''
    cases hs''
    by_cases hr0 : s.phase = .returned
    · -- The handler had returned before: nothing is sent or delivered any more.
      cases hm with
      | same => exact h i _ s hc hst hr0 hse
      | send _ hst' hn =>
        rw [hst] at hst'
        cases hst'
        exact absurd hr0 hn
      | fail _ _ => cases hse
      | exec r _ _ _ | lose _ => exact h i c s hc hst hr0 hse
      | deliver r _ _ _ _ _ => exact .inl rfl
      | finish _ _ => cases hse
    · -- The handler returns with this step.
      obtain ⟨rfl⟩ : l = .markDown c.conn := by
        cases hsm with
        | same => exact absurd hr hr0
        | refuse hp => simp [hp, StreamPhase.early] at hla
        | markDown hl _ => exact hl
        | _ => cases hr
      have hca : f'.calls = f.calls := by
        simp only [Control.step, markDownStep] at hs
        split at hs <;> cases hs
        rfl
      rw [hca] at hc'
      exact ho c' (List.mem_of_getElem? hc') hm.conn hse
  · rw [hpi] at hse
    cases hse

instance (f : Fleet) (l : Label) : Decidable (AnsweredFirst f l) := by
  cases l <;> unfold AnsweredFirst <;> infer_instance

/-- What the claim of an outcome means for a call: one that has yet to send its command
cannot get it sent and so fails, one that waits has its result or will see its context
end. -/
def HasOutcome (f : Fleet) (i : Nat) (c : HubCall) : Prop :=
  match c.phase with
  | .picked => sendStep f i true = none ∧ (sendStep f i false).isSome
  | .sent => c.result.isSome ∨ c.deadline = true
  | .sendFailed => c.outcome.isSome
  | .ended => True

/-- The reconciler can go on: with its call's outcome, with its context's end, or with the
error of the send that it is about to make. -/
def CanGoOn (d : Deployment) (f : Fleet) (i : Nat) : Prop :=
  (step d f .collect).isSome ∨ (step d f .expire).isSome ∨
    ∃ f', step d f (.send i false) = some f' ∧ (step d f' .collect).isSome

theorem sendStep_fails (hc : f.calls[i]? = some c) (hp : c.phase = .picked) :
    sendStep f i false = some (f.setCall i { c with phase := .sendFailed }) := by
  simp [sendStep, hc, hp]

theorem Answered.hasOutcome (h : Answered f) (hc : f.calls[i]? = some c)
    (hs : f.streams[c.conn]? = some s) (hr : s.phase = .returned) : HasOutcome f i c := by
  unfold HasOutcome
  cases hp : c.phase with
  | picked => exact ⟨by simp [sendStep, hc, hp, hs, hr], by simp [sendStep_fails hc hp]⟩
  | sent => exact h i c s hc hs hr hp
  | sendFailed => simp [HubCall.outcome, hp]
  | ended => trivial

theorem HasOutcome.canGoOn (hw : Awaiting f) (ht : f.thread = some t) (hi : t.call = some i)
    (hc : f.calls[i]? = some c) (h : HasOutcome f i c) : CanGoOn d f i := by
  obtain ⟨host, op, k, hpr, c', hc', hl⟩ := hw t i ht hi
  rw [hc] at hc'
  cases hc'
  obtain ⟨prog, st, call⟩ := t
  obtain rfl : prog = .call (.command host op) k := hpr
  obtain rfl : call = some i := hi
  have hco : c.outcome.isSome → (step d f .collect).isSome := by
    intro ho
    obtain ⟨r, hr⟩ := isSome_iff_exists.mp ho
    simp [step, collectStep, ht, hc, hr]
  unfold HasOutcome at h
  cases hp : c.phase with
  | picked =>
    refine .inr (.inr ⟨_, sendStep_fails hc hp, ?_⟩)
    have hlt : i < f.calls.length := (List.getElem?_eq_some_iff.mp hc).1
    simp [step, collectStep, Fleet.setCall, ht, hlt, HubCall.outcome]
  | sent =>
    simp only [hp] at h
    rcases h with hre | hd
    · obtain ⟨r, hr⟩ := isSome_iff_exists.mp hre
      exact .inl (hco (by cases r <;> simp [HubCall.outcome, hp, hr]))
    · exact .inr (.inl (by simp [step, expireStep, ht, hc, hd, hp]))
  | sendFailed => exact .inl (hco (by simp [HubCall.outcome, hp]))
  | ended => exact absurd hp hl

theorem Answered.init : Answered .init := by
  intro i c s hc
  simp [Fleet.init] at hc

theorem Awaiting.init : Awaiting .init := by
  intro t i ht
  cases ht

/-- As long as no handler returns before the calls without a deadline that it has sent
commands for are answered, every call on a connection whose handler has returned has an
outcome, and the reconciler is never stuck on an agent that went away. -/
theorem calls_end_with_stream (d : Deployment) (f : Fleet)
    (hrun : Reaches (step d) (fun f l _ => AnsweredFirst f l) .init f) (i : Nat) (c : HubCall)
    (hc : f.calls[i]? = some c) (s : Stream) (hs : f.streams[c.conn]? = some s)
    (hret : s.phase = .returned) :
    HasOutcome f i c ∧ (f.awaited = some i → CanGoOn d f i) := by
  have hinv : Wired f ∧ Answered f ∧ Awaiting f := by
    refine hrun.invariant (I := fun f => Wired f ∧ Answered f ∧ Awaiting f) ⟨.init, .init, .init⟩ ?_
    rintro f l f' ⟨hw, ha, hwait⟩ hstep hok
    exact ⟨hw.step hstep, ha.step hw hstep hok, hwait.step hstep⟩
  obtain ⟨-, hanswered, hwait⟩ := hinv
  have hout := hanswered.hasOutcome hc hs hret
  refine ⟨hout, fun hi => ?_⟩
  cases ht : f.thread with
  | none => simp [Fleet.awaited, ht] at hi
  | some t =>
    have hcall : t.call = some i := by simpa [Fleet.awaited, ht] using hi
    exact hout.canGoOn hwait ht hcall hc

/-- The reconciler waits for a reply that nobody can bring any more. -/
def Stranded (f : Fleet) (i : Nat) : Prop :=
  f.awaited = some i ∧ ∃ c s, f.calls[i]? = some c ∧ f.streams[c.conn]? = some s ∧
    s.phase = .returned ∧ c.phase = .sent ∧ c.result = none ∧ c.deadline = false

theorem Stranded.step (h : Stranded f i) (hs : step d f l = some f') (hl : l ≠ .restartControl) :
    Stranded f' i := by
  obtain ⟨hi, c, s, hc, hst, hre, hse, hres, hd⟩ := h
  have ho : c.outcome = none := by simp [HubCall.outcome, hse, hres]
  have hsta : c.outcome.isSome ∨ (c.deadline = true ∧ c.phase = .sent) → False := by
    simp [ho, hd]
  obtain ⟨t, ht, hca⟩ : ∃ t, f.thread = some t ∧ t.call = some i := by
    simpa [Fleet.awaited, bind_eq_some_iff] using hi
  have hth : f'.thread = f.thread := by
    by_cases hrec : l.isReconciler = false
    · exact step_thread hs hrec
    cases l with
    | tick => simp [Control.step, ht] at hs
    | act fault order =>
      obtain ⟨e, k, st, ht', -⟩ := actStep_eq hs
      rw [ht] at ht'
      cases ht'
      cases hca
    | issue =>
      obtain ⟨host, op, k, st, ht', -⟩ := issueStep_eq hs
      rw [ht] at ht'
      cases ht'
      cases hca
    | collect =>
      obtain ⟨host, op, k, st, j, c', r, ht', hc', hr, -⟩ := collectStep_eq hs
      rw [ht] at ht'
      cases ht'
      cases hca
      rw [hc] at hc'
      cases hc'
      simp [ho] at hr
    | expire =>
      obtain ⟨host, op, k, st, j, c', ht', hc', hd', -, -⟩ := expireStep_eq hs
      rw [ht] at ht'
      cases ht'
      cases hca
      rw [hc] at hc'
      cases hc'
      simp [hd] at hd'
    | restartControl => exact absurd rfl hl
    | _ => simp [Label.isReconciler] at hrec
  have hi' : f'.awaited = some i := by
    unfold Fleet.awaited at hi ⊢
    rw [hth]
    exact hi
  obtain ⟨c', hc', hm⟩ := (step_calls hs hl).old i c hc
  obtain ⟨s', hs', hsm⟩ := (step_streams hs hl).old c.conn s hst
  obtain rfl := hsm.returned hre
  have hk : c'.phase = .sent ∧ c'.result = none := by
    cases hm with
    | same => exact ⟨hse, hres⟩
    | send hp _ _ | fail _ hp => simp [hse] at hp
    | exec r _ _ _ | lose _ => exact ⟨hse, hres⟩
    | deliver r hst' hser _ _ _ =>
      rw [hst] at hst'
      cases hst'
      simp [hre] at hser
    | finish _ he => exact absurd he hsta
  exact ⟨hi', c', s', hc', by rw [hm.conn]; exact hs', hre, hk.1, hk.2, hm.deadline.trans hd⟩

def Label.isRestart : Label → Bool
  | .restartControl => true
  | _ => false

theorem Stranded.forever (h : Stranded f i)
    (hr : Reaches (Control.step d) (fun _ l _ => l.isRestart = false) f f') : Stranded f' i := by
  refine hr.invariant (I := fun g => Stranded g i) h ?_
  intro g l g' hg hs hl
  refine hg.step hs ?_
  rintro rfl
  cases hl

theorem calls_end_with_stream_answered :
    ∃ f c, Reaches (step oneHost) (fun f l _ => AnsweredFirst f l) .init f ∧
      f.calls[0]? = some c ∧ HasOutcome f 0 c ∧ f.awaited = some 0 ∧ CanGoOn oneHost f 0 := by
  have h := Reaches.exists_run (step oneHost) (fun f l _ => AnsweredFirst f l) .init
    (toProvision ++ [.exec 0 .fine, .deliver 0, .streamEnd 0, .remove 0, .markDown 0])
    (fun f => f.calls[0]?.isSome && f.awaited = some 0 &&
      f.calls[0]?.all fun c => (f.streams[c.conn]?).any fun s => s.phase = .returned)
    (by decide +kernel)
  obtain ⟨f, hrun, hf⟩ := h
  simp only [Bool.and_eq_true, decide_eq_true_eq] at hf
  obtain ⟨⟨hsome, hi⟩, hall⟩ := hf
  obtain ⟨c, hc⟩ := isSome_iff_exists.mp hsome
  rw [hc] at hall
  simp only [all_some, any_eq_true, decide_eq_true_eq] at hall
  obtain ⟨s, hs, hret⟩ := hall
  obtain ⟨hout, hgo⟩ := calls_end_with_stream oneHost f hrun 0 c hc s hs hret
  exact ⟨f, c, hrun, hc, hout, hi, hgo hi⟩

/-- The stream ends between the command and its result. -/
theorem lost_reply_strands_reconciler : ∃ f, Reaches (step oneHost) (fun _ _ _ => True) .init f ∧
      ∀ f', Reaches (step oneHost) (fun _ l _ => l.isRestart = false) f f' → Stranded f' 0 := by
  have h := Reaches.exists_run (step oneHost) (fun _ _ _ => True) .init
    (toProvision ++ [.exec 0 .fine, .streamEnd 0, .remove 0, .markDown 0])
    (fun f => f.awaited = some 0 && f.calls[0]?.any fun c => c.phase = .sent && c.result.isNone &&
      !c.deadline && (f.streams[c.conn]?).any fun s => s.phase = .returned)
    (by decide +kernel)
  obtain ⟨f, hrun, hf⟩ := h
  refine ⟨f, hrun, fun f' hrun' => Stranded.forever ?_ hrun'⟩
  simp only [Bool.and_eq_true, decide_eq_true_eq, any_eq_true, isNone_iff_eq_none,
    Bool.not_eq_true'] at hf
  obtain ⟨hi, c, hc, ⟨⟨hsent, hres⟩, hdl⟩, s, hs, hret⟩ := hf
  exact ⟨hi, c, s, hc, hs, hret, hsent, hres, hdl⟩

end Craftling.Control

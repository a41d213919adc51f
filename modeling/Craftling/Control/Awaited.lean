import Craftling.Control.Informed
import Craftling.Control.Machines

namespace Craftling.Control
open Effects List

structure HubCall.Fits (c : HubCall) : Prop where
  unsent : c.phase = .picked ∨ c.phase = .sendFailed → c.cmd = .unsent
  result : ∀ r, c.result = some r → c.cmd = .executed r

section Call

variable {f : Fleet} {l : Label} {i : Nat} {c c' : HubCall}

theorem HubCall.Fits.move (h : c.Fits) (hm : CallMove f l i c c') : c'.Fits := by
  cases hm with
  | same => exact h
  | send hpi _ _ =>
    refine ⟨by simp, fun r hr => ?_⟩
    have hs := h.result r hr
    rw [h.unsent (.inl hpi)] at hs
    cases hs
  | fail _ hpi => exact ⟨fun _ => h.unsent (.inl hpi), h.result⟩
  | exec r _ hc _ | lose hc =>
    refine ⟨fun hp => ?_, fun r' hr => ?_⟩
    · have hu := h.unsent hp
      rw [hc] at hu
      cases hu
    · have hd := h.result r' hr
      rw [hc] at hd
      cases hd
  | deliver r _ _ _ _ hd =>
    refine ⟨h.unsent, fun r' hr => ?_⟩
    cases hr
    exact hd
  | finish _ _ => exact ⟨by simp, h.result⟩

theorem HubCall.Fits.outcome_ok (h : c.Fits) {view : Option VMView}
    (ho : c.outcome = some (.ok view)) : c.cmd = .executed (.ok view) := by
  unfold HubCall.outcome at ho
  split at ho <;> cases ho
  rename_i hr
  exact h.result _ hr

theorem HubCall.Fits.outcome_done (h : c.Fits) (ho : c.outcome = some r) : c.cmd ≠ .carried := by
  unfold HubCall.outcome at ho
  split at ho
  · rename_i hp
    rw [h.unsent (.inr hp)]
    simp
  · rename_i hr
    rw [h.result _ hr]
    simp
  · rename_i hr
    rw [h.result _ hr]
    simp
  · cases ho

end Call

/-- The reconciler waits for the call that it has made, which went to the host that it
meant. -/
structure Waits (f : Fleet) : Prop where
  fits : ∀ c ∈ f.calls, c.Fits
  call : ∀ t i, f.thread = some t → t.call = some i → ∃ h op k c s,
    t.prog = .call (.command h op) k ∧ f.calls[i]? = some c ∧ c.op = op ∧
    c.deadline = op.isStatus ∧ f.streams[c.conn]? = some s ∧ s.host = some h

/-- The reconciler waits for the call that it has made, which went to the host that it
meant, and no other call can bring a VM up. -/
structure Awaits (f : Fleet) : Prop extends waits : Waits f where
  provision : ∀ (i : Nat) c spec, f.calls[i]? = some c → c.op = .provision spec →
    c.pending = true → f.awaited = some i

section Step

variable {f f' : Fleet} {l : Label} {i : Nat}

theorem awaited_of_thread (ht : f.thread = some t) (hi : t.call = some i) : f.awaited = some i := by
  simp [Fleet.awaited, ht, hi]

theorem resume_awaited : (f.resume st e k r).awaited = none := by
  unfold Fleet.resume
  split <;> rfl

theorem fits_step (h : ∀ c ∈ f.calls, c.Fits) (hs : step d f l = some f') :
    ∀ c ∈ f'.calls, c.Fits := by
  intro c' hc'
  by_cases hl : l = .restartControl
  · subst hl
    cases hs
    obtain ⟨c, hc, rfl⟩ := mem_map.mp hc'
    exact ⟨by simp, (h c hc).result⟩
  obtain ⟨i, hi⟩ := mem_iff_getElem?.mp hc'
  rcases (step_calls hs hl).new i c' hi with ⟨c, hc, hm⟩ | ⟨-, hp, hcm, hre, -⟩
  · exact (h c (mem_of_getElem? hc)).move hm
  refine ⟨fun _ => hcm, fun r hr => ?_⟩
  rw [hre] at hr
  cases hr

theorem Waits.step (h : Waits f) (hw : Wired f) (hs : step d f l = some f') : Waits f' := by
  refine ⟨fits_step h.fits hs, ?_⟩
  -- a call that was awaited moves on under the same thread; a new one is issued
  intro t i ht hi
  by_cases hr : l.isReconciler = false
  · have hl : l ≠ .restartControl := by
      intro he
      rw [he] at hr
      cases hr
    rw [step_thread hs hr] at ht
    obtain ⟨host, op, k, c, s, hp, hc, ho, hd, hst, hh⟩ := h.call t i ht hi
    obtain ⟨c', hc', hm⟩ := (step_calls hs hl).old i c hc
    obtain ⟨s', hs', hsm⟩ := (step_streams hs hl).old c.conn s hst
    exact ⟨host, op, k, c', s', hp, hc', hm.op.trans ho, hm.deadline.trans hd,
      hm.conn ▸ hs', hsm.host hh (hw.late _ s host hst hh)⟩
  have hno : f'.awaited = none → ∃ h op k c s, t.prog = .call (.command h op) k ∧
      f'.calls[i]? = some c ∧ c.op = op ∧ c.deadline = op.isStatus ∧
      f'.streams[c.conn]? = some s ∧ s.host = some h := by
    intro hn
    rw [awaited_of_thread ht hi] at hn
    cases hn
  cases l with
  | tick =>
    rw [(tick_eq hs).2] at ht
    cases ht
    cases hi
  | act fault order =>
    obtain ⟨e, k, st, -, -, rfl⟩ := actStep_eq hs
    exact hno resume_awaited
  | issue =>
    obtain ⟨host, op, k, st, -, ⟨-, rfl⟩ | ⟨c, hre, rfl⟩⟩ := issueStep_eq hs
    · exact hno resume_awaited
    · cases ht
      cases hi
      obtain ⟨s, hst, hh⟩ := hw.registry host c hre
      exact ⟨host, op, k, ⟨c, op, op.isStatus, .picked, .unsent, none⟩, s, rfl, by simp, rfl, rfl,
        hst, hh⟩
  | collect =>
    obtain ⟨host, op, k, st, j, c, r, -, -, -, rfl⟩ := collectStep_eq hs
    exact hno resume_awaited
  | expire =>
    obtain ⟨host, op, k, st, j, c, -, -, -, -, rfl⟩ := expireStep_eq hs
    exact hno resume_awaited
  | restartControl =>
    cases hs
    cases ht
  | _ => exact absurd rfl hr

theorem Waits.init : Waits .init := ⟨by simp [Fleet.init], fun t i ht => by cases ht⟩

theorem step_awaited (hs : step d f l = some f') (hi : f'.awaited = some i) :
    (f'.thread = f.thread ∧ l.isReconciler = false) ∨
      ∃ c, f'.calls[i]? = some c ∧ c.cmd = .unsent := by
  by_cases hr : l.isReconciler = false
  · exact .inl ⟨step_thread hs hr, hr⟩
  right
  cases l with
  | tick =>
    rw [(tick_eq hs).2] at hi
    cases hi
  | act fault order =>
    obtain ⟨e, k, st, -, -, rfl⟩ := actStep_eq hs
    rw [resume_awaited] at hi
    cases hi
  | issue =>
    obtain ⟨host, op, k, st, -, ⟨-, rfl⟩ | ⟨c, -, rfl⟩⟩ := issueStep_eq hs
    · rw [resume_awaited] at hi
      cases hi
    · cases hi
      exact ⟨_, List.getElem?_concat_length, rfl⟩
  | collect =>
    obtain ⟨host, op, k, st, j, c, r, -, -, -, rfl⟩ := collectStep_eq hs
    rw [resume_awaited] at hi
    cases hi
  | expire =>
    obtain ⟨host, op, k, st, j, c, -, -, -, -, rfl⟩ := expireStep_eq hs
    rw [resume_awaited] at hi
    cases hi
  | restartControl =>
    cases hs
    cases hi
  | _ => exact absurd rfl hr

theorem awaited_call (hs : step d f l = some f') (hr : l.isReconciler = false) (hw : Waits f)
    (hi : f.awaited = some i) (hc' : f'.calls[i]? = some c') :
    ∃ c, f.calls[i]? = some c ∧ c.op = c'.op ∧ CallMove f l i c c' := by
  have hl : l ≠ .restartControl := by
    intro he
    rw [he] at hr
    cases hr
  obtain ⟨t, ht, hti⟩ := Option.bind_eq_some_iff.mp hi
  obtain ⟨_, _, _, c, _, _, hc, -⟩ := hw.call t i ht hti
  obtain ⟨c2, hc2, hm⟩ := (step_calls hs hl).old i c hc
  rw [hc'] at hc2
  cases hc2
  exact ⟨c, hc, hm.op.symm, hm⟩

/-- A command that may yet be carried out, and is no probe, is one that the reconciler waits
for: the caller of such a command does not go on without its answer. -/
theorem pending_step (h : Waits f) (hs : step d f l = some f') (hl : l ≠ .restartControl)
    (hc' : f'.calls[i]? = some c') (hp : c'.pending = true) (hst : c'.op.isStatus = false)
    (ho : c'.op.isOther = false)
    (hol : ∀ c, f.calls[i]? = some c → c.op = c'.op → c.pending = true → f.awaited = some i) :
    f'.awaited = some i := by
  rcases (step_calls hs hl).new i c' hc' with ⟨c, hc, hm⟩ | ⟨hle, -, -, -, host, -, hpi⟩
  · have ha := hol c hc hm.op.symm (hm.pending hp)
    by_cases hre : l.isReconciler = false
    · rw [Fleet.awaited, step_thread hs hre]
      exact ha
    exfalso
    cases l with
    | tick =>
      rw [Fleet.awaited, (tick_eq hs).1] at ha
      cases ha
    | act fault order =>
      obtain ⟨e, k, st, ht, -, -⟩ := actStep_eq hs
      rw [Fleet.awaited, ht] at ha
      cases ha
    | issue =>
      obtain ⟨host, op, k, st, ht, -⟩ := issueStep_eq hs
      rw [Fleet.awaited, ht] at ha
      cases ha
    | collect =>
      obtain ⟨host, op, k, st, j, c1, r, ht, hc1, hr, rfl⟩ := collectStep_eq hs
      rw [awaited_of_thread ht rfl] at ha
      cases ha
      rw [hc] at hc1
      cases hc1
      rw [Fleet.resume_calls, Fleet.setCall, List.getElem?_set_self
        (List.getElem?_eq_some_iff.mp hc).1] at hc'
      cases hc'
      have hd := (h.fits c (mem_of_getElem? hc)).outcome_done hr
      simp [HubCall.pending, hd] at hp
    | expire =>
      obtain ⟨host, op, k, st, j, c1, ht, hc1, hdl, -, -⟩ := expireStep_eq hs
      rw [awaited_of_thread ht rfl] at ha
      cases ha
      obtain ⟨_, op2, _, c2, _, _, hc2, ho2, hd2, _, _⟩ := h.call _ _ ht rfl
      rw [hc] at hc1 hc2
      cases hc1
      cases hc2
      rw [hd2, ← ho2, ← hm.op, hst] at hdl
      cases hdl
    | restartControl => exact absurd rfl hl
    | _ => exact absurd rfl hre
  · rcases hpi with ⟨rfl, k, st, ht⟩ | hpic
    · obtain ⟨host', op, k', st', ht', ⟨-, rfl⟩ | ⟨c, -, rfl⟩⟩ := issueStep_eq hs
      · rw [Fleet.resume_calls] at hc'
        have := (List.getElem?_eq_some_iff.mp hc').1
        omega
      · have := (List.getElem?_eq_some_iff.mp hc').1
        simp only [length_append, length_cons, length_nil] at this
        have hi : i = f.calls.length := by omega
        rw [hi]
        rfl
    · rw [ho] at hpic
      cases hpic

theorem Awaits.step (h : Awaits f) (hw : Wired f) (hs : step d f l = some f')
    (hl : l ≠ .restartControl) : Awaits f' := by
  have hwa := h.waits.step hw hs
  refine ⟨hwa, fun i c' spec hc' ho hp => ?_⟩
  refine pending_step h.waits hs hl hc' hp (by rw [ho]; rfl) (by rw [ho]; rfl) ?_
  exact fun c hc hco hpe => h.provision i c spec hc (hco.trans ho) hpe

theorem Awaits.init : Awaits .init :=
  ⟨.init, fun i c spec hc => by simp [Fleet.init] at hc⟩

def Fleet.asks (f : Fleet) : Option Call := f.thread.bind fun t => t.prog.next?

def Label.isTick : Label → Bool
  | .tick => true
  | _ => false

def Label.spares : Label → Bool
  | .restartControl => false
  | _ => true

end Step

end Craftling.Control

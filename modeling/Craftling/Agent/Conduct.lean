import Craftling.Agent.Placement

namespace Craftling.Agent
open Effects Guest LiveSnapshot

variable {D : Type} {strict : Prop} {g g' : Server} {k : Nat} {t : Thread} {e : Guest.Call}
    {c : Nat}

/-- The guest turns to something else, which takes nothing from a session that does
not count on the freeze. -/
theorem Standing.apart (h : Standing m strict g fz k t) (ha : g'.Apart k)
    (hca : strict → t.capturing = false) : Standing m strict g' fz' k t := by
  obtain ⟨st, hk, hp, hf⟩ := h
  have hf' : strict → Faithful m g' fz' k t st := fun hs =>
    ⟨fun hc => by simp [hca hs] at hc, (hf hs).reading, (hf hs).read⟩
  refine ⟨st, hk, ?_, hf'⟩
  cases st with
  | fresh =>
    obtain ⟨hg, hh, hc, hac, hr, hre, _⟩ := hp
    exact ⟨hg, hh, hc, hac, hr, hre, ha⟩
  | dialed =>
    obtain ⟨hg, hh, hac, hr, hre, _⟩ := hp
    exact ⟨hg, hh, hac, hr, hre, ha⟩
  | asked =>
    obtain ⟨hr, hre, hw⟩ := hp
    refine ⟨hr, hre, ?_⟩
    rcases hw with ⟨line, hg, hv, hh, hac, _⟩ | ⟨hg, hh, hac, _⟩ | ⟨hg, _, hrep⟩
    · exact .inl ⟨line, hg, hv, hh, hac, ha⟩
    · exact .inr (.inr ⟨hg, ha.2, .inl ⟨hh, hac⟩⟩)
    · exact .inr (.inr ⟨hg, ha.2, hrep⟩)
  | granted n =>
    obtain ⟨hac, hre, hg, hh, _⟩ := hp
    exact ⟨hac, hre, hg, hh, ha.2⟩
  | resumed b => exact hp
  | ended =>
    rcases hp with hre | ⟨hac, hg, _⟩
    · exact .inl hre
    · exact .inr ⟨hac, hg, ha.2 _⟩

theorem Standing.accepted (h : Standing m strict g fz k t) (hc : t.conn ≠ .undialed)
    (c : Conn) : Standing m strict g fz k { t with conn := c } := by
  obtain ⟨st, hk, hp, hf⟩ := h
  refine ⟨st, hk, ?_, fun hs => ⟨(hf hs).held, (hf hs).reading, (hf hs).read⟩⟩
  cases st with
  | fresh => exact absurd hp.2.2.1 hc
  | dialed | asked | granted | resumed | ended => exact hp

theorem Grants.is_call (h : Grants st p) (hs : st = .asking ∨ st = .frozen) :
    ∃ e cont, p = .call e cont := by
  cases p with
  | done fd => rcases hs with rfl | rfl <;> exact absurd h (by simp [Grant.accepts])
  | call e cont => exact ⟨e, cont, rfl⟩

theorem Standing.line {line : String} (h : Standing m strict (.scanning k fd) fz k t)
    (hli : t.toGuest = line :: rest) :
    Standing m strict (.afterLine k (verbOf line) (handleLine q fd line)) fz k
      { t with toGuest := rest } := by
  obtain ⟨st, hk, hpl, hf⟩ := h
  cases st with
  | fresh | dialed => simp [hpl.1] at hli
  | granted n => simp [hpl.2.2.1] at hli
  | asked =>
    obtain ⟨hr, hre, hw⟩ := hpl
    rcases hw with ⟨line', hg, hv, hh, ha, hap⟩ | ⟨hg, _⟩ | ⟨hg, _⟩
    · obtain ⟨rfl, rfl⟩ : line' = line ∧ [] = rest := by simpa [hg] using hli
      obtain rfl : fd = none := by
        cases fd with
        | none => rfl
        | some fd => exact absurd rfl (hap.1 fd)
      have hgr := handleLine_grants q line' hv
      obtain ⟨e, cont, hp⟩ := Grants.is_call hgr (.inl rfl)
      refine ⟨.asked, hk, ⟨hr, hre, .inr (.inl ⟨rfl, hh, ha, .asking,
        handleLine q none line', ?_, hgr, by simp⟩)⟩,
        fun _ => .not_capturing (by simp [Thread.capturing, ha]) (by simp) (by simp)⟩
      rw [hp, hv]
      rfl
    · simp [hg] at hli
    · simp [hg] at hli
  | resumed b =>
    exact ⟨.resumed b, hk, hpl, fun hs =>
      ⟨by simp [Thread.capturing, hpl.2], by simp, (hf hs).read⟩⟩
  | ended =>
    rcases hpl with hre | ⟨ha, hg, _⟩
    · exact ⟨.ended, hk, .inl hre, fun _ => .not_capturing (by simp [Thread.capturing, hre])
        (by simp) (by simp)⟩
    have hv : verbOf line ≠ .prepare := hg line (by simp [hli])
    refine ⟨.ended, hk, .inr ⟨ha, fun l hl => hg l (by simp [hli, hl]), fun p => ?_⟩,
      fun _ => .not_capturing (by simp [Thread.capturing, ha]) (by simp) (by simp)⟩
    cases handleLine q fd line with
    | done fd => simp [Server.afterLine]
    | call e cont => simp [Server.afterLine, hv]

theorem AwaitsGrant.handled (r : Guest.Answer e) (hg : t.toGuest = []) (hh : t.toHost = [])
    (ha : t.acked = false) (hgr : Grants gst (.call e cont)) (hf : gst = .frozen → fz = some k) :
    AwaitsGrant (.afterLine k .prepare (cont r)) (freezeAfter fz k e r) k
        (t.hears (some .prepare) e) ∧
      ((t.hears (some .prepare) e).acked = true →
        freezeAfter fz k e r = some k ∧
          ∃ fd, Server.afterLine k .prepare (cont r) = .scanning k (some fd)) := by
  obtain ⟨hal, hn⟩ := hgr
  have hgr := hn r
  have hgo : ∀ gst', (gst' = .asking ∨ gst' = .frozen) → Grants gst' (cont r) →
      (t.hears (some .prepare) e) = t → (gst' = .frozen → freezeAfter fz k e r = some k) →
      AwaitsGrant (.afterLine k .prepare (cont r)) (freezeAfter fz k e r) k
          (t.hears (some .prepare) e) ∧
        ((t.hears (some .prepare) e).acked = true → freezeAfter fz k e r = some k ∧
            ∃ fd, Server.afterLine k .prepare (cont r) = .scanning k (some fd)) := by
    intro gst' hs' hg' ht hf'
    obtain ⟨e', cont', hp⟩ := Grants.is_call hg' hs'
    rw [ht]
    refine ⟨.inr (.inl ⟨hg, hh, ha, gst', cont r, by rw [hp]; rfl, hg', hf'⟩), ?_⟩
    simp [ha]
  cases gst with
  | asking =>
    rcases hal with ⟨cmds, rfl⟩ | rfl | ⟨fd, rfl⟩ | ⟨fd, rfl⟩ | ⟨line, rfl, hl⟩
    · exact hgo .asking (.inl rfl) hgr rfl nofun
    · exact hgo .asking (.inl rfl) hgr rfl nofun
    · cases r with
      | none => exact hgo .frozen (.inr rfl) hgr rfl (fun _ => rfl)
      | some err => exact hgo .asking (.inl rfl) hgr rfl nofun
    · exact hgo .asking (.inl rfl) hgr rfl nofun
    have hd : cont r = .done none := by
      simp only [Grant.next, hl, if_false] at hgr
      cases hc : cont r with
      | done fd => rw [hc] at hgr; rw [show fd = none from hgr]
      | call e' cont' => rw [hc] at hgr; exact absurd hgr.1 (by simp [Grant.allows])
    rw [hd]
    refine ⟨.inr (.inr ⟨hg, by simp [Server.afterLine], .inr ⟨line, ?_, ?_⟩⟩), ?_⟩
    · simp [Thread.hears, hh]
    · simp [Thread.hears, ha, hl]
    · simp [Thread.hears, ha, hl]
  | frozen =>
    obtain rfl : e = .reply snapOK := hal
    simp only [Grant.next, if_true] at hgr
    cases hc : cont r with
    | call e' cont' => rw [hc] at hgr; exact absurd hgr.1 (by simp [Grant.allows])
    | done fd =>
      rw [hc] at hgr
      obtain ⟨fd, rfl⟩ : ∃ n, fd = some n := Option.isSome_iff_exists.mp hgr
      refine ⟨.inr (.inr ⟨hg, by simp [Server.afterLine], .inr ⟨snapOK, ?_, ?_⟩⟩), fun _ => ?_⟩
      · simp [Thread.hears, hh]
      · simp [Thread.hears]
      · exact ⟨hf rfl, fd, rfl⟩
  | refused | granted => exact absurd hal (by simp [Grant.allows])

section

variable (t : Thread) (v : Option Verb) (e : Guest.Call)

theorem Thread.hears_toGuest :
    (t.hears v e).toGuest = t.toGuest := by cases e <;> rfl

theorem Thread.hears_rest :
    (t.hears v e).rest = t.rest := by cases e <;> rfl

theorem Thread.hears_job :
    (t.hears v e).job = t.job := by cases e <;> rfl

theorem Thread.hears_released :
    (t.hears v e).released = t.released := by cases e <;> rfl

theorem Thread.hears_reads :
    (t.hears v e).reads = t.reads := by cases e <;> rfl

theorem Thread.hears_acked_of (h : t.acked = true) : (t.hears v e).acked = true := by
  cases e <;> simp [Thread.hears, h]

theorem Thread.hears_acked_other (h : v ≠ some .prepare) : (t.hears v e).acked = t.acked := by
  cases e <;> simp [Thread.hears, h]

end

theorem Standing.handled (r : Guest.Answer e)
    (h : Standing m strict (.handling k verb (.call e cont)) fz k t) :
    Standing m strict (.afterLine k verb (cont r)) (freezeAfter fz k e r) k
      (t.hears (some verb) e) := by
  obtain ⟨st, hk, hpl, hf⟩ := h
  rw [← Thread.hears_rest t (some verb) e, ← Thread.hears_job t (some verb) e] at hk
  cases st with
  | fresh => exact absurd rfl (hpl.2.2.2.2.2.2.2 _ _)
  | dialed => exact absurd rfl (hpl.2.2.2.2.2.2 _ _)
  | granted n => exact absurd rfl (hpl.2.2.2.2 _ _)
  | asked =>
    obtain ⟨hr, hre, hw⟩ := hpl
    rcases hw with ⟨_, _, _, _, _, ha⟩ | ⟨hg, hh, hac, gst, p, hp, hgr, hfz⟩ | ⟨_, hn, _⟩
    · exact absurd rfl (ha.2 _ _)
    · simp only [Server.handling.injEq, true_and] at hp
      obtain ⟨rfl, rfl⟩ := hp
      obtain ⟨hw, hhe⟩ := AwaitsGrant.handled r hg hh hac hgr hfz
      refine ⟨.asked, hk, ⟨by rw [Thread.hears_reads, hr],
        by rw [Thread.hears_released, hre], hw⟩, fun _ => ⟨fun hc => ?_, by simp, by simp⟩⟩
      simp only [Thread.capturing, Bool.and_eq_true] at hc
      exact hhe hc.1
    · exact absurd rfl (hn _ _)
  | resumed b =>
    refine ⟨.resumed b, hk, ⟨Thread.hears_acked_of t _ e hpl.1,
      by rw [Thread.hears_released, hpl.2]⟩, fun hs => ⟨fun hc => ?_, by simp, fun hb => ?_⟩⟩
    · simp [Thread.capturing, Thread.hears_released, hpl.2] at hc
    · rw [Thread.hears_reads, (hf hs).read hb]
  | ended =>
    rcases hpl with hre | ⟨hac, hg, hn⟩
    · exact ⟨.ended, hk, .inl (by rw [Thread.hears_released, hre]), fun _ =>
        .not_capturing (by simp [Thread.capturing, Thread.hears_released, hre]) (by simp) (by simp)⟩
    have hv : some verb ≠ some .prepare := by
      rintro ⟨⟩
      exact hn _ rfl
    have ha' : (t.hears (some verb) e).acked = false := by
      rw [Thread.hears_acked_other t _ e hv, hac]
    refine ⟨.ended, hk, .inr ⟨ha', by rw [Thread.hears_toGuest]; exact hg, fun p => ?_⟩,
      fun _ => .not_capturing (by simp [Thread.capturing, ha']) (by simp) (by simp)⟩
    cases cont r with
    | done fd => simp [Server.afterLine]
    | call e' cont' => simpa [Server.afterLine] using fun h => absurd (congrArg some h) hv

/-- The deferred work of a connection: it thaws and closes, and says nothing. -/
def Winds (p : Handler Unit) : Prop :=
  p.Follows (fun (_ : Unit) e => (∃ fd, e = .fsThaw fd) ∨ ∃ fd, e = .close fd)
    (fun st _ _ => st) (fun _ _ => True) ()

theorem finishConn_winds (fd : Option Fd) : Winds (finishConn fd) := by
  cases fd with
  | none => trivial
  | some fd => exact ⟨.inl ⟨fd, rfl⟩, fun _ => ⟨.inr ⟨fd, rfl⟩, fun _ => trivial⟩⟩

def Server.Free (g : Server) : Prop :=
  g = .off ∨ g = .accepting ∨ ∃ c p, g = .finishing c p ∧ Winds p

theorem Server.Free.apart (h : g.Free) (k : Nat) : g.Apart k := by
  rcases h with rfl | rfl | ⟨c, p, rfl, _⟩ <;> exact ⟨nofun, nofun⟩

theorem Server.Free.client (h : g.Free) : g.client = none := by
  rcases h with rfl | rfl | ⟨c, p, rfl, _⟩ <;> rfl

theorem Server.afterEnd_free (h : Winds p) : (Server.afterEnd c p).Free := by
  cases p with
  | done u => exact .inr (.inl rfl)
  | call e cont => exact .inr (.inr ⟨c, _, rfl, h⟩)

/-- No connection is lost at the guest while the host counts on its freeze. -/
def ConnKept (w w' : World D) : Prop :=
  ∀ k t, w.guest.client = some k → w.threads[k]? = some t → t.capturing = true →
    w'.guest.client = some k

instance (w w' : World D) : Decidable (ConnKept w w') :=
  decidable_of_iff (∀ k ∈ w.guest.client, ∀ t ∈ w.threads[k]?, t.capturing = true →
    w'.guest.client = some k) ⟨fun h k t hk ht => h k hk t ht, fun h k hk t ht => h k t hk ht⟩

/-- Every session is at a stage of its protocol, and the guest serves no session
that does not exist. -/
structure Sound (m : Machine) (strict : Prop) (w : World D) : Prop where
  standing : ∀ k t, w.threads[k]? = some t → Standing m strict w.guest w.frozenFor k t
  served : ∀ k, w.threads[k]? = none → w.guest.Apart k
  winds : ∀ c p, w.guest = .finishing c p → Winds p

variable {w w' : World D}

theorem Sound.booted (disk : Nat → D) (store : Option (Blob D)) :
    Sound m strict (World.booted disk store) := by
  refine ⟨?_, ?_, nofun⟩
  · intro k t h
    simp [World.booted] at h
  · intro k _
    exact ⟨nofun, nofun⟩

theorem Standing.held (h : Standing m strict g fz k t) (hs : strict) (hc : t.capturing = true) :
    ∃ fd, g = .scanning k (some fd) := by
  obtain ⟨st, _, _, hf⟩ := h
  exact ((hf hs).held hc).2

theorem Sound.leave (h : Sound m strict w) (ht : w'.threads = w.threads) (hg : w'.guest.Free)
    (hk : strict → ConnKept w w') : Sound m strict w' := by
  refine ⟨?_, fun k _ => hg.apart k, ?_⟩
  · intro k t hkt
    rw [ht] at hkt
    have hst := h.standing k t hkt
    refine hst.apart (hg.apart k) (fun hs => ?_)
    by_contra hc
    rw [Bool.not_eq_false] at hc
    obtain ⟨fd, hsc⟩ := hst.held hs hc
    have := hk hs k t (by rw [hsc]; rfl) hkt hc
    rw [hg.client] at this
    cases this
  · intro c p hp
    rcases hg with hg | hg | ⟨c', p', hg, hw⟩
    · rw [hg] at hp; cases hp
    · rw [hg] at hp; cases hp
    rw [hg] at hp
    cases hp
    exact hw

theorem Sound.same (h : Sound m strict w) (ht : w'.threads = w.threads)
    (hg : w'.guest = w.guest) (hf : w'.frozenFor = w.frozenFor) : Sound m strict w' := by
  refine ⟨?_, ?_, ?_⟩
  · rw [ht, hg, hf]
    exact h.standing
  · rw [ht, hg]
    exact h.served
  · rw [hg]
    exact h.winds

theorem setThread_threads (hk : w.threads[k]? = some t') (j : Nat) (t : Thread) :
    (w.setThread k t).threads[j]? = if j = k then some t else w.threads[j]? := by
  have hl : k < w.threads.length := (List.getElem?_eq_some_iff.mp hk).1
  simp only [World.setThread, List.getElem?_set, hl, if_true]
  by_cases h : k = j
  · simp [h]
  · simp [h, Ne.symm h]

theorem Sound.setThread (h : Sound m strict w) (hk : w.threads[k]? = some t')
    (hs : Standing m strict w.guest w.frozenFor k t) : Sound m strict (w.setThread k t) := by
  refine ⟨?_, ?_, h.winds⟩
  · intro j tj hj
    rw [setThread_threads hk] at hj
    split at hj
    · cases hj
      subst j
      exact hs
    · exact h.standing j tj hj
  · intro j hj
    rw [setThread_threads hk] at hj
    split at hj
    · cases hj
    · exact h.served j hj

theorem Sound.begin (h : Sound m strict w) (job : Job) :
    Sound m strict { w with threads := w.threads ++ [Thread.start m job] } := by
  refine ⟨?_, ?_, h.winds⟩
  · intro k t hk
    by_cases hl : k < w.threads.length
    · rw [List.getElem?_append_left hl] at hk
      exact h.standing k t hk
    have hn : w.threads[k]? = none := List.getElem?_eq_none (by omega)
    rw [List.getElem?_append_right (by omega)] at hk
    have ht : t = Thread.start m job := by
      have := List.mem_of_getElem? hk
      simpa using this
    subst t
    exact ⟨.fresh, job.session_keeps m, ⟨rfl, rfl, rfl, rfl, rfl, rfl, h.served k hn⟩,
      fun _ => .not_capturing rfl nofun nofun⟩
  · intro k hk
    apply h.served k
    rw [List.getElem?_eq_none_iff] at hk ⊢
    simp only [List.length_append, List.length_singleton] at hk
    omega

theorem hostStep_cases (hs : hostStep w k fault = some w') :
    ∃ t e cont r t' w1, w.threads[k]? = some t ∧ t.rest = .call e cont ∧
      perform w k t fault e = some (r, t', w1) ∧
      w' = w1.setThread k { t' with rest := cont r } := by
  unfold hostStep at hs
  cases ht : w.threads[k]? with
  | none => simp [ht] at hs
  | some t =>
    simp only [ht] at hs
    cases hr : t.rest with
    | done r => simp [hr] at hs
    | call e cont =>
      simp only [hr, Option.map_eq_some_iff, Prod.exists] at hs
      obtain ⟨r, t', w1, hp, rfl⟩ := hs
      exact ⟨t, e, cont, r, t', w1, rfl, hr, hp, rfl⟩

theorem Sound.host (h : Sound m strict w) (hs : hostStep w k fault = some w') :
    Sound m strict w' := by
  obtain ⟨t, e, cont, r, t', w1, ht, hr, hp, rfl⟩ := hostStep_cases hs
  have hb := (perform_beside hp).1
  have hsa := h.same hb.threads hb.guest hb.frozenFor
  apply hsa.setThread (by rw [hb.threads]; exact ht)
  rw [hb.guest, hb.frozenFor]
  exact (h.standing k t ht).perform hr hp

/-- What a call of an operation leaves alone. -/
theorem performOp_frame {e : Lifecycle.Call} {r : Lifecycle.Answer e}
    (h : performOp w stream fault e = some (r, stream', w')) :
    w'.threads = w.threads ∧
      ((w'.guest = w.guest ∧ w'.frozenFor = w.frozenFor) ∨ w'.guest.Free) ∧
      w'.returned = w.returned ∧ w'.disk = w.disk ∧
      (w'.boots = w.boots + 1 ∨ w'.boots = w.boots ∧ (w.guest = .off → w'.guest = .off)) ∧
      (e ≠ .putStream → e ≠ .deleteWorld → w'.store = w.store) := by
  have hoff {b : Nat} (hb : b = w.boots) :
      b = w.boots + 1 ∨ b = w.boots ∧ (w.guest = .off → Server.off = .off) := .inr ⟨hb, fun _ => rfl⟩
  cases fault with
  | some err =>
    simp only [performOp, Option.map_eq_some_iff, Prod.mk.injEq, Prod.exists] at h
    obtain ⟨r', w1, hf, rfl, rfl, rfl⟩ := h
    cases e <;> cases hf
    case boot.refl => exact ⟨rfl, .inr (.inl rfl), rfl, rfl, hoff rfl, fun _ _ => rfl⟩
    all_goals exact ⟨rfl, .inl ⟨rfl, rfl⟩, rfl, rfl, .inr ⟨rfl, id⟩, fun _ _ => rfl⟩
  | none =>
    cases e <;> simp only [performOp, performedOp] at h <;> (try split at h) <;> cases h
    case boot.refl => exact ⟨rfl, .inr (.inr (.inl rfl)), rfl, rfl, .inl rfl, fun _ _ => rfl⟩
    case shutdown.refl => exact ⟨rfl, .inr (.inl rfl), rfl, rfl, hoff rfl, fun _ _ => rfl⟩
    case kill.refl => exact ⟨rfl, .inr (.inl rfl), rfl, rfl, hoff rfl, fun _ _ => rfl⟩
    case putStream.refl =>
      exact ⟨rfl, .inl ⟨rfl, rfl⟩, rfl, rfl, .inr ⟨rfl, id⟩, fun h => absurd rfl h⟩
    case deleteWorld.refl =>
      exact ⟨rfl, .inl ⟨rfl, rfl⟩, rfl, rfl, .inr ⟨rfl, id⟩, fun _ h => absurd rfl h⟩
    all_goals exact ⟨rfl, .inl ⟨rfl, rfl⟩, rfl, rfl, .inr ⟨rfl, id⟩, fun _ _ => rfl⟩

theorem settleOp_guest (w : World D) (op : Op) (stream : Blob D)
    (p : Lifecycle.Ops (Except String Unit)) :
    (w.settleOp op stream p).threads = w.threads ∧ (w.settleOp op stream p).guest = w.guest ∧
      (w.settleOp op stream p).frozenFor = w.frozenFor := by
  cases p <;> exact ⟨rfl, rfl, rfl⟩

theorem opStep_cases (hs : opStep w fault = some w') :
    ∃ run e cont r stream w1, w.op = some run ∧ run.rest = .call e cont ∧
      performOp w run.stream fault e = some (r, stream, w1) ∧
      w' = w1.settleOp run.op stream (cont r) := by
  unfold opStep at hs
  cases ho : w.op with
  | none => simp [ho] at hs
  | some run =>
    simp only [ho] at hs
    cases hr : run.rest with
    | done r => simp [hr] at hs
    | call e cont =>
      simp only [hr, Option.map_eq_some_iff, Prod.exists] at hs
      obtain ⟨r, stream, w1, hp, rfl⟩ := hs
      exact ⟨run, e, cont, r, stream, w1, rfl, hr, hp, rfl⟩

theorem Sound.op (h : Sound m strict w) (hs : opStep w fault = some w')
    (hk : strict → ConnKept w w') : Sound m strict w' := by
  obtain ⟨run, e, cont, r, stream, w1, _, _, hp, rfl⟩ := opStep_cases hs
  obtain ⟨ht, hg, -⟩ := performOp_frame hp
  obtain ⟨ht', hg', hf'⟩ := settleOp_guest w1 run.op stream (cont r)
  rcases hg with ⟨hg, hf⟩ | hfr
  · exact h.same (ht'.trans ht) (hg'.trans hg) (hf'.trans hf)
  · exact h.leave (ht'.trans ht) (by rw [hg']; exact hfr) hk

theorem Sound.turn (h : Sound m strict w) (hc : w.threads[c]? = some t)
    (hf : w.guest = .accepting ∨ (∃ fd, w.guest = .scanning c fd) ∨ ∃ v p, w.guest = .handling c
      v p) (ht : (∃ fd, g' = .scanning c fd) ∨ ∃ v p, g' = .handling c v p)
    (hst : Standing m strict g' fz' c t') :
    Sound m strict { w.setThread c t' with guest := g', frozenFor := fz' } := by
  have ha : ∀ j, j ≠ c → g'.Apart j := by
    intro j hj
    rcases ht with ⟨fd, rfl⟩ | ⟨v, p, rfl⟩
    · exact ⟨fun fd' h => hj (by cases h; rfl), nofun⟩
    · exact ⟨nofun, fun v' p' h => hj (by cases h; rfl)⟩
  refine ⟨?_, ?_, ?_⟩
  · intro j tj hj
    change (w.setThread c t').threads[j]? = some tj at hj
    rw [setThread_threads hc] at hj
    split at hj
    · cases hj
      subst j
      exact hst
    rename_i hjc
    have ho := h.standing j tj hj
    refine ho.apart (ha j hjc) (fun hs => ?_)
    by_contra hca
    rw [Bool.not_eq_false] at hca
    obtain ⟨fd, hsc⟩ := ho.held hs hca
    rcases hf with hg | ⟨fd', hg⟩ | ⟨v, p, hg⟩
    · rw [hg] at hsc; cases hsc
    · rw [hg] at hsc; cases hsc; exact hjc rfl
    · rw [hg] at hsc; cases hsc
  · intro j hj
    change (w.setThread c t').threads[j]? = none at hj
    rw [setThread_threads hc] at hj
    split at hj
    · cases hj
    · rename_i hjc
      exact ha j hjc
  · intro c' p hp
    change g' = _ at hp
    rcases ht with ⟨fd, rfl⟩ | ⟨v, p, rfl⟩ <;> cases hp

theorem Sound.accept (h : Sound m strict w) (hc : w.threads[c]? = some t)
    (hg : w.guest = .accepting) (hco : t.conn = .pending n) :
    Sound m strict { w.setThread c { t with conn := .accepted } with guest := .scanning c none } := by
  have hst := h.standing c t hc
  refine h.turn hc (.inl hg) (.inl ⟨none, rfl⟩) ?_
  refine Standing.accepted (hst.apart ⟨by simp, by simp⟩ (fun hs => ?_)) (by simp [hco]) _
  by_contra hca
  rw [Bool.not_eq_false] at hca
  obtain ⟨fd, hsc⟩ := hst.held hs hca
  rw [hg] at hsc
  cases hsc

theorem Server.afterLine_cases (c : Nat) (v : Verb) (p : Handler (Option Fd)) :
    (∃ fd, Server.afterLine c v p = .scanning c fd) ∨
      ∃ v' p', Server.afterLine c v p = .handling c v' p' := by
  cases p with
  | done fd => exact .inl ⟨fd, rfl⟩
  | call e cont => exact .inr ⟨v, _, rfl⟩

theorem guestEffect_setThread (r : Guest.Answer e) (hc : w.threads[c]? = some t) :
    guestEffect w c v e r =
      { w.setThread c (t.hears v e) with frozenFor := freezeAfter w.frozenFor c e r } := by
  obtain ⟨hl, hg⟩ := List.getElem?_eq_some_iff.mp hc
  have hm : w.threads.modify c (·.hears v e) = w.threads.set c (t.hears v e) := by
    apply List.ext_getElem?
    intro j
    rw [List.getElem?_modify, List.getElem?_set]
    by_cases h : c = j
    · subst j
      simp [hl, hg]
    · simp [h]
  simp only [guestEffect, World.setThread, hm]

theorem guestEffect_quiet (r : Guest.Answer e) (h : (∃ fd, e = .fsThaw fd) ∨ ∃ fd, e = .close fd) :
    (guestEffect w c none e r).threads = w.threads := by
  have hi : (fun t : Thread => t.hears none e) = id := by
    funext t
    rcases h with ⟨fd, rfl⟩ | ⟨fd, rfl⟩ <;> rfl
  simp only [guestEffect, hi, List.modify_id]

theorem Sound.guestCall (h : Sound m strict w) (hs : step m q w (.guestCall o) = some w')
    (hk : strict → ConnKept w w') : Sound m strict w' := by
  simp only [step] at hs
  split at hs
  · rename_i c verb e cont hg
    cases hs
    cases hc : w.threads[c]? with
    | none => exact absurd hg ((h.served c hc).2 _ _)
    | some t =>
      rw [guestEffect_setThread (o e) hc]
      refine h.turn hc (.inr (.inr ⟨_, _, hg⟩)) (Server.afterLine_cases c verb _) ?_
      have hst := h.standing c t hc
      rw [hg] at hst
      exact hst.handled (o e)
  · rename_i c e cont hg
    cases hs
    have hw := h.winds c _ hg
    exact h.leave (guestEffect_quiet (o e) hw.1) (Server.afterEnd_free (hw.2 (o e))) hk
  · cases hs

theorem Sound.step (h : Sound m strict w) (hs : Agent.step m q w l = some w')
    (hk : strict → ConnKept w w') : Sound m strict w' := by
  cases l with
  | begin job =>
    simp only [Agent.step, Option.some.injEq] at hs
    subst hs
    exact h.begin job
  | host k fault => exact h.host hs
  | beginOp op =>
    simp only [Agent.step] at hs
    split at hs
    · cases hs
    split at hs
    · cases hs
    · cases hs
      exact h.same rfl rfl rfl
  | op fault => exact h.op hs hk
  | accept c =>
    simp only [Agent.step] at hs
    split at hs
    · rename_i t hg hc
      split at hs
      · rename_i hco
        cases hs
        exact h.accept hc hg hco
      · cases hs
    · cases hs
  | nextLine =>
    simp only [Agent.step] at hs
    split at hs
    · rename_i c fd hg
      split at hs
      · cases hs
      rename_i t hc
      split at hs
      · cases hs
      rename_i line rest hl
      cases hs
      have hst := h.standing c t hc
      rw [hg] at hst
      exact h.turn hc (.inr (.inl ⟨fd, hg⟩)) (Server.afterLine_cases _ _ _) (hst.line hl)
    · cases hs
  | guestCall o => exact h.guestCall hs hk
  | endConn =>
    simp only [Agent.step] at hs
    split at hs
    · rename_i c fd hg
      cases hs
      exact h.leave rfl (Server.afterEnd_free (finishConn_winds fd)) hk
    · cases hs
  | powerOff =>
    simp only [Agent.step] at hs
    split at hs
    · cases hs
    · cases hs
      exact h.leave rfl (.inl rfl) hk
  | guestWrite i d =>
    simp only [Agent.step] at hs
    split at hs
    · cases hs
    · cases hs
      exact h.same rfl rfl rfl

end Craftling.Agent

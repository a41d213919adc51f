import Craftling.Dataplane.Matched

namespace Craftling.Dataplane
open Effects List Bool

structure Host.Grows (h h' : Host) : Prop where
  taps : ∀ name ∈ h.tapNames, name ∈ h'.tapNames
  vms : h'.vms = h.vms

/-- A command takes away only the TAPs of machines, and takes in a machine only when it
succeeds, under the TAP name it has drawn. -/
structure Host.Moves (drawn : Option String) (h h' : Host) (ok : Bool) : Prop where
  taps : ∀ name ∈ h.tapNames, (∀ m ∈ h.vms, m.tapName ≠ name) → name ∈ h'.tapNames
  vms : ∀ m ∈ h'.vms, m ∈ h.vms ∨ ok = true ∧ m.tapName ∈ drawn

section Moves

variable {cfg : Config} {h h' : Host}

theorem Host.Grows.moves (hg : h.Grows h') : h.Moves drawn h' ok :=
  ⟨fun name hn _ => hg.taps name hn, fun _ hm => .inl (hg.vms ▸ hm)⟩

theorem Host.Grows.refl (h : Host) : h.Grows h := ⟨fun _ hn => hn, rfl⟩

theorem Host.grows_withTAP (h : Host) (name : String) : h.Grows (h.withTAP name) := by
  unfold Host.withTAP
  split
  · exact .refl h
  · exact ⟨fun _ ho => mem_cons_of_mem _ ho, rfl⟩

theorem Host.Grows.beside (hg : h.Grows h') (hb : h'.Beside h'') : h.Grows h'' := by
  refine ⟨fun name hn => ?_, hb.vms.trans hg.vms⟩
  rw [Host.tapNames, hb.taps]
  exact hg.taps name hn

theorem boot_grows (hg : h.Grows h') (m : Machine) :
    (boot cfg m).Leads (fun h'' _ => h.Grows h'') (fun h'' => h.Grows h'') h' := by
  have hm : h.Grows (h'.withTAP m.tapName) := by
    have ht := h'.grows_withTAP m.tapName
    exact ⟨fun name hn => ht.taps name (hg.taps name hn), ht.vms.trans hg.vms⟩
  refine boot_leads cfg hg hm (publishVM_leads cfg (fun index _ => ?_) (fun _ => ⟨hm, hm⟩)
    fun _ hb => hm.beside hb)
  have hp : h.Grows ((h'.withTAP m.tapName).published cfg m index) := hm.beside ⟨rfl, rfl, rfl⟩
  exact ⟨hp, hp⟩

theorem provision_moves (h : Host) (id : String) :
    (provision cfg id).Leads (fun h' _ => h.Moves (some (tapNameFor id)) h' true)
      (fun h' => h.Moves (some (tapNameFor id)) h' false) h := by
  have hs : h.Moves (some (tapNameFor id)) h false := (Host.Grows.refl h).moves
  iterate 5 refine .bind (leads_attempt ?_ hs)
  refine .bind (ensures_ask fun _ => ?_)
  simp only [Host.perform]
  have ha : h.Grows { h with ipam := h.ipam.allocate.2 } := ⟨fun _ hn => hn, rfl⟩
  cases h.ipam.allocate.1 with
  | error err => exact ha.moves
  | ok n =>
    have hr : ∀ h', h.Grows h' → (ask (.release n)).Ensures Host.Performs
        (fun h'' _ => h.Moves (some (tapNameFor id)) h'' false) h' :=
      fun h' hg => ensures_ask fun _ =>
        (⟨hg.taps, hg.vms⟩ : h.Grows { h' with ipam := h'.ipam.release n }).moves
    have hw := hr _ ha
    refine .bind (.onError (.bind (leads_attemptIf (leads_attemptIf ?_ hw) hw)))
    refine .bind (.onError (.within ((boot_grows ha _).mono (fun h' _ hg => ?_) hr)))
    refine .bind (.lift (ensures_ask fun _ => ?_))
    refine vmView_leads fun _ => ⟨fun name hn _ => hg.taps name hn, fun m hm => ?_⟩
    rcases mem_cons.mp hm with rfl | hm
    · exact .inr ⟨rfl, rfl⟩
    · exact .inl (hg.vms ▸ mem_of_mem_filter hm)

theorem start_moves (h : Host) (id : String) :
    (start cfg id).Leads (fun h' _ => h.Moves none h' true) (fun h' => h.Moves none h' false)
      h := by
  refine .bind (.lift (ensures_ask fun _ => ?_))
  simp only [Host.perform]
  split
  · exact (Host.Grows.refl h).moves
  refine .bind (.lift (ensures_ask fun fault => ?_))
  split
  · exact vmView_leads fun _ => (Host.Grows.refl h).moves
  refine .bind (leads_attempt ?_ (Host.Grows.refl h).moves)
  refine .bind (.within ((boot_grows (Host.Grows.refl h) _).mono (fun h' _ hg => ?_)
    fun _ hg => hg.moves))
  exact vmView_leads fun _ => hg.moves

theorem stop_moves (h : Host) (id : String) :
    (stop cfg id).Leads (fun h' _ => h.Moves none h' true) (fun h' => h.Moves none h' false)
      h := by
  refine .bind (.lift (ensures_ask fun _ => ?_))
  simp only [Host.perform]
  split
  · exact (Host.Grows.refl h).moves
  · refine .bind (.lift (ensures_ask fun _ => ?_))
    exact leads_attemptIf (Host.Grows.refl h).moves (Host.Grows.refl h).moves

theorem withdrawVM_beside {name : String} (hb : h.Beside h') :
    (withdrawVM cfg name n).Ensures Host.Performs (fun h'' _ => h.Beside h'') h' := by
  refine Prog.Ensures.bind (ensures_ask fun _ => ?_)
  split
  · refine Prog.Ensures.bind (ensures_ask fun _ => ?_)
    refine Prog.Ensures.bind (ensures_ask fun _ => ?_)
    exact Prog.Ensures.bind (ensures_ask fun _ => ensures_ask fun _ => ⟨hb.ipam, hb.taps, hb.vms⟩)
  · exact Prog.Ensures.bind (ensures_ask fun _ => ensures_ask fun _ => ⟨hb.ipam, hb.taps, hb.vms⟩)

theorem teardown_moves (h : Host) (id : String) :
    (teardown cfg id).Leads (fun h' _ => h.Moves none h' true) (fun h' => h.Moves none h' false)
      h := by
  refine .bind (.lift (ensures_ask fun _ => ?_))
  simp only [Host.perform]
  split
  · exact ⟨fun _ hn _ => hn, fun m hm => .inl (mem_of_mem_filter hm)⟩
  rename_i m hf
  have hm := mem_of_find?_eq_some hf
  refine .bind (.lift (ensures_ask fun _ => ?_))
  refine .bind (.lift ((withdrawVM_beside ⟨rfl, rfl, rfl⟩).mono fun h' _ hb => ?_))
  refine .bind (.lift (ensures_ask fun _ => ?_))
  refine .bind (.lift (ensures_ask fun _ => ?_))
  have hmo : ∀ ok, h.Moves none { h' with
        ipam := h'.ipam.release m.net
        taps := h'.taps.filter (·.1 ≠ m.tapName)
        attached := h'.attached.filter (· ≠ m.tapName) } ok := by
    refine fun ok => ⟨fun name hn ho => ?_, fun m' hm' => ?_⟩
    · have hne : name ≠ m.tapName := (ho m hm).symm
      obtain ⟨tap, ht, rfl⟩ := mem_map.mp hn
      refine mem_map.mpr ⟨tap, mem_filter.mpr ⟨hb.taps ▸ ht, ?_⟩, rfl⟩
      exact decide_eq_true hne
    · have hv : h'.vms = h.vms.filter (·.id ≠ id) := hb.vms
      have hk : m' ∈ h'.vms := hm'
      rw [hv] at hk
      exact .inl (mem_of_mem_filter hk)
  refine .bind (leads_attemptIf ?_ (hmo false))
  exact leads_attempt (hmo true) (hmo false)

end Moves

variable {cfg : Config} {h : Host}

theorem Act.Leads.isOk {p : Act α} {Q : Host → Bool → Prop}
    (hp : p.Leads (fun h' _ => Q h' true) (fun h' => Q h' false) h) :
    (Prog.bind p.run fun r => .done r.isOk).Ensures Host.Performs Q h := by
  refine Prog.Ensures.bind (Prog.Ensures.mono (fun h' r hr => ?_) hp)
  cases r <;> exact hr

theorem command_sound (cfg : Config) (hs : h.Sound cfg) (c : Command)
    (hf : ∀ name ∈ c.draws, name ∉ h.tapNames) :
    (c.prog cfg).Ensures Host.Performs
      (fun h' ok => h'.Sound cfg ∨ ok = false ∧ ∃ name ∈ c.draws, name ∈ h'.tapNames) h := by
  cases c with
  | provision id =>
    exact ((provision_sound hs (hf _ rfl)).mono (fun _ _ => .inl) fun _ hr =>
      hr.imp_right fun hl => ⟨rfl, _, rfl, hl⟩).isOk
  | start id => exact ((start_sound hs id).mono (fun _ _ => .inl) fun _ => .inl).isOk
  | stop id => exact ((stop_sound hs id).mono (fun _ _ => .inl) fun _ => .inl).isOk
  | evict id | deprovision id =>
    exact ((teardown_sound hs id).mono (fun _ _ => .inl) fun _ => .inl).isOk

theorem command_moves (cfg : Config) (h : Host) (c : Command) :
    (c.prog cfg).Ensures Host.Performs (fun h' ok => h.Moves c.draws h' ok) h := by
  cases c with
  | provision id => exact (provision_moves h id).isOk
  | start id => exact (start_moves h id).isOk
  | stop id => exact (stop_moves h id).isOk
  | evict id | deprovision id => exact (teardown_moves h id).isOk

theorem Host.run_ensures {Q : Host → Bool → Prop} (hc : (c.prog cfg).Ensures Host.Performs Q h)
    (faults : List (Option String)) : Q (h.run cfg c faults).2.1 (h.run cfg c faults).1 :=
  Prog.Ensures.runOn (h := Host.serve) (t := ((h, .before), faults)) (fun s => s.1.1)
    (fun _ s => ⟨s.2.headD none, rfl⟩) hc

/-- One operation, and how far the command's TAP is then. -/
def Host.Staged (s : Host × TapStage) (e : Call) (r : Answer e) (s' : Host × TapStage) : Prop :=
  ∃ fault, s.1.perform fault e = (r, s'.1) ∧ s'.2 = s.2.next fault e

theorem Host.run_staged {Q : Host × TapStage → Bool → Prop}
    (hc : (c.prog cfg).Ensures Host.Staged Q (h, .before)) (faults : List (Option String)) :
    Q (h.run cfg c faults).2 (h.run cfg c faults).1 :=
  Prog.Ensures.runOn (h := Host.serve) (t := ((h, .before), faults)) Prod.fst
    (fun _ s => ⟨s.2.headD none, rfl, rfl⟩) hc

section Stages

variable {name : String} {s s' : Host × TapStage}

/-- There is a TAP of this name exactly from the moment it is made. -/
def Shows (name : String) (s : Host × TapStage) : Prop := s.2 = .before ↔ name ∉ s.1.tapNames

/-- What has succeeded has met no fault once there is a TAP, and what has failed then has met one. -/
def Told (name : String) (s : Host × TapStage) (r : Except String α) : Prop :=
  Shows name s ∧ match r with
    | .ok _ => s.2 ≠ .broken
    | .error _ => s.2 ≠ .made

def Act.Tells (name : String) (p : Act α) : Prop :=
  ∀ s, Shows name s → s.2 ≠ .broken → Prog.Ensures Host.Staged (Told name) s p

theorem ensures_staged {Q : Host × TapStage → Answer e → Prop}
    (hq : ∀ fault, Q ((s.1.perform fault e).2, s.2.next fault e) (s.1.perform fault e).1) :
    (ask e).Ensures Host.Staged Q s := by
  rintro r ⟨h', st⟩ ⟨fault, hp, rfl⟩
  have hfa := hq fault
  rw [hp] at hfa
  exact hfa

theorem Act.Tells.bind {p : Act α} {f : α → Act β} (hp : p.Tells name)
    (hf : ∀ a, (f a).Tells name) : (p >>= f).Tells name := by
  intro s hs hb
  refine Prog.Ensures.tryBind (Prog.Ensures.mono (fun s' r hr => ?_) (hp s hs hb))
  cases r with
  | ok a => exact hf a s' hr.1 hr.2
  | error err => exact hr

theorem Act.Tells.within {p : Act α} (hp : p.Tells name) : (Act.within context p).Tells name := by
  intro s hs hb
  refine Prog.Ensures.bind (Prog.Ensures.mono (fun s' r hr => ?_) (hp s hs hb))
  cases r <;> exact hr

/-- Operations that cannot fail and leave the TAPs alone. -/
def Call.quiet : Call → Bool
  | .release _ | .closeLink _ | .deleteVMConfig _ | .keepLink _ | .kill _ | .linked _ | .running _
  | .track _ => true
  | _ => false

theorem Staged.quiet (hq : e.quiet = true) (h : Host.Staged s e r s') :
    s'.2 = s.2 ∧ s'.1.taps = s.1.taps := by
  obtain ⟨fault, hp, hst⟩ := h
  have hh : s'.1 = (s.1.perform fault e).2 := by rw [hp]
  rw [hh, hst]
  cases e with
  | release _ | closeLink _ | deleteVMConfig _ | keepLink _ | kill _ | linked _ | running _ | track _ =>
    cases s.2 <;> simp [TapStage.next, Call.fallible, Host.perform]
  | _ => cases hq

theorem quiet_ensures {p : Ops α} (hp : p.Only fun e => e.quiet = true) (hs : Shows name s) :
    p.Ensures Host.Staged (fun s' _ => s'.2 = s.2 ∧ Shows name s') s := by
  refine Prog.Ensures.of_only (I := fun s' => s'.2 = s.2 ∧ Shows name s') ?_ hp ⟨rfl, hs⟩
  intro s1 e r s2 hq hst hI
  obtain ⟨hstage, htaps⟩ := Staged.quiet hq hst
  refine ⟨hstage.trans hI.1, ?_⟩
  rw [Shows, hstage, Host.tapNames, htaps]
  exact hI.2

theorem Act.Tells.lift {p : Ops α} (hp : p.Only fun e => e.quiet = true) :
    Act.Tells name (liftM p) := by
  intro s hs hb
  refine Prog.Ensures.bind (Prog.Ensures.mono (fun s' _ hr => ?_) (quiet_ensures hp hs))
  exact ⟨hr.2, hr.1 ▸ hb⟩

theorem Act.Tells.onError {p : Act α} {cleanup : Ops Unit} (hp : p.Tells name)
    (hc : cleanup.Only fun e => e.quiet = true) : (p.onError cleanup).Tells name := by
  intro s hs hb
  refine Prog.Ensures.bind (Prog.Ensures.mono (fun s' r hr => ?_) (hp s hs hb))
  cases r with
  | ok a => exact hr
  | error err =>
    refine Prog.Ensures.bind (Prog.Ensures.mono (fun s'' _ hq => ?_) (quiet_ensures hc hr.1))
    exact ⟨hq.2, hq.1 ▸ hr.2⟩

theorem only_ask (h : e.quiet = true) : (ask e).Only fun e => e.quiet = true := ⟨h, fun _ => trivial⟩

/-- An operation that fails exactly on a fault and leaves the TAPs alone. -/
theorem staged_fault (hs : Shows name s) (hb : s.2 ≠ .broken) (hf : e.fallible = true)
    (he : ∀ n, e ≠ .persistTAP n) (ht : ∀ fault, (s.1.perform fault e).2.taps = s.1.taps)
    (fault : Option String) : Shows name ((s.1.perform fault e).2, s.2.next fault e) ∧
      (fault = none → s.2.next fault e ≠ .broken) ∧ (fault ≠ none → s.2.next fault e ≠ .made) := by
  have hbefore : s.2.next fault e = .before ↔ s.2 = .before := by
    cases hst : s.2 with
    | before => cases e <;> simp_all [TapStage.next]
    | made => cases fault <;> simp [TapStage.next, hf]
    | broken => simp [TapStage.next]
  refine ⟨?_, ?_, ?_⟩
  · rw [Shows, hbefore, Host.tapNames, ht]
    exact hs
  · rintro rfl
    cases hst : s.2 with
    | before => cases e <;> simp_all [TapStage.next]
    | made => simp [TapStage.next]
    | broken => exact absurd hst hb
  · intro hn
    obtain ⟨text, rfl⟩ := Option.ne_none_iff_exists'.mp hn
    cases hst : s.2 with
    | before => cases e <;> simp_all [TapStage.next]
    | made => simp [TapStage.next, hf]
    | broken => simp [TapStage.next]

theorem Told.staged {r : Except String α} (hs : Shows name s) (hb : s.2 ≠ .broken)
    (hf : e.fallible = true) (he : ∀ n, e ≠ .persistTAP n)
    (ht : ∀ fault, (s.1.perform fault e).2.taps = s.1.taps) (fault : Option String)
    (hr : r.isOk = fault.isNone) : Told name ((s.1.perform fault e).2, s.2.next fault e) r := by
  obtain ⟨hsh, hn, hso⟩ := staged_fault hs hb hf he ht fault
  cases fault <;> cases r <;> first
    | (cases hr; done)
    | exact ⟨hsh, hn rfl⟩
    | exact ⟨hsh, hso (by simp)⟩

theorem tells_attempt : (attempt step context).Tells name := by
  refine .within fun s hs hb => ensures_staged fun fault => ?_
  exact .staged hs hb rfl (by simp) (fun _ => rfl) fault (by cases fault <;> rfl)

theorem tells_attemptIf : (attemptIf ha step context).Tells name := by
  unfold attemptIf
  split
  · exact tells_attempt
  · exact fun s hs hb => ⟨hs, hb⟩

theorem tells_persistTAP : Act.Tells name (ask (.persistTAP name)) := by
  intro s hs hb
  refine ensures_staged fun fault => ?_
  cases fault with
  | none =>
    have hmem : name ∈ (s.1.withTAP name).tapNames := by
      unfold Host.withTAP
      split
      · assumption
      · exact .head _
    have hmade : s.2.next none (.persistTAP name) = .made := by
      cases hst : s.2 with
      | before | made => rfl
      | broken => exact absurd hst hb
    rw [hmade]
    exact ⟨by simp [Shows, Host.perform, hmem], TapStage.noConfusion⟩
  | some text =>
    have hnext : (s.2.next (some text) (.persistTAP name) = .before ↔ s.2 = .before) ∧
        s.2.next (some text) (.persistTAP name) ≠ .made := by
      cases s.2 <;> simp [TapStage.next, Call.fallible]
    exact ⟨hnext.1.trans hs, hnext.2⟩

theorem tells_interfaceByName : Act.Tells name (ask (.interfaceByName name)) := by
  intro s hs hb
  refine ensures_staged fun fault => ?_
  obtain ⟨hsh, hn, hso⟩ :=
    staged_fault (e := .interfaceByName name) hs hb rfl (by simp) (fun _ => rfl) fault
  refine ⟨hsh, ?_⟩
  cases hi : s.1.ifindex? name with
  | none =>
    -- The TAP is not there, so it is not made yet.
    have hnot : name ∉ s.1.tapNames := by
      rintro hm
      obtain ⟨tap, htap, rfl⟩ := mem_map.mp hm
      have := List.lookup_eq_none_iff.mp hi tap htap
      simp at this
    have hst : s.2 = .before := hs.mpr hnot
    simp only [Host.perform, hi, hst, TapStage.next]
    simp
  | some index =>
    simp only [Host.perform, hi]
    cases fault with
    | none => exact hn rfl
    | some text => exact hso (by simp)

theorem createTAP_tells : (createTAP name).Tells name := by
  iterate 3 refine .bind tells_attempt fun _ => ?_
  refine .bind (.within tells_persistTAP) fun _ => ?_
  exact .bind tells_attempt fun _ => tells_attempt

theorem publishVM_tells : (publishVM cfg name n port).Tells name := by
  refine .bind (.within tells_interfaceByName) fun index => ?_
  refine .bind (.lift (only_ask rfl)) fun linked => ?_
  cases linked with
  | true => exact fun s hs hb => ⟨hs, hb⟩
  | false =>
    refine .bind (.within ?_) fun _ => .bind (.onError (.within ?_) (only_ask rfl)) fun _ =>
      .bind (.onError (.within ?_) (.bind (only_ask rfl) fun _ => only_ask rfl)) fun _ =>
        .lift (only_ask rfl)
    all_goals
      intro s hs hb
      refine ensures_staged fun fault => ?_
      exact .staged hs hb rfl (by simp) (fun fault => by cases fault <;> rfl) fault
        (by cases fault <;> rfl)

theorem boot_tells (m : Machine) : (boot cfg m).Tells m.tapName := by
  refine .bind tells_attempt fun _ => .bind tells_attempt fun _ => .onError ?_ (only_ask rfl)
  refine .bind tells_attempt fun _ => .bind ?_ fun _ => tells_attempt
  iterate 3 refine .bind tells_attempt fun _ => ?_
  refine .bind tells_attemptIf fun _ => .bind tells_attemptIf fun _ => .within ?_
  refine .bind (.within createTAP_tells) fun _ => .bind tells_attempt fun _ => ?_
  refine .bind (.within publishVM_tells) fun _ => .bind tells_attempt fun _ => ?_
  exact .bind tells_attempt fun _ => tells_attempt

/-- A Provision meets a fault after it has made its TAP exactly if it fails and leaves the TAP. -/
theorem provision_stage {id : String} (hf : tapNameFor id ∉ h.tapNames) :
    ((Command.provision id).prog cfg).Ensures Host.Staged (fun s' ok =>
      s'.2 = .broken ↔ ok = false ∧ tapNameFor id ∈ s'.1.tapNames) (h, .before) := by
  have hstart : Shows (tapNameFor id) (h, .before) := by simpa [Shows] using hf
  suffices hp : (provision cfg id).run.Ensures Host.Staged (Told (tapNameFor id)) (h, .before) by
    refine Prog.Ensures.bind (Prog.Ensures.mono (fun s' r hr => ?_) hp)
    obtain ⟨hsh, hr⟩ : (s'.2 = .before ↔ tapNameFor id ∉ s'.1.tapNames) ∧ _ := hr
    cases r with
    | ok vm =>
      refine ⟨fun hb => absurd hb hr, fun h => ?_⟩
      cases h.1
    | error err =>
      change s'.2 = .broken ↔ false = false ∧ tapNameFor id ∈ s'.1.tapNames
      rw [← not_not (a := tapNameFor id ∈ s'.1.tapNames), ← hsh]
      cases hst : s'.2 with
      | before => simp
      | made => exact absurd hst hr
      | broken => simp
  -- No address left is a failure without a fault, and comes before the TAP.
  have hattempt {α : Type} {step : Step} {context : String} {f : Unit → Act α}
      (hrest : (f ()).run.Ensures Host.Staged (Told (tapNameFor id)) (h, .before)) :
      (attempt step context >>= f).run.Ensures Host.Staged (Told (tapNameFor id)) (h, .before) := by
    refine Prog.Ensures.tryBind (Prog.Ensures.bind (ensures_staged fun fault => ?_))
    cases fault with
    | none => exact hrest
    | some text => exact ⟨hstart, by simp [TapStage.next]⟩
  unfold provision
  iterate 5 refine hattempt ?_
  refine Prog.Ensures.tryBind (ensures_staged fun fault => ?_)
  simp only [Host.perform, TapStage.next]
  have hshows : Shows (tapNameFor id) ({ h with ipam := h.ipam.allocate.2 }, .before) := hstart
  cases h.ipam.allocate.1 with
  | error err => exact ⟨hshows, by simp⟩
  | ok n =>
    have hview (m : Machine) : (vmView m).Only fun e => e.quiet = true :=
      .bind (only_ask rfl) fun _ => trivial
    exact Act.Tells.bind (.onError (.bind tells_attemptIf fun _ => tells_attemptIf) (only_ask rfl))
      (fun _ => .bind (.onError (.within (boot_tells (newMachine cfg id n))) (only_ask rfl))
        fun _ => .bind (.lift (only_ask rfl)) fun _ => .lift (hview _))
      _ hshows (by simp)

end Stages

/-- The names of the machines' TAPs have been drawn. As long as no Provision has failed after it made
its TAP the host is matched, and from then on there is a TAP that is no machine's. -/
structure History.Kept (cfg : Config) (g : History) : Prop where
  issued : ∀ m ∈ g.host.vms, m.tapName ∈ g.issued
  sound : g.left = false → g.host.Sound cfg
  stray : g.left = true →
    ∃ name ∈ g.issued, name ∈ g.host.tapNames ∧ ∀ m ∈ g.host.vms, m.tapName ≠ name

theorem History.Kept.step {g g' : History} {l : Command × List (Option String)} (hg : g.Kept cfg)
    (hst : g.step cfg l = some g') (hf : g.Fresh l g') : g'.Kept cfg := by
  obtain ⟨c, faults⟩ := l
  have hmo := Host.run_ensures (command_moves cfg g.host c) faults
  have hso := fun (hs : g.host.Sound cfg) hn => Host.run_ensures (command_sound cfg hs c hn) faults
  have ho : ∀ name ∈ c.draws, ∀ m ∈ g.host.vms, m.tapName ≠ name := by
    rintro name hna m hm rfl
    exact hf _ hna (hg.issued m hm)
  have hfresh : g.host.Sound cfg → ∀ name ∈ c.draws, name ∉ g.host.tapNames := by
    intro hs name hna ht
    obtain ⟨m, hm, hmn⟩ := (hs.taps name).mp ht
    exact ho name hna m hm hmn
  have hbr : g.host.Sound cfg → ∀ name ∈ c.draws, (g.host.run cfg c faults).2.2 = .broken ↔
      (g.host.run cfg c faults).1 = false ∧ name ∈ (g.host.run cfg c faults).2.1.tapNames := by
    intro hs name hna
    cases c with
    | provision id =>
      obtain rfl : tapNameFor id = name := Option.some.inj hna
      exact Host.run_staged (provision_stage (hfresh hs _ rfl)) faults
    | _ => cases hna
  cases hr : g.host.run cfg c faults with
  | mk ok s =>
    obtain ⟨h, stage⟩ := s
    rw [hr] at hmo hso hbr
    simp only [History.step, hr, Option.some.injEq] at hst
    subst hst
    constructor
    · intro m hm
      rcases hmo.vms m hm with hm | ⟨_, hd⟩
      · exact mem_append_right _ (hg.issued m hm)
      · exact mem_append_left _ (Option.mem_toList.mpr hd)
    · intro hl
      simp only [Bool.or_eq_false_iff] at hl
      have hs := hg.sound hl.1
      refine (hso hs (hfresh hs)).resolve_right ?_
      rintro ⟨hok, name, hna, ht⟩
      have hst := (hbr hs name hna).mpr ⟨hok, ht⟩
      simp [Option.mem_def.mp hna] at hl
      exact hl.2 hst
    · intro hl
      by_cases hb : g.left = true
      · obtain ⟨name, hna, ht, hstr⟩ := hg.stray hb
        refine ⟨name, mem_append_right _ hna, hmo.taps name ht hstr, fun m hm => ?_⟩
        rcases hmo.vms m hm with hm | ⟨_, hd⟩
        · exact hstr m hm
        · rintro rfl
          exact hf _ hd hna
      · have hs := hg.sound (by simpa using hb)
        simp only [hb, Bool.false_or, Bool.and_eq_true, decide_eq_true_eq] at hl
        obtain ⟨name, hna⟩ := Option.isSome_iff_exists.mp hl.1
        obtain ⟨hok, ht⟩ := (hbr hs name hna).mp hl.2
        refine ⟨name, mem_append_left _ (by simp [hna]), ht, fun m hm => ?_⟩
        rcases hmo.vms m hm with hm | ⟨hok', _⟩
        · exact ho name hna m hm
        · cases hok.symm.trans hok'

def History.start (ipam : Ipam) : History := ⟨.start ipam, [], false⟩

/-- After every command, whatever failed on the way, the network is that of the machines of the
table, unless a step of a Provision so far has failed after the one that made its TAP persistent:
then it never is again. The drawn ids are taken to differ in the digits that make the TAP's name. -/
theorem network_matches_iff (cfg : Config) (subnet : IPNet) (gatewayIP : Addr) (gatewayMAC : Mac)
    (portMin portMax : Port) (ipam : Ipam)
    (hipam : newIPAM subnet gatewayIP gatewayMAC portMin portMax = .ok ipam) (g : History)
    (hrun : Reaches (History.step cfg) History.Fresh (.start ipam) g) :
    g.host.Matches cfg ↔ g.left = false := by
  have hstart : (History.start ipam).Kept cfg := by
    obtain ⟨hvalid, hips, hports⟩ := Ipam.valid_newIPAM hipam
    exact ⟨nofun, fun _ => Host.sound_start cfg hvalid hips hports, nofun⟩
  have hkept : g.Kept cfg := hrun.invariant hstart fun _ _ _ hk hstep hfresh => hk.step hstep hfresh
  refine ⟨fun hm => ?_, fun hleft => (hkept.sound hleft).toMatches⟩
  rw [← not_eq_true]
  intro hleft
  obtain ⟨name, _, htap, hstray⟩ := hkept.stray hleft
  obtain ⟨m, hmem, hname⟩ := (hm.taps name).mp htap
  exact hstray m hmem hname

def smallConfig : Config := ⟨0xC0000201, false, false⟩

def smallIpam : Ipam :=
  { network := ⟨0x0A000000, 24⟩, first := 0x0A000001, last := 0x0A0000FE
    gatewayIP := 0x0A000001, gatewayMAC := [2, 0, 0, 0, 0, 1]
    usedIPs := [0x0A000001], nextIP := 0x0A000001
    portMin := 30000, portMax := 30010, usedPorts := [], nextPort := 30000 }

theorem newIPAM_small :
    newIPAM ⟨0x0A000000, 24⟩ 0x0A000001 [2, 0, 0, 0, 0, 1] 30000 30010 = .ok smallIpam := rfl

/-- Two machines are provisioned and one is removed: the network is that of the other. -/
theorem network_matches_after_removal :
    ∃ g, Reaches (History.step smallConfig) History.Fresh (.start smallIpam) g ∧
      g.host.vms.length = 1 ∧ g.host.Matches smallConfig := by
  obtain ⟨g, hrun, hend⟩ := Reaches.exists_run (History.step smallConfig) History.Fresh
    (.start smallIpam)
    [(.provision "vm-1", []), (.provision "vm-2", []), (.deprovision "vm-1", [])]
    (fun g : History => g.host.vms.length = 1 && !g.left) (by decide +kernel)
  simp only [and_eq_true, decide_eq_true_eq, not_eq_true'] at hend
  exact ⟨g, hrun, hend.1, (network_matches_iff smallConfig _ _ _ _ _ _ newIPAM_small g hrun).mpr
    hend.2⟩

/-- Firecracker refuses the network interface of a new machine: the table stays empty and the
TAP stays. -/
theorem failed_boot_leaves_tap :
    ∃ g, Reaches (History.step smallConfig) History.Fresh (.start smallIpam) g ∧
      g.host.vms = [] ∧ ¬ g.host.Matches smallConfig := by
  obtain ⟨g, hrun, hend⟩ := Reaches.exists_run (History.step smallConfig) History.Fresh
    (.start smallIpam)
    [(.provision "vm-1", List.replicate 18 none ++ [some "connection refused"])]
    (fun g : History => g.host.vms.isEmpty && !g.host.taps.isEmpty) (by decide +kernel)
  simp only [and_eq_true, List.isEmpty_iff, not_eq_true', isEmpty_eq_false_iff] at hend
  refine ⟨g, hrun, hend.1, fun hm => ?_⟩
  obtain ⟨tap, htap⟩ := exists_mem_of_ne_nil _ hend.2
  obtain ⟨m, hmem, _⟩ := (hm.taps tap.1).mp (mem_map_of_mem htap)
  rw [hend.1] at hmem
  cases hmem

end Craftling.Dataplane

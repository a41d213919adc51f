import Craftling.Host.Conduct

namespace Craftling.Host
open Effects List Bool
open Control (ServerID VMID VMSpec Op)

def Runtime.processes (r : Runtime) : List Machine := r.machines.filter Machine.running ++ r.strays

def Runtime.usage (f : Machine → Nat) (r : Runtime) : Nat := (r.processes.map f).sum

def Static (f : Machine → Nat) : Prop := ∀ m proc tracked, f { m with proc, tracked } = f m

def Machine.held (f : Machine → Nat) (m : Machine) : Nat := if m.running then f m else 0

theorem sum_filter_running (f : Machine → Nat) (ms : List Machine) :
    ((ms.filter Machine.running).map f).sum = (ms.map (Machine.held f)).sum := by
  induction ms with
  | nil => rfl
  | cons m ms ih =>
    simp only [filter_cons, map_cons, sum_cons, Machine.held]
    split
    · rw [map_cons, sum_cons, ih]
    · rw [ih, Nat.zero_add]

section Usage

variable {r : Runtime} {v : VMID} {m : Machine}

theorem usage_eq (f : Machine → Nat) (r : Runtime) :
    r.usage f = (r.machines.map (Machine.held f)).sum + (r.strays.map f).sum := by
  rw [Runtime.usage, Runtime.processes, map_append, sum_append, sum_filter_running]

theorem Static.kill_le (hf : Static f) (m : Machine) : m.kill.held f ≤ m.held f := by
  have hs : f m.kill = f m := hf m _ _
  have hd : m.kill.running = false := by
    unfold Machine.kill Machine.running
    by_cases hp : m.proc = .unstarted <;> simp [hp]
  simp [Machine.held, hd]

theorem Static.exit_le (hf : Static f) (m : Machine) : m.exit.held f ≤ m.held f := by
  have hs : f m.exit = f m := hf m _ _
  have hr : m.exit.running = m.running := by
    unfold Machine.exit Machine.running
    by_cases hp : m.proc = .alive <;> simp [hp]
  simp [Machine.held, hr, hs]

theorem usage_modify_le (hg : ∀ m : Machine, (g m).held f ≤ m.held f) :
    (r.modify v g).usage f ≤ r.usage f := by
  rw [usage_eq, usage_eq]
  apply Nat.add_le_add_right
  change ((r.machines.modify v g).map (Machine.held f)).sum ≤ _
  cases hm : r.machines[v]? with
  | none => rw [modify_eq_self (List.getElem?_eq_none_iff.mp hm)]
  | some m =>
    have hs := sum_map_modify (Machine.held f) g hm
    have hl := hg m
    omega

theorem Static.usage_spawn (hf : Static f) (hm : r.machines[v]? = some m) :
    (r.spawn v).usage f = r.usage f + f m := by
  have hb : Machine.held f { m with proc := .alive } = f m := hf m _ _
  have hs := sum_map_modify (Machine.held f) (fun m => { m with proc := .alive }) hm
  have hl : (((some m).toList.filter Machine.running).map f).sum = m.held f := by
    unfold Machine.held
    cases hr : m.running <;> simp [hr]
  rw [usage_eq, usage_eq]
  change ((r.machines.modify v _).map _).sum +
    ((r.strays ++ r.machines[v]?.toList.filter Machine.running).map f).sum = _
  rw [map_append, sum_append, hm, hl]
  omega

theorem usage_append {spec : VMSpec} : Runtime.usage f { r with
      machines := r.machines ++ [⟨spec.serverID, spec.cpus, spec.memoryMB, .unstarted, false⟩] } =
    r.usage f := by
  simp [usage_eq, Machine.held, Machine.running]

theorem Static.usage_perform (hf : Static f) (cfg : Config) (fault : Option String)
    (he : ∀ v, e ≠ .spawn v) : (r.perform cfg fault e).2.usage f ≤ r.usage f := by
  have ht : ∀ b, ∀ m : Machine, Machine.held f { m with tracked := b } ≤ m.held f := by
    intro b m
    have hs : f { m with tracked := b } = f m := hf m _ _
    simp only [Machine.held, hs]
    exact Nat.le_refl _
  cases e with
  | newMachine spec =>
    cases fault with
    | some text => exact Nat.le_refl _
    | none => exact Nat.le_of_eq usage_append
  | spawn v => exact absurd rfl (he v)
  | insert v => exact usage_modify_le (ht true)
  | drop v => exact usage_modify_le (ht false)
  | powerOff v =>
    cases fault with
    | some text => exact Nat.le_refl _
    | none => exact usage_modify_le hf.kill_le
  | kill v => exact usage_modify_le hf.kill_le
  | snapshotRunning v key =>
    cases fault with
    | some text => exact Nat.le_refl _
    | none =>
      simp only [Runtime.perform]
      split <;> exact Nat.le_refl _
  | _ => cases fault <;> exact Nat.le_refl _

theorem Static.usage_event (hf : Static f) (w : Event) : (r.event w).usage f ≤ r.usage f := by
  cases w with
  | exit v => exact usage_modify_le hf.exit_le
  | exitStray i =>
    rw [usage_eq, usage_eq]
    apply Nat.add_le_add_left
    exact ((eraseIdx_sublist r.strays i).map f).sum_le_sum fun _ _ => Nat.zero_le _

end Usage

theorem vcpus_static : Static Machine.vcpus := fun _ _ _ => rfl

theorem memoryMB_static : Static Machine.memoryMB := fun _ _ _ => rfl

structure Room (cfg : Config) (cpus memMB : Nat) (r : Runtime) : Prop where
  cpus : r.usage Machine.vcpus + cpus ≤ cfg.cpusTotal
  memoryMB : r.usage Machine.memoryMB + memMB ≤ cfg.memoryMBTotal

def Sized (v : VMID) (cpus memMB : Nat) (r : Runtime) : Prop :=
  ∃ m, r.machines[v]? = some m ∧ m.vcpus = cpus ∧ m.memoryMB = memMB

def Roomy (cfg : Config) (_ : Nat) (_ : Op) (st : Stage) (r : Runtime) : Prop :=
  match st with
  | .found v cpus memMB => Sized v cpus memMB r
  | .checked cpus memMB => Room cfg cpus memMB r
  | .ready v cpus memMB => Sized v cpus memMB r ∧ Room cfg cpus memMB r
  | _ => True

/-- The command has been told that it fits, and has not booted its machine. -/
def Stage.promised : Stage → Bool
  | .checked _ _ => true
  | .ready _ _ _ => true
  | _ => false

def Alone (_ : Op) (st : Stage) (_ : Op) (st' : Stage) : Prop :=
  ¬ (st.promised = true ∧ st'.promised = true)

/-- When a command's capacity check passes, every process on the host is the process of a
tracked machine, and no other command stands between its own check and its boot. -/
def Seen (cfg : Config) (p : Commands) : Turn Op (Option String) Event → Prop
  | .turn i _ =>
    match p.next? i with
    | some (.checkCapacity cpus memMB) => p.shared.fits cfg cpus memMB = true →
        (∀ m ∈ p.shared.machines, m.running = true → m.tracked = true) ∧
        p.shared.strays = [] ∧
        ∀ i' < p.threads.length, i' ≠ i → ∀ t ∈ p.threads[i']?, t.stage.promised = false
    | _ => True
  | _ => True

instance (cfg : Config) (p : Commands) (l : Turn Op (Option String) Event) :
    Decidable (Seen cfg p l) := by
  unfold Seen
  split
  · split <;> infer_instance
  · infer_instance

section Steps

variable {cfg : Config} {cpus memMB : Nat} {r r' : Runtime} {v : VMID} {e : Call} {i : Nat} {j : Op}
    {st : Stage}

section

variable (h : Room cfg cpus memMB r)
include h

theorem Room.move (hc : r'.usage Machine.vcpus ≤ r.usage Machine.vcpus)
    (hm : r'.usage Machine.memoryMB ≤ r.usage Machine.memoryMB) : Room cfg cpus memMB r' :=
  ⟨Nat.le_trans (Nat.add_le_add_right hc _) h.cpus,
    Nat.le_trans (Nat.add_le_add_right hm _) h.memoryMB⟩

theorem Room.perform (he : ∀ v, e ≠ .spawn v) (fault : Option String) :
    Room cfg cpus memMB (r.perform cfg fault e).2 :=
  h.move (vcpus_static.usage_perform cfg fault he) (memoryMB_static.usage_perform cfg fault he)

theorem Room.event (w : Event) : Room cfg cpus memMB (r.event w) :=
  h.move (vcpus_static.usage_event w) (memoryMB_static.usage_event w)

theorem Room.spawn (hv : Sized v cpus memMB r) : Room cfg 0 0 (r.spawn v) := by
  obtain ⟨m, hm, rfl, rfl⟩ := hv
  constructor
  · rw [vcpus_static.usage_spawn hm]
    exact h.cpus
  · rw [memoryMB_static.usage_spawn hm]
    exact h.memoryMB

end

theorem Sized.perform (h : Sized v cpus memMB r) (fault : Option String) (e : Call) :
    Sized v cpus memMB (r.perform cfg fault e).2 := by
  obtain ⟨m, hm, rfl, rfl⟩ := h
  obtain ⟨m', hm', hmo⟩ := (r.perform_grows cfg fault e).old v m hm
  exact ⟨m', hm', hmo.vcpus, hmo.memoryMB⟩

theorem Sized.event (h : Sized v cpus memMB r) (w : Event) : Sized v cpus memMB (r.event w) := by
  obtain ⟨m, hm, rfl, rfl⟩ := h
  obtain ⟨m', hm', hk⟩ := (r.event_grows w).old v m hm
  exact ⟨m', hm', hk.vcpus, hk.memoryMB⟩

theorem Roomy.perform (h : Roomy cfg i j st r) (he : (∀ v, e ≠ .spawn v) ∨ st.promised = false)
    (fault : Option String) : Roomy cfg i j st (r.perform cfg fault e).2 := by
  cases st with
  | found v cpus memMB => exact Sized.perform h fault e
  | checked cpus memMB => exact Room.perform h (he.resolve_right (by simp [Stage.promised])) fault
  | ready v cpus memMB =>
    exact ⟨h.1.perform fault e, h.2.perform (he.resolve_right (by simp [Stage.promised])) fault⟩
  | _ => trivial

theorem Roomy.event (h : Roomy cfg i j st r) (w : Event) : Roomy cfg i j st (r.event w) := by
  cases st with
  | found v cpus memMB => exact Sized.event h w
  | checked cpus memMB => exact Room.event h w
  | ready v cpus memMB => exact ⟨h.1.event w, h.2.event w⟩
  | _ => trivial

theorem Room.of_fits (hc : 0 < cfg.cpusTotal) (hme : 0 < cfg.memoryMBTotal)
    (ht : ∀ m ∈ r.machines, m.running = true → m.tracked = true) (hs : r.strays = [])
    (hf : r.fits cfg cpus memMB = true) : Room cfg cpus memMB r := by
  have hco : r.counted = r.processes := by
    rw [Runtime.processes, hs, append_nil]
    apply filter_congr
    intro m hm
    cases hr : m.running with
    | false => rw [Bool.and_false]
    | true => rw [ht m hm hr, Bool.and_true]
  simp only [Runtime.fits, hco, hc, hme, decide_true, Bool.true_and, Bool.and_eq_true,
    Bool.not_eq_true', decide_eq_false_iff_not, Nat.not_lt] at hf
  exact ⟨hf.1, hf.2⟩

end Steps

structure Backed (cfg : Config) (p : Commands) : Prop where
  holds : (runtime cfg).Holds conduct (Room cfg 0 0) (Roomy cfg) p
  apart : System.Apart Alone p

section Runs

variable {cfg : Config} {p p' : Commands} {i : Nat} {fault : Option String} {j : Op} {st : Stage}
  {e : Call} {k : Answer e → Ops Outcome}

theorem Seen.check {k : Answer (.checkCapacity cpus memMB) → Ops Outcome}
    (hl : Seen cfg p (.turn i fault))
    (hi : p.threads[i]? = some ⟨j, st, .call (.checkCapacity cpus memMB) k⟩)
    (hf : p.shared.fits cfg cpus memMB = true) :
    (∀ m ∈ p.shared.machines, m.running = true → m.tracked = true) ∧ p.shared.strays = [] ∧
      ∀ i' t, i' ≠ i → p.threads[i']? = some t → t.stage.promised = false := by
  have hn : p.next? i = some (.checkCapacity cpus memMB) := by simp [Pool.next?, hi, Prog.next?]
  simp only [Seen, hn] at hl
  obtain ⟨htr, hs, ho⟩ := hl hf
  exact ⟨htr, hs, fun i' t hne ht =>
    ho i' (List.getElem?_eq_some_iff.mp ht).1 hne t ht⟩

theorem Roomy.next (hc : 0 < cfg.cpusTotal) (hme : 0 < cfg.memoryMBTotal)
    (hl : Seen cfg p (.turn i fault)) (hi : p.threads[i]? = some ⟨j, st, .call e k⟩)
    (ha : st.allows j e) (h : Roomy cfg i j st p.shared) :
    Roomy cfg i j (st.next e (p.shared.perform cfg fault e).1) (p.shared.perform cfg fault e).2 := by
  have hmo := Stage.next_moves ha (p.shared.perform cfg fault e).1
  generalize hr : (p.shared.perform cfg fault e).1 = r at hmo ⊢
  generalize st.next e r = st' at hmo ⊢
  cases hmo with
  | stay hn => exact h.perform (.inl fun v => (hn v).1) fault
  | finish => trivial
  | check _ =>
    have hf := Runtime.fits_of_ok hr
    obtain ⟨ht, hs, -⟩ := hl.check hi hf
    exact Room.of_fits hc hme ht hs hf
  | recheck hst =>
    subst hst
    have hf := Runtime.fits_of_ok hr
    obtain ⟨ht, hs, -⟩ := hl.check hi hf
    exact ⟨h, Room.of_fits hc hme ht hs hf⟩
  | find _ =>
    have hm := (Option.filter_eq_some_iff.mp hr).1
    exact ⟨_, hm, rfl, rfl⟩
  | drop _ => trivial
  | @make spec v hst =>
    subst hst
    cases fault with
    | some text => cases hr
    | none =>
      cases hr
      refine ⟨⟨_, List.getElem?_concat_length, rfl, rfl⟩, ?_⟩
      exact Room.perform (e := .newMachine spec) h (by simp) none
  | boot _ => trivial

theorem Room.step (h : Room cfg 0 0 p.shared) (ha : st.allows j e)
    (hs : Roomy cfg i j st p.shared) : Room cfg 0 0 (p.shared.perform cfg fault e).2 := by
  by_cases hsp : ∃ v, e = .spawn v
  · obtain ⟨v, rfl⟩ := hsp
    obtain ⟨cpus, memMB, rfl⟩ := ha
    cases fault with
    | some text => exact h
    | none => exact hs.2.spawn hs.1
  · exact h.perform (fun v hv => hsp ⟨v, hv⟩) fault

theorem Alone.others (h : Alone j st j' st') (ha : st.allows j e) :
    (∀ v, e ≠ .spawn v) ∨ st'.promised = false := by
  by_cases hs : ∃ v, e = .spawn v
  · obtain ⟨v, rfl⟩ := hs
    obtain ⟨cpus, memMB, rfl⟩ := ha
    right
    cases hp : st'.promised with
    | false => rfl
    | true => exact absurd ⟨rfl, hp⟩ h
  · exact .inl fun v hv => hs ⟨v, hv⟩

theorem Alone.next {t : Thread Op Stage Call Answer Outcome} {i' : Nat}
    (h : Alone j st t.job t.stage) (hl : Seen cfg p (.turn i fault))
    (hi : p.threads[i]? = some ⟨j, st, .call e k⟩) (ha : st.allows j e) (hn : i' ≠ i)
    (ht : p.threads[i']? = some t) :
    Alone j (st.next e (p.shared.perform cfg fault e).1) t.job t.stage := by
  have hm := Stage.next_moves ha (p.shared.perform cfg fault e).1
  generalize hr : (p.shared.perform cfg fault e).1 = r at hm ⊢
  rintro ⟨hs, ho⟩
  have hp : ∀ cpus memMB, p.shared.fits cfg cpus memMB = true →
      e = .checkCapacity cpus memMB → False := by
    intro cpus memMB hf he
    subst he
    rw [(hl.check hi hf).2.2 i' t hn ht] at ho
    cases ho
  generalize st.next e r = st' at hm hs
  cases hm with
  | stay _ => exact h ⟨hs, ho⟩
  | finish => cases hs
  | check _ | recheck _ => exact hp _ _ (Runtime.fits_of_ok hr) rfl
  | find _ | drop _ => cases hs
  | make hst =>
    subst hst
    exact h ⟨rfl, ho⟩
  | boot _ => cases hs

end Runs

theorem Backed.step (hc : 0 < cfg.cpusTotal) (hm : 0 < cfg.memoryMBTotal) (h : Backed cfg p)
    (hs : (runtime cfg).step p l = some p') (hl : Seen cfg p l) : Backed cfg p' := by
  constructor
  · apply System.Holds.step h.holds (runtime_keeps cfg) hs
    · intro j _
      trivial
    · intro i fault j st e k htu hi ha hst
      subst htu
      refine ⟨h.holds.shared.step ha hst, hst.next hc hm hl hi ha, ?_⟩
      intro i' t hn ht ho
      exact ho.perform ((h.apart i i' _ t hn.symm hi ht).others ha) fault
    · intro w r _ hw
      cases hw
      exact ⟨h.holds.shared.event w, fun i t _ ht => ht.event w⟩
  · apply System.Apart.step (fun j st j' st' h hb => h ⟨hb.2, hb.1⟩) h.apart hs
    · intro j _ t _ hb
      cases hb.1
    intro i fault j st e k htu hi i' t hn ht
    subst htu
    have ha := (h.holds.keeps _ (mem_of_getElem? hi)).1
    exact (h.apart i i' _ t hn.symm hi ht).next hl hi ha hn ht

/-- If each check sees all processes, those of a host never take more than it has. -/
theorem backstop_holds (cfg : Config) (hcpus : 0 < cfg.cpusTotal) (hmem : 0 < cfg.memoryMBTotal)
    (p : Commands)
    (hrun : Reaches (runtime cfg).step (fun q l _ => Seen cfg q l) Commands.init p) :
    (p.shared.processes.map Machine.vcpus).sum ≤ cfg.cpusTotal ∧
      (p.shared.processes.map Machine.memoryMB).sum ≤ cfg.memoryMBTotal := by
  have hbacked : Backed cfg p := by
    refine hrun.invariant (I := Backed cfg) ⟨.start ?_, ?_⟩
      fun q l q' hq hs hl => hq.step hcpus hmem hs hl
    · exact ⟨Nat.zero_le _, Nat.zero_le _⟩
    · intro i i' t t' _ ht
      cases ht
  exact ⟨hbacked.holds.shared.cpus, hbacked.holds.shared.memoryMB⟩

/-- A provision, its stop, a second provision, and a start of the first that finds no room. -/
theorem backstop_holds_small : ∃ p : Commands,
      Reaches (runtime smallHost).step (fun q l _ => Seen smallHost q l) Commands.init p ∧
      (p.threads.map (fun t => t.prog.result?) = [some (.vm 0 .running), some .done,
        some (.vm 1 .running), some (.failed "insufficient host capacity")] ∧
      (p.shared.processes.map Machine.vcpus).sum = 2) ∧
      (p.shared.processes.map Machine.vcpus).sum ≤ smallHost.cpusTotal := by
  exact Reaches.exists_then
    (.start (.provision (smallSpec 0)) :: List.replicate 8 (.turn 0 none) ++
      .start (.stop 0) :: List.replicate 5 (.turn 1 none) ++
      .start (.provision (smallSpec 1)) :: List.replicate 8 (.turn 2 none) ++
      .start (.start 0) :: List.replicate 3 (.turn 3 none)) (by decide +kernel)
    fun p hrun _ => (backstop_holds smallHost (by decide) (by decide) p hrun).1

/-- Two provisions pass the check before either has entered its machine. -/
theorem two_provisions_overcommit :
    ∃ p : Commands, Reaches (runtime smallHost).step (fun _ _ _ => True) Commands.init p ∧
      p.threads.map (fun t => t.prog.result?) =
        [some (.vm 0 .running), some (.vm 1 .running)] ∧
      (∀ m ∈ p.shared.machines, m.proc = .alive ∧ m.tracked = true) ∧
      smallHost.cpusTotal < (p.shared.machines.map Machine.vcpus).sum ∧
      smallHost.memoryMBTotal < (p.shared.machines.map Machine.memoryMB).sum := by
  exact Reaches.exists_check ([.start (.provision (smallSpec 0)), .start (.provision (smallSpec 1)),
      .turn 0 none, .turn 1 none] ++ List.replicate 7 (.turn 0 none) ++
      List.replicate 7 (.turn 1 none)) (by decide +kernel)

end Craftling.Host

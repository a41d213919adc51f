import Craftling.Host.Conduct
import Craftling.Control.Fleet

namespace Craftling.Host
open Effects List
open Control (ServerID VMID VMSpec Op Fleet Deployment)

def Free (key : ServerID) (r : Runtime) : Prop :=
  ∀ m ∈ r.machines, m.tracked = true → m.serverID ≠ key

instance (key : ServerID) (r : Runtime) : Decidable (Free key r) := by
  unfold Free
  infer_instance

def OnePerWorld (r : Runtime) : Prop :=
  ∀ (v v' : VMID) (m m' : Machine), r.machines[v]? = some m → r.machines[v']? = some m' →
    m.tracked = true → m'.tracked = true → m.serverID = m'.serverID → v = v'

def serverOf : Op → Option ServerID
  | .provision spec => some spec.serverID
  | _ => none

/-- The server whose world a command is at work on: a provision that has passed its capacity
check and not entered its machine, or a teardown that has taken its machine out. -/
def Stage.claim (j : Op) : Stage → Option ServerID
  | .checked _ _ => serverOf j
  | .ready _ _ _ => serverOf j
  | .booted _ => serverOf j
  | .dropped key => some key
  | _ => none

def Stage.machine : Stage → Option VMID
  | .ready v _ _ => some v
  | .booted v => some v
  | _ => none

/-- What a command may rely on: nobody has a machine for the world it is at work on, and the
machine of a provision is for its server. -/
structure Owning (_ : Nat) (j : Op) (st : Stage) (r : Runtime) : Prop where
  free : ∀ key, st.claim j = some key → Free key r
  machine : ∀ v key, st.machine = some v → serverOf j = some key →
    ∃ m, r.machines[v]? = some m ∧ m.serverID = key

/-- No two commands are at work on one world. -/
def Parted (j : Op) (st : Stage) (j' : Op) (st' : Stage) : Prop :=
  ∀ key, st.claim j = some key → st'.claim j' ≠ some key

/-- When a provision passes its capacity check, its server has no tracked machine, and no
other command is at work on its world. -/
def Single (cfg : Config) (p : Commands) : Turn Op (Option String) Event → Prop
  | .turn i _ =>
    match p.next? i with
    | some (.checkCapacity cpus memMB) => p.shared.fits cfg cpus memMB = true →
        ∀ t ∈ p.threads[i]?, ∀ key ∈ serverOf t.job, Free key p.shared ∧
          ∀ i' < p.threads.length, i' ≠ i → ∀ t' ∈ p.threads[i']?,
            t'.stage.claim t'.job ≠ some key
    | _ => True
  | _ => True

instance (cfg : Config) (p : Commands) (l : Turn Op (Option String) Event) :
    Decidable (Single cfg p l) := by
  unfold Single
  induction l using Turn.casesOn
  case turn i _ =>
    dsimp only
    generalize p.next? i = next
    induction next using Option.casesOn
    case some call => induction call using Call.casesOn <;> infer_instance
    infer_instance
  all_goals infer_instance

section Steps

variable {cfg : Config} {r : Runtime} {key : ServerID} {i : Nat} {j : Op} {st : Stage} {e : Call}
    {fault : Option String} {v : VMID}

theorem tracked_perform (hm' : (r.perform cfg fault e).2.machines[v]? = some m')
    (ht : m'.tracked = true) :
    ∃ m, r.machines[v]? = some m ∧ m'.serverID = m.serverID ∧
      (m.tracked = true ∨ e = .insert v) ∧ e ≠ .drop v := by
  rcases (r.perform_grows cfg fault e).new v m' hm' with ⟨m, hm, hmo⟩ | ⟨-, spec, -, rfl⟩
  · refine ⟨m, hm, hmo.serverID, ?_, ?_⟩
    · rcases hmo.tracked with hs | ⟨he, -⟩ | ⟨-, ho⟩
      · exact .inl (hs ▸ ht)
      · exact .inr he
      · rw [ho] at ht
        cases ht
    intro he
    subst he
    have ho : m'.tracked = false := by
      rw [show (r.perform cfg fault (.drop v)).2.machines =
        r.machines.modify v fun m => { m with tracked := false } from rfl,
        List.getElem?_modify, hm] at hm'
      cases hm'
      simp
    rw [ho] at ht
    cases ht
  · cases ht

theorem Free.perform (h : Free key r)
    (hi : ∀ v m, e = .insert v → r.machines[v]? = some m → m.serverID ≠ key) :
    Free key (r.perform cfg fault e).2 := by
  intro m' hm' ht
  obtain ⟨v, hv⟩ := mem_iff_getElem?.mp hm'
  obtain ⟨m, hm, hs, htr, -⟩ := tracked_perform hv ht
  rw [hs]
  rcases htr with ho | he
  · exact h m (mem_of_getElem? hm) ho
  · exact hi v m he hm

theorem Owning.perform (h : Owning i j st r)
    (hi : ∀ v m, e = .insert v → r.machines[v]? = some m → st.claim j ≠ some m.serverID) :
    Owning i j st (r.perform cfg fault e).2 := by
  constructor
  · intro key hk
    apply (h.free key hk).perform
    intro v m he hm hs
    exact hi v m he hm (hs ▸ hk)
  intro v key hv hk
  obtain ⟨m, hm, hs⟩ := h.machine v key hv hk
  obtain ⟨m', hm', hmo⟩ := (r.perform_grows cfg fault e).old v m hm
  exact ⟨m', hm', hmo.serverID.trans hs⟩

theorem Free.event (h : Free key r) (w : Event) : Free key (r.event w) := by
  intro m' hm' ht
  obtain ⟨v, hv⟩ := mem_iff_getElem?.mp hm'
  rcases (r.event_grows w).new v m' hv with ⟨m, hm, hk⟩ | ⟨-, hf⟩
  · rw [hk.serverID]
    exact h m (mem_of_getElem? hm) (hk.tracked ▸ ht)
  · cases hf

theorem Owning.event (h : Owning i j st r) (w : Event) : Owning i j st (r.event w) := by
  constructor
  · intro key hk
    exact (h.free key hk).event w
  intro v key hv hk
  obtain ⟨m, hm, hs⟩ := h.machine v key hv hk
  obtain ⟨m', hm', hke⟩ := (r.event_grows w).old v m hm
  exact ⟨m', hm', hke.serverID.trans hs⟩

theorem OnePerWorld.event (h : OnePerWorld r) (w : Event) : OnePerWorld (r.event w) := by
  intro v v' m m' hm hm' ht ht' hs
  rcases (r.event_grows w).new v m hm with ⟨x, hx, hk⟩ | ⟨-, hf⟩
  · rcases (r.event_grows w).new v' m' hm' with ⟨x', hx', hk'⟩ | ⟨-, hf⟩
    · apply h v v' x x' hx hx' (hk.tracked ▸ ht) (hk'.tracked ▸ ht')
      rw [← hk.serverID, ← hk'.serverID, hs]
    · cases hf
  · cases hf

theorem Owning.insert (h : Owning i j st r) (ha : st.allows j (.insert v)) :
    ∃ key, st.claim j = some key ∧ Free key r ∧
      ∀ m, r.machines[v]? = some m → m.serverID = key := by
  obtain ⟨rfl, spec, rfl⟩ := ha
  refine ⟨spec.serverID, rfl, h.free _ rfl, ?_⟩
  intro m hm
  obtain ⟨m', hm', hs⟩ := h.machine v _ rfl rfl
  rw [hm] at hm'
  cases hm'
  exact hs

theorem OnePerWorld.perform (h : OnePerWorld r) (hs : Owning i j st r)
    (ha : st.allows j e) : OnePerWorld (r.perform cfg fault e).2 := by
  intro v v' m m' hm hm' ht ht' hse
  obtain ⟨x, hx, hxs, htr, -⟩ := tracked_perform hm ht
  obtain ⟨x', hx', hxs', htr', -⟩ := tracked_perform hm' ht'
  have hsa : x.serverID = x'.serverID := by rw [← hxs, ← hxs', hse]
  rcases htr with ho | he
  · rcases htr' with ho' | he'
    · exact h v v' x x' hx hx' ho ho' hsa
    subst he'
    obtain ⟨key, -, hf, hfo⟩ := hs.insert ha
    exact absurd (hsa.trans (hfo x' hx')) (hf x (mem_of_getElem? hx) ho)
  subst he
  obtain ⟨key, -, hf, hfo⟩ := hs.insert ha
  rcases htr' with ho' | he'
  · exact absurd (hsa.symm.trans (hfo x hx)) (hf x' (mem_of_getElem? hx') ho')
  · exact Call.insert.inj he'

theorem OnePerWorld.dropped (h : OnePerWorld r) (hm : r.tracked v = some m) :
    Free m.serverID (r.perform cfg fault (.drop v)).2 := by
  obtain ⟨hg, htr⟩ := Option.filter_eq_some_iff.mp hm
  intro m' hm' ht hs
  obtain ⟨u, hu⟩ := mem_iff_getElem?.mp hm'
  obtain ⟨x, hx, hxs, ho, hn⟩ := tracked_perform hu ht
  have huv := h u v x m hx hg (ho.resolve_right (by simp)) htr (hxs ▸ hs)
  exact hn (by rw [huv])

end Steps

section Runs

variable {cfg : Config} {p p' : Commands} {i : Nat} {fault : Option String} {j : Op} {st : Stage}
  {e : Call} {k : Answer e → Ops Outcome}

theorem Single.check {u : Unit} {key : ServerID}
    {k : Answer (.checkCapacity cpus memMB) → Ops Outcome} (hl : Single cfg p (.turn i fault))
    (hi : p.threads[i]? = some ⟨j, st, .call (.checkCapacity cpus memMB) k⟩)
    (ho : (p.shared.perform cfg fault (.checkCapacity cpus memMB)).1 = .ok u)
    (hk : serverOf j = some key) :
    Free key p.shared ∧
      ∀ i' t', i' ≠ i → p.threads[i']? = some t' → t'.stage.claim t'.job ≠ some key := by
  have hn : p.next? i = some (.checkCapacity cpus memMB) := by simp [Pool.next?, hi, Prog.next?]
  simp only [Single, hn] at hl
  obtain ⟨hf, hot⟩ := hl (Runtime.fits_of_ok ho) _ hi key hk
  exact ⟨hf, fun i' t' hne ht' => hot i' (List.getElem?_eq_some_iff.mp ht').1 hne t' ht'⟩

theorem Owning.next (ho : OnePerWorld p.shared) (hl : Single cfg p (.turn i fault))
    (hi : p.threads[i]? = some ⟨j, st, .call e k⟩) (ha : st.allows j e)
    (h : Owning i j st p.shared) :
    Owning i j (st.next e (p.shared.perform cfg fault e).1) (p.shared.perform cfg fault e).2 := by
  have hm := Stage.next_moves ha (p.shared.perform cfg fault e).1
  generalize hr : (p.shared.perform cfg fault e).1 = r at hm ⊢
  generalize st.next e r = st' at hm ⊢
  cases hm with
  | stay hn => exact h.perform fun v _ he => absurd he (hn v).2
  | finish => exact ⟨by simp [Stage.claim], by simp [Stage.machine]⟩
  | check _ =>
    refine ⟨?_, by simp [Stage.machine]⟩
    intro key hk
    exact (hl.check hi hr hk).1
  | recheck hs =>
    -- only a start has found its machine before it checks
    subst hs
    rcases ha with ⟨hb, -⟩ | ⟨v, rfl, -⟩
    · cases hb
    · exact ⟨by simp [Stage.claim, serverOf], by simp [serverOf]⟩
  | find _ => exact ⟨by simp [Stage.claim], by simp [Stage.machine]⟩
  | drop _ =>
    refine ⟨?_, by simp [Stage.machine]⟩
    intro key hk
    cases hk
    exact ho.dropped hr
  | @make spec v hs =>
    subst hs
    obtain ⟨rfl, -⟩ := ha
    refine ⟨fun key hk => (h.free key hk).perform (by simp), ?_⟩
    intro v' key hv hk
    cases hv
    cases hk
    cases fault with
    | some text => cases hr
    | none =>
      cases hr
      exact ⟨_, List.getElem?_concat_length, rfl⟩
  | @boot v cpus memMB u hs =>
    subst hs
    have hsa : Owning i j (.ready v cpus memMB) (p.shared.perform cfg fault (.spawn v)).2 :=
      h.perform (by simp)
    exact ⟨hsa.free, hsa.machine⟩

theorem Parted.others (h : Parted j st j' st') (hs : Owning i j st p.shared) (ha : st.allows j e) :
    ∀ v m, e = .insert v → p.shared.machines[v]? = some m → st'.claim j' ≠ some m.serverID := by
  intro v m he hm
  subst he
  obtain ⟨key, hc, -, hf⟩ := hs.insert ha
  rw [hf m hm]
  exact h key hc

theorem Parted.next {t : Thread Op Stage Call Answer Outcome} {i' : Nat}
    (h : Parted j st t.job t.stage) (ho : Owning i' t.job t.stage p.shared)
    (hl : Single cfg p (.turn i fault)) (hi : p.threads[i]? = some ⟨j, st, .call e k⟩)
    (ha : st.allows j e) (hn : i' ≠ i) (ht : p.threads[i']? = some t) :
    Parted j (st.next e (p.shared.perform cfg fault e).1) t.job t.stage := by
  have hm := Stage.next_moves ha (p.shared.perform cfg fault e).1
  generalize hr : (p.shared.perform cfg fault e).1 = r at hm ⊢
  generalize st.next e r = st' at hm ⊢
  intro key hk
  cases hm with
  | stay _ => exact h key hk
  | finish => cases hk
  | check _ => exact (hl.check hi hr hk).2 i' t hn ht
  | recheck hs =>
    subst hs
    rcases ha with ⟨hb, -⟩ | ⟨v, rfl, -⟩
    · cases hb
    · cases hk
  | find _ => cases hk
  | drop _ =>
    -- the machine was tracked, so that nobody else can have been at work on its world
    cases hk
    intro hc
    obtain ⟨hg, htr⟩ := Option.filter_eq_some_iff.mp hr
    exact ho.free _ hc _ (mem_of_getElem? hg) htr rfl
  | make hs | boot hs =>
    subst hs
    exact h key hk

end Runs

structure Owned (cfg : Config) (p : Commands) : Prop where
  holds : (runtime cfg).Holds conduct OnePerWorld Owning p
  apart : System.Apart Parted p

theorem Parted.symm (j : Op) (st : Stage) (j' : Op) (st' : Stage) (h : Parted j st j' st') :
    Parted j' st' j st :=
  fun key hk hc => h key hc hk

variable {p : Commands} {cfg : Config}

theorem Owned.step (h : Owned cfg p) (hs : (runtime cfg).step p l = some p') (hl : Single cfg p l) :
    Owned cfg p' := by
  constructor
  · apply System.Holds.step h.holds (runtime_keeps cfg) hs
    · intro j _
      refine ⟨?_, ?_⟩
      · intro key hk
        cases hk
      · intro v key hv
        cases hv
    · intro i fault j st e k htu hi ha hst
      subst htu
      refine ⟨h.holds.shared.perform hst ha, hst.next h.holds.shared hl hi ha, ?_⟩
      intro i' t hn ht ho
      exact ho.perform ((h.apart i i' _ t hn.symm hi ht).others hst ha)
    · intro w r _ hw
      cases hw
      exact ⟨h.holds.shared.event w, fun i t _ ht => ht.event w⟩
  · apply System.Apart.step Parted.symm h.apart hs
    · intro j _ t _ key hk
      cases hk
    intro i fault j st e k htu hi i' t hn ht
    subst htu
    have ha := (h.holds.keeps _ (mem_of_getElem? hi)).1
    exact (h.apart i i' _ t hn.symm hi ht).next (h.holds.threads i' t ht) hl hi ha hn ht

theorem Owned.claims (h : Owned cfg p)
    (hn : p.next? i = some (.removeDisk key) ∨ p.next? i = some (.deleteWorld key)) :
    Free key p.shared := by
  have ht : ∀ e, p.next? i = some e → (e = .removeDisk key ∨ e = .deleteWorld key) →
      Free key p.shared := by
    intro e he hc
    simp only [Pool.next?, Option.bind_eq_some_iff] at he
    obtain ⟨⟨j, st, prog⟩, hi, hp⟩ := he
    cases prog with
    | done a => cases hp
    | call e' k =>
      cases hp
      have ha := (h.holds.keeps _ (mem_of_getElem? hi)).1
      have hs : st = .dropped key := by rcases hc with rfl | rfl <;> exact ha
      apply (h.holds.threads i _ hi).free
      rw [hs]
      rfl
  rcases hn with he | he
  · exact ht _ he (.inl rfl)
  · exact ht _ he (.inr rfl)

/-- With one provision at a world, no two machines have it and none in use is removed. -/
theorem one_vm_per_world (cfg : Config) (p : Commands)
    (hrun : Reaches (runtime cfg).step (fun q l _ => Single cfg q l) Commands.init p) :
    OnePerWorld p.shared ∧
      ∀ i key, (p.next? i = some (.removeDisk key) ∨ p.next? i = some (.deleteWorld key)) →
        ∀ m ∈ p.shared.machines, m.tracked = true → m.serverID ≠ key := by
  have howned : Owned cfg p := by
    refine hrun.invariant (I := Owned cfg) ⟨.start ?_, ?_⟩ fun q l q' hq hs hl => hq.step hs hl
    · intro v v' m m' hm
      cases hm
    · intro i i' t t' _ ht
      cases ht
  exact ⟨howned.holds.shared, fun i key hnext => howned.claims hnext⟩

def roomyHost : Config := ⟨4, 4096, true, true⟩

def roomyHosts : Deployment := ⟨⟨30, true⟩, fun a => ⟨some a, "h", 4, 4096⟩⟩

/-- A server is provisioned and evicted, and provisioned again. -/
theorem one_vm_per_world_moved : ∃ p : Commands,
      Reaches (runtime roomyHost).step (fun q l _ => Single roomyHost q l) Commands.init p ∧
      (p.threads.map (fun t => t.prog.result?) =
        [some (.vm 0 .running), some .done, some (.vm 1 .running)] ∧
      p.shared.machines.map Machine.tracked = [false, true]) ∧ OnePerWorld p.shared := by
  exact Reaches.exists_then
    (.start (.provision (smallSpec 0)) :: List.replicate 8 (.turn 0 none) ++
      .start (.evict 0) :: List.replicate 4 (.turn 1 none) ++
      .start (.provision (smallSpec 0)) :: List.replicate 8 (.turn 2 none)) (by decide +kernel)
    fun p hrun _ => (one_vm_per_world roomyHost p hrun).1

/-- The commands of a provision whose reply is lost, its repetition, and the stop of the
server that follows. -/
def repeated : List Op := [.provision (smallSpec 0), .provision (smallSpec 0), .stop 1, .evict 1]

/-- The control plane restarts while the agent provisions a server, provisions it again, and
stops it when its owner asks for that. -/
def sentAgain : List Control.Label :=
  Control.toProvision ++ [.exec 0 .fine, .restartControl] ++ Control.joins 0 1 ++
    .tick :: List.replicate 5 Control.plain ++ Control.commanded 1 ++
    List.replicate 3 Control.plain ++ [.setDesired 0 .stopped, .tick] ++
    List.replicate 4 Control.plain ++ Control.commanded 2 ++ Control.commanded 3

/-- The control plane sends these commands to one agent. The agent then runs two machines on
the server's one disk, and the eviction of the second takes the disk from the first. -/
theorem repeated_provision_shares_world :
    (∃ f : Fleet, Reaches (Control.step roomyHosts) (fun _ _ _ => True) Fleet.init f ∧
      f.calls.map Control.HubCall.op = repeated ∧
      f.calls.map Control.HubCall.cmd = [.executed (.ok (some ⟨0, "h", 25565, .running, none⟩)),
        .executed (.ok (some ⟨1, "h", 25565, .running, none⟩)), .executed (.ok none),
        .executed (.ok none)] ∧
      ∀ c ∈ f.calls, f.streams[c.conn]?.map Control.Stream.agent = some 0) ∧
    (∃ p : Commands, Reaches (runtime roomyHost).step (fun _ _ _ => True) Commands.init p ∧
      p.threads.map (fun t => t.job) = repeated.take 2 ∧
      p.shared.machines.map (fun m => (m.serverID, m.proc, m.tracked)) =
        [(0, .alive, true), (0, .alive, true)]) ∧
    ∃ p : Commands, Reaches (runtime roomyHost).step (fun _ _ _ => True) Commands.init p ∧
      p.threads.map (fun t => t.job) = repeated ∧
      p.shared.machines.map (fun m => (m.serverID, m.proc, m.tracked)) =
        [(0, .alive, true), (0, .reaped, false)] ∧
      p.shared.disks 0 = false := by
  refine ⟨?_, ?_, ?_⟩
  · exact Reaches.exists_check sentAgain (by decide +kernel)
  · exact Reaches.exists_check
      (.start (.provision (smallSpec 0)) :: List.replicate 8 (.turn 0 none) ++
        .start (.provision (smallSpec 0)) :: List.replicate 8 (.turn 1 none)) (by decide +kernel)
  · exact Reaches.exists_check
      (.start (.provision (smallSpec 0)) :: List.replicate 8 (.turn 0 none) ++
        .start (.provision (smallSpec 0)) :: List.replicate 8 (.turn 1 none) ++
        .start (.stop 1) :: List.replicate 5 (.turn 2 none) ++
        .start (.evict 1) :: List.replicate 4 (.turn 3 none)) (by decide +kernel)

end Craftling.Host

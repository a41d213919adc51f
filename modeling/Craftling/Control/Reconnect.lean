import Craftling.Control.Hub

namespace Craftling.Control
open Effects List

def Ready (hosts : List Host) (h : HostID) : Prop :=
  ∃ x, findHost hosts h = some x ∧ x.status = .ready

instance (hosts : List Host) (h : HostID) : Decidable (Ready hosts h) :=
  decidable_of_iff ((findHost hosts h).any (·.status = .ready)) (by
    simp [Ready, Option.any_eq_true])

section Inventory

variable {hosts hosts' : List Host} {h id : HostID} {g : Host → Host}

theorem findHost_map (hg : ∀ x, (g x).id = x.id) :
    findHost (hosts.map g) h = (findHost hosts h).map g := by
  unfold findHost
  induction hosts with
  | nil => rfl
  | cons x rest ih =>
    simp only [map_cons, List.find?_cons, hg]
    split
    · rfl
    · exact ih

theorem Ready.map (hr : Ready hosts h) (hg : ∀ x, (g x).id = x.id)
    (hs : ∀ x, x.id = h → x.status = .ready → (g x).status = .ready) :
    Ready (hosts.map g) h := by
  obtain ⟨x, hx, hre⟩ := hr
  have hi : x.id = h := by simpa using List.find?_some hx
  refine ⟨g x, ?_, hs x hi hre⟩
  rw [findHost_map hg, hx]
  rfl

theorem Ready.updateHost (hr : Ready hosts h) (hg : ∀ x, (g x).id = x.id)
    (hs : ∀ x, x.id = h → x.id = id → x.status = .ready → (g x).status = .ready) :
    Ready (updateHost hosts id g) h := by
  apply hr.map
  · intro x
    split
    · exact hg x
    · rfl
  · intro x hi hre
    split
    · rename_i he
      exact hs x hi he hre
    · exact hre

theorem Ready.append (hr : Ready hosts h) (more : List Host) : Ready (hosts ++ more) h := by
  obtain ⟨x, hx, hre⟩ := hr
  refine ⟨x, ?_, hre⟩
  unfold findHost at hx ⊢
  rw [List.find?_append, hx]
  rfl

theorem registerReserved_ready {fresh : Bool}
    (hre : registerReserved hosts info id fresh cpus memMB now = some hosts') :
    Ready hosts' id ∧ ∀ h, Ready hosts h → Ready hosts' h := by
  rcases registerReserved_eq hre with ⟨hm, rfl⟩ | ⟨hn, rfl, -⟩
  · obtain ⟨y, hy, hyi⟩ := mem_map.mp hm
    obtain ⟨x, hx⟩ : ∃ x, findHost hosts id = some x := Option.isSome_iff_exists.mp (by
        rw [findHost, List.find?_isSome]
        exact ⟨y, hy, by simpa using hyi⟩)
    have hi : x.id = id := by simpa using List.find?_some hx
    constructor
    · refine ⟨x.reregistered info now, ?_, rfl⟩
      unfold updateHost
      rw [findHost_map (by intro x; split <;> rfl), hx, Option.map_some, if_pos hi]
    · intro h hr
      exact hr.updateHost (fun _ => rfl) fun _ _ _ _ => rfl
  · have hf : findHost hosts id = none := by
      apply List.find?_eq_none.mpr
      intro x hx hxi
      apply hn
      exact mem_map.mpr ⟨x, hx, by simpa using hxi⟩
    refine ⟨⟨info.registered id cpus memMB now, ?_, rfl⟩, fun h hr => hr.append _⟩
    unfold findHost at hf ⊢
    rw [List.find?_append, hf]
    simp [LinkInfo.registered]

end Inventory

def Stream.isOpen (s : Stream) : Bool := s.phase = .registered || s.phase = .serving

def DownsClosed (f : Fleet) : Label → Prop
  | .markDown c => ∀ s ∈ f.streams[c]?, ∀ h ∈ s.host, ∀ s' ∈ f.streams,
      s'.host = some h → s'.isOpen = false
  | .reapHosts ttl => ∀ x ∈ f.hosts, x.lastHeartbeatAt < f.clock - ttl → ∀ s ∈ f.streams,
      s.host = some x.id → s.isOpen = false
  | _ => True

instance (f : Fleet) (l : Label) : Decidable (DownsClosed f l) := by
  induction l using Label.casesOn <;> unfold DownsClosed <;> infer_instance

def OpenReady (f : Fleet) : Prop :=
  ∀ s ∈ f.streams, s.isOpen = true → ∀ h, s.host = some h → Ready f.hosts h

section Step

variable {d : Deployment} {f f' : Fleet} {l : Label} {h : HostID}

theorem answer_ready (hr : Ready f.hosts h) : Ready (f.answer fault order e).2.hosts h := by
  cases e with
  | reserve id cpus memMB =>
    simp only [Fleet.answer]
    split
    · exact hr
    rename_i hosts ho
    obtain ⟨x, -, -, -, -, rfl⟩ := reserve_ok ho
    exact hr.updateHost (fun _ => rfl) fun _ _ _ hre => hre
  | release id cpus memMB => exact hr.updateHost (fun _ => rfl) fun _ _ _ hre => hre
  | _ => first | exact hr | (cases fault <;> exact hr)

theorem step_ready (hs : step d f l = some f') (hre : l ≠ .restartControl) (hl : DownsClosed f l)
    (hm : s ∈ f.streams) (ho : s.isOpen = true) (hh : s.host = some h) (hr : Ready f.hosts h) :
    Ready f'.hosts h := by
  have hk : f'.hosts = f.hosts → Ready f'.hosts h := by
    intro he
    rw [he]
    exact hr
  cases l with
  | register c id =>
    obtain ⟨s', cpus, memMB, hosts, -, -, hreg, rfl⟩ := registerStep_eq hs
    exact (registerReserved_ready hreg).2 h hr
  | heartbeat c =>
    obtain ⟨id, rfl⟩ := heartbeatStep_eq hs
    change Ready (heartbeat f.hosts id f.clock) h
    unfold heartbeat
    apply hr.updateHost
    · intro x
      rfl
    · intro x _ _ hrea
      simp [hrea]
  | markDown c =>
    obtain ⟨a, id, hc, rfl⟩ := markDownStep_eq hs
    change Ready (markDown f.hosts id) h
    unfold markDown
    apply hr.updateHost
    · intro x
      rfl
    · intro x hx hi _
      have hcl := hl ⟨a, some id, .removed⟩ (by rw [hc]; rfl) id rfl s hm
      rw [← hi, hx] at hcl
      rw [hcl hh] at ho
      cases ho
  | reapHosts ttl =>
    cases hs
    obtain ⟨x, hx, hrea⟩ := hr
    have hi : x.id = h := by simpa using List.find?_some hx
    have hf : ¬ x.lastHeartbeatAt < f.clock - ttl := by
      intro hst
      rw [hl x (mem_of_find?_eq_some hx) hst s hm (hi ▸ hh)] at ho
      cases ho
    refine ⟨x, ?_, hrea⟩
    unfold markStale
    rw [findHost_map (by intro x; split <;> rfl), hx, Option.map_some, if_neg hf]
  | act fault order =>
    obtain ⟨e, k, st, -, -, rfl⟩ := actStep_eq hs
    rw [Fleet.resume_hosts]
    exact answer_ready hr
  | issue =>
    obtain ⟨host, op, k, st, -, ⟨-, rfl⟩ | ⟨c, -, rfl⟩⟩ := issueStep_eq hs
    · exact hk (Fleet.resume_hosts ..)
    · exact hk rfl
  | collect =>
    obtain ⟨host, op, k, st, i, c, r, -, -, -, rfl⟩ := collectStep_eq hs
    exact hk (Fleet.resume_hosts ..)
  | expire =>
    obtain ⟨host, op, k, st, i, c, -, -, -, -, rfl⟩ := expireStep_eq hs
    exact hk (Fleet.resume_hosts ..)
  | tick => exact hk (by rw [(tick_eq hs).2])
  | restartControl => exact absurd rfl hre
  | _ => exact hk ((step_leaves hs rfl).hosts rfl)

theorem OpenReady.step (h : OpenReady f) (hs : step d f l = some f') (hl : DownsClosed f l) :
    OpenReady f' := by
  intro s' hm' ho' host hh'
  by_cases hr : l = .restartControl
  · subst hr
    cases hs
    obtain ⟨s, -, rfl⟩ := mem_map.mp hm'
    cases ho'
  obtain ⟨k, hk'⟩ := mem_iff_getElem?.mp hm'
  have ho : ∀ s, f.streams[k]? = some s → s.isOpen = true → s.host = some host →
      Ready f'.hosts host := by
    intro s hk hop hh
    have hm := mem_of_getElem? hk
    exact step_ready hs hr hl hm hop hh (h s hm hop host hh)
  rcases (step_streams hs hr).new k s' hk' with ⟨s, hk, hmo⟩ | ⟨-, hn, -⟩
  · cases hmo with
    | same => exact ho s' hk ho' hh'
    | register id hreg _ =>
      -- the stream has just been registered
      subst hreg
      cases hh'
      obtain ⟨_, cpus, memMB, hosts, -, -, hrea, rfl⟩ := registerStep_eq hs
      exact (registerReserved_ready hrea).1
    | add hp => exact ho s hk (by simp [Stream.isOpen, hp]) hh'
    | _ => cases ho'
  · rw [hn] at hh'
    cases hh'

end Step

/-- If only closed hosts are marked down, a host whose stream is served is ready. -/
theorem connected_host_ready (d : Deployment) (f : Fleet)
    (hrun : Reaches (step d) (fun g l _ => DownsClosed g l) .init f) (h : HostID) (k : Nat)
    (s : Stream) (hreg : f.registry h = some k) (hs : f.streams[k]? = some s)
    (hserving : s.phase = .serving) : Ready f.hosts h := by
  have hinv : Wired f ∧ OpenReady f := by
    refine hrun.invariant (I := fun g => Wired g ∧ OpenReady g) ⟨.init, ?_⟩ ?_
    · intro s hmem
      cases hmem
    · intro g l g' hg hstep hl
      exact ⟨hg.1.step hstep, hg.2.step hstep hl⟩
  obtain ⟨s', hs', hhost⟩ := hinv.1.registry h k hreg
  rw [hs] at hs'
  cases hs'
  exact hinv.2 s (mem_of_getElem? hs) (by simp [Stream.isOpen, hserving]) h hhost

/-- A host loses its stream, the teardown ends, and the agent connects again. -/
theorem connected_host_ready_rejoined :
    ∃ f, Reaches (step oneHost) (fun g l _ => DownsClosed g l) .init f ∧ (f.registry 0 = some 1 ∧
      f.streams[1]? = some ⟨0, some 0, .serving⟩) ∧ Ready f.hosts 0 := by
  exact Reaches.exists_then (joins 0 0 ++ [.streamEnd 0, .remove 0, .markDown 0] ++ joins 0 1)
    (by decide +kernel) fun f hrun hf => connected_host_ready oneHost f hrun 0 1 _ hf.1 hf.2 rfl

/-- The agent connects again before the handler of its old stream has got to the mark-down,
which then takes down the host that has just been registered. -/
theorem late_teardown_marks_down :
    ∃ f, Reaches (step oneHost) (fun _ _ _ => True) .init f ∧ f.registry 0 = some 1 ∧
      f.streams = [⟨0, some 0, .returned⟩, ⟨0, some 0, .serving⟩] ∧ ¬ Ready f.hosts 0 := by
  exact Reaches.exists_check (joins 0 0 ++ [.streamEnd 0] ++ joins 0 1 ++ [.remove 0, .markDown 0])
    (by decide +kernel)

end Craftling.Control

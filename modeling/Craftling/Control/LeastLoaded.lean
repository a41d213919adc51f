import Craftling.Control.Placement

namespace Craftling.Control
open Effects List

/-- A program over the inventory that nothing else comes between. Other calls than the inventory's
have no answer here. -/
def runAlone (order : HostOrder) : Act α → List Host → Option (List Host × α)
  | .done a, hosts => some (hosts, a)
  | .call .listReady k, hosts => runAlone order (k (.ok (order.arrange (listReady hosts)))) hosts
  | .call (.reserve id cpus memMB) k, hosts =>
    match reserve hosts id cpus memMB with
    | .error e => runAlone order (k (.error e)) hosts
    | .ok hosts' => runAlone order (k (.ok ())) hosts'
  | .call (.release id cpus memMB) k, hosts =>
    runAlone order (k (.ok ())) (release hosts id cpus memMB)
  | _, _ => none

structure Host.Fit (s : GameServer) (h : Host) : Prop where
  ready : h.status = .ready
  cpus : s.cpus ≤ h.cpusAllocatable
  memory : s.memoryMB ≤ h.memoryMBAllocatable

/-- One host has at least as much free memory as another, and at least as many free cpus if the
memory is the same. -/
def Host.Freer (h x : Host) : Prop :=
  x.memoryMBAllocatable < h.memoryMBAllocatable ∨
    (x.memoryMBAllocatable = h.memoryMBAllocatable ∧ x.cpusAllocatable ≤ h.cpusAllocatable)

def Host.taken (s : GameServer) (h : Host) : Host :=
  { h with
    cpusAllocatable := h.cpusAllocatable - s.cpus
    memoryMBAllocatable := h.memoryMBAllocatable - s.memoryMB }

def Host.capped (h : Host) : Host :=
  { h with
    cpusAllocatable := min h.cpusAllocatable h.cpusTotal
    memoryMBAllocatable := min h.memoryMBAllocatable h.memoryMBTotal }

section Alone

variable {hosts : List Host} {s : GameServer} {order : HostOrder} {h : Host}

theorem fittingHosts_sorted (hosts : List Host) (cpus memMB : Nat) :
    (fittingHosts hosts cpus memMB).Pairwise Host.Freer := by
  have : Std.Total fun a b : Host => a.memoryMBAllocatable > b.memoryMBAllocatable ∨
      (a.memoryMBAllocatable = b.memoryMBAllocatable ∧ a.cpusAllocatable ≥ b.cpusAllocatable) :=
    ⟨fun a b => by omega⟩
  have : IsTrans Host fun a b => a.memoryMBAllocatable > b.memoryMBAllocatable ∨
      (a.memoryMBAllocatable = b.memoryMBAllocatable ∧ a.cpusAllocatable ≥ b.cpusAllocatable) :=
    ⟨fun a b c => by omega⟩
  refine (pairwise_insertionSort _ _).imp fun {a b} ha => ?_
  exact ha.imp id fun h => ⟨h.1.symm, h.2⟩

theorem mem_candidates :
    h ∈ fittingHosts (order.arrange (listReady hosts)) s.cpus s.memoryMB ↔ h ∈ hosts ∧ h.Fit s := by
  rw [mem_fittingHosts, (order.perm _).mem_iff, mem_listReady]
  constructor
  · rintro ⟨⟨hh, hr⟩, hc, hm⟩
    exact ⟨hh, hr, hc, hm⟩
  · rintro ⟨hh, hf⟩
    exact ⟨⟨hh, hf.ready⟩, hf.cpus, hf.memory⟩

theorem first_candidate
    (hf : fittingHosts (order.arrange (listReady hosts)) s.cpus s.memoryMB = h :: rest) :
    h ∈ hosts ∧ h.Fit s ∧ ∀ x ∈ hosts, x.Fit s → h.Freer x := by
  have hs := fittingHosts_sorted (order.arrange (listReady hosts)) s.cpus s.memoryMB
  rw [hf, pairwise_cons] at hs
  obtain ⟨hh, hfi⟩ := mem_candidates.mp (hf ▸ mem_cons_self ..)
  refine ⟨hh, hfi, fun x hx hxf => ?_⟩
  have hi : x ∈ h :: rest := hf ▸ mem_candidates.mpr ⟨hx, hxf⟩
  rcases mem_cons.mp hi with rfl | hi
  · exact .inr ⟨rfl, Nat.le_refl _⟩
  · exact hs.1 x hi

theorem reserve_fit (hn : (hosts.map Host.id).Nodup) (hh : h ∈ hosts) (hf : h.Fit s) :
    reserve hosts h.id s.cpus s.memoryMB = .ok (updateHost hosts h.id (Host.taken s)) := by
  have hr : ¬(h.cpusAllocatable < s.cpus || h.memoryMBAllocatable < s.memoryMB) = true := by
    have hc := hf.cpus
    have hm := hf.memory
    simp only [Bool.or_eq_true, decide_eq_true_eq]
    omega
  rw [reserve, findHost_of_mem hn hh]
  dsimp only
  rw [if_neg (not_not.mpr hf.ready), if_neg hr]
  rfl

theorem schedule_alone (order : HostOrder) (s : GameServer) (hosts : List Host) :
    runAlone order (schedule s) hosts = runAlone order (reserveFirst s.cpus s.memoryMB
      (fittingHosts (order.arrange (listReady hosts)) s.cpus s.memoryMB)) hosts := rfl

theorem schedule_outcome (order : HostOrder) (s : GameServer) (hn : (hosts.map Host.id).Nodup) :
    (runAlone order (schedule s) hosts = some (hosts, .error .noCapacity) ∧ ∀ x ∈ hosts, ¬x.Fit s) ∨
      ∃ h ∈ hosts, h.Fit s ∧ (∀ x ∈ hosts, x.Fit s → h.Freer x) ∧
        runAlone order (schedule s) hosts =
          some (updateHost hosts h.id (Host.taken s), .ok h.id) := by
  rw [schedule_alone]
  cases hl : fittingHosts (order.arrange (listReady hosts)) s.cpus s.memoryMB with
  | nil =>
    refine .inl ⟨rfl, fun x hx hf => ?_⟩
    have hi : x ∈ fittingHosts (order.arrange (listReady hosts)) s.cpus s.memoryMB :=
      mem_candidates.mpr ⟨hx, hf⟩
    rw [hl] at hi
    cases hi
  | cons h rest =>
    obtain ⟨hh, hf, hfr⟩ := first_candidate hl
    refine .inr ⟨h, hh, hf, hfr, ?_⟩
    rw [reserveFirst_cons, runAlone, reserve_fit hn hh hf]
    rfl

theorem updateHost_updateHost {id : HostID} (hf : ∀ h, (f h).id = h.id) :
    updateHost (updateHost hosts id f) id g = updateHost hosts id fun h => g (f h) := by
  rw [updateHost, updateHost, map_map]
  apply map_congr_left
  intro h _
  by_cases hi : h.id = id
  · simp [hi, hf]
  · simp [hi]

theorem release_taken (hn : (hosts.map Host.id).Nodup) (hf : h.Fit s) {front back : List Host}
    (hs : hosts = front ++ h :: back) :
    release (updateHost hosts h.id (Host.taken s)) h.id s.cpus s.memoryMB =
      front ++ h.capped :: back := by
  have hc := hf.cpus
  have hm := hf.memory
  rw [release, updateHost_updateHost (f := Host.taken s) fun _ => rfl]
  subst hs
  rw [updateHost_at hn]
  simp only [Host.taken, Host.capped, Nat.sub_add_cancel hc, Nat.sub_add_cancel hm]

/-- A call that nothing comes between ends, with a host exactly if one can take the server. It is
one that no other is freer than, and it alone has less: exactly the server's share. A call that
finds none changes nothing. If the share is returned at once, the host has what it had, but no more
than its total. -/
theorem schedule_least_loaded (hosts : List Host) (hn : (hosts.map Host.id).Nodup) (s : GameServer)
    (order : HostOrder) :
    ∃ hosts' r, runAlone order (schedule s) hosts = some (hosts', r) ∧
      ((∃ id, r = .ok id) ↔ ∃ h ∈ hosts, h.Fit s) ∧
      (∀ id, r = .ok id → ∃ front h back, hosts = front ++ h :: back ∧ h.id = id ∧ h.Fit s ∧
        (∀ x ∈ hosts, x.Fit s → h.Freer x) ∧ hosts' = front ++ h.taken s :: back ∧
        (h.taken s).cpusAllocatable + s.cpus = h.cpusAllocatable ∧
        (h.taken s).memoryMBAllocatable + s.memoryMB = h.memoryMBAllocatable ∧
        release hosts' id s.cpus s.memoryMB = front ++ h.capped :: back) ∧
      ∀ e, r = .error e → e = .noCapacity ∧ hosts' = hosts := by
  rcases schedule_outcome order s hn with
    ⟨hrun, hnone⟩ | ⟨h, hh, hfit, hfreest, hrun⟩
  · refine ⟨hosts, .error .noCapacity, hrun, ?_, nofun, fun e he => ?_⟩
    · constructor
      · rintro ⟨id, hid⟩
        cases hid
      · rintro ⟨x, hx, hxfit⟩
        exact absurd hxfit (hnone x hx)
    · cases he
      exact ⟨rfl, rfl⟩
  · refine ⟨_, .ok h.id, hrun, ⟨fun _ => ⟨h, hh, hfit⟩, fun _ => ⟨h.id, rfl⟩⟩, fun id hid => ?_, nofun⟩
    cases hid
    obtain ⟨front, back, hsplit⟩ := append_of_mem hh
    refine ⟨front, h, back, hsplit, rfl, hfit, hfreest, ?_, Nat.sub_add_cancel hfit.cpus,
      Nat.sub_add_cancel hfit.memory, release_taken hn hfit hsplit⟩
    subst hsplit
    exact updateHost_at hn _

end Alone

def twoHosts : List Host :=
  [⟨1, "a", 4, 4096, 2, 2048, .ready, 0⟩, ⟨2, "b", 4, 4096, 4, 4096, .ready, 0⟩]

theorem freer_host_chosen :
    ∃ hosts' id, runAlone .asListed (schedule (oneServer.row 0)) twoHosts = some (hosts', .ok id) ∧
      ∃ h ∈ twoHosts, h.id = id ∧ 4096 ≤ h.memoryMBAllocatable := by
  obtain ⟨hosts', r, hrun, hsucceeds, hchosen, _⟩ :=
    schedule_least_loaded twoHosts (by decide) (oneServer.row 0) .asListed
  have hroom : (⟨2, "b", 4, 4096, 4, 4096, .ready, 0⟩ : Host).Fit (oneServer.row 0) :=
    ⟨rfl, by decide, by decide⟩
  obtain ⟨id, rfl⟩ := hsucceeds.mpr ⟨_, by simp [twoHosts], hroom⟩
  obtain ⟨front, h, back, hsplit, hid, _, hfreest, _⟩ := hchosen id rfl
  refine ⟨hosts', id, hrun, h, hsplit ▸ by simp, hid, ?_⟩
  rcases hfreest _ (by simp [twoHosts]) hroom with hless | ⟨hsame, _⟩
  · exact Nat.le_of_lt hless
  · exact Nat.le_of_eq hsame

def halvedCalls : List InventoryCall :=
  [.register ⟨some 1, "a", 4, 4096⟩ 1 [] 0, .register ⟨some 1, "a", 2, 2048⟩ 1 [] 1]

theorem halved_host_not_restored : ∃ x, Reaches Inventory.step (fun _ _ _ => True) ⟨[], []⟩ x ∧
      ∃ hosts', runAlone .asListed (schedule (oneServer.row 0)) x.hosts = some (hosts', .ok 1) ∧
        release hosts' 1 2 2048 ≠ x.hosts := by
  obtain ⟨x, hx, hhosts⟩ := Reaches.exists_run Inventory.step (fun _ _ _ => True)
    ⟨[], []⟩ halvedCalls (fun x => x.hosts = [⟨1, "a", 2, 2048, 4, 4096, .ready, 1⟩]) (by decide)
  refine ⟨x, hx, ?_⟩
  rw [of_decide_eq_true hhosts]
  exact ⟨[⟨1, "a", 2, 2048, 2, 2048, .ready, 1⟩], rfl, by decide⟩

end Craftling.Control

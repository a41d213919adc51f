import Craftling.Control.Inventory

namespace Craftling.Control
open Effects List

structure Attempt where
  host : HostID
  before : List Host
  after : List Host

/-- A call of `Schedule`: the inventory at its snapshot, what it has tried since, and whether what
it took has been returned. -/
structure Placing where
  server : GameServer
  prog : Act (Except Err HostID)
  seen : Option (List Host)
  tried : List Attempt
  released : Bool

structure Scheduling where
  hosts : List Host
  calls : List Placing

structure HostOrder where
  arrange : List Host → List Host
  perm : ∀ hosts, (arrange hosts).Perm hosts

def HostOrder.asListed : HostOrder := ⟨id, fun _ => .rfl⟩

inductive SchedulingStep where
  | schedule (s : GameServer)
  | turn (i : Nat) (order : HostOrder)
  | heartbeat (id : HostID) (now : Time)
  | markDown (id : HostID)
  | markStale (cutoff : Time)
  | release (i : Nat)

namespace Placing

def begin (s : GameServer) : Placing := ⟨s, Control.schedule s, none, [], false⟩

def holding (c : Placing) : Option Holding :=
  match c.prog.result? with
  | some (.ok h) => if c.released then none else some ⟨h, c.server.cpus, c.server.memoryMB⟩
  | _ => none

def turn (c : Placing) (order : HostOrder) (hosts : List Host) : Option (List Host × Placing) :=
  match c.prog with
  | .call .listReady k =>
    some (hosts, { c with prog := k (.ok (order.arrange (listReady hosts))), seen := some hosts })
  | .call (.reserve id cpus memMB) k =>
    match reserve hosts id cpus memMB with
    | .error e =>
      some (hosts, { c with prog := k (.error e), tried := c.tried ++ [⟨id, hosts, hosts⟩] })
    | .ok hosts' =>
      some (hosts', { c with prog := k (.ok ()), tried := c.tried ++ [⟨id, hosts, hosts'⟩] })
  | _ => none

end Placing

namespace Scheduling

def outstanding (x : Scheduling) : List Holding := x.calls.filterMap Placing.holding

def step (x : Scheduling) : SchedulingStep → Option Scheduling
  | .schedule s => some { x with calls := x.calls ++ [.begin s] }
  | .turn i order =>
    x.calls[i]?.bind fun c => (c.turn order x.hosts).map fun r =>
      ⟨r.1, x.calls.modify i fun _ => r.2⟩
  | .heartbeat id now => some { x with hosts := heartbeat x.hosts id now }
  | .markDown id => some { x with hosts := markDown x.hosts id }
  | .markStale cutoff => some { x with hosts := markStale x.hosts cutoff }
  | .release i =>
    x.calls[i]?.bind fun c => c.holding.map fun r =>
      ⟨release x.hosts r.host r.cpus r.memoryMB, x.calls.modify i fun c => { c with released := true }⟩

end Scheduling

def Host.Unfit (s : GameServer) (h : Host) : Prop :=
  h.status ≠ .ready ∨ h.cpusAllocatable < s.cpus ∨ h.memoryMBAllocatable < s.memoryMB

def UnfitIn (s : GameServer) (hosts : List Host) (id : HostID) : Prop :=
  ∃ h ∈ hosts, h.id = id ∧ h.Unfit s

def Attempt.Refused (s : GameServer) (a : Attempt) : Prop :=
  a.after = a.before ∧ UnfitIn s a.before a.host

/-- One host was ready, had room and now has that much less. -/
def Attempt.Taken (s : GameServer) (a : Attempt) : Prop :=
  ∃ front h back, a.before = front ++ h :: back ∧ h.id = a.host ∧ h.status = .ready ∧
    s.cpus ≤ h.cpusAllocatable ∧ s.memoryMB ≤ h.memoryMBAllocatable ∧
      a.after = front ++ { h with
        cpusAllocatable := h.cpusAllocatable - s.cpus
        memoryMBAllocatable := h.memoryMBAllocatable - s.memoryMB } :: back

/-- A call that succeeds takes its share once, from the host that it names. One that fails takes
nothing, and it fails for want of capacity only. -/
def Placing.Honest (hosts : List Host) (c : Placing) : Prop :=
  match c.prog.result? with
  | none => ∀ a ∈ c.tried, a.Refused c.server
  | some (.ok id) => ∃ tried a, c.tried = tried ++ [a] ∧ a.host = id ∧ a.Taken c.server ∧
      ∀ a ∈ tried, a.Refused c.server
  | some (.error e) => e = .noCapacity ∧ (∀ a ∈ c.tried, a.Refused c.server) ∧
      ∀ h ∈ hosts, (∃ seen, c.seen = some seen ∧ UnfitIn c.server seen h.id) ∨
        ∃ a ∈ c.tried, a.host = h.id ∧ UnfitIn c.server a.before h.id

/-- The hosts between two heartbeats: only reservations change what they have left, and none has
more left than it has in all. -/
structure FixedFleet where
  hosts : List Host
  ids : (hosts.map Host.id).Nodup
  room : ∀ res : Resource, ∀ h ∈ hosts, res.allocatable h ≤ res.total h

/-- What every host has left is what it had at first less what is placed there. -/
def Scheduling.Exact (fleet : FixedFleet) (x : Scheduling) : Prop :=
  x.hosts.map Host.id = fleet.hosts.map Host.id ∧
    ∀ res : Resource, ∀ h ∈ x.hosts, ∃ h0 ∈ fleet.hosts, h0.id = h.id ∧
      res.allocatable h + res.owed h.id x.outstanding = res.allocatable h0

section Reserving

variable {hosts hosts' : List Host} {id : HostID} {h : Host}

theorem findHost_some (h : findHost hosts id = some x) : x ∈ hosts ∧ x.id = id := by
  rw [findHost] at h
  exact ⟨mem_of_find?_eq_some h, by simpa using List.find?_some h⟩

theorem findHost_of_mem (hn : (hosts.map Host.id).Nodup) (hh : h ∈ hosts) :
    findHost hosts h.id = some h := by
  cases hf : findHost hosts h.id with
  | none =>
    have hs := findHost_isSome.mpr (mem_map_of_mem (f := Host.id) hh)
    rw [hf] at hs
    cases hs
  | some x =>
    obtain ⟨hx, hi⟩ := findHost_some hf
    rw [eq_of_id hn hx hh hi]

theorem updateHost_of_not_mem (h : id ∉ hosts.map Host.id) : updateHost hosts id g = hosts := by
  refine (map_congr_left fun x hx => ?_).trans (map_id hosts)
  have hn : x.id ≠ id := fun hi => h (hi ▸ mem_map_of_mem hx)
  rw [if_neg hn]
  rfl

theorem updateHost_at {front back : List Host} (hn : ((front ++ h :: back).map Host.id).Nodup)
    (g : Host → Host) : updateHost (front ++ h :: back) h.id g = front ++ g h :: back := by
  rw [map_append, map_cons, nodup_append, nodup_cons] at hn
  have hf : h.id ∉ front.map Host.id := fun hm =>
    hn.2.2 h.id hm h.id (.head _) rfl
  have hs : updateHost (front ++ h :: back) h.id g =
      updateHost front h.id g ++ g h :: updateHost back h.id g := by
    rw [updateHost, map_append, map_cons, if_pos rfl]
    rfl
  rw [hs, updateHost_of_not_mem hf, updateHost_of_not_mem hn.2.1.1]

theorem updateHost_split (hn : (hosts.map Host.id).Nodup) (hh : h ∈ hosts) (g : Host → Host) :
    ∃ front back, hosts = front ++ h :: back ∧ updateHost hosts h.id g = front ++ g h :: back := by
  obtain ⟨front, back, rfl⟩ := append_of_mem hh
  exact ⟨front, back, rfl, updateHost_at hn g⟩

variable {s : GameServer}

theorem reserve_taken (hn : (hosts.map Host.id).Nodup)
    (h : reserve hosts id s.cpus s.memoryMB = .ok hosts') :
    (⟨id, hosts, hosts'⟩ : Attempt).Taken s := by
  unfold reserve at h
  cases hf : findHost hosts id with
  | none =>
    rw [hf] at h
    cases h
  | some x =>
    rw [hf] at h
    dsimp only at h
    split at h
    · cases h
    rename_i hr
    split at h
    · cases h
    rename_i hfi
    simp only [Bool.or_eq_true, decide_eq_true_eq, not_or, not_lt] at hfi
    obtain ⟨hx, rfl⟩ := findHost_some hf
    obtain ⟨front, back, hh, ha⟩ := updateHost_split hn hx fun h =>
        { h with
          cpusAllocatable := h.cpusAllocatable - s.cpus
          memoryMBAllocatable := h.memoryMBAllocatable - s.memoryMB }
    refine ⟨front, x, back, hh, rfl, not_not.mp hr, hfi.1, hfi.2, ?_⟩
    rw [← ha]
    exact (Except.ok.inj h).symm

theorem reserve_refused (hi : id ∈ hosts.map Host.id)
    (h : reserve hosts id s.cpus s.memoryMB = .error e) :
    (⟨id, hosts, hosts⟩ : Attempt).Refused s := by
  refine ⟨rfl, ?_⟩
  unfold reserve at h
  cases hf : findHost hosts id with
  | none =>
    exact absurd (findHost_isSome.mpr hi) (by rw [hf]; exact Bool.false_ne_true)
  | some x =>
    rw [hf] at h
    dsimp only at h
    obtain ⟨hx, hi⟩ := findHost_some hf
    refine ⟨x, hx, hi, ?_⟩
    split at h
    · rename_i hr
      exact .inl hr
    split at h
    · rename_i hfi
      simp only [Bool.or_eq_true, decide_eq_true_eq] at hfi
      exact .inr hfi
    · cases h

end Reserving

/-- The hosts that could take the server at the snapshot have been tried or are still to be. -/
structure Canvassed (s : GameServer) (ids : List HostID) (seen : List Host) (tried : List Attempt)
    (rest : List Host) : Prop where
  same : seen.map Host.id = ids
  known : ∀ h ∈ rest, h.id ∈ ids
  every : ∀ h ∈ seen, h.Unfit s ∨ (∃ a ∈ tried, a.host = h.id) ∨ ∃ h' ∈ rest, h'.id = h.id
  refused : ∀ a ∈ tried, a.Refused s

inductive Placing.Along (ids : List HostID) : Placing → Prop where
  | begun (s : GameServer) : Placing.Along ids (.begin s)
  | trying {s : GameServer} {seen : List Host} {tried : List Attempt} {rest : List Host}
      (h : Canvassed s ids seen tried rest) :
      Placing.Along ids ⟨s, reserveFirst s.cpus s.memoryMB rest, some seen, tried, false⟩
  | placed {s : GameServer} {seen : Option (List Host)} {tried : List Attempt} {a : Attempt}
      {released : Bool} (hrefused : ∀ a ∈ tried, a.Refused s) (htaken : a.Taken s) :
      Placing.Along ids ⟨s, .done (.ok a.host), seen, tried ++ [a], released⟩

section Turning

variable {ids : List HostID} {hosts hosts' : List Host} {order : HostOrder} {s : GameServer}
    {h : Host} {tried : List Attempt} {rest seen : List Host}

theorem mem_fittingHosts : h ∈ fittingHosts hosts cpus memMB ↔
      h ∈ hosts ∧ cpus ≤ h.cpusAllocatable ∧ memMB ≤ h.memoryMBAllocatable := by
  rw [fittingHosts, mem_insertionSort, mem_filter]
  simp

theorem mem_listReady : h ∈ listReady hosts ↔ h ∈ hosts ∧ h.status = .ready := by
  simp [listReady, listHosts]

theorem Canvassed.snapshot (hi : hosts.map Host.id = ids) : Canvassed s ids hosts []
      (fittingHosts (order.arrange (listReady hosts)) s.cpus s.memoryMB) := by
  have hm : ∀ h, h ∈ order.arrange (listReady hosts) ↔ h ∈ hosts ∧ h.status = .ready := fun h =>
    ((order.perm _).mem_iff).trans mem_listReady
  refine ⟨hi, fun h hh => ?_, fun h hh => ?_, nofun⟩
  · have hho := ((hm h).mp (mem_fittingHosts.mp hh).1).1
    exact hi ▸ mem_map_of_mem hho
  by_cases hf : h.Unfit s
  · exact .inl hf
  · simp only [Host.Unfit, not_or, not_not, not_lt] at hf
    exact .inr (.inr ⟨h, mem_fittingHosts.mpr ⟨(hm h).mpr ⟨hh, hf.1⟩, hf.2⟩, rfl⟩)

theorem Canvassed.refuse (hc : Canvassed s ids seen tried (h :: rest)) (ha : a.host = h.id)
    (hr : a.Refused s) : Canvassed s ids seen (tried ++ [a]) rest := by
  refine ⟨hc.same, fun x hx => hc.known x (.tail _ hx), fun x hx => ?_, fun b hb => ?_⟩
  · rcases hc.every x hx with hx | ⟨b, hb, hi⟩ | ⟨y, hy, hi⟩
    · exact .inl hx
    · exact .inr (.inl ⟨b, mem_append_left _ hb, hi⟩)
    rcases mem_cons.mp hy with rfl | hy
    · exact .inr (.inl ⟨a, mem_append_right _ (mem_singleton_self a), ha.trans hi⟩)
    · exact .inr (.inr ⟨y, hy, hi⟩)
  rcases mem_append.mp hb with hb | hb
  · exact hc.refused b hb
  · rw [mem_singleton.mp hb]
    exact hr

theorem reserveFirst_cons (cpus memMB : Nat) (h : Host) (rest : List Host) :
    reserveFirst cpus memMB (h :: rest) = .call (.reserve h.id cpus memMB) fun r =>
      match r with
      | .ok _ => .done (.ok h.id)
      | .error _ => reserveFirst cpus memMB rest := by
  rfl

theorem holding_trying :
    (⟨s, reserveFirst s.cpus s.memoryMB rest, some seen, tried, false⟩ : Placing).holding = none := by
  cases rest <;> rfl

theorem Placing.Along.turn {c c' : Placing} (h : c.Along ids) (hn : ids.Nodup)
    (hi : hosts.map Host.id = ids) (ht : c.turn order hosts = some (hosts', c')) :
    c'.Along ids ∧ c.holding = none ∧
      ((hosts' = hosts ∧ c'.holding = none) ∨
        ∃ id cpus memMB, reserve hosts id cpus memMB = .ok hosts' ∧
          c'.holding = some ⟨id, cpus, memMB⟩) := by
  cases h with
  | begun s =>
    cases ht
    exact ⟨.trying (.snapshot hi), rfl, .inl ⟨rfl, holding_trying⟩⟩
  | @trying s seen tried rest hc =>
    refine ⟨?_, holding_trying, ?_⟩
    all_goals cases rest with
      | nil => cases ht
      | cons x rest => ?_
    all_goals
      rw [reserveFirst_cons] at ht
      simp only [Placing.turn] at ht
      cases hr : reserve hosts x.id s.cpus s.memoryMB with
      | error e => ?_
      | ok hosts'' => ?_
      all_goals
        rw [hr] at ht
        cases ht
    · have hm : x.id ∈ hosts.map Host.id := hi ▸ hc.known x (.head _)
      exact .trying (hc.refuse rfl (reserve_refused hm hr))
    · exact .placed hc.refused (reserve_taken (hi ▸ hn) hr)
    · exact .inl ⟨rfl, holding_trying⟩
    · exact .inr ⟨_, _, _, hr, rfl⟩
  | placed hre hta => cases ht

end Turning

section Outstanding

variable {calls : List Placing} {i : Nat} {c : Placing}

def Placing.share (res : Resource) (h : HostID) (c : Placing) : Nat :=
  (c.holding.map (res.holds h)).getD 0

theorem owed_holdings (res : Resource) (h : HostID) : res.owed h (calls.filterMap Placing.holding) =
    (calls.map (Placing.share res h)).sum := by
  induction calls with
  | nil => rfl
  | cons c calls ih =>
    rw [map_cons, sum_cons, ← ih, filterMap_cons, Placing.share]
    cases c.holding with
    | none => exact (Nat.zero_add _).symm
    | some r => rfl

theorem owed_modify (hc : calls[i]? = some c) (g : Placing → Placing) (res : Resource) (h : HostID) :
    res.owed h ((calls.modify i g).filterMap Placing.holding) + c.share res h =
      res.owed h (calls.filterMap Placing.holding) + (g c).share res h := by
  rw [owed_holdings, owed_holdings]
  exact sum_map_modify (Placing.share res h) g hc

theorem mem_modify (hc : calls[i]? = some c) (h : c' ∈ calls.modify i g) :
    c' ∈ calls ∨ c' = g c := by
  obtain ⟨j, hj⟩ := List.getElem?_of_mem h
  rw [List.getElem?_modify] at hj
  split at hj
  · rename_i hi
    rw [← hi, hc] at hj
    exact .inr (Option.some.inj hj).symm
  · have ho : calls[j]? = some c' := by simpa using hj
    exact .inl (mem_of_getElem? ho)

theorem Placing.Along.release (h : c.Along ids) (hr : c.holding = some r) :
    Placing.Along ids { c with released := true } := by
  cases h with
  | begun s => cases hr
  | trying hc =>
    rw [holding_trying] at hr
    cases hr
  | placed hre ht => exact .placed hre ht

theorem holding_released (c : Placing) : Placing.holding { c with released := true } = none := by
  unfold Placing.holding
  dsimp only
  split <;> rfl

end Outstanding

def FixedFleet.initially (fleet : FixedFleet) (res : Resource) (h : Host) : Nat :=
  ((findHost fleet.hosts h.id).map res.allocatable).getD 0

namespace Scheduling

structure Sound (fleet : FixedFleet) (x : Scheduling) : Prop where
  accounted : Booked fleet.initially x.hosts x.outstanding
  ids : x.hosts.map Host.id = fleet.hosts.map Host.id
  along : ∀ c ∈ x.calls, c.Along (fleet.hosts.map Host.id)

variable {fleet : FixedFleet} {x x' : Scheduling} {hosts : List Host} {i : Nat} {c : Placing}

theorem initially_lasting : Lasting fleet.initially := by
  intro res h h' hi _
  rw [FixedFleet.initially, FixedFleet.initially, hi]

theorem initially_eq (hh : h ∈ fleet.hosts) (res : Resource) :
    fleet.initially res h = res.allocatable h := by
  rw [FixedFleet.initially, findHost_of_mem fleet.ids hh]
  rfl

theorem Sound.init : Sound fleet ⟨fleet.hosts, []⟩ := by
  refine ⟨⟨fleet.ids, fun res h hh => ?_, fun res h hh => ?_⟩, rfl, fun c hc => absurd hc not_mem_nil⟩
  · exact (initially_eq hh res).symm
  · rw [initially_eq hh]
    exact fleet.room res h hh

theorem Sound.of_ledger (h : Sound fleet x)
    (hl : hosts.map Host.ledger = x.hosts.map Host.ledger) : Sound fleet { x with hosts } :=
  ⟨h.accounted.of_ledger initially_lasting hl, (ids_of_ledger hl).trans h.ids, h.along⟩

theorem ledger_markStale (hosts : List Host) (cutoff : Time) :
    (markStale hosts cutoff).map Host.ledger = hosts.map Host.ledger := by
  rw [markStale, map_map]
  refine map_congr_left fun h _ => ?_
  rw [Function.comp_apply]
  split <;> rfl

theorem Sound.turn (h : Sound fleet x) {order : HostOrder} (hc : x.calls[i]? = some c)
    (ht : c.turn order x.hosts = some (hosts, c')) :
    Sound fleet ⟨hosts, x.calls.modify i fun _ => c'⟩ := by
  obtain ⟨hal, hn, hca⟩ := (h.along c (mem_of_getElem? hc)).turn fleet.ids h.ids ht
  have hs : ∀ (res : Resource) (id : HostID), c.share res id = 0 := fun res id => by
    rw [Placing.share, hn]
    rfl
  have hcal : ∀ a ∈ x.calls.modify i fun _ => c', a.Along (fleet.hosts.map Host.id) := by
    intro a ha
    rcases mem_modify hc ha with ha | rfl
    · exact h.along a ha
    · exact hal
  rcases hca with ⟨rfl, hn'⟩ | ⟨id, cpus, memMB, hr, hso⟩
  · refine ⟨⟨h.accounted.ids, fun res y hy => ?_, h.accounted.room⟩, h.ids, hcal⟩
    have ho := owed_modify hc (fun _ => c') res y.id
    rw [hs, Placing.share, hn'] at ho
    have hb := h.accounted.books res y hy
    rw [← hb]
    exact congrArg (res.allocatable y + ·) ho
  have hi : hosts.map Host.id = x.hosts.map Host.id := by
    obtain ⟨y, _, _, _, _, rfl⟩ := reserve_ok hr
    exact ids_updateHost fun _ => rfl
  refine ⟨h.accounted.reserve initially_lasting hr fun res j => ?_, hi.trans h.ids, hcal⟩
  have ho := owed_modify hc (fun _ => c') res j
  rw [hs, Placing.share, hso] at ho
  exact ho

theorem Sound.release (h : Sound fleet x) (hc : x.calls[i]? = some c) (hr : c.holding = some r) :
    Sound fleet ⟨Control.release x.hosts r.host r.cpus r.memoryMB,
      x.calls.modify i fun c => { c with released := true }⟩ := by
  refine ⟨h.accounted.release initially_lasting fun res j => ?_, ?_, fun a ha => ?_⟩
  · have ho := owed_modify hc (fun c => { c with released := true }) res j
    rw [Placing.share, Placing.share, holding_released, hr] at ho
    exact ho
  · have hi : (Control.release x.hosts r.host r.cpus r.memoryMB).map Host.id = x.hosts.map Host.id :=
      ids_updateHost fun _ => rfl
    exact hi.trans h.ids
  have hal := h.along c (mem_of_getElem? hc)
  rcases mem_modify hc ha with ha | rfl
  · exact h.along a ha
  · exact hal.release hr

theorem Sound.step (h : Sound fleet x) (hs : x.step l = some x') : Sound fleet x' := by
  cases l with
  | schedule s =>
    cases hs
    refine ⟨?_, h.ids, fun c hc => ?_⟩
    · rw [outstanding, filterMap_append]
      exact (append_nil x.outstanding).symm ▸ h.accounted
    rcases mem_append.mp hc with hc | hc
    · exact h.along c hc
    · rw [mem_singleton.mp hc]
      exact .begun s
  | turn i order =>
    obtain ⟨c, hc, hre⟩ := Option.bind_eq_some_iff.mp hs
    obtain ⟨⟨hosts, c'⟩, ht, rfl⟩ := Option.map_eq_some_iff.mp hre
    exact h.turn hc ht
  | heartbeat id now | markDown id =>
    cases hs
    exact h.of_ledger (ledger_updateHost fun _ _ _ => rfl)
  | markStale cutoff =>
    cases hs
    exact h.of_ledger (ledger_markStale x.hosts cutoff)
  | release i =>
    obtain ⟨c, hc, hre⟩ := Option.bind_eq_some_iff.mp hs
    obtain ⟨r, hr, rfl⟩ := Option.map_eq_some_iff.mp hre
    exact h.release hc hr

theorem Sound.exact (h : Sound fleet x) : x.Exact fleet := by
  refine ⟨h.ids, fun res y hy => ?_⟩
  have hm : y.id ∈ fleet.hosts.map Host.id := h.ids ▸ mem_map_of_mem hy
  obtain ⟨y0, hy0, hi⟩ := mem_map.mp hm
  refine ⟨y0, hy0, hi, ?_⟩
  rw [← initially_eq hy0 res, FixedFleet.initially, hi]
  exact h.accounted.books res y hy

end Scheduling

variable {hosts : List Host}

theorem Canvassed.spent (hc : Canvassed s (hosts.map Host.id) seen tried []) (hh : h ∈ hosts) :
    UnfitIn s seen h.id ∨ ∃ a ∈ tried, a.host = h.id ∧ UnfitIn s a.before h.id := by
  have hm : h.id ∈ seen.map Host.id := hc.same ▸ mem_map_of_mem hh
  obtain ⟨y, hy, hi⟩ := mem_map.mp hm
  rcases hc.every y hy with hu | ⟨a, ha, hho⟩ | ⟨y', hy', _⟩
  · exact .inl ⟨y, hy, hi, hu⟩
  · have hh' : a.host = h.id := hho.trans hi
    exact .inr ⟨a, ha, hh', hh' ▸ (hc.refused a ha).2⟩
  · cases hy'

theorem Placing.Along.honest {c : Placing} (h : c.Along (hosts.map Host.id)) : c.Honest hosts := by
  cases h with
  | begun s => exact nofun
  | @trying s seen tried rest hc =>
    cases rest with
    | nil =>
      refine ⟨rfl, hc.refused, fun h hh => ?_⟩
      exact (hc.spent hh).imp (fun hu => ⟨seen, rfl, hu⟩) id
    | cons y rest => exact hc.refused
  | @placed s seen tried a released hr ht => exact ⟨tried, a, rfl, rfl, ht, hr⟩

/-- Whatever the order in which calls see the fleet, reserve, and are released, and hosts come and
go meanwhile: nothing is taken twice or lost, and every call tells what it did. -/
theorem placement_race_safe (fleet : FixedFleet) {x : Scheduling}
    (h : Reaches Scheduling.step (fun _ _ _ => True) ⟨fleet.hosts, []⟩ x) :
    x.Exact fleet ∧ ∀ c ∈ x.calls, c.Honest fleet.hosts := by
  have hsound : Scheduling.Sound fleet x :=
    h.invariant (I := Scheduling.Sound fleet) .init fun _ _ _ hx hs _ => hx.step hs
  exact ⟨hsound.exact, fun c hc => (hsound.along c hc).honest⟩

def tightFleet : FixedFleet where
  hosts := [⟨1, "a", 3, 4096, 3, 4096, .ready, 0⟩]
  ids := by decide
  room res := by cases res <;> decide

def racingCalls : List SchedulingStep :=
  [.schedule (oneServer.row 0), .schedule (oneServer.row 1), .turn 0 .asListed, .turn 1 .asListed,
    .turn 1 .asListed, .turn 0 .asListed]

theorem race_settled : ∃ x, Reaches Scheduling.step (fun _ _ _ => True) ⟨tightFleet.hosts, []⟩ x ∧
      x.calls.map (·.prog.result?) = [some (.error .noCapacity), some (.ok 1)] ∧
      x.Exact tightFleet ∧ ∀ c ∈ x.calls, c.Honest tightFleet.hosts := by
  exact Reaches.exists_then racingCalls (by decide) fun _ hx _ => placement_race_safe tightFleet hx

end Craftling.Control

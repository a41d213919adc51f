import Craftling.Control.Capacity

namespace Craftling.Control
open Effects List

structure Holding where
  host : HostID
  cpus : Nat
  memoryMB : Nat
  deriving DecidableEq, Repr

def Resource.holds (res : Resource) (h : HostID) (x : Holding) : Nat :=
  if x.host = h then res.pick x.cpus x.memoryMB else 0

def Resource.owed (res : Resource) (h : HostID) (out : List Holding) : Nat :=
  (out.map (res.holds h)).sum

section Owed

variable {res : Resource} {h : HostID} {out : List Holding}

theorem owed_concat (x : Holding) : res.owed h (out ++ [x]) = res.owed h out + res.holds h x := by
  simp [Resource.owed]

theorem owed_eraseIdx (hj : out[j]? = some x) :
    res.owed h (out.eraseIdx j) + res.holds h x = res.owed h out := by
  induction out generalizing j with
  | nil => cases hj
  | cons y out ih =>
    cases j with
    | zero =>
      cases hj
      simp only [Resource.owed, eraseIdx_cons_zero, map_cons, sum_cons]
      omega
    | succ j =>
      have hr := ih hj
      simp only [Resource.owed, eraseIdx_cons_succ, map_cons, sum_cons] at hr ⊢
      omega

end Owed

/-- What a host has left and what is out make up its `base`, which fits in its total. -/
structure Booked (base : Resource → Host → Nat) (hosts : List Host) (out : List Holding) : Prop where
  ids : (hosts.map Host.id).Nodup
  books : ∀ res, ∀ h ∈ hosts, res.allocatable h + res.owed h.id out = base res h
  room : ∀ res, ∀ h ∈ hosts, base res h ≤ res.total h

def Lasting (base : Resource → Host → Nat) : Prop :=
  ∀ res h h', h'.id = h.id → res.total h' = res.total h → base res h' = base res h

section Accounting

variable {hosts hosts' : List Host} {out out' : List Holding} {id : HostID}

section

variable (hb : Lasting base) (h : Booked base hosts out)
include hb h

theorem Booked.change (hi : ∀ x, (g x).id = x.id)
    (ht : ∀ (res : Resource) x, res.total (g x) = res.total x)
    (hh : ∀ res : Resource, ∀ x ∈ hosts, x.id = id → res.allocatable (g x) + res.owed id out' =
      res.allocatable x + res.owed id out)
    (he : ∀ (res : Resource) i, i ≠ id → res.owed i out' = res.owed i out) :
    Booked base (updateHost hosts id g) out' := by
  refine ⟨?_, ?_, ?_⟩
  · rw [ids_updateHost hi]
    exact h.ids
  · intro res y hy
    obtain ⟨x, hx, ⟨hxi, rfl⟩ | ⟨hxi, rfl⟩⟩ := mem_updateHost hy
    · rw [hb res x (g x) (hi x) (ht res x), hi x, ← h.books res x hx, hxi]
      exact hh res x hx hxi
    · rw [he res y.id hxi]
      exact h.books res y hx
  · intro res y hy
    obtain ⟨x, hx, ⟨-, rfl⟩ | ⟨-, rfl⟩⟩ := mem_updateHost hy
    · rw [hb res x (g x) (hi x) (ht res x), ht]
      exact h.room res x hx
    · exact h.room res y hx

theorem Booked.reserve (hr : Control.reserve hosts id cpus memMB = .ok hosts')
    (ho : ∀ (res : Resource) i, res.owed i out' = res.owed i out + res.holds i ⟨id, cpus, memMB⟩) :
    Booked base hosts' out' := by
  obtain ⟨x, hx, hid, hc, hm, rfl⟩ := reserve_ok hr
  refine h.change hb (fun _ => rfl) (fun res _ => by cases res <;> rfl) ?_ ?_
  · intro res y hy hyi
    obtain rfl : y = x := eq_of_id h.ids hy hx (hyi.trans hid.symm)
    rw [ho, Resource.holds, if_pos rfl]
    cases res with
    | cpus | memoryMB =>
      simp only [Resource.allocatable, Resource.pick]
      omega
  · intro res i hi
    rw [ho, Resource.holds, if_neg (Ne.symm hi), Nat.add_zero]

/-- What is returned was taken, so the total does not cut it off. -/
theorem Booked.release (ho : ∀ (res : Resource) i, res.owed i out' + res.holds i x = res.owed i out) :
    Booked base (Control.release hosts x.host x.cpus x.memoryMB) out' := by
  refine h.change hb (fun _ => rfl) (fun res _ => by cases res <;> rfl) ?_ ?_
  · intro res y hy hyi
    have hbo := h.books res y hy
    have hr := h.room res y hy
    have howe := ho res x.host
    rw [Resource.holds, if_pos rfl] at howe
    rw [hyi] at hbo
    cases res with
    | cpus | memoryMB =>
      simp only [Resource.allocatable, Resource.pick, Resource.total] at *
      omega
  · intro res i hi
    have howe := ho res i
    rw [Resource.holds, if_neg (Ne.symm hi), Nat.add_zero] at howe
    exact howe

end

theorem ids_of_ledger (hl : hosts'.map Host.ledger = hosts.map Host.ledger) :
    hosts'.map Host.id = hosts.map Host.id := by
  have hf := congrArg (List.map Prod.fst) hl
  rw [map_map, map_map] at hf
  exact hf

theorem Booked.of_ledger (hb : Lasting base) (h : Booked base hosts out)
    (hl : hosts'.map Host.ledger = hosts.map Host.ledger) : Booked base hosts' out := by
  have ho : ∀ y ∈ hosts', ∃ y0 ∈ hosts, y.id = y0.id ∧
      ∀ res : Resource, res.total y = res.total y0 ∧ res.allocatable y = res.allocatable y0 := by
    intro y hy
    have hme : y.ledger ∈ hosts.map Host.ledger := hl ▸ mem_map_of_mem hy
    obtain ⟨y0, hy0, he⟩ := mem_map.mp hme
    simp only [Host.ledger, Prod.mk.injEq] at he
    obtain ⟨hi, hc, hm, hca, hma⟩ := he
    refine ⟨y0, hy0, hi.symm, fun res => ?_⟩
    cases res with
    | cpus => exact ⟨hc.symm, hca.symm⟩
    | memoryMB => exact ⟨hm.symm, hma.symm⟩
  refine ⟨ids_of_ledger hl ▸ h.ids, fun res y hy => ?_, fun res y hy => ?_⟩
  · obtain ⟨y0, hy0, hi, hcap⟩ := ho y hy
    rw [hb res y0 y hi (hcap res).1, (hcap res).2, hi]
    exact h.books res y0 hy0
  · obtain ⟨y0, hy0, hi, hcap⟩ := ho y hy
    rw [hb res y0 y hi (hcap res).1, (hcap res).1]
    exact h.room res y0 hy0

end Accounting

structure Inventory where
  hosts : List Host
  out : List Holding
  deriving DecidableEq, Repr

/-- A registration names what its host has already given away, in the parts that will be
returned. -/
inductive InventoryCall where
  | register (info : LinkInfo) (id : HostID) (reserved : List (Nat × Nat)) (now : Time)
  | reserve (id : HostID) (cpus memMB : Nat)
  | release (j : Nat)
  deriving DecidableEq, Repr

/-- What is named for a host that is known has been counted before. -/
def Inventory.register (x : Inventory) (info : LinkInfo) (id : HostID) (reserved : List (Nat × Nat))
    (now : Time) : Option Inventory :=
  (registerReserved x.hosts info id true (reserved.map Prod.fst).sum (reserved.map Prod.snd).sum
    now).map fun hosts =>
      ⟨hosts, if (findHost x.hosts id).isSome then x.out
        else x.out ++ reserved.map fun r => ⟨id, r.1, r.2⟩⟩

def Inventory.step (x : Inventory) : InventoryCall → Option Inventory
  | .register info id reserved now => x.register info id reserved now
  | .reserve id cpus memMB =>
    match reserve x.hosts id cpus memMB with
    | .error _ => some x
    | .ok hosts => some ⟨hosts, x.out ++ [⟨id, cpus, memMB⟩]⟩
  | .release j =>
    match x.out[j]? with
    | none => none
    | some r => some ⟨release x.hosts r.host r.cpus r.memoryMB, x.out.eraseIdx j⟩

/-- No host has more left than its total, and it has its total less what is out, if that fits. -/
def Inventory.InBounds (x : Inventory) : Prop :=
  ∀ res : Resource, ∀ h ∈ x.hosts, res.allocatable h ≤ res.total h ∧
    (res.owed h.id x.out ≤ res.total h → res.allocatable h = res.total h - res.owed h.id x.out)

/-- A host that is known comes back with its totals, and one that is new has room for what is named
with it. -/
def InventoryCall.Steady (x : Inventory) : InventoryCall → Prop
  | .register info id reserved _ =>
    (∀ h ∈ x.hosts, h.id = id → info.cpusTotal = h.cpusTotal ∧ info.memoryMBTotal = h.memoryMBTotal) ∧
      (id ∉ x.hosts.map Host.id → (reserved.map Prod.fst).sum ≤ info.cpusTotal ∧
        (reserved.map Prod.snd).sum ≤ info.memoryMBTotal)
  | _ => True

instance (x : Inventory) (c : InventoryCall) : Decidable (c.Steady x) := by
  unfold InventoryCall.Steady
  cases c <;> infer_instance

section Registering

variable {x x' : Inventory} {id : HostID} {info : LinkInfo} {now : Time}

theorem total_lasting : Lasting fun res h => res.total h := fun _ _ _ _ ht => ht

structure Inventory.Sound (x : Inventory) : Prop where
  accounted : Booked (fun res h => res.total h) x.hosts x.out
  known : ∀ r ∈ x.out, r.host ∈ x.hosts.map Host.id

theorem owed_of_unknown {out : List Holding} (h : ∀ r ∈ out, r.host ≠ id) (res : Resource) :
    res.owed id out = 0 := by
  induction out with
  | nil => rfl
  | cons r out ih =>
    have hr := ih fun y hy => h y (.tail _ hy)
    rw [Resource.owed] at hr ⊢
    rw [map_cons, sum_cons, hr, Resource.holds, if_neg (h r (.head _))]

theorem owed_reserved (res : Resource) (id i : HostID) (reserved : List (Nat × Nat)) :
    res.owed i (reserved.map fun r => ⟨id, r.1, r.2⟩) =
      if id = i then res.pick (reserved.map Prod.fst).sum (reserved.map Prod.snd).sum else 0 := by
  induction reserved with
  | nil =>
    cases res <;> simp [Resource.owed, Resource.pick]
  | cons r reserved ih =>
    simp only [Resource.owed, map_cons, sum_cons] at ih ⊢
    rw [ih, Resource.holds]
    split
    · cases res <;> rfl
    · rfl

theorem owed_append (res : Resource) (i : HostID) (out out' : List Holding) :
    res.owed i (out ++ out') = res.owed i out + res.owed i out' := by
  rw [Resource.owed, map_append, sum_append]
  rfl

theorem findHost_isSome : (findHost hosts id).isSome = true ↔ id ∈ hosts.map Host.id := by
  rw [findHost, List.find?_isSome]
  simp [eq_comm]

theorem Inventory.Sound.reregister (h : x.Sound)
    (hs : ∀ y ∈ x.hosts, y.id = id → info.cpusTotal = y.cpusTotal ∧ info.memoryMBTotal =
      y.memoryMBTotal) :
    (⟨updateHost x.hosts id (·.reregistered info now), x.out⟩ : Inventory).Sound := by
  have hl : (updateHost x.hosts id (·.reregistered info now)).map Host.ledger =
      x.hosts.map Host.ledger := by
    refine ledger_updateHost fun y hy hi => ?_
    obtain ⟨hc, hm⟩ := hs y hy hi
    simp only [Host.ledger, Host.reregistered, hc, hm]
  exact ⟨h.accounted.of_ledger total_lasting hl, fun r hr => ids_of_ledger hl ▸ h.known r hr⟩

theorem Inventory.Sound.enter (h : x.Sound) {reserved : List (Nat × Nat)}
    (hn : id ∉ x.hosts.map Host.id) (hc : (reserved.map Prod.fst).sum ≤ info.cpusTotal)
    (hm : (reserved.map Prod.snd).sum ≤ info.memoryMBTotal) :
    (⟨x.hosts ++ [info.registered id (reserved.map Prod.fst).sum (reserved.map Prod.snd).sum now],
      x.out ++ reserved.map fun r => ⟨id, r.1, r.2⟩⟩ : Inventory).Sound := by
  have hno : ∀ res : Resource, res.owed id x.out = 0 :=
    owed_of_unknown fun r hr he => hn (he ▸ h.known r hr)
  refine ⟨⟨?_, fun res y hy => ?_, fun res y hy => Nat.le_refl _⟩, fun r hr => ?_⟩
  · rw [map_append, map_singleton, nodup_append]
    refine ⟨h.accounted.ids, pairwise_singleton _ _, fun i hi j hj he => hn ?_⟩
    have hid : i = id := he.trans (mem_singleton.mp hj)
    exact hid ▸ hi
  · rw [owed_append, owed_reserved]
    rcases mem_append.mp hy with hy | hy
    · have hne : id ≠ y.id := fun he => hn (he ▸ mem_map_of_mem hy)
      rw [if_neg hne]
      exact h.accounted.books res y hy
    rw [mem_singleton.mp hy]
    simp only [LinkInfo.registered, hno, if_true]
    cases res with
    | cpus | memoryMB =>
      simp only [Resource.allocatable, Resource.total, Resource.pick]
      omega
  · rw [map_append]
    rcases mem_append.mp hr with hr | hr
    · exact mem_append_left _ (h.known r hr)
    · obtain ⟨y, _, rfl⟩ := mem_map.mp hr
      exact mem_append_right _ (mem_singleton_self _)

theorem Inventory.Sound.step (h : x.Sound) (hs : x.step c = some x') (ho : c.Steady x) :
    x'.Sound := by
  cases c with
  | register info id reserved now =>
    obtain ⟨hosts, hre, rfl⟩ := Option.map_eq_some_iff.mp hs
    rcases registerReserved_eq hre with ⟨hk, rfl⟩ | ⟨hn, rfl, _⟩
    · rw [if_pos (findHost_isSome.mpr hk)]
      exact h.reregister ho.1
    · rw [if_neg fun hso => hn (findHost_isSome.mp hso)]
      exact h.enter hn (ho.2 hn).1 (ho.2 hn).2
  | reserve id cpus memMB =>
    rw [Inventory.step] at hs
    cases hres : Control.reserve x.hosts id cpus memMB with
    | error e =>
      rw [hres] at hs
      cases hs
      exact h
    | ok hosts =>
      rw [hres] at hs
      cases hs
      have hi : hosts.map Host.id = x.hosts.map Host.id := by
        obtain ⟨y, _, _, _, _, rfl⟩ := reserve_ok hres
        exact ids_updateHost fun _ => rfl
      refine ⟨h.accounted.reserve total_lasting hres fun _ _ => owed_concat _, fun r hr => ?_⟩
      show r.host ∈ hosts.map Host.id
      rw [hi]
      rcases mem_append.mp hr with hr | hr
      · exact h.known r hr
      obtain ⟨y, hy, hid, _⟩ := reserve_ok hres
      rw [mem_singleton.mp hr, ← hid]
      exact mem_map_of_mem hy
  | release j =>
    rw [Inventory.step] at hs
    cases hj : x.out[j]? with
    | none =>
      rw [hj] at hs
      cases hs
    | some r =>
      rw [hj] at hs
      cases hs
      refine ⟨h.accounted.release total_lasting fun _ _ => owed_eraseIdx hj, fun y hy => ?_⟩
      rw [show (Control.release x.hosts r.host r.cpus r.memoryMB).map Host.id = x.hosts.map Host.id from
        ids_updateHost fun _ => rfl]
      exact h.known y (mem_of_mem_eraseIdx hy)

theorem Inventory.Sound.inBounds (h : x.Sound) : x.InBounds := by
  intro res y hy
  have hb : res.allocatable y + res.owed y.id x.out = res.total y := h.accounted.books res y hy
  exact ⟨by omega, fun _ => by omega⟩

end Registering

/-- As long as hosts come back with the totals that they had, and bring room for what is named with
them, every host's account is right. -/
theorem registrations_keep_bounds {x : Inventory}
    (h : Reaches Inventory.step (fun x c _ => c.Steady x) ⟨[], []⟩ x) : x.InBounds := by
  have hempty : (⟨[], []⟩ : Inventory).Sound := ⟨⟨nodup_nil, nofun, nofun⟩, nofun⟩
  refine Inventory.Sound.inBounds (h.invariant (I := Inventory.Sound) hempty ?_)
  intro x c x' hx hs hok
  exact hx.step hs hok

/-- A host of 4 cpus and 4 MB, of which a reservation takes and returns some, and which comes back
in between. -/
def steadyCalls : List InventoryCall :=
  [.register ⟨some 1, "a", 4, 4⟩ 1 [(1, 1)] 0, .reserve 1 2 3, .register ⟨some 1, "a", 4, 4⟩ 1 [] 1,
    .release 0]

theorem steady_host_in_bounds :
    ∃ x, Reaches Inventory.step (fun x c _ => c.Steady x) ⟨[], []⟩ x ∧ x.out = [⟨1, 2, 3⟩] ∧
      x.InBounds := by
  exact Reaches.exists_then steadyCalls (by decide) fun _ hx _ => registrations_keep_bounds hx

def shrunkCalls : List InventoryCall :=
  [.register ⟨some 1, "a", 4, 4⟩ 1 [] 0, .register ⟨some 1, "a", 2, 2⟩ 1 [] 1]

theorem shrunk_host_out_of_bounds :
    ∃ x, Reaches Inventory.step (fun _ _ _ => True) ⟨[], []⟩ x ∧ ¬x.InBounds := by
  obtain ⟨x, hx, hhosts⟩ := Reaches.exists_run Inventory.step (fun _ _ _ => True)
    ⟨[], []⟩ shrunkCalls (fun x => x.hosts = [⟨1, "a", 2, 2, 4, 4, .ready, 1⟩]) (by decide)
  refine ⟨x, hx, fun h => ?_⟩
  have hbound := (h .cpus _ (of_decide_eq_true hhosts ▸ mem_singleton_self _)).1
  exact absurd hbound (by decide)

end Craftling.Control

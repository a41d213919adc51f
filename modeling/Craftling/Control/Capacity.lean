import Craftling.Control.Informed

namespace Craftling.Control
open Effects List

inductive Resource where
  | cpus | memoryMB
  deriving DecidableEq, Repr

def Resource.share : Resource → GameServer → Nat
  | .cpus => GameServer.cpus
  | .memoryMB => GameServer.memoryMB

def Resource.total : Resource → Host → Nat
  | .cpus => Host.cpusTotal
  | .memoryMB => Host.memoryMBTotal

def Resource.allocatable : Resource → Host → Nat
  | .cpus => Host.cpusAllocatable
  | .memoryMB => Host.memoryMBAllocatable

def Resource.announced : Resource → LinkInfo → Nat
  | .cpus => LinkInfo.cpusTotal
  | .memoryMB => LinkInfo.memoryMBTotal

def Resource.pick : Resource → Nat → Nat → Nat
  | .cpus, ofCPUs, _ => ofCPUs
  | .memoryMB, _, ofMemory => ofMemory

def Resource.on (res : Resource) (h : HostID) (s : GameServer) : Nat :=
  if s.on h then res.share s else 0

def Resource.used (res : Resource) (rows : List GameServer) (h : HostID) : Nat :=
  (rows.map (res.on h)).sum

theorem used_pick (res : Resource) (rows : List GameServer) (h : HostID) :
    res.pick (usedCPUs rows h) (usedMemory rows h) = res.used rows h := by
  cases res <;> rfl

section Used

variable {res : Resource} {h : HostID} {r s : GameServer} {rows : List GameServer} {id : ServerID}

theorem on_of_core (hcore : r.core = s.core) : res.on h r = res.on h s := by
  simp only [GameServer.core, Core.mk.injEq] at hcore
  obtain ⟨-, hc, hm, -, hh, -, hd⟩ := hcore
  cases res <;> simp [Resource.on, Resource.share, GameServer.on, *]

theorem on_of_unplaced (hs : s.hostID = none) : res.on h s = 0 := by
  simp [Resource.on, GameServer.on, hs]

theorem on_of_elsewhere (hs : s.hostID = some h') (hn : h' ≠ h) : res.on h s = 0 := by
  simp [Resource.on, GameServer.on, hs, hn]

theorem on_of_placed (hs : s.Coherent) (hh : s.hostID = some h) : res.on h s = res.share s := by
  simp [Resource.on, GameServer.on, hh, hs.placed (by simp [hh])]

theorem used_updateRow (res : Resource) (h : HostID) (hr : rows[id]? = some r)
    (g : GameServer → GameServer) :
    res.used (updateRow rows id g) h + res.on h r = res.used rows h + res.on h (g r) :=
  sum_map_modify (res.on h) g hr

theorem used_updateRow_same (hg : ∀ r, rows[id]? = some r → res.on h (g r) = res.on h r) :
    res.used (updateRow rows id g) h = res.used rows h := by
  cases hr : rows[id]? with
  | none =>
    rw [updateRow, modify_eq_self (List.getElem?_eq_none_iff.mp hr)]
  | some r =>
    have := used_updateRow res h hr g
    rw [hg r hr] at this
    omega

theorem on_le_used (hr : r ∈ rows) : res.on h r ≤ res.used rows h := by
  obtain ⟨before, after, rfl⟩ := append_of_mem hr
  simp only [Resource.used, map_append, map_cons, sum_append, sum_cons]
  omega

theorem used_move (hm : RowsMove rows rows') : res.used rows' h = res.used rows h := by
  cases hm with
  | same => rfl
  | create n => simp [Resource.used, Resource.on, GameServer.on, NewServer.row]
  | edit id g hg => exact used_updateRow_same fun r _ => on_of_core (hg r)

end Used

def Host.ledger (h : Host) : HostID × Nat × Nat × Nat × Nat :=
  (h.id, h.cpusTotal, h.memoryMBTotal, h.cpusAllocatable, h.memoryMBAllocatable)

variable {g : Host → Host} {id : HostID} {hosts : List Host}

theorem ledger_updateHost (hg : ∀ h ∈ hosts, h.id = id → (g h).ledger = h.ledger) :
    (updateHost hosts id g).map Host.ledger = hosts.map Host.ledger := by
  simp only [updateHost, map_map]
  refine map_congr_left fun h hh => ?_
  simp only [Function.comp_apply]
  split
  · rename_i hi
    exact hg h hh hi
  · rfl

theorem mem_updateHost (h : h' ∈ updateHost hosts id g) :
    ∃ x ∈ hosts, (x.id = id ∧ h' = g x) ∨ (x.id ≠ id ∧ h' = x) := by
  obtain ⟨x, hx, hxe⟩ := mem_map.mp h
  refine ⟨x, hx, ?_⟩
  split at hxe
  · rename_i hi
    exact .inl ⟨hi, hxe.symm⟩
  · rename_i hi
    exact .inr ⟨hi, hxe.symm⟩

theorem ids_updateHost (hg : ∀ h, (g h).id = h.id) :
    (updateHost hosts id g).map Host.id = hosts.map Host.id := by
  simp only [updateHost, map_map]
  refine map_congr_left fun h _ => ?_
  simp only [Function.comp_apply]
  split
  · exact hg h
  · rfl

theorem eq_of_id (hn : (hosts.map Host.id).Nodup) (hx : x ∈ hosts) (hy : y ∈ hosts)
    (h : x.id = y.id) : x = y :=
  inj_on_of_nodup_map hn hx hy h

/-- Capacity that the work in hand has reserved and that no row holds yet. -/
def Resource.out (res : Resource) (h : HostID) : Option Work → Nat
  | some w => if w.books = .reserved h ∨ w.books = .undo h then res.share w.row else 0
  | none => 0

/-- Capacity that the work in hand has returned and that its row still holds. -/
def Resource.back (res : Resource) (h : HostID) : Option Work → Nat
  | some w => if w.books = .released h then res.share w.row else 0
  | none => 0

def Settled (cur : Option Work) : Prop := ∀ w, cur = some w → w.books = .settled

theorem Settled.none : Settled none := fun _ h => by cases h

theorem out_of_settled {cur : Option Work} (h : Settled cur) (res : Resource) (id : HostID) :
    res.out id cur = 0 ∧ res.back id cur = 0 := by
  cases cur with
  | none => exact ⟨rfl, rfl⟩
  | some w => simp [Resource.out, Resource.back, h w rfl]

/-- The inventory, the table and the reservation in hand add up: what a host has left, what
rows hold of it and what is taken for a row to come make its total, but for what a row is
about to let go. A stream that has counted the rows of a host which is not in the inventory
has counted what they hold now. -/
structure Balanced (d : Deployment) (totals : Resource → HostID → Nat) (hosts : List Host)
    (rows : List GameServer) (cur : Option Work) (streams : List Stream) : Prop where
  ids : (hosts.map Host.id).Nodup
  held : ∀ w h, cur = some w → w.books = .reserved h ∨ w.books = .undo h → h ∈ hosts.map Host.id
  total : ∀ res, ∀ h ∈ hosts, res.total h = totals res h.id
  books : ∀ res, ∀ h ∈ hosts,
    res.allocatable h + res.used rows h.id + res.out h.id cur = totals res h.id + res.back h.id cur
  fits : ∀ res h, res.used rows h + res.out h cur ≤ totals res h
  fresh : ∀ s ∈ streams, ∀ cpus memMB, s.phase = .counted cpus memMB → (d.info s.agent).id = none →
    ∀ res : Resource, res.pick cpus memMB = 0
  counted : ∀ s ∈ streams, ∀ cpus memMB h, s.phase = .counted cpus memMB →
    (d.info s.agent).id = some h → h ∉ hosts.map Host.id →
    ∀ res : Resource, res.pick cpus memMB = res.used rows h

section Balanced

variable {d : Deployment} {totals : Resource → HostID → Nat} {hosts hosts' : List Host}
    {rows rows' : List GameServer} {cur cur' : Option Work} {streams streams' : List Stream}
    {g : GameServer → GameServer} {id : HostID}

theorem Balanced.same (h : Balanced d totals hosts rows cur streams)
    (hh : hosts'.map Host.ledger = hosts.map Host.ledger)
    (hr : ∀ (res : Resource) id, res.used rows' id = res.used rows id) :
    Balanced d totals hosts' rows' cur streams := by
  have hi : hosts'.map Host.id = hosts.map Host.id := by
    have hf := congrArg (List.map Prod.fst) hh
    rw [map_map, map_map] at hf
    exact hf
  have hme : ∀ x' ∈ hosts', ∃ x ∈ hosts, x'.id = x.id ∧ ∀ res : Resource,
      res.total x' = res.total x ∧ res.allocatable x' = res.allocatable x := by
    intro x' hx'
    have hin : x'.ledger ∈ hosts.map Host.ledger := hh ▸ mem_map_of_mem hx'
    obtain ⟨x, hx, he⟩ := mem_map.mp hin
    simp only [Host.ledger, Prod.mk.injEq] at he
    obtain ⟨hid, hc, hm, hca, hma⟩ := he
    refine ⟨x, hx, hid.symm, fun res => ?_⟩
    cases res
    · exact ⟨hc.symm, hca.symm⟩
    · exact ⟨hm.symm, hma.symm⟩
  refine ⟨hi ▸ h.ids, hi ▸ h.held, ?_, ?_, ?_, h.fresh, ?_⟩
  · intro res x' hx'
    obtain ⟨x, hx, hid, hcap⟩ := hme x' hx'
    rw [(hcap res).1, hid]
    exact h.total res x hx
  · intro res x' hx'
    obtain ⟨x, hx, hid, hcap⟩ := hme x' hx'
    rw [(hcap res).2, hid, hr]
    exact h.books res x hx
  · intro res id
    rw [hr]
    exact h.fits res id
  · intro s hs cpus memMB id hp hinf hid res
    rw [hr]
    exact h.counted s hs cpus memMB id hp hinf (hi ▸ hid) res

theorem Balanced.settled (h : Balanced d totals hosts rows cur streams) (hc : Settled cur)
    (hc' : Settled cur') : Balanced d totals hosts rows cur' streams := by
  refine ⟨h.ids, ?_, h.total, ?_, ?_, h.fresh, h.counted⟩
  · intro w id hw hbo
    rw [hc' w hw] at hbo
    rcases hbo with hb | hb <;> cases hb
  · intro res x hx
    have := h.books res x hx
    rw [(out_of_settled hc res x.id).1, (out_of_settled hc res x.id).2] at this
    rw [(out_of_settled hc' res x.id).1, (out_of_settled hc' res x.id).2]
    exact this
  intro res id
  have := h.fits res id
  rw [(out_of_settled hc res id).1] at this
  rw [(out_of_settled hc' res id).1]
  exact this

variable {w w' : Work}

theorem Balanced.learn (h : Balanced d totals hosts rows (some w) streams)
    (hbo : w'.books = w.books) (hs : ∀ res : Resource, res.share w'.row = res.share w.row) :
    Balanced d totals hosts rows (some w') streams := by
  have ho : ∀ res id, Resource.out res id (some w') = Resource.out res id (some w) := by
    intro res id
    simp only [Resource.out, hbo, hs]
  have hba : ∀ res id, Resource.back res id (some w') = Resource.back res id (some w) := by
    intro res id
    simp only [Resource.back, hbo, hs]
  refine ⟨h.ids, ?_, h.total, ?_, ?_, h.fresh, h.counted⟩
  · rintro w1 id ⟨⟩ hb
    exact h.held w id rfl (hbo ▸ hb)
  · intro res x hx
    rw [ho, hba]
    exact h.books res x hx
  · intro res id
    rw [ho]
    exact h.fits res id

theorem Balanced.adjust {g : Host → Host} (h : Balanced d totals hosts rows cur streams)
    (hg : ∀ x, (g x).id = x.id ∧ ∀ res : Resource, res.total (g x) = res.total x)
    (hh : ∀ w i, cur' = some w → w.books = .reserved i ∨ w.books = .undo i → i ∈ hosts.map Host.id)
    (hhe : ∀ res : Resource, ∀ x ∈ hosts, x.id = id → res.allocatable (g x) + res.used rows id +
      res.out id cur' = totals res id + res.back id cur')
    (he : ∀ (res : Resource) i, i ≠ id → res.out i cur' = res.out i cur ∧ res.back i cur' =
      res.back i cur) (hf : ∀ res : Resource, res.used rows id + res.out id cur' ≤ totals res id) :
    Balanced d totals (updateHost hosts id g) rows cur' streams := by
  have hid : (updateHost hosts id g).map Host.id = hosts.map Host.id :=
    ids_updateHost fun x => (hg x).1
  refine ⟨hid ▸ h.ids, hid ▸ hh, ?_, ?_, ?_, h.fresh, ?_⟩
  · intro res y' hy'
    obtain ⟨y, hy, ⟨-, rfl⟩ | ⟨-, rfl⟩⟩ := mem_updateHost hy'
    · rw [(hg y).2, (hg y).1]
      exact h.total res y hy
    · exact h.total res y' hy
  · intro res y' hy'
    obtain ⟨y, hy, ⟨hyi, rfl⟩ | ⟨hyi, rfl⟩⟩ := mem_updateHost hy'
    · rw [(hg y).1, hyi]
      exact hhe res y hy hyi
    · rw [(he res y'.id hyi).1, (he res y'.id hyi).2]
      exact h.books res y' hy
  · intro res i
    by_cases hi : i = id
    · rw [hi]
      exact hf res
    · rw [(he res i hi).1]
      exact h.fits res i
  · intro s hs cpus memMB i hp hinf ho
    exact h.counted s hs cpus memMB i hp hinf (hid ▸ ho)

theorem Balanced.reserve (h : Balanced d totals hosts rows (some w) streams)
    (hw : w.books = .settled)
    (hr : Control.reserve hosts id w.row.cpus w.row.memoryMB = .ok hosts') :
    Balanced d totals hosts' rows (some { w with books := .reserved id }) streams := by
  obtain ⟨x, hx, hid, hc, hm, rfl⟩ := reserve_ok hr
  have hb : ∀ res : Resource, res.allocatable x + res.used rows id = totals res id := by
    intro res
    simpa [Resource.out, Resource.back, hw, hid] using h.books res x hx
  have hs : ∀ res : Resource, res.share w.row ≤ res.allocatable x := by
    intro res
    cases res
    · exact hc
    · exact hm
  refine h.adjust (fun y => ⟨rfl, fun res => by cases res <;> rfl⟩) ?_ ?_ ?_ ?_
  · rintro w' i ⟨⟩ (hbo | hbo) <;> cases hbo
    exact hid ▸ mem_map_of_mem hx
  · intro res y hy hyi
    have hxy : y = x := eq_of_id h.ids hy hx (hyi.trans hid.symm)
    subst hxy
    have hb := hb res
    have hl := hs res
    cases res <;> simp [Resource.out, Resource.back, Resource.allocatable, Resource.share]
      at hb hl ⊢ <;> omega
  · intro res i hi
    simp [Resource.out, Resource.back, hw, Ne.symm hi]
  · intro res
    have hb := hb res
    have hl := hs res
    simp only [Resource.out, true_or, if_true]
    omega

theorem Balanced.release (h : Balanced d totals hosts rows (some w) streams)
    (hw : (w.books = .undo id ∧ w'.books = .settled) ∨ (w.books = .settled ∧ w'.books = .released id
      ∧ ∀ res : Resource, res.share w.row ≤ res.used rows id)) (hr : w'.row = w.row) :
    Balanced d totals (Control.release hosts id w.row.cpus w.row.memoryMB) rows (some w')
      streams := by
  refine h.adjust (fun y => ⟨rfl, fun res => by cases res <;> rfl⟩) ?_ ?_ ?_ ?_
  · rintro w1 i ⟨⟩ hb
    rcases hw with ⟨-, hw'⟩ | ⟨-, hw', -⟩ <;> rw [hw'] at hb <;> rcases hb with hb | hb <;> cases hb
  · intro res y hy hyi
    have hb := h.books res y hy
    have ht := h.total res y hy
    rcases hw with ⟨hw, hw'⟩ | ⟨hw, hw', hl⟩
    · cases res <;> simp [Resource.out, Resource.back, Resource.allocatable, Resource.share,
        Resource.total, hyi, hw, hw'] at hb ht ⊢ <;> omega
    · have hl := hl res
      cases res <;> simp [Resource.out, Resource.back, Resource.allocatable, Resource.share,
        Resource.total, hyi, hw, hw', hr] at hb ht hl ⊢ <;> omega
  · intro res i hi
    rcases hw with ⟨hw, hw'⟩ | ⟨hw, hw', -⟩ <;>
      simp [Resource.out, Resource.back, hw, hw', Ne.symm hi]
  · intro res
    have hf := h.fits res id
    rcases hw with ⟨hw, hw'⟩ | ⟨hw, hw', -⟩ <;> simp [Resource.out, hw, hw'] at hf ⊢ <;> omega

theorem Balanced.rewrite (h : Balanced d totals hosts rows cur streams)
    (hh : ∀ w i, cur' = some w → w.books = .reserved i ∨ w.books = .undo i →
      i ∈ hosts.map Host.id)
    (hmo : ∀ (res : Resource) i, i ∈ hosts.map Host.id →
      res.used rows i + res.out i cur + res.back i cur' =
        res.used rows' i + res.out i cur' + res.back i cur)
    (hl : ∀ (res : Resource) i, res.used rows' i + res.out i cur' ≤ res.used rows i + res.out i cur)
    (hc : ∀ s ∈ streams, ∀ cpus memMB i, s.phase = .counted cpus memMB →
      (d.info s.agent).id = some i → i ∉ hosts.map Host.id →
      ∀ res : Resource, res.used rows' i = res.used rows i) :
    Balanced d totals hosts rows' cur' streams := by
  refine ⟨h.ids, hh, h.total, ?_, ?_, h.fresh, ?_⟩
  · intro res x hx
    have hb := h.books res x hx
    have hm := hmo res x.id (mem_map_of_mem hx)
    omega
  · intro res i
    exact (hl res i).trans (h.fits res i)
  · intro s hs cpus memMB i hp hi ho res
    rw [hc s hs cpus memMB i hp hi ho res]
    exact h.counted s hs cpus memMB i hp hi ho res

section

variable (h : Balanced d totals hosts rows (some w) streams)
include h

theorem Balanced.assign (hw : w.books = .reserved id) (hr : rows[w.row.id]? = some r) (hcore : r.core = w.row.core)
    (hn : w.row.hostID = none)
    (ho : ∀ (res : Resource) i, res.on i (g r) = if i = id then res.share w.row else 0)
    (hw' : w'.books = .settled) :
    Balanced d totals hosts (updateRow rows w.row.id g) (some w') streams := by
  have hk : id ∈ hosts.map Host.id := h.held w id rfl (.inl hw)
  have hu : ∀ (res : Resource) i, res.used (updateRow rows w.row.id g) i =
      res.used rows i + if i = id then res.share w.row else 0 := by
    intro res i
    have := used_updateRow res i hr g
    rw [on_of_core hcore, on_of_unplaced hn, ho] at this
    omega
  refine h.rewrite ?_ ?_ ?_ ?_
  · rintro w1 i ⟨⟩ hb
    rw [hw'] at hb
    rcases hb with hb | hb <;> cases hb
  · intro res i _
    rw [hu]
    by_cases hi : i = id
    · simp [Resource.out, Resource.back, hw, hw', hi]
    · simp [Resource.out, Resource.back, hw, hw', hi, Ne.symm hi]
  · intro res i
    rw [hu]
    by_cases hi : i = id
    · simp [Resource.out, hw, hw', hi]
    · simp [Resource.out, hw, hw', hi]
  · intro s hs cpus memMB i hp hinf hou res
    have hi : i ≠ id := fun he => hou (he ▸ hk)
    simp [hu, hi]

theorem Balanced.letGo (hw : w.returned)
    (hr : rows[w.row.id]? = some r) (hcore : r.core = w.row.core) (hrc : r.Coherent)
    (ho : ∀ (res : Resource) i, res.on i (g r) = 0)
    (hq : ∀ i, w.row.hostID = some i → i ∉ hosts.map Host.id → ∀ s ∈ streams, ∀ cpus memMB,
      s.phase = .counted cpus memMB → (d.info s.agent).id ≠ some i) (hw' : w'.books = .settled) :
    Balanced d totals hosts (updateRow rows w.row.id g) (some w') streams := by
  have hh : ∀ w1 i, some w' = some w1 → w1.books = .reserved i ∨ w1.books = .undo i →
      i ∈ hosts.map Host.id := by
    rintro w1 i ⟨⟩ hb
    rw [hw'] at hb
    rcases hb with hb | hb <;> cases hb
  have hus : ∀ (res : Resource) i,
      res.used (updateRow rows w.row.id g) i + res.on i w.row = res.used rows i := by
    intro res i
    have := used_updateRow res i hr g
    rw [on_of_core hcore, ho] at this
    omega
  rcases hw with ⟨hn, hse⟩ | ⟨id, hho, hre⟩
  · have hsa : ∀ (res : Resource) i, res.used (updateRow rows w.row.id g) i = res.used rows i := by
      intro res i
      have := hus res i
      rw [on_of_unplaced hn] at this
      omega
    refine h.rewrite hh ?_ ?_ ?_
    · intro res i _
      simp [Resource.out, Resource.back, hse, hw', hsa]
    · intro res i
      simp [Resource.out, hse, hw', hsa]
    · intro s _ cpus memMB i _ _ _ res
      exact hsa res i
  · have hsh : ∀ res : Resource, res.on id w.row = res.share w.row := fun res =>
      on_of_placed (hrc.of_core hcore.symm) hho
    refine h.rewrite hh ?_ ?_ ?_
    · intro res i _
      have hu := hus res i
      by_cases hi : i = id
      · subst hi
        rw [hsh] at hu
        simp [Resource.out, Resource.back, hre, hw']
        omega
      · rw [on_of_elsewhere hho (Ne.symm hi)] at hu
        simp [Resource.out, Resource.back, hre, hw', Ne.symm hi]
        omega
    · intro res i
      have hu := hus res i
      simp [Resource.out, hre, hw']
      omega
    · intro s hs cpus memMB i hp hinf hou res
      have hi : i ≠ id := by
        rintro rfl
        exact hq i hho hou s hs cpus memMB hp hinf
      have hu := hus res i
      rw [on_of_elsewhere hho (Ne.symm hi)] at hu
      omega

theorem Balanced.giveUp (hw : w.returned)
    (ho : ∀ i, w.row.hostID = some i → i ∉ hosts.map Host.id) (hw' : w'.books = .settled) :
    Balanced d totals hosts rows (some w') streams := by
  have hn : ∀ (res : Resource) i, res.out i (some w) = 0 := by
    intro res i
    rcases hw with ⟨-, hs⟩ | ⟨id, -, hr⟩
    · simp [Resource.out, hs]
    · simp [Resource.out, hr]
  refine h.rewrite ?_ ?_ ?_ (fun _ _ _ _ _ _ _ _ _ => rfl)
  · rintro w1 i ⟨⟩ hb
    rw [hw'] at hb
    rcases hb with hb | hb <;> cases hb
  · intro res i hi
    have hba : res.back i (some w) = 0 := by
      rcases hw with ⟨-, hs⟩ | ⟨id, hh, hr⟩
      · simp [Resource.back, hs]
      · have hne : id ≠ i := fun he => ho id hh (he ▸ hi)
        simp [Resource.back, hr, hne]
    rw [hn, hba]
    simp [Resource.out, Resource.back, hw']
  · intro res i
    rw [hn]
    simp [Resource.out, hw']

end

theorem Balanced.note {id : ServerID} (h : Balanced d totals hosts rows (some w) streams)
    (hg : ∀ (res : Resource) i r, res.on i (g r) = res.on i r) (hb : w'.books = w.books)
    (hs : ∀ res : Resource, res.share w'.row = res.share w.row) :
    Balanced d totals hosts (updateRow rows id g) (some w') streams :=
  (h.same rfl fun res i => used_updateRow_same fun r _ => hg res i r).learn hb hs

theorem Balanced.undo (h : Balanced d totals hosts rows (some w) streams)
    (hw : w.books = .reserved id) (hw' : w'.books = .undo id) (hr : w'.row = w.row) :
    Balanced d totals hosts rows (some w') streams := by
  have ho : ∀ (res : Resource) i, res.out i (some w') = res.out i (some w) := by
    intro res i
    simp [Resource.out, hw, hw', hr]
  refine h.rewrite ?_ ?_ ?_ (fun _ _ _ _ _ _ _ _ _ => rfl)
  · rintro w1 i ⟨⟩ hb
    rw [hw'] at hb
    rcases hb with hb | hb <;> cases hb
    exact h.held w id rfl (.inl hw)
  · intro res i _
    rw [ho]
    simp [Resource.back, hw, hw']
  · intro res i
    rw [ho]

theorem Balanced.register (h : Balanced d totals hosts rows cur streams)
    (hn : id ∉ hosts.map Host.id) (hto : ∀ res : Resource, res.announced info = totals res id)
    (hco : ∀ res : Resource, res.pick cpus memMB = res.used rows id)
    (hba : ∀ res : Resource, res.back id cur = 0) :
    Balanced d totals (hosts ++ [info.registered id cpus memMB now]) rows cur streams := by
  have ho : ∀ res : Resource, res.out id cur = 0 := by
    intro res
    cases cur with
    | none => rfl
    | some w =>
      simp only [Resource.out, ite_eq_right_iff]
      exact fun hb => absurd (h.held w id rfl hb) hn
  have hid : (hosts ++ [info.registered id cpus memMB now]).map Host.id =
      hosts.map Host.id ++ [id] := by
    simp [LinkInfo.registered]
  have hsu : ∀ i, i ∉ (hosts ++ [info.registered id cpus memMB now]).map Host.id →
      i ∉ hosts.map Host.id := by
    intro i hi hm
    exact hi (by rw [hid]; exact mem_append_left _ hm)
  refine ⟨?_, ?_, ?_, ?_, h.fits, h.fresh, ?_⟩
  · rw [hid, nodup_append]
    refine ⟨h.ids, nodup_singleton _, ?_⟩
    rintro a ha b hb rfl
    rw [mem_singleton] at hb
    exact hn (hb ▸ ha)
  · intro w i hw hb
    rw [hid]
    exact mem_append_left _ (h.held w i hw hb)
  · intro res x hx
    rcases mem_append.mp hx with hol | hn'
    · exact h.total res x hol
    rw [mem_singleton] at hn'
    subst hn'
    have ht := hto res
    cases res <;> exact ht
  · intro res x hx
    rcases mem_append.mp hx with hol | hn'
    · exact h.books res x hol
    rw [mem_singleton] at hn'
    subst hn'
    have ht := hto res
    have hc := hco res
    have hf := h.fits res id
    rw [ho res] at hf
    change res.allocatable _ + res.used rows id + res.out id cur = totals res id + res.back id cur
    rw [ho res, hba res]
    cases res <;> simp only [Resource.allocatable, LinkInfo.registered, Resource.announced,
      Resource.pick] at ht hc ⊢ <;> omega
  · intro s hs c m i hp hinf hi
    exact h.counted s hs c m i hp hinf (hsu i hi)

theorem Balanced.restream (h : Balanced d totals hosts rows cur streams)
    (hst : ∀ s ∈ streams', ∀ cpus memMB, s.phase = .counted cpus memMB → s ∈ streams ∨
      ∀ res : Resource, res.pick cpus memMB =
        match (d.info s.agent).id with
        | none => 0
        | some i => res.used rows i) :
    Balanced d totals hosts rows cur streams' := by
  refine ⟨h.ids, h.held, h.total, h.books, h.fits, ?_, ?_⟩
  · intro s hs cpus memMB hp hi res
    rcases hst s hs cpus memMB hp with ho | hn
    · exact h.fresh s ho cpus memMB hp hi res
    · simpa [hi] using hn res
  intro s hs cpus memMB i hp hi hou res
  rcases hst s hs cpus memMB hp with ho | hn
  · exact h.counted s ho cpus memMB i hp hi hou res
  · simpa [hi] using hn res

end Balanced

def Fleet.knows (f : Fleet) (h : HostID) : Bool := f.hosts.any (·.id = h)

def Call.letsGo : Call → Bool
  | .unassignHost _ => true
  | .markStopped _ => true
  | .softDelete _ => true
  | _ => false

def Fleet.lettingGo (f : Fleet) : Option HostID :=
  match f.thread with
  | some ⟨.call e _, st, _⟩ => if e.letsGo then st.cur.bind fun w => w.row.hostID else none
  | _ => none

def Fleet.returning (f : Fleet) : Option HostID :=
  f.cur.bind fun w =>
    match w.books with
    | .released h => some h
    | _ => none

/-- A handler has counted what rows hold on a host that is not in the inventory, and is
about to register it. -/
def Fleet.countedFor (d : Deployment) (f : Fleet) (h : HostID) : Bool :=
  !f.knows h && f.streams.any fun s =>
    (match s.phase with
      | .counted _ _ => true
      | _ => false) && (d.info s.agent).id = some h

/-- Between the return of a reservation and the write that takes the row off its host,
nothing fails and no first registration of that host comes in: the write goes through if the
host is in the inventory, it does not slip in between the count and the registration of a
host that is not, and no such host is registered before it. -/
def LetsGoInOrder (d : Deployment) (f : Fleet) : Label → Prop
  | .act fault _ =>
    ∀ h ∈ f.lettingGo, if fault.isSome then f.knows h = false else f.countedFor d h = false
  | .register _ id => f.knows id = true ∨ f.returning ≠ some id
  | _ => True

def TotalsUnchanged (d : Deployment) (totals : Resource → HostID → Nat) (f : Fleet) :
    Label → Prop
  | .register c id => ∀ s ∈ f.streams[c]?, (d.info s.agent).cpusTotal = totals .cpus id ∧
      (d.info s.agent).memoryMBTotal = totals .memoryMB id
  | _ => True

instance (d : Deployment) (f : Fleet) (l : Label) : Decidable (LetsGoInOrder d f l) := by
  induction l using Label.casesOn <;> unfold LetsGoInOrder <;> infer_instance

instance (d : Deployment) (totals : Resource → HostID → Nat) (f : Fleet) (l : Label) :
    Decidable (TotalsUnchanged d totals f l) := by
  induction l using Label.casesOn <;> unfold TotalsUnchanged <;> infer_instance

abbrev Balances (d : Deployment) (totals : Resource → HostID → Nat) (f : Fleet) : Prop :=
  Balanced d totals f.hosts f.rows f.cur f.streams

variable {f : Fleet}

theorem Fleet.knows_iff : f.knows h = true ↔ h ∈ f.hosts.map Host.id := by
  simp [Fleet.knows]

section Step

variable {d : Deployment} {totals : Resource → HostID → Nat} {f f' : Fleet} {l : Label} {e : Call}
    {g : GameServer → GameServer} {id : HostID} {st : Stage}

variable {w : Work}

theorem Balances.letsGo (h : Balanced d totals f.hosts f.rows (some w) f.streams)
    (hi : Informed d f) (hc : Coherent f) (ht : f.thread = some ⟨.call e k, st, i⟩)
    (hcu : st.cur = some w) (hg : e.letsGo = true) (hre : w.returned) (fault : Option String)
    (ho : LetsGoInOrder d f (.act fault order)) (hon : ∀ (res : Resource) i r, res.on i (g r) = 0)
    (w' : Work) (hw' : w'.books = .settled) :
    Balanced d totals f.hosts
      (if fault.isSome then f.rows else updateRow f.rows w.row.id g) (some w') f.streams := by
  have hl : f.lettingGo = w.row.hostID := by
    simp [Fleet.lettingGo, ht, hg, hcu]
  obtain ⟨r, hr, hcore⟩ := hi.agrees _ ht w.row (by simp [Stage.known, hcu])
  have hrc : r.Coherent := hc.rows r (mem_of_getElem? hr)
  cases fault with
  | some text =>
    refine h.giveUp hre (fun id hid => ?_) hw'
    have hou := ho id (by rw [hl, hid]; rfl)
    rw [← Fleet.knows_iff]
    simpa using hou
  | none =>
    refine h.letGo hre hr hcore hrc (fun res i => hon res i r) (fun id hid hou => ?_) hw'
    intro s hs cpus memMB hp hinf
    have hq := ho id (by rw [hl, hid]; rfl)
    rw [← Fleet.knows_iff] at hou
    simp only [Option.isSome_none, Bool.false_eq_true, if_false, Fleet.countedFor,
      Bool.and_eq_false_imp, Bool.not_eq_true', any_eq_false, Bool.and_eq_true,
      decide_eq_true_eq, not_and] at hq
    exact hq (by simpa using hou) s hs (by simp [hp]) hinf

def Call.isPlain : Call → Bool
  | .now | .listHosts | .listReady | .startRunning _ | .stopRunning _ => true
  | .markLost _ _ | .markHealth _ _ _ _ | .markBackedUp _ => true
  | .markStatus _ _ _ | .markRunning _ _ _ _ => true
  | _ => false

theorem Call.plain_on (he : e.isPlain = true) {now : Time} {id : ServerID}
    (hw : e.writes now = some (id, g)) (res : Resource) (i : HostID) (r : GameServer) :
    res.on i (g r) = res.on i r := by
  cases e <;> cases he <;> cases hw
  case markLost =>
    simp only [GameServer.markedLost]
    split
    · cases res <;> rfl
    · rfl
  case markHealth =>
    simp only [GameServer.markedHealth]
    split
    · cases res <;> rfl
    · rfl
  all_goals cases res <;> rfl

theorem Work.next_plain (he : e.isPlain = true) (w : Work) (r : Answer e) :
    (w.next e r).books = w.books ∧
      ∀ res : Resource, res.share (w.next e r).row = res.share w.row := by
  cases e <;> cases he <;> try exact ⟨rfl, fun _ => rfl⟩
  case markLost =>
    cases r with
    | error err => exact ⟨rfl, fun _ => rfl⟩
    | ok u =>
      refine ⟨rfl, fun res => ?_⟩
      simp only [Work.next, GameServer.markedLost]
      split
      · cases res <;> rfl
      · rfl
  all_goals cases r <;> exact ⟨rfl, fun res => by cases res <;> rfl⟩

theorem Fleet.plain_hosts (he : e.isPlain = true) (fault : Option String) (order : Order) :
    (f.answer fault order e).2.hosts = f.hosts := by
  cases e <;> cases he <;> first | rfl | (cases fault <;> rfl)

theorem Balances.plain (h : Balanced d totals f.hosts f.rows (some w) f.streams)
    (he : e.isPlain = true) (fault : Option String) (order : Order) :
    Balanced d totals (f.answer fault order e).2.hosts (f.answer fault order e).2.rows
      (some (w.next e (f.answer fault order e).1)) f.streams := by
  obtain ⟨hb, hs⟩ := Work.next_plain he w (f.answer fault order e).1
  rw [Fleet.plain_hosts he]
  cases hw : e.writes f.clock with
  | none =>
    rw [answer_rows_of_not_writes hw]
    exact h.learn hb hs
  | some write =>
    obtain ⟨id, g⟩ := write
    cases fault with
    | some text =>
      rw [answer_rows_of_fault]
      exact h.learn hb hs
    | none =>
      rw [answer_rows_of_writes hw]
      exact h.note (e.plain_on he hw) hb hs

theorem Balances.act (h : Balances d totals f) (hi : Informed d f) (hc : Coherent f)
    (ht : f.thread = some ⟨.call e k, st, i⟩) (hcm : e.isCommand = false) (fault : Option String)
    (order : Order) (ho : LetsGoInOrder d f (.act fault order)) :
    Balanced d totals (f.answer fault order e).2.hosts (f.answer fault order e).2.rows
      (st.next e (f.answer fault order e).1).cur f.streams := by
  have ha : st.allows d.cfg e := (hi.keeps _ ht).1
  have hs : Balanced d totals f.hosts f.rows st.cur f.streams := by
    have hcu : f.cur = st.cur := by simp [Fleet.cur, ht]
    exact hcu ▸ h
  cases e with
  | enter id =>
    obtain ⟨hcu, s, rest, hto, -⟩ := ha
    refine hs.settled (by rw [hcu]; exact .none) ?_
    simp only [Stage.next, hto]
    rintro w ⟨⟩
    rfl
  | leave id =>
    obtain ⟨w, hcu, -, hse, -⟩ := ha
    refine hs.settled ?_ .none
    rw [hcu]
    rintro w' ⟨⟩
    exact hse
  | listRunning | listReconcilable =>
    have hn : Settled st.cur := by
      rw [show st.cur = none from ha]
      exact .none
    cases fault <;> exact hs.settled hn .none
  | command h op => cases hcm
  | reserve id cpus memMB =>
    obtain ⟨w, hcu, hse, -, -, rfl, rfl, -⟩ := ha
    rw [hcu] at hs
    simp only [Fleet.answer, Stage.next, hcu]
    split
    · exact hs
    · rename_i hosts hre
      exact hs.reserve hse hre
  | release id cpus memMB =>
    obtain ⟨w, hcu, rfl, rfl, hb⟩ := ha
    rw [hcu] at hs
    simp only [Fleet.answer, Stage.next, hcu]
    refine hs.release ?_ rfl
    rcases hb with hu | ⟨hse, hh⟩
    · exact .inl ⟨hu, by simp [Work.next, hu]⟩
    obtain ⟨r, hr, hcore⟩ := hi.agrees _ ht w.row (by simp [Stage.known, hcu])
    have hm := mem_of_getElem? hr
    have hro : w.row.Coherent := (hc.rows r hm).of_core hcore.symm
    refine .inr ⟨hse, by simp [Work.next, hse], fun res => ?_⟩
    rw [← on_of_placed hro hh, ← on_of_core hcore]
    exact on_le_used hm
  | assignHost id host =>
    obtain ⟨w, hcu, rfl, hre, hn, -, -, hk⟩ := ha
    rw [hcu] at hs
    cases fault with
    | some text =>
      simp only [Fleet.answer, Fleet.write, Stage.next, hcu]
      exact hs.undo hre rfl rfl
    | none =>
      simp only [Fleet.answer, Fleet.write, Stage.next, hcu]
      obtain ⟨r, hr, hcore⟩ := hi.agrees _ ht w.row (by simp [Stage.known, hcu])
      have hl : r.deleted = false ∧ ∀ res : Resource, res.share r = res.share w.row := by
        have hd := (hc.live _ ht).cur w hcu hk
        simp only [GameServer.core, Core.mk.injEq] at hcore
        refine ⟨by rw [hcore.2.2.2.2.2.2, hd], fun res => ?_⟩
        cases res
        · exact hcore.2.1
        · exact hcore.2.2.1
      refine hs.assign hre hr hcore hn (fun res i => ?_) rfl
      have hsh := hl.2 res
      by_cases hid : i = host
      · cases res <;> simpa [Resource.on, GameServer.on, hl.1, hid, Resource.share] using hsh
      · simp [Resource.on, GameServer.on, hid, Ne.symm hid]
  | unassignHost id =>
    obtain ⟨w, hcu, rfl, hret, -⟩ := ha
    rw [hcu] at hs
    have hg := Balances.letsGo (g := fun s => { s with hostID := none }) hs hi hc ht hcu rfl hret
      fault ho (fun res i r => on_of_unplaced rfl)
    cases fault <;> simpa [Fleet.answer, Fleet.write, Stage.next, hcu] using hg _ rfl
  | markStopped id =>
    obtain ⟨w, hcu, rfl, hret, -⟩ := ha
    rw [hcu] at hs
    have hg := Balances.letsGo (g := GameServer.markedStopped) hs hi hc ht hcu rfl hret
      fault ho (fun res i r => on_of_unplaced rfl)
    cases fault <;> simpa [Fleet.answer, Fleet.write, Stage.next, hcu] using hg _ rfl
  | softDelete id =>
    obtain ⟨w, hcu, rfl, hret, -⟩ := ha
    rw [hcu] at hs
    have hg := Balances.letsGo (g := GameServer.softDeleted) hs hi hc ht hcu rfl hret
      fault ho (fun res i r => on_of_unplaced rfl)
    cases fault <;> simpa [Fleet.answer, Fleet.write, Stage.next, hcu] using hg _ rfl
  | _ =>
    obtain ⟨w, hcu, -⟩ := ha
    rw [hcu] at hs
    simp only [Stage.next, hcu, Option.map_some]
    exact Balances.plain hs rfl fault order

theorem used_of_unused (h : f.unused id = true) (res : Resource) : res.used f.rows id = 0 := by
  simp only [Fleet.unused, Bool.and_eq_true, Bool.not_eq_true', any_eq_false,
    decide_eq_true_eq] at h
  refine sum_eq_zero fun n hn => ?_
  obtain ⟨s, hs, rfl⟩ := mem_map.mp hn
  simp [Resource.on, GameServer.on, h.1 s hs]

theorem Balances.register (h : Balances d totals f) (hs : registerStep d f c id = some f')
    (ho : LetsGoInOrder d f (.register c id)) (ht : TotalsUnchanged d totals f (.register c id)) :
    Balances d totals f' := by
  obtain ⟨s, cpus, memMB, hosts', hst, hp, hr, rfl⟩ := registerStep_eq hs
  have hme : s ∈ f.streams := mem_of_getElem? hst
  have hto : ∀ res : Resource, res.announced (d.info s.agent) = totals res id := by
    intro res
    cases res
    · exact (ht s (by rw [hst]; rfl)).1
    · exact (ht s (by rw [hst]; rfl)).2
  have hh : Balanced d totals hosts' f.rows f.cur f.streams := by
    rcases registerReserved_eq hr with ⟨-, rfl⟩ | ⟨hn, rfl, hown⟩
    · refine h.same (ledger_updateHost fun x hx hxi => ?_) fun _ _ => rfl
      have hc := h.total .cpus x hx
      have hm := h.total .memoryMB x hx
      rw [hxi, ← hto] at hc hm
      simp only [Resource.total, Resource.announced] at hc hm
      simp [Host.ledger, Host.reregistered, hc, hm]
    refine Balanced.register h hn hto (fun res => ?_) (fun res => ?_)
    · rcases hown with hi | ⟨hi, hf⟩
      · exact h.counted s hme cpus memMB id hp hi hn res
      · rw [used_of_unused hf]
        exact h.fresh s hme cpus memMB hp hi res
    have hno : f.returning ≠ some id := ho.resolve_left (by rw [Fleet.knows_iff]; exact hn)
    cases hcu : f.cur with
    | none => rfl
    | some w =>
      simp only [Resource.back, ite_eq_right_iff]
      intro hb
      exact absurd (by simp [Fleet.returning, hcu, hb]) hno
  refine hh.restream fun s' hs' c' m' hp' => .inl ?_
  rcases mem_or_eq_of_mem_set hs' with hol | rfl
  · exact hol
  · cases hp'

theorem step_counted (hs : step d f l = some f') (hl : ∀ k fault, l ≠ .count k fault) :
    ∀ s ∈ f'.streams, ∀ cpus memMB, s.phase = .counted cpus memMB → s ∈ f.streams := by
  intro s' hs' cpus memMB hp
  by_cases hr : l = .restartControl
  · subst hr
    cases hs
    obtain ⟨s, -, rfl⟩ := mem_map.mp hs'
    cases hp
  obtain ⟨k, hk⟩ := mem_iff_getElem?.mp hs'
  rcases (step_streams hs hr).new k s' hk with ⟨s, hks, hm⟩ | ⟨-, -, ho⟩
  · cases hm with
    | same => exact mem_of_getElem? hks
    | count _ _ hc => exact absurd hc (hl _ _)
    | _ => cases hp
  · rw [ho] at hp
    cases hp

theorem step_hosts (hs : step d f l = some f') (hl : l.isReconciler = false)
    (hr : ∀ c id, l ≠ .register c id) :
    f'.hosts.map Host.ledger = f.hosts.map Host.ledger := by
  cases l with
  | register c id => exact absurd rfl (hr c id)
  | heartbeat c =>
    obtain ⟨h, rfl⟩ := heartbeatStep_eq hs
    exact ledger_updateHost fun x _ _ => rfl
  | markDown c =>
    obtain ⟨a, h, -, rfl⟩ := markDownStep_eq hs
    exact ledger_updateHost fun x _ _ => rfl
  | reapHosts ttl =>
    cases hs
    simp only [markStale, map_map]
    refine map_congr_left fun x _ => ?_
    simp only [Function.comp_apply]
    split <;> rfl
  | _ => first | cases hl; done | rw [(step_leaves hs rfl).hosts rfl]

theorem Balances.step (h : Balances d totals f) (hi : Informed d f) (hc : Coherent f)
    (hs : step d f l = some f') (ho : LetsGoInOrder d f l) (hto : TotalsUnchanged d totals f l) :
    Balances d totals f' := by
  have hco : ∀ {g : Fleet} {host op k st i} (r : Except Err (Option VMView)),
      f.thread = some ⟨.call (.command host op) k, st, i⟩ → g.hosts = f.hosts → g.rows = f.rows →
      g.streams = f.streams → Balances d totals (g.resume st (.command host op) k r) := by
    intro g host op k st i r ht hh hr hst
    obtain ⟨w, hcu, -⟩ := (hi.keeps _ ht).1
    change st.cur = some w at hcu
    have hf : f.cur = some w := by simp [Fleet.cur, ht, hcu]
    unfold Balances at h ⊢
    rw [hf] at h
    rw [hi.resume_cur ht, Fleet.resume_rows, Fleet.resume_hosts, hh, hr,
      (Fleet.resume_unmoved (.refl g) _ _ _ _).streams, hst]
    simp only [Stage.next, hcu, Option.map_some]
    cases r <;> exact h.learn rfl fun _ => rfl
  by_cases hl : l.isReconciler = true
  · cases l with
    | tick =>
      obtain ⟨hn, rfl⟩ := tick_eq hs
      exact Balanced.settled h (by simp [Fleet.cur, hn, Settled]) .none
    | act fault order =>
      obtain ⟨e, k, st, ht, hcm, rfl⟩ := actStep_eq hs
      have ha := Balances.act h hi hc ht hcm fault order ho
      unfold Balances
      have hst := (reconcilerStep_unmoved hs rfl (by simp)).streams
      rw [hi.resume_cur ht, Fleet.resume_rows, Fleet.resume_hosts, hst]
      exact ha
    | issue =>
      obtain ⟨host, op, k, st, ht, ⟨-, rfl⟩ | ⟨c, -, rfl⟩⟩ := issueStep_eq hs
      · exact hco _ ht rfl rfl rfl
      have hf : f.cur = st.cur := by simp [Fleet.cur, ht]
      unfold Balances at h
      rw [hf] at h
      exact h
    | collect =>
      obtain ⟨host, op, k, st, i, c, r, ht, -, -, rfl⟩ := collectStep_eq hs
      exact hco r ht rfl rfl rfl
    | expire =>
      obtain ⟨host, op, k, st, i, c, ht, -, -, -, rfl⟩ := expireStep_eq hs
      exact hco _ ht rfl rfl rfl
    | restartControl =>
      cases hs
      refine ⟨nodup_nil, (fun w _ hw => by cases hw), (fun _ x hx => by cases hx),
        (fun _ x hx => by cases hx), fun res i => ?_, ?_, ?_⟩
      · exact (Nat.le_add_right _ _).trans (h.fits res i)
      · intro s hs cpus memMB hp
        obtain ⟨s', -, rfl⟩ := mem_map.mp hs
        cases hp
      · intro s hs cpus memMB i hp
        obtain ⟨s', -, rfl⟩ := mem_map.mp hs
        cases hp
    | _ => cases hl
  have hl : l.isReconciler = false := by simpa using hl
  have hcu : f'.cur = f.cur := by rw [Fleet.cur, step_thread hs hl, Fleet.cur]
  have hr : ∀ (res : Resource) i, res.used f'.rows i = res.used f.rows i := fun res i =>
    used_move (step_rows hs hl)
  by_cases hre : ∃ c id, l = .register c id
  · obtain ⟨c, id, rfl⟩ := hre
    exact h.register hs ho hto
  have hh : Balanced d totals f'.hosts f'.rows f'.cur f.streams := by
    rw [hcu]
    exact h.same (step_hosts hs hl fun c id he => hre ⟨c, id, he⟩) hr
  by_cases hcou : ∃ k fault, l = .count k fault
  · obtain ⟨k, fault, rfl⟩ := hcou
    refine hh.restream fun s' hs' cpus memMB hp => ?_
    obtain ⟨s, hstr, -, rfl | ⟨hid, rfl⟩ | ⟨i, hid, rfl⟩⟩ := countStep_eq hs <;>
      rcases mem_or_eq_of_mem_set hs' with hol | rfl <;>
      first | exact .inl hol | cases hp
    · refine .inr fun res => ?_
      simp only [hid]
      cases res <;> rfl
    · refine .inr fun res => ?_
      simp only [hid]
      exact used_pick res f.rows i
  · exact hh.restream fun s hs' cpus memMB hp =>
      .inl (step_counted hs (fun k fault he => hcou ⟨k, fault, he⟩) s hs' cpus memMB hp)

theorem Balances.init : Balances d totals .init := by
  refine ⟨nodup_nil, ?_, ?_, ?_, ?_, ?_, ?_⟩
  · intro w i hw
    cases hw
  · intro res x hx
    cases hx
  · intro res x hx
    cases hx
  · intro res i
    exact Nat.zero_le _
  · intro s hs
    cases hs
  · intro s hs
    cases hs

end Step

def Fleet.quiet (f : Fleet) : Prop :=
  f.cur = none ∧ ∀ s ∈ f.streams, s.phase.early = false

theorem balances_of_reaches
    (hr : Reaches (step d) (fun g l _ => TotalsUnchanged d totals g l ∧ LetsGoInOrder d g l) .init
      f) : Balances d totals f := by
  have h : Informed d f ∧ Coherent f ∧ Balances d totals f := by
    refine hr.invariant (I := fun g => Informed d g ∧ Coherent g ∧ Balances d totals g)
      ⟨.init, .init, .init⟩ ?_
    rintro g l g' ⟨hi, hc, hb⟩ hs ⟨ht, ho⟩
    exact ⟨hi.step hs, hc.step hi hs, hb.step hi hc hs ho ht⟩
  exact h.2.2

/-- If totals stay and hosts are let go of in order, what is left is the total less the rows. -/
theorem capacity_conserved (d : Deployment) (totals : Resource → HostID → Nat) (f : Fleet)
    (hrun : Reaches (step d) (fun g l _ => TotalsUnchanged d totals g l ∧ LetsGoInOrder d g l)
      .init f) (hquiet : f.quiet) (h : Host) (hh : h ∈ f.hosts) :
    h.cpusAllocatable = h.cpusTotal - usedCPUs f.rows h.id ∧
      h.memoryMBAllocatable = h.memoryMBTotal - usedMemory f.rows h.id := by
  have hb := balances_of_reaches hrun
  have hsum : ∀ res : Resource, res.allocatable h + res.used f.rows h.id = res.total h := by
    intro res
    have hbooks := hb.books res h hh
    rw [hquiet.1] at hbooks
    rw [hb.total res h hh]
    simpa [Resource.out, Resource.back] using hbooks
  have hcpus : h.cpusAllocatable + usedCPUs f.rows h.id = h.cpusTotal := hsum .cpus
  have hmem : h.memoryMBAllocatable + usedMemory f.rows h.id = h.memoryMBTotal := hsum .memoryMB
  omega

def oneTotals (res : Resource) (_ : HostID) : Nat := res.announced (oneHost.info 0)

instance (f : Fleet) : Decidable f.quiet := by
  unfold Fleet.quiet Fleet.cur
  cases f.thread with
  | none => infer_instance
  | some t =>
    cases h : t.stage.cur with
    | none => exact decidable_of_iff (∀ s ∈ f.streams, s.phase.early = false) (by simp [h])
    | some w => exact .isFalse (by simp [h])

theorem capacity_conserved_running : ∃ f h, Reaches (step oneHost)
        (fun g l _ => TotalsUnchanged oneHost oneTotals g l ∧ LetsGoInOrder oneHost g l) .init f ∧
      f.quiet ∧ h ∈ f.hosts ∧ usedCPUs f.rows h.id = 2 ∧
      h.cpusAllocatable = h.cpusTotal - usedCPUs f.rows h.id ∧
      h.memoryMBAllocatable = h.memoryMBTotal - usedMemory f.rows h.id := by
  obtain ⟨f, hrun, hf⟩ := Reaches.exists_run (step oneHost)
    (fun g l _ => TotalsUnchanged oneHost oneTotals g l ∧ LetsGoInOrder oneHost g l) .init
    toRunning (fun f => decide f.quiet && f.hosts.any fun h => usedCPUs f.rows h.id = 2)
    (by decide +kernel)
  simp only [Bool.and_eq_true, decide_eq_true_eq, any_eq_true] at hf
  obtain ⟨hquiet, h, hh, hused⟩ := hf
  exact ⟨f, h, hrun, hquiet, hh, hused, capacity_conserved oneHost oneTotals f hrun hquiet h hh⟩

/-- A server is stopped. Its reservation is back when the write that takes it off its host
fails, and the host is offered again while the row still holds it. -/
theorem failed_stop_returns_reservation :
    ∃ f h, Reaches (step oneHost) (fun g l _ => TotalsUnchanged oneHost oneTotals g l) .init f ∧
      f.quiet ∧ h ∈ f.hosts ∧ usedCPUs f.rows h.id = 2 ∧ h.cpusTotal = 2 ∧
      h.cpusAllocatable = 2 := by
  obtain ⟨f, hrun, hf⟩ := Reaches.exists_run (step oneHost)
    (fun g l _ => TotalsUnchanged oneHost oneTotals g l) .init
    (toRunning ++ [.setDesired 0 .stopped, .tick] ++ List.replicate 4 plain ++ commanded 1 ++
      commanded 2 ++ [plain, .act (some "connection reset") .asStored, plain, plain])
    (fun f => decide f.quiet && f.hosts.any fun h =>
      usedCPUs f.rows h.id = 2 && h.cpusTotal = 2 && h.cpusAllocatable = 2)
    (by decide +kernel)
  simp only [Bool.and_eq_true, decide_eq_true_eq, any_eq_true] at hf
  obtain ⟨hquiet, h, hh, ⟨hused, htotal⟩, halloc⟩ := hf
  exact ⟨f, h, hrun, hquiet, hh, hused, htotal, halloc⟩

end Craftling.Control

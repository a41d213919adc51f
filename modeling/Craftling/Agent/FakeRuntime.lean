import Mathlib

namespace Craftling.Fake
open List

def wrap (x : Int) : Int := x.bmod (2 ^ 64)

def defaultMinecraftPort : Nat := 25565

/-- A machine and what it was asked to have. The id is a new one for every machine. -/
structure FakeVM where
  id : Nat
  port : Nat
  running : Bool
  cpus : Int
  memMB : Int
  deriving DecidableEq, Repr

structure FakeRuntime where
  cpusTotal : Int
  memMBTotal : Int
  vms : List FakeVM
  usedPorts : List Nat
  minted : Nat
  deriving DecidableEq, Repr

def newFakeRuntime (cpusTotal memMBTotal : Int) : FakeRuntime := ⟨cpusTotal, memMBTotal, [], [], 0⟩

theorem le_sum_of_mem {l : List Nat} (h : p ∈ l) : p ≤ l.sum := by
  induction l with
  | nil => cases h
  | cons a l ih =>
    rw [sum_cons]
    rcases mem_cons.mp h with rfl | h
    · omega
    · have hi := ih h
      omega

theorem exists_free (used : List Nat) : ∃ p, defaultMinecraftPort ≤ p ∧ p ∉ used := by
  refine ⟨defaultMinecraftPort + used.sum + 1, by omega, fun h => ?_⟩
  have hl := le_sum_of_mem h
  omega

/-- The search goes up from the standard port. -/
def allocatePortLocked (used : List Nat) : Nat := Nat.find (exists_free used)

def FakeRuntime.used (r : FakeRuntime) (f : FakeVM → Int) : Int :=
  r.vms.foldl (fun acc v => if v.running then wrap (acc + f v) else acc) 0

/-- A total of zero or less is no limit. -/
def IsOver (total used asked : Int) : Prop := 0 < total ∧ total < wrap (used + asked)

instance (total used asked : Int) : Decidable (IsOver total used asked) :=
  inferInstanceAs (Decidable (_ ∧ _))

def FakeRuntime.fitsLocked (r : FakeRuntime) (cpus memMB : Int) : Bool :=
  ¬IsOver r.cpusTotal (r.used FakeVM.cpus) cpus ∧ ¬IsOver r.memMBTotal (r.used FakeVM.memMB) memMB

inductive Call where
  | provision (cpus memMB : Int)
  | start (id : Nat)
  | stop (id : Nat)
  | evict (id : Nat)
  | deprovision (id : Nat)
  deriving DecidableEq, Repr

inductive Answer where
  | vm (v : FakeVM)
  | done
  | insufficientCapacity
  | notFound
  deriving DecidableEq, Repr

def FakeRuntime.find (r : FakeRuntime) (id : Nat) : Option FakeVM := r.vms.find? (·.id = id)

def FakeRuntime.setRunning (r : FakeRuntime) (id : Nat) (running : Bool) : FakeRuntime :=
  { r with vms := r.vms.map fun v => if v.id = id then { v with running := running } else v }

def FakeRuntime.provision (r : FakeRuntime) (cpus memMB : Int) : Answer × FakeRuntime :=
  if r.fitsLocked cpus memMB then
    let vm : FakeVM := ⟨r.minted, allocatePortLocked r.usedPorts, true, cpus, memMB⟩
    (.vm vm, { r with
      vms := r.vms ++ [vm], usedPorts := r.usedPorts ++ [vm.port], minted := r.minted + 1 })
  else (.insufficientCapacity, r)

def FakeRuntime.start (r : FakeRuntime) (id : Nat) : Answer × FakeRuntime :=
  match r.find id with
  | none => (.notFound, r)
  | some v =>
    if v.running then (.vm v, r)
    else if r.fitsLocked v.cpus v.memMB then (.vm { v with running := true }, r.setRunning id true)
    else (.insufficientCapacity, r)

def FakeRuntime.removeLocked (r : FakeRuntime) (id : Nat) : FakeRuntime :=
  match r.find id with
  | none => r
  | some v =>
    { r with vms := r.vms.filter (·.id ≠ id), usedPorts := r.usedPorts.filter (· ≠ v.port) }

def FakeRuntime.step (r : FakeRuntime) : Call → Answer × FakeRuntime
  | .provision cpus memMB => r.provision cpus memMB
  | .start id => r.start id
  | .stop id => (.done, r.setRunning id false)
  | .evict id => (.done, r.removeLocked id)
  | .deprovision id => (.done, r.removeLocked id)

def FakeRuntime.run (r : FakeRuntime) (calls : List Call) : FakeRuntime :=
  calls.foldl (fun r c => (r.step c).2) r

def share (f : FakeVM → Int) (v : FakeVM) : Int := if v.running then f v else 0

def total (vms : List FakeVM) (f : FakeVM → Int) : Int := (vms.map (share f)).sum

theorem total_cons (v : FakeVM) (vms : List FakeVM) (f : FakeVM → Int) :
    total (v :: vms) f = share f v + total vms f := sum_cons

theorem total_append (vms : List FakeVM) (v : FakeVM) (f : FakeVM → Int) :
    total (vms ++ [v]) f = total vms f + share f v := by
  simp [total]

theorem used_eq (r : FakeRuntime) (f : FakeVM → Int) : r.used f = wrap (total r.vms f) := by
  have h : ∀ (vms : List FakeVM) (a : Int),
      vms.foldl (fun acc v => if v.running then wrap (acc + f v) else acc) (wrap a) =
        wrap (a + total vms f) := by
    intro vms
    induction vms with
    | nil => simp [total]
    | cons v vms ih =>
      intro a
      rw [foldl_cons, total_cons, share]
      split
      · have hw : wrap (wrap a + f v) = wrap (a + f v) := Int.bmod_add_bmod
        rw [hw, ih, Int.add_assoc]
      · rw [ih, Int.zero_add]
  have hr := h r.vms 0
  rwa [Int.zero_add] at hr

theorem share_nonneg (h : 0 < f v) : 0 ≤ share f v := by
  unfold share
  split
  · exact Int.le_of_lt h
  · exact Int.le_refl 0

theorem total_nonneg {vms : List FakeVM} (h : ∀ v ∈ vms, 0 < f v) : 0 ≤ total vms f := by
  refine sum_nonneg fun x hx => ?_
  obtain ⟨v, hv, rfl⟩ := mem_map.mp hx
  exact share_nonneg (h v hv)

theorem total_filter_le {vms : List FakeVM} (p : FakeVM → Bool) (h : ∀ v ∈ vms, 0 < f v) :
    total (vms.filter p) f ≤ total vms f := by
  refine (filter_sublist.map _).sum_le_sum fun x hx => ?_
  obtain ⟨v, hv, rfl⟩ := mem_map.mp hx
  exact share_nonneg (h v hv)

theorem total_stop_le {r : FakeRuntime} (h : ∀ v ∈ r.vms, 0 < f v) (id : Nat) :
    total (r.setRunning id false).vms f ≤ total r.vms f := by
  rw [total, FakeRuntime.setRunning, map_map]
  refine sum_le_sum fun v hv => ?_
  rw [Function.comp_apply]
  split
  · exact share_nonneg (h v hv)
  · exact Int.le_refl _

theorem total_start {vms : List FakeVM} (hn : (vms.map FakeVM.id).Nodup) (hm : v ∈ vms)
    (hs : v.running = false) (hf : ∀ w : FakeVM, f { w with running := true } = f w) :
    total (vms.map fun w => if w.id = v.id then { w with running := true } else w) f =
      total vms f + f v := by
  induction vms with
  | nil => cases hm
  | cons w vms ih =>
    rw [map_cons, nodup_cons] at hn
    rw [map_cons, total_cons, total_cons]
    rcases mem_cons.mp hm with rfl | hm
    · have hsame : (vms.map fun w => if w.id = v.id then { w with running := true } else w) = vms := by
        conv_rhs => rw [← map_id vms]
        refine map_congr_left fun x hx => if_neg fun he => hn.1 ?_
        exact he ▸ mem_map_of_mem hx
      simp only [hsame, share, hs, hf, if_true, Bool.false_eq_true, if_false]
      omega
    · have hne : w.id ≠ v.id := fun he => hn.1 (he ▸ mem_map_of_mem hm)
      rw [if_neg hne, ih hn.2 hm]
      omega

structure Consistent (r : FakeRuntime) : Prop where
  ids : (r.vms.map FakeVM.id).Nodup
  minted : ∀ v ∈ r.vms, v.id < r.minted
  cpusFit : 0 < r.cpusTotal → total r.vms FakeVM.cpus ≤ r.cpusTotal
  memoryFit : 0 < r.memMBTotal → total r.vms FakeVM.memMB ≤ r.memMBTotal
  ports : (r.vms.map FakeVM.port).Nodup
  low : ∀ v ∈ r.vms, defaultMinecraftPort ≤ v.port
  used : ∀ p, p ∈ r.usedPorts ↔ p ∈ r.vms.map FakeVM.port

/-- What is asked for is more than nothing, and does not take a limit past what an `int` holds. -/
structure Sensible (cpusTotal memMBTotal cpus memMB : Int) : Prop where
  cpus : 0 < cpus ∧ (0 < cpusTotal → cpusTotal + cpus < 2 ^ 63)
  memory : 0 < memMB ∧ (0 < memMBTotal → memMBTotal + memMB < 2 ^ 63)

def Exceeds (r : FakeRuntime) (cpus memMB : Int) : Prop :=
  0 < r.cpusTotal ∧ r.cpusTotal < total r.vms FakeVM.cpus + cpus ∨
    0 < r.memMBTotal ∧ r.memMBTotal < total r.vms FakeVM.memMB + memMB

theorem over_iff {limit asked : Int} (hu : 0 ≤ used) (hl : 0 < limit → used ≤ limit)
    (ha : 0 < asked ∧ (0 < limit → limit + asked < 2 ^ 63)) :
    IsOver limit (wrap used) asked ↔ 0 < limit ∧ limit < used + asked := by
  have hw : wrap (wrap used + asked) = wrap (used + asked) := Int.bmod_add_bmod
  unfold IsOver
  rw [hw]
  refine and_congr_right fun hp => ?_
  have hle := hl hp
  have hlt := ha.2 hp
  have hfit : wrap (used + asked) = used + asked := by
    apply Int.bmod_eq_of_le_mul_two
    · omega
    · omega
  rw [hfit]

def FakeRuntime.Sensible (r : FakeRuntime) : Prop :=
  ∀ v ∈ r.vms, Fake.Sensible r.cpusTotal r.memMBTotal v.cpus v.memMB

section

variable (h : Consistent r) (hr : r.Sensible) (hs : Sensible r.cpusTotal r.memMBTotal cpus memMB)
include h hr hs

theorem Consistent.fits_iff : r.fitsLocked cpus memMB = false ↔ Exceeds r cpus memMB := by
  have hc := over_iff (total_nonneg fun v hv => (hr v hv).cpus.1) h.cpusFit hs.cpus
  have hm := over_iff (total_nonneg fun v hv => (hr v hv).memory.1) h.memoryFit hs.memory
  unfold FakeRuntime.fitsLocked Exceeds
  rw [used_eq, used_eq, decide_eq_false_iff_not, not_and_or, not_not, not_not, hc, hm]

theorem Consistent.fits (hf : r.fitsLocked cpus memMB = true) :
    (0 < r.cpusTotal → total r.vms FakeVM.cpus + cpus ≤ r.cpusTotal) ∧
      (0 < r.memMBTotal → total r.vms FakeVM.memMB + memMB ≤ r.memMBTotal) := by
  have hx : ¬Exceeds r cpus memMB := by
    rw [← h.fits_iff hr hs, hf]
    simp
  rw [Exceeds, not_or, not_and, not_and] at hx
  exact ⟨fun hp => Int.not_lt.mp (hx.1 hp), fun hp => Int.not_lt.mp (hx.2 hp)⟩

end

theorem allocatePortLocked_least (used : List Nat) :
    defaultMinecraftPort ≤ allocatePortLocked used ∧ allocatePortLocked used ∉ used ∧
      ∀ p, defaultMinecraftPort ≤ p → p < allocatePortLocked used → p ∈ used := by
  refine ⟨(Nat.find_spec (exists_free used)).1, (Nat.find_spec (exists_free used)).2, ?_⟩
  intro p hp hlt
  by_contra hfree
  exact Nat.find_min (exists_free used) hlt ⟨hp, hfree⟩

theorem Consistent.provision (h : Consistent r) (hr : r.Sensible)
    (hs : Sensible r.cpusTotal r.memMBTotal cpus memMB) : Consistent (r.provision cpus memMB).2 := by
  unfold FakeRuntime.provision
  split
  · rename_i hf
    obtain ⟨hc, hm⟩ := h.fits hr hs hf
    obtain ⟨hlow, hfree, -⟩ := allocatePortLocked_least r.usedPorts
    refine ⟨?_, ?_, fun hp => ?_, fun hp => ?_, ?_, ?_, fun p => ?_⟩
    · rw [map_append, nodup_append]
      refine ⟨h.ids, nodup_singleton _, fun a ha b hb hab => ?_⟩
      obtain ⟨v, hv, rfl⟩ := mem_map.mp ha
      have hlt := h.minted v hv
      rw [hab, mem_singleton.mp hb] at hlt
      exact Nat.lt_irrefl _ hlt
    · rw [forall_mem_append, forall_mem_singleton]
      exact ⟨fun v hv => Nat.lt_succ_of_lt (h.minted v hv), Nat.lt_succ_self _⟩
    · rw [total_append]
      exact hc hp
    · rw [total_append]
      exact hm hp
    · rw [map_append, nodup_append]
      refine ⟨h.ports, nodup_singleton _, fun a ha b hb hab => hfree ?_⟩
      rw [h.used]
      rw [hab, mem_singleton.mp hb] at ha
      exact ha
    · rw [forall_mem_append, forall_mem_singleton]
      exact ⟨h.low, hlow⟩
    · simp [h.used p]
  · exact h

theorem forall_setRunning {r : FakeRuntime} {P : FakeVM → Prop}
    (hP : ∀ v b, P v → P { v with running := b }) (h : ∀ v ∈ r.vms, P v) (id : Nat) (running : Bool) :
    ∀ v ∈ (r.setRunning id running).vms, P v := by
  intro v hv
  obtain ⟨w, hw, rfl⟩ := mem_map.mp hv
  split
  · exact hP w running (h w hw)
  · exact h w hw

theorem map_setRunning {f : FakeVM → Nat} (hf : ∀ v b, f { v with running := b } = f v)
    (r : FakeRuntime) (id : Nat) (running : Bool) :
    (r.setRunning id running).vms.map f = r.vms.map f := by
  rw [FakeRuntime.setRunning, map_map]
  refine map_congr_left fun v _ => ?_
  rw [Function.comp_apply]
  split
  · exact hf v running
  · rfl

theorem Consistent.setRunning (h : Consistent r) (id : Nat) (running : Bool)
    (hc : 0 < r.cpusTotal → total (r.setRunning id running).vms FakeVM.cpus ≤ r.cpusTotal)
    (hm : 0 < r.memMBTotal → total (r.setRunning id running).vms FakeVM.memMB ≤ r.memMBTotal) :
    Consistent (r.setRunning id running) := by
  have hports : (r.setRunning id running).vms.map FakeVM.port = r.vms.map FakeVM.port :=
    map_setRunning (fun _ _ => rfl) r id running
  refine ⟨?_, forall_setRunning (fun _ _ hv => hv) h.minted id running, hc, hm, ?_,
    forall_setRunning (fun _ _ hv => hv) h.low id running, ?_⟩
  · rw [map_setRunning fun _ _ => rfl]
    exact h.ids
  · rw [hports]
    exact h.ports
  · rw [hports]
    exact h.used

theorem Consistent.stop (h : Consistent r) (hr : r.Sensible) (id : Nat) :
    Consistent (r.setRunning id false) := by
  refine h.setRunning id false (fun hp => ?_) fun hp => ?_
  · exact Int.le_trans (total_stop_le (fun v hv => (hr v hv).cpus.1) id) (h.cpusFit hp)
  · exact Int.le_trans (total_stop_le (fun v hv => (hr v hv).memory.1) id) (h.memoryFit hp)

theorem find_spec {r : FakeRuntime} {id : Nat} (h : r.find id = some v) : v ∈ r.vms ∧ v.id = id :=
  ⟨mem_of_find?_eq_some h, by simpa using List.find?_some h⟩

theorem Consistent.start (h : Consistent r) (hr : r.Sensible) (id : Nat) :
    Consistent (r.start id).2 := by
  unfold FakeRuntime.start
  split
  · exact h
  rename_i v hv
  obtain ⟨hm, rfl⟩ := find_spec hv
  split
  · exact h
  rename_i hrun
  split
  · rename_i hf
    obtain ⟨hc, hmm⟩ := h.fits hr (hr v hm) hf
    have hstopped : v.running = false := Bool.eq_false_of_not_eq_true hrun
    refine h.setRunning v.id true (fun hp => ?_) fun hp => ?_
    · rw [FakeRuntime.setRunning, total_start h.ids hm hstopped fun _ => rfl]
      exact hc hp
    · rw [FakeRuntime.setRunning, total_start h.ids hm hstopped fun _ => rfl]
      exact hmm hp
  · exact h

theorem Consistent.remove (h : Consistent r) (hr : r.Sensible) (id : Nat) :
    Consistent (r.removeLocked id) := by
  unfold FakeRuntime.removeLocked
  split
  · exact h
  rename_i v hv
  obtain ⟨hm, rfl⟩ := find_spec hv
  have hsub : ∀ w ∈ r.vms.filter (·.id ≠ v.id), w ∈ r.vms := fun w hw => (mem_filter.mp hw).1
  refine ⟨h.ids.sublist (filter_sublist.map _), fun w hw => h.minted w (hsub w hw),
    fun hp => ?_, fun hp => ?_, h.ports.sublist (filter_sublist.map _),
    fun w hw => h.low w (hsub w hw), fun p => ?_⟩
  · exact Int.le_trans (total_filter_le _ fun w hw => (hr w hw).cpus.1) (h.cpusFit hp)
  · exact Int.le_trans (total_filter_le _ fun w hw => (hr w hw).memory.1) (h.memoryFit hp)
  -- Machines with other ids have other ports.
  simp only [mem_filter, h.used p, mem_map, decide_eq_true_eq]
  constructor
  · rintro ⟨⟨w, hw, rfl⟩, hne⟩
    exact ⟨w, ⟨hw, fun he => hne (congrArg FakeVM.port (inj_on_of_nodup_map h.ids hw hm he))⟩, rfl⟩
  · rintro ⟨w, ⟨hw, hne⟩, rfl⟩
    exact ⟨⟨w, hw, rfl⟩, fun he => hne (congrArg FakeVM.id (inj_on_of_nodup_map h.ports hw hm he))⟩

def Call.Sensible (cpusTotal memMBTotal : Int) : Call → Prop
  | .provision cpus memMB => Fake.Sensible cpusTotal memMBTotal cpus memMB
  | _ => True

structure Kept (cpusTotal memMBTotal : Int) (r : FakeRuntime) : Prop where
  consistent : Consistent r
  limits : r.cpusTotal = cpusTotal ∧ r.memMBTotal = memMBTotal
  sensible : r.Sensible

theorem step_limits (r : FakeRuntime) (c : Call) :
    (r.step c).2.cpusTotal = r.cpusTotal ∧ (r.step c).2.memMBTotal = r.memMBTotal := by
  cases c <;>
    simp only [FakeRuntime.step, FakeRuntime.provision, FakeRuntime.start, FakeRuntime.removeLocked] <;>
    repeat' split
  all_goals exact ⟨rfl, rfl⟩

theorem step_vms {P : Int → Int → Prop} (h : ∀ v ∈ r.vms, P v.cpus v.memMB)
    (hc : ∀ cpus memMB, c = .provision cpus memMB → P cpus memMB) :
    ∀ v ∈ (FakeRuntime.step r c).2.vms, P v.cpus v.memMB := by
  have hset : ∀ id running, ∀ v ∈ (r.setRunning id running).vms, P v.cpus v.memMB :=
    forall_setRunning (fun _ _ hv => hv) h
  have hremove : ∀ id, ∀ v ∈ (r.removeLocked id).vms, P v.cpus v.memMB := by
    intro id
    unfold FakeRuntime.removeLocked
    split
    · exact h
    · exact fun v hv => h v (mem_filter.mp hv).1
  cases c with
  | provision cpus memMB =>
    simp only [FakeRuntime.step, FakeRuntime.provision]
    split
    · rw [forall_mem_append, forall_mem_singleton]
      exact ⟨h, hc cpus memMB rfl⟩
    · exact h
  | start id =>
    simp only [FakeRuntime.step, FakeRuntime.start]
    split
    · exact h
    split
    · exact h
    · split
      · exact hset id true
      · exact h
  | stop id => exact hset id false
  | evict id | deprovision id => exact hremove id

theorem Kept.step (h : Kept cc mm r) (hc : c.Sensible cc mm) : Kept cc mm (r.step c).2 := by
  have hl := step_limits r c
  have hs : ∀ cpus memMB, c = .provision cpus memMB →
      Fake.Sensible r.cpusTotal r.memMBTotal cpus memMB := by
    rintro cpus memMB rfl
    rw [h.limits.1, h.limits.2]
    exact hc
  refine ⟨?_, ⟨hl.1.trans h.limits.1, hl.2.trans h.limits.2⟩, ?_⟩
  · cases c with
    | provision cpus memMB => exact h.consistent.provision h.sensible (hs cpus memMB rfl)
    | start id => exact h.consistent.start h.sensible id
    | stop id => exact h.consistent.stop h.sensible id
    | evict id | deprovision id => exact h.consistent.remove h.sensible id
  · unfold FakeRuntime.Sensible
    rw [hl.1, hl.2]
    exact step_vms h.sensible hs

theorem Kept.run (h : Kept cc mm r) (hc : ∀ c ∈ calls, c.Sensible cc mm) :
    Kept cc mm (r.run calls) := by
  induction calls generalizing r with
  | nil => exact h
  | cons c calls ih =>
    exact ih (h.step (hc c (.head _))) fun d hd => hc d (.tail _ hd)

theorem kept_new (cc mm : Int) : Kept cc mm (newFakeRuntime cc mm) :=
  ⟨⟨nodup_nil, nofun, Int.le_of_lt, Int.le_of_lt, nodup_nil, nofun,
    fun _ => Iff.rfl⟩, ⟨rfl, rfl⟩, nofun⟩

/-- What a call does to a consistent runtime: a machine gets the least free port, and a refusal
changes nothing and has a reason. -/
structure Exact (r : FakeRuntime) : Prop where
  least : ∀ cpus memMB v, (r.step (.provision cpus memMB)).1 = .vm v →
    defaultMinecraftPort ≤ v.port ∧ v.port ∉ r.vms.map FakeVM.port ∧
      ∀ p, defaultMinecraftPort ≤ p → p < v.port → p ∈ r.vms.map FakeVM.port
  refused : ∀ c, (r.step c).1 = .insufficientCapacity ∨ (r.step c).1 = .notFound → (r.step c).2 = r
  provision : ∀ cpus memMB, Fake.Sensible r.cpusTotal r.memMBTotal cpus memMB →
    ((r.step (.provision cpus memMB)).1 = .insufficientCapacity ↔ Exceeds r cpus memMB)
  start : ∀ id, (r.step (.start id)).1 = .insufficientCapacity ↔
    ∃ v, r.find id = some v ∧ v.running = false ∧ Exceeds r v.cpus v.memMB

theorem Kept.exact (h : Kept cc mm r) : Exact r := by
  refine ⟨fun cpus memMB v hv => ?_, fun c hr => ?_, fun cpus memMB hs => ?_, fun id => ?_⟩
  · simp only [FakeRuntime.step, FakeRuntime.provision] at hv
    split at hv
    · cases hv
      obtain ⟨hlow, hfree, hmin⟩ := allocatePortLocked_least r.usedPorts
      exact ⟨hlow, fun hin => hfree ((h.consistent.used _).mpr hin),
        fun p hp hlt => (h.consistent.used p).mp (hmin p hp hlt)⟩
    · cases hv
  · cases c with
    | provision cpus memMB =>
      simp only [FakeRuntime.step, FakeRuntime.provision] at hr ⊢
      split
      · rename_i hf
        simp [hf] at hr
      · rfl
    | start id =>
      simp only [FakeRuntime.step, FakeRuntime.start] at hr ⊢
      split
      · rfl
      rename_i v hv
      split
      · rfl
      rename_i hrun
      split
      · rename_i hf
        simp [hv, hrun, hf] at hr
      · rfl
    | stop id | evict id | deprovision id => simp [FakeRuntime.step] at hr
  · rw [← h.consistent.fits_iff h.sensible hs]
    simp only [FakeRuntime.step, FakeRuntime.provision]
    split
    · rename_i hf
      simp [hf]
    · rename_i hf
      simp [Bool.eq_false_of_not_eq_true hf]
  · simp only [FakeRuntime.step, FakeRuntime.start]
    split
    · rename_i hn
      simp [hn]
    rename_i v hv
    simp only [hv, Option.some.injEq, exists_eq_left']
    rw [← h.consistent.fits_iff h.sensible (h.sensible v (find_spec hv).1)]
    split
    · rename_i hrun
      simp [hrun]
    rename_i hrun
    split
    · rename_i hf
      simp [hf]
    · rename_i hf
      simp [Bool.eq_false_of_not_eq_true hf, Bool.eq_false_of_not_eq_true hrun]

/-- Whatever is called, as long as what is asked for does not take a limit past what an `int` holds,
the runtime is consistent and does exactly what it should with the next call. -/
theorem fake_runtime_consistent (cc mm : Int) (calls : List Call)
    (hc : ∀ c ∈ calls, c.Sensible cc mm) :
    Consistent ((newFakeRuntime cc mm).run calls) ∧ Exact ((newFakeRuntime cc mm).run calls) :=
  ⟨((kept_new cc mm).run hc).consistent, ((kept_new cc mm).run hc).exact⟩

theorem two_machines_consistent :
    Consistent ((newFakeRuntime 4 0).run [.provision 2 512, .stop 0, .provision 3 512, .start 0]) :=
  (fake_runtime_consistent 4 0 [.provision 2 512, .stop 0, .provision 3 512, .start 0] (by
    intro c hc
    simp only [mem_cons, not_mem_nil, or_false] at hc
    rcases hc with rfl | rfl | rfl | rfl
    · exact ⟨by decide, by decide⟩
    · trivial
    · exact ⟨by decide, by decide⟩
    · trivial)).1

/-- The sum of what is used and what is asked for is past what an `int` holds, and comes out below
the limit. -/
theorem huge_request_admitted :
    ¬Consistent ((newFakeRuntime 10 0).run [.provision 1 1, .provision (2 ^ 63 - 1) 1]) := by
  intro h
  have hone : (newFakeRuntime 10 0).fitsLocked 1 1 = true := by decide
  have htwo : ((newFakeRuntime 10 0).provision 1 1).2.fitsLocked (2 ^ 63 - 1) 1 = true := by
    rw [FakeRuntime.provision, if_pos hone]
    decide
  have hle := h.cpusFit (by
    simp only [FakeRuntime.run, foldl_cons, foldl_nil, FakeRuntime.step]
    rw [FakeRuntime.provision, if_pos htwo, FakeRuntime.provision, if_pos hone]
    decide)
  simp only [FakeRuntime.run, foldl_cons, foldl_nil, FakeRuntime.step] at hle
  rw [FakeRuntime.provision, if_pos htwo, FakeRuntime.provision, if_pos hone] at hle
  simp [newFakeRuntime, total, share] at hle

end Craftling.Fake

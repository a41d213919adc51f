import Craftling.Agent.Provision

namespace Craftling.Agent.Provision
open Effects Prog

/-- A world disk at its path. Renaming another file over it makes a new one, and VMs
that have the old one open go on writing that. -/
structure Disk where
  world : Stamp
  file : Nat
  deriving DecidableEq, Repr

structure VM where
  id : String
  key : String
  file : Nat
  on : Bool
  deriving DecidableEq, Repr

/-- A host: the VMs its agent tracks, those a restarted agent has forgotten but whose
processes live on, and the world disks by path. -/
structure Host where
  vms : List VM
  orphans : List VM
  disks : String → Option Disk

/-- A Provision that brought a VM up: what the store and the host held of its world
before the call, and the world that the VM came up with. -/
structure Boot where
  host : Nat
  key : String
  stored : Option Stamp
  present : Option Stamp
  world : Option Stamp
  deriving DecidableEq, Repr

/-- Hosts that share one world store. `uploads` are captures on their way there, by key,
and `writes` counts the guest writes so far. -/
structure Fleet where
  hosts : Nat → Host
  store : String → Option Stamp
  uploads : List (String × Stamp)
  writes : Nat
  nextFile : Nat
  nextVM : Nat
  boots : List Boot

def Fleet.cold (disks : Nat → String → Option Disk) (store : String → Option Stamp)
    (writes nextFile : Nat) : Fleet :=
  ⟨fun h => ⟨[], [], disks h⟩, store, [], writes, nextFile, 0, []⟩

def Fleet.setHost (f : Fleet) (h : Nat) (host : Host) : Fleet :=
  { f with hosts := fun j => if j = h then host else f.hosts j }

def Host.setDisk (host : Host) (path : String) (d : Option Disk) : Host :=
  { host with disks := fun p => if p = path then d else host.disks p }

def Fleet.stored (f : Fleet) (key : String) : Option Stamp := f.store (sanitizeKey key)

def Fleet.present (f : Fleet) (h : Nat) (path : String) : Option Stamp :=
  ((f.hosts h).disks path).map Disk.world

def Fleet.put (f : Fleet) (key : String) (world : Stamp) : Fleet :=
  { f with store := fun k => if k = sanitizeKey key then some world else f.store k }

def Fleet.delete (f : Fleet) (key : String) : Fleet :=
  { f with store := fun k => if k = sanitizeKey key then none else f.store k }

/-- Errors by call. A Provision makes no call twice but for removing its temp file. -/
abbrev Plan := Call → Option String

def outcome (plan : Plan) (e : Call) : Except String Unit :=
  match plan e with
  | some err => .error err
  | none => .ok ()

def onCall (h : Nat) (plan : Plan) : (e : Call) → Fleet → Answer e × Fleet
  | .makeDir, f =>
    match plan .makeDir with
    | some err => (.error err, f)
    | none => (.ok ("vm-" ++ toString f.nextVM), { f with nextVM := f.nextVM + 1 })
  | .exists key, f =>
    match plan (.exists key) with
    | some err => (.error err, f)
    | none => (.ok (f.stored key).isSome, f)
  | .get key, f =>
    match plan (.get key), f.stored key with
    | some err, _ => (.error err, f)
    | none, none => (.error "storage: world not found", f)
    | none, some world => (.ok world, f)
  | .publish path world, f =>
    match plan (.publish path world) with
    | some err => (.error err, f)
    | none => (.ok (), { f.setHost h ((f.hosts h).setDisk path (some ⟨world, f.nextFile⟩)) with
        nextFile := f.nextFile + 1 })
  | .stat path, f =>
    match plan (.stat path) with
    | some err => (.error err, f)
    | none => (.ok (f.present h path).isSome, f)
  | .boot path, f =>
    match plan (.boot path) with
    | some err => (.error err, f)
    | none => (.ok (f.present h path), f)
  | .releaseNet, f => ((), f)
  | .removeDir, f => ((), f)
  | .removeTemp, f => ((), f)
  | .capacity cpus mem, f => (outcome plan (.capacity cpus mem), f)
  | .ensureImage, f => (outcome plan .ensureImage, f)
  | .allocNet, f => (outcome plan .allocNet, f)
  | .gunzip, f => (outcome plan .gunzip, f)
  | .makeWorldDir, f => (outcome plan .makeWorldDir, f)
  | .createTemp, f => (outcome plan .createTemp, f)
  | .fillTemp, f => (outcome plan .fillTemp, f)
  | .closeTemp, f => (outcome plan .closeTemp, f)
  | .mkfs, f => (outcome plan .mkfs, f)

inductive Label where
  | provision (h : Nat) (spec : VMSpec) (plan : Plan)
  | start (h : Nat) (id : String)
  | stop (h : Nat) (id : String)
  | snapshot (h : Nat) (id : String)
  | put (i : Nat)
  | evict (h : Nat) (id : String)
  | deprovision (h : Nat) (id : String)
  | restartAgent (h : Nat)
  | loseVM (h : Nat) (id : String)
  | guestWrite (h : Nat) (id : String)

def Host.find (host : Host) (id : String) : Option VM := host.vms.find? (·.id = id)

def powerOff (vms : List VM) (id : String) : List VM :=
  vms.map fun v => if v.id = id then { v with on := false } else v

/-- A stopped VM is booted from the disk that is at its path by then. -/
def Host.powerOn (host : Host) (id : String) : Host :=
  { host with vms := host.vms.map fun v =>
      if v.id = id && !v.on then
        { v with on := true, file := ((host.disks (sanitizeKey v.key)).map Disk.file).getD 0 }
      else v }

/-- Read the world disk of a VM for the store, as its path holds it. -/
def Fleet.capture (f : Fleet) (h : Nat) (v : VM) : Fleet :=
  match f.present h (sanitizeKey v.key) with
  | some world => { f with uploads := f.uploads ++ [(v.key, world)] }
  | none => f

def Host.teardown (host : Host) (v : VM) : Host :=
  { host.setDisk (sanitizeKey v.key) none with vms := host.vms.filter (·.id ≠ v.id) }

/-- A Provision as one step. A VM that comes up is tracked, and the boot noted. -/
def Fleet.provision (cfg : Config) (f : Fleet) (h : Nat) (spec : VMSpec) (plan : Plan) : Fleet :=
  let (res, f') := (Provision.provision cfg spec).runOn (onCall h plan) f
  match res with
  | .error _ => f'
  | .ok p =>
    let host := f'.hosts h
    let file := ((host.disks (sanitizeKey p.key)).map Disk.file).getD 0
    { f'.setHost h { host with vms := host.vms ++ [⟨p.id, p.key, file, true⟩] } with
      boots := f'.boots ++
        [⟨h, p.key, f.stored p.key, f.present h (sanitizeKey p.key), p.world⟩] }

/-- What is read for the store gets there later, in any order, or never. -/
def step (cfg : Config) (f : Fleet) : Label → Option Fleet
  | .provision h spec plan => some (f.provision cfg h spec plan)
  | .start h id => some (f.setHost h ((f.hosts h).powerOn id))
  | .stop h id =>
    match (f.hosts h).find id with
    | none => some f
    | some v =>
      let f' := f.setHost h { f.hosts h with vms := powerOff (f.hosts h).vms id }
      some (if cfg.store then f'.capture h v else f')
  | .snapshot h id =>
    match (f.hosts h).find id with
    | none => none
    | some v => if v.on && cfg.store then some (f.capture h v) else none
  | .put i =>
    match f.uploads[i]? with
    | none => none
    | some (key, world) => some { f.put key world with uploads := f.uploads.eraseIdx i }
  | .evict h id =>
    match (f.hosts h).find id with
    | none => some f
    | some v => some (f.setHost h ((f.hosts h).teardown v))
  | .deprovision h id =>
    match (f.hosts h).find id with
    | none => some f
    | some v =>
      let f' := f.setHost h ((f.hosts h).teardown v)
      some (if cfg.store then f'.delete v.key else f')
  | .restartAgent h =>
    let host := f.hosts h
    some (f.setHost h { host with vms := [], orphans := host.orphans ++ host.vms.filter (·.on) })
  | .loseVM h id =>
    let host := f.hosts h
    some (f.setHost h { host with
      vms := powerOff host.vms id, orphans := powerOff host.orphans id })
  | .guestWrite h id =>
    let host := f.hosts h
    match (host.vms ++ host.orphans).find? (fun v => v.id = id && v.on) with
    | none => none
    | some v =>
      let path := sanitizeKey v.key
      match host.disks path with
      | none => some { f with writes := f.writes + 1 }
      | some d =>
        if d.file = v.file then
          some { f.setHost h (host.setDisk path (some { d with world := f.writes + 1 })) with
            writes := f.writes + 1 }
        else some { f with writes := f.writes + 1 }

section Run

variable {h : Nat} {plan : Plan} {f f' : Fleet} {b : Bool} {cfg : Config} {p : Provisioned}
    {world : Stamp} {id key path : String} {spec : VMSpec}

theorem orElse_ok {ctx : String} {cleanup : Act Unit} {next : α → Act (Except String β)} {b : β}
    (hr : (orElse r ctx cleanup next).runOn (onCall h plan) f = (.ok b, f')) :
    ∃ a, r = .ok a ∧ (next a).runOn (onCall h plan) f = (.ok b, f') := by
  cases r with
  | ok a => exact ⟨a, rfl, hr⟩
  | error e =>
    simp only [orElse, runOn_bind, runOn_done, Prod.mk.injEq, reduceCtorEq, false_and] at hr

theorem setHost_present (f : Fleet) (h : Nat) (path : String) (d : Option Disk) :
    (f.setHost h ((f.hosts h).setDisk path d)).present h path = d.map Disk.world := by
  simp [Fleet.present, Fleet.setHost, Host.setDisk]

theorem publish_ok (hr : (onCall h plan (.publish path world) f).1 = .ok u) :
    (onCall h plan (.publish path world) f).2.present h path = some world := by
  cases hp : plan (.publish path world) with
  | some err => simp [onCall, hp] at hr
  | none =>
    simp only [onCall, hp]
    exact setHost_present f h path _

theorem get_ok (hr : (onCall h plan (.get key) f).1 = .ok world) :
    f.stored key = some world ∧ (onCall h plan (.get key) f).2 = f := by
  cases hp : plan (.get key) with
  | some err => simp [onCall, hp] at hr
  | none =>
    cases hs : f.stored key with
    | none => simp [onCall, hp, hs] at hr
    | some world' =>
      simp only [onCall, hp, hs, Except.ok.injEq] at hr ⊢
      exact ⟨congrArg some hr, trivial⟩

theorem stat_ok (hr : (onCall h plan (.stat path) f).1 = .ok b) :
    b = (f.present h path).isSome ∧ (onCall h plan (.stat path) f).2 = f := by
  cases hp : plan (.stat path) with
  | some err => simp [onCall, hp] at hr
  | none =>
    simp only [onCall, hp, Except.ok.injEq] at hr ⊢
    exact ⟨hr.symm, trivial⟩

theorem exists_ok (hr : (onCall h plan (.exists key) f).1 = .ok b) :
    b = (f.stored key).isSome ∧ (onCall h plan (.exists key) f).2 = f := by
  cases hp : plan (.exists key) with
  | some err => simp [onCall, hp] at hr
  | none =>
    simp only [onCall, hp, Except.ok.injEq] at hr ⊢
    exact ⟨hr.symm, trivial⟩

theorem boot_ok {world : Option Stamp} (hr : (onCall h plan (.boot path) f).1 = .ok world) :
    world = f.present h path ∧ (onCall h plan (.boot path) f).2 = f := by
  cases hp : plan (.boot path) with
  | some err => simp [onCall, hp] at hr
  | none =>
    simp only [onCall, hp, Except.ok.injEq] at hr ⊢
    exact ⟨hr.symm, trivial⟩

theorem restoreWorldDisk_ok
    (hr : (restoreWorldDisk key path).runOn (onCall h plan) f = (.ok u, f')) :
    ∃ world, f.stored key = some world ∧ f'.present h path = some world := by
  obtain ⟨world, hg, hr⟩ := orElse_ok hr
  obtain ⟨hs, hf⟩ := get_ok hg
  rw [hf] at hr
  iterate 5 obtain ⟨_, _, hr⟩ := orElse_ok hr
  obtain ⟨_, hp, hr⟩ := orElse_ok hr
  cases hr
  exact ⟨world, hs, publish_ok hp⟩

theorem ensureWorldDisk_ok (hr : (ensureWorldDisk path).runOn (onCall h plan) f = (.ok u, f')) :
    f'.present h path = some ((f.present h path).getD 0) := by
  obtain ⟨b, hs, hr⟩ := orElse_ok hr
  obtain ⟨rfl, hf⟩ := stat_ok hs
  rw [hf] at hr
  cases hp : f.present h path with
  | some world =>
    simp only [hp, Option.isSome_some, if_true] at hr
    cases hr
    exact hp
  | none =>
    simp only [hp, Option.isSome_none, Bool.false_eq_true, if_false] at hr
    iterate 5 obtain ⟨_, _, hr⟩ := orElse_ok hr
    obtain ⟨_, hpu, hr⟩ := orElse_ok hr
    cases hr
    exact publish_ok hpu

def picked (stored present : Option Stamp) : Stamp := (stored.orElse fun _ => present).getD 0

theorem prepareWorldDisk_ok (hst : cfg.store = true)
    (hr : (prepareWorldDisk cfg key path).runOn (onCall h plan) f = (.ok u, f')) :
    f'.present h path = some (picked (f.stored key) (f.present h path)) := by
  simp only [prepareWorldDisk, hst, if_true] at hr
  obtain ⟨b, he, hr⟩ := orElse_ok hr
  obtain ⟨rfl, hf⟩ := exists_ok he
  rw [hf] at hr
  cases hs : f.stored key with
  | some world =>
    simp only [hs, Option.isSome_some, if_true] at hr
    obtain ⟨world', hsto, hp⟩ := restoreWorldDisk_ok hr
    rw [hs] at hsto
    cases hsto
    exact hp
  | none =>
    simp only [hs, Option.isSome_none, Bool.false_eq_true, if_false] at hr
    exact ensureWorldDisk_ok hr

theorem bootVM_ok (hr : (bootVM cfg id key path).runOn (onCall h plan) f = (.ok p, f')) :
    p.key = key ∧ p.world = f.present h path := by
  obtain ⟨world, hb, hr⟩ := orElse_ok hr
  cases hr
  exact ⟨rfl, (boot_ok hb).1⟩

theorem provisionIn_ok (hs : cfg.store = true) (hp : cfg.worldPersistence = true)
    (hr : (provisionIn cfg spec id).runOn (onCall h plan) f = (.ok p, f')) :
    p.world = some (picked (f.stored p.key) (f.present h (sanitizeKey p.key))) := by
  simp only [provisionIn, hp, if_true] at hr
  split at hr
  · rw [bind_eq, runOn_bind] at hr
    obtain ⟨u, hpr, hr⟩ := orElse_ok hr
    obtain ⟨hk, hw⟩ := bootVM_ok hr
    rw [hw, hk]
    exact prepareWorldDisk_ok hs (Prod.ext hpr rfl)
  · rw [bind_eq, runOn_bind] at hr
    cases hr

theorem makeDir_world (hr : (onCall h plan .makeDir f).1 = .ok id) :
    (onCall h plan .makeDir f).2.store = f.store ∧
      (onCall h plan .makeDir f).2.hosts = f.hosts := by
  cases hp : plan .makeDir with
  | some err => simp [onCall, hp] at hr
  | none => simp [onCall, hp]

theorem provision_ok (hst : cfg.store = true) (hp : cfg.worldPersistence = true)
    (hr : (Provision.provision cfg spec).runOn (onCall h plan) f = (.ok p, f')) :
    p.world = some (picked (f.stored p.key) (f.present h (sanitizeKey p.key))) := by
  simp only [Provision.provision] at hr
  split at hr
  · cases hr
  obtain ⟨_, _, hr⟩ := orElse_ok hr
  obtain ⟨_, _, hr⟩ := orElse_ok hr
  obtain ⟨id, hd, hr⟩ := orElse_ok hr
  obtain ⟨hs, hh⟩ := makeDir_world hd
  have hg : ∀ f1 f2 : Fleet, f1.store = f.store → f1.hosts = f.hosts →
      (provisionIn cfg spec id).runOn (onCall h plan) f1 = (.ok p, f2) →
      p.world = some (picked (f.stored p.key) (f.present h (sanitizeKey p.key))) := by
    intro f1 f2 hs hh hr
    have hi := provisionIn_ok hst hp hr
    simp only [Fleet.stored, Fleet.present, hs, hh] at hi ⊢
    exact hi
  split at hr
  · obtain ⟨_, _, hr⟩ := orElse_ok hr
    exact hg _ _ hs hh hr
  · exact hg _ _ hs hh hr

theorem onCall_boots (e : Call) : (onCall h plan e f).2.boots = f.boots := by
  cases e <;> simp only [onCall] <;> (try split) <;> rfl

theorem runOn_boots (h : Nat) (plan : Plan) (f : Fleet) (p : Act α) :
    (p.runOn (onCall h plan) f).2.boots = f.boots := by
  induction p generalizing f with
  | done a => rfl
  | call e k ih =>
    rw [runOn_call, ih, onCall_boots]

end Run

/-- A VM came up with the stored world when there was one, else with the world on the
host, else with a fresh one. -/
def Sourced (b : Boot) : Prop := b.world = some (picked b.stored b.present)

variable {cfg : Config} {f : Fleet} {c : Stamp}

theorem sourced_provision (hs : cfg.store = true) (hp : cfg.worldPersistence = true)
    (hf : ∀ b ∈ f.boots, Sourced b) (h : Nat) (spec : VMSpec) (plan : Plan) :
    ∀ b ∈ (f.provision cfg h spec plan).boots, Sourced b := by
  have hk := runOn_boots h plan f (Provision.provision cfg spec)
  cases hr : (Provision.provision cfg spec).runOn (onCall h plan) f with
  | mk res f' =>
    rw [hr] at hk
    cases res with
    | error e =>
      simp only [Fleet.provision, hr]
      rw [hk]
      exact hf
    | ok p =>
      simp only [Fleet.provision, hr]
      intro b hb
      rcases List.mem_append.mp hb with hb | hb
      · rw [hk] at hb
        exact hf b hb
      rw [List.mem_singleton] at hb
      subst b
      exact provision_ok hs hp hr

theorem capture_boots (f : Fleet) (h : Nat) (v : VM) : (f.capture h v).boots = f.boots := by
  unfold Fleet.capture
  split <;> rfl

theorem step_boots {f' : Fleet} (hs : step cfg f l = some f') :
    (∃ h spec plan, f' = f.provision cfg h spec plan) ∨ f'.boots = f.boots := by
  cases l with
  | provision h spec plan =>
    cases hs
    exact .inl ⟨h, spec, plan, rfl⟩
  | start h id =>
    cases hs
    exact .inr rfl
  | stop h id =>
    right
    simp only [step] at hs
    split at hs
    · cases hs; rfl
    cases hs
    split
    · rw [capture_boots]; rfl
    · rfl
  | snapshot h id =>
    right
    simp only [step] at hs
    split at hs
    · cases hs
    split at hs
    · cases hs; exact capture_boots f h _
    · cases hs
  | put i =>
    right
    simp only [step] at hs
    split at hs <;> cases hs
    rfl
  | evict h id =>
    right
    simp only [step] at hs
    split at hs <;> cases hs <;> rfl
  | deprovision h id =>
    right
    simp only [step] at hs
    split at hs
    · cases hs; rfl
    · cases hs
      split <;> rfl
  | restartAgent h | loseVM h id =>
    cases hs
    exact .inr rfl
  | guestWrite h id =>
    right
    simp only [step] at hs
    split at hs
    · cases hs
    split at hs
    · cases hs; rfl
    · split at hs <;> cases hs <;> rfl

theorem Sourced.run (hst : cfg.store = true) (hp : cfg.worldPersistence = true)
    {store : String → Option Stamp}
    (hr : Reaches (step cfg) (fun _ _ _ => True) (Fleet.cold disks store writes nextFile) f) :
    ∀ b ∈ f.boots, Sourced b := by
  apply hr.invariant
  · intro b hb
    cases hb
  intro s l s' ih hs _
  rcases step_boots hs with ⟨h, spec, plan, rfl⟩ | hbo
  · exact sourced_provision hst hp ih h spec plan
  · rw [hbo]
    exact ih

theorem le_picked_of_stored {stored present : Option Stamp} (h : stored = some c) :
    c ≤ picked stored present := by
  subst h
  exact Nat.le_refl c

theorem picked_lt_iff {stored : Option Stamp} :
    picked stored (some c) < c ↔ ∃ d, stored = some d ∧ d < c := by
  cases stored with
  | none | some d => simp [picked]

/-- A VM comes up with the stored world if there is one, else with the world on its host,
else with a fresh one. So it never comes up behind the store, and behind the disk that was
on its host just when the store held an older world than that. -/
theorem provision_rolls_back_iff (cfg : Config) (hstore : cfg.store = true)
    (hpersist : cfg.worldPersistence = true) (disks : Nat → String → Option Disk)
    (store : String → Option Stamp) (writes nextFile : Nat) (f : Fleet)
    (hrun : Reaches (step cfg) (fun _ _ _ => True) (Fleet.cold disks store writes nextFile) f)
    (b : Boot) (hb : b ∈ f.boots) :
    ∃ world, b.world = some world ∧
      world = ((b.stored.orElse fun _ => b.present).getD 0) ∧
      (∀ c, b.stored = some c → c ≤ world) ∧
      (∀ c, b.present = some c → (world < c ↔ ∃ d, b.stored = some d ∧ d < c)) := by
  refine ⟨picked b.stored b.present, Sourced.run hstore hpersist hrun b hb, rfl, ?_, ?_⟩
  · intro c hc
    exact le_picked_of_stored hc
  · intro c hc
    rw [hc]
    exact picked_lt_iff

def persistent : Config := ⟨true, true, false⟩

def oneServer : VMSpec := ⟨"s", 1, 1024, "/data"⟩

def unfailing : Plan := fun _ => none

/-- The guest writes behind the last snapshot, the agent restarts and the server is
provisioned again on the same host. -/
def restartTrace : List Label :=
  [.provision 0 oneServer unfailing, .guestWrite 0 "vm-0", .snapshot 0 "vm-0", .put 0,
    .guestWrite 0 "vm-0", .restartAgent 0, .provision 0 oneServer unfailing]

def empty : Fleet := .cold (fun _ _ => none) (fun _ => none) 0 0

theorem restartTrace_boots : ∃ f, Reaches (step persistent) (fun _ _ _ => True) empty f ∧
      ∃ b ∈ f.boots, b.present = some 2 ∧ b.stored = some 1 ∧ b.world = some 1 := by
  exact Reaches.exists_check restartTrace (by decide)

theorem provision_rolls_back_iff_restart :
    ∃ f, Reaches (step persistent) (fun _ _ _ => True) empty f ∧
      ∃ b ∈ f.boots, ∃ world, b.world = some world ∧ world < 2 := by
  obtain ⟨f, hrun, b, hb, hpresent, hstored, _⟩ := restartTrace_boots
  obtain ⟨world, hworld, _, _, hlt⟩ :=
    provision_rolls_back_iff persistent rfl rfl _ _ _ _ f hrun b hb
  exact ⟨f, hrun, b, hb, world, hworld, (hlt 2 hpresent).mpr ⟨1, hstored, by decide⟩⟩

theorem restart_rolls_back : ∃ f, Reaches (step persistent) (fun _ _ _ => True) empty f ∧
      ∃ b ∈ f.boots, ∃ world c, b.world = some world ∧ b.present = some c ∧ world < c := by
  obtain ⟨f, hrun, b, hb, hpresent, _, hworld⟩ := restartTrace_boots
  exact ⟨f, hrun, b, hb, 1, 2, hworld, hpresent, by decide⟩

end Craftling.Agent.Provision

import Craftling.Effects.Tables
import Craftling.Host.Runtime

namespace Craftling.Host
open Effects
open Control (ServerID VMID VMSpec Op)

def Stage.allows (j : Op) (st : Stage) : Call → Prop
  | .checkCapacity cpus memMB =>
    (st = .begun ∧ ∃ spec, j = .provision spec ∧ cpus = spec.cpus ∧ memMB = spec.memoryMB) ∨
      ∃ v, j = .start v ∧ st = .found v cpus memMB
  | .newMachine spec => j = .provision spec ∧ st = .checked spec.cpus spec.memoryMB
  | .spawn v => ∃ cpus memMB, st = .ready v cpus memMB
  | .insert v => st = .booted v ∧ ∃ spec, j = .provision spec
  | .find _ => st = .begun
  | .drop _ => st = .begun ∧ ∀ spec, j ≠ .provision spec
  | .removeDisk key => st = .dropped key
  | .deleteWorld key => st = .dropped key
  | _ => True

def conduct : System.Conduct Op Stage Call Outcome where
  allows j st e := st.allows j e
  answers _ _ _ := True

abbrev Follows (j : Op) (p : Ops α) (fin : Stage → α → Prop) (st : Stage) : Prop :=
  p.Follows (Stage.allows j) Stage.next fin st

section Programs

variable (j : Op)

theorem vmView_follows (v : VMID) (st : Stage) : Follows j (vmView v) (fun _ _ => True) st :=
  ⟨trivial, fun _ => trivial⟩

theorem boot_follows (v : VMID) (cpus memMB : Nat) :
    Follows j (boot v) (fun st r => ∀ u, r = .ok u → st = .booted v) (.ready v cpus memMB) := by
  refine ⟨⟨cpus, memMB, rfl⟩, fun r => ?_⟩
  cases r with
  | error text => exact fun u h => by cases h
  | ok u =>
    refine ⟨trivial, fun r => ?_⟩
    cases r with
    | error text => exact ⟨trivial, fun _ u h => by cases h⟩
    | ok u => exact fun _ _ => rfl

theorem enter_follows (spec : VMSpec) (v : VMID) (cpus memMB : Nat) :
    Follows (.provision spec) (enter v) (fun _ _ => True) (.ready v cpus memMB) := by
  change Follows _ ((boot v).bind _) _ _
  apply Prog.Follows.bind
  refine (boot_follows _ v cpus memMB).mono fun st r hs => ?_
  cases r with
  | error text => exact ⟨trivial, fun _ => trivial⟩
  | ok u =>
    rw [hs u rfl]
    exact ⟨⟨rfl, spec, rfl⟩, fun _ => vmView_follows _ v _⟩

theorem provision_follows (cfg : Config) (spec : VMSpec) :
    Follows (.provision spec) (provision cfg spec) (fun _ _ => True) .begun := by
  unfold provision
  split
  · trivial
  refine ⟨.inl ⟨rfl, spec, rfl, rfl, rfl⟩, fun r => ?_⟩
  cases r with
  | error text => trivial
  | ok u =>
    refine ⟨trivial, fun r => ?_⟩
    cases r with
    | error text => trivial
    | ok u =>
      refine ⟨⟨rfl, rfl⟩, fun r => ?_⟩
      cases r with
      | error text => trivial
      | ok v =>
        change Follows _ (if cfg.persist then _ else _) _ _
        split
        · refine ⟨trivial, fun r => ?_⟩
          cases r with
          | error text => exact ⟨trivial, fun _ => trivial⟩
          | ok u => exact enter_follows spec v _ _
        · exact enter_follows spec v _ _

theorem start_follows (v : VMID) : Follows (.start v) (start v) (fun _ _ => True) .begun := by
  refine ⟨rfl, fun r => ?_⟩
  cases r with
  | none => trivial
  | some m =>
    refine ⟨trivial, fun r => ?_⟩
    cases r with
    | true => exact vmView_follows _ v _
    | false =>
      refine ⟨.inr ⟨v, rfl, rfl⟩, fun r => ?_⟩
      cases r with
      | error text => trivial
      | ok u =>
        change Follows _ ((boot v).bind _) _ _
        apply Prog.Follows.bind
        refine (boot_follows _ v _ _).mono fun st r _ => ?_
        cases r with
        | error text => trivial
        | ok u => exact vmView_follows _ v st

theorem shutdown_follows (v : VMID) (st : Stage) : Follows j (shutdown v) (fun _ _ => True) st := by
  refine ⟨trivial, fun r => ?_⟩
  cases r with
  | true => exact ⟨trivial, fun _ => ⟨trivial, fun _ => trivial⟩⟩
  | false => exact ⟨trivial, fun _ => trivial⟩

theorem stop_follows (cfg : Config) (v : VMID) :
    Follows j (stop cfg v) (fun _ _ => True) .begun := by
  refine ⟨rfl, fun r => ?_⟩
  cases r with
  | none => trivial
  | some m =>
    change Follows _ ((shutdown v).bind _) _ _
    apply Prog.Follows.bind
    refine (shutdown_follows _ v _).mono fun st _ _ => ?_
    change Follows _ (if cfg.stores then _ else _) _ _
    split
    · exact ⟨trivial, fun r => by cases r <;> trivial⟩
    · trivial

theorem removeVM_follows (v : VMID) (st : Stage) : Follows j (removeVM v) (fun _ _ => True) st :=
  ⟨trivial, fun r => by cases r <;> trivial⟩

theorem teardown_follows (cfg : Config) (v : VMID) (deleteWorld : Bool)
    (hj : ∀ spec, j ≠ .provision spec) :
    Follows j (teardown cfg v deleteWorld) (fun _ _ => True) .begun := by
  refine ⟨⟨rfl, hj⟩, fun r => ?_⟩
  cases r with
  | none => trivial
  | some m =>
    refine ⟨trivial, fun _ => ?_⟩
    change Follows _ (if cfg.persist then _ else _) _ _
    split
    · refine ⟨rfl, fun r => ?_⟩
      cases r with
      | error text => trivial
      | ok u =>
        change Follows _ (if deleteWorld && cfg.stores then _ else _) _ _
        split
        · exact ⟨rfl, fun _ => removeVM_follows _ v _⟩
        · exact removeVM_follows _ v _
    · exact removeVM_follows _ v _

theorem status_follows (v : VMID) : Follows j (status v) (fun _ _ => True) .begun := by
  refine ⟨rfl, fun r => ?_⟩
  cases r with
  | none => trivial
  | some m => exact vmView_follows _ v _

theorem snapshot_follows (cfg : Config) (v : VMID) :
    Follows j (snapshot cfg v) (fun _ _ => True) .begun := by
  refine ⟨rfl, fun r => ?_⟩
  cases r with
  | none => trivial
  | some m =>
    change Follows _ (if cfg.stores then _ else _) _ _
    split
    · exact ⟨trivial, fun r => by cases r <;> trivial⟩
    · trivial

theorem lookup_follows (v : VMID) : Follows j (lookup v) (fun _ _ => True) .begun :=
  ⟨rfl, fun r => by cases r <;> trivial⟩

end Programs

/-- Every command makes its calls in the order of the stages. -/
theorem runtime_keeps (cfg : Config) : (runtime cfg).Keeps conduct := by
  intro j
  cases j with
  | provision spec => exact provision_follows cfg spec
  | start v => exact start_follows v
  | stop v => exact stop_follows _ cfg v
  | snapshot v => exact snapshot_follows _ cfg v
  | evict v => exact teardown_follows _ cfg v false (by simp)
  | deprovision v => exact teardown_follows _ cfg v true (by simp)
  | status v => exact status_follows _ v
  | logs v | whitelist v names => exact lookup_follows _ v

/-- How a command gets from one stage to the next. A process that is up and a machine that
is entered always take it on. -/
inductive Stage.Moves (st : Stage) : (e : Call) → Answer e → Stage → Prop where
  | stay {e : Call} {r : Answer e} (h : ∀ v, e ≠ .spawn v ∧ e ≠ .insert v) : Moves st e r st
  | finish {e : Call} {r : Answer e} : Moves st e r .ended
  | check {cpus memMB : Nat} {u : Unit} (h : st = .begun) :
      Moves st (.checkCapacity cpus memMB) (.ok u) (.checked cpus memMB)
  | recheck {v : VMID} {cpus memMB : Nat} {u : Unit} (h : st = .found v cpus memMB) :
      Moves st (.checkCapacity cpus memMB) (.ok u) (.ready v cpus memMB)
  | find {v : VMID} {m : Machine} (h : st = .begun) :
      Moves st (.find v) (some m) (.found v m.vcpus m.memoryMB)
  | drop {v : VMID} {m : Machine} (h : st = .begun) :
      Moves st (.drop v) (some m) (.dropped m.serverID)
  | make {spec : VMSpec} {v : VMID} (h : st = .checked spec.cpus spec.memoryMB) :
      Moves st (.newMachine spec) (.ok v) (.ready v spec.cpus spec.memoryMB)
  | boot {v : VMID} {cpus memMB : Nat} {u : Unit} (h : st = .ready v cpus memMB) :
      Moves st (.spawn v) (.ok u) (.booted v)

theorem Stage.next_moves {st : Stage} (ha : st.allows j e) (r : Answer e) :
    st.Moves e r (st.next e r) := by
  cases e with
  | checkCapacity cpus memMB =>
    rcases ha with ⟨rfl, -⟩ | ⟨v, -, rfl⟩ <;> cases r
    · exact .finish
    · exact .check rfl
    · exact .finish
    · exact .recheck rfl
  | newMachine spec =>
    obtain ⟨-, rfl⟩ := ha
    cases r with
    | error text => exact .finish
    | ok v => exact .make rfl
  | spawn v =>
    obtain ⟨cpus, memMB, rfl⟩ := ha
    cases r with
    | error text => exact .finish
    | ok u => exact .boot rfl
  | insert v =>
    obtain ⟨rfl, -⟩ := ha
    exact .finish
  | find v =>
    cases ha
    cases r with
    | none => exact .finish
    | some m => exact .find rfl
  | drop v =>
    obtain ⟨rfl, -⟩ := ha
    cases r with
    | none => exact .finish
    | some m => exact .drop rfl
  | ensureImage | prepareWorldDisk key | configure v | removeDisk key =>
    cases st <;> cases r <;> first | exact .finish | exact .stay (by simp)
  | removeDir v => cases st <;> first | exact .finish | exact .stay (by simp)
  | _ => cases st <;> exact .stay (by simp)

theorem Runtime.fits_of_ok {fault : Option String} {r : Runtime} {cpus memMB : Nat}
    (h : (r.perform cfg fault (.checkCapacity cpus memMB)).1 = .ok u) :
    r.fits cfg cpus memMB = true := by
  simp only [perform] at h
  split at h
  · assumption
  · cases h

/-- A machine is what it was made as. It enters and leaves the table by steps of its own, and
its process is launched, killed, or left alone. -/
structure Machine.Moves (e : Call) (v : VMID) (m m' : Machine) : Prop where
  serverID : m'.serverID = m.serverID
  vcpus : m'.vcpus = m.vcpus
  memoryMB : m'.memoryMB = m.memoryMB
  tracked : m'.tracked = m.tracked ∨ (e = .insert v ∧ m'.tracked = true) ∨
    (e = .drop v ∧ m'.tracked = false)
  proc : m'.proc = m.proc ∨ (e = .spawn v ∧ m'.proc = .alive) ∨ m'.proc = m.kill.proc

theorem Machine.Moves.refl (e : Call) (v : VMID) (m : Machine) : Machine.Moves e v m m :=
  ⟨rfl, rfl, rfl, .inl rfl, .inl rfl⟩

def Machine.Made (e : Call) (m : Machine) : Prop :=
  ∃ spec : VMSpec, e = .newMachine spec ∧
    m = ⟨spec.serverID, spec.cpus, spec.memoryMB, .unstarted, false⟩

theorem Machine.kill_moves (e : Call) (v : VMID) (m : Machine) : Machine.Moves e v m m.kill :=
  ⟨rfl, rfl, rfl, .inl rfl, .inr (.inr rfl)⟩

theorem Runtime.perform_grows (cfg : Config) (fault : Option String) (e : Call) (r : Runtime) :
    Grows (Machine.Moves e) (Machine.Made e) r.machines (r.perform cfg fault e).2.machines := by
  have hs := Machine.Moves.refl e
  cases e with
  | newMachine spec =>
    cases fault with
    | some text => exact .refl hs _
    | none => exact .append hs ⟨spec, rfl, rfl⟩
  | spawn v =>
    cases fault with
    | some text => exact .refl hs _
    | none => exact .modify hs fun m _ => ⟨rfl, rfl, rfl, .inl rfl, .inr (.inl ⟨rfl, rfl⟩)⟩
  | insert v => exact .modify hs fun m _ => ⟨rfl, rfl, rfl, .inr (.inl ⟨rfl, rfl⟩), .inl rfl⟩
  | drop v => exact .modify hs fun m _ => ⟨rfl, rfl, rfl, .inr (.inr ⟨rfl, rfl⟩), .inl rfl⟩
  | powerOff v =>
    cases fault with
    | some text => exact .refl hs _
    | none => exact .modify hs fun m _ => m.kill_moves _ v
  | kill v => exact .modify hs fun m _ => m.kill_moves _ v
  | snapshotRunning v key =>
    cases fault with
    | some text => exact .refl hs _
    | none =>
      simp only [perform]
      split <;> exact .refl hs _
  | _ => cases fault <;> exact .refl hs _

structure Machine.Kept (m m' : Machine) : Prop where
  serverID : m'.serverID = m.serverID
  vcpus : m'.vcpus = m.vcpus
  memoryMB : m'.memoryMB = m.memoryMB
  tracked : m'.tracked = m.tracked

theorem Runtime.event_grows (r : Runtime) (w : Event) :
    Grows (fun _ => Machine.Kept) (fun _ => False) r.machines (r.event w).machines := by
  have hs : ∀ (_ : Nat) (m : Machine), m.Kept m := fun _ _ => ⟨rfl, rfl, rfl, rfl⟩
  cases w with
  | exit v => exact .modify hs fun m _ => ⟨rfl, rfl, rfl, rfl⟩
  | exitStray i => exact .refl hs _

end Craftling.Host

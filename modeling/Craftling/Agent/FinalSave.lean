import Craftling.Agent.Untorn

namespace Craftling.Agent
open Effects Guest LiveSnapshot List

/-- How far a Stop has come: before the guest is off, with `n` blocks of the powered
off disk streamed, with the stream in the store, without a VM to stop, or broken off. -/
inductive StopStage where
  | ready
  | streaming (n : Nat)
  | saved
  | absent
  | failed
  deriving DecidableEq, Repr

def StopStage.allows (blocks : Nat) : StopStage → Lifecycle.Call → Prop
  | .ready, e => e = .lookup ∨ e = .shutdown
  | .streaming n, e => e = .openDisk ∨ e = .streamBlock n ∨ (e = .putStream ∧ n = blocks)
  | _, _ => False

def StopStage.next (st : StopStage) (e : Lifecycle.Call) (r : Lifecycle.Answer e) : StopStage :=
  match e, r with
  | .lookup, r => if (show Bool from r) then st else .absent
  | .shutdown, _ => .streaming 0
  | .openDisk, .error _ => .failed
  | .streamBlock _, .error _ => .failed
  | .streamBlock n, .ok () => .streaming (n + 1)
  | .putStream, .ok () => .saved
  | .putStream, .error _ => .failed
  | _, _ => st

abbrev Stops (m : Machine) (fin : StopStage → Except String Unit → Prop) (st : StopStage)
    (p : Lifecycle.Ops (Except String Unit)) : Prop :=
  p.Follows (StopStage.allows m.blocks) StopStage.next fin st

def StopAccepts (st : StopStage) (r : Except String Unit) : Prop :=
  r = .ok () → st = .saved ∨ st = .absent

theorem streamBlocks_stops (m : Machine) (i n : Nat) : Stops m (fun st r => st = match r with
      | .ok () => .streaming (i + n)
      | .error _ => .failed) (.streaming i) (Lifecycle.streamBlocks i n) := by
  induction n generalizing i with
  | zero => exact rfl
  | succ n ih =>
    refine ⟨.inr (.inl rfl), fun r => ?_⟩
    cases r with
    | error e => exact rfl
    | ok u =>
      have h := ih (i + 1)
      rw [Nat.add_assoc, Nat.add_comm 1 n] at h
      exact h

theorem snapshotWorldDisk_stops (m : Machine) :
    Stops m (fun st r => r = .ok () → st = .saved) (.streaming 0)
      (Lifecycle.snapshotWorldDisk m.blocks) := by
  refine ⟨.inl rfl, fun r => ?_⟩
  cases r with
  | error e => exact nofun
  | ok u =>
    simp only [Prog.done_bind]
    refine Prog.Follows.bind (Prog.Follows.mono ?_ (streamBlocks_stops m 0 m.blocks))
    intro st r hs
    subst hs
    cases r with
    | error e => exact nofun
    | ok u =>
      refine ⟨.inr (.inr ⟨rfl, Nat.zero_add _⟩), fun r => ?_⟩
      cases r with
      | error e => exact nofun
      | ok u => exact fun _ => rfl

theorem stop_stops (m : Machine) (hs : m.store = true) (hd : m.worldDisk ≠ "") :
    Stops m StopAccepts .ready (Lifecycle.stop m) := by
  refine ⟨.inl rfl, fun r => ?_⟩
  cases r with
  | false => exact fun _ => .inr rfl
  | true =>
    refine ⟨.inr rfl, fun _ => ?_⟩
    have hc : (m.store && m.worldDisk != "") = true := by simp [hs, hd]
    simp only [Prog.done_bind, hc, if_true]
    refine Prog.Follows.bind (Prog.Follows.mono ?_ (snapshotWorldDisk_stops m))
    intro st r hst
    cases r with
    | error e => exact nofun
    | ok u => exact fun _ => .inl (hst rfl)

def World.streamed (w : World D) (n : Nat) : Blob D :=
  (List.range n).map fun i => ⟨0, i, w.disk i⟩

theorem decode_streamed (m : Machine) (w : World D) :
    decode m.blocks (w.streamed m.blocks) = some (w.content m) := by
  simp [decode, World.streamed, World.content, map_map, Function.comp_def]

def Thread.finished (t : Thread) : Bool :=
  match t.rest with
  | .done _ => true
  | .call _ _ => false

/-- No live snapshot whose PREPARE the guest acknowledged is still under way. -/
def NoneInFlight (w : World D) : Prop :=
  ∀ t ∈ w.threads, t.acked = true → t.finished = true

instance (w : World D) : Decidable (NoneInFlight w) :=
  inferInstanceAs (Decidable (∀ t ∈ w.threads, t.acked = true → t.finished = true))

def stopUploads (w : World D) (l : Label D) : Bool :=
  match l, w.op with
  | .op none, some ⟨.stop, .call .putStream _, _⟩ => true
  | _, _ => false

/-- When a Stop's upload takes effect, no live snapshot is still on its way. -/
def StopsAlone (w : World D) (l : Label D) : Prop :=
  stopUploads w l = true → NoneInFlight w

instance (w : World D) (l : Label D) : Decidable (StopsAlone w l) :=
  inferInstanceAs (Decidable (_ → _))

/-- The Stop under way is at a stage of its own: once it streams, the guest is off
and what it streamed is what the disk holds. -/
def Streamed (w : World D) (stream : Blob D) : StopStage → Prop
  | .ready => stream = []
  | .streaming n => w.guest = .off ∧ stream = w.streamed n
  | .failed => True
  | _ => False

/-- Operations other than Stop that leave the stored world alone. -/
def Spares (p : Lifecycle.Ops (Except String Unit)) : Prop :=
  p.Follows (fun (_ : Unit) e => e ≠ .putStream ∧ e ≠ .deleteWorld) (fun st _ _ => st)
    (fun _ _ => True) ()

def OpSound (m : Machine) (w : World D) : Prop :=
  ∀ run, w.op = some run →
    (run.op = .stop ∧ w.tracked = true ∧
      ∃ st, Stops m StopAccepts st run.rest ∧ Streamed w run.stream st) ∨
    (run.op ≠ .stop ∧ Spares run.rest)

variable {stream stream' : Blob D} {e : Lifecycle.Call} {m : Machine} {w w' : World D}

theorem OpSound.of_none (h : w.op = none) : OpSound m w := by
  intro run hr
  rw [h] at hr
  cases hr

/-- After a Stop that succeeded, and until the next boot, the store holds the world
the VM powered off with, and nothing is left that could replace it. -/
structure FinalSaved (m : Machine) (w : World D) : Prop where
  off : w.guest = .off
  stored : w.store.bind (decode m.blocks) = some (w.content m)
  alone : NoneInFlight w

structure Kept (m : Machine) (w : World D) : Prop where
  sound : Sound m False w
  running : OpSound m w
  past : ∀ f ∈ w.returned, f.boot ≤ w.boots
  saved : ∀ f ∈ w.returned, f.op = .stop → f.ok = true → f.boot = w.boots → FinalSaved m w

theorem start_spares : Spares Lifecycle.start := by
  refine ⟨⟨nofun, nofun⟩, fun r => ?_⟩
  cases r with
  | false => trivial
  | true =>
    refine ⟨⟨nofun, nofun⟩, fun r => ?_⟩
    cases r with
    | true => trivial
    | false =>
      refine ⟨⟨nofun, nofun⟩, fun r => ?_⟩
      cases r with
      | error e => trivial
      | ok u =>
        refine ⟨⟨nofun, nofun⟩, fun r => ?_⟩
        cases r <;> trivial

theorem removeDirOf_spares : Spares Lifecycle.removeFootprint.removeDirOf := by
  refine ⟨⟨nofun, nofun⟩, fun r => ?_⟩
  cases r <;> trivial

theorem evict_spares (m : Machine) : Spares (Lifecycle.evict m) := by
  refine ⟨⟨nofun, nofun⟩, fun r => ?_⟩
  cases r with
  | false => trivial
  | true =>
    refine ⟨⟨nofun, nofun⟩, fun _ => ?_⟩
    simp only [Prog.done_bind, Lifecycle.removeFootprint, Bool.false_and]
    split
    · refine ⟨⟨nofun, nofun⟩, fun r => ?_⟩
      cases r with
      | error e => trivial
      | ok u => exact removeDirOf_spares
    · exact removeDirOf_spares

theorem streamed_succ (w : World D) (n : Nat) :
    w.streamed (n + 1) = w.streamed n ++ [⟨0, n, w.disk n⟩] := by
  simp [World.streamed, range_succ]

theorem Streamed.call (h : Streamed w stream st) (ht : w.tracked = true)
    (hf : Stops m StopAccepts st (.call e cont))
    (hp : performOp w stream fault e = some (r, stream', w')) :
    w'.tracked = true ∧ ∃ st', Stops m StopAccepts st' (cont r) ∧
      ((w'.store = w.store ∧ Streamed w' stream' st') ∨
        (st' = .saved ∧ fault = none ∧ e = .putStream ∧ w.guest = .off ∧
          w' = { w with store := some (w.streamed m.blocks) })) := by
  obtain ⟨ha, hn⟩ := hf
  have hf := hn r
  cases fault with
  | some err =>
    simp only [performOp, Option.map_eq_some_iff, Prod.mk.injEq, Prod.exists] at hp
    obtain ⟨r', w1, hp, rfl, rfl, rfl⟩ := hp
    cases st with
    | ready => rcases ha with rfl | rfl <;> cases hp
    | streaming n =>
      rcases ha with rfl | rfl | ⟨rfl, _⟩ <;> cases hp
      all_goals exact ⟨ht, .failed, hf, .inl ⟨rfl, trivial⟩⟩
    | saved | absent | failed => exact absurd ha id
  | none =>
    simp only [performOp] at hp
    cases st with
    | ready =>
      rcases ha with rfl | rfl <;> cases hp
      · simp only [StopStage.next, ht, if_true] at hf
        exact ⟨ht, .ready, by rw [ht]; exact hf, .inl ⟨rfl, h⟩⟩
      · exact ⟨ht, .streaming 0, hf, .inl ⟨rfl, rfl, h⟩⟩
    | streaming n =>
      obtain ⟨ho, hs⟩ := h
      rcases ha with rfl | rfl | ⟨rfl, rfl⟩
      · simp only [performedOp] at hp
        split at hp <;> cases hp
        exact ⟨ht, .streaming n, hf, .inl ⟨rfl, ho, hs⟩⟩
      · cases hp
        exact ⟨ht, .streaming (n + 1), hf, .inl ⟨rfl, ho, by rw [streamed_succ, hs]⟩⟩
      cases hp
      exact ⟨ht, .saved, hf, .inr ⟨rfl, rfl, rfl, ho, by rw [hs]⟩⟩
    | saved | absent | failed => exact absurd ha id

section Steps

variable {m : Machine} {w w' w1 : World D} {f : Returned}

theorem FinalSaved.congr (h : FinalSaved m w) (hg : w'.guest = w.guest)
    (hs : w'.store = w.store) (hd : w'.disk = w.disk) (ht : w'.threads = w.threads) :
    FinalSaved m w' := by
  refine ⟨hg.trans h.off, ?_, ?_⟩
  · rw [hs, h.stored, World.content, World.content, hd]
  · rw [NoneInFlight, ht]
    exact h.alone

section

variable (h : Kept m w)
include h

theorem Kept.call {run : OpRun D} (ho : w.op = some run)
    (hr : run.rest = .call e cont) (hp : performOp w run.stream fault e = some (r, stream, w1))
    (ha : StopsAlone w (.op fault)) :
    (w1.store = w.store ∧
      ((run.op = .stop ∧ w1.tracked = true ∧
          ∃ st, Stops m StopAccepts st (cont r) ∧ Streamed w1 stream st) ∨
        (run.op ≠ .stop ∧ Spares (cont r)))) ∨
      (run.op = .stop ∧ Stops m StopAccepts .saved (cont r) ∧ FinalSaved m w1) := by
  rcases h.running run ho with ⟨hs, ht, st, hf, hst⟩ | ⟨hn, hsp⟩
  · rw [hr] at hf
    obtain ⟨ht', st', hf', hc⟩ := hst.call ht hf hp
    rcases hc with ⟨hsto, hs'⟩ | ⟨rfl, rfl, rfl, hof, rfl⟩
    · exact .inl ⟨hsto, .inl ⟨hs, ht', st', hf', hs'⟩⟩
    refine .inr ⟨hs, hf', hof, decode_streamed m w, ha ?_⟩
    obtain ⟨op, rest, stream⟩ := run
    obtain rfl : op = .stop := hs
    obtain rfl : rest = .call .putStream cont := hr
    simp [stopUploads, ho]
  · rw [hr] at hsp
    obtain ⟨⟨hpu, hd⟩, hnex⟩ := hsp
    exact .inl ⟨(performOp_frame hp).2.2.2.2.2 hpu hd, .inr ⟨hn, hnex r⟩⟩

theorem Kept.still_saved (hf : f ∈ w.returned) (hs : f.op = .stop)
    (ho : f.ok = true) (ht : w1.threads = w.threads) (hd : w1.disk = w.disk)
    (hb : w1.boots = w.boots + 1 ∨ w1.boots = w.boots ∧ (w.guest = .off → w1.guest = .off))
    (hst : w1.store = w.store ∨ FinalSaved m w1) (hbo : f.boot = w1.boots) :
    FinalSaved m w1 := by
  rcases hst with hst | hsa
  · have hp := h.past f hf
    rcases hb with hb | ⟨hb, hof⟩
    · omega
    · have hsa := h.saved f hf hs ho (hbo.trans hb)
      exact hsa.congr ((hof hsa.off).trans hsa.off.symm) hst hd ht
  · exact hsa

theorem Kept.op (hs : opStep w fault = some w') (ha : StopsAlone w (.op fault)) : Kept m w' := by
  have hso := h.sound.op hs nofun
  obtain ⟨run, e, cont, r, stream, w1, ho, hr, hp, rfl⟩ := opStep_cases hs
  obtain ⟨ht, -, hre, hd, hbo, -⟩ := performOp_frame hp
  have hca := h.call ho hr hp ha
  have hsto : w1.store = w.store ∨ FinalSaved m w1 := by
    rcases hca with ⟨hsto, _⟩ | ⟨_, _, hsa⟩
    · exact .inl hsto
    · exact .inr hsa
  have hl : w.boots ≤ w1.boots := by
    rcases hbo with hb | ⟨hb, _⟩ <;> omega
  have hol : ∀ f ∈ w.returned, f.op = .stop → f.ok = true → f.boot = w1.boots →
      FinalSaved m w1 := fun f hf hstop hok hboo =>
    h.still_saved hf hstop hok ht hd hbo hsto hboo
  cases hc : cont r with
  | call e' cont' =>
    rw [hc] at hso hca
    refine ⟨hso, ?_, ?_, ?_⟩
    · intro run' hr'
      simp only [World.settleOp, Option.some.injEq] at hr'
      subst hr'
      rcases hca with ⟨_, hru⟩ | ⟨_, hf, _⟩
      · exact hru
      · exact absurd hf.1 id
    · intro f hf
      simp only [World.settleOp, hre] at hf
      exact Nat.le_trans (h.past f hf) hl
    · intro f hf hstop hok hboo
      simp only [World.settleOp, hre] at hf
      exact (hol f hf hstop hok hboo).congr rfl rfl rfl rfl
  | done res =>
    rw [hc] at hso hca
    refine ⟨hso, OpSound.of_none rfl, ?_, ?_⟩
    · intro f hf
      simp only [World.settleOp, hre, mem_append, mem_singleton] at hf
      rcases hf with hf | rfl
      · exact Nat.le_trans (h.past f hf) hl
      · exact Nat.le_refl _
    intro f hf hstop hok hboo
    simp only [World.settleOp, hre, mem_append, mem_singleton] at hf
    suffices hsa : FinalSaved m w1 from hsa.congr rfl rfl rfl rfl
    rcases hf with hf | rfl
    · exact hol f hf hstop hok hboo
    rcases hca with ⟨_, ⟨_, _, st, hac, hst⟩ | ⟨hn, _⟩⟩ | ⟨_, _, hsa⟩
    · have hres : res = .ok () := by
        cases res with
        | error e => simp [Except.isOk, Except.toBool] at hok
        | ok u => rfl
      rcases hac hres with rfl | rfl <;> exact absurd hst id
    · exact absurd hstop hn
    · exact hsa

/-- A step that changes nothing but sessions and keeps those that are acknowledged. -/
theorem Kept.aside (hs : Sound m False w') (ho : w'.op = w.op)
    (htr : w'.tracked = w.tracked) (hr : w'.returned = w.returned) (hb : w'.boots = w.boots)
    (hg : w.guest = .off → w'.guest = w.guest ∧ w'.disk = w.disk)
    (hsa : FinalSaved m w → FinalSaved m w') : Kept m w' := by
  refine ⟨hs, ?_, ?_, ?_⟩
  · intro run hru
    rw [ho] at hru
    rcases h.running run hru with ⟨hsto, ht, st, hf, hst⟩ | hot
    · refine .inl ⟨hsto, htr.trans ht, st, hf, ?_⟩
      cases st with
      | streaming n =>
        obtain ⟨hg, hd⟩ := hg hst.1
        exact ⟨hg.trans hst.1, by rw [hst.2, World.streamed, World.streamed, hd]⟩
      | ready => exact hst
      | failed => trivial
      | saved | absent => exact hst
    · exact .inr hot
  · rw [hr, hb]
    exact h.past
  · rw [hr, hb]
    intro f hf hsto hok hbo
    exact hsa (h.saved f hf hsto hok hbo)

theorem Kept.begin (job : Job) :
    Kept m { w with threads := w.threads ++ [Thread.start m job] } := by
  refine h.aside (h.sound.begin job) rfl rfl rfl rfl (fun _ => ⟨rfl, rfl⟩) (fun hs => ?_)
  refine ⟨hs.off, hs.stored, ?_⟩
  intro t ht ha
  rcases mem_append.mp ht with ht | ht
  · exact hs.alone t ht ha
  rw [mem_singleton] at ht
  subst t
  cases ha

/-- A session's call leaves a saved world alone: only an acknowledged session could
upload, and those have all returned. -/
theorem Kept.host (hs : hostStep w k fault = some w') : Kept m w' := by
  have hso := h.sound.host hs
  obtain ⟨t, e, cont, r, t', w1, ht, hr, hp, rfl⟩ := hostStep_cases hs
  obtain ⟨hb, ha, hst⟩ := perform_beside hp
  refine h.aside hso hb.op hb.tracked hb.returned hb.boots (fun _ => ⟨hb.guest, hb.disk⟩)
    (fun hsa => ?_)
  have hu : t.acked = false := by
    by_contra hc
    rw [Bool.not_eq_false] at hc
    have := hsa.alone t (mem_of_getElem? ht) hc
    simp [Thread.finished, hr] at this
  have hpu : e ≠ .put := by
    rintro rfl
    have := (h.sound.standing k t ht).acked_of_put hr
    simp [hu] at this
  refine ⟨hb.guest.trans hsa.off, ?_, ?_⟩
  · change w1.store.bind _ = some (World.content m { w1 with threads := _ })
    rw [hst hpu, hsa.stored, World.content, World.content, hb.disk]
  intro tj htj hac
  change tj ∈ w1.threads.set k _ at htj
  rcases mem_or_eq_of_mem_set htj with htj | rfl
  · rw [hb.threads] at htj
    exact hsa.alone tj htj hac
  · simp [ha, hu] at hac

theorem Kept.guest (ho : w.guest ≠ .off) (hs : Sound m False w')
    (hop : w'.op = w.op) (htr : w'.tracked = w.tracked) (hr : w'.returned = w.returned)
    (hb : w'.boots = w.boots) : Kept m w' :=
  h.aside hs hop htr hr hb (fun hg => absurd hg ho) fun hsa => absurd hsa.off ho

theorem Kept.beginOp (hs : m.store = true) (hd : m.worldDisk ≠ "")
    {op : Op} (htr : ¬ (op = .stop ∧ w.tracked = false)) :
    Kept m { w with op := some ⟨op, op.prog m, []⟩ } := by
  refine ⟨h.sound.same rfl rfl rfl, ?_, h.past, ?_⟩
  · intro run hr
    cases hr
    cases op with
    | stop =>
      have ht : w.tracked = true := by simpa using htr
      exact .inl ⟨rfl, ht, .ready, stop_stops m hs hd, rfl⟩
    | start => exact .inr ⟨nofun, start_spares⟩
    | evict => exact .inr ⟨nofun, evict_spares m⟩
  · intro f hf hst ho hb
    exact (h.saved f hf hst ho hb).congr rfl rfl rfl rfl

theorem Kept.step (hst : m.store = true) (hd : m.worldDisk ≠ "")
    (hs : Agent.step m q w l = some w') (ha : StopsAlone w l) : Kept m w' := by
  have hso := h.sound.step hs False.elim
  cases l with
  | begin job =>
    simp only [Agent.step, Option.some.injEq] at hs
    subst hs
    exact h.begin job
  | host k fault => exact h.host hs
  | beginOp op =>
    simp only [Agent.step] at hs
    split at hs
    · cases hs
    split at hs
    · cases hs
    rename_i ht
    cases hs
    exact h.beginOp hst hd ht
  | op fault => exact h.op hs ha
  | accept c =>
    simp only [Agent.step] at hs
    split at hs
    · rename_i t hg hc
      split at hs
      · cases hs
        exact h.guest (by simp [hg]) hso rfl rfl rfl rfl
      · cases hs
    · cases hs
  | nextLine =>
    simp only [Agent.step] at hs
    split at hs
    · rename_i c fd hg
      split at hs
      · cases hs
      split at hs
      · cases hs
      · cases hs
        exact h.guest (by simp [hg]) hso rfl rfl rfl rfl
    · cases hs
  | guestCall o =>
    simp only [Agent.step] at hs
    split at hs
    · rename_i hg
      cases hs
      exact h.guest (by simp [hg]) hso rfl rfl rfl rfl
    · rename_i hg
      cases hs
      exact h.guest (by simp [hg]) hso rfl rfl rfl rfl
    · cases hs
  | endConn =>
    simp only [Agent.step] at hs
    split at hs
    · rename_i c fd hg
      cases hs
      exact h.guest (by simp [hg]) hso rfl rfl rfl rfl
    · cases hs
  | powerOff =>
    simp only [Agent.step] at hs
    split at hs
    · cases hs
    rename_i ho
    cases hs
    exact h.guest (fun hof => ho (by rw [hof]; rfl)) hso rfl rfl rfl rfl
  | guestWrite i d =>
    simp only [Agent.step] at hs
    split at hs
    · cases hs
    rename_i ho
    cases hs
    exact h.guest (fun hof => ho (.inl (by rw [hof]; rfl))) hso rfl rfl rfl rfl

end

end Steps

theorem Kept.booted (m : Machine) (disk : Nat → D) (store : Option (Blob D)) :
    Kept m (World.booted disk store) :=
  ⟨Sound.booted disk store, OpSound.of_none rfl, nofun, nofun⟩

/-- With persistence and a store configured, and no acknowledged live snapshot under
way when a Stop's upload takes effect: once a Stop has succeeded, and until the next
boot, the store's object decodes to the disk the VM powered off with, whatever
sessions, Stops and Evicts come after it. -/
theorem stop_saves_final_world {D : Type} (m : Machine) (q : Option QuiesceConfig)
    (disk : Nat → D) (store : Option (Blob D)) (hstore : m.store = true)
    (hdisk : m.worldDisk ≠ "") (w : World D)
    (h : Reaches (step m q) (fun w l _ => StopsAlone w l) (World.booted disk store) w)
    (f : Returned) (hf : f ∈ w.returned) (hstop : f.op = .stop) (hok : f.ok = true)
    (hboot : f.boot = w.boots) :
    w.guest = .off ∧ w.store.bind (decode m.blocks) = some (w.content m) := by
  have hkept : Kept m w := h.invariant (Kept.booted m disk store)
    fun _ _ _ hi hs hk => hi.step hstore hdisk hs hk
  have hsaved := hkept.saved f hf hstop hok hboot
  exact ⟨hsaved.off, hsaved.stored⟩

/-- A live snapshot up to its upload, with the guest thawed and writing on. -/
def capturedTrace : List (Label Nat) :=
  firstBlockTrace ++ [.host 0 none, .host 0 none, .host 0 none, .nextLine,
    .guestCall SnapshotLink.willing, .guestCall SnapshotLink.willing,
    .guestCall SnapshotLink.willing, .guestCall SnapshotLink.willing,
    .host 0 none, .host 0 none, .guestWrite 0 5, .guestWrite 1 7]

def stopTrace : List (Label Nat) :=
  [.beginOp .stop, .op none, .op none, .op none, .op none, .op none, .op none]

def evictTrace : List (Label Nat) :=
  [.beginOp .evict, .op none, .op none, .op none, .op none]

def uploadTrace : List (Label Nat) := [.host 0 none, .host 0 none, .host 0 none]

theorem stop_saves_final_world_two_blocks :
    ∃ w : World Nat, w.guest = .off ∧ w.store.bind (decode 2) = some (w.content twoBlockVM) ∧
      w.content twoBlockVM = [5, 7] := by
  obtain ⟨w, hw, hdone⟩ := Reaches.exists_run
    (step twoBlockVM SnapshotLink.minecraftQuiesce) (fun w l _ => StopsAlone w l)
    (World.booted (fun _ => 0) none) (capturedTrace ++ uploadTrace ++ stopTrace ++ evictTrace)
    (fun w => ⟨.stop, true, 1⟩ ∈ w.returned && w.boots = 1 && w.content twoBlockVM = [5, 7])
    (by decide)
  simp only [Bool.and_eq_true, decide_eq_true_eq] at hdone
  obtain ⟨⟨hf, hboots⟩, hcontent⟩ := hdone
  have hsaved := stop_saves_final_world twoBlockVM _ _ _ rfl (by decide) w hw _ hf rfl rfl
    hboots.symm
  exact ⟨w, hsaved.1, hsaved.2, hcontent⟩

/-- A snapshot captured before the last writes uploads behind the Stop. The Stop has
succeeded, the Evict has deleted the disk, and the last writes are gone. -/
theorem late_upload_replaces_final_world :
    ∃ w : World Nat, Reaches (step twoBlockVM SnapshotLink.minecraftQuiesce) (fun _ _ _ => True)
        (World.booted (fun _ => 0) none) w ∧
      ⟨.stop, true, w.boots⟩ ∈ w.returned ∧ w.diskPresent = false ∧
      w.content twoBlockVM = [5, 7] ∧ w.store.bind (decode 2) = some [0, 0] := by
  exact Reaches.exists_check (capturedTrace ++ stopTrace ++ uploadTrace ++ evictTrace) (by decide)

end Craftling.Agent

import Craftling.Agent.Conduct

namespace Craftling.Agent
open Effects Guest LiveSnapshot

theorem sound_of_reaches {D : Type} {q : Option QuiesceConfig} {disk : Nat → D}
    {store : Option (Blob D)} {w : World D}
    (h : Reaches (step m q) (fun w _ w' => ConnKept w w') (World.booted disk store) w) :
    Sound m True w :=
  h.invariant (Sound.booted disk store) fun _ _ _ hi hs hk => hi.step hs fun _ => hk

/-- As long as the guest loses no connection between its OK to PREPARE and the end of
the host's capture, a live snapshot that succeeds has read every block of the world
disk with the filesystem frozen for it, whatever else uses the control channel. -/
theorem snapshot_untorn {D : Type} (m : Machine) (q : Option QuiesceConfig) (disk : Nat → D)
    (store : Option (Blob D)) (w : World D)
    (h : Reaches (step m q) (fun w _ w' => ConnKept w w') (World.booted disk store) w)
    (k : Nat) (t : Thread) (ht : w.threads[k]? = some t) (hjob : t.job = .snapshot)
    (hok : t.succeeded = true) : t.reads = frozenReads k m.blocks := by
  obtain ⟨st, hkeep, _, hfaith⟩ := (sound_of_reaches h).standing k t ht
  cases hrest : t.rest with
  | call e cont => simp [Thread.succeeded, hrest] at hok
  | done r =>
    cases r with
    | error e => simp [Thread.succeeded, hrest, Except.isOk, Except.toBool] at hok
    | ok x =>
      rw [hrest] at hkeep
      have hst : st = .resumed true := hkeep hjob ⟨x, rfl⟩
      exact (hfaith trivial).read hst

def twoBlockVM : Machine := ⟨"vm-1", true, "world.ext4", "v.sock", 2⟩

def firstBlockTrace : List (Label Nat) :=
  [.begin .snapshot, .host 0 none, .host 0 none, .accept 0, .nextLine,
    .guestCall SnapshotLink.willing, .guestCall SnapshotLink.willing,
    .guestCall SnapshotLink.willing, .guestCall SnapshotLink.willing,
    .host 0 none, .host 0 none, .host 0 none, .host 0 none]

def wholeTrace : List (Label Nat) :=
  firstBlockTrace ++ [.begin .health, .host 1 none, .host 1 none,
    .host 0 none, .host 0 none, .host 0 none, .nextLine,
    .guestCall SnapshotLink.willing, .guestCall SnapshotLink.willing,
    .guestCall SnapshotLink.willing, .guestCall SnapshotLink.willing,
    .host 0 none, .host 0 none, .host 0 none, .host 0 none, .host 0 none]

/-- The rest of it, with the connection lost behind the first block: the guest thaws
and writes on, and the host reads the second block all the same. -/
def tornTrace : List (Label Nat) :=
  firstBlockTrace ++ [.endConn, .guestCall SnapshotLink.willing,
    .guestCall SnapshotLink.willing, .guestWrite 0 5, .guestWrite 1 7,
    .host 0 none, .host 0 none, .host 0 (some "broken pipe"),
    .host 0 none, .host 0 none, .host 0 none, .host 0 none]

def snapshotRead (reads : List (Nat × Option Nat)) (w : World Nat) : Bool :=
  w.threads[0]?.any fun t => t.job = .snapshot && t.succeeded && t.reads = reads

theorem snapshotRead_iff (reads : List (Nat × Option Nat)) (w : World Nat) :
    snapshotRead reads w = true ↔
      ∃ t, w.threads[0]? = some t ∧ t.job = .snapshot ∧ t.succeeded = true ∧ t.reads = reads := by
  simp [snapshotRead, Option.any_eq_true, and_assoc]

theorem snapshot_untorn_two_blocks : ∃ (w : World Nat) (t : Thread),
      w.threads[0]? = some t ∧ t.succeeded = true ∧ t.reads = frozenReads 0 2 := by
  obtain ⟨w, hw, hdone⟩ := Reaches.exists_run
    (step twoBlockVM SnapshotLink.minecraftQuiesce) (fun w _ w' => ConnKept w w')
    (World.booted (fun _ => 0) none) wholeTrace (snapshotRead [(0, some 0), (1, some 0)])
    (by decide)
  obtain ⟨t, ht, hjob, hok, _⟩ := (snapshotRead_iff _ w).mp hdone
  exact ⟨w, t, ht, hok, snapshot_untorn _ _ _ _ w hw 0 t ht hjob hok⟩

/-- A snapshot that succeeds with its second block read from a thawed filesystem, and
a stored world that the disk never held. -/
theorem lost_connection_tears :
    ∃ w t, Reaches (step twoBlockVM SnapshotLink.minecraftQuiesce) (fun _ _ _ => True)
        (World.booted (fun _ => 0) none) w ∧
      w.threads[0]? = some t ∧ t.job = .snapshot ∧ t.succeeded = true ∧
      t.reads = [(0, some 0), (1, none)] ∧ w.store.bind (decode 2) = some [0, 7] := by
  obtain ⟨w, hw, hdone⟩ := Reaches.exists_run
    (step twoBlockVM SnapshotLink.minecraftQuiesce) (fun _ _ _ => True)
    (World.booted (fun _ => 0) none) tornTrace
    (fun w => snapshotRead [(0, some 0), (1, none)] w && w.store.bind (decode 2) = some [0, 7])
    (by decide)
  simp only [Bool.and_eq_true, decide_eq_true_eq] at hdone
  obtain ⟨t, ht, hjob, hok, hreads⟩ := (snapshotRead_iff _ w).mp hdone.1
  exact ⟨w, t, hw, ht, hjob, hok, hreads, hdone.2⟩

end Craftling.Agent

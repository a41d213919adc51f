import Craftling.Agent.World
import Craftling.Agent.SnapshotLink

namespace Craftling.Agent
open Effects Guest LiveSnapshot Prog

/-- How far a control session has come. `granted n` has the guest's OK and `n`
blocks, `resumed` has sent its RESUME after a whole capture or a broken one, and
`ended` never had the freeze. -/
inductive Stage where
  | fresh
  | dialed
  | asked
  | granted (n : Nat)
  | resumed (whole : Bool)
  | ended
  deriving DecidableEq, Repr

def Stage.allows : Stage → LiveSnapshot.Call → Prop
  | .fresh, e => e = .dial
  | .dialed, e => ∃ line, e = .write line
  | .asked, e => e = .readLine
  | .granted n, e => e = .openDisk ∨ e = .createTemp ∨ e = .copyBlock n ∨ e = .closeTemp ∨
      e = .write snapResume
  | .resumed _, e => e = .readLine ∨ e = .removeTemp ∨ e = .openTemp ∨ e = .put ∨ e = .closeConn
  | .ended, e => e = .readLine ∨ e = .closeConn

def Stage.next (blocks : Nat) (st : Stage) (e : LiveSnapshot.Call)
    (r : LiveSnapshot.Answer e) : Stage :=
  match e, r with
  | .dial, .ok () => .dialed
  | .dial, .error _ => .ended
  | .write line, r =>
    match st with
    | .granted n => .resumed (n = blocks)
    | _ =>
      match r with
      | .ok () => if verbOf line = .prepare then .asked else .ended
      | .error _ => .ended
  | .readLine, r =>
    match st with
    | .asked => if r = .ok snapOK then .granted 0 else .ended
    | st => st
  | .copyBlock _, .ok () =>
    match st with
    | .granted n => .granted (n + 1)
    | st => st
  | _, _ => st

def Accepts (job : Job) (st : Stage) (r : Outcome) : Prop :=
  job = .snapshot → (∃ x, r = .ok x) → st = .resumed true

abbrev Keeps (m : Machine) (fin : Stage → α → Prop) (st : Stage) (p : Session α) : Prop :=
  p.Follows Stage.allows (Stage.next m.blocks) fin st

theorem copyBlocks_keeps (m : Machine) (i n : Nat) :
    Keeps m (fun st (r : Except String Unit) => ∃ j, st = .granted j ∧ (r = .ok () → j = i + n))
      (.granted i) (copyBlocks i n) := by
  induction n generalizing i with
  | zero => exact ⟨i, rfl, fun _ => rfl⟩
  | succ n ih =>
    simp only [copyBlocks, copyBlock, bind_eq, call_bind, done_bind]
    refine ⟨.inr (.inr (.inl rfl)), fun r => ?_⟩
    cases r with
    | error e => exact ⟨i, rfl, by simp⟩
    | ok u =>
      refine Prog.Follows.mono ?_ (ih (i + 1))
      rintro st r ⟨j, rfl, hj⟩
      exact ⟨j, rfl, fun hr => by rw [hj hr]; omega⟩

theorem gzipDiskToFile_keeps (m : Machine) :
    Keeps m (fun st (r : Except String Unit) => ∃ j, st = .granted j ∧ (r = .ok () → j = m.blocks))
      (.granted 0) (gzipDiskToFile m.blocks) := by
  simp only [gzipDiskToFile, LiveSnapshot.openDisk, createTemp, bind_eq, call_bind, done_bind]
  refine ⟨.inl rfl, fun r => ?_⟩
  cases r with
  | error e => exact ⟨0, rfl, by simp⟩
  | ok u =>
    refine ⟨.inr (.inl rfl), fun r => ?_⟩
    cases r with
    | error e => exact ⟨0, rfl, by simp⟩
    | ok u =>
      refine Prog.Follows.bind (Prog.Follows.mono ?_ (copyBlocks_keeps m 0 m.blocks))
      rintro st r ⟨j, rfl, hj⟩
      cases r with
      | error e => exact ⟨.inr (.inr (.inr (.inl rfl))), fun r => ⟨j, rfl, by simp⟩⟩
      | ok u =>
        refine ⟨.inr (.inr (.inr (.inl rfl))), fun r => ?_⟩
        have hj' : j = m.blocks := by rw [hj rfl]; omega
        cases r with
        | error e => exact ⟨j, rfl, by simp⟩
        | ok u => exact ⟨j, rfl, fun _ => hj'⟩

theorem uploadCapture_keeps (m : Machine) (whole : Bool) (capErr : Except String Unit)
    (h : capErr = .ok () → whole = true) :
    Keeps m (fun st (r : Except String Unit) => ∃ b, st = .resumed b ∧ (r = .ok () → b = true))
      (.resumed whole) (uploadCapture capErr) := by
  cases capErr with
  | error e => exact ⟨.inr (.inl rfl), fun r => ⟨whole, rfl, by simp⟩⟩
  | ok u =>
    refine ⟨.inr (.inr (.inl rfl)), fun r => ?_⟩
    cases r with
    | error e => exact ⟨.inr (.inl rfl), fun r => ⟨whole, rfl, by simp⟩⟩
    | ok u =>
      refine ⟨.inr (.inr (.inr (.inl rfl))), fun r => ?_⟩
      cases r with
      | error e => exact ⟨.inr (.inl rfl), fun r => ⟨whole, rfl, by simp⟩⟩
      | ok u => exact ⟨.inr (.inl rfl), fun r => ⟨whole, rfl, fun _ => h rfl⟩⟩

theorem captureAndUpload_keeps (m : Machine) :
    Keeps m (fun st (r : Except String Unit) => ∃ b, st = .resumed b ∧ (r = .ok () → b = true))
      (.granted 0) (captureAndUpload m) := by
  refine Prog.Follows.bind (Prog.Follows.mono ?_ (gzipDiskToFile_keeps m))
  rintro st capErr ⟨j, rfl, hj⟩
  have hr := uploadCapture_keeps m (j = m.blocks) capErr (by simpa using hj)
  refine ⟨.inr (.inr (.inr (.inr rfl))), fun r => ?_⟩
  cases r with
  | error e => exact hr
  | ok u => exact ⟨.inl rfl, fun r => hr⟩

theorem snapshotRunning_keeps (m : Machine) :
    Keeps m (fun st (r : Except String Unit) => r = .ok () → st = .resumed true) .fresh
      (snapshotRunning m) := by
  unfold snapshotRunning
  split
  · simp
  refine ⟨rfl, fun r => ?_⟩
  cases r with
  | error e => simp [Stage.next]
  | ok u =>
    refine ⟨⟨snapPrepare, rfl⟩, fun r => ?_⟩
    cases r with
    | error e => exact ⟨.inr rfl, fun r => by simp⟩
    | ok u =>
      refine ⟨rfl, fun r => ?_⟩
      cases r with
      | error e => exact ⟨.inr rfl, fun r => by simp⟩
      | ok line =>
        have hn : Stage.next m.blocks .asked .readLine (.ok line) =
            if line = snapOK then .granted 0 else .ended := by simp [Stage.next]
        change Keeps m _ (Stage.next m.blocks .asked .readLine (.ok line)) _
        rw [hn]
        by_cases hl : line = snapOK
        · simp only [done_bind, pure_eq, if_pos hl]
          refine Prog.Follows.bind (Prog.Follows.mono ?_ (captureAndUpload_keeps m))
          rintro st res ⟨b, rfl, hb⟩
          exact ⟨.inr (.inr (.inr (.inr rfl))), fun r hr => by rw [← hb hr]; rfl⟩
        · simp only [done_bind, pure_eq, if_neg hl]
          exact ⟨.inr rfl, fun r => by simp⟩

theorem probeHealth_keeps (m : Machine) :
    Keeps m (fun _ _ => True) .fresh (LiveSnapshot.probeHealth m) := by
  unfold LiveSnapshot.probeHealth
  split
  · trivial
  refine ⟨rfl, fun r => ?_⟩
  cases r with
  | error e => trivial
  | ok u =>
    refine ⟨⟨healthProbe, rfl⟩, fun r => ?_⟩
    cases r with
    | error e => exact ⟨.inr rfl, fun r => trivial⟩
    | ok u =>
      refine ⟨.inl rfl, fun r => ⟨.inr rfl, fun _ => ?_⟩⟩
      cases r <;> trivial

theorem trimSpace_cons (c : Char) (l : List Char) (hc : isSpace c = false) :
    ∃ l', trimSpace (c :: l) = c :: l' := by
  have he : ∃ l', (l.reverse ++ [c]).dropWhile isSpace = l' ++ [c] := by
    rw [List.dropWhile_append]
    split
    · exact ⟨[], by simp [hc]⟩
    · exact ⟨_, rfl⟩
  obtain ⟨l', hl'⟩ := he
  refine ⟨l'.reverse, ?_⟩
  simp [trimSpace, hc, hl']

theorem whitelist_verb (payload : String) :
    verbOf (whitelistApply ++ " " ++ payload) ≠ .prepare := by
  obtain ⟨l, hl⟩ := trimSpace_cons 'W' ("HITELIST ".toList ++ payload.toList) (by decide)
  have ht : trimSpace (whitelistApply ++ " " ++ payload).toList = 'W' :: l := by
    rw [← hl]
    simp [whitelistApply]
  simp only [verbOf, ht, cut]
  have hf : 'W' :: List.takeWhile (fun x => x != ' ') l ≠ snapPrepare.toList := by
    simp [snapPrepare]
  simp only [List.takeWhile_cons, bne_iff_ne, ne_eq, Char.reduceEq, not_false_eq_true,
    if_true, if_neg hf]
  split_ifs <;> nofun

theorem syncWhitelist_keeps (m : Machine) (payload : String) :
    Keeps m (fun _ _ => True) .fresh (syncWhitelist m payload) := by
  have hn : Stage.next m.blocks .dialed (.write (whitelistApply ++ " " ++ payload)) (.ok ()) =
      .ended := by simp [Stage.next, whitelist_verb]
  unfold syncWhitelist
  split
  · trivial
  refine ⟨rfl, fun r => ?_⟩
  cases r with
  | error e => trivial
  | ok u =>
    refine ⟨⟨whitelistApply ++ " " ++ payload, rfl⟩, fun r => ?_⟩
    cases r with
    | error e => exact ⟨.inr rfl, fun r => trivial⟩
    | ok u =>
      change Keeps m _ (Stage.next m.blocks .dialed (.write _) (.ok ())) _
      rw [hn]
      refine ⟨.inl rfl, fun r => ⟨.inr rfl, fun _ => ?_⟩⟩
      cases r with
      | error e => trivial
      | ok reply =>
        simp only [done_bind]
        split <;> trivial

/-- Every session makes its calls in the order of the stages. -/
theorem Job.session_keeps (m : Machine) (job : Job) :
    Keeps m (Accepts job) .fresh (job.session m) := by
  cases job with
  | snapshot =>
    refine Prog.Follows.bind (Prog.Follows.mono ?_ (snapshotRunning_keeps m))
    rintro st r hr _ ⟨x, hx⟩
    cases r with
    | error e => simp [Except.map] at hx
    | ok u => exact hr rfl
  | health => exact Prog.Follows.mono (fun _ _ _ => by simp [Accepts]) (probeHealth_keeps m)
  | whitelist payload =>
    refine Prog.Follows.bind (Prog.Follows.mono ?_ (syncWhitelist_keeps m payload))
    intro st r _
    simp [Accepts]

end Craftling.Agent

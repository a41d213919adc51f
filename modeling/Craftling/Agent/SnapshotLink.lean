import Craftling.Agent.LiveSnapshot
import Craftling.Guest.Quiesce

namespace Craftling.Agent.SnapshotLink
open Effects Guest Quiesce LiveSnapshot

inductive Exchange where
  | refused (e : String)
  | lost (e : String)
  | unanswered (e : String)
  | answered
  deriving DecidableEq, Repr

def Exchange.handled : Exchange → Bool
  | .refused _ => false
  | .lost _ => false
  | .unanswered _ => true
  | .answered => true

/-- One way for a live snapshot to go. No call of the host is made twice, so an
outcome per call covers every point at which the snapshot can fail. -/
structure Plan where
  outcome : LiveSnapshot.Call → Option String
  exchange : String → Exchange
  oracle : String → Oracle
  last : Oracle

structure Link where
  fd : Option Fd
  log : Log
  reply : Except String String

def Link.fresh : Link := ⟨none, [], .error "EOF"⟩

def replyOf (log : Log) : Option String :=
  log.findSome? fun a =>
    match a.call with
    | .reply line => some line
    | _ => none

def Link.handle (q : Option QuiesceConfig) (p : Plan) (l : Link) (line : String) : Link :=
  let (fd, log) := (handleLine q l.fd line).answerWith (p.oracle line)
  { fd, log := l.log ++ log, reply := (replyOf log).elim (.error "EOF") .ok }

def outcomeOf (o : Option String) : Except String Unit :=
  match o with
  | some e => .error e
  | none => .ok ()

def onCall (q : Option QuiesceConfig) (p : Plan) :
    (e : LiveSnapshot.Call) → Link → LiveSnapshot.Answer e × Link
  | .write line, l =>
    match p.exchange line with
    | .refused e => (.error e, l)
    | .lost e => (.ok (), { l with reply := .error e })
    | .unanswered e => (.ok (), { l.handle q p line with reply := .error e })
    | .answered => (.ok (), l.handle q p line)
  | .readLine, l => (l.reply, l)
  | .closeConn, l =>
    ((), { l with fd := none, log := l.log ++ ((finishConn l.fd).answerWith p.last).2 })
  | .removeTemp, l => ((), l)
  | .dial, l => (outcomeOf (p.outcome .dial), l)
  | .openDisk, l => (outcomeOf (p.outcome .openDisk), l)
  | .createTemp, l => (outcomeOf (p.outcome .createTemp), l)
  | .copyBlock i, l => (outcomeOf (p.outcome (.copyBlock i)), l)
  | .closeTemp, l => (outcomeOf (p.outcome .closeTemp), l)
  | .openTemp, l => (outcomeOf (p.outcome .openTemp), l)
  | .put, l => (outcomeOf (p.outcome .put), l)

def snapshotSession (q : Option QuiesceConfig) (m : Machine) (p : Plan) :
    Except String Unit × Log :=
  let (res, l) := (snapshotRunning m).runOn (onCall q p) Link.fresh
  (res, l.log)

def prepareInput (p : Plan) : Input := ⟨snapPrepare, p.oracle snapPrepare⟩

def resumeInput (p : Plan) : Input := ⟨snapResume, p.oracle snapResume⟩

def acknowledged (p : Plan) : Bool :=
  p.exchange snapPrepare = .answered && (freezes (prepareInput p)).isSome

def prepares (m : Machine) (p : Plan) : Bool :=
  m.store && m.worldDisk != "" && m.vsockUDS != "" && (p.outcome .dial).isNone &&
    (p.exchange snapPrepare).handled

def delivered (m : Machine) (p : Plan) : List Input :=
  if prepares m p then
    if acknowledged p && (p.exchange snapResume).handled then [prepareInput p, resumeInput p]
    else [prepareInput p]
  else []

theorem verbOf_prepare : verbOf snapPrepare = .prepare := by decide

theorem verbOf_resume : verbOf snapResume = .resume := by decide

theorem errPrefix_ne_ok (e : String) : snapErrPrefix ++ e ≠ snapOK := by
  intro h
  have := congrArg String.toList h
  simp [snapErrPrefix, snapOK] at this

section

variable (q : Option QuiesceConfig) (p : Plan)

theorem copyBlocks_link (l : Link) (i n : Nat) :
    ((copyBlocks i n).runOn (onCall q p) l).2 = l := by
  induction n generalizing i with
  | zero => rfl
  | succ n ih =>
    cases ho : p.outcome (.copyBlock i) <;> simp [copyBlocks, copyBlock, onCall, outcomeOf, ho, ih]

theorem gzipDiskToFile_link (l : Link) (n : Nat) :
    ((gzipDiskToFile n).runOn (onCall q p) l).2 = l := by
  cases ho : p.outcome .openDisk with
  | some e => simp [gzipDiskToFile, openDisk, onCall, outcomeOf, ho]
  | none =>
    cases hc : p.outcome .createTemp with
    | some e => simp [gzipDiskToFile, openDisk, createTemp, onCall, outcomeOf, ho, hc]
    | none =>
      have hl := copyBlocks_link q p l 0 n
      cases hco : ((copyBlocks 0 n).runOn (onCall q p) l).1 <;> cases ht : p.outcome .closeTemp <;>
        simp [gzipDiskToFile, openDisk, createTemp, onCall, outcomeOf, ho, hc,
          Prog.runOn_bind, hco, closeTemp, ht, hl]

theorem captureAndUpload_link (m : Machine) (l : Link) :
    ∃ r, ((captureAndUpload m).runOn (onCall q p) l).2 =
      { (if (p.exchange snapResume).handled then l.handle q p snapResume else l) with
        reply := r } := by
  have hl := gzipDiskToFile_link q p l m.blocks
  have hre : ∃ r, ((readLineAfter snapResume).runOn (onCall q p) l).2 =
      { (if (p.exchange snapResume).handled then l.handle q p snapResume else l) with
        reply := r } := by
    cases hx : p.exchange snapResume <;>
      simp [readLineAfter, writeLine, readLine, onCall, hx, Exchange.handled]
    all_goals exact ⟨_, rfl⟩
  obtain ⟨r, hr⟩ := hre
  refine ⟨r, ?_⟩
  cases hc : ((gzipDiskToFile m.blocks).runOn (onCall q p) l).1 <;>
    cases ho : p.outcome .openTemp <;> cases hp : p.outcome .put <;>
    simp [captureAndUpload, uploadCapture, Prog.runOn_bind, hl, hr, hc, removeTemp, putGzFile, openTemp, put,
      onCall, outcomeOf, ho, hp]

theorem prepare_reply :
    ∃ line, replyOf (served q none (prepareInput p)).2 = some line ∧
      (line = snapOK ↔ (freezes (prepareInput p)).isSome = true) := by
  have hv : verbOf (prepareInput p).line = .prepare := verbOf_prepare
  cases ho : (show Except String Fd from (prepareInput p).oracle .openScratch) with
  | error e =>
    refine ⟨snapErrPrefix ++ ("open freeze target: " ++ e), ?_, ?_⟩
    · cases hq : rconConfigured q <;>
        simp [served, handleLine, hv, prepareSnapshot, freezeScratch, rconExec, openScratch, reply, hq, ho,
          replyOf]
    · simp [freezes, ho, errPrefix_ne_ok]
  | ok fd =>
    cases hf : (show Option String from (prepareInput p).oracle (.fsFreeze fd)) with
    | some e =>
      refine ⟨snapErrPrefix ++ ("fsfreeze: " ++ e), ?_, ?_⟩
      · cases hq : rconConfigured q <;>
          simp [served, handleLine, hv, prepareSnapshot, freezeScratch, rconExec, openScratch, fsFreeze,
            close, reply, hq, ho, hf, replyOf]
      · simp [freezes, ho, hf, errPrefix_ne_ok]
    | none =>
      refine ⟨snapOK, ?_, ?_⟩
      · cases hq : rconConfigured q <;>
          simp [served, handleLine, hv, prepareSnapshot, freezeScratch, rconExec, openScratch, fsFreeze,
            reply, hq, ho, hf, replyOf]
      · simp [freezes, ho, hf]

theorem snapCommand_prepare :
    (∃ r, ((snapCommand snapPrepare).runOn (onCall q p) .fresh).2 =
      { (if (p.exchange snapPrepare).handled then Link.fresh.handle q p snapPrepare else .fresh)
        with reply := r }) ∧
    (((snapCommand snapPrepare).runOn (onCall q p) .fresh).1 = .ok () ↔ acknowledged p = true) := by
  obtain ⟨line, hl, ho⟩ := prepare_reply q p
  have hr : (Link.fresh.handle q p snapPrepare).reply = .ok line := by
    have : (handleLine q none snapPrepare).answerWith (p.oracle snapPrepare) =
        served q none (prepareInput p) := rfl
    simp [Link.handle, Link.fresh, this, hl]
  cases hx : p.exchange snapPrepare with
  | refused e =>
    simp [snapCommand, writeLine, onCall, hx, Exchange.handled, acknowledged]
    exact ⟨_, rfl⟩
  | lost e | unanswered e =>
    simp [snapCommand, writeLine, readLine, onCall, hx, Exchange.handled, acknowledged]
  | answered =>
    by_cases h : line = snapOK
    · simp [snapCommand, writeLine, readLine, onCall, hx, Exchange.handled, acknowledged, hr,
        h, ho.mp h]
      exact ⟨_, rfl⟩
    have hn : (freezes (prepareInput p)).isSome = false := by
      simpa using fun hf => h (ho.mpr hf)
    simp [snapCommand, writeLine, readLine, onCall, hx, Exchange.handled, acknowledged, hr, h, hn]
    exact ⟨_, rfl⟩

end

theorem snapshotSession_log (q : Option QuiesceConfig) (m : Machine) (p : Plan) :
    (snapshotSession q m p).2 = handleSnapshotConn q (delivered m p) p.last := by
  by_cases hl : (!m.store || m.worldDisk = "" || m.vsockUDS = "") = true
  · have hp : prepares m p = false := by
      simp only [prepares]
      grind
    simp only [snapshotSession, snapshotRunning, hl, if_true, delivered, hp]
    rfl
  cases hd : p.outcome .dial with
  | some e =>
    have hp : prepares m p = false := by simp [prepares, hd]
    simp only [snapshotSession, snapshotRunning, hl, delivered, hp]
    simp [dialVsockControl, onCall, outcomeOf, hd, Link.fresh, handleSnapshotConn, serveLines,
      finishConn]
  | none =>
    have hp : prepares m p = (p.exchange snapPrepare).handled := by
      simp only [prepares, hd]
      grind
    obtain ⟨⟨r, hli⟩, ho⟩ := snapCommand_prepare q p
    simp only [snapshotSession, snapshotRunning, hl, delivered, hp]
    cases hre : ((snapCommand snapPrepare).runOn (onCall q p) .fresh).1 with
    | error e =>
      have ha : acknowledged p = false := by
        simpa [hre] using ho
      cases hh : (p.exchange snapPrepare).handled <;>
        simp [dialVsockControl, onCall, outcomeOf, hd, Prog.runOn_bind, hre, hli, hh, ha, closeConn]
      all_goals simp [Link.fresh, Link.handle, handleSnapshotConn, serveLines, prepareInput,
        finishConn]
    | ok u =>
      have ha : acknowledged p = true := ho.mp (by rw [hre])
      have hh : (p.exchange snapPrepare).handled = true := by
        simp only [acknowledged, Bool.and_eq_true, decide_eq_true_eq] at ha
        rw [ha.1]
        rfl
      obtain ⟨r', hc⟩ := captureAndUpload_link q p m
        { Link.fresh.handle q p snapPrepare with reply := r }
      cases hr : (p.exchange snapResume).handled <;>
        simp [dialVsockControl, onCall, outcomeOf, hd, Prog.runOn_bind, hre, hli, hh, ha,
          hr, hc, closeConn]
      all_goals simp [Link.fresh, Link.handle, handleSnapshotConn, serveLines, prepareInput,
        resumeInput]

def ResumeReaches (q : Option QuiesceConfig) (m : Machine) (p : Plan) : Prop :=
  rconConfigured q = true → prepares m p = true → saveOffRuns (prepareInput p) = true →
    acknowledged p = true ∧ (p.exchange snapResume).handled = true

theorem noOpenSaveOff_delivered (q : Option QuiesceConfig) (m : Machine) (p : Plan) :
    NoOpenSaveOff q (delivered m p) ↔ ResumeReaches q m p := by
  have hpr : isPrepare (prepareInput p) = true := by simp [isPrepare, prepareInput, verbOf_prepare]
  have hn : isResume (prepareInput p) = false := by simp [isResume, prepareInput, verbOf_prepare]
  have hre : isResume (resumeInput p) = true := by simp [isResume, resumeInput, verbOf_resume]
  have ho : openAttempts [prepareInput p] = [prepareInput p] := by
    simp [openAttempts, sinceResume, List.rtakeWhile, hn, hpr, upToFreeze]
  have ht : openAttempts [prepareInput p, resumeInput p] = [] := by
    simp [openAttempts, sinceResume, List.rtakeWhile, hre, upToFreeze]
  have hz : openAttempts [] = [] := rfl
  cases hp : prepares m p <;> cases ha : acknowledged p <;>
    cases hr : (p.exchange snapResume).handled <;>
    simp [NoOpenSaveOff, ResumeReaches, delivered, hp, ha, hr, ho, ht, hz]

theorem snapshotSession_undone (q : Option QuiesceConfig) (m : Machine) (p : Plan) :
    Undone (snapshotSession q m p).2 ↔ ResumeReaches q m p := by
  rw [snapshotSession_log, handleSnapshotConn_undone, noOpenSaveOff_delivered]

/-- Quiescing is undone by the time the connection handler has returned exactly
when no save-off was run behind the last RESUME, and for the connection of a live
snapshot exactly when its RESUME reaches the guest. -/
theorem quiesce_undone_iff (q : Option QuiesceConfig) (ins : List Input) (last : Oracle)
    (m : Machine) (p : Plan) :
    (Undone (handleSnapshotConn q ins last) ↔ NoOpenSaveOff q ins) ∧
      (Undone (snapshotSession q m p).2 ↔ ResumeReaches q m p) :=
  ⟨handleSnapshotConn_undone q ins last, snapshotSession_undone q m p⟩

def willing : Oracle
  | .rconExec cmds => (⟨cmds.length, none⟩ : RconResult)
  | .openScratch => (.ok 7 : Except String Fd)
  | .fsFreeze _ => (none : Option String)
  | .fsThaw _ => ()
  | .close _ => ()
  | .probeHealth => (.ok "null" : Except String String)
  | .applyWhitelist _ => (none : Option String)
  | .reply _ => ()

def minecraftQuiesce : Option QuiesceConfig := some ⟨"127.0.0.1:25575"⟩

def droppedBeforeResume : Plan where
  outcome := fun _ => none
  exchange := fun line => if line = snapResume then .refused "broken pipe" else .answered
  oracle := fun _ => willing
  last := willing

/-- A connection that ends behind its PREPARE leaves the workload with saving off,
and so does a live snapshot that succeeds but cannot deliver its RESUME. -/
theorem saving_stays_off :
    ¬ Undone (handleSnapshotConn minecraftQuiesce [⟨snapPrepare, willing⟩] willing) ∧
      (snapshotSession minecraftQuiesce ⟨"vm-1", true, "world.ext4", "v.sock", 2⟩
        droppedBeforeResume).1 = .ok () ∧
      ¬ Undone (snapshotSession minecraftQuiesce ⟨"vm-1", true, "world.ext4", "v.sock", 2⟩
        droppedBeforeResume).2 := by
  refine ⟨?_, rfl, ?_⟩
  · rw [handleSnapshotConn_undone]
    intro h
    have := h (by decide) ⟨snapPrepare, willing⟩ (List.mem_singleton_self _)
    simp [saveOffRuns, willing] at this
  · rw [snapshotSession_undone]
    intro h
    have := h (by decide) (by decide) (by decide)
    simp [droppedBeforeResume, Exchange.handled] at this

end Craftling.Agent.SnapshotLink

import Craftling.Guest.Control

namespace Craftling.Guest.Quiesce
open Effects List

def ranSaveOff (a : Prog.Answered Call Answer) : Bool :=
  match a with
  | ⟨.rconExec cmds, r⟩ => (cmds.take (RconResult.ran r)).contains .saveOff
  | _ => false

def issuesSaveOn (a : Prog.Answered Call Answer) : Bool :=
  match a with
  | ⟨.rconExec cmds, _⟩ => cmds.contains .saveOn
  | _ => false

def frozenAfter (b : Bool) : Log → Bool
  | [] => b
  | ⟨.fsFreeze _, r⟩ :: rest => frozenAfter (b || (show Option String from r).isNone) rest
  | ⟨.fsThaw _, _⟩ :: rest => frozenAfter false rest
  | _ :: rest => frozenAfter b rest

def SavesRestored (log : Log) : Prop :=
  ∀ pre a post, log = pre ++ a :: post → ranSaveOff a = true →
    ∃ b ∈ post, issuesSaveOn b = true

structure Undone (log : Log) : Prop where
  thawed : frozenAfter false log = false
  saving : SavesRestored log

theorem frozenAfter_append (b : Bool) (l l' : Log) :
    frozenAfter b (l ++ l') = frozenAfter (frozenAfter b l) l' := by
  induction l generalizing b with
  | nil => rfl
  | cons a l ih =>
    obtain ⟨c, r⟩ := a
    cases c <;> exact ih _

theorem savesRestored_nil : SavesRestored [] := by
  intro pre a post h
  simp at h

theorem savesRestored_cons (a : Prog.Answered Call Answer) (log : Log) : SavesRestored (a :: log) ↔
      (ranSaveOff a = true → ∃ b ∈ log, issuesSaveOn b = true) ∧ SavesRestored log := by
  constructor
  · intro h
    refine ⟨h [] a log rfl, ?_⟩
    intro pre c post he
    exact h (a :: pre) c post (by rw [he]; rfl)
  rintro ⟨ha, hl⟩ pre c post he
  cases pre with
  | nil =>
    simp only [nil_append, List.cons.injEq] at he
    obtain ⟨rfl, rfl⟩ := he
    exact ha
  | cons d pre =>
    simp only [cons_append, List.cons.injEq] at he
    exact hl pre c post he.2

theorem savesRestored_append (l l' : Log) : SavesRestored (l ++ l') ↔
      (SavesRestored l ∨ ∃ b ∈ l', issuesSaveOn b = true) ∧ SavesRestored l' := by
  induction l with
  | nil => simp [savesRestored_nil]
  | cons a l ih =>
    rw [cons_append, savesRestored_cons, savesRestored_cons, ih]
    by_cases hl : ∃ b ∈ l', issuesSaveOn b = true
    · simp only [hl, or_true, true_and, and_iff_right_iff_imp]
      intro _ _
      obtain ⟨b, hb, hi⟩ := hl
      exact ⟨b, mem_append_right l hb, hi⟩
    simp only [hl, or_false]
    have he : (∃ b ∈ l ++ l', issuesSaveOn b = true) ↔ ∃ b ∈ l, issuesSaveOn b = true := by
      constructor
      · rintro ⟨b, hb, hi⟩
        rcases mem_append.mp hb with hb | hb
        · exact ⟨b, hb, hi⟩
        · exact absurd ⟨b, hb, hi⟩ hl
      · rintro ⟨b, hb, hi⟩
        exact ⟨b, mem_append_left l' hb, hi⟩
    rw [he, and_assoc]

def saveOffRuns (i : Input) : Bool :=
  decide (0 < RconResult.ran (i.oracle (.rconExec [.saveOff, .saveAllFlush])))

theorem ranSaveOff_flush (i : Input) : ranSaveOff ⟨.rconExec [.saveOff, .saveAllFlush],
      i.oracle (.rconExec [.saveOff, .saveAllFlush])⟩ = saveOffRuns i := by
  simp only [ranSaveOff, saveOffRuns]
  cases RconResult.ran (i.oracle (.rconExec [.saveOff, .saveAllFlush])) <;> simp

/-- Under an oracle, a PREPARE that is let through ends with a held freeze. -/
def freezes (i : Input) : Option Fd :=
  match (show Except String Fd from i.oracle .openScratch) with
  | .error _ => none
  | .ok fd => if (show Option String from i.oracle (.fsFreeze fd)).isNone then some fd else none

def isPrepare (i : Input) : Bool := verbOf i.line = .prepare

def isResume (i : Input) : Bool := verbOf i.line = .resume

def sinceResume (ins : List Input) : List Input := ins.rtakeWhile (fun i => !isResume i)

/-- PREPARE lines up to and including the first that freezes. Those behind it
are answered with "already prepared". -/
def upToFreeze : List Input → List Input
  | [] => []
  | i :: rest => if (freezes i).isSome then [i] else i :: upToFreeze rest

/-- The PREPARE lines behind the last RESUME that get as far as the flush. -/
def openAttempts (ins : List Input) : List Input :=
  upToFreeze ((sinceResume ins).filter isPrepare)

def NoOpenSaveOff (q : Option QuiesceConfig) (ins : List Input) : Prop :=
  rconConfigured q = true → ∀ i ∈ openAttempts ins, saveOffRuns i = false

def Neutral (log : Log) : Prop :=
  ∀ a ∈ log, ranSaveOff a = false ∧ issuesSaveOn a = false

theorem Neutral.savesRestored (h : Neutral log) : SavesRestored log := by
  intro pre a post he hr
  have := (h a (by simp [he])).1
  simp [this] at hr

theorem Neutral.no_saveOn (h : Neutral log) : ¬ ∃ b ∈ log, issuesSaveOn b = true := by
  rintro ⟨b, hb, hi⟩
  have := (h b hb).2
  simp [this] at hi

def served (q : Option QuiesceConfig) (fd : Option Fd) (i : Input) : Option Fd × Log :=
  (handleLine q fd i.line).answerWith i.oracle

section

variable (q : Option QuiesceConfig)

theorem served_held (fd : Fd) (i : Input)
    (h : verbOf i.line = .prepare) :
    served q (some fd) i = (some fd, [⟨.reply (snapErrPrefix ++ "already prepared"),
      i.oracle (.reply (snapErrPrefix ++ "already prepared"))⟩]) := by
  simp [served, handleLine, h, reply]

theorem served_prepare (i : Input) (h : verbOf i.line = .prepare) :
    ∃ tail, (served q none i).2 = (if rconConfigured q then
        [⟨.rconExec [.saveOff, .saveAllFlush], i.oracle (.rconExec [.saveOff, .saveAllFlush])⟩]
        else []) ++ tail ∧
      Neutral tail ∧ (served q none i).1 = freezes i ∧
      frozenAfter false tail = (freezes i).isSome := by
  have hop : ∀ o : Except String Fd, i.oracle .openScratch = o →
      ∃ tail, (served q none i).2 = (if rconConfigured q then
          [⟨.rconExec [.saveOff, .saveAllFlush], i.oracle (.rconExec [.saveOff, .saveAllFlush])⟩]
          else []) ++ ⟨.openScratch, i.oracle .openScratch⟩ :: tail ∧
        Neutral tail ∧ (served q none i).1 = freezes i ∧
        frozenAfter false tail = (freezes i).isSome := by
    intro o ho
    cases o with
    | error e =>
      refine ⟨[⟨.reply (snapErrPrefix ++ ("open freeze target: " ++ e)), ()⟩], ?_⟩
      cases hq : rconConfigured q <;>
        simp [served, handleLine, h, prepareSnapshot, freezeScratch, rconExec, openScratch, reply, hq, ho,
          freezes, Neutral, ranSaveOff, issuesSaveOn, frozenAfter]
    | ok fd =>
      cases hf : (show Option String from i.oracle (.fsFreeze fd)) with
      | some e =>
        refine ⟨[⟨.fsFreeze fd, some e⟩, ⟨.close fd, ()⟩,
          ⟨.reply (snapErrPrefix ++ ("fsfreeze: " ++ e)), ()⟩], ?_⟩
        cases hq : rconConfigured q <;>
          simp [served, handleLine, h, prepareSnapshot, freezeScratch, rconExec, openScratch, fsFreeze, close,
            reply, hq, ho, hf, freezes, Neutral, ranSaveOff, issuesSaveOn, frozenAfter]
      | none =>
        refine ⟨[⟨.fsFreeze fd, none⟩, ⟨.reply snapOK, ()⟩], ?_⟩
        cases hq : rconConfigured q <;>
          simp [served, handleLine, h, prepareSnapshot, freezeScratch, rconExec, openScratch, fsFreeze,
            reply, hq, ho, hf, freezes, Neutral, ranSaveOff, issuesSaveOn, frozenAfter]
  obtain ⟨tail, hl, hn, hfd, hfr⟩ := hop _ rfl
  refine ⟨_, hl, ?_, hfd, hfr⟩
  intro a ha
  rcases mem_cons.mp ha with rfl | ha
  · exact ⟨rfl, rfl⟩
  · exact hn a ha

section

variable (fd : Option Fd) (i : Input)

theorem served_resume (h : verbOf i.line = .resume) :
    (served q fd i).1 = none ∧ frozenAfter fd.isSome (served q fd i).2 = false ∧
      (∀ a ∈ (served q fd i).2, ranSaveOff a = false) ∧
      ((∃ b ∈ (served q fd i).2, issuesSaveOn b = true) ↔ rconConfigured q = true) := by
  cases fd <;> cases hq : rconConfigured q <;>
    simp [served, handleLine, h, resumeSnapshot, rconExec, fsThaw, close, reply, hq,
      frozenAfter, ranSaveOff, issuesSaveOn]
  all_goals exact fun hm => by simpa using mem_of_mem_take hm

theorem served_other (hp : verbOf i.line ≠ .prepare) (hr : verbOf i.line ≠ .resume) :
    (served q fd i).1 = fd ∧ (∀ b, frozenAfter b (served q fd i).2 = b) ∧
      Neutral (served q fd i).2 := by
  cases hv : verbOf i.line with
  | prepare => exact absurd hv hp
  | resume => exact absurd hv hr
  | health =>
    cases ho : (show Except String String from i.oracle .probeHealth) <;>
      simp [served, handleLine, hv, probeHealth, reply, ho, frozenAfter, Neutral,
        ranSaveOff, issuesSaveOn]
  | whitelist arg =>
    cases ho : (show Option String from i.oracle (.applyWhitelist arg)) <;>
      simp [served, handleLine, hv, applyWhitelist, reply, ho, frozenAfter, Neutral,
        ranSaveOff, issuesSaveOn]
  | unknown =>
    simp [served, handleLine, hv, reply, frozenAfter, Neutral, ranSaveOff, issuesSaveOn]

theorem served_freeze : frozenAfter fd.isSome (served q fd i).2 = (served q fd i).1.isSome := by
  by_cases hp : verbOf i.line = .prepare
  · cases fd with
    | some fd => simp [served_held q fd i hp, frozenAfter]
    | none =>
      obtain ⟨tail, hl, _, hf, hfr⟩ := served_prepare q i hp
      rw [hl, hf, frozenAfter_append]
      cases rconConfigured q <;> exact hfr
  by_cases hr : verbOf i.line = .resume
  · obtain ⟨hf, hfr, _⟩ := served_resume q fd i hr
    simp [hf, hfr]
  · obtain ⟨hf, hfr, _⟩ := served_other q fd i hp hr
    rw [hf, hfr]

theorem serveLines_cons (rest : List Input) :
    serveLines q fd (i :: rest) = ((serveLines q (served q fd i).1 rest).1,
      (served q fd i).2 ++ (serveLines q (served q fd i).1 rest).2) := rfl

end

theorem serveLines_append (fd : Option Fd) (l l' : List Input) :
    serveLines q fd (l ++ l') = ((serveLines q (serveLines q fd l).1 l').1,
      (serveLines q fd l).2 ++ (serveLines q (serveLines q fd l).1 l').2) := by
  induction l generalizing fd with
  | nil => rfl
  | cons i l ih => simp [serveLines_cons, ih]

theorem serveLines_freeze (fd : Option Fd) (ins : List Input) :
    frozenAfter fd.isSome (serveLines q fd ins).2 = (serveLines q fd ins).1.isSome := by
  induction ins generalizing fd with
  | nil => rfl
  | cons i rest ih => rw [serveLines_cons, frozenAfter_append, served_freeze, ih]

theorem serveLines_held (fd : Fd) (ins : List Input)
    (h : ∀ i ∈ ins, isResume i = false) : Neutral (serveLines q (some fd) ins).2 := by
  induction ins with
  | nil => simp [serveLines, Neutral]
  | cons i rest ih =>
    have hi : (served q (some fd) i).1 = some fd ∧ Neutral (served q (some fd) i).2 := by
      by_cases hp : verbOf i.line = .prepare
      · simp [served_held q fd i hp, Neutral, ranSaveOff, issuesSaveOn]
      have hr : verbOf i.line ≠ .resume := by simpa [isResume] using h i (by simp)
      obtain ⟨hf, _, hn⟩ := served_other q (some fd) i hp hr
      exact ⟨hf, hn⟩
    rw [serveLines_cons, hi.1]
    intro a ha
    rcases mem_append.mp ha with ha | ha
    · exact hi.2 a ha
    · exact ih (fun j hj => h j (mem_cons_of_mem i hj)) a ha

theorem serveLines_open (ins : List Input)
    (h : ∀ i ∈ ins, isResume i = false) :
    (SavesRestored (serveLines q none ins).2 ↔ (rconConfigured q = true →
        ∀ i ∈ upToFreeze (ins.filter isPrepare), saveOffRuns i = false)) ∧
      ¬ ∃ b ∈ (serveLines q none ins).2, issuesSaveOn b = true := by
  induction ins with
  | nil => simp [serveLines, savesRestored_nil, upToFreeze]
  | cons i rest ih =>
    obtain ⟨ihs, ihn⟩ := ih (fun j hj => h j (mem_cons_of_mem i hj))
    rw [serveLines_cons]
    by_cases hp : verbOf i.line = .prepare
    · obtain ⟨tail, hl, hne, hfd, _⟩ := served_prepare q i hp
      have hpr : isPrepare i = true := by simp [isPrepare, hp]
      have hre : ∃ log, (serveLines q (freezes i) rest).2 = log ∧
          (SavesRestored log ↔ (rconConfigured q = true → (freezes i).isSome = true ∨
            ∀ j ∈ upToFreeze (rest.filter isPrepare), saveOffRuns j = false)) ∧
          ¬ ∃ b ∈ log, issuesSaveOn b = true := by
        refine ⟨_, rfl, ?_⟩
        cases hf : freezes i with
        | none => exact ⟨by simpa using ihs, ihn⟩
        | some fd =>
          have hn := serveLines_held q fd rest (fun j hj => h j (mem_cons_of_mem i hj))
          exact ⟨by simp [hn.savesRestored], hn.no_saveOn⟩
      obtain ⟨log, he, hs, hno⟩ := hre
      have ht : ¬ ∃ b ∈ tail ++ log, issuesSaveOn b = true := by
        rintro ⟨b, hb, hi⟩
        rcases mem_append.mp hb with hb | hb
        · exact hne.no_saveOn ⟨b, hb, hi⟩
        · exact hno ⟨b, hb, hi⟩
      have hres : SavesRestored (tail ++ log) ↔ SavesRestored log := by
        simp [savesRestored_append, hne.savesRestored]
      rw [hfd, he, hl, filter_cons_of_pos hpr, append_assoc]
      cases hq : rconConfigured q with
      | false =>
        simp only [hq, Bool.false_eq_true, false_implies, iff_true] at hs
        exact ⟨by simp [hres, hs], ht⟩
      | true =>
        simp only [if_true, cons_append, nil_append, savesRestored_cons, ht,
          hres, hs, hq, forall_const, upToFreeze, ranSaveOff_flush]
        constructor
        · cases freezes i <;> simp
        rintro ⟨b, hb, hi⟩
        rcases mem_cons.mp hb with rfl | hb
        · simp [issuesSaveOn] at hi
        · exact ht ⟨b, hb, hi⟩
    · have hr : verbOf i.line ≠ .resume := by simpa [isResume] using h i (by simp)
      obtain ⟨hfd, _, hn⟩ := served_other q none i hp hr
      have hpr : isPrepare i = false := by simp [isPrepare, hp]
      rw [hfd, savesRestored_append, filter_cons_of_neg (by simp [hpr])]
      refine ⟨by simp [hn.savesRestored, ihs], ?_⟩
      rintro ⟨b, hb, hi⟩
      rcases mem_append.mp hb with hb | hb
      · exact hn.no_saveOn ⟨b, hb, hi⟩
      · exact ihn ⟨b, hb, hi⟩

theorem served_unconfigured (fd : Option Fd) (i : Input)
    (hq : rconConfigured q = false) : ∀ a ∈ (served q fd i).2, ranSaveOff a = false := by
  by_cases hp : verbOf i.line = .prepare
  · cases fd with
    | some fd => simp [served_held q fd i hp, ranSaveOff]
    | none =>
      obtain ⟨tail, hl, hn, _⟩ := served_prepare q i hp
      intro a ha
      rw [hl, hq] at ha
      exact (hn a (by simpa using ha)).1
  · by_cases hr : verbOf i.line = .resume
    · exact (served_resume q fd i hr).2.2.1
    · intro a ha
      exact ((served_other q fd i hp hr).2.2 a ha).1

theorem serveLines_unconfigured (fd : Option Fd) (ins : List Input)
    (hq : rconConfigured q = false) : ∀ a ∈ (serveLines q fd ins).2, ranSaveOff a = false := by
  induction ins generalizing fd with
  | nil => simp [serveLines]
  | cons i rest ih =>
    intro a ha
    rw [serveLines_cons] at ha
    rcases mem_append.mp ha with ha | ha
    · exact served_unconfigured q fd i hq a ha
    · exact ih _ a ha

end

theorem savesRestored_of_none (h : ∀ a ∈ log, ranSaveOff a = false) : SavesRestored log := by
  intro pre a post he hr
  have := h a (by simp [he])
  simp [this] at hr

theorem serveLines_resumed (q : Option QuiesceConfig) (fd : Option Fd) (pre : List Input)
    (i : Input) (h : isResume i = true) :
    (serveLines q fd (pre ++ [i])).1 = none ∧ SavesRestored (serveLines q fd (pre ++ [i])).2 := by
  have hr : verbOf i.line = .resume := by simpa [isResume] using h
  obtain ⟨hf, _, hra, ho⟩ := served_resume q (serveLines q fd pre).1 i hr
  rw [serveLines_append, serveLines_cons]
  simp only [serveLines, append_nil, savesRestored_append, ho]
  refine ⟨hf, ?_, savesRestored_of_none hra⟩
  cases hq : rconConfigured q with
  | true => exact .inr rfl
  | false => exact .inl (savesRestored_of_none (serveLines_unconfigured q fd pre hq))

theorem serveLines_saving (q : Option QuiesceConfig) (ins : List Input) :
    SavesRestored (serveLines q none ins).2 ↔ NoOpenSaveOff q ins := by
  have hs : ins.rdropWhile (fun i => !isResume i) ++ sinceResume ins = ins :=
    rdropWhile_append_rtakeWhile
  have ha : ∀ i ∈ sinceResume ins, isResume i = false := by
    intro i hi
    simpa using mem_rtakeWhile_imp hi
  obtain ⟨ho, hn⟩ := serveLines_open q (sinceResume ins) ha
  have hb : (serveLines q none (ins.rdropWhile (fun i => !isResume i))).1 = none ∧
      SavesRestored (serveLines q none (ins.rdropWhile (fun i => !isResume i))).2 := by
    rcases eq_nil_or_concat (ins.rdropWhile (fun i => !isResume i)) with hni | ⟨pre, i, hc⟩
    · rw [hni]
      exact ⟨rfl, savesRestored_nil⟩
    have hl := rdropWhile_last_not (fun i => !isResume i) ins (by simp [hc])
    simp only [hc, concat_eq_append, getLast_append_singleton] at hl
    rw [hc, concat_eq_append]
    exact serveLines_resumed q none pre i (by simpa using hl)
  conv => lhs; rw [← hs, serveLines_append, hb.1]
  simp only [savesRestored_append, hb.2, true_or, true_and, ho]
  rfl

theorem finishConn_neutral (fd : Option Fd) (o : Oracle) :
    Neutral ((finishConn fd).answerWith o).2 := by
  cases fd <;> simp [finishConn, fsThaw, close, Neutral, ranSaveOff, issuesSaveOn]

theorem finishConn_thaws (fd : Option Fd) (o : Oracle) :
    frozenAfter fd.isSome ((finishConn fd).answerWith o).2 = false := by
  cases fd <;> simp [finishConn, fsThaw, close, frozenAfter]

/-- However a connection ends, the disk is thawed. -/
theorem handleSnapshotConn_thawed (q : Option QuiesceConfig) (ins : List Input) (last : Oracle) :
    frozenAfter false (handleSnapshotConn q ins last) = false := by
  have hr := serveLines_freeze q none ins
  simp only [Option.isSome_none] at hr
  rw [handleSnapshotConn, frozenAfter_append, hr, finishConn_thaws]

theorem handleSnapshotConn_undone (q : Option QuiesceConfig) (ins : List Input) (last : Oracle) :
    Undone (handleSnapshotConn q ins last) ↔ NoOpenSaveOff q ins := by
  have hn := finishConn_neutral (serveLines q none ins).1 last
  have hs : SavesRestored (handleSnapshotConn q ins last) ↔ NoOpenSaveOff q ins := by
    rw [handleSnapshotConn, savesRestored_append]
    simp only [hn.no_saveOn, or_false, hn.savesRestored, and_true]
    exact serveLines_saving q ins
  constructor
  · exact fun h => hs.mp h.saving
  · exact fun h => ⟨handleSnapshotConn_thawed q ins last, hs.mpr h⟩

end Craftling.Guest.Quiesce

import Craftling.Squashfs.MapOrder

namespace Craftling.Squashfs
open Effects Bool Session

def Err.isArgument : Err → Bool
  | .invalidPath => true
  | .duplicate _ => true
  | .hardlinkTarget => true
  | .failed text => text == "squashfs: symlink target must be non-empty"
  | _ => false

def Call.isCreate : Call → Bool
  | .write _ _ => false
  | _ => true

def refused : Act × Report → Bool
  | (.call c, r) => c.isCreate && r.err.any Err.isArgument
  | (.close, _) => false

def remaining (log : List (Act × Report)) : List (Act × Report) := log.filter fun x => !refused x

section Refusals

variable (faults : Faults)

def Session.LeavesOpen (s : Session) : List Call → Prop
  | [] => True
  | c :: calls =>
    (refused (.call c, (s.call faults c).1) = true → ∀ fw ∈ s.writer.curFile, ∀ data,
      Call.write fw.path data ∉ calls) ∧ (s.call faults c).2.LeavesOpen calls

/-- The first session is ahead of the second by the end of its last file, which nobody will write
to. -/
structure Ahead (rest : List Call) (s t : Session) : Prop where
  opened : t.writer.closed = false
  flushed : t.flushCurFile faults = (none, s)
  left : ∀ fw ∈ t.writer.curFile, ∀ data, Call.write fw.path data ∉ rest

end Refusals

section Steps

variable {faults : Faults} {s s' t : Session} {c : Call} {rest : List Call}

theorem Session.emitBlock_not_argument (h : s.emitBlock faults p buf = (some e, s')) :
    e.isArgument = false := by
  unfold Session.emitBlock at h
  split at h
  · cases h
  split at h
  · cases h
    rfl
  split at h
  · cases h
    rfl
  · cases h

theorem Session.flushCurFile_not_argument (h : s.flushCurFile faults = (some e, s')) :
    e.isArgument = false := by
  unfold Session.flushCurFile at h
  split at h
  · cases h
  split at h
  · rename_i he
    cases h
    exact emitBlock_not_argument he
  · cases h

theorem Session.flushCurFile_idle (h : s.flushCurFile faults = (none, s')) :
    s'.writer.curFile = none ∧ s'.writer.closed = s.writer.closed := by
  unfold Session.flushCurFile at h
  split at h
  · rename_i hi
    cases h
    exact ⟨hi, rfl⟩
  split at h
  · cases h
  rename_i s1 he
  cases h
  exact ⟨rfl, (emitBlock_same (emitBlock_ok he)).2⟩

theorem Session.flushCurFile_of_idle (h : s.writer.curFile = none) :
    s.flushCurFile faults = (none, s) := by
  rw [Session.flushCurFile, h]

theorem Session.beginEntry_refused (h : s.beginEntry faults p = (some e, s'))
    (he : e.isArgument = true) : s.writer.closed = false ∧ s.flushCurFile faults = (none, s') := by
  unfold Session.beginEntry at h
  split at h
  · cases h
    cases he
  rename_i ho
  refine ⟨eq_false_of_not_eq_true ho, ?_⟩
  split at h
  · rename_i hf
    cases h
    rw [flushCurFile_not_argument hf] at he
    cases he
  rename_i s1 hf
  split at h
  · cases h
    exact hf
  split at h
  · cases h
    exact hf
  · cases h

theorem Session.beginEntry_flushed (h : s.beginEntry faults p = (none, s')) :
    s.writer.closed = false ∧ s.flushCurFile faults = (none, s') := by
  unfold Session.beginEntry at h
  split at h
  · cases h
  rename_i ho
  refine ⟨eq_false_of_not_eq_true ho, ?_⟩
  split at h
  · cases h
  rename_i s1 hf
  split at h
  · cases h
  split at h
  · cases h
  · cases h
    exact hf

theorem Session.create_refused (h : s.create faults p refusal make = (some e, s'))
    (he : e.isArgument = true) : s.writer.closed = false ∧ s.flushCurFile faults = (none, s') := by
  unfold Session.create at h
  split at h
  · rename_i hb
    cases h
    exact beginEntry_refused hb he
  rename_i s1 hb
  cases refusal with
  | none => cases h
  | some e' =>
    cases h
    exact beginEntry_flushed hb

theorem Session.createHardlink_refused (h : s.createHardlink faults p target = (some e, s'))
    (he : e.isArgument = true) : s.writer.closed = false ∧ s.flushCurFile faults = (none, s') := by
  unfold Session.createHardlink at h
  split at h
  · cases h
    cases he
  rename_i ho
  refine ⟨eq_false_of_not_eq_true ho, ?_⟩
  split at h
  · rename_i hf
    cases h
    rw [flushCurFile_not_argument hf] at he
    cases he
  rename_i s1 hf
  split at h
  · cases h
    exact hf
  · cases h
    exact hf
  split at h
  · cases h
    exact hf
  split at h
  · cases h
  · cases h
    exact hf

theorem Session.call_refused (h : refused (.call c, (s.call faults c).1) = true) :
    s.writer.closed = false ∧ s.flushCurFile faults = (none, (s.call faults c).2) := by
  have hc : c.isCreate = true := (and_eq_true_iff.mp h).1
  have her : (s.call faults c).1.err.any Err.isArgument = true := (and_eq_true_iff.mp h).2
  obtain ⟨e, hs, he⟩ := (Option.any_eq_true ..).mp her
  cases c with
  | write p data => cases hc
  | hardlink p target => exact createHardlink_refused (Prod.ext hs rfl) he
  | _ => exact create_refused (Prod.ext hs rfl) he

section

variable (h : Ahead faults rest s t)
include h

theorem Ahead.idle : s.writer.curFile = none ∧ s.writer.closed = false := by
  obtain ⟨hi, hc⟩ := flushCurFile_idle h.flushed
  exact ⟨hi, hc.trans h.opened⟩

theorem Ahead.beginEntry_eq (p : Bytes) : s.beginEntry faults p = t.beginEntry faults p := by
  obtain ⟨hi, hc⟩ := h.idle
  unfold Session.beginEntry
  rw [hc, h.opened, h.flushed, flushCurFile_of_idle hi]
  rfl

theorem Ahead.createHardlink_eq (p target : Bytes) :
    s.createHardlink faults p target = t.createHardlink faults p target := by
  obtain ⟨hi, hc⟩ := h.idle
  unfold Session.createHardlink
  rw [hc, h.opened, h.flushed, flushCurFile_of_idle hi]
  rfl

theorem Ahead.create_eq (hc : c.isCreate = true) : s.call faults c = t.call faults c := by
  have hcr (p : Bytes) (refusal : Option Err) (make : Writer → Writer) :
      s.create faults p refusal make = t.create faults p refusal make := by
    unfold Session.create
    rw [h.beginEntry_eq p]
  cases c with
  | write p data => cases hc
  | hardlink p target =>
    simp only [Session.call]
    rw [h.createHardlink_eq p target]
  | _ =>
    simp only [Session.call]
    rw [hcr]

end

theorem Session.write_stale (h : ∀ fw ∈ s.writer.curFile, fw.path ≠ p) (data : Bytes) :
    s.write faults p data = (0, some .staleEntry, s) := by
  unfold Session.write
  cases hc : s.writer.curFile with
  | none => rfl
  | some fw => exact if_pos (h fw hc)

theorem Ahead.write_eq (h : Ahead faults (.write p data :: rest) s t) :
    s.write faults p data = (0, some .staleEntry, s) ∧
      t.write faults p data = (0, some .staleEntry, t) := by
  refine ⟨write_stale ?_ data, write_stale ?_ data⟩
  · rw [h.idle.1]
    nofun
  · intro fw hf he
    exact h.left fw hf data (he ▸ List.mem_cons_self ..)

theorem Ahead.tail (h : Ahead faults (c :: rest) s t) : Ahead faults rest s t :=
  ⟨h.opened, h.flushed, fun fw hf data hi => h.left fw hf data (.tail _ hi)⟩

def Tracks (faults : Faults) (rest : List Call) (s t : Session) : Prop :=
  s = t ∨ Ahead faults rest s t

theorem Tracks.refused (h : Tracks faults (c :: rest) s t)
    (hc : refused (.call c, (s.call faults c).1) = true)
    (hl : ∀ fw ∈ s.writer.curFile, ∀ data, Call.write fw.path data ∉ rest) :
    Tracks faults rest (s.call faults c).2 t := by
  obtain ⟨ho, hf⟩ := call_refused hc
  rcases h with rfl | h
  · exact .inr ⟨ho, hf, hl⟩
  have hs := hf.symm.trans (flushCurFile_of_idle h.idle.1)
  rw [(Prod.mk.inj hs).2]
  exact .inr h.tail

theorem Tracks.call (h : Tracks faults (c :: rest) s t) :
    (t.call faults c).1 = (s.call faults c).1 ∧
      Tracks faults rest (s.call faults c).2 (t.call faults c).2 := by
  rcases h with rfl | h
  · exact ⟨rfl, .inl rfl⟩
  by_cases hc : c.isCreate = true
  · rw [h.create_eq hc]
    exact ⟨rfl, .inl rfl⟩
  cases c with
  | write p data =>
    obtain ⟨hs, ht⟩ := h.write_eq
    simp only [Session.call, hs, ht]
    exact ⟨trivial, .inr h.tail⟩
  | _ => exact absurd rfl hc

theorem Tracks.run (h : Tracks faults calls s t) (hl : s.LeavesOpen faults calls) :
    (t.run faults ((remaining (s.run faults (calls.map Act.call)).1).map Prod.fst)).1 =
        remaining (s.run faults (calls.map Act.call)).1 ∧
      Tracks faults [] (s.run faults (calls.map Act.call)).2
        (t.run faults ((remaining (s.run faults (calls.map Act.call)).1).map Prod.fst)).2 := by
  induction calls generalizing s t with
  | nil => exact ⟨rfl, h⟩
  | cons c calls ih =>
    obtain ⟨hh, hr⟩ := hl
    rw [List.map_cons, Session.run]
    by_cases hc : Squashfs.refused (.call c, (s.call faults c).1) = true
    · have hs : remaining ((Act.call c, (s.call faults c).1) ::
          ((s.call faults c).2.run faults (calls.map Act.call)).1) =
          remaining ((s.call faults c).2.run faults (calls.map Act.call)).1 :=
        List.filter_cons_of_neg (by simp [hc])
      simp only [Session.act, hs]
      exact ih (h.refused hc (hh hc)) hr
    · have hk : remaining ((Act.call c, (s.call faults c).1) ::
          ((s.call faults c).2.run faults (calls.map Act.call)).1) =
          (Act.call c, (s.call faults c).1) ::
            remaining ((s.call faults c).2.run faults (calls.map Act.call)).1 :=
        List.filter_cons_of_pos (by simp [hc])
      obtain ⟨hre, hn⟩ := h.call
      obtain ⟨hlo, he⟩ := ih hn hr
      simp only [Session.act, hk, List.map_cons, Session.run]
      refine ⟨?_, he⟩
      rw [hlo, hre]

theorem Tracks.close_eq (h : Tracks faults [] s t) : s.close faults = t.close faults := by
  rcases h with rfl | h
  · rfl
  obtain ⟨hi, hc⟩ := h.idle
  unfold Session.close Session.closeWith
  rw [hc, h.opened, h.flushed, flushCurFile_of_idle hi]
  rfl

theorem Tracks.sound (h : Tracks faults [] s t) (hs : SoundEntries s.writer.entries) :
    SoundEntries t.writer.entries := by
  rcases h with rfl | h
  · exact hs
  have hsh := flushCurFile_shapes faults t
  rw [h.flushed] at hsh
  exact hs.of_shapes hsh.symm

end Steps

/-- Calls that are refused might as well not have been made: the others report the same without
them, and the image is the same. -/
theorem refused_calls_leave_no_trace (cfg : Config) (faults : Faults) (calls : List Call)
    (hleft : (newSession cfg).LeavesOpen faults calls) {o o' : MapOrders}
    (ho : o.Valid ((newSession cfg).run faults (calls.map Act.call)).2.writer.keys)
    (ho' : o'.Valid ((newSession cfg).run faults ((remaining ((newSession cfg).run faults
      (calls.map Act.call)).1).map Prod.fst)).2.writer.keys) :
    ((newSession cfg).run faults ((remaining ((newSession cfg).run faults
        (calls.map Act.call)).1).map Prod.fst)).1 =
      remaining ((newSession cfg).run faults (calls.map Act.call)).1 ∧
    ((newSession cfg).run faults ((remaining ((newSession cfg).run faults
        (calls.map Act.call)).1).map Prod.fst)).2.closeIn faults o' =
      ((newSession cfg).run faults (calls.map Act.call)).2.closeIn faults o := by
  have hstart : Tracks faults calls (newSession cfg) (newSession cfg) := .inl rfl
  obtain ⟨hlog, hend⟩ := hstart.run hleft
  have hsound := run_sound faults (newSession_sound cfg) calls
  refine ⟨hlog, ?_⟩
  rw [closeIn_eq hsound ho, closeIn_eq (hend.sound hsound) ho', hend.close_eq]

/-- A file with two bytes, a path without a slash, the file's path once more, a directory. -/
def refusedCalls : List Call :=
  [.file (text ['/', 'f']) .zero, .write (text ['/', 'f']) [1, 2], .dir (text ['d']) .zero,
    .fifo (text ['/', 'f']) .zero, .dir (text ['/', 'd']) .zero]

def refusedOrders : MapOrders :=
  let keys := [[slash], text ['/', 'f'], text ['/', 'd']]
  ⟨keys, keys, keys⟩

theorem two_refused_no_trace :
    (remaining ((newSession rawConfig).run (fun _ => none) (refusedCalls.map Act.call)).1).length = 3 ∧
    ((newSession rawConfig).run (fun _ => none) ((remaining ((newSession rawConfig).run (fun _ => none)
        (refusedCalls.map Act.call)).1).map Prod.fst)).2.closeIn (fun _ => none) refusedOrders =
      ((newSession rawConfig).run (fun _ => none) (refusedCalls.map Act.call)).2.closeIn (fun _ => none)
        refusedOrders := by
  have hkept : (remaining ((newSession rawConfig).run (fun _ => none)
      (refusedCalls.map Act.call)).1).length = 3 := by decide +kernel
  have hvalid : refusedOrders.Valid [[slash], text ['/', 'f'], text ['/', 'd']] :=
    ⟨.refl _, .refl _, .refl _⟩
  have hkeys : ((newSession rawConfig).run (fun _ => none) (refusedCalls.map Act.call)).2.writer.keys =
      [[slash], text ['/', 'f'], text ['/', 'd']] := by decide +kernel
  have hkeys' : ((newSession rawConfig).run (fun _ => none) ((remaining ((newSession rawConfig).run
      (fun _ => none) (refusedCalls.map Act.call)).1).map Prod.fst)).2.writer.keys =
      [[slash], text ['/', 'f'], text ['/', 'd']] := by decide +kernel
  refine ⟨hkept, (refused_calls_leave_no_trace rawConfig (fun _ => none) refusedCalls ?_
    (hkeys.symm ▸ hvalid) (hkeys'.symm ▸ hvalid)).2⟩
  -- The first write is over before the first call that is refused.
  refine ⟨nofun, nofun, fun _ fw _ data => ?_, fun _ fw _ data => ?_, fun _ fw _ data => ?_, trivial⟩
  · simp
  · simp
  · simp

end Craftling.Squashfs

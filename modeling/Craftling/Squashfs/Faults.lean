import Craftling.Squashfs.Chunks

namespace Craftling.Squashfs
open Effects List

/-- For each write to the output, one after the other, whether it fails, and how many of its bytes
are written all the same. -/
abbrev Faults := Nat → Option Nat

/-- A writer, and how often it has written to its output. -/
structure Session where
  writer : Writer
  writes : Nat

def newSession (cfg : Config) : Session := ⟨newWriter cfg, 0⟩

section Calls

variable (faults : Faults)

def Session.emitBlock (p : Bytes) (s : Session) (buf : Bytes) : Option Err × Session :=
  if buf = [] then (none, s)
  else
    match pack s.writer.cfg.compressor (.data s.writer.out.length) buf with
    | .error e => (some (.within "squashfs: compress data block" e), s)
    | .ok (stored, raw) =>
      match faults s.writes with
      | some k =>
        (some (.failed "squashfs: write data block"),
          ⟨{ s.writer with out := s.writer.out ++ stored.take k }, s.writes + 1⟩)
      | none =>
        (none, ⟨{ s.writer.update p (Entry.addBlock (sizeWord stored raw)) with
          out := s.writer.out ++ stored }, s.writes + 1⟩)

def Session.flushCurFile (s : Session) : Option Err × Session :=
  match s.writer.curFile with
  | none => (none, s)
  | some fw =>
    match s.emitBlock faults fw.path fw.buf with
    | (some e, s) => (some e, s)
    | (none, s) => (none, { s with writer := { s.writer with curFile := none } })

/-- The loop of `Write`: how much has been taken, and what the buffer holds then. A buffer that is
full from before is tried again before anything is taken. -/
def writeLoop (p : Bytes) (s : Session) (buf data : Bytes) (written : Nat) :
    Nat × Option Err × Session × Bytes :=
  if data = [] ∨ s.writer.cfg.blockSize = 0 then (written, none, s, buf)
  else if (buf ++ data.take (s.writer.cfg.blockSize - buf.length)).length = s.writer.cfg.blockSize then
    match s.emitBlock faults p (buf ++ data.take (s.writer.cfg.blockSize - buf.length)) with
    | (some e, s') =>
      (written + (data.take (s.writer.cfg.blockSize - buf.length)).length, some e, s',
        buf ++ data.take (s.writer.cfg.blockSize - buf.length))
    | (none, s') =>
      writeLoop p s' [] (data.drop (s.writer.cfg.blockSize - buf.length))
        (written + (data.take (s.writer.cfg.blockSize - buf.length)).length)
  else (written + data.length, none, s, buf ++ data)
termination_by 2 * data.length + min 1 buf.length
decreasing_by
  rename_i hmore hfull
  rw [length_append, length_take] at hfull
  have hdata : 0 < data.length := length_pos_iff.mpr fun h => hmore (.inl h)
  have hblock : s.writer.cfg.blockSize ≠ 0 := fun h => hmore (.inr h)
  rw [length_drop, length_nil]
  omega

def Session.setBuf (s : Session) (p buf : Bytes) : Session :=
  { s with writer := { s.writer with curFile := some ⟨p, buf⟩ } }

/-- How many bytes were taken is reported with the error. Only a write without one adds them to the
size of the file. -/
def Session.write (s : Session) (p data : Bytes) : Nat × Option Err × Session :=
  match s.writer.curFile with
  | none => (0, some .staleEntry, s)
  | some fw =>
    if fw.path ≠ p then (0, some .staleEntry, s)
    else if s.writer.closed then (0, some .closed, s)
    else
      match writeLoop faults p s fw.buf data 0 with
      | (n, some e, s, buf) => (n, some e, s.setBuf p buf)
      | (n, none, s, buf) =>
        (n, none, ({ s with writer := s.writer.update p (Entry.addSize n) } : Session).setBuf p buf)

/-- What is behind the flush has been flushed, even if the path is refused. -/
def Session.beginEntry (s : Session) (p : Bytes) : Option Err × Session :=
  if s.writer.closed then (some .closed, s)
  else
    match s.flushCurFile faults with
    | (some e, s) => (some e, s)
    | (none, s) =>
      match validatePath p with
      | .error e => (some e, s)
      | .ok _ => if (s.writer.find p).isSome then (some (.duplicate p), s) else (none, s)

/-- An entry is created behind `beginEntry`, unless `refused` says why not. -/
def Session.create (s : Session) (p : Bytes) (refused : Option Err) (make : Writer → Writer) :
    Option Err × Session :=
  match s.beginEntry faults p with
  | (some e, s) => (some e, s)
  | (none, s) =>
    match refused with
    | some e => (some e, s)
    | none => (none, { s with writer := make s.writer })

def Session.createHardlink (s : Session) (p target : Bytes) : Option Err × Session :=
  if s.writer.closed then (some .closed, s)
  else
    match s.flushCurFile faults with
    | (some e, s) => (some e, s)
    | (none, s) =>
      match validatePath p, validatePath target with
      | .error e, _ => (some e, s)
      | .ok _, .error e => (some e, s)
      | .ok _, .ok _ =>
        if (s.writer.find p).isSome then (some (.duplicate p), s)
        else
          match s.writer.find target with
          | some ⟨_, .file .., _⟩ =>
            (none, { s with writer := s.writer.add ⟨p, .hardlink target, .zero⟩ })
          | _ => (some .hardlinkTarget, s)

structure Report where
  written : Nat
  err : Option Err

def Session.call (s : Session) : Call → Report × Session
  | .write p data => (⟨(s.write faults p data).1, (s.write faults p data).2.1⟩, (s.write faults p data).2.2)
  | .file p a => done (s.create faults p none fun w =>
      { w.add ⟨p, .file w.out.length [] 0, a⟩ with curFile := some ⟨p, []⟩ })
  | .dir p a => done (s.create faults p none (·.add ⟨p, .dir, a⟩))
  | .symlink p a target =>
    done (s.create faults p
      (if target = [] then some (.failed "squashfs: symlink target must be non-empty") else none)
      (·.add ⟨p, .symlink target, a⟩))
  | .hardlink p target => done (s.createHardlink faults p target)
  | .charDevice p a major minor => done (s.create faults p none (·.add ⟨p, .charDev major minor, a⟩))
  | .blockDevice p a major minor => done (s.create faults p none (·.add ⟨p, .blockDev major minor, a⟩))
  | .fifo p a => done (s.create faults p none (·.add ⟨p, .fifo, a⟩))
  | .socket p a => done (s.create faults p none (·.add ⟨p, .socket, a⟩))
where
  done (x : Option Err × Session) : Report × Session := (⟨0, x.1⟩, x.2)

/-- `Close` with what it makes of the entries. The writes of a table count as one: the first that
fails ends it. A writer that has got past its last block stays closed. -/
def Session.closeWith (image : Writer → Except Err Bytes) (s : Session) : Option Err × Session :=
  if s.writer.closed then (some .closed, s)
  else
    match s.flushCurFile faults with
    | (some e, s) => (some e, s)
    | (none, s) =>
      match image s.writer with
      | .error e => (some e, { s with writer := { s.writer with closed := true } })
      | .ok img =>
        if ∃ i ∈ List.range 6, (faults (s.writes + i)).isSome then
          (some (.failed "squashfs: emit"), { s with writer := { s.writer with closed := true } })
        else (none, ⟨{ s.writer with closed := true, out := img }, s.writes + 6⟩)

def Session.close (s : Session) : Option Err × Session :=
  s.closeWith faults fun w => w.layout.map w.image

/-- What can be asked of a session: the calls of a writer, and to close it. -/
inductive Act where
  | call (c : Call)
  | close

def Session.act (s : Session) : Act → Report × Session
  | .call c => s.call faults c
  | .close => (⟨0, (s.close faults).1⟩, (s.close faults).2)

def Session.run (s : Session) : List Act → List (Act × Report) × Session
  | [] => ([], s)
  | a :: acts =>
    ((a, (s.act faults a).1) :: ((s.act faults a).2.run acts).1, ((s.act faults a).2.run acts).2)

end Calls

section Steps

variable {faults : Faults} {s s' : Session} {buf buf' data p target : Bytes} {c : Call} {e : Err}
    {n written : Nat} {refused : Option Err}

theorem Session.emitBlock_ok (h : s.emitBlock faults p buf = (none, s')) :
    Squashfs.emitBlock p s.writer buf = .ok s'.writer := by
  unfold Session.emitBlock at h
  split at h
  · rename_i hb
    cases h
    rw [Squashfs.emitBlock, if_pos hb]
  rename_i hb
  split at h
  · cases h
  rename_i hp
  split at h
  · cases h
  · cases h
    rw [Squashfs.emitBlock, if_neg hb, hp]

theorem Session.flushCurFile_ok (h : s.flushCurFile faults = (none, s')) :
    Squashfs.flushCurFile s.writer = .ok s'.writer := by
  unfold Session.flushCurFile at h
  split at h
  · rename_i hi
    cases h
    rw [Squashfs.flushCurFile, hi]
  rename_i fw hc
  split at h
  · cases h
  rename_i s1 he
  cases h
  rw [Squashfs.flushCurFile, hc]
  exact bind_eq_ok.mpr ⟨_, Session.emitBlock_ok he, rfl⟩

theorem writeLoop_ok (hb : buf.length < s.writer.cfg.blockSize)
    (h : writeLoop faults p s buf data written = (n, none, s', buf')) :
    feed s.writer.cfg.blockSize (Squashfs.emitBlock p) s.writer buf data = .ok (s'.writer, buf') ∧
      n = written + data.length := by
  fun_induction writeLoop faults p s buf data written with
  | case1 s buf data written he =>
    cases h
    have hd : data = [] := he.resolve_right (by omega)
    rw [feed, if_pos (.inl hd), hd]
    exact ⟨rfl, rfl⟩
  | case2 => cases h
  | case3 s buf data written hm hf s1 hem ih =>
    have ho := Session.emitBlock_ok hem
    have hc := (emitBlock_same ho).1
    obtain ⟨hfe, hn⟩ := ih (hc ▸ Nat.lt_of_le_of_lt (Nat.zero_le _) hb) h
    have hm' : ¬(data = [] ∨ s.writer.cfg.blockSize ≤ buf.length) := by
      rintro (hni | hl)
      · exact hm (.inl hni)
      · omega
    refine ⟨?_, ?_⟩
    · rw [feed, if_neg hm', if_pos hf, ← hc]
      exact bind_eq_ok.mpr ⟨_, hc ▸ ho, hc ▸ hfe⟩
    · rw [hn, length_take, length_drop]
      omega
  | case4 s buf data written hm hf =>
    cases h
    refine ⟨?_, rfl⟩
    have hs : (buf ++ data).length < s'.writer.cfg.blockSize := by
      rw [length_append, length_take] at hf
      rw [length_append]
      omega
    have hsl : feed s'.writer.cfg.blockSize (Squashfs.emitBlock p) s'.writer buf (data ++ []) = _ :=
      feed_slide hs []
    rw [append_nil] at hsl
    rw [hsl, feed, if_pos (.inl rfl)]

theorem Session.write_ok (hr : ∀ fw ∈ s.writer.curFile, fw.buf.length < s.writer.cfg.blockSize)
    (h : s.write faults p data = (n, none, s')) :
    s.writer.write p data = .ok s'.writer ∧ n = data.length := by
  unfold Session.write at h
  split at h
  · cases h
  rename_i fw hc
  split at h
  · cases h
  rename_i hp
  split at h
  · cases h
  rename_i ho
  split at h
  · cases h
  rename_i n' s1 buf hl
  cases h
  obtain ⟨hf, hn⟩ := writeLoop_ok (hr fw hc) hl
  rw [Nat.zero_add] at hn
  refine ⟨?_, hn⟩
  unfold Writer.write
  rw [hc]
  dsimp only
  rw [if_neg hp, if_neg ho]
  exact bind_eq_ok.mpr ⟨_, hf, by rw [hn]; rfl⟩

theorem Session.beginEntry_ok (h : s.beginEntry faults p = (none, s')) :
    Squashfs.beginEntry s.writer p = .ok s'.writer := by
  unfold Session.beginEntry at h
  unfold Squashfs.beginEntry
  split at h
  · cases h
  rename_i ho
  rw [if_neg ho]
  split at h
  · cases h
  rename_i s1 hf
  refine bind_eq_ok.mpr ⟨_, Session.flushCurFile_ok hf, ?_⟩
  split at h
  · cases h
  rename_i hv
  refine bind_eq_ok.mpr ⟨_, hv, ?_⟩
  split at h
  · cases h
  rename_i hfi
  cases h
  exact if_neg hfi

theorem beginEntry_flush (h : Squashfs.beginEntry w p = .ok w') :
    Squashfs.flushCurFile w = .ok w' := by
  unfold Squashfs.beginEntry at h
  split at h
  · cases h
  obtain ⟨w1, hf, h⟩ := bind_eq_ok.mp h
  obtain ⟨_, _, h⟩ := bind_eq_ok.mp h
  split at h
  · cases h
  · cases h
    exact hf

theorem Session.create_ok (h : s.create faults p refused make = (none, s')) :
    refused = none ∧ ∃ w, Squashfs.beginEntry s.writer p = .ok w ∧ s'.writer = make w := by
  unfold Session.create at h
  split at h
  · cases h
  rename_i s1 hb
  cases refused with
  | some e => cases h
  | none =>
    cases h
    exact ⟨rfl, s1.writer, Session.beginEntry_ok hb, rfl⟩

theorem Session.createHardlink_ok (h : s.createHardlink faults p target = (none, s')) :
    Squashfs.createHardlink s.writer p target = .ok s'.writer := by
  unfold Session.createHardlink at h
  split at h
  · cases h
  rename_i ho
  split at h
  · cases h
  rename_i s1 hf
  split at h
  · cases h
  · cases h
  rename_i hv hv'
  split at h
  · cases h
  rename_i hfi
  split at h
  · rename_i ht
    cases h
    rw [Squashfs.createHardlink, if_neg ho]
    refine bind_eq_ok.mpr ⟨_, Session.flushCurFile_ok hf,
      bind_eq_ok.mpr ⟨_, hv, bind_eq_ok.mpr ⟨_, hv', ?_⟩⟩⟩
    rw [if_neg hfi, ht]
  · cases h

theorem Session.call_ok (hro : ∀ fw ∈ s.writer.curFile, fw.buf.length < s.writer.cfg.blockSize)
    (h : s.call faults c = (r, s')) (hr : r.err = none) :
    s.writer.call c = .ok s'.writer ∧ ∀ p data, c = .write p data → r.written = data.length := by
  have created {p : Bytes} {make : Writer → Writer} {x : Option Err × Session}
      (hx : x = s.create faults p none make) (hd : Session.call.done x = (r, s')) :
      ∃ w, Squashfs.beginEntry s.writer p = .ok w ∧ s'.writer = make w := by
    cases hd
    obtain ⟨err, s'⟩ := x
    obtain rfl : err = none := hr
    exact (Session.create_ok hx.symm).2
  cases c with
  | write p data =>
    cases h
    obtain ⟨ho, hn⟩ := Session.write_ok hro (Prod.ext rfl (Prod.ext hr rfl))
    exact ⟨ho, fun q d he => by cases he; exact hn⟩
  | file p a | dir p a =>
    obtain ⟨w, hb, he⟩ := created rfl h
    exact ⟨bind_eq_ok.mpr ⟨w, hb, by rw [he]; rfl⟩, nofun⟩
  | symlink p a target =>
    cases h
    obtain ⟨hre, w, hb, he⟩ := Session.create_ok (Prod.ext hr rfl)
    refine ⟨bind_eq_ok.mpr ⟨w, hb, ?_⟩, nofun⟩
    split at hre
    · cases hre
    rename_i ht
    rw [if_neg ht]
    exact congrArg _ he.symm
  | hardlink p target =>
    cases h
    exact ⟨Session.createHardlink_ok (Prod.ext hr rfl), nofun⟩
  | charDevice p a major minor | blockDevice p a major minor | fifo p a | socket p a =>
    obtain ⟨w, hb, he⟩ := created rfl h
    exact ⟨bind_eq_ok.mpr ⟨w, hb, by rw [he]; rfl⟩, nofun⟩

/-- Of the output writes from one number up to another, those that fail have written nothing. -/
def Faults.CleanIn (faults : Faults) (first next : Nat) : Prop :=
  ∀ i k, first ≤ i → i < next → faults i = some k → k = 0

/-- What a call that fails may leave: all as it was, or the last file finished. -/
def Writer.Keeps (w w' : Writer) : Prop := w' = w ∨ Squashfs.flushCurFile w = .ok w'

theorem Session.emitBlock_err (h : s.emitBlock faults p buf = (some e, s'))
    (hc : faults.CleanIn s.writes s'.writes) : s'.writer = s.writer := by
  unfold Session.emitBlock at h
  split at h
  · cases h
  split at h
  · cases h
    rfl
  split at h
  · rename_i k hk
    cases h
    rw [hc _ k (Nat.le_refl _) (Nat.lt_succ_self _) hk, take_zero, append_nil]
  · cases h

theorem Session.flushCurFile_err (h : s.flushCurFile faults = (some e, s'))
    (hc : faults.CleanIn s.writes s'.writes) : s'.writer = s.writer := by
  unfold Session.flushCurFile at h
  split at h
  · cases h
  split at h
  · rename_i he
    cases h
    exact Session.emitBlock_err he hc
  · cases h

theorem writeLoop_err (hb : buf.length < s.writer.cfg.blockSize)
    (h : writeLoop faults p s buf data written = (n, some e, s', buf')) : written < n := by
  fun_induction writeLoop faults p s buf data written with
  | case1 => cases h
  | case2 s buf data written hm hf e1 s1 he =>
    cases h
    have hd : 0 < data.length := length_pos_iff.mpr fun hn => hm (.inl hn)
    rw [length_take]
    omega
  | case3 s buf data written hm hf s1 he ih =>
    have hc := (emitBlock_same (Session.emitBlock_ok he)).1
    have hl := ih (hc ▸ Nat.lt_of_le_of_lt (Nat.zero_le _) hb) h
    omega
  | case4 => cases h

theorem Session.write_err (hr : ∀ fw ∈ s.writer.curFile, fw.buf.length < s.writer.cfg.blockSize)
    (h : s.write faults p data = (0, some e, s')) : s' = s := by
  unfold Session.write at h
  split at h
  · cases h
    rfl
  rename_i fw hc
  split at h
  · cases h
    rfl
  split at h
  · cases h
    rfl
  split at h
  · rename_i hl
    have hlt := writeLoop_err (hr fw hc) hl
    cases h
    exact absurd hlt (Nat.lt_irrefl 0)
  · cases h

theorem Session.beginEntry_err (h : s.beginEntry faults p = (some e, s'))
    (hc : faults.CleanIn s.writes s'.writes) : s.writer.Keeps s'.writer := by
  unfold Session.beginEntry at h
  split at h
  · cases h
    exact .inl rfl
  split at h
  · rename_i hf
    cases h
    exact .inl (Session.flushCurFile_err hf hc)
  rename_i s1 hf
  have hk : s.writer.Keeps s1.writer := .inr (Session.flushCurFile_ok hf)
  split at h
  · cases h
    exact hk
  split at h
  · cases h
    exact hk
  · cases h

theorem Session.create_err (h : s.create faults p refused make = (some e, s'))
    (hc : faults.CleanIn s.writes s'.writes) : s.writer.Keeps s'.writer := by
  unfold Session.create at h
  split at h
  · rename_i hb
    cases h
    exact Session.beginEntry_err hb hc
  rename_i s1 hb
  cases refused with
  | none => cases h
  | some e' =>
    cases h
    have ho := Session.beginEntry_ok hb
    exact .inr (beginEntry_flush ho)

theorem Session.createHardlink_err (h : s.createHardlink faults p target = (some e, s'))
    (hc : faults.CleanIn s.writes s'.writes) : s.writer.Keeps s'.writer := by
  unfold Session.createHardlink at h
  split at h
  · cases h
    exact .inl rfl
  split at h
  · rename_i hf
    cases h
    exact .inl (Session.flushCurFile_err hf hc)
  rename_i s1 hf
  have hk : s.writer.Keeps s1.writer := .inr (Session.flushCurFile_ok hf)
  split at h
  · cases h
    exact hk
  · cases h
    exact hk
  split at h
  · cases h
    exact hk
  split at h
  · cases h
  · cases h
    exact hk

theorem Session.call_err (hc : faults.CleanIn s.writes s'.writes)
    (hro : ∀ fw ∈ s.writer.curFile, fw.buf.length < s.writer.cfg.blockSize)
    (h : s.call faults c = (r, s')) (hr : r.err ≠ none) (hn : r.written = 0) :
    s.writer.Keeps s'.writer := by
  obtain ⟨e, he⟩ := Option.ne_none_iff_exists'.mp hr
  cases c with
  | write p data =>
    cases h
    have hs : (s.write faults p data).2.2 = s :=
      Session.write_err hro (Prod.ext hn (Prod.ext he rfl))
    exact .inl (congrArg Session.writer hs)
  | hardlink p target =>
    cases h
    exact Session.createHardlink_err (Prod.ext he rfl) hc
  | _ =>
    cases h
    exact Session.create_err (Prod.ext he rfl) hc

/-- With a compressor that can be undone a block fails only by its output write. -/
theorem Session.emitBlock_fails (hi : s.writer.cfg.compressor.Inverted expand)
    (h : s.emitBlock faults p buf = (some e, s')) :
    (faults s.writes).isSome = true ∧ s'.writes = s.writes + 1 := by
  unfold Session.emitBlock at h
  split at h
  · cases h
  rename_i hb
  obtain ⟨x, hx⟩ := pack_total hi (.data s.writer.out.length) hb
  rw [hx] at h
  dsimp only at h
  split at h
  · rename_i hk
    cases h
    exact ⟨by rw [hk]; rfl, rfl⟩
  · cases h

theorem Session.emitBlock_writes (h : s.emitBlock faults p buf = (err, s')) : s.writes ≤ s'.writes := by
  unfold Session.emitBlock at h
  split at h
  · cases h
    exact Nat.le_refl _
  split at h
  · cases h
    exact Nat.le_refl _
  split at h
  · cases h
    exact Nat.le_succ _
  · cases h
    exact Nat.le_succ _

/-- The loop of `Write` comes to its end if none of the output writes in it fails. -/
theorem writeLoop_spared (hi : s.writer.cfg.compressor.Inverted expand)
    (h : writeLoop faults p s buf data written = (n, err, s', buf'))
    (hnone : ∀ i, s.writes ≤ i → i < s'.writes → faults i = none) : err = none := by
  fun_induction writeLoop faults p s buf data written with
  | case1 => cases h; rfl
  | case2 s buf data written hm hf e1 s1 he =>
    cases h
    obtain ⟨hfault, hw⟩ := Session.emitBlock_fails hi he
    rw [hnone _ (Nat.le_refl _) (by omega)] at hfault
    cases hfault
  | case3 s buf data written hm hf s1 he ih =>
    have hc := (emitBlock_same (Session.emitBlock_ok he)).1
    have hle := Session.emitBlock_writes he
    exact ih (hc ▸ hi) h fun i hl hu => hnone i (Nat.le_trans hle hl) hu
  | case4 => cases h; rfl

theorem Session.write_spared (hi : s.writer.cfg.compressor.Inverted expand)
    (h : s.write faults p data = (n, some e, s'))
    (hnone : ∀ i, s.writes ≤ i → i < s'.writes → faults i = none) : n = 0 := by
  unfold Session.write at h
  split at h
  · cases h
    rfl
  split at h
  · cases h
    rfl
  split at h
  · cases h
    rfl
  split at h
  · rename_i hl
    cases h
    cases writeLoop_spared hi hl hnone
  · cases h

end Steps

end Craftling.Squashfs

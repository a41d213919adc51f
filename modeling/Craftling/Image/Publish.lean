import Craftling.Image.Store

namespace Craftling.Image
open Effects Option

variable {builds : Digest → List Chunk → Prop} {p : Builders builds}

def Stage.allows (j : Job builds) : Stage → Call → Prop
  | .begun, .pull => True
  | .begun, .prepare => True
  | .begun, .stat n => n = .final j.digest
  | .begun, .remove n => n = .tmp j.digest
  | .begun, .create n => n = .tmp j.digest
  | .writing h done, .write h' c => h' = h ∧ ∃ rest, j.chunks = done ++ c :: rest
  | .writing h done, .close h' => h' = h ∧ done = j.chunks
  | .closed _, .rename a b => a = .tmp j.digest ∧ b = .final j.digest
  | .failing, .close _ => True
  | .failing, .remove n => n = .tmp j.digest
  | _, _ => False

/-- A build that succeeds has found the artifact or published it. -/
def conduct : System.Conduct (Job builds) Stage Call (Except Err (Option Name)) where
  allows j st e := st.allows j e
  answers j st r := ∀ path, r = .ok path → st = .present ∧ ∀ n, path = some n → n = .final j.digest

abbrev Follows (j : Job builds) (p : Build α) (fin : Stage → α → Prop) (st : Stage) : Prop :=
  p.Follows (Stage.allows j) Stage.next fin st

section Programs

variable (j : Job builds)

theorem writeAll_follows (h : Handle) (done rest : List Chunk) (ha : j.chunks = done ++ rest) :
    Follows j (writeAll h rest) (fun st r => match r with
        | .ok _ => st = .writing h j.chunks
        | .error _ => st = .failing) (.writing h done) := by
  induction rest generalizing done with
  | nil =>
    rw [List.append_nil] at ha
    rw [← ha]
    rfl
  | cons c rest ih =>
    refine ⟨⟨rfl, rest, ha⟩, fun r => ?_⟩
    cases r with
    | error e => rfl
    | ok u => exact ih (done ++ [c]) (by rw [ha, List.append_assoc]; rfl)

theorem buildSquashfs_follows : Follows j (buildSquashfs j.chunks (.tmp j.digest))
      (fun st r => match r with
        | .ok _ => ∃ h, st = .closed h
        | .error _ => st = .failing) .begun := by
  refine ⟨rfl, fun r => ?_⟩
  cases r with
  | error e => rfl
  | ok h =>
    change Follows j ((writeAll h j.chunks).bind _) _ (.writing h [])
    apply Prog.Follows.bind
    refine (writeAll_follows j h [] j.chunks rfl).mono fun st r hs => ?_
    cases r with
    | error e =>
      subst hs
      exact ⟨trivial, fun r => by cases r <;> rfl⟩
    | ok u =>
      subst hs
      refine ⟨⟨rfl, rfl⟩, fun r => ?_⟩
      cases r with
      | error e => rfl
      | ok u => exact ⟨h, rfl⟩

theorem buildInto_follows : Follows j (buildInto j.chunks (.final j.digest) (.tmp j.digest))
      (fun st r => ∀ u, r = .ok u → st = .present) .begun := by
  refine ⟨trivial, fun r => ?_⟩
  cases r with
  | error e => exact fun u h => by cases h
  | ok u =>
    refine ⟨rfl, fun r => ?_⟩
    change Follows j ((buildSquashfs j.chunks (.tmp j.digest)).bind _) _ .begun
    apply Prog.Follows.bind
    refine (buildSquashfs_follows j).mono fun st r hs => ?_
    cases r with
    | error e =>
      subst hs
      exact ⟨rfl, fun r u h => by cases h⟩
    | ok u =>
      obtain ⟨h, rfl⟩ := hs
      refine ⟨⟨rfl, rfl⟩, fun r => ?_⟩
      cases r with
      | error e => exact ⟨rfl, fun r u h => by cases h⟩
      | ok u => exact fun u _ => rfl

end Programs

theorem ensure_follows (j : Job builds) :
    Follows j (ensure j.digest j.chunks) (conduct.answers j) .begun := by
  refine ⟨trivial, fun r => ?_⟩
  cases r with
  | error e => exact fun path h => by cases h
  | ok u =>
    refine ⟨rfl, fun r => ?_⟩
    cases r with
    | ok u =>
      intro path h
      cases h
      exact ⟨rfl, fun n hn => (Option.some.inj hn).symm⟩
    | error e =>
      cases e with
      | failed text => exact fun path h => by cases h
      | notExist =>
        change Follows j ((buildInto j.chunks (.final j.digest) (.tmp j.digest)).bind _) _ .begun
        apply Prog.Follows.bind
        refine (buildInto_follows j).mono fun st r hs => ?_
        cases r with
        | error e => exact fun path h => by cases h
        | ok u =>
          intro path h
          cases h
          exact ⟨hs u rfl, fun n hn => (Option.some.inj hn).symm⟩

theorem pullImage_follows (j : Job builds) :
    Follows j (pullImage j.digest j.chunks) (conduct.answers j) .begun := by
  refine ⟨trivial, fun r => ?_⟩
  cases r with
  | error e => exact fun path h => by cases h
  | ok u =>
    change Follows j ((buildInto j.chunks (.final j.digest) (.tmp j.digest)).bind _) _ .begun
    apply Prog.Follows.bind
    refine (buildInto_follows j).mono fun st r hs => ?_
    cases r with
    | error e => exact fun path h => by cases h
    | ok u =>
      intro path h
      cases h
      exact ⟨hs u rfl, fun n hn => by cases hn⟩

theorem store_keeps : (store builds).Keeps conduct := by
  intro j
  change Follows j j.program (conduct.answers j) .begun
  unfold Job.program
  split
  · exact ensure_follows j
  · exact pullImage_follows j

def Complete (builds : Digest → List Chunk → Prop) (d : Digest) (b : Bytes) : Prop :=
  ∃ chunks, builds d chunks ∧ b = rendered chunks

def Published (builds : Digest → List Chunk → Prop) (fs : FileSys Name) : Prop :=
  ∀ d i, fs.names (.final d) = some i → Complete builds d (fs.content i)

/-- The file of a build: nobody else has a name for it, no other file has its name, and it
holds what has been written. -/
structure Held (d : Digest) (h : Handle) (done : List Chunk) (fs : FileSys Name) : Prop where
  known : h.ino < fs.fresh
  content : fs.content h.ino = rendered done
  name : ∀ n, fs.names n = some h.ino → n = .tmp d
  file : ∀ i, fs.names (.tmp d) = some i → i = h.ino

def Building (_ : Nat) (j : Job builds) (st : Stage) (fs : FileSys Name) : Prop :=
  match st with
  | .writing h done => Held j.digest h done fs
  | .closed h => Held j.digest h j.chunks fs
  | .present => ∃ i, fs.names (.final j.digest) = some i
  | _ => True

def Separate (_ : Job builds) (st : Stage) (_ : Job builds) (st' : Stage) : Prop :=
  ∀ h ∈ st.handle, ∀ h' ∈ st'.handle, h.ino ≠ h'.ino

/-- When a build of a digest creates its file, no other build of the digest stands between
creating its own and renaming or giving it up. -/
def Exclusive (p : Builders builds) : Turn (Job builds) (Option Fault) Empty → Prop
  | .turn i _ =>
    match p.next? i with
    | some (.create n) => ∀ i' < p.threads.length, i' ≠ i → ∀ t ∈ p.threads[i']?,
        n = .tmp t.job.digest → t.stage.handle = none
    | _ => True
  | _ => True

instance (p : Builders builds) (l : Turn (Job builds) (Option Fault) Empty) :
    Decidable (Exclusive p l) := by
  unfold Exclusive
  split
  · split <;> infer_instance
  · infer_instance

section Others

variable {d : Digest} {fs fs' : FileSys Name} {i : Nat} {j : Job builds} {st : Stage} {h : Handle}
    {done : List Chunk} {k : Nat}

structure Untouched (d : Digest) (h : Handle) (fs fs' : FileSys Name) : Prop where
  known : fs.fresh ≤ fs'.fresh
  content : fs'.content h.ino = fs.content h.ino
  name : ∀ n, fs'.names n = some h.ino → fs.names n = some h.ino
  file : ∀ i, fs'.names (.tmp d) = some i → fs.names (.tmp d) = some i

theorem Held.move (hh : Held d h done fs) (hm : Untouched d h fs fs') : Held d h done fs' :=
  ⟨Nat.lt_of_lt_of_le hh.known hm.known, hm.content.trans hh.content,
    fun n hn => hh.name n (hm.name n hn), fun i hi => hh.file i (hm.file i hi)⟩

theorem Building.move (hb : Building i j st fs)
    (hh : ∀ h done, st.handle = some h → Held j.digest h done fs → Untouched j.digest h fs fs')
    (hf : ∀ e k, fs.names (.final e) = some k → ∃ k', fs'.names (.final e) = some k') :
    Building i j st fs' := by
  cases st with
  | writing h done => exact Held.move hb (hh h done rfl hb)
  | closed h => exact Held.move hb (hh h j.chunks rfl hb)
  | present =>
    obtain ⟨k, hk⟩ := hb
    exact hf j.digest k hk
  | _ => trivial

theorem Building.unlink (hb : Building i j st fs) : Building i j st (fs.unlink (.tmp d)) := by
  apply hb.move
  · intro h done _ _
    exact ⟨Nat.le_refl _, rfl, fun n hn => (fs.unlink_names hn).1, fun k hk => (fs.unlink_names hk).1⟩
  · intro e k hk
    exact ⟨k, hk⟩

theorem Held.ne_created (hh : Held e h done fs) (hn : e ≠ d) (hc : fs.Created (.tmp d) k fs') :
    h.ino ≠ k := by
  intro he
  rcases hc.origin with ho | hnew
  · have hna := hh.name (.tmp d) (he ▸ ho)
    exact hn (Name.tmp.inj hna).symm
  · have hl := hh.known
    omega

theorem Building.created (hb : Building i j st fs) (hc : fs.Created (.tmp d) k fs')
    (he : j.digest = d → st.handle = none) : Building i j st fs' := by
  apply hb.move
  · intro h done hs hh
    have hne : j.digest ≠ d := by
      intro heq
      rw [he heq] at hs
      cases hs
    have hi := hh.ne_created hne hc
    refine ⟨hc.fresh, hc.content _ hi, ?_, ?_⟩
    · intro n hn
      by_cases hnd : n = .tmp d
      · rw [hnd, hc.named] at hn
        exact absurd (Option.some.inj hn).symm hi
      · rwa [hc.names n hnd] at hn
    · intro m hm
      rwa [hc.names _ (fun heq => hne (Name.tmp.inj heq))] at hm
  · intro e m hm
    exact ⟨m, by rwa [hc.names _ (by simp)]⟩

theorem Building.write (hb : Building i j st fs) (c : Chunk) (hne : ∀ h ∈ st.handle, h.ino ≠ k) :
    Building i j st (fs.write k c) := by
  apply hb.move
  · intro h done hs _
    exact ⟨Nat.le_refl _, fs.write_ne c (hne h hs), fun n hn => hn, fun m hm => hm⟩
  · intro e m hm
    exact ⟨m, hm⟩

theorem Building.rename (hb : Building i j st fs) (hh : Held d h done fs)
    (hne : ∀ h' ∈ st.handle, h'.ino ≠ h.ino) (ht : fs.names (.tmp d) = some k) :
    Building i j st (fs.rename (.tmp d) (.final d)) := by
  apply hb.move
  · intro h' done' hs _
    refine ⟨Nat.le_refl _, rfl, ?_, ?_⟩
    · intro n hn
      rcases fs.rename_names hn with ⟨-, ht⟩ | ⟨-, -, hn⟩
      · exact absurd (hh.file _ ht) (hne h' hs)
      · exact hn
    intro m hm
    rcases fs.rename_names hm with ⟨heq, -⟩ | ⟨-, -, hm⟩
    · cases heq
    · exact hm
  · intro e m hm
    by_cases he : e = d
    · exact ⟨k, by rw [he]; exact (if_pos rfl).trans ht⟩
    · exact ⟨m, by simpa [FileSys.rename, he] using hm⟩

end Others

section Own

variable {fs fs' : FileSys Name} {i : Nat} {j : Job builds} {st : Stage} {e : Call} {d : Digest}
    {h : Handle} {done : List Chunk} {k : Nat}

section

variable (hp : Published builds fs)
include hp

theorem Published.move (hm : ∀ d k, fs'.names (.final d) = some k →
      fs.names (.final d) = some k ∧ fs'.content k = fs.content k) : Published builds fs' := by
  intro d k hk
  obtain ⟨ho, hs⟩ := hm d k hk
  rw [hs]
  exact hp d k ho

theorem Published.created (hc : fs.Created (.tmp d) k fs') : Published builds fs' := by
  apply hp.move
  intro e m hm
  rw [hc.names _ (by simp)] at hm
  refine ⟨hm, hc.content m ?_⟩
  intro he
  rcases hc.origin with ho | hn
  · cases fs.single _ _ _ hm (he ▸ ho)
  · have hl := fs.bounded _ _ hm
    omega

theorem Published.write (hh : Held d h done fs) (c : Chunk) :
    Published builds (fs.write h.ino c) := by
  apply hp.move
  intro e m hm
  refine ⟨hm, fs.write_ne c ?_⟩
  intro he
  cases hh.name (.final e) (he ▸ hm)

theorem Published.rename (hh : Held j.digest h j.chunks fs) :
    Published builds (fs.rename (.tmp j.digest) (.final j.digest)) := by
  intro e m hm
  rcases fs.rename_names hm with ⟨he, ht⟩ | ⟨-, -, hm⟩
  · cases he
    rw [hh.file m ht]
    exact ⟨j.chunks, j.complete, hh.content⟩
  · exact hp e m hm

theorem Published.perform (hb : Building i j st fs)
    (ha : st.allows j e) (fault : Option Fault) :
    Published builds (perform fault e fs).2 := by
  cases e with
  | remove n =>
    cases fault with
    | some f => exact hp
    | none =>
      apply hp.move
      intro d k hk
      exact ⟨(fs.unlink_names hk).1, rfl⟩
  | create n =>
    cases fault with
    | some f => exact hp
    | none =>
      cases st <;> cases ha
      exact hp.created (fs.create_created _)
  | write h c =>
    cases st with
    | writing h' done =>
      obtain ⟨rfl, -⟩ := ha
      cases fault <;> exact hp.write hb _
    | _ => cases ha
  | rename a b =>
    cases fault with
    | some f => exact hp
    | none =>
      cases st with
      | closed h =>
        obtain ⟨rfl, rfl⟩ := ha
        simp only [Image.perform]
        split
        · exact hp.rename hb
        · exact hp
      | _ => cases ha
  | _ => cases fault <;> exact hp

end

theorem Held.created (hc : fs.Created (.tmp d) k fs') : Held d ⟨.tmp d, k⟩ [] fs' := by
  refine ⟨fs'.bounded _ _ hc.named, hc.empty, ?_, ?_⟩
  · intro n hn
    exact fs'.single _ _ _ hn hc.named
  · intro m hm
    rw [hc.named] at hm
    exact (Option.some.inj hm).symm

theorem Held.write (hh : Held d h done fs) (c : Chunk) :
    Held d h (done ++ [c]) (fs.write h.ino c) := by
  refine ⟨hh.known, ?_, hh.name, hh.file⟩
  rw [rendered_append, ← hh.content]
  exact fs.setContent_self _ _

theorem Building.perform (hb : Building i j st fs) (ha : st.allows j e) (fault : Option Fault) :
    Building i j (st.next e (perform fault e fs).1) (perform fault e fs).2 := by
  cases st with
  | begun =>
    cases e with
    | stat n =>
      cases ha
      cases fault with
      | some f => trivial
      | none =>
        simp only [Image.perform]
        split
        · rename_i hs
          exact isSome_iff_exists.mp hs
        · trivial
    | create n =>
      cases ha
      cases fault with
      | some f => trivial
      | none => exact Held.created (fs.create_created _)
    | pull | prepare => cases fault <;> trivial
    | remove n =>
      cases fault with
      | some f => trivial
      | none =>
        simp only [Image.perform]
        split <;> trivial
    | _ => cases ha
  | writing h done =>
    cases e with
    | write h' c =>
      obtain ⟨rfl, -⟩ := ha
      cases fault with
      | some f => trivial
      | none => exact Held.write hb c
    | close h' =>
      obtain ⟨rfl, rfl⟩ := ha
      cases fault with
      | some f => trivial
      | none => exact hb
    | _ => cases ha
  | closed h =>
    cases e with
    | rename a b =>
      obtain ⟨rfl, rfl⟩ := ha
      cases fault with
      | some f => trivial
      | none =>
        simp only [Image.perform]
        split
        · rename_i hs
          obtain ⟨k, hk⟩ := isSome_iff_exists.mp hs
          exact ⟨k, (if_pos rfl).trans hk⟩
        · trivial
    | _ => cases ha
  | present => cases e <;> cases ha
  | failing =>
    cases e with
    | close h => cases fault <;> trivial
    | remove n =>
      cases fault with
      | some f => trivial
      | none =>
        simp only [Image.perform]
        split <;> trivial
    | _ => cases ha

end Own

section Beside

variable {fs : FileSys Name} {i i' : Nat} {j j' : Job builds} {st st' : Stage} {e : Call}

theorem Building.held (hb : Building i j st fs) (hs : st.handle = some h) :
    ∃ done, Held j.digest h done fs := by
  cases st with
  | writing h' done =>
    cases hs
    exact ⟨done, hb⟩
  | closed h' =>
    cases hs
    exact ⟨j.chunks, hb⟩
  | _ => cases hs

theorem Building.other (hb : Building i' j' st' fs) (hs : Building i j st fs)
    (ha : st.allows j e) (hse : Separate j st j' st')
    (he : ∀ n, e = .create n → n = .tmp j'.digest → st'.handle = none) (fault : Option Fault) :
    Building i' j' st' (Image.perform fault e fs).2 := by
  cases e with
  | remove n =>
    have hn : n = .tmp j.digest := by
      cases st with
      | begun | failing => exact ha
      | _ => cases ha
    subst hn
    cases fault with
    | some f => exact hb
    | none => exact hb.unlink
  | create n =>
    cases fault with
    | some f => exact hb
    | none =>
      cases st with
      | begun =>
        cases ha
        apply hb.created (fs.create_created _)
        intro hd
        exact he _ rfl (by rw [hd])
      | _ => cases ha
  | write h c =>
    cases st with
    | writing h' done =>
      obtain ⟨rfl, -⟩ := ha
      have hne : ∀ k ∈ st'.handle, k.ino ≠ h.ino := fun k hk => (hse h rfl k hk).symm
      cases fault <;> exact hb.write _ hne
    | _ => cases ha
  | rename a b =>
    cases fault with
    | some f => exact hb
    | none =>
      cases st with
      | closed h =>
        obtain ⟨rfl, rfl⟩ := ha
        simp only [Image.perform]
        split
        · rename_i hso
          obtain ⟨k, hk⟩ := isSome_iff_exists.mp hso
          exact hb.rename hs (fun h' hh' => (hse h rfl h' hh').symm) hk
        · exact hb
      | _ => cases ha
  | _ => cases fault <;> exact hb

theorem Separate.perform (hs : Separate j st j' st') (hb : Building i' j' st' fs)
    (ha : st.allows j e)
    (he : ∀ n, e = .create n → n = .tmp j'.digest → st'.handle = none) (fault : Option Fault) :
    Separate j (st.next e (Image.perform fault e fs).1) j' st' := by
  intro h hh h' hh'
  cases st with
  | begun =>
    cases e with
    | create n =>
      cases ha
      cases fault with
      | some f => cases hh
      | none =>
        cases hh
        obtain ⟨done, hhe⟩ := hb.held hh'
        have hn : j'.digest ≠ j.digest := by
          intro hd
          have hno := he _ rfl (by rw [hd])
          rw [hno] at hh'
          cases hh'
        exact (hhe.ne_created hn (fs.create_created _)).symm
    | stat n =>
      generalize (Image.perform fault (.stat n) fs).1 = r at hh
      cases r <;> cases hh
    | _ => cases fault <;> cases hh
  | writing k done =>
    cases e with
    | write k' c | close k' =>
      cases fault with
      | some f => cases hh
      | none => exact hs h hh h' hh'
    | _ => cases ha
  | closed k =>
    cases e with
    | rename a b =>
      generalize (Image.perform fault (.rename a b) fs).1 = r at hh
      cases r <;> cases hh
    | _ => cases ha
  | present => cases e <;> cases ha
  | failing => cases e <;> cases hh

end Beside

structure Sound (p : Builders builds) : Prop where
  holds : (store builds).Holds conduct (Published builds) Building p
  apart : System.Apart Separate p

theorem Separate.symm (j : Job builds) (st : Stage) (j' : Job builds) (st' : Stage)
    (h : Separate j st j' st') : Separate j' st' j st :=
  fun k hk k' hk' => (h k' hk' k hk).symm

theorem Exclusive.handle (hl : Exclusive p (.turn i fault))
    (hi : p.threads[i]? = some ⟨j, st, .call e k⟩) (hne : i' ≠ i) (ht : p.threads[i']? = some t) :
    ∀ n, e = .create n → n = .tmp t.job.digest → t.stage.handle = none := by
  intro n he hn
  subst he
  have hnex : p.next? i = some (.create n) := by simp [Pool.next?, hi, Prog.next?]
  simp only [Exclusive, hnex] at hl
  exact hl i' (List.getElem?_eq_some_iff.mp ht).1 hne t ht hn

theorem Sound.step (h : Sound p) (hs : (store builds).step p l = some p') (hl : Exclusive p l) :
    Sound p' := by
  constructor
  · apply System.Holds.step h.holds store_keeps hs
    · intro j _
      trivial
    · intro i fault j st e k htu hi ha hb
      subst htu
      refine ⟨h.holds.shared.perform hb ha fault, hb.perform ha fault, ?_⟩
      intro i' t hn ht ho
      exact ho.other hb ha (h.apart i i' _ t hn.symm hi ht) (hl.handle hi hn ht) fault
    · intro w
      cases w
  · apply System.Apart.step Separate.symm h.apart hs
    · intro j _ t _ k hk
      cases hk
    intro i fault j st e k htu hi i' t hn ht
    subst htu
    have ha := (h.holds.keeps _ (List.mem_of_getElem? hi)).1
    exact (h.apart i i' _ t hn.symm hi ht).perform (h.holds.threads i' t ht) ha
      (hl.handle hi hn ht) fault

/-- If builds of a digest exclude each other, what is published or returned is complete. -/
theorem published_artifacts_complete (builds : Digest → List Chunk → Prop) (p : Builders builds)
    (hrun : Reaches (store builds).step (fun q l _ => Exclusive q l) ⟨.empty, []⟩ p) :
    (∀ d i, p.shared.names (.final d) = some i → Complete builds d (p.shared.content i)) ∧
      ∀ t ∈ p.threads, ∀ path, t.prog.result? = some (.ok (some path)) →
        path = .final t.job.digest ∧ ∃ i, p.shared.names path = some i ∧
          Complete builds t.job.digest (p.shared.content i) := by
  have hsound : Sound p := by
    refine hrun.invariant (I := Sound) ⟨.start ?_, ?_⟩ fun q l q' hq hs hl => hq.step hs hl
    · intro d i hi
      cases hi
    · intro i i' t t' _ ht
      cases ht
  refine ⟨hsound.holds.shared, ?_⟩
  intro t ht path hres
  obtain ⟨k, hk⟩ := List.mem_iff_getElem?.mp ht
  have hkeeps := hsound.holds.keeps t ht
  rw [Prog.eq_done_of_result? hres] at hkeeps
  obtain ⟨hst, hpath⟩ := hkeeps _ rfl
  have hb := hsound.holds.threads k t hk
  rw [hst] at hb
  obtain ⟨i, hi⟩ := hb
  obtain rfl := hpath path rfl
  exact ⟨rfl, i, hi, hsound.holds.shared _ i hi⟩

def smallImage : List Chunk := [⟨0, [0, 0]⟩, ⟨2, [7]⟩, ⟨0, [9, 1]⟩]

def small (_ : Digest) (chunks : List Chunk) : Prop := chunks = smallImage

def ensureSmall : Job small := ⟨.ensure, 0, smallImage, rfl⟩

/-- The first call builds the artifact, the second finds it. -/
theorem published_artifacts_complete_small : ∃ p : Builders small,
      Reaches (store small).step (fun q l _ => Exclusive q l) ⟨.empty, []⟩ p ∧
      p.threads.map (fun t => t.prog.result?) =
        [some (.ok (some (.final 0))), some (.ok (some (.final 0)))] ∧
      ∃ i, p.shared.names (.final 0) = some i ∧ Complete small 0 (p.shared.content i) := by
  obtain ⟨p, hrun, hp⟩ := Reaches.exists_run (store small).step
    (fun q l _ => Exclusive q l) ⟨.empty, []⟩
    (.start ensureSmall :: List.replicate 10 (.turn 0 none) ++
      .start ensureSmall :: List.replicate 2 (.turn 1 none))
    (fun p => p.threads.map (fun t => t.prog.result?) =
        [some (.ok (some (.final 0))), some (.ok (some (.final 0)))] &&
      (p.shared.names (.final 0)).isSome) (by decide +kernel)
  simp only [Bool.and_eq_true, decide_eq_true_eq] at hp
  obtain ⟨i, hi⟩ := isSome_iff_exists.mp hp.2
  exact ⟨p, hrun, hp.1, i, hi, (published_artifacts_complete small p hrun).1 0 i hi⟩

/-- A second build removes the file of a first that is about to publish, and creates its own
under the same name. The first then publishes what the second has written so far. -/
theorem shared_tmp_publishes_partial :
    ∃ p : Builders small, Reaches (store small).step (fun _ _ _ => True) ⟨.empty, []⟩ p ∧
      p.threads.map (fun t => t.prog.result?) = [some (.ok (some (.final 0))), none] ∧
      ∃ i, p.shared.names (.final 0) = some i ∧ ¬ Complete small 0 (p.shared.content i) := by
  obtain ⟨p, hrun, hp⟩ := Reaches.exists_run (store small).step (fun _ _ _ => True)
    ⟨.empty, []⟩
    ([.start ensureSmall, .start ensureSmall] ++ List.replicate 9 (.turn 0 none) ++
      List.replicate 6 (.turn 1 none) ++ [.turn 0 none])
    (fun p => p.threads.map (fun t => t.prog.result?) = [some (.ok (some (.final 0))), none] &&
      (p.shared.names (.final 0)).any fun i => p.shared.content i = [0, 0]) (by decide +kernel)
  simp only [Bool.and_eq_true, decide_eq_true_eq, any_eq_true] at hp
  obtain ⟨hresults, i, hi, hcontent⟩ := hp
  refine ⟨p, hrun, hresults, i, hi, ?_⟩
  rintro ⟨chunks, hchunks, hwhole⟩
  rw [hcontent, hchunks] at hwhole
  revert hwhole
  decide

end Craftling.Image

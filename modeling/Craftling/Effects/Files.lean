import Mathlib

namespace Craftling.Effects

abbrev Bytes := List UInt8

structure Chunk where
  offset : Nat
  data : Bytes
  deriving DecidableEq, Repr

def Chunk.onto (c : Chunk) (b : Bytes) : Bytes :=
  b.take c.offset ++ List.replicate (c.offset - b.length) 0 ++ c.data ++
    b.drop (c.offset + c.data.length)

def rendered (cs : List Chunk) : Bytes := cs.foldl (fun b c => c.onto b) []

@[simp] theorem rendered_nil : rendered [] = [] := rfl

theorem rendered_append (cs : List Chunk) (c : Chunk) :
    rendered (cs ++ [c]) = c.onto (rendered cs) := by
  unfold rendered
  rw [List.foldl_append]
  rfl

/-- Names for numbered files. A file outlives its name for whoever has it open, and no file
has two names. -/
structure FileSys (N : Type) where
  names : N → Option Nat
  content : Nat → Bytes
  fresh : Nat
  bounded : ∀ n i, names n = some i → i < fresh
  single : ∀ n n' i, names n = some i → names n' = some i → n = n'

namespace FileSys

variable {N : Type} {i j : Nat}

def setContent (fs : FileSys N) (i : Nat) (b : Bytes) : FileSys N :=
  { fs with content := fun j => if j = i then b else fs.content j }

def write (fs : FileSys N) (i : Nat) (c : Chunk) : FileSys N :=
  fs.setContent i (c.onto (fs.content i))

theorem setContent_self (fs : FileSys N) (i : Nat) (b : Bytes) :
    (fs.setContent i b).content i = b := if_pos rfl

theorem setContent_ne (fs : FileSys N) (b : Bytes) (h : j ≠ i) :
    (fs.setContent i b).content j = fs.content j := if_neg h

theorem write_ne (fs : FileSys N) (c : Chunk) (h : j ≠ i) :
    (fs.write i c).content j = fs.content j := fs.setContent_ne _ h

variable [DecidableEq N]

def empty : FileSys N :=
  ⟨fun _ => none, fun _ => [], 0, (fun n i h => by cases h), (fun n n' i h => by cases h)⟩

def unlink (fs : FileSys N) (n : N) : FileSys N where
  names m := if m = n then none else fs.names m
  content := fs.content
  fresh := fs.fresh
  bounded m i h := by
    split at h
    · cases h
    · exact fs.bounded m i h
  single m m' i h h' := by
    split at h
    · cases h
    split at h'
    · cases h'
    · exact fs.single m m' i h h'

def enter (fs : FileSys N) (n : N) : FileSys N where
  names m := if m = n then some fs.fresh else fs.names m
  content := fs.content
  fresh := fs.fresh + 1
  bounded m i h := by
    split at h
    · cases h
      exact Nat.lt_succ_self _
    · exact Nat.lt_succ_of_lt (fs.bounded m i h)
  single m m' i h h' := by
    have hnew : ∀ k, fs.names k ≠ some fs.fresh := by
      intro k hk
      exact Nat.lt_irrefl _ (fs.bounded k _ hk)
    split at h <;> split at h'
    · rename_i hm hm'
      exact hm.trans hm'.symm
    · cases h
      exact absurd h' (hnew m')
    · cases h'
      exact absurd h (hnew m)
    · exact fs.single m m' i h h'

def create (fs : FileSys N) (n : N) : Nat × FileSys N :=
  match fs.names n with
  | some i => (i, fs.setContent i [])
  | none => (fs.fresh, (fs.enter n).setContent fs.fresh [])

def rename (fs : FileSys N) (a b : N) : FileSys N where
  names m := if m = b then fs.names a else if m = a then none else fs.names m
  content := fs.content
  fresh := fs.fresh
  bounded m i h := by
    split at h
    · exact fs.bounded a i h
    split at h
    · cases h
    · exact fs.bounded m i h
  single m m' i h h' := by
    split at h <;> split at h'
    · rename_i hm hm'
      exact hm.trans hm'.symm
    · split at h'
      · cases h'
      · rename_i hm'
        exact absurd (fs.single m' a i h' h) hm'
    · split at h
      · cases h
      · rename_i hm
        exact absurd (fs.single m a i h h') hm
    · split at h
      · cases h
      split at h'
      · cases h'
      · exact fs.single m m' i h h'

section Lemmas

variable (fs : FileSys N) {m : N} {i : Nat}

theorem unlink_names (h : (fs.unlink n).names m = some i) : fs.names m = some i ∧ m ≠ n := by
  change (if m = n then none else fs.names m) = some i at h
  split at h
  · cases h
  · rename_i hn
    exact ⟨h, hn⟩

theorem rename_names (h : (fs.rename a b).names m = some i) :
    (m = b ∧ fs.names a = some i) ∨ (m ≠ b ∧ m ≠ a ∧ fs.names m = some i) := by
  change (if m = b then fs.names a else if m = a then none else fs.names m) = some i at h
  split at h
  · rename_i hm
    exact .inl ⟨hm, h⟩
  split at h
  · cases h
  · rename_i hb ha
    exact .inr ⟨hb, ha, h⟩

/-- The file that is opened has the name, is empty, and is either new or the one that had the
name before. The other names and files are as they were. -/
structure Created (fs : FileSys N) (n : N) (i : Nat) (fs' : FileSys N) : Prop where
  named : fs'.names n = some i
  empty : fs'.content i = []
  origin : fs.names n = some i ∨ i = fs.fresh
  fresh : fs.fresh ≤ fs'.fresh
  names : ∀ m, m ≠ n → fs'.names m = fs.names m
  content : ∀ j, j ≠ i → fs'.content j = fs.content j

theorem create_created (n : N) : Created fs n (fs.create n).1 (fs.create n).2 := by
  unfold create
  cases h : fs.names n with
  | some i =>
    exact ⟨h, fs.setContent_self i [], .inl h, Nat.le_refl _, fun _ _ => rfl,
      fun j hj => fs.setContent_ne [] hj⟩
  | none =>
    refine ⟨if_pos rfl, setContent_self _ _ _, .inr rfl, Nat.le_succ _, ?_, ?_⟩
    · intro m hm
      exact if_neg hm
    · intro j hj
      exact setContent_ne _ _ hj

end Lemmas

end FileSys

end Craftling.Effects

import Craftling.Effects.Words

namespace Craftling.Effects
open List

/-- Numbers one after the other, each with its width in bytes, the lowest byte first. -/
def record (fs : List (Nat × Nat)) : Bytes := fs.flatMap fun f => leBytes f.1 f.2

def readBytes (n : Nat) (b : Bytes) : Option (Bytes × Bytes) :=
  if n ≤ b.length then some (b.take n, b.drop n) else none

/-- Numbers of the given widths, and what comes after them. -/
def readRecord : List Nat → Bytes → Option (List Nat × Bytes)
  | [], b => some ([], b)
  | w :: ws, b => do
    let (n, b) ← readBytes w b
    let (ns, b) ← readRecord ws b
    return (leNat n :: ns, b)

def readTimes (p : Bytes → Option (α × Bytes)) : Nat → Bytes → Option (List α × Bytes)
  | 0, b => some ([], b)
  | n + 1, b => do
    let (a, b) ← p b
    let (as, b) ← readTimes p n b
    return (a :: as, b)

theorem readBytes_append (h : a.length = n) (rest : Bytes) :
    readBytes n (a ++ rest) = some (a, rest) := by
  subst h
  rw [readBytes, if_pos (by rw [length_append]; omega), take_left, drop_left]

@[simp] theorem record_cons (f : Nat × Nat) (fs : List (Nat × Nat)) :
    record (f :: fs) = leBytes f.1 f.2 ++ record fs := rfl

@[simp] theorem length_record (fs : List (Nat × Nat)) :
    (record fs).length = (fs.map Prod.fst).sum := by
  induction fs with
  | nil => rfl
  | cons f fs ih => simp [ih]

theorem readRecord_record (h : ∀ f ∈ fs, f.2 < 256 ^ f.1) (rest : Bytes) :
    readRecord (fs.map Prod.fst) (record fs ++ rest) = some (fs.map Prod.snd, rest) := by
  induction fs with
  | nil => rfl
  | cons f fs ih =>
    have hf : f.2 < 256 ^ f.1 := h f (.head _)
    have hr := ih fun g hg => h g (.tail _ hg)
    rw [map_cons, map_cons, record_cons, append_assoc, readRecord,
      readBytes_append (length_leBytes ..)]
    simp [hr, leNat_leBytes hf]

theorem readTimes_append {e : β → Bytes} {g : β → α} {xs : List β}
    (h : ∀ x ∈ xs, ∀ rest, p (e x ++ rest) = some (g x, rest)) (rest : Bytes) :
    readTimes p xs.length (xs.flatMap e ++ rest) = some (xs.map g, rest) := by
  induction xs with
  | nil => rfl
  | cons x xs ih =>
    have hx := h x (.head _) (xs.flatMap e ++ rest)
    have hxs := ih fun y hy => h y (.tail _ hy)
    rw [length_cons, flatMap_cons, append_assoc, readTimes, hx]
    simp [hxs]

theorem drop_flatMap_of_length {f : α → List β} {w : Nat} (hf : ∀ a, (f a).length = w) {l : List α}
    {k : Nat} (h : l[k]? = some a) :
    (l.flatMap f).drop (w * k) = f a ++ (l.drop (k + 1)).flatMap f := by
  induction l generalizing k with
  | nil => cases h
  | cons x l ih =>
    cases k with
    | zero =>
      cases h
      rfl
    | succ k =>
      have hw : w * (k + 1) = (f x).length + w * k := by rw [hf, Nat.mul_succ, Nat.add_comm]
      rw [flatMap_cons, hw, ← drop_drop, drop_left]
      exact ih h

end Craftling.Effects

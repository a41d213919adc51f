import Craftling.Effects.Files

namespace Craftling.Effects
open List

def leBytes : Nat → Nat → Bytes
  | 0, _ => []
  | w + 1, n => UInt8.ofNat n :: leBytes w (n / 256)

def leNat : Bytes → Nat
  | [] => 0
  | b :: bs => b.toNat + 256 * leNat bs

def beBytes (w n : Nat) : Bytes := (leBytes w n).reverse

def beNat (bs : Bytes) : Nat := leNat bs.reverse

@[simp] theorem length_leBytes (w n : Nat) : (leBytes w n).length = w := by
  induction w generalizing n with
  | zero => rfl
  | succ w ih => simp [leBytes, ih]

@[simp] theorem length_beBytes (w n : Nat) : (beBytes w n).length = w := by
  simp [beBytes]

variable {n w : Nat}

theorem leNat_leBytes (h : n < 256 ^ w) : leNat (leBytes w n) = n := by
  induction w generalizing n with
  | zero =>
    rw [Nat.pow_zero] at h
    simp only [leBytes, leNat]
    omega
  | succ w ih =>
    have hd : n / 256 < 256 ^ w := by
      rw [Nat.pow_succ] at h
      exact Nat.div_lt_of_lt_mul (by rw [Nat.mul_comm]; exact h)
    have hl : (UInt8.ofNat n).toNat = n % 256 := UInt8.toNat_ofNat'
    simp only [leBytes, leNat, ih hd, hl]
    omega

theorem beNat_beBytes (h : n < 256 ^ w) : beNat (beBytes w n) = n := by
  rw [beNat, beBytes, reverse_reverse, leNat_leBytes h]

theorem leNat_lt (bs : Bytes) : leNat bs < 256 ^ bs.length := by
  induction bs with
  | nil => simp [leNat]
  | cons b bs ih =>
    have hb := b.toNat_lt
    simp only [leNat, length_cons, Nat.pow_succ]
    omega

theorem beNat_lt (bs : Bytes) : beNat bs < 256 ^ bs.length := by
  have h := leNat_lt bs.reverse
  rwa [length_reverse] at h

theorem or_bit (h : n < 2 ^ k) : n ||| 1 <<< k = n + 2 ^ k := by
  have ho := Nat.two_pow_add_eq_or_of_lt h 1
  rw [Nat.mul_one] at ho
  rw [Nat.shiftLeft_eq, Nat.one_mul, Nat.or_comm, ← ho, Nat.add_comm]

def slice (f : Bytes) (off n : Nat) : Bytes := (f.drop off).take n

def store (f : Bytes) (off : Nat) (bs : Bytes) : Bytes :=
  f.take off ++ bs ++ f.drop (off + bs.length)

section Store

variable {f bs : Bytes} {off : Nat}

theorem length_store (h : off + bs.length ≤ f.length) : (store f off bs).length = f.length := by
  simp only [store, length_append, length_take, length_drop]
  omega

theorem slice_store_self (h : off ≤ f.length) : slice (store f off bs) off bs.length = bs := by
  have ht : (f.take off).length = off := by simp [h]
  simp only [slice, store, append_assoc]
  rw [drop_append_of_le_length (by omega), drop_of_length_le (by omega), nil_append, take_left]

theorem slice_store_of_apart (h : off + bs.length ≤ f.length)
    (ha : off' + n ≤ off ∨ off + bs.length ≤ off') :
    slice (store f off bs) off' n = slice f off' n := by
  apply ext_getElem?
  intro i
  simp only [slice, List.getElem?_take, List.getElem?_drop]
  split
  · rename_i hi
    have ht : (f.take off).length = off := by simp; omega
    simp only [store]
    rcases ha with hb | haf
    · rw [append_assoc, List.getElem?_append_left (by omega), List.getElem?_take_of_lt (by omega)]
    have hl : (f.take off ++ bs).length = off + bs.length := by
      rw [length_append, ht]
    rw [List.getElem?_append_right (by omega), List.getElem?_drop]
    congr 1
    omega
  · rfl

end Store

end Craftling.Effects

import Craftling.Effects.Records

namespace Craftling.Minecraft.Ping
open Effects

inductive PingErr where
  | eof
  | tooLong
  | badLength (n : Int)
  | badID (n : Int)
  | badStatusLength (n : Int)
deriving Repr, DecidableEq

def maxStatusPacket : Nat := 2 ^ 20

def writeGroups (u : Nat) : Bytes :=
  if u / 128 = 0 then [UInt8.ofNat u]
  else UInt8.ofNat (u % 128 + 128) :: writeGroups (u / 128)
termination_by u
decreasing_by omega

def writeVarInt (n : Int) : Bytes := writeGroups (n % 2 ^ 32).toNat

def toInt32 (u : Nat) : Int := if u < 2 ^ 31 then u else u - 2 ^ 32

def readGroups (i result : Nat) : Nat → Bytes → Except PingErr (Int × Bytes)
  | 0, _ => .error .tooLong
  | _ + 1, [] => .error .eof
  | left + 1, b :: r =>
    let result := result ||| (b.toNat % 128) <<< (7 * i) % 2 ^ 32
    if b.toNat < 128 then .ok (toInt32 result, r) else readGroups (i + 1) result left r

def readVarInt (r : Bytes) : Except PingErr (Int × Bytes) := readGroups 0 0 5 r

def writeString (s : Bytes) : Bytes := writeVarInt s.length ++ s

def writePacket (body : Bytes) : Bytes := writeVarInt body.length ++ body

/-- What `readStatusJSON` does with the bytes of a packet. The first result is the sizes of the
buffers that it makes. -/
def readStatusBody (br : Bytes) : List Nat × Except PingErr Bytes :=
  match readVarInt br with
  | .error e => ([], .error e)
  | .ok (id, br) =>
    if id ≠ 0 then ([], .error (.badID id))
    else match readVarInt br with
      | .error e => ([], .error e)
      | .ok (strLen, br) =>
        if strLen < 0 ∨ maxStatusPacket < strLen then ([], .error (.badStatusLength strLen))
        else ([strLen.toNat], match readBytes strLen.toNat br with
          | none => .error .eof
          | some (out, _) => .ok out)

def readStatusJSON (r : Bytes) : List Nat × Except PingErr (Bytes × Bytes) :=
  match readVarInt r with
  | .error e => ([], .error e)
  | .ok (length, r) =>
    if length ≤ 0 ∨ maxStatusPacket < length then ([], .error (.badLength length))
    else match readBytes length.toNat r with
      | none => ([length.toNat], .error .eof)
      | some (body, r) => (readStatusBody body).map (length.toNat :: ·) (·.map (·, r))

theorem div_lt_pow (hu : u < 128 ^ (k + 1)) : u / 128 < 128 ^ k :=
  Nat.div_lt_of_lt_mul (by rw [Nat.pow_succ] at hu; omega)

theorem length_writeGroups (hu : u < 128 ^ (k + 1)) : (writeGroups u).length ≤ k + 1 := by
  induction k generalizing u with
  | zero =>
    rw [writeGroups, if_pos (by omega)]
    simp
  | succ k ih =>
    rw [writeGroups]
    split
    · simp
    have := ih (div_lt_pow hu)
    rw [List.length_cons]
    omega

theorem or_group (ha : acc < 2 ^ (7 * i)) (hs : acc + g * 2 ^ (7 * i) < 2 ^ 32) :
    acc ||| g <<< (7 * i) % 2 ^ 32 = acc + g * 2 ^ (7 * i) := by
  rw [Nat.shiftLeft_eq, Nat.mod_eq_of_lt (by omega), Nat.or_comm, ← Nat.shiftLeft_eq,
    ← Nat.shiftLeft_add_eq_or_of_lt ha, Nat.shiftLeft_eq, Nat.add_comm]

theorem readGroups_last (hu : u / 128 = 0) (ha : acc < 2 ^ (7 * i))
    (hs : acc + u * 2 ^ (7 * i) < 2 ^ 32) (rest : Bytes) :
    readGroups i acc (k + 1) (writeGroups u ++ rest) =
      .ok (toInt32 (acc + u * 2 ^ (7 * i)), rest) := by
  have hb : (UInt8.ofNat u).toNat = u := by
    rw [UInt8.toNat_ofNat']
    omega
  rw [writeGroups, if_pos hu, List.singleton_append, readGroups]
  simp only [hb]
  rw [if_pos (by omega), Nat.mod_eq_of_lt (show u < 128 by omega), or_group ha hs]

theorem readGroups_append (hu : u < 128 ^ (k + 1)) (ha : acc < 2 ^ (7 * i))
    (hs : acc + u * 2 ^ (7 * i) < 2 ^ 32) (rest : Bytes) :
    readGroups i acc (k + 1) (writeGroups u ++ rest) =
      .ok (toInt32 (acc + u * 2 ^ (7 * i)), rest) := by
  induction k generalizing u i acc with
  | zero => exact readGroups_last (by omega) ha hs rest
  | succ k ih =>
    by_cases h0 : u / 128 = 0
    · exact readGroups_last h0 ha hs rest
    have hb : (UInt8.ofNat (u % 128 + 128)).toNat = u % 128 + 128 := by
      rw [UInt8.toNat_ofNat']
      omega
    have hp : 2 ^ (7 * (i + 1)) = 128 * 2 ^ (7 * i) := by
      rw [Nat.mul_succ, Nat.pow_add]
      omega
    have hd : u * 2 ^ (7 * i) = u % 128 * 2 ^ (7 * i) + u / 128 * 2 ^ (7 * (i + 1)) := by
      conv_lhs => rw [← Nat.mod_add_div u 128]
      rw [hp, Nat.add_mul, Nat.mul_comm 128, Nat.mul_assoc]
    have hm : u % 128 * 2 ^ (7 * i) ≤ 127 * 2 ^ (7 * i) := Nat.mul_le_mul_right _ (by omega)
    rw [hd, ← Nat.add_assoc] at hs ⊢
    rw [writeGroups, if_neg h0, List.cons_append, readGroups]
    simp only [hb]
    rw [if_neg (by omega), show (u % 128 + 128) % 128 = u % 128 by omega, or_group ha (by omega)]
    exact ih (div_lt_pow hu) (by omega) hs

def Signed32 (n : Int) : Prop := -2 ^ 31 ≤ n ∧ n < 2 ^ 31

theorem readVarInt_append (hn : Signed32 n) (rest : Bytes) :
    readVarInt (writeVarInt n ++ rest) = .ok (n, rest) := by
  obtain ⟨hl, hh⟩ := hn
  have hr : readGroups 0 0 5 (writeGroups (n % 2 ^ 32).toNat ++ rest) =
      .ok (toInt32 (0 + (n % 2 ^ 32).toNat * 2 ^ (7 * 0)), rest) :=
    readGroups_append (by omega) (by omega) (by omega) rest
  rw [readVarInt, writeVarInt, hr, Nat.zero_add, Nat.mul_zero, Nat.pow_zero, Nat.mul_one, toInt32]
  congr 2
  split <;> omega

theorem length_writeVarInt (n : Int) : (writeVarInt n).length ≤ 5 :=
  length_writeGroups (by omega)

theorem readStatusBody_written (hl : s.length ≤ maxStatusPacket) :
    readStatusBody (0 :: writeString s) = ([s.length], .ok s) := by
  have h0 : writeVarInt 0 = [0] := by
    rw [writeVarInt, writeGroups]
    rfl
  have hm : (s.length : Int) ≤ 2 ^ 20 := by exact_mod_cast hl
  rw [← List.singleton_append, ← h0, readStatusBody, readVarInt_append (by unfold Signed32; omega)]
  simp only [ne_eq, not_true_eq_false, if_false]
  rw [writeString, readVarInt_append (by unfold Signed32; omega)]
  simp only
  rw [if_neg (by simp only [maxStatusPacket]; omega), Int.toNat_natCast]
  have hb := readBytes_append (a := s) rfl []
  rw [List.append_nil] at hb
  rw [hb]

theorem readStatusJSON_written (hp : 1 ≤ body.length) (hl : body.length ≤ maxStatusPacket)
    (rest : Bytes) : readStatusJSON (writePacket body ++ rest) =
      (readStatusBody body).map (body.length :: ·) (·.map (·, rest)) := by
  have hm : (body.length : Int) ≤ 2 ^ 20 := by exact_mod_cast hl
  rw [readStatusJSON, writePacket, List.append_assoc, readVarInt_append (by unfold Signed32; omega)]
  simp only
  rw [if_neg (by simp only [maxStatusPacket]; omega), Int.toNat_natCast, readBytes_append rfl]

theorem readGroups_suffix {r' : Bytes} (h : readGroups i acc k r = .ok (n, r')) : r' <:+ r := by
  induction k generalizing i acc r with
  | zero => cases h
  | succ k ih =>
    cases r with
    | nil => cases h
    | cons b r =>
      rw [readGroups] at h
      split at h
      · cases h
        exact List.suffix_cons b _
      · exact (ih h).trans (List.suffix_cons b r)

theorem readStatusBody_spec (b : Bytes) : (∀ n ∈ (readStatusBody b).1, n ≤ maxStatusPacket) ∧
    ∀ out, (readStatusBody b).2 = .ok out → out <:+: b := by
  unfold readStatusBody
  split
  · exact ⟨nofun, nofun⟩
  rename_i id br hid
  split
  · exact ⟨nofun, nofun⟩
  split
  · exact ⟨nofun, nofun⟩
  rename_i strLen br' hlen
  split <;> rename_i hs
  · exact ⟨nofun, nofun⟩
  refine ⟨fun n hn => ?_, fun out ho => ?_⟩
  · rw [List.mem_singleton.mp hn]
    omega
  dsimp only at ho
  split at ho <;> rename_i hr
  · cases ho
  cases ho
  rw [readBytes, Option.ite_none_right_eq_some] at hr
  cases hr.2
  have ht : br'.take strLen.toNat <:+: br' := ( List.take_prefix _ _).isInfix
  exact ht.trans ((readGroups_suffix hlen).trans (readGroups_suffix hid)).isInfix

structure Bounded (r : Bytes) : Prop where
  buffers : ∀ n ∈ (readStatusJSON r).1, n ≤ maxStatusPacket
  within : (readStatusJSON r).2 = .ok (out, rest) → ∃ length r', readVarInt r = .ok (length, r') ∧
    out <:+: r'.take length.toNat ∧ rest = r'.drop length.toNat

theorem readStatusJSON_bounded (r : Bytes) : Bounded r := by
  have hno : ∀ (bufs : List Nat) {e}, (∀ n ∈ bufs, n ≤ maxStatusPacket) →
      readStatusJSON r = (bufs, .error e) → Bounded r := fun _ _ hb he =>
    ⟨he ▸ hb, fun ho => absurd (he ▸ ho) nofun⟩
  cases hv : readVarInt r with
  | error e => exact hno [] nofun (by rw [readStatusJSON, hv])
  | ok v =>
    obtain ⟨length, r'⟩ := v
    by_cases hl : length ≤ 0 ∨ maxStatusPacket < length
    · exact hno [] nofun (by rw [readStatusJSON, hv]; exact if_pos hl)
    have hm : ∀ n ∈ [length.toNat], n ≤ maxStatusPacket := by
      simp only [List.mem_singleton, forall_eq]
      omega
    cases hb : readBytes length.toNat r' with
    | none => exact hno _ (e := .eof) hm (by rw [readStatusJSON, hv]; simp only [if_neg hl, hb])
    | some br =>
      obtain ⟨body, rest'⟩ := br
      have he : readStatusJSON r =
          (readStatusBody body).map (length.toNat :: ·) (·.map (·, rest')) := by
        rw [readStatusJSON, hv]
        simp only [if_neg hl, hb]
      obtain ⟨hbuf, hout⟩ := readStatusBody_spec body
      rw [readBytes, Option.ite_none_right_eq_some] at hb
      cases hb.2
      refine ⟨?_, fun {out rest} ho => ⟨length, r', hv, ?_⟩⟩
      · rw [he]
        exact List.forall_mem_cons.mpr ⟨hm _ (.head _), hbuf⟩
      rw [he] at ho
      cases hs : (readStatusBody (r'.take length.toNat)).2 with
      | error e =>
        simp only [Prod.map_snd, hs] at ho
        cases ho
      | ok out' =>
        simp only [Prod.map_snd, hs] at ho
        cases ho
        exact ⟨hout _ hs, rfl⟩

/-- Numbers and status packets are read as they were written, and a hostile peer is kept in bounds. -/
theorem ping_framed : (∀ n, Signed32 n → (writeVarInt n).length ≤ 5 ∧
      ∀ rest, readVarInt (writeVarInt n ++ rest) = .ok (n, rest)) ∧
    (∀ m n, Signed32 m → Signed32 n → writeVarInt m <+: writeVarInt n → m = n) ∧
    (∀ s, (0 :: writeString s).length ≤ maxStatusPacket → ∀ rest,
      (readStatusJSON (writePacket (0 :: writeString s) ++ rest)).2 = .ok (s, rest)) ∧
    ∀ r, Bounded r := by
  refine ⟨fun n hn => ⟨length_writeVarInt n, readVarInt_append hn⟩, fun m n hm hn hp => ?_,
    fun s hs rest => ?_, readStatusJSON_bounded⟩
  · obtain ⟨t, ht⟩ := hp
    have hr := readVarInt_append hn []
    rw [List.append_nil, ← ht, readVarInt_append hm] at hr
    cases hr
    rfl
  · have hl : s.length ≤ maxStatusPacket := by
      simp only [writeString, List.length_cons, List.length_append] at hs
      omega
    rw [readStatusJSON_written (by simp) hs, readStatusBody_written hl]
    rfl

end Craftling.Minecraft.Ping

import Craftling.Guest.Rcon

namespace Craftling.Minecraft.Rcon
open Effects

def readFull (n : Nat) (r : Bytes) : Option Bytes × Bytes :=
  if n ≤ r.length then (some (r.take n), r.drop n) else (none, [])

def readStream (r : Bytes) : Except RconErr Packet × Bytes :=
  match readFull 4 r with
  | (none, r) => (.error .eof, r)
  | (some len, r) =>
    let n := leNat len
    if n < 10 ∨ maxBody + 10 < n then (.error (.badLength n), r)
    else match readFull n r with
      | (none, r) => (.error .eof, r)
      | (some payload, r) =>
        let b := payload.drop 8
        (.ok ⟨leNat (payload.take 4), leNat ((payload.drop 4).take 4), b.take (b.length - 2)⟩, r)

theorem readRCON_eq (r : Bytes) : readRCON r = (readStream r).1.map (·, (readStream r).2) := by
  unfold readRCON readStream readBytes readFull
  by_cases hr : 4 ≤ r.length
  · simp only [if_pos hr]
    split
    · rfl
    by_cases hn : leNat (r.take 4) ≤ (r.drop 4).length
    · simp only [if_pos hn]
      rfl
    · simp only [if_neg hn]
      rfl
  · simp only [if_neg hr]
    rfl

def readPackets : Nat → Bytes → List Packet × Except RconErr Bytes
  | 0, r => ([], .ok r)
  | n + 1, r => match readRCON r with
    | .error e => ([], .error e)
    | .ok (p, r) => ((readPackets n r).map (p :: ·) id)

structure Packet.Fits (p : Packet) : Prop where
  num : p.num < 2 ^ 32
  typ : p.typ < 2 ^ 32
  body : p.body.length ≤ maxBody

def Packet.write (p : Packet) : Bytes := writeRCON p.num p.typ p.body

theorem Packet.Fits.read {p : Packet} (h : p.Fits) (rest : Bytes) :
    readRCON (p.write ++ rest) = .ok (p, rest) :=
  readRCON_append h.num h.typ h.body rest

theorem readPackets_append {ps : List Packet} (h : ∀ p ∈ ps, p.Fits) (rest : Bytes) :
    readPackets ps.length (ps.flatMap Packet.write ++ rest) = (ps, .ok rest) := by
  induction ps with
  | nil => rfl
  | cons p ps ih =>
    have hp := (h p (.head _)).read (ps.flatMap Packet.write ++ rest)
    rw [List.flatMap_cons, List.append_assoc, List.length_cons, readPackets, hp]
    simp only [ih fun q hq => h q (.tail _ hq)]
    rfl

theorem Packet.Fits.read_cut {p : Packet} (h : p.Fits) (hk : k < p.write.length) :
    readRCON (p.write.take k) = .error .eof := by
  have hb : p.body.length ≤ 4096 := h.body
  have hw : p.write = leBytes 4 (4 + 4 + p.body.length + 2) ++
      (leBytes 4 p.num ++ (leBytes 4 p.typ ++ (p.body ++ [0, 0]))) := by
    simp [Packet.write, writeRCON, record]
  rw [hw] at hk ⊢
  simp only [List.length_append, length_leBytes, List.length_cons, List.length_nil] at hk
  unfold readRCON
  by_cases h4 : 4 ≤ k
  · obtain ⟨j, rfl⟩ := Nat.exists_eq_add_of_le h4
    rw [List.take_append, length_leBytes, List.take_of_length_le (by simp), Nat.add_sub_cancel_left,
      readBytes_append (length_leBytes ..)]
    simp only [leNat_leBytes (show 4 + 4 + p.body.length + 2 < 256 ^ 4 by omega)]
    rw [if_neg (by simp only [maxBody]; omega), readBytes, if_neg]
    rw [List.length_take]
    omega
  · rw [readBytes, if_neg]
    rw [List.length_take]
    omega

theorem readPackets_cut {ps : List Packet} (h : ∀ p ∈ ps, p.Fits) (hk : k < (ps.flatMap Packet.write).length) :
    ∃ i < ps.length, ((ps.take i).flatMap Packet.write).length ≤ k ∧
      k < ((ps.take (i + 1)).flatMap Packet.write).length ∧
      readPackets ps.length ((ps.flatMap Packet.write).take k) = (ps.take i, .error .eof) := by
  induction ps generalizing k with
  | nil => exact absurd hk (Nat.not_lt_zero k)
  | cons p ps ih =>
    have hp := h p (.head _)
    rw [List.flatMap_cons, List.length_append] at hk
    rw [List.flatMap_cons, List.length_cons]
    by_cases hc : k < p.write.length
    · refine ⟨0, Nat.succ_pos _, Nat.zero_le k, by simpa using hc, ?_⟩
      rw [List.take_append_of_le_length hc.le, readPackets, hp.read_cut hc]
      rfl
    obtain ⟨j, rfl⟩ := Nat.exists_eq_add_of_le (not_lt.mp hc)
    obtain ⟨i, hi, hl, hu, hr⟩ := ih (fun q hq => h q (.tail _ hq)) (k := j) (by omega)
    refine ⟨i + 1, by omega, ?_, ?_, ?_⟩
    · rw [List.take_succ_cons, List.flatMap_cons, List.length_append]
      omega
    · rw [List.take_succ_cons, List.flatMap_cons, List.length_append]
      omega
    · rw [List.take_length_add_append, readPackets, hp.read]
      simp only [hr]
      rfl

theorem readFull_spec (n : Nat) (r : Bytes) : ∃ m ≤ n, (readFull n r).2 = r.drop m ∧
    ∀ b ∈ (readFull n r).1, m = n ∧ n ≤ r.length := by
  unfold readFull
  by_cases h : n ≤ r.length
  · rw [if_pos h]
    exact ⟨n, le_rfl, rfl, fun _ _ => ⟨rfl, h⟩⟩
  · rw [if_neg h]
    exact ⟨r.length, by omega, (List.drop_length).symm, nofun⟩

theorem readStream_consumes (r : Bytes) : ∃ m ≤ 4110, (readStream r).2 = r.drop m ∧
    ∀ n, (readStream r).1 = .error (.badLength n) → m = 4 ∧ 4 ≤ r.length := by
  obtain ⟨m, hm, hd, hs⟩ := readFull_spec 4 r
  unfold readStream
  split <;> rename_i hf <;> rw [hf] at hd hs
  · exact ⟨m, by omega, hd, nofun⟩
  rename_i len r'
  obtain ⟨rfl, hr⟩ := hs len rfl
  dsimp only at hd ⊢
  split <;> rename_i hn
  · exact ⟨4, by omega, hd, fun _ _ => ⟨rfl, hr⟩⟩
  obtain ⟨j, hj, hdj, -⟩ := readFull_spec (leNat len) r'
  have hb : leNat len ≤ 4106 := not_lt.mp (not_or.mp hn).2
  refine ⟨4 + j, by omega, ?_, ?_⟩
  · rw [← List.drop_drop, ← hd, ← hdj]
    split <;> rename_i hf' <;> rw [hf']
  · split <;> nofun

/-- Packets that are sent are read, a cut one is an error, and no read takes more than a packet. -/
theorem rcon_framed : (∀ (ps : List Packet) rest, (∀ p ∈ ps, p.Fits) →
      readPackets ps.length (ps.flatMap Packet.write ++ rest) = (ps, .ok rest)) ∧
    (∀ (ps : List Packet) k, (∀ p ∈ ps, p.Fits) → k < (ps.flatMap Packet.write).length →
      ∃ i < ps.length, ((ps.take i).flatMap Packet.write).length ≤ k ∧
        k < ((ps.take (i + 1)).flatMap Packet.write).length ∧
        readPackets ps.length ((ps.flatMap Packet.write).take k) = (ps.take i, .error .eof)) ∧
    ∀ r, readRCON r = (readStream r).1.map (·, (readStream r).2) ∧
      ∃ m ≤ 4110, (readStream r).2 = r.drop m ∧
        ∀ n, (readStream r).1 = .error (.badLength n) → m = 4 ∧ 4 ≤ r.length :=
  ⟨fun _ rest h => readPackets_append h rest, fun _ _ h hk => readPackets_cut h hk,
    fun r => ⟨readRCON_eq r, readStream_consumes r⟩⟩

example : readPackets 2 (Packet.write ⟨3, 2, [104]⟩ ++ (Packet.write ⟨4, 2, []⟩ ++ [9])) =
    ([⟨3, 2, [104]⟩, ⟨4, 2, []⟩], .ok [9]) := by
  decide

end Craftling.Minecraft.Rcon

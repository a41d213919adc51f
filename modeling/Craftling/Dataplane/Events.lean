import Craftling.Dataplane.Inverse

namespace Craftling.Dataplane
open Effects

def EventDir.code : EventDir → UInt8
  | .egress => 0
  | .egressReply => 1
  | .inbound => 2
  | .inboundReply => 3
  | .deny => 4

/-- The `struct nat_event` that `emit` submits. The addresses and ports are in network order, and the
length in that of the host, which is little-endian. -/
def NatEvent.sample (e : NatEvent) : Bytes :=
  beBytes 4 e.orig.saddr.toNat ++ beBytes 4 e.orig.daddr.toNat ++ beBytes 4 e.newSaddr.toNat ++
    beBytes 4 e.newDaddr.toNat ++ beBytes 4 e.vmIP.toNat ++ beBytes 2 e.orig.sport.toNat ++
    beBytes 2 e.orig.dport.toNat ++ beBytes 2 e.newSport.toNat ++ beBytes 2 e.newDport.toNat ++
    leBytes 2 e.orig.totLen ++
    [UInt8.ofNat e.orig.proto, e.dir.code, if e.dropped then 1 else 0, 0, 0, 0]

structure NatFlowEvent where
  origSrc : Bytes
  origDst : Bytes
  newSrc : Bytes
  newDst : Bytes
  vmIP : Bytes
  origSP : Nat
  origDP : Nat
  newSP : Nat
  newDP : Nat
  length : Nat
  proto : Nat
  dir : Nat
  verdict : Nat
  deriving DecidableEq, Repr

def decodeNatEvent (raw : Bytes) : Option NatFlowEvent :=
  if raw.length < 33 then none
  else some
    { origSrc := slice raw 0 4
      origDst := slice raw 4 4
      newSrc := slice raw 8 4
      newDst := slice raw 12 4
      vmIP := slice raw 16 4
      origSP := word raw 20 2
      origDP := word raw 22 2
      newSP := word raw 24 2
      newDP := word raw 26 2
      length := word raw 28 2
      proto := word raw 30 1
      dir := word raw 31 1
      verdict := word raw 32 1 }

def NatEvent.told (e : NatEvent) (length : Nat) : NatFlowEvent :=
  { origSrc := beBytes 4 e.orig.saddr.toNat
    origDst := beBytes 4 e.orig.daddr.toNat
    newSrc := beBytes 4 e.newSaddr.toNat
    newDst := beBytes 4 e.newDaddr.toNat
    vmIP := beBytes 4 e.vmIP.toNat
    origSP := e.orig.sport.toNat
    origDP := e.orig.dport.toNat
    newSP := e.newSport.toNat
    newDP := e.newDport.toNat
    length := length
    proto := e.orig.proto
    dir := e.dir.code.toNat
    verdict := if e.dropped then 1 else 0 }

theorem slice_append (h : a.length = n) (b : Bytes) : slice (a ++ b) 0 n = a :=
  List.take_left' h

theorem slice_skip (h : a.length ≤ off) (b : Bytes) (n : Nat) :
    slice (a ++ b) off n = slice b (off - a.length) n := by
  rw [slice, List.drop_append, List.drop_eq_nil_of_le h, List.nil_append, slice]

theorem decodeNatEvent_sample {e : NatEvent} (hp : e.orig.proto < 256) :
    decodeNatEvent e.sample = some (e.told (beNat (leBytes 2 e.orig.totLen))) := by
  have hport : ∀ p : Port, beNat (beBytes 2 p.toNat) = p.toNat := fun p => beNat_beBytes p.toNat_lt
  have hbyte : ∀ (b : UInt8) r, beNat (slice (b :: r) 0 1) = b.toNat := fun b r => by
    simp [slice, beNat, leNat]
  have hv : (if e.dropped then 1 else 0 : UInt8).toNat = if e.dropped then 1 else 0 := by
    split <;> rfl
  have hs : ∀ (b : UInt8) r off, slice (b :: r) (off + 1) 1 = slice r off 1 := fun _ _ _ => rfl
  rw [decodeNatEvent, if_neg (by simp [NatEvent.sample])]
  simp [NatEvent.told, NatEvent.sample, word, slice_append, slice_skip, hport, hbyte, hs,
    Nat.mod_eq_of_lt hp, hv]

theorem beNat_leBytes_iff (h : n < 65536) : beNat (leBytes 2 n) = n ↔ n / 256 = n % 256 := by
  have he : beNat (leBytes 2 n) = n / 256 + 256 * (n % 256) := by
    simp [beNat, leBytes, leNat]
    omega
  omega

/-- A sample tells its event exactly if the two bytes of the packet's length are equal. -/
theorem event_decoded_iff (e : NatEvent) (hp : e.orig.proto < 256) (hl : e.orig.totLen < 65536) :
    (∀ raw : Bytes, raw.length < 33 → decodeNatEvent raw = none) ∧
      (decodeNatEvent e.sample = some (e.told e.orig.totLen) ↔
        e.orig.totLen / 256 = e.orig.totLen % 256) := by
  refine ⟨fun raw hr => if_pos hr, ?_⟩
  rw [decodeNatEvent_sample hp, ← beNat_leBytes_iff hl]
  simp [NatEvent.told]

/-- A packet of 257 bytes that goes out under the host's address. -/
def translated : NatEvent :=
  ⟨⟨14, 34, 6, 40000, 443, vmAddr, remoteAddr, 257⟩, vmAddr, .egress, false, hostAddr, remoteAddr,
    50000, 443⟩

theorem translated_decoded : decodeNatEvent translated.sample = some (translated.told 257) :=
  (event_decoded_iff translated (by decide) (by decide)).2.mpr rfl

/-- The machine's packet of 40 bytes is told as one of 10240. -/
theorem event_length_swapped :
    (natTap (smallMaps []) (.working 50000) 7 vmOpens .empty).track.events.map
      (fun e => (e.orig.totLen, (decodeNatEvent e.sample).map (·.length))) =
        [(40, some 10240)] := by
  decide +kernel

end Craftling.Dataplane

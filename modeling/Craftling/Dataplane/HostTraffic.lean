import Craftling.Dataplane.Inverse

namespace Craftling.Dataplane
open Effects

def Transport (f : Frame) : Prop :=
  34 ≤ f.length ∧ word f 12 2 = etherIP ∧ (word f 23 1 = 6 ∨ word f 23 1 = protoUDP)

def LaterFragment (f : Frame) : Prop := Transport f ∧ word f 20 2 &&& 0x1fff ≠ 0

/-- The frame is a part of the datagram `t`, or the whole of it. The ports of a datagram stand
before its payload, and so only in its first fragment. -/
structure PartOf (f : Frame) (t : Tuple) : Prop where
  transport : Transport f
  proto : word f 23 1 = t.proto
  src : word f 26 4 = t.src.toNat
  dst : word f 30 4 = t.dst.toNat
  ports : ∀ o, Shaped f o → o.sport = t.sport ∧ o.dport = t.dport

/-- The datagram that the frame is a part of, if it is TCP or UDP over IPv4 at all. -/
def BelongsTo (f : Frame) : Option Tuple → Prop
  | none => ¬ Transport f
  | some t => PartOf f t

/-- The datagram concerns a machine: it answers a flow that a machine has opened, or it is for a
published port. -/
def Maps.Concerns (m : Maps) (table : List Flow) (t : Tuple) : Prop :=
  (∃ e ∈ table, e.reply = t ∧ (m.vmConfig e.orig.src).isSome) ∨
    (m.dnatRules ⟨t.dst, t.dport, UInt8.ofNat t.proto⟩).isSome

structure Outcome.Untouched (out : Outcome) (f : Frame) : Prop where
  action : out.action = .ok
  frame : out.frame = f

variable {f : Frame} {o : L4off}

theorem parse_fragment_iff : parse f = .fragment ↔ LaterFragment f := by
  constructor
  · intro h
    unfold parse at h
    split at h
    · cases h
    split at h
    · cases h
    split at h
    · cases h
    dsimp only at h
    split at h
    · cases h
    split at h
    · rename_i he hl hp hf
      rw [not_and_or, Classical.not_not, Classical.not_not] at hp
      exact ⟨⟨Nat.le_of_not_lt hl, Classical.not_not.mp he, hp⟩, hf⟩
    split at h
    · cases h
    split at h
    · cases h
    · cases h
  · rintro ⟨⟨hl, he, hp⟩, hf⟩
    have ht : ¬(word f 23 1 ≠ 6 ∧ word f 23 1 ≠ protoUDP) := by
      rw [not_and_or, Classical.not_not, Classical.not_not]
      exact hp
    unfold parse
    rw [if_neg (by simp only [ethLen]; omega), if_neg (Classical.not_not.mpr he),
      if_neg (by omega), if_neg ht, if_pos hf]

theorem Shaped.carried (h : Shaped f o) : Transport f := by
  have hh := h.header
  have hf := h.fits
  refine ⟨by omega, h.etherType, ?_⟩
  rw [h.proto]
  exact h.transport

theorem PartOf.tuple (h : PartOf f t) (hs : Shaped f o) : mkTuple o = t := by
  obtain ⟨hsp, hd⟩ := h.ports o hs
  have hp : o.proto = t.proto := hs.proto.symm.trans h.proto
  have hsr : o.saddr = t.src := UInt32.toNat_inj.mp (hs.saddr.symm.trans h.src)
  have hds : o.daddr = t.dst := UInt32.toNat_inj.mp (hs.daddr.symm.trans h.dst)
  rw [mkTuple, hp, hsr, hsp, hds, hd]

theorem natUplink_host (hc : m.globalConfig = some cfg) (hs : Shaped f o)
    (hh : ¬ m.Concerns s.table (mkTuple o)) : (natUplink m k f s).Untouched f := by
  obtain ⟨hf, hp⟩ := not_or.mp hh
  obtain ⟨e, ⟨_, hfo⟩, heq⟩ | ⟨_, heq⟩ := natUplink_handled hc hs (k := k) s
  · -- The flow is one of the host's own.
    obtain ⟨he, ht⟩ := ctLookup_some hfo
    have hr : e.reply = mkTuple o := (ht.resolve_left (by simp)).2
    have hv : m.vmConfig e.orig.src = none := by
      by_contra hso
      exact hf ⟨e, he, hr, Option.isSome_iff_ne_none.mpr hso⟩
    rw [heq, answerFlow, hv]
    exact ⟨rfl, rfl⟩
  · have hru : m.rule o = none := Option.not_isSome_iff_eq_none.mp hp
    rw [heq, natUplinkRest, hru]
    exact ⟨rfl, rfl⟩

/-- A frame of a datagram that concerns no machine is left to the host as it came, exactly if it
is no fragment after the first, or the program has no configuration yet. -/
theorem host_traffic_untouched_iff (m : Maps) (k : Kfuncs) (f : Frame) (s : Track)
    (d : Option Tuple) (hd : BelongsTo f d) (hhost : ∀ t, d = some t → ¬ m.Concerns s.table t) :
    (natUplink m k f s).Untouched f ↔ m.globalConfig = none ∨ ¬ LaterFragment f := by
  cases hcfg : m.globalConfig with
  | none =>
    simp only [true_or, iff_true]
    rw [natUplink, hcfg]
    exact ⟨rfl, rfl⟩
  | some cfg =>
    simp only [reduceCtorEq, false_or]
    cases hparse : parse f with
    | pass =>
      have hwhole : ¬ LaterFragment f := fun h => by
        rw [parse_fragment_iff.mpr h] at hparse
        cases hparse
      simp only [hwhole, not_false_eq_true, iff_true, natUplink, hcfg, hparse]
      exact ⟨rfl, rfl⟩
    | fragment =>
      -- No datagram is looked for: the frame is dropped.
      have hlater := parse_fragment_iff.mp hparse
      simp only [hlater, not_true_eq_false, iff_false, natUplink, hcfg, hparse]
      intro h
      cases h.action
    | handled o =>
      have hshaped := parse_handled_iff.mp hparse
      have hwhole : ¬ LaterFragment f := fun h => h.2 hshaped.whole
      simp only [hwhole, not_false_eq_true, iff_true]
      cases d with
      | none => exact absurd hshaped.carried hd
      | some t =>
        obtain rfl : mkTuple o = t := PartOf.tuple hd hshaped
        exact natUplink_host hcfg hshaped (hhost _ rfl)

/-- A connection to the host's own port 22 concerns no machine. -/
theorem ssh_to_host :
    (natUplink (smallMaps []) (.working 0) (tcpFrame remoteAddr 5000 hostAddr 22) .empty).Untouched
      (tcpFrame remoteAddr 5000 hostAddr 22) := by
  have hshaped : Shaped (tcpFrame remoteAddr 5000 hostAddr 22)
      (tcpHeaders remoteAddr 5000 hostAddr 22) := parse_handled_iff.mp (by decide +kernel)
  refine (host_traffic_untouched_iff (smallMaps []) (.working 0) _ .empty
    (some ⟨6, remoteAddr, 5000, hostAddr, 22⟩) ?_ ?_).mpr (.inr fun h => h.2 hshaped.whole)
  · refine ⟨hshaped.carried, hshaped.proto, hshaped.saddr, hshaped.daddr, fun o ho => ?_⟩
    rw [ho.unique hshaped]
    exact ⟨rfl, rfl⟩
  · rintro _ ⟨⟩ (⟨e, he, _⟩ | hrule)
    · cases he
    · revert hrule
      decide

/-- The second fragment of a UDP datagram from a remote host to the host's own port 53: its
offset is 185 times 8 bytes. -/
def laterFragment : Frame :=
  List.replicate 12 0 ++ beBytes 2 etherIP ++ [0x45, 0, 0, 40, 0, 1, 0, 185, 64, 17, 0, 0] ++
    beBytes 4 remoteAddr.toNat ++ beBytes 4 hostAddr.toNat ++ List.replicate 20 0

/-- No flow is tracked and no UDP port is published, and still the fragment is dropped. -/
theorem host_fragment_dropped :
    BelongsTo laterFragment (some ⟨17, remoteAddr, 5000, hostAddr, 53⟩) ∧
      (∀ t, (some ⟨17, remoteAddr, 5000, hostAddr, 53⟩ : Option Tuple) = some t →
        ¬ (smallMaps []).Concerns Track.empty.table t) ∧
      (natUplink (smallMaps []) (.working 0) laterFragment .empty).action = .shot := by
  refine ⟨⟨⟨?_, ?_, ?_⟩, ?_, ?_, ?_, fun o ho => ?_⟩, ?_, ?_⟩
  · decide +kernel
  · decide +kernel
  · decide +kernel
  · decide +kernel
  · decide +kernel
  · decide +kernel
  · have hoffset : word laterFragment 20 2 &&& 0x1fff ≠ 0 := by decide +kernel
    exact absurd ho.whole hoffset
  · rintro _ ⟨⟩ (⟨e, he, _⟩ | hrule)
    · cases he
    · revert hrule
      decide
  · decide +kernel

end Craftling.Dataplane

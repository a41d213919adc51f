import Craftling.Dataplane.Ipam

namespace Craftling.Dataplane
open List

section Scan

variable [DecidableEq α] {next : α → α} {used : List α}

theorem scan_none {start : α} (h : (scan next used n start).1 = none) :
    ∀ i < n, next^[i] start ∈ used := by
  induction n generalizing start with
  | zero => exact fun _ hi => absurd hi (Nat.not_lt_zero _)
  | succ n ih =>
    unfold scan at h
    split at h
    · rename_i hu
      intro i hi
      cases i with
      | zero => exact hu
      | succ i => exact ih h i (Nat.lt_of_succ_lt_succ hi)
    · cases h

/-- The values go up from `lo` to `hi` and then around, as `f` numbers them. -/
structure Cycle (next : α → α) (f : α → Nat) (lo hi : Nat) : Prop where
  injective : ∀ x y, f x = f y → x = y
  wrap : ∀ x, f x = hi → f (next x) = lo
  up : ∀ x, lo ≤ f x → f x < hi → f (next x) = f x + 1

variable {f : α → Nat} {lo hi : Nat}

omit [DecidableEq α] in
theorem Cycle.within (h : Cycle next f lo hi) (hx : lo ≤ f x ∧ f x ≤ hi) :
    lo ≤ f (next x) ∧ f (next x) ≤ hi := by
  rcases Nat.lt_or_eq_of_le hx.2 with hl | he
  · have hu := h.up x hx.1 hl
    omega
  · have hw := h.wrap x he
    omega

omit [DecidableEq α] in
theorem Cycle.reaches (h : Cycle next f lo hi) (hs : lo ≤ f s ∧ f s ≤ hi) (i : Nat) :
    f (next^[i] s) = lo + (f s - lo + i) % (hi - lo + 1) := by
  induction i generalizing s with
  | zero =>
    rw [Function.iterate_zero_apply, Nat.add_zero, Nat.mod_eq_of_lt (by omega)]
    omega
  | succ i ih =>
    rw [Function.iterate_succ_apply, ih (h.within hs)]
    rcases Nat.lt_or_eq_of_le hs.2 with hl | he
    · rw [h.up s hs.1 hl, show f s + 1 - lo + i = f s - lo + (i + 1) by omega]
    · rw [h.wrap s he, show f s - lo + (i + 1) = lo - lo + i + (hi - lo + 1) by omega,
        Nat.add_mod_right]

theorem Cycle.covers (h : Cycle next f lo hi) (hs : lo ≤ f s ∧ f s ≤ hi)
    (hn : (scan next used (hi - lo + 1) s).1 = none) (hx : lo ≤ f x ∧ f x ≤ hi) : x ∈ used := by
  obtain ⟨i, hi', hm⟩ : ∃ i < hi - lo + 1, (f s - lo + i) % (hi - lo + 1) = f x - lo := by
    rcases Nat.le_total (f s) (f x) with hle | hle
    · refine ⟨f x - f s, by omega, ?_⟩
      rw [show f s - lo + (f x - f s) = f x - lo by omega, Nat.mod_eq_of_lt (by omega)]
    rcases Nat.eq_or_lt_of_le hle with he | hlt
    · refine ⟨0, by omega, ?_⟩
      rw [Nat.add_zero, he, Nat.mod_eq_of_lt (by omega)]
    · refine ⟨f x + (hi - lo + 1) - f s, by omega, ?_⟩
      rw [show f s - lo + (f x + (hi - lo + 1) - f s) = f x - lo + (hi - lo + 1) by omega,
        Nat.add_mod_right, Nat.mod_eq_of_lt (by omega)]
  have he : next^[i] s = x := by
    apply h.injective
    rw [h.reaches hs, hm]
    omega
  exact he ▸ scan_none hn i hi'

theorem Cycle.scan_spec (h : Cycle next f lo hi) (hs : lo ≤ f s ∧ f s ≤ hi) (used : List α) :
    (lo ≤ f (scan next used (hi - lo + 1) s).2 ∧ f (scan next used (hi - lo + 1) s).2 ≤ hi) ∧
      ((scan next used (hi - lo + 1) s).1 = none ∧ (∀ x, lo ≤ f x ∧ f x ≤ hi → x ∈ used) ∨
        ∃ c, (scan next used (hi - lo + 1) s).1 = some c ∧ c ∉ used ∧ lo ≤ f c ∧ f c ≤ hi) := by
  have hw := @scan_within _ _ next used (fun x => lo ≤ f x ∧ f x ≤ hi) (fun _ => h.within)
    (hi - lo + 1) s hs
  refine ⟨hw.2, ?_⟩
  cases hc : (scan next used (hi - lo + 1) s).1 with
  | none => exact .inl ⟨rfl, fun x hx => h.covers hs hc hx⟩
  | some c => exact .inr ⟨c, rfl, scan_fresh hc, hw.1 c hc⟩

end Scan

theorem toNat_masked (x : UInt32) (hk : k ≤ 32) :
    (x &&& ~~~UInt32.ofNat (2 ^ k - 1)).toNat = x.toNat / 2 ^ k * 2 ^ k := by
  have hp := Nat.two_pow_pos k
  have hle : 2 ^ k ≤ 2 ^ 32 := Nat.pow_le_pow_right (by decide) hk
  have hm : (UInt32.ofNat (2 ^ k - 1)).toNat = 2 ^ k - 1 := by
    rw [UInt32.toNat_ofNat', Nat.mod_eq_of_lt]
    omega
  have hn : (~~~UInt32.ofNat (2 ^ k - 1)).toNat = 2 ^ 32 - ((2 ^ k - 1) + 1) := by
    rw [UInt32.toNat_not, hm]
    have hs : UInt32.size = 2 ^ 32 := rfl
    omega
  rw [UInt32.toNat_and, hn]
  refine Nat.eq_of_testBit_eq fun i => ?_
  rw [Nat.testBit_and, Nat.testBit_two_pow_sub_succ (by omega), Nat.testBit_two_pow_sub_one,
    Nat.testBit_mul_two_pow, Nat.testBit_div_two_pow]
  by_cases hi : k ≤ i
  · rw [Nat.sub_add_cancel hi]
    by_cases hj : i < 32
    · simp [hi, hj, Nat.not_lt.mpr hi]
    · have hx : x.toNat.testBit i = false :=
        Nat.testBit_lt_two_pow (Nat.lt_of_lt_of_le x.toNat_lt (Nat.pow_le_pow_right (by decide) (by omega)))
      simp [hx]
  · simp [hi, Nat.lt_of_not_le hi]

namespace IPNet

variable {n : IPNet} {a : Addr}

/-- The network address and the size of the network, as numbers. -/
theorem netAddr_spec (h : n.ones ≤ 30) : ∃ q k, 2 ≤ k ∧ k ≤ 32 ∧ (q + 1) * 2 ^ k ≤ 2 ^ 32 ∧
    n.hostBits = UInt32.ofNat (2 ^ k - 1) ∧ n.netAddr.toNat = q * 2 ^ k ∧
      (n.netAddr ||| n.hostBits).toNat = q * 2 ^ k + (2 ^ k - 1) := by
  have hs : ∀ o ≤ 30, 0xffffffff >>> o = 2 ^ (32 - o) - 1 := by decide
  have hb : n.hostBits = UInt32.ofNat (2 ^ (32 - n.ones) - 1) := by rw [hostBits, hs _ h]
  generalize hk : 32 - n.ones = k at hb
  have hp := Nat.two_pow_pos k
  have hle : 2 ^ k ≤ 2 ^ 32 := Nat.pow_le_pow_right (by decide) (by omega)
  have hn : n.netAddr.toNat = n.ip.toNat / 2 ^ k * 2 ^ k := by
    rw [netAddr, hb, toNat_masked _ (by omega)]
  have hq : n.ip.toNat / 2 ^ k < 2 ^ (32 - k) := by
    apply Nat.div_lt_of_lt_mul
    rw [← Nat.pow_add, Nat.add_sub_cancel' (by omega)]
    exact n.ip.toNat_lt
  refine ⟨_, k, by omega, by omega, ?_, hb, hn, ?_⟩
  · calc (n.ip.toNat / 2 ^ k + 1) * 2 ^ k ≤ 2 ^ (32 - k) * 2 ^ k := Nat.mul_le_mul_right _ hq
      _ = 2 ^ 32 := by rw [← Nat.pow_add, Nat.sub_add_cancel (by omega)]
  · rw [UInt32.toNat_or, hn, hb, UInt32.toNat_ofNat', Nat.mod_eq_of_lt (by omega), Nat.mul_comm]
    exact (Nat.two_pow_add_eq_or_of_lt (by omega) _).symm

theorem lastHost_spec (h : n.ones ≤ 30) :
    n.lastHost.toNat + 1 = (n.netAddr ||| n.hostBits).toNat := by
  obtain ⟨q, k, hk, -, -, -, -, ho⟩ := netAddr_spec h
  have h4 : 2 ^ 2 ≤ 2 ^ k := Nat.pow_le_pow_right (by decide) hk
  rw [lastHost, if_pos (by omega), UInt32.toNat_sub_of_le, UInt32.toNat_one]
  · omega
  · rw [UInt32.le_iff_toNat_le, ho, UInt32.toNat_one]
    omega

/-- The addresses between the first and the last are those of the network without its own and the
broadcast address. -/
theorem host_iff (h : n.ones ≤ 30) : n.firstHost.toNat ≤ a.toNat ∧ a.toNat ≤ n.lastHost.toNat ↔
      n.contains a = true ∧ a ≠ n.netAddr ∧ a ≠ n.netAddr ||| n.hostBits := by
  obtain ⟨q, k, hk, hk', hq, hb, hn, ho⟩ := netAddr_spec h
  have h4 : 2 ^ 2 ≤ 2 ^ k := Nat.pow_le_pow_right (by decide) hk
  rw [Nat.add_mul, Nat.one_mul] at hq
  have hf : n.firstHost.toNat = q * 2 ^ k + 1 := by
    rw [firstHost, if_pos (by omega), UInt32.toNat_add, hn, UInt32.toNat_one, Nat.mod_eq_of_lt (by omega)]
  have hl := lastHost_spec h
  have hc : n.contains a = true ↔ q * 2 ^ k ≤ a.toNat ∧ a.toNat < q * 2 ^ k + 2 ^ k := by
    rw [contains, decide_eq_true_eq, ← UInt32.toNat_inj, hb, toNat_masked _ hk', hn,
      Nat.mul_left_inj (by omega), Nat.div_eq_iff (by omega)]
    omega
  rw [hc, ne_eq, ne_eq, ← UInt32.toNat_inj, ← UInt32.toNat_inj, hn, ho, hf]
  omega

end IPNet

theorem deterministicMAC_injective (h : deterministicMAC a = deterministicMAC b) : a = b := by
  simp only [deterministicMAC, Addr.octets, List.cons.injEq, true_and, and_true] at h
  obtain ⟨h3, h2, h1, h0⟩ := h
  have e3 := congrArg UInt8.toNat h3
  have e2 := congrArg UInt8.toNat h2
  have e1 := congrArg UInt8.toNat h1
  have e0 := congrArg UInt8.toNat h0
  simp [Nat.shiftRight_eq_div_pow] at e3 e2 e1 e0
  apply UInt32.toNat_inj.mp
  have ha := a.toNat_lt
  have hb := b.toNat_lt
  omega

namespace Ipam

inductive Run (start : Ipam) : Ipam → List VMNet → Prop
  | new : Run start start []
  | allocated : Run start a live → a.allocate.1 = .ok n → Run start a.allocate.2 (n :: live)
  | failed : Run start a live → a.allocate.1 = .error err → Run start a.allocate.2 live
  | released : Run start a live → n ∈ live → Run start (a.release n) (live.erase n)

variable {a b start : Ipam} {live : List VMNet} {n : VMNet}

def HasIP (a : Ipam) (ip : Addr) : Prop := a.first.toNat ≤ ip.toNat ∧ ip.toNat ≤ a.last.toNat

def HasPort (a : Ipam) (port : Port) : Prop :=
  a.portMin.toNat ≤ port.toNat ∧ port.toNat ≤ a.portMax.toNat

/-- Both searches go on from within their pool, and the addresses do not end with the largest. -/
structure Ready (a : Ipam) : Prop where
  nonzero : a.portMin ≠ 0
  nextPort : a.HasPort a.nextPort
  nextIP : a.HasIP a.nextIP
  last : a.last.toNat < 2 ^ 32 - 1

theorem Ready.cycleIP (h : a.Ready) : Cycle a.advanceIP UInt32.toNat a.first.toNat a.last.toNat := by
  have hs : ∀ x : Addr, x.toNat ≤ a.last.toNat → (x + 1).toNat = x.toNat + 1 := by
    intro x hx
    have hl := h.last
    rw [UInt32.toNat_add, UInt32.toNat_one, Nat.mod_eq_of_lt (by omega)]
  refine ⟨fun x y => UInt32.toNat_inj.mp, fun x hx => ?_, fun x _ hx => ?_⟩
  · rw [advanceIP, if_pos]
    rw [gt_iff_lt, UInt32.lt_iff_toNat_lt, hs x (Nat.le_of_eq hx)]
    omega
  · rw [advanceIP, if_neg, hs x (Nat.le_of_lt hx)]
    rw [gt_iff_lt, UInt32.lt_iff_toNat_lt, hs x (Nat.le_of_lt hx)]
    omega

theorem cyclePort (a : Ipam) : Cycle a.advancePort UInt16.toNat a.portMin.toNat a.portMax.toNat := by
  refine ⟨fun x y => UInt16.toNat_inj.mp, fun x hx => ?_, fun x _ hx => ?_⟩
  · rw [advancePort, if_pos (UInt16.toNat_inj.mp hx)]
  · have ht := a.portMax.toNat_lt
    rw [advancePort, if_neg fun he => Nat.ne_of_lt hx (congrArg UInt16.toNat he), UInt16.toNat_add,
      UInt16.toNat_one, Nat.mod_eq_of_lt (by omega)]

theorem Ready.span (h : a.Ready) :
    (a.last - a.first + 1).toNat = a.last.toNat - a.first.toNat + 1 := by
  have hl := h.last
  have hn := h.nextIP
  rw [HasIP] at hn
  have hs : (a.last - a.first).toNat = a.last.toNat - a.first.toNat :=
    UInt32.toNat_sub_of_le _ _ (UInt32.le_iff_toNat_le.mpr (by omega))
  rw [UInt32.toNat_add, hs, UInt32.toNat_one, Nat.mod_eq_of_lt (by omega)]

theorem Ready.takeIP (h : a.Ready) : ∃ next, Ready { a with nextIP := next } ∧
    ((∃ err, a.takeIP = (.error err, { a with nextIP := next })) ∧
        (∀ ip, a.HasIP ip → ip ∈ a.usedIPs) ∨
      ∃ ip, a.HasIP ip ∧ ip ∉ a.usedIPs ∧
        a.takeIP = (.ok ip, { a with nextIP := next, usedIPs := ip :: a.usedIPs })) := by
  have hs := h.cycleIP.scan_spec h.nextIP a.usedIPs
  rw [← h.span] at hs
  unfold Ipam.takeIP
  cases hc : scan a.advanceIP a.usedIPs (a.last - a.first + 1).toNat a.nextIP with
  | mk found next =>
    rw [hc] at hs
    refine ⟨next, ⟨h.nonzero, h.nextPort, hs.1, h.last⟩, ?_⟩
    rcases hs.2 with ⟨rfl, hall⟩ | ⟨ip, rfl, hf, hr⟩
    · exact .inl ⟨⟨_, rfl⟩, hall⟩
    · exact .inr ⟨ip, hr, hf, rfl⟩

theorem Ready.takePort (h : a.Ready) : ∃ next, Ready { a with nextPort := next } ∧
    ((∃ err, a.takePort = (.error err, { a with nextPort := next })) ∧
        (∀ port, a.HasPort port → port ∈ a.usedPorts) ∨
      ∃ port, a.HasPort port ∧ port ∉ a.usedPorts ∧
        a.takePort = (.ok port, { a with nextPort := next, usedPorts := port :: a.usedPorts })) := by
  have hs := a.cyclePort.scan_spec h.nextPort a.usedPorts
  unfold Ipam.takePort
  cases hc : scan a.advancePort a.usedPorts (a.portMax.toNat - a.portMin.toNat + 1) a.nextPort with
  | mk found next =>
    rw [hc] at hs
    refine ⟨next, ⟨h.nonzero, hs.1, h.nextIP, h.last⟩, ?_⟩
    rcases hs.2 with ⟨rfl, hall⟩ | ⟨port, rfl, hf, hr⟩
    · exact .inl ⟨⟨_, rfl⟩, hall⟩
    · exact .inr ⟨port, hr, hf, rfl⟩

def pools (a : Ipam) : (Addr × Addr × Addr) × Port × Port :=
  ((a.first, a.last, a.gatewayIP), a.portMin, a.portMax)

theorem eq_of_pools (h : a.pools = b.pools) :
    a.HasIP = b.HasIP ∧ a.HasPort = b.HasPort ∧ a.gatewayIP = b.gatewayIP := by
  simp only [pools, Prod.mk.injEq] at h
  obtain ⟨⟨hf, hl, hg⟩, hmin, hmax⟩ := h
  unfold HasIP HasPort
  rw [hf, hl, hg, hmin, hmax]
  exact ⟨rfl, rfl, rfl⟩

/-- What `allocate` hands out was free in both pools, and it fails if one of them has nothing left. -/
theorem Ready.allocate (h : a.Ready) : a.allocate.2.Ready ∧ a.allocate.2.pools = a.pools ∧
    ((∃ err, a.allocate.1 = .error err) ∧ a.SameUse a.allocate.2 ∧
        ((∀ ip, a.HasIP ip → ip ∈ a.usedIPs) ∨ ∀ port, a.HasPort port → port ∈ a.usedPorts) ∨
      ∃ n, a.allocate.1 = .ok n ∧ n.vmMAC = deterministicMAC n.vmIP ∧
        (a.HasIP n.vmIP ∧ n.vmIP ∉ a.usedIPs ∧ a.allocate.2.usedIPs = n.vmIP :: a.usedIPs) ∧
        (a.HasPort n.hostPort ∧ n.hostPort ∉ a.usedPorts ∧
          a.allocate.2.usedPorts = n.hostPort :: a.usedPorts)) := by
  unfold Ipam.allocate
  obtain ⟨next, hr, ⟨⟨err, ht⟩, hall⟩ | ⟨ip, hip, hf, ht⟩⟩ := h.takeIP
  · rw [ht]
    exact ⟨hr, rfl, .inl ⟨⟨_, rfl⟩, ⟨rfl, rfl, rfl⟩, .inl hall⟩⟩
  rw [ht]
  have hr' : Ready { a with nextIP := next, usedIPs := ip :: a.usedIPs } :=
    ⟨hr.nonzero, hr.nextPort, hr.nextIP, hr.last⟩
  obtain ⟨nextPort, hp, ⟨⟨err, htp⟩, hall⟩ | ⟨port, hport, hfp, htp⟩⟩ := hr'.takePort
  · simp only [htp]
    exact ⟨⟨hp.nonzero, hp.nextPort, hp.nextIP, hp.last⟩, rfl,
      .inl ⟨⟨_, rfl⟩, ⟨deleteIP_cons hf, rfl, rfl⟩, .inr hall⟩⟩
  · simp only [htp]
    exact ⟨⟨hp.nonzero, hp.nextPort, hp.nextIP, hp.last⟩, rfl,
      .inr ⟨_, rfl, rfl, ⟨hip, hf, rfl⟩, hport, hfp, rfl⟩⟩

/-- The allocator has in use what is live, and nothing live is in use twice. -/
structure Ledger (start a : Ipam) (live : List VMNet) : Prop where
  ready : a.Ready
  pools : a.pools = start.pools
  usedIPs : ∀ ip, ip ∈ a.usedIPs ↔ ip = start.gatewayIP ∨ ip ∈ live.map VMNet.vmIP
  usedPorts : ∀ port, port ∈ a.usedPorts ↔ port ∈ live.map VMNet.hostPort
  ips : (live.map VMNet.vmIP).Nodup
  ports : (live.map VMNet.hostPort).Nodup
  within : ∀ n ∈ live, start.HasIP n.vmIP ∧ n.vmIP ≠ start.gatewayIP ∧ start.HasPort n.hostPort ∧
    n.vmMAC = deterministicMAC n.vmIP

theorem Ledger.allocated (h : Ledger start a live) (hn : a.allocate.1 = .ok n) :
    Ledger start a.allocate.2 (n :: live) := by
  obtain ⟨hi, hp, hg⟩ := eq_of_pools h.pools
  obtain ⟨hr, hs, ⟨⟨err, he⟩, -⟩ | ⟨m, hm, hmac, ⟨hip, hf, hu⟩, hport, hfp, hup⟩⟩ := h.ready.allocate
  · rw [hn] at he
    cases he
  rw [hn] at hm
  cases hm
  rw [hi] at hip
  rw [hp] at hport
  have hf' := fun hx => hf ((h.usedIPs _).mpr hx)
  have hfp' := fun hx => hfp ((h.usedPorts _).mpr hx)
  refine ⟨hr, hs.trans h.pools, fun ip => ?_, fun port => ?_,
    nodup_cons.mpr ⟨fun hx => hf' (.inr hx), h.ips⟩, nodup_cons.mpr ⟨hfp', h.ports⟩, ?_⟩
  · rw [hu, mem_cons, h.usedIPs, map_cons, mem_cons, or_left_comm]
  · rw [hup, mem_cons, h.usedPorts, map_cons, mem_cons]
  · exact forall_mem_cons.mpr ⟨⟨hip, fun he => hf' (.inl he), hport, hmac⟩, h.within⟩

theorem Ledger.failed (h : Ledger start a live) (hn : a.allocate.1 = .error err) :
    Ledger start a.allocate.2 live := by
  obtain ⟨hr, hs, ⟨-, hu, -⟩ | ⟨m, hm, -⟩⟩ := h.ready.allocate
  · exact ⟨hr, hs.trans h.pools, hu.ips ▸ h.usedIPs, hu.ports ▸ h.usedPorts, h.ips, h.ports, h.within⟩
  · rw [hn] at hm
    cases hm

theorem mem_map_erase {f : VMNet → β} (h : (live.map f).Nodup) (hn : n ∈ live) (y : β) :
    y ∈ (live.erase n).map f ↔ y ∈ live.map f ∧ y ≠ f n := by
  simp only [mem_map, (List.Nodup.of_map f h).mem_erase_iff]
  constructor
  · rintro ⟨m, ⟨hne, hm⟩, rfl⟩
    exact ⟨⟨m, hm, rfl⟩, fun he => hne (inj_on_of_nodup_map h hm hn he)⟩
  · rintro ⟨⟨m, hm, rfl⟩, hne⟩
    exact ⟨m, ⟨fun he => hne (congrArg f he), hm⟩, rfl⟩

theorem Ledger.released (h : Ledger start a live) (hn : n ∈ live) :
    Ledger start (a.release n) (live.erase n) := by
  obtain ⟨hip, hg, hport, -⟩ := h.within n hn
  have hz : n.hostPort ≠ 0 := by
    intro hz
    rw [← (eq_of_pools h.pools).2.1, HasPort, hz] at hport
    exact h.ready.nonzero (UInt16.toNat_inj.mp (Nat.le_zero.mp hport.1))
  have hsub := erase_sublist (a := n) (l := live)
  refine ⟨?_, ?_, fun ip => ?_, fun port => ?_, h.ips.sublist (hsub.map _), h.ports.sublist (hsub.map _),
    fun m hm => h.within m (hsub.subset hm)⟩
  · have hr := h.ready
    unfold Ipam.release
    split <;> exact ⟨hr.nonzero, hr.nextPort, hr.nextIP, hr.last⟩
  · unfold Ipam.release
    split <;> exact h.pools
  · rw [mem_release_usedIPs, h.usedIPs, mem_map_erase h.ips hn]
    constructor
    · rintro ⟨rfl | hm, hne⟩
      · exact .inl rfl
      · exact .inr ⟨hm, hne⟩
    · rintro (rfl | ⟨hm, hne⟩)
      · exact ⟨.inl rfl, Ne.symm hg⟩
      · exact ⟨.inr hm, hne⟩
  · rw [mem_release_usedPorts hz, h.usedPorts, mem_map_erase h.ports hn]

theorem Ledger.run (h : Ledger start start []) (hr : Run start a live) : Ledger start a live := by
  induction hr with
  | new => exact h
  | allocated _ hn ih => exact ih.allocated hn
  | failed _ hn ih => exact ih.failed hn
  | released _ hn ih => exact ih.released hn

variable {subnet : IPNet} {gatewayIP : Addr} {gatewayMAC : Mac} {portMin portMax : Port}

theorem newIPAM_ledger (ho : subnet.ones ≤ 30)
    (h : newIPAM subnet gatewayIP gatewayMAC portMin portMax = .ok start) :
    Ledger start start [] ∧
      start.pools = ((subnet.firstHost, subnet.lastHost, gatewayIP), portMin, portMax) := by
  unfold newIPAM at h
  split at h
  · cases h
  split at h
  · cases h
  split at h
  · cases h
  rename_i hp
  split at h
  · cases h
  rename_i hl
  cases h
  rw [not_or, UInt16.not_lt, UInt16.le_iff_toNat_le] at hp
  rw [UInt32.not_lt, UInt32.le_iff_toNat_le] at hl
  have hb := IPNet.lastHost_spec ho
  have ht := (subnet.netAddr ||| subnet.hostBits).toNat_lt
  have hlt : subnet.lastHost.toNat < 2 ^ 32 - 1 := by omega
  exact ⟨⟨⟨hp.1, ⟨Nat.le_refl _, hp.2⟩, ⟨Nat.le_refl _, hl⟩, hlt⟩, rfl, by simp, by simp,
    nodup_nil, nodup_nil, nofun⟩, rfl⟩

structure Usable (subnet : IPNet) (gatewayIP ip : Addr) : Prop where
  inside : subnet.contains ip = true
  network : ip ≠ subnet.netAddr
  broadcast : ip ≠ subnet.netAddr ||| subnet.hostBits
  gateway : ip ≠ gatewayIP

/-- What is live is usable and handed out once, and there is more as long as both pools have it. -/
structure Allocates (subnet : IPNet) (gatewayIP : Addr) (portMin portMax : Port) (a : Ipam)
    (live : List VMNet) : Prop where
  ips : (live.map VMNet.vmIP).Nodup
  usable : ∀ n ∈ live, Usable subnet gatewayIP n.vmIP
  ports : (live.map VMNet.hostPort).Nodup
  range : ∀ n ∈ live, portMin ≤ n.hostPort ∧ n.hostPort ≤ portMax
  macs : (live.map VMNet.vmMAC).Nodup
  usedIPs : ∀ ip, ip ∈ a.usedIPs ↔ ip = gatewayIP ∨ ip ∈ live.map VMNet.vmIP
  usedPorts : ∀ port, port ∈ a.usedPorts ↔ port ∈ live.map VMNet.hostPort
  fails : (∃ err, a.allocate.1 = .error err) ↔
    (∀ ip, Usable subnet gatewayIP ip → ip ∈ live.map VMNet.vmIP) ∨
      ∀ port, portMin ≤ port ∧ port ≤ portMax → port ∈ live.map VMNet.hostPort
  unchanged : ∀ err, a.allocate.1 = .error err → a.SameUse a.allocate.2

/-- After any calls, what is live is apart, and an allocation fails exactly if a pool has nothing
left. -/
theorem allocations_apart (ho : subnet.ones ≤ 30)
    (h : newIPAM subnet gatewayIP gatewayMAC portMin portMax = .ok start)
    (hr : Run start a live) : Allocates subnet gatewayIP portMin portMax a live := by
  obtain ⟨hl, hp⟩ := newIPAM_ledger ho h
  have hl := hl.run hr
  have hpa := hl.pools.trans hp
  simp only [pools, Prod.mk.injEq] at hp hpa
  obtain ⟨⟨hfirst, hlast, hg⟩, hmin, hmax⟩ := hp
  have hu : ∀ ip, start.HasIP ip ∧ ip ≠ start.gatewayIP ↔ Usable subnet gatewayIP ip := by
    intro ip
    rw [HasIP, hfirst, hlast, hg, IPNet.host_iff ho]
    exact ⟨fun hx => ⟨hx.1.1, hx.1.2.1, hx.1.2.2, hx.2⟩,
      fun hx => ⟨⟨hx.inside, hx.network, hx.broadcast⟩, hx.gateway⟩⟩
  have hrange : ∀ port, start.HasPort port ↔ portMin ≤ port ∧ port ≤ portMax := by
    intro port
    rw [HasPort, hmin, hmax, UInt16.le_iff_toNat_le, UInt16.le_iff_toNat_le]
  obtain ⟨hi, hpo, -⟩ := eq_of_pools hl.pools
  have hal := hl.ready.allocate
  rw [hi, hpo] at hal
  refine ⟨hl.ips, fun n hn => (hu _).mp ⟨(hl.within n hn).1, (hl.within n hn).2.1⟩, hl.ports,
    fun n hn => (hrange _).mp (hl.within n hn).2.2.1, ?_, hg ▸ hl.usedIPs, hl.usedPorts, ?_, ?_⟩
  · have hm : live.map VMNet.vmMAC = (live.map VMNet.vmIP).map deterministicMAC := by
      rw [map_map]
      exact map_congr_left fun n hn => (hl.within n hn).2.2.2
    rw [hm]
    exact hl.ips.map fun _ _ => deterministicMAC_injective
  · constructor
    · rintro ⟨err, he⟩
      obtain ⟨-, -, ⟨-, -, hall⟩ | ⟨m, hm, -⟩⟩ := hal
      · refine hall.imp (fun hall ip hip => ?_) fun hall port hport => ?_
        · obtain ⟨hin, hne⟩ := (hu ip).mpr hip
          exact ((hl.usedIPs ip).mp (hall ip hin)).resolve_left hne
        · exact (hl.usedPorts port).mp (hall port ((hrange port).mpr hport))
      · rw [he] at hm
        cases hm
    · intro hall
      obtain ⟨-, -, ⟨he, -⟩ | ⟨m, -, -, ⟨hip, hf, -⟩, hport, hfp, -⟩⟩ := hal
      · exact he
      rcases hall with hall | hall
      · have hm := hall _ ((hu _).mp ⟨hip, fun he => hf ((hl.usedIPs _).mpr (.inl he))⟩)
        exact absurd ((hl.usedIPs _).mpr (.inr hm)) hf
      · exact absurd ((hl.usedPorts _).mpr (hall _ ((hrange _).mp hport))) hfp
  · intro err he
    obtain ⟨-, -, ⟨-, hs, -⟩ | ⟨m, hm, -⟩⟩ := hal
    · exact hs
    · rw [he] at hm
      cases hm

def smallPool : Ipam :=
  ⟨⟨0x0a000000, 29⟩, 0x0a000001, 0x0a000006, 0x0a000001, [0, 0, 0, 0, 0, 0], [0x0a000001], 0x0a000001,
    65534, 65535, [], 65534⟩

/-- The port of a machine that is gone goes to the next one. -/
theorem two_allocations_apart : ∃ a m n, Run smallPool a [m, n] ∧ m.hostPort = 65534 ∧
    Allocates ⟨0x0a000000, 29⟩ 0x0a000001 65534 65535 a [m, n] := by
  have h1 : Run smallPool _ _ := .allocated .new rfl
  have h2 := h1.allocated rfl
  have h3 := (h2.released (.tail _ (.head _))).allocated rfl
  have hs : newIPAM ⟨0x0a000000, 29⟩ 0x0a000001 [0, 0, 0, 0, 0, 0] 65534 65535 = .ok smallPool := rfl
  exact ⟨_, _, _, h3, rfl, allocations_apart (by decide) hs h3⟩

end Ipam

end Craftling.Dataplane

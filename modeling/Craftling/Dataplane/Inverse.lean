import Craftling.Dataplane.Flows

namespace Craftling.Dataplane
open Effects

section Inverse

variable {m : Maps} {cfg : GlobalConfig} {l : Arrival} {e : Flow} {o : L4off} {s : Track}

theorem Tracked.one_flow (h : Tracked m cfg table) (he : e ∈ table)
    (he' : e' ∈ table) (ht : e.orig = t ∨ e.reply = t) (ht' : e'.orig = t ∨ e'.reply = t) :
    e = e' := by
  have hf : ∀ e ∈ table, e.orig = t ∨ e.reply = t → ∃ d, ctLookup table t = some (e, d) := by
    rintro e he (rfl | rfl)
    · exact ⟨_, (ctLookup_of_mem h.nodup he).1⟩
    · exact ⟨_, (ctLookup_of_mem h.nodup he).2⟩
  obtain ⟨d, hfo⟩ := hf e he ht
  obtain ⟨d', hf'⟩ := hf e' he' ht'
  cases hfo.symm.trans hf'
  rfl

theorem AnsweredIn.has_packet (h : AnsweredIn e d o ip port) :
    e.orig = mkTuple o ∨ e.reply = mkTuple o := by
  have hp := h.packet
  cases d with
  | original => exact .inr hp
  | reply => exact .inl hp

theorem new_flow_leaves (hm : m.Consistent cfg) (hs : Shaped f o) (hb : k.setNatInfo = true)
    (hn : ctLookup s.table (mkTuple o) = none) (ha : (natTap m k i f s).action = .redirectNeigh j) :
    Leaves cfg (natTap m k i f s) o cfg.hostIP k.port ∧
      allocFlow (mkTuple o) true (.src cfg.hostIP k.port) ∈ (natTap m k i f s).track.table := by
  obtain ⟨cfg', o', e, d, new, table, hc, hs', hp, hf⟩ := natTap_forwarded ha
  obtain rfl : cfg' = cfg := Option.some.inj (hc.symm.trans hm.config)
  obtain rfl : o' = o := hs'.unique hs
  obtain ⟨ha', hh, ht⟩ := natTap_forwards (i := i) hc hs hp hf
  obtain ⟨_, _, _, hfo⟩ | ⟨_, rfl, rfl, _, ht'⟩ := egressFlow_some hf
  · rw [hn] at hfo
    cases hfo
  · rw [hb] at hh ht'
    refine ⟨⟨ha', hh⟩, ?_⟩
    rw [ht, ht']
    exact List.mem_cons_self ..

/-- What one of the programs translates the other translates back, in any order of packets from
machines that use their own addresses and from remote hosts. A machine's answer leaves only if
the egress policy admits it. -/
theorem translations_inverse (m : Maps) (cfg : GlobalConfig) (hm : m.Consistent cfg) (s : Track)
    (hrun : Reaches (trackStep m) (Proper m) .empty s) :
    (∀ i f k o j, Proper m s (.tap i f k) s → Shaped f o → ctLookup s.table (mkTuple o) = none →
      (natTap m k i f s).action = .redirectNeigh j →
      ∃ port vm, Leaves cfg (natTap m k i f s) o cfg.hostIP port ∧
        m.vmConfig o.saddr = some vm ∧ vm.tapIfindex = i ∧
        ∀ s' f' k' o', Reaches (trackStep m) (Proper m) (natTap m k i f s).track s' →
          Proper m s' (.uplink f' k') s' → Shaped f' o' →
          mkTuple o' = (mkTuple { o with saddr := cfg.hostIP, sport := port }).inverse →
          Delivered (natUplink m k' f' s') o' vm o.saddr o.sport) ∧
    (∀ f k o j, Proper m s (.uplink f k) s → Shaped f o →
      (natUplink m k f s).action = .redirect j →
      ∃ vm ip port, m.vmConfig ip = some vm ∧ Delivered (natUplink m k f s) o vm ip port ∧
        (∃ e ∈ (natUplink m k f s).track.table, e.orig = mkTuple o ∨ e.reply = mkTuple o) ∧
        (∀ e ∈ (natUplink m k f s).track.table, e.orig = mkTuple o ∨ e.reply = mkTuple o →
          m.owner e = ip) ∧
        ∀ s' i f' k' o', Reaches (trackStep m) (Proper m) (natUplink m k f s).track s' →
          Proper m s' (.tap i f' k') s' → Shaped f' o' →
          mkTuple o' = (mkTuple { o with daddr := ip, dport := port }).inverse →
          if policyCheck m.egressPolicy o'.daddr o'.dport cfg.defaultEgressAllow then
            Leaves cfg (natTap m k' i f' s') o' o.daddr o.dport
          else (natTap m k' i f' s').action = .shot) := by
  have hs := Tracked.reaches hm hrun
  constructor
  · intro i f k o j hproper hshaped hnew haction
    obtain ⟨vm, hvm, htap⟩ := hproper.1 o hshaped
    obtain ⟨hleaves, hmem⟩ :=
      new_flow_leaves hm hshaped (congrArg Kfuncs.setNatInfo hproper.2) hnew haction
    have hreached : Reaches (trackStep m) (Proper m) .empty (natTap m k i f s).track :=
      .next (.tap i f k) hrun rfl hproper
    refine ⟨k.port, vm, hleaves, hvm, htap, fun s' f' k' o' hrun' hproper' hshaped' ho' => ?_⟩
    have hs' := Tracked.reaches hm (hreached.trans hrun')
    exact answer_delivered hm hs' (mem_of_reaches hrun' hmem) hvm
      (congrArg Kfuncs.lookup hproper'.2.1) hshaped' ho'
  · intro f k o j hproper hshaped haction
    have hreached : Reaches (trackStep m) (Proper m) .empty (natUplink m k f s).track :=
      .next (.uplink f k) hrun rfl hproper
    obtain ⟨e, d, vm, port, he, hvm, hdelivered, hanswered⟩ :=
      delivered_flow hm hs hshaped hproper.1 hproper.2 haction
    refine ⟨vm, m.owner e, port, hvm, hdelivered, ⟨e, he, hanswered.has_packet⟩, ?_, ?_⟩
    · intro e' he' ho
      rw [(Tracked.reaches hm hreached).one_flow he' he ho hanswered.has_packet]
    intro s' i f' k' o' hrun' hproper' hshaped' ho'
    have hs' := Tracked.reaches hm (hreached.trans hrun')
    have he' := mem_of_reaches hrun' he
    split
    · rename_i hpolicy
      have hsource := hanswered.source
      have hanswer := hanswered.answer
      have hleaves := @flow_leaves m cfg hm s' hs' e he' d k'
        (congrArg Kfuncs.lookup hproper'.2) i f' o' hshaped' ?_ hpolicy
      · rw [hsource] at hleaves
        exact hleaves
      · cases d with
        | original => exact .inl ⟨rfl, ho'.trans hanswer.symm⟩
        | reply => exact .inr ⟨rfl, ho'.trans hanswer.symm⟩
    · rename_i hpolicy
      rw [natTap_handled hm.config hshaped']
      simp [hpolicy]

end Inverse

def tcpFrame (src : Addr) (sport : Port) (dst : Addr) (dport : Port) : Frame :=
  List.replicate 12 0 ++ beBytes 2 etherIP ++ [0x45, 0, 0, 40, 0, 0, 0, 0, 64, 6, 0, 0] ++
    beBytes 4 src.toNat ++ beBytes 4 dst.toNat ++ beBytes 2 sport.toNat ++ beBytes 2 dport.toNat ++
    List.replicate 16 0

def tcpHeaders (src : Addr) (sport : Port) (dst : Addr) (dport : Port) : L4off :=
  ⟨14, 34, 6, sport, dport, src, dst, 40⟩

def hostAddr : Addr := 0xC0000201

def vmAddr : Addr := 0x0A000002

def remoteAddr : Addr := 0xC6336407

def vmMac : EthAddr := #v[2, 0, 10, 0, 0, 2]

def smallGlobal : GlobalConfig := ⟨hostAddr, 2, 0x0A000001, #v[2, 0, 10, 0, 0, 1], true, true⟩

def smallMaps (egress : Policy) : Maps :=
  { globalConfig := some smallGlobal
    vmConfig := fun ip => if ip = vmAddr then some ⟨vmAddr, 7, vmMac⟩ else none
    dnatRules := fun key =>
      if key = ⟨hostAddr, 30000, 6⟩ then some ⟨vmAddr, 7, 25565, vmMac⟩ else none
    egressPolicy := egress
    ingressPolicy := [] }

theorem smallMaps_vm (egress : Policy) :
    (smallMaps egress).vmConfig vmAddr = some ⟨vmAddr, 7, vmMac⟩ := by
  simp [smallMaps]

theorem smallMaps_outside (egress : Policy) (h : ip ≠ vmAddr) :
    (smallMaps egress).vmConfig ip = none := by
  simp [smallMaps, h]

theorem smallMaps_rule (egress : Policy) :
    (smallMaps egress).rule (tcpHeaders remoteAddr 5000 hostAddr 30000) =
      some ⟨vmAddr, 7, 25565, vmMac⟩ := by
  simp [smallMaps, Maps.rule, tcpHeaders]

theorem smallMaps_consistent (egress : Policy) : (smallMaps egress).Consistent smallGlobal := by
  refine ⟨rfl, fun key dn hr => ?_, smallMaps_outside egress (by decide)⟩
  simp only [smallMaps] at hr
  split at hr
  · rename_i hk
    cases hr
    exact ⟨by rw [hk]; rfl, _, smallMaps_vm egress, rfl, rfl⟩
  · cases hr

def vmOpens : Frame := tcpFrame vmAddr 40000 remoteAddr 443

def remoteAnswers : Frame := tcpFrame remoteAddr 443 hostAddr 50000

def remoteOpens : Frame := tcpFrame remoteAddr 5000 hostAddr 30000

def vmAnswers : Frame := tcpFrame vmAddr 25565 remoteAddr 5000

theorem vmOpens_shaped : Shaped vmOpens (tcpHeaders vmAddr 40000 remoteAddr 443) :=
  parse_handled_iff.mp (by decide +kernel)

theorem remoteAnswers_shaped : Shaped remoteAnswers (tcpHeaders remoteAddr 443 hostAddr 50000) :=
  parse_handled_iff.mp (by decide +kernel)

theorem remoteOpens_shaped : Shaped remoteOpens (tcpHeaders remoteAddr 5000 hostAddr 30000) :=
  parse_handled_iff.mp (by decide +kernel)

theorem vmAnswers_shaped : Shaped vmAnswers (tcpHeaders vmAddr 25565 remoteAddr 5000) :=
  parse_handled_iff.mp (by decide +kernel)

variable {f : Frame} {o : L4off}

theorem smallMaps_tap (egress : Policy) (h : Shaped f o) (ho : o.saddr = vmAddr) (port : Port)
    (s s' : Track) : Proper (smallMaps egress) s (.tap 7 f (.working port)) s' := by
  refine ⟨fun o' h' => ⟨⟨vmAddr, 7, vmMac⟩, ?_, rfl⟩, rfl⟩
  rw [h'.unique h, ho]
  exact smallMaps_vm egress

theorem smallMaps_uplink (egress : Policy) (h : Shaped f o) (ho : o.saddr ≠ vmAddr) (s' : Track)
    (hf : ∀ dn, (smallMaps egress).rule o = some dn → ctLookup s.table (mkTuple o) = none →
      (publishedFlow (.working 0) dn o).Fits s.table) :
    Proper (smallMaps egress) s (.uplink f (.working 0)) s' := by
  refine ⟨fun o' h' => ?_, rfl, fun o' dn h' => ?_⟩
  · rw [h'.unique h]
    exact smallMaps_outside egress ho
  · rw [h'.unique h]
    exact hf dn

/-- The machine's connection leaves from the host's port 50000, and the answer comes back. -/
theorem answer_comes_back : Delivered (natUplink (smallMaps []) (.working 0) remoteAnswers
        (natTap (smallMaps []) (.working 50000) 7 vmOpens .empty).track)
      (tcpHeaders remoteAddr 443 hostAddr 50000) ⟨vmAddr, 7, vmMac⟩ vmAddr 40000 := by
  have hproper := smallMaps_tap [] vmOpens_shaped rfl 50000 .empty .empty
  obtain ⟨port, vm, hleaves, hvm, _, hanswer⟩ :=
    (translations_inverse (smallMaps []) smallGlobal (smallMaps_consistent []) .empty .start).1
      7 vmOpens (.working 50000) _ 2 hproper vmOpens_shaped rfl (by decide +kernel)
  have hleft : Shaped (natTap (smallMaps []) (.working 50000) 7 vmOpens .empty).frame
      (tcpHeaders hostAddr 50000 remoteAddr 443) := parse_handled_iff.mp (by decide +kernel)
  obtain rfl : port = 50000 := congrArg L4off.sport (hleaves.headers.unique hleft)
  obtain rfl : vm = ⟨vmAddr, 7, vmMac⟩ := Option.some.inj (hvm.symm.trans (smallMaps_vm []))
  exact hanswer _ remoteAnswers (.working 0) _ .start
    (smallMaps_uplink [] remoteAnswers_shaped (by decide) .empty fun _ hrule => by cases hrule)
    remoteAnswers_shaped rfl

/-- The policy denies the remote host. Its connection to the published port is let in, and the
machine's answer is dropped. -/
def denying : Policy := [((32, remoteAddr), ⟨false, 0⟩)]

theorem denied_answer_dropped :
    ∃ m cfg f k o, m.Consistent cfg ∧ Proper m .empty (.uplink f k) .empty ∧ Shaped f o ∧
      Delivered (natUplink m k f .empty) o ⟨vmAddr, 7, vmMac⟩ vmAddr 25565 ∧
      ∃ f' k' o', Proper m (natUplink m k f .empty).track (.tap 7 f' k') .empty ∧
        Shaped f' o' ∧ mkTuple o' = (mkTuple { o with daddr := vmAddr, dport := 25565 }).inverse ∧
        (natTap m k' 7 f' (natUplink m k f .empty).track).action = .shot := by
  refine ⟨smallMaps denying, smallGlobal, remoteOpens, .working 0, _, smallMaps_consistent _,
    smallMaps_uplink denying remoteOpens_shaped (by decide) .empty ?_, remoteOpens_shaped, ?_,
    vmAnswers, .working 0, _, smallMaps_tap denying vmAnswers_shaped rfl 0 _ .empty,
    vmAnswers_shaped, rfl, by decide +kernel⟩
  · intro dn hrule _
    obtain rfl : dn = ⟨vmAddr, 7, 25565, vmMac⟩ := Option.some.inj (hrule.symm.trans (smallMaps_rule denying))
    decide +kernel
  · exact ⟨by decide +kernel, parse_handled_iff.mp (by decide +kernel), by decide +kernel⟩

end Craftling.Dataplane

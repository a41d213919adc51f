import Craftling.Dataplane.Inverse

namespace Craftling.Dataplane
open Effects

variable {m : Maps} {k : Kfuncs} {f : Frame} {o : L4off} {s : Track}

/-- A packet of a flow is dropped, or goes to the machine that the flow is bound to: to its TAP and
MAC, with the bound address and port. -/
def Sticks (m : Maps) (e : Flow) (o : L4off) (out : Outcome) : Prop :=
  out.action = .shot ∨
    ∃ vm, m.vmConfig e.reply.src = some vm ∧ Delivered out o vm e.reply.src e.reply.sport

/-- A later packet of an inbound flow goes where the port's rule says by then. It stays with the
flow's machine exactly if the rule still names the bound address and port and that machine's TAP and
MAC, or if the policy or the kernel stops it. -/
theorem published_sticks_iff (m : Maps) (s : Track) (hs : Shaped f o)
    (he : ctLookup s.table (mkTuple o) = some (e, .original)) :
    Sticks m e o (natUplink m k f s) ↔ ∃ cfg dn, m.globalConfig = some cfg ∧ m.rule o = some dn ∧
      (policyCheck m.ingressPolicy o.saddr o.dport cfg.defaultIngressAllow = true ∧
        k.alloc = true → ∃ vm, m.vmConfig e.reply.src = some vm ∧
          dn = ⟨e.reply.src, vm.tapIfindex, e.reply.sport, vm.vmMAC⟩) := by
  cases hc : m.globalConfig with
  | none =>
    refine ⟨?_, by simp⟩
    rintro (h | ⟨vm, -, h⟩)
    · simp [natUplink, hc] at h
    · simpa [natUplink, hc] using h.action
  | some cfg =>
    have hn : ∀ e, ¬Answers k s.table o e := by
      rintro e' ⟨-, hr⟩
      cases he.symm.trans hr
    cases hr : m.rule o with
    | none =>
      have hu : natUplink m k f s = ⟨.ok, f, s⟩ := by
        obtain ⟨e', ha, -⟩ | ⟨-, hu⟩ := natUplink_handled hc hs (k := k) s
        · exact absurd ha (hn e')
        · rw [hu, natUplinkRest, hr]
      refine ⟨?_, by simp⟩
      rw [hu]
      rintro (h | ⟨vm, -, h⟩)
      · cases h
      · cases h.action
    | some dn =>
      rw [natUplink_published hc hs hn hr]
      by_cases had : policyCheck m.ingressPolicy o.saddr o.dport cfg.defaultIngressAllow = true ∧
          k.alloc = true
      · obtain ⟨ha, hd, hmac, -⟩ := @forwardPublished_spec cfg m k dn f o s had.1 had.2 hs
        constructor
        · rintro (h | ⟨vm, hv, hto⟩)
          · cases ha.symm.trans h
          refine ⟨cfg, dn, rfl, rfl, fun _ => ⟨vm, hv, ?_⟩⟩
          have hu := hd.unique hto.headers
          have htap := ha.symm.trans hto.action
          have hmac' : dn.vmMAC = vm.vmMAC := Vector.toList_inj.mp (hmac.symm.trans hto.mac)
          obtain ⟨ip, tap, port, mac⟩ := dn
          cases htap
          cases hmac'
          rw [show ip = e.reply.src from congrArg L4off.daddr hu,
            show port = e.reply.sport from congrArg L4off.dport hu]
        · rintro ⟨_, _, hc', hr', hb⟩
          cases hc'
          cases hr'
          obtain ⟨vm, hv, rfl⟩ := hb had
          exact .inr ⟨vm, hv, ha, hd, hmac⟩
      · exact ⟨fun _ => ⟨cfg, dn, rfl, rfl, fun h => absurd h had⟩,
          fun _ => .inl (forwardPublished_refused had).1⟩

def movedMaps : Maps :=
  { smallMaps [] with
    dnatRules := fun key =>
      if key = ⟨hostAddr, 30000, 6⟩ then some ⟨0x0A000003, 8, 25565, vmMac⟩ else none }

def openedTrack : Track := (natUplink (smallMaps []) (.working 0) remoteOpens .empty).track

theorem published_sticks_opened : ∃ e, Sticks (smallMaps []) e (tcpHeaders remoteAddr 5000 hostAddr 30000)
      (natUplink (smallMaps []) (.working 0) remoteOpens openedTrack) := by
  have he : ctLookup openedTrack.table (mkTuple (tcpHeaders remoteAddr 5000 hostAddr 30000)) =
      some (publishedFlow (.working 0) ⟨vmAddr, 7, 25565, vmMac⟩
        (tcpHeaders remoteAddr 5000 hostAddr 30000), .original) := by
    decide +kernel
  exact ⟨_, (published_sticks_iff (smallMaps []) openedTrack remoteOpens_shaped he).mpr
    ⟨smallGlobal, _, rfl, smallMaps_rule [], fun _ => ⟨_, smallMaps_vm [], rfl⟩⟩⟩

/-- The second packet of the connection goes to the other machine. -/
theorem published_moved :
    ctLookup openedTrack.table (mkTuple (tcpHeaders remoteAddr 5000 hostAddr 30000)) =
        some (⟨⟨6, remoteAddr, 5000, hostAddr, 30000⟩, ⟨6, vmAddr, 25565, remoteAddr, 5000⟩⟩,
          .original) ∧
      (natUplink movedMaps (.working 0) remoteOpens openedTrack).action = .redirect 8 ∧
      Shaped (natUplink movedMaps (.working 0) remoteOpens openedTrack).frame
        (tcpHeaders remoteAddr 5000 0x0A000003 25565) :=
  ⟨by decide +kernel, by decide +kernel, parse_handled_iff.mp (by decide +kernel)⟩

def Track.conns (s : Track) (ip : Addr) : UInt64 := ((s.stats ip).getD .zero).conns

structure Packet where
  maps : Maps
  table : List Flow
  arrival : Arrival

/-- Before a packet the kernel may have changed the flows in any way. -/
def Packet.outcome (p : Packet) (s : Track) : Outcome :=
  p.arrival.outcome p.maps { s with table := p.table }

/-- The machine that a packet is from, or that its port is published for. -/
def Packet.owner (p : Packet) : Option Addr :=
  match p.arrival with
  | .tap _ f _ => match parse f with
    | .handled o => some o.saddr
    | _ => none
  | .uplink f _ => match parse f with
    | .handled o => (p.maps.rule o).map (·.vmIP)
    | _ => none

/-- There are counters for the address, or room for them. -/
def Track.HasCounters (s : Track) (room : Bool) (ip : Addr) : Prop :=
  (s.stats ip).isSome = true ∨ room = true

instance (s : Track) (room : Bool) (ip : Addr) : Decidable (s.HasCounters room ip) :=
  inferInstanceAs (Decidable (_ ∨ _))

theorem count_hasCounters (s : Track) (room : Bool) (v ip : Addr) (g : NatStats → NatStats) :
    (s.count room v g).HasCounters room ip ↔ s.HasCounters room ip := by
  unfold Track.count Track.HasCounters
  split
  · rename_i hroom
    rw [Bool.or_eq_true] at hroom
    by_cases h : ip = v
    · subst h
      simp [hroom]
    · simp [h]
  · rfl

theorem count_conns_add {n : UInt64} (hg : ∀ c, (g c).conns = c.conns + n) (s : Track) (room : Bool)
    (v ip : Addr) : (s.count room v g).conns ip =
      s.conns ip + if ip = v ∧ s.HasCounters room v then n else 0 := by
  unfold Track.count Track.HasCounters
  split
  · rename_i hroom
    rw [Bool.or_eq_true] at hroom
    by_cases h : ip = v
    · subst h
      simp [Track.conns, hg, hroom]
    · simp [Track.conns, h]
  · rename_i hroom
    rw [Bool.or_eq_true] at hroom
    rw [if_neg fun h => hroom h.2]
    exact (UInt64.add_zero _).symm

theorem count_conns_same (hg : ∀ c, (g c).conns = c.conns) (s : Track) (room : Bool) (v ip : Addr) :
    (s.count room v g).conns ip = s.conns ip := by
  rw [count_conns_add (n := 0) (fun c => (hg c).trans (UInt64.add_zero _).symm), ite_self]
  exact UInt64.add_zero _

theorem emit_conns (s : Track) (e : NatEvent) (ip : Addr) : (s.emit e).conns ip = s.conns ip := rfl

theorem received_conns (s : Track) (room : Bool) (v : Addr) (o : L4off) (n : UInt64) (dir : EventDir)
    (port : Port) (ip : Addr) : (s.received room v o n dir port).conns ip =
      s.conns ip + if ip = v ∧ s.HasCounters room v then n else 0 := by
  rw [Track.received, emit_conns, count_conns_add (n := n)]
  exact fun _ => rfl

structure Track.Kept (s t : Track) : Prop where
  table : t.table = s.table
  conns : ∀ ip, t.conns ip = s.conns ip

theorem Track.Kept.count (h : s.Kept t) (hg : ∀ c, (g c).conns = c.conns) (room : Bool) (v : Addr) :
    s.Kept (t.count room v g) :=
  ⟨(t.count_table room v g).trans h.table,
    fun ip => (count_conns_same hg t room v ip).trans (h.conns ip)⟩

theorem Track.Kept.emit (h : s.Kept t) (e : NatEvent) : s.Kept (t.emit e) := ⟨h.table, h.conns⟩

theorem Track.Kept.refl (s : Track) : s.Kept s := ⟨rfl, fun _ => rfl⟩

/-- A machine's packet opens a flow: the policy lets it out, and the flow can be made and inserted. -/
def TapOpens (m : Maps) (k : Kfuncs) (table : List Flow) (f : Frame) (o : L4off) : Prop :=
  Shaped f o ∧ ∃ cfg, m.globalConfig = some cfg ∧
    policyCheck m.egressPolicy o.daddr o.dport cfg.defaultEgressAllow = true ∧
    Opens cfg k table (mkTuple o)

/-- A packet is let in by the rule of a published port. -/
def LetIn (m : Maps) (k : Kfuncs) (table : List Flow) (f : Frame) (o : L4off) (dn : DnatVal) : Prop :=
  Shaped f o ∧ (∀ e, ¬Answers k table o e) ∧ m.rule o = some dn ∧ k.alloc = true ∧
    ∃ cfg, m.globalConfig = some cfg ∧
      policyCheck m.ingressPolicy o.saddr o.dport cfg.defaultIngressAllow = true

theorem natTap_opens_conns (h : TapOpens m k s.table f o) (i : Nat) :
    (natTap m k i f s).track.table ≠ s.table ∧ ∀ ip, (natTap m k i f s).track.conns ip =
      s.conns ip + if ip = o.saddr ∧ s.HasCounters k.stats o.saddr then 1 else 0 := by
  obtain ⟨hs, cfg, hc, hp, ho⟩ := h
  have hf := egressFlow_opens ho
  refine ⟨?_, fun ip => ?_⟩
  · rw [(natTap_forwards (i := i) hc hs hp hf).2.2]
    exact List.cons_ne_self _ _
  obtain ⟨f', hr, -⟩ := rewriteSrc_spec hs
    ((allocFlow (mkTuple o) k.setNatInfo (.src cfg.hostIP k.port)).source .original).1
    ((allocFlow (mkTuple o) k.setNatInfo (.src cfg.hostIP k.port)).source .original).2
  rw [natTap_handled hc hs, hp]
  simp only [Bool.not_true, Bool.false_eq_true, if_false, forwardTap, Track.statFor_table, hf, hr,
    if_true]
  rw [count_conns_same (fun _ => by rfl), emit_conns, count_conns_add (n := 1) (fun _ => rfl)]
  have hsame : s.conns ip = (s.statFor k.stats o.saddr).conns ip :=
    (count_conns_same (fun _ => by rfl) s k.stats o.saddr ip).symm
  have hroom := count_hasCounters s k.stats o.saddr o.saddr id
  rw [hsame]
  exact congrArg (_ + ·) (if_congr (and_congr_right fun _ => hroom) rfl rfl)

theorem natTap_kept (h : ∀ o, ¬TapOpens m k s.table f o) (i : Nat) :
    s.Kept (natTap m k i f s).track := by
  have hk := Track.Kept.refl s
  cases hc : m.globalConfig with
  | none => simpa only [natTap, hc] using hk
  | some cfg =>
    by_cases harp : ethLen ≤ f.length ∧ word f 12 2 = etherARP
    · simp only [natTap, hc, harp, and_self, if_true, handleArp]
      split
      · exact hk
      split
      · exact hk
      split
      · exact hk
      split <;> exact hk
    cases hf : parse f with
    | pass => simpa only [natTap, hc, harp, hf, if_false] using hk
    | fragment => simpa only [natTap, hc, harp, hf, if_false] using hk.emit _
    | handled o =>
      have hs := parse_handled_iff.mp hf
      have hk' : s.Kept (s.statFor k.stats o.saddr) := hk.count (fun _ => by rfl) _ _
      rw [natTap_handled hc hs]
      split
      · exact (hk'.count (fun _ => by rfl) _ _).emit _
      rename_i hp
      have hp' : policyCheck m.egressPolicy o.daddr o.dport cfg.defaultEgressAllow = true := by
        simpa using hp
      cases hfl : egressFlow cfg k s.table (mkTuple o) with
      | mk found table =>
        cases found with
        | none =>
          obtain rfl := egressFlow_none hfl
          simp only [forwardTap, Track.statFor_table, hfl]
          have hsame : { s.statFor k.stats o.saddr with table := s.table } =
              s.statFor k.stats o.saddr := by rw [← s.statFor_table k.stats o.saddr]
          rw [hsame]
          exact hk'.count (fun _ => by rfl) _ _
        | some found =>
          obtain ⟨e, d, new⟩ := found
          obtain ⟨f', hr, -⟩ := rewriteSrc_spec hs (e.source d).1 (e.source d).2
          simp only [forwardTap, Track.statFor_table, hfl, hr]
          obtain ⟨rfl, rfl, -⟩ | ⟨-, -, -, ho, -⟩ := egressFlow_some hfl
          · have hsame : { s.statFor k.stats o.saddr with table := s.table } =
                s.statFor k.stats o.saddr := by rw [← s.statFor_table k.stats o.saddr]
            simp only [Bool.false_eq_true, if_false]
            rw [hsame]
            exact (hk'.emit _).count (fun _ => by rfl) _ _
          · exact absurd ⟨hs, cfg, hc, hp', ho⟩ (h o)

theorem natUplink_letIn_conns (h : LetIn m k s.table f o dn) :
    ((natUplink m k f s).track.table ≠ s.table ↔
        k.insert = true ∧ (publishedFlow k dn o).Fits s.table) ∧
      ∀ ip, (natUplink m k f s).track.conns ip =
        s.conns ip + if ip = dn.vmIP ∧ s.HasCounters k.stats dn.vmIP then 1 else 0 := by
  obtain ⟨hs, hn, hr, hal, cfg, hc, hp⟩ := h
  rw [natUplink_published hc hs hn hr]
  constructor
  · rw [(forwardPublished_spec hp hal hs).2.2.2, insertFlow]
    split
    · rename_i hi
      simp [hi]
    · rename_i hi
      simpa using fun hins hfits => hi ⟨hins, hfits⟩
  intro ip
  obtain ⟨f', hd, -⟩ := deliver_spec hs dn.vmIP dn.vmPort dn.vmMAC
  simp only [forwardPublished, hp, hal, hd, Bool.not_true, Bool.false_eq_true, if_false]
  exact received_conns ..

theorem natUplink_kept (h : ∀ o dn, ¬LetIn m k s.table f o dn) : s.Kept (natUplink m k f s).track := by
  have hk := Track.Kept.refl s
  cases hc : m.globalConfig with
  | none => simpa only [natUplink, hc] using hk
  | some cfg =>
    cases hf : parse f with
    | pass | fragment => simpa only [natUplink, hc, hf] using hk
    | handled o =>
      have hs := parse_handled_iff.mp hf
      obtain ⟨e, -, he⟩ | ⟨hn, he⟩ := natUplink_handled hc hs (k := k) s
      · rw [he]
        cases hv : m.vmConfig e.orig.src with
        | none => simpa only [answerFlow, hv] using hk
        | some vm =>
          obtain ⟨f', hd, -⟩ := deliver_spec hs e.orig.src e.orig.sport vm.vmMAC
          simp only [answerFlow, hv, hd]
          refine ⟨by simp [Track.received], fun ip => ?_⟩
          rw [received_conns, ite_self]
          exact UInt64.add_zero _
      · cases hr : m.rule o with
        | none => simpa only [he, natUplinkRest, hr] using hk
        | some dn =>
          have hno : ¬(policyCheck m.ingressPolicy o.saddr o.dport cfg.defaultIngressAllow = true ∧
              k.alloc = true) := fun had => h o dn ⟨hs, hn, hr, had.2, cfg, hc, had.1⟩
          rw [natUplink_published hc hs hn hr]
          unfold forwardPublished
          split
          · exact (hk.count (fun _ => by rfl) _ _).emit _
          rename_i hpol
          rw [if_pos (by simpa using fun ha => hno ⟨by simpa using hpol, ha⟩)]
          exact hk

def Packet.inserted (p : Packet) (s : Track) (ip : Addr) : Nat :=
  if (p.outcome s).track.table ≠ p.table ∧ p.owner = some ip then 1 else 0

/-- Before the packet: if it opens a flow for a machine there are counters for the machine, and if it
is let in to a published port its flow can be inserted exactly if there are. -/
def Packet.Tallies (p : Packet) (s : Track) : Prop :=
  match p.arrival with
  | .tap _ f k => ∀ o, TapOpens p.maps k p.table f o → s.HasCounters k.stats o.saddr
  | .uplink f k => ∀ o dn, LetIn p.maps k p.table f o dn →
    (k.insert = true ∧ (publishedFlow k dn o).Fits p.table ↔ s.HasCounters k.stats dn.vmIP)

def Counted (s : Track) (n : Addr → Nat) : List Packet → Prop
  | [] => ∀ ip, s.conns ip = UInt64.ofNat (n ip)
  | p :: ps => (∀ ip, s.conns ip = UInt64.ofNat (n ip)) ∧
    Counted (p.outcome s).track (fun ip => n ip + p.inserted s ip) ps

def AllTally (s : Track) : List Packet → Prop
  | [] => True
  | p :: ps => p.Tallies s ∧ AllTally (p.outcome s).track ps

theorem inserted_of_ne {p : Packet} (ht : (p.outcome s).track.table ≠ p.table)
    (hv : p.owner = some v) (ip : Addr) :
    UInt64.ofNat (p.inserted s ip) = if ip = v then 1 else 0 := by
  simp only [Packet.inserted, ht, hv, ne_eq, not_false_eq_true, true_and, Option.some.injEq, eq_comm]
  split <;> rfl

theorem inserted_of_eq {p : Packet} (ht : (p.outcome s).track.table = p.table) (ip : Addr) :
    UInt64.ofNat (p.inserted s ip) = 0 := by
  simp [Packet.inserted, ht]

/-- One packet: what it adds to the counters is what it inserts. -/
theorem Packet.tallies_iff (p : Packet) (s : Track) :
    p.Tallies s ↔ ∀ ip, (p.outcome s).track.conns ip =
      s.conns ip + UInt64.ofNat (p.inserted s ip) := by
  have hkept (h : { s with table := p.table }.Kept (p.outcome s).track) (ip : Addr) :
      (p.outcome s).track.conns ip = s.conns ip + UInt64.ofNat (p.inserted s ip) := by
    rw [inserted_of_eq h.table, UInt64.add_zero]
    exact h.conns ip
  -- A packet that concerns the counters of `v`: one is added if there are any.
  have hone (v : Addr) (room : Bool) (hv : p.owner = some v)
      (hc : ∀ ip, (p.outcome s).track.conns ip =
        s.conns ip + if ip = v ∧ s.HasCounters room v then 1 else 0) :
      ((p.outcome s).track.table ≠ p.table ↔ s.HasCounters room v) ↔
        ∀ ip, (p.outcome s).track.conns ip = s.conns ip + UInt64.ofNat (p.inserted s ip) := by
    have hins : UInt64.ofNat (p.inserted s v) =
        if (p.outcome s).track.table ≠ p.table then 1 else 0 := by
      by_cases ht : (p.outcome s).track.table = p.table
      · rw [inserted_of_eq ht, if_neg (not_not.mpr ht)]
      · rw [inserted_of_ne ht hv, if_pos rfl, if_pos ht]
    constructor
    · intro hiff ip
      rw [hc]
      by_cases ht : (p.outcome s).track.table = p.table
      · rw [inserted_of_eq ht, if_neg fun h => hiff.mpr h.2 ht]
      · rw [inserted_of_ne ht hv]
        simp only [hiff.mp ht, and_true]
    · intro hall
      have hadd := (UInt64.add_right_inj _).mp ((hc v).symm.trans (hall v))
      rw [hins] at hadd
      by_cases hr : s.HasCounters room v <;> by_cases ht : (p.outcome s).track.table = p.table <;>
        simp [hr, ht] at hadd ⊢
  obtain ⟨m, table, l⟩ := p
  cases l with
  | tap i f k =>
    by_cases hop : ∃ o, TapOpens m k table f o
    · obtain ⟨o, ho⟩ := hop
      obtain ⟨ht, hc⟩ := natTap_opens_conns (s := { s with table := table }) ho i
      rw [← hone o.saddr k.stats
        (by simp only [Packet.owner, parse_handled_iff.mpr ho.1]) hc]
      constructor
      · intro h
        exact iff_of_true ht (h o ho)
      · intro h o' ho'
        rw [ho'.1.unique ho.1]
        exact h.mp ht
    · rw [not_exists] at hop
      exact ⟨fun _ => hkept (natTap_kept (s := { s with table := table }) hop i),
        fun _ o ho => absurd ho (hop o)⟩
  | uplink f k =>
    by_cases hin : ∃ o dn, LetIn m k table f o dn
    · obtain ⟨o, dn, hl⟩ := hin
      obtain ⟨ht, hc⟩ := natUplink_letIn_conns (s := { s with table := table }) hl
      rw [← hone dn.vmIP k.stats
        (by simp only [Packet.owner, parse_handled_iff.mpr hl.1, hl.2.2.1, Option.map_some]) hc]
      constructor
      · intro h
        exact ht.trans (h o dn hl)
      · intro h o' dn' hl'
        obtain rfl := hl'.1.unique hl.1
        obtain rfl := Option.some.inj (hl'.2.2.1.symm.trans hl.2.2.1)
        exact ht.symm.trans h
    · have hno : ∀ o dn, ¬LetIn m k table f o dn := fun o dn hl => hin ⟨o, dn, hl⟩
      exact ⟨fun _ => hkept (natUplink_kept (s := { s with table := table }) hno),
        fun _ o dn hl => absurd hl (hno o dn)⟩

theorem counted_iff (ps : List Packet) (hn : ∀ ip, s.conns ip = UInt64.ofNat (n ip)) :
    Counted s n ps ↔ AllTally s ps := by
  induction ps generalizing s n with
  | nil => exact ⟨fun _ => trivial, fun _ => hn⟩
  | cons p ps ih =>
    have hs : p.Tallies s ↔ ∀ ip, (p.outcome s).track.conns ip =
        UInt64.ofNat (n ip + p.inserted s ip) := by
      simp only [p.tallies_iff, hn, UInt64.ofNat_add]
    constructor
    · rintro ⟨-, hc⟩
      have hc' : ∀ ip, (p.outcome s).track.conns ip = UInt64.ofNat (n ip + p.inserted s ip) := by
        cases ps with
        | nil => exact hc
        | cons q ps => exact hc.1
      exact ⟨hs.mpr hc', (ih hc').mp hc⟩
    · rintro ⟨hi, ha⟩
      exact ⟨hn, (ih (hs.mp hi)).mpr ha⟩

/-- The counters count connections exactly while every machine that opens a flow has counters, and
the packets that a rule lets in are those whose flow can be inserted. -/
theorem connections_counted_iff (ps : List Packet) :
    Counted .empty (fun _ => 0) ps ↔ AllTally .empty ps :=
  counted_iff ps fun _ => rfl

/-- Two packets of one connection to the published port are counted as two connections. -/
theorem connection_counted_twice :
    let p : Packet := ⟨smallMaps [], [], .uplink remoteOpens (.working 0)⟩
    let q := { p with table := (p.outcome .empty).track.table }
    (q.outcome (p.outcome .empty).track).track.conns vmAddr = 2 ∧
      p.inserted .empty vmAddr + q.inserted (p.outcome .empty).track vmAddr = 1 := by
  decide +kernel

end Craftling.Dataplane

import Craftling.Dataplane.Tracking

namespace Craftling.Dataplane
open Effects

inductive Arrival where
  | tap (ifindex : Nat) (f : Frame) (k : Kfuncs)
  | uplink (f : Frame) (k : Kfuncs)

def Arrival.outcome (m : Maps) (s : Track) : Arrival → Outcome
  | .tap i f k => natTap m k i f s
  | .uplink f k => natUplink m k f s

/-- The maps stay as they are, and each frame is dealt with before the next. -/
def trackStep (m : Maps) (s : Track) (l : Arrival) : Option Track := some (l.outcome m s).track

/-- A published rule is at the host's address and names a machine of `vm_config`, and the
host's address is no machine's. -/
structure Maps.Consistent (m : Maps) (cfg : GlobalConfig) : Prop where
  config : m.globalConfig = some cfg
  rules : ∀ key dn, m.dnatRules key = some dn → key.hostIP = cfg.hostIP ∧
    ∃ vm, m.vmConfig dn.vmIP = some vm ∧ vm.tapIfindex = dn.tapIfindex ∧ vm.vmMAC = dn.vmMAC
  host : m.vmConfig cfg.hostIP = none

section Runs

variable (m : Maps) (cfg : GlobalConfig)

/-- Machines use their own addresses, and what comes in by the uplink is from no machine's address. -/
def Arrival.Honest : Arrival → Prop
  | .tap i f _ => ∀ o, Shaped f o → ∃ vm, m.vmConfig o.saddr = some vm ∧ vm.tapIfindex = i
  | .uplink f _ => ∀ o, Shaped f o → m.vmConfig o.saddr = none

/-- Every call into connection tracking succeeds. The one exception is the insertion for a
packet to a published port whose flow is tracked already. -/
def Arrival.Succeeds (s : Track) : Arrival → Prop
  | .tap _ _ k => k = { Kfuncs.working k.port with stats := k.stats }
  | .uplink f k => k = { Kfuncs.working k.port with stats := k.stats } ∧
    ∀ o dn, Shaped f o → m.rule o = some dn →
      ctLookup s.table (mkTuple o) = none → (publishedFlow k dn o).Fits s.table

/-- Machines use their own addresses, remote hosts use none of theirs, and the calls succeed. -/
def Proper (s : Track) (l : Arrival) (_ : Track) : Prop := l.Honest m ∧ l.Succeeds m s

/-- A flow that a machine has opened: its answers come to the host, at a port of its own. -/
structure Flow.Egress (e : Flow) : Prop where
  vm : ∃ vm, m.vmConfig e.orig.src = some vm
  reply : ∃ port, e.reply = { e.orig.inverse with dst := cfg.hostIP, dport := port }

/-- A flow to a published port: its answers come from the machine that the rule names. -/
structure Flow.Inbound (e : Flow) : Prop where
  outside : m.vmConfig e.orig.src = none
  reply : ∃ dn, m.dnatRules ⟨e.orig.dst, e.orig.dport, UInt8.ofNat e.orig.proto⟩ = some dn ∧
    e.reply = { e.orig.inverse with src := dn.vmIP, sport := dn.vmPort }

structure Tracked (table : List Flow) : Prop where
  nodup : (tuplesOf table).Nodup
  kinds : ∀ e ∈ table, e.Egress m cfg ∨ e.Inbound m

end Runs

section Kept

variable {m : Maps} {cfg : GlobalConfig} {e : Flow} {s s' : Track}

theorem Tracked.cons {table : List Flow} (h : Tracked m cfg table) {e : Flow}
    (hf : e.Fits table) (hk : e.Egress m cfg ∨ e.Inbound m) : Tracked m cfg (e :: table) :=
  ⟨hf.nodup h.nodup, List.forall_mem_cons.mpr ⟨hk, h.kinds⟩⟩

theorem Tracked.step (hm : m.Consistent cfg) (h : Tracked m cfg s.table)
    (hs : trackStep m s l = some s') (hr : Proper m s l s') : Tracked m cfg s'.table := by
  obtain ⟨hh, hw⟩ := hr
  cases hs
  cases l with
  | tap i f k =>
    obtain hsa | ⟨cfg', o, e, hc, hsh, rfl, ho, ha, ht⟩ := natTap_table m k i f s
    · exact (hsa : ((Arrival.tap i f k).outcome m s).track.table = s.table) ▸ h
    obtain rfl : cfg' = cfg := Option.some.inj (hc.symm.trans hm.config)
    have hbo : k.setNatInfo = true := congrArg Kfuncs.setNatInfo hw
    obtain ⟨vm, hv, _⟩ := hh o hsh
    simp only [Arrival.outcome, ht]
    refine h.cons ho.fits (.inl ⟨⟨vm, hv⟩, k.port, ?_⟩)
    simp [allocFlow, hbo]
  | uplink f k =>
    obtain hsa | ⟨o, dn, hsh, hn, hru, _, hf, ha, ht⟩ := natUplink_table m k f s
    · exact (hsa : ((Arrival.uplink f k).outcome m s).track.table = s.table) ▸ h
    have hbo : k.setNatInfo = true := congrArg Kfuncs.setNatInfo hw.1
    have ho : m.vmConfig o.saddr = none := hh o hsh
    simp only [Arrival.outcome, ht]
    refine h.cons hf (.inr ⟨ho, dn, hru, ?_⟩)
    simp [publishedFlow, allocFlow, hbo]

theorem Tracked.reaches (hm : m.Consistent cfg)
    (hr : Reaches (trackStep m) (Proper m) .empty s) : Tracked m cfg s.table := by
  have he : Tracked m cfg Track.empty.table := ⟨List.nodup_nil, nofun⟩
  refine hr.invariant (I := fun s => Tracked m cfg s.table) he ?_
  exact fun _ _ _ h hs hre => h.step hm hs hre

theorem mem_outcome (m : Maps) (he : e ∈ s.table) (l : Arrival) :
    e ∈ (l.outcome m s).track.table := by
  cases l with
  | tap i f k =>
    obtain hs | ⟨_, _, _, _, _, _, _, _, ht⟩ := natTap_table m k i f s
    · exact (hs : ((Arrival.tap i f k).outcome m s).track.table = s.table) ▸ he
    · simp only [Arrival.outcome, ht]
      exact List.mem_cons_of_mem _ he
  | uplink f k =>
    obtain hs | ⟨_, _, _, _, _, _, _, _, ht⟩ := natUplink_table m k f s
    · exact (hs : ((Arrival.uplink f k).outcome m s).track.table = s.table) ▸ he
    · simp only [Arrival.outcome, ht]
      exact List.mem_cons_of_mem _ he

theorem mem_of_reaches {ok : Track → Arrival → Track → Prop} (hr : Reaches (trackStep m) ok s s')
    (he : e ∈ s.table) : e ∈ s'.table := by
  refine hr.invariant (I := fun s' => e ∈ s'.table) he ?_
  intro s l s' hm hs _
  cases hs
  exact mem_outcome m hm l

end Kept

/-- The machine whose flow it is: the one that opened it, or the one that answers. -/
def Maps.owner (m : Maps) (e : Flow) : Addr :=
  if (m.vmConfig e.orig.src).isSome then e.orig.src else e.reply.src

/-- The packet goes to a machine's TAP, with the machine's address and a port of it for its
destination and the machine's MAC on the frame. -/
structure Delivered (out : Outcome) (o : L4off) (vm : VMEntry) (ip : Addr) (port : Port) : Prop where
  action : out.action = .redirect vm.tapIfindex
  headers : Shaped out.frame { o with daddr := ip, dport := port }
  mac : slice out.frame 0 6 = vm.vmMAC.toList

structure Leaves (cfg : GlobalConfig) (out : Outcome) (o : L4off) (ip : Addr) (port : Port) :
    Prop where
  action : out.action = .redirectNeigh cfg.uplinkIfindex
  headers : Shaped out.frame { o with saddr := ip, sport := port }

section Inverse

variable {m : Maps} {cfg : GlobalConfig} {e : Flow} {o : L4off}

section

variable (hm : m.Consistent cfg) {s : Track} (hs : Tracked m cfg s.table) {e : Flow}
    (he : e ∈ s.table)
include hm hs he

theorem answer_delivered {vm : VMEntry} (hv : m.vmConfig e.orig.src = some vm)
    {k : Kfuncs} (hl : k.lookup = true) {f : Frame} {o : L4off} (hsh : Shaped f o)
    (ho : mkTuple o = e.reply) :
    Delivered (natUplink m k f s) o vm e.orig.src e.orig.sport := by
  have hf : ctLookup s.table (mkTuple o) = some (e, .reply) := by
    rw [ho]
    exact (ctLookup_of_mem hs.nodup he).2
  obtain ⟨e', ha, heq⟩ | ⟨hn, _⟩ := natUplink_handled hm.config hsh (k := k) s
  · obtain rfl : e' = e := by
      have hsa := ha.2.symm.trans hf
      cases hsa
      rfl
    obtain ⟨hac, hh, hma, _⟩ := answerFlow_spec (s := s) hv hsh
    rw [heq]
    exact ⟨hac, hh, hma⟩
  · exact absurd ⟨hl, hf⟩ (hn e)

theorem flow_leaves {d : Dir} {k : Kfuncs} (hl : k.lookup = true) {i : Nat}
    {f : Frame} {o : L4off} (hsh : Shaped f o)
    (ho : (d = .original ∧ mkTuple o = e.orig) ∨ (d = .reply ∧ mkTuple o = e.reply))
    (hp : policyCheck m.egressPolicy o.daddr o.dport cfg.defaultEgressAllow = true) :
    Leaves cfg (natTap m k i f s) o (e.source d).1 (e.source d).2 := by
  have hf : ctLookup s.table (mkTuple o) = some (e, d) := by
    obtain ⟨rfl, ho⟩ | ⟨rfl, ho⟩ := ho
    · rw [ho]
      exact (ctLookup_of_mem hs.nodup he).1
    · rw [ho]
      exact (ctLookup_of_mem hs.nodup he).2
  obtain ⟨ha, hh, _⟩ := natTap_forwards (i := i) hm.config hsh hp (egressFlow_found (.inl hl) hf)
  exact ⟨ha, hh⟩

end

/-- The direction that a machine's answer to a packet has in a flow, where the packet is
delivered to an address and a port. -/
structure AnsweredIn (e : Flow) (d : Dir) (o : L4off) (ip : Addr) (port : Port) : Prop where
  answer : (match d with | .original => e.orig | .reply => e.reply) =
    (mkTuple { o with daddr := ip, dport := port }).inverse
  packet : (match d with | .original => e.reply | .reply => e.orig) = mkTuple o

theorem AnsweredIn.source (h : AnsweredIn e d o ip port) : e.source d = (o.daddr, o.dport) := by
  have hp := h.packet
  cases d with
  | original | reply =>
    simp only at hp
    simp [Flow.source, hp, mkTuple]

theorem Flow.Egress.owner (h : e.Egress m cfg) : m.owner e = e.orig.src := by
  obtain ⟨vm, hv⟩ := h.vm
  simp [Maps.owner, hv]

theorem Flow.Inbound.owner (h : e.Inbound m) : m.owner e = e.reply.src := by
  simp [Maps.owner, h.outside]

theorem Flow.Egress.answered (h : e.Egress m cfg) (ho : e.reply = mkTuple o) :
    AnsweredIn e .original o e.orig.src e.orig.sport := by
  obtain ⟨port, hr⟩ := h.reply
  refine ⟨?_, ho⟩
  rw [ho] at hr
  simp only [mkTuple, Tuple.inverse, Tuple.mk.injEq] at hr
  obtain ⟨hp, hs, hsp, _, _⟩ := hr
  simp only [mkTuple, Tuple.inverse, hp, hs, hsp]

theorem Flow.Inbound.answered (h : e.Inbound m) (hr : m.rule o = some dn) (ho : e.orig = mkTuple o) :
    m.owner e = dn.vmIP ∧ AnsweredIn e .reply o dn.vmIP dn.vmPort := by
  obtain ⟨dn', hr', hre⟩ := h.reply
  have hs : m.rule o = some dn' := by
    rw [ho] at hr'
    exact hr'
  obtain rfl : dn' = dn := Option.some.inj (hs.symm.trans hr)
  refine ⟨?_, ?_, ho⟩
  · rw [h.owner, hre]
  · rw [hre, ho]
    rfl

theorem delivered_flow (hm : m.Consistent cfg) (hs : Tracked m cfg s.table)
    (hsh : Shaped f o) (hh : (Arrival.uplink f k).Honest m)
    (hw : (Arrival.uplink f k).Succeeds m s) (ha : (natUplink m k f s).action = .redirect j) :
    ∃ e d vm port, e ∈ (natUplink m k f s).track.table ∧ m.vmConfig (m.owner e) = some vm ∧
      Delivered (natUplink m k f s) o vm (m.owner e) port ∧
      AnsweredIn e d o (m.owner e) port := by
  have hst : ∀ e ∈ s.table, e ∈ (natUplink m k f s).track.table :=
    fun e he => mem_outcome m he (.uplink f k)
  obtain ⟨cfg', o', hc, hs', hca⟩ := natUplink_delivered ha
  obtain rfl : cfg' = cfg := Option.some.inj (hc.symm.trans hm.config)
  obtain rfl : o' = o := hs'.unique hsh
  obtain ⟨e, vm, han, hv, rfl, heq⟩ | ⟨dn, hn, hr, rfl, hp, hal, heq⟩ := hca
  · obtain ⟨he, ⟨hd, _⟩ | ⟨_, hre⟩⟩ := ctLookup_some han.2
    · cases hd
    have heg : e.Egress m cfg' := by
      refine (hs.kinds e he).resolve_right fun hi => ?_
      rw [hi.outside] at hv
      cases hv
    refine ⟨e, .original, vm, e.orig.sport, hst e he, heg.owner ▸ hv, ?_,
      heg.owner ▸ heg.answered hre⟩
    rw [heg.owner]
    exact answer_delivered hm hs he hv han.1 hsh hre.symm
  · obtain ⟨_, vm, hv, ht, hma⟩ := hm.rules _ _ hr
    obtain ⟨ha', hhe, hm', hta⟩ := @forwardPublished_spec cfg' m k dn f o' s hp hal hsh
    have hde : Delivered (natUplink m k f s) o' vm dn.vmIP dn.vmPort := by
      rw [heq]
      exact ⟨ht.symm ▸ ha', hhe, hma.symm ▸ hm'⟩
    cases hfo : ctLookup s.table (mkTuple o') with
    | some found =>
      -- The flow is tracked already.
      obtain ⟨e, d⟩ := found
      obtain ⟨he, ⟨_, ho⟩ | ⟨rfl, _⟩⟩ := ctLookup_some hfo
      swap
      · exact absurd ⟨congrArg Kfuncs.lookup hw.1, hfo⟩ (hn e)
      have hou : m.vmConfig e.orig.src = none := by
        rw [ho]
        exact hh o' hsh
      have hi : e.Inbound m := by
        refine (hs.kinds e he).resolve_left fun heg => ?_
        obtain ⟨vm', hv'⟩ := heg.vm
        rw [hou] at hv'
        cases hv'
      obtain ⟨hown, hans⟩ := hi.answered hr ho
      rw [← hown] at hv hde hans
      exact ⟨e, .reply, vm, dn.vmPort, hst e he, hv, hde, hans⟩
    | none =>
      have hf := hw.2 o' dn hsh hr hfo
      have hins : k.insert = true := congrArg Kfuncs.insert hw.1
      have hbo : k.setNatInfo = true := congrArg Kfuncs.setNatInfo hw.1
      have hin : insertFlow k.insert s.table (publishedFlow k dn o') =
          some (publishedFlow k dn o' :: s.table) := by
        rw [insertFlow, if_pos ⟨hins, hf⟩]
      have hi : (publishedFlow k dn o').Inbound m :=
        ⟨hh o' hsh, dn, hr, by simp [publishedFlow, allocFlow, hbo]⟩
      obtain ⟨hown, hans⟩ := hi.answered hr rfl
      rw [← hown] at hv hde hans
      refine ⟨_, .reply, vm, dn.vmPort, ?_, hv, hde, hans⟩
      rw [heq, hta, hin]
      exact List.mem_cons_self ..

end Inverse

end Craftling.Dataplane

import Craftling.Dataplane.Inverse

namespace Craftling.Dataplane
open Effects

/-- The machine's answer to a packet that is delivered as the rule says. -/
def DnatVal.answer (dn : DnatVal) (o : L4off) : Tuple :=
  (mkTuple { o with daddr := dn.vmIP, dport := dn.vmPort }).inverse

/-- A machine's packet that leaves does so from the host's address. When a packet to a published
port is let in there is a flow by which the machine's answer leaves from that address and
port. -/
def Arrival.Bound (m : Maps) (s : Track) : Arrival → Prop
  | .tap i f k => ∀ cfg o j, m.globalConfig = some cfg → Shaped f o →
    (natTap m k i f s).action = .redirectNeigh j →
    ∃ port, Shaped (natTap m k i f s).frame { o with saddr := cfg.hostIP, sport := port }
  | .uplink f k => ∀ o dn j, Shaped f o → (natUplink m k f s).action = .redirect j →
    (∀ e, ¬ Answers k s.table o e) → m.rule o = some dn →
    ∃ e d, ctLookup (natUplink m k f s).track.table (dn.answer o) = some (e, d) ∧
      e.source d = (o.daddr, o.dport)

/-- Before a machine's packet: the flow that it is found in is bound to the host's address, or the
binding of the flow that it opens can be set. -/
structure TapBinds (cfg : GlobalConfig) (k : Kfuncs) (table : List Flow) (o : L4off) : Prop where
  found : ∀ e d, k.Finds → ctLookup table (mkTuple o) = some (e, d) → (e.source d).1 = cfg.hostIP
  opened : Opens cfg k table (mkTuple o) → k.setNatInfo = true ∨ o.saddr = cfg.hostIP

/-- Before a packet to a published port: its flow can be bound and inserted, or the machine's answer
is already in a flow that takes it back to the port. A binding that changes nothing need not be
set. -/
def PortBinds (k : Kfuncs) (table : List Flow) (dn : DnatVal) (o : L4off) : Prop :=
  (k.insert = true ∧ (publishedFlow k dn o).Fits table ∧
      (k.setNatInfo = true ∨ (dn.vmIP, dn.vmPort) = (o.daddr, o.dport))) ∨
    ∃ e d, ctLookup table (dn.answer o) = some (e, d) ∧ e.source d = (o.daddr, o.dport)

/-- What a packet finds in the maps and the table, and how the calls come out, gives it a binding if
it is one to be forwarded. -/
def Arrival.Binds (m : Maps) (s : Track) : Arrival → Prop
  | .tap _ f k => ∀ cfg o, m.globalConfig = some cfg → Shaped f o →
    policyCheck m.egressPolicy o.daddr o.dport cfg.defaultEgressAllow = true →
    TapBinds cfg k s.table o
  | .uplink f k => ∀ cfg o dn, m.globalConfig = some cfg → Shaped f o →
    (∀ e, ¬ Answers k s.table o e) → m.rule o = some dn →
    policyCheck m.ingressPolicy o.saddr o.dport cfg.defaultIngressAllow = true → k.alloc = true →
    PortBinds k s.table dn o

section Bindings

variable {m : Maps} {cfg : GlobalConfig} {d : Dir} {f : Frame} {k : Kfuncs} {s : Track} {e : Flow}
    {table : List Flow} {o : L4off} {dn : DnatVal}

theorem ctLookup_cons_reply (h : e.Fits table) : ctLookup (e :: table) e.reply = some (e, .reply) := by
  simp [ctLookup, Flow.dir?, h.1]

theorem ctLookup_cons_other (ho : e.orig ≠ t) (hr : e.reply ≠ t) :
    ctLookup (e :: table) t = ctLookup table t := by
  simp [ctLookup, Flow.dir?, ho, hr]

theorem tap_bound_iff (m : Maps) (s : Track) (i : Nat) (f : Frame) (k : Kfuncs) :
    (Arrival.tap i f k).Bound m s ↔ (Arrival.tap i f k).Binds m s := by
  constructor
  · intro hb cfg o hc hsh hp
    constructor
    · intro e d hk hfo
      obtain ⟨ha, hhe, -⟩ := natTap_forwards (i := i) hc hsh hp (egressFlow_found hk hfo)
      obtain ⟨port, hho⟩ := hb cfg o _ hc hsh ha
      exact congrArg L4off.saddr (hhe.unique hho)
    · intro ho
      obtain ⟨ha, hhe, -⟩ := natTap_forwards (i := i) hc hsh hp (egressFlow_opens ho)
      obtain ⟨port, hho⟩ := hb cfg o _ hc hsh ha
      have hso := congrArg L4off.saddr (hhe.unique hho)
      -- Without a binding the packet leaves from where it came.
      cases hset : k.setNatInfo with
      | true => exact .inl rfl
      | false =>
        rw [hset] at hso
        exact .inr hso
  · intro hb cfg o j hc hsh ha
    obtain ⟨cfg', o', e, d, new, table, hc', hsh', hp, hfl⟩ := natTap_forwarded ha
    obtain rfl : cfg' = cfg := Option.some.inj (hc'.symm.trans hc)
    obtain rfl : o' = o := hsh'.unique hsh
    obtain ⟨_, hhe, _⟩ := natTap_forwards (i := i) hc hsh hp hfl
    have hbi := hb cfg' o' hc hsh hp
    have hso : (e.source d).1 = cfg'.hostIP := by
      obtain ⟨_, _, hk, hfo⟩ | ⟨_, rfl, rfl, ho, _⟩ := egressFlow_some hfl
      · exact hbi.found e d hk hfo
      cases hset : k.setNatInfo with
      | true => rfl
      | false => exact (hbi.opened ho).resolve_left (by simp [hset])
    rw [hso] at hhe
    exact ⟨_, hhe⟩

/-- The flow of a packet to a published port has the machine's answer for its reply exactly if the
binding is set or changes nothing. -/
theorem publishedFlow_reply_iff : (publishedFlow k dn o).reply = dn.answer o ↔
    k.setNatInfo = true ∨ (dn.vmIP, dn.vmPort) = (o.daddr, o.dport) := by
  cases hset : k.setNatInfo with
  | true => simp [publishedFlow, allocFlow, hset, DnatVal.answer, mkTuple, Tuple.inverse]
  | false =>
    simp [publishedFlow, allocFlow, hset, DnatVal.answer, mkTuple, Tuple.inverse, eq_comm]

theorem publishedFlow_orig_ne (h : (publishedFlow k dn o).Fits table) :
    (publishedFlow k dn o).orig ≠ dn.answer o := by
  intro he
  have hne := h.1
  simp only [publishedFlow, allocFlow, DnatVal.answer, mkTuple, Tuple.inverse, Tuple.mk.injEq] at he hne
  obtain ⟨-, hs, hsp, hd, hdp⟩ := he
  split at hne
  · exact hne (by simp [← hs, ← hsp, hd, hdp])
  · exact hne (by simp [hd, hdp])

/-- After the packet the machine's answer is in a flow that takes it back to the port exactly if it
was before, or the packet's own flow is inserted with its binding. -/
theorem published_answered_iff :
    (∃ e d, ctLookup ((insertFlow k.insert table (publishedFlow k dn o)).getD table) (dn.answer o) =
        some (e, d) ∧ e.source d = (o.daddr, o.dport)) ↔ PortBinds k table dn o := by
  by_cases hi : k.insert = true ∧ (publishedFlow k dn o).Fits table
  · obtain ⟨hins, hf⟩ := hi
    have htable : (insertFlow k.insert table (publishedFlow k dn o)).getD table =
        publishedFlow k dn o :: table := by
      rw [insertFlow, if_pos ⟨hins, hf⟩, Option.getD_some]
    rw [htable]
    by_cases hr : (publishedFlow k dn o).reply = dn.answer o
    · refine ⟨fun _ => .inl ⟨hins, hf, publishedFlow_reply_iff.mp hr⟩, fun _ => ?_⟩
      rw [← hr, ctLookup_cons_reply hf]
      exact ⟨_, _, rfl, rfl⟩
    · rw [ctLookup_cons_other (publishedFlow_orig_ne hf) hr]
      exact ⟨.inr, fun h => h.resolve_left fun hb => hr (publishedFlow_reply_iff.mpr hb.2.2)⟩
  · have htable : (insertFlow k.insert table (publishedFlow k dn o)).getD table = table := by
      rw [insertFlow, if_neg hi, Option.getD_none]
    rw [htable]
    exact ⟨.inr, fun h => h.resolve_left fun hb => hi ⟨hb.1, hb.2.1⟩⟩

theorem uplink_bound_iff (m : Maps) (s : Track) (f : Frame) (k : Kfuncs) :
    (Arrival.uplink f k).Bound m s ↔ (Arrival.uplink f k).Binds m s := by
  constructor
  · intro hb cfg o dn hc hsh hn hr hp hal
    have heq := natUplink_published hc hsh hn hr
    obtain ⟨ha, -, -, ht⟩ := @forwardPublished_spec cfg m k dn f o s hp hal hsh
    have hbound := hb o dn _ hsh (heq ▸ ha) hn hr
    rw [heq, ht] at hbound
    exact published_answered_iff.mp hbound
  · intro hb o dn j hsh ha hn hr
    obtain ⟨cfg, o', hc, hsh', ⟨e, -, hans, -⟩ | ⟨dn', -, hr', -, hp, hal, heq⟩⟩ :=
      natUplink_delivered ha
    · obtain rfl : o' = o := hsh'.unique hsh
      exact absurd hans (hn e)
    obtain rfl : o' = o := hsh'.unique hsh
    obtain rfl : dn' = dn := Option.some.inj (hr'.symm.trans hr)
    rw [heq, (forwardPublished_spec hp hal hsh).2.2.2]
    exact published_answered_iff.mpr (hb cfg o' dn' hc hsh hn hr hp hal)

/-- Whatever the maps and the flows are, a packet is forwarded with a working binding exactly if what
it finds gives it one. A machine's packet needs a flow that is bound to the host's address, or one
whose binding can be set; a packet to a published port needs its flow bound and inserted, or the
machine's answer in a flow that leads back to the port. -/
theorem forwarded_with_binding_iff (m : Maps) (s : Track) (l : Arrival) :
    l.Bound m s ↔ l.Binds m s := by
  cases l with
  | tap i f k => exact tap_bound_iff m s i f k
  | uplink f k => exact uplink_bound_iff m s f k

end Bindings

/-- The kernel cannot set the binding of the machine's connection: the packet leaves from the
machine's private address. It cannot insert the flow of a connection to the published port: the
packet is let in and no flow is tracked. -/
theorem forwarded_without_binding :
    (∃ k, (natTap (smallMaps []) k 7 vmOpens .empty).action = .redirectNeigh 2 ∧
      Shaped (natTap (smallMaps []) k 7 vmOpens .empty).frame
        (tcpHeaders vmAddr 40000 remoteAddr 443)) ∧
    ∃ k, (natUplink (smallMaps []) k remoteOpens .empty).action = .redirect 7 ∧
      (natUplink (smallMaps []) k remoteOpens .empty).track.table = [] := by
  refine ⟨⟨{ Kfuncs.working 50000 with setNatInfo := false }, by decide +kernel,
    parse_handled_iff.mp (by decide +kernel)⟩, ?_⟩
  exact ⟨{ Kfuncs.working 0 with insert := false }, by decide +kernel, by decide +kernel⟩

end Craftling.Dataplane

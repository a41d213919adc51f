import Craftling.Dataplane.Programs

namespace Craftling.Dataplane
open Effects

variable {f : Frame} {cfg : GlobalConfig} {k : Kfuncs} {o : L4off} {table : List Flow}

theorem mem_tuplesOf : t ∈ tuplesOf table ↔ ∃ e ∈ table, t = e.orig ∨ t = e.reply := by
  simp [tuplesOf]

variable {e : Flow}

theorem Flow.dir?_some (h : e.dir? t = some d) :
    (d = .original ∧ e.orig = t) ∨ (d = .reply ∧ e.reply = t) := by
  unfold Flow.dir? at h
  split at h
  · rename_i ho
    cases h
    exact .inl ⟨rfl, ho⟩
  split at h
  · rename_i hr
    cases h
    exact .inr ⟨rfl, hr⟩
  · cases h

theorem ctLookup_some (h : ctLookup table t = some (e, d)) :
    e ∈ table ∧ ((d = .original ∧ e.orig = t) ∨ (d = .reply ∧ e.reply = t)) := by
  obtain ⟨e', hm, hd⟩ := List.exists_of_findSome?_eq_some h
  obtain ⟨d', hd', he⟩ := Option.map_eq_some_iff.mp hd
  cases he
  exact ⟨hm, Flow.dir?_some hd'⟩

theorem ctLookup_of_mem (hn : (tuplesOf table).Nodup) (he : e ∈ table) :
    ctLookup table e.orig = some (e, .original) ∧ ctLookup table e.reply = some (e, .reply) := by
  induction table with
  | nil => cases he
  | cons first rest ih =>
    have hs : tuplesOf (first :: rest) = [first.orig, first.reply] ++ tuplesOf rest := rfl
    rw [hs, List.nodup_append'] at hn
    obtain ⟨hf, hr, hd⟩ := hn
    have hne : first.orig ≠ first.reply := by simpa using hf
    rcases List.mem_cons.mp he with rfl | he
    · simp [ctLookup, Flow.dir?, hne]
    -- The tuples of the first flow are none of this one's.
    have ha : ∀ t ∈ tuplesOf rest, first.orig ≠ t ∧ first.reply ≠ t := by
      intro t ht
      exact ⟨fun heq => hd (by simp) (heq ▸ ht), fun heq => hd (by simp) (heq ▸ ht)⟩
    have hsk : ∀ t ∈ tuplesOf rest, ctLookup (first :: rest) t = ctLookup rest t := by
      intro t ht
      simp [ctLookup, Flow.dir?, ha t ht]
    rw [hsk _ (mem_tuplesOf.mpr ⟨e, he, .inl rfl⟩), hsk _ (mem_tuplesOf.mpr ⟨e, he, .inr rfl⟩)]
    exact ih hr he

theorem insertFlow_some (h : insertFlow works table e = some table') :
    works = true ∧ e.Fits table ∧ table' = e :: table := by
  unfold insertFlow at h
  split at h
  · rename_i hf
    cases h
    exact ⟨hf.1, hf.2, rfl⟩
  · cases h

theorem Flow.Fits.nodup (h : e.Fits table) (hn : (tuplesOf table).Nodup) :
    (tuplesOf (e :: table)).Nodup := by
  have hs : tuplesOf (e :: table) = [e.orig, e.reply] ++ tuplesOf table := rfl
  rw [hs, List.nodup_append']
  refine ⟨by simpa using h.1, hn, ?_⟩
  intro t ht ht'
  simp only [List.mem_cons, List.not_mem_nil, or_false] at ht
  rcases ht with rfl | rfl
  · exact h.2.1 ht'
  · exact h.2.2 ht'

theorem Shaped.unique (h : Shaped f o) (h' : Shaped f o') : o = o' :=
  Parsed.handled.inj ((parse_handled_iff.mpr h).symm.trans (parse_handled_iff.mpr h'))

theorem Shaped.not_arp (h : Shaped f o) : ¬(ethLen ≤ f.length ∧ word f 12 2 = etherARP) := by
  rintro ⟨_, ha⟩
  rw [h.etherType] at ha
  exact absurd ha (by decide)

theorem ctLookup_none_of_not_mem (h : t ∉ tuplesOf table) : ctLookup table t = none := by
  cases hf : ctLookup table t with
  | none => rfl
  | some found =>
    obtain ⟨e, d⟩ := found
    obtain ⟨he, ht⟩ := ctLookup_some hf
    exact absurd (mem_tuplesOf.mpr ⟨e, he, ht.imp (fun h => h.2.symm) fun h => h.2.symm⟩) h

/-- The flow is looked up at all: at once, or again after an insertion that did not go through. -/
def Kfuncs.Finds (k : Kfuncs) : Prop := k.lookup = true ∨ k.alloc = true ∧ k.relookup = true

/-- A flow for a machine's packet can be made and inserted, so the packet's tuple has none yet. -/
structure Opens (cfg : GlobalConfig) (k : Kfuncs) (table : List Flow) (t : Tuple) : Prop where
  alloc : k.alloc = true
  insert : k.insert = true
  fits : (allocFlow t k.setNatInfo (.src cfg.hostIP k.port)).Fits table

theorem Opens.unknown (h : Opens cfg k table t) : ctLookup table t = none :=
  ctLookup_none_of_not_mem h.fits.2.1

theorem egressFlow_opens (h : Opens cfg k table t) :
    egressFlow cfg k table t =
      (some (allocFlow t k.setNatInfo (.src cfg.hostIP k.port), .original, true),
        allocFlow t k.setNatInfo (.src cfg.hostIP k.port) :: table) := by
  simp [egressFlow, h.unknown, h.alloc, insertFlow, h.insert, h.fits]

theorem egressFlow_found (hk : k.Finds) (hf : ctLookup table t = some (e, d)) :
    egressFlow cfg k table t = (some (e, d, false), table) := by
  by_cases hl : k.lookup = true
  · simp [egressFlow, hl, hf]
  obtain ⟨ha, hr⟩ := hk.resolve_left hl
  -- A flow with this tuple is there, so no other can be inserted.
  have hfull : insertFlow k.insert table (allocFlow t k.setNatInfo (.src cfg.hostIP k.port)) =
      none := by
    apply if_neg
    rintro ⟨-, hfits⟩
    cases (ctLookup_none_of_not_mem hfits.2.1).symm.trans hf
  simp [egressFlow, hl, ha, hfull, hr, hf]

/-- The result of `egressFlow`: a flow of the table that has the packet's tuple, or a new one. -/
theorem egressFlow_some (h : egressFlow cfg k table t = (some (e, d, new), table')) :
    (new = false ∧ table' = table ∧ k.Finds ∧ ctLookup table t = some (e, d)) ∨
      (new = true ∧ d = .original ∧ e = allocFlow t k.setNatInfo (.src cfg.hostIP k.port) ∧
        Opens cfg k table t ∧ table' = e :: table) := by
  unfold egressFlow at h
  split at h
  · rename_i found hf
    split at hf
    · rename_i hl
      cases h
      exact .inl ⟨rfl, rfl, .inl hl, hf⟩
    · cases hf
  split at h
  · cases h
  rename_i ha
  rw [Bool.not_eq_true', Bool.not_eq_false] at ha
  dsimp only at h
  split at h
  · rename_i hi
    cases h
    obtain ⟨hw, hfi, rfl⟩ := insertFlow_some hi
    exact .inr ⟨rfl, rfl, rfl, ⟨ha, hw, hfi⟩, rfl⟩
  split at h
  · rename_i hf
    split at hf
    · rename_i hr
      cases h
      exact .inl ⟨rfl, rfl, .inr ⟨ha, hr⟩, hf⟩
    · cases hf
  · cases h

theorem egressFlow_none (h : egressFlow cfg k table t = (none, table')) : table' = table := by
  unfold egressFlow at h
  split at h
  · cases h
  split at h
  · cases h
    rfl
  dsimp only at h
  split at h
  · cases h
  split at h
  · cases h
  · cases h
    rfl

@[simp] theorem Track.count_table (s : Track) (room : Bool) (ip : Addr) (f : NatStats → NatStats) :
    (s.count room ip f).table = s.table := by
  unfold Track.count
  split <;> rfl

@[simp] theorem Track.statFor_table (s : Track) (room : Bool) (ip : Addr) :
    (s.statFor room ip).table = s.table := s.count_table room ip id

@[simp] theorem Track.emit_table (s : Track) (e : NatEvent) : (s.emit e).table = s.table := rfl

variable {s : Track}

theorem forwardTap_spec (hs : Shaped f o)
    (hf : egressFlow cfg k s.table (mkTuple o) = (some (e, d, new), table)) :
    (forwardTap cfg k f o s).action = .redirectNeigh cfg.uplinkIfindex ∧
      Shaped (forwardTap cfg k f o s).frame
        { o with saddr := (e.source d).1, sport := (e.source d).2 } ∧
      (forwardTap cfg k f o s).track.table = table := by
  obtain ⟨f', hr, hs'⟩ := rewriteSrc_spec hs (e.source d).1 (e.source d).2
  simp only [forwardTap, hf, hr]
  refine ⟨trivial, hs', ?_⟩
  cases new <;> simp

variable {m : Maps}

theorem natTap_handled (hc : m.globalConfig = some cfg) (hs : Shaped f o) (s : Track) :
    natTap m k i f s =
      if !policyCheck m.egressPolicy o.daddr o.dport cfg.defaultEgressAllow then
        ⟨.shot, f, ((s.statFor k.stats o.saddr).drop k.stats o.saddr).emit (denied o o.saddr)⟩
      else forwardTap cfg k f o (s.statFor k.stats o.saddr) := by
  simp only [natTap, hc, hs.not_arp, parse_handled_iff.mpr hs, if_false]

theorem natTap_forwards (hc : m.globalConfig = some cfg) (hs : Shaped f o)
    (hp : policyCheck m.egressPolicy o.daddr o.dport cfg.defaultEgressAllow = true)
    (hf : egressFlow cfg k s.table (mkTuple o) = (some (e, d, new), table)) :
    (natTap m k i f s).action = .redirectNeigh cfg.uplinkIfindex ∧
      Shaped (natTap m k i f s).frame { o with saddr := (e.source d).1, sport := (e.source d).2 } ∧
      (natTap m k i f s).track.table = table := by
  have hf' : egressFlow cfg k (s.statFor k.stats o.saddr).table (mkTuple o) =
      (some (e, d, new), table) := by
    rw [Track.statFor_table, hf]
  rw [natTap_handled hc hs, hp]
  exact forwardTap_spec hs hf'

theorem natTap_forwarded (h : (natTap m k i f s).action = .redirectNeigh j) :
    ∃ cfg o e d new table, m.globalConfig = some cfg ∧ Shaped f o ∧
      policyCheck m.egressPolicy o.daddr o.dport cfg.defaultEgressAllow = true ∧
      egressFlow cfg k s.table (mkTuple o) = (some (e, d, new), table) := by
  cases hc : m.globalConfig with
  | none => simp [natTap, hc] at h
  | some cfg =>
    by_cases ha : ethLen ≤ f.length ∧ word f 12 2 = etherARP
    · simp only [natTap, hc, ha, and_self, if_true, handleArp] at h
      split at h
      · cases h
      split at h
      · cases h
      split at h
      · cases h
      split at h <;> cases h
    cases hp : parse f with
    | pass | fragment => simp [natTap, hc, ha, hp] at h
    | handled o =>
      have hs := parse_handled_iff.mp hp
      rw [natTap_handled hc hs] at h
      split at h
      · cases h
      rename_i hpo
      have hp' : policyCheck m.egressPolicy o.daddr o.dport cfg.defaultEgressAllow = true := by
        simpa using hpo
      unfold forwardTap at h
      split at h
      · cases h
      · rename_i e d new table hf
        rw [Track.statFor_table] at hf
        exact ⟨cfg, o, e, d, new, table, rfl, hs, hp', hf⟩

theorem natTap_table (m : Maps) (k : Kfuncs) (i : Nat) (f : Frame) (s : Track) :
    (natTap m k i f s).track.table = s.table ∨
      ∃ cfg o e, m.globalConfig = some cfg ∧ Shaped f o ∧
        e = allocFlow (mkTuple o) k.setNatInfo (.src cfg.hostIP k.port) ∧
        Opens cfg k s.table (mkTuple o) ∧
        (natTap m k i f s).action = .redirectNeigh cfg.uplinkIfindex ∧
        (natTap m k i f s).track.table = e :: s.table := by
  cases hc : m.globalConfig with
  | none => simp [natTap, hc]
  | some cfg =>
    by_cases ha : ethLen ≤ f.length ∧ word f 12 2 = etherARP
    · refine .inl ?_
      simp only [natTap, hc, ha, and_self, if_true, handleArp]
      split
      · rfl
      split
      · rfl
      split
      · rfl
      split <;> rfl
    cases hp : parse f with
    | pass => simp [natTap, hc, ha, hp]
    | fragment => simp [natTap, hc, ha, hp, Track.emit]
    | handled o =>
      have hs := parse_handled_iff.mp hp
      by_cases hpo : policyCheck m.egressPolicy o.daddr o.dport cfg.defaultEgressAllow = true
      · cases hf : egressFlow cfg k s.table (mkTuple o) with
        | mk found table =>
          cases found with
          | none =>
            refine .inl ?_
            have hsa := egressFlow_none hf
            subst hsa
            rw [natTap_handled hc hs, hpo]
            simp only [Bool.not_true, Bool.false_eq_true, if_false, forwardTap]
            rw [Track.statFor_table, hf]
            simp [Track.drop]
          | some found =>
            obtain ⟨e, d, new⟩ := found
            have hsp := natTap_forwards (i := i) hc hs hpo hf
            obtain ⟨_, hsa, _⟩ | ⟨_, _, he, ho, ht⟩ := egressFlow_some hf
            · exact .inl (hsp.2.2.trans hsa)
            · exact .inr ⟨cfg, o, e, rfl, hs, he, ho, hsp.1, hsp.2.2.trans ht⟩
      · refine .inl ?_
        rw [natTap_handled hc hs]
        simp [hpo, Track.drop]

theorem deliver_spec (h : Shaped f o) (vmIP : Addr) (vmPort : Port) (mac : EthAddr) :
    ∃ f', deliver f o vmIP vmPort mac = some f' ∧
      Shaped f' { o with daddr := vmIP, dport := vmPort } ∧ slice f' 0 6 = mac.toList := by
  obtain ⟨f1, hr, hs⟩ := rewriteDst_spec h vmIP vmPort
  obtain ⟨f2, hse, hs2, hm⟩ := setEthDst_spec hs mac
  refine ⟨f2, ?_, hs2, hm⟩
  simp only [deliver, hr, Option.bind_eq_bind, Option.bind_some, hse]

def Maps.rule (m : Maps) (o : L4off) : Option DnatVal :=
  m.dnatRules ⟨o.daddr, o.dport, UInt8.ofNat o.proto⟩

def Answers (k : Kfuncs) (table : List Flow) (o : L4off) (e : Flow) : Prop :=
  k.lookup = true ∧ ctLookup table (mkTuple o) = some (e, .reply)

def natUplinkRest (m : Maps) (cfg : GlobalConfig) (k : Kfuncs) (f : Frame) (o : L4off) (s : Track) :
    Outcome :=
  match m.rule o with
  | none => ⟨.ok, f, s⟩
  | some dn => forwardPublished cfg m k dn f o s

theorem natUplink_handled (hc : m.globalConfig = some cfg) (hs : Shaped f o) (s : Track) :
    (∃ e, Answers k s.table o e ∧ natUplink m k f s = answerFlow m k e f o s) ∨
      ((∀ e, ¬ Answers k s.table o e) ∧ natUplink m k f s = natUplinkRest m cfg k f o s) := by
  have hp := parse_handled_iff.mpr hs
  by_cases ha : ∃ e, Answers k s.table o e
  · obtain ⟨e, hl, hf⟩ := ha
    refine .inl ⟨e, ⟨hl, hf⟩, ?_⟩
    simp only [natUplink, hc, hp, hl, if_true, hf]
  rw [not_exists] at ha
  refine .inr ⟨ha, ?_⟩
  simp only [natUplink, hc, hp]
  split
  · rename_i e hf
    split at hf
    · rename_i hl
      exact absurd ⟨hl, hf⟩ (ha e)
    · cases hf
  · rfl

theorem natUplink_published (hc : m.globalConfig = some cfg) (hs : Shaped f o)
    (hn : ∀ e, ¬ Answers k s.table o e) (hr : m.rule o = some dn) :
    natUplink m k f s = forwardPublished cfg m k dn f o s := by
  obtain ⟨e, ha, -⟩ | ⟨-, heq⟩ := natUplink_handled hc hs (k := k) s
  · exact absurd ha (hn e)
  · rw [heq, natUplinkRest, hr]

theorem answerFlow_spec (hv : m.vmConfig e.orig.src = some vm) (hs : Shaped f o) :
    (answerFlow m k e f o s).action = .redirect vm.tapIfindex ∧
      Shaped (answerFlow m k e f o s).frame { o with daddr := e.orig.src, dport := e.orig.sport } ∧
      slice (answerFlow m k e f o s).frame 0 6 = vm.vmMAC.toList ∧
      (answerFlow m k e f o s).track.table = s.table := by
  obtain ⟨f', hd, hs', hm⟩ := deliver_spec hs e.orig.src e.orig.sport vm.vmMAC
  simp only [answerFlow, hv, hd]
  exact ⟨trivial, hs', hm, by simp [Track.received]⟩

def publishedFlow (k : Kfuncs) (dn : DnatVal) (o : L4off) : Flow :=
  allocFlow (mkTuple o) k.setNatInfo (.dst dn.vmIP dn.vmPort)

theorem forwardPublished_spec {cfg : GlobalConfig} {m : Maps} {k : Kfuncs} {dn : DnatVal}
    {f : Frame} {o : L4off} {s : Track}
    (hp : policyCheck m.ingressPolicy o.saddr o.dport cfg.defaultIngressAllow = true)
    (ha : k.alloc = true) (hs : Shaped f o) :
    (forwardPublished cfg m k dn f o s).action = .redirect dn.tapIfindex ∧
      Shaped (forwardPublished cfg m k dn f o s).frame
        { o with daddr := dn.vmIP, dport := dn.vmPort } ∧
      slice (forwardPublished cfg m k dn f o s).frame 0 6 = dn.vmMAC.toList ∧
      (forwardPublished cfg m k dn f o s).track.table =
        (insertFlow k.insert s.table (publishedFlow k dn o)).getD s.table := by
  obtain ⟨f', hd, hs', hm⟩ := deliver_spec hs dn.vmIP dn.vmPort dn.vmMAC
  simp only [forwardPublished, hp, ha, hd, Bool.not_true, Bool.false_eq_true, if_false]
  exact ⟨trivial, hs', hm, by simp [Track.received, publishedFlow]⟩

theorem forwardPublished_refused
    (h : ¬(policyCheck m.ingressPolicy o.saddr o.dport cfg.defaultIngressAllow = true ∧ k.alloc =
      true)) :
    (forwardPublished cfg m k dn f o s).action = .shot ∧
      (forwardPublished cfg m k dn f o s).track.table = s.table := by
  unfold forwardPublished
  split
  · exact ⟨rfl, by simp [Track.drop]⟩
  rename_i hp
  split
  · exact ⟨rfl, rfl⟩
  · rename_i ha
    exact absurd ⟨by simpa using hp, by simpa using ha⟩ h

theorem natUplink_delivered (h : (natUplink m k f s).action = .redirect j) :
    ∃ cfg o, m.globalConfig = some cfg ∧ Shaped f o ∧
      ((∃ e vm, Answers k s.table o e ∧ m.vmConfig e.orig.src = some vm ∧ j = vm.tapIfindex ∧
          natUplink m k f s = answerFlow m k e f o s) ∨
        ∃ dn, (∀ e, ¬ Answers k s.table o e) ∧ m.rule o = some dn ∧ j = dn.tapIfindex ∧
          policyCheck m.ingressPolicy o.saddr o.dport cfg.defaultIngressAllow = true ∧
          k.alloc = true ∧ natUplink m k f s = forwardPublished cfg m k dn f o s) := by
  cases hc : m.globalConfig with
  | none => simp [natUplink, hc] at h
  | some cfg =>
    cases hp : parse f with
    | pass | fragment => simp [natUplink, hc, hp] at h
    | handled o =>
      have hs := parse_handled_iff.mp hp
      refine ⟨cfg, o, rfl, hs, ?_⟩
      obtain ⟨e, ha, he⟩ | ⟨hn, he⟩ := natUplink_handled hc hs (k := k) s
      · cases hv : m.vmConfig e.orig.src with
        | none =>
          rw [he] at h
          simp [answerFlow, hv] at h
        | some vm =>
          rw [he, (answerFlow_spec hv hs).1] at h
          cases h
          exact .inl ⟨e, vm, ha, hv, rfl, he⟩
      · cases hr : m.rule o with
        | none =>
          rw [he] at h
          simp [natUplinkRest, hr] at h
        | some dn =>
          have he' := natUplink_published hc hs hn hr
          by_cases had : policyCheck m.ingressPolicy o.saddr o.dport cfg.defaultIngressAllow =
              true ∧ k.alloc = true
          · rw [he', (forwardPublished_spec had.1 had.2 hs).1] at h
            cases h
            exact .inr ⟨dn, hn, rfl, rfl, had.1, had.2, he'⟩
          · rw [he', (forwardPublished_refused had).1] at h
            cases h

theorem natUplink_table (m : Maps) (k : Kfuncs) (f : Frame) (s : Track) :
    (natUplink m k f s).track.table = s.table ∨
      ∃ o dn, Shaped f o ∧ (∀ e, ¬ Answers k s.table o e) ∧ m.rule o = some dn ∧
        k.insert = true ∧ (publishedFlow k dn o).Fits s.table ∧
        (natUplink m k f s).action = .redirect dn.tapIfindex ∧
        (natUplink m k f s).track.table = publishedFlow k dn o :: s.table := by
  cases hc : m.globalConfig with
  | none => simp [natUplink, hc]
  | some cfg =>
    cases hp : parse f with
    | pass | fragment => simp [natUplink, hc, hp]
    | handled o =>
      have hs := parse_handled_iff.mp hp
      obtain ⟨e, ha, he⟩ | ⟨hn, he⟩ := natUplink_handled hc hs (k := k) s
      · refine .inl ?_
        rw [he]
        cases hv : m.vmConfig e.orig.src with
        | none => simp [answerFlow, hv]
        | some vm => exact (answerFlow_spec hv hs).2.2.2
      cases hr : m.rule o with
      | none => exact .inl (by simp [he, natUplinkRest, hr])
      | some dn =>
        have he' := natUplink_published hc hs hn hr
        by_cases had : policyCheck m.ingressPolicy o.saddr o.dport cfg.defaultIngressAllow =
            true ∧ k.alloc = true
        · have hsp := @forwardPublished_spec cfg m k dn f o s had.1 had.2 hs
          rw [he']
          cases hi : insertFlow k.insert s.table (publishedFlow k dn o) with
          | none => exact .inl (by rw [hsp.2.2.2, hi]; rfl)
          | some table =>
            obtain ⟨hw, hf, rfl⟩ := insertFlow_some hi
            refine .inr ⟨o, dn, hs, hn, hr, hw, hf, hsp.1, ?_⟩
            rw [hsp.2.2.2, hi]
            rfl
        · exact .inl (he' ▸ (forwardPublished_refused had).2)

end Craftling.Dataplane

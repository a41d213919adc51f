import Craftling.Effects.Tables
import Craftling.Dataplane.Runtime

namespace Craftling.Dataplane
open Effects List

/-- Whatever fails on the way, a part that succeeds ends as `good` says and one that fails
ends as `bad` says. -/
def Act.Leads (p : Act α) (good : Host → α → Prop) (bad : Host → Prop) (h : Host) : Prop :=
  Prog.Ensures Host.Performs (fun h' r => match r with
    | .ok a => good h' a
    | .error _ => bad h') h p

section Rules

variable {good : Host → α → Prop} {bad : Host → Prop} {h : Host}

theorem Act.Leads.mono {good' : Host → α → Prop} {bad' : Host → Prop}
    (hg : ∀ h a, good h a → good' h a) (hb : ∀ h, bad h → bad' h) {p : Act α}
    (hp : p.Leads good bad h) : p.Leads good' bad' h := by
  refine Prog.Ensures.mono ?_ hp
  intro h' r hr
  cases r with
  | ok a => exact hg h' a hr
  | error err => exact hb h' hr

theorem Act.Leads.bind {good : Host → β → Prop} {p : Act α}
    (hp : p.Leads (fun h a => (f a).Leads good bad h) bad h) : (p >>= f).Leads good bad h :=
  Prog.Ensures.tryBind (Prog.Ensures.mono (fun h' r hr => by cases r <;> exact hr) hp)

theorem Act.Leads.lift {p : Ops α} (hp : p.Ensures Host.Performs good h) :
    Act.Leads (liftM p) good bad h :=
  Prog.Ensures.bind (Prog.Ensures.mono (fun _ _ hr => hr) hp)

theorem Act.Leads.within (hp : p.Leads good bad h) : (Act.within context p).Leads good bad h := by
  refine Prog.Ensures.bind (Prog.Ensures.mono ?_ hp)
  intro h' r hr
  cases r with
  | ok a | error err => exact hr

theorem Act.Leads.onError {p : Act α}
    (hp : p.Leads good (fun h' => cleanup.Ensures Host.Performs (fun h'' _ => bad h'') h') h) :
    (p.onError cleanup).Leads good bad h := by
  refine Prog.Ensures.bind (Prog.Ensures.mono ?_ hp)
  intro h' r hr
  cases r with
  | ok a => exact hr
  | error err => exact Prog.Ensures.bind hr

theorem ensures_ask {Q : Host → Answer e → Prop}
    (hq : ∀ fault, Q (h.perform fault e).2 (h.perform fault e).1) :
    (ask e).Ensures Host.Performs Q h := by
  rintro r h' ⟨fault, hf⟩
  have hfa := hq fault
  rw [hf] at hfa
  exact hfa

theorem leads_attempt {good : Host → Unit → Prop} (hg : good h ()) (hb : bad h) :
    (attempt step context).Leads good bad h := by
  refine Act.Leads.within (ensures_ask ?_)
  intro fault
  cases fault with
  | none => exact hg
  | some text => exact hb

theorem leads_attemptIf {good : Host → Unit → Prop} (hg : good h ()) (hb : bad h) :
    (attemptIf ha step context).Leads good bad h := by
  unfold attemptIf
  split
  · exact leads_attempt hg hb
  · exact hg

end Rules

section Parts

variable (cfg : Config) {good : Host → Unit → Prop} {bad : Host → Prop} {h : Host} {m : Machine}

theorem createTAP_leads {name : String} (hg : good (h.withTAP name) ())
    (hb : bad h) (hm : bad (h.withTAP name)) : (createTAP name).Leads good bad h := by
  iterate 3 refine .bind (leads_attempt ?_ hb)
  refine .bind (.within (ensures_ask ?_))
  intro fault
  cases fault with
  | some text => exact hb
  | none =>
    refine .bind (leads_attempt ?_ hm)
    exact leads_attempt hg hm

def Host.published (h : Host) (m : Machine) (index : Nat) : Host :=
  { h with
    vmConfig := Function.update h.vmConfig m.net.vmIP
      (some ⟨m.net.vmIP, index, macArray m.net.vmMAC⟩)
    dnatRules := Function.update h.dnatRules (dnatKey cfg m.net)
      (some ⟨m.net.vmIP, index, m.servicePort, macArray m.net.vmMAC⟩)
    attached := m.tapName :: h.attached
    tapLinks := m.tapName :: h.tapLinks }

structure Host.Beside (h h' : Host) : Prop where
  ipam : h'.ipam = h.ipam
  taps : h'.taps = h.taps
  vms : h'.vms = h.vms

theorem publishVM_leads
    (hg : ∀ index, h.ifindex? m.tapName = some index → good (h.published cfg m index) ())
    (hl : m.tapName ∈ h.tapLinks → good h ()) (hb : ∀ h', h.Beside h' → bad h') :
    (publishVM cfg m.tapName m.net m.servicePort).Leads good bad h := by
  refine .bind (.within (ensures_ask fun fault => ?_))
  cases hi : h.ifindex? m.tapName with
  | none =>
    simp only [Host.perform, hi]
    exact hb h ⟨rfl, rfl, rfl⟩
  | some index =>
    simp only [Host.perform, hi]
    cases fault with
    | some text => exact hb h ⟨rfl, rfl, rfl⟩
    | none =>
      refine .bind (.lift (ensures_ask fun _ => ?_))
      by_cases hli : m.tapName ∈ h.tapLinks
      · simp only [Host.perform, hli, decide_true, if_true]
        exact hl hli
      simp only [Host.perform, hli, decide_false, Bool.false_eq_true, if_false]
      refine .bind (.within (ensures_ask fun fault => ?_))
      cases fault with
      | some text => exact hb h ⟨rfl, rfl, rfl⟩
      | none =>
        refine .bind (.onError (.within (ensures_ask fun fault => ?_)))
        cases fault with
        | some text => exact ensures_ask fun _ => hb _ ⟨rfl, rfl, rfl⟩
        | none =>
          refine .bind (.onError (.within (ensures_ask fun fault => ?_)))
          cases fault with
          | some text =>
            refine Prog.Ensures.bind (ensures_ask fun _ => ensures_ask fun _ => ?_)
            exact hb _ ⟨rfl, rfl, rfl⟩
          | none => exact .lift (ensures_ask fun _ => hg index hi)

theorem publishVM_linked (hl : m.tapName ∈ h.tapLinks) (hg : good h ()) (hb : bad h) :
    (publishVM cfg m.tapName m.net m.servicePort).Leads good bad h := by
  refine .bind (.within (ensures_ask fun fault => ?_))
  split
  · refine Act.Leads.bind (.lift (ensures_ask fun _ => ?_))
    simp only [Host.perform, hl, decide_true, if_true]
    exact hg
  · exact hb

theorem boot_leads (hba : bad h) (hm : bad (h.withTAP m.tapName))
    (hp : (publishVM cfg m.tapName m.net m.servicePort).Leads (fun h' _ => good h' () ∧ bad
      h') bad (h.withTAP m.tapName)) : (boot cfg m).Leads good bad h := by
  have hk : ∀ h', bad h' → (ask (.kill m.id)).Ensures Host.Performs (fun h'' _ => bad h'') h' :=
    fun h' hb => ensures_ask fun _ => hb
  have hmm : (configureMMDS cfg m).Leads (fun h' _ => good h' () ∧ bad h') bad h := by
    refine .bind (.within (createTAP_leads ?_ hba hm))
    refine .bind (leads_attempt ?_ hm)
    refine .bind (.within (hp.mono (fun h' _ he => ?_) fun _ hb => hb))
    refine .bind (leads_attempt ?_ he.2)
    refine .bind (leads_attempt ?_ he.2)
    exact leads_attempt he he.2
  have hc : (configure cfg m).Leads (fun h' _ => good h' () ∧ bad h') bad h := by
    iterate 3 refine .bind (leads_attempt ?_ hba)
    refine .bind (leads_attemptIf ?_ hba)
    refine .bind (leads_attemptIf ?_ hba)
    exact .within hmm
  refine .bind (leads_attempt ?_ hba)
  refine .bind (leads_attempt ?_ hba)
  refine .onError (Act.Leads.mono (fun _ _ hg => hg) hk ?_)
  refine .bind (leads_attempt ?_ hba)
  refine .bind (hc.mono (fun h' _ he => ?_) fun _ hb => hb)
  exact leads_attempt he.1 he.2

end Parts

def Host.entry (h : Host) (m : Machine) : Option VMEntry :=
  (h.ifindex? m.tapName).map fun index => ⟨m.net.vmIP, index, macArray m.net.vmMAC⟩

def Host.rule (h : Host) (m : Machine) : Option DnatVal :=
  (h.ifindex? m.tapName).map fun index => ⟨m.net.vmIP, index, m.servicePort, macArray m.net.vmMAC⟩

/-- What the host holds of the network is exactly what its machines have. The address of the
gateway is reserved besides. -/
structure Host.Matches (cfg : Config) (h : Host) : Prop where
  addresses : ∀ ip, ip ∈ h.ipam.usedIPs ↔
    ip = h.ipam.gatewayIP ∨ ∃ m ∈ h.vms, m.net.vmIP = ip
  ports : ∀ port, port ∈ h.ipam.usedPorts ↔ ∃ m ∈ h.vms, m.net.hostPort = port
  vmConfig : Tabulates h.vms (·.net.vmIP) h.entry h.vmConfig
  dnatRules : Tabulates h.vms (dnatKey cfg ·.net) h.rule h.dnatRules
  links : ∀ name, name ∈ h.attached ↔ ∃ m ∈ h.vms, m.tapName = name
  taps : ∀ name, name ∈ h.tapNames ↔ ∃ m ∈ h.vms, m.tapName = name

/-- Besides, no two machines share any of it, and the runtime's own notes are in order. -/
structure Host.Sound (cfg : Config) (h : Host) : Prop extends h.Matches cfg where
  valid : h.ipam.Valid
  remembered : h.tapLinks = h.attached
  named : ∀ m ∈ h.vms, m.tapName = tapNameFor m.id
  reserved : ∀ m ∈ h.vms, m.net.vmIP ≠ h.ipam.gatewayIP ∧ m.net.hostPort ≠ 0
  apart : ∀ m ∈ h.vms, ∀ m' ∈ h.vms, m.net.vmIP = m'.net.vmIP ∨ m.net.hostPort = m'.net.hostPort ∨
    m.tapName = m'.tapName → m = m'

theorem Host.sound_start (cfg : Config) {ipam : Ipam} (hv : ipam.Valid)
    (hi : ipam.usedIPs = [ipam.gatewayIP]) (hp : ipam.usedPorts = []) :
    (Host.start ipam).Sound cfg where
  addresses ip := by simp [Host.start, hi]
  ports port := by simp [Host.start, hp]
  vmConfig ip e := by simp [Host.start]
  dnatRules k v := by simp [Host.start]
  links name := by simp [Host.start]
  taps name := by simp [Host.start, Host.tapNames]
  valid := hv
  remembered := rfl
  named := by simp [Host.start]
  reserved := by simp [Host.start]
  apart := by simp [Host.start]

section Sound

variable {cfg : Config} {h : Host} {bad : Host → Prop} {a : Ipam} {m : Machine}
    {name other : String}

theorem Host.withTAP_of_mem (hm : name ∈ h.tapNames) : h.withTAP name = h :=
  if_pos hm

theorem Host.withTAP_of_not_mem (hm : name ∉ h.tapNames) : h.withTAP name =
      { h with taps := (name, h.nextIfindex) :: h.taps, nextIfindex := h.nextIfindex + 1 } :=
  if_neg hm

theorem Host.Sound.allocator (hs : h.Sound cfg) (hv : a.Valid)
    (hi : ∀ ip, ip ∈ a.usedIPs ↔ ip ∈ h.ipam.usedIPs)
    (hp : ∀ port, port ∈ a.usedPorts ↔ port ∈ h.ipam.usedPorts)
    (hg : a.gatewayIP = h.ipam.gatewayIP) : Host.Sound cfg { h with ipam := a } where
  addresses ip := by rw [hi, hg]; exact hs.addresses ip
  ports port := by rw [hp]; exact hs.ports port
  vmConfig := hs.vmConfig
  dnatRules := hs.dnatRules
  links := hs.links
  taps := hs.taps
  valid := hv
  remembered := hs.remembered
  named := hs.named
  reserved m hm := by rw [hg]; exact hs.reserved m hm
  apart := hs.apart

def Host.added (cfg : Config) (h : Host) (a : Ipam) (m : Machine) : Host :=
  let made := { h with
    ipam := a
    taps := (m.tapName, h.nextIfindex) :: h.taps
    nextIfindex := h.nextIfindex + 1 }
  { made.published cfg m h.nextIfindex with vms := m :: h.vms.filter (·.id ≠ m.id) }

theorem lookup_cons_ne (hn : other ≠ name) (index : Nat) (taps : List (String × Nat)) :
    List.lookup other ((name, index) :: taps) = List.lookup other taps := by
  rw [lookup_cons, beq_eq_false_iff_ne.mpr hn]

theorem dnatKey_inj : dnatKey cfg n = dnatKey cfg n' ↔ n.hostPort = n'.hostPort := by
  simp [dnatKey]

theorem Host.Sound.added (hs : h.Sound cfg) (hv : a.Valid)
    (hi : a.usedIPs = m.net.vmIP :: h.ipam.usedIPs)
    (hp : a.usedPorts = m.net.hostPort :: h.ipam.usedPorts)
    (hg : a.gatewayIP = h.ipam.gatewayIP) (hn : m.tapName = tapNameFor m.id)
    (hip : m.net.vmIP ∉ h.ipam.usedIPs) (hpo : m.net.hostPort ∉ h.ipam.usedPorts)
    (hz : m.net.hostPort ≠ 0) (ht : m.tapName ∉ h.tapNames) : (h.added cfg a m).Sound cfg := by
  -- No machine of the table has any of what the new one is given.
  have ho : ∀ m' ∈ h.vms, m'.net.vmIP ≠ m.net.vmIP ∧ m'.net.hostPort ≠ m.net.hostPort ∧
      m'.tapName ≠ m.tapName ∧ m'.id ≠ m.id := by
    intro m' hm'
    have hta : m'.tapName ≠ m.tapName := fun he => ht ((hs.taps _).mpr ⟨m', hm', he⟩)
    refine ⟨fun he => hip ((hs.addresses _).mpr (.inr ⟨m', hm', he⟩)),
      fun he => hpo ((hs.ports _).mpr ⟨m', hm', he⟩), hta, fun he => hta ?_⟩
    rw [hs.named m' hm', hn, he]
  have hf : h.vms.filter (·.id ≠ m.id) = h.vms := by
    rw [filter_eq_self]
    intro m' hm'
    exact decide_eq_true (ho m' hm').2.2.2
  have hvm : (h.added cfg a m).vms = m :: h.vms := by rw [← hf]; rfl
  have hga : m.net.vmIP ≠ h.ipam.gatewayIP := fun he => hip ((hs.addresses _).mpr (.inl he))
  have hind : ∀ m' ∈ h.vms, (h.added cfg a m).ifindex? m'.tapName = h.ifindex? m'.tapName :=
    fun m' hm' => lookup_cons_ne (ho m' hm').2.2.1 _ _
  have hse : (h.added cfg a m).ifindex? m.tapName = some h.nextIfindex := lookup_cons_self
  constructor
  · constructor
    · intro ip
      rw [hvm]
      simp only [Host.added, Host.published, hi, hg, mem_cons, hs.addresses ip, exists_eq_or_imp]
      rw [eq_comm (a := ip)]
      tauto
    · intro port
      rw [hvm]
      simp only [Host.added, Host.published, hp, mem_cons, hs.ports port, exists_eq_or_imp]
      rw [eq_comm (a := port)]
    · rw [hvm]
      refine Tabulates.put (hs.vmConfig.congr fun m' hm' => ?_) (fun m' hm' => (ho m' hm').1) ?_
      · simp only [Host.entry, hind m' hm']
      · simp only [Host.entry, hse, Option.map_some]
    · rw [hvm]
      refine Tabulates.put (hs.dnatRules.congr fun m' hm' => ?_)
        (fun m' hm' hk => (ho m' hm').2.1 (dnatKey_inj.mp hk)) ?_
      · simp only [Host.rule, hind m' hm']
      · simp only [Host.rule, hse, Option.map_some]
    · intro name
      rw [hvm]
      simp only [Host.added, Host.published, mem_cons, hs.links name, exists_eq_or_imp]
      rw [eq_comm (a := name)]
    intro name
    rw [hvm]
    have hna : name ∈ (h.added cfg a m).tapNames ↔ m.tapName = name ∨ name ∈ h.tapNames := by
      simp [Host.added, Host.published, Host.tapNames, eq_comm]
    rw [hna, hs.taps name]
    simp only [mem_cons, exists_eq_or_imp]
  · exact hv
  · exact congrArg (m.tapName :: ·) hs.remembered
  · rw [hvm]
    exact forall_mem_cons.mpr ⟨hn, hs.named⟩
  · rw [hvm]
    refine forall_mem_cons.mpr ⟨⟨?_, hz⟩, fun m' hm' => ⟨?_, (hs.reserved m' hm').2⟩⟩
    · exact fun he => hga (he.trans hg)
    · exact fun he => (hs.reserved m' hm').1 (he.trans hg)
  · rw [hvm]
    intro m1 hm1 m2 hm2 hsh
    rcases mem_cons.mp hm1 with h1 | h1 <;> rcases mem_cons.mp hm2 with h2 | h2
    · rw [h1, h2]
    · obtain ⟨hne, hn', hn'', _⟩ := ho m2 h2
      subst h1
      exact absurd hsh (by tauto)
    · obtain ⟨hne, hn', hn'', _⟩ := ho m1 h1
      subst h2
      exact absurd hsh (by tauto)
    · exact hs.apart m1 h1 m2 h2 hsh

def Host.removed (cfg : Config) (h : Host) (m : Machine) : Host :=
  { h with
    ipam := h.ipam.release m.net
    vmConfig := Function.update h.vmConfig m.net.vmIP none
    dnatRules := Function.update h.dnatRules (dnatKey cfg m.net) none
    attached := (h.attached.filter (· ≠ m.tapName)).filter (· ≠ m.tapName)
    tapLinks := h.tapLinks.filter (· ≠ m.tapName)
    taps := h.taps.filter (·.1 ≠ m.tapName)
    vms := h.vms.filter (·.id ≠ m.id) }

theorem lookup_filter_ne (hn : other ≠ name) (taps : List (String × Nat)) :
    List.lookup other (taps.filter (·.1 ≠ name)) = List.lookup other taps := by
  induction taps with
  | nil => rfl
  | cons tap taps ih =>
    obtain ⟨first, index⟩ := tap
    by_cases hf : first = name
    · subst hf
      rw [lookup_cons_ne hn, ← ih]
      simp
    · rw [filter_cons_of_pos (by simpa using hf), lookup_cons, lookup_cons, ih]

theorem Host.Sound.removed (hs : h.Sound cfg) (hm : m ∈ h.vms) : (h.removed cfg m).Sound cfg := by
  -- A machine with any part of what this one has is this one.
  have hi : ∀ m' ∈ h.vms, m'.id = m.id → m' = m := by
    intro m' hm' he
    refine hs.apart m' hm' m hm (.inr (.inr ?_))
    rw [hs.named m' hm', hs.named m hm, he]
  have hr : ∀ m', m' ∈ (h.removed cfg m).vms ↔ m' ∈ h.vms ∧ m' ≠ m := by
    intro m'
    simp only [Host.removed, mem_filter, decide_eq_true_eq]
    exact and_congr_right fun hm' => not_congr ⟨hi m' hm', fun he => he ▸ rfl⟩
  have ho : ∀ m' ∈ (h.removed cfg m).vms, m' ∈ h.vms := fun m' hm' => ((hr m').mp hm').1
  have hn : ∀ m' ∈ (h.removed cfg m).vms, m'.net.vmIP ≠ m.net.vmIP ∧
      m'.net.hostPort ≠ m.net.hostPort ∧ m'.tapName ≠ m.tapName := by
    intro m' hm'
    have hot := fun hsh => ((hr m').mp hm').2 (hs.apart m' (ho m' hm') m hm hsh)
    exact ⟨fun he => hot (.inl he), fun he => hot (.inr (.inl he)), fun he => hot (.inr (.inr he))⟩
  -- What belongs to some machine and is not this one's belongs to one of the others.
  have hoth : ∀ {γ : Type} (of : Machine → γ) (x : γ),
      (∀ m' ∈ (h.removed cfg m).vms, of m' ≠ of m) →
      ((∃ m' ∈ (h.removed cfg m).vms, of m' = x) ↔ (∃ m' ∈ h.vms, of m' = x) ∧ x ≠ of m) := by
    intro γ of x hof
    constructor
    · rintro ⟨m', hm', rfl⟩
      exact ⟨⟨m', ho m' hm', rfl⟩, hof m' hm'⟩
    · rintro ⟨⟨m', hm', rfl⟩, hx⟩
      exact ⟨m', (hr m').mpr ⟨hm', fun he => hx (he ▸ rfl)⟩, rfl⟩
  have hind : ∀ m' ∈ (h.removed cfg m).vms,
      (h.removed cfg m).ifindex? m'.tapName = h.ifindex? m'.tapName :=
    fun m' hm' => lookup_filter_ne (hn m' hm').2.2 _
  have hg : (h.removed cfg m).ipam.gatewayIP = h.ipam.gatewayIP := Ipam.release_gatewayIP _ _
  constructor
  · constructor
    · intro ip
      rw [hoth (·.net.vmIP) ip fun m' hm' => (hn m' hm').1, hg]
      refine Ipam.mem_release_usedIPs.trans ?_
      rw [hs.addresses ip]
      have hown := (hs.reserved m hm).1
      constructor
      · rintro ⟨hip | hip, hot⟩
        · exact .inl hip
        · exact .inr ⟨hip, hot⟩
      · rintro (rfl | ⟨hip, hot⟩)
        · exact ⟨.inl rfl, hown.symm⟩
        · exact ⟨.inr hip, hot⟩
    · intro port
      rw [hoth (·.net.hostPort) port fun m' hm' => (hn m' hm').2.1, ← hs.ports port]
      exact Ipam.mem_release_usedPorts (hs.reserved m hm).2
    · refine (hs.vmConfig.delete hr ?_).congr fun m' hm' => ?_
      · exact fun m' hm' he => hs.apart m' hm' m hm (.inl he)
      · simp only [Host.entry, hind m' hm']
    · refine (hs.dnatRules.delete hr ?_).congr fun m' hm' => ?_
      · exact fun m' hm' he => hs.apart m' hm' m hm (.inr (.inl (dnatKey_inj.mp he)))
      · simp only [Host.rule, hind m' hm']
    · intro name
      rw [hoth (·.tapName) name fun m' hm' => (hn m' hm').2.2, ← hs.links name]
      simp [Host.removed]
    · intro name
      rw [hoth (·.tapName) name fun m' hm' => (hn m' hm').2.2, ← hs.taps name]
      simp [Host.removed, Host.tapNames]
  · exact hs.valid.release m.net
  · simp [Host.removed, hs.remembered]
  · exact fun m' hm' => hs.named m' (ho m' hm')
  · intro m' hm'
    rw [hg]
    exact hs.reserved m' (ho m' hm')
  · exact fun m1 h1 m2 h2 => hs.apart m1 (ho m1 h1) m2 (ho m2 h2)

/-- Taking in a machine leaves the network matched, unless the boot fails once there is a TAP:
then the TAP stays. -/
theorem provision_sound (hs : h.Sound cfg) {id : String} (hf : tapNameFor id ∉ h.tapNames) :
    (provision cfg id).Leads (fun h' _ => h'.Sound cfg)
      (fun h' => h'.Sound cfg ∨ tapNameFor id ∈ h'.tapNames) h := by
  iterate 5 refine .bind (leads_attempt ?_ (.inl hs))
  refine .bind (ensures_ask fun _ => ?_)
  obtain ⟨hv, ⟨⟨err, he⟩, hsa⟩ | ⟨n, ho, hi, hp, hz, hips, hpo, hg⟩⟩ := Ipam.allocate_spec hs.valid
  · simp only [Host.perform, he]
    exact .inl (hs.allocator hv (fun ip => by rw [hsa.ips]) (fun port => by rw [hsa.ports])
      hsa.gateway)
  simp only [Host.perform, ho]
  -- Until there is a TAP, giving the address and the port back undoes everything.
  have hr : Host.Sound cfg { h with ipam := h.ipam.allocate.2.release n } := by
    refine hs.allocator (hv.release n) (fun ip => ?_) (fun port => ?_) ?_
    · rw [Ipam.mem_release_usedIPs, hips, mem_cons]
      refine ⟨fun hm => hm.1.resolve_left hm.2, fun hm => ⟨.inr hm, ?_⟩⟩
      rintro rfl
      exact hi hm
    · rw [Ipam.mem_release_usedPorts hz, hpo, mem_cons]
      refine ⟨fun hm => hm.1.resolve_left hm.2, fun hm => ⟨.inr hm, ?_⟩⟩
      rintro rfl
      exact hp hm
    · rw [Ipam.release_gatewayIP, hg]
  have hre : (ask (.release n)).Ensures Host.Performs
      (fun h' _ => h'.Sound cfg ∨ tapNameFor id ∈ h'.tapNames)
      { h with ipam := h.ipam.allocate.2 } := ensures_ask fun _ => .inl hr
  have hl : ∀ h' : Host, tapNameFor id ∈ h'.tapNames → (ask (.release n)).Ensures Host.Performs
      (fun h' _ => h'.Sound cfg ∨ tapNameFor id ∈ h'.tapNames) h' :=
    fun h' hm => ensures_ask fun _ => .inr hm
  refine .bind (.onError (.bind (leads_attemptIf (leads_attemptIf ?_ hre) hre)))
  have hma : Host.withTAP { h with ipam := h.ipam.allocate.2 } (tapNameFor id) = { h with
        ipam := h.ipam.allocate.2
        taps := (tapNameFor id, h.nextIfindex) :: h.taps
        nextIfindex := h.nextIfindex + 1 } := Host.withTAP_of_not_mem hf
  refine .bind (.onError (.within (boot_leads cfg hre ?_ ?_)))
  · rw [newMachine, hma]
    exact hl _ (.head _)
  rw [newMachine, hma]
  refine publishVM_leads cfg (fun index hind => ⟨?_, hl _ (.head _)⟩)
    (fun hli => ?_) fun h' hb => hl h' ?_
  · have hn : h.nextIfindex = index := Option.some.inj (lookup_cons_self.symm.trans hind)
    subst hn
    refine .bind (.lift (ensures_ask fun _ => ?_))
    refine .lift (Prog.Ensures.bind (ensures_ask fun _ => ?_))
    exact hs.added hv hips hpo hg rfl hi hp hz hf
  · have ha : tapNameFor id ∈ h.attached := hs.remembered ▸ hli
    exact absurd ((hs.taps _).mpr ((hs.links _).mp ha)) hf
  · rw [Host.tapNames, hb.taps]
    exact mem_cons_self ..

theorem boot_again (hs : h.Sound cfg) (hm : m ∈ h.vms) {good : Host → Unit → Prop}
    (hg : good h ()) (hb : bad h) : (boot cfg m).Leads good bad h := by
  have ht : h.withTAP m.tapName = h := Host.withTAP_of_mem ((hs.taps _).mpr ⟨m, hm, rfl⟩)
  have hl : m.tapName ∈ h.tapLinks := by
    rw [hs.remembered]
    exact (hs.links _).mpr ⟨m, hm, rfl⟩
  refine boot_leads cfg hb (ht.symm ▸ hb) ?_
  rw [ht]
  exact publishVM_linked cfg hl ⟨hg, hb⟩ hb

theorem vmView_leads {good : Host → VM → Prop} (hg : ∀ vm, good h vm) :
    Act.Leads (liftM (vmView m)) good bad h :=
  .lift (Prog.Ensures.bind (ensures_ask fun _ => hg _))

theorem start_sound (hs : h.Sound cfg) (id : String) :
    (start cfg id).Leads (fun h' _ => h'.Sound cfg) (fun h' => h'.Sound cfg) h := by
  refine .bind (.lift (ensures_ask fun _ => ?_))
  simp only [Host.perform]
  split
  · exact hs
  rename_i m hm
  refine .bind (.lift (ensures_ask fun fault => ?_))
  split
  · exact vmView_leads fun _ => hs
  refine .bind (leads_attempt ?_ hs)
  refine .bind (.within (boot_again hs (mem_of_find?_eq_some hm) ?_ hs))
  exact vmView_leads fun _ => hs

theorem stop_sound (hs : h.Sound cfg) (id : String) :
    (stop cfg id).Leads (fun h' _ => h'.Sound cfg) (fun h' => h'.Sound cfg) h := by
  refine .bind (.lift (ensures_ask fun _ => ?_))
  simp only [Host.perform]
  split
  · exact hs
  · refine .bind (.lift (ensures_ask fun _ => ?_))
    exact leads_attemptIf hs hs

theorem teardown_sound (hs : h.Sound cfg) (id : String) :
    (teardown cfg id).Leads (fun h' _ => h'.Sound cfg) (fun h' => h'.Sound cfg) h := by
  refine .bind (.lift (ensures_ask fun _ => ?_))
  simp only [Host.perform]
  cases hf : h.vms.find? (·.id = id) with
  | none =>
    have hg : h.vms.filter (·.id ≠ id) = h.vms := by
      rw [filter_eq_self]
      intro m hm
      simpa using List.find?_eq_none.mp hf m hm
    simp only [hg]
    exact hs
  | some m =>
    have hm := mem_of_find?_eq_some hf
    have hi : m.id = id := by simpa using List.find?_some hf
    subst hi
    have hl : m.tapName ∈ h.tapLinks := by
      rw [hs.remembered]
      exact (hs.links _).mpr ⟨m, hm, rfl⟩
    have hr := hs.removed hm
    refine .bind (.lift (ensures_ask fun _ => ?_))
    refine .bind (.lift (Prog.Ensures.bind (ensures_ask fun _ => ?_)))
    simp only [Host.perform, hl, decide_true, if_true]
    refine Prog.Ensures.bind (ensures_ask fun _ => ?_)
    refine Prog.Ensures.bind (ensures_ask fun _ => ?_)
    refine Prog.Ensures.bind (ensures_ask fun _ => ensures_ask fun _ => ?_)
    refine .bind (.lift (ensures_ask fun _ => ?_))
    refine .bind (.lift (ensures_ask fun _ => ?_))
    refine .bind (leads_attemptIf ?_ hr)
    exact leads_attempt hr hr

end Sound

end Craftling.Dataplane

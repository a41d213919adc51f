import Mathlib

namespace Craftling.Dataplane

abbrev Addr := UInt32

abbrev Port := UInt16

abbrev Mac := List UInt8

def Mac.text (m : Mac) : String :=
  ":".intercalate (m.map fun b =>
    String.ofList [(b.toNat / 16).digitChar, (b.toNat % 16).digitChar])

def Addr.octets (a : Addr) : List UInt8 :=
  [(a >>> 24).toUInt8, (a >>> 16).toUInt8, (a >>> 8).toUInt8, a.toUInt8]

def Addr.text (a : Addr) : String :=
  ".".intercalate (a.octets.map toString)

structure IPNet where
  ip : Addr
  ones : Nat
  deriving DecidableEq, Repr

def IPNet.hostBits (n : IPNet) : Addr := UInt32.ofNat (0xffffffff >>> n.ones)

def IPNet.netAddr (n : IPNet) : Addr := n.ip &&& ~~~n.hostBits

def IPNet.contains (n : IPNet) (a : Addr) : Bool := a &&& ~~~n.hostBits = n.netAddr

/-- The first and the last address to hand out. The network and the broadcast address are
left out, where the network is large enough to have them. -/
def IPNet.firstHost (n : IPNet) : Addr := if n.ones < 31 then n.netAddr + 1 else n.netAddr

def IPNet.lastHost (n : IPNet) : Addr :=
  if n.ones < 31 then (n.netAddr ||| n.hostBits) - 1 else n.netAddr ||| n.hostBits

def IPNet.text (n : IPNet) : String := Addr.text n.netAddr ++ "/" ++ toString n.ones

def deterministicMAC (ip : Addr) : Mac := 0x02 :: 0x00 :: Addr.octets ip

/-- A MAC as the maps of the dataplane hold it. -/
abbrev EthAddr := Vector UInt8 6

def macArray (mac : Mac) : EthAddr := .ofFn fun i => mac.getD i 0

/-- The network identity a machine is given. -/
structure VMNet where
  vmIP : Addr
  vmMAC : Mac
  hostPort : Port
  gatewayIP : Addr
  gatewayMAC : Mac
  prefixLen : Nat
  deriving DecidableEq, Repr

structure Ipam where
  network : IPNet
  first : Addr
  last : Addr
  gatewayIP : Addr
  gatewayMAC : Mac
  usedIPs : List Addr
  nextIP : Addr
  portMin : Port
  portMax : Port
  usedPorts : List Port
  nextPort : Port
  deriving DecidableEq, Repr

def newIPAM (subnet : IPNet) (gatewayIP : Addr) (gatewayMAC : Mac) (portMin portMax : Port) :
    Except String Ipam :=
  if !subnet.contains gatewayIP then
    .error ("firecracker: gateway " ++ Addr.text gatewayIP ++ " not in subnet " ++ subnet.text)
  else if gatewayMAC.length ≠ 6 then
    .error ("firecracker: gateway MAC \"" ++ Mac.text gatewayMAC ++ "\" is not 6 bytes")
  else if portMin = 0 ∨ portMax < portMin then
    .error s!"firecracker: invalid host-port range {portMin}-{portMax}"
  else if subnet.lastHost < subnet.firstHost then
    .error ("firecracker: VM subnet " ++ subnet.text ++ " has no assignable addresses")
  else
    .ok
      { network := subnet, first := subnet.firstHost, last := subnet.lastHost
        gatewayIP := gatewayIP, gatewayMAC := gatewayMAC
        usedIPs := [gatewayIP], nextIP := subnet.firstHost
        portMin := portMin, portMax := portMax
        usedPorts := [], nextPort := portMin }

/-- Try the values from `cand` on, at most so many of them, for one that is not in use. What
is to be tried next comes with the answer. -/
def scan [DecidableEq α] (next : α → α) (used : List α) : Nat → α → Option α × α
  | 0, cand => (none, cand)
  | n + 1, cand =>
    if cand ∈ used then scan next used n (next cand) else (some cand, next cand)

section Scan

variable [DecidableEq α] {next : α → α} {used : List α}

theorem scan_fresh {start c : α} (h : (scan next used n start).1 = some c) : c ∉ used := by
  induction n generalizing start with
  | zero => cases h
  | succ n ih =>
    unfold scan at h
    split at h
    · exact ih h
    rename_i hf
    cases h
    exact hf

theorem scan_within {P : α → Prop} (hn : ∀ x, P x → P (next x)) {n : Nat} {start : α}
    (hs : P start) :
    (∀ c ∈ (scan next used n start).1, P c) ∧ P (scan next used n start).2 := by
  induction n generalizing start with
  | zero => exact ⟨nofun, hs⟩
  | succ n ih =>
    unfold scan
    split
    · exact ih (hn start hs)
    refine ⟨fun c hc => ?_, hn start hs⟩
    cases hc
    exact hs

end Scan

namespace Ipam

def advanceIP (a : Ipam) (ip : Addr) : Addr :=
  if ip + 1 > a.last then a.first else ip + 1

def advancePort (a : Ipam) (port : Port) : Port :=
  if port = a.portMax then a.portMin else port + 1

/-- The place the search has got to moves on also when nothing is found. -/
def takeIP (a : Ipam) : Except String Addr × Ipam :=
  let (found, next) := scan a.advanceIP a.usedIPs (a.last - a.first + 1).toNat a.nextIP
  match found with
  | some cand => (.ok cand, { a with nextIP := next, usedIPs := cand :: a.usedIPs })
  | none =>
    (.error ("firecracker: VM address pool " ++ a.network.text ++ " exhausted"),
      { a with nextIP := next })

def takePort (a : Ipam) : Except String Port × Ipam :=
  let (found, next) :=
    scan a.advancePort a.usedPorts (a.portMax.toNat - a.portMin.toNat + 1) a.nextPort
  match found with
  | some cand => (.ok cand, { a with nextPort := next, usedPorts := cand :: a.usedPorts })
  | none =>
    let portMin := a.portMin
    let portMax := a.portMax
    (.error s!"firecracker: host-port pool {portMin}-{portMax} exhausted",
      { a with nextPort := next })

def deleteIP (a : Ipam) (ip : Addr) : Ipam := { a with usedIPs := a.usedIPs.filter (· ≠ ip) }

def deletePort (a : Ipam) (port : Port) : Ipam :=
  { a with usedPorts := a.usedPorts.filter (· ≠ port) }

def allocate (a : Ipam) : Except String VMNet × Ipam :=
  match a.takeIP with
  | (.error err, a) => (.error err, a)
  | (.ok ip, a) =>
    match a.takePort with
    | (.error err, a) => (.error err, a.deleteIP ip)
    | (.ok port, a) =>
      (.ok
        { vmIP := ip, vmMAC := deterministicMAC ip, hostPort := port
          gatewayIP := a.gatewayIP, gatewayMAC := a.gatewayMAC
          prefixLen := a.network.ones }, a)

def release (a : Ipam) (n : VMNet) : Ipam :=
  let a := a.deleteIP n.vmIP
  if n.hostPort ≠ 0 then a.deletePort n.hostPort else a

/-- The ports are searched within their range, and port 0 is not in it. -/
structure Valid (a : Ipam) : Prop where
  nonzero : a.portMin ≠ 0
  low : a.portMin ≤ a.nextPort
  high : a.nextPort ≤ a.portMax

variable {ip : Addr} {a : Ipam} {port : Port} {n : VMNet}

theorem Valid.range_nonempty (h : a.Valid) : a.portMin ≤ a.portMax :=
  UInt16.le_trans h.low h.high

theorem valid_newIPAM {gatewayIP : Addr} {gatewayMAC : Mac} {portMin portMax : Port}
    (h : newIPAM subnet gatewayIP gatewayMAC portMin portMax = .ok a) :
    a.Valid ∧ a.usedIPs = [a.gatewayIP] ∧ a.usedPorts = [] := by
  unfold newIPAM at h
  split at h
  · cases h
  split at h
  · cases h
  split at h
  · cases h
  rename_i hp
  split at h
  · cases h
  cases h
  rw [not_or] at hp
  exact ⟨⟨hp.1, UInt16.le_refl _, UInt16.not_lt.mp hp.2⟩, rfl, rfl⟩

structure SameUse (a b : Ipam) : Prop where
  ips : b.usedIPs = a.usedIPs
  ports : b.usedPorts = a.usedPorts
  gateway : b.gatewayIP = a.gatewayIP

theorem advancePort_within (h : a.portMin ≤ a.portMax) (hp : a.portMin ≤ port ∧ port ≤ a.portMax) :
    a.portMin ≤ a.advancePort port ∧ a.advancePort port ≤ a.portMax := by
  unfold advancePort
  split
  · exact ⟨UInt16.le_refl _, h⟩
  rename_i hn
  rw [UInt16.le_iff_toNat_le] at *
  rw [UInt16.le_iff_toNat_le] at *
  have hl : port.toNat ≠ a.portMax.toNat := fun he => hn (UInt16.toNat_inj.mp he)
  have ht := a.portMax.toNat_lt
  have ha : (port + 1).toNat = port.toNat + 1 := by
    rw [UInt16.toNat_add]
    simp only [UInt16.toNat_one]
    omega
  omega

theorem takeIP_spec (a : Ipam) :
    (∃ err, a.takeIP.1 = .error err ∧ ∃ next, a.takeIP.2 = { a with nextIP := next }) ∨
      ∃ ip next, ip ∉ a.usedIPs ∧ a.takeIP =
        (.ok ip, { a with nextIP := next, usedIPs := ip :: a.usedIPs }) := by
  unfold takeIP
  cases hs : scan a.advanceIP a.usedIPs (a.last - a.first + 1).toNat a.nextIP with
  | mk found next =>
    cases found with
    | none => exact .inl ⟨_, rfl, next, rfl⟩
    | some ip => exact .inr ⟨ip, next, scan_fresh (by rw [hs]), rfl⟩

theorem takePort_spec (h : a.Valid) : ∃ next, a.portMin ≤ next ∧ next ≤ a.portMax ∧
      ((∃ err, a.takePort = (.error err, { a with nextPort := next })) ∨
        ∃ port, port ∉ a.usedPorts ∧ port ≠ 0 ∧ a.takePort =
          (.ok port, { a with nextPort := next, usedPorts := port :: a.usedPorts })) := by
  have hn : ∀ port, a.portMin ≤ port ∧ port ≤ a.portMax →
      a.portMin ≤ a.advancePort port ∧ a.advancePort port ≤ a.portMax :=
    fun _ hp => advancePort_within h.range_nonempty hp
  have hw := @scan_within _ _ _ a.usedPorts _ hn
    (a.portMax.toNat - a.portMin.toNat + 1) _ ⟨h.low, h.high⟩
  unfold takePort
  cases hs : scan a.advancePort a.usedPorts (a.portMax.toNat - a.portMin.toNat + 1) a.nextPort with
  | mk found next =>
    rw [hs] at hw
    refine ⟨next, hw.2.1, hw.2.2, ?_⟩
    cases found with
    | none => exact .inl ⟨_, rfl⟩
    | some port =>
      refine .inr ⟨port, scan_fresh (by rw [hs]), ?_, rfl⟩
      -- Port 0 lies below the range.
      intro hz
      have hl := (hw.1 port rfl).1
      rw [hz] at hl
      exact h.nonzero (UInt16.le_zero_iff.mp hl)

theorem deleteIP_cons {used : List Addr} (h : ip ∉ used) : (ip :: used).filter (· ≠ ip) = used := by
  simp only [ne_eq, decide_not, List.filter_cons, decide_true, Bool.not_true, Bool.false_eq_true,
    if_false, List.filter_eq_self, Bool.not_eq_true', decide_eq_false_iff_not]
  rintro other ho rfl
  exact h ho

/-- What `allocate` hands out was free and is in use afterwards; when it fails, what is in use
is what was. -/
theorem allocate_spec (h : a.Valid) : a.allocate.2.Valid ∧
      ((∃ err, a.allocate.1 = .error err) ∧ a.SameUse a.allocate.2 ∨
        ∃ n, a.allocate.1 = .ok n ∧ n.vmIP ∉ a.usedIPs ∧ n.hostPort ∉ a.usedPorts ∧
          n.hostPort ≠ 0 ∧ a.allocate.2.usedIPs = n.vmIP :: a.usedIPs ∧
          a.allocate.2.usedPorts = n.hostPort :: a.usedPorts ∧
          a.allocate.2.gatewayIP = a.gatewayIP) := by
  unfold allocate
  obtain ⟨err, he, next, hn⟩ | ⟨ip, next, hf, ht⟩ := a.takeIP_spec
  · cases ht : a.takeIP with
    | mk res b =>
      rw [ht] at he hn
      cases he
      cases hn
      exact ⟨⟨h.nonzero, h.low, h.high⟩, .inl ⟨⟨_, rfl⟩, ⟨rfl, rfl, rfl⟩⟩⟩
  · rw [ht]
    have hv : Valid { a with nextIP := next, usedIPs := ip :: a.usedIPs } :=
      ⟨h.nonzero, h.low, h.high⟩
    obtain ⟨nextPort, hl, hh, ⟨err, hp⟩ | ⟨port, hpo, hz, hp⟩⟩ := takePort_spec hv
    · simp only [hp]
      exact ⟨⟨h.nonzero, hl, hh⟩, .inl ⟨⟨_, rfl⟩, ⟨deleteIP_cons hf, rfl, rfl⟩⟩⟩
    · simp only [hp]
      exact ⟨⟨h.nonzero, hl, hh⟩, .inr ⟨_, rfl, hf, hpo, hz, by simp⟩⟩

theorem mem_release_usedIPs : ip ∈ (a.release n).usedIPs ↔ ip ∈ a.usedIPs ∧ ip ≠ n.vmIP := by
  unfold release
  split <;> simp [deleteIP, deletePort]

theorem mem_release_usedPorts (hn : n.hostPort ≠ 0) :
    port ∈ (a.release n).usedPorts ↔ port ∈ a.usedPorts ∧ port ≠ n.hostPort := by
  simp [release, hn, deleteIP, deletePort]

theorem release_gatewayIP (a : Ipam) (n : VMNet) : (a.release n).gatewayIP = a.gatewayIP := by
  unfold release
  split <;> rfl

theorem Valid.release (h : a.Valid) (n : VMNet) : (a.release n).Valid := by
  unfold Ipam.release
  split <;> exact ⟨h.nonzero, h.low, h.high⟩

end Ipam

end Craftling.Dataplane

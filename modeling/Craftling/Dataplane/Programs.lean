import Craftling.Dataplane.Frames
import Craftling.Dataplane.Runtime

namespace Craftling.Dataplane
open Effects

structure Tuple where
  proto : Nat
  src : Addr
  sport : Port
  dst : Addr
  dport : Port
  deriving DecidableEq, Repr

def Tuple.inverse (t : Tuple) : Tuple := ⟨t.proto, t.dst, t.dport, t.src, t.sport⟩

structure Flow where
  orig : Tuple
  reply : Tuple
  deriving DecidableEq, Repr

inductive Dir where
  | original | reply
  deriving DecidableEq, Repr

def Flow.dir? (e : Flow) (t : Tuple) : Option Dir :=
  if e.orig = t then some .original else if e.reply = t then some .reply else none

def ctLookup (table : List Flow) (t : Tuple) : Option (Flow × Dir) :=
  table.findSome? fun e => (e.dir? t).map fun d => (e, d)

def tuplesOf (table : List Flow) : List Tuple := table.flatMap fun e => [e.orig, e.reply]

/-- No tuple may be taken twice. -/
def Flow.Fits (e : Flow) (table : List Flow) : Prop :=
  e.orig ≠ e.reply ∧ e.orig ∉ tuplesOf table ∧ e.reply ∉ tuplesOf table

instance (e : Flow) (table : List Flow) : Decidable (e.Fits table) :=
  inferInstanceAs (Decidable (_ ∧ _ ∧ _))

/-- How the calls into connection tracking come out for one packet, which port the kernel picks for a
source, and whether the map of counters takes a new address. A call fails where its flag is off. -/
structure Kfuncs where
  lookup : Bool
  alloc : Bool
  setNatInfo : Bool
  port : Port
  insert : Bool
  relookup : Bool
  stats : Bool
  deriving DecidableEq, Repr

def Kfuncs.working (port : Port) : Kfuncs := ⟨true, true, true, port, true, true, true⟩

inductive Manip where
  | src (addr : Addr) (port : Port)
  | dst (addr : Addr) (port : Port)

/-- A flow that has been allocated expects the plain answers; a binding that could be set
changes the end that the answers come to or from. -/
def allocFlow (t : Tuple) (bound : Bool) : Manip → Flow
  | .src addr port =>
    ⟨t, if bound then { t.inverse with dst := addr, dport := port } else t.inverse⟩
  | .dst addr port =>
    ⟨t, if bound then { t.inverse with src := addr, sport := port } else t.inverse⟩

def insertFlow (works : Bool) (table : List Flow) (e : Flow) : Option (List Flow) :=
  if works ∧ e.Fits table then some (e :: table) else none

structure GlobalConfig where
  hostIP : Addr
  uplinkIfindex : Nat
  gwIP : Addr
  gwMAC : EthAddr
  defaultEgressAllow : Bool
  defaultIngressAllow : Bool
  deriving DecidableEq, Repr

structure PolicyVal where
  verdict : Bool
  port : Port
  deriving DecidableEq, Repr

abbrev Policy := List ((Nat × Addr) × PolicyVal)

def Policy.lookup (p : Policy) (addr : Addr) : Option PolicyVal :=
  let covers := p.filter fun e => addr.toNat >>> (32 - e.1.1) = e.1.2.toNat >>> (32 - e.1.1)
  (covers.foldl (fun best e => match best with
    | some b => if b.1.1 < e.1.1 then some e else best
    | none => some e) none).map Prod.snd

def policyCheck (p : Policy) (addr : Addr) (dport : Port) (defAllow : Bool) : Bool :=
  match p.lookup addr with
  | none => defAllow
  | some v => if v.port ≠ 0 ∧ v.port ≠ dport then defAllow else v.verdict

structure Maps where
  globalConfig : Option GlobalConfig
  vmConfig : Addr → Option VMEntry
  dnatRules : DnatKey → Option DnatVal
  egressPolicy : Policy
  ingressPolicy : Policy

structure NatStats where
  rxPkts : UInt64
  rxBytes : UInt64
  txPkts : UInt64
  txBytes : UInt64
  drops : UInt64
  conns : UInt64
  deriving DecidableEq, Repr

def NatStats.zero : NatStats := ⟨0, 0, 0, 0, 0, 0⟩

inductive EventDir where
  | egress | egressReply | inbound | inboundReply | deny
  deriving DecidableEq, Repr

structure NatEvent where
  orig : L4off
  vmIP : Addr
  dir : EventDir
  dropped : Bool
  newSaddr : Addr
  newDaddr : Addr
  newSport : Port
  newDport : Port
  deriving DecidableEq, Repr

structure Track where
  table : List Flow
  stats : Addr → Option NatStats
  events : List NatEvent

def Track.empty : Track := ⟨[], fun _ => none, []⟩

/-- The counters of an address come into being when they are first asked for. Where the map has no
room for them nothing is counted. -/
def Track.count (s : Track) (room : Bool) (vmIP : Addr) (f : NatStats → NatStats) : Track :=
  if (s.stats vmIP).isSome || room then
    { s with stats := Function.update s.stats vmIP (some (f ((s.stats vmIP).getD .zero))) }
  else s

def Track.statFor (s : Track) (room : Bool) (vmIP : Addr) : Track := s.count room vmIP id

def Track.drop (s : Track) (room : Bool) (vmIP : Addr) : Track :=
  s.count room vmIP fun c => { c with drops := c.drops + 1 }

def Track.emit (s : Track) (e : NatEvent) : Track := { s with events := s.events ++ [e] }

def denied (o : L4off) (vmIP : Addr) : NatEvent := ⟨o, vmIP, .deny, true, 0, 0, 0, 0⟩

inductive Action where
  | ok
  | shot
  | redirect (ifindex : Nat)
  | redirectNeigh (ifindex : Nat)
  deriving DecidableEq, Repr

structure Outcome where
  action : Action
  frame : Frame
  track : Track

def handleArp (cfg : GlobalConfig) (ifindex : Nat) (f : Frame) (s : Track) : Outcome :=
  if f.length < 22 then ⟨.ok, f, s⟩
  else if word f 20 2 ≠ 1 ∨ word f 14 2 ≠ 1 ∨ word f 16 2 ≠ etherIP then ⟨.ok, f, s⟩
  else if f.length < 42 then ⟨.ok, f, s⟩
  else if word f 38 4 ≠ cfg.gwIP.toNat then ⟨.ok, f, s⟩
  else
    let sha := slice f 22 6
    let sip := slice f 28 4
    let f := store f 20 (beBytes 2 2)
    let f := store f 32 sha
    let f := store f 38 sip
    let f := store f 22 cfg.gwMAC.toList
    let f := store f 28 (beBytes 4 cfg.gwIP.toNat)
    let f := store f 0 sha
    let f := store f 6 cfg.gwMAC.toList
    ⟨.redirect ifindex, f, s⟩

def mkTuple (o : L4off) : Tuple := ⟨o.proto, o.saddr, o.sport, o.daddr, o.dport⟩

/-- The flow that a packet from a machine goes in: one that is tracked, or a new one that is
bound to the host's address. Whether it is new comes with it. -/
def egressFlow (cfg : GlobalConfig) (k : Kfuncs) (table : List Flow) (t : Tuple) :
    Option (Flow × Dir × Bool) × List Flow :=
  match if k.lookup then ctLookup table t else none with
  | some (e, d) => (some (e, d, false), table)
  | none =>
    if !k.alloc then (none, table)
    else
      let e := allocFlow t k.setNatInfo (.src cfg.hostIP k.port)
      match insertFlow k.insert table e with
      | some table' => (some (e, .original, true), table')
      | none =>
        match if k.relookup then ctLookup table t else none with
        | some (e, d) => (some (e, d, false), table)
        | none => (none, table)

/-- The end that takes the place of a packet's source: where the answers of its flow go to, or
where the flow first went to. -/
def Flow.source (e : Flow) : Dir → Addr × Port
  | .original => (e.reply.dst, e.reply.dport)
  | .reply => (e.orig.dst, e.orig.dport)

def Dir.event : Dir → EventDir
  | .original => .egress
  | .reply => .inboundReply

def forwardTap (cfg : GlobalConfig) (k : Kfuncs) (f : Frame) (o : L4off) (s : Track) : Outcome :=
  match egressFlow cfg k s.table (mkTuple o) with
  | (none, table) => ⟨.shot, f, { s with table := table }.drop k.stats o.saddr⟩
  | (some (e, d, new), table) =>
    let s := { s with table := table }
    let s := if new then s.count k.stats o.saddr fun c => { c with conns := c.conns + 1 } else s
    match rewriteSrc f o (e.source d).1 (e.source d).2 with
    | none => ⟨.shot, f, s.drop k.stats o.saddr⟩
    | some f =>
      let s := s.emit ⟨o, o.saddr, d.event, false, (e.source d).1, o.daddr, (e.source d).2, o.dport⟩
      let s := s.count k.stats o.saddr fun c =>
        { c with txPkts := c.txPkts + 1, txBytes := c.txBytes + UInt64.ofNat o.totLen }
      ⟨.redirectNeigh cfg.uplinkIfindex, f, s⟩

/-- The program on every TAP: `ifindex` is the one the frame comes from. -/
def natTap (m : Maps) (k : Kfuncs) (ifindex : Nat) (f : Frame) (s : Track) : Outcome :=
  match m.globalConfig with
  | none => ⟨.ok, f, s⟩
  | some cfg =>
    if ethLen ≤ f.length ∧ word f 12 2 = etherARP then handleArp cfg ifindex f s
    else
      match parse f with
      | .pass => ⟨.ok, f, s⟩
      | .fragment => ⟨.shot, f, s.emit (denied .zero 0)⟩
      | .handled o =>
        let s := s.statFor k.stats o.saddr
        if !policyCheck m.egressPolicy o.daddr o.dport cfg.defaultEgressAllow then
          ⟨.shot, f, (s.drop k.stats o.saddr).emit (denied o o.saddr)⟩
        else forwardTap cfg k f o s

def deliver (f : Frame) (o : L4off) (vmIP : Addr) (vmPort : Port) (mac : EthAddr) : Option Frame := do
  let f ← rewriteDst f o vmIP vmPort
  setEthDst f mac

def Track.received (s : Track) (room : Bool) (vmIP : Addr) (o : L4off) (conns : UInt64)
    (dir : EventDir) (vmPort : Port) : Track :=
  (s.count room vmIP fun c =>
    { c with
      rxPkts := c.rxPkts + 1
      rxBytes := c.rxBytes + UInt64.ofNat o.totLen
      conns := c.conns + conns }).emit
    ⟨o, vmIP, dir, false, o.saddr, vmIP, o.sport, vmPort⟩

def answerFlow (m : Maps) (k : Kfuncs) (e : Flow) (f : Frame) (o : L4off) (s : Track) : Outcome :=
  match m.vmConfig e.orig.src with
  | none => ⟨.ok, f, s⟩
  | some vm =>
    match deliver f o e.orig.src e.orig.sport vm.vmMAC with
    | none => ⟨.shot, f, s⟩
    | some f =>
      ⟨.redirect vm.tapIfindex, f,
        s.received k.stats e.orig.src o 0 .egressReply e.orig.sport⟩

def forwardPublished (cfg : GlobalConfig) (m : Maps) (k : Kfuncs) (dn : DnatVal) (f : Frame)
    (o : L4off) (s : Track) : Outcome :=
  if !policyCheck m.ingressPolicy o.saddr o.dport cfg.defaultIngressAllow then
    ⟨.shot, f, (s.drop k.stats dn.vmIP).emit (denied o dn.vmIP)⟩
  else if !k.alloc then ⟨.shot, f, s⟩
  else
    let e := allocFlow (mkTuple o) k.setNatInfo (.dst dn.vmIP dn.vmPort)
    let s := { s with table := (insertFlow k.insert s.table e).getD s.table }
    match deliver f o dn.vmIP dn.vmPort dn.vmMAC with
    | none => ⟨.shot, f, s⟩
    | some f => ⟨.redirect dn.tapIfindex, f, s.received k.stats dn.vmIP o 1 .inbound dn.vmPort⟩

def natUplink (m : Maps) (k : Kfuncs) (f : Frame) (s : Track) : Outcome :=
  match m.globalConfig with
  | none => ⟨.ok, f, s⟩
  | some cfg =>
    match parse f with
    | .pass => ⟨.ok, f, s⟩
    | .fragment => ⟨.shot, f, s⟩
    | .handled o =>
      match if k.lookup then ctLookup s.table (mkTuple o) else none with
      | some (e, .reply) => answerFlow m k e f o s
      | _ =>
        match m.dnatRules ⟨o.daddr, o.dport, UInt8.ofNat o.proto⟩ with
        | none => ⟨.ok, f, s⟩
        | some dn => forwardPublished cfg m k dn f o s

end Craftling.Dataplane

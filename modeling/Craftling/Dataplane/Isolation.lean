import Craftling.Dataplane.Bindings

namespace Craftling.Dataplane
open Effects

/-- What answers a packet that has left in a flow. -/
def Flow.answer (e : Flow) (d : Dir) (o : L4off) : Tuple :=
  (mkTuple { o with saddr := (e.source d).1, sport := (e.source d).2 }).inverse

/-- By the table and the rules a packet that comes in goes to the machine at `a`, to the port `p`: it
answers a flow that was opened from there, or it is for a port that is published for it. -/
def Maps.Returns (m : Maps) (cfg : GlobalConfig) (table : List Flow) (a : Addr) (vm : VMEntry)
    (p : Port) (t : Tuple) : Prop :=
  (∃ e, ctLookup table t = some (e, .reply) ∧ e.orig.src = a ∧ e.orig.sport = p) ∨
    (∀ e, ctLookup table t ≠ some (e, .reply)) ∧
      m.dnatRules ⟨t.dst, t.dport, UInt8.ofNat t.proto⟩ = some ⟨a, vm.tapIfindex, p, vm.vmMAC⟩ ∧
      policyCheck m.ingressPolicy t.src t.dport cfg.defaultIngressAllow = true

/-- A flow that is tracked already is one that the machine at `a` may use: no other machine has opened
it, and the answers find their way back. -/
structure Usable (m : Maps) (cfg : GlobalConfig) (table : List Flow) (a : Addr) (vm : VMEntry)
    (o : L4off) (e : Flow) (d : Dir) : Prop where
  opener : (m.vmConfig e.orig.src).isSome = true → e.orig.src = a
  returns : d = .original ∨ policyCheck m.ingressPolicy (e.answer d o).src (e.answer d o).dport
    cfg.defaultIngressAllow = true → m.Returns cfg table a vm o.sport (e.answer d o)

section Isolation

variable {m : Maps} {cfg : GlobalConfig} {e : Flow} {f : Frame} {k : Kfuncs} {o : L4off} {i j : Nat}
    {s : Track} {vm : VMEntry} {d : Dir}

end Isolation

end Craftling.Dataplane

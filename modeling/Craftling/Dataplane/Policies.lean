import Craftling.Dataplane.Programs

namespace Craftling.Dataplane

abbrev PolicyEntry := (Nat × Addr) × PolicyVal

def PolicyEntry.Covers (e : PolicyEntry) (addr : Addr) : Prop :=
  addr.toNat >>> (32 - e.1.1) = e.1.2.toNat >>> (32 - e.1.1)

/-- Port 0 stands for every port. -/
def PolicyEntry.Applies (e : PolicyEntry) (dport : Port) : Prop := e.2.port = 0 ∨ e.2.port = dport

def Policy.Trie (p : Policy) : Prop :=
  ∀ e ∈ p, ∀ e' ∈ p, ∀ addr, PolicyEntry.Covers e addr → PolicyEntry.Covers e' addr →
    e.1.1 = e'.1.1 → e = e'

structure Longest (P : PolicyEntry → Prop) (p : Policy) (e : PolicyEntry) : Prop where
  mem : e ∈ p
  has : P e
  most : ∀ e' ∈ p, P e' → e'.1.1 ≤ e.1.1

theorem foldl_longest (l : List PolicyEntry) :
    match l.foldl (fun best e => match best with
      | some b => if b.1.1 < e.1.1 then some e else best
      | none => some e) none with
    | none => l = []
    | some r => r ∈ l ∧ ∀ e ∈ l, e.1.1 ≤ r.1.1 := by
  induction l using List.reverseRecOn with
  | nil => rfl
  | append_singleton l e ih =>
    rw [List.foldl_append]
    revert ih
    generalize l.foldl _ none = best
    intro ih
    cases best with
    | none =>
      rw [show l = [] from ih]
      exact ⟨List.mem_singleton_self e, fun x hx => (List.mem_singleton.mp hx ▸ le_rfl)⟩
    | some b =>
      obtain ⟨hm, hl⟩ := ih
      simp only [List.foldl_cons, List.foldl_nil]
      by_cases hlt : b.1.1 < e.1.1
      · rw [if_pos hlt]
        refine ⟨by simp, fun x hx => ?_⟩
        rcases List.mem_append.mp hx with hx | hx
        · exact (hl x hx).trans hlt.le
        · rw [List.mem_singleton.mp hx]
      · rw [if_neg hlt]
        refine ⟨List.mem_append_left _ hm, fun x hx => ?_⟩
        rcases List.mem_append.mp hx with hx | hx
        · exact hl x hx
        · rw [List.mem_singleton.mp hx]
          exact not_lt.mp hlt

theorem Policy.lookup_spec (p : Policy) (addr : Addr) :
    (p.lookup addr = none ∧ ∀ e ∈ p, ¬PolicyEntry.Covers e addr) ∨
      ∃ e, Longest (·.Covers addr) p e ∧ p.lookup addr = some e.2 := by
  have hf := foldl_longest
    (p.filter fun e => addr.toNat >>> (32 - e.1.1) = e.1.2.toNat >>> (32 - e.1.1))
  simp only [Policy.lookup]
  revert hf
  generalize List.foldl _ none _ = best
  intro hf
  cases best with
  | none =>
    refine .inl ⟨rfl, fun e he hc => ?_⟩
    exact List.filter_eq_nil_iff.mp hf e he (decide_eq_true_iff.mpr hc)
  | some r =>
    obtain ⟨hm, hl⟩ := hf
    obtain ⟨hp, hc⟩ := List.mem_filter.mp hm
    refine .inr ⟨r, ⟨hp, of_decide_eq_true (p := _ = _) hc, fun e he hce => hl e ?_⟩, rfl⟩
    exact List.mem_filter.mpr ⟨he, decide_eq_true_iff.mpr hce⟩

/-- The verdict is that of the longest entry that covers the address and applies to the port. -/
def Policy.Honoured (p : Policy) (addr : Addr) (dport : Port) (defAllow verdict : Bool) : Prop :=
  (∃ e, Longest (fun e => e.Covers addr ∧ e.Applies dport) p e ∧ verdict = e.2.verdict) ∨
    (∀ e ∈ p, ¬(PolicyEntry.Covers e addr ∧ PolicyEntry.Applies e dport)) ∧ verdict = defAllow

/-- An entry for another port hides one that applies and says other than the default. -/
def Policy.Hidden (p : Policy) (addr : Addr) (dport : Port) (defAllow : Bool) : Prop :=
  ∃ e e', Longest (·.Covers addr) p e ∧ ¬e.Applies dport ∧
    Longest (fun e => e.Covers addr ∧ e.Applies dport) p e' ∧ e'.2.verdict ≠ defAllow

theorem exists_longest (p : Policy) (addr : Addr) (dport : Port) :
    (∀ e ∈ p, ¬(PolicyEntry.Covers e addr ∧ PolicyEntry.Applies e dport)) ∨
      ∃ e, Longest (fun e => e.Covers addr ∧ e.Applies dport) p e := by
  let q : Policy := p.filter fun e => e.2.port = 0 ∨ e.2.port = dport
  have hq : ∀ e, e ∈ q ↔ e ∈ p ∧ PolicyEntry.Applies e dport := fun e => by
    rw [List.mem_filter, decide_eq_true_eq]
    rfl
  rcases q.lookup_spec addr with ⟨-, hn⟩ | ⟨e, he, -⟩
  · exact .inl fun e hm h => hn e ((hq e).mpr ⟨hm, h.2⟩) h.1
  · obtain ⟨hm, ha⟩ := (hq e).mp he.mem
    exact .inr ⟨e, hm, ⟨he.has, ha⟩, fun e' hm' h => he.most e' ((hq e').mpr ⟨hm', h.2⟩) h.1⟩

/-- The verdict is the right one exactly if no entry is hidden that says other than the default. -/
theorem policy_honoured_iff (ht : Policy.Trie p) (addr : Addr) (dport : Port) (defAllow : Bool) :
    p.Honoured addr dport defAllow (policyCheck p addr dport defAllow) ↔
      ¬p.Hidden addr dport defAllow := by
  unfold policyCheck
  rcases p.lookup_spec addr with ⟨hl, hn⟩ | ⟨e, he, hl⟩
  · simp only [hl]
    exact ⟨fun _ ⟨e, _, he, _⟩ => hn e he.mem he.has, fun _ => .inr ⟨fun e hm h => hn e hm h.1, rfl⟩⟩
  have hsame : ∀ e', Longest (·.Covers addr) p e' → e' = e := fun e' he' =>
    ht e' he'.mem e he.mem addr he'.has he.has
      (Nat.le_antisymm (he.most e' he'.mem he'.has) (he'.most e he.mem he.has))
  simp only [hl]
  by_cases ha : e.Applies dport
  · rw [if_neg (by rw [← not_or]; exact not_not_intro ha)]
    refine ⟨fun _ ⟨e', _, he', hna, _⟩ => hna (hsame e' he' ▸ ha), fun _ => .inl ⟨e, ?_, rfl⟩⟩
    exact ⟨he.mem, ⟨he.has, ha⟩, fun e' hm h => he.most e' hm h.1⟩
  rw [if_pos (not_or.mp ha)]
  constructor
  · rintro (⟨e', he', hv⟩ | ⟨hn, -⟩) ⟨_, e'', -, -, hl'', hne⟩
    · have hs : e'' = e' := ht e'' hl''.mem e' he'.mem addr hl''.has.1 he'.has.1
        (Nat.le_antisymm (he'.most _ hl''.mem hl''.has) (hl''.most _ he'.mem he'.has))
      exact hne (hs ▸ hv.symm)
    · exact hn e'' hl''.mem hl''.has
  · intro hh
    rcases exists_longest p addr dport with hn | ⟨e', he'⟩
    · exact .inr ⟨hn, rfl⟩
    · refine .inl ⟨e', he', ?_⟩
      by_contra hne
      exact hh ⟨e, e', he, ha, he', Ne.symm hne⟩

def denyTen : Policy := [((8, 0x0a000000), ⟨false, 0⟩)]

theorem denyTen_honoured :
    Policy.Honoured (((24, 0x0a000100), ⟨true, 443⟩) :: denyTen) 0x0a000101 443 true true := by
  refine (policy_honoured_iff (p := ((24, 0x0a000100), ⟨true, 443⟩) :: denyTen) ?_
    0x0a000101 443 true).mpr ?_
  · intro e he e' he' _ _ _ hl
    rcases List.mem_pair.mp he with rfl | rfl <;> rcases List.mem_pair.mp he' with rfl | rfl
    · rfl
    · exact absurd hl (by decide)
    · exact absurd hl (by decide)
    · rfl
  · rintro ⟨e, _, he, hna, _⟩
    rcases List.mem_pair.mp he.mem with rfl | rfl
    · exact hna (.inr rfl)
    · exact absurd (he.most _ (.head _) rfl) (by decide)

/-- A rule about port 80 of a smaller network lets everything else there out. -/
theorem denyTen_disabled :
    policyCheck denyTen 0x0a000101 443 true = false ∧
      policyCheck (((24, 0x0a000100), ⟨true, 80⟩) :: denyTen) 0x0a000101 443 true = true := by
  decide

end Craftling.Dataplane

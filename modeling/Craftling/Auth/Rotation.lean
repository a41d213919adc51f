import Craftling.Auth.Tokens

namespace Craftling.Auth
open Effects List

/-- From one table to a later one: a row keeps its id and its user, it is not revoked back,
and new rows get new ids. -/
structure Later (s s' : Store) : Prop where
  fresh : s.fresh ≤ s'.fresh
  tokens : ∀ t' ∈ s'.tokens,
    (∃ t ∈ s.tokens, t.id = t'.id ∧ t.userID = t'.userID ∧ (t.revoked = true → t'.revoked = true)) ∨
      (s.fresh ≤ t'.id ∧ t'.id < s'.fresh)

section Later

variable {s s' : Store}

theorem Later.refl (s : Store) : Later s s :=
  ⟨Nat.le_refl _, fun t ht => .inl ⟨t, ht, rfl, rfl, id⟩⟩

theorem Later.revokeWhere (s : Store) (sel : RefreshToken → Bool) : Later s (s.revokeWhere sel) := by
  refine ⟨Nat.le_refl _, fun t' ht' => .inl ?_⟩
  obtain ⟨t, ht, rfl⟩ := mem_map.mp ht'
  refine ⟨t, ht, ?_⟩
  split
  · exact ⟨rfl, rfl, fun _ => rfl⟩
  · exact ⟨rfl, rfl, id⟩

theorem Later.insert (h : Later s s') (user : UserID) (hash : TokenHash) (expiresAt : Time) :
    Later s (s'.insert user hash expiresAt) := by
  have hf := h.fresh
  constructor
  · change s.fresh ≤ s'.fresh + 1
    omega
  intro t' ht'
  change _ ∨ _ ∧ t'.id < s'.fresh + 1
  rcases mem_append.mp ht' with ho | hn
  · rcases h.tokens t' ho with hk | hi
    · exact .inl hk
    · exact .inr ⟨hi.1, Nat.lt_succ_of_lt hi.2⟩
  rw [mem_singleton] at hn
  subst hn
  exact .inr ⟨hf, Nat.lt_succ_self _⟩

theorem Later.perform (fault : Option String) (e : Call) (s : Store) :
    Later s (s.perform fault e).2 := by
  cases fault with
  | some text => cases e <;> exact .refl s
  | none =>
    cases e with
    | mint user now =>
      refine ⟨Nat.le_succ _, fun t ht => .inl ⟨t, ht, rfl, rfl, id⟩⟩
    | create user hash expiresAt => exact (Later.refl s).insert user hash expiresAt
    | revoke id | revokeAllForUser user => exact .revokeWhere s _
    | rotate old user hash expiresAt =>
      have h := (Later.revokeWhere s (·.id = old)).insert user hash expiresAt
      exact ⟨h.fresh, h.tokens⟩
    | _ => exact .refl s

theorem Later.event (w : Event) (s : Store) : Later s (s.event w) := by
  cases w with
  | deleteExpired =>
    refine ⟨Nat.le_refl _, fun t ht => .inl ⟨t, ?_, rfl, rfl, id⟩⟩
    exact (mem_filter.mp ht).1
  | _ => exact ⟨Nat.le_refl _, fun t ht => .inl ⟨t, ht, rfl, rfl, id⟩⟩

end Later

def Store.Spent (s : Store) (id : TokenID) : Prop := ∀ t ∈ s.tokens, t.id = id → t.revoked = true

def Store.Swept (s : Store) (bound : Nat) (user : UserID) : Prop :=
  ∀ t ∈ s.tokens, t.id < bound → t.userID = user → t.revoked = true

variable {bound ttl : Nat} {late : Nat → Prop} {p : Requests} {s s' : Store} {id old : TokenID}
    {user : UserID}

theorem Store.Spent.later (h : s.Spent id) (hi : id < s.fresh) (hl : Later s s') : s'.Spent id := by
  intro t' ht' hti
  rcases hl.tokens t' ht' with ⟨t, ht, hs, -, hr⟩ | ⟨hn, -⟩
  · exact hr (h t ht (hs.trans hti))
  · rw [hti] at hn
    exact absurd hi (Nat.not_lt.mpr hn)

theorem Store.Swept.later (h : s.Swept bound user) (hb : bound ≤ s.fresh) (hl : Later s s') :
    s'.Swept bound user := by
  intro t' ht' hlt hus
  rcases hl.tokens t' ht' with ⟨t, ht, hi, hu, hr⟩ | ⟨hn, -⟩
  · rw [← hi] at hlt
    exact hr (h t ht hlt (hu.trans hus))
  · exact absurd (Nat.lt_of_lt_of_le hlt hb) (Nat.not_lt.mpr hn)

theorem Store.active_iff : s.active id = true ↔ ∃ t ∈ s.tokens, t.id = id ∧ t.revoked = false := by
  simp [Store.active]

theorem Store.Spent.not_active (h : s.Spent id) : s.active id = false := by
  apply Bool.eq_false_iff.mpr
  intro ha
  obtain ⟨t, ht, hi, hr⟩ := Store.active_iff.mp ha
  rw [h t ht hi] at hr
  cases hr

def Call.revokes (s : Store) (id : TokenID) : Call → Bool
  | .revoke i => i = id
  | .rotate old _ _ _ => old = id
  | .revokeAllForUser user => s.tokens.any fun t => t.id = id && t.userID = user
  | _ => false

theorem Store.active_revokeWhere (h : s.active id = true)
    (hs : ∀ t ∈ s.tokens, t.id = id → sel t = false) : (s.revokeWhere sel).active id = true := by
  obtain ⟨t, ht, hi, hr⟩ := active_iff.mp h
  refine active_iff.mpr ⟨t, mem_map.mpr ⟨t, ht, ?_⟩, hi, hr⟩
  simp [hs t ht hi]

theorem Store.active_insert (h : s.active id = true) (user : UserID) (hash : TokenHash)
    (expiresAt : Time) : (s.insert user hash expiresAt).active id = true := by
  obtain ⟨t, ht, hr⟩ := active_iff.mp h
  exact active_iff.mpr ⟨t, mem_append_left _ ht, hr⟩

variable {e : Call}

theorem Store.active_perform (h : s.active id = true) (fault : Option String)
    (he : fault = none → e.revokes s id = false) : (s.perform fault e).2.active id = true := by
  cases fault with
  | some text => cases e <;> exact h
  | none =>
    have he := he rfl
    cases e with
    | create user hash expiresAt => exact active_insert h user hash expiresAt
    | revoke i =>
      apply active_revokeWhere h
      intro t _ hi
      rw [hi, decide_eq_false_iff_not]
      exact Ne.symm (of_decide_eq_false he)
    | rotate old user hash expiresAt =>
      refine active_insert (active_revokeWhere h ?_) user hash expiresAt
      intro t _ hi
      rw [hi, decide_eq_false_iff_not]
      exact Ne.symm (of_decide_eq_false he)
    | revokeAllForUser user =>
      apply active_revokeWhere h
      intro t ht hi
      simp only [Call.revokes, any_eq_false, Bool.and_eq_true, decide_eq_true_eq, not_and] at he
      simpa using he t ht hi
    | _ => exact h

def Request.holding : Request → Stage → Option TokenID
  | .refresh _, .holds rt => some rt.id
  | _, _ => none

def Stage.reuse : Stage → Option UserID
  | .reused user => some user
  | _ => none

/-- While a refresh holds a token, nothing else takes the token out of use. A sweep for
reuse goes through. -/
def Undisturbed (p : Requests) : Turn Request (Option String) Event → Prop
  | .turn i none => ∀ e ∈ p.next? i, ∀ i' < p.threads.length, i' ≠ i → ∀ t ∈ p.threads[i']?,
      ∀ id ∈ t.job.holding t.stage, e.revokes p.shared id = false
  | .turn i (some _) => ∀ t ∈ p.threads[i]?, t.stage.reuse = none
  | .other .deleteExpired => ∀ t ∈ p.threads, ∀ id ∈ t.job.holding t.stage,
      ∀ rt ∈ p.shared.tokens, rt.id = id → rt.expired p.shared.clock = false
  | _ => True

instance (p : Requests) (l : Turn Request (Option String) Event) : Decidable (Undisturbed p l) := by
  unfold Undisturbed
  split <;> infer_instance

def Stage.allows : Stage → Call → Prop
  | .asked, .getByHash _ => True
  | .holds _, .now => True
  | .holds _, .getUser _ => True
  | .holds _, .mint _ _ => True
  | .holds rt, .rotate old _ _ _ => old = rt.id
  | .reused user, .revokeAllForUser u => u = user
  | _, _ => False

/-- Only a refresh rotates, and only the token it holds. It warns behind a sweep. -/
def conduct : System.Conduct Request Stage Call Served where
  allows j st e :=
    match j with
    | .refresh _ => st.allows e
    | _ => ∀ old user hash expiresAt, e ≠ .rotate old user hash expiresAt
  answers j st out :=
    match j with
    | .refresh _ => ∀ user, out.warned = some user → st = .swept user
    | _ => out.warned = none

section Programs

variable (ttl : Time)

theorem exchange_follows (rt : RefreshToken) : (exchange ttl rt).Follows Stage.allows Stage.next
      (fun st out => ∀ user, out.warned = some user → st = .swept user) (.holds rt) := by
  refine ⟨trivial, fun now => ?_⟩
  by_cases he : rt.expired now = true
  · simp [he, answer]
  simp only [he, Stage.next, Prog.done_bind, Bool.false_eq_true, if_false]
  refine ⟨trivial, fun r => ?_⟩
  cases r with
  | error e => exact fun user h => by cases h
  | ok user =>
    refine ⟨trivial, fun r => ?_⟩
    cases r with
    | error e => exact fun user h => by cases h
    | ok pair =>
      refine ⟨rfl, fun r => ?_⟩
      cases r with
      | error e | ok u => exact fun user h => by cases h

theorem refresh_follows (token : Option RawToken) :
    (refresh ttl token).Follows Stage.allows Stage.next
      (fun st out => ∀ user, out.warned = some user → st = .swept user) .asked := by
  cases token with
  | none => exact fun user h => by cases h
  | some raw =>
    refine ⟨trivial, fun r => ?_⟩
    cases r with
    | error e => exact fun user h => by cases h
    | ok rt =>
      by_cases hr : rt.revoked = true
      · simp [hr, Stage.next, Stage.allows, query]
      · simpa [hr, Stage.next] using exchange_follows ttl rt

theorem auth_keeps : (auth ttl).Keeps conduct := by
  intro j
  cases j with
  | refresh token => exact refresh_follows ttl token
  | issueTokens user =>
    refine ⟨(fun _ _ _ _ h => by cases h), fun now => ⟨(fun _ _ _ _ h => by cases h), fun r => ?_⟩⟩
    cases r with
    | error e => rfl
    | ok pair =>
      refine ⟨(fun _ _ _ _ h => by cases h), fun r => ?_⟩
      cases r <;> rfl
  | logout token =>
    cases token with
    | none => rfl
    | some raw =>
      refine ⟨(fun _ _ _ _ h => by cases h), fun r => ?_⟩
      cases r with
      | error e => rfl
      | ok rt => exact ⟨(fun _ _ _ _ h => by cases h), fun r => rfl⟩
  | revokeAll user =>
    refine ⟨(fun _ _ _ _ h => by cases h), fun r => ?_⟩
    cases r <;> rfl

end Programs

structure Ledger (bound : Nat) (s : Store) : Prop where
  bound : bound ≤ s.fresh
  ids : ∀ t ∈ s.tokens, t.id < s.fresh
  distinct : (s.exchanges.map Exchange.old).Nodup
  active : ∀ x ∈ s.exchanges, x.active = true
  spent : ∀ x ∈ s.exchanges, x.old < s.fresh ∧ s.Spent x.old

theorem Ledger.later (h : Ledger bound s) (hl : Later s s') (hex : s'.exchanges = s.exchanges) :
    Ledger bound s' := by
  refine ⟨Nat.le_trans h.bound hl.fresh, ?_, hex ▸ h.distinct, hex ▸ h.active, ?_⟩
  · intro t' ht'
    rcases hl.tokens t' ht' with ⟨t, ht, hi, -⟩ | ⟨-, hlt⟩
    · rw [← hi]
      exact Nat.lt_of_lt_of_le (h.ids t ht) hl.fresh
    · exact hlt
  intro x hx
  rw [hex] at hx
  obtain ⟨hlt, hs⟩ := h.spent x hx
  exact ⟨Nat.lt_of_lt_of_le hlt hl.fresh, hs.later hlt hl⟩

theorem Store.spent_rotate (hl : old < s.fresh) (user : UserID) (hash : TokenHash)
    (expiresAt : Time) : (s.rotate old user hash expiresAt).Spent old := by
  intro t' ht' hi
  rcases mem_append.mp ht' with ho | hn
  · obtain ⟨t, ht, rfl⟩ := mem_map.mp ho
    dsimp only at hi ⊢
    split
    · rfl
    rename_i hs
    rw [if_neg hs] at hi
    simpa [hi] using hs
  · rw [mem_singleton] at hn
    subst hn
    exact absurd hi.symm (Nat.ne_of_lt hl)

theorem Ledger.rotate (h : Ledger bound s) (hac : s.active old = true) (user : UserID)
    (hash : TokenHash) (expiresAt : Time) : Ledger bound (s.rotate old user hash expiresAt) := by
  have hl : Later s (s.rotate old user hash expiresAt) :=
    Later.perform none (.rotate old user hash expiresAt) s
  have hlt : old < s.fresh := by
    obtain ⟨t, ht, rfl, -⟩ := Store.active_iff.mp hac
    exact h.ids t ht
  have ho : Ledger bound { s.rotate old user hash expiresAt with exchanges := s.exchanges } :=
    h.later ⟨hl.fresh, hl.tokens⟩ rfl
  refine ⟨ho.bound, ho.ids, ?_, ?_, ?_⟩
  · have hn : old ∉ s.exchanges.map Exchange.old := by
      intro hm
      obtain ⟨x, hx, rfl⟩ := mem_map.mp hm
      rw [(h.spent x hx).2.not_active] at hac
      cases hac
    change ((s.exchanges ++ [(⟨old, s.fresh, s.active old⟩ : Exchange)]).map Exchange.old).Nodup
    rw [map_append, map_singleton, nodup_append]
    refine ⟨h.distinct, by simp, ?_⟩
    intro a ha b hb he
    rw [mem_singleton] at hb
    rw [he, hb] at ha
    exact hn ha
  · intro x hx
    rcases mem_append.mp hx with hx | hx
    · exact h.active x hx
    rw [mem_singleton] at hx
    subst hx
    exact hac
  · intro x hx
    rcases mem_append.mp hx with hx | hx
    · exact ho.spent x hx
    rw [mem_singleton] at hx
    subst hx
    exact ⟨Nat.lt_of_lt_of_le hlt hl.fresh, Store.spent_rotate hlt user hash expiresAt⟩

theorem perform_exchanges
    (he : ∀ old user hash expiresAt, fault = none → e ≠ .rotate old user hash expiresAt) :
    (s.perform fault e).2.exchanges = s.exchanges := by
  cases fault with
  | some text => cases e <;> rfl
  | none =>
    cases e with
    | rotate old user hash expiresAt => exact absurd rfl (he old user hash expiresAt rfl)
    | _ => rfl

/-- A refresh that holds a token can still exchange it. One that `late` picks and that has
swept has left nothing of what its user had before. -/
def Tracked (bound : Nat) (late : Nat → Prop) (i : Nat) (j : Request) (st : Stage) (s : Store) :
    Prop :=
  match j, st with
  | .refresh _, .holds rt => s.active rt.id = true
  | .refresh _, .swept user => late i → s.Swept bound user
  | _, _ => True

section Runs

variable {ttl bound : Nat} {late : Nat → Prop} {i : Nat} {j : Request} {st : Stage} {s s' : Store}
    {hash : TokenHash}

theorem Tracked.later (h : Tracked bound late i j st s) (hb : bound ≤ s.fresh)
    (hl : Later s s') (hh : ∀ id ∈ j.holding st, s'.active id = true) :
    Tracked bound late i j st s' := by
  cases j with
  | refresh token =>
    cases st with
    | holds rt => exact hh rt.id rfl
    | swept user => exact fun hi => (h hi).later hb hl
    | _ => trivial
  | _ => trivial

theorem Tracked.active (h : Tracked bound late i j st s) : ∀ id ∈ j.holding st, s.active id = true := by
  intro id hi
  cases j with
  | refresh token =>
    cases st with
    | holds rt =>
      cases hi
      exact h
    | _ => cases hi
  | _ => cases hi

theorem getByHash_active (h : s.getByHash hash = .ok rt) (hr : rt.revoked = false) :
    s.active rt.id = true := by
  unfold Store.getByHash at h
  split at h
  · cases h
  rename_i t ht
  cases h
  exact Store.active_iff.mpr ⟨rt, mem_of_find?_eq_some ht, rfl, hr⟩

theorem swept_revokeWhere (user : UserID) : (s.revokeWhere (·.userID = user)).Swept bound user := by
  intro t' ht' _ hu
  obtain ⟨t, ht, rfl⟩ := mem_map.mp ht'
  dsimp only at hu ⊢
  split
  · rfl
  rename_i hs
  rw [if_neg hs] at hu
  simpa [hu] using hs

theorem rotates_held (h : Tracked bound late i j st s)
    (ha : conduct.allows j st (.rotate old user hash expiresAt)) : s.active old = true := by
  cases j with
  | refresh token =>
    cases st with
    | holds rt =>
      cases ha
      exact h
    | _ => cases ha
  | _ => exact absurd rfl (ha old user hash expiresAt)

theorem Tracked.turn (h : Tracked bound late i j st s) (ha : conduct.allows j st e)
    (hs : fault ≠ none → st.reuse = none) :
    Tracked bound late i j (st.next e (s.perform fault e).1) (s.perform fault e).2 := by
  cases j with
  | refresh token =>
    cases st with
    | asked =>
      cases e with
      | getByHash hash =>
        cases fault with
        | some text => trivial
        | none =>
          change Tracked _ _ _ _ (Stage.next .asked (.getByHash hash) (s.getByHash hash)) s
          cases hg : s.getByHash hash with
          | error err => trivial
          | ok rt =>
            simp only [Stage.next]
            split
            · trivial
            · rename_i hr
              exact getByHash_active hg (Bool.eq_false_iff.mpr hr)
      | _ => cases ha
    | holds rt =>
      cases e with
      | now =>
        change Tracked _ _ _ _ (if rt.expired s.clock then _ else _) s
        split
        · trivial
        · exact h
      | getUser id =>
        cases fault with
        | some text => trivial
        | none =>
          simp only [Store.perform]
          split
          · exact h
          · trivial
      | mint user now =>
        cases fault with
        | some text => trivial
        | none => exact h
      | rotate old user hash expiresAt => trivial
      | _ => cases ha
    | reused user =>
      cases e with
      | revokeAllForUser u =>
        cases ha
        cases fault with
        | some text => cases hs (by simp)
        | none => exact fun _ => swept_revokeWhere user
      | _ => cases ha
    | _ => cases e <;> cases ha
  | _ => trivial

abbrev Sound (ttl bound : Nat) (late : Nat → Prop) : Requests → Prop :=
  (auth ttl).Holds conduct (Ledger bound) (Tracked bound late)

theorem Sound.step (h : Sound ttl bound late p) (hs : (auth ttl).step p l = some p')
    (hl : Undisturbed p l) : Sound ttl bound late p' := by
  apply System.Holds.step h (auth_keeps ttl) hs
  · intro j _
    cases j <;> trivial
  · intro i fault j st e k htu hi ha hst
    subst htu
    have hla := Later.perform fault e p.shared
    refine ⟨?_, ?_, ?_⟩
    · -- a rotation is of the token that the request holds
      by_cases hr : ∃ old user hash expiresAt, fault = none ∧ e = .rotate old user hash expiresAt
      · obtain ⟨old, user, hash, expiresAt, rfl, rfl⟩ := hr
        exact h.shared.rotate (rotates_held hst ha) user hash expiresAt
      apply h.shared.later hla
      apply perform_exchanges
      intro old user hash expiresAt hf he
      exact hr ⟨old, user, hash, expiresAt, hf, he⟩
    · apply hst.turn ha
      intro hf
      cases fault with
      | none => exact absurd rfl hf
      | some text => exact hl _ hi
    · intro i' t hn ht ho
      apply ho.later h.shared.bound hla
      intro id hid
      apply Store.active_perform (ho.active id hid)
      intro hf
      subst hf
      apply hl e _ i' _ hn t ht id hid
      · simp [Pool.next?, hi, Prog.next?]
      · exact (List.getElem?_eq_some_iff.mp ht).1
  · intro w s' hw hs'
    subst hw
    cases hs'
    have hla := Later.event w p.shared
    refine ⟨h.shared.later hla (by cases w <;> rfl), ?_⟩
    intro i t ht ho
    apply ho.later h.shared.bound hla
    intro id hid
    have hac := ho.active id hid
    cases w with
    | deleteExpired =>
      obtain ⟨rt, hrt, hrti, hre⟩ := Store.active_iff.mp hac
      have hfr := hl t (mem_of_getElem? ht) id hid rt hrt hrti
      refine Store.active_iff.mpr ⟨rt, mem_filter.mpr ⟨hrt, ?_⟩, hrti, hre⟩
      simp [hfr]
    | _ => exact hac

end Runs

theorem Sound.reaches (h : Sound ttl bound late p)
    (hru : Reaches (auth ttl).step (fun q l _ => Undisturbed q l) p q) :
    Sound ttl bound late q := by
  refine hru.invariant (I := Sound ttl bound late) h ?_
  intro r l r' hr hs hl
  exact hr.step hs hl

def Unfinished (p : Requests) (i : Nat) : Prop := ∀ t ∈ p.threads[i]?, t.prog.result? = none

instance (p : Requests) (i : Nat) : Decidable (Unfinished p i) := by
  unfold Unfinished
  infer_instance

theorem Sound.from (h : Sound ttl 0 (fun _ => False) p) :
    Sound ttl p.shared.fresh (Unfinished p) p := by
  have hl := h.shared
  refine ⟨⟨Nat.le_refl _, hl.ids, hl.distinct, hl.active, hl.spent⟩, h.keeps, ?_⟩
  intro i t ht
  have ho := h.threads i t ht
  have hk := h.keeps t (mem_of_getElem? ht)
  obtain ⟨j, st, prog⟩ := t
  cases j with
  | refresh token =>
    cases st with
    | holds rt => exact ho
    | swept user =>
      intro hla
      -- nothing is left to do behind a sweep
      have hr := hla _ ht
      cases prog with
      | done out => cases hr
      | call e k => exact (by cases e <;> exact hk.1 : False).elim
    | _ => trivial
  | _ => trivial

theorem swept_of_warned {out : Served} (h : Sound ttl bound late p) (ht : p.threads[i]? = some t)
    (hr : t.prog.result? = some out) (hw : out.warned = some user) (hl : late i) :
    p.shared.Swept bound user := by
  have htr := h.threads i t ht
  have hk := h.keeps t (mem_of_getElem? ht)
  rw [Prog.eq_done_of_result? hr] at hk
  obtain ⟨j, st, prog⟩ := t
  cases j with
  | refresh token =>
    obtain rfl : st = .swept user := hk user hw
    exact htr hl
  | _ =>
    have hn : out.warned = none := hk
    rw [hw] at hn
    cases hn

/-- In an undisturbed run a refresh token is exchanged at most once, while it is active. After a
warning of reuse no token from before it is usable. -/
theorem refresh_rotation_linear (ttl : Time) (p q : Requests)
    (hp : Reaches (auth ttl).step (fun r l _ => Undisturbed r l) ⟨.init, []⟩ p)
    (hq : Reaches (auth ttl).step (fun r l _ => Undisturbed r l) p q) :
    (q.shared.exchanges.map Exchange.old).Nodup ∧
      (∀ x ∈ q.shared.exchanges, x.active = true) ∧
      ∀ i, Unfinished p i → ∀ t, q.threads[i]? = some t → ∀ out, t.prog.result? = some out →
        ∀ user, out.warned = some user → ∀ rt ∈ q.shared.tokens, rt.userID = user →
          rt.id ∈ p.shared.tokens.map RefreshToken.id → rt.usable q.shared.clock = false := by
  have hsound : Sound ttl 0 (fun _ => False) p := by
    apply Sound.reaches _ hp
    exact System.Holds.start ⟨Nat.le_refl _, by simp [Store.init], by simp [Store.init],
      by simp [Store.init], by simp [Store.init]⟩
  have hfrom := hsound.from.reaches hq
  refine ⟨hfrom.shared.distinct, hfrom.shared.active, ?_⟩
  intro i hlate t ht out hres user hwarned rt hrt huser hid
  obtain ⟨old, hold, hid⟩ := mem_map.mp hid
  have hswept := swept_of_warned hfrom ht hres hwarned hlate
  have hrevoked := hswept rt hrt (hid ▸ hsound.shared.ids old hold) huser
  simp [RefreshToken.usable, hrevoked]

def reusing : List (Turn Request (Option String) Event) :=
  [.other (.register 0), .start (.issueTokens 0), .turn 0 none, .turn 0 none, .turn 0 none,
    .start (.refresh (some 0)), .turn 1 none, .turn 1 none, .turn 1 none, .turn 1 none,
    .turn 1 none, .start (.refresh (some 0))]

/-- The sweep takes the successor out of use. -/
theorem refresh_rotation_linear_reuse :
    ∃ p q : Requests, Reaches (auth 60).step (fun r l _ => Undisturbed r l) ⟨.init, []⟩ p ∧
      Reaches (auth 60).step (fun r l _ => Undisturbed r l) p q ∧
      p.shared.tokens.map (fun rt => (rt.id, rt.usable 0)) = [(1, false), (3, true)] ∧
      q.shared.exchanges.length = 1 ∧ ∀ rt ∈ q.shared.tokens, rt.usable q.shared.clock = false := by
  obtain ⟨p, hp, hboth⟩ := Reaches.exists_run (auth 60).step
    (fun r l _ => Undisturbed r l) ⟨.init, []⟩ reusing
    (fun p => decide (Unfinished p 2) && decide
        (p.shared.tokens.map (fun rt => (rt.id, rt.usable 0)) = [(1, false), (3, true)]) &&
      (runChecked (auth 60).step (fun r l _ => Undisturbed r l) p [.turn 2 none, .turn 2 none]).any
        fun q => q.shared.exchanges.length = 1 && (q.threads[2]?.any fun t =>
            t.prog.result? = some ⟨.unauthorized "invalid refresh token", some 0⟩) &&
          q.shared.tokens.all fun rt => rt.userID = 0 && (rt.id = 1 || rt.id = 3))
    (by decide +kernel)
  simp only [Bool.and_eq_true, decide_eq_true_eq] at hboth
  obtain ⟨⟨hlate, htokens⟩, hmore⟩ := hboth
  obtain ⟨q, hq, hend⟩ := Reaches.exists_run _ _ p _ _ hmore
  simp only [Bool.and_eq_true, decide_eq_true_eq, Option.any_eq_true, all_eq_true] at hend
  obtain ⟨⟨hlen, t, ht, hres⟩, hall⟩ := hend
  refine ⟨p, q, hp, hq, htokens, hlen, ?_⟩
  intro rt hrt
  obtain ⟨huser, hid⟩ := hall rt hrt
  have hids : p.shared.tokens.map RefreshToken.id = [1, 3] := by
    have hfst := congrArg (List.map Prod.fst) htokens
    rw [map_map] at hfst
    exact hfst
  apply (refresh_rotation_linear 60 p q hp hq).2.2 2 hlate t ht _ hres 0 rfl rt hrt huser
  rw [hids]
  simpa using hid

/-- Two requests with one token both look it up before either rotates it. Both are given a
successor, the second from a token that the first has revoked. -/
theorem two_refreshes_both_exchange :
    ∃ p : Requests, Reaches (auth 60).step (fun _ _ _ => True) ⟨.init, []⟩ p ∧
      p.shared.tokens.map (·.usable p.shared.clock) = [false, true, true] ∧
      p.shared.exchanges.map Exchange.old = [1, 1] ∧
      p.shared.exchanges.map Exchange.active = [true, false] := by
  exact Reaches.exists_check ([.other (.register 0), .start (.issueTokens 0), .turn 0 none,
      .turn 0 none, .turn 0 none, .start (.refresh (some 0)), .start (.refresh (some 0)),
      .turn 1 none, .turn 2 none] ++
      List.replicate 4 (.turn 1 none) ++ List.replicate 4 (.turn 2 none)) (by decide +kernel)

end Craftling.Auth

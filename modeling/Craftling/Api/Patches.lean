import Craftling.Effects.Patches
import Craftling.Api.Quotas

namespace Craftling.Api
open Effects
open Control hiding Response Call Answer

structure ServerPatch where
  caller : UserID
  id : ServerID
  req : UpdateServerRequest
  deriving DecidableEq

/-- How far a PATCH has got: it holds a copy of the row it has read, or has written. -/
inductive Copy (ρ : Type) where
  | asked
  | read (row : ρ)
  | wrote
  deriving DecidableEq

def noteServer : Copy GameServer → (e : Stmt) → e.Result → Copy GameServer
  | .asked, .getByID _, .ok s => .read s
  | .read _, .updateSpec _ _ _, .ok _ => .wrote
  | st, _, _ => st

def serverPatches (d : Deployment) :
    System ServerPatch (Copy GameServer) Stmt Stmt.Result Control.Response Fleet (Option String)
      Label where
  body j := ServerHandler.update j.caller j.id j.req
  first _ := .asked
  note := noteServer
  perform := Fleet.perform
  other l f := if l.isRequest then none else step d f l

abbrev ServerPatches :=
  Pool ServerPatch (Copy GameServer) Stmt Stmt.Result Control.Response Fleet

inductive ServerField where
  | name | version
  deriving DecidableEq

def ServerField.of (r : GameServer) : ServerField → String
  | .name => r.name
  | .version => r.version

def serverView (id : ServerID) (f : Fleet) (field : ServerField) : Option String :=
  f.rows[id]?.map field.of

def UpdateServerRequest.gives (req : UpdateServerRequest) : ServerField → Option String
  | .name => req.name
  | .version => req.version

def ServerPatch.given (id : ServerID) (j : ServerPatch) (field : ServerField) :
    Option (Option String) :=
  if j.id = id then (UpdateServerRequest.gives j.req field).map some else none

/-- Only the copy that was read fills what the request does not name, and a request that names
a field has written it when it is answered. -/
def spelled : System.Conduct ServerPatch (Copy GameServer) Stmt Control.Response where
  allows j st e :=
    match e with
    | .getByID i => st = .asked → i = j.id
    | .updateSpec i name version => ∃ s, st = .read s ∧ i = s.id ∧
        name = j.req.name.getD s.name ∧ version = j.req.version.getD s.version
    | .requestBackup _ => False
    | _ => True
  answers j st r := ∀ s, r = .ok s → ∀ field, (UpdateServerRequest.gives j.req field).isSome →
    st = .wrote

theorem ownedOr404_copies (j : ServerPatch) :
    (ServerHandler.ownedOr404 j.caller j.id).Follows (spelled.allows j) noteServer
      (fun st o => ∀ s, o = some s → st = .read s) .asked := by
  refine ⟨fun _ => rfl, fun r => ?_⟩
  cases r with
  | error e => exact fun s h => by cases h
  | ok s =>
    by_cases ho : s.ownerID = j.caller
    · simp [ho, noteServer]
    · simp [ho]

theorem updateSpec_spelled (j : ServerPatch) (s : GameServer) :
    (ServerHandler.updateSpec s j.req).Follows (spelled.allows j) noteServer
      (fun st r => st ≠ .asked ∧ (r = .ok () → ∀ field,
        (UpdateServerRequest.gives j.req field).isSome → st = .wrote)) (.read s) := by
  unfold ServerHandler.updateSpec
  split
  · refine ⟨⟨s, rfl, rfl, rfl, rfl⟩, fun r => ?_⟩
    cases r <;> simp [noteServer]
  rename_i hn
  simp only [Bool.or_eq_true, not_or] at hn
  refine ⟨by simp, fun _ field hg => ?_⟩
  cases field with
  | name => exact absurd hg hn.1
  | version => exact absurd hg hn.2

theorem setDesiredState_kept (j : ServerPatch) (s : GameServer) (st : Copy GameServer) :
    (ServerHandler.setDesiredState s j.req).Follows (spelled.allows j) noteServer
      (fun st' _ => st' = st) st := by
  unfold ServerHandler.setDesiredState
  split
  · refine ⟨trivial, fun r => ?_⟩
    cases st <;> rfl
  · rfl

theorem update_follows (j : ServerPatch) :
    (ServerHandler.update j.caller j.id j.req).Follows (spelled.allows j) noteServer
      (spelled.answers j) .asked := by
  unfold ServerHandler.update
  split
  · simp [spelled]
  apply Prog.Follows.bind
  refine (ownedOr404_copies j).mono fun st o hr => ?_
  cases o with
  | none => simp [spelled]
  | some s =>
    rw [hr s rfl]
    apply Prog.Follows.bind
    refine (updateSpec_spelled j s).mono fun st r ⟨hs, hw⟩ => ?_
    cases r with
    | error e => simp [spelled]
    | ok u =>
      apply Prog.Follows.bind
      refine (setDesiredState_kept j s st).mono fun st' r hsa => ?_
      subst hsa
      cases r with
      | error e => simp [spelled]
      | ok u =>
        refine ⟨fun h => absurd h hs, fun r => ?_⟩
        have hk : noteServer st' (.getByID s.id) r = st' := by
          cases st' with
          | asked => exact absurd rfl hs
          | _ => rfl
        rw [hk]
        cases r with
        | error e => simp [spelled]
        | ok updated => exact fun _ _ => hw rfl

structure Keyed (id : ServerID) (rows : List GameServer) : Prop where
  numbered : Numbered rows
  present : ∃ r, rows[id]? = some r

variable {rows : List GameServer} {i id : ServerID}

theorem Keyed.updateRow (h : Keyed id rows) (hg : ∀ s, (g s).id = s.id) :
    Keyed id (updateRow rows i g) := by
  refine ⟨h.numbered.updateRow i hg, ?_⟩
  obtain ⟨r, hr⟩ := h.present
  rw [getElem?_updateRow, hr]
  split
  · exact ⟨g r, rfl⟩
  · exact ⟨r, rfl⟩

theorem Keyed.append (h : Keyed id rows) (n : NewServer) :
    Keyed id (rows ++ [n.row rows.length]) := by
  refine ⟨h.numbered.move (.create n), ?_⟩
  obtain ⟨r, hr⟩ := h.present
  exact ⟨r, by rw [List.getElem?_append_left (List.getElem?_eq_some_iff.mp hr).1, hr]⟩

theorem view_updateRow (hg : KeepsSpec g) (field : ServerField) :
    (updateRow rows i g)[id]?.map field.of = rows[id]?.map field.of := by
  rw [getElem?_updateRow]
  split
  · cases rows[id]? with
    | none => rfl
    | some r => cases field <;> simp [ServerField.of, hg.name, hg.version]
  · rfl

theorem rewrites_view (hk : Keyed id f.rows) (hm : Rewrites f l rows) (hl : l.isRequest = false) :
    Keyed id rows ∧
      ∀ field : ServerField, rows[id]?.map field.of = f.rows[id]?.map field.of := by
  cases hm with
  | same => exact ⟨hk, fun _ => rfl⟩
  | create n =>
    obtain ⟨r, hr⟩ := hk.present
    refine ⟨hk.append n, fun field => ?_⟩
    rw [List.getElem?_append_left (List.getElem?_eq_some_iff.mp hr).1]
  | write order e k st i g _ hw =>
    have hg := Call.keepsSpec hw
    exact ⟨hk.updateRow hg.id, view_updateRow hg⟩
  | _ => cases hl

def Current (p : ServerPatches) : Turn ServerPatch (Option String) Label → Prop
  | .turn i none => ∀ t ∈ p.threads[i]?,
    match t.stage, t.prog.next? with
    | .read s, some (.updateSpec _ _ _) => ∀ r ∈ p.shared.rows[t.job.id]?,
      (t.job.req.name = none → r.name = s.name) ∧
        (t.job.req.version = none → r.version = s.version)
    | _, _ => True
  | _ => True

instance (p : ServerPatches) (l : Turn ServerPatch (Option String) Label) :
    Decidable (Current p l) := by
  unfold Current
  split
  · have hdec : ∀ t : Thread ServerPatch (Copy GameServer) Stmt Stmt.Result Control.Response,
        Decidable (match t.stage, t.prog.next? with
          | .read s, some (.updateSpec _ _ _) => ∀ r ∈ p.shared.rows[t.job.id]?,
            (t.job.req.name = none → r.name = s.name) ∧
              (t.job.req.version = none → r.version = s.version)
          | _, _ => True) := by
      intro t
      split <;> infer_instance
    infer_instance
  · infer_instance

def Copied (_ : Nat) (j : ServerPatch) (st : Copy GameServer) (_ : Fleet) : Prop :=
  ∀ s, st = .read s → s.id = j.id

section Steps

variable {id : ServerID} {l : Turn ServerPatch (Option String) Label} {fault : Option String}
    {e : Stmt} {f : Fleet}

theorem perform_view (fault : Option String) (e : Stmt) (hk : Keyed id f.rows) :
    Keyed id (f.perform fault e).2.rows ∧
      (serverView id (f.perform fault e).2 = serverView id f ∨
        ∃ name version, fault = none ∧ e = .updateSpec id name version) := by
  cases fault with
  | some text => cases e <;> exact ⟨hk, .inl rfl⟩
  | none =>
    cases e with
    | getByID i => exact ⟨hk, .inl rfl⟩
    | updateSpec i name version =>
      refine ⟨hk.updateRow fun _ => rfl, ?_⟩
      by_cases hi : i = id
      · exact .inr ⟨name, version, rfl, by rw [hi]⟩
      left
      funext field
      simp [serverView, Fleet.perform, Fleet.write, getElem?_updateRow, hi]
    | _ =>
      refine ⟨hk.updateRow fun _ => rfl, .inl (funext fun field => ?_)⟩
      refine view_updateRow ?_ field
      exact ⟨fun _ => rfl, fun _ => rfl, fun _ => rfl, fun _ => rfl, fun _ => rfl, fun _ => rfl⟩

theorem Copied.next {i : Nat} {j : ServerPatch} {st : Copy GameServer} {f' : Fleet}
    (h : Copied i j st f) (hn : Numbered f.rows) (ha : spelled.allows j st e) :
    Copied i j (noteServer st e (f.perform fault e).1) f' := by
  cases e with
  | getByID i =>
    cases st with
    | asked =>
      obtain rfl : i = j.id := ha rfl
      cases fault with
      | some text => exact h
      | none =>
        simp only [Fleet.perform, Fleet.getByID]
        split
        · exact h
        rename_i s hs
        split
        · exact h
        intro s' hs'
        cases hs'
        exact hn j.id s hs
    | _ => exact h
  | updateSpec i name version =>
    cases st with
    | read s =>
      cases fault with
      | some text => exact h
      | none => exact fun _ h => by cases h
    | _ => exact h
  | _ => cases st <;> exact h

theorem noteServer_wrote (hs : ¬ ∃ i name version, e = .updateSpec i name version) :
    noteServer st e r = .wrote ↔ st = .wrote := by
  cases e with
  | getByID i => cases st <;> cases r <;> simp [noteServer]
  | updateSpec i name version => exact absurd ⟨_, _, _, rfl⟩ hs
  | _ => cases st <;> simp [noteServer]

/-- The rows are in order, the requests keep to their conduct, and the server is as the
requests that have written make it. -/
structure Patching (d : Deployment) (id : ServerID) (init : ServerField → Option String)
    (p : ServerPatches) : Prop where
  holds : (serverPatches d).Holds spelled (fun f => Keyed id f.rows) Copied p
  patched : Patched init (p.Wrote (ServerPatch.given id) (· = .wrote)) (serverView id p.shared)

theorem updateSpec_view {j : ServerPatch} {s r : GameServer} (hr : f.rows[j.id]? = some r)
    (hn : j.req.name = none → r.name = s.name)
    (hv : j.req.version = none → r.version = s.version) (field : ServerField) :
    serverView j.id (f.perform none (.updateSpec j.id (j.req.name.getD s.name)
        (j.req.version.getD s.version))).2 field =
      (j.given j.id field).getD (serverView j.id f field) := by
  have hg : (updateRow f.rows j.id fun r => { r with
      name := j.req.name.getD s.name, version := j.req.version.getD s.version })[j.id]? =
      some { r with name := j.req.name.getD s.name, version := j.req.version.getD s.version } := by
    rw [getElem?_updateRow, hr, if_pos rfl]
    rfl
  have hvi : serverView j.id f field = some (field.of r) := by
    rw [serverView, hr]
    rfl
  simp only [serverView, Fleet.perform, Fleet.write, hg, Option.map_some, ServerPatch.given,
    ↓reduceIte]
  rw [hr, Option.map_some]
  cases field with
  | name =>
    cases hgi : j.req.name with
    | none => simp [ServerField.of, UpdateServerRequest.gives, hgi, hn hgi]
    | some v => simp [ServerField.of, UpdateServerRequest.gives, hgi]
  | version =>
    cases hgi : j.req.version with
    | none => simp [ServerField.of, UpdateServerRequest.gives, hgi, hv hgi]
    | some v => simp [ServerField.of, UpdateServerRequest.gives, hgi]

theorem Patching.step {init : ServerField → Option String} (h : Patching d id init p)
    (hs : (serverPatches d).step p l = some p') (hl : Current p l) : Patching d id init p' := by
  have ho : ∀ w f', (serverPatches d).other w p.shared = some f' →
      Keyed id f'.rows ∧ serverView id f' = serverView id p.shared := by
    intro w f' hst
    simp only [serverPatches] at hst
    split at hst
    · cases hst
    rename_i hre
    obtain ⟨hk, hv⟩ := rewrites_view h.holds.shared (step_rewrites hst) (Bool.eq_false_iff.mpr hre)
    exact ⟨hk, funext hv⟩
  constructor
  · apply System.Holds.step h.holds (fun j => update_follows j) hs
    · intro j _ s hs
      cases hs
    · intro i fault j st e k _ _ ha hc
      exact ⟨(perform_view fault e h.holds.shared).1, hc.next h.holds.shared.numbered ha,
        fun _ _ _ _ hol => hol⟩
    · intro w f' _ hst
      exact ⟨(ho w f' hst).1, fun _ _ _ hol => hol⟩
  · apply h.patched.step hs
    · intro j hj
      cases hj
    · intro i fault j st e k ht hi
      have ha : spelled.allows j st e := (h.holds.keeps _ (List.mem_of_getElem? hi)).1
      have hc : Copied i j st p.shared := h.holds.threads i _ hi
      by_cases hsp : ∃ i' name version, e = .updateSpec i' name version
      · obtain ⟨i', name, version, rfl⟩ := hsp
        obtain ⟨s, rfl, rfl, rfl, rfl⟩ := ha
        have hsi : s.id = j.id := hc s rfl
        cases fault with
        | some text => exact .inl ⟨by simp [serverPatches, Fleet.perform, Fleet.write, noteServer], rfl⟩
        | none =>
          refine .inr ⟨rfl, fun field => ?_⟩
          by_cases hj : j.id = id
          · subst hj
            obtain ⟨r, hr⟩ := h.holds.shared.present
            subst ht
            have hcu : ∀ r ∈ p.shared.rows[j.id]?, (j.req.name = none → r.name = s.name) ∧
                (j.req.version = none → r.version = s.version) := hl _ hi
            obtain ⟨hn, hve⟩ := hcu r hr
            rw [hsi]
            exact updateSpec_view hr hn hve field
          · simp [serverPatches, Fleet.perform, Fleet.write, serverView, getElem?_updateRow,
              ServerPatch.given, hsi, hj]
      · -- the other statements do not write the fields, and none of them ends the writing
        left
        refine ⟨noteServer_wrote hsp, ?_⟩
        rcases (perform_view fault e h.holds.shared).2 with hsa | ⟨name, version, -, he⟩
        · exact hsa
        · exact absurd ⟨_, _, _, he⟩ hsp
    · intro w f' _ hst
      exact (ho w f' hst).2

theorem server_patched (hk : Keyed id f0.rows)
    (hr : Reaches (serverPatches d).step (fun q l _ => Current q l) ⟨f0, []⟩ p)
    (hd : ∀ t ∈ p.threads, t.job.id = id → ∃ s, t.prog.result? = some (.ok s)) :
    Patched (serverView id f0) (fun g => ∃ t ∈ p.threads, t.job.given id = g)
      (serverView id p.shared) := by
  have hn : ∀ g, ¬ Pool.Wrote (ServerPatch.given id) (· = .wrote) (⟨f0, []⟩ : ServerPatches) g :=
    fun g ⟨t, ht, _⟩ => by cases ht
  have hp := hr.invariant (I := Patching d id (serverView id f0))
    ⟨.start hk, .start hn⟩ fun q l q' hq hs hl => hq.step hs hl
  refine hp.patched.extend (fun g ⟨t, ht, _, hg⟩ => ⟨t, ht, hg⟩) ?_
  rintro g ⟨t, ht, rfl⟩
  by_cases hi : t.job.id = id
  · obtain ⟨s, hs⟩ := hd t ht hi
    have hke := hp.holds.keeps t ht
    rw [Prog.eq_done_of_result? hs] at hke
    by_cases hw : t.stage = .wrote
    · exact .inl ⟨t, ht, hw, rfl⟩
    refine .inr fun field => ?_
    cases hgi : UpdateServerRequest.gives t.job.req field with
    | none => simp [ServerPatch.given, hgi]
    | some v => exact absurd (hke s rfl field (by rw [hgi]; rfl)) hw
  · exact .inr fun field => by simp [ServerPatch.given, hi]

end Steps

end Craftling.Api

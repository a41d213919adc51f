import Craftling.Effects.Pool
import Craftling.Control.Informed

namespace Craftling.Control
open Effects

inductive Stmt where
  | getByID (id : ServerID)
  | updateSpec (id : ServerID) (name version : String)
  | setDesiredState (id : ServerID) (desired : Desired)
  | requestBackup (id : ServerID)
  deriving DecidableEq, Repr

abbrev Stmt.Result : Stmt → Type
  | .getByID _ => Except Err GameServer
  | .updateSpec _ _ _ | .setDesiredState _ _ | .requestBackup _ => Except Err Unit

inductive Response where
  | ok (s : GameServer)
  | accepted (status : String)
  | badRequest
  | notFound
  | internalError
  deriving DecidableEq, Repr

structure UpdateServerRequest where
  name : Option String
  version : Option String
  desiredState : Option Desired
  deriving DecidableEq, Repr

def UpdateServerRequest.valid (req : UpdateServerRequest) : Bool :=
  req.name.all (fun name => 1 ≤ name.length && name.length ≤ 64) &&
    req.version.all (fun version => 1 ≤ version.length) &&
    req.desiredState.all (fun desired => desired = .running || desired = .stopped)

namespace ServerHandler

abbrev Handler := Prog Stmt Stmt.Result

def query (e : Stmt) : Handler e.Result := .call e .done

def ownedOr404 (caller : UserID) (id : ServerID) : Handler (Option GameServer) := do
  match ← query (.getByID id) with
  | .error _ => return none
  | .ok s => if s.ownerID ≠ caller then return none else return some s

def get (caller : UserID) (id : ServerID) : Handler Response := do
  match ← ownedOr404 caller id with
  | none => return .notFound
  | some s => return .ok s

/-- A request that edits one of name and version writes the other back as it was read. -/
def updateSpec (s : GameServer) (req : UpdateServerRequest) : Handler (Except Err Unit) :=
  if req.name.isSome || req.version.isSome then
    query (.updateSpec s.id (req.name.getD s.name) (req.version.getD s.version))
  else return .ok ()

def setDesiredState (s : GameServer) (req : UpdateServerRequest) : Handler (Except Err Unit) :=
  match req.desiredState with
  | some desired => query (.setDesiredState s.id desired)
  | none => return .ok ()

def update (caller : UserID) (id : ServerID) (req : UpdateServerRequest) : Handler Response := do
  if !req.valid then return .badRequest
  match ← ownedOr404 caller id with
  | none => return .notFound
  | some s =>
    match ← updateSpec s req with
    | .error _ => return .internalError
    | .ok _ =>
      match ← setDesiredState s req with
      | .error _ => return .internalError
      | .ok _ =>
        match ← query (.getByID s.id) with
        | .error _ => return .internalError
        | .ok updated => return .ok updated

def delete (caller : UserID) (id : ServerID) : Handler Response := do
  match ← ownedOr404 caller id with
  | none => return .notFound
  | some s =>
    match ← query (.setDesiredState s.id .deleted) with
    | .error _ => return .internalError
    | .ok _ => return .accepted "deleting"

def requestBackup (caller : UserID) (id : ServerID) : Handler Response := do
  match ← ownedOr404 caller id with
  | none => return .notFound
  | some s =>
    match ← query (.requestBackup s.id) with
    | .error _ => return .internalError
    | .ok _ => return .accepted "backup requested"

end ServerHandler

inductive Request where
  | get (caller : UserID) (id : ServerID)
  | update (caller : UserID) (id : ServerID) (req : UpdateServerRequest)
  | delete (caller : UserID) (id : ServerID)
  | requestBackup (caller : UserID) (id : ServerID)
  deriving DecidableEq, Repr

def Request.handler : Request → ServerHandler.Handler Response
  | .get caller id => ServerHandler.get caller id
  | .update caller id req => ServerHandler.update caller id req
  | .delete caller id => ServerHandler.delete caller id
  | .requestBackup caller id => ServerHandler.requestBackup caller id

/-- A row that is soft-deleted is hidden from requests. -/
def Fleet.getByID (f : Fleet) (id : ServerID) : Except Err GameServer :=
  match f.rows[id]? with
  | none => .error .notFound
  | some s => if s.deleted then .error .notFound else .ok s

def Fleet.perform (fault : Option String) : (e : Stmt) → Fleet → e.Result × Fleet
  | .getByID id, f =>
    match fault with
    | some text => (.error (.db text), f)
    | none => (f.getByID id, f)
  | .updateSpec id name version, f => f.write fault id fun s => { s with name, version }
  | .setDesiredState id desired, f => f.write fault id fun s => { s with desired }
  | .requestBackup id, f => f.write fault id fun s => { s with backupRequested := true }

def Stmt.label : Stmt → Option Label
  | .getByID _ => none
  | .updateSpec id name version => some (.updateSpec id name version)
  | .setDesiredState id desired => some (.setDesired id desired)
  | .requestBackup id => some (.requestBackup id)

def Label.isRequest : Label → Bool
  | .updateSpec _ _ _ => true
  | .setDesired _ _ => true
  | .requestBackup _ => true
  | _ => false

theorem perform_eq (d : Deployment) (fault : Option String) (e : Stmt) (f : Fleet) :
    (f.perform fault e).2 = f ∨
      fault = none ∧ ∃ l, e.label = some l ∧ step d f l = some (f.perform fault e).2 := by
  cases fault with
  | some text => cases e <;> exact .inl rfl
  | none =>
    cases e with
    | getByID id => exact .inl rfl
    | _ => exact .inr ⟨rfl, _, rfl, rfl⟩

def Doomed (rows : List GameServer) (id : ServerID) : Prop :=
  ∃ r, rows[id]? = some r ∧ (r.deleted = true ∨ r.desired = .deleted)

instance (rows : List GameServer) (id : ServerID) : Decidable (Doomed rows id) :=
  decidable_of_iff (rows[id]?.any fun r => r.deleted || r.desired = .deleted) (by
    simp [Doomed, Option.any_eq_true])

def Revives (rows : List GameServer) : Label → Prop
  | .setDesired id desired =>
    desired ≠ .deleted ∧ ∃ r ∈ rows[id]?, r.deleted = false ∧ r.desired = .deleted
  | _ => False

instance (rows : List GameServer) (l : Label) : Decidable (Revives rows l) := by
  induction l using Label.casesOn <;> unfold Revives <;> infer_instance

variable {f : Fleet} {g : GameServer → GameServer} {l : Label} {rows : List GameServer}
    {id : ServerID}

theorem Doomed.updateRow (h : Doomed rows id)
    (hg : ∀ r, i = id → rows[id]? = some r → (r.deleted = true ∨ r.desired = .deleted) → (g
      r).deleted = true ∨ (g r).desired = .deleted) : Doomed (updateRow rows i g) id := by
  obtain ⟨r, hr, hd⟩ := h
  by_cases hi : i = id
  · exact ⟨g r, by simp [getElem?_updateRow, hi, hr], hg r hi hr hd⟩
  · exact ⟨r, by simp [getElem?_updateRow, hi, hr], hd⟩

theorem Call.writes_desired {e : Call} {now : Time} (hw : e.writes now = some (id, g))
    (r : GameServer) : (g r).desired = r.desired ∧ (r.deleted = true → (g r).deleted = true) := by
  cases e with
  | markLost i m =>
    cases hw
    change (r.markedLost m).desired = _ ∧ (_ → (r.markedLost m).deleted = true)
    unfold GameServer.markedLost
    split <;> simp
  | markHealth i b o m =>
    cases hw
    change (r.markedHealth b o m now).desired = _ ∧ (_ → (r.markedHealth b o m now).deleted = true)
    unfold GameServer.markedHealth
    split <;> simp
  | softDelete i => cases hw; exact ⟨rfl, fun _ => rfl⟩
  | _ => first | (cases hw; exact ⟨rfl, fun h => h⟩) | cases hw

theorem Doomed.rewrites (h : Doomed f.rows id) (hm : Rewrites f l rows) (hl : ¬ Revives f.rows l) :
    Doomed rows id := by
  cases hm with
  | same => exact h
  | create n =>
    obtain ⟨r, hr, hd⟩ := h
    have hlt : id < f.rows.length := (List.getElem?_eq_some_iff.mp hr).1
    exact ⟨r, by rw [List.getElem?_append_left hlt, hr], hd⟩
  | updateSpec i name version | requestBackup i => exact h.updateRow fun r _ _ hd => hd
  | setDesired i desired =>
    apply h.updateRow
    intro r hi hr hd
    by_cases hde : r.deleted = true
    · exact .inl hde
    -- a row that only waits to be deleted may be written to by no other wish
    right
    by_contra hn
    apply hl
    refine ⟨hn, r, by rw [hi, hr]; rfl, Bool.eq_false_iff.mpr hde, ?_⟩
    exact hd.resolve_left hde
  | write order e k st i g ht hw =>
    apply h.updateRow
    intro r _ _ hd
    have hk := Call.writes_desired hw r
    rw [hk.1]
    exact hd.imp_left hk.2

inductive Deletion where
  | asked
  | found (id : ServerID)
  | marked
  deriving DecidableEq

def Deletion.allows (id : ServerID) : Deletion → Stmt → Prop
  | .asked, e => e = .getByID id
  | .found i, e => e = .setDesiredState i .deleted
  | .marked, _ => False

def Deletion.next : Deletion → (e : Stmt) → e.Result → Deletion
  | .asked, .getByID _, .ok s => .found s.id
  | .found _, .setDesiredState _ _, .ok _ => .marked
  | st, _, _ => st

/-- Requests beside everything else that goes on in the fleet. A DELETE is followed through
its stages. -/
def api (d : Deployment) :
    System Request Deletion Stmt Stmt.Result Response Fleet (Option String) Label where
  body := Request.handler
  first _ := .asked
  note := Deletion.next
  perform := Fleet.perform
  other l f := if l.isRequest then none else step d f l

abbrev Api := Pool Request Deletion Stmt Stmt.Result Response Fleet

theorem api_other (h : (api d).other l f = some f') :
    l.isRequest = false ∧ step d f l = some f' := by
  simp only [api] at h
  split at h
  · cases h
  · rename_i hl
    exact ⟨Bool.eq_false_iff.mpr hl, h⟩

/-- Only a server that has been marked is answered with acceptance. -/
def deletes : System.Conduct Request Deletion Stmt Response where
  allows j st e :=
    match j with
    | .delete _ id => st.allows id e
    | _ => True
  answers j st r :=
    match j with
    | .delete _ _ => ∀ status, r = .accepted status → st = .marked
    | _ => True

theorem ownedOr404_found (caller : UserID) (id : ServerID) :
    (ServerHandler.ownedOr404 caller id).Follows (Deletion.allows id) Deletion.next
      (fun st o => ∀ s, o = some s → st = .found s.id) .asked := by
  refine ⟨rfl, fun r => ?_⟩
  cases r with
  | error e => exact fun s h => by cases h
  | ok s =>
    by_cases ho : s.ownerID = caller
    · simp [ho, Deletion.next]
    · simp [ho]

theorem delete_deletes (caller : UserID) (id : ServerID) :
    (ServerHandler.delete caller id).Follows (Deletion.allows id) Deletion.next
      (fun st r => ∀ status, r = .accepted status → st = .marked) .asked := by
  apply Prog.Follows.bind
  refine (ownedOr404_found caller id).mono fun st o hf => ?_
  cases o with
  | none => exact fun status h => by cases h
  | some s =>
    rw [hf s rfl]
    refine ⟨rfl, fun r => ?_⟩
    cases r with
    | error e => exact fun status h => by cases h
    | ok u => exact fun status _ => rfl

theorem api_keeps (d : Deployment) : (api d).Keeps deletes := by
  intro j
  cases j with
  | delete caller id => exact delete_deletes caller id
  | _ => exact .of_any (fun _ _ => trivial) (fun _ _ => trivial) _ _

def Deletion.holds (rows : List GameServer) (id : ServerID) : Deletion → Prop
  | .asked => True
  | .found i => i = id ∧ ∃ r, rows[id]? = some r
  | .marked => Doomed rows id

def Deleting (_ : Nat) (j : Request) (st : Deletion) (f : Fleet) : Prop :=
  match j with
  | .delete _ id => st.holds f.rows id
  | _ => True

theorem Rewrites.persists {i : Nat} (hm : Rewrites f l rows) (hr : f.rows[i]? = some r) :
    ∃ r', rows[i]? = some r' := by
  have hl : i < f.rows.length := (List.getElem?_eq_some_iff.mp hr).1
  have hle : i < rows.length := by
    cases hm with
    | same => exact hl
    | create n =>
      rw [List.length_append]
      omega
    | _ =>
      rw [updateRow, List.length_modify]
      exact hl
  exact ⟨rows[i], List.getElem?_eq_getElem hle⟩

section Steps

variable {d : Deployment} {f f' : Fleet} {l : Label} {i : Nat} {j : Request} {st : Deletion}

theorem Deleting.rewrites (h : Deleting i j st f) (hm : Rewrites f l f'.rows)
    (hl : ¬ Revives f.rows l) : Deleting i j st f' := by
  cases j with
  | delete caller id =>
    cases st with
    | asked => trivial
    | found i =>
      obtain ⟨hi, r, hr⟩ := h
      exact ⟨hi, hm.persists hr⟩
    | marked => exact Doomed.rewrites h hm hl
  | _ => trivial

theorem Deleting.turn (fault : Option String) (hn : Numbered f.rows) (h : Deleting i j st f)
    (ha : deletes.allows j st e) :
    Deleting i j (st.next e (f.perform fault e).1) (f.perform fault e).2 := by
  cases j with
  | delete caller id =>
    cases st with
    | asked =>
      cases ha
      cases fault with
      | some text => trivial
      | none =>
        simp only [Fleet.perform, Fleet.getByID]
        split
        · trivial
        rename_i s hs
        split
        · trivial
        · exact ⟨hn id s hs, s, hs⟩
    | found i =>
      obtain ⟨rfl, r, hr⟩ := h
      cases ha
      cases fault with
      | some text => exact ⟨rfl, r, hr⟩
      | none => exact ⟨{ r with desired := .deleted }, by simp [Fleet.perform, Fleet.write,
          getElem?_updateRow, hr], .inr rfl⟩
    | marked => cases ha
  | _ => trivial

/-- No request writes another desired state to a server that is to be deleted. -/
def NoRevival (p : Api) : Turn Request (Option String) Label → Prop
  | .turn i none => ∀ e ∈ p.next? i, ∀ l ∈ e.label, ¬ Revives p.shared.rows l
  | _ => True

instance (p : Api) (l : Turn Request (Option String) Label) : Decidable (NoRevival p l) := by
  unfold NoRevival
  split <;> infer_instance

abbrev Served (d : Deployment) : Api → Prop := (api d).Holds deletes (Informed d) Deleting

theorem Served.step (h : Served d p) (hs : (api d).step p t = some p') (ht : NoRevival p t) :
    Served d p' := by
  apply System.Holds.step h (api_keeps d) hs
  · intro j _
    cases j <;> trivial
  · intro i fault j st e k htu hi ha hst
    subst htu
    have hse := hst.turn fault h.shared.numbered ha
    rcases perform_eq d fault e p.shared with hsa | ⟨rfl, label, hla, hste⟩
    · refine ⟨?_, hse, ?_⟩
      · exact hsa.symm ▸ h.shared
      · intro i' t _ _ ho
        exact hsa.symm ▸ ho
    refine ⟨h.shared.step hste, hse, ?_⟩
    intro i' t _ _ ho
    refine ho.rewrites (step_rewrites hste) ?_
    apply ht e _ label
    · rw [hla]
      rfl
    · simp [Pool.next?, hi, Prog.next?]
  · intro label f' _ hste
    obtain ⟨hl, hste⟩ := api_other hste
    refine ⟨h.shared.step hste, ?_⟩
    intro i t _ ho
    refine ho.rewrites (step_rewrites hste) ?_
    cases label <;> first | exact id | cases hl

end Steps

/-- If no request revives it, a server whose deletion was accepted is or will be deleted. -/
theorem delete_terminal (d : Deployment) (p : Api)
    (hrun : Reaches (api d).step (fun q l _ => NoRevival q l) ⟨.init, []⟩ p) (caller : UserID)
    (id : ServerID) (status : String)
    (haccepted : p.Answered (.delete caller id) (.accepted status)) :
    ∃ r, p.shared.rows[id]? = some r ∧ (r.deleted = true ∨ r.desired = .deleted) := by
  have hserved : Served d p := by
    refine hrun.invariant (I := Served d) (.start .init) ?_
    intro q l q' hq hs hl
    exact hq.step hs hl
  obtain ⟨i, st, hst, hanswer⟩ := hserved.answered haccepted
  rw [hanswer status rfl] at hst
  exact hst

def toDeleting : List (Turn Request (Option String) Label) :=
  [.other (.create oneServer), .start (.delete 0 0), .turn 0 none, .turn 0 none]

theorem delete_terminal_accepted :
    ∃ p : Api, Reaches (api oneHost).step (fun q l _ => NoRevival q l) ⟨.init, []⟩ p ∧
      p.Answered (.delete 0 0) (.accepted "deleting") ∧
      ∃ r, p.shared.rows[0]? = some r ∧ (r.deleted = true ∨ r.desired = .deleted) := by
  exact Reaches.exists_then toDeleting (by decide +kernel) fun p hrun haccepted =>
    delete_terminal oneHost p hrun 0 0 "deleting" haccepted

/-- A PATCH that asks for the server to run, after the DELETE was accepted, is itself
accepted and takes the deletion back. -/
theorem patch_revives : ∃ p : Api, Reaches (api oneHost).step (fun _ _ _ => True) ⟨.init, []⟩ p ∧
      p.Answered (.delete 0 0) (.accepted "deleting") ∧
      ∃ r, p.shared.rows[0]? = some r ∧ r.deleted = false ∧ r.desired = .running := by
  exact Reaches.exists_check (toDeleting ++ [.start (.update 0 0 ⟨none, none, some .running⟩),
      .turn 1 none, .turn 1 none, .turn 1 none]) (by decide +kernel)

end Craftling.Control

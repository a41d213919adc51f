import Craftling.Api.Patches

namespace Craftling.Api
open Effects List
open Control hiding Response Call Answer

abbrev PlayerID := Nat

structure Player where
  id : PlayerID
  ownerID : UserID
  username : String
  serverIDs : List ServerID
  deriving DecidableEq

def validUsername (s : String) : Bool :=
  3 ≤ s.length && s.length ≤ 16 && s.toList.all fun c => c.isAlphanum || c = '_'

structure Roster where
  players : List Player
  servers : List GameServer

def Roster.live (r : Roster) (s : ServerID) : Bool := r.servers.any fun x => x.id = s && !x.deleted

def Roster.shown (r : Roster) (p : Player) : Player :=
  { p with serverIDs := p.serverIDs.filter r.live }

inductive PlayerStmt where
  | getByID (id : PlayerID)
  | listByOwner (owner : UserID)
  | update (id : PlayerID) (username : String) (serverIDs : List ServerID)
  deriving DecidableEq

inductive PlayerErr where
  | db (text : String)
  | notFound
  | uniqueViolation
  deriving DecidableEq

abbrev PlayerStmt.Result : PlayerStmt → Type
  | .getByID _ => Except PlayerErr Player
  | .listByOwner _ => Except PlayerErr (List GameServer)
  | .update _ _ _ => Except PlayerErr Unit

inductive PlayerResponse where
  | ok (p : Player)
  | badRequest (error : String)
  | notFound (error : String)
  | conflict (error : String)
  | internalError
  deriving DecidableEq

structure UpdatePlayerRequest where
  username : Option String
  serverIDs : Option (List ServerID)
  deriving DecidableEq

namespace PlayerHandler

abbrev Handler := Prog PlayerStmt PlayerStmt.Result

def query (e : PlayerStmt) : Handler e.Result := .call e .done

def ownedOr404 (caller : UserID) (id : PlayerID) : Handler (Option Player) := do
  match ← query (.getByID id) with
  | .error _ => return none
  | .ok p => if p.ownerID ≠ caller then return none else return some p

def picked (owned : List ServerID) : List ServerID → List ServerID → Option (List ServerID)
  | out, [] => some out
  | out, id :: rest =>
    if id ∈ out then picked owned out rest
    else if id ∉ owned then none
    else picked owned (out ++ [id]) rest

def validatedServerIDs (owner : UserID) (requested : List ServerID) :
    Handler (Except PlayerResponse (List ServerID)) :=
  if requested.length = 0 then return .ok []
  else do
    match ← query (.listByOwner owner) with
    | .error _ => return .error .internalError
    | .ok servers =>
      match picked (servers.map (·.id)) [] requested with
      | none => return .error (.badRequest "one or more server_ids are not your servers")
      | some out => return .ok out

def grants (p : Player) (req : UpdatePlayerRequest) :
    Handler (Except PlayerResponse (List ServerID)) :=
  match req.serverIDs with
  | some requested => validatedServerIDs p.ownerID requested
  | none => return .ok p.serverIDs

def update (caller : UserID) (id : PlayerID) (req : UpdatePlayerRequest) :
    Handler PlayerResponse := do
  match ← ownedOr404 caller id with
  | none => return .notFound "player not found"
  | some p =>
    if !req.username.all validUsername then
      return .badRequest "username must be 3–16 characters of letters, digits, or underscore"
    else
      match ← grants p req with
      | .error r => return r
      | .ok ids =>
        match ← query (.update p.id (req.username.getD p.username) ids) with
        | .error .uniqueViolation =>
          return .conflict "a player with that username already exists"
        | .error _ => return .internalError
        | .ok _ =>
          match ← query (.getByID p.id) with
          | .error _ => return .internalError
          | .ok updated => return .ok updated

end PlayerHandler

def insertGrants (ids : List ServerID) : List ServerID :=
  ids.foldl (fun out s => if s ∈ out then out else out ++ [s]) []

def Roster.taken (r : Roster) (id : PlayerID) (username : String) : Bool :=
  r.players.any fun p => p.id ≠ id && p.username = username &&
    r.players[id]?.any fun q => q.ownerID = p.ownerID

def Roster.perform (fault : Option String) : (e : PlayerStmt) → Roster → e.Result × Roster
  | .getByID id, r =>
    match fault with
    | some text => (.error (.db text), r)
    | none =>
      match r.players[id]? with
      | none => (.error .notFound, r)
      | some p => (.ok (r.shown p), r)
  | .listByOwner owner, r =>
    match fault with
    | some text => (.error (.db text), r)
    | none => (.ok (r.servers.filter (liveOf owner)), r)
  | .update id username ids, r =>
    match fault with
    | some text => (.error (.db text), r)
    | none =>
      if r.taken id username then (.error .uniqueViolation, r)
      else (.ok (), { r with
        players := r.players.modify id fun p => { p with username, serverIDs := insertGrants ids } })

structure PlayerPatch where
  caller : UserID
  id : PlayerID
  req : UpdatePlayerRequest
  deriving DecidableEq

/-- How far a PATCH of a player has got: what it has read of the player and of the owner's
servers, or that it has written. -/
inductive PlayerCopy where
  | asked
  | read (p : Player)
  | listed (p : Player) (owned : List ServerID)
  | wrote
  deriving DecidableEq

def notePlayer : PlayerCopy → (e : PlayerStmt) → e.Result → PlayerCopy
  | .asked, .getByID _, .ok p => .read p
  | .read p, .listByOwner _, .ok servers => .listed p (servers.map (·.id))
  | .read _, .update _ _ _, .ok _ => .wrote
  | .listed _ _, .update _ _ _, .ok _ => .wrote
  | st, _, _ => st

def playerPatches :
    System PlayerPatch PlayerCopy PlayerStmt PlayerStmt.Result PlayerResponse Roster
      (Option String) Empty where
  body j := PlayerHandler.update j.caller j.id j.req
  first _ := .asked
  note := notePlayer
  perform := Roster.perform
  other w _ := w.elim

abbrev PlayerPatches := Pool PlayerPatch PlayerCopy PlayerStmt PlayerStmt.Result PlayerResponse Roster

inductive PlayerField where
  | username | grants
  deriving DecidableEq

abbrev PlayerField.Value : PlayerField → Type
  | .username => Option String
  | .grants => Set ServerID

def playerView (id : PlayerID) (r : Roster) : (field : PlayerField) → field.Value
  | .username => r.players[id]?.map (·.username)
  | .grants => {s | ∃ p, r.players[id]? = some p ∧ s ∈ (r.shown p).serverIDs}

def PlayerPatch.given (id : PlayerID) (j : PlayerPatch) :
    (field : PlayerField) → Option field.Value
  | .username => if j.id = id then j.req.username.map some else none
  | .grants => if j.id = id then j.req.serverIDs.map fun ids => {s | s ∈ ids} else none

/-- Only the copy that was read fills what the request does not name, and the grants that the
request names are on servers that the owner was seen to have. -/
def granting : System.Conduct PlayerPatch PlayerCopy PlayerStmt PlayerResponse where
  allows j st e :=
    match e with
    | .getByID i => st = .asked → i = j.id
    | .listByOwner _ => ∃ p, st = .read p
    | .update i username ids => ∃ p, (st = .read p ∨ ∃ owned, st = .listed p owned) ∧ i = p.id ∧
        username = j.req.username.getD p.username ∧
        (j.req.serverIDs = none → ids = p.serverIDs) ∧
        ∀ requested, j.req.serverIDs = some requested →
          ∀ s, (s ∈ ids ↔ s ∈ requested) ∧
            (s ∈ ids → ∃ owned, st = .listed p owned ∧ s ∈ owned)
  answers _ st r := ∀ p, r = .ok p → st = .wrote

theorem picked_mem {owned out requested ids : List ServerID}
    (h : PlayerHandler.picked owned out requested = some ids) (ho : ∀ s ∈ out, s ∈ owned) :
    ∀ s, (s ∈ ids ↔ s ∈ out ∨ s ∈ requested) ∧ (s ∈ ids → s ∈ owned) := by
  induction requested generalizing out with
  | nil =>
    cases h
    exact fun s => ⟨by simp, ho s⟩
  | cons id rest ih =>
    simp only [PlayerHandler.picked] at h
    split at h
    · rename_i hm
      intro s
      obtain ⟨hi, hsu⟩ := ih h ho s
      refine ⟨hi.trans ?_, hsu⟩
      rw [mem_cons]
      constructor
      · exact Or.imp_right .inr
      rintro (hs | rfl | hs)
      · exact .inl hs
      · exact .inl hm
      · exact .inr hs
    · split at h
      · cases h
      rename_i hn hown
      have ho' : ∀ s ∈ out ++ [id], s ∈ owned := by
        intro s hs
        rcases mem_append.mp hs with hol | hid
        · exact ho s hol
        · rw [mem_singleton.mp hid]
          exact not_not.mp hown
      intro s
      obtain ⟨hi, hsu⟩ := ih h ho' s
      refine ⟨hi.trans ?_, hsu⟩
      simp only [mem_append, mem_cons, not_mem_nil, false_or, or_assoc]

theorem ownedOr404_shown (j : PlayerPatch) :
    (PlayerHandler.ownedOr404 j.caller j.id).Follows (granting.allows j) notePlayer
      (fun st o => ∀ p, o = some p → st = .read p) .asked := by
  refine ⟨fun _ => rfl, fun r => ?_⟩
  cases r with
  | error e => exact fun p h => by cases h
  | ok p =>
    by_cases ho : p.ownerID = j.caller
    · simp [ho, notePlayer]
    · simp [ho]

theorem grants_follows (j : PlayerPatch) (p : Player) :
    (PlayerHandler.grants p j.req).Follows (granting.allows j) notePlayer
      (fun st r => (∀ a, r = .error a → ∀ q, a ≠ .ok q) ∧ ∀ ids, r = .ok ids →
        granting.allows j st (.update p.id (j.req.username.getD p.username) ids)) (.read p) := by
  unfold PlayerHandler.grants
  split
  · rename_i requested hr
    unfold PlayerHandler.validatedServerIDs
    split
    · rename_i he
      rw [length_eq_zero_iff] at he
      subst he
      refine ⟨fun a h => (by cases h), fun ids h => ?_⟩
      cases h
      refine ⟨p, .inl rfl, rfl, rfl, fun hn => ?_, fun requested' hr' s => ?_⟩
      · rw [hr] at hn
        cases hn
      · rw [hr] at hr'
        cases hr'
        simp
    · refine ⟨⟨p, rfl⟩, fun r => ?_⟩
      cases r with
      | error e => exact ⟨fun a h => by cases h; simp, fun ids h => by cases h⟩
      | ok servers =>
        simp only [Prog.done_bind, Prog.pure_eq]
        split
        · exact ⟨fun a h => by cases h; simp, fun ids h => by cases h⟩
        rename_i out ho
        refine ⟨fun a h => (by cases h), fun ids h => ?_⟩
        cases h
        refine ⟨p, .inr ⟨_, rfl⟩, rfl, rfl, fun hn => ?_, fun requested' hr' s => ?_⟩
        · rw [hr] at hn
          cases hn
        rw [hr] at hr'
        cases hr'
        obtain ⟨hi, hsu⟩ := picked_mem ho (by simp) s
        exact ⟨by simpa using hi, fun hs => ⟨_, rfl, hsu hs⟩⟩
  · rename_i hr
    refine ⟨fun a h => (by cases h), fun ids h => ?_⟩
    cases h
    refine ⟨p, .inl rfl, rfl, rfl, fun _ => rfl, fun requested hr' => ?_⟩
    rw [hr] at hr'
    cases hr'

theorem update_grants (j : PlayerPatch) :
    (PlayerHandler.update j.caller j.id j.req).Follows (granting.allows j) notePlayer
      (granting.answers j) .asked := by
  apply Prog.Follows.bind
  refine (ownedOr404_shown j).mono fun st o hr => ?_
  cases o with
  | none => simp [granting]
  | some p =>
    rw [hr p rfl]
    dsimp only
    split
    · simp [granting]
    apply Prog.Follows.bind
    refine (grants_follows j p).mono fun st r ⟨hp, ha⟩ => ?_
    cases r with
    | error a => exact fun q h => absurd h (hp a rfl q)
    | ok ids =>
      refine ⟨ha ids rfl, fun r => ?_⟩
      obtain ⟨q, hs, -⟩ := ha ids rfl
      cases r with
      | error e => cases e <;> simp [granting]
      | ok u =>
        have hw : notePlayer st (.update p.id (j.req.username.getD p.username) ids) (.ok u) =
            .wrote := by
          rcases hs with rfl | ⟨owned, rfl⟩ <;> rfl
        rw [hw]
        refine ⟨fun h => (by cases h), fun r => ?_⟩
        cases r <;> simp [granting, notePlayer]

/-- What a copy may be relied on for: it is of the player that the request is about, and every
server in it is live. -/
def Seen (_ : Nat) (j : PlayerPatch) (st : PlayerCopy) (r : Roster) : Prop :=
  match st with
  | .asked => True
  | .read p => p.id = j.id ∧ ∀ s ∈ p.serverIDs, r.live s = true
  | .listed p owned => (p.id = j.id ∧ ∀ s ∈ p.serverIDs, r.live s = true) ∧
      ∀ s ∈ owned, r.live s = true
  | .wrote => True

structure Listed (id : PlayerID) (r : Roster) : Prop where
  numbered : ∀ (i : Nat) p, r.players[i]? = some p → p.id = i
  present : ∃ p, r.players[id]? = some p

def SameGrants (p q : Player) : Prop :=
  (∀ s ∈ p.serverIDs, s ∈ q.serverIDs) ∧ ∀ s ∈ q.serverIDs, s ∈ p.serverIDs

instance (p q : Player) : Decidable (SameGrants p q) := by
  unfold SameGrants
  infer_instance

def Unmoved (req : UpdatePlayerRequest) (copy row : Player) : Prop :=
  (req.username = none → row.username = copy.username) ∧
    (req.serverIDs = none → SameGrants row copy)

instance (req : UpdatePlayerRequest) (copy row : Player) : Decidable (Unmoved req copy row) := by
  unfold Unmoved
  infer_instance

/-- A handler about to write has a copy that is current but for what it is asked to change. -/
def CopyCurrent (r : Roster)
    (t : Thread PlayerPatch PlayerCopy PlayerStmt PlayerStmt.Result PlayerResponse) : Prop :=
  match t.stage, t.prog.next? with
  | .read copy, some (.update _ _ _) | .listed copy _, some (.update _ _ _) =>
    ∀ row ∈ r.players[t.job.id]?, Unmoved t.job.req copy (r.shown row)
  | _, _ => True

instance (r : Roster)
    (t : Thread PlayerPatch PlayerCopy PlayerStmt PlayerStmt.Result PlayerResponse) :
    Decidable (CopyCurrent r t) := by
  unfold CopyCurrent
  split <;> infer_instance

def CurrentPlayer (p : PlayerPatches) : Turn PlayerPatch (Option String) Empty → Prop
  | .turn i none => ∀ t ∈ p.threads[i]?, CopyCurrent p.shared t
  | _ => True

instance (p : PlayerPatches) (l : Turn PlayerPatch (Option String) Empty) :
    Decidable (CurrentPlayer p l) := by
  unfold CurrentPlayer
  split <;> infer_instance

section Steps

variable {id : PlayerID} {p p' : PlayerPatches} {l : Turn PlayerPatch (Option String) Empty}
    {fault : Option String} {e : PlayerStmt} {r : Roster} {ids : List ServerID} {i : Nat}
    {st : PlayerCopy} {j : PlayerPatch}

theorem mem_insertGrants (ids : List ServerID) (s : ServerID) : s ∈ insertGrants ids ↔ s ∈ ids := by
  have hfold : ∀ (ids out : List ServerID),
      s ∈ ids.foldl (fun out s => if s ∈ out then out else out ++ [s]) out ↔ s ∈ out ∨ s ∈ ids := by
    intro ids
    induction ids with
    | nil => simp
    | cons x ids ih =>
      intro out
      rw [foldl_cons, ih, mem_cons]
      split
      · rename_i hx
        constructor
        · exact Or.imp_right .inr
        rintro (hs | rfl | hs)
        · exact .inl hs
        · exact .inl hx
        · exact .inr hs
      · simp [or_assoc]
  simpa [insertGrants] using hfold ids []

theorem perform_update (fault : Option String) (i : PlayerID) (username : String)
    (ids : List ServerID) (r : Roster) :
    (∃ err, r.perform fault (.update i username ids) = (.error err, r)) ∨
      r.perform fault (.update i username ids) = (.ok (), { r with
        players := r.players.modify i fun p =>
          { p with username, serverIDs := insertGrants ids } }) := by
  cases fault with
  | some text => exact .inl ⟨.db text, rfl⟩
  | none =>
    simp only [Roster.perform]
    split
    · exact .inl ⟨.uniqueViolation, rfl⟩
    · exact .inr rfl

theorem perform_read (hr : ¬ ∃ i username ids, e = .update i username ids) :
    (r.perform fault e).2 = r := by
  cases e with
  | getByID i =>
    cases fault with
    | some text => rfl
    | none =>
      simp only [Roster.perform]
      split <;> rfl
  | listByOwner owner => cases fault <;> rfl
  | update i username ids => exact absurd ⟨i, username, ids, rfl⟩ hr

theorem perform_servers (fault : Option String) (e : PlayerStmt) (r : Roster) :
    (r.perform fault e).2.servers = r.servers := by
  by_cases hr : ∃ i username ids, e = .update i username ids
  · obtain ⟨i, username, ids, rfl⟩ := hr
    rcases perform_update fault i username ids r with ⟨err, he⟩ | he <;> rw [he]
  · rw [perform_read hr]

theorem Seen.of_servers (h : Seen i j st r) (hs : r'.servers = r.servers) : Seen i j st r' := by
  have hl : r'.live = r.live := by
    funext s
    simp [Roster.live, hs]
  unfold Seen at h ⊢
  rw [hl]
  exact h

theorem Seen.next {i : Nat} {j : PlayerPatch} {st : PlayerCopy} (fault : Option String)
    (h : Seen i j st r) (hl : Listed id r) (ha : granting.allows j st e) :
    Seen i j (notePlayer st e (r.perform fault e).1) r := by
  cases e with
  | getByID i' =>
    cases st with
    | asked =>
      obtain rfl : i' = j.id := ha rfl
      cases fault with
      | some text => trivial
      | none =>
        simp only [Roster.perform]
        split
        · trivial
        · rename_i p hp
          exact ⟨hl.numbered j.id p hp, fun s hs => (mem_filter.mp hs).2⟩
    | _ => exact h
  | listByOwner owner =>
    obtain ⟨p, rfl⟩ := ha
    cases fault with
    | some text => exact h
    | none =>
      refine ⟨h, fun s hs => ?_⟩
      obtain ⟨x, hx, rfl⟩ := mem_map.mp hs
      obtain ⟨hm, hli⟩ := mem_filter.mp hx
      simp only [liveOf, Bool.and_eq_true] at hli
      exact any_eq_true.mpr ⟨x, hm, by simp only [decide_true, hli.2, Bool.and_self]⟩
  | update i' username ids =>
    obtain ⟨p, hst, -⟩ := ha
    cases hr : (r.perform fault (.update i' username ids)).1 with
    | error text => rcases hst with rfl | ⟨owned, rfl⟩ <;> exact h
    | ok u => rcases hst with rfl | ⟨owned, rfl⟩ <;> trivial

theorem update_listed (h : Listed id r) (i : PlayerID) (username : String) (ids : List ServerID) :
    Listed id { r with
      players := r.players.modify i fun p => { p with username, serverIDs := insertGrants ids } } := by
  constructor
  · intro i' p hp
    rw [List.getElem?_modify] at hp
    obtain ⟨q, hq, rfl⟩ := Option.map_eq_some_iff.mp hp
    have hi := h.numbered i' q hq
    split <;> exact hi
  · obtain ⟨p, hp⟩ := h.present
    rw [List.getElem?_modify, hp]
    exact ⟨_, rfl⟩

theorem mem_grants {p : Player} (hp : r.players[id]? = some p) :
    s ∈ playerView id r .grants ↔ s ∈ p.serverIDs ∧ r.live s = true := by
  constructor
  · rintro ⟨q, hq, hs⟩
    rw [hp] at hq
    cases hq
    exact mem_filter.mp hs
  · intro h
    exact ⟨p, hp, mem_filter.mpr h⟩

/-- A PATCH that finds what it does not name as it has read it changes only what it names. -/
theorem update_view {copy row : Player} (hr : r.players[j.id]? = some row)
    (hc : Unmoved j.req copy (r.shown row)) (hco : ∀ s ∈ copy.serverIDs, r.live s = true)
    (hk : j.req.serverIDs = none → ids = copy.serverIDs)
    (hg : ∀ requested, j.req.serverIDs = some requested → ∀ s, (s ∈ ids ↔ s ∈ requested) ∧ (s ∈
      ids → r.live s = true)) (field : PlayerField) :
    playerView j.id { r with players := r.players.modify j.id fun p =>
        { p with username := j.req.username.getD copy.username, serverIDs := insertGrants ids } }
        field =
      (j.given j.id field).getD (playerView j.id r field) := by
  cases field with
  | username =>
    cases hn : j.req.username with
    | some v => simp [playerView, PlayerPatch.given, hr, hn]
    | none =>
      have hsa : row.username = copy.username := hc.1 hn
      simp [playerView, PlayerPatch.given, hr, hn, hsa]
  | grants =>
    have hge : (r.players.modify j.id fun p => { p with
        username := j.req.username.getD copy.username, serverIDs := insertGrants ids })[j.id]? =
        some { row with
          username := j.req.username.getD copy.username, serverIDs := insertGrants ids } := by
      simp [hr]
    ext s
    rw [mem_grants hge]
    change s ∈ insertGrants ids ∧ r.live s = true ↔ _
    rw [mem_insertGrants]
    cases hi : j.req.serverIDs with
    | some requested =>
      obtain ⟨hif, hsu⟩ := hg requested hi s
      have hv : (j.given j.id .grants).getD (playerView j.id r .grants) = {s | s ∈ requested} := by
        simp [PlayerPatch.given, hi]
      rw [hv]
      exact ⟨fun h => hif.mp h.1, fun h => ⟨hif.mpr h, hsu (hif.mpr h)⟩⟩
    | none =>
      obtain ⟨ht, hb⟩ := hc.2 hi
      have hv : (j.given j.id .grants).getD (playerView j.id r .grants) =
          playerView j.id r .grants := by
        simp [PlayerPatch.given, hi]
      rw [hv, hk hi, mem_grants hr]
      constructor
      · intro h
        exact mem_filter.mp (hb s h.1)
      · intro h
        have hs := ht s (mem_filter.mpr h)
        exact ⟨hs, hco s hs⟩

theorem notePlayer_wrote (hr : ¬ ∃ i username ids, e = .update i username ids) :
    notePlayer st e x = .wrote ↔ st = .wrote := by
  cases e with
  | getByID i | listByOwner owner => cases st <;> cases x <;> simp [notePlayer]
  | update i username ids => exact absurd ⟨_, _, _, rfl⟩ hr

theorem playerView_modify_ne (hn : i ≠ id) (g : Player → Player) :
    playerView id { r with players := r.players.modify i g } = playerView id r := by
  have hg : (r.players.modify i g)[id]? = r.players[id]? := by simp [hn]
  funext field
  cases field with
  | username =>
    change (r.players.modify i g)[id]?.map _ = _
    rw [hg]
    rfl
  | grants =>
    ext s
    change (∃ p, (r.players.modify i g)[id]? = some p ∧ _) ↔ _
    rw [hg]
    rfl

/-- The rows are in order, the requests keep to their conduct, and the player is as the
requests that have written make it. -/
structure Granting (id : PlayerID) (init : (field : PlayerField) → field.Value)
    (p : PlayerPatches) : Prop where
  holds : playerPatches.Holds granting (Listed id) Seen p
  patched : Patched init (p.Wrote (PlayerPatch.given id) (· = .wrote)) (playerView id p.shared)

theorem update_turn (hli : Listed id p.shared)
    (hi : p.threads[i]? = some ⟨j, st, .call (.update i' username ids) k⟩)
    (ha : granting.allows j st (.update i' username ids)) (hse : Seen i j st p.shared)
    (hl : CurrentPlayer p (.turn i none)) :
    let after := p.shared.perform none (.update i' username ids)
    ((notePlayer st (.update i' username ids) after.1 = .wrote ↔ st = .wrote) ∧
        playerView id after.2 = playerView id p.shared) ∨
      (notePlayer st (.update i' username ids) after.1 = .wrote ∧
        ∀ field, playerView id after.2 field =
          (j.given id field).getD (playerView id p.shared field)) := by
  obtain ⟨copy, hst, rfl, rfl, hk, hg⟩ := ha
  dsimp only
  rcases perform_update none copy.id (j.req.username.getD copy.username) ids p.shared with
    ⟨err, he⟩ | he
  · rw [he]
    left
    rcases hst with rfl | ⟨owned, rfl⟩ <;> simp [notePlayer]
  rw [he]
  right
  constructor
  · rcases hst with rfl | ⟨owned, rfl⟩ <;> rfl
  have hc : copy.id = j.id ∧ ∀ s ∈ copy.serverIDs, p.shared.live s = true := by
    rcases hst with rfl | ⟨owned, rfl⟩
    · exact hse
    · exact hse.1
  intro field
  rw [hc.1]
  by_cases hj : j.id = id
  · subst hj
    obtain ⟨row, hr⟩ := hli.present
    have hcu : Unmoved j.req copy (p.shared.shown row) := by
      have ht := hl _ hi
      rcases hst with rfl | ⟨owned, rfl⟩ <;> exact ht row hr
    refine update_view hr hcu hc.2 hk (fun requested hre s => ?_) field
    obtain ⟨hif, ho⟩ := hg requested hre s
    refine ⟨hif, fun hs => ?_⟩
    obtain ⟨owned, hlis, hm⟩ := ho hs
    rw [hlis] at hse
    exact hse.2 s hm
  · rw [playerView_modify_ne hj]
    cases field <;> simp [PlayerPatch.given, hj]

theorem Granting.step {init : (field : PlayerField) → field.Value} (h : Granting id init p)
    (hs : playerPatches.step p l = some p') (hl : CurrentPlayer p l) : Granting id init p' := by
  constructor
  · apply System.Holds.step h.holds update_grants hs
    · intro j _
      trivial
    · intro i fault j st e k _ _ ha hse
      have hser := perform_servers fault e p.shared
      refine ⟨?_, (hse.next fault h.holds.shared ha).of_servers hser,
        fun _ _ _ _ ho => ho.of_servers hser⟩
      by_cases hr : ∃ i username ids, e = .update i username ids
      · obtain ⟨i', username, ids, rfl⟩ := hr
        change Listed id (p.shared.perform fault _).2
        rcases perform_update fault i' username ids p.shared with ⟨err, he⟩ | he <;> rw [he]
        · exact h.holds.shared
        · exact update_listed h.holds.shared i' username ids
      change Listed id (p.shared.perform fault e).2
      rw [perform_read hr]
      exact h.holds.shared
    · intro w
      cases w
  · apply h.patched.step hs
    · intro j hj
      cases hj
    · intro i fault j st e k ht hi
      have ha : granting.allows j st e := (h.holds.keeps _ (mem_of_getElem? hi)).1
      have hse : Seen i j st p.shared := h.holds.threads i _ hi
      by_cases hr : ∃ i username ids, e = .update i username ids
      · obtain ⟨i', username, ids, rfl⟩ := hr
        cases fault with
        | some text =>
          obtain ⟨copy, hst, -⟩ := ha
          exact .inl ⟨by rcases hst with rfl | ⟨owned, rfl⟩ <;>
            simp [playerPatches, Roster.perform, notePlayer], rfl⟩
        | none =>
          subst ht
          exact update_turn h.holds.shared hi ha hse hl
      · exact .inl ⟨notePlayer_wrote hr, congrArg (playerView id) (perform_read hr)⟩
    · intro w
      cases w

theorem player_patched (hli : Listed id r0)
    (hr : Reaches playerPatches.step (fun q l _ => CurrentPlayer q l) ⟨r0, []⟩ p)
    (hd : ∀ t ∈ p.threads, t.job.id = id → ∃ q, t.prog.result? = some (.ok q)) :
    Patched (playerView id r0) (fun g => ∃ t ∈ p.threads, t.job.given id = g)
      (playerView id p.shared) := by
  have hn : ∀ g, ¬ Pool.Wrote (PlayerPatch.given id) (· = .wrote) (⟨r0, []⟩ : PlayerPatches) g :=
    fun g ⟨t, ht, _⟩ => by cases ht
  have hgr := hr.invariant (I := Granting id (playerView id r0))
    ⟨.start hli, .start hn⟩ fun q l q' hq hs hl => hq.step hs hl
  refine hgr.patched.extend (fun g ⟨t, ht, _, hg⟩ => ⟨t, ht, hg⟩) ?_
  rintro g ⟨t, ht, rfl⟩
  by_cases hi : t.job.id = id
  · obtain ⟨q, hq⟩ := hd t ht hi
    have hk := hgr.holds.keeps t ht
    rw [Prog.eq_done_of_result? hq] at hk
    exact .inl ⟨t, ht, hk q rfl, rfl⟩
  · exact .inr fun field => by cases field <;> simp [PlayerPatch.given, hi]

end Steps

/-- In runs in which every PATCH finds what it does not name as it has read it, any number of
them change what they name and nothing else, be it of a server or of a player. -/
theorem patches_touch_what_they_name (d : Deployment) (id : ServerID) (f0 : Fleet)
    (p : ServerPatches) (playerID : PlayerID) (r0 : Roster) (q : PlayerPatches) :
    (Keyed id f0.rows →
      Reaches (serverPatches d).step (fun p l _ => Current p l) ⟨f0, []⟩ p →
      (∀ t ∈ p.threads, t.job.id = id → ∃ s, t.prog.result? = some (.ok s)) →
      Patched (serverView id f0) (fun g => ∃ t ∈ p.threads, t.job.given id = g)
        (serverView id p.shared)) ∧
    (Listed playerID r0 →
      Reaches playerPatches.step (fun q l _ => CurrentPlayer q l) ⟨r0, []⟩ q →
      (∀ t ∈ q.threads, t.job.id = playerID → ∃ player, t.prog.result? = some (.ok player)) →
      Patched (playerView playerID r0) (fun g => ∃ t ∈ q.threads, t.job.given playerID = g)
        (playerView playerID q.shared)) :=
  ⟨fun hkeyed hrun hdone => server_patched hkeyed hrun hdone,
    fun hlisted hrun hdone => player_patched hlisted hrun hdone⟩

def oneRow : Fleet := { Fleet.init with rows := [oneServer.row 0] }

def onePlayer : Roster := ⟨[⟨0, 0, "alice", [0]⟩], [oneServer.row 0]⟩

def renameServer : ServerPatch := ⟨0, 0, ⟨some "t", none, none⟩⟩

def upgradeServer : ServerPatch := ⟨0, 0, ⟨none, some "1.22", none⟩⟩

def renamePlayer : PlayerPatch := ⟨0, 0, ⟨some "bob", none⟩⟩

def revokeGrants : PlayerPatch := ⟨0, 0, ⟨none, some []⟩⟩

theorem oneRow_keyed : Keyed 0 oneRow.rows := by
  refine ⟨fun i r hr => ?_, _, rfl⟩
  cases i with
  | zero => cases hr; rfl
  | succ i => cases hr

theorem onePlayer_listed : Listed 0 onePlayer := by
  refine ⟨fun i p hp => ?_, _, rfl⟩
  cases i with
  | zero => cases hp; rfl
  | succ i => cases hp

def rowReturned : Option Control.Response → Bool
  | some (.ok _) => true
  | _ => false

def playerReturned : Option PlayerResponse → Bool
  | some (.ok _) => true
  | _ => false

/-- One after the other, a rename and an upgrade, and a rename and a revocation, both take. -/
theorem patches_touch_what_they_name_in_turn : (∃ p : ServerPatches, Patched (serverView 0 oneRow)
      (fun g => ∃ t ∈ p.threads, t.job.given 0 = g) (serverView 0 p.shared) ∧
      p.threads.map (·.job) = [renameServer, upgradeServer]) ∧
    ∃ p : PlayerPatches, Patched (playerView 0 onePlayer)
      (fun g => ∃ t ∈ p.threads, t.job.given 0 = g) (playerView 0 p.shared) ∧
      p.threads.map (·.job) = [renamePlayer, revokeGrants] := by
  constructor
  · obtain ⟨p, hrun, hp⟩ := Reaches.exists_run (serverPatches oneHost).step
      (fun q l _ => Current q l) ⟨oneRow, []⟩
      [.start renameServer, .turn 0 none, .turn 0 none, .turn 0 none,
        .start upgradeServer, .turn 1 none, .turn 1 none, .turn 1 none]
      (fun p => decide (p.threads.map (·.job) = [renameServer, upgradeServer]) &&
        p.threads.all fun t => rowReturned t.prog.result?)
      (by decide +kernel)
    simp only [Bool.and_eq_true, decide_eq_true_eq, all_eq_true] at hp
    refine ⟨p, (patches_touch_what_they_name oneHost 0 oneRow p 0 onePlayer ⟨onePlayer, []⟩).1
      oneRow_keyed hrun ?_, hp.1⟩
    intro t ht _
    have hok := hp.2 t ht
    unfold rowReturned at hok
    split at hok
    · rename_i s hs
      exact ⟨s, hs⟩
    · cases hok
  · obtain ⟨p, hrun, hp⟩ := Reaches.exists_run playerPatches.step
      (fun q l _ => CurrentPlayer q l) ⟨onePlayer, []⟩
      [.start renamePlayer, .turn 0 none, .turn 0 none, .turn 0 none,
        .start revokeGrants, .turn 1 none, .turn 1 none, .turn 1 none]
      (fun p => decide (p.threads.map (·.job) = [renamePlayer, revokeGrants]) &&
        p.threads.all fun t => playerReturned t.prog.result?)
      (by decide +kernel)
    simp only [Bool.and_eq_true, decide_eq_true_eq, all_eq_true] at hp
    refine ⟨p, (patches_touch_what_they_name oneHost 0 oneRow ⟨oneRow, []⟩ 0 onePlayer p).2
      onePlayer_listed hrun ?_, hp.1⟩
    intro t ht _
    have hok := hp.2 t ht
    unfold playerReturned at hok
    split at hok
    · rename_i q hq
      exact ⟨q, hq⟩
    · cases hok

/-- Side by side they read before either writes. The rename of the server is lost, and the grant
that was revoked is back. -/
theorem patches_overwrite : (∃ p : ServerPatches,
      Reaches (serverPatches oneHost).step (fun _ _ _ => True) ⟨oneRow, []⟩ p ∧
      p.threads.map (·.job) = [renameServer, upgradeServer] ∧
      (p.threads.all fun t => match t.prog.result? with | some (.ok _) => true | _ => false) ∧
      serverView 0 p.shared .name = some "s") ∧
    ∃ p : PlayerPatches, Reaches playerPatches.step (fun _ _ _ => True) ⟨onePlayer, []⟩ p ∧
      p.threads.map (·.job) = [renamePlayer, revokeGrants] ∧
      (p.threads.all fun t => match t.prog.result? with | some (.ok _) => true | _ => false) ∧
      0 ∈ playerView 0 p.shared .grants := by
  constructor
  · exact Reaches.exists_check [.start renameServer, .start upgradeServer, .turn 0 none,
      .turn 1 none, .turn 0 none, .turn 1 none, .turn 0 none, .turn 1 none] (by decide +kernel)
  · obtain ⟨p, hrun, hp⟩ := Reaches.exists_run playerPatches.step
      (fun _ _ _ => True) ⟨onePlayer, []⟩
      [.start renamePlayer, .start revokeGrants, .turn 0 none, .turn 1 none, .turn 1 none,
        .turn 0 none, .turn 0 none, .turn 1 none]
      (fun p => decide (p.threads.map (·.job) = [renamePlayer, revokeGrants]) &&
        ((p.threads.all fun t => match t.prog.result? with | some (.ok _) => true | _ => false) &&
          p.shared.players[0]?.any fun q : Player => decide (0 ∈ q.serverIDs) && p.shared.live 0))
      (by decide +kernel)
    simp only [Bool.and_eq_true, decide_eq_true_eq, Option.any_eq_true] at hp
    obtain ⟨hjobs, hok, q, hq, hgrant⟩ := hp
    exact ⟨p, hrun, hjobs, hok, (mem_grants hq).mpr hgrant⟩

end Craftling.Api

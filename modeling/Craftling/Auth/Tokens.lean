import Craftling.Effects.Pool

namespace Craftling.Auth
open Effects

abbrev UserID := Nat
abbrev TokenID := Nat
abbrev Time := Nat

abbrev RawToken := Nat

structure TokenHash where
  raw : RawToken
  deriving DecidableEq

def hashRefreshToken (raw : RawToken) : TokenHash := ⟨raw⟩

structure AccessToken where
  userID : UserID
  issuedAt : Time
  deriving DecidableEq

structure RefreshToken where
  id : TokenID
  userID : UserID
  tokenHash : TokenHash
  expiresAt : Time
  revokedAt : Option Time
  deriving DecidableEq

def RefreshToken.revoked (t : RefreshToken) : Bool := t.revokedAt.isSome

def RefreshToken.expired (t : RefreshToken) (now : Time) : Bool := now > t.expiresAt

def RefreshToken.usable (t : RefreshToken) (now : Time) : Bool := !t.revoked && !t.expired now

inductive Err where
  | failed (text : String)
  | notFound
  deriving DecidableEq

/-- The statements and transactions that requests make, the clock they read and the tokens
they mint. -/
inductive Call where
  | now
  | mint (user : UserID) (now : Time)
  | getUser (id : UserID)
  | getByHash (hash : TokenHash)
  | create (user : UserID) (hash : TokenHash) (expiresAt : Time)
  | revoke (id : TokenID)
  | rotate (old : TokenID) (user : UserID) (hash : TokenHash) (expiresAt : Time)
  | revokeAllForUser (user : UserID)
  deriving DecidableEq

abbrev Answer : Call → Type
  | .now => Time
  | .mint _ _ => Except Err (AccessToken × RawToken)
  | .getUser _ => Except Err UserID
  | .getByHash _ => Except Err RefreshToken
  | .create _ _ _ | .revoke _ | .rotate _ _ _ _ | .revokeAllForUser _ => Except Err Unit

inductive Response where
  | tokens (access : AccessToken) (refresh : RawToken)
  | noContent
  | badRequest
  | unauthorized (error : String)
  | internalError
  deriving DecidableEq

structure Served where
  response : Response
  warned : Option UserID
  deriving DecidableEq

abbrev Handler := Prog Call Answer

def query (e : Call) : Handler (Answer e) := .call e .done

def answer (r : Response) : Handler Served := return ⟨r, none⟩

def issueTokens (ttl : Time) (user : UserID) : Handler Served := do
  let now ← query .now
  match ← query (.mint user now) with
  | .error _ => answer .internalError
  | .ok (access, raw) =>
    match ← query (.create user (hashRefreshToken raw) (now + ttl)) with
    | .error _ => answer .internalError
    | .ok _ => answer (.tokens access raw)

def exchange (ttl : Time) (rt : RefreshToken) : Handler Served := do
  let now ← query .now
  if rt.expired now then answer (.unauthorized "refresh token expired")
  else
    match ← query (.getUser rt.userID) with
    | .error _ => answer (.unauthorized "invalid refresh token")
    | .ok user =>
      match ← query (.mint user now) with
      | .error _ => answer .internalError
      | .ok (access, raw) =>
        match ← query (.rotate rt.id user (hashRefreshToken raw) (now + ttl)) with
        | .error _ => answer .internalError
        | .ok _ => answer (.tokens access raw)

/-- A token that was revoked already is taken for a stolen one. Whether the revocation of
the user's tokens came through is not looked at. -/
def refresh (ttl : Time) (token : Option RawToken) : Handler Served := do
  match token with
  | none => answer .badRequest
  | some raw =>
    match ← query (.getByHash (hashRefreshToken raw)) with
    | .error _ => answer (.unauthorized "invalid refresh token")
    | .ok rt =>
      if rt.revoked then
        let _ ← query (.revokeAllForUser rt.userID)
        return ⟨.unauthorized "invalid refresh token", some rt.userID⟩
      else exchange ttl rt

def logout (token : Option RawToken) : Handler Served := do
  match token with
  | none => answer .badRequest
  | some raw =>
    match ← query (.getByHash (hashRefreshToken raw)) with
    | .error _ => answer .noContent
    | .ok rt =>
      let _ ← query (.revoke rt.id)
      answer .noContent

def revokeAll (user : UserID) : Handler Served := do
  match ← query (.revokeAllForUser user) with
  | .error _ => answer .internalError
  | .ok _ => answer .noContent

inductive Request where
  | issueTokens (user : UserID)
  | refresh (token : Option RawToken)
  | logout (token : Option RawToken)
  | revokeAll (user : UserID)
  deriving DecidableEq

def Request.handler (ttl : Time) : Request → Handler Served
  | .issueTokens user => Auth.issueTokens ttl user
  | .refresh token => Auth.refresh ttl token
  | .logout token => Auth.logout token
  | .revokeAll user => Auth.revokeAll user

/-- A rotation that was committed, with whether the old token could still be used up. -/
structure Exchange where
  old : TokenID
  successor : TokenID
  active : Bool
  deriving DecidableEq

/-- `fresh` numbers the tokens that are minted and the rows that are inserted. -/
structure Store where
  tokens : List RefreshToken
  users : List UserID
  clock : Time
  fresh : Nat
  exchanges : List Exchange
  deriving DecidableEq

def Store.init : Store := ⟨[], [], 0, 0, []⟩

def Store.active (s : Store) (id : TokenID) : Bool := s.tokens.any fun t => t.id = id && !t.revoked

/-- An UPDATE that stamps the rows it selects, if they are not revoked yet. -/
def Store.revokeWhere (s : Store) (sel : RefreshToken → Bool) : Store :=
  { s with tokens := s.tokens.map fun t =>
      if sel t && !t.revoked then { t with revokedAt := some s.clock } else t }

def Store.insert (s : Store) (user : UserID) (hash : TokenHash) (expiresAt : Time) : Store :=
  { s with
    tokens := s.tokens ++ [⟨s.fresh, user, hash, expiresAt, none⟩]
    fresh := s.fresh + 1 }

/-- One transaction. It inserts the successor whether or not the old token was still to be
revoked. -/
def Store.rotate (s : Store) (old : TokenID) (user : UserID) (hash : TokenHash)
    (expiresAt : Time) : Store :=
  { (s.revokeWhere (·.id = old)).insert user hash expiresAt with
    exchanges := s.exchanges ++ [⟨old, s.fresh, s.active old⟩] }

def Store.getByHash (s : Store) (hash : TokenHash) : Except Err RefreshToken :=
  match s.tokens.find? (·.tokenHash = hash) with
  | none => .error .notFound
  | some t => .ok t

def Store.perform (fault : Option String) : (e : Call) → Store → Answer e × Store
  | .now, s => (s.clock, s)
  | .mint user now, s =>
    match fault with
    | some text => (.error (.failed text), s)
    | none => (.ok (⟨user, now⟩, s.fresh), { s with fresh := s.fresh + 1 })
  | .getUser id, s =>
    match fault with
    | some text => (.error (.failed text), s)
    | none => (if id ∈ s.users then .ok id else .error .notFound, s)
  | .getByHash hash, s =>
    match fault with
    | some text => (.error (.failed text), s)
    | none => (s.getByHash hash, s)
  | .create user hash expiresAt, s =>
    match fault with
    | some text => (.error (.failed text), s)
    | none => (.ok (), s.insert user hash expiresAt)
  | .revoke id, s =>
    match fault with
    | some text => (.error (.failed text), s)
    | none => (.ok (), s.revokeWhere (·.id = id))
  | .rotate old user hash expiresAt, s =>
    match fault with
    | some text => (.error (.failed text), s)
    | none => (.ok (), s.rotate old user hash expiresAt)
  | .revokeAllForUser user, s =>
    match fault with
    | some text => (.error (.failed text), s)
    | none => (.ok (), s.revokeWhere (·.userID = user))

inductive Event where
  | register (user : UserID)
  | wait (d : Time)
  | deleteExpired
  deriving DecidableEq

def Store.event (s : Store) : Event → Store
  | .register user => { s with users := user :: s.users }
  | .wait d => { s with clock := s.clock + d }
  | .deleteExpired => { s with tokens := s.tokens.filter fun t => !t.expired s.clock }

/-- How far a refresh has got: it has a token that was not revoked when it looked, it has a
revoked one, it has tried to revoke the user's tokens, or it is past all that. -/
inductive Stage where
  | asked
  | holds (rt : RefreshToken)
  | reused (user : UserID)
  | swept (user : UserID)
  | ended
  deriving DecidableEq

def Stage.next : Stage → (e : Call) → Answer e → Stage
  | .asked, .getByHash _, .ok rt => if rt.revoked then .reused rt.userID else .holds rt
  | .asked, .getByHash _, .error _ => .ended
  | .holds rt, .now, now => if rt.expired now then .ended else .holds rt
  | .holds _, .getUser _, .error _ => .ended
  | .holds _, .mint _ _, .error _ => .ended
  | .holds _, .rotate _ _ _ _, _ => .ended
  | .reused user, .revokeAllForUser _, _ => .swept user
  | st, _, _ => st

def auth (ttl : Time) : System Request Stage Call Answer Served Store (Option String) Event where
  body := Request.handler ttl
  first _ := .asked
  note := Stage.next
  perform := Store.perform
  other w s := some (s.event w)

abbrev Requests := Pool Request Stage Call Answer Served Store

end Craftling.Auth

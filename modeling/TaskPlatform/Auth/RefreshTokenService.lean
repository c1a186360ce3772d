import TaskPlatform.Library.Interleave
import TaskPlatform.Library.Table
import TaskPlatform.Basic

/-! `refresh_tokens` and `RefreshTokenService`. -/

namespace TaskPlatform.Auth
open Effects

/-- A row of `refresh_tokens`. -/
structure RefreshToken where
  id : Uuid
  userId : Uuid
  tokenHash : Sha256
  familyId : Uuid
  expiresAt : Date
  revokedAt : Option Date
  userAgent : Option String
  ip : Option String
  deriving DecidableEq

/-- What `tokens.create` fills in before the first save. -/
structure NewRefreshToken where
  userId : Uuid
  tokenHash : Sha256
  familyId : Uuid
  expiresAt : Date
  userAgent : Option String
  ip : Option String
  deriving DecidableEq

structure SessionContext where
  userAgent : Option String := none
  ip : Option String := none
  deriving DecidableEq

/-- What `"user_agent" varchar(512)` and `"ip" inet` reject; `inet` says which texts are read as an address. -/
def SessionContext.rejected (inet : String → Bool) (ctx : SessionContext) : Option DbError :=
  (ctx.userAgent.bind readError).or <|
    (ctx.ip.bind fun ip => if inet ip then none else some (.invalidText "inet")).or <| ctx.userAgent.bind (lengthError 512)

def RefreshToken.context (t : RefreshToken) : SessionContext := ⟨t.userAgent, t.ip⟩

def NewRefreshToken.context (n : NewRefreshToken) : SessionContext := ⟨n.userAgent, n.ip⟩

/-- The tables that a refresh token lives in: the token rows and the users they reference. -/
structure Tables where
  users : List Uuid
  tokens : List RefreshToken
  generated : Generated
  deriving DecidableEq

/-- The calls of the service on its repository. -/
inductive Call where
  | findOne (tokenHash : Sha256)
  | save (token : RefreshToken)
  | insert (token : NewRefreshToken)
  | updateByHash (tokenHash : Sha256) (revokedAt : Date)
  | updateByFamily (familyId : Uuid) (revokedAt : Date)
  deriving DecidableEq

abbrev Call.Reply : Call → Type
  | .findOne _ => Option RefreshToken
  | .save _ => RefreshToken
  | .insert _ => RefreshToken
  | .updateByHash _ _ => Unit
  | .updateByFamily _ _ => Unit

abbrev interface : Interface := ⟨Env, Call, Call.Reply, Err⟩

abbrev Service (α : Type) := Prog interface α

def RefreshToken.revoke (t : RefreshToken) (now : Date) : RefreshToken := { t with revokedAt := some now }

/-- The row that the insert of `n` adds. -/
def NewRefreshToken.toRow (n : NewRefreshToken) (id : Uuid) : RefreshToken :=
  { id, userId := n.userId, tokenHash := n.tokenHash, familyId := n.familyId, expiresAt := n.expiresAt,
    revokedAt := none, userAgent := n.userAgent.map (varchar 512), ip := n.ip }

namespace Tables

/-- `INSERT INTO refresh_tokens`, with the types of its columns and under its unique and foreign keys. -/
def insertToken (inet : String → Bool) (s : Tables) (row : RefreshToken) : Except Err RefreshToken × Tables :=
  match row.context.rejected inet with
  | some e => (.error (.db e), s)
  | none =>
    if Table.has RefreshToken.tokenHash row.tokenHash s.tokens then
      (.error (.db (.unique "UQ_refresh_tokens_token_hash")), s)
    else if !s.users.contains row.userId then
      (.error (.db (.foreignKey "FK_refresh_tokens_user")), s)
    else (.ok row, { s with tokens := s.tokens ++ [row] })

/-- `save` of a loaded entity: its row takes the entity's columns, and comes back if it is gone. -/
def saveToken (inet : String → Bool) (s : Tables) (t : RefreshToken) : Except Err RefreshToken × Tables :=
  if Table.has RefreshToken.id t.id s.tokens then
    (.ok t, { s with tokens := Table.replace RefreshToken.id t s.tokens })
  else s.insertToken inet t

/-- `update({ ..., revokedAt: IsNull() }, { revokedAt: now })`. -/
def revokeWhere (s : Tables) (p : RefreshToken → Bool) (now : Date) : Tables :=
  { s with tokens := s.tokens.map fun r => if p r && r.revokedAt.isNone then r.revoke now else r }

end Tables

def exec (inet : String → Bool) : Handler interface Tables := fun env c s =>
  match c with
  | .findOne h => (.ok (s.tokens.find? (·.tokenHash == h)), s)
  | .save t => s.saveToken inet t
  | .insert n => s.insertToken inet (n.toRow env.uuid)
  | .updateByHash h now => (.ok (), s.revokeWhere (·.tokenHash == h) now)
  | .updateByFamily f now => (.ok (), s.revokeWhere (·.familyId == f) now)

/-! ### The service -/

/-- What `rotate` resolves to. -/
structure Rotated where
  userId : Uuid
  rawToken : RawToken
  deriving DecidableEq

namespace RefreshTokenService

def hashToken (raw : RawToken) : Sha256 := ⟨raw⟩

def createToken (ttlMs : Int) (userId familyId : Uuid) (ctx : SessionContext) : Service RawToken := do
  let raw ← Prog.read Env.random
  let now ← Prog.read Env.now
  let _ ← Prog.perform (I := interface) <| .insert
    { userId, familyId, tokenHash := hashToken raw, expiresAt := now + ttlMs,
      userAgent := ctx.userAgent, ip := ctx.ip }
  return raw

/-- Starts a fresh session (new family) and returns the raw refresh token. -/
def issueForNewSession (ttlMs : Int) (userId : Uuid) (ctx : SessionContext) : Service RawToken := do
  let familyId ← Prog.read Env.uuid
  createToken ttlMs userId familyId ctx

def revokeFamily (familyId : Uuid) : Service Unit := do
  let now ← Prog.read Env.now
  Prog.perform (I := interface) (.updateByFamily familyId now)

/-- Rotates a refresh token: unknown, already revoked and expired tokens are rejected, a valid token is
    revoked and the next one of its family minted. -/
def rotate (ttlMs : Int) (rawToken : RawToken) (ctx : SessionContext) : Service Rotated := do
  let current ← Prog.perform (I := interface) (.findOne (hashToken rawToken))
  match current with
  | none => .throw (.unauthorized "Invalid refresh token")
  | some current =>
    if current.revokedAt.isSome then do
      revokeFamily current.familyId
      .throw (.unauthorized "Refresh token reuse detected")
    else do
      let now ← Prog.read Env.now
      if current.expiresAt < now then
        .throw (.unauthorized "Refresh token expired")
      else do
        let revokedAt ← Prog.read Env.now
        let _ ← Prog.perform (I := interface) (.save (current.revoke revokedAt))
        let nextRaw ← createToken ttlMs current.userId current.familyId ctx
        return { userId := current.userId, rawToken := nextRaw }

/-- Revokes a single token (logout). -/
def revoke (rawToken : RawToken) : Service Unit := do
  let now ← Prog.read Env.now
  Prog.perform (I := interface) (.updateByHash (hashToken rawToken) now)

end RefreshTokenService

/-! ### Calls in flight -/

inductive Request where
  | issueForNewSession (userId : Uuid) (ctx : SessionContext)
  | rotate (rawToken : RawToken) (ctx : SessionContext)
  | revoke (rawToken : RawToken)
  deriving DecidableEq

/-- What a call resolves to. -/
inductive Response where
  | issued (rawToken : RawToken)
  | rotated (r : Rotated)
  | revoked
  deriving DecidableEq

def program (ttlMs : Int) : Request → Service Response
  | .issueForNewSession userId ctx => return .issued (← RefreshTokenService.issueForNewSession ttlMs userId ctx)
  | .rotate raw ctx => return .rotated (← RefreshTokenService.rotate ttlMs raw ctx)
  | .revoke raw => do
    RefreshTokenService.revoke raw
    return .revoked

/-- Calls of `RefreshTokenService` in flight on the tables; refresh tokens live for `ttlMs`. -/
def system (inet : String → Bool) (ttlMs : Int) : System interface Tables Request Response where
  exec := exec inet
  program := program ttlMs
  fault := .unavailable
  admits s env := s.generated.admits env
  spend s env := { s with generated := s.generated.spend env }

end TaskPlatform.Auth

import TaskPlatform.Auth.RefreshTokenService
import TaskPlatform.Library.Faults
import TaskPlatform.Library.Lift

/-! `AuthService.refresh`: a rotation, and then the check of the user. -/

namespace TaskPlatform.Auth
open Effects

/-- A row of `users`, less its password hash and its times. -/
structure User where
  id : Uuid
  email : String
  name : String
  isActive : Bool
  deriving DecidableEq

/-- `users` and `refresh_tokens`. -/
structure Store where
  users : List User
  tokens : List RefreshToken
  generated : Generated
  deriving DecidableEq

/-- What `RefreshTokenService` sees of them. -/
def Store.tables (s : Store) : Tables := ⟨s.users.map User.id, s.tokens, s.generated⟩

/-- What an access token says. -/
structure JwtPayload where
  sub : Uuid
  email : String
  deriving DecidableEq

structure AuthResponseUser where
  id : Uuid
  email : String
  name : String
  deriving DecidableEq

structure AuthResponseDto where
  tokenType : String
  accessToken : String
  refreshToken : RawToken
  user : AuthResponseUser
  deriving DecidableEq

namespace AuthService

inductive Call where
  | tokens (c : Auth.Call)
  | findById (id : Uuid)
  deriving DecidableEq

abbrev Call.Reply : Call → Type
  | .tokens c => c.Reply
  | .findById _ => Option User

abbrev interface : Interface := ⟨Env, Call, Call.Reply, Err⟩

abbrev Service (α : Type) := Prog interface α

def exec (inet : String → Bool) : Handler interface Store := fun env c s =>
  match c with
  | .tokens c =>
    let a := Auth.exec inet env c s.tables
    (a.1, { s with tokens := a.2.tokens })
  | .findById id => (.ok (s.users.find? (·.id = id)), s)

/-- A program of `RefreshTokenService`. -/
def ofTokens {α : Type} (p : Auth.Service α) : Service α := p.lift Call.tokens fun _ a => a

def toResponse (user : User) (accessToken : String) (refreshToken : RawToken) : AuthResponseDto :=
  { tokenType := "Bearer", accessToken, refreshToken, user := { id := user.id, email := user.email, name := user.name } }

/-- `sign` is `JwtService.signAsync`. -/
def refresh (sign : JwtPayload → String) (ttlMs : Int) (rawRefreshToken : RawToken) (ctx : SessionContext) :
    Service AuthResponseDto := do
  let rotated ← ofTokens (RefreshTokenService.rotate ttlMs rawRefreshToken ctx)
  let user ← Prog.perform (I := interface) (.findById rotated.userId)
  match user with
  | none => .throw (.unauthorized "Invalid session")
  | some user =>
    if !user.isActive then .throw (.unauthorized "Invalid session")
    else return toResponse user (sign { sub := user.id, email := user.email }) rotated.rawToken

/-- Calls of `refresh` on the tables. -/
def system (sign : JwtPayload → String) (inet : String → Bool) (ttlMs : Int) :
    System interface Store (RawToken × SessionContext) AuthResponseDto where
  exec := exec inet
  program r := refresh sign ttlMs r.1 r.2
  fault := .unavailable
  admits s env := s.generated.admits env
  spend s env := { s with generated := s.generated.spend env }

end AuthService
end TaskPlatform.Auth

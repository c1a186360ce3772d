import TaskPlatform.Auth.AuthService

/-! Accounts and their sessions: `UsersService`, `PasswordService`, the rest of `AuthService`, and the requests of
    `AuthController` and `UsersController`. -/

namespace TaskPlatform.Auth
open Effects

/-- What a query loads of a row of `users` by default: `password_hash` is not selected. -/
structure UserEntity extends User where
  createdAt : Timestamptz
  deriving DecidableEq

/-- A row of `users`, less `updated_at`. -/
structure UserAccount extends UserEntity where
  passwordHash : String
  deriving DecidableEq

structure CreateUserInput where
  email : String
  name : String
  passwordHash : String
  deriving DecidableEq

structure SignupDto where
  email : String
  name : String
  password : String
  deriving DecidableEq

structure LoginDto where
  email : String
  password : String
  deriving DecidableEq

/-- What lies outside: `citext` folds what it compares, argon2 hashes under a salt, `JwtService.signAsync` signs,
    and `inet` says which texts are read as an address. -/
structure Outside where
  citext : String → String
  hash : (salt password : String) → String
  verify : (hash password : String) → Except Err Bool
  sign : JwtPayload → String
  inet : String → Bool

/-- `users` and `refresh_tokens`. -/
structure Registry where
  accounts : List UserAccount
  tokens : List RefreshToken
  generated : Generated
  deriving DecidableEq

/-- What `RefreshTokenService` sees of them. -/
def Registry.tables (s : Registry) : Tables := ⟨s.accounts.map fun a => a.id, s.tokens, s.generated⟩

/-- What `"email" citext`, `"password_hash" varchar(255)` and `"name" varchar(255)` reject. A hash of argon2 ends in no
    spaces that could be cut. -/
def CreateUserInput.rejected (n : CreateUserInput) : Option DbError :=
  (readError n.email).or <| (readError n.passwordHash).or <| (readError n.name).or <|
    (if n.passwordHash.toList.length ≤ 255 then none else some (.valueTooLong 255)).or <| lengthError 255 n.name

/-- The entity that a user is saved from, with what the insert returns: it is active by default. -/
def CreateUserInput.toEntity (n : CreateUserInput) (env : Env) : UserAccount :=
  { id := env.uuid, email := n.email, name := n.name, isActive := true, createdAt := env.dbNow,
    passwordHash := n.passwordHash }

/-- The row that the insert adds. -/
def CreateUserInput.toRow (n : CreateUserInput) (env : Env) : UserAccount :=
  { n.toEntity env with name := varchar 255 n.name }

namespace Accounts

/-- The calls of the services: on their repositories, on argon2 and on `JwtService`. -/
inductive Call where
  | tokens (c : Auth.Call)
  | findById (id : Uuid)
  | countByEmail (email : String)
  | findByEmailWithSecret (email : String)
  | insertUser (user : CreateUserInput)
  | hash (password : String)
  | verify (hash password : String)
  | sign (payload : JwtPayload)
  deriving DecidableEq

abbrev Call.Reply : Call → Type
  | .tokens c => c.Reply
  | .findById _ => Option UserEntity
  | .countByEmail _ => Nat
  | .findByEmailWithSecret _ => Option UserAccount
  | .insertUser _ => UserAccount
  | .hash _ => String
  | .verify _ _ => Bool
  | .sign _ => String

abbrev interface : Interface := ⟨Env, Call, Call.Reply, Err⟩

abbrev Service (α : Type) := Prog interface α

end Accounts

/-- `"email" = $1` compares as `citext` does. -/
def Outside.SameEmail (out : Outside) (e e' : String) : Prop := out.citext e = out.citext e'

instance (out : Outside) (e e' : String) : Decidable (out.SameEmail e e') :=
  inferInstanceAs (Decidable (out.citext e = out.citext e'))

/-- `INSERT INTO users`, with the types of its columns and under its unique key. -/
def Registry.insertUser (out : Outside) (s : Registry) (n : CreateUserInput) (env : Env) :
    Except Err UserAccount × Registry :=
  match n.rejected with
  | some e => (.error (.db e), s)
  | none =>
    if s.accounts.any fun a => out.SameEmail a.email n.email then (.error (.db (.unique "UQ_users_email")), s)
    else (.ok (n.toEntity env), { s with accounts := s.accounts ++ [n.toRow env] })

def Accounts.exec (out : Outside) : Handler Accounts.interface Registry := fun env c s =>
  match c with
  | .tokens c =>
    let a := Auth.exec out.inet env c s.tables
    (a.1, { s with tokens := a.2.tokens })
  | .findById id => (.ok ((s.accounts.find? (·.id = id)).map UserAccount.toUserEntity), s)
  | .countByEmail email => (.ok (s.accounts.countP fun a => out.SameEmail a.email email), s)
  | .findByEmailWithSecret email => (.ok (s.accounts.find? fun a => out.SameEmail a.email email), s)
  | .insertUser n => s.insertUser out n env
  | .hash password => (.ok (out.hash env.random password), s)
  | .verify hash password => (out.verify hash password, s)
  | .sign payload => (.ok (out.sign payload), s)

/-! ### The services -/

namespace UsersService

def create (input : CreateUserInput) : Accounts.Service UserAccount := Prog.perform (I := Accounts.interface) (.insertUser input)

def findById (id : Uuid) : Accounts.Service (Option UserEntity) := Prog.perform (I := Accounts.interface) (.findById id)

def findByEmailWithSecret (email : String) : Accounts.Service (Option UserAccount) :=
  Prog.perform (I := Accounts.interface) (.findByEmailWithSecret email)

def existsByEmail (email : String) : Accounts.Service Bool := do
  let n ← Prog.perform (I := Accounts.interface) (.countByEmail email)
  return decide (0 < n)

end UsersService

namespace PasswordService

def hash (password : String) : Accounts.Service String := Prog.perform (I := Accounts.interface) (.hash password)

/-- Whatever argon2 throws counts as a wrong password. -/
def verify (hash password : String) : Accounts.Service Bool :=
  (Prog.perform (I := Accounts.interface) (.verify hash password)).handle fun _ => .ret false

end PasswordService

namespace AuthService

/-- The calls of a rotation and of its check, on the tables of the accounts. -/
def Call.onAccounts : Call → Accounts.Call
  | .tokens c => .tokens c
  | .findById id => .findById id

def Call.fromAccounts : (c : Call) → c.onAccounts.Reply → c.Reply
  | .tokens _, a => a
  | .findById _, user => user.map UserEntity.toUser

/-- A program of `refresh`. -/
def ofSession {α : Type} (p : Service α) : Accounts.Service α := p.lift Call.onAccounts Call.fromAccounts

/-- A program of `RefreshTokenService`. -/
def ofTokenService {α : Type} (p : Auth.Service α) : Accounts.Service α := p.lift Accounts.Call.tokens fun _ a => a

def signAccessToken (user : User) : Accounts.Service String :=
  Prog.perform (I := Accounts.interface) (.sign { sub := user.id, email := user.email })

def issueTokens (ttlMs : Int) (user : User) (ctx : SessionContext) : Accounts.Service AuthResponseDto := do
  let accessToken ← signAccessToken user
  let refreshToken ← ofTokenService (RefreshTokenService.issueForNewSession ttlMs user.id ctx)
  return toResponse user accessToken refreshToken

def signup (ttlMs : Int) (dto : SignupDto) (ctx : SessionContext) : Accounts.Service AuthResponseDto := do
  if ← UsersService.existsByEmail dto.email then
    .throw (.conflict "Email already registered")
  else do
    let passwordHash ← PasswordService.hash dto.password
    let user ← UsersService.create { email := dto.email, name := dto.name, passwordHash }
    issueTokens ttlMs user.toUser ctx

def login (ttlMs : Int) (dto : LoginDto) (ctx : SessionContext) : Accounts.Service AuthResponseDto := do
  let user ← UsersService.findByEmailWithSecret dto.email
  match user with
  | none => .throw (.unauthorized "Invalid credentials")
  | some user =>
    if !user.isActive then .throw (.unauthorized "Invalid credentials")
    else do
      let ok ← PasswordService.verify user.passwordHash dto.password
      if !ok then .throw (.unauthorized "Invalid credentials")
      else issueTokens ttlMs user.toUser ctx

def logout (rawRefreshToken : RawToken) : Accounts.Service Unit :=
  ofTokenService (RefreshTokenService.revoke rawRefreshToken)

end AuthService

/-- `GET /users/me`, of the user whom the access token names. -/
def UsersController.me (userId : Uuid) : Accounts.Service UserEntity := do
  let user ← UsersService.findById userId
  match user with
  | none => .throw (.notFound "User not found")
  | some user => return user

/-! ### Requests -/

namespace Accounts

inductive Request where
  | signup (dto : SignupDto) (ctx : SessionContext)
  | login (dto : LoginDto) (ctx : SessionContext)
  | refresh (rawRefreshToken : RawToken) (ctx : SessionContext)
  | logout (rawRefreshToken : RawToken)
  | me (userId : Uuid)
  deriving DecidableEq

inductive Response where
  | session (response : AuthResponseDto)
  | loggedOut
  | profile (user : UserEntity)
  deriving DecidableEq

def program (out : Outside) (ttlMs : Int) : Request → Service Response
  | .signup dto ctx => return .session (← AuthService.signup ttlMs dto ctx)
  | .login dto ctx => return .session (← AuthService.login ttlMs dto ctx)
  | .refresh raw ctx => return .session (← AuthService.ofSession (AuthService.refresh out.sign ttlMs raw ctx))
  | .logout raw => do
    AuthService.logout raw
    return .loggedOut
  | .me userId => return .profile (← UsersController.me userId)

/-- Requests in flight on the tables. -/
def system (out : Outside) (ttlMs : Int) : System interface Registry Request Response where
  exec := exec out
  program := program out ttlMs
  fault := .unavailable
  admits s env := s.generated.admits env
  spend s env := { s with generated := s.generated.spend env }

abbrev State := Config interface Registry Request Response

end Accounts
end TaskPlatform.Auth

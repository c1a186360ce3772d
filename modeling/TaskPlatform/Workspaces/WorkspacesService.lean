import TaskPlatform.Library.Interleave
import TaskPlatform.Library.Table
import TaskPlatform.Basic

/-! `workspaces`, `workspace_members`, `workspace_invitations` and the membership caches, with the
    membership operations of `WorkspacesService` and `InvitationsService.accept`. The ids of a URL come as the client
    writes them; the database compares uuids, the service and its cache compare texts. -/

namespace TaskPlatform.Workspaces
open Effects

inductive InvitationStatus where
  | PENDING
  | ACCEPTED
  | EXPIRED
  | REVOKED
  deriving DecidableEq, Repr

structure Workspace where
  id : Uuid
  name : String
  slug : String
  ownerId : Uuid
  deriving DecidableEq

/-- A row of `workspace_members`. -/
structure WorkspaceMember where
  id : Uuid
  workspaceId : Uuid
  userId : Uuid
  role : WorkspaceRole
  joinedAt : Date
  deriving DecidableEq

/-- A row of `workspace_invitations`. -/
structure WorkspaceInvitation where
  id : Uuid
  workspaceId : Uuid
  email : String
  role : WorkspaceRole
  token : String
  status : InvitationStatus
  invitedBy : Uuid
  expiresAt : Date
  deriving DecidableEq

/-- What `memberRepo.create` fills in before the first save. -/
structure NewMember where
  workspaceId : Uuid
  userId : Uuid
  role : WorkspaceRole
  deriving DecidableEq

def NewMember.toRow (n : NewMember) (env : Env) : WorkspaceMember :=
  { id := env.uuid, workspaceId := n.workspaceId, userId := n.userId, role := n.role, joinedAt := env.dbNow.toDate }

/-- The key `membership:<workspaceId>:<userId>` in the cache of one API process, made of the ids as the request spells
    them. -/
structure MembershipKey where
  process : Nat
  workspaceId : UuidText
  userId : UuidText
  deriving DecidableEq

structure CacheEntry where
  key : MembershipKey
  membership : WorkspaceMember
  expiresAt : Date
  deriving DecidableEq

structure Tables where
  users : List Uuid
  workspaces : List Workspace
  members : List WorkspaceMember
  invitations : List WorkspaceInvitation
  caches : List CacheEntry
  generated : Generated
  deriving DecidableEq

/-- Membership cache TTL (ms). -/
def MEMBERSHIP_TTL_MS : Int := 30000

/-- The calls of the services on their repositories and on the cache. `commitAccept` is the commit of
    the transaction of `accept`: its writes, which nobody sees before. -/
inductive Call where
  | findWorkspace (id : Uuid)
  | findMember (workspaceId userId : Uuid)
  | saveMember (m : WorkspaceMember)
  | removeMember (m : WorkspaceMember)
  | cacheGet (key : MembershipKey)
  | cacheSet (key : MembershipKey) (m : WorkspaceMember)
  | cacheDel (key : MembershipKey)
  | findInvitation (token : String)
  | saveInvitation (inv : WorkspaceInvitation)
  | commitAccept (new : Option NewMember) (inv : WorkspaceInvitation)
  deriving DecidableEq

abbrev Call.Reply : Call → Type
  | .findWorkspace _ => Option Workspace
  | .findMember _ _ => Option WorkspaceMember
  | .saveMember _ => WorkspaceMember
  | .removeMember _ => Unit
  | .cacheGet _ => Option WorkspaceMember
  | .cacheSet _ _ => Unit
  | .cacheDel _ => Unit
  | .findInvitation _ => Option WorkspaceInvitation
  | .saveInvitation _ => Unit
  | .commitAccept _ _ => Option WorkspaceMember

def Call.onCache : Call → Bool
  | .cacheGet _ | .cacheSet _ _ | .cacheDel _ => true
  | _ => false

abbrev interface : Interface := ⟨Env, Call, Call.Reply, Err⟩

abbrev Service (α : Type) := Prog interface α

namespace Tables

/-- `findOne({ where: { workspaceId, userId } })`. -/
def member? (s : Tables) (w u : Uuid) : Option WorkspaceMember :=
  s.members.find? fun r => r.workspaceId == w && r.userId == u

/-- `INSERT INTO workspace_members`, under its unique and foreign keys. -/
def insertMember (s : Tables) (row : WorkspaceMember) : Except Err Tables :=
  if (s.member? row.workspaceId row.userId).isSome then
    .error (.db (.unique "UQ_workspace_members_ws_user"))
  else if !Table.has Workspace.id row.workspaceId s.workspaces then
    .error (.db (.foreignKey "FK_workspace_members_workspace"))
  else if !s.users.contains row.userId then
    .error (.db (.foreignKey "FK_workspace_members_user"))
  else .ok { s with members := s.members ++ [row] }

/-- `save` of a loaded membership: its row takes the entity's columns, and comes back if it is gone. -/
def saveMember (s : Tables) (m : WorkspaceMember) : Except Err Tables :=
  if Table.has WorkspaceMember.id m.id s.members then
    .ok { s with members := Table.replace WorkspaceMember.id m s.members }
  else s.insertMember m

/-- `save` of a loaded invitation that is no longer pending. -/
def saveInvitation (s : Tables) (inv : WorkspaceInvitation) : Except Err Tables :=
  if Table.has WorkspaceInvitation.id inv.id s.invitations then
    .ok { s with invitations := Table.replace WorkspaceInvitation.id inv s.invitations }
  else if Table.has WorkspaceInvitation.token inv.token s.invitations then
    .error (.db (.unique "UQ_workspace_invitations_token"))
  else if !Table.has Workspace.id inv.workspaceId s.workspaces then
    .error (.db (.foreignKey "FK_workspace_invitations_workspace"))
  else if !s.users.contains inv.invitedBy then
    .error (.db (.foreignKey "FK_workspace_invitations_inviter"))
  else .ok { s with invitations := s.invitations ++ [inv] }

/-- The transaction of `accept`: all of its writes or none. -/
def commitAccept (s : Tables) (env : Env) (new : Option NewMember) (inv : WorkspaceInvitation) :
    Except Err (Option WorkspaceMember × Tables) :=
  match new with
  | none => (s.saveInvitation inv).map fun s => (none, s)
  | some n => do
    let s ← s.insertMember (n.toRow env)
    let s ← s.saveInvitation inv
    return (some (n.toRow env), s)

def cached? (s : Tables) (key : MembershipKey) : Option CacheEntry := s.caches.find? (·.key == key)

/-- A write that an error leaves without effect. -/
def commit {α : Type} (s : Tables) : Except Err (α × Tables) → Except Err α × Tables
  | .ok (a, s') => (.ok a, s')
  | .error e => (.error e, s)

end Tables

def exec : Handler interface Tables := fun env c s =>
  match c with
  | .findWorkspace id => (.ok (s.workspaces.find? (·.id == id)), s)
  | .findMember w u => (.ok (s.member? w u), s)
  | .saveMember m => s.commit ((s.saveMember m).map fun s => (m, s))
  | .removeMember m => (.ok (), { s with members := s.members.filter (·.id != m.id) })
  | .cacheGet key => (.ok (((s.cached? key).filter (env.now ≤ ·.expiresAt)).map CacheEntry.membership), s)
  | .cacheSet key m =>
    (.ok (), { s with caches := ⟨key, m, env.now + MEMBERSHIP_TTL_MS⟩ :: s.caches.filter (·.key != key) })
  | .cacheDel key => (.ok (), { s with caches := s.caches.filter (·.key != key) })
  | .findInvitation token => (.ok (s.invitations.find? (·.token == token)), s)
  | .saveInvitation inv => s.commit ((s.saveInvitation inv).map fun s => ((), s))
  | .commitAccept new inv => s.commit (s.commitAccept env new inv)

/-! ### The services -/

namespace WorkspacesService

def perform (c : Call) : Service c.Reply := Prog.perform (I := interface) c

def findByIdOrFail (id : UuidText) : Service Workspace := do
  let workspace ← perform (.findWorkspace id.uuid)
  match workspace with
  | some workspace => return workspace
  | none => .throw (.notFound "Workspace not found")

def membershipKey (process : Nat) (workspaceId userId : UuidText) : MembershipKey := ⟨process, workspaceId, userId⟩

/-- Resolves a user's membership, cache-aside: only memberships that exist are cached. -/
def getMembership (process : Nat) (workspaceId userId : UuidText) : Service (Option WorkspaceMember) := do
  let key := membershipKey process workspaceId userId
  let cached ← perform (.cacheGet key)
  match cached with
  | some m => return some m
  | none => do
    let membership ← perform (.findMember workspaceId.uuid userId.uuid)
    match membership with
    | some m => do
      let _ ← perform (.cacheSet key m)
      return some m
    | none => return none

def updateMemberRole (process : Nat) (workspaceId targetUserId : UuidText) (role : WorkspaceRole) :
    Service WorkspaceMember := do
  let workspace ← findByIdOrFail workspaceId
  if workspace.ownerId.text = targetUserId then
    .throw (.forbidden "The workspace owner role cannot be changed")
  else do
    let membership ← perform (.findMember workspaceId.uuid targetUserId.uuid)
    match membership with
    | none => .throw (.notFound "Member not found")
    | some membership => do
      let saved ← perform (.saveMember { membership with role := role })
      let _ ← perform (.cacheDel (membershipKey process workspaceId targetUserId))
      return saved

def removeMember (process : Nat) (workspaceId targetUserId : UuidText) : Service Unit := do
  let workspace ← findByIdOrFail workspaceId
  if workspace.ownerId.text = targetUserId then
    .throw (.forbidden "The workspace owner cannot be removed")
  else do
    let membership ← perform (.findMember workspaceId.uuid targetUserId.uuid)
    match membership with
    | none => .throw (.notFound "Member not found")
    | some membership => do
      let _ ← perform (.removeMember membership)
      perform (.cacheDel (membershipKey process workspaceId targetUserId))

end WorkspacesService

namespace InvitationsService
open WorkspacesService (perform)

/-- Accepts an invitation for the authenticated user (email must match). -/
def accept (toLowerCase : String → String) (userId : Uuid) (userEmail token : String) :
    Service (Option WorkspaceMember) := do
  let invitation ← perform (.findInvitation token)
  match invitation with
  | none => .throw (.notFound "Invitation not found or no longer pending")
  | some invitation =>
    if invitation.status ≠ .PENDING then
      .throw (.notFound "Invitation not found or no longer pending")
    else do
      let now ← Prog.read Env.now
      if invitation.expiresAt < now then do
        let _ ← perform (.saveInvitation { invitation with status := .EXPIRED })
        .throw (.gone "Invitation has expired")
      else if toLowerCase invitation.email ≠ toLowerCase userEmail then
        .throw (.forbidden "This invitation was issued to a different email address")
      else do
        let membership ← perform (.findMember invitation.workspaceId userId)
        let accepted := { invitation with status := .ACCEPTED }
        match membership with
        | some m => do
          let _ ← perform (.commitAccept none accepted)
          return some m
        | none => perform (.commitAccept (some ⟨invitation.workspaceId, userId, invitation.role⟩) accepted)

end InvitationsService

/-! ### Requests in flight -/

/-- A request to one of the API processes. -/
inductive Request where
  | getMembership (process : Nat) (workspaceId userId : UuidText)
  | updateMemberRole (process : Nat) (workspaceId targetUserId : UuidText) (role : WorkspaceRole)
  | removeMember (process : Nat) (workspaceId targetUserId : UuidText)
  | accept (userId : Uuid) (userEmail token : String)
  deriving DecidableEq

/-- What a request resolves to. -/
inductive Response where
  | membership (m : Option WorkspaceMember)
  | updated (m : WorkspaceMember)
  | removed
  | accepted (m : Option WorkspaceMember)
  deriving DecidableEq

def program (toLowerCase : String → String) : Request → Service Response
  | .getMembership p w u => return .membership (← WorkspacesService.getMembership p w u)
  | .updateMemberRole p w u role => return .updated (← WorkspacesService.updateMemberRole p w u role)
  | .removeMember p w u => do
    WorkspacesService.removeMember p w u
    return .removed
  | .accept u email token => return .accepted (← InvitationsService.accept toLowerCase u email token)

/-- The tables after the values of `env` were generated. -/
def Tables.spend (s : Tables) (env : Env) : Tables := { s with generated := s.generated.spend env }

def system (toLowerCase : String → String) : System interface Tables Request Response where
  exec := exec
  program := program toLowerCase
  fault := .unavailable
  admits s env := s.generated.admits env
  spend := Tables.spend

end TaskPlatform.Workspaces

import TaskPlatform.Library.Serial
import TaskPlatform.Workspaces.WorkspacesService

/-! The statements of `WorkspacesService` and `InvitationsService` and the calls on the membership cache of one API
    process. The ids of a URL come as the client writes them; the keys of the cache are made of these texts. -/

namespace TaskPlatform.Access
open Effects Workspaces

/-- What comes from outside: lower case as JavaScript and as `citext` make it, and the e-mail address of every user,
    which does not change. -/
structure Outside where
  toLowerCase : String → String
  citext : String → String
  email : Uuid → String

/-- The text `membership:${workspaceId}:${userId}`. -/
structure MembershipKey where
  workspaceId : UuidText
  userId : UuidText
  deriving DecidableEq

/-- What `create` fills in before the first save. -/
structure NewWorkspace where
  name : String
  slug : String
  ownerId : Uuid
  deriving DecidableEq

structure NewInvitation where
  workspaceId : UuidText
  email : String
  role : WorkspaceRole
  token : String
  status : InvitationStatus
  invitedBy : Uuid
  expiresAt : Date
  deriving DecidableEq

def NewWorkspace.toRow (n : NewWorkspace) (env : Env) : Workspace :=
  { id := env.uuid, name := n.name, slug := n.slug, ownerId := n.ownerId }

def NewInvitation.toRow (n : NewInvitation) (env : Env) : WorkspaceInvitation :=
  { id := env.uuid, workspaceId := n.workspaceId.uuid, email := n.email, role := n.role, token := n.token,
    status := n.status, invitedBy := n.invitedBy, expiresAt := n.expiresAt }

/-- The tables, and the memberships in the cache. -/
structure Tables where
  db : Workspaces.Tables
  cache : List (MembershipKey × WorkspaceMember)
  deriving DecidableEq

/-- The calls of the services: those that `Workspaces` has already, and the others. `insertWorkspace` is made in the
    transaction of `create`: nobody else sees the row before `commitCreate`. -/
inductive Call where
  | db (c : Workspaces.Call)
  | countSlug (slug : String)
  | insertWorkspace (n : NewWorkspace)
  | commitCreate (w : Workspace) (owner : NewMember)
  | workspacesOf (userId : Uuid)
  | membersOf (workspaceId : Uuid)
  | cacheGet (key : MembershipKey)
  | cacheSet (key : MembershipKey) (m : WorkspaceMember)
  | cacheDel (key : MembershipKey)
  | findUserByEmail (email : String)
  | findPending (workspaceId : Uuid) (email : String)
  | insertInvitation (n : NewInvitation)
  | invitationsOf (workspaceId : Uuid)
  | findInvitation (id workspaceId : Uuid)
  deriving DecidableEq

abbrev Call.Reply : Call → Type
  | .db c => c.Reply
  | .countSlug _ => Nat
  | .insertWorkspace _ => Workspace
  | .commitCreate _ _ => Unit
  | .workspacesOf _ => List Workspace
  | .membersOf _ => List WorkspaceMember
  | .cacheGet _ => Option WorkspaceMember
  | .cacheSet _ _ => Unit
  | .cacheDel _ => Unit
  | .findUserByEmail _ => Option Uuid
  | .findPending _ _ => Option WorkspaceInvitation
  | .insertInvitation _ => WorkspaceInvitation
  | .invitationsOf _ => List WorkspaceInvitation
  | .findInvitation _ _ => Option WorkspaceInvitation

abbrev interface : Interface := ⟨Env, Call, Call.Reply, Err⟩

abbrev Service (α : Type) := Prog interface α

namespace Tables
variable (out : Outside)

/-- The row of the unique index on pending invitations. -/
def pending? (s : Workspaces.Tables) (workspaceId : Uuid) (email : String) : Option WorkspaceInvitation :=
  s.invitations.find? fun r =>
    r.workspaceId = workspaceId && out.citext r.email = out.citext email && r.status = .PENDING

/-- The transaction of `create`: the workspace and the membership of its owner. -/
def commitCreate (s : Workspaces.Tables) (env : Env) (w : Workspace) (owner : NewMember) :
    Except Err Workspaces.Tables :=
  if s.workspaces.any (out.citext ·.slug = out.citext w.slug) then
    .error (.db (.unique "UQ_workspaces_slug"))
  else if !s.users.contains w.ownerId then
    .error (.db (.foreignKey "FK_workspaces_owner"))
  else { s with workspaces := s.workspaces ++ [w] }.insertMember (owner.toRow env)

def insertInvitation (s : Workspaces.Tables) (r : WorkspaceInvitation) : Except Err Workspaces.Tables :=
  if Table.has WorkspaceInvitation.token r.token s.invitations then
    .error (.db (.unique "UQ_workspace_invitations_token"))
  else if r.status = .PENDING && (pending? out s r.workspaceId r.email).isSome then
    .error (.db (.unique "UQ_workspace_invitations_pending_email"))
  else if !Table.has Workspace.id r.workspaceId s.workspaces then
    .error (.db (.foreignKey "FK_workspace_invitations_workspace"))
  else if !s.users.contains r.invitedBy then
    .error (.db (.foreignKey "FK_workspace_invitations_inviter"))
  else .ok { s with invitations := s.invitations ++ [r] }

/-- A write that an error leaves without effect. -/
def commit {α : Type} (s : Tables) (a : α) : Except Err Workspaces.Tables → Except Err α × Tables
  | .ok db => (.ok a, { s with db })
  | .error e => (.error e, s)

end Tables

def exec (out : Outside) : Handler interface Tables := fun env c s =>
  match c with
  | .db c =>
    let a := Workspaces.exec env c s.db
    (a.1, { s with db := a.2 })
  | .countSlug slug => (.ok (s.db.workspaces.countP (out.citext ·.slug = out.citext slug)), s)
  | .insertWorkspace n => ((readError n.name).elim (.ok (n.toRow env)) (.error ∘ .db), s)
  | .commitCreate w owner => s.commit () (Tables.commitCreate out s.db env w owner)
  | .workspacesOf u => (.ok (s.db.workspaces.filter fun w => (s.db.member? w.id u).isSome), s)
  | .membersOf w => (.ok (s.db.members.filter (·.workspaceId = w)), s)
  | .cacheGet key => (.ok ((s.cache.find? (·.1 = key)).map Prod.snd), s)
  | .cacheSet key m => (.ok (), { s with cache := (key, m) :: s.cache.filter (·.1 ≠ key) })
  | .cacheDel key => (.ok (), { s with cache := s.cache.filter (·.1 ≠ key) })
  | .findUserByEmail email => (.ok (s.db.users.find? fun u => out.citext (out.email u) = out.citext email), s)
  | .findPending w email => (.ok (Tables.pending? out s.db w email), s)
  | .insertInvitation n => s.commit (n.toRow env) (Tables.insertInvitation out s.db (n.toRow env))
  | .invitationsOf w => (.ok (s.db.invitations.filter (·.workspaceId = w)), s)
  | .findInvitation id w => (.ok (s.db.invitations.find? fun r => r.id = id && r.workspaceId = w), s)

theorem insertWorkspace_ok (out : Outside) {env : Env} {s : Tables} {n : NewWorkspace} {w : Workspace}
    (h : (exec out env (.insertWorkspace n) s).1 = .ok w) : w = n.toRow env := by
  simp only [exec] at h
  cases hread : readError n.name with
  | none =>
    rw [hread] at h
    exact (Except.ok.inj h).symm
  | some e =>
    rw [hread] at h
    cases h

end TaskPlatform.Access

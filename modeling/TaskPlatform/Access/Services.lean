import TaskPlatform.Access.Database
import TaskPlatform.Access.Slugify
import TaskPlatform.Library.Lift

/-! `WorkspacesService` and `InvitationsService` behind their controllers and guards, in one API process. -/

namespace TaskPlatform.Access
open Effects Workspaces

def perform (c : Call) : Service c.Reply := Prog.perform (I := interface) c

/-- A call of `Workspaces` here, where the cache is that of the one process. -/
def Call.of : Workspaces.Call → Call
  | .cacheGet key => .cacheGet ⟨key.workspaceId, key.userId⟩
  | .cacheSet key m => .cacheSet ⟨key.workspaceId, key.userId⟩ m
  | .cacheDel key => .cacheDel ⟨key.workspaceId, key.userId⟩
  | c => .db c

/-- Its reply. -/
def Call.reply : (c : Workspaces.Call) → (Call.of c).Reply → c.Reply
  | .cacheGet _, a | .cacheSet _ _, a | .cacheDel _, a | .findWorkspace _, a | .findMember _ _, a | .saveMember _, a
  | .removeMember _, a | .findInvitation _, a | .saveInvitation _, a | .commitAccept _ _, a => a

/-- A program of `Workspaces` on the tables here. -/
def lift {α : Type} (p : Workspaces.Service α) : Service α := Prog.lift Call.of Call.reply p

/-! ### The services -/

structure CreateWorkspaceDto where
  name : String
  slug : Option String := none
  deriving DecidableEq

structure CreateInvitationDto where
  email : String
  role : Option WorkspaceRole := none
  deriving DecidableEq

namespace WorkspacesService

/-- Creates a workspace and its owner membership (`ADMIN`) in one transaction. -/
def create (out : Outside) (ownerId : Uuid) (dto : CreateWorkspaceDto) : Service Workspace := do
  let slug := Slugify.slugify out.toLowerCase (dto.slug.getD dto.name)
  let count ← perform (.countSlug slug)
  if count ≠ 0 then .throw (.conflict "Workspace slug already taken")
  else do
    let workspace ← perform (.insertWorkspace ⟨dto.name, slug, ownerId⟩)
    let _ ← perform (.commitCreate workspace ⟨workspace.id, ownerId, .ADMIN⟩)
    return workspace

def listForUser (userId : Uuid) : Service (List Workspace) := perform (.workspacesOf userId)

def findByIdOrFail (id : UuidText) : Service Workspace := lift (Workspaces.WorkspacesService.findByIdOrFail id)

def getMembership (workspaceId userId : UuidText) : Service (Option WorkspaceMember) :=
  lift (Workspaces.WorkspacesService.getMembership 0 workspaceId userId)

def listMembers (workspaceId : UuidText) : Service (List WorkspaceMember) := perform (.membersOf workspaceId.uuid)

def updateMemberRole (workspaceId targetUserId : UuidText) (role : WorkspaceRole) : Service WorkspaceMember :=
  lift (Workspaces.WorkspacesService.updateMemberRole 0 workspaceId targetUserId role)

def removeMember (workspaceId targetUserId : UuidText) : Service Unit :=
  lift (Workspaces.WorkspacesService.removeMember 0 workspaceId targetUserId)

end WorkspacesService

namespace InvitationsService

/-- 7 days. -/
def INVITE_TTL_MS : Int := 7 * 24 * 60 * 60 * 1000

def invite (workspaceId : UuidText) (inviterId : Uuid) (dto : CreateInvitationDto) : Service WorkspaceInvitation := do
  let existingUser ← perform (.findUserByEmail dto.email)
  match existingUser with
  | none => issue
  | some existingUser => do
    let membership ← perform (.db (.findMember workspaceId.uuid existingUser))
    match membership with
    | some _ => .throw (.conflict "User is already a member of this workspace")
    | none => issue
where
  /-- What comes after the invited address is known to be no member's. -/
  issue : Service WorkspaceInvitation := do
    let pending ← perform (.findPending workspaceId.uuid dto.email)
    match pending with
    | some _ => .throw (.conflict "A pending invitation already exists for this email")
    | none => do
      let token ← Prog.read Env.random
      let now ← Prog.read Env.now
      perform (.insertInvitation
        { workspaceId, email := dto.email, role := dto.role.getD .MEMBER, token, status := .PENDING,
          invitedBy := inviterId, expiresAt := now + INVITE_TTL_MS })

def listForWorkspace (workspaceId : UuidText) : Service (List WorkspaceInvitation) :=
  perform (.invitationsOf workspaceId.uuid)

def accept (out : Outside) (userId : Uuid) (userEmail token : String) : Service (Option WorkspaceMember) :=
  lift (Workspaces.InvitationsService.accept out.toLowerCase userId userEmail token)

def revoke (workspaceId invitationId : UuidText) : Service Unit := do
  let invitation ← perform (.findInvitation invitationId.uuid workspaceId.uuid)
  match invitation with
  | none => .throw (.notFound "Invitation not found")
  | some invitation =>
    if invitation.status ≠ .PENDING then .throw (.conflict "Only pending invitations can be revoked")
    else perform (.db (.saveInvitation { invitation with status := .REVOKED }))

end InvitationsService

/-! ### Programs of `Workspaces`, call by call -/

theorem lift_bind {α β : Type} (p : Workspaces.Service α) (f : α → Workspaces.Service β) :
    lift (p.bind f) = (lift p).bind fun a => lift (f a) :=
  Prog.lift_bind p f

theorem lift_ask {α : Type} (k : Env → Workspaces.Service α) : lift (.ask k) = .ask fun env => lift (k env) := rfl

/-- A lifted call, and what follows it. -/
theorem lift_perform_bind {α : Type} (c : Workspaces.Call) (f : c.Reply → Workspaces.Service α) :
    lift ((Workspaces.WorkspacesService.perform c).bind f) = (perform (.of c)).bind fun a => lift (f (Call.reply c a)) :=
  Prog.lift_perform_bind c f

/-- A lifted call on the database. -/
theorem lift_perform {c : Workspaces.Call} (h : c.onCache = false) :
    lift (Workspaces.WorkspacesService.perform c) = perform (.db c) := by
  cases c with
  | cacheGet | cacheSet | cacheDel => cases h
  | _ => exact congrArg (Prog.call (I := interface) (.db _)) (funext fun a => by cases a <;> rfl)

namespace WorkspacesService
variable (w u : UuidText)

theorem findByIdOrFail_eq : findByIdOrFail w = (do
    let workspace ← perform (.db (.findWorkspace w.uuid))
    match workspace with
    | some workspace => return workspace
    | none => .throw (.notFound "Workspace not found")) := by
  refine (lift_perform_bind (.findWorkspace w.uuid) _).trans (congrArg (Prog.bind _) (funext fun workspace => ?_))
  cases workspace <;> rfl

theorem getMembership_eq : getMembership w u = (do
    let cached ← perform (.cacheGet ⟨w, u⟩)
    match cached with
    | some m => return some m
    | none => do
      let membership ← perform (.db (.findMember w.uuid u.uuid))
      match membership with
      | some m => do
        let _ ← perform (.cacheSet ⟨w, u⟩ m)
        return some m
      | none => return none) := by
  refine (lift_perform_bind (.cacheGet ⟨0, w, u⟩) _).trans (congrArg (Prog.bind _) (funext fun cached => ?_))
  cases cached with
  | some m => rfl
  | none =>
    refine (lift_perform_bind (.findMember w.uuid u.uuid) _).trans (congrArg (Prog.bind _) (funext fun membership => ?_))
    cases membership with
    | some m => exact lift_perform_bind (.cacheSet ⟨0, w, u⟩ m) _
    | none => rfl

theorem updateMemberRole_eq (role : WorkspaceRole) : updateMemberRole w u role = (do
    let workspace ← findByIdOrFail w
    if workspace.ownerId.text = u then
      .throw (.forbidden "The workspace owner role cannot be changed")
    else do
      let membership ← perform (.db (.findMember w.uuid u.uuid))
      match membership with
      | none => .throw (.notFound "Member not found")
      | some membership => do
        let saved ← perform (.db (.saveMember { membership with role := role }))
        let _ ← perform (.cacheDel ⟨w, u⟩)
        return saved) := by
  refine (lift_bind (Workspaces.WorkspacesService.findByIdOrFail w) _).trans
    (congrArg (Prog.bind _) (funext fun workspace => ?_))
  split
  · rfl
  · refine (lift_perform_bind (.findMember w.uuid u.uuid) _).trans (congrArg (Prog.bind _) (funext fun membership => ?_))
    cases membership with
    | none => rfl
    | some m =>
      refine (lift_perform_bind (.saveMember { m with role := role }) _).trans (congrArg (Prog.bind _) (funext fun saved => ?_))
      exact lift_perform_bind (.cacheDel ⟨0, w, u⟩) _

theorem removeMember_eq : removeMember w u = (do
    let workspace ← findByIdOrFail w
    if workspace.ownerId.text = u then
      .throw (.forbidden "The workspace owner cannot be removed")
    else do
      let membership ← perform (.db (.findMember w.uuid u.uuid))
      match membership with
      | none => .throw (.notFound "Member not found")
      | some membership => do
        let _ ← perform (.db (.removeMember membership))
        perform (.cacheDel ⟨w, u⟩)) := by
  refine (lift_bind (Workspaces.WorkspacesService.findByIdOrFail w) _).trans
    (congrArg (Prog.bind _) (funext fun workspace => ?_))
  split
  · rfl
  · refine (lift_perform_bind (.findMember w.uuid u.uuid) _).trans (congrArg (Prog.bind _) (funext fun membership => ?_))
    cases membership with
    | none => rfl
    | some m =>
      refine (lift_perform_bind (.removeMember m) _).trans (congrArg (Prog.bind _) (funext fun _ => ?_))
      exact congrArg (Prog.call (I := interface) (.cacheDel ⟨w, u⟩)) (funext fun a => by cases a <;> rfl)

end WorkspacesService

/-! ### The guards -/

/-- Resolves the membership of the caller, and rejects those who are no members. -/
def WorkspaceMemberGuard.canActivate (workspaceId : UuidText) (userId : Uuid) : Service WorkspaceRole := do
  let membership ← WorkspacesService.getMembership workspaceId userId.text
  match membership with
  | none => .throw (.forbidden "You are not a member of this workspace")
  | some membership => return membership.role

/-- Enforces `@Roles(...)` against the role that the other guard attached. -/
def RolesGuard.canActivate (required : List WorkspaceRole) (role : WorkspaceRole) : Service Unit :=
  if required = [] then return ()
  else if role ∈ required then return ()
  else .throw (.forbidden "Insufficient workspace role")

/-- `@UseGuards(WorkspaceMemberGuard, RolesGuard)` with `@Roles(WorkspaceRole.ADMIN)`. -/
def adminOnly (workspaceId : UuidText) (userId : Uuid) : Service Unit := do
  let role ← WorkspaceMemberGuard.canActivate workspaceId userId
  RolesGuard.canActivate [.ADMIN] role

/-! ### The controllers -/

/-- A request of an authenticated user. -/
inductive Operation where
  | create (dto : CreateWorkspaceDto)
  | listMine
  | get (workspaceId : UuidText)
  | members (workspaceId : UuidText)
  | updateRole (workspaceId userId : UuidText) (role : WorkspaceRole)
  | removeMember (workspaceId userId : UuidText)
  | invite (workspaceId : UuidText) (dto : CreateInvitationDto)
  | listInvitations (workspaceId : UuidText)
  | revoke (workspaceId invitationId : UuidText)
  | accept (token : String)
  deriving DecidableEq

structure Request where
  userId : Uuid
  operation : Operation
  deriving DecidableEq

/-- What a request resolves to. -/
inductive Response where
  | workspace (w : Workspace)
  | workspaces (ws : List Workspace)
  | members (ms : List WorkspaceMember)
  | updated (m : WorkspaceMember)
  | removed
  | invitation (inv : WorkspaceInvitation)
  | invitations (invs : List WorkspaceInvitation)
  | revoked
  | accepted (m : Option WorkspaceMember)
  deriving DecidableEq

def program (out : Outside) (r : Request) : Service Response :=
  match r.operation with
  | .create dto => return .workspace (← WorkspacesService.create out r.userId dto)
  | .listMine => return .workspaces (← WorkspacesService.listForUser r.userId)
  | .get w => do
    let _ ← WorkspaceMemberGuard.canActivate w r.userId
    return .workspace (← WorkspacesService.findByIdOrFail w)
  | .members w => do
    let _ ← WorkspaceMemberGuard.canActivate w r.userId
    return .members (← WorkspacesService.listMembers w)
  | .updateRole w u role => do
    adminOnly w r.userId
    return .updated (← WorkspacesService.updateMemberRole w u role)
  | .removeMember w u => do
    adminOnly w r.userId
    WorkspacesService.removeMember w u
    return .removed
  | .invite w dto => do
    adminOnly w r.userId
    return .invitation (← InvitationsService.invite w r.userId dto)
  | .listInvitations w => do
    adminOnly w r.userId
    return .invitations (← InvitationsService.listForWorkspace w)
  | .revoke w id => do
    adminOnly w r.userId
    InvitationsService.revoke w id
    return .revoked
  | .accept token => return .accepted (← InvitationsService.accept out r.userId (out.email r.userId) token)

/-- The tables after the values of `env` were generated. -/
def Tables.spend (s : Tables) (env : Env) : Tables := { s with db := s.db.spend env }

def system (out : Outside) : System interface Tables Request Response where
  exec := exec out
  program := program out
  fault := .unavailable
  admits s env := s.db.generated.admits env
  spend := Tables.spend

end TaskPlatform.Access

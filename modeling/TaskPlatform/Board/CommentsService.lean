import TaskPlatform.Board.TasksService

/-! `CommentsService`, `ActivityService.listForTask`, and the requests of a board in flight. -/

namespace TaskPlatform.Board
open Effects

structure CreateCommentDto where
  body : String
  parentCommentId : Option UuidText := none
  deriving DecidableEq

structure ListCommentsQueryDto extends PaginationQuery where
  parentCommentId : Option UuidText := none
  topLevel : Bool := false
  deriving DecidableEq

namespace CommentsService

def create (workspaceId projectId taskId : UuidText) (authorId : Uuid) (dto : CreateCommentDto) : Service Comment := do
  let task ← TasksService.findOneOrFail workspaceId projectId taskId
  match dto.parentCommentId with
  | none => finish task none
  | some parentCommentId => do
    let parent ← perform (.findComment parentCommentId.uuid taskId.uuid)
    match parent with
    | none => .throw (.badRequest "Parent comment not found on this task")
    | some parent => finish task (some parent.authorId)
where
  /-- The insert and the events after it. -/
  finish (task : Task) (parentAuthorId : Option Uuid) : Service Comment := do
    let comment ← perform (.insertComment { taskId, authorId, parentCommentId := dto.parentCommentId, body := dto.body })
    emit (.commentCreated comment.id.text taskId authorId.text comment.parentCommentId task.assigneeId)
    match comment.parentCommentId, parentAuthorId with
    | some parentCommentId, some parentAuthorId => do
      emit (.commentReplied comment.id.text taskId parentCommentId parentAuthorId.text authorId.text)
      return comment
    | _, _ => return comment

def list (workspaceId projectId taskId : UuidText) (query : ListCommentsQueryDto) : Service (Page Comment) := do
  let _ ← TasksService.findOneOrFail workspaceId projectId taskId
  let limit := query.limitOr20
  let filter :=
    { taskId := taskId.uuid, parentCommentId := query.parentCommentId.map UuidText.uuid, topLevel := query.topLevel }
  let rows ← perform (.listComments filter query.decoded (limit + 1))
  return buildPage rows limit fun c => encodeCursor c.createdAt c.id

def findOneOrFail (workspaceId projectId taskId commentId : UuidText) : Service Comment := do
  let _ ← TasksService.findOneOrFail workspaceId projectId taskId
  let comment ← perform (.findComment commentId.uuid taskId.uuid)
  match comment with
  | none => .throw (.notFound "Comment not found")
  | some comment => return comment

/-- Only the author may edit their own comment. -/
def update (workspaceId projectId taskId commentId : UuidText) (actorId : Uuid) (body : String) : Service Comment := do
  let comment ← findOneOrFail workspaceId projectId taskId commentId
  if comment.authorId ≠ actorId then
    .throw (.forbidden "Only the author can edit this comment")
  else do
    let now ← Prog.read Env.now
    perform (.saveComment { comment with body := body, editedAt := some now })

/-- The author or a workspace ADMIN may delete a comment. -/
def remove (workspaceId projectId taskId commentId : UuidText) (actorId : Uuid) (actorRole : Option WorkspaceRole) :
    Service Unit := do
  let comment ← findOneOrFail workspaceId projectId taskId commentId
  if comment.authorId ≠ actorId ∧ actorRole ≠ some .ADMIN then
    .throw (.forbidden "Only the author or a workspace admin can delete this comment")
  else perform (.removeComment comment.id)

end CommentsService

/-- The paginated activity feed of a task. -/
def ActivityService.listForTask (workspaceId projectId taskId : UuidText) (query : PaginationQuery) :
    Service (Page TaskActivity) := do
  let _ ← TasksService.findOneOrFail workspaceId projectId taskId
  let limit := query.limitOr20
  let rows ← perform (.listActivity taskId.uuid query.decoded (limit + 1))
  return buildPage rows limit fun a => encodeCursor a.createdAt a.id

/-! ### Requests in flight -/

/-- What a request asks for in its workspace. -/
inductive Operation where
  | createProject (createdBy : Uuid) (dto : CreateProjectDto)
  | listProjects (query : ListProjectsQueryDto)
  | getProject (projectId : UuidText)
  | updateProject (projectId : UuidText) (dto : UpdateProjectDto)
  | removeProject (projectId : UuidText)
  | createTask (projectId : UuidText) (createdBy : Uuid) (dto : CreateTaskDto)
  | listTasks (projectId : UuidText) (query : ListTasksQueryDto)
  | getTask (projectId taskId : UuidText)
  | updateTask (projectId taskId : UuidText) (actorId : Uuid) (dto : UpdateTaskDto)
  | removeTask (projectId taskId : UuidText)
  | getSubtree (projectId taskId : UuidText)
  | moveTask (projectId taskId : UuidText) (newParentId : Option UuidText)
  | createComment (projectId taskId : UuidText) (authorId : Uuid) (dto : CreateCommentDto)
  | listComments (projectId taskId : UuidText) (query : ListCommentsQueryDto)
  | getComment (projectId taskId commentId : UuidText)
  | updateComment (projectId taskId commentId : UuidText) (actorId : Uuid) (body : String)
  | removeComment (projectId taskId commentId : UuidText) (actorId : Uuid) (actorRole : Option WorkspaceRole)
  | listActivity (projectId taskId : UuidText) (query : PaginationQuery)
  deriving DecidableEq

structure Request where
  workspaceId : UuidText
  operation : Operation
  deriving DecidableEq

/-- What a request resolves to. -/
inductive Response where
  | project (p : Project)
  | projects (page : Page Project)
  | task (t : Task)
  | tasks (page : Page Task)
  | subtree (root : Option SubtreeNode)
  | comment (c : Comment)
  | comments (page : Page Comment)
  | activity (page : Page TaskActivity)
  | removed

def program (r : Request) : Service Response :=
  let w := r.workspaceId
  match r.operation with
  | .createProject user dto => return .project (← ProjectsService.create w user dto)
  | .listProjects q => return .projects (← ProjectsService.list w q)
  | .getProject p => return .project (← ProjectsService.findOneOrFail w p)
  | .updateProject p dto => return .project (← ProjectsService.update w p dto)
  | .removeProject p => do
    ProjectsService.remove w p
    return .removed
  | .createTask p user dto => return .task (← TasksService.create w p user dto)
  | .listTasks p q => return .tasks (← TasksService.list w p q)
  | .getTask p t => return .task (← TasksService.findOneOrFail w p t)
  | .updateTask p t actor dto => return .task (← TasksService.update w p t actor dto)
  | .removeTask p t => do
    TasksService.remove w p t
    return .removed
  | .getSubtree p t => return .subtree (← TasksService.getSubtree w p t)
  | .moveTask p t parent => return .task (← TasksService.moveTask w p t parent)
  | .createComment p t author dto => return .comment (← CommentsService.create w p t author dto)
  | .listComments p t q => return .comments (← CommentsService.list w p t q)
  | .getComment p t c => return .comment (← CommentsService.findOneOrFail w p t c)
  | .updateComment p t c actor body => return .comment (← CommentsService.update w p t c actor body)
  | .removeComment p t c actor role => do
    CommentsService.remove w p t c actor role
    return .removed
  | .listActivity p t q => return .activity (← ActivityService.listForTask w p t q)

/-- The tables after the values of `env` were generated. -/
def Tables.spend (s : Tables) (env : Env) : Tables := { s with generated := s.generated.spend env }

/-- Requests in flight on the tables. -/
def system (pg : Postgres) : System interface Tables Request Response where
  exec := exec pg
  program := program
  fault := .unavailable
  admits s env := s.generated.admits env
  spend := Tables.spend

end TaskPlatform.Board

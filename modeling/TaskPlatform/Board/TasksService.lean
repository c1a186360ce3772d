import TaskPlatform.Board.Database

/-! `ProjectsService` and `TasksService`, with the activity that the listener records for their events. -/

namespace TaskPlatform.Board
open Effects

def perform (c : Call) : Service c.Reply := Prog.perform (I := interface) c

/-! ### Domain events -/

inductive DomainEvent where
  | taskCreated (taskId projectId actorId : UuidText)
  | taskAssigned (taskId assigneeId actorId : UuidText)
  | taskStatusChanged (taskId : UuidText) (fromStatus toStatus : Option TaskStatus) (actorId : UuidText)
  | taskCompleted (taskId actorId : UuidText) (creatorId : Option UuidText)
  | commentCreated (commentId taskId authorId : UuidText) (parentCommentId taskAssigneeId : Option UuidText)
  | commentReplied (commentId taskId parentCommentId parentAuthorId authorId : UuidText)
  deriving DecidableEq

namespace ActivityService

/-- Appends an activity row. -/
def record (taskId actorId : UuidText) (action : ActivityAction) (metadata : List (String × MetadataValue)) :
    Service Unit :=
  perform (.insertActivity { taskId, actorId := some actorId.uuid, action, metadata })

end ActivityService

/-- Turns domain events into activity rows; `comment.replied` is not recorded. -/
def ActivityListener.on : DomainEvent → Service Unit
  | .taskCreated taskId projectId actorId =>
    ActivityService.record taskId actorId .CREATED [("projectId", .id projectId)]
  | .taskAssigned taskId assigneeId actorId =>
    ActivityService.record taskId actorId .ASSIGNED [("assigneeId", .id assigneeId)]
  | .taskStatusChanged taskId fromStatus toStatus actorId =>
    ActivityService.record taskId actorId .STATUS_CHANGED [("from", .status fromStatus), ("to", .status toStatus)]
  | .taskCompleted taskId actorId _ => ActivityService.record taskId actorId .COMPLETED []
  | .commentCreated commentId taskId authorId parentCommentId _ =>
    let action := if parentCommentId.isSome then ActivityAction.REPLIED else .COMMENTED
    ActivityService.record taskId authorId action
      (("commentId", .id commentId) :: (parentCommentId.map fun p => ("parentCommentId", MetadataValue.id p)).toList)
  | .commentReplied .. => return ()

/-- Emits an event. `events.emit` does not wait for the listener; here the listener has run when the service goes on,
    with its errors only logged. -/
def emit (e : DomainEvent) : Service Unit := (ActivityListener.on e).handle fun _ => return ()

/-! ### Requests' data. A field that may be absent is an `Option`; one that may also be `null`, twice -/

structure CreateProjectDto where
  name : String
  description : Option String := none
  deriving DecidableEq

structure UpdateProjectDto where
  name : Option (Option String) := none
  description : Option (Option String) := none
  status : Option (Option ProjectStatus) := none
  deriving DecidableEq

structure ListProjectsQueryDto extends PaginationQuery where
  status : Option ProjectStatus := none
  deriving DecidableEq

structure CreateTaskDto where
  title : String
  description : Option String := none
  priority : Option TaskPriority := none
  assigneeId : Option UuidText := none
  dueDate : Option Date := none
  parentTaskId : Option UuidText := none
  deriving DecidableEq

structure UpdateTaskDto where
  title : Option (Option String) := none
  description : Option (Option String) := none
  status : Option (Option TaskStatus) := none
  priority : Option (Option TaskPriority) := none
  assigneeId : Option (Option UuidText) := none
  dueDate : Option (Option Date) := none
  deriving DecidableEq

structure ListTasksQueryDto extends PaginationQuery where
  status : Option TaskStatus := none
  priority : Option TaskPriority := none
  assigneeId : Option UuidText := none
  parentTaskId : Option UuidText := none
  topLevel : Bool := false
  deriving DecidableEq

/-! ### Projects -/

namespace ProjectsService

def create (workspaceId : UuidText) (createdBy : Uuid) (dto : CreateProjectDto) : Service Project :=
  perform (.insertProject
    { workspaceId, createdBy, name := dto.name, description := dto.description, status := .ACTIVE })

def list (workspaceId : UuidText) (query : ListProjectsQueryDto) : Service (Page Project) := do
  let limit := query.limitOr20
  let filter := { workspaceId := workspaceId.uuid, status := query.status }
  let rows ← perform (.listProjects filter query.decoded (limit + 1))
  return buildPage rows limit fun p => encodeCursor p.createdAt p.id

def findOneOrFail (workspaceId projectId : UuidText) : Service Project := do
  let project ← perform (.findProject projectId.uuid workspaceId.uuid)
  match project with
  | none => .throw (.notFound "Project not found")
  | some project => return project

def update (workspaceId projectId : UuidText) (dto : UpdateProjectDto) : Service Project := do
  let project ← findOneOrFail workspaceId projectId
  perform (.saveProject
    { project with
      name := dto.name.getD project.name
      description := dto.description.getD project.description
      status := dto.status.getD project.status })

def remove (workspaceId projectId : UuidText) : Service Unit := do
  let project ← findOneOrFail workspaceId projectId
  perform (.removeProject project.id)

end ProjectsService

/-! ### Tasks -/

/-- A node of a nested subtree. -/
inductive SubtreeNode where
  | mk (id : Uuid) (title : String) (status : TaskStatus) (priority : TaskPriority) (assigneeId : Option Uuid)
      (dueDate : Option Date) (depth : Nat) (children : List SubtreeNode)

/-- The columns of the task after the patch. -/
def UpdateTaskDto.apply (dto : UpdateTaskDto) (now : Date) (task : Task) : Task :=
  { task with
    title := dto.title.getD task.title
    description := dto.description.getD task.description
    priority := dto.priority.getD task.priority
    assigneeId := dto.assigneeId.getD task.assigneeId
    dueDate := dto.dueDate.getD task.dueDate
    status := dto.status.getD task.status
    completedAt :=
      match dto.status with
      | none => task.completedAt
      | some status => if status = some .DONE then some now else none }

namespace TasksService

/-- Max nesting depth (root = 0). -/
def MAX_DEPTH : Nat := 5

def create (workspaceId projectId : UuidText) (createdBy : Uuid) (dto : CreateTaskDto) : Service Task := do
  let _ ← ProjectsService.findOneOrFail workspaceId projectId
  let new : NewTask :=
    { projectId, createdBy, parentTaskId := dto.parentTaskId, title := dto.title, description := dto.description,
      status := .TODO, priority := dto.priority.getD .MEDIUM, assigneeId := dto.assigneeId, dueDate := dto.dueDate }
  match dto.parentTaskId with
  | none => finish new
  | some parentTaskId => do
    let parent ← perform (.findTask parentTaskId.uuid projectId.uuid)
    match parent with
    | none => .throw (.badRequest "Parent task not found in this project")
    | some _ => finish new
where
  /-- The insert and the events after it. -/
  finish (new : NewTask) : Service Task := do
    let task ← perform (.insertTask new)
    emit (.taskCreated task.id.text projectId createdBy.text)
    match task.assigneeId with
    | none => return task
    | some assigneeId => do
      emit (.taskAssigned task.id.text assigneeId createdBy.text)
      return task

def list (workspaceId projectId : UuidText) (query : ListTasksQueryDto) : Service (Page Task) := do
  let _ ← ProjectsService.findOneOrFail workspaceId projectId
  let limit := query.limitOr20
  let filter :=
    { projectId := projectId.uuid, status := query.status, priority := query.priority,
      assigneeId := query.assigneeId.map UuidText.uuid, parentTaskId := query.parentTaskId.map UuidText.uuid,
      topLevel := query.topLevel }
  let rows ← perform (.listTasks filter query.decoded (limit + 1))
  return buildPage rows limit fun t => encodeCursor t.createdAt t.id

def findOneOrFail (workspaceId projectId taskId : UuidText) : Service Task := do
  let _ ← ProjectsService.findOneOrFail workspaceId projectId
  let task ← perform (.findTask taskId.uuid projectId.uuid)
  match task with
  | none => .throw (.notFound "Task not found")
  | some task => return task

def update (workspaceId projectId taskId : UuidText) (actorId : Uuid) (dto : UpdateTaskDto) : Service Task := do
  let task ← findOneOrFail workspaceId projectId taskId
  let now ← Prog.read Env.now
  let saved ← perform (.saveTask (dto.apply now task))
  emitAssigned task.assigneeId saved
  emitStatus task.status saved
  return saved
where
  /-- `task.assigned`, if the assignee of the request is a new one. -/
  emitAssigned (prevAssignee : Option UuidText) (saved : Task) : Service Unit :=
    match dto.assigneeId, saved.assigneeId with
    | some assignee, some assigneeId =>
      if assignee = prevAssignee then return () else emit (.taskAssigned saved.id.text assigneeId actorId.text)
    | _, _ => return ()
  /-- `task.status_changed` and `task.completed`, if the status of the request is a new one. -/
  emitStatus (prevStatus : Option TaskStatus) (saved : Task) : Service Unit :=
    match dto.status with
    | none => return ()
    | some status =>
      if status = prevStatus then return ()
      else do
        emit (.taskStatusChanged saved.id.text prevStatus saved.status actorId.text)
        if saved.status = some .DONE then
          emit (.taskCompleted saved.id.text actorId.text (some saved.createdBy.text))
        else return ()

def remove (workspaceId projectId taskId : UuidText) : Service Unit := do
  let task ← findOneOrFail workspaceId projectId taskId
  perform (.removeTask task.id)

/-- A node in the map of `getSubtree`: its children are references to nodes of the map. -/
structure MapNode where
  row : SubtreeRow
  children : List Uuid

/-- The map from ids to nodes, as the first loop fills it. -/
def createNodes (rows : List SubtreeRow) : Uuid → Option MapNode :=
  rows.foldl (fun nodes r => Function.update nodes r.id (some { row := r, children := [] })) fun _ => none

/-- The second loop, at one row: the root is found by the text of its id, and every other row is pushed to the
    children of its parent, if the parent is in the map. -/
def link (taskId : UuidText) (state : Option Uuid × (Uuid → Option MapNode)) (r : SubtreeRow) :
    Option Uuid × (Uuid → Option MapNode) :=
  if r.id.text = taskId then (some r.id, state.2)
  else match r.parentTaskId with
    | none => state
    | some parentTaskId =>
      (state.1, Function.update state.2 parentTaskId
        ((state.2 parentTaskId).map fun node => { node with children := node.children ++ [r.id] }))

/-- A node of the map with the nodes that it refers to. The rows of a query that ended are no deeper than there
    are rows. -/
def node (nodes : Uuid → Option MapNode) : Nat → MapNode → SubtreeNode
  | 0, n => .mk n.row.id n.row.title n.row.status n.row.priority n.row.assigneeId n.row.dueDate n.row.depth []
  | fuel + 1, n =>
    .mk n.row.id n.row.title n.row.status n.row.priority n.row.assigneeId n.row.dueDate n.row.depth
      ((n.children.filterMap nodes).map (node nodes fuel))

/-- A task and all its descendants as a nested tree; there is none where no row has the text of the request as
    its id. -/
def getSubtree (workspaceId projectId taskId : UuidText) : Service (Option SubtreeNode) := do
  let _ ← findOneOrFail workspaceId projectId taskId
  let rows ← perform (.subtree taskId.uuid projectId.uuid)
  let (root, nodes) := rows.foldl (link taskId) (none, createNodes rows)
  return (root.bind nodes).map (node nodes rows.length)

/-- Re-parents a task: the parent must be in the same project, not the task itself, not a descendant, and
    the resulting depth must not exceed `MAX_DEPTH`. -/
def moveTask (workspaceId projectId taskId : UuidText) (newParentId : Option UuidText) : Service Task := do
  let task ← findOneOrFail workspaceId projectId taskId
  match newParentId with
  | none => perform (.saveTask { task with parentTaskId := none })
  | some newParentId =>
    if newParentId = taskId then .throw (.badRequest "A task cannot be its own parent")
    else do
      let newParent ← perform (.findTask newParentId.uuid projectId.uuid)
      match newParent with
      | none => .throw (.badRequest "New parent task not found in this project")
      | some _ => do
        let descendants ← perform (.descendants taskId.uuid)
        if descendants.any (·.1.text = newParentId) then
          .throw (.badRequest "Cannot move a task underneath its own descendant (would create a cycle)")
        else do
          let subtreeHeight := (descendants.map Prod.snd).foldl Nat.max 0
          let parentDepth ← perform (.depthOf newParentId.uuid)
          if parentDepth + 1 + subtreeHeight > MAX_DEPTH then
            .throw (.badRequest s!"Maximum nesting depth of {MAX_DEPTH} would be exceeded")
          else perform (.saveTask { task with parentTaskId := some newParentId })

end TasksService
end TaskPlatform.Board

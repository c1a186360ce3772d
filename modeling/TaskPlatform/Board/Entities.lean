import TaskPlatform.Pagination.Cursor

/-! Projects, tasks, comments and the activity of tasks: their rows, and the entities that a repository
    loads. An entity may hold what no row can hold, before it is saved; its `createdAt` has no
    microseconds. -/

namespace TaskPlatform.Board

inductive ProjectStatus where
  | ACTIVE
  | ARCHIVED
  deriving DecidableEq, Repr

inductive TaskStatus where
  | TODO
  | IN_PROGRESS
  | BLOCKED
  | DONE
  | CANCELLED
  deriving DecidableEq, Repr

inductive TaskPriority where
  | LOW
  | MEDIUM
  | HIGH
  | URGENT
  deriving DecidableEq, Repr

inductive ActivityAction where
  | CREATED
  | ASSIGNED
  | UNASSIGNED
  | STATUS_CHANGED
  | COMPLETED
  | COMMENTED
  | REPLIED
  deriving DecidableEq, Repr

/-! ### Rows -/

structure ProjectRow where
  id : Uuid
  workspaceId : Uuid
  name : String
  description : Option String
  status : ProjectStatus
  createdBy : Uuid
  createdAt : Timestamptz
  deriving DecidableEq

structure TaskRow where
  id : Uuid
  projectId : Uuid
  parentTaskId : Option Uuid
  title : String
  description : Option String
  status : TaskStatus
  priority : TaskPriority
  assigneeId : Option Uuid
  createdBy : Uuid
  dueDate : Option Date
  completedAt : Option Date
  createdAt : Timestamptz
  deriving DecidableEq

structure CommentRow where
  id : Uuid
  taskId : Uuid
  authorId : Uuid
  parentCommentId : Option Uuid
  body : String
  editedAt : Option Date
  createdAt : Timestamptz
  deriving DecidableEq

/-- A value in the JSON object `metadata`. -/
inductive MetadataValue where
  | id (value : UuidText)
  | status (value : Option TaskStatus)
  deriving DecidableEq, Repr

/-- A row of `task_activity`, also as an entity. -/
structure TaskActivity where
  id : Uuid
  taskId : Uuid
  actorId : Option Uuid
  action : ActivityAction
  metadata : List (String × MetadataValue)
  createdAt : Timestamptz
  deriving DecidableEq

structure Tables where
  users : List Uuid
  workspaces : List Uuid
  projects : List ProjectRow
  tasks : List TaskRow
  comments : List CommentRow
  activity : List TaskActivity
  generated : Generated
  deriving DecidableEq

/-! ### Entities -/

structure Project where
  id : Uuid
  workspaceId : UuidText
  name : Option String
  description : Option String
  status : Option ProjectStatus
  createdBy : Uuid
  createdAt : Timestamptz
  deriving DecidableEq

structure Task where
  id : Uuid
  projectId : UuidText
  parentTaskId : Option UuidText
  title : Option String
  description : Option String
  status : Option TaskStatus
  priority : Option TaskPriority
  assigneeId : Option UuidText
  createdBy : Uuid
  dueDate : Option Date
  completedAt : Option Date
  createdAt : Timestamptz
  deriving DecidableEq

structure Comment where
  id : Uuid
  taskId : UuidText
  authorId : Uuid
  parentCommentId : Option UuidText
  body : String
  editedAt : Option Date
  createdAt : Timestamptz
  deriving DecidableEq

def ProjectRow.toEntity (r : ProjectRow) : Project :=
  { id := r.id, workspaceId := r.workspaceId.text, name := some r.name, description := r.description,
    status := some r.status, createdBy := r.createdBy, createdAt := r.createdAt.truncate }

def TaskRow.toEntity (r : TaskRow) : Task :=
  { id := r.id, projectId := r.projectId.text, parentTaskId := r.parentTaskId.map Uuid.text, title := some r.title,
    description := r.description, status := some r.status, priority := some r.priority,
    assigneeId := r.assigneeId.map Uuid.text, createdBy := r.createdBy, dueDate := r.dueDate,
    completedAt := r.completedAt, createdAt := r.createdAt.truncate }

def CommentRow.toEntity (r : CommentRow) : Comment :=
  { id := r.id, taskId := r.taskId.text, authorId := r.authorId, parentCommentId := r.parentCommentId.map Uuid.text,
    body := r.body, editedAt := r.editedAt, createdAt := r.createdAt.truncate }

def TaskActivity.toEntity (r : TaskActivity) : TaskActivity := { r with createdAt := r.createdAt.truncate }

/-! ### A row in place of another one: `created_at` stays -/

def ProjectRow.over (r old : ProjectRow) : ProjectRow := { r with createdAt := old.createdAt }

def TaskRow.over (r old : TaskRow) : TaskRow := { r with createdAt := old.createdAt }

def CommentRow.over (r old : CommentRow) : CommentRow := { r with createdAt := old.createdAt }

@[simp] theorem ProjectRow.over_id (r old : ProjectRow) : (r.over old).id = r.id := rfl

@[simp] theorem TaskRow.over_id (r old : TaskRow) : (r.over old).id = r.id := rfl

@[simp] theorem TaskRow.over_projectId (r old : TaskRow) : (r.over old).projectId = r.projectId := rfl

@[simp] theorem TaskRow.over_parentTaskId (r old : TaskRow) : (r.over old).parentTaskId = r.parentTaskId := rfl

@[simp] theorem CommentRow.over_id (r old : CommentRow) : (r.over old).id = r.id := rfl

@[simp] theorem CommentRow.over_taskId (r old : CommentRow) : (r.over old).taskId = r.taskId := rfl

@[simp] theorem CommentRow.over_parentCommentId (r old : CommentRow) :
    (r.over old).parentCommentId = r.parentCommentId := rfl

/-! ### What `create` fills in before the first save -/

structure NewProject where
  workspaceId : UuidText
  createdBy : Uuid
  name : String
  description : Option String
  status : ProjectStatus
  deriving DecidableEq

structure NewTask where
  projectId : UuidText
  createdBy : Uuid
  parentTaskId : Option UuidText
  title : String
  description : Option String
  status : TaskStatus
  priority : TaskPriority
  assigneeId : Option UuidText
  dueDate : Option Date
  deriving DecidableEq

structure NewComment where
  taskId : UuidText
  authorId : Uuid
  parentCommentId : Option UuidText
  body : String
  deriving DecidableEq

structure NewActivity where
  taskId : UuidText
  actorId : Option Uuid
  action : ActivityAction
  metadata : List (String × MetadataValue)
  deriving DecidableEq

/-- The row that the insert adds, and the entity it leaves: the texts of the request stay as they are. -/
def NewProject.toRow (n : NewProject) (env : Env) : ProjectRow :=
  { id := env.uuid, workspaceId := n.workspaceId.uuid, name := n.name, description := n.description,
    status := n.status, createdBy := n.createdBy, createdAt := env.dbNow }

def NewProject.saved (n : NewProject) (env : Env) : Project :=
  { (n.toRow env).toEntity with workspaceId := n.workspaceId }

def NewTask.toRow (n : NewTask) (env : Env) : TaskRow :=
  { id := env.uuid, projectId := n.projectId.uuid, parentTaskId := n.parentTaskId.map UuidText.uuid, title := n.title,
    description := n.description, status := n.status, priority := n.priority,
    assigneeId := n.assigneeId.map UuidText.uuid, createdBy := n.createdBy, dueDate := n.dueDate, completedAt := none,
    createdAt := env.dbNow }

def NewTask.saved (n : NewTask) (env : Env) : Task :=
  { (n.toRow env).toEntity with
    projectId := n.projectId, parentTaskId := n.parentTaskId, assigneeId := n.assigneeId }

def NewComment.toRow (n : NewComment) (env : Env) : CommentRow :=
  { id := env.uuid, taskId := n.taskId.uuid, authorId := n.authorId,
    parentCommentId := n.parentCommentId.map UuidText.uuid, body := n.body, editedAt := none, createdAt := env.dbNow }

def NewComment.saved (n : NewComment) (env : Env) : Comment :=
  { (n.toRow env).toEntity with taskId := n.taskId, parentCommentId := n.parentCommentId }

def NewActivity.toRow (n : NewActivity) (env : Env) : TaskActivity :=
  { id := env.uuid, taskId := n.taskId.uuid, actorId := n.actorId, action := n.action, metadata := n.metadata,
    createdAt := env.dbNow }

end TaskPlatform.Board

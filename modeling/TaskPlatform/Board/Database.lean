import TaskPlatform.Library.Interleave
import TaskPlatform.Library.Recursive
import TaskPlatform.Board.Entities
import TaskPlatform.Statements

/-! The statements of the services on the tables, under their foreign keys and checks. -/

namespace TaskPlatform.Board
open Effects

/-! ### List queries -/

/-- What the `WHERE` clause of a list asks for, but for its cursor. -/
structure ProjectFilter where
  workspaceId : Uuid
  status : Option ProjectStatus
  deriving DecidableEq

structure TaskFilter where
  projectId : Uuid
  status : Option TaskStatus
  priority : Option TaskPriority
  assigneeId : Option Uuid
  parentTaskId : Option Uuid
  topLevel : Bool
  deriving DecidableEq

structure CommentFilter where
  taskId : Uuid
  parentCommentId : Option Uuid
  topLevel : Bool
  deriving DecidableEq

def ProjectFilter.accepts (f : ProjectFilter) (r : ProjectRow) : Bool :=
  r.workspaceId = f.workspaceId && f.status.all (r.status = ·)

def TaskFilter.accepts (f : TaskFilter) (r : TaskRow) : Bool :=
  r.projectId = f.projectId && f.status.all (r.status = ·) && f.priority.all (r.priority = ·) &&
    f.assigneeId.all (r.assigneeId = some ·) && asksParent f.parentTaskId f.topLevel r.parentTaskId

def CommentFilter.accepts (f : CommentFilter) (r : CommentRow) : Bool :=
  r.taskId = f.taskId && asksParent f.parentCommentId f.topLevel r.parentCommentId

def ProjectRow.key (r : ProjectRow) : Key := TaskPlatform.key r.createdAt r.id

def TaskRow.key (r : TaskRow) : Key := TaskPlatform.key r.createdAt r.id

def CommentRow.key (r : CommentRow) : Key := TaskPlatform.key r.createdAt r.id

def TaskActivity.key (r : TaskActivity) : Key := TaskPlatform.key r.createdAt r.id

/-! ### Recursive queries -/

/-- The columns that `getSubtree` selects. -/
structure SubtreeRow where
  id : Uuid
  parentTaskId : Option Uuid
  title : String
  status : TaskStatus
  priority : TaskPriority
  assigneeId : Option Uuid
  dueDate : Option Date
  depth : Nat
  deriving DecidableEq

def TaskRow.toSubtreeRow (r : TaskRow) (depth : Nat) : SubtreeRow :=
  { id := r.id, parentTaskId := r.parentTaskId, title := r.title, status := r.status, priority := r.priority,
    assigneeId := r.assigneeId, dueDate := r.dueDate, depth }

/-- `JOIN subtree s ON c.parent_task_id = s.id`. -/
def childOf (s c : TaskRow) : Bool := c.parentTaskId = some s.id

/-- `JOIN a ON t.id = a.parent_task_id`. -/
def parentOf (a t : TaskRow) : Bool := a.parentTaskId = some t.id

/-- A reply to a comment. -/
def replyTo (s c : CommentRow) : Bool := c.parentCommentId = some s.id

/-! ### The row of an entity -/

def Project.toRow? (p : Project) : Except DbError ProjectRow := do
  let name ← required "name" p.name
  let status ← required "status" p.status
  return { id := p.id, workspaceId := p.workspaceId.uuid, name, description := p.description, status,
           createdBy := p.createdBy, createdAt := p.createdAt }

def Task.toRow? (t : Task) : Except DbError TaskRow := do
  let title ← required "title" t.title
  let status ← required "status" t.status
  let priority ← required "priority" t.priority
  return { id := t.id, projectId := t.projectId.uuid, parentTaskId := t.parentTaskId.map UuidText.uuid, title,
           description := t.description, status, priority, assigneeId := t.assigneeId.map UuidText.uuid,
           createdBy := t.createdBy, dueDate := t.dueDate, completedAt := t.completedAt, createdAt := t.createdAt }

def Comment.toRow (c : Comment) : CommentRow :=
  { id := c.id, taskId := c.taskId.uuid, authorId := c.authorId,
    parentCommentId := c.parentCommentId.map UuidText.uuid, body := c.body, editedAt := c.editedAt,
    createdAt := c.createdAt }

namespace Tables

/-- A query that does not end is cancelled. -/
def ended {α : Type} : Option α → Except Err α
  | some a => .ok a
  | none => .error (.db .statementTimeout)

/-- The order of the rows of a subtree: `ORDER BY depth ASC, id ASC`. -/
def subtreeKey (r : SubtreeRow) : Nat ×ₗ Uuid := toLex (r.depth, r.id)

def subtree (s : Tables) (taskId projectId : Uuid) : Except Err (List SubtreeRow) :=
  (ended (Recursive.query childOf s.tasks (s.tasks.filter fun t => t.id = taskId && t.projectId = projectId))).map
    fun rows => (rows.map fun r => r.1.toSubtreeRow r.2).insertionSort (subtreeKey · ≤ subtreeKey ·)

/-- The task and everything below it, with the depth below the task. -/
def descendants (s : Tables) (taskId : Uuid) : Except Err (List (Uuid × Nat)) :=
  (ended (Recursive.query childOf s.tasks (s.tasks.filter (·.id = taskId)))).map
    fun rows => rows.map fun r => (r.1.id, r.2)

/-- `COALESCE(MAX(depth), 0)` over the task and everything above it. -/
def depthOf (s : Tables) (taskId : Uuid) : Except Err Nat :=
  (ended (Recursive.query parentOf s.tasks (s.tasks.filter (·.id = taskId)))).map
    fun rows => (rows.map Prod.snd).foldl Nat.max 0

/-! ### Inserts and saves -/

def projectIds (s : Tables) : List Uuid := s.projects.map ProjectRow.id

def taskIds (s : Tables) : List Uuid := s.tasks.map TaskRow.id

def commentIds (s : Tables) : List Uuid := s.comments.map CommentRow.id

/-- The constraints of `projects` on a new row, in place of `old`. -/
def checkProject (s : Tables) (old : Option ProjectRow) (r : ProjectRow) : Except DbError Unit := do
  sent (old.map (·.name)) (some r.name)
  sent (old.bind (·.description)) r.description
  reference "FK_projects_workspace" (old.map (·.workspaceId)) (some r.workspaceId) s.workspaces
  reference "FK_projects_creator" (old.map (·.createdBy)) (some r.createdBy) s.users

/-- The constraints of `tasks`. -/
def checkTask (s : Tables) (old : Option TaskRow) (r : TaskRow) : Except DbError Unit := do
  sent (old.map (·.title)) (some r.title)
  sent (old.bind (·.description)) r.description
  check "CHK_tasks_no_self_parent" (r.parentTaskId ≠ some r.id)
  reference "FK_tasks_project" (old.map (·.projectId)) (some r.projectId) s.projectIds
  reference "FK_tasks_parent" (old.bind (·.parentTaskId)) r.parentTaskId s.taskIds
  reference "FK_tasks_assignee" (old.bind (·.assigneeId)) r.assigneeId s.users
  reference "FK_tasks_creator" (old.map (·.createdBy)) (some r.createdBy) s.users

/-- The constraints of `comments`. -/
def checkComment (s : Tables) (old : Option CommentRow) (r : CommentRow) : Except DbError Unit := do
  sent (old.map (·.body)) (some r.body)
  check "CHK_comments_no_self_parent" (r.parentCommentId ≠ some r.id)
  reference "FK_comments_task" (old.map (·.taskId)) (some r.taskId) s.taskIds
  reference "FK_comments_author" (old.map (·.authorId)) (some r.authorId) s.users
  reference "FK_comments_parent" (old.bind (·.parentCommentId)) r.parentCommentId s.commentIds

/-- The constraints of `task_activity`. -/
def checkActivity (s : Tables) (r : TaskActivity) : Except DbError Unit := do
  reference "FK_task_activity_task" none (some r.taskId) s.taskIds
  reference "FK_task_activity_actor" none r.actorId s.users

def insertProject (s : Tables) (r : ProjectRow) : Except DbError Tables := do
  fresh "projects_pkey" r.id s.projectIds
  s.checkProject none r
  return { s with projects := s.projects ++ [r] }

def saveProject (s : Tables) (p : Project) : Except DbError Tables := do
  let r ← p.toRow?
  s.checkProject (s.projects.find? (·.id = r.id)) r
  return { s with projects := upsert ProjectRow.id r.over r s.projects }

def insertTask (s : Tables) (r : TaskRow) : Except DbError Tables := do
  fresh "tasks_pkey" r.id s.taskIds
  s.checkTask none r
  return { s with tasks := s.tasks ++ [r] }

def saveTask (s : Tables) (t : Task) : Except DbError Tables := do
  let r ← t.toRow?
  s.checkTask (s.tasks.find? (·.id = r.id)) r
  return { s with tasks := upsert TaskRow.id r.over r s.tasks }

def insertComment (s : Tables) (r : CommentRow) : Except DbError Tables := do
  fresh "comments_pkey" r.id s.commentIds
  s.checkComment none r
  return { s with comments := s.comments ++ [r] }

def saveComment (s : Tables) (c : Comment) : Except DbError Tables := do
  let r := c.toRow
  s.checkComment (s.comments.find? (·.id = r.id)) r
  return { s with comments := upsert CommentRow.id r.over r s.comments }

def insertActivity (s : Tables) (r : TaskActivity) : Except DbError Tables := do
  fresh "task_activity_pkey" r.id (s.activity.map TaskActivity.id)
  s.checkActivity r
  return { s with activity := s.activity ++ [r] }

/-! ### Deletes: what references a deleted row is deleted with it -/

/-- Deletes comments with the replies to them. -/
def deleteComments (s : Tables) (p : CommentRow → Bool) : Tables :=
  let gone := Recursive.reached replyTo s.comments (s.comments.filter p)
  { s with comments := s.comments.filter (· ∉ gone) }

/-- Deletes tasks with their subtasks, comments and activity. -/
def deleteTasks (s : Tables) (p : TaskRow → Bool) : Tables :=
  let gone := Recursive.reached childOf s.tasks (s.tasks.filter p)
  let ids := gone.map TaskRow.id
  { s.deleteComments (·.taskId ∈ ids) with
    tasks := s.tasks.filter (· ∉ gone), activity := s.activity.filter (·.taskId ∉ ids) }

def deleteProject (s : Tables) (id : Uuid) : Tables :=
  { s.deleteTasks (·.projectId = id) with projects := s.projects.filter (·.id ≠ id) }

end Tables

/-! ### The calls of the services -/

inductive Call where
  | findProject (id workspaceId : Uuid)
  | insertProject (n : NewProject)
  | saveProject (p : Project)
  | removeProject (id : Uuid)
  | listProjects (f : ProjectFilter) (cursor : Option Cursor) (take : Nat)
  | findTask (id projectId : Uuid)
  | insertTask (n : NewTask)
  | saveTask (t : Task)
  | removeTask (id : Uuid)
  | listTasks (f : TaskFilter) (cursor : Option Cursor) (take : Nat)
  | subtree (taskId projectId : Uuid)
  | descendants (taskId : Uuid)
  | depthOf (taskId : Uuid)
  | findComment (id taskId : Uuid)
  | insertComment (n : NewComment)
  | saveComment (c : Comment)
  | removeComment (id : Uuid)
  | listComments (f : CommentFilter) (cursor : Option Cursor) (take : Nat)
  | insertActivity (n : NewActivity)
  | listActivity (taskId : Uuid) (cursor : Option Cursor) (take : Nat)
  deriving DecidableEq

abbrev Call.Reply : Call → Type
  | .findProject _ _ => Option Project
  | .insertProject _ => Project
  | .saveProject _ => Project
  | .removeProject _ => Unit
  | .listProjects _ _ _ => List Project
  | .findTask _ _ => Option Task
  | .insertTask _ => Task
  | .saveTask _ => Task
  | .removeTask _ => Unit
  | .listTasks _ _ _ => List Task
  | .subtree _ _ => List SubtreeRow
  | .descendants _ => List (Uuid × Nat)
  | .depthOf _ => Nat
  | .findComment _ _ => Option Comment
  | .insertComment _ => Comment
  | .saveComment _ => Comment
  | .removeComment _ => Unit
  | .listComments _ _ _ => List Comment
  | .insertActivity _ => Unit
  | .listActivity _ _ _ => List TaskActivity

abbrev interface : Interface := ⟨Env, Call, Call.Reply, Err⟩

abbrev Service (α : Type) := Prog interface α

def exec (pg : Postgres) : Handler interface Tables := fun env c s =>
  match c with
  | .findProject id w =>
    (.ok ((s.projects.find? fun r => r.id = id && r.workspaceId = w).map ProjectRow.toEntity), s)
  | .insertProject n => commit s (n.saved env) (s.insertProject (n.toRow env))
  | .saveProject p => commit s p (s.saveProject p)
  | .removeProject id => (.ok (), s.deleteProject id)
  | .listProjects f cursor take =>
    ((select pg ProjectRow.key f.accepts cursor take s.projects).map (List.map ProjectRow.toEntity), s)
  | .findTask id p => (.ok ((s.tasks.find? fun r => r.id = id && r.projectId = p).map TaskRow.toEntity), s)
  | .insertTask n => commit s (n.saved env) (s.insertTask (n.toRow env))
  | .saveTask t => commit s t (s.saveTask t)
  | .removeTask id => (.ok (), s.deleteTasks (·.id = id))
  | .listTasks f cursor take =>
    ((select pg TaskRow.key f.accepts cursor take s.tasks).map (List.map TaskRow.toEntity), s)
  | .subtree id p => (s.subtree id p, s)
  | .descendants id => (s.descendants id, s)
  | .depthOf id => (s.depthOf id, s)
  | .findComment id t => (.ok ((s.comments.find? fun r => r.id = id && r.taskId = t).map CommentRow.toEntity), s)
  | .insertComment n => commit s (n.saved env) (s.insertComment (n.toRow env))
  | .saveComment c => commit s c (s.saveComment c)
  | .removeComment id => (.ok (), s.deleteComments (·.id = id))
  | .listComments f cursor take =>
    ((select pg CommentRow.key f.accepts cursor take s.comments).map (List.map CommentRow.toEntity), s)
  | .insertActivity n => commit s () (s.insertActivity (n.toRow env))
  | .listActivity t cursor take =>
    ((select pg TaskActivity.key (·.taskId = t) cursor take s.activity).map (List.map TaskActivity.toEntity), s)

end TaskPlatform.Board

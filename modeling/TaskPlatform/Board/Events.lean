import TaskPlatform.Library.Observe
import TaskPlatform.Board.Requests

/-! The events of a request. Every service does its work first, with at most one write, and then emits its
    events one after another. -/

namespace TaskPlatform.Board
open Effects

/-- Emits events in turn, each when the listener has run for the one before it. -/
def announce : List DomainEvent → Service Unit
  | [] => return ()
  | e :: es => do
    emit e
    announce es

/-! ### The services up to their events -/

namespace TasksService

/-- The events of a create that saved `task`. -/
def create.events (projectId : UuidText) (createdBy : Uuid) (task : Task) : List DomainEvent :=
  .taskCreated task.id.text projectId createdBy.text ::
    (task.assigneeId.map fun assigneeId => DomainEvent.taskAssigned task.id.text assigneeId createdBy.text).toList

def create.unannounced (workspaceId projectId : UuidText) (createdBy : Uuid) (dto : CreateTaskDto) :
    Service (List DomainEvent × Task) := do
  let _ ← ProjectsService.findOneOrFail workspaceId projectId
  let new : NewTask :=
    { projectId, createdBy, parentTaskId := dto.parentTaskId, title := dto.title, description := dto.description,
      status := .TODO, priority := dto.priority.getD .MEDIUM, assigneeId := dto.assigneeId, dueDate := dto.dueDate }
  match dto.parentTaskId with
  | none => save new
  | some parentTaskId => do
    let parent ← perform (.findTask parentTaskId.uuid projectId.uuid)
    match parent with
    | none => .throw (.badRequest "Parent task not found in this project")
    | some _ => save new
where
  save (new : NewTask) : Service (List DomainEvent × Task) := do
    let task ← perform (.insertTask new)
    return (create.events projectId createdBy task, task)

/-- `task.assigned` of an update that saved `saved`, if the assignee of the request is a new one. -/
def update.assigned (actorId : Uuid) (dto : UpdateTaskDto) (prevAssignee : Option UuidText) (saved : Task) :
    List DomainEvent :=
  match dto.assigneeId, saved.assigneeId with
  | some assignee, some assigneeId =>
    if assignee = prevAssignee then [] else [.taskAssigned saved.id.text assigneeId actorId.text]
  | _, _ => []

/-- `task.status_changed` and `task.completed`, if the status of the request is a new one. -/
def update.statusChanged (actorId : Uuid) (dto : UpdateTaskDto) (prevStatus : Option TaskStatus) (saved : Task) :
    List DomainEvent :=
  match dto.status with
  | none => []
  | some status =>
    if status = prevStatus then []
    else .taskStatusChanged saved.id.text prevStatus saved.status actorId.text ::
      if saved.status = some .DONE then [.taskCompleted saved.id.text actorId.text (some saved.createdBy.text)] else []

/-- The events of an update that saved `saved` in place of `prev`. -/
def update.events (actorId : Uuid) (dto : UpdateTaskDto) (prev saved : Task) : List DomainEvent :=
  update.assigned actorId dto prev.assigneeId saved ++ update.statusChanged actorId dto prev.status saved

def update.unannounced (workspaceId projectId taskId : UuidText) (actorId : Uuid) (dto : UpdateTaskDto) :
    Service (List DomainEvent × Task) := do
  let task ← findOneOrFail workspaceId projectId taskId
  let now ← Prog.read Env.now
  let saved ← perform (.saveTask (dto.apply now task))
  return (update.events actorId dto task saved, saved)

end TasksService

namespace CommentsService

/-- The events of a comment on `task` in reply to one of `parentAuthorId`. -/
def create.events (taskId : UuidText) (authorId : Uuid) (task : Task) (parentAuthorId : Option Uuid) (comment : Comment) :
    List DomainEvent :=
  .commentCreated comment.id.text taskId authorId.text comment.parentCommentId task.assigneeId ::
    match comment.parentCommentId, parentAuthorId with
    | some parentCommentId, some parentAuthorId =>
      [.commentReplied comment.id.text taskId parentCommentId parentAuthorId.text authorId.text]
    | _, _ => []

def create.unannounced (workspaceId projectId taskId : UuidText) (authorId : Uuid) (dto : CreateCommentDto) :
    Service (List DomainEvent × Comment) := do
  let task ← TasksService.findOneOrFail workspaceId projectId taskId
  match dto.parentCommentId with
  | none => save task none
  | some parentCommentId => do
    let parent ← perform (.findComment parentCommentId.uuid taskId.uuid)
    match parent with
    | none => .throw (.badRequest "Parent comment not found on this task")
    | some parent => save task (some parent.authorId)
where
  save (task : Task) (parentAuthorId : Option Uuid) : Service (List DomainEvent × Comment) := do
    let comment ← perform (.insertComment { taskId, authorId, parentCommentId := dto.parentCommentId, body := dto.body })
    return (create.events taskId authorId task parentAuthorId comment, comment)

end CommentsService

/-- A request up to its events. Only creates and updates of tasks and creates of comments have any. -/
def unannounced (r : Request) : Service (List DomainEvent × Response) :=
  let w := r.workspaceId
  match r.operation with
  | .createTask p user dto => do
    let (es, task) ← TasksService.create.unannounced w p user dto
    return (es, .task task)
  | .updateTask p t actor dto => do
    let (es, task) ← TasksService.update.unannounced w p t actor dto
    return (es, .task task)
  | .createComment p t author dto => do
    let (es, comment) ← CommentsService.create.unannounced w p t author dto
    return (es, .comment comment)
  | _ => return ([], ← program r)

/-- Emits the events of a request and answers it. -/
def announcing {α : Type} (x : List DomainEvent × α) : Service α := (announce x.1).bind fun _ => .ret x.2

/-! ### A request is its work, then its events -/

theorem announce_append (es es' : List DomainEvent) :
    announce (es ++ es') = (announce es).bind fun _ => announce es' := by
  induction es with
  | nil => rfl
  | cons e es ih =>
    rw [List.cons_append, announce, announce, Prog.bind_eq, Prog.bind_eq, Prog.bind_assoc, ih]

theorem announce_singleton (e : DomainEvent) : announce [e] = emit e := Prog.bind_ret (emit e)

theorem TasksService.create_announces (w p : UuidText) (createdBy : Uuid) (dto : CreateTaskDto) :
    TasksService.create w p createdBy dto = (TasksService.create.unannounced w p createdBy dto).bind announcing := by
  have hfinish : ∀ new, TasksService.create.finish p createdBy new =
      (TasksService.create.unannounced.save p createdBy new).bind announcing := by
    intro new
    rw [create.finish, create.unannounced.save, Prog.bind_eq, Prog.bind_eq, Prog.bind_assoc]
    refine congrArg _ (funext fun task => ?_)
    change _ = announcing (create.events p createdBy task, task)
    rw [announcing, create.events]
    cases task.assigneeId with
    | none =>
      rw [Option.map_none, Option.toList_none, announce_singleton]
      rfl
    | some a =>
      rw [Option.map_some, Option.toList_some, announce, announce_singleton, Prog.bind_eq, Prog.bind_eq, Prog.bind_assoc]
      rfl
  rw [create, create.unannounced, Prog.bind_eq, Prog.bind_eq, Prog.bind_assoc]
  refine congrArg _ (funext fun _ => ?_)
  cases dto.parentTaskId with
  | none => exact hfinish _
  | some q =>
    simp only [Prog.bind_eq, Prog.bind_assoc]
    refine congrArg _ (funext fun parent => ?_)
    cases parent with
    | none => rfl
    | some _ => exact hfinish _

theorem emitAssigned_announces (actorId : Uuid) (dto : UpdateTaskDto) (prev : Option UuidText) (saved : Task) :
    TasksService.update.emitAssigned actorId dto prev saved =
      announce (TasksService.update.assigned actorId dto prev saved) := by
  unfold TasksService.update.emitAssigned TasksService.update.assigned
  cases dto.assigneeId with
  | none => rfl
  | some assignee =>
    cases saved.assigneeId with
    | none => rfl
    | some assigneeId =>
      by_cases h : assignee = prev
      · simp only [h, if_true]
        rfl
      · simp only [h, if_false]
        exact (announce_singleton _).symm

theorem emitStatus_announces (actorId : Uuid) (dto : UpdateTaskDto) (prev : Option TaskStatus) (saved : Task) :
    TasksService.update.emitStatus actorId dto prev saved =
      announce (TasksService.update.statusChanged actorId dto prev saved) := by
  unfold TasksService.update.emitStatus TasksService.update.statusChanged
  cases dto.status with
  | none => rfl
  | some status =>
    by_cases h : status = prev
    · simp only [h, if_true]
      rfl
    · simp only [h, if_false]
      rw [announce, Prog.bind_eq, Prog.bind_eq]
      refine congrArg _ (funext fun _ => ?_)
      by_cases hdone : saved.status = some .DONE
      · rw [if_pos hdone, if_pos hdone]
        exact (announce_singleton _).symm
      · rw [if_neg hdone, if_neg hdone]
        rfl

theorem TasksService.update_announces (w p t : UuidText) (actorId : Uuid) (dto : UpdateTaskDto) :
    TasksService.update w p t actorId dto = (TasksService.update.unannounced w p t actorId dto).bind announcing := by
  rw [update, update.unannounced]
  simp only [Prog.bind_eq, Prog.bind_assoc]
  refine congrArg _ (funext fun task => congrArg _ (funext fun now => congrArg _ (funext fun saved => ?_)))
  change _ = announcing (update.events actorId dto task saved, saved)
  rw [announcing, update.events, announce_append, emitAssigned_announces, emitStatus_announces, Prog.bind_assoc]
  rfl

theorem CommentsService.create_announces (w p t : UuidText) (authorId : Uuid) (dto : CreateCommentDto) :
    CommentsService.create w p t authorId dto =
      (CommentsService.create.unannounced w p t authorId dto).bind announcing := by
  have hfinish : ∀ task parentAuthorId, CommentsService.create.finish t authorId dto task parentAuthorId =
      (CommentsService.create.unannounced.save t authorId dto task parentAuthorId).bind announcing := by
    intro task parentAuthorId
    rw [create.finish, create.unannounced.save, Prog.bind_eq, Prog.bind_eq, Prog.bind_assoc]
    refine congrArg _ (funext fun comment => ?_)
    change _ = announcing (create.events t authorId task parentAuthorId comment, comment)
    unfold announcing create.events
    rw [announce, Prog.bind_eq, Prog.bind_eq, Prog.bind_assoc]
    refine congrArg _ (funext fun _ => ?_)
    cases comment.parentCommentId with
    | none => rfl
    | some q =>
      cases parentAuthorId with
      | none => rfl
      | some a =>
        simp only [announce_singleton]
        rfl
  rw [create, create.unannounced, Prog.bind_eq, Prog.bind_eq, Prog.bind_assoc]
  refine congrArg _ (funext fun task => ?_)
  cases dto.parentCommentId with
  | none => exact hfinish task none
  | some q =>
    simp only [Prog.bind_eq, Prog.bind_assoc]
    refine congrArg _ (funext fun parent => ?_)
    cases parent with
    | none => rfl
    | some parent => exact hfinish task (some parent.authorId)

/-- Every request is its work and then its events. -/
theorem program_announces (r : Request) : program r = (unannounced r).bind announcing := by
  have hquiet : ∀ q : Service Response, q = (q.bind fun res => .ret (([] : List DomainEvent), res)).bind announcing := by
    intro q
    rw [Prog.bind_assoc]
    exact (Prog.bind_ret q).symm
  have hannounces : ∀ {α : Type} (f : α → Response) (q : Service (List DomainEvent × α)),
      (q.bind announcing).bind (fun a => .ret (f a)) = (q.bind fun x => .ret (x.1, f x.2)).bind announcing := by
    intro α f q
    rw [Prog.bind_assoc, Prog.bind_assoc]
    refine congrArg _ (funext fun x => ?_)
    rw [Prog.ret_bind, announcing, announcing, Prog.bind_assoc]
    rfl
  obtain ⟨w, operation⟩ := r
  cases operation with
  | createTask p user dto =>
    change (TasksService.create w p user dto).bind (fun a => .ret (Response.task a)) = _
    rw [TasksService.create_announces]
    exact hannounces Response.task _
  | updateTask p t actor dto =>
    change (TasksService.update w p t actor dto).bind (fun a => .ret (Response.task a)) = _
    rw [TasksService.update_announces]
    exact hannounces Response.task _
  | createComment p t author dto =>
    change (CommentsService.create w p t author dto).bind (fun a => .ret (Response.comment a)) = _
    rw [CommentsService.create_announces]
    exact hannounces Response.comment _
  | _ => exact hquiet _

end TaskPlatform.Board

import TaskPlatform.Board.CommentsService
import TaskPlatform.Notifications.NotificationsService
import TaskPlatform.Pagination.Walk

/-! The five list endpoints, and when following their cursors loses no row. -/

namespace TaskPlatform
open Effects

/-! ### The endpoints, each with the filter of its request -/

namespace Board
variable (pg : Postgres) (env : Nat → Env)

def projectsList (workspaceId : UuidText) (query : ListProjectsQueryDto) : ListEndpoint Tables ProjectRow Project where
  page q s := ((ProjectsService.list workspaceId { query with toPaginationQuery := q }).run (exec pg) env s).1
  table := Tables.projects
  accepts := ProjectFilter.accepts { workspaceId := workspaceId.uuid, status := query.status }
  stamp r := (r.createdAt, r.id)
  load := ProjectRow.toEntity
  shown p := (p.createdAt, p.id)

def tasksList (workspaceId projectId : UuidText) (query : ListTasksQueryDto) : ListEndpoint Tables TaskRow Task where
  page q s := ((TasksService.list workspaceId projectId { query with toPaginationQuery := q }).run (exec pg) env s).1
  table := Tables.tasks
  accepts := TaskFilter.accepts
    { projectId := projectId.uuid, status := query.status, priority := query.priority,
      assigneeId := query.assigneeId.map UuidText.uuid, parentTaskId := query.parentTaskId.map UuidText.uuid,
      topLevel := query.topLevel }
  stamp r := (r.createdAt, r.id)
  load := TaskRow.toEntity
  shown t := (t.createdAt, t.id)

def commentsList (workspaceId projectId taskId : UuidText) (query : ListCommentsQueryDto) :
    ListEndpoint Tables CommentRow Comment where
  page q s :=
    ((CommentsService.list workspaceId projectId taskId { query with toPaginationQuery := q }).run (exec pg) env s).1
  table := Tables.comments
  accepts := CommentFilter.accepts
    { taskId := taskId.uuid, parentCommentId := query.parentCommentId.map UuidText.uuid, topLevel := query.topLevel }
  stamp r := (r.createdAt, r.id)
  load := CommentRow.toEntity
  shown c := (c.createdAt, c.id)

def activityList (workspaceId projectId taskId : UuidText) : ListEndpoint Tables TaskActivity TaskActivity where
  page q s := ((ActivityService.listForTask workspaceId projectId taskId q).run (exec pg) env s).1
  table := Tables.activity
  accepts r := r.taskId = taskId.uuid
  stamp r := (r.createdAt, r.id)
  load := TaskActivity.toEntity
  shown a := (a.createdAt, a.id)

end Board

namespace Notifications

def notificationsList (pg : Postgres) (env : Nat → Env) (userId : UuidText) (query : ListNotificationsQueryDto) :
    ListEndpoint Tables NotificationRow Notification where
  page q s := ((NotificationsService.list userId { query with toPaginationQuery := q }).run (exec pg) env s).1
  table := Tables.notifications
  accepts := NotificationFilter.accepts { recipientId := userId.uuid, unread := query.unread }
  stamp r := (r.createdAt, r.id)
  load := NotificationRow.toEntity
  shown n := (n.createdAt, n.id)

end Notifications

/-! ### What the pages are -/

namespace Board
variable {pg : Postgres} {env : Nat → Env} {s : Tables} {w p t : UuidText} {α β : Type}

theorem findProject_run (f : Project → Service α) :
    ((ProjectsService.findOneOrFail w p).bind f).run (exec pg) env s =
      match s.projects.find? fun r => r.id = p.uuid && r.workspaceId = w.uuid with
      | none => (.error (.notFound "Project not found"), s)
      | some r => (f r.toEntity).run (exec pg) (fun n => env (n + 1)) s := by
  rw [ProjectsService.findOneOrFail, perform, Prog.perform, Prog.bind_eq, Prog.call_bind, Prog.call_bind, Prog.run_call]
  simp only [exec, Prog.ret_bind]
  cases s.projects.find? fun r => r.id = p.uuid && r.workspaceId = w.uuid <;> rfl

theorem findTask_run (f : Task → Service α) :
    ((TasksService.findOneOrFail w p t).bind f).run (exec pg) env s =
      match s.projects.find? fun r => r.id = p.uuid && r.workspaceId = w.uuid with
      | none => (.error (.notFound "Project not found"), s)
      | some _ =>
        match s.tasks.find? fun r => r.id = t.uuid && r.projectId = p.uuid with
        | none => (.error (.notFound "Task not found"), s)
        | some r => (f r.toEntity).run (exec pg) (fun n => env (n + 2)) s := by
  rw [TasksService.findOneOrFail, Prog.bind_eq, Prog.bind_assoc, findProject_run]
  cases s.projects.find? fun r => r.id = p.uuid && r.workspaceId = w.uuid with
  | none => rfl
  | some _ =>
    rw [perform, Prog.perform, Prog.bind_eq, Prog.call_bind, Prog.call_bind, Prog.run_call]
    simp only [exec, Prog.ret_bind]
    cases s.tasks.find? fun r => r.id = t.uuid && r.projectId = p.uuid <;> rfl

/-- The last step of a list. -/
theorem page_run {c : Call} {f : c.Reply → α} {rows : c.Reply} (h : (exec pg (env 1) c s).1 = .ok rows) :
    (((perform c).bind fun rows => Prog.ret (f rows)).run (exec pg) env s).1 = .ok (f rows) := by
  rw [perform, Prog.perform, Prog.call_bind, Prog.run_call, h]
  rfl

/-! ### The endpoints serve their lists -/

/-- Tables with one project and one task in it. -/
def oneTask (w p t : UuidText) : Tables where
  users := []
  workspaces := []
  projects := [⟨p.uuid, w.uuid, "", none, .ACTIVE, 0, .epoch⟩]
  tasks := [⟨t.uuid, p.uuid, none, "", none, .TODO, .MEDIUM, none, 0, none, none, .epoch⟩]
  comments := []
  activity := []
  generated := ⟨[], []⟩

theorem oneTask_project (w p t : UuidText) :
    ((oneTask w p t).projects.find? fun r => r.id = p.uuid && r.workspaceId = w.uuid).isSome = true := by
  simp [oneTask]

theorem oneTask_task (w p t : UuidText) :
    ((oneTask w p t).tasks.find? fun r => r.id = t.uuid && r.projectId = p.uuid).isSome = true := by
  simp [oneTask]

theorem projectsList_serves (query : ListProjectsQueryDto) : (projectsList pg env w query).Serves pg where
  shows _ := rfl
  selects _ _ h := page_run (c := .listProjects _ _ _) (congrArg (Except.map (List.map ProjectRow.toEntity)) h)

/-- Where the project is found, the rows of a page are those of the query. -/
theorem tasksList_page {q : PaginationQuery} {query : ListTasksQueryDto} {rows : List TaskRow}
    (hp : (s.projects.find? fun r => r.id = p.uuid && r.workspaceId = w.uuid).isSome = true)
    (h : select pg TaskRow.key (tasksList pg env w p query).accepts q.decoded (q.limitOr20 + 1) s.tasks = .ok rows) :
    (tasksList pg env w p query).page q s =
      .ok (buildPage (rows.map TaskRow.toEntity) q.limitOr20 (Stamp.text ∘ (tasksList pg env w p query).shown)) := by
  obtain ⟨r, hp⟩ := Option.isSome_iff_exists.mp hp
  simp only [tasksList, TasksService.list, Prog.bind_eq, findProject_run, hp]
  exact page_run (c := .listTasks _ _ _) (congrArg (Except.map (List.map TaskRow.toEntity)) h)

theorem tasksList_serves (query : ListTasksQueryDto) : (tasksList pg env w p query).Serves pg where
  shows _ := rfl
  selects {q s} answers got h := by
    refine tasksList_page ?_ h
    obtain ⟨_, hanswer⟩ := answers none
    simp only [tasksList, TasksService.list, Prog.bind_eq, findProject_run] at hanswer
    split at hanswer
    · cases hanswer
    · simp [*]

/-- Where the task is found, the rows of a page are those of the query. -/
theorem commentsList_page {q : PaginationQuery} {query : ListCommentsQueryDto} {rows : List CommentRow}
    (hp : (s.projects.find? fun r => r.id = p.uuid && r.workspaceId = w.uuid).isSome = true)
    (ht : (s.tasks.find? fun r => r.id = t.uuid && r.projectId = p.uuid).isSome = true)
    (h : select pg CommentRow.key (commentsList pg env w p t query).accepts q.decoded (q.limitOr20 + 1) s.comments =
      .ok rows) :
    (commentsList pg env w p t query).page q s = .ok
      (buildPage (rows.map CommentRow.toEntity) q.limitOr20 (Stamp.text ∘ (commentsList pg env w p t query).shown)) := by
  obtain ⟨_, hp⟩ := Option.isSome_iff_exists.mp hp
  obtain ⟨_, ht⟩ := Option.isSome_iff_exists.mp ht
  simp only [commentsList, CommentsService.list, Prog.bind_eq, findTask_run, hp, ht]
  exact page_run (c := .listComments _ _ _) (congrArg (Except.map (List.map CommentRow.toEntity)) h)

/-- Without the task nothing that begins with looking it up succeeds. -/
theorem findTask_found {f : Task → Service α} {a : α}
    (h : (((TasksService.findOneOrFail w p t).bind f).run (exec pg) env s).1 = .ok a) :
    (s.projects.find? fun r => r.id = p.uuid && r.workspaceId = w.uuid).isSome = true ∧
      (s.tasks.find? fun r => r.id = t.uuid && r.projectId = p.uuid).isSome = true := by
  rw [findTask_run] at h
  split at h
  · cases h
  · split at h
    · cases h
    · simp [*]

theorem commentsList_serves (query : ListCommentsQueryDto) : (commentsList pg env w p t query).Serves pg where
  shows _ := rfl
  selects {q s} answers got h := by
    obtain ⟨_, hanswer⟩ := answers none
    exact commentsList_page (findTask_found hanswer).1 (findTask_found hanswer).2 h

theorem activityList_page {q : PaginationQuery} {rows : List TaskActivity}
    (hp : (s.projects.find? fun r => r.id = p.uuid && r.workspaceId = w.uuid).isSome = true)
    (ht : (s.tasks.find? fun r => r.id = t.uuid && r.projectId = p.uuid).isSome = true)
    (h : select pg TaskActivity.key (activityList pg env w p t).accepts q.decoded (q.limitOr20 + 1) s.activity =
      .ok rows) :
    (activityList pg env w p t).page q s =
      .ok (buildPage (rows.map TaskActivity.toEntity) q.limitOr20 (Stamp.text ∘ (activityList pg env w p t).shown)) := by
  obtain ⟨_, hp⟩ := Option.isSome_iff_exists.mp hp
  obtain ⟨_, ht⟩ := Option.isSome_iff_exists.mp ht
  simp only [activityList, ActivityService.listForTask, Prog.bind_eq, findTask_run, hp, ht]
  exact page_run (c := .listActivity _ _ _) (congrArg (Except.map (List.map TaskActivity.toEntity)) h)

theorem activityList_serves : (activityList pg env w p t).Serves pg where
  shows _ := rfl
  selects {q s} answers got h := by
    obtain ⟨_, hanswer⟩ := answers none
    exact activityList_page (findTask_found hanswer).1 (findTask_found hanswer).2 h

end Board

namespace Notifications
variable {pg : Postgres} {env : Nat → Env} {userId : UuidText}

theorem notificationsList_page {s : Tables} {q : PaginationQuery} {query : ListNotificationsQueryDto}
    {rows : List NotificationRow}
    (h : select pg NotificationRow.key (notificationsList pg env userId query).accepts q.decoded (q.limitOr20 + 1)
      s.notifications = .ok rows) :
    (notificationsList pg env userId query).page q s = .ok
      (buildPage (rows.map NotificationRow.toEntity) q.limitOr20
        (Stamp.text ∘ (notificationsList pg env userId query).shown)) := by
  have hreply : (exec pg (env 1) (.listNotifications ⟨userId.uuid, query.unread⟩ q.decoded (q.limitOr20 + 1)) s).1 =
      .ok (rows.map NotificationRow.toEntity) := congrArg (Except.map (List.map NotificationRow.toEntity)) h
  simp only [notificationsList, NotificationsService.list, NotificationsService.perform, Prog.perform, Prog.bind_eq,
    Prog.call_bind, Prog.run_call]
  rw [hreply]
  rfl

theorem notificationsList_serves (query : ListNotificationsQueryDto) :
    (notificationsList pg env userId query).Serves pg where
  shows _ := rfl
  selects _ _ h := notificationsList_page h

end Notifications

/-! ### No row is lost -/

/-- Each of the lists, whatever its filter, loses the rows that the end of a page passes over, and no others: those
    listed after the last row of a page that are not before its time without the microseconds. -/
theorem lists_lose_no_row (pg : Postgres) (env : Nat → Env) (w p t user : UuidText)
    (projects : Board.ListProjectsQueryDto) (tasks : Board.ListTasksQueryDto) (comments : Board.ListCommentsQueryDto)
    (notifications : Notifications.ListNotificationsQueryDto) :
    (Board.projectsList pg env w projects).LosesOnlyPassed ∧ (Board.tasksList pg env w p tasks).LosesOnlyPassed ∧
      (Board.commentsList pg env w p t comments).LosesOnlyPassed ∧ (Board.activityList pg env w p t).LosesOnlyPassed ∧
      (Notifications.notificationsList pg env user notifications).LosesOnlyPassed :=
  ⟨ListEndpoint.losesOnlyPassed (Board.projectsList_serves projects),
    ListEndpoint.losesOnlyPassed (Board.tasksList_serves tasks),
    ListEndpoint.losesOnlyPassed (Board.commentsList_serves comments),
    ListEndpoint.losesOnlyPassed Board.activityList_serves,
    ListEndpoint.losesOnlyPassed (Notifications.notificationsList_serves notifications)⟩

/-- Two tasks of one millisecond: the one listed first is 56 microseconds younger. -/
def oneMillisecond : Board.Tables :=
  { Board.oneTask (Uuid.text 1) (Uuid.text 2) (Uuid.text 3) with
    tasks := [⟨3, 2, none, "younger", none, .TODO, .MEDIUM, none, 0, none, none, ⟨123456, by decide⟩⟩,
      ⟨4, 2, none, "older", none, .TODO, .MEDIUM, none, 0, none, none, ⟨123400, by decide⟩⟩] }

theorem oneMillisecond_answers :
    let l := Board.tasksList .strict envAt (Uuid.text 1) (Uuid.text 2) {}
    l.Answers oneMillisecond ∧ ((l.matching oneMillisecond).map (l.stamp · |>.2)).Nodup :=
  ⟨fun _ => ⟨_, Board.tasksList_page (Board.oneTask_project _ _ (Uuid.text 3)) rfl⟩, by decide⟩

/-- With both of them on a page, none is lost. -/
theorem lists_lose_no_row_two :
    (Board.tasksList .strict envAt (Uuid.text 1) (Uuid.text 2) {}).LosesNoRow (some 2) fun _ => oneMillisecond := by
  have h := (lists_lose_no_row .strict envAt (Uuid.text 1) (Uuid.text 2) (Uuid.text 3) (Uuid.text 5) {} {} {} {}).2.1
  refine (h (some 2) (fun _ => oneMillisecond) (by decide) (by decide) fun _ => oneMillisecond_answers).mpr ?_
  exact Keyset.passesNone_of_length_le (by decide)

/-- Page by page, with a limit of one, the list returns only the first of them. -/
theorem second_task_lost :
    let l := Board.tasksList .strict envAt (Uuid.text 1) (Uuid.text 2) {}
    (l.matching oneMillisecond).map Board.TaskRow.id = [3, 4] ∧
      (l.walk (some 1) [oneMillisecond, oneMillisecond] none).map (List.map Board.Task.id) = some [3] ∧
        ¬ l.LosesNoRow (some 1) fun _ => oneMillisecond := by
  refine ⟨by decide, by decide +kernel, fun complete => ?_⟩
  have passes := (ListEndpoint.losesOnlyPassed (Board.tasksList_serves {}) (some 1) (fun _ => oneMillisecond) (by decide)
    (by decide) fun _ => oneMillisecond_answers).mp complete
  -- The first page ends at the younger task.
  have hends : Keyset.EndsAt Board.TaskRow.key 1 none oneMillisecond.tasks (key ⟨123456, by decide⟩ 3) := by decide
  have hpassed := passes (key ⟨123400, by decide⟩ 4) (fun _ _ => ⟨_, List.mem_cons_of_mem _ (List.mem_cons_self ..), rfl⟩)
    0 _ hends (by decide)
  exact absurd hpassed (by decide)

end TaskPlatform

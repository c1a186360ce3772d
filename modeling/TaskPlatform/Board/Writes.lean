import TaskPlatform.Board.CommentsService

/-! What the calls of the services do to the tables, and what the tables keep in every run: ids differ,
    and references are to rows. -/

namespace TaskPlatform.Board
open Effects

namespace Tables
variable {s s' : Tables}

/-- The texts and the references of a task that its row may keep from `old`. -/
structure TaskRefs (s : Tables) (old : Option TaskRow) (r : TaskRow) : Prop where
  title : old.map (·.title) = some r.title ∨ readError r.title = none
  description : ∀ text ∈ r.description, old.bind (·.description) = some text ∨ readError text = none
  noSelf : r.parentTaskId ≠ some r.id
  project : old.map (·.projectId) = some r.projectId ∨ r.projectId ∈ s.projectIds
  parent : ∀ p ∈ r.parentTaskId, old.bind (·.parentTaskId) = some p ∨ p ∈ s.taskIds
  assignee : ∀ u ∈ r.assigneeId, old.bind (·.assigneeId) = some u ∨ u ∈ s.users
  creator : old.map (·.createdBy) = some r.createdBy ∨ r.createdBy ∈ s.users

/-- References depend on the tasks, the projects and the users only. -/
theorem TaskRefs.congr {old : Option TaskRow} {r : TaskRow} (h : s.TaskRefs old r) (tasks : s'.tasks = s.tasks)
    (projects : s'.projects = s.projects) (users : s'.users = s.users) : s'.TaskRefs old r where
  title := h.title
  description := h.description
  noSelf := h.noSelf
  project := by simpa only [projectIds, projects] using h.project
  parent := by simpa only [taskIds, tasks] using h.parent
  assignee := users ▸ h.assignee
  creator := users ▸ h.creator

structure CommentRefs (s : Tables) (old : Option CommentRow) (r : CommentRow) : Prop where
  noSelf : r.parentCommentId ≠ some r.id
  task : old.map (·.taskId) = some r.taskId ∨ r.taskId ∈ s.taskIds
  parent : ∀ p ∈ r.parentCommentId, old.bind (·.parentCommentId) = some p ∨ p ∈ s.commentIds

theorem checkTask_ok {old : Option TaskRow} {r : TaskRow} (h : s.checkTask old r = .ok ()) : s.TaskRefs old r := by
  obtain ⟨_, htitle, h⟩ := ok_of_bind h
  obtain ⟨_, hdescription, h⟩ := ok_of_bind h
  obtain ⟨_, hself, h⟩ := ok_of_bind h
  obtain ⟨_, hproject, h⟩ := ok_of_bind h
  obtain ⟨_, hparent, h⟩ := ok_of_bind h
  obtain ⟨_, hassignee, hcreator⟩ := ok_of_bind h
  exact ⟨sent_ok htitle _ rfl, sent_ok hdescription, by simpa using check_ok hself, reference_ok hproject _ rfl,
    reference_ok hparent, reference_ok hassignee, reference_ok hcreator _ rfl⟩

theorem checkComment_ok {old : Option CommentRow} {r : CommentRow} (h : s.checkComment old r = .ok ()) :
    s.CommentRefs old r := by
  obtain ⟨_, -, h⟩ := ok_of_bind h
  obtain ⟨_, hself, h⟩ := ok_of_bind h
  obtain ⟨_, htask, h⟩ := ok_of_bind h
  obtain ⟨_, _, hparent⟩ := ok_of_bind h
  exact ⟨by simpa using check_ok hself, reference_ok htask _ rfl, reference_ok hparent⟩

end Tables

theorem Project.toRow?_ok {p : Project} {r : ProjectRow} (h : p.toRow? = .ok r) :
    r.id = p.id ∧ r.workspaceId = p.workspaceId.uuid := by
  obtain ⟨_, -, h⟩ := ok_of_bind h
  obtain ⟨_, -, h⟩ := ok_of_bind h
  cases h
  exact ⟨rfl, rfl⟩

/-- Every column of the row of a task. -/
theorem Task.toRow?_row {x : Task} {r : TaskRow} (h : x.toRow? = .ok r) :
    x.title = some r.title ∧ x.status = some r.status ∧ x.priority = some r.priority ∧
      r.id = x.id ∧ r.projectId = x.projectId.uuid ∧ r.parentTaskId = x.parentTaskId.map UuidText.uuid ∧
      r.description = x.description ∧ r.assigneeId = x.assigneeId.map UuidText.uuid ∧ r.createdBy = x.createdBy ∧
      r.dueDate = x.dueDate ∧ r.completedAt = x.completedAt := by
  obtain ⟨title, htitle, h⟩ := ok_of_bind h
  obtain ⟨status, hstatus, h⟩ := ok_of_bind h
  obtain ⟨priority, hpriority, h⟩ := ok_of_bind h
  have hsome : ∀ {α : Type} {column : String} {o : Option α} {a : α}, required column o = .ok a → o = some a := by
    intro α column o a h
    cases o with
    | none => cases h
    | some b =>
      cases h
      rfl
  cases h
  exact ⟨hsome htitle, hsome hstatus, hsome hpriority, rfl, rfl, rfl, rfl, rfl, rfl, rfl, rfl⟩

theorem Task.toRow?_ok {t : Task} {r : TaskRow} (h : t.toRow? = .ok r) :
    r.id = t.id ∧ r.projectId = t.projectId.uuid ∧ r.parentTaskId = t.parentTaskId.map UuidText.uuid := by
  obtain ⟨-, -, -, hid, hproject, hparent, -⟩ := Task.toRow?_row h
  exact ⟨hid, hproject, hparent⟩

/-! ### What a call writes -/

/-- The row that a call adds or sets. -/
def Call.projectRow? (env : Env) : Call → Option ProjectRow
  | .insertProject n => some (n.toRow env)
  | .saveProject p => p.toRow?.toOption
  | _ => none

def Call.taskRow? (env : Env) : Call → Option TaskRow
  | .insertTask n => some (n.toRow env)
  | .saveTask t => t.toRow?.toOption
  | _ => none

def Call.commentRow? (env : Env) : Call → Option CommentRow
  | .insertComment n => some (n.toRow env)
  | .saveComment c => some c.toRow
  | _ => none

/-- What a call can do to the tables. -/
inductive Write (s : Tables) (env : Env) (c : Call) : Tables → Prop
  | same : Write s env c s
  | projectAdded {r : ProjectRow} (row : c.projectRow? env = some r) (fresh : r.id ∉ s.projectIds) :
      Write s env c { s with projects := s.projects ++ [r] }
  | projectSet {p : Project} {r old : ProjectRow} (call : c = .saveProject p) (row : p.toRow? = .ok r)
      (mem : old ∈ s.projects) (id : old.id = r.id) :
      Write s env c { s with projects := Table.replace ProjectRow.id (r.over old) s.projects }
  | projectRemoved {id : Uuid} (call : c = .removeProject id) : Write s env c (s.deleteProject id)
  | taskAdded {r : TaskRow} (row : c.taskRow? env = some r) (fresh : r.id ∉ s.taskIds) (refs : s.TaskRefs none r) :
      Write s env c { s with tasks := s.tasks ++ [r] }
  | taskSet {t : Task} {r old : TaskRow} (call : c = .saveTask t) (row : t.toRow? = .ok r) (mem : old ∈ s.tasks)
      (id : old.id = r.id) (refs : s.TaskRefs (some old) r) :
      Write s env c { s with tasks := Table.replace TaskRow.id (r.over old) s.tasks }
  | taskRemoved {id : Uuid} (call : c = .removeTask id) : Write s env c (s.deleteTasks (·.id = id))
  | commentAdded {r : CommentRow} (row : c.commentRow? env = some r) (fresh : r.id ∉ s.commentIds)
      (refs : s.CommentRefs none r) : Write s env c { s with comments := s.comments ++ [r] }
  | commentSet {m : Comment} {r old : CommentRow} (call : c = .saveComment m) (row : r = m.toRow)
      (mem : old ∈ s.comments) (id : old.id = r.id) (refs : s.CommentRefs (some old) r) :
      Write s env c { s with comments := Table.replace CommentRow.id (r.over old) s.comments }
  | commentRemoved {id : Uuid} (call : c = .removeComment id) : Write s env c (s.deleteComments (·.id = id))
  | activityAdded {n : NewActivity} (call : c = .insertActivity n)
      (fresh : env.uuid ∉ s.activity.map TaskActivity.id) (task : n.taskId.uuid ∈ s.taskIds) :
      Write s env c { s with activity := s.activity ++ [n.toRow env] }

section
variable {s : Tables} {env : Env} {c : Call}

theorem commit_write {α : Type} {a : α} {x : Except DbError Tables} (h : ∀ s', x = .ok s' → Write s env c s') :
    Write s env c (commit s a x).2 := by
  cases x with
  | error e => exact .same
  | ok s' => exact h s' rfl

theorem insertProject_write {n : NewProject} {s' : Tables} (h : s.insertProject (n.toRow env) = .ok s') :
    Write s env (.insertProject n) s' := by
  obtain ⟨_, hfresh, h⟩ := ok_of_bind h
  obtain ⟨_, -, h⟩ := ok_of_bind h
  cases h
  exact .projectAdded rfl (fresh_ok hfresh)

theorem saveProject_write {p : Project} {s' : Tables} (h : s.saveProject p = .ok s') :
    Write s env (.saveProject p) s' := by
  obtain ⟨r, hr, h⟩ := ok_of_bind h
  obtain ⟨_, -, h⟩ := ok_of_bind h
  cases h
  have hrow : (Call.saveProject p).projectRow? env = some r := by simp [Call.projectRow?, hr, Except.toOption]
  rcases upsert_cases ProjectRow.id r.over r s.projects with
    ⟨old, hm, hid, -, heq⟩ | ⟨hfresh, -, heq⟩
  · exact heq ▸ .projectSet rfl hr hm hid
  · exact heq ▸ .projectAdded hrow hfresh

theorem insertTask_write {n : NewTask} {s' : Tables} (h : s.insertTask (n.toRow env) = .ok s') :
    Write s env (.insertTask n) s' := by
  obtain ⟨_, hfresh, h⟩ := ok_of_bind h
  obtain ⟨_, hrefs, h⟩ := ok_of_bind h
  cases h
  exact .taskAdded rfl (fresh_ok hfresh) (Tables.checkTask_ok hrefs)

theorem saveTask_write {t : Task} {s' : Tables} (h : s.saveTask t = .ok s') : Write s env (.saveTask t) s' := by
  obtain ⟨r, hr, h⟩ := ok_of_bind h
  obtain ⟨_, hrefs, h⟩ := ok_of_bind h
  cases h
  have hrow : (Call.saveTask t).taskRow? env = some r := by simp [Call.taskRow?, hr, Except.toOption]
  have hrefs := Tables.checkTask_ok hrefs
  rcases upsert_cases TaskRow.id r.over r s.tasks with
    ⟨old, hm, hid, hf, heq⟩ | ⟨hfresh, hf, heq⟩
  · exact heq ▸ .taskSet rfl hr hm hid (hf ▸ hrefs)
  · exact heq ▸ .taskAdded hrow hfresh (hf ▸ hrefs)

theorem insertComment_write {n : NewComment} {s' : Tables} (h : s.insertComment (n.toRow env) = .ok s') :
    Write s env (.insertComment n) s' := by
  obtain ⟨_, hfresh, h⟩ := ok_of_bind h
  obtain ⟨_, hrefs, h⟩ := ok_of_bind h
  cases h
  exact .commentAdded rfl (fresh_ok hfresh) (Tables.checkComment_ok hrefs)

theorem saveComment_write {m : Comment} {s' : Tables} (h : s.saveComment m = .ok s') :
    Write s env (.saveComment m) s' := by
  obtain ⟨_, hrefs, h⟩ := ok_of_bind h
  cases h
  have hrefs := Tables.checkComment_ok hrefs
  rcases upsert_cases CommentRow.id m.toRow.over m.toRow s.comments with ⟨old, hm, hid, hf, heq⟩ | ⟨hfresh, hf, heq⟩
  · exact heq ▸ .commentSet rfl rfl hm hid (hf ▸ hrefs)
  · exact heq ▸ .commentAdded rfl hfresh (hf ▸ hrefs)

theorem insertActivity_write {n : NewActivity} {s' : Tables} (h : s.insertActivity (n.toRow env) = .ok s') :
    Write s env (.insertActivity n) s' := by
  obtain ⟨_, hfresh, h⟩ := ok_of_bind h
  obtain ⟨_, hrefs, h⟩ := ok_of_bind h
  cases h
  obtain ⟨_, htask, -⟩ := ok_of_bind hrefs
  exact .activityAdded rfl (fresh_ok hfresh) ((reference_ok htask _ rfl).resolve_left (Option.some_ne_none _).symm)

/-- Every call does what `Write` says. -/
theorem exec_write (pg : Postgres) (s : Tables) (env : Env) (c : Call) : Write s env c (exec pg env c s).2 := by
  cases c with
  | insertProject n => exact commit_write fun _ => insertProject_write
  | saveProject p => exact commit_write fun _ => saveProject_write
  | insertTask n => exact commit_write fun _ => insertTask_write
  | saveTask t => exact commit_write fun _ => saveTask_write
  | insertComment n => exact commit_write fun _ => insertComment_write
  | saveComment m => exact commit_write fun _ => saveComment_write
  | insertActivity n => exact commit_write fun _ => insertActivity_write
  | removeProject id => exact .projectRemoved rfl
  | removeTask id => exact .taskRemoved rfl
  | removeComment id => exact .commentRemoved rfl
  | findProject | listProjects | findTask | listTasks | subtree | descendants | depthOf | findComment | listComments
  | listActivity => exact .same

/-- Where a task after a call has its creator from. -/
theorem Write.creator {s' : Tables} {x : TaskRow} (w : Write s env c s') (hx : x ∈ s'.tasks) :
    (∃ y ∈ s.tasks, y.id = x.id ∧ y.createdBy = x.createdBy) ∨ (∃ n, c = .insertTask n ∧ x = n.toRow env) ∨
      ∃ t, c = .saveTask t ∧ t.id = x.id ∧ t.createdBy = x.createdBy := by
  have old : x ∈ s.tasks → ∃ y ∈ s.tasks, y.id = x.id ∧ y.createdBy = x.createdBy := fun hx => ⟨x, hx, rfl, rfl⟩
  have saved : ∀ {t : Task} {r : TaskRow}, t.toRow? = .ok r → t.id = r.id ∧ t.createdBy = r.createdBy := fun h => by
    obtain ⟨-, -, -, hid, -, -, -, -, hby, -⟩ := Task.toRow?_row h
    exact ⟨hid.symm, hby.symm⟩
  cases w with
  | same | projectAdded | projectSet | commentAdded | commentSet | commentRemoved | activityAdded => exact Or.inl (old hx)
  | projectRemoved | taskRemoved => exact Or.inl (old (List.mem_filter.mp hx).1)
  | taskAdded row =>
    rcases List.mem_append.mp hx with hx | hx
    · exact Or.inl (old hx)
    · obtain rfl := List.mem_singleton.mp hx
      cases c with
      | insertTask n => exact Or.inr (Or.inl ⟨n, rfl, (Option.some.inj row).symm⟩)
      | saveTask t => exact Or.inr (Or.inr ⟨t, rfl, saved (ok_of_toOption row)⟩)
      | _ => cases row
  | @taskSet t r o call row mem id =>
    rcases (Table.mem_replace (x := r.over o) ⟨o, mem, id⟩).mp hx with rfl | ⟨hx, -⟩
    · exact Or.inr (Or.inr ⟨t, call, saved (r := r) row⟩)
    · exact Or.inl (old hx)

/-- No call changes what the tables refer to outside. -/
theorem Write.outside {s' : Tables} (w : Write s env c s') :
    s'.users = s.users ∧ s'.workspaces = s.workspaces ∧ s'.generated = s.generated := by
  cases w <;> exact ⟨rfl, rfl, rfl⟩

end
end TaskPlatform.Board

import TaskPlatform.Board.Requests
import TaskPlatform.Board.Isolation
import TaskPlatform.Board.Forest

/-! What the `PATCH` requests of `TasksController` change, and who may send them. -/

namespace TaskPlatform.Board
open Effects

/-! ### The controller -/

/-- Rejects those who are no members; the role is only attached to the request. -/
def WorkspaceMemberGuard.canActivate (membership : Option WorkspaceRole) : Service WorkspaceRole :=
  match membership with
  | none => .throw (.forbidden "You are not a member of this workspace")
  | some role => return role

namespace TasksController

def move (membership : Option WorkspaceRole) (workspaceId projectId taskId : UuidText)
    (parentTaskId : Option UuidText) : Service Task := do
  let _ ← WorkspaceMemberGuard.canActivate membership
  TasksService.moveTask workspaceId projectId taskId parentTaskId

def update (membership : Option WorkspaceRole) (workspaceId projectId taskId : UuidText) (userId : Uuid)
    (dto : UpdateTaskDto) : Service Task := do
  let _ ← WorkspaceMemberGuard.canActivate membership
  TasksService.update workspaceId projectId taskId userId dto

/-- The body of a `PATCH` of a task. -/
inductive Patch where
  | move (parentTaskId : Option UuidText)
  | update (dto : UpdateTaskDto)

def patch (membership : Option WorkspaceRole) (workspaceId projectId taskId : UuidText) (userId : Uuid) :
    Patch → Service Task
  | .move parentTaskId => move membership workspaceId projectId taskId parentTaskId
  | .update dto => update membership workspaceId projectId taskId userId dto

end TasksController

/-- The user created the task or is its assignee. -/
def TaskRow.ownedBy (t : TaskRow) (userId : Uuid) : Prop := t.createdBy = userId ∨ t.assigneeId = some userId

/-- Every task that the program changes is one of the user's own. -/
def ChangesOwn (pg : Postgres) (userId : Uuid) (s : Tables) (q : Service Task) : Prop :=
  ∀ env, ∀ x ∈ s.tasks, x ∉ (q.run (system pg).handler env s).2.tasks → x.ownedBy userId

/-! ### No task is its own parent -/

/-- What the check `CHK_tasks_no_self_parent` keeps. -/
def Tables.NoSelfParent (s : Tables) : Prop := ∀ t ∈ s.tasks, t.parentTaskId ≠ some t.id

section
variable {pg : Postgres} {s s' : Tables} {env : Env} {c : Call}

theorem Write.noSelfParent (w : Write s env c s') (h : s.NoSelfParent) : s'.NoSelfParent := by
  cases w with
  | same | projectAdded | projectSet | commentAdded | commentSet | commentRemoved | activityAdded => exact h
  | projectRemoved | taskRemoved => exact fun t ht => h t (Tables.mem_deleteTasks.mp ht).1
  | taskAdded row fresh refs =>
    intro t ht
    rcases List.mem_append.mp ht with ht | ht
    · exact h t ht
    · obtain rfl := List.mem_singleton.mp ht
      exact refs.noSelf
  | @taskSet t r old call row mem id refs =>
    intro x hx
    rcases (Table.mem_replace (x := r.over old) ⟨old, mem, id⟩).mp hx with rfl | ⟨hx, -⟩
    · exact refs.noSelf
    · exact h x hx

/-- What the start has and every write keeps, every reachable state has. -/
theorem Tables.Reachable.induction {P : Tables → Prop} (h : s.Reachable pg)
    (start : ∀ users workspaces generated, P (Tables.start users workspaces generated))
    (spend : ∀ {s env}, P s → P (s.spend env)) (write : ∀ {s env c s'}, P s → Write s env c s' → P s') : P s := by
  obtain ⟨users, workspaces, generated, c, hr, rfl⟩ := h
  refine hr.invariant (P := fun c => P c.shared) (start users workspaces generated) fun {d m e} h _ hs => ?_
  rcases System.step_shared hs with heq | ⟨env, -, heq⟩ | ⟨i, fate, env, t, op, -, -, -, -, heq⟩
  · exact heq ▸ h
  · exact heq ▸ spend h
  · rw [heq]
    cases fate with
    | failed => exact spend h
    | answered | lost => exact write (spend h) (exec_write pg (d.shared.spend env) env op)

theorem Tables.Reachable.noSelfParent (h : s.Reachable pg) : s.NoSelfParent :=
  h.induction (fun _ _ _ _ ht => absurd ht List.not_mem_nil) (fun h => h) fun h w => w.noSelfParent h

end

/-! ### Renaming a task -/

section
variable {pg : Postgres} {s : Tables} {env : Nat → Env} {w p t : UuidText}

/-- A task can be given another title that is read, whatever its references are. -/
theorem saveTask_title (wf : s.WellFormed) (noSelf : s.NoSelfParent) {x : TaskRow} (mem : x ∈ s.tasks) {title : String}
    (reads : readError title = none) :
    s.saveTask { x.toEntity with title := some title } =
      .ok { s with tasks := Table.replace TaskRow.id { x with title } s.tasks } := by
  have hrow : Task.toRow? { x.toEntity with title := some title } =
      .ok { x with title, createdAt := x.createdAt.truncate } := by
    simp [Task.toRow?, required, TaskRow.toEntity, Function.comp_def, Uuid.text]
    rfl
  have hfind : s.tasks.find? (·.id = x.id) = some x := Table.find?_key wf.tasks mem
  have hcheck : s.checkTask (some x) { x with title, createdAt := x.createdAt.truncate } = .ok () := by
    have htitle : sent (some x.title) (some title) = .ok () := by simp [sent, reads]
    simp only [Tables.checkTask, Option.map_some, Option.bind_some, reference_same, sent_same, htitle]
    rw [check, if_pos (decide_eq_true (noSelf x mem))]
    rfl
  simp only [Tables.saveTask, hrow]
  show (s.checkTask (s.tasks.find? (·.id = x.id)) _ >>= fun _ => _) = _
  rw [hfind, hcheck]
  show Except.ok _ = _
  rw [upsert, hfind]
  rfl

/-- Another title than that of a task. -/
theorem exists_title (old : String) : ∃ title, title ≠ old ∧ readError title = none := by
  by_cases h : old = "Mine"
  · exact ⟨"Yours", by rw [h]; decide, by decide⟩
  · exact ⟨"Mine", Ne.symm h, by decide⟩

variable (pg env) in
/-- Any member can rename any task of the project. -/
theorem update_title (wf : s.WellFormed) (noSelf : s.NoSelfParent) {x : TaskRow} (mem : x ∈ s.tasks) (id : x.id = t.uuid)
    (project : x.projectId = p.uuid) (inProject : s.InProject w.uuid p.uuid) (userId : Uuid) {title : String}
    (reads : readError title = none) :
    ((TasksService.update w p t userId { title := some (some title) }).run (system pg).handler env s).2.tasks =
      Table.replace TaskRow.id { x with title } s.tasks := by
  obtain ⟨y, hy, hyp⟩ := inProject
  have hproject : s.projects.find? (fun r => r.id = p.uuid && r.workspaceId = w.uuid) = some y := by
    refine Table.find?_unique hy (by simpa using hyp) fun z hz h => ?_
    simp only [Bool.and_eq_true, decide_eq_true_eq] at h
    exact Table.eq_of_key wf.projects hz hy (h.1.trans hyp.1.symm)
  have htask : s.tasks.find? (fun r => r.id = t.uuid && r.projectId = p.uuid) = some x := by
    refine Table.find?_unique mem (by simp [id, project]) fun z hz h => ?_
    simp only [Bool.and_eq_true, decide_eq_true_eq] at h
    exact Table.eq_of_key wf.tasks hz mem (h.1.trans id.symm)
  have hsave : ∀ (e : Env) (s' : Tables), s'.WellFormed → s'.tasks = s.tasks →
      ((system pg).handler e (.saveTask { x.toEntity with title := some title }) s') =
        (.ok { x.toEntity with title := some title },
          { s'.spend e with tasks := Table.replace TaskRow.id { x with title } s.tasks }) := by
    intro e s' wf' htasks
    have := saveTask_title (wf'.spend e) (fun y hy => noSelf y (htasks ▸ hy)) (x := x) (htasks ▸ mem) reads
    simp only [System.handler, system, exec, this, commit]
    rw [← htasks]
    rfl
  rw [TasksService.update, Prog.bind_eq, findTask_served, hproject, htask]
  simp only [Prog.bind_eq, Prog.read_bind, Prog.run_ask]
  rw [perform, Prog.run_perform_ok (I := interface) _ (hsave (env 3) _ ((wf.spend (env 1)).spend (env 2)) rfl)]
  rfl

/-- A save of the task that the URL names changes no other one. -/
theorem SavesTask.changed {x : TaskRow → Task} {s' : Tables} (h : SavesTask w p t x s s')
    (hid : ∀ old, (x old).id = old.id) {y : TaskRow} (mem : y ∈ s.tasks) (gone : y ∉ s'.tasks) :
    y.id = t.uuid ∧ s.InProject w.uuid p.uuid ∧ ∃ old ∈ s.tasks, old.id = t.uuid ∧ old.projectId = p.uuid := by
  obtain ⟨old, r, hold, hot, hop, hin, hr, -, htasks⟩ := h
  obtain ⟨hrid, -⟩ := Task.toRow?_ok hr
  have hkey : old.id = (r.over old).id := (hid old).symm.trans hrid.symm
  refine ⟨?_, hin, old, hold, hot, hop⟩
  by_contra hne
  refine gone ?_
  rw [htasks, Table.mem_replace ⟨old, hold, hkey⟩]
  exact Or.inr ⟨mem, fun heq => hne ((heq.trans hkey.symm).trans hot)⟩

/-- A `PATCH` changes no task but the one of the URL, if it is in the project of the URL. -/
theorem patch_changed (wf : s.WellFormed) {role : Option WorkspaceRole} {userId : Uuid} {b : TasksController.Patch}
    {y : TaskRow} (mem : y ∈ s.tasks)
    (gone : y ∉ ((TasksController.patch role w p t userId b).run (system pg).handler env s).2.tasks) :
    role.isSome ∧ y.id = t.uuid ∧ y.projectId = p.uuid ∧ s.InProject w.uuid p.uuid := by
  cases role with
  | none =>
    have hsame : ((TasksController.patch none w p t userId b).run (system pg).handler env s).2.tasks = s.tasks := by
      cases b <;> rfl
    exact absurd (hsame ▸ mem) gone
  | some role =>
    have hfound : y.id = t.uuid ∧ s.InProject w.uuid p.uuid ∧ ∃ old ∈ s.tasks, old.id = t.uuid ∧ old.projectId = p.uuid := by
      cases b with
      | move parentTaskId =>
        rcases moveTask_tasks pg env w p t wf parentTaskId with hsame | ⟨-, hsaves⟩
        · exact absurd (hsame ▸ mem) gone
        · exact hsaves.changed (fun _ => rfl) mem gone
      | update dto =>
        rcases updateTask_tasks pg env w p t wf userId dto with hsame | ⟨now, hsaves⟩
        · exact absurd (hsame ▸ mem) gone
        · exact hsaves.changed (fun _ => rfl) mem gone
    obtain ⟨hid, hin, old, hold, hot, hop⟩ := hfound
    obtain rfl := Table.eq_of_key wf.tasks hold mem (hot.trans hid.symm)
    exact ⟨rfl, hid, hop, hin⟩

end

/-- Whatever `PATCH` a user who is no `ADMIN` sends to the URL, it changes only tasks of that user, exactly if the user
    is no member, or the task of the URL is the user's own, or there is no such task in the project. -/
theorem patch_own_iff (pg : Postgres) (s : Tables) (hs : s.Reachable pg) (role : Option WorkspaceRole)
    (w p t : UuidText) (userId : Uuid) :
    (role ≠ some .ADMIN → ∀ b, ChangesOwn pg userId s (TasksController.patch role w p t userId b)) ↔
      (role = some .MEMBER →
        ∀ x ∈ s.tasks, x.id = t.uuid → x.projectId = p.uuid → s.InProject w.uuid p.uuid → x.ownedBy userId) := by
  obtain ⟨k, hk⟩ := hs.fits
  constructor
  · rintro h rfl x mem id project inProject
    obtain ⟨title, hother, reads⟩ := exists_title x.title
    refine h nofun (.update { title := some (some title) }) envAt x mem fun hmem => ?_
    have htasks := update_title pg envAt hk.wellFormed hs.noSelfParent mem id project inProject userId reads
    replace hmem : x ∈ Table.replace TaskRow.id { x with title } s.tasks := htasks ▸ hmem
    rcases (Table.mem_replace (x := { x with title }) ⟨x, mem, rfl⟩).mp hmem with heq | ⟨-, hne⟩
    · exact hother (congrArg TaskRow.title heq).symm
    · exact hne rfl
  · intro h hrole b env x mem gone
    obtain ⟨hmember, hid, hproject, hin⟩ := patch_changed hk.wellFormed mem gone
    match role with
    | some .ADMIN => exact absurd rfl hrole
    | some .MEMBER => exact h rfl x mem hid hproject hin
    | none => cases hmember

/-! ### A member renames somebody else's task -/

def plan : TaskRow := ⟨105, 102, none, "Task", none, .TODO, .MEDIUM, none, 9, none, none, .epoch⟩

set_option maxRecDepth 8000 in
/-- User 9 creates a project and a task in it. -/
theorem plan_reachable : ∃ s : Tables, s.Reachable .strict ∧ s.tasks = [plan] ∧ s.projects = [website] :=
  ⟨_, ⟨[8, 9], [1], ⟨[], []⟩, _, System.reach_of_run
    [.start ⟨Uuid.text 1, .createProject 9 { name := "Website" }⟩ (envAt 1), .call 0 .answered (envAt 2),
     .start ⟨Uuid.text 1, .createTask (Uuid.text 102) 9 { title := "Task" }⟩ (envAt 3), .call 1 .answered (envAt 4),
     .call 1 .answered (envAt 5), .call 1 .answered (envAt 6)] rfl, rfl⟩, rfl, rfl⟩

theorem patch_own_creator : ∃ s : Tables, s.tasks = [plan] ∧
    ∀ b, ChangesOwn .strict 9 s (TasksController.patch (some .MEMBER) (Uuid.text 1) (Uuid.text 102) (Uuid.text 105) 9 b) := by
  obtain ⟨s, hs, htasks, -⟩ := plan_reachable
  refine ⟨s, htasks, (patch_own_iff .strict s hs (some .MEMBER) (Uuid.text 1) (Uuid.text 102) (Uuid.text 105) 9).mpr
    (fun _ x mem _ _ _ => ?_) nofun⟩
  obtain rfl := List.mem_singleton.mp (htasks ▸ mem)
  exact Or.inl rfl

/-- User 8 neither created the task nor is its assignee. -/
theorem member_changes_other : ∃ s : Tables, s.Reachable .strict ∧
    ¬ ChangesOwn .strict 8 s (TasksController.patch (some .MEMBER) (Uuid.text 1) (Uuid.text 102) (Uuid.text 105) 8
      (.update { title := some (some "Mine") })) := by
  obtain ⟨s, hs, htasks, hprojects⟩ := plan_reachable
  obtain ⟨k, hk⟩ := hs.fits
  have hmem : plan ∈ s.tasks := htasks ▸ List.mem_singleton_self plan
  have hin : s.InProject 1 102 := ⟨website, hprojects ▸ List.mem_singleton_self website, rfl, rfl⟩
  have hrenamed := update_title .strict envAt hk.wellFormed hs.noSelfParent hmem (t := Uuid.text 105)
    (p := Uuid.text 102) (w := Uuid.text 1) rfl rfl hin 8
    (by decide : readError "Mine" = none)
  refine ⟨s, hs, fun h => ?_⟩
  have howned : plan.ownedBy 8 := by
    refine h envAt plan hmem fun hkept => ?_
    have : plan ∈ Table.replace TaskRow.id { plan with title := "Mine" } s.tasks := hrenamed ▸ hkept
    rw [htasks] at this
    exact absurd this (by decide)
  rcases howned with h | h <;> cases h

end TaskPlatform.Board

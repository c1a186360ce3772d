import TaskPlatform.Library.Serial
import TaskPlatform.Board.Tenancy

/-! What the requests of `TasksService`, each served alone, do to the tasks. -/

namespace TaskPlatform.Board
open Effects

section
variable {pg : Postgres} {env : Nat → Env} {s : Tables} {w p t : UuidText} {α : Type}

theorem findProject_served (f : Project → Service α) :
    ((ProjectsService.findOneOrFail w p).bind f).run (system pg).handler env s =
      match s.projects.find? fun r => r.id = p.uuid && r.workspaceId = w.uuid with
      | none => (.error (.notFound "Project not found"), s.spend (env 1))
      | some r => (f r.toEntity).run (system pg).handler (fun n => env (n + 1)) (s.spend (env 1)) := by
  rw [ProjectsService.findOneOrFail, perform, Prog.perform, Prog.bind_eq, Prog.call_bind, Prog.call_bind, Prog.run_call]
  simp only [System.handler, system, exec, Prog.ret_bind, Tables.spend]
  cases s.projects.find? fun r => r.id = p.uuid && r.workspaceId = w.uuid <;> rfl

theorem findTask_served (f : Task → Service α) :
    ((TasksService.findOneOrFail w p t).bind f).run (system pg).handler env s =
      match s.projects.find? fun r => r.id = p.uuid && r.workspaceId = w.uuid with
      | none => (.error (.notFound "Project not found"), s.spend (env 1))
      | some _ =>
        match s.tasks.find? fun r => r.id = t.uuid && r.projectId = p.uuid with
        | none => (.error (.notFound "Task not found"), (s.spend (env 1)).spend (env 2))
        | some r =>
          (f r.toEntity).run (system pg).handler (fun n => env (n + 2)) ((s.spend (env 1)).spend (env 2)) := by
  rw [TasksService.findOneOrFail, Prog.bind_eq, Prog.bind_assoc, findProject_served]
  cases s.projects.find? fun r => r.id = p.uuid && r.workspaceId = w.uuid with
  | none => rfl
  | some _ =>
    rw [perform, Prog.perform, Prog.bind_eq, Prog.call_bind, Prog.call_bind, Prog.run_call]
    simp only [System.handler, system, exec, Prog.ret_bind, Tables.spend]
    cases s.tasks.find? fun r => r.id = t.uuid && r.projectId = p.uuid <;> rfl

/-! ### Events leave the tasks -/

/-- What an event is recorded with. -/
def Call.Records (c : Call) : Prop := ∃ n, c = .insertActivity n

theorem emit_records (e : DomainEvent) : (emit e).Calls Call.Records := by
  refine Prog.Calls.handle ?_ fun _ => trivial
  cases e with
  | commentReplied => trivial
  | taskCreated | taskAssigned | taskStatusChanged | taskCompleted | commentCreated =>
    exact Prog.calls_perform ⟨_, rfl⟩

theorem Call.Records.tasks {c : Call} (h : c.Records) (env : Env) (s : Tables) :
    ((system pg).handler env c s).2.tasks = s.tasks := by
  obtain ⟨n, rfl⟩ := h
  simp only [System.handler, system, exec]
  cases h : (s.spend env).insertActivity (n.toRow env) with
  | error e => rfl
  | ok s' =>
    obtain ⟨_, -, h⟩ := ok_of_bind h
    obtain ⟨_, -, h⟩ := ok_of_bind h
    cases h
    rfl

/-- After the records of events the tasks are as before. -/
theorem records_tasks {q : Service α} (h : q.Calls Call.Records) :
    (q.run (system pg).handler env s).2.tasks = s.tasks :=
  h.run_keeps (K := fun s' : Tables => s'.tasks = s.tasks) (fun hc hs => (hc.tasks _ _).trans hs) rfl

/-! ### Saves -/

/-- A save of a task that is in the table sets its row, or is rejected. -/
theorem saveTask_cases (wf : s.WellFormed) {old : TaskRow} (mem : old ∈ s.tasks) {x : Task} (hid : x.id = old.id) :
    (∃ e, s.saveTask x = .error e) ∨ ∃ r, x.toRow? = .ok r ∧ s.TaskRefs (some old) r ∧
      s.saveTask x = .ok { s with tasks := Table.replace TaskRow.id (r.over old) s.tasks } := by
  cases h : s.saveTask x with
  | error e => exact Or.inl ⟨e, rfl⟩
  | ok s' =>
    obtain ⟨r, hr, h⟩ := ok_of_bind h
    obtain ⟨_, hrefs, h⟩ := ok_of_bind h
    cases h
    obtain ⟨hrid, -⟩ := Task.toRow?_ok hr
    have hfind : s.tasks.find? (·.id = r.id) = some old := by
      rw [hrid, hid]
      exact Table.find?_key wf.tasks mem
    refine Or.inr ⟨r, hr, hfind ▸ Tables.checkTask_ok hrefs, ?_⟩
    rw [upsert, hfind]

variable (pg) in
/-- The call of such a save. -/
theorem saveTask_handled (wf : s.WellFormed) {old : TaskRow} (mem : old ∈ s.tasks) {x : Task} (hid : x.id = old.id) (e : Env) :
    (∃ err, (system pg).handler e (.saveTask x) s = (.error (.db err), s.spend e)) ∨
      ∃ r, x.toRow? = .ok r ∧ s.TaskRefs (some old) r ∧ (system pg).handler e (.saveTask x) s =
        (.ok x, { s.spend e with tasks := Table.replace TaskRow.id (r.over old) s.tasks }) := by
  rcases saveTask_cases (wf.spend e) mem hid with ⟨err, h⟩ | ⟨r, hr, hrefs, h⟩
  · refine Or.inl ⟨err, ?_⟩
    simp only [System.handler, system, exec, h, commit]
  · refine Or.inr ⟨r, hr, hrefs.congr rfl rfl rfl, ?_⟩
    simp only [System.handler, system, exec, h, commit]
    rfl

variable (pg s) in
/-- The call that inserts a task adds its row, or is rejected. -/
theorem insertTask_handled (new : NewTask) (e : Env) :
    (∃ err, (system pg).handler e (.insertTask new) s = (.error (.db err), s.spend e)) ∨
      (new.toRow e).id ∉ s.taskIds ∧ s.TaskRefs none (new.toRow e) ∧ (system pg).handler e (.insertTask new) s =
        (.ok (new.saved e), { s.spend e with tasks := s.tasks ++ [new.toRow e] }) := by
  cases h : (s.spend e).insertTask (new.toRow e) with
  | error err =>
    refine Or.inl ⟨err, ?_⟩
    simp only [System.handler, system, exec, h, commit]
  | ok s' =>
    have hcall : (system pg).handler e (.insertTask new) s = (.ok (new.saved e), s') := by
      simp only [System.handler, system, exec, h, commit]
    obtain ⟨_, hfresh, h⟩ := ok_of_bind h
    obtain ⟨_, hrefs, h⟩ := ok_of_bind h
    cases h
    have hrefs := Tables.checkTask_ok hrefs
    exact Or.inr ⟨fresh_ok hfresh, hrefs.congr rfl rfl rfl, hcall⟩

/-- What a request leaves of the tasks when it saves the task `t` of the project as `x old`. -/
def SavesTask (w p t : UuidText) (x : TaskRow → Task) (s s' : Tables) : Prop :=
  ∃ old r, old ∈ s.tasks ∧ old.id = t.uuid ∧ old.projectId = p.uuid ∧ s.InProject w.uuid p.uuid ∧
    (x old).toRow? = .ok r ∧ s.TaskRefs (some old) r ∧ s'.tasks = Table.replace TaskRow.id (r.over old) s.tasks

variable (pg env s w p t) in
/-- The rest of a request that found its task. -/
theorem findTask_cases (f : Task → Service α) :
    (∃ e s', ((TasksService.findOneOrFail w p t).bind f).run (system pg).handler env s = (.error e, s') ∧
      s'.tasks = s.tasks) ∨
    ∃ old ∈ s.tasks, old.id = t.uuid ∧ old.projectId = p.uuid ∧ s.InProject w.uuid p.uuid ∧
      ((TasksService.findOneOrFail w p t).bind f).run (system pg).handler env s =
        (f old.toEntity).run (system pg).handler (fun n => env (n + 2)) ((s.spend (env 1)).spend (env 2)) := by
  rw [findTask_served]
  cases hp : s.projects.find? fun r => r.id = p.uuid && r.workspaceId = w.uuid with
  | none => exact Or.inl ⟨_, _, rfl, rfl⟩
  | some x =>
    cases ht : s.tasks.find? fun r => r.id = t.uuid && r.projectId = p.uuid with
    | none => exact Or.inl ⟨_, _, rfl, rfl⟩
    | some old =>
      obtain ⟨hx, hxp⟩ := find?_some hp
      obtain ⟨hold, hop⟩ := find?_some ht
      simp only [Bool.and_eq_true, decide_eq_true_eq] at hxp hop
      exact Or.inr ⟨old, hold, hop.1, hop.2, ⟨x, hx, hxp⟩, rfl⟩

variable (pg env) in
/-- A save at the end of a request that found its task, with the records of events after it. -/
theorem save_tasks (wf : s.WellFormed) {old : TaskRow} (mem : old ∈ s.tasks) {x : Task} (hid : x.id = old.id)
    {f : Task → Service α} (hf : ∀ t, (f t).Calls Call.Records) :
    (((perform (.saveTask x)).bind f).run (system pg).handler env s).2.tasks = s.tasks ∨
      ∃ r, x.toRow? = .ok r ∧ s.TaskRefs (some old) r ∧
        (((perform (.saveTask x)).bind f).run (system pg).handler env s).2.tasks =
          Table.replace TaskRow.id (r.over old) s.tasks := by
  rcases saveTask_handled pg wf mem hid (env 1) with ⟨err, hcall⟩ | ⟨r, hr, hrefs, hcall⟩
  · rw [perform, Prog.run_perform_error (I := interface) env hcall]
    exact Or.inl rfl
  · rw [perform, Prog.run_perform_ok (I := interface) env hcall, records_tasks (hf x)]
    exact Or.inr ⟨r, hr, hrefs, rfl⟩

/-! ### Updates -/

variable (pg env w p t) in
theorem updateTask_tasks (wf : s.WellFormed) (actorId : Uuid) (dto : UpdateTaskDto) :
    ((TasksService.update w p t actorId dto).run (system pg).handler env s).2.tasks = s.tasks ∨
      ∃ now, SavesTask w p t (fun old => dto.apply now old.toEntity) s
        ((TasksService.update w p t actorId dto).run (system pg).handler env s).2 := by
  rw [TasksService.update, Prog.bind_eq]
  rcases findTask_cases pg env s w p t _ with
    ⟨e, s', he, htasks⟩ | ⟨old, hmem, hid, hproject, hin, he⟩
  · rw [he]
    exact Or.inl htasks
  · rw [he]
    simp only [Prog.bind_eq, Prog.read_bind, Prog.run_ask]
    refine (save_tasks _ _ (s := (s.spend (env 1)).spend (env 2)) ((wf.spend _).spend _) hmem rfl fun saved => ?_).imp id ?_
    · refine Prog.Calls.bind ?_ fun _ => Prog.Calls.bind ?_ fun _ => trivial
      · unfold TasksService.update.emitAssigned
        split
        · split
          · trivial
          · exact emit_records _
        · trivial
      · unfold TasksService.update.emitStatus
        split
        · trivial
        · split
          · trivial
          · refine (emit_records _).bind fun _ => ?_
            split
            · exact emit_records _
            · trivial
    · rintro ⟨r, hr, hrefs, htasks⟩
      exact ⟨_, old, r, hmem, hid, hproject, hin, hr, hrefs.congr rfl rfl rfl, htasks⟩

/-! ### Moves -/

/-- The checks of a move under `q`: the new parent is in the project, it is not listed below the task, and the
    subtree is not too high for it. -/
def MovePasses (p t q : UuidText) (s : Tables) : Prop :=
  ∃ parent rows depth, parent ∈ s.tasks ∧ parent.id = q.uuid ∧ parent.projectId = p.uuid ∧
    s.descendants t.uuid = .ok rows ∧ (∀ row ∈ rows, row.1.text ≠ q) ∧ s.depthOf q.uuid = .ok depth ∧
    depth + 1 + (rows.map Prod.snd).foldl Nat.max 0 ≤ TasksService.MAX_DEPTH

variable (pg env w p t) in
theorem moveTask_tasks (wf : s.WellFormed) (newParentId : Option UuidText) :
    ((TasksService.moveTask w p t newParentId).run (system pg).handler env s).2.tasks = s.tasks ∨
      (∀ q ∈ newParentId, MovePasses p t q s) ∧
      SavesTask w p t (fun old => { old.toEntity with parentTaskId := newParentId }) s
        ((TasksService.moveTask w p t newParentId).run (system pg).handler env s).2 := by
  rw [TasksService.moveTask, Prog.bind_eq]
  rcases findTask_cases pg env s w p t _ with
    ⟨e, s', he, htasks⟩ | ⟨old, hmem, hid, hproject, hin, he⟩
  · rw [he]
    exact Or.inl htasks
  rw [he]
  -- The save at the end of every move that passes.
  have hsave : ∀ {s' : Tables} {env' : Nat → Env}, s'.WellFormed → s'.tasks = s.tasks → s'.projects = s.projects →
      s'.users = s.users →
      ((perform (.saveTask { old.toEntity with parentTaskId := newParentId })).run (system pg).handler env' s').2.tasks =
        s.tasks ∨
      SavesTask w p t (fun old => { old.toEntity with parentTaskId := newParentId }) s
        ((perform (.saveTask { old.toEntity with parentTaskId := newParentId })).run (system pg).handler env' s').2 := by
    intro s' env' wf' htasks hprojects husers
    have := save_tasks pg env' wf' (htasks ▸ hmem) (x := { old.toEntity with parentTaskId := newParentId })
      rfl (f := Prog.ret) fun _ => trivial
    rw [Prog.bind_ret, htasks] at this
    refine this.imp id ?_
    rintro ⟨r, hr, hrefs, htasks'⟩
    exact ⟨old, r, hmem, hid, hproject, hin, hr, hrefs.congr htasks.symm hprojects.symm husers.symm, htasks'⟩
  cases newParentId with
  | none => exact (hsave ((wf.spend _).spend _) rfl rfl rfl).imp id fun h => ⟨by rintro _ ⟨⟩, h⟩
  | some q =>
    by_cases hself : q = t
    · simp only [hself, ↓reduceIte]
      exact Or.inl rfl
    simp only [hself, ↓reduceIte, Prog.bind_eq]
    let s₃ := ((s.spend (env 1)).spend (env 2)).spend (env 3)
    have hfind : ∀ (e : Env) (s' : Tables), s'.tasks = s.tasks →
        (system pg).handler e (.findTask q.uuid p.uuid) s' =
          (.ok ((s.tasks.find? fun r => r.id = q.uuid && r.projectId = p.uuid).map TaskRow.toEntity), s'.spend e) :=
      fun e s' h => by rw [← h]; rfl
    have hbelow : ∀ (e : Env) (s' : Tables), s'.tasks = s.tasks →
        (system pg).handler e (.descendants t.uuid) s' = (s.descendants t.uuid, s'.spend e) := fun e s' h => by
      simp only [Tables.descendants, ← h]
      rfl
    have hdepth : ∀ (e : Env) (s' : Tables), s'.tasks = s.tasks →
        (system pg).handler e (.depthOf q.uuid) s' = (s.depthOf q.uuid, s'.spend e) := fun e s' h => by
      simp only [Tables.depthOf, ← h]
      rfl
    rw [perform, Prog.run_perform_ok (I := interface) _ (hfind (env 3) ((s.spend (env 1)).spend (env 2)) rfl)]
    cases hq : s.tasks.find? fun r => r.id = q.uuid && r.projectId = p.uuid with
    | none => exact Or.inl rfl
    | some parent =>
      obtain ⟨hparent, hpp⟩ := find?_some hq
      simp only [Bool.and_eq_true, decide_eq_true_eq] at hpp
      simp only [Option.map_some]
      cases hrows : s.descendants t.uuid with
      | error e =>
        rw [perform, Prog.run_perform_error (I := interface) _ ((hbelow (env 4) s₃ rfl).trans (by rw [hrows]))]
        exact Or.inl rfl
      | ok rows =>
        rw [perform, Prog.run_perform_ok (I := interface) _ ((hbelow (env 4) s₃ rfl).trans (by rw [hrows]))]
        by_cases hany : (rows.any fun row => decide (row.1.text = q)) = true
        · rw [if_pos hany]
          exact Or.inl rfl
        rw [if_neg hany]
        cases hd : s.depthOf q.uuid with
        | error e =>
          rw [perform, Prog.run_perform_error (I := interface) _ ((hdepth (env 5) (s₃.spend (env 4)) rfl).trans (by rw [hd]))]
          exact Or.inl rfl
        | ok depth =>
          rw [perform, Prog.run_perform_ok (I := interface) _ ((hdepth (env 5) (s₃.spend (env 4)) rfl).trans (by rw [hd]))]
          by_cases hmax : depth + 1 + (rows.map Prod.snd).foldl Nat.max 0 > TasksService.MAX_DEPTH
          · rw [if_pos hmax]
            exact Or.inl rfl
          rw [if_neg hmax]
          have hwf := ((((wf.spend (env 1)).spend (env 2)).spend (env 3)).spend (env 4)).spend (env 5)
          refine (hsave hwf rfl rfl rfl).imp id fun h => ⟨?_, h⟩
          rintro _ ⟨⟩
          refine ⟨parent, rows, depth, hparent, hpp.1, hpp.2, hrows, fun row hrow heq => hany ?_, hd, Nat.not_lt.mp hmax⟩
          exact List.any_eq_true.mpr ⟨row, hrow, decide_eq_true heq⟩

/-! ### Creates -/

/-- The parent of a new task is in the project. -/
def ParentIn (p : UuidText) (parentTaskId : Option UuidText) (s : Tables) : Prop :=
  ∀ q ∈ parentTaskId, ∃ parent ∈ s.tasks, parent.id = q.uuid ∧ parent.projectId = p.uuid

/-- What a request leaves of the tasks when it adds a task to the project. -/
def AddsTask (p : UuidText) (parentTaskId : Option UuidText) (s s' : Tables) : Prop :=
  ∃ r : TaskRow, r.id ∉ s.taskIds ∧ r.projectId = p.uuid ∧ r.parentTaskId = parentTaskId.map UuidText.uuid ∧
    s.TaskRefs none r ∧ s'.tasks = s.tasks ++ [r]

theorem finishTask_tasks {createdBy : Uuid} {new : NewTask} {s' : Tables} (htasks : s'.tasks = s.tasks)
    (hprojects : s'.projects = s.projects) (husers : s'.users = s.users) (hproject : new.projectId = p) :
    ((TasksService.create.finish p createdBy new).run (system pg).handler env s').2.tasks = s.tasks ∨
      AddsTask p new.parentTaskId s ((TasksService.create.finish p createdBy new).run (system pg).handler env s').2 := by
  rw [TasksService.create.finish, Prog.bind_eq]
  rcases insertTask_handled pg s' new (env 1) with ⟨err, hcall⟩ | ⟨hfresh, hrefs, hcall⟩
  · rw [perform, Prog.run_perform_error (I := interface) env hcall]
    exact Or.inl htasks
  · rw [perform, Prog.run_perform_ok (I := interface) env hcall]
    refine Or.inr ⟨new.toRow (env 1), ?_, congrArg UuidText.uuid hproject, rfl,
      hrefs.congr htasks.symm hprojects.symm husers.symm, ?_⟩
    · simpa only [Tables.taskIds, htasks] using hfresh
    · refine (records_tasks ((emit_records _).bind fun _ => ?_)).trans (congrArg (· ++ _) htasks)
      split
      · trivial
      · exact (emit_records _).bind fun _ => trivial

variable (pg env s w p) in
theorem createTask_tasks (createdBy : Uuid) (dto : CreateTaskDto) :
    ((TasksService.create w p createdBy dto).run (system pg).handler env s).2.tasks = s.tasks ∨
      ParentIn p dto.parentTaskId s ∧
        AddsTask p dto.parentTaskId s ((TasksService.create w p createdBy dto).run (system pg).handler env s).2 := by
  rw [TasksService.create, Prog.bind_eq, findProject_served]
  cases s.projects.find? fun r => r.id = p.uuid && r.workspaceId = w.uuid with
  | none => exact Or.inl rfl
  | some _ =>
    cases hd : dto.parentTaskId with
    | none => exact Or.imp_right (And.intro nofun) (finishTask_tasks rfl rfl rfl rfl)
    | some q =>
      have hfind : (system pg).handler (env 2) (.findTask q.uuid p.uuid) (s.spend (env 1)) =
          (.ok ((s.tasks.find? fun r => r.id = q.uuid && r.projectId = p.uuid).map TaskRow.toEntity),
            (s.spend (env 1)).spend (env 2)) := rfl
      simp only [Prog.bind_eq]
      rw [perform, Prog.run_perform_ok (I := interface) _ hfind]
      cases hq : s.tasks.find? fun r => r.id = q.uuid && r.projectId = p.uuid with
      | none => exact Or.inl rfl
      | some parent =>
        obtain ⟨hparent, hpp⟩ := find?_some hq
        simp only [Bool.and_eq_true, decide_eq_true_eq] at hpp
        have hin : ParentIn p (some q) s := by
          rintro _ ⟨⟩
          exact ⟨parent, hparent, hpp⟩
        exact Or.imp_right (And.intro hin) (finishTask_tasks rfl rfl rfl rfl)

theorem serve_createTask (createdBy : Uuid) (dto : CreateTaskDto) :
    ((system pg).serve ⟨w, .createTask p createdBy dto⟩ env s).2 =
      ((TasksService.create w p createdBy dto).run (system pg).handler env (s.spend (env 0))).2 :=
  Prog.run_map _ _ Response.task _ _

theorem serve_updateTask (actorId : Uuid) (dto : UpdateTaskDto) :
    ((system pg).serve ⟨w, .updateTask p t actorId dto⟩ env s).2 =
      ((TasksService.update w p t actorId dto).run (system pg).handler env (s.spend (env 0))).2 :=
  Prog.run_map _ _ Response.task _ _

theorem serve_moveTask (newParentId : Option UuidText) :
    ((system pg).serve ⟨w, .moveTask p t newParentId⟩ env s).2 =
      ((TasksService.moveTask w p t newParentId).run (system pg).handler env (s.spend (env 0))).2 :=
  Prog.run_map _ _ Response.task _ _

/-! ### All other requests -/

/-- A call that neither adds nor sets a task, and adds no comment. -/
def Call.plain : Call → Bool
  | .insertTask _ | .saveTask _ | .insertComment _ => false
  | _ => true

theorem records_plain {q : Service α} (h : q.Calls Call.Records) : q.Calls (Call.plain · = true) :=
  h.mono fun c hc => by
    obtain ⟨n, rfl⟩ := hc
    rfl

theorem call_plain {c : Call} (h : c.plain = true) : (perform c).Calls (Call.plain · = true) := Prog.calls_perform h

theorem findProject_plain : (ProjectsService.findOneOrFail w p).Calls (Call.plain · = true) := by
  refine (call_plain rfl).bind fun a => ?_
  cases a <;> trivial

theorem findTask_plain : (TasksService.findOneOrFail w p t).Calls (Call.plain · = true) := by
  refine findProject_plain.bind fun _ => (call_plain rfl).bind fun a => ?_
  cases a <;> trivial

theorem findComment_plain {c : UuidText} : (CommentsService.findOneOrFail w p t c).Calls (Call.plain · = true) := by
  refine findTask_plain.bind fun _ => (call_plain rfl).bind fun a => ?_
  cases a <;> trivial

/-- The requests that add a task or set one. -/
def Operation.writesTask : Operation → Bool
  | .createTask .. | .updateTask .. | .moveTask .. => true
  | _ => false

/-- Most requests make no other calls. -/
theorem program_plain {r : Request} (h : r.operation.writesTask = false)
    (h' : ∀ p t author dto, r.operation ≠ .createComment p t author dto) : (program r).Calls (Call.plain · = true) := by
  have wrap : ∀ {α : Type} {q : Service α} {f : α → Response}, q.Calls (Call.plain · = true) →
      (q.bind fun a => .ret (f a)).Calls (Call.plain · = true) := fun h => h.bind fun _ => trivial
  obtain ⟨w, operation⟩ := r
  cases operation with
  | createTask | updateTask | moveTask => cases h
  | createComment p t author dto => exact absurd rfl (h' p t author dto)
  | createProject user dto => exact wrap (call_plain rfl)
  | listProjects q => exact wrap ((call_plain rfl).bind fun _ => trivial)
  | getProject p => exact wrap findProject_plain
  | updateProject p dto => exact wrap (findProject_plain.bind fun _ => call_plain rfl)
  | removeProject p => exact wrap (findProject_plain.bind fun _ => call_plain rfl)
  | listTasks p q => exact wrap (findProject_plain.bind fun _ => (call_plain rfl).bind fun _ => trivial)
  | getTask p t => exact wrap findTask_plain
  | removeTask p t => exact wrap (findTask_plain.bind fun _ => call_plain rfl)
  | getSubtree p t => exact wrap (findTask_plain.bind fun _ => (call_plain rfl).bind fun _ => trivial)
  | listComments p t q => exact wrap (findTask_plain.bind fun _ => (call_plain rfl).bind fun _ => trivial)
  | getComment p t c => exact wrap findComment_plain
  | updateComment p t c actor body =>
    refine wrap (findComment_plain.bind fun m => ?_)
    split
    · trivial
    · exact fun _ => call_plain rfl
  | removeComment p t c actor role =>
    refine wrap (findComment_plain.bind fun m => ?_)
    split
    · trivial
    · exact call_plain rfl
  | listActivity p t q => exact wrap (findTask_plain.bind fun _ => (call_plain rfl).bind fun _ => trivial)

/-- A call that adds no task and sets none. -/
def Call.leavesTasks : Call → Bool
  | .insertTask _ | .saveTask _ => false
  | _ => true

theorem Call.leavesTasks_of_plain {c : Call} (h : c.plain = true) : c.leavesTasks = true := by
  cases c <;> first | rfl | cases h

theorem call_leavesTasks {c : Call} (h : c.leavesTasks = true) : (perform c).Calls (Call.leavesTasks · = true) :=
  Prog.calls_perform h

theorem finishComment_leavesTasks {authorId : Uuid} {dto : CreateCommentDto} {task : Task} {parentAuthorId : Option Uuid} :
    (CommentsService.create.finish t authorId dto task parentAuthorId).Calls (Call.leavesTasks · = true) := by
  have hemit : ∀ e, (emit e).Calls (Call.leavesTasks · = true) := fun e =>
    (records_plain (emit_records e)).mono fun _ => Call.leavesTasks_of_plain
  refine (call_leavesTasks rfl).bind fun m => (hemit _).bind fun _ => ?_
  split
  · exact (hemit _).bind fun _ => trivial
  · trivial

/-- Every request but a create, an update or a move of a task leaves the tasks, or deletes some. -/
theorem program_leavesTasks {r : Request} (h : r.operation.writesTask = false) :
    (program r).Calls (Call.leavesTasks · = true) := by
  by_cases hcomment : ∃ p t author dto, r.operation = .createComment p t author dto
  · obtain ⟨w, operation⟩ := r
    obtain ⟨p, t, author, dto, rfl⟩ := hcomment
    refine Prog.Calls.bind ((findTask_plain.mono fun _ => Call.leavesTasks_of_plain).bind fun _ => ?_) fun _ => trivial
    split
    · exact finishComment_leavesTasks
    · refine (call_leavesTasks rfl).bind fun a => ?_
      cases a with
      | none => trivial
      | some _ => exact finishComment_leavesTasks
  · have hplain := program_plain h fun p t author dto hr => hcomment ⟨p, t, author, dto, hr⟩
    exact hplain.mono fun _ => Call.leavesTasks_of_plain

/-- Such a call deletes tasks with all their subtasks, or none. -/
theorem Write.leavesTasks {e : Env} {c : Call} {s' : Tables} (w : Write s e c s') (h : c.leavesTasks = true) :
    s'.tasks = s.tasks ∨ ∃ p, s'.tasks = (s.deleteTasks p).tasks := by
  cases w with
  | same | projectAdded | projectSet | commentAdded | commentSet | commentRemoved | activityAdded => exact Or.inl rfl
  | projectRemoved | taskRemoved => exact Or.inr ⟨_, rfl⟩
  | taskAdded row =>
    have hnone : c.taskRow? e = none := by cases c <;> first | rfl | cases h
    rw [hnone] at row
    cases row
  | taskSet call =>
    subst call
    cases h

variable (pg env s) in
/-- A program of such calls leaves only tasks that were there. -/
theorem run_leavesTasks {q : Service α} (h : q.Calls (Call.leavesTasks · = true)) :
    (q.run (system pg).handler env s).2.tasks ⊆ s.tasks := by
  refine h.run_keeps (K := fun s' : Tables => s'.tasks ⊆ s.tasks) ?_ (List.Subset.refl _)
  intro e c s' hc hsub
  rcases (exec_write pg (s'.spend e) e c).leavesTasks hc with htasks | ⟨p, htasks⟩
  · exact fun t ht => hsub (htasks ▸ ht)
  · exact fun t ht => hsub (Tables.mem_deleteTasks.mp (htasks ▸ ht)).1

end
end TaskPlatform.Board

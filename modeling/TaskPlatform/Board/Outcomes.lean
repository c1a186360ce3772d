import TaskPlatform.Board.Events

/-! What creates and updates of tasks, each served alone, do to the tables, and what they emit. -/

namespace TaskPlatform.Board
open Effects

/-- The events of a request that is served alone. -/
def emitted (pg : Postgres) (r : Request) (env : Nat → Env) (s : Tables) : List DomainEvent :=
  eventsOf ((unannounced r).run (system pg).handler env (s.spend (env 0))).1
where
  /-- A request that is rejected emits nothing. -/
  eventsOf : Except Err (List DomainEvent × Response) → List DomainEvent
    | .ok x => x.1
    | .error _ => []

/-! ### What the listener makes of events -/

/-- The activity of an event. -/
def DomainEvent.recorded? : DomainEvent → Option NewActivity
  | .taskCreated taskId projectId actorId =>
    some { taskId, actorId := some actorId.uuid, action := .CREATED, metadata := [("projectId", .id projectId)] }
  | .taskAssigned taskId assigneeId actorId =>
    some { taskId, actorId := some actorId.uuid, action := .ASSIGNED, metadata := [("assigneeId", .id assigneeId)] }
  | .taskStatusChanged taskId fromStatus toStatus actorId =>
    some { taskId, actorId := some actorId.uuid, action := .STATUS_CHANGED,
           metadata := [("from", .status fromStatus), ("to", .status toStatus)] }
  | .taskCompleted taskId actorId _ =>
    some { taskId, actorId := some actorId.uuid, action := .COMPLETED, metadata := [] }
  | .commentCreated commentId taskId authorId parentCommentId _ =>
    some { taskId, actorId := some authorId.uuid, action := if parentCommentId.isSome then .REPLIED else .COMMENTED,
           metadata := ("commentId", .id commentId) ::
             (parentCommentId.map fun p => ("parentCommentId", MetadataValue.id p)).toList }
  | .commentReplied .. => none

/-- An event takes at most one call, whatever that is answered. -/
theorem emit_then {α : Type} (e : DomainEvent) (f : Unit → Service α) :
    (emit e).bind f = match e.recorded? with
      | some n => .call (.insertActivity n) fun _ => f ()
      | none => f () := by
  cases e with
  | commentReplied => rfl
  | taskCreated | taskAssigned | taskStatusChanged | taskCompleted | commentCreated =>
    refine congrArg (Prog.call _) (funext fun a => ?_)
    cases a <;> rfl

def Call.isRecord : Call → Bool
  | .insertActivity _ => true
  | _ => false

/-- The listener does not fail in this call. -/
def Recorded (pg : Postgres) (env : Env) (c : Call) (s : Tables) : Prop :=
  c.isRecord = true → ((system pg).handler env c s).1.isOk = true

instance (pg : Postgres) (env : Env) (c : Call) (s : Tables) : Decidable (Recorded pg env c s) :=
  inferInstanceAs (Decidable (_ → _))

/-- The rows that record events, in turn. -/
def Records (es : List DomainEvent) (rows : List TaskActivity) : Prop :=
  List.Forall₂ (fun n row => ∃ env, row = NewActivity.toRow n env) (es.filterMap DomainEvent.recorded?) rows

/-- Apart from activity and generated values, two states are the same. -/
structure Tables.SameRows (s s' : Tables) : Prop where
  users : s'.users = s.users
  workspaces : s'.workspaces = s.workspaces
  projects : s'.projects = s.projects
  tasks : s'.tasks = s.tasks
  comments : s'.comments = s.comments

section
variable {pg : Postgres} {env : Nat → Env} {s s' : Tables} {w p t : UuidText}

theorem Tables.SameRows.refl (s : Tables) : s.SameRows s := ⟨rfl, rfl, rfl, rfl, rfl⟩

theorem Tables.SameRows.trans {s'' : Tables} (h : s.SameRows s') (h' : s'.SameRows s'') : s.SameRows s'' :=
  ⟨h'.users.trans h.users, h'.workspaces.trans h.workspaces, h'.projects.trans h.projects, h'.tasks.trans h.tasks,
    h'.comments.trans h.comments⟩

theorem Tables.sameRows_spend (s : Tables) (e : Env) : s.SameRows (s.spend e) := ⟨rfl, rfl, rfl, rfl, rfl⟩

variable (pg s) in
/-- An insert of activity adds its row, or changes nothing. -/
theorem insertActivity_handler (e : Env) (n : NewActivity) :
    ((system pg).handler e (.insertActivity n) s = (.ok (), { s.spend e with activity := s.activity ++ [n.toRow e] })) ∨
      ∃ err, (system pg).handler e (.insertActivity n) s = (.error err, s.spend e) := by
  simp only [System.handler, system, exec]
  cases h : (s.spend e).insertActivity (n.toRow e) with
  | error err => exact Or.inr ⟨_, rfl⟩
  | ok s' =>
    obtain ⟨_, -, h⟩ := ok_of_bind h
    obtain ⟨_, -, h⟩ := ok_of_bind h
    cases h
    exact Or.inl rfl

variable (pg env s) in
/-- Announcements add activity only, and all of it if the listener never fails. -/
theorem announce_run (es : List DomainEvent) :
    ∃ s', (announce es).run (system pg).handler env s = (.ok (), s') ∧ s.SameRows s' ∧
      ∃ rows, s'.activity = s.activity ++ rows ∧ (es = [] → rows = []) ∧
        ((announce es).Along (system pg).handler (Recorded pg) env s → Records es rows) := by
  induction es generalizing env s with
  | nil => exact ⟨s, rfl, .refl s, [], (List.append_nil _).symm, fun _ => rfl, fun _ => .nil⟩
  | cons e es ih =>
    rw [announce, Prog.bind_eq, emit_then]
    cases hn : e.recorded? with
    | none =>
      obtain ⟨s', hrun, same, rows, hact, -, hall⟩ := ih env s
      refine ⟨s', hrun, same, rows, hact, by rintro ⟨⟩, fun h => ?_⟩
      simpa only [Records, List.filterMap_cons, hn] using hall h
    | some n =>
      simp only [Prog.run_call, Prog.Along]
      rcases insertActivity_handler pg s (env 1) n with hok | ⟨err, herr⟩
      · obtain ⟨s', hrun, same, rows, hact, -, hall⟩ :=
          ih (fun i => env (i + 1)) { s.spend (env 1) with activity := s.activity ++ [n.toRow (env 1)] }
        rw [hok]
        refine ⟨s', hrun, ⟨same.users, same.workspaces, same.projects, same.tasks, same.comments⟩,
          n.toRow (env 1) :: rows, ?_, by rintro ⟨⟩, fun h => ?_⟩
        · rw [hact, List.append_assoc]
          rfl
        · simp only [Records, List.filterMap_cons, hn]
          exact .cons ⟨_, rfl⟩ (hall h.2)
      · obtain ⟨s', hrun, same, rows, hact, -, -⟩ := ih (fun i => env (i + 1)) (s.spend (env 1))
        rw [herr]
        refine ⟨s', hrun, (s.sameRows_spend _).trans same, rows, hact, by rintro ⟨⟩, fun h => ?_⟩
        -- A call that failed was not answered.
        have hno := h.1 rfl
        rw [herr] at hno
        cases hno

/-! ### What a create or an update saves -/

/-- An update with no `null` for a column that is `NOT NULL`. -/
def UpdateTaskDto.valid (dto : UpdateTaskDto) : Bool :=
  dto.title ≠ some none && dto.status ≠ some none && dto.priority ≠ some none

/-- An update that is accepted has no `null` where none is allowed. -/
theorem valid_of_toRow? {dto : UpdateTaskDto} {now : Date} {old : Task} {new : TaskRow}
    (row : (dto.apply now old).toRow? = .ok new) : dto.valid = true := by
  obtain ⟨htitle, hstatus, hpriority, -⟩ := Task.toRow?_row row
  simp only [UpdateTaskDto.valid, Bool.and_eq_true, decide_eq_true_eq]
  refine ⟨⟨?_, ?_⟩, ?_⟩
  · intro h
    simp [UpdateTaskDto.apply, h] at htitle
  · intro h
    simp [UpdateTaskDto.apply, h] at hstatus
  · intro h
    simp [UpdateTaskDto.apply, h] at hpriority

/-- The database takes the update of a task: no `null` where none is allowed, texts that it reads, and a user as the
    assignee. -/
structure UpdateTaskDto.Accepted (dto : UpdateTaskDto) (s : Tables) (old : TaskRow) : Prop where
  valid : dto.valid = true
  title : ∀ text, dto.title = some (some text) → old.title = text ∨ readError text = none
  description : ∀ text, dto.description = some (some text) → old.description = some text ∨ readError text = none
  assignee : ∀ a, dto.assigneeId = some (some a) → old.assigneeId = some a.uuid ∨ a.uuid ∈ s.users

theorem accepted_of_toRow? {dto : UpdateTaskDto} {now : Date} {old new : TaskRow}
    (row : (dto.apply now old.toEntity).toRow? = .ok new) (refs : s.TaskRefs (some old) new) : dto.Accepted s old where
  valid := valid_of_toRow? row
  title text htext := by
    obtain ⟨htitle, -⟩ := Task.toRow?_row row
    obtain rfl : text = new.title := by simpa [UpdateTaskDto.apply, htext] using htitle
    exact refs.title.imp_left Option.some.inj
  description text htext := by
    obtain ⟨-, -, -, -, -, -, hdescription, -⟩ := Task.toRow?_row row
    exact refs.description text (by simp [hdescription, UpdateTaskDto.apply, htext])
  assignee a ha := by
    obtain ⟨-, -, -, -, -, -, -, hassignee, -⟩ := Task.toRow?_row row
    refine refs.assignee a.uuid ?_
    simp [hassignee, UpdateTaskDto.apply, ha]

/-- The row of the task that a request names, in its project and workspace. -/
structure Found (w p t : UuidText) (s : Tables) (old : TaskRow) : Prop where
  mem : old ∈ s.tasks
  id : old.id = t.uuid
  projectId : old.projectId = p.uuid
  inProject : s.InProject w.uuid p.uuid

/-- The new task of a create. -/
def CreateTaskDto.new (dto : CreateTaskDto) (projectId : UuidText) (createdBy : Uuid) : NewTask :=
  { projectId, createdBy, parentTaskId := dto.parentTaskId, title := dto.title, description := dto.description,
    status := .TODO, priority := dto.priority.getD .MEDIUM, assigneeId := dto.assigneeId, dueDate := dto.dueDate }

/-- What a create or an update does, up to its events: how it ends, with the events to come, and the tables
    it leaves. -/
inductive Outcome (r : Request) (env : Nat → Env) (s : Tables) :
    Except Err (List DomainEvent × Response) → Tables → Prop
  | rejected (e : Err) {s' : Tables} (same : s.SameRows s') (activity : s'.activity = s.activity) :
      Outcome r env s (.error e) s'
  | created {w p : UuidText} {user : Uuid} {dto : CreateTaskDto} (call : r = ⟨w, .createTask p user dto⟩) (e : Env)
      (fresh : e.uuid ∉ s.taskIds) {s' : Tables}
      (same : Tables.SameRows { s with tasks := s.tasks ++ [(dto.new p user).toRow e] } s')
      (activity : s'.activity = s.activity) :
      Outcome r env s (.ok (TasksService.create.events p user ((dto.new p user).saved e), .task ((dto.new p user).saved e))) s'
  | updated {w p t : UuidText} {actor : Uuid} {dto : UpdateTaskDto} (call : r = ⟨w, .updateTask p t actor dto⟩)
      {old new : TaskRow} (found : Found w p t s old) (accepted : dto.Accepted s old)
      (row : (dto.apply (env 2).now old.toEntity).toRow? = .ok new) {s' : Tables}
      (same : Tables.SameRows { s with tasks := Table.replace TaskRow.id (new.over old) s.tasks } s')
      (activity : s'.activity = s.activity) :
      Outcome r env s
        (.ok (TasksService.update.events actor dto old.toEntity (dto.apply (env 2).now old.toEntity),
          .task (dto.apply (env 2).now old.toEntity))) s'

/-- Looks up the project of a create or an update. -/
theorem found_of_find? {x : ProjectRow} {old : TaskRow}
    (hp : s.projects.find? (fun r => r.id = p.uuid && r.workspaceId = w.uuid) = some x)
    (ht : s.tasks.find? (fun r => r.id = t.uuid && r.projectId = p.uuid) = some old) : Found w p t s old := by
  obtain ⟨hx, hxp⟩ := find?_some hp
  obtain ⟨hold, hop⟩ := find?_some ht
  simp only [Bool.and_eq_true, decide_eq_true_eq] at hxp hop
  exact ⟨hold, hop.1, hop.2, x, hx, hxp⟩

variable (pg env w p t) in
theorem update_outcome (wf : s.WellFormed) (actorId : Uuid) (dto : UpdateTaskDto) (e : Env) :
    let out := (TasksService.update.unannounced w p t actorId dto).run (system pg).handler env (s.spend e)
    Outcome ⟨w, .updateTask p t actorId dto⟩ env s (out.1.map fun x => (x.1, .task x.2)) out.2 := by
  simp only [TasksService.update.unannounced, Prog.bind_eq]
  rw [findTask_served]
  cases hp : (s.spend e).projects.find? fun r => r.id = p.uuid && r.workspaceId = w.uuid with
  | none => exact .rejected _ ⟨rfl, rfl, rfl, rfl, rfl⟩ rfl
  | some x =>
    cases ht : (s.spend e).tasks.find? fun r => r.id = t.uuid && r.projectId = p.uuid with
    | none => exact .rejected _ ⟨rfl, rfl, rfl, rfl, rfl⟩ rfl
    | some old =>
      have found : Found w p t s old := found_of_find? hp ht
      simp only [Prog.read_bind, Prog.run_ask]
      rcases saveTask_handled pg (((wf.spend e).spend (env 1)).spend (env 2)) found.mem
        (x := dto.apply (env 2).now old.toEntity) rfl (env 3) with ⟨err, hcall⟩ | ⟨new, hnew, hrefs, hcall⟩
      · rw [perform, Prog.run_perform_error (I := interface) _ hcall]
        exact .rejected _ ⟨rfl, rfl, rfl, rfl, rfl⟩ rfl
      · rw [perform, Prog.run_perform_ok (I := interface) _ hcall]
        exact .updated rfl found (accepted_of_toRow? hnew (hrefs.congr rfl rfl rfl)) hnew ⟨rfl, rfl, rfl, rfl, rfl⟩ rfl

variable (pg env w p) in
/-- The insert of a create. -/
theorem create_saves (createdBy : Uuid) (dto : CreateTaskDto) (env' : Nat → Env) {s₀ : Tables} (hs : s.SameRows s₀)
    (hact : s₀.activity = s.activity) :
    let out := (TasksService.create.unannounced.save p createdBy (dto.new p createdBy)).run (system pg).handler env' s₀
    Outcome ⟨w, .createTask p createdBy dto⟩ env s (out.1.map fun x => (x.1, .task x.2)) out.2 := by
  simp only [TasksService.create.unannounced.save, Prog.bind_eq]
  rcases insertTask_handled pg s₀ (dto.new p createdBy) (env' 1) with ⟨err, hcall⟩ | ⟨hfresh, -, hcall⟩
  · rw [perform, Prog.run_perform_error (I := interface) _ hcall]
    exact .rejected _ (hs.trans (s₀.sameRows_spend _)) hact
  · rw [perform, Prog.run_perform_ok (I := interface) _ hcall]
    refine .created rfl (env' 1) ?_ ⟨hs.users, hs.workspaces, hs.projects, ?_, hs.comments⟩ hact
    · rwa [Tables.taskIds, hs.tasks] at hfresh
    · exact congrArg (· ++ _) hs.tasks

variable (pg env w p) in
theorem create_outcome (createdBy : Uuid) (dto : CreateTaskDto) (e : Env) :
    let out := (TasksService.create.unannounced w p createdBy dto).run (system pg).handler env (s.spend e)
    Outcome ⟨w, .createTask p createdBy dto⟩ env s (out.1.map fun x => (x.1, .task x.2)) out.2 := by
  simp only [TasksService.create.unannounced, Prog.bind_eq]
  rw [findProject_served]
  cases hp : (s.spend e).projects.find? fun r => r.id = p.uuid && r.workspaceId = w.uuid with
  | none => exact .rejected _ ⟨rfl, rfl, rfl, rfl, rfl⟩ rfl
  | some x =>
    -- Every branch that goes on saves the same new task.
    have hsave : ∀ (env' : Nat → Env) {s₀ : Tables}, s.SameRows s₀ → s₀.activity = s.activity →
        let out := (TasksService.create.unannounced.save p createdBy (dto.new p createdBy)).run (system pg).handler env' s₀
        Outcome ⟨w, .createTask p createdBy dto⟩ env s (out.1.map fun x => (x.1, .task x.2)) out.2 :=
      fun env' => create_saves pg env w p createdBy dto env'
    unfold CreateTaskDto.new at hsave
    cases hd : dto.parentTaskId with
    | none =>
      rw [hd] at hsave
      exact hsave _ ⟨rfl, rfl, rfl, rfl, rfl⟩ rfl
    | some q =>
      rw [hd] at hsave
      have hfind : (system pg).handler (env 2) (.findTask q.uuid p.uuid) ((s.spend e).spend (env 1)) =
          (.ok ((s.tasks.find? fun r => r.id = q.uuid && r.projectId = p.uuid).map TaskRow.toEntity),
            ((s.spend e).spend (env 1)).spend (env 2)) := rfl
      simp only
      rw [perform, Prog.run_perform_ok (I := interface) _ hfind]
      cases s.tasks.find? fun r => r.id = q.uuid && r.projectId = p.uuid with
      | none => exact .rejected _ ⟨rfl, rfl, rfl, rfl, rfl⟩ rfl
      | some parent => exact hsave _ ⟨rfl, rfl, rfl, rfl, rfl⟩ rfl

/-- The creates and updates of tasks. -/
def Operation.savesTask : Operation → Bool
  | .createTask .. | .updateTask .. => true
  | _ => false

variable (pg env) in
theorem unannounced_outcome (wf : s.WellFormed) {r : Request} (h : r.operation.savesTask = true) (e : Env) :
    Outcome r env s ((unannounced r).run (system pg).handler env (s.spend e)).1
      ((unannounced r).run (system pg).handler env (s.spend e)).2 := by
  obtain ⟨w, operation⟩ := r
  -- The response is wrapped after the work.
  have hwrap : ∀ (q : Service (List DomainEvent × Task)),
      (q.bind fun x => .ret (x.1, Response.task x.2)).run (system pg).handler env (s.spend e) =
        ((q.run (system pg).handler env (s.spend e)).1.map fun x => (x.1, .task x.2),
          (q.run (system pg).handler env (s.spend e)).2) := fun q =>
    Prod.ext (Prog.run_map_result _ q _ _ _) (Prog.run_map _ q _ _ _)
  cases operation with
  | createTask p user dto =>
    have heq : (unannounced ⟨w, .createTask p user dto⟩).run (system pg).handler env (s.spend e) = _ :=
      hwrap (TasksService.create.unannounced w p user dto)
    rw [heq]
    exact create_outcome pg env w p user dto e
  | updateTask p t actor dto =>
    have heq : (unannounced ⟨w, .updateTask p t actor dto⟩).run (system pg).handler env (s.spend e) = _ :=
      hwrap (TasksService.update.unannounced w p t actor dto)
    rw [heq]
    exact update_outcome pg env w p t wf actor dto e
  | _ => cases h

variable (pg env) in
/-- A create or an update that is served alone does its work, and then its events are recorded. -/
theorem serve_outcome (wf : s.WellFormed) {r : Request} (h : r.operation.savesTask = true) :
    ∃ res s₁ rows, Outcome r env s res s₁ ∧ emitted pg r env s = emitted.eventsOf res ∧
      ((system pg).serve r env s).1 = res.map Prod.snd ∧ s₁.SameRows ((system pg).serve r env s).2 ∧
      ((system pg).serve r env s).2.activity = s₁.activity ++ rows ∧ (emitted.eventsOf res = [] → rows = []) ∧
      ((program r).Along (system pg).handler (Recorded pg) env (s.spend (env 0)) →
        Records (emitted.eventsOf res) rows) := by
  have hout := unannounced_outcome pg env wf h (env 0)
  have hserve : (system pg).serve r env s =
      ((unannounced r).bind announcing).run (system pg).handler env (s.spend (env 0)) := by
    rw [← program_announces]
    rfl
  have halong : (program r).Along (system pg).handler (Recorded pg) env (s.spend (env 0)) =
      ((unannounced r).bind announcing).Along (system pg).handler (Recorded pg) env (s.spend (env 0)) := by
    rw [← program_announces]
  rw [hserve, halong, emitted]
  rcases Prog.run_then (system pg).handler (Recorded pg) (unannounced r) announcing env (s.spend (env 0)) with
    ⟨x, n, hx, hrun, hthen⟩ | ⟨e, he, hrun⟩
  · obtain ⟨s', hann, same, rows, hact, hnil, hall⟩ := announce_run pg (fun i => env (i + n))
      ((unannounced r).run (system pg).handler env (s.spend (env 0))).2 x.1
    have hafter : (announcing x).run (system pg).handler (fun i => env (i + n))
        ((unannounced r).run (system pg).handler env (s.spend (env 0))).2 = (.ok x.2, s') := by
      refine Prod.ext ?_ ?_
      · exact (Prog.run_map_result _ (announce x.1) (fun _ => x.2) _ _).trans (by rw [hann]; rfl)
      · exact (Prog.run_map _ (announce x.1) (fun _ => x.2) _ _).trans (by rw [hann])
    rw [hrun, hafter]
    rw [hx] at hout ⊢
    exact ⟨_, _, rows, hout, rfl, rfl, same, hact, hnil, fun h => hall (hthen h).left⟩
  · rw [hrun]
    rw [he] at hout ⊢
    exact ⟨_, _, [], hout, rfl, rfl, .refl _, (List.append_nil _).symm, fun _ => rfl, fun _ => .nil⟩

end
end TaskPlatform.Board

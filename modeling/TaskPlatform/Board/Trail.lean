import TaskPlatform.Board.Depth
import TaskPlatform.Board.Outcomes

/-! The audit trail of assignments: who the activity of a task says it is assigned to. -/

namespace TaskPlatform.Board
open Effects

/-- The assignee after an activity row, from the one before it. -/
def TaskActivity.replay (assignee : Option Uuid) (row : TaskActivity) : Option Uuid :=
  match row.action with
  | .ASSIGNED =>
    match row.metadata.lookup "assigneeId" with
    | some (.id assigneeId) => some assigneeId.uuid
    | _ => none
  | .UNASSIGNED => none
  | _ => assignee

/-- The assignee that the activity of a task tells, read in the order in which it was written. -/
def Tables.replayed (s : Tables) (taskId : Uuid) : Option Uuid :=
  (s.activity.filter (·.taskId = taskId)).foldl TaskActivity.replay none

/-- The trail of every task leads to its assignee. -/
def Tables.Trailed (s : Tables) : Prop := ∀ t ∈ s.tasks, s.replayed t.id = t.assigneeId

/-- An update that is accepted, and takes a task away from its assignee and gives it to no one. -/
def ClearsAssignee (r : Request) (s : Tables) : Prop :=
  match r.operation with
  | .updateTask p t _ dto =>
    dto.assigneeId = some none ∧
      ∃ old, Found r.workspaceId p t s old ∧ dto.Accepted s old ∧ old.assigneeId ≠ none
  | _ => False

/-- Creates and updates of tasks, in which the listener never fails. -/
def Audited (pg : Postgres) (r : Request) (env : Nat → Env) (s : Tables) : Prop :=
  r.operation.savesTask = true ∧ (program r).Along (system pg).handler (Recorded pg) env (s.spend (env 0))

instance (s : Tables) : Decidable s.Trailed := inferInstanceAs (Decidable (∀ t ∈ s.tasks, _))

instance (pg : Postgres) (r : Request) (env : Nat → Env) (s : Tables) : Decidable (Audited pg r env s) :=
  inferInstanceAs (Decidable (_ ∧ _))

section
variable {pg : Postgres} {s s' : Tables} {r : Request} {env : Nat → Env} {x : Uuid}

/-- The assignee of task `x` after an event, from the one before it. -/
def DomainEvent.replay (x : Uuid) (assignee : Option Uuid) : DomainEvent → Option Uuid
  | .taskAssigned taskId assigneeId _ => if taskId.uuid = x then some assigneeId.uuid else assignee
  | _ => assignee

/-- The row of an event tells what the event does. -/
theorem replay_recorded {e : DomainEvent} {n : NewActivity} (h : e.recorded? = some n) (env : Env)
    (assignee : Option Uuid) :
    (if (n.toRow env).taskId = x then (n.toRow env).replay assignee else assignee) = e.replay x assignee := by
  cases e with
  | taskAssigned taskId assigneeId actorId =>
    cases h
    rfl
  | taskCreated | taskStatusChanged | taskCompleted =>
    cases h
    exact ite_self _
  | commentCreated _ _ _ parentCommentId =>
    cases h
    cases parentCommentId <;> exact ite_self _
  | commentReplied => cases h

theorem replay_unrecorded {e : DomainEvent} (h : e.recorded? = none) (assignee : Option Uuid) :
    e.replay x assignee = assignee := by
  cases e <;> first | rfl | cases h

theorem replay_records {es : List DomainEvent} {rows : List TaskActivity} (h : Records es rows)
    (assignee : Option Uuid) :
    (rows.filter (·.taskId = x)).foldl TaskActivity.replay assignee = es.foldl (DomainEvent.replay x) assignee := by
  induction es generalizing rows assignee with
  | nil =>
    cases h
    rfl
  | cons e es ih =>
    rw [List.foldl_cons]
    cases hn : e.recorded? with
    | none =>
      rw [Records, List.filterMap_cons, hn] at h
      rw [replay_unrecorded hn]
      exact ih h assignee
    | some n =>
      rw [Records, List.filterMap_cons, hn] at h
      obtain ⟨row, rows', ⟨env, rfl⟩, hrest, rfl⟩ := List.forall₂_cons_left_iff.mp h
      rw [← replay_recorded hn env, ← ih hrest, List.filter_cons]
      by_cases hx : (n.toRow env).taskId = x
      · simp only [hx, decide_true, if_true, List.foldl_cons]
      · simp only [hx, decide_false, if_false, Bool.false_eq_true]

/-! ### One request -/

/-- The events of a create tell the assignee of its task, and nothing of other tasks. -/
theorem create_events_replay (p : UuidText) (user : Uuid) (task : Task) (assignee : Option Uuid) :
    (TasksService.create.events p user task).foldl (DomainEvent.replay x) assignee =
      if task.id = x then (task.assigneeId.map UuidText.uuid).or assignee else assignee := by
  cases h : task.assigneeId with
  | none =>
    simp only [TasksService.create.events, h]
    exact (ite_self _).symm
  | some a =>
    simp only [TasksService.create.events, h]
    rfl

theorem statusChanged_replay (actor : Uuid) (dto : UpdateTaskDto) (prev : Option TaskStatus) (saved : Task)
    (assignee : Option Uuid) :
    (TasksService.update.statusChanged actor dto prev saved).foldl (DomainEvent.replay x) assignee = assignee := by
  unfold TasksService.update.statusChanged
  cases dto.status with
  | none => rfl
  | some status =>
    by_cases h : status = prev
    · simp only [h, if_true]
      rfl
    · simp only [h, if_false]
      split <;> rfl

/-- The events of an update tell nothing of other tasks. -/
theorem update_events_replay_other (actor : Uuid) (dto : UpdateTaskDto) (prev saved : Task) (assignee : Option Uuid)
    (hx : saved.id ≠ x) : (TasksService.update.events actor dto prev saved).foldl (DomainEvent.replay x) assignee = assignee := by
  rw [TasksService.update.events, List.foldl_append, statusChanged_replay]
  unfold TasksService.update.assigned
  split
  · split
    · rfl
    · exact if_neg hx
  · rfl

/-- The events of an update tell the new assignee, unless it takes the assignee away. -/
theorem update_events_replay (actor : Uuid) (dto : UpdateTaskDto) (now : Date) (prev : Task) (hid : prev.id = x)
    (keeps : dto.assigneeId = some none → prev.assigneeId = none) :
    (TasksService.update.events actor dto prev (dto.apply now prev)).foldl (DomainEvent.replay x)
      (prev.assigneeId.map UuidText.uuid) = (dto.apply now prev).assigneeId.map UuidText.uuid := by
  rw [TasksService.update.events, List.foldl_append, statusChanged_replay]
  unfold TasksService.update.assigned
  cases hd : dto.assigneeId with
  | none => simp only [UpdateTaskDto.apply, hd, Option.getD_none, List.foldl_nil]
  | some assignee =>
    cases assignee with
    | none => simp only [UpdateTaskDto.apply, hd, Option.getD_some, keeps hd, List.foldl_nil]
    | some a =>
      simp only [UpdateTaskDto.apply, hd, Option.getD_some]
      by_cases h : some a = prev.assigneeId
      · rw [if_pos h, ← h]
        rfl
      · rw [if_neg h]
        exact if_pos hid

theorem Tables.replayed_append {rows : List TaskActivity} (h : s'.activity = s.activity ++ rows) :
    s'.replayed x = (rows.filter (·.taskId = x)).foldl TaskActivity.replay (s.replayed x) := by
  rw [replayed, replayed, h, List.filter_append, List.foldl_append]

/-- A task that is not there has no activity. -/
theorem Tables.WellFormed.replayed_none (wf : s.WellFormed) (h : x ∉ s.taskIds) : s.replayed x = none := by
  have hnil : s.activity.filter (·.taskId = x) = [] := by
    refine List.filter_eq_nil_iff.mpr fun a ha hx => h ?_
    rw [← of_decide_eq_true hx]
    exact wf.activityTask a ha
  rw [replayed, hnil]
  rfl

/-- A create or an update whose events are recorded keeps the trails, unless it takes an assignee away. -/
theorem serve_trailed (wf : s.WellFormed) (trailed : s.Trailed) (audited : Audited pg r env s)
    (keeps : ¬ ClearsAssignee r s) : ((system pg).serve r env s).2.Trailed := by
  obtain ⟨hsaves, halong⟩ := audited
  obtain ⟨res, s₁, rows, hout, -, -, same, hact, -, hrows⟩ := serve_outcome pg env wf hsaves
  have hrows := hrows halong
  generalize ((system pg).serve r env s).2 = s' at same hact
  intro t ht
  rw [same.tasks] at ht
  cases hout with
  | rejected e same₁ hact₁ =>
    cases hrows
    rw [same₁.tasks] at ht
    rw [Tables.replayed, hact, hact₁, List.append_nil]
    exact trailed t ht
  | @created w p user dto call e fresh s₁ same₁ hact₁ =>
    rw [same₁.tasks] at ht
    rw [hact₁] at hact
    have hnew : ((dto.new p user).saved e).id = e.uuid := rfl
    rw [Tables.replayed_append hact, replay_records hrows, emitted.eventsOf, create_events_replay, hnew]
    rcases List.mem_append.mp ht with ht | ht
    · -- An old task: its id is another one.
      rw [if_neg fun h : e.uuid = t.id => fresh (h.symm ▸ List.mem_map_of_mem ht)]
      exact trailed t ht
    · obtain rfl := List.mem_singleton.mp ht
      have hid : e.uuid = ((dto.new p user).toRow e).id := rfl
      rw [if_pos hid, ← hid, wf.replayed_none fresh, Option.or_none]
      rfl
  | @updated w p t' actor dto call old new found accepted row s₁ same₁ hact₁ =>
    rw [same₁.tasks] at ht
    rw [hact₁] at hact
    rw [Tables.replayed_append hact, replay_records hrows, emitted.eventsOf]
    obtain ⟨-, -, -, hid, -, -, -, hassignee, -⟩ := Task.toRow?_row row
    have hid : new.id = old.id := hid
    rcases (Table.mem_replace (x := new.over old) ⟨old, found.mem, hid.symm⟩).mp ht with rfl | ⟨ht, hne⟩
    · have hold : s.replayed (new.over old).id = old.toEntity.assigneeId.map UuidText.uuid := by
        refine (congrArg s.replayed hid).trans ((trailed old found.mem).trans ?_)
        cases h : old.assigneeId <;> simp [TaskRow.toEntity, h, Uuid.text]
      refine (congrArg (List.foldl _ · _) hold).trans ((update_events_replay _ _ _ _ hid.symm fun hnull => ?_).trans
        hassignee.symm)
      · by_contra hsome
        subst call
        exact keeps ⟨hnull, old, found, accepted, fun h => hsome (by rw [TaskRow.toEntity, h]; rfl)⟩
    · rw [update_events_replay_other _ _ _ _ _ fun h => hne (h.symm.trans hid.symm)]
      exact trailed t ht

/-! ### Runs -/

/-- Requests one after another keep the trails of all tasks, as long as none takes an assignee away. -/
theorem trail_tells_assignee (pg : Postgres) {s : Tables} (wf : s.WellFormed) (start : s.tasks = [])
    (rs : List (Request × (Nat → Env)))
    (cond : (system pg).Throughout (fun r env s => Audited pg r env s ∧ ¬ ClearsAssignee r s) rs s) :
    ((system pg).serveAll rs s).2.Trailed := by
  have hstart : s.Trailed := fun t ht => absurd (start ▸ ht) List.not_mem_nil
  refine (System.serveAll_throughout (P := fun s => s.WellFormed ∧ s.Trailed) ⟨wf, hstart⟩ cond ?_).2
  rintro r env s ⟨wf, trailed⟩ ⟨audited, keeps⟩
  exact ⟨serve_wellFormed r wf, serve_trailed wf trailed audited keeps⟩

end

/-! ### An assignee who is taken away -/

/-- A project without tasks. -/
def emptyProject : Tables :=
  { users := [9, 10], workspaces := [1], tasks := [], comments := [], activity := [], generated := ⟨[], []⟩,
    projects := [{ id := 5, workspaceId := 1, name := "Website", description := none, status := .ACTIVE, createdBy := 9,
                   createdAt := .epoch }] }

theorem emptyProject_wellFormed : emptyProject.WellFormed := by
  constructor <;> simp [emptyProject, Tables.projectIds, Tables.taskIds, Tables.commentIds]

/-- User 9 creates a task for user 10; its id is 112. -/
def createAssigned : Request × (Nat → Env) :=
  (⟨Uuid.text 1, .createTask (Uuid.text 5) 9 { title := "Task", assigneeId := some (Uuid.text 10) }⟩,
   fun k => envAt (10 + k))

/-- User 9 updates that task at time `n`. -/
def updateTo (dto : UpdateTaskDto) (n : Nat) : Request × (Nat → Env) :=
  (⟨Uuid.text 1, .updateTask (Uuid.text 5) (Uuid.text 112) 9 dto⟩, fun k => { envAt (10 * n + k) with now := n })

theorem trail_tells_reassigned :
    ((system .strict).serveAll [createAssigned, updateTo { assigneeId := some (some (Uuid.text 9)) } 2]
      emptyProject).2.Trailed := by
  refine trail_tells_assignee .strict emptyProject_wellFormed rfl _ ⟨⟨?_, id⟩, ⟨?_, ?_⟩, trivial⟩
  · decide +kernel
  · decide +kernel
  · intro h
    cases h.1

/-- The update that takes the assignee away leaves no row. -/
theorem cleared_without_trace :
    ¬ ∀ s : Tables, s.WellFormed → s.tasks = [] → ∀ rs, (system .strict).Throughout (Audited .strict) rs s →
      ((system .strict).serveAll rs s).2.Trailed := by
  intro h
  have htrailed := h emptyProject emptyProject_wellFormed rfl [createAssigned, updateTo { assigneeId := some none } 2]
    (by decide +kernel)
  revert htrailed
  decide +kernel

end TaskPlatform.Board

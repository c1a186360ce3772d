import TaskPlatform.Board.Trail

/-! The stream of events against the tasks: what creates and updates tell about the status, the completion and
    the assignee of a task. -/

namespace TaskPlatform.Board
open Effects

/-! ### What a stream tells about a task -/

/-- The task that an event is about. -/
def DomainEvent.taskId : DomainEvent → UuidText
  | .taskCreated taskId _ _ | .taskAssigned taskId _ _ | .taskStatusChanged taskId _ _ _ | .taskCompleted taskId _ _
  | .commentCreated _ taskId _ _ _ | .commentReplied _ taskId _ _ _ => taskId

/-- The change of status that an event tells of. -/
def DomainEvent.change? : DomainEvent → Option (Option TaskStatus × Option TaskStatus)
  | .taskStatusChanged _ fromStatus toStatus _ => some (fromStatus, toStatus)
  | _ => none

def DomainEvent.isCompleted : DomainEvent → Bool
  | .taskCompleted .. => true
  | _ => false

/-- The completion that has to follow an event: after a change to `DONE`, by the same user, for the creator. -/
def DomainEvent.completion? (creatorId : Uuid) : DomainEvent → Option DomainEvent
  | .taskStatusChanged taskId _ toStatus actorId =>
    if toStatus = some .DONE then some (.taskCompleted taskId actorId (some creatorId.text)) else none
  | _ => none

/-- The assignee that an event tells of. -/
def DomainEvent.assignee? : DomainEvent → Option Uuid
  | .taskAssigned _ assigneeId _ => some assigneeId.uuid
  | _ => none

/-- The events of a stream about one task. -/
def about (x : Uuid) (es : List DomainEvent) : List DomainEvent := es.filter (·.taskId.uuid = x)

/-- Changes of status that lead from `a` to `b`, each to another status. -/
def Linked {α : Type} (a : α) : List (α × α) → α → Prop
  | [], b => a = b
  | (fromStatus, toStatus) :: rest, b => fromStatus = a ∧ toStatus ≠ fromStatus ∧ Linked toStatus rest b

/-- What the events of a task tell of it is so. -/
structure Tells (es : List DomainEvent) (t : TaskRow) : Prop where
  status : Linked (some .TODO) ((about t.id es).filterMap DomainEvent.change?) (some t.status)
  completed : (about t.id es).filter DomainEvent.isCompleted = (about t.id es).filterMap (·.completion? t.createdBy)

/-! ### Assignments -/

def Tables.assigneeOf (s : Tables) (x : Uuid) : Option Uuid := (s.tasks.find? (·.id = x)).bind (·.assigneeId)

/-- The assignee that a task has after a request and did not have before it. -/
def newAssignee (x : Uuid) (s s' : Tables) : Option Uuid :=
  (s'.assigneeOf x).filter fun a => s.assigneeOf x ≠ some a

/-- A request emits `task.assigned` once for each new assignee, and never else. -/
def TellsAssignees (pg : Postgres) (r : Request) (env : Nat → Env) (s : Tables) : Prop :=
  ∀ x, (about x (emitted pg r env s)).filterMap DomainEvent.assignee? =
    (newAssignee x s ((system pg).serve r env s).2).toList

/-- A request that is rejected changes nothing and emits nothing. -/
def RejectedQuietly (pg : Postgres) (r : Request) (env : Nat → Env) (s : Tables) : Prop :=
  ∀ e, ((system pg).serve r env s).1 = .error e →
    s.SameRows ((system pg).serve r env s).2 ∧ ((system pg).serve r env s).2.activity = s.activity ∧
      emitted pg r env s = []

/-- An update that sends a `null` that its column does not take is rejected. -/
def RejectsNull (pg : Postgres) (r : Request) (env : Nat → Env) (s : Tables) : Prop :=
  ∀ w p t actor dto, r = ⟨w, .updateTask p t actor dto⟩ → dto.valid = false →
    ∃ e, ((system pg).serve r env s).1 = .error e

/-- An update that is accepted, and names the assignee that the task has, but not as Postgres writes it. -/
def RespellsAssignee (r : Request) (s : Tables) : Prop :=
  match r.operation with
  | .updateTask p t _ dto =>
    ∃ old, Found r.workspaceId p t s old ∧ dto.Accepted s old ∧ ∃ a, dto.assigneeId = some (some a) ∧
      old.assigneeId = some a.uuid ∧ a ≠ a.uuid.text
  | _ => False

section
variable {pg : Postgres} {s s' : Tables} {r : Request} {env : Nat → Env} {x : Uuid} {es es' : List DomainEvent}

theorem linked_append {α : Type} {a c : α} {l l' : List (α × α)} :
    Linked a (l ++ l') c ↔ ∃ b, Linked a l b ∧ Linked b l' c := by
  induction l generalizing a with
  | nil => exact ⟨fun h => ⟨a, rfl, h⟩, fun ⟨_, hb, h⟩ => hb ▸ h⟩
  | cons link l ih =>
    simp only [List.cons_append, Linked, ih]
    constructor
    · rintro ⟨hfrom, hne, b, hl, hl'⟩
      exact ⟨b, ⟨hfrom, hne, hl⟩, hl'⟩
    · rintro ⟨b, ⟨hfrom, hne, hl⟩, hl'⟩
      exact ⟨hfrom, hne, b, hl, hl'⟩

theorem about_append : about x (es ++ es') = about x es ++ about x es' := List.filter_append ..

theorem about_other (h : ∀ e ∈ es, e.taskId.uuid ≠ x) : about x es = [] :=
  List.filter_eq_nil_iff.mpr fun e he => by simpa using h e he

theorem about_self (h : ∀ e ∈ es, e.taskId.uuid = x) : about x es = es :=
  List.filter_eq_self.mpr fun e he => by simpa using h e he

/-! ### The events of a create and of an update -/

theorem create_events_taskId {p : UuidText} {user : Uuid} {task : Task} :
    ∀ e ∈ TasksService.create.events p user task, e.taskId = task.id.text := by
  intro e he
  rcases List.mem_cons.mp he with rfl | he
  · rfl
  · obtain ⟨a, -, rfl⟩ := Option.map_eq_some_iff.mp (Option.mem_toList.mp he)
    rfl

/-- When an update emits `task.assigned`. -/
theorem assigned_cases (actor : Uuid) (dto : UpdateTaskDto) (prev : Option UuidText) (saved : Task) :
    (∃ assignee a, dto.assigneeId = some assignee ∧ saved.assigneeId = some a ∧ assignee ≠ prev ∧
      TasksService.update.assigned actor dto prev saved = [.taskAssigned saved.id.text a actor.text]) ∨
    (dto.assigneeId = none ∨ saved.assigneeId = none ∨ dto.assigneeId = some prev) ∧
      TasksService.update.assigned actor dto prev saved = [] := by
  unfold TasksService.update.assigned
  cases hd : dto.assigneeId with
  | none => exact Or.inr ⟨Or.inl rfl, rfl⟩
  | some assignee =>
    cases hs : saved.assigneeId with
    | none => exact Or.inr ⟨Or.inr (Or.inl rfl), rfl⟩
    | some a =>
      by_cases h : assignee = prev
      · exact Or.inr ⟨Or.inr (Or.inr (congrArg some h)), if_pos h⟩
      · exact Or.inl ⟨assignee, a, rfl, rfl, h, if_neg h⟩

/-- When an update emits `task.status_changed`. -/
theorem statusChanged_cases (actor : Uuid) (dto : UpdateTaskDto) (prev : Option TaskStatus) (saved : Task) :
    (∃ status, dto.status = some status ∧ status ≠ prev ∧
      TasksService.update.statusChanged actor dto prev saved =
        .taskStatusChanged saved.id.text prev saved.status actor.text ::
          if saved.status = some .DONE then [.taskCompleted saved.id.text actor.text (some saved.createdBy.text)]
          else []) ∨
    (dto.status = none ∨ dto.status = some prev) ∧ TasksService.update.statusChanged actor dto prev saved = [] := by
  unfold TasksService.update.statusChanged
  cases hd : dto.status with
  | none => exact Or.inr ⟨Or.inl rfl, rfl⟩
  | some status =>
    by_cases h : status = prev
    · exact Or.inr ⟨Or.inr (congrArg some h), if_pos h⟩
    · exact Or.inl ⟨status, rfl, h, if_neg h⟩

theorem update_events_taskId {actor : Uuid} {dto : UpdateTaskDto} {prev saved : Task} :
    ∀ e ∈ TasksService.update.events actor dto prev saved, e.taskId = saved.id.text := by
  intro e he
  rcases List.mem_append.mp he with he | he
  · rcases assigned_cases actor dto prev.assigneeId saved with ⟨_, _, -, -, -, heq⟩ | ⟨-, heq⟩
    · rw [heq] at he
      obtain rfl := List.mem_singleton.mp he
      rfl
    · rw [heq] at he
      cases he
  · rcases statusChanged_cases actor dto prev.status saved with ⟨_, -, -, heq⟩ | ⟨-, heq⟩
    · rw [heq] at he
      rcases List.mem_cons.mp he with rfl | he
      · rfl
      · split at he
        · obtain rfl := List.mem_singleton.mp he
          rfl
        · cases he
    · rw [heq] at he
      cases he

/-- The changes of status of an update lead from the old status to the new one. -/
theorem update_events_linked (actor : Uuid) (dto : UpdateTaskDto) (now : Date) (prev : Task) :
    Linked prev.status ((TasksService.update.events actor dto prev (dto.apply now prev)).filterMap DomainEvent.change?)
      (dto.apply now prev).status := by
  have hassigned : (TasksService.update.assigned actor dto prev.assigneeId (dto.apply now prev)).filterMap
      DomainEvent.change? = [] := by
    rcases assigned_cases actor dto prev.assigneeId (dto.apply now prev) with ⟨_, _, -, -, -, heq⟩ | ⟨-, heq⟩ <;>
      rw [heq] <;> rfl
  rw [TasksService.update.events, List.filterMap_append, hassigned, List.nil_append]
  rcases statusChanged_cases actor dto prev.status (dto.apply now prev) with ⟨status, hd, hne, heq⟩ | ⟨hd, heq⟩
  · have hnew : (dto.apply now prev).status = status := by simp only [UpdateTaskDto.apply, hd, Option.getD_some]
    rw [heq, hnew]
    split <;> exact ⟨rfl, hne, rfl⟩
  · rw [heq]
    rcases hd with hd | hd <;> simp only [UpdateTaskDto.apply, hd, Option.getD_none, Option.getD_some] <;> rfl

/-- A completion follows each change to `DONE`, and nothing else. -/
theorem update_events_completed (actor : Uuid) (dto : UpdateTaskDto) (prev saved : Task) :
    (TasksService.update.events actor dto prev saved).filter DomainEvent.isCompleted =
      (TasksService.update.events actor dto prev saved).filterMap (·.completion? saved.createdBy) := by
  rw [TasksService.update.events, List.filter_append, List.filterMap_append]
  congr 1
  · rcases assigned_cases actor dto prev.assigneeId saved with ⟨_, _, -, -, -, heq⟩ | ⟨-, heq⟩ <;> rw [heq] <;> rfl
  · rcases statusChanged_cases actor dto prev.status saved with ⟨_, -, -, heq⟩ | ⟨-, heq⟩
    · rw [heq]
      by_cases hdone : saved.status = some .DONE
      · simp [hdone, DomainEvent.isCompleted, DomainEvent.completion?]
      · simp [hdone, DomainEvent.isCompleted, DomainEvent.completion?]
    · rw [heq]
      rfl

/-- An update tells of the new assignee, if it is another one. -/
theorem update_events_assignee (actor : Uuid) (dto : UpdateTaskDto) (now : Date) (prev : TaskRow)
    (plain : ∀ a, dto.assigneeId = some (some a) → prev.assigneeId = some a.uuid → a = a.uuid.text) :
    (TasksService.update.events actor dto prev.toEntity (dto.apply now prev.toEntity)).filterMap DomainEvent.assignee? =
      (((dto.apply now prev.toEntity).assigneeId.map UuidText.uuid).filter fun a => prev.assigneeId ≠ some a).toList := by
  have hstatus : (TasksService.update.statusChanged actor dto prev.toEntity.status (dto.apply now prev.toEntity)).filterMap
      DomainEvent.assignee? = [] := by
    rcases statusChanged_cases actor dto prev.toEntity.status (dto.apply now prev.toEntity) with ⟨_, -, -, heq⟩ | ⟨-, heq⟩
    · rw [heq]
      split <;> rfl
    · rw [heq]
      rfl
  -- An assignee that stays is no new one.
  have hsame : (dto.apply now prev.toEntity).assigneeId = prev.toEntity.assigneeId →
      ((dto.apply now prev.toEntity).assigneeId.map UuidText.uuid).filter (fun a => prev.assigneeId ≠ some a) = none := by
    intro h
    rw [h, TaskRow.toEntity]
    cases prev.assigneeId <;> simp [Uuid.text]
  rw [TasksService.update.events, List.filterMap_append, hstatus, List.append_nil]
  rcases assigned_cases actor dto prev.toEntity.assigneeId (dto.apply now prev.toEntity) with
    ⟨assignee, a, hd, hs, hne, heq⟩ | ⟨hd, heq⟩
  · obtain rfl : assignee = some a := by simpa only [UpdateTaskDto.apply, hd, Option.getD_some] using hs
    have hnew : prev.assigneeId ≠ some a.uuid := by
      intro h
      refine hne ?_
      rw [TaskRow.toEntity, h]
      exact congrArg some (plain a hd h)
    rw [heq, hs, Option.map_some, Option.filter_some, if_pos (decide_eq_true hnew)]
    rfl
  · rw [heq]
    rcases hd with hd | hs | hd
    · rw [hsame (by simp only [UpdateTaskDto.apply, hd, Option.getD_none])]
      rfl
    · rw [hs]
      rfl
    · rw [hsame (by simp only [UpdateTaskDto.apply, hd, Option.getD_some])]
      rfl

/-! ### One request -/

/-- The stream so far is about tasks, and tells what is so. -/
structure Streamed (s : Tables) (es : List DomainEvent) : Prop where
  known : ∀ e ∈ es, e.taskId.uuid ∈ s.taskIds
  tells : ∀ t ∈ s.tasks, Tells es t
  completedAt : ∀ t ∈ s.tasks, t.status = .DONE ↔ t.completedAt ≠ none

/-- Events about other tasks tell nothing of a task. -/
theorem Tells.append_other {t : TaskRow} (h : Tells es t) (other : ∀ e ∈ es', e.taskId.uuid ≠ t.id) :
    Tells (es ++ es') t := by
  constructor
  · rw [about_append, about_other other, List.append_nil]
    exact h.status
  · rw [about_append, about_other other, List.append_nil]
    exact h.completed

/-- The first events of a new task. -/
theorem tells_created (p : UuidText) (user : Uuid) (new : NewTask) (e : Env) (other : ∀ e' ∈ es, e'.taskId.uuid ≠ e.uuid)
    (status : new.status = .TODO) :
    Tells (es ++ TasksService.create.events p user (new.saved e)) (new.toRow e) := by
  have hid : (new.toRow e).id = e.uuid := rfl
  have hself : about e.uuid (TasksService.create.events p user (new.saved e)) =
      TasksService.create.events p user (new.saved e) :=
    about_self fun e' he' => by
      rw [create_events_taskId e' he']
      rfl
  have hevents : TasksService.create.events p user (new.saved e) = [.taskCreated e.uuid.text p user.text] ∨
      ∃ a, TasksService.create.events p user (new.saved e) =
        [.taskCreated e.uuid.text p user.text, .taskAssigned e.uuid.text a user.text] := by
    unfold TasksService.create.events
    cases (new.saved e).assigneeId with
    | none => exact Or.inl rfl
    | some a => exact Or.inr ⟨a, rfl⟩
  constructor
  · rw [hid, about_append, about_other other, List.nil_append, hself, NewTask.toRow, status]
    rcases hevents with h | ⟨a, h⟩ <;> rw [h] <;> rfl
  · rw [hid, about_append, about_other other, List.nil_append, hself]
    rcases hevents with h | ⟨a, h⟩ <;> rw [h] <;> rfl

/-- The events of an update go on with what was told before. -/
theorem Tells.updated {actor : Uuid} {dto : UpdateTaskDto} {now : Date} {old new : TaskRow} (h : Tells es old)
    (row : (dto.apply now old.toEntity).toRow? = .ok new) :
    Tells (es ++ TasksService.update.events actor dto old.toEntity (dto.apply now old.toEntity)) (new.over old) := by
  obtain ⟨-, hstatus, -, hid, -, -, -, -, hcreator, -, -⟩ := Task.toRow?_row row
  have hid : (new.over old).id = old.id := hid
  have hcreator : (new.over old).createdBy = old.createdBy := hcreator
  have hself : about old.id (TasksService.update.events actor dto old.toEntity (dto.apply now old.toEntity)) =
      TasksService.update.events actor dto old.toEntity (dto.apply now old.toEntity) :=
    about_self fun e he => by
      rw [update_events_taskId e he]
      rfl
  constructor
  · rw [hid, about_append, List.filterMap_append, hself]
    refine linked_append.mpr ⟨some old.status, h.status, ?_⟩
    have hlinked := update_events_linked actor dto now old.toEntity
    rw [hstatus] at hlinked
    exact hlinked
  · rw [hid, hcreator, about_append, List.filter_append, List.filterMap_append, hself, h.completed]
    exact congrArg _ (update_events_completed actor dto old.toEntity (dto.apply now old.toEntity))

/-- The status of an update and its `completedAt`. -/
theorem updated_completedAt {dto : UpdateTaskDto} {now : Date} {old new : TaskRow}
    (h : old.status = .DONE ↔ old.completedAt ≠ none) (row : (dto.apply now old.toEntity).toRow? = .ok new) :
    new.status = .DONE ↔ new.completedAt ≠ none := by
  obtain ⟨-, hstatus, -, -, -, -, -, -, -, -, hcompleted⟩ := Task.toRow?_row row
  simp only [UpdateTaskDto.apply] at hstatus hcompleted
  cases hd : dto.status with
  | none =>
    rw [hd] at hstatus hcompleted
    rw [hcompleted, ← Option.some.inj hstatus]
    exact h
  | some status =>
    rw [hd] at hstatus hcompleted
    obtain rfl : status = some new.status := hstatus
    rw [hcompleted]
    by_cases hdone : new.status = .DONE <;> simp [hdone]

theorem serve_streamed (wf : s.WellFormed) (inv : Streamed s es) (h : r.operation.savesTask = true) :
    Streamed ((system pg).serve r env s).2 (es ++ emitted pg r env s) := by
  obtain ⟨res, s₁, rows, hout, hemitted, -, same, -⟩ := serve_outcome pg env wf h
  rw [hemitted]
  generalize ((system pg).serve r env s).2 = s' at same
  have hids : s'.taskIds = s₁.taskIds := congrArg (List.map TaskRow.id) same.tasks
  cases hout with
  | rejected e same₁ hact₁ =>
    have htasks := same.tasks.trans same₁.tasks
    rw [emitted.eventsOf, List.append_nil]
    refine ⟨?_, htasks ▸ inv.tells, htasks ▸ inv.completedAt⟩
    rw [hids, Tables.taskIds, same₁.tasks]
    exact inv.known
  | @created w p user dto call e fresh s₁ same₁ hact₁ =>
    have htasks : s'.tasks = s.tasks ++ [(dto.new p user).toRow e] := same.tasks.trans same₁.tasks
    have hknown : ∀ e' ∈ es, e'.taskId.uuid ≠ e.uuid := fun e' he' heq => fresh (heq ▸ inv.known e' he')
    have hother : ∀ t ∈ s.tasks, ∀ e' ∈ TasksService.create.events p user ((dto.new p user).saved e),
        e'.taskId.uuid ≠ t.id := by
      intro t ht e' he' heq
      rw [create_events_taskId e' he'] at heq
      exact fresh (List.mem_map.mpr ⟨t, ht, heq.symm⟩)
    rw [emitted.eventsOf]
    refine ⟨?_, ?_, ?_⟩
    · intro e' he'
      rw [hids, Tables.taskIds, same₁.tasks]
      rcases List.mem_append.mp he' with he' | he'
      · exact mem_append_ids (inv.known e' he')
      · rw [create_events_taskId e' he']
        exact List.mem_map.mpr ⟨_, List.mem_append_right _ (List.mem_singleton_self _), rfl⟩
    · intro t ht
      rcases List.mem_append.mp (htasks ▸ ht) with ht | ht
      · exact (inv.tells t ht).append_other (hother t ht)
      · obtain rfl := List.mem_singleton.mp ht
        exact tells_created p user (dto.new p user) e hknown rfl
    · intro t ht
      rcases List.mem_append.mp (htasks ▸ ht) with ht | ht
      · exact inv.completedAt t ht
      · obtain rfl := List.mem_singleton.mp ht
        exact ⟨by rintro ⟨⟩, fun h => absurd rfl h⟩
  | @updated w p t' actor dto call old new found accepted row s₁ same₁ hact₁ =>
    have htasks : s'.tasks = Table.replace TaskRow.id (new.over old) s.tasks := same.tasks.trans same₁.tasks
    have hid : new.id = old.id := (Task.toRow?_row row).2.2.2.1
    have hmem : ∀ {t}, t ∈ s'.tasks → t = new.over old ∨ t ∈ s.tasks ∧ t.id ≠ new.id := fun ht =>
      (Table.mem_replace (x := new.over old) ⟨old, found.mem, hid.symm⟩).mp (htasks ▸ ht)
    rw [emitted.eventsOf]
    refine ⟨?_, ?_, ?_⟩
    · intro e he
      rw [hids, Tables.taskIds, same₁.tasks, Table.map_key_replace]
      rcases List.mem_append.mp he with he | he
      · exact inv.known e he
      · rw [update_events_taskId e he]
        exact List.mem_map_of_mem found.mem
    · intro t ht
      rcases hmem ht with rfl | ⟨ht, hne⟩
      · exact (inv.tells old found.mem).updated row
      · refine (inv.tells t ht).append_other fun e he heq => hne ?_
        rw [update_events_taskId e he] at heq
        exact heq.symm.trans hid.symm
    · intro t ht
      rcases hmem ht with rfl | ⟨ht, -⟩
      · have := updated_completedAt (inv.completedAt old found.mem) row
        exact this
      · exact inv.completedAt t ht

/-! ### Assignees -/

theorem Tables.WellFormed.assigneeOf (wf : s.WellFormed) {t : TaskRow} (h : t ∈ s.tasks) :
    s.assigneeOf t.id = t.assigneeId := by
  rw [Tables.assigneeOf, Table.find?_key wf.tasks h]
  rfl

theorem Tables.assigneeOf_none (h : x ∉ s.taskIds) : s.assigneeOf x = none := by
  rw [assigneeOf, List.find?_eq_none.mpr fun t ht hx => h (List.mem_map.mpr ⟨t, ht, of_decide_eq_true hx⟩)]
  rfl

theorem Tables.assigneeOf_congr (h : s'.tasks = s.tasks) : s'.assigneeOf x = s.assigneeOf x := by
  rw [assigneeOf, assigneeOf, h]

/-- An assignee that stays is no new one. -/
theorem newAssignee_same (h : s'.assigneeOf x = s.assigneeOf x) : newAssignee x s s' = none := by
  rw [newAssignee, h]
  cases s.assigneeOf x <;> simp

theorem serve_tellsAssignees (wf : s.WellFormed) (h : r.operation.savesTask = true) (plain : ¬ RespellsAssignee r s) :
    TellsAssignees pg r env s := by
  intro x
  have wf' : ((system pg).serve r env s).2.WellFormed := serve_wellFormed r wf
  obtain ⟨res, s₁, rows, hout, hemitted, -, same, -⟩ := serve_outcome pg env wf h
  rw [hemitted]
  generalize ((system pg).serve r env s).2 = s' at same wf'
  cases hout with
  | rejected e same₁ hact₁ =>
    rw [newAssignee_same (Tables.assigneeOf_congr (same.tasks.trans same₁.tasks))]
    rfl
  | @created w p user dto call e fresh s₁ same₁ hact₁ =>
    have htasks : s'.tasks = s.tasks ++ [(dto.new p user).toRow e] := same.tasks.trans same₁.tasks
    rw [emitted.eventsOf]
    by_cases hx : x = e.uuid
    · subst hx
      have hnew : s'.assigneeOf e.uuid = dto.assigneeId.map UuidText.uuid :=
        wf'.assigneeOf (t := (dto.new p user).toRow e) (htasks ▸ List.mem_append_right _ (List.mem_singleton_self _))
      rw [about_self fun e' he' => by rw [create_events_taskId e' he']; rfl, newAssignee, hnew,
        Tables.assigneeOf_none fresh]
      unfold TasksService.create.events
      have hsaved : ((dto.new p user).saved e).assigneeId = dto.assigneeId := rfl
      rw [hsaved]
      cases dto.assigneeId <;> rfl
    · have hsame : s'.assigneeOf x = s.assigneeOf x := by
        rw [Tables.assigneeOf, htasks, List.find?_append, List.find?_singleton]
        have : ¬ ((dto.new p user).toRow e).id = x := fun h => hx h.symm
        simp [this, Tables.assigneeOf]
      rw [newAssignee_same hsame, about_other fun e' he' heq => hx ?_]
      · rfl
      · rw [create_events_taskId e' he'] at heq
        exact heq.symm
  | @updated w p t' actor dto call old new found accepted row s₁ same₁ hact₁ =>
    have htasks : s'.tasks = Table.replace TaskRow.id (new.over old) s.tasks := same.tasks.trans same₁.tasks
    obtain ⟨-, -, -, hid, -, -, -, hassignee, -⟩ := Task.toRow?_row row
    have hid : new.id = old.id := hid
    rw [emitted.eventsOf]
    by_cases hx : x = old.id
    · subst hx
      have hnew : s'.assigneeOf old.id = new.assigneeId := by
        rw [← hid]
        exact wf'.assigneeOf (t := new.over old)
          (htasks ▸ (Table.mem_replace (x := new.over old) ⟨old, found.mem, hid.symm⟩).mpr (Or.inl rfl))
      rw [about_self fun e he => by rw [update_events_taskId e he]; rfl, newAssignee, hnew, wf.assigneeOf found.mem,
        hassignee]
      refine update_events_assignee actor dto (env 2).now old fun a hd ha => ?_
      by_contra hne
      subst call
      exact plain ⟨old, found, accepted, a, hd, ha, hne⟩
    · have hsame : s'.assigneeOf x = s.assigneeOf x := by
        by_cases hmem : x ∈ s.taskIds
        · obtain ⟨t, ht, rfl⟩ := List.mem_map.mp hmem
          have ht' : t ∈ s'.tasks := htasks ▸
            (Table.mem_replace (x := new.over old) ⟨old, found.mem, hid.symm⟩).mpr
              (Or.inr ⟨ht, fun h => hx (h.trans hid)⟩)
          rw [wf'.assigneeOf ht', wf.assigneeOf ht]
        · have hmem' : x ∉ s'.taskIds := by
            rw [Tables.taskIds, htasks, Table.map_key_replace]
            exact hmem
          rw [Tables.assigneeOf_none hmem', Tables.assigneeOf_none hmem]
      rw [newAssignee_same hsame, about_other fun e he heq => hx ?_]
      · rfl
      · rw [update_events_taskId e he] at heq
        exact heq.symm

/-! ### Rejections -/

theorem serve_rejectedQuietly (wf : s.WellFormed) (h : r.operation.savesTask = true) : RejectedQuietly pg r env s := by
  intro e he
  obtain ⟨res, s₁, rows, hout, hemitted, hres, same, hact, hnil, -⟩ := serve_outcome pg env wf h
  rw [hres] at he
  cases hout with
  | rejected e' same₁ hact₁ =>
    rw [hact₁, hnil rfl, List.append_nil] at hact
    exact ⟨same₁.trans same, hact, hemitted⟩
  | created | updated => cases he

theorem serve_rejectsNull (wf : s.WellFormed) : RejectsNull pg r env s := by
  rintro w p t actor dto rfl hinvalid
  obtain ⟨res, s₁, rows, hout, -, hres, -⟩ := serve_outcome pg env wf (r := ⟨w, .updateTask p t actor dto⟩) rfl
  cases hout with
  | rejected e => exact ⟨e, hres⟩
  | created call => cases call
  | updated call found accepted =>
    cases call
    rw [accepted.valid] at hinvalid
    cases hinvalid

/-! ### Runs -/

/-- Creates and updates one after another: at every moment the stream of events tells the status of every
    task, its completions and its assignments, as long as no update names an assignee in another spelling. -/
theorem stream_tells_tasks (pg : Postgres) {s : Tables} (wf : s.WellFormed) (start : s.tasks = [])
    (rs : List (Request × (Nat → Env)))
    (cond : (system pg).Throughout (fun r _ s => r.operation.savesTask = true ∧ ¬ RespellsAssignee r s) rs s) :
    (∀ t ∈ ((system pg).serveAll rs s).2.tasks, (t.status = .DONE ↔ t.completedAt ≠ none) ∧
      Tells ((system pg).observe (emitted pg) rs s) t) ∧
    (system pg).Throughout (fun r env s => TellsAssignees pg r env s ∧ RejectedQuietly pg r env s ∧ RejectsNull pg r env s)
      rs s := by
  have hstart : Streamed s [] :=
    ⟨nofun, fun t ht => absurd (start ▸ ht) List.not_mem_nil, fun t ht => absurd (start ▸ ht) List.not_mem_nil⟩
  constructor
  · have inv := System.serveAll_observe (emitted pg) (P := fun s es => s.WellFormed ∧ Streamed s es)
      ⟨wf, hstart⟩ cond fun ⟨wf, inv⟩ ⟨h, _⟩ => ⟨serve_wellFormed _ wf, serve_streamed wf inv h⟩
    exact fun t ht => ⟨inv.2.completedAt t ht, inv.2.tells t ht⟩
  · exact cond.of_invariant (P := Tables.WellFormed) wf (fun wf _ => serve_wellFormed _ wf) fun wf ⟨h, plain⟩ =>
      ⟨serve_tellsAssignees wf h plain, serve_rejectedQuietly wf h, serve_rejectsNull wf⟩

end
/-! ### An assignee in another spelling -/

theorem stream_tells_reopened :
    (system .strict).observe (emitted .strict)
      [createAssigned, updateTo { status := some (some .DONE) } 2, updateTo { status := some none } 3] emptyProject =
        [.taskCreated (Uuid.text 112) (Uuid.text 5) (Uuid.text 9),
         .taskAssigned (Uuid.text 112) (Uuid.text 10) (Uuid.text 9),
         .taskStatusChanged (Uuid.text 112) (some .TODO) (some .DONE) (Uuid.text 9),
         .taskCompleted (Uuid.text 112) (Uuid.text 9) (some (Uuid.text 9))] ∧
    ∀ t ∈ ((system .strict).serveAll
        [createAssigned, updateTo { status := some (some .DONE) } 2, updateTo { status := some none } 3] emptyProject).2.tasks,
      (t.status = .DONE ↔ t.completedAt ≠ none) ∧ Tells ((system .strict).observe (emitted .strict)
        [createAssigned, updateTo { status := some (some .DONE) } 2, updateTo { status := some none } 3] emptyProject) t := by
  refine ⟨by decide +kernel, (stream_tells_tasks .strict emptyProject_wellFormed rfl _ ?_).1⟩
  refine ⟨⟨rfl, id⟩, ⟨rfl, ?_⟩, ⟨rfl, ?_⟩, trivial⟩
  · rintro ⟨_, -, -, a, ha, -⟩
    cases ha
  · rintro ⟨_, -, accepted, -⟩
    cases accepted.valid

/-- The current assignee, written in capitals: `task.assigned` is emitted although nothing changes. -/
theorem assigned_again_in_capitals :
    ¬ ∀ s : Tables, s.WellFormed → s.tasks = [] → ∀ rs,
      (system .strict).Throughout (fun r _ _ => r.operation.savesTask = true) rs s →
      (∀ t ∈ ((system .strict).serveAll rs s).2.tasks, (t.status = .DONE ↔ t.completedAt ≠ none) ∧
        Tells ((system .strict).observe (emitted .strict) rs s) t) ∧
      (system .strict).Throughout (fun r env s => TellsAssignees .strict r env s ∧ RejectedQuietly .strict r env s ∧
        RejectsNull .strict r env s) rs s := by
  intro h
  obtain ⟨-, -, ⟨htells, -⟩, -⟩ := h emptyProject emptyProject_wellFormed rfl
    [createAssigned, updateTo { assigneeId := some (some ⟨10, 1⟩) } 2] ⟨rfl, rfl, trivial⟩
  have := htells 112
  revert this
  decide +kernel

end TaskPlatform.Board

import TaskPlatform.Board.LostUpdates
import TaskPlatform.Board.Outcomes
import TaskPlatform.Reminders.Serving

/-! Whether the assignee of a task has been notified: a reminder is created once for a task, a type and a due date,
    whoever is the assignee then. -/

namespace TaskPlatform.Board
open Effects

/-- What reminding of a task depends on. -/
structure Watched where
  assigneeId : Option Uuid
  dueDate : Option Date
  status : Option TaskStatus

def TaskRow.watched (x : TaskRow) : Watched := ⟨x.assigneeId, x.dueDate, some x.status⟩

/-- The same of the task after the patch. -/
def UpdateTaskDto.watched (dto : UpdateTaskDto) (x : TaskRow) : Watched where
  assigneeId := (dto.assigneeId.getD (x.assigneeId.map Uuid.text)).map UuidText.uuid
  dueDate := dto.dueDate.getD x.dueDate
  status := dto.status.getD (some x.status)

/-- The request patches the task, and is accepted. -/
def Request.Patches (r : Request) (dto : UpdateTaskDto) (s : Tables) (x : TaskRow) : Prop :=
  ∃ p t actorId, r.operation = .updateTask p t actorId dto ∧ 
    Found r.workspaceId p t s x ∧ dto.Accepted s x

section
variable {pg : Postgres} {r : Request} {env : Nat → Env} {s : Tables}

theorem watched_of_save {t : Task} {row : TaskRow} (h : t.toRow? = .ok row) :
    row.watched = ⟨t.assigneeId.map UuidText.uuid, t.dueDate, t.status⟩ := by
  obtain ⟨-, hstatus, -, -, -, -, -, hassignee, -, hdue, -⟩ := Task.toRow?_row h
  rw [TaskRow.watched, hassignee, hdue, hstatus]

/-- The tasks after a save: the saved one is watched as it was saved. -/
theorem SavesTask.watched {w p t : UuidText} {f : TaskRow → Task} {s' : Tables} (h : SavesTask w p t f s s')
    (ids : ∀ old, (f old).id = old.id) {x : TaskRow} (mem : x ∈ s'.tasks) :
    x ∈ s.tasks ∨ ∃ y row, Found w p t s y ∧ (f y).toRow? = .ok row ∧ s.TaskRefs (some y) row ∧ x.id = y.id ∧
      x.watched = ⟨(f y).assigneeId.map UuidText.uuid, (f y).dueDate, (f y).status⟩ := by
  obtain ⟨old, row, hold, hid, hproject, hin, hrow, hrefs, htasks⟩ := h
  have hrid : (row.over old).id = old.id := (Task.toRow?_ok hrow).1.trans (ids old)
  rw [htasks, Table.mem_replace ⟨old, hold, hrid.symm⟩] at mem
  rcases mem with rfl | ⟨hmem, -⟩
  · have hsaved := watched_of_save hrow
    exact Or.inr ⟨old, row, ⟨hold, hid, hproject, hin⟩, hrow, hrefs, hrid, hsaved⟩
  · exact Or.inl hmem

/-- A task after a request is new, or what is watched of it is as before or as a patch says. -/
theorem served_watched (wf : s.WellFormed) {x : TaskRow} (mem : x ∈ ((system pg).serve r env s).2.tasks) :
    x.id ∉ s.taskIds ∨ ∃ y ∈ s.tasks, x.id = y.id ∧
      (x.watched = y.watched ∨ ∃ dto, r.Patches dto s y ∧ x.watched = dto.watched y) := by
  have hsame : ∀ {l : List TaskRow}, l = s.tasks → x ∈ l → x.id ∉ s.taskIds ∨ ∃ y ∈ s.tasks, x.id = y.id ∧
      (x.watched = y.watched ∨ ∃ dto, r.Patches dto s y ∧ x.watched = dto.watched y) := fun hl hx =>
    Or.inr ⟨x, hl ▸ hx, rfl, Or.inl rfl⟩
  have hdeleted : r.operation.writesTask = false → x ∈ s.tasks := fun hr =>
    run_leavesTasks pg env (s.spend (env 0)) (program_leavesTasks hr) mem
  obtain ⟨w, operation⟩ := r
  cases operation with
  | createTask p user dto =>
    rw [serve_createTask] at mem
    rcases createTask_tasks pg env (s.spend (env 0)) w p user dto with htasks | ⟨-, row, hnew, -, -, -, htasks⟩
    · exact hsame htasks mem
    · rw [htasks] at mem
      rcases List.mem_append.mp mem with hmem | hmem
      · exact hsame rfl hmem
      · obtain rfl := List.mem_singleton.mp hmem
        exact Or.inl hnew
  | updateTask p t user dto =>
    rw [serve_updateTask] at mem
    rcases updateTask_tasks pg env w p t (wf.spend (env 0)) user dto with htasks | ⟨now, hsaves⟩
    · exact hsame htasks mem
    · rcases hsaves.watched (fun _ => rfl) mem with hmem | ⟨y, row, hfound, hrow, hrefs, hxy, hwatched⟩
      · exact hsame rfl hmem
      · exact Or.inr ⟨y, hfound.mem, hxy, Or.inr ⟨dto, ⟨p, t, user, rfl,
          ⟨hfound.mem, hfound.id, hfound.projectId, hfound.inProject⟩, accepted_of_toRow? hrow (hrefs.congr rfl rfl rfl)⟩,
          hwatched⟩⟩
  | moveTask p t parent =>
    rw [serve_moveTask] at mem
    rcases moveTask_tasks pg env w p t (wf.spend (env 0)) parent with htasks | ⟨-, hsaves⟩
    · exact hsame htasks mem
    · rcases hsaves.watched (fun _ => rfl) mem with hmem | ⟨y, -, hfound, -, -, hxy, hwatched⟩
      · exact hsame rfl hmem
      · refine Or.inr ⟨y, hfound.mem, hxy, Or.inl (hwatched.trans ?_)⟩
        exact congrArg (fun a => Watched.mk a y.dueDate (some y.status)) (map_uuid_text _)
  | _ => exact hsame rfl (hdeleted rfl)

end
end TaskPlatform.Board

namespace TaskPlatform.Reminders
open Effects RemindersService

namespace Tables

/-- The user has a notification of this type about the task. -/
def Told (s : Tables) (type : ReminderType) (taskId a : Uuid) : Prop :=
  ∃ n ∈ s.notifications, n.type = (if type = .DUE_SOON then .TASK_DUE_SOON else .TASK_OVERDUE) ∧ n.recipientId = a ∧
    n.entityType = some "task" ∧ n.entityId = some taskId

/-- If the task is open, with an assignee and a due date, the assignee has been told what there are reminders of. -/
def Tells (s : Tables) (taskId : Uuid) (w : Board.Watched) : Prop :=
  w.status ≠ some .DONE → w.status ≠ some .CANCELLED → ∀ a ∈ w.assigneeId, ∀ due ∈ w.dueDate, ∀ type,
    (⟨taskId, type, due⟩ : ReminderKey) ∈ s.keys → s.Told type taskId a

/-- The assignees have been told what there are reminders of. -/
def Current (s : Tables) : Prop := ∀ x ∈ s.board.tasks, s.Tells x.id x.watched

/-- The assignees of the open tasks that are due at this time have their notifications. -/
def Notified (s : Tables) (now : Date) : Prop :=
  ∀ x ∈ s.board.tasks, x.status ≠ .DONE → x.status ≠ .CANCELLED → ∀ a ∈ x.assigneeId, ∀ due ∈ x.dueDate,
    (now < due → due ≤ now + DUE_SOON_WINDOW_MS → s.Told .DUE_SOON x.id a) ∧ (due ≤ now → s.Told .OVERDUE x.id a)

end Tables

/-- No patch that is accepted leaves an open task with an assignee who has not been told what there is a reminder of,
    for the due date that the patch leaves. -/
def Request.keepsCurrent (s : Tables) : Request → Prop
  | .scan _ => True
  | .work _ => False
  | .board r => ∀ dto, ∀ x ∈ s.board.tasks, r.Patches dto s.board x → s.Tells x.id (dto.watched x)

/-- Each request of the sequence meets the condition in the state in which it is served. -/
def KeepsCurrent (pg : Postgres) : List (Request × (Nat → Env)) → Tables → Prop
  | [], _ => True
  | (r, env) :: rest, s => r.keepsCurrent s ∧ KeepsCurrent pg rest ((system pg false).serve r env s).2

section
variable {pg : Postgres} {queue : Bool} {s s' : Tables} {env : Nat → Env} {type : ReminderType} {α : Type}

/-! ### A request of the board -/

theorem liftBoard_served (p : Board.Service α) (h : s.Sound)
    (admitted : (liftBoard p).Admitted (system pg queue).handler (fun s e => (system pg queue).admits s e = true) env s) :
    ∃ s', (liftBoard p).run (system pg queue).handler env s = ((p.run (Board.system pg).handler env s.board).1, s') ∧
      s'.Sound ∧ s'.board = (p.run (Board.system pg).handler env s.board).2 ∧ s'.notifications = s.notifications ∧
        s'.reminders ⊆ s.reminders := by
  induction p generalizing env s with
  | ret | throw => exact ⟨s, rfl, h, rfl, rfl, List.Subset.refl _⟩
  | ask k ih => exact ih (env 0) h admitted
  | call c k ih =>
    rw [liftBoard_call] at admitted ⊢
    have hsound := h.call pg queue (c := .board c) admitted.1 trivial
    obtain ⟨s', hrun, hs', hboard, hnotifications, hreminders⟩ := ih _ hsound admitted.2
    exact ⟨s', hrun, hs', hboard, hnotifications, fun r hr => (List.mem_filter.mp (hreminders hr)).1⟩

/-- A request of the board leaves the notifications, and deletes reminders at most. -/
theorem serve_board (h : s.Sound) {r : Board.Request} (served : (system pg queue).Serves (.board r) env s) :
    ((system pg queue).serve (.board r) env s).2.Sound ∧
      ((system pg queue).serve (.board r) env s).2.board = ((Board.system pg).serve r env s.board).2 ∧
      ((system pg queue).serve (.board r) env s).2.notifications = s.notifications ∧
      ((system pg queue).serve (.board r) env s).2.reminders ⊆ s.reminders := by
  obtain ⟨hadmitted, -⟩ := Prog.run_bind (liftBoard (Board.program r)) (fun response => .ret (Response.board response)) env _
    served.2
  obtain ⟨s', hrun, hs'⟩ := liftBoard_served (Board.program r) (h.spend (env 0)) hadmitted
  have hserve : ((system pg queue).serve (.board r) env s).2 = s' :=
    (Prog.run_map _ _ Response.board _ _).trans (congrArg Prod.snd hrun)
  rw [hserve]
  exact hs'

/-! ### Who has been told -/

theorem Tables.Told.mono {t a : Uuid} (h : s.Told type t a) (sub : s.notes ⊆ s'.notes) : s'.Told type t a := by
  obtain ⟨n, hn, htype, hrecipient, hentityType, hentityId⟩ := h
  obtain ⟨n', hn', heq⟩ := List.mem_map.mp (sub (List.mem_map_of_mem hn))
  simp only [noteOf, Prod.mk.injEq, Notifications.CreateNotificationInput.mk.injEq] at heq
  obtain ⟨⟨hrecipient', htype', -, -, hentityType', hentityId', -⟩, -⟩ := heq
  refine ⟨n', hn', htype'.trans htype, (congrArg UuidText.uuid hrecipient').trans hrecipient,
    hentityType'.trans hentityType, ?_⟩
  have hid := congrArg (Option.map UuidText.uuid) hentityId'
  rw [Board.map_uuid_text, Board.map_uuid_text] at hid
  exact hid.trans hentityId

/-- The notification of a reminder tells. -/
theorem told_of_note {t a : Uuid} (h : reminderNote t type a ∈ s.notes) : s.Told type t a := by
  obtain ⟨n, hn, heq⟩ := List.mem_map.mp h
  simp only [noteOf, reminderNote, Prod.mk.injEq, Notifications.CreateNotificationInput.mk.injEq] at heq
  obtain ⟨⟨hrecipient, htype, -, -, hentityType, hentityId, -⟩, -⟩ := heq
  refine ⟨n, hn, htype, congrArg UuidText.uuid hrecipient, hentityType, ?_⟩
  have hid := congrArg (Option.map UuidText.uuid) hentityId
  rwa [Board.map_uuid_text] at hid

theorem Tables.Tells.mono {id : Uuid} {w : Board.Watched} (h : s.Tells id w) (keys : s'.keys ⊆ s.keys)
    (notes : s.notes ⊆ s'.notes) : s'.Tells id w :=
  fun hdone hcancelled a ha due hdue type hkey => (h hdone hcancelled a ha due hdue type (keys hkey)).mono notes

/-! ### Each request keeps the assignees told -/

/-- A scan tells the assignees it finds. -/
theorem Dispatches.current {ds : List Due} (h : Dispatches false ds s s') (wf : s.Sound) (current : s.Current)
    (tasks : ∀ d ∈ ds, d.task ∈ s.board.tasks) : s'.Current := by
  have hnotes : s'.notes = s.notes ++ (s.created ds).filterMap Due.note? := h.notes
  intro x hx hdone hcancelled a ha due hdue type hkey
  rw [h.aside.tasks] at hx
  rw [h.keys] at hkey
  rcases List.mem_append.mp hkey with hkey | hkey
  · refine (current x hx hdone hcancelled a ha due hdue type hkey).mono ?_
    rw [hnotes]
    exact List.subset_append_left ..
  · obtain ⟨d, hd, heq⟩ := List.mem_map.mp hkey
    simp only [Due.key, ReminderKey.mk.injEq] at heq
    obtain ⟨hid, rfl, -⟩ := heq
    obtain rfl : d.task = x := Table.eq_of_key wf.wellFormed.board.tasks (tasks d (List.mem_filter.mp hd).1) hx hid
    refine told_of_note ?_
    rw [hnotes]
    refine List.mem_append_right _ (List.mem_filterMap.mpr ⟨d, hd, ?_⟩)
    exact congrArg (Option.map (reminderNote d.task.id d.type)) ha

theorem serve_current (h : s.Sound) (current : s.Current) {r : Request} (served : (system pg false).Serves r env s)
    (keeps : r.keepsCurrent s) :
    ((system pg false).serve r env s).2.Sound ∧ ((system pg false).serve r env s).2.Current := by
  cases r with
  | scan now =>
    have hscan := serve_scan h served
    refine ⟨hscan.aside.sound, hscan.current h current fun d hd => ?_⟩
    rcases List.mem_append.mp hd with hd | hd
    all_goals
      obtain ⟨x, hx, rfl⟩ := List.mem_map.mp hd
      exact (List.mem_filter.mp hx).1
  | work => exact keeps.elim
  | board r =>
    obtain ⟨hsound, hboard, hnotifications, hreminders⟩ := serve_board h served
    refine ⟨hsound, fun x hx => ?_⟩
    have hkeys : ((system pg false).serve (.board r) env s).2.keys ⊆ s.keys := List.map_subset _ hreminders
    have hnotes : s.notes ⊆ ((system pg false).serve (.board r) env s).2.notes := by
      rw [Tables.notes, Tables.notes, hnotifications]
      exact List.Subset.refl _
    rw [hboard] at hx
    rcases Board.served_watched h.wellFormed.board hx with hnew | ⟨y, hy, hid, hwatched | ⟨dto, hpatches, hwatched⟩⟩
    · -- There is no reminder of a new task.
      intro _ _ a _ due _ type hkey
      obtain ⟨q, hq, heq⟩ := List.mem_map.mp (hkeys hkey)
      have htask : q.taskId = x.id := congrArg ReminderKey.taskId heq
      exact absurd (htask ▸ h.wellFormed.task q hq) hnew
    · rw [hid, hwatched]
      exact (current y hy).mono hkeys hnotes
    · rw [hid, hwatched]
      exact (keeps dto y hy hpatches).mono hkeys hnotes

theorem serveAll_current {rs : List (Request × (Nat → Env))} (h : s.Sound) (current : s.Current)
    (served : (system pg false).ServesAll rs s) (keeps : KeepsCurrent pg rs s) :
    ((system pg false).serveAll rs s).2.Sound ∧ ((system pg false).serveAll rs s).2.Current := by
  induction rs generalizing s with
  | nil => exact ⟨h, current⟩
  | cons r rs ih =>
    obtain ⟨hsound, hcurrent⟩ := serve_current h current served.1 keeps.1
    exact ih hsound hcurrent served.2 keeps.2

/-- After a scan the assignees of all that is due have their notifications. -/
theorem serve_notified (h : s.Sound) (current : s.Current) {now : Date}
    (served : (system pg false).Serves (.scan now) env s) : ((system pg false).serve (.scan now) env s).2.Notified now := by
  have hscan := serve_scan h served
  have hcurrent := (serve_current h current served trivial).2
  intro x hx hdone hcancelled a ha due hdue
  have hmem : x ∈ s.board.tasks := hscan.aside.tasks ▸ hx
  have htold : ∀ type, (⟨type, x⟩ : Due) ∈ s.dues now → ((system pg false).serve (.scan now) env s).2.Told type x.id a := by
    intro type hd
    have hkey := hscan.mem_keys hd
    rw [Due.key, hdue, Option.getD_some] at hkey
    exact hcurrent x hx (fun heq => hdone (Option.some.inj heq)) (fun heq => hcancelled (Option.some.inj heq)) a ha due hdue
      type hkey
  refine ⟨fun hnow hsoon => htold _ (List.mem_append_left _ (List.mem_map_of_mem (List.mem_filter.mpr ⟨hmem, ?_⟩))),
    fun hlate => htold _ (List.mem_append_right _ (List.mem_map_of_mem (List.mem_filter.mpr ⟨hmem, ?_⟩)))⟩
  · simp [openTask, Option.mem_def.mp hdue, hnow, hsoon, hdone, hcancelled]
  · simp [openTask, Option.mem_def.mp hdue, hlate, hdone, hcancelled]

/-- Tasks are created and updated and scans take place, one after another: right after a scan the assignees of all that
    is due have their notifications, as long as each update meets the condition. -/
theorem assignees_notified (pg : Postgres) (s : Tables) (h : s.Sound) (none : s.reminders = [])
    (rs : List (Request × (Nat → Env))) (served : (system pg false).ServesAll rs s) (keeps : KeepsCurrent pg rs s)
    (now : Date) (env : Nat → Env) (scanned : (system pg false).Serves (.scan now) env ((system pg false).serveAll rs s).2) :
    ((system pg false).serve (.scan now) env ((system pg false).serveAll rs s).2).2.Notified now := by
  have hcurrent : s.Current := by
    intro x _ _ _ a _ due _ type hkey
    rw [Tables.keys, none] at hkey
    exact absurd hkey List.not_mem_nil
  obtain ⟨hsound, hcurrent⟩ := serveAll_current h hcurrent served keeps
  exact serve_notified hsound hcurrent scanned

end

/-! ### Runs -/

/-- A project without tasks. -/
def emptyProject : Tables :=
  { board := { Board.twoTasks with tasks := [] }, notifications := [], reminders := [], queue := ⟨[], []⟩ }

theorem emptyProject_sound : emptyProject.Sound where
  wellFormed :=
    { board :=
        { projects := by decide, tasks := List.nodup_nil, comments := List.nodup_nil, activity := List.nodup_nil,
          taskProject _ h := absurd h List.not_mem_nil, taskParent _ h := absurd h List.not_mem_nil,
          commentTask _ h := absurd h List.not_mem_nil, commentParent _ h := absurd h List.not_mem_nil,
          activityTask _ h := absurd h List.not_mem_nil }
      keys := List.nodup_nil
      ids := List.nodup_nil
      task _ h := absurd h List.not_mem_nil
      issued _ h := absurd h List.not_mem_nil }
  registered :=
    ⟨fun _ h => absurd h List.not_mem_nil, fun _ h => absurd h List.not_mem_nil, fun _ h => absurd h List.not_mem_nil⟩
  inbox _ h := absurd h List.not_mem_nil
  jobs _ h := absurd h List.not_mem_nil
  completed _ h := absurd h List.not_mem_nil
  holds _ h := h.elim

/-- A task that is due at 10, of nobody. -/
def addDue : Request × (Nat → Env) :=
  (.board ⟨Uuid.text 1, .createTask (Uuid.text 2) 9 { title := "Task", dueDate := some 10 }⟩, envAt)

/-- The task is assigned to user 9. -/
def assign : Request × (Nat → Env) :=
  (.board ⟨Uuid.text 1, .updateTask (Uuid.text 2) (Uuid.text 102) 9 { assigneeId := some (some (Uuid.text 9)) }⟩,
   fun n => envAt (20 + n))

def scanAt (now : Date) : Request × (Nat → Env) := (.scan now, fun n => envAt (10 * now.toNat + n))

/-- The tables after these requests and a scan. -/
def scanned (rs : List (Request × (Nat → Env))) (now : Date) : Tables :=
  ((system .strict false).serve (.scan now) (scanAt now).2 ((system .strict false).serveAll rs emptyProject).2).2

theorem assignees_notified_assigned :
    (scanned [addDue, assign] 5).notifications.map (·.recipientId) = [9] ∧ (scanned [addDue, assign] 5).Notified 5 := by
  refine ⟨by decide +kernel, assignees_notified .strict emptyProject emptyProject_sound rfl [addDue, assign]
    (by decide +kernel) ⟨?_, ?_, trivial⟩ 5 (scanAt 5).2 (by decide +kernel)⟩
  · intro dto x hx
    exact absurd hx List.not_mem_nil
  · intro dto x _ _ _ _ a _ due _ type hkey
    have hnone : ((system .strict false).serve addDue.1 addDue.2 emptyProject).2.keys = [] := by decide +kernel
    have hkey : _ ∈ ((system .strict false).serve addDue.1 addDue.2 emptyProject).2.keys := hkey
    rw [hnone] at hkey
    exact absurd hkey List.not_mem_nil

/-- The task is assigned after it has been reminded of: the assignee gets no notification. -/
theorem assignee_not_notified : ∃ (s : Tables) (rs : List (Request × (Nat → Env))) (now : Date) (env : Nat → Env), s.Sound ∧
    s.reminders = [] ∧ (system .strict false).ServesAll rs s ∧
    (system .strict false).Serves (.scan now) env ((system .strict false).serveAll rs s).2 ∧
    ¬ ((system .strict false).serve (.scan now) env ((system .strict false).serveAll rs s).2).2.Notified now := by
  refine ⟨emptyProject, [addDue, scanAt 4, assign], 5, (scanAt 5).2, emptyProject_sound, rfl, by decide +kernel,
    by decide +kernel, ?_⟩
  intro hnotified
  have hnotified : (scanned [addDue, scanAt 4, assign] 5).Notified 5 := hnotified
  have hnone : (scanned [addDue, scanAt 4, assign] 5).notifications = [] := by decide +kernel
  have htask : (scanned [addDue, scanAt 4, assign] 5).board.tasks.map (fun x => (x.status, x.assigneeId, x.dueDate)) =
      [(.TODO, some 9, some 10)] := by decide +kernel
  obtain ⟨x, hx, heq⟩ := List.mem_map.mp (htask ▸ List.mem_singleton_self _)
  simp only [Prod.mk.injEq] at heq
  obtain ⟨hstatus, hassignee, hdue⟩ := heq
  obtain ⟨hsoon, -⟩ := hnotified x hx (by rw [hstatus]; nofun) (by rw [hstatus]; nofun) 9 hassignee 10 hdue
  obtain ⟨n, hn, -⟩ := hsoon (by decide) (by decide)
  rw [hnone] at hn
  exact absurd hn List.not_mem_nil

end TaskPlatform.Reminders

import TaskPlatform.Reminders.Statuses
import TaskPlatform.Reminders.Serving

/-! What the notifications of the worker rest on: the task that it reads, and the query of the scan that created the
    reminder. -/

namespace TaskPlatform.Reminders
open Effects RemindersService

/-- The query of a scan for tasks to remind of. -/
def ReminderType.query (now : Date) : ReminderType → Call
  | .DUE_SOON => .tasksDueSoon now (now + DUE_SOON_WINDOW_MS)
  | .OVERDUE => .tasksOverdue now

/-- What the query asks of the due date. -/
def ReminderType.window (now : Date) : ReminderType → Date → Bool
  | .DUE_SOON => fun d => now < d && d ≤ now + DUE_SOON_WINDOW_MS
  | .OVERDUE => (· ≤ now)

/-- The answer of the query has the task. -/
def Lists (now : Date) (type : ReminderType) (task : Board.Task) : Said interface → Prop
  | ⟨.tasksDueSoon now' soon, .ok tasks⟩ => type = .DUE_SOON ∧ now' = now ∧ soon = now + DUE_SOON_WINDOW_MS ∧ task ∈ tasks
  | ⟨.tasksOverdue now', .ok tasks⟩ => type = .OVERDUE ∧ now' = now ∧ task ∈ tasks
  | _ => False

/-- What `notifyAssignee` creates. -/
def dueInput (taskId : Uuid) (assigneeId : UuidText) (type : ReminderType) : Notifications.CreateNotificationInput where
  recipientId := assigneeId
  type := if type = .DUE_SOON then .TASK_DUE_SOON else .TASK_OVERDUE
  title := if type = .DUE_SOON then "A task is due soon" else "A task is overdue"
  entityType := some "task"
  entityId := some taskId.text

/-- What a call rests on: a reminder that is created, on the answer of a query; a notification, on a reminder and a
    task that were found just before. -/
def Grounds (r : Request) (log : List (Said interface)) : Call → Prop
  | .insertReminder n => ∃ now task said, r = .scan now ∧ said ∈ log ∧ Lists now n.type task said ∧
      n.taskId = task.id ∧ n.scheduledFor = task.dueDate
  | .inbox (.insertNotification input) => ∃ id reminder task a rest,
      log = ⟨.findTaskById reminder.taskId, .ok (some task)⟩ :: ⟨.findReminder id, .ok (some reminder)⟩ :: rest ∧
      reminder.status ≠ .SENT ∧ task.assigneeId = some a ∧ input = dueInput task.id a reminder.type
  | _ => True

/-! ### What the programs call -/

section
variable {log : List (Said interface)} {now : Date} {type : ReminderType} {r : Request}

theorem dispatch_grounds {task : Board.Task} (listed : ∃ said ∈ log, Lists now type task said) :
    (dispatch true type task).Makes (Grounds (.scan now)) log := by
  obtain ⟨said, hsaid, hlists⟩ := listed
  refine Prog.Makes.perform_bind ⟨now, task, said, rfl, hsaid, hlists, rfl, rfl⟩ fun a => ?_
  cases a with
  | none => trivial
  | some id => exact Prog.Makes.perform_bind trivial fun _ => trivial

theorem dispatchAll_grounds (tasks : List Board.Task) (t : ScanResult)
    (listed : ∀ task ∈ tasks, ∃ said ∈ log, Lists now type task said) :
    (dispatchAll true type tasks t).Makes (Grounds (.scan now)) log := by
  induction tasks generalizing t log with
  | nil => trivial
  | cons task rest ih =>
    refine (dispatch_grounds (listed task (List.mem_cons_self ..))).bind (Prog.Leaves.extends _ _) fun log' _ hlog => ?_
    refine ih _ fun task' htask => ?_
    obtain ⟨said, hsaid, hlists⟩ := listed task' (List.mem_cons_of_mem _ htask)
    exact ⟨said, hlog hsaid, hlists⟩

theorem scan_grounds (now : Date) : (scan true now).Makes (Grounds (.scan now)) [] := by
  refine Prog.Makes.perform_bind trivial fun dueSoon => ?_
  refine Prog.Makes.perform_bind trivial fun overdue => ?_
  refine Prog.Makes.bind (dispatchAll_grounds _ _ fun task htask => ?_) (Prog.Leaves.extends _ _) fun log _ hlog => ?_
  · exact ⟨⟨.tasksDueSoon now (now + DUE_SOON_WINDOW_MS), .ok dueSoon⟩, by simp, rfl, rfl, rfl, htask⟩
  · refine dispatchAll_grounds _ _ fun task htask => ?_
    exact ⟨⟨.tasksOverdue now, .ok overdue⟩, hlog (List.mem_cons_self ..), rfl, rfl, htask⟩

theorem deliverReminder_grounds (id : Uuid) : (deliverReminder id).Makes (Grounds r) log := by
  refine Prog.Makes.perform_bind trivial fun found => ?_
  cases found with
  | none => trivial
  | some reminder =>
    simp only
    split
    · trivial
    · next hstatus =>
      refine Prog.Makes.perform_bind trivial fun read => ?_
      refine Prog.Makes.bind ?_ (Prog.leaves_true _ _) fun log' _ _ => ?_
      · cases read with
        | none => trivial
        | some task =>
          rw [deliverReminder.notifyOf]
          cases hassignee : task.assigneeId with
          | none => trivial
          | some a =>
            rw [notify, notifyAssignee, Notifications.NotificationsService.create, liftInbox_perform]
            exact Prog.Makes.perform_bind ⟨id, reminder, task, a, log, rfl, hstatus, hassignee, rfl⟩ fun _ => trivial
      · exact Prog.Makes.read_bind fun env => Prog.Makes.perform trivial

theorem work_grounds (jobId : Uuid) : (ReminderProcessor.work jobId).Makes (Grounds r) log := by
  refine Prog.Makes.perform_bind trivial fun job => ?_
  cases job with
  | none => trivial
  | some job =>
    refine (deliverReminder_grounds job.id).attempt.bind (Prog.leaves_true _ _) fun log' result _ => ?_
    cases result with
    | ok => exact Prog.Makes.perform trivial
    | error e =>
      refine Prog.Makes.perform_bind trivial fun again => ?_
      simp only [ReminderProcessor.onFailed]
      split
      · exact Prog.Makes.perform trivial
      · trivial

theorem liftBoard_grounds {α : Type} (p : Board.Service α) : (liftBoard p).Makes (Grounds r) log := by
  induction p generalizing log with
  | ret | throw => trivial
  | ask p ih => exact fun env => ih env
  | call c p ih =>
    rw [liftBoard_call]
    exact ⟨trivial, fun a => ih a⟩

theorem program_grounds (pg : Postgres) (r : Request) : ((system pg true).program r).Makes (Grounds r) [] := by
  cases r with
  | scan now => exact (scan_grounds now).bind (Prog.leaves_true _ _) fun _ _ _ => trivial
  | work id => exact (work_grounds id).bind (Prog.leaves_true _ _) fun _ _ _ => trivial
  | board r => exact (liftBoard_grounds _).bind (Prog.leaves_true _ _) fun _ _ _ => trivial

end

/-! ### What it rests on in the tables -/

/-- Before the `n`-th move the query of a scan read the task of this reminder: open, with this due date. -/
def ReadOpen (c : State) (k : ReminderKey) (n : Nat) : Prop :=
  ∃ u ∈ c.threads, ∃ now, u.request = .scan now ∧ ∃ asked ∈ u.log, asked.time < n ∧ asked.call = k.type.query now ∧
    ∃ s x, c.at? asked.time = some s ∧ x ∈ s.board.tasks ∧ x.id = k.taskId ∧ x.dueDate = some k.scheduledFor ∧
      openTask (k.type.window now) x = true

/-- In this thread `deliverReminder` found the reminder, then read its task, and then made the call `e`. -/
structure Delivers (c : State) (t : Thread interface Request Response) (e found read : Event interface) (r : Reminder)
    (x : Board.TaskRow) : Prop where
  mem : found ∈ t.log ∧ read ∈ t.log
  order : found.time < read.time ∧ read.time < e.time
  finds : found.call = .findReminder r.id
  reads : read.call = .findTaskById r.taskId
  reminder : ∃ s, c.at? found.time = some s ∧ r ∈ s.reminders
  task : ∃ s, c.at? read.time = some s ∧ x ∈ s.board.tasks ∧ x.id = r.taskId

section
variable {pg : Postgres} {queue : Bool} {ok : State → Move interface Request → Prop} {s₀ : Tables} {c d : State}

/-- What a query has answered was in the tables. -/
theorem lists_recorded {e : Event interface} (h : System.Recorded (system pg queue) c e) {now : Date} {type : ReminderType}
    {task : Board.Task} (lists : Lists now type task e.said) :
    e.call = type.query now ∧ ∃ s x, c.at? e.time = some s ∧ x ∈ s.board.tasks ∧ task = x.toEntity ∧
      openTask (type.window now) x = true := by
  have hrow : ∀ {s : Tables} {due : Date → Bool} {tasks : List Board.Task},
      (.ok ((s.board.tasks.filter (openTask due)).map Board.TaskRow.toEntity) : Except Err (List Board.Task)) = .ok tasks →
      task ∈ tasks → ∃ x ∈ s.board.tasks, task = x.toEntity ∧ openTask due x = true := by
    rintro s due _ ⟨⟩ hmem
    obtain ⟨x, hx, rfl⟩ := List.mem_map.mp hmem
    obtain ⟨hx, hopen⟩ := List.mem_filter.mp hx
    exact ⟨x, hx, rfl, hopen⟩
  obtain ⟨op, answer, took, n⟩ := e
  cases op with
  | tasksDueSoon now' soon =>
    cases answer with
    | error => exact lists.elim
    | ok tasks =>
      obtain ⟨rfl, rfl, rfl, hmem⟩ := lists
      obtain ⟨-, -, s, env, hs, -, hanswer, -⟩ := h.answered rfl
      obtain ⟨x, hx⟩ := hrow (s := s) hanswer hmem
      exact ⟨rfl, s, x, hs, hx⟩
  | tasksOverdue now' =>
    cases answer with
    | error => exact lists.elim
    | ok tasks =>
      obtain ⟨rfl, rfl, hmem⟩ := lists
      obtain ⟨-, -, s, env, hs, -, hanswer, -⟩ := h.answered rfl
      obtain ⟨x, hx⟩ := hrow (s := s) hanswer hmem
      exact ⟨rfl, s, x, hs, hx⟩
  | _ => exact lists.elim

theorem ReadOpen.mono {k : ReminderKey} {n m : Nat} (h : ReadOpen c k n) (le : n ≤ m) : ReadOpen c k m := by
  obtain ⟨u, hu, now, hscan, asked, hasked, hlt, h⟩ := h
  exact ⟨u, hu, now, hscan, asked, hasked, Nat.lt_of_lt_of_le hlt le, h⟩

theorem ReadOpen.step {k : ReminderKey} {n : Nat} {m : Move interface Request} (h : ReadOpen c k n)
    (hs : (system pg queue).step c m = some d) : ReadOpen d k n := by
  obtain ⟨u, hu, now, hscan, asked, hasked, hlt, hcall, s, x, hat, hx⟩ := h
  obtain ⟨u', hu', hrequest, -, hlog⟩ := System.step_keeps_thread hs hu
  exact ⟨u', hu', now, hrequest.trans hscan, asked, hlog hasked, hlt, hcall, s, x, System.step_at? hs hat, hx⟩

/-- A reminder is only created after a scan has read its task so. -/
theorem reminder_readOpen (hr : (system pg true).Reach ok (.initial s₀) c) (none : s₀.reminders = []) {n : Nat} {s : Tables}
    (hn : c.at? n = some s) : ∀ r ∈ s.reminders, ReadOpen c r.key n := by
  revert n s
  refine hr.invariant_with
    (Q := fun c => (∀ t ∈ c.threads, t.rest.Makes (Grounds t.request) (t.log.map Event.said)) ∧
      (∀ t ∈ c.threads, ∀ e ∈ t.log, System.Recorded (system pg true) c e) ∧ System.Timed c)
    (P := fun c => ∀ {n s}, c.at? n = some s → ∀ r ∈ s.reminders, ReadOpen c r.key n)
    (fun hr => ⟨fun t ht => (hr.makes (program_grounds pg) t ht).1, hr.recorded, hr.timed⟩) ?_ ?_
  · intro n s hn r hmem
    obtain rfl : n = 0 := Nat.le_zero.mp (System.at?_le hn)
    obtain rfl : s₀ = s := Option.some.inj hn
    rw [none] at hmem
    exact absurd hmem List.not_mem_nil
  · rintro c d m ⟨makes, recorded, timed⟩ - ih - hs n s hn r hmem
    have hlate : ∀ {q : Reminder}, q ∈ c.shared.reminders → ReadOpen d q.key d.time := fun hq => by
      rw [System.step_time hs]
      exact ((ih (System.at?_time c) _ hq).mono (Nat.le_succ _)).step hs
    rcases System.step_at?_cases hs hn with hn | ⟨rfl, rfl⟩
    · exact (ih hn r hmem).step hs
    rcases System.step_shared hs with heq | ⟨env, -, heq⟩ | ⟨i, fate, env, t, op, -, ht, hnext, -, heq⟩
    · exact hlate (heq ▸ hmem)
    · rw [heq] at hmem
      exact hlate hmem
    · have ht := List.mem_of_getElem? ht
      rw [heq] at hmem
      have horigin : r ∈ c.shared.reminders ∨
          (∃ id patch, ∃ q ∈ c.shared.reminders, op = .updateReminder id patch ∧ q.id = id ∧ r = patch.apply q) ∨
          ∃ n due, op = .insertReminder n ∧ n.scheduledFor = some due ∧ r = n.toRow env due := by
        cases fate with
        | failed => exact Or.inl hmem
        | answered | lost => exact (exec_write pg (c.shared.spend env) env op).origin hmem
      rcases horigin with hold | ⟨id, patch, q, hq, -, -, rfl⟩ | ⟨n, due, rfl, hdue, rfl⟩
      · exact hlate hold
      · rw [ReminderPatch.apply_key]
        exact hlate hq
      · obtain ⟨now, task, said, hscan, hsaid, hlists, hid, hscheduled⟩ := (makes t ht).next hnext
        obtain ⟨e, he, rfl⟩ := List.mem_map.mp hsaid
        obtain ⟨hcall, s, x, hat, hx, rfl, hopen⟩ := lists_recorded (recorded t ht e he) hlists
        have hread : ReadOpen c (n.toRow env due).key c.time :=
          ⟨t, ht, now, hscan, e, he, ((timed t ht).2 e he).2, hcall, s, x, hat, hx, hid.symm, hscheduled.symm.trans hdue,
            hopen⟩
        rw [System.step_time hs]
        exact (hread.mono (Nat.le_succ _)).step hs

/-- In every run with a queue, whoever creates a notification is a run of `deliverReminder`, of a reminder that it found
    not sent. When it reads the task, the task is there and the user whom it notifies is its assignee; and before, a scan
    found the task open, with the due date that the reminder is scheduled for. -/
theorem due_notification_grounds (pg : Postgres) (users workspaces : List Uuid) (generated : Generated) (c : State)
    (hr : (system pg true).Reach (fun _ _ => True) (.initial (.start users workspaces generated)) c)
    (t : Thread interface Request Response) (ht : t ∈ c.threads) (e : Event interface) (he : e ∈ t.log)
    (input : Notifications.CreateNotificationInput) (call : e.call = .inbox (.insertNotification input)) :
    ∃ found read r x, Delivers c t e found read r x ∧ r.status ≠ .SENT ∧ ReadOpen c r.key found.time ∧
      ∃ a, x.assigneeId = some a ∧ input = dueInput x.id a.text r.type := by
  obtain ⟨before, after, hlog⟩ := List.append_of_mem he
  have hallowed := (hr.makes (program_grounds pg) t ht).2
  have hsorted := hr.sorted t ht
  rw [hlog] at hallowed hsorted
  have hgrounds := hallowed.split
  rw [call] at hgrounds
  obtain ⟨id, r, task, a, rest, hafter, hstatus, hassignee, rfl⟩ := hgrounds
  obtain ⟨read, after, rfl, hread, hafter⟩ := List.map_eq_cons_iff.mp hafter
  obtain ⟨found, after, rfl, hfound, -⟩ := List.map_eq_cons_iff.mp hafter
  have hfoundmem : found ∈ t.log := by simp [hlog]
  have hreadmem : read ∈ t.log := by simp [hlog]
  obtain ⟨hreads, -, s, env, hs, -, hanswer, -⟩ := (hr.recorded t ht read hreadmem).answered hread
  obtain ⟨hfinds, -, s', env', hs', -, hanswer', -⟩ := (hr.recorded t ht found hfoundmem).answered hfound
  obtain ⟨x, hfind, rfl⟩ := Option.map_eq_some_iff.mp (Except.ok.inj hanswer)
  have hfind' : s'.reminders.find? (·.id = id) = some r := Except.ok.inj hanswer'
  obtain rfl : r.id = id := by simpa using List.find?_some hfind'
  have hid : x.id = r.taskId := by simpa using List.find?_some hfind
  obtain ⟨u, hu, rfl⟩ := Option.map_eq_some_iff.mp hassignee
  obtain ⟨-, hafter, -⟩ := List.pairwise_append.mp hsorted
  obtain ⟨hlt, hafter⟩ := List.pairwise_cons.mp hafter
  have hr' := List.mem_of_find?_eq_some hfind'
  refine ⟨found, read, r, x, ?_, hstatus, reminder_readOpen hr rfl hs' r hr', u, hu, rfl⟩
  exact
    { mem := ⟨hfoundmem, hreadmem⟩
      order := ⟨(List.pairwise_cons.mp hafter).1 found (List.mem_cons_self ..), hlt read (List.mem_cons_self ..)⟩
      finds := hfinds
      reads := hreads
      reminder := ⟨s', hs', hr'⟩
      task := ⟨s, hs, List.mem_of_find?_eq_some hfind, hid⟩ }

end

/-! ### A task that changes after the scan -/

/-- User 8 creates a task that is due at 10 and assigned to user 9, and a scan at 5 has a job added for its reminder. -/
def enqueuedScan : List (Move interface Request) :=
  [.start (.board ⟨Uuid.text 1, .createProject 8 { name := "Website" }⟩) (envAt 1), .call 0 .answered (envAt 2),
   .start (.board ⟨Uuid.text 1, .createTask (Uuid.text 102) 8
     { title := "Task", dueDate := some 10, assigneeId := some (Uuid.text 9) }⟩) (envAt 3),
   .call 1 .answered (envAt 4), .call 1 .answered (envAt 5), .call 1 .answered (envAt 6), .call 1 .answered (envAt 7),
   .start (.scan 5) (envAt 8), .call 2 .answered (envAt 9), .call 2 .answered (envAt 10), .call 2 .answered (envAt 11),
   .call 2 .answered (envAt 12)]

/-- The task is updated, and then the worker takes the job. -/
def changed (dto : Board.UpdateTaskDto) : List (Move interface Request) :=
  enqueuedScan ++ [.start (.board ⟨Uuid.text 1, .updateTask (Uuid.text 102) (Uuid.text 105) 8 dto⟩) (envAt 13),
    .call 3 .answered (envAt 14), .call 3 .answered (envAt 15), .call 3 .answered (envAt 16),
    .start (.work 111) (envAt 17), .call 4 .answered (envAt 18), .call 4 .answered (envAt 19),
    .call 4 .answered (envAt 20), .call 4 .answered (envAt 21)]

/-- A notification of a task that its worker has read like this, for a reminder of that time. -/
def Notifies (c : State) (status : Board.TaskStatus) (dueDate scheduledFor : Date) : Prop :=
  ∃ t ∈ c.threads, ∃ e ∈ t.log, ∃ input found read r x, e.call = .inbox (.insertNotification input) ∧ e.took = true ∧
    Delivers c t e found read r x ∧ x.status = status ∧ x.dueDate = some dueDate ∧ r.scheduledFor = scheduledFor

/-- The reminder and the task as they are then. -/
def found111 : Reminder := ⟨111, 105, .DUE_SOON, 10, .PENDING, 0, none⟩

def task105 (status : Board.TaskStatus) (dueDate : Date) (completedAt : Option Date) : Board.TaskRow :=
  { id := 105, projectId := 102, parentTaskId := none, title := "Task", description := none, status, priority := .MEDIUM,
    assigneeId := some 9, createdBy := 8, dueDate := some dueDate, completedAt, createdAt := .epoch }

/-- The calls of the worker that finds this task, newest first. -/
def workLog (x : Board.TaskRow) : List (Event interface) :=
  [⟨.inbox (.insertNotification (dueInput 105 (Uuid.text 9) .DUE_SOON)),
     .ok ((dueInput 105 (Uuid.text 9) .DUE_SOON).saved (envAt 21)), true, 20⟩,
   ⟨.findTaskById 105, .ok (some x.toEntity), true, 19⟩, ⟨.findReminder 111, .ok (some found111), true, 18⟩,
   ⟨.takeJob 111, .ok (some ⟨jobOptions 111, 0, false⟩), true, 17⟩]

/-- The log of the worker, and the reminders and the tasks when it reads them. -/
def workView (c : State) : Option (List (Event interface)) × Option (List Reminder) × Option (List Board.TaskRow) :=
  ((c.threads[4]?).map Thread.log, (c.at? 18).map Tables.reminders, (c.at? 19).map (·.board.tasks))

theorem notifies_of_view (ms : List (Move interface Request)) (status : Board.TaskStatus) (dueDate : Date)
    (completedAt : Option Date)
    (h : (System.run (system .strict true) (fun _ _ => True) (.initial (.start [8, 9] [1] ⟨[], []⟩)) ms).map workView =
      some (some (workLog (task105 status dueDate completedAt)), some [found111], some [task105 status dueDate completedAt])) :
    ∃ c, (system .strict true).Reach (fun _ _ => True) (.initial (.start [8, 9] [1] ⟨[], []⟩)) c ∧
      Notifies c status dueDate 10 := by
  obtain ⟨c, hrun, hview⟩ := Option.map_eq_some_iff.mp h
  obtain ⟨hlog, hview⟩ := Prod.mk.inj hview
  obtain ⟨hreminders, htasks⟩ := Prod.mk.inj hview
  obtain ⟨t, ht, hlog⟩ := Option.map_eq_some_iff.mp hlog
  obtain ⟨s, hs, hreminders⟩ := Option.map_eq_some_iff.mp hreminders
  obtain ⟨s', hs', htasks⟩ := Option.map_eq_some_iff.mp htasks
  have hmem : ∀ e ∈ workLog (task105 status dueDate completedAt), e ∈ t.log := fun e he => hlog ▸ he
  refine ⟨c, System.reach_of_run ms hrun, t, List.mem_of_getElem? ht, _, hmem _ (List.mem_cons_self ..), _,
    ⟨.findReminder 111, .ok (some found111), true, 18⟩,
    ⟨.findTaskById 105, .ok (some (task105 status dueDate completedAt).toEntity), true, 19⟩, found111, task105 status dueDate completedAt, rfl, rfl, ?_, rfl, rfl, rfl⟩
  exact
    { mem := ⟨hmem _ (by simp [workLog]), hmem _ (by simp [workLog])⟩
      order := ⟨Nat.lt_succ_self 18, Nat.lt_succ_self 19⟩
      finds := rfl
      reads := rfl
      reminder := ⟨s, hs, hreminders ▸ List.mem_singleton_self _⟩
      task := ⟨s', hs', htasks ▸ List.mem_singleton_self _, rfl⟩ }

theorem due_notification_grounds_unchanged : ∃ (c : State) (t : Thread interface Request Response)
    (e found read : Event interface) (r : Reminder) (x : Board.TaskRow), Delivers c t e found read r x ∧
      ReadOpen c r.key found.time := by
  obtain ⟨c, hr, t, ht, e, he, input, -, -, -, -, call, -⟩ := notifies_of_view (changed {}) .TODO 10 none rfl
  obtain ⟨found, read, r, x, hdelivers, -, hread, -⟩ :=
    due_notification_grounds .strict [8, 9] [1] ⟨[], []⟩ c hr t ht e he input call
  exact ⟨c, t, e, found, read, r, x, hdelivers, hread⟩

/-- The worker notifies although the task is done, and although the task is due at another time by now. -/
theorem changed_notifies :
    (∃ c, (system .strict true).Reach (fun _ _ => True) (.initial (.start [8, 9] [1] ⟨[], []⟩)) c ∧ Notifies c .DONE 10 10) ∧
    ∃ c, (system .strict true).Reach (fun _ _ => True) (.initial (.start [8, 9] [1] ⟨[], []⟩)) c ∧ Notifies c .TODO 20 10 :=
  ⟨notifies_of_view (changed { status := some (some .DONE) }) .DONE 10 (some 0) rfl,
   notifies_of_view (changed { dueDate := some (some 20) }) .TODO 20 none rfl⟩

end TaskPlatform.Reminders

import TaskPlatform.Board.CommentsService
import TaskPlatform.Notifications.NotificationsService

/-! `reminders` beside the tables of the board and the inbox, the `reminders` queue of BullMQ, and the calls of
    `RemindersService` and its worker. -/

namespace TaskPlatform.Reminders
open Effects

inductive ReminderType where
  | DUE_SOON
  | OVERDUE
  deriving DecidableEq, Repr

inductive ReminderStatus where
  | PENDING
  | SENT
  | FAILED
  deriving DecidableEq, Repr

/-- A row of `reminders`, also as an entity. -/
structure Reminder where
  id : Uuid
  taskId : Uuid
  type : ReminderType
  scheduledFor : Date
  status : ReminderStatus
  attempts : Nat
  sentAt : Option Date
  deriving DecidableEq

/-- The columns of `UQ_reminders_task_type_scheduled`. -/
structure ReminderKey where
  taskId : Uuid
  type : ReminderType
  scheduledFor : Date
  deriving DecidableEq

def Reminder.key (r : Reminder) : ReminderKey := ⟨r.taskId, r.type, r.scheduledFor⟩

/-- What `createReminder` inserts with the status `PENDING`. -/
structure NewReminder where
  taskId : Uuid
  type : ReminderType
  scheduledFor : Option Date
  deriving DecidableEq

def NewReminder.toRow (n : NewReminder) (env : Env) (scheduledFor : Date) : Reminder :=
  { id := env.uuid, taskId := n.taskId, type := n.type, scheduledFor, status := .PENDING, attempts := 0, sentAt := none }

/-- What an update sets; a column that it leaves alone is `none`. -/
structure ReminderPatch where
  status : ReminderStatus
  sentAt : Option Date := none
  attempts : Option Nat := none
  deriving DecidableEq

def ReminderPatch.apply (patch : ReminderPatch) (r : Reminder) : Reminder :=
  { r with
    status := patch.status
    sentAt := patch.sentAt.or r.sentAt
    attempts := patch.attempts.getD r.attempts }

@[simp] theorem ReminderPatch.apply_id (patch : ReminderPatch) (r : Reminder) : (patch.apply r).id = r.id := rfl

@[simp] theorem ReminderPatch.apply_key (patch : ReminderPatch) (r : Reminder) : (patch.apply r).key = r.key := rfl

@[simp] theorem ReminderPatch.apply_taskId (patch : ReminderPatch) (r : Reminder) :
    (patch.apply r).taskId = r.taskId := rfl

@[simp] theorem ReminderPatch.apply_status (patch : ReminderPatch) (r : Reminder) :
    (patch.apply r).status = patch.status := rfl

/-! ### The queue -/

/-- The options of `queue.add`, but for the delays between attempts. -/
structure JobOptions where
  jobId : Uuid
  attempts : Nat
  removeOnComplete : Nat
  removeOnFail : Bool
  deriving DecidableEq

/-- A job that waits, is at work, or has failed for good. The id of a `send-reminder` job is the id of its reminder,
    which is also its data. -/
structure Job where
  opts : JobOptions
  attemptsMade : Nat
  failed : Bool
  deriving DecidableEq

def Job.id (j : Job) : Uuid := j.opts.jobId

/-- The job after one more failed attempt. -/
def Job.again (j : Job) : Job :=
  { j with attemptsMade := j.attemptsMade + 1, failed := decide (j.opts.attempts ≤ j.attemptsMade + 1) }

/-- The jobs that are not completed, and the ids of completed ones that are kept, newest first. -/
structure Queue where
  jobs : List Job
  completed : List Uuid
  deriving DecidableEq

namespace Queue

/-- A job that is still known to the queue is not added again. -/
def add (q : Queue) (opts : JobOptions) : Queue :=
  if q.jobs.any (·.id = opts.jobId) || q.completed.contains opts.jobId then q
  else { q with jobs := q.jobs ++ [⟨opts, 0, false⟩] }

/-- A worker takes a job that waits, or one whose worker has stalled; it may be at work still. -/
def take? (q : Queue) (id : Uuid) : Option Job := q.jobs.find? fun j => j.id = id && !j.failed

def complete (q : Queue) (j : Job) : Queue :=
  { jobs := q.jobs.filter (·.id ≠ j.id), completed := (j.id :: q.completed).take j.opts.removeOnComplete }

/-- Puts a failed attempt on record. The last one fails the job for good; it is kept unless the options say so. -/
def fail (q : Queue) (j : Job) : Queue :=
  let again := j.again
  if again.failed && j.opts.removeOnFail then { q with jobs := q.jobs.filter (·.id ≠ j.id) }
  else { q with jobs := q.jobs.map fun x => if x.id = j.id then again else x }

end Queue

/-! ### The tables -/

structure Tables where
  board : Board.Tables
  notifications : List Notifications.NotificationRow
  reminders : List Reminder
  queue : Queue
  deriving DecidableEq

namespace Tables

def start (users workspaces : List Uuid) (generated : Generated) : Tables :=
  { board := ⟨users, workspaces, [], [], [], [], generated⟩, notifications := [], reminders := [], queue := ⟨[], []⟩ }

def spend (s : Tables) (env : Env) : Tables := { s with board := s.board.spend env }

/-- What `NotificationsService` sees of the tables. -/
def inbox (s : Tables) : Notifications.Tables :=
  ⟨s.board.users, s.board.workspaces, s.notifications, s.board.generated⟩

/-- The tables after a statement of the board: the reminders of deleted tasks are deleted with them. -/
def withBoard (s : Tables) (board : Board.Tables) : Tables :=
  { s with board, reminders := s.reminders.filter (·.taskId ∈ board.taskIds) }

/-- `INSERT ... ON CONFLICT DO NOTHING RETURNING id`. -/
def insertReminder (s : Tables) (env : Env) (n : NewReminder) : Except Err (Option Uuid) × Tables :=
  match n.scheduledFor with
  | none => (.error (.db (.notNull "scheduled_for")), s)
  | some scheduledFor =>
    let r := n.toRow env scheduledFor
    if Table.has Reminder.key r.key s.reminders || Table.has Reminder.id r.id s.reminders then (.ok none, s)
    else if !s.board.taskIds.contains r.taskId then (.error (.db (.foreignKey "FK_reminders_task")), s)
    else (.ok (some r.id), { s with reminders := s.reminders ++ [r] })

/-- `update(id, patch)`. -/
def updateReminder (s : Tables) (id : Uuid) (patch : ReminderPatch) : Tables :=
  { s with reminders := s.reminders.map fun r => if r.id = id then patch.apply r else r }

end Tables

/-- `t.due_date IS NOT NULL AND t.status NOT IN ('DONE', 'CANCELLED')`, with what is asked of the due date. -/
def openTask (due : Date → Bool) (t : Board.TaskRow) : Bool :=
  t.dueDate.any due && t.status ≠ .DONE && t.status ≠ .CANCELLED

/-! ### The calls -/

inductive Call where
  | board (c : Board.Call)
  | inbox (c : Notifications.Call)
  | tasksDueSoon (now soon : Date)
  | tasksOverdue (now : Date)
  | insertReminder (n : NewReminder)
  | findReminder (id : Uuid)
  | findTaskById (id : Uuid)
  | updateReminder (id : Uuid) (patch : ReminderPatch)
  | addJob (opts : JobOptions)
  | takeJob (id : Uuid)
  | completeJob (id : Uuid)
  | failJob (id : Uuid)
  deriving DecidableEq

abbrev Call.Reply : Call → Type
  | .board c => c.Reply
  | .inbox c => c.Reply
  | .tasksDueSoon _ _ => List Board.Task
  | .tasksOverdue _ => List Board.Task
  | .insertReminder _ => Option Uuid
  | .findReminder _ => Option Reminder
  | .findTaskById _ => Option Board.Task
  | .updateReminder _ _ => Unit
  | .addJob _ => Unit
  | .takeJob _ => Option Job
  | .completeJob _ => Unit
  | .failJob _ => Job

abbrev interface : Interface := ⟨Env, Call, Call.Reply, Err⟩

abbrev Service (α : Type) := Prog interface α

/-- What the queue makes of a job that it still holds. A worker that lost its job gets an error. -/
def Tables.onJob {α : Type} (s : Tables) (id : Uuid) (answer : Job → α) (next : Queue → Job → Queue) :
    Except Err α × Tables :=
  match s.queue.take? id with
  | some j => (.ok (answer j), { s with queue := next s.queue j })
  | none => (.error .unavailable, s)

def exec (pg : Postgres) : Handler interface Tables := fun env c s =>
  match c with
  | .board c =>
    let a := Board.exec pg env c s.board
    (a.1, s.withBoard a.2)
  | .inbox c =>
    let a := Notifications.exec pg env c s.inbox
    (a.1, { s with notifications := a.2.notifications })
  | .tasksDueSoon now soon =>
    (.ok ((s.board.tasks.filter (openTask fun d => now < d && d ≤ soon)).map Board.TaskRow.toEntity), s)
  | .tasksOverdue now => (.ok ((s.board.tasks.filter (openTask (· ≤ now))).map Board.TaskRow.toEntity), s)
  | .insertReminder n => s.insertReminder env n
  | .findReminder id => (.ok (s.reminders.find? (·.id = id)), s)
  | .findTaskById id => (.ok ((s.board.tasks.find? (·.id = id)).map Board.TaskRow.toEntity), s)
  | .updateReminder id patch => (.ok (), s.updateReminder id patch)
  | .addJob opts => (.ok (), { s with queue := s.queue.add opts })
  | .takeJob id => (.ok (s.queue.take? id), s)
  | .completeJob id => s.onJob id (fun _ => ()) Queue.complete
  | .failJob id => s.onJob id Job.again Queue.fail

end TaskPlatform.Reminders

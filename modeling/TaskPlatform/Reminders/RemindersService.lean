import TaskPlatform.Library.Lift
import TaskPlatform.Reminders.Database

/-! `RemindersService`, `ReminderProcessor`, and scans, attempts of the worker and requests of the board in flight. -/

namespace TaskPlatform.Reminders
open Effects

def perform (c : Call) : Service c.Reply := Prog.perform (I := interface) c

/-- A program of the board on the tables here. -/
def liftBoard {α : Type} (p : Board.Service α) : Service α := p.lift Call.board fun _ a => a

/-- A program of the inbox. -/
def liftInbox {α : Type} (p : Notifications.Service α) : Service α := p.lift Call.inbox fun _ a => a

theorem liftBoard_call {α : Type} (c : Board.Call) (k : Except Err c.Reply → Board.Service α) :
    liftBoard (.call c k) = .call (.board c) fun a => liftBoard (k a) := by
  refine congrArg (Prog.call (I := interface) (.board c)) (funext fun a => ?_)
  cases a <;> rfl

structure ScanResult where
  scannedDueSoon : Nat
  scannedOverdue : Nat
  created : Nat
  delivered : Nat
  enqueued : Nat
  deriving DecidableEq

/-- What became of one task in a scan. -/
structure Dispatched where
  created : Bool
  delivered : Bool
  enqueued : Bool
  deriving DecidableEq

def ScanResult.tally (t : ScanResult) (o : Dispatched) : ScanResult :=
  { t with
    created := t.created + o.created.toNat
    delivered := t.delivered + o.delivered.toNat
    enqueued := t.enqueued + o.enqueued.toNat }

namespace RemindersService

/-- Look-ahead window for "due soon" reminders: 24 hours. -/
def DUE_SOON_WINDOW_MS : Int := 24 * 60 * 60 * 1000

def createReminder (taskId : Uuid) (type : ReminderType) (scheduledFor : Option Date) : Service (Option Uuid) :=
  perform (.insertReminder ⟨taskId, type, scheduledFor⟩)

def notifyAssignee (taskId : Uuid) (assigneeId : UuidText) (type : ReminderType) : Service Notifications.Notification :=
  liftInbox (Notifications.NotificationsService.create
    { recipientId := assigneeId
      type := if type = .DUE_SOON then .TASK_DUE_SOON else .TASK_OVERDUE
      title := if type = .DUE_SOON then "A task is due soon" else "A task is overdue"
      entityType := some "task"
      entityId := some taskId.text })

/-- The options of a `send-reminder` job. -/
def jobOptions (reminderId : Uuid) : JobOptions :=
  { jobId := reminderId, attempts := 5, removeOnComplete := 1000, removeOnFail := false }

/-- Notifies the assignee of a task that has one. -/
def notify (taskId : Uuid) (assigneeId : Option UuidText) (type : ReminderType) : Service Unit :=
  match assigneeId with
  | none => return ()
  | some assigneeId => do
    let _ ← notifyAssignee taskId assigneeId type
    return ()

/-- Creates the reminder of a task and, unless there was one, has it delivered: by a job where there is a queue,
    else in this process. -/
def dispatch (queue : Bool) (type : ReminderType) (task : Board.Task) : Service Dispatched := do
  let reminderId ← createReminder task.id type task.dueDate
  match reminderId with
  | none => return ⟨false, false, false⟩
  | some reminderId =>
    if queue then do
      perform (.addJob (jobOptions reminderId))
      return ⟨true, false, true⟩
    else do
      notify task.id task.assigneeId type
      let now ← Prog.read Env.now
      perform (.updateReminder reminderId { status := .SENT, sentAt := some now })
      return ⟨true, true, false⟩

/-- Dispatches one task after the other. -/
def dispatchAll (queue : Bool) (type : ReminderType) : List Board.Task → ScanResult → Service ScanResult
  | [], t => return t
  | task :: rest, t => do
    let o ← dispatch queue type task
    dispatchAll queue type rest (t.tally o)

def scan (queue : Bool) (now : Date) : Service ScanResult := do
  let soonCutoff := now + DUE_SOON_WINDOW_MS
  let dueSoon ← perform (.tasksDueSoon now soonCutoff)
  let overdue ← perform (.tasksOverdue now)
  let tally ← dispatchAll queue .DUE_SOON dueSoon ⟨dueSoon.length, overdue.length, 0, 0, 0⟩
  dispatchAll queue .OVERDUE overdue tally

/-- Delivers a single reminder by id. -/
def deliverReminder (reminderId : Uuid) : Service Unit := do
  let reminder ← perform (.findReminder reminderId)
  match reminder with
  | none => return ()
  | some reminder =>
    if reminder.status = .SENT then return ()
    else do
      let task ← perform (.findTaskById reminder.taskId)
      notifyOf reminder task
      let now ← Prog.read Env.now
      perform (.updateReminder reminder.id
        { status := .SENT, sentAt := some now, attempts := some (reminder.attempts + 1) })
where
  /-- Notifies the assignee of the reminder's task, if there is one still. -/
  notifyOf (reminder : Reminder) : Option Board.Task → Service Unit
    | none => return ()
    | some task => notify task.id task.assigneeId reminder.type

/-- Marks a reminder FAILED after the queue exhausts its retries. -/
def markFailed (reminderId : Uuid) (attempts : Nat) : Service Unit :=
  perform (.updateReminder reminderId { status := .FAILED, attempts := some attempts })

end RemindersService

/-! ### The worker -/

namespace ReminderProcessor

def process (reminderId : Uuid) : Service Unit := RemindersService.deliverReminder reminderId

/-- The handler of the event `failed`. -/
def onFailed (job : Job) : Service Unit :=
  if job.opts.attempts ≤ job.attemptsMade then RemindersService.markFailed job.id job.attemptsMade else return ()

/-- An attempt of a worker at a job: BullMQ takes it, calls `process`, and puts on record how that ended. -/
def work (jobId : Uuid) : Service Unit := do
  let job ← perform (.takeJob jobId)
  match job with
  | none => return ()
  | some job => do
    let result ← (process job.id).attempt
    match result with
    | .ok _ => perform (.completeJob job.id)
    | .error _ => do
      let again ← perform (.failJob job.id)
      onFailed again

end ReminderProcessor

/-! ### In flight -/

/-- A scan by the cron of a worker or by `POST /reminders/scan`, an attempt of a worker at a job, or a request of the
    board. -/
inductive Request where
  | scan (now : Date)
  | work (jobId : Uuid)
  | board (r : Board.Request)
  deriving DecidableEq

inductive Response where
  | scanned (result : ScanResult)
  | worked
  | board (response : Board.Response)

/-- `queue` says whether `QUEUE_ENABLED` is set. -/
def program (queue : Bool) : Request → Service Response
  | .scan now => do
    let result ← RemindersService.scan queue now
    return .scanned result
  | .work jobId => do
    ReminderProcessor.work jobId
    return .worked
  | .board r => do
    let response ← liftBoard (Board.program r)
    return .board response

def system (pg : Postgres) (queue : Bool) : System interface Tables Request Response where
  exec := exec pg
  program := program queue
  fault := .unavailable
  admits s env := s.board.generated.admits env
  spend := Tables.spend

abbrev State := Config interface Tables Request Response

end TaskPlatform.Reminders

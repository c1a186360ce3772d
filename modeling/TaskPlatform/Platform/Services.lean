import TaskPlatform.Access.Services
import TaskPlatform.Board.Events
import TaskPlatform.Library.Lift
import TaskPlatform.Platform.Database
import TaskPlatform.Reminders.RemindersService

/-! The whole platform in flight: requests past the guards, the events of the board with both of their listeners, scans
    for reminders, both workers, and cached memberships that expire. -/

namespace TaskPlatform.Platform
open Effects

def perform (c : Call) : Service c.Reply := Prog.perform (I := interface) c

/-- A program of the workspaces in one API process. -/
def ofAccess {α : Type} (process : Nat) (p : Access.Service α) : Service α := p.lift (Call.access process) fun _ a => a

/-- A program of the board. -/
def ofBoard {α : Type} (p : Board.Service α) : Service α := p.lift (fun c => Call.reminders (.board c)) fun _ a => a

/-- A program of the inbox. -/
def ofInbox {α : Type} (p : Notifications.Service α) : Service α := p.lift (fun c => Call.reminders (.inbox c)) fun _ a => a

/-- A program of the reminders. -/
def ofReminders {α : Type} (p : Reminders.Service α) : Service α := p.lift Call.reminders fun _ a => a

/-! ### Events -/

/-- The listener for notifications: it creates them itself, or adds a job where there is a queue. -/
def notify (queue : Bool) (e : Board.DomainEvent) : Service Unit :=
  if queue then
    match Notifications.mapEvent e with
    | none => return ()
    | some input => perform (.addNotificationJob input)
  else ofInbox (Notifications.NotificationListener.on e)

/-- Emits events in turn. `events.emit` waits for no listener; here both have run when the service goes on, with their
    errors only logged. -/
def announce (queue : Bool) : List Board.DomainEvent → Service Unit
  | [] => return ()
  | e :: es => do
    ofBoard (Board.emit e)
    (notify queue e).handle fun _ => return ()
    announce queue es

/-! ### The controllers of the board -/

/-- The operation as the controller passes it on: for the user of the request, with the role that the guard attached. -/
def Operation.by (userId : Uuid) (role : WorkspaceRole) : Board.Operation → Board.Operation
  | .createProject _ dto => .createProject userId dto
  | .createTask p _ dto => .createTask p userId dto
  | .updateTask p t _ dto => .updateTask p t userId dto
  | .createComment p t _ dto => .createComment p t userId dto
  | .updateComment p t c _ body => .updateComment p t c userId body
  | .removeComment p t c _ _ => .removeComment p t c userId (some role)
  | operation => operation

/-- `@Roles(...)`. -/
def Operation.roles : Board.Operation → List WorkspaceRole
  | .removeProject _ => [.ADMIN]
  | _ => []

/-- A request of the board, past the guards in the API process that serves it. -/
def board (queue : Bool) (process : Nat) (userId : Uuid) (r : Board.Request) : Service Board.Response := do
  let role ← ofAccess process (Access.WorkspaceMemberGuard.canActivate r.workspaceId userId)
  ofAccess process (Access.RolesGuard.canActivate (Operation.roles r.operation) role)
  let (events, response) ← ofBoard (Board.unannounced ⟨r.workspaceId, Operation.by userId role r.operation⟩)
  announce queue events
  return response

/-! ### The worker for notifications -/

/-- An attempt at a job, whose one channel is the inbox. A job whose attempt fails waits on; how often it is tried again
    is left open. -/
def NotificationProcessor.work (id : Notifications.JobId) : Service Unit := do
  let job ← perform (.takeNotificationJob id)
  match job with
  | none => return ()
  | some job => do
    ofInbox (Notifications.InAppChannel.deliver job.data)
    perform (.completeNotificationJob id)

/-! ### In flight -/

inductive Request where
  | access (process : Nat) (r : Access.Request)
  | board (process : Nat) (userId : Uuid) (r : Board.Request)
  | scan (now : Date)
  | remind (jobId : Uuid)
  | deliver (jobId : Notifications.JobId)
  | expire (process : Nat) (key : Access.MembershipKey)
  deriving DecidableEq

inductive Response where
  | access (response : Access.Response)
  | board (response : Board.Response)
  | reminders (response : Reminders.Response)
  | done

/-- `queue` says whether `QUEUE_ENABLED` is set. -/
def program (out : Access.Outside) (queue : Bool) : Request → Service Response
  | .access process r => return .access (← ofAccess process (Access.program out r))
  | .board process userId r => return .board (← board queue process userId r)
  | .scan now => return .reminders (← ofReminders (Reminders.program queue (.scan now)))
  | .remind jobId => return .reminders (← ofReminders (Reminders.program queue (.work jobId)))
  | .deliver jobId => do
    NotificationProcessor.work jobId
    return .done
  | .expire process key => do
    ofAccess process (Access.perform (.cacheDel key))
    return .done

def system (out : Access.Outside) (pg : Postgres) (queue : Bool) : System interface Tables Request Response where
  exec := exec out pg
  program := program out queue
  fault := .unavailable
  admits s env := s.db.generated.admits env && s.rest.board.generated.admits env
  spend := Tables.spend

abbrev State := Config interface Tables Request Response

end TaskPlatform.Platform

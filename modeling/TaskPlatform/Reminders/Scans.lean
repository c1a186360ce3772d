import TaskPlatform.Reminders.Writes

/-! What a scan calls and when: it dispatches a reminder right after the insert that created it. -/

namespace TaskPlatform.Reminders
open Effects RemindersService

theorem liftInbox_perform (c : Notifications.Call) :
    liftInbox (Notifications.NotificationsService.perform c) = perform (.inbox c) := by
  refine congrArg (Prog.call (I := interface) (.inbox c)) (funext fun a => ?_)
  cases a <;> rfl

/-- The reminder that a scan has created and not dispatched yet. -/
def pending? : List (Said interface) → Option Uuid
  | ⟨.insertReminder _, .ok (some id)⟩ :: _ => some id
  | ⟨.inbox _, .ok _⟩ :: log => pending? log
  | _ => none

/-- The calls that a scan makes between one dispatch and the next. -/
def Call.looks : Call → Bool
  | .tasksDueSoon _ _ | .tasksOverdue _ | .insertReminder _ => true
  | _ => false

/-- What a scan calls after what it was told. -/
inductive Follows (queue : Bool) : List (Said interface) → Call → Prop
  | looks {log : List (Said interface)} {c : Call} (idle : pending? log = none) (call : c.looks = true) :
      Follows queue log c
  | enqueue {n : NewReminder} {id : Uuid} {log : List (Said interface)} (mode : queue = true) :
      Follows queue (⟨.insertReminder n, .ok (some id)⟩ :: log) (.addJob (jobOptions id))
  | notify {n : NewReminder} {id : Uuid} {log : List (Said interface)}
      {input : Notifications.CreateNotificationInput} (mode : queue = false) :
      Follows queue (⟨.insertReminder n, .ok (some id)⟩ :: log) (.inbox (.insertNotification input))
  | sent {id : Uuid} {log : List (Said interface)} {now : Date} (mode : queue = false) (pending : pending? log = some id) :
      Follows queue log (.updateReminder id { status := .SENT, sentAt := some now })

section
variable {queue : Bool} {type : ReminderType} {log : List (Said interface)}

/-- After the insert or the notification of a dispatch its reminder is still pending. -/
theorem notify_leaves {id : Uuid} (h : pending? log = some id) (taskId : Uuid) (assigneeId : Option UuidText) :
    (notify taskId assigneeId type).Leaves (fun log _ => pending? log = some id) log := by
  cases assigneeId with
  | none => exact h
  | some a =>
    rw [notify, notifyAssignee, Notifications.NotificationsService.create, liftInbox_perform]
    exact Prog.Leaves.bind (Prog.Leaves.perform fun _ => h) fun _ _ h => h

theorem notify_makes {n : NewReminder} {id : Uuid} (mode : queue = false) (taskId : Uuid)
    (assigneeId : Option UuidText) :
    (notify taskId assigneeId type).Makes (Follows queue) (⟨.insertReminder n, .ok (some id)⟩ :: log) := by
  cases assigneeId with
  | none => trivial
  | some a =>
    rw [notify, notifyAssignee, Notifications.NotificationsService.create, liftInbox_perform]
    exact Prog.Makes.perform_bind (.notify mode) fun _ => trivial

theorem dispatch_leaves (task : Board.Task) :
    (dispatch queue type task).Leaves (fun log _ => pending? log = none) log := by
  refine Prog.Leaves.bind (Prog.Leaves.perform (Q := fun log a => pending? log = a) fun a => ?_) fun log a ha => ?_
  · cases a <;> rfl
  · cases a with
    | none => exact ha
    | some id =>
      simp only
      split
      · exact Prog.Leaves.bind (Prog.Leaves.perform (Q := fun log _ => pending? log = none) fun _ => rfl) fun _ _ h => h
      · refine Prog.Leaves.bind (notify_leaves ha _ _) fun log _ _ => ?_
        refine Prog.Leaves.read_bind fun env => ?_
        exact Prog.Leaves.bind (Prog.Leaves.perform (Q := fun log _ => pending? log = none) fun _ => rfl) fun _ _ h => h

theorem dispatch_makes (h : pending? log = none) (task : Board.Task) :
    (dispatch queue type task).Makes (Follows queue) log := by
  refine Prog.Makes.perform_bind (.looks h rfl) fun a => ?_
  cases a with
  | none => trivial
  | some id =>
    simp only
    split
    · exact Prog.Makes.perform_bind (.enqueue ‹_›) fun _ => trivial
    · have mode : queue = false := by simpa using ‹¬queue = true›
      refine Prog.Makes.bind (notify_makes mode _ _) (notify_leaves rfl _ _) fun log _ hlog => ?_
      refine Prog.Makes.read_bind fun env => ?_
      exact Prog.Makes.perform_bind (.sent mode hlog) fun _ => trivial

theorem dispatchAll_makes (tasks : List Board.Task) (t : ScanResult) (h : pending? log = none) :
    (dispatchAll queue type tasks t).Makes (Follows queue) log := by
  induction tasks generalizing t log with
  | nil => trivial
  | cons task rest ih => exact (dispatch_makes h task).bind (dispatch_leaves task) fun _ _ hlog => ih _ hlog

theorem dispatchAll_leaves (tasks : List Board.Task) (t : ScanResult) (h : pending? log = none) :
    (dispatchAll queue type tasks t).Leaves (fun log _ => pending? log = none) log := by
  induction tasks generalizing t log with
  | nil => exact h
  | cons task rest ih => exact (dispatch_leaves task).bind fun _ _ hlog => ih _ hlog

theorem scan_makes (now : Date) : (scan queue now).Makes (Follows queue) [] := by
  refine Prog.Makes.perform_bind (.looks rfl rfl) fun dueSoon => ?_
  refine Prog.Makes.perform_bind (.looks rfl rfl) fun overdue => ?_
  exact (dispatchAll_makes _ _ rfl).bind (dispatchAll_leaves _ _ rfl) fun _ _ h => dispatchAll_makes _ _ h

/-- The same of all requests: nothing is said of those that are no scan. -/
theorem program_makes (pg : Postgres) (r : Request) :
    ((system pg queue).program r).Makes (fun log c => ∀ now, r = .scan now → Follows queue log c) [] := by
  cases r with
  | scan now =>
    have hscan : (scan queue now).Makes (fun log c => ∀ t, Request.scan now = .scan t → Follows queue log c) [] :=
      (scan_makes now).mono fun _ _ h _ _ => h
    exact hscan.bind (Prog.leaves_true _ _) fun _ _ _ => trivial
  | work | board => exact Prog.makes_of_forall (fun _ _ _ h => nomatch h) _ _

end
end TaskPlatform.Reminders

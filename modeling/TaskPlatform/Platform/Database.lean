import Mathlib.Logic.Function.Basic
import TaskPlatform.Access.Database
import TaskPlatform.Notifications.Listeners
import TaskPlatform.Reminders.Database

/-! All tables together, with the membership cache of every API process and the queues of both workers: what the
    modules do to them, and how the board sees the workspaces of the other tables. -/

namespace TaskPlatform.Platform
open Effects

structure Tables where
  db : Workspaces.Tables
  caches : Nat → List (Access.MembershipKey × Workspaces.WorkspaceMember)
  rest : Reminders.Tables
  notificationJobs : Notifications.Queue

inductive Call where
  | access (process : Nat) (c : Access.Call)
  | reminders (c : Reminders.Call)
  | addNotificationJob (input : Notifications.CreateNotificationInput)
  | takeNotificationJob (id : Notifications.JobId)
  | completeNotificationJob (id : Notifications.JobId)
  deriving DecidableEq

abbrev Call.Reply : Call → Type
  | .access _ c => c.Reply
  | .reminders c => c.Reply
  | .addNotificationJob _ => Unit
  | .takeNotificationJob _ => Option Notifications.Job
  | .completeNotificationJob _ => Unit

abbrev interface : Interface := ⟨Env, Call, Call.Reply, Err⟩

abbrev Service (α : Type) := Prog interface α

namespace Tables

def start (users : List Uuid) (generated : Generated) : Tables :=
  { db := ⟨users, [], [], [], [], generated⟩, caches := fun _ => [], rest := Reminders.Tables.start users [] generated,
    notificationJobs := ⟨[], []⟩ }

/-- The tables after the values of `env` were generated. -/
def spend (s : Tables) (env : Env) : Tables := { s with db := s.db.spend env, rest := s.rest.spend env }

/-- What one API process sees of the workspaces. -/
def access (s : Tables) (process : Nat) : Access.Tables := ⟨s.db, s.caches process⟩

/-- The tables after a statement on the workspaces: projects refer to those that there are now. -/
def withAccess (s : Tables) (process : Nat) (a : Access.Tables) : Tables :=
  { s with
    db := a.db
    caches := Function.update s.caches process a.cache
    rest := { s.rest with board := { s.rest.board with workspaces := a.db.workspaces.map Workspaces.Workspace.id } } }

/-- The place of a job that waits. -/
def waiting? (s : Tables) (id : Notifications.JobId) : Option (Nat × Notifications.Job) :=
  (s.notificationJobs.waiting.findIdx? (·.opts.jobId = id)).bind fun i =>
    (s.notificationJobs.waiting[i]?).map fun j => (i, j)

end Tables

def exec (out : Access.Outside) (pg : Postgres) : Handler interface Tables := fun env c s =>
  match c with
  | .access process c =>
    let a := Access.exec out env c (s.access process)
    (a.1, s.withAccess process a.2)
  | .reminders c =>
    let a := Reminders.exec pg env c s.rest
    (a.1, { s with rest := a.2 })
  | .addNotificationJob input =>
    (.ok (), { s with
      notificationJobs := Notifications.NotificationQueueListener.enqueue s.notificationJobs (some input) })
  | .takeNotificationJob id => (.ok ((s.waiting? id).map Prod.snd), s)
  | .completeNotificationJob id =>
    match s.waiting? id with
    | some (i, j) => (.ok (), { s with notificationJobs := s.notificationJobs.complete i j })
    | none => (.error .unavailable, s)

end TaskPlatform.Platform

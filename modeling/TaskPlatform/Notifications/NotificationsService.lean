import TaskPlatform.Library.Interleave
import TaskPlatform.Statements

/-! `notifications` and `NotificationsService`, the inbox of every user. -/

namespace TaskPlatform.Notifications
open Effects

inductive NotificationType where
  | TASK_ASSIGNED
  | TASK_DUE_SOON
  | TASK_OVERDUE
  | TASK_COMPLETED
  | COMMENT_ADDED
  | COMMENT_REPLY
  | WORKSPACE_INVITE
  deriving DecidableEq, Repr

/-- A row of `notifications`. -/
structure NotificationRow where
  id : Uuid
  recipientId : Uuid
  type : NotificationType
  title : String
  body : Option String
  entityType : Option String
  entityId : Option Uuid
  workspaceId : Option Uuid
  isRead : Bool
  readAt : Option Date
  createdAt : Timestamptz
  deriving DecidableEq

/-- A loaded notification; its `createdAt` has no microseconds. -/
structure Notification where
  id : Uuid
  recipientId : UuidText
  type : NotificationType
  title : String
  body : Option String
  entityType : Option String
  entityId : Option UuidText
  workspaceId : Option UuidText
  isRead : Bool
  readAt : Option Date
  createdAt : Timestamptz
  deriving DecidableEq

structure CreateNotificationInput where
  recipientId : UuidText
  type : NotificationType
  title : String
  body : Option String := none
  entityType : Option String := none
  entityId : Option UuidText := none
  workspaceId : Option UuidText := none
  deriving DecidableEq

def NotificationRow.toEntity (r : NotificationRow) : Notification :=
  { id := r.id, recipientId := r.recipientId.text, type := r.type, title := r.title, body := r.body,
    entityType := r.entityType, entityId := r.entityId.map Uuid.text, workspaceId := r.workspaceId.map Uuid.text,
    isRead := r.isRead, readAt := r.readAt, createdAt := r.createdAt.truncate }

def Notification.toRow (n : Notification) : NotificationRow :=
  { id := n.id, recipientId := n.recipientId.uuid, type := n.type, title := n.title, body := n.body,
    entityType := n.entityType, entityId := n.entityId.map UuidText.uuid,
    workspaceId := n.workspaceId.map UuidText.uuid, isRead := n.isRead, readAt := n.readAt, createdAt := n.createdAt }

def NotificationRow.over (r old : NotificationRow) : NotificationRow := { r with createdAt := old.createdAt }

/-- The row that the insert adds, and the entity it leaves. -/
def CreateNotificationInput.toRow (n : CreateNotificationInput) (env : Env) : NotificationRow :=
  { id := env.uuid, recipientId := n.recipientId.uuid, type := n.type, title := n.title, body := n.body,
    entityType := n.entityType, entityId := n.entityId.map UuidText.uuid,
    workspaceId := n.workspaceId.map UuidText.uuid, isRead := false, readAt := none, createdAt := env.dbNow }

def CreateNotificationInput.saved (n : CreateNotificationInput) (env : Env) : Notification :=
  { (n.toRow env).toEntity with
    recipientId := n.recipientId, entityId := n.entityId, workspaceId := n.workspaceId }

structure Tables where
  users : List Uuid
  workspaces : List Uuid
  notifications : List NotificationRow
  generated : Generated
  deriving DecidableEq

structure NotificationFilter where
  recipientId : Uuid
  unread : Bool
  deriving DecidableEq

def NotificationFilter.accepts (f : NotificationFilter) (r : NotificationRow) : Bool :=
  r.recipientId = f.recipientId && (!f.unread || !r.isRead)

def NotificationRow.key (r : NotificationRow) : Key := TaskPlatform.key r.createdAt r.id

namespace Tables

def checkNotification (s : Tables) (old : Option NotificationRow) (r : NotificationRow) : Except DbError Unit := do
  reference "FK_notifications_recipient" (old.map (·.recipientId)) (some r.recipientId) s.users
  reference "FK_notifications_workspace" (old.bind (·.workspaceId)) r.workspaceId s.workspaces

def insertNotification (s : Tables) (r : NotificationRow) : Except DbError Tables := do
  fresh "notifications_pkey" r.id (s.notifications.map NotificationRow.id)
  s.checkNotification none r
  return { s with notifications := s.notifications ++ [r] }

def saveNotification (s : Tables) (n : Notification) : Except DbError Tables := do
  let r := n.toRow
  s.checkNotification (s.notifications.find? (·.id = r.id)) r
  return { s with notifications := upsert NotificationRow.id r.over r s.notifications }

/-- `count({ where: { recipientId, isRead: false } })`. -/
def unread (s : Tables) (userId : Uuid) : Nat := s.notifications.countP fun r => r.recipientId = userId && !r.isRead

/-- `update({ recipientId, isRead: false }, { isRead: true, readAt })`. -/
def readAll (s : Tables) (userId : Uuid) (readAt : Date) : Tables :=
  { s with notifications := s.notifications.map fun r =>
      if r.recipientId = userId && !r.isRead then { r with isRead := true, readAt := some readAt } else r }

end Tables

/-! ### The service -/

inductive Call where
  | insertNotification (n : CreateNotificationInput)
  | listNotifications (f : NotificationFilter) (cursor : Option Cursor) (take : Nat)
  | countUnread (userId : Uuid)
  | findNotification (id recipientId : Uuid)
  | saveNotification (n : Notification)
  | updateUnread (userId : Uuid) (readAt : Date)
  deriving DecidableEq

abbrev Call.Reply : Call → Type
  | .insertNotification _ => Notification
  | .listNotifications _ _ _ => List Notification
  | .countUnread _ => Nat
  | .findNotification _ _ => Option Notification
  | .saveNotification _ => Notification
  | .updateUnread _ _ => Nat

abbrev interface : Interface := ⟨Env, Call, Call.Reply, Err⟩

abbrev Service (α : Type) := Prog interface α

def exec (pg : Postgres) : Handler interface Tables := fun env c s =>
  match c with
  | .insertNotification n => commit s (n.saved env) (s.insertNotification (n.toRow env))
  | .listNotifications f cursor take =>
    ((select pg NotificationRow.key f.accepts cursor take s.notifications).map (List.map NotificationRow.toEntity), s)
  | .countUnread u => (.ok (s.unread u), s)
  | .findNotification id u =>
    (.ok ((s.notifications.find? fun r => r.id = id && r.recipientId = u).map NotificationRow.toEntity), s)
  | .saveNotification n => commit s n (s.saveNotification n)
  | .updateUnread u now => (.ok (s.unread u), s.readAll u now)

structure ListNotificationsQueryDto extends PaginationQuery where
  unread : Bool := false
  deriving DecidableEq

namespace NotificationsService

def perform (c : Call) : Service c.Reply := Prog.perform (I := interface) c

def create (input : CreateNotificationInput) : Service Notification := perform (.insertNotification input)

def list (userId : UuidText) (query : ListNotificationsQueryDto) : Service (Page Notification) := do
  let limit := query.limitOr20
  let filter := { recipientId := userId.uuid, unread := query.unread }
  let rows ← perform (.listNotifications filter query.decoded (limit + 1))
  return buildPage rows limit fun n => encodeCursor n.createdAt n.id

def unreadCount (userId : UuidText) : Service Nat := perform (.countUnread userId.uuid)

def markRead (userId id : UuidText) : Service Notification := do
  let notification ← perform (.findNotification id.uuid userId.uuid)
  match notification with
  | none => .throw (.notFound "Notification not found")
  | some notification =>
    if notification.isRead then return notification
    else do
      let now ← Prog.read Env.now
      let read := { notification with isRead := true, readAt := some now }
      let _ ← perform (.saveNotification read)
      return read

def markAllRead (userId : UuidText) : Service Nat := do
  let now ← Prog.read Env.now
  perform (.updateUnread userId.uuid now)

end NotificationsService
end TaskPlatform.Notifications

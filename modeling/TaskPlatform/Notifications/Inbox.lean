import TaskPlatform.Library.Observe
import TaskPlatform.Notifications.Listeners

/-! The inboxes of all users, as calls of `NotificationsService` one after another leave them: which notifications are
    read, and what each user is told of them. -/

namespace TaskPlatform.Notifications
open Effects

/-! ### The service -/

/-- A call of the service. -/
inductive Request where
  | create (input : CreateNotificationInput)
  | list (userId : UuidText) (query : ListNotificationsQueryDto)
  | unreadCount (userId : UuidText)
  | markRead (userId id : UuidText)
  | markAllRead (userId : UuidText)
  deriving DecidableEq

inductive Response where
  | notification (n : Notification)
  | page (p : Page Notification)
  | count (n : Nat)

def program : Request → Service Response
  | .create input => return .notification (← NotificationsService.create input)
  | .list userId query => return .page (← NotificationsService.list userId query)
  | .unreadCount userId => return .count (← NotificationsService.unreadCount userId)
  | .markRead userId id => return .notification (← NotificationsService.markRead userId id)
  | .markAllRead userId => return .count (← NotificationsService.markAllRead userId)

def Tables.spend (s : Tables) (env : Env) : Tables := { s with generated := s.generated.spend env }

def system (pg : Postgres) : System interface Tables Request Response where
  exec := exec pg
  program := program
  fault := .unavailable
  admits s env := s.generated.admits env
  spend := Tables.spend

def Tables.start (users workspaces : List Uuid) (generated : Generated) : Tables := ⟨users, workspaces, [], generated⟩

/-! ### What is counted -/

/-- A notification, by its id and its recipient. -/
structure Entry where
  id : Uuid
  recipientId : Uuid
  deriving DecidableEq

/-- The notifications that were created, and those of them that were marked read. -/
structure Ledger where
  created : List Entry
  marked : List Entry
  deriving DecidableEq

/-- The notifications that a call is to mark read: one of its user, or all of them. -/
def Request.marks : Request → Entry → Bool
  | .markRead userId id, e => e = ⟨id.uuid, userId.uuid⟩
  | .markAllRead userId, e => e.recipientId = userId.uuid
  | _, _ => false

/-- A call put on record with how it ended. -/
def Ledger.record (l : Ledger) : Request × Except Err Response → Ledger
  | (.create input, .ok (.notification n)) => { l with created := l.created ++ [⟨n.id, input.recipientId.uuid⟩] }
  | (r, _) => { l with marked := l.created.filter fun e => e ∈ l.marked || r.marks e }

/-- The record of calls in turn. -/
def ledger (history : List (Request × Except Err Response)) : Ledger := history.foldl Ledger.record ⟨[], []⟩

/-- The calls of a run, each with how it ended. -/
def history (pg : Postgres) (rs : List (Request × (Nat → Env))) (s : Tables) : List (Request × Except Err Response) :=
  (system pg).observe (fun r env s => [(r, ((system pg).serve r env s).1)]) rs s

def NotificationRow.entry (r : NotificationRow) : Entry := ⟨r.id, r.recipientId⟩

/-- What the tables say of the notifications. -/
def Tables.ledger (s : Tables) : Ledger :=
  ⟨s.notifications.map NotificationRow.entry, (s.notifications.filter (·.isRead)).map NotificationRow.entry⟩

/-! ### What a call does -/

def NotificationRow.read (r : NotificationRow) (readAt : Date) : NotificationRow :=
  { r with isRead := true, readAt := some readAt }

/-- Marks those of the notifications read that are not yet. -/
def Tables.mark (s : Tables) (p : Entry → Bool) (readAt : Date) : Tables :=
  { s with notifications := s.notifications.map fun r => if p r.entry && !r.isRead then r.read readAt else r }

/-- The notifications of a user. -/
def Tables.of (s : Tables) (userId : Uuid) : List NotificationRow := s.notifications.filter (·.recipientId = userId)

/-- What every table keeps. -/
structure Tables.Tidy (s : Tables) : Prop where
  ids : (s.notifications.map NotificationRow.id).Nodup
  issued : s.Issued
  paired : ∀ r ∈ s.notifications, r.isRead = true ↔ r.readAt.isSome = true

section
variable {pg : Postgres} {s : Tables} {env : Nat → Env} {u : Uuid} {userId id : UuidText}

theorem find_of (s : Tables) (u id : Uuid) :
    (s.notifications.find? fun r => r.id = id && r.recipientId = u) = (s.of u).find? (·.id = id) := by
  rw [Tables.of, List.find?_filter]
  refine congrArg (List.find? · _) (funext fun r => ?_)
  rw [Bool.and_comm]
  simp

theorem unread_of (s : Tables) (u : Uuid) : s.unread u = (s.of u).countP fun r => !r.isRead := by
  rw [Tables.unread, Tables.of, List.countP_filter]
  refine congrArg (List.countP · _) (funext fun r => ?_)
  rw [Bool.and_comm]

theorem accepts_of (s : Tables) (f : NotificationFilter) :
    s.notifications.filter f.accepts = (s.of f.recipientId).filter fun r => !f.unread || !r.isRead := by
  rw [Tables.of, List.filter_filter]
  refine congrArg (List.filter · _) (funext fun r => ?_)
  rw [NotificationFilter.accepts, Bool.and_comm]

/-! ### How each call ends -/

variable (pg s env) in
theorem serve_create (input : CreateNotificationInput) :
    (system pg).serve (.create input) env s =
      ((exec pg (env 1) (.insertNotification input) ((s.spend (env 0)).spend (env 1))).1.map Response.notification,
        (exec pg (env 1) (.insertNotification input) ((s.spend (env 0)).spend (env 1))).2) :=
  Prog.run_perform_map _ _ _ _ _

variable (pg s env) in
theorem serve_list (query : ListNotificationsQueryDto) :
    (system pg).serve (.list userId query) env s =
      ((select pg NotificationRow.key (NotificationFilter.accepts ⟨userId.uuid, query.unread⟩) query.decoded
          (query.limitOr20 + 1) s.notifications).map fun rows =>
            .page (buildPage (rows.map NotificationRow.toEntity) query.limitOr20 fun n => encodeCursor n.createdAt n.id),
        (s.spend (env 0)).spend (env 1)) := by
  have hprogram : (system pg).program (.list userId query) = (NotificationsService.perform
      (.listNotifications ⟨userId.uuid, query.unread⟩ query.decoded (query.limitOr20 + 1))).bind fun rows =>
        .ret (.page (buildPage rows query.limitOr20 fun n => encodeCursor n.createdAt n.id)) := by
    change Prog.bind (Prog.bind _ _) _ = _
    rw [Prog.bind_assoc]
    rfl
  rw [System.serve, hprogram, NotificationsService.perform, Prog.run_perform_map]
  simp only [System.handler, system, exec, Tables.spend]
  generalize select pg _ _ _ _ _ = rows
  cases rows <;> rfl

variable (pg s env) in
theorem serve_unreadCount :
    (system pg).serve (.unreadCount userId) env s =
      (.ok (.count (s.unread userId.uuid)), (s.spend (env 0)).spend (env 1)) :=
  Prog.run_perform_map _ _ _ _ _

variable (pg s env) in
theorem serve_markAllRead :
    (system pg).serve (.markAllRead userId) env s =
      (.ok (.count (s.unread userId.uuid)),
        ((s.spend (env 0)).spend (env 1)).mark (Request.marks (.markAllRead userId)) (env 0).now) := by
  have hprogram : (system pg).program (.markAllRead userId) = .ask fun e =>
      (NotificationsService.perform (.updateUnread userId.uuid e.now)).bind fun n => .ret (.count n) := rfl
  rw [System.serve, hprogram, Prog.run_ask, NotificationsService.perform, Prog.run_perform_map]
  rfl

/-- A reference that stays is not checked again. -/
theorem reference_same (constraint : String) (id : Option Uuid) (target : List Uuid) :
    reference constraint id id target = .ok () := by
  cases id <;> simp [reference]

/-- The row of a loaded notification that was marked read. -/
theorem toRow_read (n : NotificationRow) (readAt : Date) :
    ∃ r, ({ n.toEntity with isRead := true, readAt := some readAt } : Notification).toRow = r ∧ r.id = n.id ∧
      r.recipientId = n.recipientId ∧ r.workspaceId = n.workspaceId ∧ r.over n = n.read readAt := by
  obtain ⟨_, _, _, _, _, _, entityId, workspaceId, _, _, _⟩ := n
  cases entityId <;> cases workspaceId <;> exact ⟨_, rfl, rfl, rfl, rfl, rfl⟩

/-- A row that is saved as read is marked read. -/
theorem save_marks (ids : (s.notifications.map NotificationRow.id).Nodup) {n : NotificationRow} (hn : n ∈ s.notifications)
    (hunread : n.isRead = false) (readAt : Date) :
    s.saveNotification { n.toEntity with isRead := true, readAt := some readAt } = .ok (s.mark (· = n.entry) readAt) := by
  obtain ⟨r, hr, hid, hrecipient, hworkspace, hover⟩ := toRow_read n readAt
  have hfind : s.notifications.find? (fun x => decide (x.id = r.id)) = some n := hid ▸ Table.find?_key ids hn
  have hcheck : s.checkNotification (some n) r = .ok () := by
    rw [Tables.checkNotification, Option.map_some, Option.bind_some, hrecipient, hworkspace, reference_same,
      reference_same]
    rfl
  have hreplace : Table.replace NotificationRow.id (n.read readAt) s.notifications =
      (s.mark (· = n.entry) readAt).notifications := by
    refine List.map_congr_left fun x hx => ?_
    by_cases hxid : x.id = n.id
    · obtain rfl := Table.eq_of_key ids hx hn hxid
      simp [hunread, NotificationRow.read]
    · have hne : x.entry ≠ n.entry := fun h => hxid (congrArg Entry.id h)
      simp [hxid, hne, NotificationRow.read]
  have hupsert : upsert NotificationRow.id r.over r s.notifications = (s.mark (· = n.entry) readAt).notifications := by
    simp only [upsert, hfind, hover, hreplace]
  simp only [Tables.saveNotification, hr]
  rw [hfind, hcheck, hupsert]
  rfl

variable (pg env userId id) in
/-- A user marks a notification of his own read, once. -/
theorem serve_markRead (ids : (s.notifications.map NotificationRow.id).Nodup) :
    ((s.of userId.uuid).find? (·.id = id.uuid) = none ∧ (system pg).serve (.markRead userId id) env s =
      (.error (.notFound "Notification not found"), (s.spend (env 0)).spend (env 1))) ∨
    ∃ n, (s.of userId.uuid).find? (·.id = id.uuid) = some n ∧
      (n.isRead = true ∧ (system pg).serve (.markRead userId id) env s =
        (.ok (.notification n.toEntity), (s.spend (env 0)).spend (env 1)) ∨
      n.isRead = false ∧ (system pg).serve (.markRead userId id) env s =
        (.ok (.notification { n.toEntity with isRead := true, readAt := some (env 1).now }),
          (((s.spend (env 0)).spend (env 1)).spend (env 2)).mark (Request.marks (.markRead userId id)) (env 1).now)) := by
  have hcall : (system pg).handler (env 1) (.findNotification id.uuid userId.uuid) (s.spend (env 0)) =
      (.ok (((s.of userId.uuid).find? (·.id = id.uuid)).map NotificationRow.toEntity), (s.spend (env 0)).spend (env 1)) := by
    rw [← find_of]
    rfl
  have hserve : (system pg).serve (.markRead userId id) env s =
      ((NotificationsService.markRead userId id).bind fun n => .ret (Response.notification n)).run (system pg).handler env
        (s.spend (env 0)) := rfl
  rw [hserve, NotificationsService.markRead, Prog.bind_eq, Prog.bind_assoc, NotificationsService.perform,
    Prog.run_perform_ok (I := interface) env hcall]
  cases hfind : (s.of userId.uuid).find? (·.id = id.uuid) with
  | none => exact Or.inl ⟨rfl, rfl⟩
  | some n =>
    obtain ⟨hmem, huser⟩ := List.mem_filter.mp (List.mem_of_find?_eq_some hfind)
    have hid : n.id = id.uuid := by simpa using List.find?_some hfind
    refine Or.inr ⟨n, rfl, ?_⟩
    cases hread : n.isRead with
    | true =>
      refine Or.inl ⟨rfl, ?_⟩
      simp only [Option.map_some, show n.toEntity.isRead = true from hread, if_true]
      rfl
    | false =>
      have hmarks : n.entry = ⟨id.uuid, userId.uuid⟩ := by
        rw [NotificationRow.entry, hid, of_decide_eq_true huser]
      have hsave := save_marks (s := ((s.spend (env 0)).spend (env 1)).spend (env 2)) ids hmem hread (env 1).now
      rw [hmarks] at hsave
      have hcall : (system pg).handler (env 2)
          (.saveNotification { n.toEntity with isRead := true, readAt := some (env 1).now })
          ((s.spend (env 0)).spend (env 1)) = (.ok { n.toEntity with isRead := true, readAt := some (env 1).now },
            (((s.spend (env 0)).spend (env 1)).spend (env 2)).mark (Request.marks (.markRead userId id)) (env 1).now) :=
        congrArg (commit _ _) hsave
      refine Or.inr ⟨rfl, ?_⟩
      simp only [Option.map_some, show n.toEntity.isRead = false from hread, Bool.false_eq_true, if_false, Prog.bind_eq,
        Prog.read_bind, Prog.ask_bind, Prog.run_ask, Prog.bind_assoc]
      rw [NotificationsService.perform, Prog.run_perform_ok (I := interface) _ hcall]
      rfl

theorem markRead_answer (ids : (s.notifications.map NotificationRow.id).Nodup) :
    ((system pg).serve (.markRead userId id) env s).1 =
      match (s.of userId.uuid).find? (·.id = id.uuid) with
      | none => .error (.notFound "Notification not found")
      | some n => .ok (.notification
          (if n.isRead then n.toEntity else { n.toEntity with isRead := true, readAt := some (env 1).now })) := by
  rcases serve_markRead pg env userId id ids with ⟨hfind, hserve⟩ | ⟨n, hfind, ⟨hread, hserve⟩ | ⟨hread, hserve⟩⟩
  · rw [hserve, hfind]
  · simp only [hserve, hfind, hread, if_true]
  · simp only [hserve, hfind, hread, Bool.false_eq_true, if_false]

/-! ### What a call does to the notifications -/

/-- A call marks notifications read, those that it is to mark, or adds a new one that is unread. -/
inductive Does (s : Tables) (r : Request) (answer : Except Err Response) : Tables → Prop
  | marks {readAt : Date} {generated : Generated} (grown : s.generated.uuids ⊆ generated.uuids)
      (nothingNew : ∀ input n, r = .create input → answer ≠ .ok (.notification n)) :
      Does s r answer { s.mark r.marks readAt with generated }
  | adds {input : CreateNotificationInput} {now : Env} {generated : Generated} (call : r = .create input)
      (ok : answer = .ok (.notification (input.saved now))) (new : now.uuid ∉ s.generated.uuids)
      (grown : now.uuid :: s.generated.uuids ⊆ generated.uuids) :
      Does s r answer { s with notifications := s.notifications ++ [input.toRow now], generated }

/-- Where nothing is left to be marked, nothing changes. -/
theorem mark_eq_self {p : Entry → Bool} (h : ∀ r ∈ s.notifications, p r.entry = true → r.isRead = true) (readAt : Date) :
    s.mark p readAt = s := by
  have hrows : (s.notifications.map fun r => if p r.entry && !r.isRead then r.read readAt else r) = s.notifications := by
    conv_rhs => rw [← List.map_id' s.notifications]
    refine List.map_congr_left fun r hr => if_neg fun hp => ?_
    obtain ⟨hp, hunread⟩ := Bool.and_eq_true_iff.mp hp
    simp [h r hr hp] at hunread
  rw [Tables.mark, hrows]

theorem Does.nothing {r : Request} {answer : Except Err Response} (generated : Generated)
    (grown : s.generated.uuids ⊆ generated.uuids) (nothingNew : ∀ input n, r = .create input → answer ≠ .ok (.notification n))
    (marked : ∀ x ∈ s.notifications, r.marks x.entry = true → x.isRead = true) : Does s r answer { s with generated } := by
  have hmarks : Does s r answer { s.mark r.marks 0 with generated } := Does.marks grown nothingNew
  rwa [mark_eq_self marked] at hmarks

variable (pg) in
/-- The inbox takes the notification, or rejects it. -/
theorem insert_cases {now : Env} (new : now.uuid ∉ s.notifications.map NotificationRow.id) (input : CreateNotificationInput) :
    exec pg now (.insertNotification input) s =
        (.ok (input.saved now), { s with notifications := s.notifications ++ [input.toRow now] }) ∨
      ∃ e, exec pg now (.insertNotification input) s = (.error e, s) := by
  rcases insert_accepts Empty input now s new with ⟨-, hinsert⟩ | ⟨-, e, hinsert⟩
  · rw [exec, hinsert]
    exact Or.inl rfl
  · rw [exec, hinsert]
    exact Or.inr ⟨_, rfl⟩

variable (pg) in
/-- The answer depends on what users and workspaces there are. -/
theorem insert_answer {now : Env} (new : now.uuid ∉ s.notifications.map NotificationRow.id) (input : CreateNotificationInput) :
    (exec pg now (.insertNotification input) s).1 =
      if s.users.contains input.recipientId.uuid = true then
        if input.workspaceId.all (fun w => s.workspaces.contains w.uuid) = true then .ok (input.saved now)
        else .error (.db (.foreignKey "FK_notifications_workspace"))
      else .error (.db (.foreignKey "FK_notifications_recipient")) := by
  rw [exec, insert_eq input now s new]
  split
  · split <;> rfl
  · rfl

/-- The id of a new notification is not in the inbox. -/
theorem Tables.Tidy.fresh {input : CreateNotificationInput} (tidy : s.Tidy)
    (served : (system pg).Serves (.create input) env s) : (env 1).uuid ∉ (s.spend (env 0)).generated.uuids ∧
      (env 1).uuid ∉ ((s.spend (env 0)).spend (env 1)).notifications.map NotificationRow.id := by
  have hadmits : (s.spend (env 0)).generated.admits (env 1) = true := served.2.1
  have hnew := (Generated.admits_iff.mp hadmits).1
  refine ⟨hnew, fun h => ?_⟩
  obtain ⟨x, hx, hid⟩ := List.mem_map.mp h
  exact hnew (List.mem_cons_of_mem _ (hid ▸ tidy.issued x hx))

theorem serve_does (tidy : s.Tidy) {r : Request} (served : (system pg).Serves r env s) :
    Does s r ((system pg).serve r env s).1 ((system pg).serve r env s).2 := by
  have grown₂ : s.generated.uuids ⊆ ((s.generated.spend (env 0)).spend (env 1)).uuids :=
    List.Subset.trans (List.subset_cons_self ..) (List.subset_cons_self ..)
  cases r with
  | create input =>
    obtain ⟨hnew, hrow⟩ := tidy.fresh served
    rw [serve_create]
    rcases insert_cases pg hrow input with hexec | ⟨e, hexec⟩ <;> rw [hexec]
    · refine .adds rfl rfl (fun h => hnew (List.mem_cons_of_mem _ h)) ?_
      exact List.cons_subset_cons _ (List.subset_cons_self ..)
    · exact .nothing ((s.generated.spend (env 0)).spend (env 1)) grown₂ (fun _ _ _ h => nomatch h) fun _ _ h => nomatch h
  | list userId query =>
    rw [serve_list]
    exact .nothing ((s.generated.spend (env 0)).spend (env 1)) grown₂ (fun _ _ h => nomatch h) fun _ _ h => nomatch h
  | unreadCount userId =>
    rw [serve_unreadCount]
    exact .nothing ((s.generated.spend (env 0)).spend (env 1)) grown₂ (fun _ _ h => nomatch h) fun _ _ h => nomatch h
  | markAllRead userId =>
    rw [serve_markAllRead]
    exact .marks grown₂ fun _ _ h => nomatch h
  | markRead userId id =>
    have hfinds : ∀ x ∈ s.notifications, (Request.markRead userId id).marks x.entry = true →
        (s.of userId.uuid).find? (·.id = id.uuid) = some x := fun x hx hmarks => by
      obtain ⟨hid, huser⟩ := Entry.mk.inj (of_decide_eq_true hmarks)
      refine Table.find?_unique (List.mem_filter.mpr ⟨hx, decide_eq_true huser⟩) (decide_eq_true hid) fun y hy hyid => ?_
      exact Table.eq_of_key tidy.ids (List.mem_filter.mp hy).1 hx ((of_decide_eq_true hyid).trans hid.symm)
    rcases serve_markRead pg env userId id tidy.ids with ⟨hfind, hserve⟩ | ⟨n, hfind, ⟨hread, hserve⟩ | ⟨-, hserve⟩⟩ <;> rw [hserve]
    · refine .nothing ((s.generated.spend (env 0)).spend (env 1)) grown₂ (fun _ _ h => nomatch h) fun x hx hmarks => ?_
      exact nomatch hfind.symm.trans (hfinds x hx hmarks)
    · refine .nothing ((s.generated.spend (env 0)).spend (env 1)) grown₂ (fun _ _ h => nomatch h) fun x hx hmarks => ?_
      exact Option.some.inj (hfind.symm.trans (hfinds x hx hmarks)) ▸ hread
    · exact .marks (List.Subset.trans grown₂ (List.subset_cons_self ..)) fun _ _ h => nomatch h

/-! ### What every call keeps -/

variable {s' : Tables} {r : Request} {answer : Except Err Response}

/-- Where a row after marking comes from. -/
theorem mem_mark {p : Entry → Bool} {readAt : Date} {x : NotificationRow} (hx : x ∈ (s.mark p readAt).notifications) :
    ∃ y ∈ s.notifications, x = y ∨ p y.entry = true ∧ y.isRead = false ∧ x = y.read readAt := by
  obtain ⟨y, hy, rfl⟩ := List.mem_map.mp hx
  refine ⟨y, hy, ?_⟩
  split
  · next hp =>
    obtain ⟨hp, hunread⟩ := Bool.and_eq_true_iff.mp hp
    exact Or.inr ⟨hp, by simpa using hunread, rfl⟩
  · exact Or.inl rfl

/-- Marking changes no entry. -/
theorem map_mark {β : Type} (f : Entry → β) (s : Tables) (p : Entry → Bool) (readAt : Date) :
    (s.mark p readAt).notifications.map (fun r => f r.entry) = s.notifications.map fun r => f r.entry :=
  Table.map_update fun _ => rfl

theorem Does.tidy (h : Does s r answer s') (tidy : s.Tidy) : s'.Tidy := by
  cases h with
  | @marks readAt generated grown =>
    refine ⟨?_, fun x hx => ?_, fun x hx => ?_⟩
    · exact (map_mark Entry.id s r.marks readAt).symm ▸ tidy.ids
    · obtain ⟨y, hy, rfl | ⟨-, -, rfl⟩⟩ := mem_mark hx
      · exact grown (tidy.issued x hy)
      · exact grown (tidy.issued y hy)
    · obtain ⟨y, hy, rfl | ⟨-, -, rfl⟩⟩ := mem_mark hx
      · exact tidy.paired x hy
      · simp [NotificationRow.read]
  | @adds input now generated call ok new grown =>
    have hnew : (input.toRow now).id ∉ s.notifications.map NotificationRow.id := fun h => by
      obtain ⟨x, hx, hid⟩ := List.mem_map.mp h
      exact new ((show x.id = now.uuid from hid) ▸ tidy.issued x hx)
    refine ⟨?_, fun x hx => ?_, fun x hx => ?_⟩
    · rw [List.map_append, List.map_singleton]
      exact List.nodup_append'.mpr ⟨tidy.ids, List.nodup_singleton _, List.disjoint_singleton.mpr hnew⟩
    · rcases List.mem_append.mp hx with hx | hx
      · exact grown (List.mem_cons_of_mem _ (tidy.issued x hx))
      · obtain rfl := List.mem_singleton.mp hx
        exact grown (List.mem_cons_self ..)
    · rcases List.mem_append.mp hx with hx | hx
      · exact tidy.paired x hx
      · obtain rfl := List.mem_singleton.mp hx
        simp [CreateNotificationInput.toRow]

/-- A notification that is read stays as it is. -/
theorem Does.keeps_read (h : Does s r answer s') {x : NotificationRow} (hx : x ∈ s.notifications) (hread : x.isRead = true) :
    x ∈ s'.notifications := by
  cases h with
  | marks => exact List.mem_map.mpr ⟨x, hx, if_neg (by simp [hread])⟩
  | adds => exact List.mem_append_left _ hx

/-- A row is read exactly if its entry is among those that are. -/
theorem Tables.Tidy.marked_iff (tidy : s.Tidy) {x : NotificationRow} (hx : x ∈ s.notifications) :
    x.entry ∈ s.ledger.marked ↔ x.isRead = true := by
  constructor
  · intro h
    obtain ⟨y, hy, hentry⟩ := List.mem_map.mp h
    obtain ⟨hy, hread⟩ := List.mem_filter.mp hy
    exact Table.eq_of_key tidy.ids hy hx (congrArg Entry.id hentry) ▸ hread
  · exact fun hread => List.mem_map.mpr ⟨x, List.mem_filter.mpr ⟨hx, hread⟩, rfl⟩

/-- The entries that are read after marking are those that were, and those that were to be marked. -/
theorem mark_marked (tidy : s.Tidy) (p : Entry → Bool) (readAt : Date) :
    (s.mark p readAt).ledger.marked = s.ledger.created.filter fun e => e ∈ s.ledger.marked || p e := by
  have hread : ∀ x ∈ s.notifications, (if p x.entry && !x.isRead then x.read readAt else x).isRead =
      (decide (x.entry ∈ s.ledger.marked) || p x.entry) := fun x hx => by
    have hiff := tidy.marked_iff hx
    cases hr : x.isRead <;> cases hp : p x.entry <;> simp_all [NotificationRow.read]
  have hentry : ∀ x : NotificationRow, (if p x.entry && !x.isRead then x.read readAt else x).entry = x.entry := fun x => by
    split <;> rfl
  calc (s.mark p readAt).ledger.marked
    _ = (s.notifications.filter fun x => (if p x.entry && !x.isRead then x.read readAt else x).isRead).map fun x =>
        (if p x.entry && !x.isRead then x.read readAt else x).entry := by
      simp only [Tables.ledger, Tables.mark, List.filter_map]
      rw [List.map_map]
      rfl
    _ = (s.notifications.filter fun x => (if p x.entry && !x.isRead then x.read readAt else x).isRead).map
        NotificationRow.entry := List.map_congr_left fun x _ => hentry x
    _ = (s.notifications.filter fun x => decide (x.entry ∈ s.ledger.marked) || p x.entry).map NotificationRow.entry :=
      congrArg (List.map NotificationRow.entry) (List.filter_congr hread)
    _ = (s.notifications.map NotificationRow.entry).filter fun e => e ∈ s.ledger.marked || p e := by
      rw [List.filter_map]
      rfl

theorem Does.ledger (h : Does s r answer s') (tidy : s.Tidy) : s'.ledger = s.ledger.record (r, answer) := by
  cases h with
  | @marks readAt generated grown nothingNew =>
    have hrecord : s.ledger.record (r, answer) =
        { s.ledger with marked := s.ledger.created.filter fun e => e ∈ s.ledger.marked || r.marks e } := by
      unfold Ledger.record
      split
      · next input n heq => exact absurd (Prod.mk.inj heq).2 (nothingNew input n (Prod.mk.inj heq).1)
      · next heq =>
        obtain ⟨rfl, rfl⟩ := Prod.mk.inj heq
        rfl
    rw [hrecord, ← mark_marked tidy r.marks readAt]
    exact congrArg (Ledger.mk · _) (map_mark id s r.marks readAt)
  | @adds input now generated call ok new grown =>
    subst call ok
    simp only [Tables.ledger, Ledger.record, List.map_append, List.filter_append]
    exact congrArg (Ledger.mk _) (List.append_nil _)

/-! ### Other users -/

/-- The call is one of the user; notifications are created on behalf of anyone. -/
def Request.By (u : Uuid) : Request → Prop
  | .create _ => True
  | .list userId _ | .unreadCount userId | .markRead userId _ | .markAllRead userId => userId.uuid = u

/-- What is to be marked is the user's own. -/
theorem Request.By.marks_own (own : r.By u) {e : Entry} (hmarks : r.marks e = true) : e.recipientId = u := by
  cases r with
  | create | list | unreadCount => exact nomatch hmarks
  | markRead userId id => exact (congrArg Entry.recipientId (of_decide_eq_true hmarks)).trans own
  | markAllRead userId => exact (of_decide_eq_true hmarks).trans own

/-- The notifications of another user stay as they are; one may be created. -/
theorem Does.others (h : Does s r answer s') (own : r.By u) {v : Uuid} (hv : v ≠ u) :
    s'.of v = s.of v ∨ ∃ input n, r = .create input ∧ input.recipientId.uuid = v ∧ s'.of v = s.of v ++ [n] := by
  cases h with
  | @marks readAt =>
    left
    have hsame : ∀ x ∈ s.of v, (if r.marks x.entry && !x.isRead then x.read readAt else x) = x := fun x hx => by
      refine if_neg fun hp => hv ?_
      have hrecipient : x.recipientId = v := of_decide_eq_true (List.mem_filter.mp hx).2
      exact hrecipient.symm.trans (own.marks_own (Bool.and_eq_true_iff.mp hp).1)
    have hrecipient : ∀ x : NotificationRow,
        (if r.marks x.entry && !x.isRead then x.read readAt else x).recipientId = x.recipientId := fun x => by
      split <;> rfl
    simp only [Tables.of, Tables.mark, List.filter_map, Function.comp_def, hrecipient]
    exact (List.map_congr_left hsame).trans (List.map_id' _)
  | @adds input now generated call =>
    have hof : ∀ generated, Tables.of { s with notifications := s.notifications ++ [input.toRow now], generated } v =
        s.of v ++ if input.recipientId.uuid = v then [input.toRow now] else [] := fun generated => by
      simp only [Tables.of, List.filter_append, List.filter_singleton, Bool.cond_decide]
      rfl
    rw [hof]
    by_cases hrecipient : input.recipientId.uuid = v
    · exact Or.inr ⟨input, input.toRow now, call, hrecipient, by rw [if_pos hrecipient]⟩
    · exact Or.inl (by rw [if_neg hrecipient, List.append_nil])

/-- Two inboxes between which a user can see no difference. -/
structure Tables.Alike (u : Uuid) (s t : Tables) : Prop where
  own : s.of u = t.of u
  users : s.users = t.users
  workspaces : s.workspaces = t.workspaces

/-- A user is told the same, whatever the others have been told. -/
theorem alike_answer {t : Tables} (alike : s.Alike u t) (hs : s.Tidy) (ht : t.Tidy) (own : r.By u)
    (served : (system pg).Serves r env s) (served' : (system pg).Serves r env t) :
    ((system pg).serve r env s).1 = ((system pg).serve r env t).1 := by
  cases r with
  | create input =>
    rw [serve_create, serve_create]
    refine congrArg (Except.map _) ?_
    rw [insert_answer pg (hs.fresh served).2, insert_answer pg (ht.fresh served').2]
    simp only [Tables.spend, alike.users, alike.workspaces]
    rfl
  | list userId query =>
    obtain rfl : userId.uuid = u := own
    rw [serve_list, serve_list]
    simp only [select, accepts_of, alike.own]
  | unreadCount userId =>
    obtain rfl : userId.uuid = u := own
    rw [serve_unreadCount, serve_unreadCount, unread_of, unread_of, alike.own]
  | markAllRead userId =>
    obtain rfl : userId.uuid = u := own
    rw [serve_markAllRead, serve_markAllRead, unread_of, unread_of, alike.own]
  | markRead userId id =>
    obtain rfl : userId.uuid = u := own
    rw [markRead_answer hs.ids, markRead_answer ht.ids, alike.own]

/-! ### Every run -/

theorem start_tidy (users workspaces : List Uuid) (generated : Generated) :
    (Tables.start users workspaces generated).Tidy where
  ids := List.nodup_nil
  issued _ h := absurd h List.not_mem_nil
  paired _ h := absurd h List.not_mem_nil

theorem serveAll_tidy {rs : List (Request × (Nat → Env))} (tidy : s.Tidy) (served : (system pg).ServesAll rs s) :
    ((system pg).serveAll rs s).2.Tidy :=
  System.serveAll_keeps (fun tidy served => (serve_does tidy served).tidy tidy) tidy served

/-- What is on record of a run is what the tables say. -/
theorem serveAll_ledger {rs : List (Request × (Nat → Env))} {users workspaces : List Uuid} {generated : Generated}
    (served : (system pg).ServesAll rs (.start users workspaces generated)) :
    ((system pg).serveAll rs (.start users workspaces generated)).2.ledger =
      ledger (history pg rs (.start users workspaces generated)) := by
  have hstep : ∀ {r env s os}, s.Tidy ∧ s.ledger = ledger os → (system pg).Serves r env s →
      ((system pg).serve r env s).2.Tidy ∧ ((system pg).serve r env s).2.ledger =
        ledger (os ++ [(r, ((system pg).serve r env s).1)]) := by
    rintro r env s os ⟨tidy, hledger⟩ served
    have does := serve_does tidy served
    refine ⟨does.tidy tidy, ?_⟩
    rw [does.ledger tidy, hledger, ledger, ledger, List.foldl_append]
    rfl
  have hstart : (Tables.start users workspaces generated).Tidy ∧
      (Tables.start users workspaces generated).ledger = ledger [] := ⟨start_tidy users workspaces generated, rfl⟩
  exact (System.serveAll_observe _ (P := fun s os => s.Tidy ∧ s.ledger = ledger os) hstart served.throughout hstep).2

/-- Those that were created are those that are unread and those that were marked. -/
theorem unread_ledger (s : Tables) (u : Uuid) :
    s.unread u + s.ledger.marked.countP (·.recipientId = u) = s.ledger.created.countP (·.recipientId = u) := by
  have hunread : s.unread u = (s.notifications.filter fun r => !r.isRead).countP (·.recipientId = u) := by
    rw [Tables.unread, List.countP_filter]
  have hmarked : s.ledger.marked.countP (·.recipientId = u) = (s.notifications.filter (·.isRead)).countP (·.recipientId = u) :=
    List.countP_map ..
  have hcreated : s.ledger.created.countP (·.recipientId = u) = s.notifications.countP (·.recipientId = u) :=
    List.countP_map ..
  rw [hunread, hmarked, hcreated, Nat.add_comm, ← List.countP_eq_countP_filter_add]

theorem mark_unread (s : Tables) (userId : UuidText) (readAt : Date) :
    (s.mark (Request.marks (.markAllRead userId)) readAt).unread userId.uuid = 0 := by
  refine List.countP_eq_zero.mpr fun x hx hunread => ?_
  obtain ⟨hrecipient, hunread⟩ := Bool.and_eq_true_iff.mp hunread
  obtain ⟨y, hy, rfl⟩ := List.mem_map.mp hx
  by_cases hp : (Request.marks (.markAllRead userId) y.entry && !y.isRead) = true
  · rw [if_pos hp] at hunread
    exact absurd hunread Bool.false_ne_true
  · rw [if_neg hp] at hunread hrecipient
    exact hp (Bool.and_eq_true_iff.mpr ⟨hrecipient, hunread⟩)

/-- What holds of the inboxes when calls are on record. -/
structure Laws (pg : Postgres) (s : Tables) (l : Ledger) : Prop where
  /-- `isRead` is set together with `readAt`. -/
  paired : ∀ n ∈ s.notifications, n.isRead = true ↔ n.readAt.isSome = true
  /-- A notification that is read stays as it is, the one with its id. -/
  stays : ∀ later, (system pg).ServesAll later s → ∀ n ∈ s.notifications, ∀ readAt, n.readAt = some readAt →
    n ∈ ((system pg).serveAll later s).2.notifications ∧
      ∀ x ∈ ((system pg).serveAll later s).2.notifications, x.id = n.id → x = n
  /-- Each notification that was created is on record once. -/
  distinct : (l.created.map Entry.id).Nodup
  /-- The unread ones are those that were created, less those of them that were marked read. -/
  counted : ∀ userId env, ∃ n, ((system pg).serve (.unreadCount userId) env s).1 = .ok (.count n) ∧
    n + l.marked.countP (·.recipientId = userId.uuid) = l.created.countP (·.recipientId = userId.uuid)
  /-- Marking all read tells how many were unread, and leaves none. -/
  cleared : ∀ userId env, ∃ n, (∀ env', ((system pg).serve (.unreadCount userId) env' s).1 = .ok (.count n)) ∧
    ((system pg).serve (.markAllRead userId) env s).1 = .ok (.count n) ∧
    ∀ env', ((system pg).serve (.unreadCount userId) env' ((system pg).serve (.markAllRead userId) env s).2).1 =
      .ok (.count 0)
  /-- A call of one user leaves the notifications of another as they are; one may be created. -/
  untouched : ∀ r u env, r.By u → (system pg).Serves r env s → ∀ v, v ≠ u →
    ((system pg).serve r env s).2.of v = s.of v ∨
      ∃ input n, r = .create input ∧ input.recipientId.uuid = v ∧ ((system pg).serve r env s).2.of v = s.of v ++ [n]
  /-- What a call of one user answers does not depend on the notifications of others. -/
  unrevealed : ∀ r u env t, r.By u → (system pg).Serves r env s → (system pg).Serves r env t → t.Tidy → s.Alike u t →
    ((system pg).serve r env s).1 = ((system pg).serve r env t).1

/-- In every run of calls one after another, by whichever users, the inboxes keep their laws. -/
theorem inbox_laws (pg : Postgres) (users workspaces : List Uuid) (generated : Generated)
    (rs : List (Request × (Nat → Env))) (served : (system pg).ServesAll rs (.start users workspaces generated)) :
    Laws pg ((system pg).serveAll rs (.start users workspaces generated)).2
      (ledger (history pg rs (.start users workspaces generated))) := by
  have tidy := serveAll_tidy (start_tidy users workspaces generated) served
  rw [← serveAll_ledger served]
  generalize ((system pg).serveAll rs (.start users workspaces generated)).2 = s at tidy
  refine ⟨tidy.paired, ?_, ?_, ?_, ?_, ?_, ?_⟩
  · intro later hlater n hn readAt hread
    have hread : n.isRead = true := (tidy.paired n hn).mpr (hread ▸ rfl)
    have hkept := System.serveAll_keeps (P := fun s : Tables => s.Tidy ∧ n ∈ s.notifications)
      (fun {r env s} ⟨tidy, hn⟩ served => ⟨(serve_does tidy served).tidy tidy, (serve_does tidy served).keeps_read hn hread⟩)
      ⟨tidy, hn⟩ hlater
    exact ⟨hkept.2, fun x hx hid => Table.eq_of_key hkept.1.ids hx hkept.2 hid⟩
  · rw [Tables.ledger, List.map_map]
    exact tidy.ids
  · exact fun userId env => ⟨_, congrArg Prod.fst (serve_unreadCount pg s env), unread_ledger s userId.uuid⟩
  · refine fun userId env => ⟨s.unread userId.uuid, fun env' => congrArg Prod.fst (serve_unreadCount pg s env'),
      congrArg Prod.fst (serve_markAllRead pg s env), fun env' => ?_⟩
    rw [serve_unreadCount, serve_markAllRead, mark_unread]
  · exact fun r u env own served v hv => (serve_does tidy served).others own hv
  · exact fun r u env t own served served' ht alike => alike_answer alike tidy ht own served served'

end

/-! ### Two inboxes -/

/-- The `n`-th call of a run. -/
def nth (n : Nat) (r : Request) : Request × (Nat → Env) := (r, fun i => { envAt (10 * n + i) with now := n })

/-- Somebody is assigned a task. -/
def assignedTo (userId : Uuid) : Request :=
  .create { recipientId := Uuid.text userId, type := .TASK_ASSIGNED, title := "You were assigned a task" }

/-- Users 8 and 9 are told of two tasks each. User 9 tries to mark a notification of user 8 read, who then does so, twice;
    user 9 marks all of his own read. -/
def twoInboxes : List (Request × (Nat → Env)) :=
  [nth 0 (assignedTo 8), nth 1 (assignedTo 8), nth 2 (assignedTo 9), nth 3 (assignedTo 9),
   nth 4 (.markRead (Uuid.text 9) (Uuid.text 101)), nth 5 (.markRead (Uuid.text 8) (Uuid.text 101)),
   nth 6 (.markRead (Uuid.text 8) (Uuid.text 101)), nth 7 (.markAllRead (Uuid.text 9))]

theorem inbox_laws_two : Laws .strict ((system .strict).serveAll twoInboxes (.start [8, 9] [] ⟨[], []⟩)).2
    ⟨[⟨101, 8⟩, ⟨111, 8⟩, ⟨121, 9⟩, ⟨131, 9⟩], [⟨101, 8⟩, ⟨121, 9⟩, ⟨131, 9⟩]⟩ := by
  have hledger : ledger (history .strict twoInboxes (.start [8, 9] [] ⟨[], []⟩)) =
      ⟨[⟨101, 8⟩, ⟨111, 8⟩, ⟨121, 9⟩, ⟨131, 9⟩], [⟨101, 8⟩, ⟨121, 9⟩, ⟨131, 9⟩]⟩ := by decide +kernel
  exact hledger ▸ inbox_laws .strict [8, 9] [] ⟨[], []⟩ twoInboxes (by decide +kernel)

end TaskPlatform.Notifications

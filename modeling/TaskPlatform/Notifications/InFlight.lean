import Mathlib.Data.Set.BooleanAlgebra
import Mathlib.Order.CompletePartialOrder
import TaskPlatform.Library.Kept
import TaskPlatform.Library.Log
import TaskPlatform.Notifications.Inbox

/-! The inboxes while calls are in flight: what interleaved calls of `NotificationsService` never undo, and what a call
    that has returned has done or was told. -/

namespace TaskPlatform.Notifications
open Effects

/-! ### Facts -/

/-- A notification less what marking it changes. -/
def NotificationRow.content (r : NotificationRow) : NotificationRow := { r with isRead := false, readAt := none }

/-- What stays so once it is so: that there is a notification with this content, that it is read. -/
inductive Fact where
  | content (r : NotificationRow)
  | read (e : Entry)

abbrev Facts := Set Fact

def Tables.facts (s : Tables) : Facts
  | .content r => ∃ x ∈ s.notifications, x.content = r
  | .read e => ∃ x ∈ s.notifications, x.entry = e ∧ x.isRead = true

section
variable {s : Tables} {x y r : NotificationRow} {e : Entry} {env : Env} {readAt : Date} {k k' : Facts}

@[simp] theorem content_read : (x.read readAt).content = x.content := rfl

@[simp] theorem entry_read : (x.read readAt).entry = x.entry := rfl

theorem entry_of_content (h : x.content = y.content) : x.entry = y.entry :=
  congrArg (fun r => r.entry) h

/-- Marked read, rows with the same content are the same. -/
theorem read_of_content (h : x.content = y.content) : x.read readAt = y.read readAt :=
  congrArg (fun r => r.read readAt) h

/-- Marked read, a loaded notification is that of the row marked read. -/
theorem toEntity_read : ({ x.toEntity with isRead := true, readAt := some readAt } : Notification) = (x.read readAt).toEntity :=
  rfl

theorem mem_content : .content r ∈ s.facts ↔ ∃ x ∈ s.notifications, x.content = r := Iff.rfl

theorem mem_read : .read e ∈ s.facts ↔ ∃ x ∈ s.notifications, x.entry = e ∧ x.isRead = true := Iff.rfl

@[simp] theorem facts_spend : (s.spend env).facts = s.facts := by
  funext f
  cases f <;> rfl

theorem Tables.Tidy.spend (tidy : s.Tidy) (env : Env) : (s.spend env).Tidy where
  ids := tidy.ids
  issued x hx := List.mem_cons_of_mem _ (tidy.issued x hx)
  paired := tidy.paired

/-- A new id is not in the inboxes. -/
theorem Tables.Tidy.unissued (tidy : s.Tidy) (new : s.generated.admits env = true) :
    env.uuid ∉ s.notifications.map NotificationRow.id := fun h => by
  obtain ⟨x, hx, hid⟩ := List.mem_map.mp h
  exact (Generated.admits_iff.mp new).1 (hid ▸ tidy.issued x hx)

/-! ### What a write keeps -/

/-- Rows of which each is marked read or stays as it is. -/
theorem Tables.Tidy.marking (tidy : s.Tidy) {f : NotificationRow → NotificationRow}
    (hf : ∀ x ∈ s.notifications, f x = x ∨ ∃ readAt, f x = x.read readAt) :
    Tables.Tidy { s with notifications := s.notifications.map f } ∧
      s.facts ⊆ Tables.facts { s with notifications := s.notifications.map f } := by
  have hcontent : ∀ x ∈ s.notifications, (f x).content = x.content := fun x hx => by
    rcases hf x hx with h | ⟨readAt, h⟩ <;> simp [h]
  have hread : ∀ x ∈ s.notifications, x.isRead = true → (f x).isRead = true := fun x hx hread => by
    rcases hf x hx with h | ⟨readAt, h⟩ <;> simp [h, hread, NotificationRow.read]
  have hids : (s.notifications.map f).map NotificationRow.id = s.notifications.map NotificationRow.id := by
    rw [List.map_map]
    exact List.map_congr_left fun x hx => show (f x).content.id = x.content.id by rw [hcontent x hx]
  refine ⟨⟨hids ▸ tidy.ids, fun x hx => ?_, fun x hx => ?_⟩, fun fact hfact => ?_⟩
  · obtain ⟨y, hy, rfl⟩ := List.mem_map.mp hx
    exact (show (f y).content.id = y.content.id by rw [hcontent y hy]) ▸ tidy.issued y hy
  · obtain ⟨y, hy, rfl⟩ := List.mem_map.mp hx
    rcases hf y hy with h | ⟨readAt, h⟩
    · exact h.symm ▸ tidy.paired y hy
    · simp [h, NotificationRow.read]
  · cases fact with
    | content r =>
      obtain ⟨x, hx, rfl⟩ := mem_content.mp hfact
      exact mem_content.mpr ⟨f x, List.mem_map_of_mem hx, hcontent x hx⟩
    | read e =>
      obtain ⟨x, hx, rfl, hxread⟩ := mem_read.mp hfact
      exact mem_read.mpr ⟨f x, List.mem_map_of_mem hx, entry_of_content (hcontent x hx), hread x hx hxread⟩

/-- A loaded notification is saved as read: the row it was loaded from is marked, also where that is read by then. -/
theorem save_read (tidy : s.Tidy) (hx : x ∈ s.notifications) (readAt : Date) :
    s.saveNotification (x.read readAt).toEntity =
      .ok { s with notifications := Table.replace NotificationRow.id (x.read readAt) s.notifications } := by
  obtain ⟨r, hr, hid, hrecipient, hworkspace, hover⟩ := toRow_read x readAt
  rw [toEntity_read] at hr
  have hfind : s.notifications.find? (fun y => decide (y.id = r.id)) = some x := hid ▸ Table.find?_key tidy.ids hx
  have hcheck : s.checkNotification (some x) r = .ok () := by
    rw [Tables.checkNotification, Option.map_some, Option.bind_some, hrecipient, hworkspace, reference_same,
      reference_same]
    rfl
  have hupsert : upsert NotificationRow.id r.over r s.notifications =
      Table.replace NotificationRow.id (x.read readAt) s.notifications := by
    simp only [upsert, hfind, hover]
  simp only [Tables.saveNotification, hr]
  rw [hfind, hcheck, hupsert]
  rfl

/-- Saving marks the one row of its id. -/
theorem Tables.Tidy.saving (tidy : s.Tidy) (hx : x ∈ s.notifications) (readAt : Date) :
    Tables.Tidy { s with notifications := Table.replace NotificationRow.id (x.read readAt) s.notifications } ∧
      s.facts ⊆ Tables.facts { s with notifications := Table.replace NotificationRow.id (x.read readAt) s.notifications } := by
  refine tidy.marking (f := fun y => if y.id = (x.read readAt).id then x.read readAt else y) fun y hy => ?_
  by_cases hid : y.id = x.id
  · obtain rfl := Table.eq_of_key tidy.ids hy hx hid
    exact Or.inr ⟨readAt, if_pos rfl⟩
  · exact Or.inl (if_neg hid)

/-! ### The contract -/

/-- What a request may call. -/
def allows (k : Facts) (r : Request) : Call → Prop
  | .insertNotification input => r = .create input
  | .saveNotification n =>
    ∃ (x : NotificationRow) (readAt : Date), .content x.content ∈ k ∧ r.marks x.entry = true ∧ n = (x.read readAt).toEntity
  | .updateUnread u _ => ∃ userId : UuidText, r = .markAllRead userId ∧ u = userId.uuid
  | _ => True

/-- What a reply tells. -/
def tells (k : Facts) : (c : Call) → c.Reply → Prop
  | .insertNotification input, n => ∃ env, n = input.saved env ∧ .content (input.toRow env) ∈ k
  | .findNotification id u, some n =>
    ∃ x : NotificationRow, n = x.toEntity ∧ x.entry = ⟨id, u⟩ ∧ .content x.content ∈ k ∧ (x.isRead = true → .read x.entry ∈ k)
  | .saveNotification n, _ => .read n.toRow.entry ∈ k
  | .updateUnread u _, _ => ∀ x, .content x ∈ k → x.recipientId = u → .read x.entry ∈ k
  | _, _ => True

/-- The contract of a request with the inboxes. -/
def contract (r : Request) : Contract interface Facts where
  pre k := allows k r
  post := tells
  alike _ _ _ := False
  grows {k k' c} hk h := by
    cases c with
    | saveNotification n =>
      obtain ⟨x, readAt, hx, hmarks, hn⟩ := h
      exact ⟨x, readAt, hk hx, hmarks, hn⟩
    | _ => exact h

/-- What a request that returns has done. -/
def Request.Done (k : Facts) : Request → Response → Prop
  | .create input, .notification n => ∃ env, n = input.saved env ∧ .content (input.toRow env) ∈ k
  | .markRead userId id, .notification _ => .read ⟨id.uuid, userId.uuid⟩ ∈ k
  | _, _ => True

theorem Request.Done.grow {r : Request} {a : Response} (h : r.Done k a) (hk : k ≤ k') : r.Done k' a := by
  cases r <;> cases a <;> first | trivial | skip
  · obtain ⟨env, hn, hcontent⟩ := h
    exact ⟨env, hn, hk hcontent⟩
  · exact hk h

/-- What is marked read in one go: all that there was to mark. -/
def Request.Clears (k₀ k : Facts) (r : Request) : Prop :=
  ∀ userId, r = .markAllRead userId → ∀ x, .content x ∈ k₀ → x.recipientId = userId.uuid → .read x.entry ∈ k

/-! ### The programs keep it -/

variable {k₀ : Facts}

theorem markRead_meets (userId id : UuidText) : (NotificationsService.markRead userId id).Meets
    (contract (.markRead userId id)) (fun k _ => .read ⟨id.uuid, userId.uuid⟩ ∈ k) k := by
  refine Prog.Meets.perform_bind trivial (fun _ _ h => h.elim) fun k₁ _ a ha => ?_
  cases a with
  | none => trivial
  | some n =>
    obtain ⟨x, rfl, hentry, hcontent, hread⟩ := ha
    simp only
    split
    · next h => exact hentry ▸ hread h
    · intro env
      refine Prog.Meets.perform_bind ⟨x, env.now, hcontent, ?_, rfl⟩ (fun _ _ h => h.elim) fun k₂ _ _ htold => ?_
      · simp [Request.marks, hentry]
      · have htold : .read x.entry ∈ k₂ := htold
        exact hentry ▸ htold

theorem program_meets (r : Request) (k : Facts) : (program r).Meets (contract r) (fun k a => r.Done k a) k := by
  cases r with
  | create input =>
    exact Prog.Meets.perform_bind rfl (fun _ _ h => h.elim) fun _ _ _ htold => htold
  | markRead userId id => exact (markRead_meets userId id).bind fun _ _ _ hread => hread
  | markAllRead userId =>
    intro env
    exact Prog.Meets.perform_bind ⟨userId, rfl, rfl⟩ (fun _ _ h => h.elim) fun _ _ _ _ => trivial
  | list userId query =>
    have hlist : (NotificationsService.list userId query).Meets (contract (.list userId query)) (fun _ _ => True) k :=
      Prog.Meets.perform_bind trivial (fun _ _ h => h.elim) fun _ _ _ _ => trivial
    exact hlist.bind fun _ _ _ _ => trivial
  | unreadCount userId => exact Prog.Meets.perform_bind trivial (fun _ _ h => h.elim) fun _ _ _ _ => trivial

/-- A request that starts when `k₀` is known clears what was known of its user's notifications. -/
theorem program_clears (r : Request) (hk : k₀ ≤ k) :
    (program r).Meets (contract r) (fun k _ => r.Clears k₀ k) k := by
  cases r with
  | markAllRead userId =>
    intro env
    refine Prog.Meets.perform_bind ⟨userId, rfl, rfl⟩ (fun _ _ h => h.elim) fun k' hk' _ htold => ?_
    rintro _ ⟨⟩ x hx hrecipient
    exact htold x (hk' (hk hx)) hrecipient
  | _ => exact (program_meets _ k).mono fun _ _ _ _ => by rintro _ ⟨⟩

/-! ### Every call keeps it -/

variable {pg : Postgres} {c : Call}

variable (pg) in
/-- What the insert leaves and tells. -/
theorem keeps_insert {input : CreateNotificationInput} (tidy : s.Tidy) (new : s.generated.admits env = true) :
    let done := exec pg env (.insertNotification input) (s.spend env)
    done.2.Tidy ∧ s.facts ≤ done.2.facts ∧ ∀ a, done.1 = .ok a → tells done.2.facts (.insertNotification input) a := by
  rcases insert_cases pg (s := s.spend env) (tidy.unissued new) input with hexec | ⟨e, hexec⟩ <;> rw [hexec]
  · have hdoes : Does s (.create input) (.ok (.notification (input.saved env)))
        { s with notifications := s.notifications ++ [input.toRow env], generated := s.generated.spend env } :=
      .adds rfl rfl (Generated.admits_iff.mp new).1 (List.Subset.refl _)
    refine ⟨hdoes.tidy tidy, fun fact hfact => ?_, fun a ha => ?_⟩
    · cases fact with
      | content r =>
        obtain ⟨x, hx, hr⟩ := mem_content.mp hfact
        exact mem_content.mpr ⟨x, List.mem_append_left _ hx, hr⟩
      | read e =>
        obtain ⟨x, hx, he⟩ := mem_read.mp hfact
        exact mem_read.mpr ⟨x, List.mem_append_left _ hx, he⟩
    · obtain rfl := Except.ok.inj ha
      exact ⟨env, rfl, mem_content.mpr ⟨_, List.mem_append_right _ (List.mem_singleton_self _), rfl⟩⟩
  · exact ⟨tidy.spend env, facts_spend.ge, by rintro _ ⟨⟩⟩

variable (pg env readAt) in
/-- What marking one notification leaves and tells, whether it is read by then or not. -/
theorem keeps_save {x : NotificationRow} (tidy : s.Tidy) (hx : .content x.content ∈ s.facts) :
    let done := exec pg env (.saveNotification (x.read readAt).toEntity) (s.spend env)
    done.2.Tidy ∧ s.facts ≤ done.2.facts ∧ .read x.entry ∈ done.2.facts := by
  obtain ⟨y, hy, hcontent⟩ := mem_content.mp hx
  obtain ⟨htidy, hle⟩ := (tidy.spend env).saving hy readAt
  rw [← read_of_content hcontent, exec, save_read (tidy.spend env) hy readAt]
  have hmem : y.read readAt ∈ Table.replace NotificationRow.id (y.read readAt) s.notifications :=
    (Table.mem_replace (x := y.read readAt) ⟨y, hy, rfl⟩).mpr (Or.inl rfl)
  exact ⟨htidy, facts_spend.ge.trans hle, mem_read.mpr ⟨y.read readAt, hmem, entry_of_content hcontent, rfl⟩⟩

variable (pg env readAt) in
/-- What marking all the notifications of a user leaves and tells. -/
theorem keeps_updateUnread {u : Uuid} (tidy : s.Tidy) :
    let done := exec pg env (.updateUnread u readAt) (s.spend env)
    done.2.Tidy ∧ s.facts ≤ done.2.facts ∧ ∀ a, done.1 = .ok a → tells done.2.facts (.updateUnread u readAt) a := by
  obtain ⟨htidy, hle⟩ := (tidy.spend env).marking
    (f := fun x => if x.recipientId = u && !x.isRead then x.read readAt else x) fun x _ => by
      split
      · exact Or.inr ⟨readAt, rfl⟩
      · exact Or.inl rfl
  refine ⟨htidy, facts_spend.ge.trans hle, fun _ _ x hx hrecipient => ?_⟩
  obtain ⟨y, hy, rfl⟩ := mem_content.mp hx
  refine mem_read.mpr ⟨y, hy, rfl, ?_⟩
  -- The row was read before, or it is one of those that are marked now.
  obtain ⟨z, -, rfl⟩ := List.mem_map.mp hy
  split at hrecipient
  · next h => rw [if_pos h]
  · next h =>
    rw [if_neg h]
    have hz : z.recipientId = u := hrecipient
    simpa [hz] using h

variable (pg) in
theorem keeps : (system pg).Keeps Tables.facts Tables.Tidy contract where
  spend tidy _ := ⟨tidy.spend _, facts_spend.ge⟩
  call {s env r c} tidy new hallows := by
    have le : s.facts ≤ (s.spend env).facts := facts_spend.ge
    cases c with
    | insertNotification input => exact keeps_insert pg tidy new
    | saveNotification n =>
      obtain ⟨x, readAt, hx, -, rfl⟩ := hallows
      obtain ⟨htidy, hle, hread⟩ := keeps_save env readAt pg tidy hx
      exact ⟨htidy, hle, fun _ _ => hread⟩
    | updateUnread u readAt => exact keeps_updateUnread env readAt pg tidy
    | findNotification id u =>
      refine ⟨tidy.spend env, le, fun a ha => ?_⟩
      cases a with
      | none => trivial
      | some n =>
        obtain ⟨x, hx, rfl⟩ := Option.map_eq_some_iff.mp (Except.ok.inj ha)
        have hmem := List.mem_of_find?_eq_some hx
        have hentry : x.id = id ∧ x.recipientId = u := by simpa using List.find?_some hx
        refine ⟨x, rfl, ?_, mem_content.mpr ⟨x, hmem, rfl⟩, fun hread => mem_read.mpr ⟨x, hmem, rfl, hread⟩⟩
        rw [NotificationRow.entry, hentry.1, hentry.2]
    | listNotifications f cursor take => exact ⟨tidy.spend env, le, fun _ _ => trivial⟩
    | countUnread u => exact ⟨tidy.spend env, le, fun _ _ => trivial⟩

/-! ### Where the rows come from -/

/-- The request creates the notification. -/
def Request.Creates (r : Request) (x : NotificationRow) : Prop :=
  ∃ input env, r = .create input ∧ x.content = input.toRow env

/-- Each notification was created by a call that was made, and a read one was marked by one. -/
def Grounded (c : Config interface Tables Request Response) : Prop :=
  ∀ x ∈ c.shared.notifications, (∃ t ∈ c.threads, t.request.Creates x) ∧
    (x.isRead = true → ∃ t ∈ c.threads, t.request.marks x.entry = true)

/-- A row after a call was there before, with at most a mark more that the request may set, or is the one inserted. -/
theorem row_after {r : Request} (tidy : s.Tidy) (new : s.generated.admits env = true) (h : allows s.facts r c)
    (hx : x ∈ (exec pg env c (s.spend env)).2.notifications) :
    (∃ y ∈ s.notifications, x.content = y.content ∧ (x.isRead = true → y.isRead = true ∨ r.marks x.entry = true)) ∨
      ∃ input, r = .create input ∧ x = input.toRow env := by
  have same : x ∈ s.notifications → (∃ y ∈ s.notifications, x.content = y.content ∧
      (x.isRead = true → y.isRead = true ∨ r.marks x.entry = true)) ∨ ∃ input, r = .create input ∧ x = input.toRow env :=
    fun hx => Or.inl ⟨x, hx, rfl, Or.inl⟩
  cases c with
  | insertNotification input =>
    rcases insert_cases pg (s := s.spend env) (tidy.unissued new) input with hexec | ⟨e, hexec⟩ <;> rw [hexec] at hx
    · rcases List.mem_append.mp hx with hx | hx
      · exact same hx
      · exact Or.inr ⟨input, h, List.mem_singleton.mp hx⟩
    · exact same hx
  | saveNotification n =>
    obtain ⟨z, readAt, hz, hmarks, rfl⟩ := h
    obtain ⟨y, hy, hcontent⟩ := mem_content.mp hz
    rw [← read_of_content hcontent, exec, save_read (tidy.spend env) hy readAt] at hx
    rcases (Table.mem_replace (x := y.read readAt) ⟨y, hy, rfl⟩).mp hx with rfl | ⟨hx, -⟩
    · exact Or.inl ⟨y, hy, rfl, fun _ => Or.inr (by rwa [entry_read, entry_of_content hcontent])⟩
    · exact same hx
  | updateUnread u readAt =>
    obtain ⟨userId, rfl, rfl⟩ := h
    obtain ⟨y, hy, rfl⟩ := List.mem_map.mp hx
    by_cases hp : (y.recipientId = userId.uuid && !y.isRead) = true
    · rw [if_pos hp]
      exact Or.inl ⟨y, hy, rfl, fun _ => Or.inr (Bool.and_eq_true_iff.mp hp).1⟩
    · rw [if_neg hp]
      exact Or.inl ⟨y, hy, rfl, Or.inl⟩
  | findNotification | listNotifications | countUnread => exact same hx

/-! ### Every run -/

variable {d : Config interface Tables Request Response} {users workspaces : List Uuid} {generated : Generated}

/-- What is known of the inboxes and of every call in flight, in every run. -/
theorem reach_known (hr : (system pg).Reach (fun _ _ => True) (.initial (.start users workspaces generated)) d) :
    d.shared.Tidy ∧ ∀ t ∈ d.threads, System.Keeps.Meets Tables.facts contract (fun r k a => r.Done k a) d.shared t :=
  (keeps pg).reach program_meets (fun hk h => h.grow hk) (start_tidy users workspaces generated) hr

theorem reach_grounded (hr : (system pg).Reach (fun _ _ => True) (.initial (.start users workspaces generated)) d) :
    Grounded d := by
  refine hr.invariant_with reach_known (fun _ hx => absurd hx List.not_mem_nil) ?_
  rintro c d m ⟨tidy, hmeets⟩ - h - hs
  have old : ∀ {x y : NotificationRow}, y ∈ c.shared.notifications → x.content = y.content →
      (x.isRead = true → y.isRead = true ∨ ∃ t ∈ c.threads, t.request.marks x.entry = true) →
      (∃ t ∈ d.threads, t.request.Creates x) ∧ (x.isRead = true → ∃ t ∈ d.threads, t.request.marks x.entry = true) := by
    intro x y hy hcontent hread
    obtain ⟨hcreated, hmarked⟩ := h y hy
    refine ⟨System.step_keeps_request hs (P := fun r => r.Creates x) ?_,
      fun hx => System.step_keeps_request hs (P := fun r => r.marks x.entry = true) ?_⟩
    · obtain ⟨t, ht, input, env, hrequest, hcreated⟩ := hcreated
      exact ⟨t, ht, input, env, hrequest, hcontent.trans hcreated⟩
    rcases hread hx with hread | hmarks
    · exact entry_of_content hcontent ▸ hmarked hread
    · exact hmarks
  intro x hx
  rcases System.Keeps.moved hmeets hs with heq | ⟨env, heq⟩ | ⟨t, ht, op, env, new, hallows, heq⟩
  · exact old (heq ▸ hx) rfl Or.inl
  · rw [heq] at hx
    exact old hx rfl Or.inl
  · rw [heq] at hx
    rcases row_after tidy new hallows hx with ⟨y, hy, hcontent, hread⟩ | ⟨input, hrequest, rfl⟩
    · exact old hy hcontent fun hx => (hread hx).imp id fun hmarks => ⟨t, ht, hmarks⟩
    · obtain ⟨u, hu, hreq, -⟩ := System.step_keeps_thread hs ht
      exact ⟨⟨u, hu, input, env, hreq.trans hrequest, rfl⟩, fun hread => absurd hread Bool.false_ne_true⟩

/-! ### What a call is told -/

/-- How a request ends that was told this by the call its answer rests on. -/
inductive Decides : Request → Said interface → Except Err Response → Prop
  | create {input : CreateNotificationInput} {a : Except Err Notification} :
      Decides (.create input) ⟨.insertNotification input, a⟩ (a.map .notification)
  | list {userId : UuidText} {query : ListNotificationsQueryDto} {a : Except Err (List Notification)} :
      Decides (.list userId query) ⟨.listNotifications ⟨userId.uuid, query.unread⟩ query.decoded (query.limitOr20 + 1), a⟩
        (a.map fun rows => .page (buildPage rows query.limitOr20 fun n => encodeCursor n.createdAt n.id))
  | unreadCount {userId : UuidText} {a : Except Err Nat} :
      Decides (.unreadCount userId) ⟨.countUnread userId.uuid, a⟩ (a.map .count)
  | markAllRead {userId : UuidText} {readAt : Date} {a : Except Err Nat} :
      Decides (.markAllRead userId) ⟨.updateUnread userId.uuid readAt, a⟩ (a.map .count)
  | absent {userId id : UuidText} {a : Except Err (Option Notification)} (ha : a = .ok none) :
      Decides (.markRead userId id) ⟨.findNotification id.uuid userId.uuid, a⟩ (.error (.notFound "Notification not found"))
  | found {userId id : UuidText} {a : Except Err (Option Notification)} {n : Notification} (now : Date)
      (ha : a = .ok (some n)) :
      Decides (.markRead userId id) ⟨.findNotification id.uuid userId.uuid, a⟩
        (.ok (.notification (if n.isRead then n else { n with isRead := true, readAt := some now })))
  | unfound {userId id : UuidText} {a : Except Err (Option Notification)} {e : Err} (ha : a = .error e) :
      Decides (.markRead userId id) ⟨.findNotification id.uuid userId.uuid, a⟩ (.error e)
  | unsaved {userId id : UuidText} {n : Notification} {a : Except Err Notification} {e : Err} (ha : a = .error e) :
      Decides (.markRead userId id) ⟨.saveNotification n, a⟩ (.error e)

/-- How a request has ended: in an outage, or as it was told. -/
def Request.Told (r : Request) (log : List (Said interface)) (a : Except Err Response) : Prop :=
  a = .error .unavailable ∨ ∃ x ∈ log, Decides r x a

/-- A request of one call is told how it ends by that. -/
theorem told_of_call {r : Request} {f : c.Reply → Response}
    (decides : ∀ a : Except Err c.Reply, Decides r ⟨c, a⟩ (a.map f)) :
    ((NotificationsService.perform c).bind fun a => .ret (f a)).Yields r.Told [] :=
  Prog.Yields.perform_bind (fun a => Or.inr ⟨_, List.mem_cons_self .., decides (.ok a)⟩)
    fun e => Or.inr ⟨_, List.mem_cons_self .., decides (.error e)⟩

theorem markRead_told (userId id : UuidText) : ((NotificationsService.markRead userId id).bind fun n =>
    .ret (Response.notification n)).Yields (Request.markRead userId id).Told [] := by
  rw [NotificationsService.markRead, Prog.bind_eq, Prog.bind_assoc]
  refine Prog.Yields.perform_bind (fun found => ?_) fun e => Or.inr ⟨_, List.mem_cons_self .., .unfound rfl⟩
  cases found with
  | none => exact Or.inr ⟨_, List.mem_cons_self .., .absent rfl⟩
  | some n =>
    cases hread : n.isRead with
    | true =>
      have hdecides : Decides (.markRead userId id) ⟨.findNotification id.uuid userId.uuid, .ok (some n)⟩ _ := .found 0 rfl
      simp only [hread, if_true] at hdecides ⊢
      exact Or.inr ⟨_, List.mem_cons_self .., hdecides⟩
    | false =>
      simp only [hread, Bool.false_eq_true, if_false, Prog.bind_eq, Prog.read_bind, Prog.ask_bind, Prog.bind_assoc]
      intro env
      refine Prog.Yields.perform_bind (fun _ => ?_) fun e => Or.inr ⟨_, List.mem_cons_self .., .unsaved rfl⟩
      have hdecides : Decides (.markRead userId id) ⟨.findNotification id.uuid userId.uuid, .ok (some n)⟩ _ :=
        .found env.now rfl
      simp only [hread, Bool.false_eq_true, if_false] at hdecides
      exact Or.inr ⟨_, List.mem_cons_of_mem _ (List.mem_cons_self ..), hdecides⟩

theorem program_told (r : Request) : (program r).Yields r.Told [] := by
  cases r with
  | create input => exact told_of_call fun _ => .create
  | list userId query =>
    have hlist : program (.list userId query) = (NotificationsService.perform
        (.listNotifications ⟨userId.uuid, query.unread⟩ query.decoded (query.limitOr20 + 1))).bind fun rows =>
          .ret (.page (buildPage rows query.limitOr20 fun n => encodeCursor n.createdAt n.id)) := by
      change Prog.bind (Prog.bind _ _) _ = _
      rw [Prog.bind_assoc]
      rfl
    rw [hlist]
    exact told_of_call fun _ => .list
  | unreadCount userId => exact told_of_call fun _ => .unreadCount
  | markRead userId id => exact markRead_told userId id
  | markAllRead userId => exact fun env => told_of_call fun _ => .markAllRead

/-! ### What a call alone would have answered -/

/-- The environments of a call alone that finds the clock and the ids of this one. -/
def steady (env : Env) : Nat → Env := fun _ => env

/-- How a request would end that is served alone in the state. -/
def Request.Answers (pg : Postgres) (r : Request) (s : Tables) (a : Except Err Response) : Prop :=
  ∃ env, ((system pg).serve r env s).1 = a

/-- What a call tells a request in a state, the request would be told there alone. -/
theorem Decides.answers {r : Request} {a : Except Err Response} (tidy : s.Tidy) (new : s.generated.admits env = true)
    (hallows : allows s.facts r c) (h : Decides r ⟨c, (exec pg env c (s.spend env)).1⟩ a) : r.Answers pg s a := by
  generalize hanswer : (exec pg env c (s.spend env)).1 = answer at h
  cases h with
  | @create input =>
    refine ⟨steady env, ?_⟩
    rw [serve_create, ← hanswer]
    refine congrArg (Except.map Response.notification) ?_
    exact (insert_answer pg (s := (s.spend env).spend env) (tidy.unissued new) input).trans
      (insert_answer pg (s := s.spend env) (tidy.unissued new) input).symm
  | @list userId query =>
    refine ⟨steady env, ?_⟩
    rw [serve_list, ← hanswer, exec]
    simp only [Tables.spend]
    generalize select pg _ _ _ _ _ = rows
    cases rows <;> rfl
  | @unreadCount userId =>
    refine ⟨steady env, ?_⟩
    rw [serve_unreadCount, ← hanswer]
    rfl
  | @markAllRead userId =>
    refine ⟨steady env, ?_⟩
    rw [serve_markAllRead, ← hanswer]
    rfl
  | @absent userId id _ ha =>
    refine ⟨steady env, ?_⟩
    have hfind := Option.map_eq_none_iff.mp (Except.ok.inj (hanswer.trans ha))
    rw [markRead_answer tidy.ids, ← find_of,
      show (s.notifications.find? fun r => r.id = id.uuid && r.recipientId = userId.uuid) = none from hfind]
  | @found userId id _ n now ha =>
    refine ⟨steady { env with now }, ?_⟩
    obtain ⟨x, hx, rfl⟩ := Option.map_eq_some_iff.mp (Except.ok.inj (hanswer.trans ha))
    rw [markRead_answer tidy.ids, ← find_of,
      show (s.notifications.find? fun r => r.id = id.uuid && r.recipientId = userId.uuid) = some x from hx]
    rfl
  | unfound ha => cases hanswer.trans ha
  | unsaved ha =>
    obtain ⟨x, readAt, hx, -, rfl⟩ := hallows
    obtain ⟨y, hy, hcontent⟩ := mem_content.mp hx
    rw [← read_of_content hcontent, exec, save_read (tidy.spend env) hy readAt] at hanswer
    cases hanswer.trans ha

/-- What fails in an outage ends in an outage. -/
theorem Decides.outage {r : Request} {a : Except Err Response} {e : Err} (h : Decides r ⟨c, .error e⟩ a) : a = .error e := by
  cases h with
  | absent ha => cases ha
  | found now ha => cases ha
  | unfound ha | unsaved ha => exact congrArg Except.error (Except.error.inj ha).symm
  | create | list | unreadCount | markAllRead => rfl

/-! ### Two moments of a run -/

/-- What holds of the inboxes when a run that was at `c` is at `d`. -/
structure Settled (pg : Postgres) (c d : Config interface Tables Request Response) : Prop where
  distinct : (d.shared.notifications.map NotificationRow.id).Nodup
  /-- `isRead` is set together with `readAt`. -/
  paired : ∀ x ∈ d.shared.notifications, x.isRead = true ↔ x.readAt.isSome = true
  /-- Each notification was created by a call, and a read one was marked by one of its recipient. -/
  grounded : Grounded d
  /-- A notification stays, with all that it says, and what is read stays read. -/
  kept : ∀ x ∈ c.shared.notifications, ∃ y ∈ d.shared.notifications, y.content = x.content ∧
    (x.isRead = true → y.isRead = true)
  /-- A notification that was returned by `create` is there. -/
  created : ∀ t ∈ d.threads, ∀ input n, t.request = .create input → t.result? = some (.ok (.notification n)) →
    ∃ env, n = input.saved env ∧ ∃ x ∈ d.shared.notifications, x.content = input.toRow env
  /-- A notification that was returned by `markRead` is read. -/
  marked : ∀ t ∈ d.threads, ∀ userId id n, t.request = .markRead userId id → t.result? = some (.ok (.notification n)) →
    ∃ x ∈ d.shared.notifications, x.entry = ⟨id.uuid, userId.uuid⟩ ∧ x.isRead = true
  /-- Once `markAllRead` has returned, all that its user had when it started is read. -/
  cleared : ∀ t ∈ d.threads, c.time ≤ t.started → ∀ userId a, t.request = .markAllRead userId →
    t.result? = some (.ok a) → ∀ x ∈ c.shared.notifications, x.recipientId = userId.uuid →
      ∃ y ∈ d.shared.notifications, y.content = x.content ∧ y.isRead = true
  /-- A call that has ended, unless in an outage, ended as it would have alone at some moment since it started. -/
  answered : ∀ t ∈ d.threads, ∀ a, t.result? = some a → a = .error .unavailable ∨
    ∃ m s, t.started < m ∧ d.at? m = some s ∧ t.request.Answers pg s a

variable {b : Config interface Tables Request Response}

/-- What is known stays known. -/
theorem facts_mono (hb : (system pg).Reach (fun _ _ => True) (.initial (.start users workspaces generated)) b)
    (hd : (system pg).Reach (fun _ _ => True) b d) : b.shared.facts ⊆ d.shared.facts := by
  refine hd.invariant_with (Q := fun c => c.shared.Tidy ∧ ∀ t ∈ c.threads,
    System.Keeps.Meets Tables.facts contract (fun r k a => r.Done k a) c.shared t)
    (P := fun c => b.shared.facts ⊆ c.shared.facts) (fun hr => reach_known (hb.trans hr)) (fun _ h => h) ?_
  rintro c d m ⟨tidy, hmeets⟩ - h - hs
  exact h.trans ((keeps pg).step tidy hmeets hs)

theorem reach_answered (hd : (system pg).Reach (fun _ _ => True) (.initial (.start users workspaces generated)) d)
    {t : Thread interface Request Response} (ht : t ∈ d.threads) {a : Except Err Response} (ha : t.result? = some a) :
    a = .error .unavailable ∨ ∃ m s, t.started < m ∧ d.at? m = some s ∧ t.request.Answers pg s a := by
  rcases System.yields_result (hd.yields_all program_told (fun _ _ => Or.inl rfl) t ht) ha with h | ⟨x, hx, hdecides⟩
  · exact Or.inl h
  · obtain ⟨e, he, rfl⟩ := List.mem_map.mp hx
    obtain ⟨s, env, fate, hs, new, -, hanswer, -⟩ := hd.recorded t ht e he
    obtain ⟨b, u, hb, hbd, htime, hu, hrequest, hnext⟩ := hd.moment t ht e he
    obtain rfl : b.shared = s := Option.some.inj ((hbd.at? (System.at?_time b)).symm.trans (htime ▸ hs))
    obtain ⟨tidy, hmeets⟩ := reach_known hb
    obtain ⟨i, hi⟩ := List.mem_iff_getElem?.mp hu
    have hallows : allows b.shared.facts t.request e.call := hrequest ▸ System.Keeps.pre hmeets hi hnext
    rw [Event.said, hanswer] at hdecides
    cases fate with
    | failed | lost => exact Or.inl hdecides.outage
    | answered =>
      exact Or.inr ⟨e.time, b.shared, ((hd.timed t ht).2 e he).1, hs, hdecides.answers tidy new hallows⟩

/-- In every run of calls in flight, with calls that fail or whose answers are lost, what was created stays, what was
    marked read stays read, and each call is answered as at one moment. -/
theorem inbox_in_flight (pg : Postgres) (users workspaces : List Uuid) (generated : Generated)
    (c d : Config interface Tables Request Response)
    (hc : (system pg).Reach (fun _ _ => True) (.initial (.start users workspaces generated)) c)
    (hd : (system pg).Reach (fun _ _ => True) c d) : Settled pg c d := by
  have hcd := hc.trans hd
  obtain ⟨hctidy, hcmeets⟩ := reach_known hc
  obtain ⟨tidy, hmeets⟩ := reach_known hcd
  have hmono := facts_mono hc hd
  have hkept : ∀ x ∈ c.shared.notifications, ∃ y ∈ d.shared.notifications, y.content = x.content := fun x hx =>
    mem_content.mp (hmono (mem_content.mpr ⟨x, hx, rfl⟩))
  -- The row with the content is the one that is read.
  have hread : ∀ {x}, x ∈ c.shared.notifications → .read x.entry ∈ d.shared.facts →
      ∃ y ∈ d.shared.notifications, y.content = x.content ∧ y.isRead = true := by
    intro x hx hfact
    obtain ⟨y, hy, hcontent⟩ := hkept x hx
    obtain ⟨z, hz, hentry, hzread⟩ := mem_read.mp hfact
    have hid : z.id = y.id := congrArg Entry.id (hentry.trans (entry_of_content hcontent).symm)
    exact ⟨y, hy, hcontent, Table.eq_of_key tidy.ids hz hy hid ▸ hzread⟩
  refine ⟨tidy.ids, tidy.paired, reach_grounded hcd, fun x hx => ?_, fun t ht input n hrequest hresult => ?_,
    fun t ht userId id n hrequest hresult => ?_, fun t ht hstarted userId a hrequest hresult x hx hrecipient => ?_,
    fun t ht a ha => reach_answered hcd ht ha⟩
  · by_cases hxread : x.isRead = true
    · obtain ⟨y, hy, hcontent, hyread⟩ := hread hx (hmono (mem_read.mpr ⟨x, hx, rfl, hxread⟩))
      exact ⟨y, hy, hcontent, fun _ => hyread⟩
    · obtain ⟨y, hy, hcontent⟩ := hkept x hx
      exact ⟨y, hy, hcontent, fun h => absurd h hxread⟩
  · have hdone := System.Keeps.result (hmeets t ht) hresult
    rw [hrequest] at hdone
    exact hdone
  · have hdone := System.Keeps.result (hmeets t ht) hresult
    rw [hrequest] at hdone
    exact hdone
  · have hlater := (keeps pg).later program_meets (fun hk h => h.grow hk) (fun r _ hk => program_clears r hk)
      (fun hk h userId hr x hx hu => hk (h userId hr x hx hu)) hctidy hcmeets hc.timed hd t ht hstarted
    have hclears := System.Keeps.result hlater hresult
    exact hread hx (hclears userId hrequest x.content (mem_content.mpr ⟨x, hx, rfl⟩) hrecipient)

end

/-- User 8 is told of two tasks. -/
def toldTwice : List (Move interface Request) :=
  [.start (assignedTo 8) (envAt 0), .call 0 .answered (envAt 1), .start (assignedTo 8) (envAt 2), .call 1 .answered (envAt 3)]

/-- He marks all read while he marks the first one read, which finds it unread and saves it after that. -/
def marksTwice : List (Move interface Request) :=
  [.start (.markRead (Uuid.text 8) (Uuid.text 101)) (envAt 4), .call 2 .answered (envAt 5),
   .start (.markAllRead (Uuid.text 8)) (envAt 6), .call 3 .answered (envAt 7), .call 2 .answered (envAt 8)]

theorem inbox_in_flight_race : ∃ c d : Config interface Tables Request Response,
    Settled .strict c d ∧ c.shared.unread 8 = 2 ∧ d.shared.unread 8 = 0 ∧ d.Idle := by
  have hrun : ∃ c ∈ (system .strict).run (fun _ _ => True) (.initial (.start [8] [] ⟨[], []⟩)) toldTwice,
      c.shared.unread 8 = 2 ∧ ∃ d ∈ (system .strict).run (fun _ _ => True) c marksTwice,
        d.shared.unread 8 = 0 ∧ d.Idle := by
    decide +kernel
  obtain ⟨c, hc, hunread, d, hd, hread, hidle⟩ := hrun
  have hsettled := inbox_in_flight .strict [8] [] ⟨[], []⟩ c d (System.reach_of_run toldTwice hc)
    (System.reach_of_run marksTwice hd)
  exact ⟨c, d, hsettled, hunread, hread, hidle⟩

end TaskPlatform.Notifications

import TaskPlatform.Access.Decisions
import TaskPlatform.Board.Events
import TaskPlatform.Platform.Knowledge

/-! Every program of the platform keeps its contract: it caches only memberships that it has read, and tells only those
    whom the rows that it has read name. -/

namespace TaskPlatform.Platform
open Effects Notifications

section
variable {k k' : Knowledge} {process : Nat} {queue : Bool} {w p t : UuidText} {userId : Uuid} {α : Type}
  {Q : Knowledge → α → Prop}

/-! ### Programs of the workspaces -/

/-- The contract as an API process has it with the workspaces. -/
abbrev entering (process : Nat) : Contract Access.interface Knowledge := contract.on (Call.access process)

theorem ofAccess_meets {p : Access.Service α} (h : p.Meets (entering process) Q k) :
    (ofAccess process p).Meets contract Q k :=
  h.lift id id id

theorem access_call {c : Access.Call} {f : c.Reply → Access.Service α} (pre : (Call.access process c).pre k)
    (next : ∀ k', k ≤ k' → ∀ a, (Call.access process c).post k' a → (f a).Meets (entering process) Q k') :
    ((Access.perform c).bind f).Meets (entering process) Q k :=
  Prog.Meets.perform_bind pre (fun _ _ h => h.elim) next

/-- The call caches a membership. -/
def caches : Access.Call → Bool
  | .cacheSet _ _ => true
  | _ => false

theorem uncached_meets {p : Access.Service α} (h : p.Calls (caches · = false)) :
    p.Meets (entering process) (fun _ _ => True) k := by
  refine Prog.Calls.meets (h.mono fun c hc => ⟨fun k => ?_, fun _ _ h => h.elim⟩)
  cases c with
  | cacheSet => cases hc
  | _ => trivial

/-- A membership that is found, in the cache or in the table, has been one. -/
theorem getMembership_meets (w u : UuidText) : (Access.WorkspacesService.getMembership w u).Meets (entering process)
    (fun k m => m.isSome = true → .member w.uuid u.uuid ∈ k) k := by
  rw [Access.WorkspacesService.getMembership_eq]
  refine access_call trivial fun k₁ _ cached hcached => ?_
  cases cached with
  | some m => exact fun _ => hcached
  | none =>
    refine access_call trivial fun k₂ _ membership hmember => ?_
    cases membership with
    | none => exact nofun
    | some m => exact access_call hmember fun k₃ hk _ _ _ => hk hmember

/-- Who passes the guard has been a member. -/
theorem canActivate_meets (w : UuidText) (userId : Uuid) :
    (Access.WorkspaceMemberGuard.canActivate w userId).Meets (entering process) (fun k _ => .member w.uuid userId ∈ k) k := by
  refine (getMembership_meets w userId.text).bind fun k' _ m hm => ?_
  cases m with
  | none => trivial
  | some m => exact hm rfl

theorem roles_meets (required : List WorkspaceRole) (role : WorkspaceRole) :
    (Access.RolesGuard.canActivate required role).Meets (entering process) (fun _ _ => True) k := by
  unfold Access.RolesGuard.canActivate
  split
  · trivial
  · split <;> trivial

theorem adminOnly_meets (w : UuidText) (userId : Uuid) :
    (Access.adminOnly w userId).Meets (entering process) (fun _ _ => True) k :=
  (canActivate_meets w userId).bind fun _ _ role _ => roles_meets [.ADMIN] role

/-! ### The calls of the services -/

theorem call_caches {c : Access.Call} (h : caches c = false) : (Access.perform c).Calls (caches · = false) :=
  Prog.calls_perform h

theorem invites_caches {c : Access.Call} (h : c.Invites) : caches c = false := by
  cases c with
  | cacheSet => exact h.elim
  | _ => rfl

theorem findByIdOrFail_caches (w : UuidText) : (Access.WorkspacesService.findByIdOrFail w).Calls (caches · = false) := by
  rw [Access.WorkspacesService.findByIdOrFail_eq]
  refine (call_caches rfl).bind fun workspace => ?_
  cases workspace <;> trivial

theorem create_caches (out : Access.Outside) (ownerId : Uuid) (dto : Access.CreateWorkspaceDto) :
    (Access.WorkspacesService.create out ownerId dto).Calls (caches · = false) := by
  refine (call_caches rfl).bind fun count => ?_
  split
  · trivial
  · exact (call_caches rfl).bind fun _ => (call_caches rfl).bind fun _ => trivial

theorem updateMemberRole_caches (w u : UuidText) (role : WorkspaceRole) :
    (Access.WorkspacesService.updateMemberRole w u role).Calls (caches · = false) := by
  rw [Access.WorkspacesService.updateMemberRole_eq]
  refine (findByIdOrFail_caches w).bind fun workspace => ?_
  split
  · trivial
  · refine (call_caches rfl).bind fun m => ?_
    cases m with
    | none => trivial
    | some m => exact (call_caches rfl).bind fun _ => (call_caches rfl).bind fun _ => trivial

theorem removeMember_caches (w u : UuidText) :
    (Access.WorkspacesService.removeMember w u).Calls (caches · = false) := by
  rw [Access.WorkspacesService.removeMember_eq]
  refine (findByIdOrFail_caches w).bind fun workspace => ?_
  split
  · trivial
  · refine (call_caches rfl).bind fun m => ?_
    cases m with
    | none => trivial
    | some m => exact (call_caches rfl).bind fun _ => call_caches rfl

theorem access_meets (out : Access.Outside) (r : Access.Request) :
    (Access.program out r).Meets (entering process) (fun _ _ => True) k := by
  have wrap : ∀ {α β : Type} {p : Access.Service α} {f : α → β} {k : Knowledge}, p.Calls (caches · = false) →
      (p.bind fun a => .ret (f a)).Meets (entering process) (fun _ _ => True) k := fun h =>
    (uncached_meets h).bind fun _ _ _ _ => trivial
  obtain ⟨userId, operation⟩ := r
  cases operation with
  | create dto => exact wrap (create_caches out userId dto)
  | listMine => exact wrap (call_caches rfl)
  | get w => exact (canActivate_meets w userId).bind fun _ _ _ _ => wrap (findByIdOrFail_caches w)
  | members w => exact (canActivate_meets w userId).bind fun _ _ _ _ => wrap (call_caches rfl)
  | updateRole w u role => exact (adminOnly_meets w userId).bind fun _ _ _ _ => wrap (updateMemberRole_caches w u role)
  | removeMember w u => exact (adminOnly_meets w userId).bind fun _ _ _ _ => wrap (removeMember_caches w u)
  | invite w dto =>
    exact (adminOnly_meets w userId).bind fun _ _ _ _ =>
      wrap ((Access.invite_calls w userId dto).mono fun _ => invites_caches)
  | listInvitations w => exact (adminOnly_meets w userId).bind fun _ _ _ _ => wrap (call_caches rfl)
  | revoke w id =>
    exact (adminOnly_meets w userId).bind fun _ _ _ _ =>
      wrap ((Access.revoke_calls out w id).mono fun _ => invites_caches)
  | accept token => exact wrap ((Access.accept_calls out userId (out.email userId) token).mono fun _ => invites_caches)

/-! ### Programs of the inbox -/

theorem create_meets {input : CreateNotificationInput} (h : k.Addressed input.note) :
    (ofInbox (NotificationsService.create input)).Meets contract (fun _ _ => True) k :=
  ⟨⟨input, rfl, h⟩, fun _ _ h => h.elim, fun _ _ => ⟨fun _ _ => trivial, fun _ => trivial⟩⟩

theorem ofInbox_bind {α β : Type} (p : Notifications.Service α) (f : α → Notifications.Service β) :
    ofInbox (p.bind f) = (ofInbox p).bind fun a => ofInbox (f a) :=
  Prog.lift_bind p f

/-- Whom the event names as the recipient may be told. -/
def Knowledge.Announces (k : Knowledge) (e : Board.DomainEvent) : Prop := ∀ input ∈ mapEvent e, k.Addressed input.note

theorem Knowledge.Announces.grow {e : Board.DomainEvent} (h : k.Announces e) (hk : k ≤ k') : k'.Announces e :=
  fun input hinput => (h input hinput).grow hk

theorem deliver_meets {input : CreateNotificationInput} (h : k.Addressed input.note) :
    (ofInbox (InAppChannel.deliver input)).Meets contract (fun _ _ => True) k := by
  rw [InAppChannel.deliver, Prog.bind_eq, ofInbox_bind]
  exact (create_meets h).bind fun _ _ _ _ => trivial

/-- Both listeners tell only whom the event names. -/
theorem notify_meets {e : Board.DomainEvent} (h : k.Announces e) :
    (notify queue e).Meets contract (fun _ _ => True) k := by
  cases queue with
  | true =>
    simp only [notify, if_true]
    cases hmap : mapEvent e with
    | none => trivial
    | some input => exact Prog.Meets.perform (h input hmap) (fun _ _ h => h.elim) fun _ _ _ _ => trivial
  | false =>
    rw [notify, if_neg (by decide), NotificationListener.on]
    cases hmap : mapEvent e with
    | none => trivial
    | some input => exact deliver_meets (h input hmap)

/-! ### Programs of the board -/

/-- What the board must know of people, and what it knows of its rows. -/
def people : Contract Board.interface Knowledge where
  pre := Knowledge.allows
  post k c a := (rows k).post c a ∧ k.tells c a
  alike _ _ _ := False
  grows hk h := Knowledge.allows_grow h hk

/-- A program of the board that keeps its own contract for some request, and the one on people. -/
theorem ofBoard_meets {r : Board.Request} {R : Knowledge → α → Prop} {p : Board.Service α}
    (h : p.Meets ((Board.contract r).within rows) R k) (h' : p.Meets people Q k) :
    (ofBoard p).Meets contract (fun k a => R k a ∧ Q k a) k := by
  refine Prog.Meets.lift ?_ ?_ ?_ (h.and h')
  · exact fun ⟨hrows, hallows⟩ => ⟨⟨r, hrows⟩, hallows⟩
  · exact fun hpost => ⟨hpost.1, hpost⟩
  · exact id

theorem board_call {c : Board.Call} {f : c.Reply → Board.Service α} (pre : k.allows c)
    (next : ∀ k', k ≤ k' → ∀ a, (rows k').post c a → k'.tells c a → (f a).Meets people Q k') :
    ((Board.perform c).bind f).Meets people Q k :=
  Prog.Meets.perform_bind pre (fun _ _ h => h.elim) fun k' hk a ha => next k' hk a ha.1 ha.2

theorem board_last {c : Board.Call} (pre : k.allows c) : (Board.perform c).Meets people (fun _ _ => True) k :=
  Prog.Meets.perform pre (fun _ _ h => h.elim) fun _ _ _ _ => trivial

/-- Of calls that write neither a task nor a comment nothing is asked. -/
theorem plain_meets {p : Board.Service α} (h : p.Calls (Board.Call.plain · = true)) :
    p.Meets people (fun _ _ => True) k := by
  refine Prog.Calls.meets (h.mono fun c hc => ⟨fun k => ?_, fun _ _ h => h.elim⟩)
  cases c with
  | insertTask | saveTask | insertComment => cases hc
  | _ => trivial

theorem emit_meets (e : Board.DomainEvent) : (Board.emit e).Meets people (fun _ _ => True) k :=
  plain_meets (Board.records_plain (Board.emit_records e))

/-- Both listeners take the events in turn. -/
theorem announce_meets {r : Board.Request} {es : List Board.DomainEvent}
    (h : (Board.announce es).Meets ((Board.contract r).within rows) (fun _ _ => True) k)
    (announces : ∀ e ∈ es, k.Announces e) : (announce queue es).Meets contract (fun _ _ => True) k := by
  induction es generalizing k with
  | nil => trivial
  | cons e es ih =>
    have hemit := Prog.Meets.of_bind (p := Board.emit e) (f := fun _ => Board.announce es) h fun _ _ _ => id
    refine (ofBoard_meets hemit (emit_meets e)).bind fun k₁ hk₁ _ ⟨hrest, _⟩ => ?_
    refine Prog.Meets.bind (Q := fun _ _ => True) ?_ fun k₂ hk₂ _ _ => ?_
    · exact (notify_meets ((announces e (List.mem_cons_self ..)).grow hk₁)).handle fun _ _ _ => trivial
    · exact ih (System.meets_grow hrest hk₂) fun e' he' =>
        (announces e' (List.mem_cons_of_mem _ he')).grow (le_trans hk₁ hk₂)

/-! ### The services of the board -/

theorem findProject_meets (w p : UuidText) : (Board.ProjectsService.findOneOrFail w p).Meets people
    (fun k _ => .row (.project p.uuid w.uuid) ∈ k) k := by
  refine board_call trivial fun k' _ a ha _ => ?_
  cases a with
  | none => trivial
  | some x => exact ha.2.2

/-- What is known of a task that was found, and of its people. -/
structure Knowledge.Found (k : Knowledge) (w t : UuidText) (x : Board.Task) : Prop where
  id : x.id = t.uuid
  hasTask : (rows k).HasTask w.uuid t.uuid
  creator : .creator t.uuid x.createdBy ∈ k
  assignee : ∀ a ∈ x.assigneeId, .assignee t.uuid a.uuid ∈ k
  member : .member w.uuid x.createdBy ∈ k

theorem findTask_meets (w p t : UuidText) :
    (Board.TasksService.findOneOrFail w p t).Meets people (fun k x => k.Found w t x) k := by
  refine (findProject_meets w p).bind fun k₁ _ _ hproject => ?_
  refine board_call trivial fun k₂ hk₂ a hrow htells => ?_
  cases a with
  | none => trivial
  | some x =>
    obtain ⟨hid, -, htask, -⟩ := hrow
    obtain ⟨hcreator, hassignee, hmember⟩ := htells
    exact ⟨hid, ⟨p.uuid, hk₂ hproject, htask⟩, hcreator, hassignee, hmember _ (hk₂ hproject)⟩

/-- A task is told of by its own id. -/
theorem Knowledge.addressed_task (type : NotificationType) {w t u : Uuid} (htask : (rows k).HasTask w t)
    (entitles : k.Entitles w t u type) : k.Addressed (u, type, some "task", some t) :=
  ⟨w, t, ⟨htask, Or.inl ⟨rfl, rfl⟩⟩, entitles⟩

theorem mapNotification_note {recipientId actorId entityId : UuidText} {type : NotificationType} {title entityType : String}
    {input : CreateNotificationInput}
    (h : mapNotification (some recipientId) actorId type title entityType entityId = some input) :
    input.note = (recipientId.uuid, type, some entityType, some entityId.uuid) := by
  rw [mapNotification, Option.bind_some] at h
  split at h
  · cases h
  · obtain rfl := Option.some.inj h
    rfl

theorem announces_assigned {w t a actor : UuidText} (htask : (rows k).HasTask w.uuid t.uuid)
    (hassignee : .assignee t.uuid a.uuid ∈ k) : k.Announces (.taskAssigned t a actor) := fun _ hinput =>
  mapNotification_note hinput ▸ Knowledge.addressed_task .TASK_ASSIGNED htask hassignee

theorem announces_completed {w t c actor : UuidText} (htask : (rows k).HasTask w.uuid t.uuid)
    (hmember : .member w.uuid c.uuid ∈ k) : k.Announces (.taskCompleted t actor (some c)) := fun _ hinput =>
  mapNotification_note hinput ▸ Knowledge.addressed_task .TASK_COMPLETED htask hmember

theorem announces_comment {w t c author : UuidText} {parent assignee : Option UuidText}
    (htask : (rows k).HasTask w.uuid t.uuid) (hassignee : ∀ a ∈ assignee, .assignee t.uuid a.uuid ∈ k) :
    k.Announces (.commentCreated c t author parent assignee) := by
  intro input hinput
  cases assignee with
  | none => cases hinput
  | some a =>
    rw [mapNotification_note hinput]
    exact Knowledge.addressed_task .COMMENT_ADDED htask (hassignee a rfl)

/-- A reply is told of by the id of the comment, which is on the task. -/
theorem announces_reply {w t c a parent author : UuidText} {u : Uuid} (htask : (rows k).HasTask w.uuid t.uuid)
    (hcomment : .row (.comment c.uuid t.uuid u) ∈ k) (hmember : .member w.uuid a.uuid ∈ k) :
    k.Announces (.commentReplied c t parent a author) := by
  intro input hinput
  rw [mapNotification_note hinput]
  exact ⟨w.uuid, t.uuid, ⟨htask, Or.inr ⟨rfl, c.uuid, u, rfl, hcomment⟩⟩, hmember⟩

/-- The events of which a program ends with may all be told. -/
def Tells (k : Knowledge) (x : List Board.DomainEvent × α) : Prop := ∀ e ∈ x.1, k.Announces e

theorem saveTask_meets {new : Board.NewTask} (hproject : .row (.project new.projectId.uuid w.uuid) ∈ k)
    (hmember : .member w.uuid new.createdBy ∈ k) :
    (Board.TasksService.create.unannounced.save p userId new).Meets people Tells k := by
  refine board_call ⟨_, hproject, hmember⟩ fun k' hk task htask hassignee => ?_
  refine List.forall_mem_cons.mpr ⟨by rintro _ ⟨⟩, fun e he => ?_⟩
  obtain ⟨a, ha, rfl⟩ := Option.map_eq_some_iff.mp (Option.mem_toList.mp he)
  exact announces_assigned (w := w) (t := task.id.text) ⟨_, hk hproject, htask⟩ (hassignee a ha)

theorem createTask_meets (hmember : .member w.uuid userId ∈ k) (dto : Board.CreateTaskDto) :
    (Board.TasksService.create.unannounced w p userId dto).Meets people Tells k := by
  refine (findProject_meets w p).bind fun k₁ hk₁ _ hproject => ?_
  cases hd : dto.parentTaskId with
  | none => exact saveTask_meets hproject (hk₁ hmember)
  | some q =>
    refine board_call trivial fun k₂ hk₂ parent _ _ => ?_
    cases parent with
    | none => trivial
    | some _ => exact saveTask_meets (hk₂ hproject) (hk₂ (hk₁ hmember))

theorem updateTask_meets (actorId : Uuid) (dto : Board.UpdateTaskDto) :
    (Board.TasksService.update.unannounced w p t actorId dto).Meets people Tells k := by
  refine (findTask_meets w p t).bind fun k₁ _ x hx => fun env => ?_
  have hid : (dto.apply env.now x).id = t.uuid := hx.id
  have hcreator : .creator (dto.apply env.now x).id x.createdBy ∈ k₁ := hid ▸ hx.creator
  refine board_call hcreator fun k₂ hk₂ saved hsaved hassignee => ?_
  obtain rfl : saved = dto.apply env.now x := hsaved
  have htask : (rows k₂).HasTask w.uuid (dto.apply env.now x).id := hid ▸ hasTask_grow hx.hasTask hk₂
  intro e he
  rcases List.mem_append.mp he with he | he
  · unfold Board.TasksService.update.assigned at he
    split at he
    · next ha =>
      split at he
      · cases he
      · obtain rfl := List.mem_singleton.mp he
        exact announces_assigned (t := (dto.apply env.now x).id.text) htask (hassignee _ ha)
    · cases he
  · unfold Board.TasksService.update.statusChanged at he
    split at he
    · cases he
    · split at he
      · cases he
      · rcases List.mem_cons.mp he with rfl | he
        · rintro _ ⟨⟩
        · split at he
          · obtain rfl := List.mem_singleton.mp he
            exact announces_completed (t := (dto.apply env.now x).id.text) (c := x.createdBy.text) htask
              (hk₂ hx.member)
          · cases he

theorem moveTask_meets (newParentId : Option UuidText) :
    (Board.TasksService.moveTask w p t newParentId).Meets people (fun _ _ => True) k := by
  refine (findTask_meets w p t).bind fun k₁ _ x hx => ?_
  have hsave : ∀ {k₂ parent}, k₁ ≤ k₂ → k₂.allows (.saveTask { x with parentTaskId := parent }) := fun hk =>
    hk (hx.id ▸ hx.creator)
  cases newParentId with
  | none => exact board_last (hsave (le_refl k₁))
  | some q =>
    simp only [Prog.bind_eq]
    split
    · trivial
    refine board_call trivial fun k₂ hk₂ parent _ _ => ?_
    cases parent with
    | none => trivial
    | some parent =>
      refine board_call trivial fun k₃ hk₃ rows _ _ => ?_
      split
      · trivial
      · refine board_call trivial fun k₄ hk₄ depth _ _ => ?_
        split
        · trivial
        · exact board_last (hsave (le_trans hk₂ (le_trans hk₃ hk₄)))

theorem saveComment_meets {x : Board.Task} {parentAuthor : Option Uuid} {dto : Board.CreateCommentDto}
    (hx : k.Found w t x) (hmember : .member w.uuid userId ∈ k) (hauthor : ∀ u ∈ parentAuthor, .member w.uuid u ∈ k) :
    (Board.CommentsService.create.unannounced.save t userId dto x parentAuthor).Meets people Tells k := by
  refine board_call ⟨w.uuid, hx.hasTask, hmember⟩ fun k' hk m _ hcomment => ?_
  have htask := hasTask_grow hx.hasTask hk
  refine List.forall_mem_cons.mpr ⟨announces_comment htask fun a ha => hk (hx.assignee a ha), fun e he => ?_⟩
  split at he
  · obtain rfl := List.mem_singleton.mp he
    exact announces_reply (c := m.id.text) (a := Uuid.text _) htask hcomment (hk (hauthor _ rfl))
  · cases he

theorem createComment_meets (hmember : .member w.uuid userId ∈ k) (dto : Board.CreateCommentDto) :
    (Board.CommentsService.create.unannounced w p t userId dto).Meets people Tells k := by
  refine (findTask_meets w p t).bind fun k₁ hk₁ x hx => ?_
  cases hd : dto.parentCommentId with
  | none => exact saveComment_meets hx (hk₁ hmember) (by rintro _ ⟨⟩)
  | some q =>
    refine board_call trivial fun k₂ hk₂ parent _ hparent => ?_
    cases parent with
    | none => trivial
    | some parent =>
      have hx₂ : k₂.Found w t x :=
        ⟨hx.id, hasTask_grow hx.hasTask hk₂, hk₂ hx.creator, fun a ha => hk₂ (hx.assignee a ha), hk₂ hx.member⟩
      refine saveComment_meets hx₂ (hk₂ (hk₁ hmember)) ?_
      rintro _ ⟨⟩
      exact hparent w.uuid hx₂.hasTask

/-- A request that the guard has let pass. -/
theorem unannounced_meets (hmember : .member w.uuid userId ∈ k) (role : WorkspaceRole) (operation : Board.Operation) :
    (Board.unannounced ⟨w, Operation.by userId role operation⟩).Meets people Tells k := by
  have wrap : ∀ {α : Type} {q : Board.Service (List Board.DomainEvent × α)} {f : α → Board.Response},
      q.Meets people Tells k → (q.bind fun x => .ret (x.1, f x.2)).Meets people Tells k := fun h =>
    h.bind fun _ _ _ hx => hx
  have quiet : ∀ {q : Board.Service Board.Response}, q.Meets people (fun _ _ => True) k →
      (q.bind fun a => .ret (([] : List Board.DomainEvent), a)).Meets people Tells k := fun h =>
    h.bind fun _ _ _ _ => by rintro _ ⟨⟩
  cases operation with
  | createTask p user dto => exact wrap (createTask_meets hmember dto)
  | updateTask p t actor dto => exact wrap (updateTask_meets userId dto)
  | createComment p t author dto => exact wrap (createComment_meets hmember dto)
  | moveTask p t parent => exact quiet ((moveTask_meets parent).bind fun _ _ _ _ => trivial)
  | _ => exact quiet (plain_meets (Board.program_plain rfl (by rintro _ _ _ _ ⟨⟩)))

theorem board_meets (r : Board.Request) : (board queue process userId r).Meets contract (fun _ _ => True) k := by
  refine (ofAccess_meets (canActivate_meets r.workspaceId userId)).bind fun k₁ _ role hmember => ?_
  refine (ofAccess_meets (roles_meets (Operation.roles r.operation) role)).bind fun k₂ hk₂ _ _ => ?_
  let request : Board.Request := ⟨r.workspaceId, Operation.by userId role r.operation⟩
  have hboard : ((Board.unannounced request).bind Board.announcing).Meets ((Board.contract request).within rows)
      (fun _ _ => True) k₂ :=
    Board.program_announces request ▸ (Board.program_meets request (rows k₂)).within
  refine (ofBoard_meets (hboard.of_bind fun _ _ _ => id) (unannounced_meets (hk₂ hmember) role r.operation)).bind
    fun k₃ _ x ⟨hrest, htells⟩ => ?_
  have hannounce : (Board.announce x.1).Meets ((Board.contract request).within rows) (fun _ _ => True) k₃ :=
    (hrest.of_bind fun _ _ _ => id).mono fun _ _ _ _ => trivial
  exact (announce_meets hannounce htells).bind fun _ _ _ _ => trivial

/-! ### Scans and workers -/

abbrev reminding : Contract Reminders.interface Knowledge := contract.on Call.reminders

theorem ofReminders_meets {p : Reminders.Service α} (h : p.Meets reminding Q k) : (ofReminders p).Meets contract Q k :=
  h.lift id id id

theorem reminder_call {c : Reminders.Call} {f : c.Reply → Reminders.Service α} (pre : (Call.reminders c).pre k)
    (next : ∀ k', k ≤ k' → ∀ a, (Call.reminders c).post k' a → (f a).Meets reminding Q k') :
    ((Reminders.perform c).bind f).Meets reminding Q k :=
  Prog.Meets.perform_bind pre (fun _ _ h => h.elim) next

theorem reminder_last {c : Reminders.Call} (pre : (Call.reminders c).pre k) :
    (Reminders.perform c).Meets reminding (fun _ _ => True) k :=
  Prog.Meets.perform pre (fun _ _ h => h.elim) fun _ _ _ _ => trivial

theorem Knowledge.HasTasks.grow {tasks : List Board.Task} (h : k.HasTasks tasks) (hk : k ≤ k') : k'.HasTasks tasks := by
  intro t ht
  obtain ⟨⟨w, htask⟩, hassignee⟩ := h t ht
  exact ⟨⟨w, hasTask_grow htask hk⟩, fun a ha => hk (hassignee a ha)⟩

/-- The assignee of a task is told of it. -/
theorem notifyAssignee_meets {task : Board.Task} (type : Reminders.ReminderType) (h : k.HasTasks [task]) :
    (Reminders.RemindersService.notify task.id task.assigneeId type).Meets reminding (fun _ _ => True) k := by
  obtain ⟨⟨w, htask⟩, hassignee⟩ := h task (List.mem_singleton_self _)
  cases ha : task.assigneeId with
  | none => trivial
  | some a =>
    have hcreate : (Reminders.RemindersService.notifyAssignee task.id a type).Meets reminding (fun _ _ => True) k := by
      refine ⟨⟨_, rfl, ?_⟩, fun _ _ h => h.elim, fun _ _ => ⟨fun _ _ => trivial, fun _ => trivial⟩⟩
      refine Knowledge.addressed_task _ (t := task.id) htask ?_
      cases type <;> exact hassignee a ha
    exact hcreate.bind fun _ _ _ _ => trivial

theorem dispatch_meets {type : Reminders.ReminderType} {task : Board.Task} (h : k.HasTasks [task]) :
    (Reminders.RemindersService.dispatch queue type task).Meets reminding (fun _ _ => True) k := by
  refine reminder_call trivial fun k₁ hk₁ id _ => ?_
  cases id with
  | none => trivial
  | some id =>
    simp only
    split
    · exact reminder_call trivial fun _ _ _ _ => trivial
    · refine (notifyAssignee_meets type (h.grow hk₁)).bind fun k₂ _ _ _ => ?_
      exact fun env => reminder_call trivial fun _ _ _ _ => trivial

theorem dispatchAll_meets {type : Reminders.ReminderType} {tasks : List Board.Task} (h : k.HasTasks tasks)
    (t : Reminders.ScanResult) :
    (Reminders.RemindersService.dispatchAll queue type tasks t).Meets reminding (fun _ _ => True) k := by
  induction tasks generalizing k t with
  | nil => trivial
  | cons task rest ih =>
    have htask : k.HasTasks [task] := fun x hx => h x (List.mem_singleton.mp hx ▸ List.mem_cons_self ..)
    refine (dispatch_meets htask).bind fun k' hk o _ => ?_
    exact ih (Knowledge.HasTasks.grow (fun x hx => h x (List.mem_cons_of_mem _ hx)) hk) _

theorem scan_meets (now : Date) :
    (Reminders.RemindersService.scan queue now).Meets reminding (fun _ _ => True) k := by
  refine reminder_call trivial fun k₁ _ dueSoon hsoon => ?_
  refine reminder_call trivial fun k₂ hk₂ overdue hlate => ?_
  refine (dispatchAll_meets (Knowledge.HasTasks.grow hsoon hk₂) _).bind fun k₃ hk₃ t _ => ?_
  exact dispatchAll_meets (Knowledge.HasTasks.grow hlate hk₃) t

theorem deliverReminder_meets (id : Uuid) :
    (Reminders.RemindersService.deliverReminder id).Meets reminding (fun _ _ => True) k := by
  refine reminder_call trivial fun k₁ _ reminder _ => ?_
  cases reminder with
  | none => trivial
  | some r =>
    simp only
    split
    · trivial
    · refine reminder_call trivial fun k₂ _ task htask => ?_
      have hnotify : (Reminders.RemindersService.deliverReminder.notifyOf r task).Meets reminding (fun _ _ => True) k₂ := by
        cases task with
        | none => trivial
        | some task => exact notifyAssignee_meets r.type htask
      exact hnotify.bind fun k₃ _ _ _ => fun env => reminder_last trivial

theorem work_meets (jobId : Uuid) : (Reminders.ReminderProcessor.work jobId).Meets reminding (fun _ _ => True) k := by
  refine reminder_call trivial fun k₁ _ job _ => ?_
  cases job with
  | none => trivial
  | some job =>
    refine (deliverReminder_meets job.id).attempt.bind fun k₂ _ result _ => ?_
    cases result with
    | ok u => exact reminder_last trivial
    | error e =>
      refine reminder_call trivial fun k₃ _ again _ => ?_
      simp only [Reminders.ReminderProcessor.onFailed]
      split
      · exact reminder_last trivial
      · trivial

/-- A job tells whom its request had reason to tell. -/
theorem processor_meets (id : JobId) : (NotificationProcessor.work id).Meets contract (fun _ _ => True) k := by
  refine Prog.Meets.perform_bind trivial (fun _ _ h => h.elim) fun k₁ _ job hjob => ?_
  cases job with
  | none => trivial
  | some job =>
    refine (deliver_meets (hjob job rfl)).bind fun k₂ _ _ _ => ?_
    exact Prog.Meets.perform trivial (fun _ _ h => h.elim) fun _ _ _ _ => trivial

/-! ### Every program -/

theorem program_meets (out : Access.Outside) (queue : Bool) (r : Request) (k : Knowledge) :
    (program out queue r).Meets contract (fun _ _ => True) k := by
  cases r with
  | access process r => exact (ofAccess_meets (access_meets out r)).bind fun _ _ _ _ => trivial
  | board process userId r => exact (board_meets r).bind fun _ _ _ _ => trivial
  | scan now =>
    have hscan : (Reminders.program queue (.scan now)).Meets reminding (fun _ _ => True) k :=
      (scan_meets now).bind fun _ _ _ _ => trivial
    exact (ofReminders_meets hscan).bind fun _ _ _ _ => trivial
  | remind id =>
    have hwork : (Reminders.program queue (.work id)).Meets reminding (fun _ _ => True) k :=
      (work_meets id).bind fun _ _ _ _ => trivial
    exact (ofReminders_meets hwork).bind fun _ _ _ _ => trivial
  | deliver id => exact (processor_meets id).bind fun _ _ _ _ => trivial
  | expire process key =>
    exact (ofAccess_meets (uncached_meets (call_caches rfl))).bind fun _ _ _ _ => trivial

end
end TaskPlatform.Platform

import TaskPlatform.Board.TasksService
import TaskPlatform.Notifications.Processor

/-! The two ways from a domain event to the inbox: `NotificationListener` creates the notification itself,
    `NotificationQueueListener` adds a job for the worker, unless the queue still knows a job of that id. -/

namespace TaskPlatform.Notifications
open Effects Board

/-! ### From events to notifications -/

/-- No notification if nobody is to be told, or if it was their own action. -/
def mapNotification (recipientId : Option UuidText) (actorId : UuidText) (type : NotificationType) (title entityType : String)
    (entityId : UuidText) : Option CreateNotificationInput :=
  recipientId.bind fun recipientId =>
    if recipientId = actorId then none
    else some { recipientId, type, title, entityType := some entityType, entityId := some entityId }

def mapTaskAssigned (taskId assigneeId actorId : UuidText) : Option CreateNotificationInput :=
  mapNotification (some assigneeId) actorId .TASK_ASSIGNED "You were assigned a task" "task" taskId

def mapTaskCompleted (taskId actorId : UuidText) (creatorId : Option UuidText) : Option CreateNotificationInput :=
  mapNotification creatorId actorId .TASK_COMPLETED "A task you created was completed" "task" taskId

def mapCommentCreated (taskId authorId : UuidText) (taskAssigneeId : Option UuidText) : Option CreateNotificationInput :=
  mapNotification taskAssigneeId authorId .COMMENT_ADDED "New comment on your task" "task" taskId

def mapCommentReplied (commentId parentAuthorId authorId : UuidText) : Option CreateNotificationInput :=
  mapNotification (some parentAuthorId) authorId .COMMENT_REPLY "Someone replied to your comment" "comment" commentId

/-- What the handler of the event maps it to. Both listeners have the same four handlers. -/
def mapEvent : DomainEvent → Option CreateNotificationInput
  | .taskAssigned taskId assigneeId actorId => mapTaskAssigned taskId assigneeId actorId
  | .taskCompleted taskId actorId creatorId => mapTaskCompleted taskId actorId creatorId
  | .commentCreated _ taskId authorId _ taskAssigneeId => mapCommentCreated taskId authorId taskAssigneeId
  | .commentReplied commentId _ _ parentAuthorId authorId => mapCommentReplied commentId parentAuthorId authorId
  | .taskCreated .. | .taskStatusChanged .. => none

/-! ### In process -/

def NotificationListener.deliver : Option CreateNotificationInput → Service Unit
  | none => return ()
  | some input => do
    let _ ← NotificationsService.create input
    return ()

def NotificationListener.on (e : DomainEvent) : Service Unit := deliver (mapEvent e)

/-- The API without a queue; a request is an event. -/
def inProcess (pg : Postgres) : System interface Tables DomainEvent Unit where
  exec := exec pg
  program := NotificationListener.on
  fault := .unavailable
  admits s env := s.generated.admits env
  spend s env := { s with generated := s.generated.spend env }

/-! ### Through the queue -/

/-- The text `notif_${recipientId}_${type}_${entityId ?? 'none'}`: two are equal exactly if these are, for the texts of
    uuids have one length and no `_`. -/
structure JobId where
  recipientId : UuidText
  type : NotificationType
  entityId : Option UuidText
  deriving DecidableEq

def notificationJobId (input : CreateNotificationInput) : JobId := ⟨input.recipientId, input.type, input.entityId⟩

structure Backoff where
  type : String
  delay : Nat
  deriving DecidableEq

structure JobOptions where
  jobId : JobId
  attempts : Nat
  backoff : Backoff
  removeOnComplete : Nat
  removeOnFail : Bool
  deriving DecidableEq

structure Job where
  name : String
  data : CreateNotificationInput
  opts : JobOptions
  deriving DecidableEq

/-- The jobs that wait and the completed ones that are kept, the last one first. -/
structure Queue where
  waiting : List Job
  completed : List Job
  deriving DecidableEq

namespace Queue

def jobs (q : Queue) : List Job := q.waiting ++ q.completed

def knows (q : Queue) (id : JobId) : Bool := q.jobs.any fun j => j.opts.jobId = id

/-- A job whose id is known is ignored. -/
def add (q : Queue) (name : String) (data : CreateNotificationInput) (opts : JobOptions) : Queue :=
  if q.knows opts.jobId then q else { q with waiting := q.waiting ++ [⟨name, data, opts⟩] }

/-- The waiting job at this place completes. -/
def complete (q : Queue) (i : Nat) (j : Job) : Queue :=
  { waiting := q.waiting.eraseIdx i, completed := (j :: q.completed).take j.opts.removeOnComplete }

end Queue

def NotificationQueueListener.options (input : CreateNotificationInput) : JobOptions :=
  { jobId := notificationJobId input, attempts := 5, backoff := ⟨"exponential", 2000⟩, removeOnComplete := 1000,
    removeOnFail := false }

def NotificationQueueListener.enqueue (q : Queue) : Option CreateNotificationInput → Queue
  | none => q
  | some input => q.add "deliver" input (options input)

def NotificationQueueListener.on (q : Queue) (e : DomainEvent) : Queue := enqueue q (mapEvent e)

/-- The queue, and the worker with its one channel. -/
structure QueuePath where
  queue : Queue
  world : World Empty
  deriving DecidableEq

/-- An event is emitted, or the worker processes the waiting job at a place. -/
inductive QueueStep where
  | event (e : DomainEvent)
  | work (i : Nat) (ms : Nat → Moment)

abbrev inAppWorker (pg : Postgres) : System (Notifications.deliveries Empty) (World Empty) CreateNotificationInput Unit :=
  worker pg [.inApp]

/-- Every job that is processed succeeds. -/
def QueuePath.step (pg : Postgres) (p : QueuePath) : QueueStep → Option QueuePath
  | .event e => some { p with queue := NotificationQueueListener.on p.queue e }
  | .work i ms => p.queue.waiting[i]?.bind fun j =>
    if (inAppWorker pg).Serves j.data ms p.world then
      match (inAppWorker pg).serve j.data ms p.world with
      | (.ok _, world) => some ⟨p.queue.complete i j, world⟩
      | (.error _, _) => none
    else none

def QueuePath.run (pg : Postgres) (p : QueuePath) : List QueueStep → Option QueuePath
  | [] => some p
  | step :: steps => (p.step pg step).bind fun p => p.run pg steps

def QueuePath.start (inbox : Tables) : QueuePath := ⟨⟨[], []⟩, ⟨inbox, [], []⟩⟩

/-- The events among the steps. -/
def emitted : List QueueStep → List DomainEvent
  | [] => []
  | .event e :: steps => e :: emitted steps
  | .work .. :: steps => emitted steps

/-- The queue knows no job of the id that the event maps to. -/
def QueueStep.New (q : Queue) : QueueStep → Prop
  | .event e => ∀ input ∈ mapEvent e, q.knows (notificationJobId input) = false
  | .work .. => True

/-- No event maps to a job that the queue still knows when it is emitted. -/
def EachNew (pg : Postgres) (p : QueuePath) : List QueueStep → Prop
  | [] => True
  | step :: steps => step.New p.queue ∧ ∀ p' ∈ p.step pg step, EachNew pg p' steps

instance (q : Queue) : DecidablePred (QueueStep.New q)
  | .event e => inferInstanceAs (Decidable (∀ input ∈ mapEvent e, _))
  | .work .. => isTrue trivial

instance decidableEachNew (pg : Postgres) : (steps : List QueueStep) → DecidablePred (EachNew pg · steps)
  | [], _ => isTrue trivial
  | _ :: steps, _ =>
    have := decidableEachNew pg steps
    inferInstanceAs (Decidable (_ ∧ _))

/-- Who is told what about which entity. -/
def NotificationRow.note (r : NotificationRow) : Uuid × NotificationType × Option String × Option Uuid :=
  (r.recipientId, r.type, r.entityType, r.entityId)

def Tables.notes (s : Tables) : List (Uuid × NotificationType × Option String × Option Uuid) :=
  s.notifications.map NotificationRow.note

def CreateNotificationInput.note (n : CreateNotificationInput) : Uuid × NotificationType × Option String × Option Uuid :=
  (n.recipientId.uuid, n.type, n.entityType, n.entityId.map UuidText.uuid)

@[simp] theorem note_toRow (n : CreateNotificationInput) (env : Env) : (n.toRow env).note = n.note := rfl

/-- The ids of the inbox were generated. -/
def Tables.Issued (s : Tables) : Prop := ∀ r ∈ s.notifications, r.id ∈ s.generated.uuids

/-- The inbox takes the notification. -/
abbrev Tables.accepts (s : Tables) (input : CreateNotificationInput) : Bool :=
  Channel.accepts s input (.inApp : Channel Empty)

/-! ### What one event does -/

section
variable {pg : Postgres} {input : CreateNotificationInput} {e : DomainEvent} {s s' : Tables} {env : Nat → Env}

theorem mapNotification_eq_some {recipientId : Option UuidText} {actorId entityId : UuidText} {type : NotificationType}
    {title entityType : String} (h : mapNotification recipientId actorId type title entityType entityId = some input) :
    input.workspaceId = none := by
  obtain ⟨r, -, h⟩ := Option.bind_eq_some_iff.mp h
  split at h
  · cases h
  · obtain rfl := Option.some.inj h
    rfl

/-- No listener names a workspace. -/
theorem mapEvent_workspaceId (h : mapEvent e = some input) : input.workspaceId = none := by
  unfold mapEvent mapTaskAssigned mapTaskCompleted mapCommentCreated mapCommentReplied at h
  split at h
  case h_5 | h_6 => cases h
  all_goals exact mapNotification_eq_some h

/-- Notifications of one job id have one recipient: the inbox takes both or none. -/
theorem accepts_jobId {other : CreateNotificationInput} (hid : notificationJobId other = notificationJobId input)
    (hother : other.workspaceId = none) (hinput : input.workspaceId = none) : s.accepts other = s.accepts input := by
  have hrecipient : other.recipientId = input.recipientId := congrArg JobId.recipientId hid
  simp only [Tables.accepts, Channel.accepts, hother, hinput, hrecipient]

/-- Deliveries that add these notes to the inbox. -/
structure Adds (notes : List (Uuid × NotificationType × Option String × Option Uuid)) (s s' : Tables) : Prop where
  notes : s'.notes = s.notes ++ notes
  users : s'.users = s.users
  workspaces : s'.workspaces = s.workspaces
  issued : s'.Issued

theorem Adds.accepts {notes : List (Uuid × NotificationType × Option String × Option Uuid)} (h : Adds notes s s')
    (input : CreateNotificationInput) : s'.accepts input = s.accepts input := by
  simp only [Tables.accepts, Channel.accepts, h.users, h.workspaces]

theorem Adds.trans {l l' : List (Uuid × NotificationType × Option String × Option Uuid)} {s'' : Tables} (h : Adds l s s')
    (h' : Adds l' s' s'') : Adds (l ++ l') s s'' where
  notes := by rw [h'.notes, h.notes, List.append_assoc]
  users := h'.users.trans h.users
  workspaces := h'.workspaces.trans h.workspaces
  issued := h'.issued

theorem adds_nothing {generated : Generated} (issued : s.Issued) (h : s.generated.uuids ⊆ generated.uuids) :
    Adds [] s { s with generated } :=
  ⟨(List.append_nil _).symm, rfl, rfl, fun r hr => h (issued r hr)⟩

/-- An insertion with a new value: the inbox takes the notification, or rejects it. -/
theorem insert_adds (issued : s.Issued) {now : Env} (admits : s.generated.admits now = true) (input : CreateNotificationInput) :
    let t := { s with generated := s.generated.spend now }
    (s.accepts input = true ∧ ∃ s', t.insertNotification (input.toRow now) = .ok s' ∧ Adds [input.note] s s') ∨
      (s.accepts input = false ∧ ∃ e, t.insertNotification (input.toRow now) = .error e) := by
  intro t
  have hnew : now.uuid ∉ t.notifications.map (·.id) := fun hid => by
    obtain ⟨r, hr, hid⟩ := List.mem_map.mp hid
    exact (Generated.admits_iff.mp admits).1 (hid ▸ issued r hr)
  have hadds : Adds [input.note] s { t with notifications := t.notifications ++ [input.toRow now] } := by
    refine ⟨by simp [Tables.notes, t], rfl, rfl, fun r hr => ?_⟩
    rcases List.mem_append.mp hr with hr | hr
    · exact List.mem_cons_of_mem _ (issued r hr)
    · obtain rfl := List.mem_singleton.mp hr
      exact List.mem_cons_self ..
  rcases insert_accepts Empty input now t hnew with ⟨haccepts, hinsert⟩ | ⟨hrejects, hinsert⟩
  · exact Or.inl ⟨haccepts, _, hinsert, hadds⟩
  · exact Or.inr ⟨hrejects, hinsert⟩

/-- The listener creates the notification that the event maps to, if the inbox takes it. -/
theorem listener_adds (issued : s.Issued) (served : (inProcess pg).Serves e env s) :
    Adds (((mapEvent e).filter s.accepts).toList.map CreateNotificationInput.note) s ((inProcess pg).serve e env s).2 := by
  obtain ⟨-, admitted⟩ := served
  have hspent : Adds [] s ((inProcess pg).spend s (env 0)) := adds_nothing issued (List.subset_cons_self ..)
  cases hmap : mapEvent e with
  | none =>
    simp only [System.serve, inProcess, NotificationListener.on, hmap]
    exact hspent
  | some input =>
    have hprogram : (inProcess pg).program e =
        (Prog.perform (I := interface) (Call.insertNotification input)).bind fun _ => .ret () := by
      simp only [inProcess, NotificationListener.on, hmap]
      rfl
    rw [hprogram, Prog.admitted_perform] at admitted
    rw [System.serve, hprogram]
    rcases insert_adds hspent.issued admitted.1 input with ⟨haccepts, s', hinsert, hadds⟩ | ⟨hrejects, error, hinsert⟩
    · have hcall : (inProcess pg).handler (env 1) (Call.insertNotification input) ((inProcess pg).spend s (env 0)) =
          (.ok (input.saved (env 1)), s') := congrArg (commit _ _) hinsert
      rw [hspent.accepts] at haccepts
      rw [Prog.run_perform_ok (I := interface) env hcall, Option.filter_some, if_pos haccepts]
      exact hspent.trans hadds
    · have hcall : (inProcess pg).handler (env 1) (Call.insertNotification input) ((inProcess pg).spend s (env 0)) =
          (.error (.db error), (inProcess pg).spend ((inProcess pg).spend s (env 0)) (env 1)) :=
        congrArg (commit _ _) hinsert
      rw [hspent.accepts] at hrejects
      rw [Prog.run_perform_error (I := interface) env hcall, Option.filter_some, if_neg (Bool.eq_false_iff.mp hrejects)]
      exact hspent.trans (adds_nothing hspent.issued (List.subset_cons_self ..))

/-- A delivery that is answered took effect. -/
theorem take_of_exec {m : Moment} {d : Delivery Empty} {w w' : World Empty} {a : Unit}
    (h : Delivery.exec pg m d w = (.ok a, w')) : d.take pg m.env w = .ok w' := by
  unfold Delivery.exec at h
  split at h
  case h_3 htake =>
    obtain rfl := (Prod.mk.inj h).2
    exact htake
  all_goals cases h

/-- A job that succeeds adds its notification, and the inbox takes it. -/
theorem work_adds {w w' : World Empty} {ms : Nat → Moment} {a : Unit} (issued : w.inbox.Issued)
    (served : (inAppWorker pg).Serves input ms w) (hserve : (inAppWorker pg).serve input ms w = (.ok a, w')) :
    w.inbox.accepts input = true ∧ Adds [input.note] w.inbox w'.inbox := by
  obtain ⟨-, admitted⟩ := served
  have hprogram : (inAppWorker pg).program input =
      (Prog.perform (I := Notifications.deliveries Empty) ⟨0, .inApp, input⟩).bind fun _ => .ret () := rfl
  rw [hprogram, Prog.admitted_perform] at admitted
  rw [System.serve, hprogram] at hserve
  have hspent : Adds [] w.inbox (w.spend (ms 0)).inbox := adds_nothing issued (List.subset_cons_self ..)
  generalize hcall : (inAppWorker pg).handler (ms 1) ⟨0, .inApp, input⟩ ((inAppWorker pg).spend w (ms 0)) = answer at hserve
  obtain ⟨result, w₁⟩ := answer
  cases result with
  | error e =>
    rw [Prog.run_perform_error (I := Notifications.deliveries Empty) ms hcall] at hserve
    cases hserve
  | ok u =>
    rw [Prog.run_perform_ok (I := Notifications.deliveries Empty) ms hcall] at hserve
    obtain rfl : w₁ = w' := (Prod.mk.inj hserve).2
    have htake := take_of_exec hcall
    unfold Delivery.take at htake
    rcases insert_adds hspent.issued admitted.1 input with ⟨haccepts, s', hinsert, hadds⟩ | ⟨-, e, hinsert⟩
    · have hcreate : exec pg (ms 1).env (Call.insertNotification input) ((w.spend (ms 0)).spend (ms 1)).inbox =
          (.ok (input.saved (ms 1).env), s') := congrArg (commit _ _) hinsert
      have hdeliver : (InAppChannel.deliver input).run (exec pg) (fun _ => (ms 1).env)
          ((w.spend (ms 0)).spend (ms 1)).inbox = (.ok (), s') := Prog.run_perform_ok (I := interface) _ hcreate
      rw [show ((inAppWorker pg).spend ((inAppWorker pg).spend w (ms 0)) (ms 1)) = (w.spend (ms 0)).spend (ms 1) from rfl,
        hdeliver] at htake
      obtain rfl := Except.ok.inj htake
      rw [hspent.accepts] at haccepts
      exact ⟨haccepts, hspent.trans hadds⟩
    · have hcreate : exec pg (ms 1).env (Call.insertNotification input) ((w.spend (ms 0)).spend (ms 1)).inbox =
          (.error (.db e), ((w.spend (ms 0)).spend (ms 1)).inbox) := congrArg (commit _ _) hinsert
      have hdeliver : (InAppChannel.deliver input).run (exec pg) (fun _ => (ms 1).env)
          ((w.spend (ms 0)).spend (ms 1)).inbox = (.error (.db e), ((w.spend (ms 0)).spend (ms 1)).inbox) :=
        Prog.run_perform_error (I := interface) _ hcreate
      rw [show ((inAppWorker pg).spend ((inAppWorker pg).spend w (ms 0)) (ms 1)) = (w.spend (ms 0)).spend (ms 1) from rfl,
        hdeliver] at htake
      cases htake

/-- The listener creates the notifications of all events whose notifications the inbox takes. -/
theorem listener_adds_all {es : List (DomainEvent × (Nat → Env))} (issued : s.Issued)
    (served : (inProcess pg).ServesAll es s) :
    Adds ((((es.map Prod.fst).filterMap mapEvent).filter s.accepts).map CreateNotificationInput.note) s
      ((inProcess pg).serveAll es s).2 := by
  induction es generalizing s with
  | nil => exact adds_nothing issued (List.Subset.refl _)
  | cons r es ih =>
    obtain ⟨e, env⟩ := r
    have hnow := listener_adds issued served.1
    have hlater := ih hnow.issued served.2
    have haccepts : Tables.accepts ((inProcess pg).serve e env s).2 = s.accepts := funext hnow.accepts
    rw [haccepts] at hlater
    have hall := hnow.trans hlater
    cases hmap : mapEvent e with
    | none => simpa [hmap, System.serveAll] using hall
    | some input => 
      rw [hmap] at hall
      by_cases h : s.accepts input = true
      · simpa [hmap, System.serveAll, Option.filter_some, h] using hall
      · simpa [hmap, System.serveAll, Option.filter_some, h] using hall

/-! ### A run through the queue -/

/-- The jobs were added by the listener. -/
def Queue.Formed (q : Queue) : Prop :=
  ∀ j ∈ q.jobs, j.opts.jobId = notificationJobId j.data ∧ j.data.workspaceId = none

theorem Queue.knows_iff {q : Queue} {id : JobId} : q.knows id = true ↔ ∃ j ∈ q.jobs, j.opts.jobId = id := by
  simp [Queue.knows]

theorem Queue.Formed.add {q : Queue} {name : String} {data : CreateNotificationInput} {opts : JobOptions} (h : q.Formed)
    (hid : opts.jobId = notificationJobId data) (hws : data.workspaceId = none) : (q.add name data opts).Formed := by
  unfold Queue.add
  split
  · exact h
  · intro j hj
    simp only [Queue.jobs, List.mem_append, List.mem_singleton] at hj
    rcases hj with (hj | rfl) | hj
    · exact h j (List.mem_append_left _ hj)
    · exact ⟨hid, hws⟩
    · exact h j (List.mem_append_right _ hj)

theorem Queue.mem_complete {q : Queue} {i : Nat} {j j' : Job} (hj : j' ∈ (q.complete i j).completed) :
    j' = j ∨ j' ∈ q.completed :=
  List.mem_cons.mp (List.mem_of_mem_take hj)

theorem Queue.Formed.complete {q : Queue} {i : Nat} {j : Job} (h : q.Formed) (hj : q.waiting[i]? = some j) :
    (q.complete i j).Formed := by
  intro j' hj'
  rcases List.mem_append.mp hj' with hj' | hj'
  · exact h j' (List.mem_append_left _ (List.mem_of_mem_eraseIdx hj'))
  · rcases Queue.mem_complete hj' with rfl | hj'
    · exact h j' (List.mem_append_left _ (List.mem_of_getElem? hj))
    · exact h j' (List.mem_append_right _ hj')

/-- The worker processed a waiting job, and it succeeded. -/
theorem step_work {p p' : QueuePath} {i : Nat} {ms : Nat → Moment} (h : p.step pg (.work i ms) = some p') :
    ∃ j w', p.queue.waiting[i]? = some j ∧ (inAppWorker pg).Serves j.data ms p.world ∧
      (inAppWorker pg).serve j.data ms p.world = (.ok (), w') ∧ p' = ⟨p.queue.complete i j, w'⟩ := by
  obtain ⟨j, hj, h⟩ := Option.bind_eq_some_iff.mp h
  split at h
  case isFalse => cases h
  case isTrue served =>
    split at h
    · rename_i hserve
      exact ⟨j, _, hj, served, hserve, (Option.some.inj h).symm⟩
    · cases h

/-- The notifications of the events among the steps. -/
abbrev mapped (steps : List QueueStep) : List CreateNotificationInput := (emitted steps).filterMap mapEvent

/-- How a run from `p` to `f` drains the queue: it adds jobs for some of the events, and delivers each once, with
    the jobs that waited before. -/
structure Drains (pg : Postgres) (p f : QueuePath) (steps : List QueueStep) (added delivered : List CreateNotificationInput) :
    Prop where
  perm : delivered.Perm (p.queue.waiting.map Job.data ++ added)
  adds : Adds (delivered.map CreateNotificationInput.note) p.world.inbox f.world.inbox
  sublist : added.Sublist (mapped steps)
  new : EachNew pg p steps ↔ added.length = (mapped steps).length
  waiting : ∀ j ∈ p.queue.waiting, p.world.inbox.accepts j.data = true
  taken : ∀ input ∈ mapped steps, p.world.inbox.accepts input = true

variable {p p' f : QueuePath} {steps : List QueueStep} {added delivered : List CreateNotificationInput}

theorem mapped_cons (hmap : mapEvent e = some input) : mapped (.event e :: steps) = input :: mapped steps :=
  List.filterMap_cons_some hmap

theorem on_nobody {q : Queue} (hmap : mapEvent e = none) : NotificationQueueListener.on q e = q := by
  rw [NotificationQueueListener.on, hmap]
  rfl

theorem on_known {q : Queue} (hmap : mapEvent e = some input) (hknows : q.knows (notificationJobId input) = true) :
    NotificationQueueListener.on q e = q := by
  rw [NotificationQueueListener.on, hmap]
  exact if_pos hknows

theorem on_unknown {q : Queue} (hmap : mapEvent e = some input) (hnew : q.knows (notificationJobId input) = false) :
    NotificationQueueListener.on q e =
      { q with waiting := q.waiting ++ [⟨"deliver", input, NotificationQueueListener.options input⟩] } := by
  rw [NotificationQueueListener.on, hmap]
  exact if_neg (Bool.eq_false_iff.mp hnew)

/-- An event that nobody is told about. -/
theorem Drains.nobody (h : Drains pg p f steps added delivered) (hmap : mapEvent e = none) :
    Drains pg p f (.event e :: steps) added delivered := by
  have hmapped : mapped (.event e :: steps) = mapped steps := List.filterMap_cons_none hmap
  refine ⟨h.perm, h.adds, hmapped ▸ h.sublist, ?_, h.waiting, hmapped ▸ h.taken⟩
  rw [hmapped, ← h.new]
  simp [EachNew, QueueStep.New, QueuePath.step, on_nobody hmap, hmap]

/-- An event whose job id the queue knows: its notification is dropped. -/
theorem Drains.known (h : Drains pg p f steps added delivered) (hmap : mapEvent e = some input)
    (hknows : p.queue.knows (notificationJobId input) = true) (haccepts : p.world.inbox.accepts input = true) :
    Drains pg p f (.event e :: steps) added delivered := by
  refine ⟨h.perm, h.adds, ?_, ⟨fun hnew => ?_, fun hlength => ?_⟩, h.waiting, ?_⟩
  · rw [mapped_cons hmap]
    exact h.sublist.cons _
  · rw [hnew.1 input hmap] at hknows
    cases hknows
  · have hle := h.sublist.length_le
    rw [mapped_cons hmap, List.length_cons] at hlength
    omega
  · rw [mapped_cons hmap]
    exact List.forall_mem_cons.mpr ⟨haccepts, h.taken⟩

/-- An event whose job id is new: its job is added. -/
theorem Drains.unknown (hmap : mapEvent e = some input) (hnew : p.queue.knows (notificationJobId input) = false)
    (h : Drains pg { p with queue := NotificationQueueListener.on p.queue e } f steps added delivered) :
    Drains pg p f (.event e :: steps) (input :: added) delivered := by
  have hwaiting := congrArg Queue.waiting (on_unknown hmap hnew)
  refine ⟨?_, h.adds, ?_, ⟨fun hall => ?_, fun hlength => ⟨fun input hinput => ?_, fun p' hp' => ?_⟩⟩, fun j' hj' => ?_, ?_⟩
  · have hperm := h.perm
    rw [hwaiting, List.map_append, List.append_assoc] at hperm
    exact hperm
  · rw [mapped_cons hmap]
    exact h.sublist.cons_cons _
  · rw [mapped_cons hmap, List.length_cons, List.length_cons, h.new.mp (hall.2 _ rfl)]
  · obtain rfl := Option.some.inj (hmap.symm.trans hinput)
    exact hnew
  · obtain rfl := Option.some.inj hp'
    rw [mapped_cons hmap, List.length_cons, List.length_cons, Nat.succ_inj] at hlength
    exact h.new.mpr hlength
  · refine h.waiting j' ?_
    rw [hwaiting]
    exact List.mem_append_left _ hj'
  · have haccepts := h.waiting _ (by rw [hwaiting]; exact List.mem_append_right _ (List.mem_singleton_self _))
    rw [mapped_cons hmap]
    exact List.forall_mem_cons.mpr ⟨haccepts, h.taken⟩

/-- A job that is processed. -/
theorem Drains.work {i : Nat} {ms : Nat → Moment} {j : Job} {w' : World Empty} (hj : p.queue.waiting[i]? = some j)
    (haccepts : p.world.inbox.accepts j.data = true) (hadds : Adds [j.data.note] p.world.inbox w'.inbox)
    (hstep : p.step pg (.work i ms) = some ⟨p.queue.complete i j, w'⟩)
    (h : Drains pg ⟨p.queue.complete i j, w'⟩ f steps added delivered) :
    Drains pg p f (.work i ms :: steps) added (j.data :: delivered) := by
  obtain ⟨hi, rfl⟩ := List.getElem?_eq_some_iff.mp hj
  refine ⟨?_, hadds.trans h.adds, h.sublist, ⟨fun hall => ?_, fun hlength => ⟨trivial, fun p' hp' => ?_⟩⟩, fun j' hj' => ?_, ?_⟩
  · have hperm : (p.queue.waiting[i] :: p.queue.waiting.eraseIdx i).Perm p.queue.waiting :=
      List.getElem_cons_eraseIdx_perm hi
    exact (h.perm.cons _).trans ((hperm.map Job.data).append_right added)
  · exact h.new.mp (hall.2 _ hstep)
  · obtain rfl := Option.some.inj (hstep.symm.trans hp')
    exact h.new.mpr hlength
  · have hperm : (p.queue.waiting[i] :: p.queue.waiting.eraseIdx i).Perm p.queue.waiting :=
      List.getElem_cons_eraseIdx_perm hi
    rcases List.mem_cons.mp (hperm.mem_iff.mpr hj') with rfl | hj'
    · exact haccepts
    · rw [← hadds.accepts]
      exact h.waiting j' hj'
  · intro input hinput
    rw [← hadds.accepts]
    exact h.taken input hinput

/-- Every run that ends with nothing waiting drains the queue. -/
theorem run_drains (formed : p.queue.Formed) (issued : p.world.inbox.Issued)
    (taken : ∀ j ∈ p.queue.completed, p.world.inbox.accepts j.data = true) (hrun : p.run pg steps = some f)
    (drained : f.queue.waiting = []) : ∃ added delivered, Drains pg p f steps added delivered := by
  induction steps generalizing p with
  | nil =>
    obtain rfl := Option.some.inj hrun
    refine ⟨[], [], ?_, adds_nothing issued (List.Subset.refl _), List.Sublist.refl _, Iff.intro (fun _ => rfl) fun _ => trivial,
      ?_, fun _ h => absurd h List.not_mem_nil⟩
    · rw [drained]
      exact List.Perm.refl _
    · rw [drained]
      exact fun _ h => absurd h List.not_mem_nil
  | cons step steps ih =>
    obtain ⟨p', hstep, hrest⟩ := Option.bind_eq_some_iff.mp hrun
    cases step with
    | event e =>
      obtain rfl := Option.some.inj hstep
      cases hmap : mapEvent e with
      | none =>
        rw [on_nobody hmap] at hrest
        obtain ⟨added, delivered, h⟩ := ih formed issued taken hrest
        exact ⟨added, delivered, h.nobody hmap⟩
      | some input =>
        cases hknows : p.queue.knows (notificationJobId input) with
        | true =>
          rw [on_known hmap hknows] at hrest
          obtain ⟨added, delivered, h⟩ := ih formed issued taken hrest
          obtain ⟨j, hj, hid⟩ := Queue.knows_iff.mp hknows
          obtain ⟨hjob, hws⟩ := formed j hj
          have haccepts : p.world.inbox.accepts j.data = true := (List.mem_append.mp hj).elim (h.waiting j) (taken j)
          rw [accepts_jobId (hjob.symm.trans hid) hws (mapEvent_workspaceId hmap)] at haccepts
          exact ⟨added, delivered, h.known hmap hknows haccepts⟩
        | false =>
          have hcompleted := congrArg Queue.completed (on_unknown hmap hknows)
          have hformed : (NotificationQueueListener.on p.queue e).Formed := by
            rw [NotificationQueueListener.on, hmap]
            exact formed.add rfl (mapEvent_workspaceId hmap)
          obtain ⟨added, delivered, h⟩ := ih (p := { p with queue := NotificationQueueListener.on p.queue e }) hformed issued
            (fun j hj => taken j (hcompleted ▸ hj)) hrest
          exact ⟨_, _, h.unknown hmap hknows⟩
    | work i ms =>
      obtain ⟨j, w', hj, served, hserve, rfl⟩ := step_work hstep
      obtain ⟨haccepts, hadds⟩ := work_adds issued served hserve
      obtain ⟨added, delivered, h⟩ := ih (formed.complete hj) hadds.issued (fun j' hj' => by
        rw [hadds.accepts]
        rcases Queue.mem_complete hj' with rfl | hj'
        · exact haccepts
        · exact taken j' hj') hrest
      exact ⟨_, _, h.work hj haccepts hadds hstep⟩

/-- Both ways create the same notifications exactly if no event maps to a job that the queue still knows. -/
theorem paths_agree_iff (pg : Postgres) (inbox : Tables) (issued : inbox.Issued) (steps : List QueueStep) (f : QueuePath)
    (hrun : (QueuePath.start inbox).run pg steps = some f) (drained : f.queue.waiting = [])
    (es : List (DomainEvent × (Nat → Env))) (hevents : es.map Prod.fst = emitted steps)
    (served : (inProcess pg).ServesAll es inbox) :
    f.world.inbox.notes.Perm ((inProcess pg).serveAll es inbox).2.notes ↔ EachNew pg (.start inbox) steps := by
  have hformed : (QueuePath.start inbox).queue.Formed := fun j hj => absurd hj List.not_mem_nil
  obtain ⟨added, delivered, h⟩ := run_drains hformed issued (fun j hj => absurd hj List.not_mem_nil) hrun drained
  have hperm : delivered.Perm added := h.perm
  have hall := (listener_adds_all issued served).notes
  have htaken : (mapped steps).filter inbox.accepts = mapped steps := List.filter_eq_self.mpr h.taken
  rw [hevents, htaken] at hall
  rw [hall, h.adds.notes]
  refine (List.perm_append_left_iff _).trans ⟨fun hnotes => ?_, fun hnew => ?_⟩
  · have hlength := hnotes.length_eq
    rw [List.length_map, List.length_map, hperm.length_eq] at hlength
    exact h.new.mpr hlength
  · have hadded : added = mapped steps := h.sublist.eq_of_length (h.new.mp hnew)
    exact (hadded ▸ hperm).map _

end

/-! ### Two comments on a task -/

/-- Somebody comments on task 7, which user 9 is assigned. -/
def commented (commentId authorId : Uuid) : DomainEvent :=
  .commentCreated (Uuid.text commentId) (Uuid.text 7) (Uuid.text authorId) none (some (Uuid.text 9))

def threeUsers : Tables := ⟨[8, 9, 10], [], [], ⟨[], []⟩⟩

/-- The events in process, each with new values. -/
def listened (es : List DomainEvent) : List (DomainEvent × (Nat → Env)) :=
  es.zipIdx.map fun e => (e.1, fun i => envAt (10 * e.2 + i))

/-- The worker has delivered the first comment when the second one is added. -/
def twoComments : List QueueStep :=
  [.event (commented 21 8), .work 0 (attempt 0 .answered), .event (commented 22 10)]

set_option maxRecDepth 8000 in
/-- User 9 hears of one comment; the listener in process tells of both. -/
theorem second_comment_dropped : ∃ f, (QueuePath.start threeUsers).run .strict twoComments = some f ∧ f.queue.waiting = [] ∧
    (inProcess .strict).ServesAll (listened (emitted twoComments)) threeUsers ∧
    f.world.inbox.notes = [(9, .COMMENT_ADDED, some "task", some 7)] ∧
      ¬f.world.inbox.notes.Perm ((inProcess .strict).serveAll (listened (emitted twoComments)) threeUsers).2.notes :=
  ⟨_, rfl, rfl, by decide +kernel, rfl, by decide +kernel⟩

/-- User 9 is assigned the task and answered to; the worker takes the second job first. -/
def differentJobs : List QueueStep :=
  [.event (.taskAssigned (Uuid.text 7) (Uuid.text 9) (Uuid.text 8)), .event (commented 21 8), .work 1 (attempt 0 .answered),
   .event (.commentReplied (Uuid.text 22) (Uuid.text 7) (Uuid.text 21) (Uuid.text 8) (Uuid.text 9)),
   .work 0 (attempt 10 .answered), .work 0 (attempt 20 .answered)]

set_option maxRecDepth 8000 in
theorem paths_agree_different_jobs : ∃ f, (QueuePath.start threeUsers).run .strict differentJobs = some f ∧
    f.world.inbox.notes.Perm ((inProcess .strict).serveAll (listened (emitted differentJobs)) threeUsers).2.notes :=
  ⟨_, rfl, (paths_agree_iff .strict threeUsers (fun _ hr => absurd hr List.not_mem_nil) differentJobs _ rfl rfl
    (listened (emitted differentJobs)) rfl (by decide +kernel)).mpr (by decide +kernel)⟩

end TaskPlatform.Notifications

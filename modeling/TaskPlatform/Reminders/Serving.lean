import TaskPlatform.Reminders.Knowledge

/-! What a scan in either mode, and the worker, do when they are served alone: how the reminders, the notifications
    and the queue grow. -/

namespace TaskPlatform.Reminders
open Effects RemindersService

/-- The constraints of the tables, and that ids were given out. -/
def Tables.Sound (s : Tables) : Prop := Knowledge.Fits ∅ s

/-- A task that a scan dispatches, and the type of its reminder. -/
structure Due where
  type : ReminderType
  task : Board.TaskRow

def Due.key (d : Due) : ReminderKey := ⟨d.task.id, d.type, d.task.dueDate.getD 0⟩

/-- A notification up to its id and its time: what it was created with, and whether it is read. -/
abbrev Note := Notifications.CreateNotificationInput × Bool × Option Date

def noteOf (r : Notifications.NotificationRow) : Note :=
  ({ recipientId := r.recipientId.text, type := r.type, title := r.title, body := r.body, entityType := r.entityType,
     entityId := r.entityId.map Uuid.text, workspaceId := r.workspaceId.map Uuid.text }, r.isRead, r.readAt)

/-- The notification of a reminder for an assignee. -/
def reminderNote (taskId : Uuid) (type : ReminderType) (assigneeId : Uuid) : Note :=
  ({ recipientId := assigneeId.text, type := if type = .DUE_SOON then .TASK_DUE_SOON else .TASK_OVERDUE,
     title := if type = .DUE_SOON then "A task is due soon" else "A task is overdue", entityType := some "task",
     entityId := some taskId.text }, false, none)

def Due.note? (d : Due) : Option Note := d.task.assigneeId.map (reminderNote d.task.id d.type)

/-- A reminder up to its id and its time. -/
def Reminder.outline (r : Reminder) : ReminderKey × ReminderStatus × Nat := (r.key, r.status, r.attempts)

/-- The job of a reminder, as `dispatch` adds it. -/
def Reminder.job (r : Reminder) : Job := ⟨jobOptions r.id, 0, false⟩

namespace Tables

def keys (s : Tables) : List ReminderKey := s.reminders.map Reminder.key

def notes (s : Tables) : List Note := s.notifications.map noteOf

/-- Of these tasks the ones that a reminder is created of. -/
def created (s : Tables) (ds : List Due) : List Due := ds.filter fun d => d.key ∉ s.keys

end Tables

/-- The counters of a scan after `n` more reminders. -/
def ScanResult.after (t : ScanResult) (queue : Bool) (n : Nat) : ScanResult :=
  { t with
    created := t.created + n
    delivered := t.delivered + if queue then 0 else n
    enqueued := t.enqueued + if queue then n else 0 }

/-- Only reminders, notifications and jobs may have changed. -/
structure Aside (s s' : Tables) : Prop where
  sound : s'.Sound
  tasks : s'.board.tasks = s.board.tasks
  users : s'.board.users = s.board.users

/-- What dispatching the tasks in turn makes of the tables. -/
structure Dispatches (queue : Bool) (ds : List Due) (s s' : Tables) : Prop where
  aside : Aside s s'
  rows : ∃ rows, s'.reminders = s.reminders ++ rows ∧
    rows.map Reminder.outline = (s.created ds).map (fun d => (d.key, if queue then .PENDING else .SENT, 0)) ∧
    s'.queue.jobs = s.queue.jobs ++ if queue then rows.map Reminder.job else []
  notes : s'.notes = s.notes ++ if queue then [] else (s.created ds).filterMap Due.note?

section
variable {pg : Postgres} {queue : Bool} {s s' s'' : Tables} {env : Env} {type : ReminderType} {α : Type} {ds ds' : List Due}

/-! ### Calls that are served alone -/

theorem Tables.Sound.known (h : s.Sound) : s.known.Fits s := { h with holds := fun _ hf => hf }

variable (pg queue) in
theorem Tables.Sound.call (h : s.Sound) {c : Call} (new : s.board.generated.admits env = true) (pre : c.pre s.known) :
    ((system pg queue).handler env c s).2.Sound :=
  have hknown : Knowledge.Fits _ ((system pg queue).handler env c s).2 := h.known.write new pre
  { hknown with holds := fun _ hf => hf.elim }

theorem Tables.Sound.spend (h : s.Sound) (env : Env) : (s.spend env).Sound := Knowledge.Fits.spend h env

theorem Aside.refl (h : s.Sound) : Aside s s := ⟨h, rfl, rfl⟩

theorem Aside.spend (h : s.Sound) (env : Env) : Aside s (s.spend env) := ⟨h.spend env, rfl, rfl⟩

theorem Aside.trans (h : Aside s s') (h' : Aside s' s'') : Aside s s'' :=
  ⟨h'.sound, h'.tasks.trans h.tasks, h'.users.trans h.users⟩

/-- The rule of a call that is answered, with what follows it. -/
theorem call_ends {c : Call} {f : c.Reply → Service α} {R : Except Err α → Tables → Prop}
    (h : ∀ env, s.board.generated.admits env = true → ∃ a s', (system pg queue).handler env c s = (.ok a, s') ∧
      (system pg queue).Ends (f a) s' R) :
    (system pg queue).Ends ((perform c).bind f) s R := by
  refine System.Ends.bind (Q := fun a s' => ∃ b, a = .ok b ∧ (system pg queue).Ends (f b) s' R)
    (System.Ends.perform fun env new => ?_) ?_ ?_
  · obtain ⟨a, s', hcall, hf⟩ := h env new
    rw [hcall]
    exact ⟨a, rfl, hf⟩
  · rintro a s' ⟨b, heq, hf⟩
    cases heq
    exact hf
  · rintro e s' ⟨b, heq, -⟩
    cases heq

/-! ### What the calls of a dispatch do -/

variable (pg queue) in
/-- A notification for a user is created. -/
theorem insertNotification_handled (h : s.Sound) (new : s.board.generated.admits env = true) (taskId : Uuid)
    (type : ReminderType) {a : Uuid} (user : a ∈ s.board.users) :
    ∃ n s', (system pg queue).handler env (.inbox (.insertNotification (reminderNote taskId type a).1)) s = (.ok n, s') ∧
      Aside s s' ∧ s'.reminders = s.reminders ∧ s'.queue = s.queue ∧
        s'.notes = s.notes ++ [reminderNote taskId type a] := by
  have hpre : Call.pre s.known (.inbox (.insertNotification (reminderNote taskId type a).1)) := ⟨_, rfl, user, rfl⟩
  have hsound := h.call pg queue new hpre
  have hexec : Notifications.exec pg env (.insertNotification (reminderNote taskId type a).1) (s.spend env).inbox = _ :=
    h.known.creates new user rfl
  simp only [System.handler, system, exec] at hsound ⊢
  rw [hexec] at hsound ⊢
  refine ⟨_, _, rfl, ⟨hsound, rfl, rfl⟩, rfl, rfl, ?_⟩
  exact List.map_append

variable (pg queue) in
/-- The reminder of a task that is there is created, unless there is one of its key. -/
theorem insertReminder_handled (h : s.Sound) (new : s.board.generated.admits env = true) {n : NewReminder} {due : Date}
    (scheduled : n.scheduledFor = some due) (task : n.taskId ∈ s.board.taskIds) :
    (system pg queue).handler env (.insertReminder n) s =
      if (⟨n.taskId, n.type, due⟩ : ReminderKey) ∈ s.keys then (.ok none, s.spend env)
      else (.ok (some env.uuid), { s.spend env with reminders := s.reminders ++ [n.toRow env due] }) := by
  have hid : env.uuid ∉ s.reminders.map Reminder.id := fun hid => by
    obtain ⟨r, hr, hid⟩ := List.mem_map.mp hid
    exact (Generated.admits_iff.mp new).1 (hid ▸ h.wellFormed.issued r hr)
  have hnewId : Table.has Reminder.id (n.toRow env due).id s.reminders = false := by
    rwa [Bool.eq_false_iff, ne_eq, has_map]
  have htask : (s.spend env).board.taskIds.contains (n.toRow env due).taskId = true := List.contains_iff_mem.mpr task
  simp only [System.handler, system, exec, Tables.insertReminder, scheduled, htask]
  change (if (Table.has Reminder.key (n.toRow env due).key s.reminders || Table.has Reminder.id (n.toRow env due).id s.reminders) = true
    then _ else _) = _
  rw [hnewId, Bool.or_false]
  by_cases hkey : (⟨n.taskId, n.type, due⟩ : ReminderKey) ∈ s.keys
  · rw [if_pos hkey]
    exact if_pos (has_map.mpr hkey)
  · rw [if_neg hkey]
    exact if_neg fun hhas => hkey (has_map.mp hhas)

/-- The row that was appended is updated. -/
theorem updateReminder_append (rows : List Reminder) (x : Reminder) (patch : ReminderPatch) (new : ∀ r ∈ rows, r.id ≠ x.id) :
    ((rows ++ [x]).map fun r => if r.id = x.id then patch.apply r else r) = rows ++ [patch.apply x] := by
  rw [List.map_append, List.map_singleton, if_pos rfl]
  congr 1
  exact (List.map_congr_left fun r hr => if_neg (new r hr)).trans (List.map_id' rows)

/-- A job with a new id is added. -/
theorem add_new (q : Queue) (id : Uuid) (jobs : ∀ j ∈ q.jobs, j.id ≠ id) (completed : id ∉ q.completed) :
    q.add (jobOptions id) = { q with jobs := q.jobs ++ [⟨jobOptions id, 0, false⟩] } := by
  have hjobs : q.jobs.any (·.id = (jobOptions id).jobId) = false := by
    rw [List.any_eq_false]
    intro j hj hid
    exact jobs j hj (of_decide_eq_true hid)
  have hcompleted : q.completed.contains (jobOptions id).jobId = false := by
    simpa [jobOptions] using completed
  rw [Queue.add, hjobs, hcompleted]
  rfl

/-! ### The counters -/

theorem ScanResult.after_zero (t : ScanResult) : t.after queue 0 = t := by
  cases queue <;> rfl

theorem ScanResult.after_after (t : ScanResult) (m n : Nat) : (t.after queue m).after queue n = t.after queue (m + n) := by
  cases queue <;> simp [ScanResult.after, Nat.add_assoc]

variable (queue) in
/-- A reminder that is created is counted, and so is what becomes of it. -/
theorem ScanResult.tally_created (t : ScanResult) : t.tally ⟨true, !queue, queue⟩ = t.after queue 1 := by
  cases queue <;> rfl

/-! ### One task -/

variable (pg queue) in
/-- A notification is created, if there is a user to notify. -/
theorem notify_ends (h : s.Sound) (taskId : Uuid) (type : ReminderType) {assigneeId : Option Uuid}
    (user : ∀ a ∈ assigneeId, a ∈ s.board.users) :
    (system pg queue).Ends (notify taskId (assigneeId.map Uuid.text) type) s fun a s' => a = .ok () ∧ Aside s s' ∧
      s'.reminders = s.reminders ∧ s'.queue = s.queue ∧
        s'.notes = s.notes ++ (assigneeId.map (reminderNote taskId type)).toList := by
  cases assigneeId with
  | none => exact System.Ends.ret ⟨rfl, .refl h, rfl, rfl, (List.append_nil _).symm⟩
  | some a =>
    rw [Option.map_some, notify, notifyAssignee, Notifications.NotificationsService.create, liftInbox_perform]
    refine call_ends fun env new => ?_
    obtain ⟨n, s', hcall, h'⟩ := insertNotification_handled pg queue h new taskId type (user a rfl)
    exact ⟨n, s', hcall, System.Ends.ret ⟨rfl, h'⟩⟩

variable (pg queue) in
/-- Dispatching one task. -/
theorem dispatch_ends (h : s.Sound) (d : Due) (mem : d.task ∈ s.board.tasks) (due : d.task.dueDate.isSome = true) :
    (system pg queue).Ends (dispatch queue d.type d.task.toEntity) s fun a s' =>
      (∃ o, a = .ok o ∧ ∀ t : ScanResult, t.tally o = t.after queue (s.created [d]).length) ∧
        Dispatches queue [d] s s' := by
  obtain ⟨date, hdate⟩ := Option.isSome_iff_exists.mp due
  have htask : d.task.id ∈ s.board.taskIds := List.mem_map_of_mem mem
  have hkey : d.key = ⟨d.task.id, d.type, date⟩ := by rw [Due.key, hdate, Option.getD_some]
  refine call_ends fun env new => ?_
  have hcall := insertReminder_handled pg queue h new (n := ⟨d.task.id, d.type, d.task.dueDate⟩) hdate htask
  have hinserted := h.call pg queue new (c := .insertReminder ⟨d.task.id, d.type, d.task.dueDate⟩) trivial
  by_cases hold : (⟨d.task.id, d.type, date⟩ : ReminderKey) ∈ s.keys
  · rw [if_pos hold] at hcall
    have hnone : s.created [d] = [] := by simp [Tables.created, hkey, hold]
    refine ⟨none, _, hcall, System.Ends.ret ⟨⟨_, rfl, fun t => ?_⟩, .spend h env, ⟨[], ?_⟩, ?_⟩⟩
    · rw [hnone]
      exact t.after_zero.symm
    · simp [hnone, Tables.spend]
    · simp [hnone, Tables.spend, Tables.notes]
  · rw [if_neg hold] at hcall
    have hone : s.created [d] = [d] := by simp [Tables.created, hkey, hold]
    rw [hcall] at hinserted
    have hnew : ∀ id ∈ s.board.generated.uuids, id ≠ env.uuid := fun id hid heq =>
      (Generated.admits_iff.mp new).1 (heq ▸ hid)
    refine ⟨some env.uuid, _, hcall, ?_⟩
    dsimp only
    split
    · next hqueue =>
      have htally : ∀ t : ScanResult, t.tally ⟨true, false, true⟩ = t.after queue (s.created [d]).length := fun t => by
        rw [hone, hqueue]
        exact ScanResult.tally_created true t
      refine call_ends fun env' new' => ⟨(), _, rfl, System.Ends.ret ⟨⟨_, rfl, htally⟩, ?_⟩⟩
      have hpre : Call.pre (Tables.known { s.spend env with
          reminders := s.reminders ++ [NewReminder.toRow ⟨d.task.id, d.type, d.task.dueDate⟩ env date] })
          (.addJob (jobOptions env.uuid)) := ⟨rfl, List.mem_cons_self ..⟩
      have hadded := hinserted.call pg queue new' hpre
      have hadd := add_new s.queue env.uuid (fun j hj => hnew _ (h.jobs j hj).2)
        fun hid => hnew _ (h.completed _ hid).1 rfl
      refine ⟨⟨hadded, rfl, rfl⟩, ⟨[_], rfl, ?_, ?_⟩, ?_⟩
      · rw [hone, hqueue]
        simp [Reminder.outline, NewReminder.toRow, Reminder.key, hkey]
      · rw [hqueue]
        exact congrArg Queue.jobs hadd
      · rw [hqueue]
        exact (List.append_nil _).symm
    · next hqueue =>
      have mode : queue = false := Bool.eq_false_iff.mpr hqueue
      have htally : ∀ t : ScanResult, t.tally ⟨true, true, false⟩ = t.after queue (s.created [d]).length := fun t => by
        rw [hone, mode]
        exact ScanResult.tally_created false t
      have huser : ∀ a ∈ d.task.assigneeId, a ∈ s.board.users := h.registered.assignee d.task mem
      refine System.Ends.bind (notify_ends pg queue hinserted d.task.id d.type huser) ?_ (by rintro e s₂ ⟨⟨⟩, _⟩)
      rintro - s₂ ⟨-, haside, hreminders, hjobs, hnotes⟩
      refine System.Ends.ask fun env₂ => ?_
      refine call_ends fun env₃ new₃ => ⟨(), _, rfl, System.Ends.ret ⟨⟨_, rfl, htally⟩, ?_⟩⟩
      have hsent := haside.sound.call pg queue new₃
        (c := .updateReminder env.uuid { status := .SENT, sentAt := some (Env.now env₂) }) (by rintro ⟨⟩)
      have happend := updateReminder_append s.reminders (NewReminder.toRow ⟨d.task.id, d.type, d.task.dueDate⟩ env date)
        { status := .SENT, sentAt := some (Env.now env₂) } fun r hr => hnew _ (h.wellFormed.issued r hr)
      refine ⟨⟨hsent, haside.tasks, haside.users⟩, ⟨[_], (congrArg _ hreminders).trans happend, ?_, ?_⟩, ?_⟩
      · rw [hone, mode]
        simp [Reminder.outline, ReminderPatch.apply, NewReminder.toRow, Reminder.key, hkey]
      · rw [mode]
        exact (congrArg Queue.jobs hjobs).trans (List.append_nil _).symm
      · rw [mode, hone]
        have hnote : [d].filterMap Due.note? = (d.task.assigneeId.map (reminderNote d.task.id d.type)).toList := by
          rw [List.filterMap_cons]
          cases h : d.note? <;> rw [Due.note?] at h <;> simp [h]
        exact hnotes.trans (congrArg (s.notes ++ ·) hnote.symm)

/-! ### A whole scan -/

theorem Dispatches.of_spend (h : Dispatches queue ds (s.spend env) s') : Dispatches queue ds s s' :=
  ⟨⟨h.aside.sound, h.aside.tasks, h.aside.users⟩, h.rows, h.notes⟩

theorem Dispatches.nil (h : s.Sound) : Dispatches queue [] s s where
  aside := .refl h
  rows := ⟨[], by simp [Tables.created]⟩
  notes := by simp [Tables.created]

/-- The keys after a dispatch. -/
theorem Dispatches.keys (h : Dispatches queue ds s s') : s'.keys = s.keys ++ (s.created ds).map Due.key := by
  obtain ⟨rows, hrows, houtline, -⟩ := h.rows
  have hkeys : rows.map Reminder.key = (s.created ds).map Due.key := by
    have hfst := congrArg (List.map Prod.fst) houtline
    rwa [List.map_map, List.map_map] at hfst
  rw [Tables.keys, hrows, List.map_append, hkeys]
  rfl

/-- Every task that was dispatched has its reminder. -/
theorem Dispatches.mem_keys (h : Dispatches queue ds s s') {d : Due} (hd : d ∈ ds) : d.key ∈ s'.keys := by
  rw [h.keys]
  by_cases hold : d.key ∈ s.keys
  · exact List.mem_append_left _ hold
  · exact List.mem_append_right _ (List.mem_map_of_mem (List.mem_filter.mpr ⟨hd, decide_eq_true hold⟩))

/-- What is created of tasks of different keys, when one part has been dispatched. -/
theorem Dispatches.created_append (h : Dispatches queue ds s s') (nodup : ((ds ++ ds').map Due.key).Nodup) :
    s.created (ds ++ ds') = s.created ds ++ s'.created ds' := by
  have hcreated : s'.created ds' = s.created ds' := by
    refine List.filter_congr fun d hd => ?_
    rw [List.map_append] at nodup
    have hnot : d.key ∉ (s.created ds).map Due.key := fun hmem => by
      obtain ⟨d', hd', heq⟩ := List.mem_map.mp hmem
      have hds : d'.key ∈ ds.map Due.key := List.mem_map_of_mem (List.mem_filter.mp hd').1
      exact (List.nodup_append.mp nodup).2.2 _ hds _ (List.mem_map_of_mem hd) heq
    rw [h.keys]
    simp [hnot]
  rw [hcreated]
  exact List.filter_append ..

/-- Tasks of different keys, one part dispatched after the other. -/
theorem Dispatches.append (h : Dispatches queue ds s s') (h' : Dispatches queue ds' s' s'')
    (nodup : ((ds ++ ds').map Due.key).Nodup) : Dispatches queue (ds ++ ds') s s'' := by
  have hcreated := h.created_append nodup
  obtain ⟨rows, hrows, houtline, hjobs⟩ := h.rows
  obtain ⟨rows', hrows', houtline', hjobs'⟩ := h'.rows
  refine ⟨h.aside.trans h'.aside, ⟨rows ++ rows', ?_, ?_, ?_⟩, ?_⟩
  · rw [hrows', hrows, List.append_assoc]
  · rw [List.map_append, houtline, houtline', hcreated, List.map_append]
  · rw [hjobs', hjobs, List.append_assoc]
    cases queue <;> simp
  · rw [h'.notes, h.notes, List.append_assoc, hcreated]
    cases queue <;> simp

/-- Due tasks of one type. -/
theorem nodup_keys (rows : List Board.TaskRow) (nodup : (rows.map Board.TaskRow.id).Nodup) :
    ((rows.map (Due.mk type)).map Due.key).Nodup := by
  rw [List.map_map]
  refine List.Nodup.of_map ReminderKey.taskId ?_
  rwa [List.map_map]

variable (pg queue) in
theorem dispatchAll_ends (h : s.Sound) {rows : List Board.TaskRow} (sub : ∀ x ∈ rows, x ∈ s.board.tasks)
    (due : ∀ x ∈ rows, x.dueDate.isSome = true) (nodup : (rows.map Board.TaskRow.id).Nodup) (t : ScanResult) :
    (system pg queue).Ends (dispatchAll queue type (rows.map Board.TaskRow.toEntity) t) s fun a s' =>
      a = .ok (t.after queue (s.created (rows.map (Due.mk type))).length) ∧
        Dispatches queue (rows.map (Due.mk type)) s s' := by
  induction rows generalizing s t with
  | nil => exact System.Ends.ret ⟨congrArg _ t.after_zero.symm, .nil h⟩
  | cons x rows ih =>
    have hx := dispatch_ends pg queue h ⟨type, x⟩ (sub x (List.mem_cons_self ..))
      (due x (List.mem_cons_self ..))
    refine System.Ends.bind hx ?_ ?_
    · rintro o s₁ ⟨⟨o', heq, htally⟩, hone⟩
      cases heq
      have hnodup : (((x :: rows).map (Due.mk type)).map Due.key).Nodup := nodup_keys (x :: rows) nodup
      have hsub : ∀ y ∈ rows, y ∈ s₁.board.tasks := fun y hy => hone.aside.tasks ▸ sub y (List.mem_cons_of_mem _ hy)
      refine (ih hone.aside.sound hsub (fun y hy => due y (List.mem_cons_of_mem _ hy)) (List.nodup_cons.mp nodup).2 _).mono ?_
      rintro a s₂ ⟨rfl, hrest⟩
      refine ⟨congrArg _ ?_, hone.append hrest hnodup⟩
      have hcreated : s.created ((x :: rows).map (Due.mk type)) = s.created [⟨type, x⟩] ++ s₁.created (rows.map (Due.mk type)) :=
        hone.created_append hnodup
      rw [htally, ScanResult.after_after, hcreated, List.length_append]
    · rintro e s₁ ⟨⟨o, heq, -⟩, -⟩
      cases heq

/-- The tasks that a scan at this time dispatches, in turn. -/
def Tables.dues (s : Tables) (now : Date) : List Due :=
  (s.board.tasks.filter (openTask fun d => now < d && d ≤ now + DUE_SOON_WINDOW_MS)).map (Due.mk .DUE_SOON) ++
    (s.board.tasks.filter (openTask (· ≤ now))).map (Due.mk .OVERDUE)

theorem dueDate_of_open {asked : Date → Bool} {x : Board.TaskRow} (h : openTask asked x = true) :
    x.dueDate.isSome = true := by
  cases hdate : x.dueDate with
  | none => simp [openTask, hdate] at h
  | some d => rfl

/-- What a scan counts, when it creates `n` reminders. -/
def Tables.counts (s : Tables) (queue : Bool) (now : Date) (n : Nat) : ScanResult :=
  ScanResult.after
    ⟨(s.board.tasks.filter (openTask fun d => now < d && d ≤ now + DUE_SOON_WINDOW_MS)).length,
      (s.board.tasks.filter (openTask (· ≤ now))).length, 0, 0, 0⟩ queue n

variable (pg queue) in
theorem scan_ends (h : s.Sound) (now : Date) :
    (system pg queue).Ends (scan queue now) s fun a s' =>
      a = .ok (s.counts queue now (s.created (s.dues now)).length) ∧ Dispatches queue (s.dues now) s s' := by
  have hids : ∀ asked, ((s.board.tasks.filter (openTask asked)).map Board.TaskRow.id).Nodup := fun asked =>
    h.wellFormed.board.tasks.sublist (List.filter_sublist.map _)
  have hdue : ∀ asked, ∀ x ∈ s.board.tasks.filter (openTask asked), x.dueDate.isSome = true := fun asked x hx =>
    dueDate_of_open (List.mem_filter.mp hx).2
  have hnodup : ((s.dues now).map Due.key).Nodup := by
    rw [Tables.dues, List.map_append]
    refine List.nodup_append.mpr ⟨nodup_keys _ (hids _), nodup_keys _ (hids _), ?_⟩
    rintro k hk k' hk' rfl
    simp only [List.map_map, List.mem_map] at hk hk'
    obtain ⟨x, -, rfl⟩ := hk
    obtain ⟨y, -, heq⟩ := hk'
    exact absurd (congrArg ReminderKey.type heq) nofun
  refine call_ends fun env new => ⟨_, _, rfl, ?_⟩
  refine call_ends fun env' new' => ⟨_, _, rfl, ?_⟩
  have hsound : ((s.spend env).spend env').Sound := (h.spend env).spend env'
  refine System.Ends.bind (dispatchAll_ends pg queue hsound (List.filter_subset_self _) (hdue _) (hids _) _) ?_ ?_
  · rintro t s₁ ⟨heq, hsoon⟩
    cases heq
    have hsub : ∀ x ∈ s.board.tasks.filter (openTask (· ≤ now)), x ∈ s₁.board.tasks := fun x hx =>
      hsoon.aside.tasks ▸ (List.mem_filter.mp hx).1
    refine (dispatchAll_ends pg queue hsoon.aside.sound hsub (hdue _) (hids _) _).mono ?_
    rintro a s₂ ⟨rfl, hlate⟩
    refine ⟨congrArg _ ?_, ((hsoon.append hlate hnodup).of_spend).of_spend⟩
    have hcreated := congrArg List.length (hsoon.created_append hnodup)
    rw [List.length_append] at hcreated
    rw [ScanResult.after_after, ← hcreated]
    simp only [List.length_map]
    rfl
  · rintro e s₁ ⟨heq, -⟩
    cases heq

/-- A scan that is served alone dispatches the tasks that are due, and counts them. -/
theorem serve_scan_counts (h : s.Sound) {now : Date} {env : Nat → Env}
    (served : (system pg queue).Serves (.scan now) env s) :
    ((system pg queue).serve (.scan now) env s).1 =
        .ok (.scanned (s.counts queue now (s.created (s.dues now)).length)) ∧
      Dispatches queue (s.dues now) s ((system pg queue).serve (.scan now) env s).2 := by
  have hends := (scan_ends pg queue (h.spend (env 0)) now).bind (f := fun r => .ret (Response.scanned r))
    (R := fun a s' => a = .ok (.scanned (s.counts queue now (s.created (s.dues now)).length)) ∧
      Dispatches queue (s.dues now) s s')
    (fun r s' hend => System.Ends.ret ⟨congrArg _ (congrArg _ (Except.ok.inj hend.1)), hend.2.of_spend⟩)
    fun e s' hend => nomatch hend.1
  exact hends env served.2

/-- A scan that is served alone dispatches the tasks that are due. -/
theorem serve_scan (h : s.Sound) {now : Date} {env : Nat → Env} (served : (system pg queue).Serves (.scan now) env s) :
    Dispatches queue (s.dues now) s ((system pg queue).serve (.scan now) env s).2 :=
  (serve_scan_counts h served).2

end
end TaskPlatform.Reminders

import TaskPlatform.Board.Forest
import TaskPlatform.Reminders.Serving

/-! Delivery is written twice, in the scan and in the worker: what a scan with a queue leaves once the worker has
    emptied the queue, beside what a scan without one leaves. -/

namespace TaskPlatform.Reminders
open Effects RemindersService

/-- The notification that the worker creates of a reminder, the tasks being these. -/
def Tables.noteOf? (s : Tables) (k : ReminderKey) : Option Note :=
  (s.board.tasks.find? (·.id = k.taskId)).bind fun t => t.assigneeId.map (reminderNote t.id k.type)

/-- The worker empties the queue that a scan has filled with the reminders `ds` of `s₀`: the ones that wait are
    pending, the others are sent. -/
structure Draining (s₀ : Tables) (ds : List Due) (s : Tables) : Prop where
  aside : Aside s₀ s
  rows : ∃ rows, s.reminders = s₀.reminders ++ rows ∧ rows.map Reminder.key = ds.map Due.key ∧
    (∀ r ∈ rows, r.status = .PENDING ∧ r.attempts = 0 ∨ r.status = .SENT ∧ r.attempts = 1) ∧
    s.queue.jobs = (rows.filter (·.status = .PENDING)).map Reminder.job ∧
    s.notes.Perm (s₀.notes ++ (rows.filter (·.status = .SENT)).filterMap (s₀.noteOf? ·.key))

section
variable {pg : Postgres} {s₀ s s' : Tables} {ds : List Due} {env : Env}

theorem Draining.spend (h : Draining s₀ ds s) (env : Env) : Draining s₀ ds (s.spend env) :=
  ⟨⟨h.aside.sound.spend env, h.aside.tasks, h.aside.users⟩, h.rows⟩

/-- A scan with an empty queue fills it. -/
theorem Dispatches.draining (h : Dispatches true ds s₀ s) (idle : s₀.queue.jobs = []) : Draining s₀ (s₀.created ds) s := by
  obtain ⟨rows, hrows, houtline, hjobs⟩ := h.rows
  have hpending : ∀ r ∈ rows, r.status = .PENDING ∧ r.attempts = 0 := by
    intro r hr
    have hmem : r.outline ∈ rows.map Reminder.outline := List.mem_map_of_mem hr
    rw [houtline] at hmem
    obtain ⟨d, -, heq⟩ := List.mem_map.mp hmem
    exact ⟨(congrArg (·.2.1) heq).symm, (congrArg (·.2.2) heq).symm⟩
  have hfst := congrArg (List.map Prod.fst) houtline
  rw [List.map_map, List.map_map] at hfst
  refine ⟨h.aside, rows, hrows, hfst, fun r hr => Or.inl (hpending r hr), ?_, ?_⟩
  · rw [hjobs, idle, List.filter_eq_self.mpr fun r hr => decide_eq_true (hpending r hr).1]
    rfl
  · have hnone : rows.filter (·.status = .SENT) = [] :=
      List.filter_eq_nil_iff.mpr fun r hr => by simp [(hpending r hr).1]
    rw [h.notes, hnone]
    exact List.Perm.refl _

/-! ### One delivery -/

variable (pg) in
/-- The assignee that the task has now is notified. -/
theorem notifyOf_ends (h : s.Sound) (r : Reminder) :
    (system pg true).Ends (deliverReminder.notifyOf r ((s.board.tasks.find? (·.id = r.taskId)).map Board.TaskRow.toEntity)) s
      fun a s' => a = .ok () ∧ Aside s s' ∧ s'.reminders = s.reminders ∧ s'.queue = s.queue ∧
        s'.notes = s.notes ++ (s.noteOf? r.key).toList := by
  have hnote : s.noteOf? r.key =
      (s.board.tasks.find? (·.id = r.taskId)).bind fun t => t.assigneeId.map (reminderNote t.id r.type) := rfl
  rw [hnote]
  cases hfind : s.board.tasks.find? (·.id = r.taskId) with
  | none => exact System.Ends.ret ⟨rfl, .refl h, rfl, rfl, (List.append_nil _).symm⟩
  | some x => exact notify_ends pg true h x.id r.type (h.registered.assignee x (List.mem_of_find?_eq_some hfind))

/-- No other reminder has the id. -/
theorem Tables.Sound.others (h : s.Sound) {before after : List Reminder} {r : Reminder}
    (rows : s.reminders = before ++ r :: after) : ∀ x ∈ before ++ after, x.id ≠ r.id := by
  have hnodup := h.wellFormed.ids
  rw [rows, List.map_append, List.map_cons] at hnodup
  obtain ⟨-, hcons, hapart⟩ := List.nodup_append.mp hnodup
  intro x hx hid
  rcases List.mem_append.mp hx with hx | hx
  · exact hapart _ (List.mem_map_of_mem hx) _ (List.mem_cons_self ..) hid
  · exact (List.nodup_cons.mp hcons).1 (hid ▸ List.mem_map_of_mem hx)

variable (pg) in
/-- A pending reminder is delivered. -/
theorem deliverReminder_ends (h : s.Sound) {before after : List Reminder} {r : Reminder}
    (rows : s.reminders = before ++ r :: after) (pending : r.status = .PENDING) :
    (system pg true).Ends (deliverReminder r.id) s fun a s' => a = .ok () ∧ Aside s s' ∧ s'.queue = s.queue ∧
      s'.notes = s.notes ++ (s.noteOf? r.key).toList ∧
      ∃ sentAt, s'.reminders =
        before ++ ({ r with status := .SENT, sentAt := some sentAt, attempts := r.attempts + 1 } : Reminder) :: after := by
  have hmem : r ∈ s.reminders := rows ▸ List.mem_append_right _ (List.mem_cons_self ..)
  have hfind : s.reminders.find? (·.id = r.id) = some r := Table.find?_key h.wellFormed.ids hmem
  refine call_ends fun env new => ⟨some r, _, Prod.ext (congrArg Except.ok hfind) rfl, ?_⟩
  have hnotSent : ¬ r.status = .SENT := by rw [pending]; nofun
  simp only [if_neg hnotSent]
  refine call_ends fun env' new' => ⟨_, _, rfl, ?_⟩
  have hsound : ((s.spend env).spend env').Sound := (h.spend env).spend env'
  refine System.Ends.bind (notifyOf_ends pg hsound r) ?_ fun e s₁ hend => nomatch hend.1
  rintro - s₁ ⟨-, haside, hreminders, hqueue, hnotes⟩
  refine System.Ends.ask fun env₁ => System.Ends.perform fun env₂ new₂ => ?_
  have hpatched := haside.sound.call pg true new₂ (c := .updateReminder r.id
    { status := .SENT, sentAt := some (Env.now env₁), attempts := some (r.attempts + 1) }) nofun
  refine ⟨rfl, ⟨hpatched, haside.tasks, haside.users⟩, hqueue, hnotes, Env.now env₁, ?_⟩
  have hothers := h.others rows
  have hkeep : ∀ {l : List Reminder} {patch : ReminderPatch}, (∀ x ∈ l, x ∈ before ++ after) →
      (l.map fun x => if x.id = r.id then patch.apply x else x) = l := fun hl =>
    (List.map_congr_left fun x hx => if_neg (hothers x (hl x hx))).trans (List.map_id' _)
  change (s₁.reminders.map fun x => if x.id = r.id then _ else x) = _
  rw [hreminders]
  change (s.reminders.map fun x => if x.id = r.id then _ else x) = _
  rw [rows, List.map_append, List.map_cons, if_pos rfl, hkeep fun x hx => List.mem_append_left _ hx,
    hkeep fun x hx => List.mem_append_right _ hx]
  rfl

/-! ### One attempt -/

theorem filter_split {before after : List Reminder} {r : Reminder} (p : Reminder → Bool) :
    (before ++ r :: after).filter p = before.filter p ++ ((if p r then [r] else []) ++ after.filter p) := by
  rw [List.filter_append, List.filter_cons]
  split <;> rfl

variable (pg) in
/-- An attempt at a job, if it waits, delivers its reminder. -/
theorem work_ends (h : Draining s₀ ds s) (id : Uuid) :
    (system pg true).Ends (ReminderProcessor.work id) s fun _ s' => Draining s₀ ds s' := by
  refine call_ends fun env new => ⟨s.queue.take? id, _, rfl, ?_⟩
  cases htake : s.queue.take? id with
  | none => exact System.Ends.ret (h.spend env)
  | some job =>
    obtain ⟨rows, hrows, hkeys, hstatus, hjobs, hnotes⟩ := h.rows
    obtain ⟨hjob, -⟩ := mem_take? htake
    rw [hjobs] at hjob
    obtain ⟨r, hr, rfl⟩ := List.mem_map.mp hjob
    obtain ⟨hr, hpending⟩ := List.mem_filter.mp hr
    have hpending : r.status = .PENDING := of_decide_eq_true hpending
    obtain ⟨before, after, rfl⟩ := List.append_of_mem hr
    have hsplit : (s.spend env).reminders = (s₀.reminders ++ before) ++ r :: after := by
      rw [List.append_assoc]
      exact hrows
    refine System.Ends.bind (deliverReminder_ends pg (h.spend env).aside.sound hsplit hpending).attempt ?_ ?_
    · rintro a s₁ ⟨result, heq, hok, haside, hqueue, hnoted, sentAt, hsent⟩
      cases heq
      subst hok
      refine System.Ends.perform fun env' new' => ?_
      set sent : Reminder := { r with status := .SENT, sentAt := some sentAt, attempts := r.attempts + 1 }
      have hmem : sent ∈ s₁.reminders := hsent ▸ List.mem_append_right _ (List.mem_cons_self ..)
      have hsettled : s₁.Settled r.id := by
        refine ⟨haside.sound.wellFormed.issued sent hmem, fun x hx hid => ?_⟩
        rw [Table.eq_of_key haside.sound.wellFormed.ids hx hmem hid]
        rintro ⟨⟩
      have hcompleted := haside.sound.call pg true new' (c := .completeJob r.job.id) hsettled
      have hcall : (system pg true).handler env' (.completeJob r.job.id) s₁ =
          (.ok (), { s₁.spend env' with queue := s₁.queue.complete r.job }) := by
        have htake : (s₁.spend env').queue.take? r.job.id = some r.job := by
          have hid := (mem_take? htake).2
          rw [hid]
          exact (congrArg (·.take? id) hqueue).trans htake
        simp only [System.handler, system, exec, Tables.onJob, htake]
        rfl
      rw [hcall] at hcompleted ⊢
      have hsentStatus : sent.status = .SENT := rfl
      refine ⟨⟨hcompleted, haside.tasks.trans h.aside.tasks, haside.users.trans h.aside.users⟩, before ++ sent :: after,
        ?_, ?_, ?_, ?_, ?_⟩
      · change s₁.reminders = _
        rw [hsent, List.append_assoc]
      · rw [← hkeys, List.map_append, List.map_append, List.map_cons, List.map_cons]
        rfl
      · intro x hx
        rcases List.mem_append.mp hx with hx | hx
        · exact hstatus x (List.mem_append_left _ hx)
        · rcases List.mem_cons.mp hx with rfl | hx
          · obtain ⟨-, hattempts⟩ | ⟨hsent, -⟩ := hstatus r hr
            · exact Or.inr ⟨rfl, congrArg (· + 1) hattempts⟩
            · rw [hpending] at hsent
              cases hsent
          · exact hstatus x (List.mem_append_right _ (List.mem_cons_of_mem _ hx))
      · have hkept : ∀ l : List Reminder, (∀ x ∈ l, x ∈ before ++ after) →
            ((l.filter (·.status = .PENDING)).map Reminder.job).filter (·.id ≠ r.job.id) =
              (l.filter (·.status = .PENDING)).map Reminder.job := by
          intro l hl
          refine List.filter_eq_self.mpr fun j hj => ?_
          obtain ⟨x, hx, rfl⟩ := List.mem_map.mp hj
          refine decide_eq_true fun hid => ?_
          refine (h.spend env).aside.sound.others hsplit x ?_ hid
          rw [List.append_assoc]
          exact List.mem_append_right _ (hl x (List.mem_filter.mp hx).1)
        have hqueue : s₁.queue.jobs = s.queue.jobs := congrArg Queue.jobs hqueue
        change s₁.queue.jobs.filter (·.id ≠ r.job.id) = _
        rw [hqueue, hjobs, filter_split, filter_split, hsentStatus, hpending]
        simp only [decide_true, if_true, List.map_append, List.filter_append, List.map_cons, List.map_nil]
        rw [hkept before fun x hx => List.mem_append_left _ hx, hkept after fun x hx => List.mem_append_right _ hx]
        simp
      · have hnote : (s.spend env).noteOf? r.key = s₀.noteOf? sent.key := by
          change ((s.board.tasks.find? _).bind _) = ((s₀.board.tasks.find? _).bind _)
          rw [h.aside.tasks]
          rfl
        have hnotSent : ¬ r.status = .SENT := by rw [hpending]; rintro ⟨⟩
        change s₁.notes.Perm _
        rw [hnoted, hnote, filter_split, hsentStatus]
        rw [filter_split, if_neg (by simpa using hnotSent)] at hnotes
        have hone : [sent].filterMap (s₀.noteOf? ·.key) = (s₀.noteOf? sent.key).toList := by
          cases hnone : s₀.noteOf? sent.key <;> simp [hnone]
        simp only [decide_true, if_true, List.nil_append, List.filterMap_append, hone] at hnotes ⊢
        refine (hnotes.append_right _).trans ?_
        simp only [List.append_assoc]
        exact ((List.perm_append_comm).append_left _).append_left _
    · rintro e s₁ ⟨result, heq, -⟩
      cases heq

/-! ### The queue is emptied -/

/-- Attempts of the worker at these jobs. -/
def works (ws : List (Uuid × (Nat → Env))) : List (Request × (Nat → Env)) := ws.map fun w => (.work w.1, w.2)

theorem serve_work (h : Draining s₀ ds s) {id : Uuid} {env : Nat → Env} (served : (system pg true).Serves (.work id) env s) :
    Draining s₀ ds ((system pg true).serve (.work id) env s).2 := by
  have hends := (work_ends pg (h.spend (env 0)) id).bind (f := fun _ => .ret Response.worked)
    (R := fun _ s' => Draining s₀ ds s') (fun _ s' hend => System.Ends.ret hend) fun _ s' hend => hend
  exact hends env served.2

theorem serveAll_works (h : Draining s₀ ds s) {ws : List (Uuid × (Nat → Env))}
    (served : (system pg true).ServesAll (works ws) s) : Draining s₀ ds ((system pg true).serveAll (works ws) s).2 := by
  induction ws generalizing s with
  | nil => exact h
  | cons w ws ih => exact ih (serve_work h served.1) served.2

/-- The notifications of the reminders of tasks that are there. -/
theorem filterMap_noteOf? (h : s.Sound) {rows : List Reminder} (keys : rows.map Reminder.key = ds.map Due.key)
    (tasks : ∀ d ∈ ds, d.task ∈ s.board.tasks) : rows.filterMap (s.noteOf? ·.key) = ds.filterMap Due.note? := by
  have hmap : (rows.map Reminder.key).filterMap s.noteOf? = (ds.map Due.key).filterMap s.noteOf? := by rw [keys]
  rw [List.filterMap_map, List.filterMap_map] at hmap
  refine hmap.trans (List.filterMap_congr fun d hd => ?_)
  have hfind : s.board.tasks.find? (·.id = d.task.id) = some d.task :=
    Table.find?_key h.wellFormed.board.tasks (tasks d hd)
  change (s.board.tasks.find? (·.id = d.task.id)).bind _ = _
  rw [hfind]
  rfl

/-- All the reminders are sent once no job is left. -/
theorem Draining.done (h : Draining s₀ ds s) (drained : s.queue.jobs = []) (tasks : ∀ d ∈ ds, d.task ∈ s₀.board.tasks)
    (sound : s₀.Sound) :
    s.reminders.map Reminder.outline = s₀.reminders.map Reminder.outline ++ ds.map (fun d => (d.key, .SENT, 1)) ∧
      s.notes.Perm (s₀.notes ++ ds.filterMap Due.note?) := by
  obtain ⟨rows, hrows, hkeys, hstatus, hjobs, hnotes⟩ := h.rows
  have hsent : ∀ r ∈ rows, r.status = .SENT ∧ r.attempts = 1 := by
    intro r hr
    refine (hstatus r hr).resolve_left fun hpending => ?_
    rw [drained] at hjobs
    have hnone := List.map_eq_nil_iff.mp hjobs.symm
    exact List.filter_eq_nil_iff.mp hnone r hr (decide_eq_true hpending.1)
  constructor
  · have houtline : rows.map Reminder.outline = (rows.map Reminder.key).map fun k => (k, .SENT, 1) := by
      rw [List.map_map]
      refine List.map_congr_left fun r hr => ?_
      rw [Reminder.outline, (hsent r hr).1, (hsent r hr).2]
      rfl
    rw [hrows, List.map_append, houtline, hkeys, List.map_map]
    rfl
  · rw [List.filter_eq_self.mpr fun r hr => decide_eq_true (hsent r hr).1] at hnotes
    rwa [filterMap_noteOf? sound hkeys tasks] at hnotes

/-- The same reminders up to their ids and times, and the same notifications, in any order. -/
def Agree (s s' : Tables) : Prop :=
  (s.reminders.map Reminder.outline).Perm (s'.reminders.map Reminder.outline) ∧ s.notes.Perm s'.notes

theorem mem_dues {now : Date} {d : Due} (hd : d ∈ s.dues now) : d.task ∈ s.board.tasks := by
  rcases List.mem_append.mp hd with hd | hd
  · obtain ⟨x, hx, rfl⟩ := List.mem_map.mp hd
    exact (List.mem_filter.mp hx).1
  · obtain ⟨x, hx, rfl⟩ := List.mem_map.mp hd
    exact (List.mem_filter.mp hx).1

/-- A scan without a queue and a scan with one, whose jobs the worker then attempts until none is left, agree exactly
    if all tasks that are due have their reminders already. -/
theorem modes_agree_iff (pg : Postgres) (s : Tables) (h : s.Sound) (idle : s.queue.jobs = []) (now : Date)
    (env env' : Nat → Env) (ws : List (Uuid × (Nat → Env))) (served : (system pg false).Serves (.scan now) env s)
    (served' : (system pg true).ServesAll ((.scan now, env') :: works ws) s)
    (drained : ((system pg true).serveAll ((.scan now, env') :: works ws) s).2.queue.jobs = []) :
    Agree ((system pg false).serve (.scan now) env s).2
        ((system pg true).serveAll ((.scan now, env') :: works ws) s).2 ↔ ∀ d ∈ s.dues now, d.key ∈ s.keys := by
  have hdirect := serve_scan h served
  obtain ⟨rows, hrows, houtline, -⟩ := hdirect.rows
  have htasks : ∀ d ∈ s.created (s.dues now), d.task ∈ s.board.tasks := fun d hd => mem_dues (List.mem_filter.mp hd).1
  obtain ⟨hsent, hnotes⟩ := (serveAll_works ((serve_scan h served'.1).draining idle) served'.2).done drained htasks h
  have hcreated : s.created (s.dues now) = [] ↔ ∀ d ∈ s.dues now, d.key ∈ s.keys := by
    simp [Tables.created, List.filter_eq_nil_iff]
  have hrow : ((system pg false).serve (.scan now) env s).2.reminders.map Reminder.outline =
      s.reminders.map Reminder.outline ++ (s.created (s.dues now)).map fun d => (d.key, .SENT, 0) := by
    rw [hrows, List.map_append, houtline]
    rfl
  have hsent' : ((system pg true).serveAll ((.scan now, env') :: works ws) s).2.reminders.map Reminder.outline =
      s.reminders.map Reminder.outline ++ (s.created (s.dues now)).map fun d => (d.key, .SENT, 1) := hsent
  rw [← hcreated, Agree, hrow, hsent', hdirect.notes, List.perm_append_left_iff]
  constructor
  · rintro ⟨hperm, -⟩
    refine List.eq_nil_iff_forall_not_mem.mpr fun d hd => ?_
    have hmem : (d.key, ReminderStatus.SENT, 0) ∈ (s.created (s.dues now)).map fun d => (d.key, ReminderStatus.SENT, 0) :=
      List.mem_map_of_mem hd
    obtain ⟨d', -, heq⟩ := List.mem_map.mp (hperm.subset hmem)
    cases congrArg (·.2.2) heq
  · intro hnone
    rw [hnone] at hnotes ⊢
    exact ⟨List.Perm.refl _, hnotes.symm⟩

end

/-- A task of user 9 is due at 10. -/
def dueBoard : Board.Tables :=
  { Board.twoTasks with
    tasks := [{ Board.task 10 with assigneeId := some 9, dueDate := some 10 }], generated := ⟨[50], []⟩ }

/-- The task has been reminded of, or not. -/
def dueTables (reminded : Bool) : Tables :=
  { board := dueBoard, notifications := [], queue := ⟨[], []⟩,
    reminders := if reminded then [⟨50, 10, .DUE_SOON, 10, .SENT, 0, none⟩] else [] }

theorem dueBoard_wellFormed : dueBoard.WellFormed where
  projects := by decide
  tasks := by decide
  comments := by decide
  activity := by decide
  taskProject := by decide
  taskParent t ht p hp := by
    rw [dueBoard, List.mem_singleton] at ht
    subst ht
    cases hp
  commentTask _ h := absurd h List.not_mem_nil
  commentParent _ h := absurd h List.not_mem_nil
  activityTask _ h := absurd h List.not_mem_nil

theorem dueBoard_registered : dueBoard.Registered where
  assignee t ht u hu := by
    rw [dueBoard, List.mem_singleton] at ht
    subst ht
    cases hu
    decide
  creator := by decide
  author _ h := absurd h List.not_mem_nil

theorem dueTables_sound (reminded : Bool) : (dueTables reminded).Sound where
  wellFormed := by
    cases reminded with
    | false =>
      exact ⟨dueBoard_wellFormed, List.nodup_nil, List.nodup_nil, fun _ h => absurd h List.not_mem_nil,
        fun _ h => absurd h List.not_mem_nil⟩
    | true => exact ⟨dueBoard_wellFormed, by decide, by decide, by decide, by decide⟩
  registered := dueBoard_registered
  inbox _ h := absurd h List.not_mem_nil
  jobs _ h := absurd h List.not_mem_nil
  completed _ h := absurd h List.not_mem_nil
  holds _ h := h.elim

/-- An attempt at the job of the reminder that a scan of the task creates. -/
def oneWork : List (Uuid × (Nat → Env)) := [(103, fun n => envAt (10 + n))]

theorem modes_agree_reminded : Agree ((system .strict false).serve (.scan 5) envAt (dueTables true)).2
    ((system .strict true).serveAll ((.scan 5, envAt) :: works oneWork) (dueTables true)).2 :=
  (modes_agree_iff .strict (dueTables true) (dueTables_sound true) rfl 5 envAt envAt oneWork (by decide +kernel)
    (by decide +kernel) (by decide +kernel)).mpr (by decide +kernel)

/-- The reminder that the scan delivers itself has no attempts, the one that the worker delivers has one. -/
theorem modes_disagree : ∃ (s : Tables) (now : Date) (env env' : Nat → Env) (ws : List (Uuid × (Nat → Env))), s.Sound ∧
    s.queue.jobs = [] ∧ (system .strict false).Serves (.scan now) env s ∧
      (system .strict true).ServesAll ((.scan now, env') :: works ws) s ∧
      ((system .strict true).serveAll ((.scan now, env') :: works ws) s).2.queue.jobs = [] ∧
      ¬ Agree ((system .strict false).serve (.scan now) env s).2
        ((system .strict true).serveAll ((.scan now, env') :: works ws) s).2 := by
  refine ⟨dueTables false, 5, envAt, envAt, oneWork, dueTables_sound false, rfl, by decide +kernel, by decide +kernel,
    by decide +kernel, ?_⟩
  rintro ⟨hperm, -⟩
  have hdirect : ((system .strict false).serve (.scan 5) envAt (dueTables false)).2.reminders.map Reminder.outline =
      [(⟨10, .DUE_SOON, 10⟩, .SENT, 0)] := by decide +kernel
  have hqueued : ((system .strict true).serveAll ((.scan 5, envAt) :: works oneWork) (dueTables false)).2.reminders.map
      Reminder.outline = [(⟨10, .DUE_SOON, 10⟩, .SENT, 1)] := by decide +kernel
  rw [hdirect, hqueued] at hperm
  exact absurd hperm (by decide)

end TaskPlatform.Reminders

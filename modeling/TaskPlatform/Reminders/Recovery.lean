import TaskPlatform.Reminders.Grounds

/-! What becomes of a pending reminder when calls fail and processes die: the insert that makes later scans skip the
    reminder comes before the job, or the delivery, that it stands for. -/

namespace TaskPlatform.Reminders
open Effects RemindersService

/-- A reminder with this id is there and pending. -/
def Tables.waits (s : Tables) (id : Uuid) : Bool := s.reminders.any fun r => r.id = id && r.status = .PENDING

/-- The insert adds a reminder. -/
def Tables.adds (s : Tables) (n : NewReminder) : Bool :=
  s.board.taskIds.contains n.taskId && n.key?.any fun k => !s.keys.contains k

/-- The reminder that the thread has created and not dispatched yet is still pending. -/
def State.owes (c : State) (t : Thread interface Request Response) : Bool :=
  (pending? (t.log.map Event.said)).any c.shared.waits

/-- No scan stops between the insert of a reminder and the call that dispatches it, while the reminder is pending: the
    process does not die there, the answer of the insert is not lost, and no call fails. -/
def undisturbed (c : State) : Move interface Request → Bool
  | .start _ _ => true
  | .kill i => (c.threads[i]?).all fun t => !c.owes t
  | .call i fate _ => (c.threads[i]?).all fun t =>
    match t.next? with
    | some (.insertReminder n) => fate ≠ .lost || !c.shared.adds n
    | some (.inbox _) => fate = .answered || !c.owes t
    | _ => fate ≠ .failed || !c.owes t

/-- The queue holds a job of the reminder. -/
def Tables.Holds (s : Tables) (id : Uuid) : Prop := ∃ j ∈ s.queue.jobs, j.id = id

/-- The queue holds a job of the reminder, or every scan that runs without faults dispatches it. -/
def Tables.Recoverable (pg : Postgres) (queue : Bool) (s : Tables) (id : Uuid) : Prop :=
  s.Holds id ∨ ∀ now env, (system pg queue).Serves (.scan now) env s →
    ((system pg queue).serve (.scan now) env s).2.Holds id ∨
      ∃ r ∈ ((system pg queue).serve (.scan now) env s).2.reminders, r.id = id ∧ r.status = .SENT

/-- A scan that goes on has created the reminder and not dispatched it yet. -/
def Dispatching (t : Thread interface Request Response) (id : Uuid) : Prop :=
  (∃ now, t.request = .scan now) ∧ ¬ t.Ended ∧ pending? (t.log.map Event.said) = some id

/-! ### What the programs do -/

section
variable {queue : Bool} {type : ReminderType} {log : List (Said interface)}

theorem dispatch_yields (task : Board.Task) :
    (dispatch queue type task).Yields (fun log _ => pending? log = none) log := by
  refine Prog.Yields.perform_bind (fun a => ?_) fun _ => rfl
  cases a with
  | none => exact rfl
  | some id =>
    simp only
    split
    · exact Prog.Yields.perform_bind (fun _ => rfl) fun _ => rfl
    · have hnotify : ∀ log, (notify task.id task.assigneeId type).Yields
          (fun log a => ∀ e, a = .error e → pending? log = none) log := by
        intro log
        cases task.assigneeId with
        | none => exact nofun
        | some a =>
          rw [notify, notifyAssignee, Notifications.NotificationsService.create, liftInbox_perform]
          exact Prog.Yields.perform_bind (fun _ => nofun) fun _ _ _ => rfl
      refine (hnotify _).bind (fun _ _ _ env => ?_) fun _ e h => h e rfl
      exact Prog.Yields.perform_bind (fun _ => rfl) fun _ => rfl

theorem dispatchAll_yields (tasks : List Board.Task) (t : ScanResult) (h : pending? log = none) :
    (dispatchAll queue type tasks t).Yields (fun log _ => pending? log = none) log := by
  induction tasks generalizing t log with
  | nil => exact h
  | cons task rest ih => exact (dispatch_yields task).bind (fun _ _ hlog => ih _ hlog) fun _ _ h => h

theorem scan_yields (now : Date) : (scan queue now).Yields (fun log _ => pending? log = none) [] := by
  refine Prog.Yields.perform_bind (fun dueSoon => ?_) fun _ => rfl
  refine Prog.Yields.perform_bind (fun overdue => ?_) fun _ => rfl
  exact (dispatchAll_yields _ _ rfl).bind (fun _ _ h => dispatchAll_yields _ _ h) fun _ _ h => h

/-- Wherever a scan ends, it has dispatched the reminder it created last, or a call of the dispatch has failed. -/
theorem program_yields (pg : Postgres) (r : Request) :
    ((system pg queue).program r).Yields (fun log _ => (∃ now, r = .scan now) → pending? log = none) [] := by
  cases r with
  | scan now =>
    have hscan : (scan queue now).Yields (fun log _ => (∃ t, Request.scan now = .scan t) → pending? log = none) [] :=
      (scan_yields now).mono fun _ _ h _ => h
    exact hscan.bind (fun _ _ h => h) fun _ _ h => h
  | work | board => exact Prog.yields_of_forall (fun _ _ ⟨_, h⟩ => nomatch h) _ _

/-- Only scans create reminders. -/
theorem program_creates (pg : Postgres) (r : Request) :
    ((system pg queue).program r).Makes (fun _ (c : Call) => (∃ n, c = .insertReminder n) → ∃ now, r = .scan now) [] := by
  have hgrounds : ∀ {log : List (Said interface)} {c : Call}, Grounds r log c → (∃ n, c = .insertReminder n) →
      ∃ now, r = .scan now := by
    rintro log _ h ⟨n, rfl⟩
    obtain ⟨now, task, said, hscan, -⟩ := h
    exact ⟨now, hscan⟩
  cases r with
  | scan now => exact Prog.makes_of_forall (fun _ _ _ => ⟨now, rfl⟩) _ _
  | work id =>
    exact ((work_grounds id).mono fun _ _ h => hgrounds h).bind (Prog.leaves_true _ _) fun _ _ _ => Prog.makes_ret
  | board r =>
    exact ((liftBoard_grounds _).mono fun _ _ h => hgrounds h).bind (Prog.leaves_true _ _) fun _ _ _ => Prog.makes_ret

end

/-! ### The job of a reminder -/

section
variable {pg : Postgres} {queue : Bool} {s s' : Tables} {env : Env} {op : Call} {id : Uuid}

/-- A job stays in the queue until it is completed. -/
theorem Tables.Holds.write (h : s.Holds id) (w : Write pg s env op s') (jobs : ∀ j ∈ s.queue.jobs, j.opts = jobOptions j.id) :
    s'.Holds id ∨ op = .completeJob id := by
  obtain ⟨j, hj, rfl⟩ := h
  cases w with
  | same | board | inbox | added | updated => exact Or.inl ⟨j, hj, rfl⟩
  | queued call =>
    rcases call with ⟨o, -, rfl⟩ | ⟨id, x, rfl, hx, rfl⟩ | ⟨id, x, rfl, hx, rfl⟩
    · refine Or.inl ⟨j, ?_, rfl⟩
      unfold Queue.add
      split
      · exact hj
      · exact List.mem_append_left _ hj
    · obtain ⟨-, rfl⟩ := mem_take? hx
      by_cases hid : j.id = x.id
      · exact Or.inr (congrArg Call.completeJob hid.symm)
      · exact Or.inl ⟨j, List.mem_filter.mpr ⟨hj, decide_eq_true hid⟩, rfl⟩
    · obtain ⟨hmem, rfl⟩ := mem_take? hx
      have hkept : (s.queue.fail x).jobs = s.queue.jobs.map fun y => if y.id = x.id then x.again else y := by
        have hremove : x.opts.removeOnFail = false := congrArg JobOptions.removeOnFail (jobs x hmem)
        rw [Queue.fail, hremove, Bool.and_false]
        rfl
      refine Or.inl ⟨if j.id = x.id then x.again else j, ?_, ?_⟩
      · rw [hkept]
        exact List.mem_map_of_mem hj
      · split
        · next hid => exact hid.symm
        · rfl

/-- A job that is added is in the queue, unless it has been completed before. -/
theorem holds_add {q : Queue} (completed : id ∉ q.completed) : ∃ j ∈ (q.add (jobOptions id)).jobs, j.id = id := by
  unfold Queue.add
  split
  · next h =>
    rcases Bool.or_eq_true_iff.mp h with h | h
    · obtain ⟨j, hj, hid⟩ := List.any_eq_true.mp h
      exact ⟨j, hj, of_decide_eq_true hid⟩
    · exact absurd (List.contains_iff_mem.mp h) completed
  · exact ⟨_, List.mem_append_right _ (List.mem_singleton_self _), rfl⟩

end

/-! ### Every move keeps the pending reminders -/

/-- The job of the reminder is in the queue, or the scan that created it goes on. -/
def Kept (c : State) (id : Uuid) : Prop := c.shared.Holds id ∨ ∃ t ∈ c.threads, Dispatching t id

section
variable {pg : Postgres} {queue : Bool} {ok : State → Move interface Request → Prop} {c d : State} {k : Knowledge}
  {i : Nat} {fate : Fate} {env : Env} {t : Thread interface Request Response} {op : Call} {r : Reminder}
  {next : Except Err op.Reply → Service Response} {s₀ : Tables}

theorem owes_of_dispatching (h : Dispatching t r.id) (mem : r ∈ c.shared.reminders) (pending : r.status = .PENDING) :
    c.owes t = true := by
  rw [State.owes, h.2.2]
  exact List.any_eq_true.mpr ⟨r, mem, by simp [pending]⟩

/-- A scan that has a reminder to dispatch after a call goes on. -/
theorem dispatching_resume (hr : (system pg queue).Reach ok (.initial s₀) c) (mem : t ∈ c.threads)
    (hnext : t.rest = .call op next) {now : Date} (scan : t.request = .scan now) {n : Nat} {id : Uuid}
    (pending : pending? (((system pg queue).resume t op next fate env c.shared n).log.map Event.said) = some id) :
    Dispatching ((system pg queue).resume t op next fate env c.shared n) id := by
  have hgoes : ¬ t.Ended := fun hended => by
    rw [Thread.Ended, Thread.next?, hnext] at hended
    cases hended
  have hyields := (hr.yields (program_yields pg) t mem).resolve_left hgoes
  refine ⟨⟨now, scan⟩, fun hended => ?_, pending⟩
  obtain ⟨_, hnone⟩ := System.ended_resume hnext hyields hended
  rw [hnone ⟨now, scan⟩] at pending
  cases pending

/-- What a scan with a reminder to dispatch makes of it by its next call. -/
theorem Dispatching.call (hr : (system pg queue).Reach ok (.initial s₀) c) (known : System.Known (fun _ => contract) Knowledge.Fits k c)
    (hok : undisturbed c (.call i fate env) = true) (ht : c.threads[i]? = some t) (hnext : t.rest = .call op next)
    (hadm : c.shared.board.generated.admits env = true) (h : Dispatching t r.id) (mem : r ∈ c.shared.reminders)
    (pending : r.status = .PENDING) (left : r ∈ ((system pg queue).effect fate env op c.shared).reminders) :
    ((system pg queue).effect fate env op c.shared).Holds r.id ∨
      Dispatching ((system pg queue).resume t op next fate env c.shared c.time) r.id := by
  have hmem := List.mem_of_getElem? ht
  have howes := owes_of_dispatching h mem pending
  have hcall : t.next? = some op := by rw [Thread.next?, hnext]; rfl
  obtain ⟨⟨now, hscan⟩, -, hpending⟩ := h
  have hfollows := (hr.makes (program_makes pg) t hmem).1.next hcall now hscan
  have hpre := known.pre ht hcall
  have hgoes : pending? (((system pg queue).resume t op next fate env c.shared c.time).log.map Event.said) = some r.id →
      Dispatching ((system pg queue).resume t op next fate env c.shared c.time) r.id :=
    dispatching_resume hr hmem hnext hscan
  have hsaid : ((system pg queue).resume t op next fate env c.shared c.time).log.map Event.said =
      ⟨op, (system pg queue).answer fate (exec pg env op (c.shared.spend env)).1⟩ :: t.log.map Event.said := rfl
  rw [hsaid] at hgoes
  simp only [undisturbed, ht, Option.all_some, hcall, howes, Bool.not_true, Bool.or_false] at hok
  generalize t.log.map Event.said = log at hfollows hpending hgoes
  cases hfollows with
  | looks idle =>
    rw [hpending] at idle
    cases idle
  | @enqueue n id log mode =>
    obtain rfl : id = r.id := Option.some.inj hpending
    have hcompleted : r.id ∉ c.shared.queue.completed := fun hmem => (known.1.completed _ hmem).2 r mem rfl pending
    refine Or.inl ?_
    cases fate with
    | failed => cases hok
    | answered | lost => exact holds_add hcompleted
  | @notify n id log input mode =>
    obtain ⟨_, heq, huser, hworkspace⟩ := hpre
    cases heq
    obtain rfl : fate = .answered := of_decide_eq_true hok
    have hcreates : Notifications.exec pg env (.insertNotification input) (c.shared.spend env).inbox = _ :=
      known.1.creates hadm huser hworkspace
    refine Or.inr (hgoes ?_)
    have hanswer : (exec pg env (.inbox (.insertNotification input)) (c.shared.spend env)).1 = .ok (input.saved env) :=
      congrArg Prod.fst hcreates
    rw [hanswer]
    exact hpending
  | @sent id _ now mode hsent =>
    obtain rfl : id = r.id := Option.some.inj (hsent.symm.trans hpending)
    have hleft : r ∈ ((c.shared.spend env).updateReminder r.id { status := .SENT, sentAt := some now }).reminders := by
      cases fate with
      | failed => cases hok
      | answered | lost => exact left
    rcases mem_updateReminder.mp hleft with ⟨-, hne⟩ | ⟨q, -, -, heq⟩
    · exact absurd rfl hne
    · have hstatus := congrArg Reminder.status heq
      rw [pending] at hstatus
      cases hstatus

/-- An insert that adds a reminder: the scan that made it goes on. -/
theorem inserted_call (hr : (system pg queue).Reach ok (.initial s₀) c) (hok : undisturbed c (.call i fate env) = true)
    (ht : c.threads[i]? = some t) (hnext : t.rest = .call op next) (new : r ∉ c.shared.reminders) {n : NewReminder}
    {due : Date} (call : op = .insertReminder n) (row : r = n.toRow env due)
    (left : r ∈ ((system pg queue).effect fate env op c.shared).reminders) :
    Dispatching ((system pg queue).resume t op next fate env c.shared c.time) r.id := by
  have hmem := List.mem_of_getElem? ht
  have hcall : t.next? = some op := by rw [Thread.next?, hnext]; rfl
  obtain ⟨now, hscan⟩ := (hr.makes (program_creates pg) t hmem).1.next hcall ⟨n, call⟩
  subst call
  simp only [undisturbed, ht, Option.all_some, hcall] at hok
  have hleft : r ∈ ((c.shared.spend env).insertReminder env n).2.reminders := by
    cases fate with
    | failed => exact absurd left new
    | answered | lost => exact left
  rcases insertReminder_cases (c.shared.spend env) env n with ⟨e, h⟩ | ⟨due, -, h, -⟩ | ⟨due, hdue, hkey, hid, htask, h⟩
  · rw [h] at hleft
    exact absurd hleft new
  · rw [h] at hleft
    exact absurd hleft new
  · have hanswered : fate = .answered := by
      have hadds : c.shared.adds n = true := by
        have hkey : (c.shared.keys.contains ⟨n.taskId, n.type, due⟩) = false := by
          rw [Bool.eq_false_iff]
          exact fun hmem => hkey (List.contains_iff_mem.mp hmem)
        have htask : c.shared.board.taskIds.contains n.taskId = true := List.contains_iff_mem.mpr htask
        rw [Tables.adds, NewReminder.key?, hdue, Option.map_some, Option.any_some, hkey, htask]
        rfl
      rw [hadds] at hok
      cases fate with
      | answered => rfl
      | failed => exact absurd left new
      | lost => cases hok
    subst hanswered
    have hanswer : (exec pg env (.insertReminder n) (c.shared.spend env)).1 = .ok (some env.uuid) := congrArg Prod.fst h
    have hpending : pending? (((system pg queue).resume t (.insertReminder n) next .answered env c.shared c.time).log.map
        Event.said) = some r.id := by
      have hsaid : ((system pg queue).resume t (.insertReminder n) next .answered env c.shared c.time).log.map Event.said =
        ⟨.insertReminder n, (exec pg env (.insertReminder n) (c.shared.spend env)).1⟩ :: t.log.map Event.said := rfl
      rw [hsaid, hanswer, row]
      rfl
    exact dispatching_resume hr hmem hnext hscan hpending

theorem mem_set_or {l : List (Thread interface Request Response)} {u v w : Thread interface Request Response} {j : Nat}
    (hu : u ∈ l) (hw : l[j]? = some w) : u = w ∨ u ∈ l.set j v := by
  obtain ⟨n, hn⟩ := List.mem_iff_getElem?.mp hu
  by_cases hj : j = n
  · subst hj
    exact Or.inl (Option.some.inj (hn.symm.trans hw))
  · exact Or.inr (List.mem_of_getElem? ((List.getElem?_set_ne hj).trans hn))

/-- Each move that disturbs no scan keeps the pending reminders. -/
theorem kept_step {m : Move interface Request} (hr : (system pg queue).Reach ok (.initial s₀) c)
    (known : System.Known (fun _ => contract) Knowledge.Fits k c) (hok : undisturbed c m = true)
    (hs : (system pg queue).step c m = some d) (kept : ∀ r ∈ c.shared.reminders, r.status = .PENDING → Kept c r.id) :
    ∀ r ∈ d.shared.reminders, r.status = .PENDING → Kept d r.id := by
  intro r mem pending
  cases m with
  | start req env =>
    obtain ⟨-, rfl⟩ := System.step_start hs
    rcases kept r mem pending with hholds | ⟨u, hu, hdispatching⟩
    · exact Or.inl hholds
    · exact Or.inr ⟨u, List.mem_append_left _ hu, hdispatching⟩
  | kill j =>
    obtain ⟨w, op, next, hw, -, rfl⟩ := System.step_kill hs
    rcases kept r mem pending with hholds | ⟨u, hu, hdispatching⟩
    · exact Or.inl hholds
    · rcases mem_set_or hu hw with rfl | hu
      · have howes : c.owes u = true := owes_of_dispatching hdispatching mem pending
        simp [undisturbed, hw, howes] at hok
      · exact Or.inr ⟨u, hu, hdispatching⟩
  | call i fate env =>
    obtain ⟨t, op, next, ht, hnext, hadm, rfl⟩ := System.step_call hs
    have hcall : t.next? = some op := by rw [Thread.next?, hnext]; rfl
    have hresumed : (system pg queue).resume t op next fate env c.shared c.time ∈
        c.threads.set i ((system pg queue).resume t op next fate env c.shared c.time) :=
      List.mem_of_getElem? (List.getElem?_set_self (List.getElem?_eq_some_iff.mp ht).1)
    by_cases hold : r ∈ c.shared.reminders
    · rcases kept r hold pending with hholds | ⟨u, hu, hdispatching⟩
      · refine Or.inl ?_
        have hwrite : Tables.Holds (exec pg env op (c.shared.spend env)).2 r.id := by
          have hholds : (c.shared.spend env).Holds r.id := hholds
          refine (hholds.write (exec_write pg (c.shared.spend env) env op) fun j hj => (known.1.jobs j hj).1).resolve_right ?_
          rintro rfl
          have hsettled : c.shared.Settled r.id := known.1.holds _ (known.pre ht hcall)
          exact hsettled.2 r hold rfl pending
        cases fate with
        | failed => exact hholds
        | answered | lost => exact hwrite
      · rcases mem_set_or hu ht with rfl | hu
        · rcases hdispatching.call hr known hok ht hnext hadm hold pending mem with hholds | hdispatching
          · exact Or.inl hholds
          · exact Or.inr ⟨_, hresumed, hdispatching⟩
        · exact Or.inr ⟨u, hu, hdispatching⟩
    · have horigin : r ∈ c.shared.reminders ∨
          (∃ id patch, ∃ q ∈ c.shared.reminders, op = .updateReminder id patch ∧ q.id = id ∧ r = patch.apply q) ∨
          ∃ n due, op = .insertReminder n ∧ n.scheduledFor = some due ∧ r = n.toRow env due := by
        cases fate with
        | failed => exact Or.inl mem
        | answered | lost => exact (exec_write pg (c.shared.spend env) env op).origin mem
      rcases horigin with hmem | ⟨id, patch, q, -, rfl, -, rfl⟩ | ⟨n, due, call, -, row⟩
      · exact absurd hmem hold
      · have hpatch : patch.status ≠ .PENDING := known.pre ht hcall
        exact absurd pending hpatch
      · exact Or.inr ⟨_, hresumed, inserted_call hr hok ht hnext hold call row mem⟩

end

/-- In every run in which no scan is disturbed, while no scan is in progress every pending reminder is recoverable. -/
theorem no_reminder_lost (pg : Postgres) (queue : Bool) (users workspaces : List Uuid) (generated : Generated) (c : State)
    (hr : (system pg queue).Reach (undisturbed · ·) (.initial (.start users workspaces generated)) c)
    (idle : ∀ t ∈ c.threads, ∀ now, t.request = .scan now → t.Ended) :
    ∀ r ∈ c.shared.reminders, r.status = .PENDING → c.shared.Recoverable pg queue r.id := by
  have hkept : ∀ r ∈ c.shared.reminders, r.status = .PENDING → Kept c r.id := by
    refine System.Reach.invariant_with
      (Q := fun c => (system pg queue).Reach (undisturbed · ·) (.initial (.start users workspaces generated)) c)
      (P := fun c => ∀ r ∈ c.shared.reminders, r.status = .PENDING → Kept c r.id) hr id
      (fun _ h => absurd h List.not_mem_nil) ?_
    intro c d m hr _ kept hok hs
    obtain ⟨k, -, known⟩ := (fits pg queue).reach (fun r k => program_meets pg r k) (start_fits users workspaces generated) hr
    exact kept_step hr known hok hs kept
  intro r hmem pending
  rcases hkept r hmem pending with hholds | ⟨t, ht, ⟨now, hscan⟩, hgoes, -⟩
  · exact Or.inl hholds
  · exact absurd (idle t ht now hscan) hgoes

/-- User 8 creates a task that is due at 10, and a scan at 5 inserts its reminder. -/
def inserted : List (Move interface Request) :=
  [.start (.board ⟨Uuid.text 1, .createProject 8 { name := "Website" }⟩) (envAt 1), .call 0 .answered (envAt 2),
   .start (.board ⟨Uuid.text 1, .createTask (Uuid.text 102) 8 { title := "Task", dueDate := some 10 }⟩) (envAt 3),
   .call 1 .answered (envAt 4), .call 1 .answered (envAt 5), .call 1 .answered (envAt 6),
   .start (.scan 5) (envAt 7), .call 2 .answered (envAt 8), .call 2 .answered (envAt 9), .call 2 .answered (envAt 10)]

theorem no_reminder_lost_queued : ∃ c : State, c.shared.reminders.map Reminder.status = [.PENDING] ∧
    ∀ r ∈ c.shared.reminders, r.status = .PENDING → c.shared.Recoverable .strict true r.id := by
  obtain ⟨c, hr, hidle, hstatus⟩ : ∃ c : State,
      (system .strict true).Reach (undisturbed · ·) (.initial (.start [8] [1] ⟨[], []⟩)) c ∧ c.Idle ∧
        c.shared.reminders.map Reminder.status = [.PENDING] :=
    System.reach_exists (inserted ++ [.call 2 .answered (envAt 11)]) (by decide +kernel)
  exact ⟨c, hstatus, no_reminder_lost .strict true [8] [1] ⟨[], []⟩ c hr fun t ht _ _ => hidle t ht⟩

/-- The process dies before it adds the job: the next scan finds the reminder and leaves it alone. -/
theorem reminder_lost : ∃ c : State, (system .strict true).Reach (fun _ _ => True) (.initial (.start [8] [1] ⟨[], []⟩)) c ∧
    (∀ t ∈ c.threads, ∀ now, t.request = .scan now → t.Ended) ∧
    ∃ r ∈ c.shared.reminders, r.status = .PENDING ∧ ¬ c.shared.Recoverable .strict true r.id := by
  obtain ⟨c, hr, hidle, hone, hjobs, hserves, hjobs', hone'⟩ : ∃ c : State,
      (system .strict true).Reach (fun _ _ => True) (.initial (.start [8] [1] ⟨[], []⟩)) c ∧ c.Idle ∧
        c.shared.reminders = [⟨110, 105, .DUE_SOON, 10, .PENDING, 0, none⟩] ∧ c.shared.queue.jobs = [] ∧
        (system .strict true).Serves (.scan 6) (fun n => envAt (20 + n)) c.shared ∧
        ((system .strict true).serve (.scan 6) (fun n => envAt (20 + n)) c.shared).2.queue.jobs = [] ∧
        ((system .strict true).serve (.scan 6) (fun n => envAt (20 + n)) c.shared).2.reminders =
          [⟨110, 105, .DUE_SOON, 10, .PENDING, 0, none⟩] :=
    System.reach_exists (inserted ++ [.kill 2]) (by decide +kernel)
  refine ⟨c, hr, fun t ht _ _ => hidle t ht, _, hone ▸ List.mem_singleton_self _, rfl, ?_⟩
  rintro (⟨j, hj, -⟩ | hscan)
  · rw [hjobs] at hj
    cases hj
  · rcases hscan 6 _ hserves with ⟨j, hj, -⟩ | ⟨r, hmem, -, hsent⟩
    · rw [hjobs'] at hj
      cases hj
    · rw [hone'] at hmem
      obtain rfl := List.mem_singleton.mp hmem
      cases hsent

end TaskPlatform.Reminders

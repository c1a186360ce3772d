import TaskPlatform.Reminders.Scans

/-! The status of a reminder: who delivers it and who marks it as failed update it by id, whatever its status is by
    then. -/

namespace TaskPlatform.Reminders
open Effects RemindersService

/-- The reminder is marked as failed although it was sent. -/
def Tables.unsends (s : Tables) : Call → Bool
  | .updateReminder id patch => patch.status = .FAILED && s.reminders.any fun r => r.id = id && r.status = .SENT
  | _ => false

/-- Where a reminder is marked as failed, it has not been sent. -/
def sparesSent (c : State) : Move interface Request → Bool
  | .call i fate _ =>
    match (c.threads[i]?).bind Thread.next? with
    | some op => fate = .failed || !c.shared.unsends op
    | none => true
  | _ => true

/-- What an update of the services sets: the time goes with the status `SENT`. -/
def Call.sets : Call → Prop
  | .updateReminder _ patch =>
    patch.status = .SENT ∧ patch.sentAt.isSome = true ∨ patch.status = .FAILED ∧ patch.sentAt = none
  | _ => True

/-- The calls of a scan and of the worker. -/
def Call.ofReminders : Call → Prop
  | .board _ => False
  | c => c.sets

theorem Call.ofReminders.sets {c : Call} (h : c.ofReminders) : c.sets := by
  cases c with
  | board => exact h.elim
  | _ => exact h

/-- `sentAt` is set exactly when the status is `SENT`. -/
def Tables.Dated (s : Tables) : Prop := ∀ r ∈ s.reminders, r.sentAt.isSome = true ↔ r.status = .SENT

/-- The id was handed out, and a reminder with it has been sent. -/
def Tables.Sent (s : Tables) (id : Uuid) : Prop :=
  id ∈ s.board.generated.uuids ∧ ∀ r ∈ s.reminders, r.id = id → r.status = .SENT

/-! ### What the programs update -/

section
variable {queue : Bool} {α : Type}

theorem liftBoard_sets (p : Board.Service α) : (liftBoard p).Calls Call.sets :=
  Prog.Calls.lift (Prog.calls_of_forall (fun _ => trivial) p)

theorem liftInbox_calls (p : Notifications.Service α) : (liftInbox p).Calls Call.ofReminders :=
  Prog.Calls.lift (Prog.calls_of_forall (fun _ => trivial) p)

theorem notify_calls (taskId : Uuid) (assigneeId : Option UuidText) (type : ReminderType) :
    (notify taskId assigneeId type).Calls Call.ofReminders := by
  cases assigneeId with
  | none => trivial
  | some a => exact (liftInbox_calls _).bind fun _ => trivial

theorem dispatch_calls (type : ReminderType) (task : Board.Task) : (dispatch queue type task).Calls Call.ofReminders := by
  refine (Prog.calls_perform trivial).bind fun a => ?_
  cases a with
  | none => trivial
  | some id =>
    simp only
    split
    · exact (Prog.calls_perform trivial).bind fun _ => trivial
    · refine (notify_calls _ _ _).bind fun _ env => ?_
      exact (Prog.calls_perform (Or.inl ⟨rfl, rfl⟩)).bind fun _ => trivial

theorem dispatchAll_calls (type : ReminderType) (tasks : List Board.Task) (t : ScanResult) :
    (dispatchAll queue type tasks t).Calls Call.ofReminders := by
  induction tasks generalizing t with
  | nil => trivial
  | cons task rest ih => exact (dispatch_calls type task).bind fun _ => ih _

theorem deliverReminder_calls (id : Uuid) : (deliverReminder id).Calls Call.ofReminders := by
  refine (Prog.calls_perform trivial).bind fun a => ?_
  cases a with
  | none => trivial
  | some r =>
    simp only
    split
    · trivial
    · refine (Prog.calls_perform trivial).bind fun task => ?_
      have hnotify : (deliverReminder.notifyOf r task).Calls Call.ofReminders := by
        cases task with
        | none => trivial
        | some task => exact notify_calls _ _ _
      exact hnotify.bind fun _ env => Prog.calls_perform (Or.inl ⟨rfl, rfl⟩)

theorem work_calls (jobId : Uuid) : (ReminderProcessor.work jobId).Calls Call.ofReminders := by
  refine (Prog.calls_perform trivial).bind fun job => ?_
  cases job with
  | none => trivial
  | some job =>
    refine (deliverReminder_calls job.id).attempt.bind fun result => ?_
    cases result with
    | ok => exact Prog.calls_perform trivial
    | error e =>
      refine (Prog.calls_perform trivial).bind fun again => ?_
      simp only [ReminderProcessor.onFailed]
      split
      · exact Prog.calls_perform (Or.inr ⟨rfl, rfl⟩)
      · trivial

theorem scan_calls (now : Date) : (scan queue now).Calls Call.ofReminders := by
  refine (Prog.calls_perform trivial).bind fun soon => ?_
  refine (Prog.calls_perform trivial).bind fun late => ?_
  exact (dispatchAll_calls _ _ _).bind fun _ => dispatchAll_calls _ _ _

theorem program_sets (pg : Postgres) (r : Request) : ((system pg queue).program r).Calls Call.sets := by
  cases r with
  | scan now => exact ((scan_calls now).mono fun _ => Call.ofReminders.sets).bind fun _ => trivial
  | work id => exact ((work_calls id).mono fun _ => Call.ofReminders.sets).bind fun _ => trivial
  | board r => exact (liftBoard_sets _).bind fun _ => trivial

end

/-! ### What a move keeps -/

section
variable {pg : Postgres} {queue : Bool} {s s' : Tables} {env : Env} {c : Call} {id : Uuid} {r : Reminder}

/-- A reminder after a call is as it was, is new, or was updated as the services update it; one that was sent is not
    marked as failed. -/
theorem Write.status (w : Write pg s env c s') (sets : c.sets) (spares : s.unsends c = false) (hr : r ∈ s'.reminders) :
    r ∈ s.reminders ∨ (r.id = env.uuid ∧ r.status = .PENDING ∧ r.sentAt = none) ∨
      ∃ q ∈ s.reminders, q.id = r.id ∧ ((r.status = .SENT ∧ r.sentAt.isSome = true) ∨
        (q.status ≠ .SENT ∧ r.status = .FAILED ∧ r.sentAt = q.sentAt)) := by
  rcases w.origin hr with hr | ⟨id, patch, q, hq, rfl, rfl, rfl⟩ | ⟨n, due, rfl, -, rfl⟩
  · exact Or.inl hr
  · refine Or.inr (Or.inr ⟨q, hq, rfl, ?_⟩)
    rcases sets with ⟨hstatus, hat⟩ | ⟨hstatus, hat⟩
    · obtain ⟨at', hat⟩ := Option.isSome_iff_exists.mp hat
      exact Or.inl ⟨hstatus, by rw [ReminderPatch.apply, hat]; rfl⟩
    · refine Or.inr ⟨fun hsent => ?_, hstatus, by rw [ReminderPatch.apply, hat]; rfl⟩
      have hany : (s.reminders.any fun r => r.id = q.id && r.status = .SENT) = true :=
        List.any_eq_true.mpr ⟨q, hq, by simp [hsent]⟩
      rw [Tables.unsends, hstatus, hany] at spares
      cases spares
  · exact Or.inr (Or.inl ⟨rfl, rfl, rfl⟩)

theorem Tables.Dated.write (h : s.Dated) (w : Write pg s env c s') (sets : c.sets) (spares : s.unsends c = false) :
    s'.Dated := by
  intro r hr
  rcases w.status sets spares hr with hr | ⟨-, hstatus, hat⟩ | ⟨q, hq, -, ⟨hstatus, hat⟩ | ⟨hsent, hstatus, hat⟩⟩
  · exact h r hr
  · simp [hstatus, hat]
  · simp [hstatus, hat]
  · rw [hat, h q hq, hstatus]
    exact ⟨fun h => absurd h hsent, nofun⟩

theorem Tables.Sent.write (h : s.Sent id) (w : Write pg (s.spend env) env c s') (new : env.uuid ∉ s.board.generated.uuids)
    (sets : c.sets) (spares : s.unsends c = false) : s'.Sent id := by
  have hgenerated : s'.board.generated = (s.spend env).board.generated := by
    cases w with
    | @board b => exact (Board.exec_write pg (s.spend env).board env b).outside.2.2
    | _ => rfl
  refine ⟨hgenerated ▸ List.mem_cons_of_mem _ h.1, fun r hr hid => ?_⟩
  rcases w.status sets spares hr with hr | ⟨hnew, -⟩ | ⟨q, hq, hqid, ⟨hstatus, -⟩ | ⟨hsent, -⟩⟩
  · exact h.2 r hr hid
  · exact absurd (hid.symm.trans hnew ▸ h.1) new
  · exact hstatus
  · exact absurd (h.2 q hq (hqid.trans hid)) hsent

variable {c d : State} {m : Move interface Request} {ok : State → Move interface Request → Prop} {s₀ : Tables}

/-- A move spends values, or makes a call that updates as the services do and spares what was sent. -/
theorem spared_step (hr : (system pg queue).Reach ok (.initial s₀) c) (hok : sparesSent c m = true)
    (hs : (system pg queue).step c m = some d) :
    d.shared = c.shared ∨ (∃ env, d.shared = c.shared.spend env) ∨
      ∃ env op, env.uuid ∉ c.shared.board.generated.uuids ∧ op.sets ∧ c.shared.unsends op = false ∧
        Write pg (c.shared.spend env) env op d.shared := by
  rcases System.step_shared hs with heq | ⟨env, -, heq⟩ | ⟨i, fate, env, t, op, rfl, ht, hn, hadm, heq⟩
  · exact Or.inl heq
  · exact Or.inr (Or.inl ⟨env, heq⟩)
  · have hsets : op.sets := (hr.calls (program_sets pg) t (List.mem_of_getElem? ht)).next hn
    have hok : (decide (fate = .failed) || !c.shared.unsends op) = true := by simpa [sparesSent, ht, hn] using hok
    rw [heq]
    cases fate with
    | failed => exact Or.inr (Or.inl ⟨env, rfl⟩)
    | answered | lost =>
      refine Or.inr (Or.inr ⟨env, op, (Generated.admits_iff.mp hadm).1, hsets, ?_, exec_write pg _ env op⟩)
      simpa using hok

theorem dated_step (hr : (system pg queue).Reach ok (.initial s₀) c) (hok : sparesSent c m = true)
    (hs : (system pg queue).step c m = some d) (h : c.shared.Dated) : d.shared.Dated := by
  rcases spared_step hr hok hs with heq | ⟨env, heq⟩ | ⟨env, op, -, sets, spares, w⟩
  · exact heq ▸ h
  · exact heq ▸ h
  · exact Tables.Dated.write (s := c.shared.spend env) h w sets spares

theorem sent_step (hr : (system pg queue).Reach ok (.initial s₀) c) (hok : sparesSent c m = true)
    (hs : (system pg queue).step c m = some d) (h : c.shared.Sent id) : d.shared.Sent id := by
  rcases spared_step hr hok hs with heq | ⟨env, heq⟩ | ⟨env, op, new, sets, spares, w⟩
  · exact heq ▸ h
  · exact heq ▸ ⟨List.mem_cons_of_mem _ h.1, h.2⟩
  · exact h.write w new sets spares

end

/-- In a run that marks no sent reminder as failed, a reminder that has been sent stays so as long as it is there, and
    at every moment the reminders with a `sentAt` are the sent ones. -/
theorem sent_final (pg : Postgres) (queue : Bool) (users workspaces : List Uuid) (generated : Generated) (c : State)
    (hr : (system pg queue).Reach (sparesSent · ·) (.initial (.start users workspaces generated)) c) :
    (∀ i j s s', i ≤ j → c.at? i = some s → c.at? j = some s' → ∀ r ∈ s.reminders, r.status = .SENT →
      ∀ r' ∈ s'.reminders, r'.id = r.id → r'.status = .SENT) ∧
    ∀ i s, c.at? i = some s → ∀ r ∈ s.reminders, r.sentAt.isSome = true ↔ r.status = .SENT := by
  constructor
  · intro i j s s' le hi hj r hmem hsent
    have wf := wellFormed_at hr hi
    have hinit : s.Sent r.id := ⟨wf.issued r hmem, fun q hq hid => Table.eq_of_key wf.ids hq hmem hid ▸ hsent⟩
    exact (hr.carries (P := (Tables.Sent · r.id)) (fun hc hok hs h => sent_step hc hok hs h) hi hj le hinit).2
  · intro i s hi
    exact hr.carries (P := Tables.Dated) (fun hc hok hs h => dated_step hc hok hs h) hr.at?_zero hi (Nat.zero_le i)
      fun _ h => absurd h List.not_mem_nil

/-! ### A sent reminder is marked as failed -/

/-- User 8 creates a task that is due at 10, and a scan at 5 enqueues its reminder. -/
def enqueued : List (Move interface Request) :=
  [.start (.board ⟨Uuid.text 1, .createProject 8 { name := "Website" }⟩) (envAt 1), .call 0 .answered (envAt 2),
   .start (.board ⟨Uuid.text 1, .createTask (Uuid.text 102) 8 { title := "Task", dueDate := some 10 }⟩) (envAt 3),
   .call 1 .answered (envAt 4), .call 1 .answered (envAt 5), .call 1 .answered (envAt 6),
   .start (.scan 5) (envAt 7), .call 2 .answered (envAt 8), .call 2 .answered (envAt 9), .call 2 .answered (envAt 10),
   .call 2 .answered (envAt 11)]

/-- An attempt at the job that cannot read the reminder. -/
def failedAttempt (thread n : Nat) : List (Move interface Request) :=
  [.start (.work 110) (envAt n), .call thread .answered (envAt (n + 1)), .call thread .failed (envAt (n + 2)),
   .call thread .answered (envAt (n + 3))]

/-- The last attempt sends the reminder, but the answer to its update is lost. -/
def lastAttempt : List (Move interface Request) :=
  enqueued ++ failedAttempt 3 12 ++ failedAttempt 4 16 ++ failedAttempt 5 20 ++ failedAttempt 6 24 ++
    [.start (.work 110) (envAt 28), .call 7 .answered (envAt 29), .call 7 .answered (envAt 30),
     .call 7 .answered (envAt 31), .call 7 .lost (envAt 32), .call 7 .answered (envAt 33)]

set_option maxRecDepth 8000 in
theorem sent_final_last : ∃ (c : State), ∃ s ∈ c.at? 32, ∃ s' ∈ c.at? 33,
    s.reminders.map Reminder.status = [.SENT] ∧ ∀ r' ∈ s'.reminders, r'.id = 110 → r'.status = .SENT := by
  obtain ⟨c, hr, s, hs, s', hs', hids, hsent⟩ : ∃ c : State,
      (system .strict true).Reach (sparesSent · ·) (.initial (.start [8] [1] ⟨[], []⟩)) c ∧
        ∃ s ∈ c.at? 32, ∃ s' ∈ c.at? 33, s.reminders.map Reminder.id = [110] ∧
          s.reminders.map Reminder.status = [.SENT] := System.reach_exists lastAttempt (by decide +kernel)
  obtain ⟨r, hr', hid⟩ := List.map_eq_singleton_iff.mp hids
  have hstatus : r.status = .SENT := by simpa [hr'] using hsent
  have hfinal := (sent_final .strict true [8] [1] ⟨[], []⟩ c hr).1 32 33 s s' (by decide) hs hs' r
    (hr' ▸ List.mem_singleton_self r) hstatus
  exact ⟨c, s, hs, s', hs', hsent, fun r' hmem h => hfinal r' hmem (h.trans hid.symm)⟩

set_option maxRecDepth 8000 in
/-- The handler of that failure marks the reminder as failed. -/
theorem sent_then_failed : ∃ c : State,
    (system .strict true).Reach (fun _ _ => True) (.initial (.start [8] [1] ⟨[], []⟩)) c ∧
      ∃ s ∈ c.at? 32, ∃ s' ∈ c.at? 34, s.reminders.map Reminder.id = [110] ∧
        s.reminders.map Reminder.status = [.SENT] ∧ s'.reminders.map Reminder.id = [110] ∧
          s'.reminders.map Reminder.status = [.FAILED] ∧ s'.reminders.map Reminder.sentAt = [some (0 : Int)] :=
  System.reach_exists (lastAttempt ++ [.call 7 .answered (envAt 34)]) (by decide +kernel)

end TaskPlatform.Reminders

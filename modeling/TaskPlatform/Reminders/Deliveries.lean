import TaskPlatform.Library.Account
import TaskPlatform.Reminders.Grounds

/-! How many notifications the attempts at one job create: the status is tested first and set last, with the notification
    in between. -/

namespace TaskPlatform.Reminders
open Effects RemindersService

/-- A notification is created. -/
def Call.notifies : Call → Bool
  | .inbox (.insertNotification _) => true
  | _ => false

/-- The reminder is marked as sent. -/
def Call.sends : Call → Bool
  | .updateReminder _ patch => patch.status = .SENT
  | _ => false

/-- Of a run of `deliverReminder` that found its reminder not sent and has not updated it yet, whether it has created the
    notification. -/
def delivering? : List (Said interface) → Option Bool
  | ⟨.findReminder _, .ok (some r)⟩ :: _ => if r.status = .SENT then none else some false
  | ⟨.findTaskById _, .ok _⟩ :: log => delivering? log
  | ⟨.inbox _, .ok _⟩ :: log => (delivering? log).map fun _ => true
  | _ => none

def phase? (t : Thread interface Request Response) : Option Bool := delivering? (t.log.map Event.said)

/-- How often an attempt at this job has created a notification. -/
def deliveries (id : Uuid) (t : Thread interface Request Response) : Nat :=
  if t.request = .work id then (t.times Call.notifies).length else 0

/-- No attempt at the job has marked the reminder as sent, and none is about to, with its notification created. -/
def State.undelivered (c : State) (id : Uuid) : Bool := c.threads.all fun t =>
  t.request ≠ .work id || (t.times Call.sends).isEmpty && (t.next?.isNone || phase? t ≠ some true)

/-- An attempt creates its notification while the reminder is undelivered. Once it has, no failure keeps it from marking
    the reminder as sent. -/
def undoubled (c : State) : Move interface Request → Bool
  | .start _ _ => true
  | .kill i => (c.threads[i]?).all fun t => phase? t ≠ some true
  | .call i fate _ => (c.threads[i]?).all fun t =>
    match t.request, t.next? with
    | .work id, some (.inbox _) => fate = .failed || fate = .answered && c.undelivered id
    | .work _, some (.updateReminder _ _) => fate ≠ .failed || phase? t ≠ some true
    | _, _ => true

/-! ### What an attempt does -/

/-- What an attempt calls: it creates a notification before it has created one, and then marks the reminder. -/
def Works (log : List (Said interface)) (c : Call) : Prop :=
  (c.notifies = true → delivering? log = some false) ∧ (delivering? log = some true → c.sends = true)

section
variable {queue : Bool} {type : ReminderType} {log : List (Said interface)}

theorem works_of_quiet {c : Call} (h : delivering? log ≠ some true) (call : c.notifies = false) : Works log c := by
  refine ⟨fun hc => ?_, fun htrue => absurd htrue h⟩
  rw [call] at hc
  cases hc

/-- The notification of an attempt. -/
theorem notify_works (h : delivering? log = some false) (taskId : Uuid) (assigneeId : Option UuidText) :
    (notify taskId assigneeId type).Makes Works log ∧
      (notify taskId assigneeId type).Yields (fun log a => ∀ e, a = .error e → delivering? log ≠ some true) log := by
  cases assigneeId with
  | none => exact ⟨trivial, by rintro _ ⟨⟩⟩
  | some a =>
    rw [notify, notifyAssignee, Notifications.NotificationsService.create, liftInbox_perform]
    constructor
    · refine Prog.Makes.perform_bind ⟨fun _ => h, fun htrue => ?_⟩ fun _ => trivial
      rw [h] at htrue
      cases htrue
    · exact Prog.Yields.perform_bind (by rintro _ _ ⟨⟩) (by rintro _ _ _ ⟨⟩)

/-- An attempt marks the reminder once it has created the notification, unless a call fails. -/
theorem deliverReminder_works (h : delivering? log ≠ some true) (id : Uuid) :
    (deliverReminder id).Makes Works log ∧
      (deliverReminder id).Yields (fun log _ => delivering? log ≠ some true) log := by
  have hnotifyOf : ∀ {log} (r : Reminder) (task : Option Board.Task), delivering? log = some false →
      (deliverReminder.notifyOf r task).Makes Works log ∧
        (deliverReminder.notifyOf r task).Yields (fun log a => ∀ e, a = .error e → delivering? log ≠ some true) log := by
    intro log r task hlog
    cases task with
    | none => exact ⟨trivial, nofun⟩
    | some task => exact notify_works hlog _ _
  have hfound : ∀ {r : Reminder} {task : Option Board.Task}, r.status ≠ .SENT →
      delivering? (⟨.findTaskById r.taskId, .ok task⟩ :: ⟨.findReminder id, .ok (some r)⟩ :: log) = some false := fun hr => if_neg hr
  constructor
  · refine Prog.Makes.perform_bind (works_of_quiet h rfl) fun found => ?_
    cases found with
    | none => trivial
    | some r =>
      simp only
      split
      · trivial
      · next hr =>
        have hlog : delivering? (⟨.findReminder id, .ok (some r)⟩ :: log) = some false := if_neg hr
        refine Prog.Makes.perform_bind (works_of_quiet (by rw [hlog]; nofun) rfl) fun task => ?_
        refine (hnotifyOf r task (hfound hr)).1.bind (Prog.leaves_true _ _) fun log' _ _ => ?_
        exact Prog.Makes.read_bind fun env => Prog.Makes.perform ⟨nofun, fun _ => rfl⟩
  · refine Prog.Yields.perform_bind (fun found => ?_) fun _ => nofun
    cases found with
    | none => exact nofun
    | some r =>
      simp only
      split
      · next hr =>
        have hlog : delivering? (⟨.findReminder id, .ok (some r)⟩ :: log) = none := if_pos hr
        exact fun htrue => by rw [hlog] at htrue; cases htrue
      · next hr =>
        refine Prog.Yields.perform_bind (fun task => ?_) fun _ => nofun
        refine (hnotifyOf r task (hfound hr)).2.bind (fun log' _ _ env a => ?_) fun _ e herror => herror e rfl
        cases a <;> exact nofun

theorem work_works (jobId : Uuid) : (ReminderProcessor.work jobId).Makes Works [] ∧
    (ReminderProcessor.work jobId).Yields (fun log _ => delivering? log ≠ some true) [] := by
  have hfailed : ∀ {log} (again : Job), delivering? log ≠ some true → (ReminderProcessor.onFailed again).Makes Works log ∧
      (ReminderProcessor.onFailed again).Yields (fun log _ => delivering? log ≠ some true) log := by
    intro log again hlog
    rw [ReminderProcessor.onFailed]
    split
    · exact ⟨Prog.Makes.perform (works_of_quiet hlog rfl), fun a => by cases a <;> rintro ⟨⟩⟩
    · exact ⟨trivial, hlog⟩
  have hdelivers : ∀ job : Job, delivering? [⟨.takeJob jobId, .ok (some job)⟩] ≠ some true := by
    rintro _ ⟨⟩
  have hagain : ∀ {job again : Job} {log}, delivering? (⟨.failJob job.id, .ok again⟩ :: log) ≠ some true := by
    rintro _ _ _ ⟨⟩
  constructor
  · refine Prog.Makes.perform_bind (works_of_quiet (by rintro ⟨⟩) rfl) fun job => ?_
    cases job with
    | none => trivial
    | some job =>
      obtain ⟨hmakes, hyields⟩ := deliverReminder_works (hdelivers job) job.id
      refine hmakes.attempt.bind hyields.attempt.leaves ?_
      rintro log result ⟨_, -, hlog⟩
      cases result with
      | ok => exact Prog.Makes.perform (works_of_quiet hlog rfl)
      | error e => exact Prog.Makes.perform_bind (works_of_quiet hlog rfl) fun again => (hfailed again hagain).1
  · refine Prog.Yields.perform_bind (fun job => ?_) (by rintro _ ⟨⟩)
    cases job with
    | none => rintro ⟨⟩
    | some job =>
      refine (deliverReminder_works (hdelivers job) job.id).2.attempt.bind ?_ (by rintro log e ⟨_, ⟨⟩, _⟩)
      rintro log result -
      cases result with
      | ok => exact fun a => by cases a <;> rintro ⟨⟩
      | error e => exact Prog.Yields.perform_bind (fun again => (hfailed again hagain).2) (by rintro _ ⟨⟩)

theorem program_works (pg : Postgres) (r : Request) :
    ((system pg queue).program r).Makes (fun log c => (∃ id, r = .work id) → Works log c) [] ∧
      ((system pg queue).program r).Yields (fun log _ => (∃ id, r = .work id) → delivering? log ≠ some true) [] := by
  cases r with
  | work id =>
    obtain ⟨hmakes, hyields⟩ := work_works id
    constructor
    · exact (hmakes.mono fun _ _ h _ => h).bind (Prog.leaves_true _ _) fun _ _ _ => Prog.makes_ret
    · have hyields : (ReminderProcessor.work id).Yields
          (fun log _ => (∃ i, Request.work id = .work i) → delivering? log ≠ some true) [] := hyields.mono fun _ _ h _ => h
      exact hyields.bind (fun _ _ h => h) fun _ _ h => h
  | scan | board =>
    exact ⟨Prog.makes_of_forall (fun _ _ ⟨_, h⟩ => nomatch h) _ _, Prog.yields_of_forall (fun _ _ ⟨_, h⟩ => nomatch h) _ _⟩

end

/-! ### Every move keeps the count -/

/-- An attempt that has created a notification has marked the reminder as sent or is about to, and there is at most one. -/
structure Once (c : State) (id : Uuid) : Prop where
  marks : ∀ t ∈ c.threads, t.request = .work id → t.times Call.notifies ≠ [] →
    t.times Call.sends ≠ [] ∨ ¬ t.Ended ∧ phase? t = some true
  once : c.total (deliveries id) ≤ 1

section
variable {pg : Postgres} {queue : Bool} {ok : State → Move interface Request → Prop} {c d : State} {k : Knowledge}
  {i : Nat} {fate : Fate} {env : Env} {t : Thread interface Request Response} {op : Call} {id : Uuid}
  {next : Except Err op.Reply → Service Response} {s₀ : Tables}

/-- While the reminder is undelivered there is no notification. -/
theorem Once.undelivered (h : Once c id) (undelivered : c.undelivered id = true) : ∀ t ∈ c.threads, deliveries id t = 0 := by
  intro t ht
  rw [deliveries]
  split
  · next hwork =>
    have hall := List.all_eq_true.mp undelivered t ht
    simp only [hwork, ne_eq, not_true_eq_false, decide_false, Bool.false_or, Bool.and_eq_true, Bool.or_eq_true,
      List.isEmpty_iff, Option.isNone_iff_eq_none, decide_eq_true_eq] at hall
    obtain ⟨hsends, hphase⟩ := hall
    refine List.length_eq_zero_iff.mpr (Decidable.byContradiction fun hnotifies => ?_)
    rcases h.marks t ht hwork hnotifies with hmarked | ⟨hgoes, htrue⟩
    · exact hmarked hsends
    · rcases hphase with hended | hphase
      · exact hgoes hended
      · exact hphase htrue
  · rfl

/-- The call of an attempt that creates its notification. -/
theorem Once.notify (h : Once c id) (hr : (system pg queue).Reach ok (.initial s₀) c)
    (known : System.Known (fun _ => contract) Knowledge.Fits k c) (undelivered : c.undelivered id = true)
    (ht : c.threads[i]? = some t) (hnext : t.rest = .call op next) (hadm : c.shared.board.generated.admits env = true)
    (hwork : t.request = .work id) (notifies : op.notifies = true) :
    Once ⟨(system pg queue).effect .answered env op c.shared,
      c.threads.set i ((system pg queue).resume t op next .answered env c.shared c.time), c.past ++ [c.shared]⟩ id := by
  have hmem := List.mem_of_getElem? ht
  have hcall : t.next? = some op := by rw [Thread.next?, hnext]; rfl
  have hphase := ((hr.makes (fun r => (program_works pg r).1) t hmem).1.next hcall ⟨id, hwork⟩).1 notifies
  have hgoes : ¬ t.Ended := fun hended => by
    rw [Thread.Ended, hcall] at hended
    cases hended
  have hyields := (hr.yields (fun r => (program_works pg r).2) t hmem).resolve_left hgoes
  have hnone := h.undelivered undelivered
  have htimes : ∀ p, ((system pg queue).resume t op next .answered env c.shared c.time).times p =
      if p op = true then c.time :: t.times p else t.times p := fun p => System.times_resume p t op next .answered env _ _
  constructor
  · intro u hu hrequest hnotifies
    rcases List.mem_or_eq_of_mem_set hu with hu | rfl
    · exact h.marks u hu hrequest hnotifies
    · obtain ⟨input, rfl, huser, hworkspace⟩ : ∃ input, op = .inbox (.insertNotification input) ∧
          .user input.recipientId.uuid ∈ k ∧ input.workspaceId = none := by
        have hpre := known.pre ht hcall
        cases op with
        | inbox o =>
          obtain ⟨input, rfl, hinput⟩ := hpre
          exact ⟨input, rfl, hinput⟩
        | _ => cases notifies
      have hcreates : Notifications.exec pg env (.insertNotification input) (c.shared.spend env).inbox = _ :=
        known.1.creates hadm huser hworkspace
      have hanswer : (exec pg env (.inbox (.insertNotification input)) (c.shared.spend env)).1 = .ok (input.saved env) :=
        congrArg Prod.fst hcreates
      have hsaid : ((system pg queue).resume t (.inbox (.insertNotification input)) next .answered env c.shared
          c.time).log.map Event.said = ⟨.inbox (.insertNotification input),
            (exec pg env (.inbox (.insertNotification input)) (c.shared.spend env)).1⟩ :: t.log.map Event.said := rfl
      have htrue : phase? ((system pg queue).resume t (.inbox (.insertNotification input)) next .answered env c.shared
          c.time) = some true := by
        rw [phase?, hsaid, hanswer]
        exact congrArg (Option.map fun _ => true) hphase
      refine Or.inr ⟨fun hended => ?_, htrue⟩
      obtain ⟨_, hquiet⟩ := System.ended_resume hnext hyields hended
      exact hquiet ⟨id, hwork⟩ htrue
  · have hsum := sum_map_set (deliveries id) (y := (system pg queue).resume t op next .answered env c.shared c.time) ht
    have hzero : (c.threads.map (deliveries id)).sum = 0 := List.sum_eq_zero fun n hn => by
      obtain ⟨u, hu, rfl⟩ := List.mem_map.mp hn
      exact hnone u hu
    have hone : deliveries id ((system pg queue).resume t op next .answered env c.shared c.time) = 1 := by
      have hempty := hnone t hmem
      rw [deliveries, if_pos hwork] at hempty
      have hrequest : ((system pg queue).resume t op next .answered env c.shared c.time).request = .work id := hwork
      rw [deliveries, if_pos hrequest, htimes, if_pos notifies, List.length_cons, hempty]
    change ((c.threads.set i ((system pg queue).resume t op next .answered env c.shared c.time)).map (deliveries id)).sum ≤ 1
    omega

/-- A call that creates no notification of this job. -/
theorem Once.other (h : Once c id) (hr : (system pg queue).Reach ok (.initial s₀) c)
    (hok : undoubled c (.call i fate env) = true) (ht : c.threads[i]? = some t) (hnext : t.rest = .call op next)
    (other : t.request = .work id → (fate != .failed && op.notifies) = false) :
    Once ⟨(system pg queue).effect fate env op c.shared,
      c.threads.set i ((system pg queue).resume t op next fate env c.shared c.time), c.past ++ [c.shared]⟩ id := by
  have hmem := List.mem_of_getElem? ht
  have hcall : t.next? = some op := by rw [Thread.next?, hnext]; rfl
  have htimes : ∀ p, ((system pg queue).resume t op next fate env c.shared c.time).times p =
      if (fate != .failed && p op) = true then c.time :: t.times p else t.times p := fun p =>
    System.times_resume p t op next fate env _ _
  constructor
  · intro u hu hrequest hnotifies
    rcases List.mem_or_eq_of_mem_set hu with hu | rfl
    · exact h.marks u hu hrequest hnotifies
    · have hwork : t.request = .work id := hrequest
      obtain ⟨hnotifiesPhase, hsendsPhase⟩ := (hr.makes (fun r => (program_works pg r).1) t hmem).1.next hcall ⟨id, hwork⟩
      rw [htimes, other hwork, if_neg Bool.false_ne_true] at hnotifies
      refine Or.inl ?_
      rw [htimes]
      rcases h.marks t hmem hwork hnotifies with hmarked | ⟨-, htrue⟩
      · split
        · exact List.cons_ne_nil _ _
        · exact hmarked
      · -- The notification is created: this call marks the reminder.
        have hsends := hsendsPhase htrue
        have htook : fate ≠ .failed := by
          cases op with
          | updateReminder rid patch =>
            have htrue : phase? t = some true := htrue
            simpa [undoubled, ht, hwork, hcall, htrue] using hok
          | _ => cases hsends
        have hcond : (fate != .failed && op.sends) = true := by simp [hsends, htook]
        rw [if_pos hcond]
        exact List.cons_ne_nil _ _
  · have hsum := sum_map_set (deliveries id) (y := (system pg queue).resume t op next fate env c.shared c.time) ht
    have hsame : deliveries id ((system pg queue).resume t op next fate env c.shared c.time) = deliveries id t := by
      have hrequest : ((system pg queue).resume t op next fate env c.shared c.time).request = t.request := rfl
      by_cases hwork : t.request = .work id
      · rw [deliveries, deliveries, if_pos (hrequest.trans hwork), if_pos hwork, htimes, other hwork,
          if_neg Bool.false_ne_true]
      · rw [deliveries, deliveries, if_neg (fun heq => hwork (hrequest.symm.trans heq)), if_neg hwork]
    have hone : (c.threads.map (deliveries id)).sum ≤ 1 := h.once
    change ((c.threads.set i ((system pg queue).resume t op next fate env c.shared c.time)).map (deliveries id)).sum ≤ 1
    omega

theorem once_initial (s : Tables) (id : Uuid) : Once (.initial s) id where
  marks _ h := absurd h List.not_mem_nil
  once := Nat.zero_le 1

theorem once_step {m : Move interface Request} (hr : (system pg queue).Reach ok (.initial s₀) c)
    (known : System.Known (fun _ => contract) Knowledge.Fits k c) (hok : undoubled c m = true)
    (hs : (system pg queue).step c m = some d) (h : Once c id) : Once d id := by
  cases m with
  | start r env =>
    obtain ⟨-, rfl⟩ := System.step_start hs
    constructor
    · intro u hu hrequest hnotifies
      rcases List.mem_append.mp hu with hu | hu
      · exact h.marks u hu hrequest hnotifies
      · obtain rfl := List.mem_singleton.mp hu
        exact absurd rfl hnotifies
    · have hone : (c.threads.map (deliveries id)).sum ≤ 1 := h.once
      simpa [Config.total, deliveries, Thread.times] using hone
  | kill j =>
    obtain ⟨w, op, next, hw, -, rfl⟩ := System.step_kill hs
    constructor
    · intro u hu hrequest hnotifies
      rcases List.mem_or_eq_of_mem_set hu with hu | rfl
      · exact h.marks u hu hrequest hnotifies
      · refine Or.inl ((h.marks w (List.mem_of_getElem? hw) hrequest hnotifies).resolve_right ?_)
        rintro ⟨_, htrue⟩
        simp [undoubled, hw, htrue] at hok
    · have hsum := sum_map_set (deliveries id) (y := { w with rest := .throw (system pg queue).fault }) hw
      have hsame : deliveries id { w with rest := .throw (system pg queue).fault } = deliveries id w := rfl
      have hone : (c.threads.map (deliveries id)).sum ≤ 1 := h.once
      change ((c.threads.set j { w with rest := .throw (system pg queue).fault }).map (deliveries id)).sum ≤ 1
      omega
  | call i fate env =>
    obtain ⟨t, op, next, ht, hnext, hadm, rfl⟩ := System.step_call hs
    have hcall : t.next? = some op := by rw [Thread.next?, hnext]; rfl
    by_cases hnotify : t.request = .work id ∧ (fate != .failed && op.notifies) = true
    · obtain ⟨hwork, hnotify⟩ := hnotify
      obtain ⟨htook, hnotifies⟩ := Bool.and_eq_true_iff.mp hnotify
      cases op with
      | inbox o =>
        have hcond : fate = .failed ∨ fate = .answered ∧ c.undelivered id = true := by
          simpa [undoubled, ht, hwork, hcall] using hok
        rcases hcond with rfl | ⟨rfl, hundelivered⟩
        · cases htook
        · exact h.notify hr known hundelivered ht hnext hadm hwork hnotifies
      | _ => cases hnotifies
    · exact h.other hr hok ht hnext fun hwork => Bool.eq_false_iff.mpr fun hnotifies => hnotify ⟨hwork, hnotifies⟩

end

/-- In every run that meets the condition, the attempts at a job create at most one notification. -/
theorem delivered_once (pg : Postgres) (users workspaces : List Uuid) (generated : Generated) (c : State)
    (hr : (system pg true).Reach (undoubled · ·) (.initial (.start users workspaces generated)) c) (id : Uuid) :
    c.total (deliveries id) ≤ 1 := by
  have honce : Once c id := by
    refine System.Reach.invariant_with
      (Q := fun c => (system pg true).Reach (undoubled · ·) (.initial (.start users workspaces generated)) c)
      (P := (Once · id)) hr (fun hr => hr) (once_initial _ id) ?_
    intro c d m hr _ once hok hs
    obtain ⟨k, -, known⟩ := (fits pg true).reach (fun r k => program_meets pg r k) (start_fits users workspaces generated) hr
    exact once_step hr known hok hs once
  exact honce.once

/-! ### Two attempts at one job -/

/-- An attempt that has created the notification of the reminder that `enqueuedScan` adds a job for. -/
def notified (thread n : Nat) : List (Move interface Request) :=
  [.start (.work 111) (envAt n), .call thread .answered (envAt (n + 1)), .call thread .answered (envAt (n + 2)),
   .call thread .answered (envAt (n + 3)), .call thread .answered (envAt (n + 4))]

set_option maxRecDepth 8000 in
theorem delivered_once_second_attempt : ∃ c : State, c.total (deliveries 111) = 1 ∧
    c.shared.reminders.map Reminder.status = [.SENT] ∧ ∀ id, c.total (deliveries id) ≤ 1 := by
  -- An attempt that cannot read the reminder, and one that delivers it.
  obtain ⟨c, hr, hone, hsent⟩ : ∃ c : State,
      (system .strict true).Reach (undoubled · ·) (.initial (.start [8, 9] [1] ⟨[], []⟩)) c ∧
        c.total (deliveries 111) = 1 ∧ c.shared.reminders.map Reminder.status = [.SENT] :=
    System.reach_exists (enqueuedScan ++ [.start (.work 111) (envAt 13), .call 3 .answered (envAt 14),
      .call 3 .failed (envAt 15), .call 3 .answered (envAt 16)] ++ notified 4 17 ++ [.call 4 .answered (envAt 22)])
      (by decide +kernel)
  exact ⟨c, hone, hsent, delivered_once .strict [8, 9] [1] ⟨[], []⟩ c hr⟩

set_option maxRecDepth 8000 in
/-- The update of the first attempt fails: the second one notifies again. -/
theorem delivered_twice : ∃ c : State, (system .strict true).Reach (fun _ _ => True) (.initial (.start [8, 9] [1] ⟨[], []⟩)) c ∧
    c.total (deliveries 111) = 2 ∧ c.shared.reminders.map Reminder.id = [111] ∧
      c.shared.notifications.map (·.recipientId) = [9, 9] :=
  System.reach_exists (enqueuedScan ++ notified 3 13 ++ [.call 3 .failed (envAt 18), .call 3 .answered (envAt 19)] ++
    notified 4 20) (by decide +kernel)

end TaskPlatform.Reminders

import TaskPlatform.Board.Users
import TaskPlatform.Library.Contract
import TaskPlatform.Reminders.Scans

/-! What scans and workers know when they make a call: that an id was given out, that a reminder is not pending and
    never will be again, that a user is registered. -/

namespace TaskPlatform.Reminders
open Effects RemindersService

/-- A reminder with this id has been or is there, and none is pending. -/
def Tables.Settled (s : Tables) (id : Uuid) : Prop :=
  id ∈ s.board.generated.uuids ∧ ∀ r ∈ s.reminders, r.id = id → r.status ≠ .PENDING

/-- Facts that once true stay true. -/
inductive Fact where
  | issued (id : Uuid)
  | settled (id : Uuid)
  | user (id : Uuid)

def Fact.Holds (s : Tables) : Fact → Prop
  | issued id => id ∈ s.board.generated.uuids
  | settled id => s.Settled id
  | user id => id ∈ s.board.users

abbrev Knowledge := Set Fact

/-- What is known where a call is made. -/
def Call.pre (k : Knowledge) : Call → Prop
  | .inbox c => ∃ input, c = .insertNotification input ∧ .user input.recipientId.uuid ∈ k ∧ input.workspaceId = none
  | .updateReminder _ patch => patch.status ≠ .PENDING
  | .addJob opts => opts = jobOptions opts.jobId ∧ .issued opts.jobId ∈ k
  | .completeJob id => .settled id ∈ k
  | _ => True

/-- The assignees of the tasks are known to be registered. -/
def Knowledge.Assignees (k : Knowledge) (tasks : List Board.Task) : Prop :=
  ∀ t ∈ tasks, ∀ a ∈ t.assigneeId, .user a.uuid ∈ k

/-- What is known from a reply. -/
def Call.post (k : Knowledge) : (c : Call) → c.Reply → Prop
  | .tasksDueSoon _ _, tasks => k.Assignees tasks
  | .tasksOverdue _, tasks => k.Assignees tasks
  | .insertReminder _, a => ∀ id ∈ a, .issued id ∈ k
  | .findReminder id, a => (∀ r ∈ a, r.id = id) ∧ (.issued id ∈ k → (∀ r ∈ a, r.status ≠ .PENDING) → .settled id ∈ k)
  | .findTaskById _, a => k.Assignees a.toList
  | .updateReminder id _, _ => .issued id ∈ k → .settled id ∈ k
  | .takeJob id, a => ∀ j ∈ a, j.id = id ∧ .issued id ∈ k
  | _, _ => True

theorem Call.pre.grow {k k' : Knowledge} {c : Call} (hk : k ≤ k') (h : c.pre k) : c.pre k' := by
  cases c with
  | inbox c =>
    obtain ⟨input, hc, huser, hworkspace⟩ := h
    exact ⟨input, hc, hk huser, hworkspace⟩
  | addJob opts => exact ⟨h.1, hk h.2⟩
  | completeJob id => exact hk h
  | _ => exact h

def contract : Contract interface Knowledge where
  pre := Call.pre
  post := Call.post
  alike _ a a' := a = a'
  grows := Call.pre.grow

/-- What is known holds, and what the tables and the queue keep. -/
structure Knowledge.Fits (k : Knowledge) (s : Tables) : Prop where
  wellFormed : s.WellFormed
  registered : s.board.Registered
  inbox : ∀ n ∈ s.notifications, n.id ∈ s.board.generated.uuids
  jobs : ∀ j ∈ s.queue.jobs, j.opts = jobOptions j.id ∧ j.id ∈ s.board.generated.uuids
  completed : ∀ id ∈ s.queue.completed, s.Settled id
  holds : ∀ f ∈ k, f.Holds s

section
variable {pg : Postgres} {s s' : Tables} {env : Env} {c : Call} {k : Knowledge} {id : Uuid}

/-! ### Facts last -/

theorem Write.outside (w : Write pg s env c s') :
    s'.board.users = s.board.users ∧ s'.board.workspaces = s.board.workspaces ∧
      s'.board.generated = s.board.generated := by
  cases w with
  | @board b => exact (Board.exec_write pg s.board env b).outside
  | _ => exact ⟨rfl, rfl, rfl⟩

theorem Write.registered (w : Write pg s env c s') (reg : s.board.Registered) : s'.board.Registered := by
  cases w with
  | board => exact Board.exec_registered pg env _ reg
  | _ => exact reg

theorem Tables.Settled.spend (h : s.Settled id) (env : Env) : (s.spend env).Settled id :=
  ⟨List.mem_cons_of_mem _ h.1, h.2⟩

theorem Tables.Settled.write (w : Write pg (s.spend env) env c s') (h : s.Settled id)
    (new : s.board.generated.admits env = true) (hpre : c.pre k) : s'.Settled id := by
  refine ⟨w.outside.2.2 ▸ List.mem_cons_of_mem _ h.1, fun r hr hid => ?_⟩
  rcases w.origin hr with hr | ⟨_, patch, q, hq, rfl, -, rfl⟩ | ⟨n, due, rfl, -, rfl⟩
  · exact h.2 r hr hid
  · exact hpre
  · obtain rfl : env.uuid = id := hid
    exact absurd h.1 (Generated.admits_iff.mp new).1

theorem Fact.Holds.write {f : Fact} (w : Write pg (s.spend env) env c s') (h : f.Holds s)
    (new : s.board.generated.admits env = true) (hpre : c.pre k) : f.Holds s' := by
  cases f with
  | issued id =>
    rw [Fact.Holds, w.outside.2.2]
    exact List.mem_cons_of_mem _ h
  | settled id => exact Tables.Settled.write w h new hpre
  | user id =>
    rw [Fact.Holds, w.outside.1]
    exact h

theorem Knowledge.Fits.spend (h : k.Fits s) (env : Env) : k.Fits (s.spend env) where
  wellFormed := h.wellFormed.spend env
  registered := { h.registered with }
  inbox n hn := List.mem_cons_of_mem _ (h.inbox n hn)
  jobs j hj := ⟨(h.jobs j hj).1, List.mem_cons_of_mem _ (h.jobs j hj).2⟩
  completed id hid := (h.completed id hid).spend env
  holds f hf := by
    cases f with
    | issued id => exact List.mem_cons_of_mem _ (h.holds _ hf)
    | settled id => exact (show s.Settled id from h.holds _ hf).spend env
    | user id => exact h.holds _ hf

/-! ### The queue -/

theorem mem_take? {q : Queue} {j : Job} (h : q.take? id = some j) : j ∈ q.jobs ∧ j.id = id := by
  have hp := List.find?_some h
  simp only [Bool.and_eq_true, decide_eq_true_eq] at hp
  exact ⟨List.mem_of_find?_eq_some h, hp.1⟩

theorem mem_add {q : Queue} {opts : JobOptions} {j : Job} (h : j ∈ (q.add opts).jobs) :
    j ∈ q.jobs ∨ j = ⟨opts, 0, false⟩ := by
  unfold Queue.add at h
  split at h
  · exact Or.inl h
  · exact (List.mem_append.mp h).imp_right List.mem_singleton.mp

theorem add_completed (q : Queue) (opts : JobOptions) : (q.add opts).completed = q.completed := by
  unfold Queue.add
  split <;> rfl

theorem mem_fail {q : Queue} {j x : Job} (h : x ∈ (q.fail j).jobs) : x ∈ q.jobs ∨ x = j.again := by
  unfold Queue.fail at h
  simp only at h
  split at h
  · exact Or.inl (List.mem_filter.mp h).1
  · obtain ⟨y, hy, rfl⟩ := List.mem_map.mp h
    split
    · exact Or.inr rfl
    · exact Or.inl hy

theorem fail_completed (q : Queue) (j : Job) : (q.fail j).completed = q.completed := by
  unfold Queue.fail
  simp only
  split <;> rfl

/-- The queue after a call: jobs with the options of `dispatch`, and completed ones of which no reminder is pending. -/
theorem Knowledge.Fits.queue_write (h : k.Fits s) (w : Write pg (s.spend env) env c s')
    (new : s.board.generated.admits env = true) (hpre : c.pre k) :
    (∀ j ∈ s'.queue.jobs, j.opts = jobOptions j.id ∧ j.id ∈ s'.board.generated.uuids) ∧
      ∀ id ∈ s'.queue.completed, s'.Settled id := by
  have hsettled : ∀ {id}, s.Settled id → s'.Settled id := fun hid => hid.write w new hpre
  have hjobs : ∀ j ∈ s.queue.jobs, j.opts = jobOptions j.id ∧ j.id ∈ s'.board.generated.uuids := fun j hj =>
    ⟨(h.jobs j hj).1, w.outside.2.2 ▸ List.mem_cons_of_mem _ (h.jobs j hj).2⟩
  cases w with
  | same | board | inbox | added | updated => exact ⟨hjobs, fun id hid => hsettled (h.completed id hid)⟩
  | queued call =>
    rcases call with ⟨opts, rfl, rfl⟩ | ⟨id, j, rfl, hj, rfl⟩ | ⟨id, j, rfl, hj, rfl⟩
    · refine ⟨fun j hj => ?_, fun id hid => hsettled (h.completed id (add_completed _ _ ▸ hid))⟩
      rcases mem_add hj with hj | rfl
      · exact hjobs j hj
      · have hissued : Fact.Holds s (.issued opts.jobId) := h.holds _ hpre.2
        exact ⟨hpre.1, List.mem_cons_of_mem _ hissued⟩
    · obtain ⟨-, rfl⟩ := mem_take? hj
      refine ⟨fun x hx => hjobs x (List.mem_filter.mp hx).1, fun id hid => ?_⟩
      rcases List.mem_cons.mp (List.mem_of_mem_take hid) with rfl | hid
      · exact hsettled (h.holds _ hpre)
      · exact hsettled (h.completed id hid)
    · obtain ⟨hmem, rfl⟩ := mem_take? hj
      refine ⟨fun x hx => ?_, fun id hid => hsettled (h.completed id (fail_completed _ _ ▸ hid))⟩
      rcases mem_fail hx with hx | rfl
      · exact hjobs x hx
      · exact hjobs j hmem

/-! ### The inbox -/

/-- The row of a notification that a scan or a worker creates can be inserted. -/
theorem Knowledge.Fits.creates (h : k.Fits s) (new : s.board.generated.admits env = true)
    {input : Notifications.CreateNotificationInput} (user : .user input.recipientId.uuid ∈ k)
    (workspace : input.workspaceId = none) :
    Notifications.exec pg env (.insertNotification input) (s.spend env).inbox =
      (.ok (input.saved env), { (s.spend env).inbox with notifications := s.notifications ++ [input.toRow env] }) := by
  have hfresh : env.uuid ∉ s.notifications.map Notifications.NotificationRow.id := fun hmem => by
    obtain ⟨n, hn, hid⟩ := List.mem_map.mp hmem
    exact (Generated.admits_iff.mp new).1 (hid ▸ h.inbox n hn)
  have huser : input.recipientId.uuid ∈ s.board.users := h.holds _ user
  simp [Notifications.exec, Notifications.Tables.insertNotification, Notifications.Tables.checkNotification,
    Notifications.CreateNotificationInput.toRow, Tables.inbox, Tables.spend, Board.Tables.spend, fresh, reference,
    hfresh, huser, workspace, commit]
  rfl

theorem Knowledge.Fits.inbox_write (h : k.Fits s) (w : Write pg (s.spend env) env c s')
    (new : s.board.generated.admits env = true) (hpre : c.pre k) :
    ∀ n ∈ s'.notifications, n.id ∈ s'.board.generated.uuids := by
  have hold : ∀ n ∈ s.notifications, n.id ∈ s'.board.generated.uuids := fun n hn =>
    w.outside.2.2 ▸ List.mem_cons_of_mem _ (h.inbox n hn)
  cases w with
  | same | board | added | updated | queued => exact hold
  | inbox call =>
    subst call
    obtain ⟨input, rfl, huser, hworkspace⟩ := hpre
    rw [h.creates new huser hworkspace]
    intro n hn
    rcases List.mem_append.mp hn with hn | hn
    · exact hold n hn
    · obtain rfl := List.mem_singleton.mp hn
      exact List.mem_cons_self ..

/-! ### Every call bears its contract out -/

/-- What holds after a call. -/
def Tables.known (s : Tables) : Knowledge := fun f => f.Holds s

theorem Knowledge.Fits.write (h : k.Fits s) (new : s.board.generated.admits env = true) (hpre : c.pre k) :
    Knowledge.Fits (exec pg env c (s.spend env)).2.known (exec pg env c (s.spend env)).2 := by
  have w := exec_write pg (s.spend env) env c
  obtain ⟨hjobs, hcompleted⟩ := h.queue_write w new hpre
  exact ⟨w.wellFormed (h.wellFormed.spend env) (List.mem_cons_self ..), w.registered (h.spend env).registered,
    h.inbox_write w new hpre, hjobs, hcompleted, fun f hf => hf⟩

/-- The assignees of tasks that are read are registered. -/
theorem Knowledge.Fits.assignees (h : k.Fits s) {rows : List Board.TaskRow} (sub : rows ⊆ s.board.tasks) :
    (s.spend env).known.Assignees (rows.map Board.TaskRow.toEntity) := by
  intro t ht a ha
  obtain ⟨x, hx, rfl⟩ := List.mem_map.mp ht
  obtain ⟨u, hu, rfl⟩ := Option.map_eq_some_iff.mp ha
  exact h.registered.assignee x (sub hx) u hu

theorem Knowledge.Fits.post (h : k.Fits s) (hpre : c.pre k) {a : c.Reply}
    (ha : (exec pg env c (s.spend env)).1 = .ok a) : c.post (exec pg env c (s.spend env)).2.known a := by
  cases c with
  | board | inbox | addJob | completeJob | failJob => trivial
  | tasksDueSoon | tasksOverdue =>
    cases ha
    exact h.assignees (List.filter_subset_self _)
  | findTaskById id =>
    cases ha
    rw [Call.post, Option.toList_map]
    exact h.assignees fun x hx => List.mem_of_find?_eq_some (Option.mem_toList.mp hx)
  | insertReminder n =>
    intro id hid
    rw [exec] at ha ⊢
    rcases insertReminder_cases (s.spend env) env n with ⟨e, hn⟩ | ⟨due, -, hn, -⟩ | ⟨due, -, -, -, -, hn⟩
    · rw [hn] at ha
      cases ha
    · rw [hn] at ha
      cases ha
      cases hid
    · rw [hn] at ha ⊢
      cases ha
      cases hid
      exact List.mem_cons_self ..
  | findReminder id =>
    cases ha
    refine ⟨fun r hr => by simpa using List.find?_some hr, fun hissued hstatus => ⟨hissued, fun r hr hid => ?_⟩⟩
    have hfind := Table.find?_key h.wellFormed.ids hr
    exact hstatus r (hid ▸ hfind)
  | updateReminder id patch =>
    refine fun hissued => ⟨hissued, fun r hr hid => ?_⟩
    rcases mem_updateReminder.mp hr with ⟨-, hne⟩ | ⟨q, -, -, rfl⟩
    · exact absurd hid hne
    · exact hpre
  | takeJob id =>
    cases ha
    intro j hj
    obtain ⟨hmem, hid⟩ := mem_take? hj
    exact ⟨hid, hid ▸ List.mem_cons_of_mem _ (h.jobs j hmem).2⟩

theorem fits (pg : Postgres) (queue : Bool) :
    (system pg queue).Fits (fun _ => contract) Knowledge.Fits where
  spend h _ := h.spend _
  call {k s env r c} h new hpre := by
    refine ⟨(exec pg env c (s.spend env)).2.known, fun f hf => ?_, h.write new hpre, fun a ha => h.post hpre ha⟩
    exact (h.holds f hf).write (exec_write pg (s.spend env) env c) new hpre

theorem start_fits (users workspaces : List Uuid) (generated : Generated) :
    Knowledge.Fits ∅ (Tables.start users workspaces generated) where
  wellFormed := start_wellFormed users workspaces generated
  registered :=
    ⟨fun _ h => absurd h List.not_mem_nil, fun _ h => absurd h List.not_mem_nil, fun _ h => absurd h List.not_mem_nil⟩
  inbox _ h := absurd h List.not_mem_nil
  jobs _ h := absurd h List.not_mem_nil
  completed _ h := absurd h List.not_mem_nil
  holds _ h := h.elim

end

/-! ### Every program keeps its contract -/

section
variable {k : Knowledge} {type : ReminderType} {queue : Bool} {α : Type} {Q : Knowledge → α → Prop}

/-- The rule of a call whose reply the program goes on with. -/
theorem call_meets {c : Call} {f : c.Reply → Service α} (pre : c.pre k)
    (next : ∀ k', k ≤ k' → ∀ a, c.post k' a → (f a).Meets contract Q k') : ((perform c).bind f).Meets contract Q k :=
  Prog.Meets.perform_bind pre (fun _ _ h => congrArg f h) next

/-- What a board request calls needs no knowledge. -/
theorem liftBoard_meets (p : Board.Service α) : (liftBoard p).Meets contract (fun _ _ => True) k := by
  induction p generalizing k with
  | ret | throw => trivial
  | ask p ih => exact fun env => ih env
  | call c p ih =>
    rw [liftBoard_call]
    exact ⟨trivial, fun a a' h => congrArg (fun a => liftBoard (p (.ok a))) h,
      fun k' _ => ⟨fun a _ => ih (.ok a), fun e => ih (.error e)⟩⟩

theorem notify_meets {taskId : Uuid} {assigneeId : Option UuidText} (user : ∀ a ∈ assigneeId, .user a.uuid ∈ k) :
    (notify taskId assigneeId type).Meets contract (fun _ _ => True) k := by
  cases assigneeId with
  | none => trivial
  | some a =>
    rw [notify, notifyAssignee, Notifications.NotificationsService.create, liftInbox_perform]
    exact call_meets ⟨_, rfl, user a rfl, rfl⟩ fun _ _ _ _ => trivial

theorem dispatch_meets {task : Board.Task} (user : ∀ a ∈ task.assigneeId, .user a.uuid ∈ k) :
    (dispatch queue type task).Meets contract (fun _ _ => True) k := by
  refine call_meets trivial fun k₁ hk₁ a ha => ?_
  cases a with
  | none => trivial
  | some id =>
    simp only
    split
    · exact call_meets ⟨rfl, ha id rfl⟩ fun _ _ _ _ => trivial
    · refine (notify_meets fun a ha => hk₁ (user a ha)).bind fun k₂ _ _ _ => ?_
      exact fun env => call_meets (fun h => nomatch h) fun _ _ _ _ => trivial

theorem dispatchAll_meets {tasks : List Board.Task} (h : k.Assignees tasks) (t : ScanResult) :
    (dispatchAll queue type tasks t).Meets contract (fun _ _ => True) k := by
  induction tasks generalizing k t with
  | nil => trivial
  | cons task rest ih =>
    refine (dispatch_meets (h task (List.mem_cons_self ..))).bind fun k' hk o _ => ?_
    exact ih (fun x hx a ha => hk (h x (List.mem_cons_of_mem _ hx) a ha)) _

theorem scan_meets (now : Date) : (scan queue now).Meets contract (fun _ _ => True) k := by
  refine call_meets trivial fun k₁ hk₁ dueSoon hsoon => ?_
  refine call_meets trivial fun k₂ hk₂ overdue hlate => ?_
  have hsoon : k₂.Assignees dueSoon := fun x hx a ha => hk₂ (hsoon x hx a ha)
  refine (dispatchAll_meets hsoon _).bind fun k₃ hk₃ t _ => ?_
  exact dispatchAll_meets (fun x hx a ha => hk₃ (hlate x hx a ha)) t

/-- A delivery that ends without an error leaves its reminder settled. -/
theorem deliverReminder_meets {id : Uuid} (issued : .issued id ∈ k) :
    (deliverReminder id).Meets contract (fun k _ => .settled id ∈ k) k := by
  refine call_meets trivial fun k₁ hk₁ a ⟨hid, hsettled⟩ => ?_
  have issued₁ : .issued id ∈ k₁ := hk₁ issued
  cases a with
  | none => exact hsettled issued₁ fun _ h => by cases h
  | some r =>
    obtain rfl := hid r rfl
    simp only
    split
    · next hsent => exact hsettled issued₁ fun x hx => by cases hx; exact fun h => by rw [hsent] at h; cases h
    · refine call_meets trivial fun k₂ hk₂ task htask => ?_
      have hnotify : (deliverReminder.notifyOf r task).Meets contract (fun _ _ => True) k₂ := by
        cases task with
        | none => trivial
        | some task => exact notify_meets (htask task (List.mem_singleton_self _))
      refine hnotify.bind fun k₃ hk₃ _ _ => ?_
      exact fun env => Prog.Meets.perform (fun h => nomatch h) (fun _ _ h => h) fun k₄ hk₄ _ h =>
        h (hk₄ (hk₃ (hk₂ issued₁)))

theorem work_meets (jobId : Uuid) : (ReminderProcessor.work jobId).Meets contract (fun _ _ => True) k := by
  refine call_meets trivial fun k₁ _ job hjob => ?_
  cases job with
  | none => trivial
  | some job =>
    obtain ⟨hid, hissued⟩ := hjob job rfl
    refine (deliverReminder_meets (hid ▸ hissued)).attempt.bind fun k₂ _ result hresult => ?_
    cases result with
    | ok u => exact Prog.Meets.perform (hresult u rfl) (fun _ _ h => h) fun _ _ _ _ => trivial
    | error e =>
      refine call_meets trivial fun k₃ _ again _ => ?_
      simp only [ReminderProcessor.onFailed]
      split
      · exact Prog.Meets.perform (fun h => nomatch h) (fun _ _ h => h) fun _ _ _ _ => trivial
      · trivial

theorem program_meets (pg : Postgres) (r : Request) (k : Knowledge) :
    ((system pg queue).program r).Meets contract (fun _ _ => True) k := by
  cases r with
  | scan now => exact (scan_meets now).bind fun _ _ _ _ => trivial
  | work id => exact (work_meets id).bind fun _ _ _ _ => trivial
  | board r => exact (liftBoard_meets _).bind fun _ _ _ _ => trivial

end
end TaskPlatform.Reminders

import TaskPlatform.Reminders.Dispatch

/-! Scans one after the other: the two windows leave no gap, so that a task gets both of its reminders. -/

namespace TaskPlatform.Reminders
open Effects RemindersService

/-- The task is open and due at this time. -/
def Tables.Open (s : Tables) (taskId : Uuid) (due : Date) : Prop :=
  ∃ x ∈ s.board.tasks, x.id = taskId ∧ x.dueDate = some due ∧ x.status ≠ .DONE ∧ x.status ≠ .CANCELLED

/-- A scan at this time that has ended, and not with an error. -/
def Scanned (c : State) (now : Date) (t : Thread interface Request Response) : Prop :=
  t ∈ c.threads ∧ t.request = .scan now ∧ ∃ r, t.result? = some (.ok r)

/-! ### What a scan has asked for -/

/-- The insert of the reminder of a task was answered. -/
def Inserted (log : List (Said interface)) (type : ReminderType) (task : Board.Task) : Prop :=
  ∃ a, ⟨.insertReminder ⟨task.id, type, task.dueDate⟩, .ok a⟩ ∈ log

/-- A scan that has ended read the tasks of both windows and inserted a reminder of each. -/
def Complete (now : Date) (log : List (Said interface)) : Prop :=
  (∃ tasks, ⟨.tasksDueSoon now (now + DUE_SOON_WINDOW_MS), .ok tasks⟩ ∈ log ∧
      ∀ task ∈ tasks, Inserted log .DUE_SOON task) ∧
    ∃ tasks, ⟨.tasksOverdue now, .ok tasks⟩ ∈ log ∧ ∀ task ∈ tasks, Inserted log .OVERDUE task

section
variable {queue : Bool} {type : ReminderType} {log log' : List (Said interface)} {α : Type}

theorem Inserted.more {task : Board.Task} (h : Inserted log type task) (sub : log ⊆ log') : Inserted log' type task :=
  h.imp fun _ ha => sub ha

theorem dispatch_inserts (task : Board.Task) :
    (dispatch queue type task).Leaves (fun log _ => Inserted log type task) log := by
  refine Prog.Leaves.bind (Prog.Leaves.perform (Q := fun log _ => Inserted log type task) fun a => ?_) fun log a h => ?_
  · exact ⟨a, List.mem_cons_self ..⟩
  · exact (Prog.Leaves.extends _ log).mono fun _ _ sub => h.more sub

theorem dispatchAll_inserts (tasks : List Board.Task) (t : ScanResult) :
    (dispatchAll queue type tasks t).Leaves (fun log _ => ∀ task ∈ tasks, Inserted log type task) log := by
  induction tasks generalizing t log with
  | nil => exact fun _ h => absurd h List.not_mem_nil
  | cons task rest ih =>
    refine (dispatch_inserts task).bind fun log o h => ?_
    refine ((ih _).and (Prog.Leaves.extends _ log)).mono fun log' _ ⟨hrest, sub⟩ x hx => ?_
    rcases List.mem_cons.mp hx with rfl | hx
    · exact h.more sub
    · exact hrest x hx

theorem scan_completes (now : Date) : (scan queue now).Leaves (fun log _ => Complete now log) [] := by
  refine Prog.Leaves.bind (Prog.Leaves.perform
    (Q := fun log tasks => ⟨.tasksDueSoon now (now + DUE_SOON_WINDOW_MS), .ok tasks⟩ ∈ log)
    fun tasks => List.mem_cons_self ..) fun log₁ dueSoon h₁ => ?_
  refine Prog.Leaves.bind (Prog.Leaves.perform
    (Q := fun log tasks => ⟨.tasksDueSoon now (now + DUE_SOON_WINDOW_MS), .ok dueSoon⟩ ∈ log ∧
      ⟨.tasksOverdue now, .ok tasks⟩ ∈ log)
    fun tasks => ⟨List.mem_cons_of_mem _ h₁, List.mem_cons_self ..⟩) fun log₂ overdue h₂ => ?_
  refine ((dispatchAll_inserts dueSoon _).and (Prog.Leaves.extends _ log₂)).bind fun log₃ t ⟨hsoon, sub₃⟩ => ?_
  refine ((dispatchAll_inserts overdue _).and (Prog.Leaves.extends _ log₃)).mono fun log₄ _ ⟨hlate, sub₄⟩ => ?_
  exact ⟨⟨dueSoon, sub₄ (sub₃ h₂.1), fun task h => (hsoon task h).more sub₄⟩, overdue, sub₄ (sub₃ h₂.2), hlate⟩

theorem program_completes (pg : Postgres) (r : Request) :
    ((system pg queue).program r).Leaves (fun log _ => ∀ now, r = .scan now → Complete now log) [] := by
  cases r with
  | scan now =>
    refine (scan_completes now).bind fun log _ h t ht => ?_
    cases ht
    exact h
  | work | board => exact (Prog.leaves_true _ _).mono fun _ _ _ _ h => nomatch h

end

/-! ### What it finds -/

section
variable {pg : Postgres} {queue : Bool} {users workspaces : List Uuid} {generated : Generated} {c : State}
  {ok : State → Move interface Request → Prop} {taskId : Uuid} {due : Date} {type : ReminderType}

/-- An open task whose due date is asked for is found, with its due date. -/
theorem Tables.Open.found {s : Tables} (h : s.Open taskId due) (asked : Date → Bool) (hdue : asked due = true) :
    ∃ task ∈ (s.board.tasks.filter (openTask asked)).map Board.TaskRow.toEntity, task.id = taskId ∧
      task.dueDate = some due := by
  obtain ⟨x, hx, hid, hdate, hdone, hcancelled⟩ := h
  refine ⟨x.toEntity, List.mem_map_of_mem (List.mem_filter.mpr ⟨hx, ?_⟩), hid, hdate⟩
  simp [openTask, hdate, hdue, hdone, hcancelled]

/-- After an insert was answered there is a reminder of its key. -/
theorem exec_inserted {s s' : Tables} {env : Env} {n : NewReminder} {a : Option Uuid} (wf : s.WellFormed)
    (new : s.board.generated.admits env = true) (scheduled : n.scheduledFor = some due)
    (h : exec pg env (.insertReminder n) (s.spend env) = (.ok a, s')) : ∃ id, s'.Reminds ⟨n.taskId, n.type, due⟩ id := by
  rw [exec] at h
  rcases insertReminder_cases (s.spend env) env n with ⟨e, hn⟩ | ⟨due', hdue, hn, hfound⟩ | ⟨due', hdue, -, -, -, hn⟩
  · rw [hn] at h
    cases h
  · obtain rfl : due = due' := Option.some.inj (scheduled.symm.trans hdue)
    rw [hn] at h
    cases h
    rcases hfound with hkey | hid
    · exact mem_keys.mp hkey
    · obtain ⟨r, hr, hid⟩ := List.mem_map.mp hid
      exact absurd (hid ▸ wf.issued r hr) (Generated.admits_iff.mp new).1
  · obtain rfl : due = due' := Option.some.inj (scheduled.symm.trans hdue)
    rw [hn] at h
    cases h
    exact ⟨env.uuid, n.toRow env due, List.mem_append_right _ (List.mem_singleton_self _), rfl, rfl⟩

/-- The scan inserted a reminder of a task that has been there since, so there is one. -/
theorem inserted_reminds (hr : (system pg queue).Reach ok (.initial (.start users workspaces generated)) c)
    {t : Thread interface Request Response} (ht : t ∈ c.threads) {task : Board.Task} (hid : task.id = taskId)
    (hdue : task.dueDate = some due) (h : Inserted (t.log.map Event.said) type task)
    (stays : ∀ n s, t.started < n → c.at? n = some s → taskId ∈ s.board.taskIds) :
    ∃ id, c.shared.Reminds ⟨taskId, type, due⟩ id := by
  obtain ⟨a, hsaid⟩ := h
  obtain ⟨n, s, env, hstarted, hn, hadm, hanswer, hnext⟩ := hr.said ht hsaid
  have hexec : exec pg env (.insertReminder ⟨task.id, type, task.dueDate⟩) (s.spend env) =
      (.ok a, (exec pg env (.insertReminder ⟨task.id, type, task.dueDate⟩) (s.spend env)).2) := Prod.ext hanswer rfl
  obtain ⟨id, hreminds⟩ := exec_inserted (wellFormed_at hr hn) hadm hdue hexec
  refine ⟨id, hid ▸ reminds_lasts hr hnext (System.at?_time c) (System.at?_le hnext) hreminds ?_⟩
  exact fun i a hi _ ha => hid ▸ stays i a (by omega) ha

theorem Tables.Open.mem {s : Tables} (h : s.Open taskId due) : taskId ∈ s.board.taskIds := by
  obtain ⟨x, hx, rfl, -⟩ := h
  exact List.mem_map_of_mem hx

/-- What a scan of a task that has been open since it started leads to. -/
theorem scanned_reminds (hr : (system pg queue).Reach ok (.initial (.start users workspaces generated)) c) {now : Date}
    {t : Thread interface Request Response} (scanned : Scanned c now t)
    (opened : ∀ n s, t.started < n → c.at? n = some s → s.Open taskId due) :
    (now < due → due ≤ now + DUE_SOON_WINDOW_MS → ∃ id, c.shared.Reminds ⟨taskId, .DUE_SOON, due⟩ id) ∧
      (due ≤ now → ∃ id, c.shared.Reminds ⟨taskId, .OVERDUE, due⟩ id) := by
  obtain ⟨ht, hreq, r, hresult⟩ := scanned
  obtain ⟨⟨soon, hsoon, hsoons⟩, late, hlate, hlates⟩ := hr.ended (program_completes pg) ht hresult now hreq
  have stays : ∀ n s, t.started < n → c.at? n = some s → taskId ∈ s.board.taskIds := fun n s hn hs =>
    (opened n s hn hs).mem
  constructor
  · intro hafter hwithin
    obtain ⟨n, s, env, hstarted, hn, -, hanswer, -⟩ := hr.said ht hsoon
    obtain ⟨task, htask, hid, hdue⟩ := (opened n s hstarted hn).found
      (fun d => now < d && d ≤ now + DUE_SOON_WINDOW_MS) (by simp [hafter, hwithin])
    have hmem : task ∈ soon := Except.ok.inj hanswer ▸ htask
    exact inserted_reminds hr ht hid hdue (hsoons task hmem) stays
  · intro hpast
    obtain ⟨n, s, env, hstarted, hn, -, hanswer, -⟩ := hr.said ht hlate
    obtain ⟨task, htask, hid, hdue⟩ := (opened n s hstarted hn).found (fun d => d ≤ now) (by simp [hpast])
    have hmem : task ∈ late := Except.ok.inj hanswer ▸ htask
    exact inserted_reminds hr ht hid hdue (hlates task hmem) stays

/-- Between a time before `due` and one that is not there are two neighbours on both sides of it. -/
theorem exists_crossing {t : Nat → Date} {i j : Nat} (le : i ≤ j) (before : t i < due) (after : due ≤ t j) :
    ∃ k, i ≤ k ∧ k < j ∧ t k < due ∧ due ≤ t (k + 1) := by
  induction le with
  | refl => exact absurd after (not_le.mpr before)
  | @step j le ih =>
    by_cases hj : due ≤ t j
    · obtain ⟨k, hik, hkj, hk⟩ := ih hj
      exact ⟨k, hik, Nat.lt_succ_of_lt hkj, hk⟩
    · exact ⟨j, le, Nat.lt_succ_self j, not_le.mp hj, after⟩

theorem countP_key_eq {s : Tables} (wf : s.WellFormed) {k : ReminderKey} {id : Uuid} (h : s.Reminds k id) :
    s.reminders.countP (·.key = k) = 1 := by
  obtain ⟨r, hr, hk, -⟩ := h
  exact Nat.le_antisymm (countP_key_le wf) (List.countP_pos_iff.mpr ⟨r, hr, decide_eq_true hk⟩)

end

/-- Scans at times that are at most 24 hours apart remind of a task that is open from a scan before it is due up to one
    after that: there is exactly one reminder of each type. -/
theorem reminded_in_time (pg : Postgres) (queue : Bool) (users workspaces : List Uuid) (generated : Generated)
    (c : State) (hr : (system pg queue).Reach (fun _ _ => True) (.initial (.start users workspaces generated)) c)
    (t : Nat → Date) (scans : Nat → Thread interface Request Response) (i j : Nat) (le : i ≤ j)
    (gaps : ∀ k, i ≤ k → k < j → t k < t (k + 1) ∧ t (k + 1) ≤ t k + 24 * 60 * 60 * 1000)
    (scanned : ∀ k, i ≤ k → k ≤ j → Scanned c (t k) (scans k)) (taskId : Uuid) (due : Date)
    (before : t i < due) (after : due ≤ t j)
    (opened : ∀ k, i ≤ k → k ≤ j → ∀ n s, (scans k).started < n → c.at? n = some s → s.Open taskId due) :
    c.shared.reminders.countP (·.key = ⟨taskId, .DUE_SOON, due⟩) = 1 ∧
      c.shared.reminders.countP (·.key = ⟨taskId, .OVERDUE, due⟩) = 1 := by
  have wf : c.shared.WellFormed := wellFormed_at hr (System.at?_time c)
  obtain ⟨k, hik, hkj, hbefore, hafter⟩ := exists_crossing le before after
  have hwithin : due ≤ t k + DUE_SOON_WINDOW_MS := le_trans hafter (gaps k hik hkj).2
  obtain ⟨hsoon, -⟩ := scanned_reminds hr (scanned k hik (Nat.le_of_lt hkj)) (opened k hik (Nat.le_of_lt hkj))
  obtain ⟨-, hlate⟩ := scanned_reminds hr (scanned (k + 1) (Nat.le_succ_of_le hik) hkj)
    (opened (k + 1) (Nat.le_succ_of_le hik) hkj)
  obtain ⟨_, hsoon⟩ := hsoon hbefore hwithin
  obtain ⟨_, hlate⟩ := hlate hafter
  exact ⟨countP_key_eq wf hsoon, countP_key_eq wf hlate⟩

/-- User 8 creates a task that is due at 10; a scan at 5 and a scan at 10 read it. -/
def twoScans : List (Move interface Request) :=
  [.start (.board ⟨Uuid.text 1, .createProject 8 { name := "Website" }⟩) (envAt 1), .call 0 .answered (envAt 2),
   .start (.board ⟨Uuid.text 1, .createTask (Uuid.text 102) 8 { title := "Task", dueDate := some 10 }⟩) (envAt 3),
   .call 1 .answered (envAt 4), .call 1 .answered (envAt 5), .call 1 .answered (envAt 6),
   .start (.scan 5) (envAt 7), .call 2 .answered (envAt 8), .call 2 .answered (envAt 9), .call 2 .answered (envAt 10),
   .call 2 .answered (envAt 11), .start (.scan 10) (envAt 12), .call 3 .answered (envAt 13),
   .call 3 .answered (envAt 14), .call 3 .answered (envAt 15), .call 3 .answered (envAt 16)]

instance (s : Tables) (taskId : Uuid) (due : Date) : Decidable (s.Open taskId due) :=
  inferInstanceAs (Decidable (∃ x ∈ s.board.tasks, _ ∧ _ ∧ _ ∧ _))

theorem twoScans_run : ∃ (c : State) (a b : Thread interface Request Response),
    (system .strict true).Reach (fun _ _ => True) (.initial (.start [8] [1] ⟨[], []⟩)) c ∧
      Scanned c 5 a ∧ Scanned c 10 b ∧ a.started = 6 ∧ b.started = 11 ∧
      ∀ s ∈ (c.past ++ [c.shared]).drop 7, s.Open 105 10 :=
  ⟨_, _, _, System.reach_of_run twoScans rfl, ⟨List.mem_of_getElem? (i := 2) rfl, rfl, _, rfl⟩,
    ⟨List.mem_of_getElem? (i := 3) rfl, rfl, _, rfl⟩, rfl, rfl, by decide +kernel⟩

theorem reminded_in_time_twice : ∃ c : State,
    c.shared.reminders.countP (·.key = ⟨105, .DUE_SOON, 10⟩) = 1 ∧
      c.shared.reminders.countP (·.key = ⟨105, .OVERDUE, 10⟩) = 1 := by
  obtain ⟨c, a, b, hr, ha, hb, hstarted, hlater, hopen⟩ := twoScans_run
  have opened : ∀ n s, 6 < n → c.at? n = some s → s.Open 105 10 := fun n s hn hs =>
    hopen s (System.at?_mem_drop hs hn)
  refine ⟨c, reminded_in_time .strict true [8] [1] ⟨[], []⟩ c hr (fun k => if k = 0 then 5 else 10)
    (fun k => if k = 0 then a else b) 0 1 (Nat.zero_le 1) ?_ ?_ 105 10 (by decide) (by decide) ?_⟩
  · intro k _ hk
    obtain rfl : k = 0 := Nat.lt_one_iff.mp hk
    decide
  · intro k _ hk
    rcases Nat.le_one_iff_eq_zero_or_eq_one.mp hk with rfl | rfl
    · exact ha
    · exact hb
  · intro k _ hk n s hn hs
    rcases Nat.le_one_iff_eq_zero_or_eq_one.mp hk with rfl | rfl
    · exact opened n s (hstarted ▸ hn) hs
    · have hn : 11 < n := hlater ▸ hn
      exact opened n s (by omega) hs

end TaskPlatform.Reminders

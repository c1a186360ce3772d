import TaskPlatform.Reminders.Modes

/-! What a scan that is served alone reports and leaves, whatever the tasks and the reminders are, and what the same
    scan does right after it. -/

namespace TaskPlatform.Reminders
open Effects RemindersService

/-- A scan at this time has to remind of this. -/
structure Tables.IsDue (s : Tables) (now : Date) (k : ReminderKey) : Prop where
  task : ∃ t ∈ s.board.tasks, t.id = k.taskId ∧ t.dueDate = some k.scheduledFor ∧ t.status ≠ .DONE ∧ t.status ≠ .CANCELLED
  window : k.type = .DUE_SOON ∧ now < k.scheduledFor ∧ k.scheduledFor ≤ now + 24 * 60 * 60 * 1000 ∨
    k.type = .OVERDUE ∧ k.scheduledFor ≤ now

/-- Nothing has changed, but for the ids that were given out. -/
def Unchanged (s s' : Tables) : Prop := ∃ generated, s' = { s with board := { s.board with generated } }

/-- What a scan reports, and how the tables are after it. -/
structure ScanOutcome (queue : Bool) (now : Date) (s s' : Tables) (result : ScanResult) : Prop where
  keys : ∀ k, k ∈ s'.keys ↔ k ∈ s.keys ∨ s.IsDue now k
  distinct : s'.keys.Nodup
  rows : ∃ rows, s'.reminders = s.reminders ++ rows ∧ result.created = rows.length ∧
    s'.notes = s.notes ++ (if queue then [] else rows.filterMap (s.noteOf? ·.key)) ∧
    s'.queue.jobs = s.queue.jobs ++ if queue then rows.map Reminder.job else []
  counted : result.created = result.delivered + result.enqueued
  mode : (if queue then result.delivered else result.enqueued) = 0

section
variable {pg : Postgres} {queue : Bool} {s s' s'' : Tables} {type : ReminderType} {now : Date} {k : ReminderKey}

/-! ### What is due -/

theorem openTask_iff {asked : Date → Bool} {t : Board.TaskRow} : openTask asked t = true ↔
    ∃ due, t.dueDate = some due ∧ asked due = true ∧ t.status ≠ .DONE ∧ t.status ≠ .CANCELLED := by
  unfold openTask
  cases t.dueDate <;> simp [and_assoc]

theorem key_of_due {t : Board.TaskRow} {due : Date} (h : t.dueDate = some due) :
    (Due.mk type t).key = ⟨t.id, type, due⟩ := by
  rw [Due.key, h, Option.getD_some]

/-- The keys of the open tasks of a window. -/
theorem mem_map_open {asked : Date → Bool} :
    k ∈ ((s.board.tasks.filter (openTask asked)).map (Due.mk type)).map Due.key ↔ k.type = type ∧
      asked k.scheduledFor = true ∧ ∃ t ∈ s.board.tasks, t.id = k.taskId ∧ t.dueDate = some k.scheduledFor ∧
        t.status ≠ .DONE ∧ t.status ≠ .CANCELLED := by
  rw [List.map_map, List.mem_map]
  constructor
  · rintro ⟨t, ht, rfl⟩
    obtain ⟨mem, hopen⟩ := List.mem_filter.mp ht
    obtain ⟨due, hdue, hasked, hstatus⟩ := openTask_iff.mp hopen
    rw [Function.comp_apply, key_of_due hdue]
    exact ⟨rfl, hasked, t, mem, rfl, hdue, hstatus⟩
  · rintro ⟨rfl, hasked, t, mem, hid, hdue, hstatus⟩
    refine ⟨t, List.mem_filter.mpr ⟨mem, openTask_iff.mpr ⟨_, hdue, hasked, hstatus⟩⟩, ?_⟩
    rw [Function.comp_apply, key_of_due hdue, hid]

theorem mem_keys_dues : k ∈ (s.dues now).map Due.key ↔ s.IsDue now k := by
  rw [Tables.dues, List.map_append, List.mem_append, mem_map_open, mem_map_open]
  simp only [Bool.and_eq_true, decide_eq_true_eq]
  constructor
  · rintro (⟨htype, hwindow, task⟩ | ⟨htype, hwindow, task⟩)
    · exact ⟨task, Or.inl ⟨htype, hwindow⟩⟩
    · exact ⟨task, Or.inr ⟨htype, hwindow⟩⟩
  · rintro ⟨task, ⟨htype, hwindow⟩ | ⟨htype, hwindow⟩⟩
    · exact Or.inl ⟨htype, hwindow, task⟩
    · exact Or.inr ⟨htype, hwindow, task⟩

/-- The keys after a scan. -/
theorem Dispatches.mem_keys_iff (h : Dispatches queue (s.dues now) s s') :
    k ∈ s'.keys ↔ k ∈ s.keys ∨ s.IsDue now k := by
  constructor
  · intro hk
    rw [h.keys] at hk
    rcases List.mem_append.mp hk with hold | hnew
    · exact Or.inl hold
    · obtain ⟨d, hd, rfl⟩ := List.mem_map.mp hnew
      exact Or.inr (mem_keys_dues.mp (List.mem_map_of_mem (List.mem_filter.mp hd).1))
  · rintro (hold | hdue)
    · rw [h.keys]
      exact List.mem_append_left _ hold
    · obtain ⟨d, hd, rfl⟩ := List.mem_map.mp (mem_keys_dues.mpr hdue)
      exact h.mem_keys hd

/-- What a scan alone dispatches, read off the rows that it adds. -/
theorem Dispatches.outcome (h : s.Sound) (hd : Dispatches queue (s.dues now) s s') :
    ScanOutcome queue now s s' (s.counts queue now (s.created (s.dues now)).length) where
  keys _ := hd.mem_keys_iff
  distinct := hd.aside.sound.wellFormed.keys
  rows := by
    obtain ⟨rows, hrows, houtline, hjobs⟩ := hd.rows
    have hkeys : rows.map Reminder.key = (s.created (s.dues now)).map Due.key := by
      have hfst := congrArg (List.map Prod.fst) houtline
      rwa [List.map_map, List.map_map] at hfst
    have htasks : ∀ d ∈ s.created (s.dues now), d.task ∈ s.board.tasks := fun d hd => mem_dues (List.mem_filter.mp hd).1
    refine ⟨rows, hrows, ?_, ?_, hjobs⟩
    · have hlength := congrArg List.length hkeys
      rw [List.length_map, List.length_map] at hlength
      rw [hlength]
      exact Nat.zero_add _
    · rw [filterMap_noteOf? h hkeys htasks]
      exact hd.notes
  counted := by
    cases queue <;> simp [Tables.counts, ScanResult.after]
  mode := by
    cases queue <;> rfl

/-! ### A scan with nothing to create -/

theorem Unchanged.spend (s : Tables) (env : Env) : Unchanged s (s.spend env) := ⟨_, rfl⟩

theorem Unchanged.trans (h : Unchanged s s') (h' : Unchanged s' s'') : Unchanged s s'' := by
  obtain ⟨g, rfl⟩ := h
  obtain ⟨g', rfl⟩ := h'
  exact ⟨g', rfl⟩

theorem Unchanged.keys (h : Unchanged s s') : s'.keys = s.keys := by
  obtain ⟨g, rfl⟩ := h
  rfl

theorem Unchanged.tasks (h : Unchanged s s') : s'.board.tasks = s.board.tasks := by
  obtain ⟨g, rfl⟩ := h
  rfl

variable (pg queue) in
/-- A task that has its reminder is passed over. -/
theorem dispatch_idle (h : s.Sound) (d : Due) (mem : d.task ∈ s.board.tasks) (due : d.task.dueDate.isSome = true)
    (old : d.key ∈ s.keys) :
    (system pg queue).Ends (dispatch queue d.type d.task.toEntity) s fun a s' =>
      a = .ok ⟨false, false, false⟩ ∧ s'.Sound ∧ Unchanged s s' := by
  obtain ⟨date, hdate⟩ := Option.isSome_iff_exists.mp due
  refine call_ends fun env new => ?_
  have hcall := insertReminder_handled pg queue h new (n := ⟨d.task.id, d.type, d.task.dueDate⟩) hdate
    (List.mem_map_of_mem mem)
  rw [key_of_due hdate] at old
  rw [if_pos old] at hcall
  exact ⟨none, _, hcall, System.Ends.ret ⟨rfl, h.spend env, .spend s env⟩⟩

variable (pg queue) in
theorem dispatchAll_idle (h : s.Sound) {rows : List Board.TaskRow} (sub : ∀ x ∈ rows, x ∈ s.board.tasks)
    (due : ∀ x ∈ rows, x.dueDate.isSome = true) (old : ∀ x ∈ rows, (Due.mk type x).key ∈ s.keys) (t : ScanResult) :
    (system pg queue).Ends (dispatchAll queue type (rows.map Board.TaskRow.toEntity) t) s fun a s' =>
      a = .ok t ∧ s'.Sound ∧ Unchanged s s' := by
  induction rows generalizing s with
  | nil => exact System.Ends.ret ⟨rfl, h, _, rfl⟩
  | cons x rows ih =>
    obtain ⟨hx, hrest⟩ := List.forall_mem_cons.mp old
    refine System.Ends.bind (dispatch_idle pg queue h ⟨type, x⟩ (sub x (List.mem_cons_self ..))
      (due x (List.mem_cons_self ..)) hx) ?_ fun e s₁ hend => nomatch hend.1
    rintro o s₁ ⟨heq, hsound, hsame⟩
    cases heq
    have hsub : ∀ y ∈ rows, y ∈ s₁.board.tasks := fun y hy => hsame.tasks ▸ sub y (List.mem_cons_of_mem _ hy)
    refine (ih hsound hsub (fun y hy => due y (List.mem_cons_of_mem _ hy)) fun y hy => hsame.keys ▸ hrest y hy).mono ?_
    rintro a s₂ ⟨rfl, hsound', hsame'⟩
    exact ⟨rfl, hsound', hsame.trans hsame'⟩

variable (pg queue) in
/-- A scan that finds a reminder of all that is due does nothing. -/
theorem scan_idle (h : s.Sound) (old : ∀ k, s.IsDue now k → k ∈ s.keys) :
    (system pg queue).Ends (scan queue now) s fun a s' => a = .ok (s.counts queue now 0) ∧ Unchanged s s' := by
  have hdue : ∀ asked, ∀ x ∈ s.board.tasks.filter (openTask asked), x.dueDate.isSome = true := fun asked x hx =>
    dueDate_of_open (List.mem_filter.mp hx).2
  have hold : ∀ d ∈ s.dues now, d.key ∈ s.keys := fun d hd => old _ (mem_keys_dues.mp (List.mem_map_of_mem hd))
  refine call_ends fun env new => ⟨_, _, rfl, ?_⟩
  refine call_ends fun env' new' => ⟨_, _, rfl, ?_⟩
  have hread : Unchanged s ((s.spend env).spend env') := .trans (.spend s env) (.spend _ env')
  refine System.Ends.bind (dispatchAll_idle pg queue ((h.spend env).spend env') (List.filter_subset_self _) (hdue _)
    (fun x hx => hold _ (List.mem_append_left _ (List.mem_map_of_mem hx))) _) ?_ fun e s₁ hend => nomatch hend.1
  rintro t s₁ ⟨heq, hsound, hsoon⟩
  cases heq
  have hlate : ∀ x ∈ s.board.tasks.filter (openTask (· ≤ now)), (Due.mk .OVERDUE x).key ∈ s₁.keys := fun x hx =>
    hsoon.keys ▸ hold _ (List.mem_append_right _ (List.mem_map_of_mem hx))
  have hsub : ∀ x ∈ s.board.tasks.filter (openTask (· ≤ now)), x ∈ s₁.board.tasks := fun x hx =>
    hsoon.tasks ▸ (List.mem_filter.mp hx).1
  refine (dispatchAll_idle pg queue hsound hsub (hdue _) hlate _).mono ?_
  rintro a s₂ ⟨rfl, -, hover⟩
  refine ⟨congrArg _ ?_, (hread.trans hsoon).trans hover⟩
  rw [Tables.counts, ScanResult.after_zero]
  simp only [List.length_map]
  rfl

/-- The same of a scan that is served alone. -/
theorem serve_idle (h : s.Sound) (old : ∀ k, s.IsDue now k → k ∈ s.keys) {env : Nat → Env}
    (served : (system pg queue).Serves (.scan now) env s) :
    ((system pg queue).serve (.scan now) env s).1 = .ok (.scanned (s.counts queue now 0)) ∧
      Unchanged s ((system pg queue).serve (.scan now) env s).2 := by
  have hold : ∀ k, (s.spend (env 0)).IsDue now k → k ∈ (s.spend (env 0)).keys := fun k due => old k ⟨due.task, due.window⟩
  have hends := (scan_idle pg queue (h.spend (env 0)) hold).bind (f := fun r => .ret (Response.scanned r))
    (R := fun a s' => a = .ok (.scanned (s.counts queue now 0)) ∧ Unchanged s s')
    (fun r s' hend => System.Ends.ret ⟨congrArg _ (congrArg _ (Except.ok.inj hend.1)), (Unchanged.spend s _).trans hend.2⟩)
    fun e s' hend => nomatch hend.1
  exact hends env served.2

/-- A scan alone reminds of exactly what is due and not reminded of yet, counts and delivers each of these reminders
    once, and leaves the others as they are; the same scan again changes nothing. -/
theorem scan_exact (pg : Postgres) (queue : Bool) (s : Tables) (h : s.Sound) (now : Date) (env : Nat → Env)
    (served : (system pg queue).Serves (.scan now) env s) :
    ∃ result s', (system pg queue).serve (.scan now) env s = (.ok (.scanned result), s') ∧
      ScanOutcome queue now s s' result ∧
      ∀ env', (system pg queue).Serves (.scan now) env' s' →
        ∃ again s'', (system pg queue).serve (.scan now) env' s' = (.ok (.scanned again), s'') ∧
          again.created = 0 ∧ again.delivered = 0 ∧ again.enqueued = 0 ∧ Unchanged s' s'' := by
  obtain ⟨hresult, hdispatches⟩ := serve_scan_counts h served
  refine ⟨_, _, Prod.ext hresult rfl, hdispatches.outcome h, fun env' served' => ?_⟩
  have htasks := hdispatches.aside.tasks
  have hdue : ∀ k, ((system pg queue).serve (.scan now) env s).2.IsDue now k →
      k ∈ ((system pg queue).serve (.scan now) env s).2.keys := by
    rintro k ⟨task, window⟩
    rw [htasks] at task
    exact hdispatches.mem_keys_iff.mpr (Or.inr ⟨task, window⟩)
  obtain ⟨hagain, hsame⟩ := serve_idle hdispatches.aside.sound hdue served'
  generalize (system pg queue).serve (.scan now) env' _ = answer at hagain hsame
  obtain ⟨_, s''⟩ := answer
  obtain rfl := hagain
  refine ⟨_, s'', rfl, rfl, ?_, ?_, hsame⟩
  · cases queue <;> rfl
  · cases queue <;> rfl

end

/-- A scan of a task that is due within a day. -/
theorem scan_exact_due : ∃ result s', (system .strict false).serve (.scan 5) envAt (dueTables false) =
    (.ok (.scanned result), s') ∧ ScanOutcome false 5 (dueTables false) s' result := by
  obtain ⟨result, s', hserve, houtcome, -⟩ := scan_exact .strict false (dueTables false) (dueTables_sound false) 5 envAt
    (by decide +kernel)
  exact ⟨result, s', hserve, houtcome⟩

end TaskPlatform.Reminders

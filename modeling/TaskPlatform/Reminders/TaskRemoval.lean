import TaskPlatform.Board.TaskRemoval
import TaskPlatform.Reminders.Knowledge
import TaskPlatform.Reminders.Statuses

/-! What goes with a task that is deleted, the reminders included, and that the board of every run keeps to the contract
    of the board. -/

namespace TaskPlatform.Reminders
open Effects

/-- The contract of a request of the board. The other requests make no calls of the board. -/
def boardContract (r : Request) : Contract interface Board.Knowledge where
  pre k
    | .board c => ∃ b, r = .board b ∧ b.pre k c
    | c => c.ofReminders
  post k
    | .board c => Board.Knowledge.post k c
    | _ => fun _ => True
  alike
    | .board c => Board.alike c
    | _ => Eq
  grows {k k' c} hk h := by
    cases c with
    | board c =>
      obtain ⟨b, rfl, hpre⟩ := h
      exact ⟨b, rfl, (Board.contract b).grows hk hpre⟩
    | _ => exact h

/-- The subtree of a task is deleted with all comments, activity and reminders of its tasks, nothing else is changed,
    and every reference is still to a row. -/
structure Tables.Removed (s s' : Tables) (t : Uuid) : Prop where
  board : s.board.Pruned s'.board t
  reminders : ∀ r, r ∈ s'.reminders ↔ r ∈ s.reminders ∧ r.taskId ∉ s.board.Subtree t
  rest : s'.notifications = s.notifications ∧ s'.queue = s.queue
  references : s'.WellFormed

section
variable {pg : Postgres} {queue : Bool} {s s' : Tables} {k : Board.Knowledge} {env : Nat → Env} {α : Type}
  {w p t : UuidText}

/-! ### Runs of the board beside the reminders -/

theorem own_fits {e : Env} {c : Call} (h : k.Fits s.board) (own : c.ofReminders) :
    k.Fits ((system pg queue).handler e c s).2.board := by
  have hboard : ((system pg queue).handler e c s).2.board = (s.spend e).board :=
    (exec_write pg (s.spend e) e c).board_same fun b hc => by rw [hc] at own; exact own
  rw [hboard]
  exact h.spend e

theorem board_fits (pg : Postgres) (queue : Bool) :
    (system pg queue).Fits boardContract fun k s => k.Fits s.board where
  spend h _ := h.spend _
  call {k s env r c} h new hpre := by
    cases c with
    | board c =>
      obtain ⟨b, rfl, hpre⟩ := hpre
      exact (Board.fits pg).call (r := b) h new hpre
    | _ => exact ⟨k, le_refl k, own_fits (c := _) h hpre, fun _ _ => trivial⟩

theorem liftBoard_keeps {b : Board.Request} {p : Board.Service α} {Q : Board.Knowledge → α → Prop}
    (h : p.Meets (Board.contract b) Q k) : (liftBoard p).Meets (boardContract (.board b)) Q k :=
  h.lift (fun hpre => ⟨b, rfl, hpre⟩) id id

theorem program_keeps (pg : Postgres) (r : Request) (k : Board.Knowledge) :
    ((system pg queue).program r).Meets (boardContract r) (fun _ _ => True) k := by
  have hown : ∀ {β : Type} {p : Service β}, p.Calls Call.ofReminders → p.Meets (boardContract r) (fun _ _ => True) k := by
    intro β p h
    refine (h.mono fun c hc => ?_).meets
    cases c with
    | board => exact hc.elim
    | _ => exact ⟨fun _ => hc, fun _ _ h => h⟩
  cases r with
  | scan now => exact (hown (scan_calls now)).bind fun _ _ _ _ => trivial
  | work id => exact (hown (work_calls id)).bind fun _ _ _ _ => trivial
  | board r => exact (liftBoard_keeps (Board.program_meets r k)).bind fun _ _ _ _ => trivial

/-- In every run the board is as its own requests keep it. -/
theorem board_known (users workspaces : List Uuid) (generated : Generated) {c : State}
    (hr : (system pg queue).Reach (fun _ _ => True) (.initial (Tables.start users workspaces generated)) c) :
    ∃ k : Board.Knowledge, k.Fits c.shared.board := by
  obtain ⟨k, -, hknown⟩ := (board_fits pg queue).reach (program_keeps pg) (k := ∅)
    (Board.start_fits users workspaces generated) hr
  exact ⟨k, hknown.1⟩

/-! ### Requests of the board that only delete -/

theorem withBoard_same {b : Board.Tables} (tasks : ∀ r ∈ s.reminders, r.taskId ∈ b.taskIds) :
    s.withBoard b = { s with board := b } := by
  have hfilter : s.reminders.filter (·.taskId ∈ b.taskIds) = s.reminders :=
    List.filter_eq_self.mpr fun r hr => decide_eq_true (tasks r hr)
  rw [Tables.withBoard, hfilter]

/-- The reminders that a second delete takes away. -/
theorem withBoard_withBoard {b b' : Board.Tables} (sub : b'.taskIds ⊆ b.taskIds) :
    (s.withBoard b).withBoard b' = s.withBoard b' := by
  have hfilter : (s.reminders.filter (·.taskId ∈ b.taskIds)).filter (·.taskId ∈ b'.taskIds) =
      s.reminders.filter (·.taskId ∈ b'.taskIds) := by
    rw [List.filter_filter]
    refine List.filter_congr fun r _ => ?_
    by_cases hr : r.taskId ∈ b'.taskIds
    · simp [hr, sub hr]
    · simp [hr]
  simp only [Tables.withBoard, hfilter]

variable (pg queue s env) in
/-- A request of the board that adds and sets no task leaves the reminders of the tasks that stay. -/
theorem liftBoard_run {q : Board.Service α} (h : q.Calls (Board.Call.leavesTasks · = true))
    (tasks : ∀ r ∈ s.reminders, r.taskId ∈ s.board.taskIds) :
    (liftBoard q).run (system pg queue).handler env s =
      ((q.run (Board.system pg).handler env s.board).1, s.withBoard (q.run (Board.system pg).handler env s.board).2) := by
  induction q generalizing env s with
  | ret | throw => exact Prod.ext rfl (withBoard_same tasks).symm
  | ask p ih => exact ih (env 0) s env (h (env 0)) tasks
  | call c p ih =>
    have hcall := ih ((Board.system pg).handler (env 1) c s.board).1
      (s.withBoard ((Board.system pg).handler (env 1) c s.board).2) (fun n => env (n + 1)) (h.2 _)
      fun r hr => of_decide_eq_true (List.mem_filter.mp hr).2
    rw [liftBoard_call]
    have hsub := List.map_subset Board.TaskRow.id (Board.run_leavesTasks pg (fun n => env (n + 1))
      ((Board.system pg).handler (env 1) c s.board).2 (h.2 ((Board.system pg).handler (env 1) c s.board).1))
    exact hcall.trans (Prod.ext rfl (withBoard_withBoard hsub))

variable (pg queue env) in
theorem serve_leaves {r : Board.Request} (h : r.operation.writesTask = false)
    (tasks : ∀ r ∈ s.reminders, r.taskId ∈ s.board.taskIds) :
    (system pg queue).serve (.board r) env s =
      (((Board.system pg).serve r env s.board).1.map .board, s.withBoard ((Board.system pg).serve r env s.board).2) := by
  have hrun := liftBoard_run pg queue (s.spend (env 0)) env
    (Board.program_leavesTasks h) tasks
  refine Prod.ext ((Prog.run_map_result _ _ Response.board _ _).trans ?_) ((Prog.run_map _ _ Response.board _ _).trans ?_)
  · exact congrArg (Except.map Response.board) (congrArg Prod.fst hrun)
  · exact congrArg Prod.snd hrun

/-! ### `remove` -/

theorem serve_wellFormed {r : Request} (h : s.WellFormed) (served : (system pg queue).Serves r env s) :
    ((system pg queue).serve r env s).2.WellFormed := by
  have keep : ∀ {s : Tables} {c : Call} {e : Env}, s.WellFormed → (system pg queue).admits s e = true →
      ((system pg queue).handler e c s).2.WellFormed := by
    intro s c e h _
    exact (exec_write pg (s.spend e) e c).wellFormed (h.spend e) (List.mem_cons_self ..)
  exact System.run_keeps keep (h.spend (env 0)) served.2

/-- From every state that a run can reach, and so also after requests one after another, `remove` deletes the subtree of
    the task with all that is attached to its tasks, and nothing else; a task that is not there is not found. -/
theorem remove_exact (pg : Postgres) (queue : Bool) (users workspaces : List Uuid) (generated : Generated) (c : State)
    (hr : (system pg queue).Reach (fun _ _ => True) (.initial (Tables.start users workspaces generated)) c)
    (w p t : UuidText) (env : Nat → Env) (served : (system pg queue).Serves (.board ⟨w, .removeTask p t⟩) env c.shared) :
    (∀ old, Board.Found w p t c.shared.board old →
      ((system pg queue).serve (.board ⟨w, .removeTask p t⟩) env c.shared).1 = .ok (.board .removed) ∧
        c.shared.Removed ((system pg queue).serve (.board ⟨w, .removeTask p t⟩) env c.shared).2 t.uuid) ∧
    ((∀ old, ¬ Board.Found w p t c.shared.board old) →
      ∃ e, ((system pg queue).serve (.board ⟨w, .removeTask p t⟩) env c.shared).1 = .error e ∧
        ∃ g, ((system pg queue).serve (.board ⟨w, .removeTask p t⟩) env c.shared).2 =
          { c.shared with board := { c.shared.board with generated := g } }) := by
  obtain ⟨k, hk⟩ := board_known users workspaces generated hr
  obtain ⟨k', -, hfits, -⟩ := (fits pg queue).reach (program_meets pg) (start_fits users workspaces generated) hr
  have wf := hfits.wellFormed
  have hafter := serve_wellFormed wf served
  have hserve := serve_leaves pg queue env (r := ⟨w, .removeTask p t⟩) rfl wf.task
  rcases Board.serve_remove pg env w p t wf.board with
    ⟨old, g, found, hboard⟩ | ⟨hnone, e, g, hboard⟩
  · rw [hboard] at hserve
    refine ⟨fun _ _ => ?_, fun hnone => absurd found (hnone old)⟩
    rw [hserve] at hafter ⊢
    have hpruned : c.shared.board.Pruned { c.shared.board.deleteTasks (·.id = t.uuid) with generated := g } t.uuid :=
      { hk.pruned t.uuid with }
    refine ⟨rfl, hpruned, fun r => ?_, ⟨rfl, rfl⟩, hafter⟩
    refine List.mem_filter.trans (and_congr_right fun hr => ?_)
    rw [decide_eq_true_eq, hpruned.taskIds]
    exact and_iff_right (wf.task r hr)
  · rw [hboard] at hserve
    refine ⟨fun old found => absurd found (hnone old), fun _ => ⟨e, congrArg Prod.fst hserve, g, ?_⟩⟩
    exact (congrArg Prod.snd hserve).trans (withBoard_same wf.task)

end
/-! ### A task with a subtask -/

/-- A task is created and one below it, user 8 comments on the lower one, which is due, and a scan reminds of it. -/
def nestAndScan : List (Move interface Request) :=
  [.start (.board ⟨Uuid.text 1, .createProject 8 { name := "Website" }⟩) (envAt 1), .call 0 .answered (envAt 2),
   .start (.board ⟨Uuid.text 1, .createTask (Uuid.text 102) 8 { title := "Upper" }⟩) (envAt 3),
   .call 1 .answered (envAt 4), .call 1 .answered (envAt 5), .call 1 .answered (envAt 6),
   .start (.board ⟨Uuid.text 1, .createTask (Uuid.text 102) 8
     { title := "Lower", dueDate := some 10, parentTaskId := some (Uuid.text 105) }⟩) (envAt 7),
   .call 2 .answered (envAt 8), .call 2 .answered (envAt 9), .call 2 .answered (envAt 10),
   .call 2 .answered (envAt 11),
   .start (.board ⟨Uuid.text 1, .createComment (Uuid.text 102) (Uuid.text 110) 8 { body := "Done?" }⟩) (envAt 12),
   .call 3 .answered (envAt 13), .call 3 .answered (envAt 14), .call 3 .answered (envAt 15),
   .call 3 .answered (envAt 16),
   .start (.scan 5) (envAt 17), .call 4 .answered (envAt 18), .call 4 .answered (envAt 19),
   .call 4 .answered (envAt 20), .call 4 .answered (envAt 21)]

def removeUpper : Nat → Env := fun n => envAt (30 + n)

set_option maxRecDepth 8000 in
theorem nestAndScan_run : ∃ c : State,
    (system .strict false).Reach (fun _ _ => True) (.initial (Tables.start [8] [1] ⟨[], []⟩)) c ∧
      (system .strict false).Serves (.board ⟨Uuid.text 1, .removeTask (Uuid.text 102) (Uuid.text 105)⟩) removeUpper c.shared ∧
      (∃ old, Board.Found (Uuid.text 1) (Uuid.text 102) (Uuid.text 105) c.shared.board old) ∧
      c.shared.board.taskIds = [105, 110] ∧ c.shared.reminders.map Reminder.taskId = [110] := by
  refine ⟨_, System.reach_of_run nestAndScan rfl, by decide +kernel, ?_, rfl, rfl⟩
  exact ⟨_, .head _, rfl, rfl, _, .head _, rfl, rfl⟩

/-- Both tasks go, with the comment and the reminder of the lower one. -/
theorem remove_exact_nested : ∃ (s s' : Tables), s.board.taskIds = [105, 110] ∧
    s.reminders.map Reminder.taskId = [110] ∧ s.Removed s' 105 := by
  obtain ⟨c, hr, served, ⟨old, found⟩, htasks, hreminders⟩ := nestAndScan_run
  exact ⟨_, _, htasks, hreminders,
    ((remove_exact .strict false [8] [1] ⟨[], []⟩ c hr _ _ _ removeUpper served).1 old found).2⟩

end TaskPlatform.Reminders

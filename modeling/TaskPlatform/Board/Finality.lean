import TaskPlatform.Board.Forest
import TaskPlatform.Board.Knowledge
import TaskPlatform.Library.Log

/-! Deleted tasks and comments: a save of an entity whose row is gone inserts the row again. -/

namespace TaskPlatform.Board
open Effects

/-- A save that the constraints accept finds the row of its task or comment. -/
def Tables.finds (s : Tables) : Call → Bool
  | .saveTask t => !(s.saveTask t).toBool || s.taskIds.contains t.id
  | .saveComment m => !(s.saveComment m).toBool || s.commentIds.contains m.id
  | _ => true

/-- No call inserts a row that was deleted. -/
def savesRows (c : State) : Move interface Request → Bool
  | .call i fate _ =>
    match (c.threads[i]?).bind Thread.next? with
    | some op => fate = .failed || c.shared.finds op
    | none => true
  | _ => true

/-- The ids of the rows were handed out. -/
structure Tables.Issued (s : Tables) : Prop where
  tasks : ∀ id ∈ s.taskIds, id ∈ s.generated.uuids
  comments : ∀ id ∈ s.commentIds, id ∈ s.generated.uuids

/-- The id was handed out, and there is no task with it. -/
def Tables.TaskGone (s : Tables) (id : Uuid) : Prop := id ∈ s.generated.uuids ∧ id ∉ s.taskIds

def Tables.CommentGone (s : Tables) (id : Uuid) : Prop := id ∈ s.generated.uuids ∧ id ∉ s.commentIds

section
variable {s s' : Tables} {env : Env} {c : Call} {pg : Postgres} {id : Uuid}

/-! ### What a call adds -/

theorem deleteTasks_taskIds {p : TaskRow → Bool} (h : id ∈ (s.deleteTasks p).taskIds) : id ∈ s.taskIds := by
  obtain ⟨t, ht, rfl⟩ := List.mem_map.mp h
  exact List.mem_map_of_mem (Tables.mem_deleteTasks.mp ht).1

theorem deleteComments_commentIds {p : CommentRow → Bool} (h : id ∈ (s.deleteComments p).commentIds) :
    id ∈ s.commentIds := by
  obtain ⟨m, hm, rfl⟩ := List.mem_map.mp h
  exact List.mem_map_of_mem (Tables.mem_deleteComments.mp hm).1

theorem mem_concat_ids {ρ : Type} {key : ρ → Uuid} {l : List ρ} {r : ρ} (h : id ∈ (l ++ [r]).map key) :
    id ∈ l.map key ∨ id = key r := by
  rw [List.map_append] at h
  exact (List.mem_append.mp h).imp_right List.mem_singleton.mp

/-- A task after a call was there before, or is new, or is a saved one of which there was no row. -/
theorem Write.taskIds (w : Write s env c s') (h : id ∈ s'.taskIds) :
    id ∈ s.taskIds ∨ id = env.uuid ∨ ∃ t, c = .saveTask t ∧ id = t.id := by
  cases w with
  | same | projectAdded | projectSet | commentAdded | commentSet | commentRemoved | activityAdded => exact Or.inl h
  | projectRemoved | taskRemoved => exact Or.inl (deleteTasks_taskIds h)
  | taskSet =>
    rw [Tables.taskIds, Table.map_key_replace] at h
    exact Or.inl h
  | @taskAdded r row fresh refs =>
    refine (mem_concat_ids h).imp_right fun hid => ?_
    cases c with
    | insertTask n =>
      cases row
      exact Or.inl hid
    | saveTask t => exact Or.inr ⟨t, rfl, hid.trans (Task.toRow?_ok (ok_of_toOption row)).1⟩
    | _ => cases row

theorem Write.commentIds (w : Write s env c s') (h : id ∈ s'.commentIds) :
    id ∈ s.commentIds ∨ id = env.uuid ∨ ∃ m, c = .saveComment m ∧ id = m.id := by
  cases w with
  | same | projectAdded | projectSet | taskAdded | taskSet | activityAdded => exact Or.inl h
  | projectRemoved | taskRemoved | commentRemoved => exact Or.inl (deleteComments_commentIds h)
  | commentSet =>
    rw [Tables.commentIds, Table.map_key_replace] at h
    exact Or.inl h
  | @commentAdded r row fresh refs =>
    refine (mem_concat_ids h).imp_right fun hid => ?_
    cases c with
    | insertComment n =>
      cases row
      exact Or.inl hid
    | saveComment m =>
      cases row
      exact Or.inr ⟨m, rfl, hid⟩
    | _ => cases row

/-- A save of a task that finds its row, or is rejected, adds none. -/
theorem saveTask_finds {t : Task} (finds : s.finds (.saveTask t) = true)
    (h : t.id ∈ (exec pg env (.saveTask t) s).2.taskIds) : t.id ∈ s.taskIds := by
  rw [exec] at h
  cases hs : s.saveTask t with
  | error e =>
    rw [hs] at h
    exact h
  | ok s' =>
    rw [Tables.finds, hs] at finds
    simpa [Except.toBool] using finds

theorem saveComment_finds {m : Comment} (finds : s.finds (.saveComment m) = true)
    (h : m.id ∈ (exec pg env (.saveComment m) s).2.commentIds) : m.id ∈ s.commentIds := by
  rw [exec] at h
  cases hs : s.saveComment m with
  | error e =>
    rw [hs] at h
    exact h
  | ok s' =>
    rw [Tables.finds, hs] at finds
    simpa [Except.toBool] using finds

theorem exec_taskIds (finds : s.finds c = true) (h : id ∈ (exec pg env c s).2.taskIds) :
    id ∈ s.taskIds ∨ id = env.uuid := by
  rcases (exec_write pg s env c).taskIds h with hid | hid | ⟨t, rfl, rfl⟩
  · exact Or.inl hid
  · exact Or.inr hid
  · exact Or.inl (saveTask_finds finds h)

theorem exec_commentIds (finds : s.finds c = true) (h : id ∈ (exec pg env c s).2.commentIds) :
    id ∈ s.commentIds ∨ id = env.uuid := by
  rcases (exec_write pg s env c).commentIds h with hid | hid | ⟨m, rfl, rfl⟩
  · exact Or.inl hid
  · exact Or.inr hid
  · exact Or.inl (saveComment_finds finds h)

end

/-! ### What a move adds -/

theorem toBool_bind {ε α β : Type} {x : Except ε α} {f g : α → Except ε β} (h : ∀ a, (f a).toBool = (g a).toBool) :
    (x >>= f).toBool = (x >>= g).toBool := by
  cases x with
  | error e => rfl
  | ok a => exact h a

/-- Whether a save is accepted does not depend on the generated values. -/
theorem saveTask_spend (s : Tables) (env : Env) (t : Task) :
    ((s.spend env).saveTask t).toBool = (s.saveTask t).toBool :=
  toBool_bind (x := t.toRow?) fun r => toBool_bind (x := s.checkTask (s.tasks.find? (·.id = r.id)) r) fun _ => rfl

theorem saveComment_spend (s : Tables) (env : Env) (m : Comment) :
    ((s.spend env).saveComment m).toBool = (s.saveComment m).toBool :=
  toBool_bind (x := s.checkComment (s.comments.find? (·.id = m.toRow.id)) m.toRow) fun _ => rfl

theorem finds_spend (s : Tables) (env : Env) (c : Call) : (s.spend env).finds c = s.finds c := by
  cases c with
  | saveTask t => exact congrArg (fun b => !b || s.taskIds.contains t.id) (saveTask_spend s env t)
  | saveComment m => exact congrArg (fun b => !b || s.commentIds.contains m.id) (saveComment_spend s env m)
  | _ => rfl

section
variable {pg : Postgres} {c d : State} {m : Move interface Request} {id : Uuid}

/-- A move adds rows under a new id only. -/
theorem step_ids (hok : savesRows c m = true) (hs : (system pg).step c m = some d) :
    (∀ id ∈ c.shared.generated.uuids, id ∈ d.shared.generated.uuids) ∧
      (∀ id ∈ d.shared.taskIds, id ∈ c.shared.taskIds ∨
        id ∉ c.shared.generated.uuids ∧ id ∈ d.shared.generated.uuids) ∧
      ∀ id ∈ d.shared.commentIds, id ∈ c.shared.commentIds ∨
        id ∉ c.shared.generated.uuids ∧ id ∈ d.shared.generated.uuids := by
  rcases System.step_shared hs with heq | ⟨env, -, heq⟩ | ⟨i, fate, env, t, op, rfl, ht, hn, hadm, heq⟩
  · rw [heq]
    exact ⟨fun _ h => h, fun _ h => Or.inl h, fun _ h => Or.inl h⟩
  · rw [heq]
    exact ⟨fun _ h => List.mem_cons_of_mem _ h, fun _ h => Or.inl h, fun _ h => Or.inl h⟩
  · rw [heq]
    have hnew := (Generated.admits_iff.mp hadm).1
    have hgenerated := (exec_write pg (c.shared.spend env) env op).outside.2.2
    have hfinds : fate ≠ .failed → (c.shared.spend env).finds op = true := fun hfate => by
      have hok : (decide (fate = .failed) || c.shared.finds op) = true := by simpa [savesRows, ht, hn] using hok
      simp only [hfate, decide_false, Bool.false_or] at hok
      rw [finds_spend, hok]
    cases fate with
    | failed => exact ⟨fun _ h => List.mem_cons_of_mem _ h, fun _ h => Or.inl h, fun _ h => Or.inl h⟩
    | answered | lost =>
      have hspent : env.uuid ∈ (exec pg env op (c.shared.spend env)).2.generated.uuids :=
        hgenerated ▸ List.mem_cons_self ..
      refine ⟨fun _ h => hgenerated ▸ List.mem_cons_of_mem _ h, fun id h => ?_, fun id h => ?_⟩
      · rcases exec_taskIds (hfinds nofun) h with h | rfl
        · exact Or.inl h
        · exact Or.inr ⟨hnew, hspent⟩
      · rcases exec_commentIds (hfinds nofun) h with h | rfl
        · exact Or.inl h
        · exact Or.inr ⟨hnew, hspent⟩

theorem Tables.Issued.step (h : c.shared.Issued) (hok : savesRows c m = true) (hs : (system pg).step c m = some d) :
    d.shared.Issued := by
  obtain ⟨hgrow, htasks, hcomments⟩ := step_ids hok hs
  refine ⟨fun id hid => ?_, fun id hid => ?_⟩
  · exact (htasks id hid).elim (fun h' => hgrow id (h.tasks id h')) And.right
  · exact (hcomments id hid).elim (fun h' => hgrow id (h.comments id h')) And.right

theorem Tables.TaskGone.step (h : c.shared.TaskGone id) (hok : savesRows c m = true)
    (hs : (system pg).step c m = some d) : d.shared.TaskGone id := by
  obtain ⟨hgrow, htasks, -⟩ := step_ids hok hs
  exact ⟨hgrow id h.1, fun hid => (htasks id hid).elim h.2 fun hnew => hnew.1 h.1⟩

theorem Tables.CommentGone.step (h : c.shared.CommentGone id) (hok : savesRows c m = true)
    (hs : (system pg).step c m = some d) : d.shared.CommentGone id := by
  obtain ⟨hgrow, -, hcomments⟩ := step_ids hok hs
  exact ⟨hgrow id h.1, fun hid => (hcomments id hid).elim h.2 fun hnew => hnew.1 h.1⟩

end

/-- In a run whose saves find their rows, no task or comment comes back once it is gone. -/
theorem deletion_final (pg : Postgres) (users workspaces : List Uuid) (generated : Generated) (c : State)
    (hr : (system pg).Reach (savesRows · ·) (.initial (Tables.start users workspaces generated)) c) (i j k : Nat)
    (s₁ s₂ s₃ : Tables) (hi : c.at? i = some s₁) (hj : c.at? j = some s₂) (hk : c.at? k = some s₃) (before : i ≤ j)
    (after : j ≤ k) (id : Uuid) :
    (id ∈ s₁.taskIds → id ∉ s₂.taskIds → id ∉ s₃.taskIds) ∧
      (id ∈ s₁.commentIds → id ∉ s₂.commentIds → id ∉ s₃.commentIds) := by
  have hissued : s₁.Issued := hr.carries (P := Tables.Issued) (fun _ hok hs h => h.step hok hs) hr.at?_zero hi
    (Nat.zero_le i) ⟨fun _ h => absurd h List.not_mem_nil, fun _ h => absurd h List.not_mem_nil⟩
  have hgenerated : id ∈ s₁.generated.uuids → id ∈ s₂.generated.uuids :=
    hr.carries (P := fun s => id ∈ s.generated.uuids) (fun _ hok hs => (step_ids hok hs).1 id) hi hj before
  constructor
  · intro hmem hgone
    have hgone : s₂.TaskGone id := ⟨hgenerated (hissued.tasks id hmem), hgone⟩
    exact (hr.carries (P := (Tables.TaskGone · id)) (fun _ hok hs h => h.step hok hs) hj hk after hgone).2
  · intro hmem hgone
    have hgone : s₂.CommentGone id := ⟨hgenerated (hissued.comments id hmem), hgone⟩
    exact (hr.carries (P := (Tables.CommentGone · id)) (fun _ hok hs h => h.step hok hs) hj hk after hgone).2

/-- User 9 asks to rename a task and, once the task is loaded, to delete it. -/
def renameAndRemove : List (Move interface Request) :=
  [.start ⟨Uuid.text 1, .createProject 9 { name := "Website" }⟩ (envAt 1), .call 0 .answered (envAt 2),
   .start ⟨Uuid.text 1, .createTask (Uuid.text 102) 9 { title := "Task" }⟩ (envAt 3), .call 1 .answered (envAt 4),
   .call 1 .answered (envAt 5), .call 1 .answered (envAt 6),
   .start ⟨Uuid.text 1, .updateTask (Uuid.text 102) (Uuid.text 105) 9 { title := some (some "New") }⟩ (envAt 7),
   .call 2 .answered (envAt 8), .call 2 .answered (envAt 9),
   .start ⟨Uuid.text 1, .removeTask (Uuid.text 102) (Uuid.text 105)⟩ (envAt 10), .call 3 .answered (envAt 11),
   .call 3 .answered (envAt 12), .call 3 .answered (envAt 13)]

set_option maxRecDepth 4000 in
/-- The renaming is given up. -/
theorem deletion_final_task : ∃ (c : State) (s₁ s₂ s₃ : Tables), c.at? 12 = some s₁ ∧ c.at? 13 = some s₂ ∧
    c.at? 14 = some s₃ ∧ 105 ∈ s₁.taskIds ∧ 105 ∉ s₂.taskIds ∧ 105 ∉ s₃.taskIds := by
  obtain ⟨c, s₁, s₂, s₃, hr, h₁, h₂, h₃, hmem, hgone⟩ : ∃ (c : State) (s₁ s₂ s₃ : Tables),
      (system .strict).Reach (savesRows · ·) (.initial (Tables.start [9] [1] ⟨[], []⟩)) c ∧
        c.at? 12 = some s₁ ∧ c.at? 13 = some s₂ ∧ c.at? 14 = some s₃ ∧ 105 ∈ s₁.taskIds ∧ 105 ∉ s₂.taskIds :=
    ⟨_, _, _, _, System.reach_of_run (renameAndRemove ++ [.kill 2]) rfl, rfl, rfl, rfl, .head _, List.not_mem_nil⟩
  have hfinal := deletion_final .strict [9] [1] ⟨[], []⟩ c hr 12 13 14 s₁ s₂ s₃ h₁ h₂ h₃ (by decide) (by decide) 105
  exact ⟨c, s₁, s₂, s₃, h₁, h₂, h₃, hmem, hgone, hfinal.1 hmem hgone⟩

set_option maxRecDepth 4000 in
/-- The save that comes after the removal inserts the task again. -/
theorem deleted_task_returns : ∃ (c : State) (s₁ s₂ s₃ : Tables),
    (system .strict).Reach (fun _ _ => True) (.initial (Tables.start [9] [1] ⟨[], []⟩)) c ∧
      c.at? 12 = some s₁ ∧ c.at? 13 = some s₂ ∧ c.at? 14 = some s₃ ∧
        105 ∈ s₁.taskIds ∧ 105 ∉ s₂.taskIds ∧ 105 ∈ s₃.taskIds :=
  ⟨_, _, _, _, System.reach_of_run (renameAndRemove ++ [.call 2 .answered (envAt 14)]) rfl, rfl, rfl, rfl,
    .head _, List.not_mem_nil, .head _⟩

end TaskPlatform.Board

import TaskPlatform.Board.CommentRemoval
import TaskPlatform.Board.Moves

/-! What goes with a task that is deleted. -/

namespace TaskPlatform.Board
open Effects

/-- A task and all tasks below it. -/
def Tables.Subtree (s : Tables) (t : Uuid) : Set Uuid := {x | ∃ k, s.Below t x k}

/-- The subtree is deleted with all comments and activity of its tasks, and nothing else is changed. -/
structure Tables.Pruned (s s' : Tables) (t : Uuid) : Prop where
  tasks : ∀ r, r ∈ s'.tasks ↔ r ∈ s.tasks ∧ r.id ∉ s.Subtree t
  comments : ∀ m, m ∈ s'.comments ↔ m ∈ s.comments ∧ m.taskId ∉ s.Subtree t
  activity : ∀ a, a ∈ s'.activity ↔ a ∈ s.activity ∧ a.taskId ∉ s.Subtree t
  rest : s'.users = s.users ∧ s'.workspaces = s.workspaces ∧ s'.projects = s.projects

section
variable {s : Tables} {k : Knowledge} {pg : Postgres} {env : Nat → Env} {w p t : UuidText} {old : TaskRow} {id x : Uuid}

/-! ### The cascade -/

theorem mem_goneTasks_iff (wf : s.WellFormed) {r : TaskRow} :
    r ∈ s.goneTasks (·.id = id) ↔ r ∈ s.tasks ∧ r.id ∈ s.Subtree id := by
  have hreached : r ∈ s.goneTasks (·.id = id) ↔ ∃ n, r ∈ s.level id n := Recursive.mem_reached (seed_subset s id)
  rw [hreached]
  constructor
  · rintro ⟨n, hn⟩
    exact ⟨mem_of_level hn, n, (below_iff_level wf (mem_of_level hn)).mpr hn⟩
  · rintro ⟨hr, n, hn⟩
    exact ⟨n, (below_iff_level wf hr).mp hn⟩

theorem mem_goneTasks_ids (wf : s.WellFormed) : x ∈ (s.goneTasks (·.id = id)).map TaskRow.id ↔ x ∈ s.Subtree id := by
  constructor
  · intro h
    obtain ⟨r, hr, rfl⟩ := List.mem_map.mp h
    exact ((mem_goneTasks_iff wf).mp hr).2
  · rintro ⟨n, hn⟩
    obtain ⟨r, hr, rfl⟩ := hn.mem
    exact List.mem_map_of_mem ((mem_goneTasks_iff wf).mpr ⟨hr, n, hn⟩)

/-- A comment goes if its task goes: the threads of other tasks have no comment on a task that goes. -/
theorem Knowledge.Fits.mem_goneComments (h : k.Fits s) {m : CommentRow} :
    m ∈ s.goneComments (·.taskId ∈ (s.goneTasks (·.id = id)).map TaskRow.id) ↔
      m ∈ s.comments ∧ m.taskId ∈ s.Subtree id := by
  constructor
  · intro hm
    obtain ⟨a, ha, hp, hpath⟩ := Board.mem_goneComments.mp hm
    obtain ⟨hmem, htask⟩ := h.thread_task ha hpath
    exact ⟨hmem, htask ▸ (mem_goneTasks_ids h.wellFormed).mp (of_decide_eq_true hp)⟩
  · rintro ⟨hm, htask⟩
    refine Board.mem_goneComments.mpr ⟨m, hm, decide_eq_true ?_, .refl⟩
    exact (mem_goneTasks_ids h.wellFormed).mpr htask

theorem Knowledge.Fits.pruned (h : k.Fits s) (id : Uuid) : s.Pruned (s.deleteTasks (·.id = id)) id where
  tasks r := by
    rw [Tables.mem_deleteTasks, mem_goneTasks_iff h.wellFormed]
    exact and_congr_right fun hr => not_congr (and_iff_right hr)
  comments m := by
    rw [Tables.mem_deleteTasks_comments, h.mem_goneComments]
    exact and_congr_right fun hm => not_congr (and_iff_right hm)
  activity a := by
    rw [Tables.mem_deleteTasks_activity, mem_goneTasks_ids h.wellFormed]
  rest := ⟨rfl, rfl, rfl⟩

theorem Tables.Pruned.taskIds {s' : Tables} (h : s.Pruned s' id) : x ∈ s'.taskIds ↔ x ∈ s.taskIds ∧ x ∉ s.Subtree id := by
  constructor
  · intro hx
    obtain ⟨r, hr, rfl⟩ := List.mem_map.mp hx
    exact ⟨List.mem_map_of_mem ((h.tasks r).mp hr).1, ((h.tasks r).mp hr).2⟩
  · rintro ⟨hx, hkept⟩
    obtain ⟨r, hr, rfl⟩ := List.mem_map.mp hx
    exact List.mem_map_of_mem ((h.tasks r).mpr ⟨hr, hkept⟩)

/-! ### `remove` -/

/-- `remove` deletes the task that it finds, or fails without a change. -/
theorem remove_run (wf : s.WellFormed) :
    (∃ old g, Found w p t s old ∧ (TasksService.remove w p t).run (system pg).handler env s =
      (.ok (), { s.deleteTasks (·.id = t.uuid) with generated := g })) ∨
    (∀ old, ¬ Found w p t s old) ∧ ∃ e g, (TasksService.remove w p t).run (system pg).handler env s =
      (.error e, { s with generated := g }) := by
  rcases em (∃ old, Found w p t s old) with ⟨old, found⟩ | hfound
  · refine Or.inl ⟨old, ((s.generated.spend (env 1)).spend (env 2)).spend (env 3), found, (found.served pg env wf _).trans ?_⟩
    change (perform (.removeTask old.id)).run _ _ _ = _
    rw [found.id]
    rfl
  · refine Or.inr ⟨not_exists.mp hfound, ?_⟩
    have hserved : (TasksService.remove w p t).run (system pg).handler env s = _ :=
      findTask_served fun task => perform (.removeTask task.id)
    cases hp : s.projects.find? fun r => r.id = p.uuid && r.workspaceId = w.uuid with
    | none =>
      rw [hp] at hserved
      exact ⟨_, _, hserved⟩
    | some project =>
      cases ht : s.tasks.find? fun r => r.id = t.uuid && r.projectId = p.uuid with
      | none =>
        rw [hp, ht] at hserved
        exact ⟨_, _, hserved⟩
      | some old =>
        obtain ⟨hproject, hids⟩ := find?_some hp
        obtain ⟨hold, hid⟩ := find?_some ht
        simp only [Bool.and_eq_true, decide_eq_true_eq] at hids hid
        exact absurd ⟨old, hold, hid.1, hid.2, project, hproject, hids⟩ hfound

variable (pg env w p t) in
theorem serve_remove (wf : s.WellFormed) :
    (∃ old g, Found w p t s old ∧ (system pg).serve ⟨w, .removeTask p t⟩ env s =
      (.ok .removed, { s.deleteTasks (·.id = t.uuid) with generated := g })) ∨
    (∀ old, ¬ Found w p t s old) ∧ ∃ e g, (system pg).serve ⟨w, .removeTask p t⟩ env s =
      (.error e, { s with generated := g }) := by
  have hserve : (system pg).serve ⟨w, .removeTask p t⟩ env s =
      (((TasksService.remove w p t).run (system pg).handler env (s.spend (env 0))).1.map fun _ => .removed,
        ((TasksService.remove w p t).run (system pg).handler env (s.spend (env 0))).2) :=
    Prod.ext (Prog.run_map_result _ _ (fun _ => Response.removed) _ _) (Prog.run_map _ _ (fun _ => Response.removed) _ _)
  rw [hserve]
  rcases remove_run (wf.spend (env 0)) with ⟨old, g, found, hrun⟩ | ⟨hnone, e, g, hrun⟩
  · exact Or.inl ⟨old, g, { found with }, by rw [hrun]; rfl⟩
  · exact Or.inr ⟨fun old found => hnone old { found with }, e, g, by rw [hrun]; rfl⟩

end
end TaskPlatform.Board

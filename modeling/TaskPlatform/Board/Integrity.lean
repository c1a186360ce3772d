import TaskPlatform.Board.Writes

/-! What the tables keep in every run: ids differ, and references are to rows. -/

namespace TaskPlatform.Board
open Effects

/-- Primary and foreign keys. -/
structure Tables.WellFormed (s : Tables) : Prop where
  projects : s.projectIds.Nodup
  tasks : s.taskIds.Nodup
  comments : s.commentIds.Nodup
  activity : (s.activity.map TaskActivity.id).Nodup
  taskProject : ∀ t ∈ s.tasks, t.projectId ∈ s.projectIds
  taskParent : ∀ t ∈ s.tasks, ∀ p ∈ t.parentTaskId, p ∈ s.taskIds
  commentTask : ∀ c ∈ s.comments, c.taskId ∈ s.taskIds
  commentParent : ∀ c ∈ s.comments, ∀ p ∈ c.parentCommentId, p ∈ s.commentIds
  activityTask : ∀ a ∈ s.activity, a.taskId ∈ s.taskIds

section
variable {s s' : Tables} {env : Env} {c : Call}

theorem nodup_append_fresh {ρ : Type} {id : ρ → Uuid} {l : List ρ} {r : ρ} (h : (l.map id).Nodup)
    (fresh : id r ∉ l.map id) : ((l ++ [r]).map id).Nodup := by
  rw [List.map_append]
  exact List.nodup_append'.mpr ⟨h, List.nodup_singleton _, by simpa using fresh⟩

theorem mem_append_ids {ρ : Type} {id : ρ → Uuid} {l : List ρ} {r : ρ} {i : Uuid} (h : i ∈ l.map id) :
    i ∈ (l ++ [r]).map id := by
  rw [List.map_append]
  exact List.mem_append_left _ h

/-! ### Deletes -/

/-- The tasks that go with the ones that are deleted. -/
def Tables.goneTasks (s : Tables) (p : TaskRow → Bool) : List TaskRow :=
  Recursive.reached childOf s.tasks (s.tasks.filter p)

def Tables.goneComments (s : Tables) (p : CommentRow → Bool) : List CommentRow :=
  Recursive.reached replyTo s.comments (s.comments.filter p)

namespace Tables

theorem mem_deleteComments {p : CommentRow → Bool} {m : CommentRow} :
    m ∈ (s.deleteComments p).comments ↔ m ∈ s.comments ∧ m ∉ s.goneComments p := by
  simp [deleteComments, goneComments]

theorem mem_deleteTasks {p : TaskRow → Bool} {t : TaskRow} :
    t ∈ (s.deleteTasks p).tasks ↔ t ∈ s.tasks ∧ t ∉ s.goneTasks p := by
  simp [deleteTasks, goneTasks]

theorem mem_deleteTasks_comments {p : TaskRow → Bool} {m : CommentRow} :
    m ∈ (s.deleteTasks p).comments ↔
      m ∈ s.comments ∧ m ∉ s.goneComments (·.taskId ∈ (s.goneTasks p).map TaskRow.id) :=
  mem_deleteComments

theorem mem_deleteTasks_activity {p : TaskRow → Bool} {a : TaskActivity} :
    a ∈ (s.deleteTasks p).activity ↔ a ∈ s.activity ∧ a.taskId ∉ (s.goneTasks p).map TaskRow.id := by
  simp [deleteTasks, goneTasks]

/-- A comment that is kept is no reply to a deleted one. -/
theorem WellFormed.deleteComments (wf : s.WellFormed) (p : CommentRow → Bool) : (s.deleteComments p).WellFormed where
  projects := wf.projects
  tasks := wf.tasks
  comments := wf.comments.sublist (List.filter_sublist.map _)
  activity := wf.activity
  taskProject := wf.taskProject
  taskParent := wf.taskParent
  commentTask c hc := wf.commentTask c (mem_deleteComments.mp hc).1
  commentParent c hc q hq := by
    obtain ⟨hc, hkept⟩ := mem_deleteComments.mp hc
    obtain ⟨y, hy, rfl⟩ := List.mem_map.mp (wf.commentParent c hc q hq)
    refine List.mem_map.mpr ⟨y, mem_deleteComments.mpr ⟨hy, fun hgone => hkept ?_⟩, rfl⟩
    exact Recursive.reached_join (List.filter_subset_self _) hgone hc (by simpa [replyTo] using hq)
  activityTask := wf.activityTask

/-- The id of a row that is kept is kept. -/
theorem kept_task {p : TaskRow → Bool} {id : Uuid} (mem : id ∈ s.taskIds)
    (kept : id ∉ (s.goneTasks p).map TaskRow.id) : id ∈ (s.deleteTasks p).taskIds := by
  obtain ⟨t, ht, rfl⟩ := List.mem_map.mp mem
  exact List.mem_map.mpr ⟨t, mem_deleteTasks.mpr ⟨ht, fun h => kept (List.mem_map_of_mem h)⟩, rfl⟩

theorem WellFormed.deleteTasks (wf : s.WellFormed) (p : TaskRow → Bool) : (s.deleteTasks p).WellFormed where
  projects := wf.projects
  tasks := wf.tasks.sublist (List.filter_sublist.map _)
  comments := (wf.deleteComments _).comments
  activity := wf.activity.sublist (List.filter_sublist.map _)
  taskProject t ht := wf.taskProject t (mem_deleteTasks.mp ht).1
  taskParent t ht q hq := by
    obtain ⟨ht, hkept⟩ := mem_deleteTasks.mp ht
    refine kept_task (wf.taskParent t ht q hq) fun hgone => hkept ?_
    obtain ⟨y, hy, rfl⟩ := List.mem_map.mp hgone
    exact Recursive.reached_join (List.filter_subset_self _) hy ht (by simpa [childOf] using hq)
  commentTask c hc := by
    obtain ⟨hc, hkept⟩ := mem_deleteTasks_comments.mp hc
    refine kept_task (wf.commentTask c hc) fun hgone => hkept ?_
    exact Recursive.seed_reached (List.filter_subset_self _) (List.mem_filter.mpr ⟨hc, decide_eq_true hgone⟩)
  commentParent := (wf.deleteComments _).commentParent
  activityTask a ha := by
    obtain ⟨ha, hkept⟩ := mem_deleteTasks_activity.mp ha
    exact kept_task (wf.activityTask a ha) hkept

theorem WellFormed.deleteProject (wf : s.WellFormed) (id : Uuid) : (s.deleteProject id).WellFormed :=
  { wf.deleteTasks (·.projectId = id) with
    projects := wf.projects.sublist (List.filter_sublist.map _)
    taskProject := fun t ht => by
      obtain ⟨ht, hkept⟩ := mem_deleteTasks.mp ht
      obtain ⟨r, hr, hid⟩ := List.mem_map.mp (wf.taskProject t ht)
      refine List.mem_map.mpr ⟨r, List.mem_filter.mpr ⟨hr, decide_eq_true fun heq => hkept ?_⟩, hid⟩
      refine Recursive.seed_reached (List.filter_subset_self _) (List.mem_filter.mpr ⟨ht, ?_⟩)
      exact decide_eq_true (hid.symm.trans heq) }

end Tables

/-! ### Every write -/

theorem Write.wellFormed (w : Write s env c s') (wf : s.WellFormed) : s'.WellFormed := by
  cases w with
  | same => exact wf
  | projectRemoved => exact wf.deleteProject _
  | taskRemoved => exact wf.deleteTasks _
  | commentRemoved => exact wf.deleteComments _
  | projectAdded row fresh =>
    exact { wf with
      projects := nodup_append_fresh wf.projects fresh
      taskProject := fun t ht => mem_append_ids (wf.taskProject t ht) }
  | projectSet call row mem id =>
    have hids : ∀ x, (Table.replace ProjectRow.id x s.projects).map ProjectRow.id = s.projectIds := fun _ =>
      Table.map_key_replace
    exact { wf with
      projects := by simpa only [Tables.projectIds, hids] using wf.projects
      taskProject := by simpa only [Tables.projectIds, hids] using wf.taskProject }
  | @taskAdded r row fresh refs =>
    have hnew : ∀ {i}, i ∈ s.taskIds → i ∈ (s.tasks ++ [r]).map TaskRow.id := mem_append_ids
    exact { wf with
      tasks := nodup_append_fresh wf.tasks fresh
      taskProject := fun t ht => by
        rcases List.mem_append.mp ht with ht | ht
        · exact wf.taskProject t ht
        · exact List.mem_singleton.mp ht ▸ refs.project.resolve_left (Option.some_ne_none _).symm
      taskParent := fun t ht p hp => by
        rcases List.mem_append.mp ht with ht | ht
        · exact hnew (wf.taskParent t ht p hp)
        · exact hnew ((refs.parent p (List.mem_singleton.mp ht ▸ hp)).resolve_left (Option.some_ne_none _).symm)
      commentTask := fun m hm => hnew (wf.commentTask m hm)
      activityTask := fun a ha => hnew (wf.activityTask a ha) }
  | @taskSet t r old call row mem id refs =>
    have hids : ∀ x, (Table.replace TaskRow.id x s.tasks).map TaskRow.id = s.taskIds := fun _ => Table.map_key_replace
    have hmem : ∀ {t}, t ∈ Table.replace TaskRow.id (r.over old) s.tasks → _ :=
      (Table.mem_replace (x := r.over old) ⟨old, mem, id⟩).mp
    exact { wf with
      tasks := by simpa only [Tables.taskIds, hids] using wf.tasks
      taskProject := fun t ht => by
        rcases hmem ht with rfl | ⟨ht, -⟩
        · exact refs.project.elim (fun h => Option.some.inj h ▸ wf.taskProject old mem) fun h => h
        · exact wf.taskProject t ht
      taskParent := fun t ht p hp => by
        simp only [Tables.taskIds, hids]
        rcases hmem ht with rfl | ⟨ht, -⟩
        · exact (refs.parent p hp).elim (fun h => wf.taskParent old mem p h) fun h => h
        · exact wf.taskParent t ht p hp
      commentTask := by simpa only [Tables.taskIds, hids] using wf.commentTask
      activityTask := by simpa only [Tables.taskIds, hids] using wf.activityTask }
  | @commentAdded r row fresh refs =>
    exact { wf with
      comments := nodup_append_fresh wf.comments fresh
      commentTask := fun m hm => by
        rcases List.mem_append.mp hm with hm | hm
        · exact wf.commentTask m hm
        · exact List.mem_singleton.mp hm ▸ refs.task.resolve_left (Option.some_ne_none _).symm
      commentParent := fun m hm p hp => by
        rcases List.mem_append.mp hm with hm | hm
        · exact mem_append_ids (wf.commentParent m hm p hp)
        · exact mem_append_ids ((refs.parent p (List.mem_singleton.mp hm ▸ hp)).resolve_left (Option.some_ne_none _).symm) }
  | @commentSet m r old call row mem id refs =>
    have hids : ∀ x, (Table.replace CommentRow.id x s.comments).map CommentRow.id = s.commentIds := fun _ =>
      Table.map_key_replace
    have hmem : ∀ {m}, m ∈ Table.replace CommentRow.id (r.over old) s.comments → _ :=
      (Table.mem_replace (x := r.over old) ⟨old, mem, id⟩).mp
    exact { wf with
      comments := by simpa only [Tables.commentIds, hids] using wf.comments
      commentTask := fun m hm => by
        rcases hmem hm with rfl | ⟨hm, -⟩
        · exact refs.task.elim (fun h => Option.some.inj h ▸ wf.commentTask old mem) fun h => h
        · exact wf.commentTask m hm
      commentParent := fun m hm p hp => by
        simp only [Tables.commentIds, hids]
        rcases hmem hm with rfl | ⟨hm, -⟩
        · exact (refs.parent p hp).elim (fun h => wf.commentParent old mem p h) fun h => h
        · exact wf.commentParent m hm p hp }
  | activityAdded call fresh task =>
    exact { wf with
      activity := nodup_append_fresh wf.activity fresh
      activityTask := fun a ha => by
        rcases List.mem_append.mp ha with ha | ha
        · exact wf.activityTask a ha
        · obtain rfl := List.mem_singleton.mp ha
          exact task }

theorem Tables.WellFormed.spend (wf : s.WellFormed) (env : Env) : (s.spend env).WellFormed := { wf with }

theorem effect_wellFormed (pg : Postgres) (fate : Fate) (wf : s.WellFormed) :
    ((system pg).effect fate env c s).WellFormed := by
  cases fate with
  | failed => exact wf.spend env
  | answered | lost => exact (exec_write pg (s.spend env) env c).wellFormed (wf.spend env)

end
end TaskPlatform.Board

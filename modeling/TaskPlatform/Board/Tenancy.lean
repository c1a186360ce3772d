import TaskPlatform.Board.Knowledge

/-! The rows of a workspace, and what every write does to the rows of every workspace. -/

namespace TaskPlatform.Board
open Effects Relation

inductive Row where
  | project (r : ProjectRow)
  | task (t : TaskRow)
  | comment (m : CommentRow)
  | activity (a : TaskActivity)

/-- The row, under a condition. -/
def Row.under (x : Row) (p : Prop) : Set Row := fun y => y = x ∧ p

@[simp] theorem Row.mem_under {x y : Row} {p : Prop} : y ∈ x.under p ↔ y = x ∧ p := Iff.rfl

namespace Tables
variable {s s' : Tables} {v w : Uuid}

/-- The project is in the workspace. -/
def InProject (s : Tables) (w p : Uuid) : Prop := ∃ r ∈ s.projects, r.id = p ∧ r.workspaceId = w

/-- The task is in the workspace. -/
def InTask (s : Tables) (w t : Uuid) : Prop := ∃ x ∈ s.tasks, x.id = t ∧ s.InProject w x.projectId

/-- The rows that belong to a workspace. -/
def rows (s : Tables) (w : Uuid) : Set Row
  | .project r => r ∈ s.projects ∧ r.workspaceId = w
  | .task t => t ∈ s.tasks ∧ s.InProject w t.projectId
  | .comment m => m ∈ s.comments ∧ s.InTask w m.taskId
  | .activity a => a ∈ s.activity ∧ s.InTask w a.taskId

theorem mem_rows_project {r : ProjectRow} : .project r ∈ s.rows w ↔ r ∈ s.projects ∧ r.workspaceId = w := Iff.rfl

theorem mem_rows_task {t : TaskRow} : .task t ∈ s.rows w ↔ t ∈ s.tasks ∧ s.InProject w t.projectId := Iff.rfl

theorem mem_rows_comment {m : CommentRow} : .comment m ∈ s.rows w ↔ m ∈ s.comments ∧ s.InTask w m.taskId := Iff.rfl

theorem mem_rows_activity {a : TaskActivity} : .activity a ∈ s.rows w ↔ a ∈ s.activity ∧ s.InTask w a.taskId := Iff.rfl

theorem inProject_iff {p : Uuid} : s.InProject w p ↔ (p, w) ∈ s.projects.map fun r => (r.id, r.workspaceId) := by
  simp [InProject, List.mem_map]

theorem inTask_iff {t : Uuid} :
    s.InTask w t ↔ ∃ p, (t, p) ∈ s.tasks.map (fun x => (x.id, x.projectId)) ∧ s.InProject w p := by
  simp only [InTask, List.mem_map, Prod.mk.injEq]
  constructor
  · rintro ⟨x, hx, hid, hp⟩
    exact ⟨x.projectId, ⟨x, hx, hid, rfl⟩, hp⟩
  · rintro ⟨p, ⟨x, hx, hid, rfl⟩, hp⟩
    exact ⟨x, hx, hid, hp⟩

theorem InProject.mem {p : Uuid} (h : s.InProject w p) : p ∈ s.projectIds :=
  let ⟨r, hr, hid, _⟩ := h
  List.mem_map.mpr ⟨r, hr, hid⟩

theorem InTask.mem {t : Uuid} (h : s.InTask w t) : t ∈ s.taskIds :=
  let ⟨x, hx, hid, _⟩ := h
  List.mem_map.mpr ⟨x, hx, hid⟩

/-- The row of a project names the one workspace it is in. -/
theorem InProject.unique {p : Uuid} (wf : s.WellFormed) (h : s.InProject v p) (h' : s.InProject w p) : v = w := by
  obtain ⟨r, hr, hid, rfl⟩ := h
  obtain ⟨r', hr', hid', rfl⟩ := h'
  rw [Table.eq_of_key wf.projects hr hr' (hid.trans hid'.symm)]

theorem InTask.unique {t : Uuid} (wf : s.WellFormed) (h : s.InTask v t) (h' : s.InTask w t) : v = w := by
  obtain ⟨x, hx, hid, hp⟩ := h
  obtain ⟨x', hx', hid', hp'⟩ := h'
  rw [Table.eq_of_key wf.tasks hx' hx (hid'.trans hid.symm)] at hp'
  exact hp.unique wf hp'

/-! ### Inserts -/

theorem rows_addProject {r : ProjectRow} (wf : s.WellFormed) (fresh : r.id ∉ s.projectIds) :
    rows { s with projects := s.projects ++ [r] } v = s.rows v ∪ Row.under (.project r) (r.workspaceId = v) := by
  -- Nothing is in the new project yet.
  have hproject : ∀ {p}, p ∈ s.projectIds →
      (InProject { s with projects := s.projects ++ [r] } v p ↔ s.InProject v p) := fun {p} hp => by
    simp only [InProject, List.mem_append, List.mem_singleton, or_and_right, exists_or, exists_eq_left]
    exact or_iff_left fun h => fresh (h.1 ▸ hp)
  have htask : ∀ {t}, InTask { s with projects := s.projects ++ [r] } v t ↔ s.InTask v t := fun {t} =>
    exists_congr fun x => and_congr_right fun hx => and_congr_right fun _ => hproject (wf.taskProject x hx)
  ext x
  cases x with
  | project y =>
    simp only [mem_rows_project, Set.mem_union, Row.mem_under, List.mem_append, List.mem_singleton, Row.project.injEq,
      or_and_right]
    exact or_congr_right (and_congr_right fun h => h ▸ Iff.rfl)
  | task t =>
    simp only [mem_rows_task, Set.mem_union, Row.mem_under, reduceCtorEq, false_and, or_false]
    exact and_congr_right fun ht => hproject (wf.taskProject t ht)
  | comment m => simp only [mem_rows_comment, Set.mem_union, Row.mem_under, reduceCtorEq, false_and, or_false, htask]
  | activity a => simp only [mem_rows_activity, Set.mem_union, Row.mem_under, reduceCtorEq, false_and, or_false, htask]

theorem rows_addTask {r : TaskRow} (wf : s.WellFormed) (fresh : r.id ∉ s.taskIds) :
    rows { s with tasks := s.tasks ++ [r] } v = s.rows v ∪ Row.under (.task r) (s.InProject v r.projectId) := by
  have htask : ∀ {t}, t ∈ s.taskIds → (InTask { s with tasks := s.tasks ++ [r] } v t ↔ s.InTask v t) := fun {t} ht => by
    simp only [InTask, List.mem_append, List.mem_singleton, or_and_right, exists_or, exists_eq_left]
    exact or_iff_left fun h => fresh (h.1 ▸ ht)
  ext x
  cases x with
  | project y => simp only [mem_rows_project, Set.mem_union, Row.mem_under, reduceCtorEq, false_and, or_false]
  | task t =>
    simp only [mem_rows_task, Set.mem_union, Row.mem_under, List.mem_append, List.mem_singleton, Row.task.injEq,
      or_and_right]
    exact or_congr_right (and_congr_right fun h => h ▸ Iff.rfl)
  | comment m =>
    simp only [mem_rows_comment, Set.mem_union, Row.mem_under, reduceCtorEq, false_and, or_false]
    exact and_congr_right fun hm => htask (wf.commentTask m hm)
  | activity a =>
    simp only [mem_rows_activity, Set.mem_union, Row.mem_under, reduceCtorEq, false_and, or_false]
    exact and_congr_right fun ha => htask (wf.activityTask a ha)

theorem rows_addComment {r : CommentRow} :
    rows { s with comments := s.comments ++ [r] } v = s.rows v ∪ Row.under (.comment r) (s.InTask v r.taskId) := by
  ext x
  cases x with
  | project y => simp only [mem_rows_project, Set.mem_union, Row.mem_under, reduceCtorEq, false_and, or_false]
  | task t => simp only [mem_rows_task, InProject, Set.mem_union, Row.mem_under, reduceCtorEq, false_and, or_false]
  | comment m =>
    simp only [mem_rows_comment, Set.mem_union, Row.mem_under, List.mem_append, List.mem_singleton, Row.comment.injEq,
      or_and_right]
    exact or_congr_right (and_congr_right fun h => h ▸ Iff.rfl)
  | activity a =>
    simp only [mem_rows_activity, InTask, InProject, Set.mem_union, Row.mem_under, reduceCtorEq, false_and, or_false]

theorem rows_addActivity {r : TaskActivity} :
    rows { s with activity := s.activity ++ [r] } v = s.rows v ∪ Row.under (.activity r) (s.InTask v r.taskId) := by
  ext x
  cases x with
  | project y => simp only [mem_rows_project, Set.mem_union, Row.mem_under, reduceCtorEq, false_and, or_false]
  | task t => simp only [mem_rows_task, InProject, Set.mem_union, Row.mem_under, reduceCtorEq, false_and, or_false]
  | comment m =>
    simp only [mem_rows_comment, InTask, InProject, Set.mem_union, Row.mem_under, reduceCtorEq, false_and, or_false]
  | activity a =>
    simp only [mem_rows_activity, Set.mem_union, Row.mem_under, List.mem_append, List.mem_singleton, Row.activity.injEq,
      or_and_right]
    exact or_congr_right (and_congr_right fun h => h ▸ Iff.rfl)

/-! ### A row in place of another one -/

/-- The rows of a table in which `r` took the place of `old`. -/
theorem mem_replace_ne {ρ : Type} {id : ρ → Uuid} {l : List ρ} {r old y : ρ} (nodup : (l.map id).Nodup)
    (mem : old ∈ l) (hid : id old = id r) : y ∈ Table.replace id r l ↔ y = r ∨ y ∈ l ∧ y ≠ old := by
  rw [Table.mem_replace ⟨old, mem, hid⟩]
  refine or_congr_right (and_congr_right fun hy => not_congr ⟨fun h => ?_, fun h => h ▸ hid⟩)
  exact Table.eq_of_key nodup hy mem (h.trans hid.symm)

theorem rows_setProject {r old : ProjectRow} (wf : s.WellFormed) (mem : old ∈ s.projects) (id : old.id = r.id)
    (same : old.workspaceId = r.workspaceId) :
    rows { s with projects := Table.replace ProjectRow.id r s.projects } v =
      s.rows v \ {.project old} ∪ Row.under (.project r) (r.workspaceId = v) := by
  have hproject : ∀ {p},
      InProject { s with projects := Table.replace ProjectRow.id r s.projects } v p ↔ s.InProject v p := fun {p} => by
    rw [inProject_iff, inProject_iff,
      Table.map_replace (f := fun r => (r.id, r.workspaceId)) wf.projects ⟨old, mem, id, by rw [id, same]⟩]
  ext x
  cases x with
  | project y =>
    simp only [mem_rows_project, Set.mem_union, Set.mem_sdiff, Set.mem_singleton_iff, Row.mem_under, Row.project.injEq,
      mem_replace_ne wf.projects mem id, or_and_right]
    rw [or_comm]
    exact or_congr (and_right_comm) (and_congr_right fun h => h ▸ Iff.rfl)
  | task t => simp [mem_rows_task, hproject]
  | comment m => simp [mem_rows_comment, InTask, hproject]
  | activity a => simp [mem_rows_activity, InTask, hproject]

theorem rows_setTask {r old : TaskRow} (wf : s.WellFormed) (mem : old ∈ s.tasks) (id : old.id = r.id)
    (same : old.projectId = r.projectId) :
    rows { s with tasks := Table.replace TaskRow.id r s.tasks } v =
      s.rows v \ {.task old} ∪ Row.under (.task r) (s.InProject v r.projectId) := by
  have htask : ∀ {t}, InTask { s with tasks := Table.replace TaskRow.id r s.tasks } v t ↔ s.InTask v t := fun {t} => by
    rw [inTask_iff, inTask_iff,
      Table.map_replace (f := fun x => (x.id, x.projectId)) wf.tasks ⟨old, mem, id, by rw [id, same]⟩]
    rfl
  ext x
  cases x with
  | project y => simp [mem_rows_project]
  | task t =>
    simp only [mem_rows_task, Set.mem_union, Set.mem_sdiff, Set.mem_singleton_iff, Row.mem_under, Row.task.injEq,
      mem_replace_ne wf.tasks mem id, or_and_right]
    rw [or_comm]
    exact or_congr (and_right_comm) (and_congr_right fun h => h ▸ Iff.rfl)
  | comment m => simp [mem_rows_comment, htask]
  | activity a => simp [mem_rows_activity, htask]

theorem rows_setComment {r old : CommentRow} (wf : s.WellFormed) (mem : old ∈ s.comments) (id : old.id = r.id) :
    rows { s with comments := Table.replace CommentRow.id r s.comments } v =
      s.rows v \ {.comment old} ∪ Row.under (.comment r) (s.InTask v r.taskId) := by
  ext x
  cases x with
  | project y => simp [mem_rows_project]
  | task t => simp [mem_rows_task, InProject]
  | comment m =>
    simp only [mem_rows_comment, Set.mem_union, Set.mem_sdiff, Set.mem_singleton_iff, Row.mem_under, Row.comment.injEq,
      mem_replace_ne wf.comments mem id, or_and_right]
    rw [or_comm]
    exact or_congr (and_right_comm) (and_congr_right fun h => h ▸ Iff.rfl)
  | activity a => simp [mem_rows_activity, InTask, InProject]

/-! ### Deletes -/

/-- The rows that go when tasks are deleted. -/
def goneWith (s : Tables) (p : TaskRow → Bool) : Set Row
  | .project _ => False
  | .task t => t ∈ s.goneTasks p
  | .comment m => m ∈ s.goneComments (·.taskId ∈ (s.goneTasks p).map TaskRow.id)
  | .activity a => a.taskId ∈ (s.goneTasks p).map TaskRow.id

theorem rows_deleteComments {p : CommentRow → Bool} :
    (s.deleteComments p).rows v = s.rows v \ {x | ∃ m ∈ s.goneComments p, x = .comment m} := by
  ext x
  cases x with
  | project y => simp [mem_rows_project, deleteComments]
  | task t => simp [mem_rows_task, InProject, deleteComments]
  | comment m =>
    simp only [mem_rows_comment, mem_deleteComments, Set.mem_sdiff, Set.mem_ofPred_eq, Row.comment.injEq, exists_eq_right']
    exact and_right_comm
  | activity a => simp [mem_rows_activity, InTask, InProject, deleteComments]

theorem rows_deleteTasks {p : TaskRow → Bool} : (s.deleteTasks p).rows v = s.rows v \ s.goneWith p := by
  have htask : ∀ {t}, t ∉ (s.goneTasks p).map TaskRow.id → ((s.deleteTasks p).InTask v t ↔ s.InTask v t) := fun kept => by
    refine exists_congr fun x => ?_
    rw [mem_deleteTasks, and_assoc]
    refine and_congr_right fun hx => and_iff_right_of_imp ?_
    rintro ⟨rfl, -⟩
    exact fun h => kept (List.mem_map_of_mem h)
  ext x
  cases x with
  | project y => exact (and_iff_left (fun h : False => h)).symm
  | task t => exact (and_congr_left fun _ => mem_deleteTasks).trans and_right_comm
  | comment m =>
    rw [mem_rows_comment, mem_deleteTasks_comments, and_right_comm, and_assoc, Set.mem_sdiff, mem_rows_comment, and_assoc]
    refine and_congr_right fun hm => and_congr_left fun kept => htask fun hgone => kept ?_
    exact Recursive.seed_reached (List.filter_subset_self _) (List.mem_filter.mpr ⟨hm, decide_eq_true hgone⟩)
  | activity a =>
    rw [mem_rows_activity, mem_deleteTasks_activity, and_right_comm, and_assoc, Set.mem_sdiff, mem_rows_activity, and_assoc]
    exact and_congr_right fun _ => and_congr_left htask

theorem rows_deleteProject {id : Uuid} :
    (s.deleteProject id).rows v =
      s.rows v \ (s.goneWith (·.projectId = id) ∪ {x | ∃ r, r.id = id ∧ x = .project r}) := by
  have hkept : ∀ t ∈ (s.deleteTasks (·.projectId = id)).tasks, t.projectId ≠ id := fun t ht hid => by
    obtain ⟨ht, hgone⟩ := mem_deleteTasks.mp ht
    exact hgone (Recursive.seed_reached (List.filter_subset_self _) (List.mem_filter.mpr ⟨ht, decide_eq_true hid⟩))
  have hproject : ∀ {p}, p ≠ id →
      ((s.deleteProject id).InProject v p ↔ (s.deleteTasks (·.projectId = id)).InProject v p) := fun {p} hp => by
    refine exists_congr fun r => ?_
    simp only [deleteProject, List.mem_filter, decide_eq_true_eq, and_assoc]
    refine and_congr_right fun _ => and_iff_right_of_imp ?_
    rintro ⟨rfl, -⟩
    exact hp
  have htask : ∀ {t}, (s.deleteProject id).InTask v t ↔ (s.deleteTasks (·.projectId = id)).InTask v t := fun {t} =>
    exists_congr fun x => and_congr_right fun hx => and_congr_right fun _ => hproject (hkept x hx)
  have hrows : (s.deleteProject id).rows v =
      (s.deleteTasks (·.projectId = id)).rows v \ {x | ∃ r, r.id = id ∧ x = .project r} := by
    ext x
    cases x with
    | project y =>
      simp only [mem_rows_project, deleteProject, List.mem_filter, decide_eq_true_eq, Set.mem_sdiff, Set.mem_ofPred_eq,
        Row.project.injEq, exists_eq_right']
      exact and_right_comm
    | task t =>
      simp only [Set.mem_sdiff, Set.mem_ofPred_eq, reduceCtorEq, and_false, exists_false, not_false_eq_true, and_true]
      exact and_congr_right fun ht => hproject (hkept t ht)
    | comment m =>
      simp only [Set.mem_sdiff, Set.mem_ofPred_eq, reduceCtorEq, and_false, exists_false, not_false_eq_true, and_true]
      exact and_congr_right fun _ => htask
    | activity a =>
      simp only [Set.mem_sdiff, Set.mem_ofPred_eq, reduceCtorEq, and_false, exists_false, not_false_eq_true, and_true]
      exact and_congr_right fun _ => htask
  rw [hrows, rows_deleteTasks]
  exact sdiff_sdiff_left

end Tables

/-! ### The other workspaces -/

section
variable {k : Knowledge} {s s' : Tables} {env : Env} {r : Request} {c : Call} {v w : Uuid}

namespace Knowledge

/-- A project that is known to be in a workspace is in no other. -/
theorem Fits.inProject (h : k.Fits s) {p : Uuid} (hp : .project p w ∈ k) (hin : s.InProject v p) : v = w := by
  obtain ⟨r, hr, rfl, rfl⟩ := hin
  exact h.oneWorkspace (h.project r hr) hp

theorem Fits.inTask (h : k.Fits s) {t : Uuid} (ht : k.HasTask w t) (hin : s.InTask v t) : v = w := by
  obtain ⟨x, hx, rfl, hp⟩ := hin
  obtain ⟨p, hproject, htask⟩ := ht
  obtain rfl := h.oneProject (h.task x hx) htask
  exact h.inProject hproject hp

/-- Tasks that are deleted in one workspace take rows of no other with them. -/
theorem Fits.goneWith (h : k.Fits s) {p : TaskRow → Bool}
    (own : ∀ t ∈ s.tasks, p t = true → .project t.projectId w ∈ k) {x : Row} (hx : x ∈ s.goneWith p)
    (hrow : x ∈ s.rows v) : v = w := by
  have hgone : ∀ t ∈ s.goneTasks p, t ∈ s.tasks ∧ .project t.projectId w ∈ k := fun t ht => by
    obtain ⟨a, ha, hp, hpath⟩ := mem_goneTasks.mp ht
    obtain ⟨ht, hproject⟩ := h.below_project ha hpath
    exact ⟨ht, hproject ▸ own a ha hp⟩
  have htask : ∀ {t}, t ∈ (s.goneTasks p).map TaskRow.id → s.InTask v t → v = w := fun ht hin => by
    obtain ⟨x, hx, rfl⟩ := List.mem_map.mp ht
    obtain ⟨hx, hproject⟩ := hgone x hx
    exact h.inTask ⟨x.projectId, hproject, h.task x hx⟩ hin
  cases x with
  | project y => exact hx.elim
  | task t => exact h.inProject (hgone t hx).2 hrow.2
  | comment m =>
    obtain ⟨a, ha, hp, hpath⟩ := mem_goneComments.mp hx
    exact htask (of_decide_eq_true hp) ((h.thread_task ha hpath).2 ▸ hrow.2)
  | activity a => exact htask hx hrow.2

end Knowledge

/-! #### The row that a save replaces -/

theorem Knowledge.Fits.set_project (h : k.Fits s) {p : Project} {x old : ProjectRow} (hpre : r.pre k (.saveProject p))
    (row : p.toRow? = .ok x) (mem : old ∈ s.projects) (id : old.id = x.id) :
    old.workspaceId = x.workspaceId ∧ x.workspaceId = r.workspaceId.uuid := by
  obtain ⟨hid, hw⟩ := Project.toRow?_ok row
  have hold := h.oneWorkspace (h.project old mem) (id.trans hid ▸ hpre.2)
  exact ⟨hold.trans (hw.trans hpre.1).symm, hw.trans hpre.1⟩

theorem Knowledge.Fits.set_task (h : k.Fits s) {t : Task} {x old : TaskRow} (hpre : r.pre k (.saveTask t))
    (row : t.toRow? = .ok x) (mem : old ∈ s.tasks) (id : old.id = x.id) :
    old.projectId = x.projectId ∧ .project x.projectId r.workspaceId.uuid ∈ k := by
  obtain ⟨hid, hproject, -⟩ := Task.toRow?_ok row
  rw [hproject]
  exact ⟨h.oneProject (h.task old mem) (id.trans hid ▸ hpre.2.1), hpre.1⟩

theorem Knowledge.Fits.set_comment (h : k.Fits s) {m : Comment} {old : CommentRow} (hpre : r.pre k (.saveComment m))
    (mem : old ∈ s.comments) (id : old.id = m.toRow.id) :
    old.taskId = m.toRow.taskId ∧ k.HasTask r.workspaceId.uuid m.toRow.taskId :=
  ⟨(h.oneTask (h.comment old mem) ((show old.id = m.id from id).symm ▸ hpre.2.1)).1, hpre.1⟩

/-! #### Every write -/

theorem sdiff_of_apart {A B : Set Row} (apart : ∀ x ∈ A, x ∉ B) : A \ B = A := by
  ext x
  exact and_iff_left_of_imp (apart x)

theorem union_under_of_not {A : Set Row} {x : Row} {p : Prop} (h : ¬ p) : A ∪ x.under p = A := by
  ext y
  simp [h]

/-- A write of a request leaves the rows of all other workspaces as they are. -/
theorem Write.others (write : Write (s.spend env) env c s') (h : k.Fits s) (hpre : r.pre k c)
    (hv : v ≠ r.workspaceId.uuid) : s'.rows v = s.rows v := by
  have h' := h.spend env
  cases write with
  | same => rfl
  | projectAdded row fresh =>
    rw [Tables.rows_addProject h'.wellFormed fresh, (Request.pre_projectRow hpre row).1, union_under_of_not hv.symm]
    rfl
  | @projectSet p x old call row mem id =>
    subst call
    obtain ⟨hsame, hw⟩ := h.set_project hpre row mem id
    rw [Tables.rows_setProject (r := x.over old) h'.wellFormed mem id hsame, sdiff_of_apart, union_under_of_not]
    · rfl
    · exact fun heq => hv (heq.symm.trans hw)
    · rintro _ hrow rfl
      exact hv (hrow.2.symm.trans (hsame.trans hw))
  | taskAdded row fresh refs =>
    obtain ⟨hproject, -⟩ := Request.pre_taskRow hpre row
    rw [Tables.rows_addTask h'.wellFormed fresh, union_under_of_not fun hin => hv (h'.inProject hproject hin)]
    rfl
  | @taskSet t x old call row mem id refs =>
    subst call
    obtain ⟨hsame, hproject⟩ := h.set_task hpre row mem id
    rw [Tables.rows_setTask (r := x.over old) h'.wellFormed mem id hsame, sdiff_of_apart, union_under_of_not]
    · rfl
    · exact fun hin => hv (h'.inProject hproject hin)
    · rintro _ hrow rfl
      exact hv (h'.inProject hproject (hsame ▸ hrow.2))
  | commentAdded row fresh refs =>
    obtain ⟨htask, -⟩ := Request.pre_commentRow hpre row
    rw [Tables.rows_addComment, union_under_of_not fun hin => hv (h'.inTask htask hin)]
    rfl
  | @commentSet m x old call row mem id refs =>
    subst call row
    obtain ⟨hsame, htask⟩ := h.set_comment hpre mem id
    rw [Tables.rows_setComment (r := m.toRow.over old) h'.wellFormed mem id, sdiff_of_apart, union_under_of_not]
    · rfl
    · exact fun hin => hv (h'.inTask htask hin)
    · rintro _ hrow rfl
      exact hv (h'.inTask htask (hsame ▸ hrow.2))
  | @activityAdded n call fresh task =>
    subst call
    rw [Tables.rows_addActivity, union_under_of_not]
    · rfl
    · exact fun hin => hv (h'.inTask hpre hin)
  | @projectRemoved id call =>
    subst call
    rw [Tables.rows_deleteProject, sdiff_of_apart]
    · rfl
    · rintro x hrow (hgone | ⟨p, rfl, rfl⟩)
      · refine hv (h'.goneWith (fun t _ ht => ?_) hgone hrow)
        exact of_decide_eq_true ht ▸ hpre
      · exact hv (h'.inProject hpre ⟨p, hrow.1, rfl, hrow.2⟩)
  | @taskRemoved id call =>
    subst call
    rw [Tables.rows_deleteTasks, sdiff_of_apart]
    · rfl
    · obtain ⟨p, hproject, htask⟩ := hpre
      refine fun x hrow hgone => hv (h'.goneWith (fun t ht hid => ?_) hgone hrow)
      obtain rfl := of_decide_eq_true hid
      exact h'.oneProject (h'.task t ht) htask ▸ hproject
  | @commentRemoved id call =>
    subst call
    rw [Tables.rows_deleteComments, sdiff_of_apart]
    · rfl
    · obtain ⟨t, a, htask, hfact, -⟩ := hpre
      rintro _ hrow ⟨m, hm, rfl⟩
      obtain ⟨b, hb, hid, hpath⟩ := mem_goneComments.mp hm
      obtain rfl := of_decide_eq_true hid
      have hsame := (h'.oneTask hfact (h'.comment b hb)).1.trans (h'.thread_task hb hpath).2.symm
      exact hv (h'.inTask (hsame ▸ htask) hrow.2)

end

end TaskPlatform.Board

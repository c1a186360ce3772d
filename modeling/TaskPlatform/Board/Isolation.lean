import TaskPlatform.Board.Contracts
import TaskPlatform.Board.Tenancy
import TaskPlatform.Library.Serial

/-! Tenant isolation: what a request in a workspace answers, and what it does, depends on the rows of that
    workspace and on the users, and on nothing else. -/

namespace TaskPlatform.Board
open Effects Relation

/-- Two states that agree on all that a request in the workspace may depend on. -/
structure Tables.Agree (w : Uuid) (s₁ s₂ : Tables) : Prop where
  rows : s₁.rows w = s₂.rows w
  users : ∀ u, u ∈ s₁.users ↔ u ∈ s₂.users
  workspace : w ∈ s₁.workspaces ↔ w ∈ s₂.workspaces

section
variable {k k₁ k₂ : Knowledge} {s s₁ s₂ : Tables} {w : Uuid} {pg : Postgres} {env : Env} {r : Request}

theorem Tables.Agree.symm (h : Tables.Agree w s₁ s₂) : Tables.Agree w s₂ s₁ :=
  ⟨h.rows.symm, fun u => (h.users u).symm, h.workspace.symm⟩

theorem Tables.Agree.spend (h : Tables.Agree w s₁ s₂) (env : Env) : Tables.Agree w (s₁.spend env) (s₂.spend env) :=
  ⟨h.rows, h.users, h.workspace⟩

theorem Tables.Agree.mem (h : Tables.Agree w s₁ s₂) (x : Row) : x ∈ s₁.rows w ↔ x ∈ s₂.rows w := by
  rw [h.rows]

/-! ### What is known to be in the workspace is in both states, or in none -/

namespace Knowledge.Fits

theorem inProject_of_mem (h : k.Fits s) {p : Uuid} (hp : .project p w ∈ k) (mem : p ∈ s.projectIds) :
    s.InProject w p := by
  obtain ⟨x, hx, rfl⟩ := List.mem_map.mp mem
  exact ⟨x, hx, rfl, h.oneWorkspace (h.project x hx) hp⟩

theorem inProject_of_task (h : k.Fits s) {t : TaskRow} (hp : .project t.projectId w ∈ k) (mem : t ∈ s.tasks) :
    s.InProject w t.projectId :=
  h.inProject_of_mem hp (h.wellFormed.taskProject t mem)

theorem inTask_of_mem (h : k.Fits s) {t : Uuid} (ht : k.HasTask w t) (mem : t ∈ s.taskIds) : s.InTask w t := by
  obtain ⟨x, hx, rfl⟩ := List.mem_map.mp mem
  obtain ⟨p, hproject, htask⟩ := ht
  obtain rfl := h.oneProject (h.task x hx) htask
  exact ⟨x, hx, rfl, h.inProject_of_task hproject hx⟩

theorem project_mem (h : k₁.Fits s₁) (agree : Tables.Agree w s₁ s₂) {p : Uuid} (hp : .project p w ∈ k₁)
    (mem : p ∈ s₁.projectIds) : p ∈ s₂.projectIds := by
  obtain ⟨x, hx, rfl, hw⟩ := h.inProject_of_mem hp mem
  exact List.mem_map_of_mem ((agree.mem (.project x)).mp ⟨hx, hw⟩).1

theorem task_mem (h : k₁.Fits s₁) (agree : Tables.Agree w s₁ s₂) {t : TaskRow} (hp : .project t.projectId w ∈ k₁)
    (mem : t ∈ s₁.tasks) : t ∈ s₂.tasks :=
  ((agree.mem (.task t)).mp ⟨mem, h.inProject_of_task hp mem⟩).1

theorem task_mem_of_id (h : k₁.Fits s₁) (agree : Tables.Agree w s₁ s₂) {t : TaskRow} (ht : k₁.HasTask w t.id)
    (mem : t ∈ s₁.tasks) : t ∈ s₂.tasks := by
  obtain ⟨p, hproject, htask⟩ := ht
  obtain rfl := h.oneProject (h.task t mem) htask
  exact h.task_mem agree hproject mem

theorem taskId_mem (h : k₁.Fits s₁) (agree : Tables.Agree w s₁ s₂) {t : Uuid} (ht : k₁.HasTask w t)
    (mem : t ∈ s₁.taskIds) : t ∈ s₂.taskIds := by
  obtain ⟨x, hx, rfl⟩ := List.mem_map.mp mem
  exact List.mem_map_of_mem (h.task_mem_of_id agree ht hx)

theorem comment_mem (h : k₁.Fits s₁) (agree : Tables.Agree w s₁ s₂) {m : CommentRow} (ht : k₁.HasTask w m.taskId)
    (mem : m ∈ s₁.comments) : m ∈ s₂.comments :=
  ((agree.mem (.comment m)).mp ⟨mem, h.inTask_of_mem ht (h.wellFormed.commentTask m mem)⟩).1

theorem activity_mem (h : k₁.Fits s₁) (agree : Tables.Agree w s₁ s₂) {a : TaskActivity} (ht : k₁.HasTask w a.taskId)
    (mem : a ∈ s₁.activity) : a ∈ s₂.activity :=
  ((agree.mem (.activity a)).mp ⟨mem, h.inTask_of_mem ht (h.wellFormed.activityTask a mem)⟩).1

theorem commentId_mem (h : k₁.Fits s₁) (agree : Tables.Agree w s₁ s₂) {t m : Uuid} (ht : k₁.HasTask w t)
    (hm : k₁.HasComment t m) (mem : m ∈ s₁.commentIds) : m ∈ s₂.commentIds := by
  obtain ⟨x, hx, rfl⟩ := List.mem_map.mp mem
  obtain ⟨a, hfact⟩ := hm
  obtain ⟨rfl, -⟩ := h.oneTask (h.comment x hx) hfact
  exact List.mem_map_of_mem (h.comment_mem agree ht hx)

end Knowledge.Fits

theorem Tables.Agree.inProject_iff (agree : Tables.Agree w s₁ s₂) {p : Uuid} : s₁.InProject w p ↔ s₂.InProject w p :=
  ⟨fun ⟨x, hx, hid, hw⟩ => ⟨x, ((agree.mem (.project x)).mp ⟨hx, hw⟩).1, hid, hw⟩,
    fun ⟨x, hx, hid, hw⟩ => ⟨x, ((agree.mem (.project x)).mpr ⟨hx, hw⟩).1, hid, hw⟩⟩

theorem Tables.Agree.inTask_iff (agree : Tables.Agree w s₁ s₂) {t : Uuid} : s₁.InTask w t ↔ s₂.InTask w t :=
  ⟨fun ⟨x, hx, hid, hp⟩ =>
    let ⟨hx', hp'⟩ := (agree.mem (.task x)).mp ⟨hx, hp⟩
    ⟨x, hx', hid, hp'⟩,
    fun ⟨x, hx, hid, hp⟩ =>
    let ⟨hx', hp'⟩ := (agree.mem (.task x)).mpr ⟨hx, hp⟩
    ⟨x, hx', hid, hp'⟩⟩

/-! ### Queries -/

/-- A page depends only on which of the accepted rows are in the table. -/
theorem select_congr {ρ : Type} {id : ρ → Uuid} {key : ρ → Key} {accepts : ρ → Bool} {l₁ l₂ : List ρ}
    (nodup₁ : (l₁.map id).Nodup) (nodup₂ : (l₂.map id).Nodup) (inj : ∀ x y, key x = key y → id x = id y)
    (same : ∀ x, accepts x = true → (x ∈ l₁ ↔ x ∈ l₂)) (cursor : Option Cursor) (take : Nat) :
    select pg key accepts cursor take l₁ = select pg key accepts cursor take l₂ := by
  have hfetch : ∀ cursor : Option Key,
      Keyset.fetch key cursor take (l₁.filter accepts) = Keyset.fetch key cursor take (l₂.filter accepts) := fun _ => by
    refine Keyset.fetch_congr (nodup₁.of_map.filter _) (nodup₂.of_map.filter _) (fun x => ?_) fun x hx y hy hkey => ?_
    · rw [List.mem_filter, List.mem_filter]
      exact and_congr_left fun hacc => same x hacc
    · exact Table.eq_of_key nodup₁ (List.mem_filter.mp hx).1 (List.mem_filter.mp hy).1 (inj x y hkey)
  cases cursor with
  | none => exact congrArg Except.ok (hfetch none)
  | some c =>
    simp only [select]
    cases pg.castCursor c with
    | ok key => exact congrArg Except.ok (hfetch (some key))
    | error e => rfl

theorem key_id {t t' : Timestamptz} {id id' : Uuid} (h : TaskPlatform.key t id = TaskPlatform.key t' id') : id = id' :=
  congrArg (fun x : Key => (ofLex x).2) h

/-- Rows with one id are one row: a lookup by id finds at most one. -/
theorem find?_congr {ρ : Type} {id : ρ → Uuid} {p : ρ → Bool} {i : Uuid} {l₁ l₂ : List ρ} (nodup : (l₁.map id).Nodup)
    (hid : ∀ x, p x = true → id x = i) (same : ∀ x, p x = true → (x ∈ l₁ ↔ x ∈ l₂)) : l₁.find? p = l₂.find? p :=
  Table.find?_congr same fun x hx y hy hpx hpy => Table.eq_of_key nodup hx hy ((hid x hpx).trans (hid y hpy).symm)

/-! ### Recursive queries and deletes -/

section
variable (h₁ : k₁.Fits s₁) (h₂ : k₂.Fits s₂) (agree : Tables.Agree w s₁ s₂)
include h₁ h₂ agree

/-- A query that starts in the workspace and does not leave a project has the same levels in both states. -/
theorem task_levels {join : TaskRow → TaskRow → Bool} {p : TaskRow → Bool}
    (stays : ∀ {k s a b}, Knowledge.Fits k s → a ∈ s.tasks → b ∈ s.tasks → join a b = true →
      b.projectId = a.projectId)
    (same : ∀ t, p t = true → (t ∈ s₁.tasks ↔ t ∈ s₂.tasks))
    (own : ∀ t ∈ s₁.tasks, p t = true → s₁.InProject w t.projectId) (n : Nat) (t : TaskRow) :
    t ∈ Recursive.level join s₁.tasks (s₁.tasks.filter p) n ↔
      t ∈ Recursive.level join s₂.tasks (s₂.tasks.filter p) n := by
  refine (Recursive.level_agree (W := fun t => .task t ∈ s₁.rows w) (fun t => ?_) (fun t ht => ?_) (fun t ht => ?_)
    (fun a b ha hb hj => ?_)).1 t
  · rw [List.mem_filter, List.mem_filter]
    exact and_congr_left fun hp => same t hp
  · obtain ⟨ht, hp⟩ := List.mem_filter.mp ht
    exact ⟨ht, own t ht hp⟩
  · exact ⟨fun _ => ((agree.mem _).mp ht).1, fun _ => ht.1⟩
  · rcases hb with hb | hb
    · exact ⟨hb, stays h₁ ha.1 hb hj ▸ ha.2⟩
    · obtain ⟨ha', hp⟩ := (agree.mem _).mp ha
      exact (agree.mem (.task b)).mpr ⟨hb, stays h₂ ha' hb hj ▸ hp⟩

theorem gone_tasks {p : TaskRow → Bool} (same : ∀ t, p t = true → (t ∈ s₁.tasks ↔ t ∈ s₂.tasks))
    (own : ∀ t ∈ s₁.tasks, p t = true → s₁.InProject w t.projectId) (t : TaskRow) :
    t ∈ s₁.goneTasks p ↔ t ∈ s₂.goneTasks p := by
  rw [Tables.goneTasks, Tables.goneTasks, Recursive.mem_reached (List.filter_subset_self _),
    Recursive.mem_reached (List.filter_subset_self _)]
  exact exists_congr fun n => task_levels h₁ h₂ agree (fun h ha hb hj => h.child_project ha hb hj) same own n t

theorem gone_comments {p : CommentRow → Bool} (same : ∀ m, p m = true → (m ∈ s₁.comments ↔ m ∈ s₂.comments))
    (own : ∀ m ∈ s₁.comments, p m = true → s₁.InTask w m.taskId) (m : CommentRow) :
    m ∈ s₁.goneComments p ↔ m ∈ s₂.goneComments p := by
  refine Recursive.reached_agree (W := fun m => .comment m ∈ s₁.rows w) (List.filter_subset_self _)
    (List.filter_subset_self _) (fun m => ?_) (fun m hm => ?_) (fun m hm => ?_) (fun a b ha hb hj => ?_)
  · rw [List.mem_filter, List.mem_filter]
    exact and_congr_left fun hp => same m hp
  · obtain ⟨hm, hp⟩ := List.mem_filter.mp hm
    exact ⟨hm, own m hm hp⟩
  · exact ⟨fun _ => ((agree.mem _).mp hm).1, fun _ => hm.1⟩
  · rcases hb with hb | hb
    · exact ⟨hb, (h₁.thread_task ha.1 (.single ⟨hb, hj⟩)).2 ▸ ha.2⟩
    · obtain ⟨ha', ht⟩ := (agree.mem _).mp ha
      exact (agree.mem (.comment b)).mpr ⟨hb, (h₂.thread_task ha' (.single ⟨hb, hj⟩)).2 ▸ ht⟩

/-- The rows of the workspace that go with tasks of the workspace. -/
theorem goneWith_agree {p : TaskRow → Bool} (same : ∀ t, p t = true → (t ∈ s₁.tasks ↔ t ∈ s₂.tasks))
    (own : ∀ t ∈ s₁.tasks, p t = true → s₁.InProject w t.projectId) : s₁.goneWith p = s₂.goneWith p := by
  have htasks := gone_tasks h₁ h₂ agree same own
  have hids : ∀ t, t ∈ (s₁.goneTasks p).map TaskRow.id ↔ t ∈ (s₂.goneTasks p).map TaskRow.id := fun t => by
    simp only [List.mem_map, htasks]
  have hown : ∀ t ∈ (s₁.goneTasks p).map TaskRow.id, s₁.InTask w t := fun t ht => by
    obtain ⟨x, hx, rfl⟩ := List.mem_map.mp ht
    obtain ⟨a, ha, hp, hpath⟩ := mem_goneTasks.mp hx
    obtain ⟨hx, hproject⟩ := h₁.below_project ha hpath
    exact ⟨x, hx, rfl, hproject ▸ own a ha hp⟩
  ext x
  cases x with
  | project y => exact Iff.rfl
  | task t => exact htasks t
  | comment m =>
    refine (gone_comments h₁ h₂ agree (fun m hm => ?_) (fun m _ hm => hown _ (of_decide_eq_true hm)) m).trans ?_
    · have hin := hown _ (of_decide_eq_true hm)
      exact ⟨fun hm => ((agree.mem (.comment m)).mp ⟨hm, hin⟩).1,
        fun hm => ((agree.mem (.comment m)).mpr ⟨hm, agree.inTask_iff.mp hin⟩).1⟩
    · simp only [hids]
      exact Iff.rfl
  | activity a => exact hids a.taskId

/-- Both queries are cancelled, or both return the same rows in some order. -/
theorem query_alike (join : TaskRow → TaskRow → Bool) {p : TaskRow → Bool}
    (stays : ∀ {k s a b}, Knowledge.Fits k s → a ∈ s.tasks → b ∈ s.tasks → join a b = true →
      b.projectId = a.projectId)
    (same : ∀ t, p t = true → (t ∈ s₁.tasks ↔ t ∈ s₂.tasks))
    (own : ∀ t ∈ s₁.tasks, p t = true → s₁.InProject w t.projectId) :
    (Recursive.query join s₁.tasks (s₁.tasks.filter p) = none ∧
      Recursive.query join s₂.tasks (s₂.tasks.filter p) = none) ∨
    ∃ out₁ out₂, Recursive.query join s₁.tasks (s₁.tasks.filter p) = some out₁ ∧
      Recursive.query join s₂.tasks (s₂.tasks.filter p) = some out₂ ∧ ∀ x, x ∈ out₁ ↔ x ∈ out₂ :=
  Recursive.query_agree (List.filter_subset_self _) (List.filter_subset_self _)
    (task_levels h₁ h₂ agree stays same own)

end

theorem Knowledge.Fits.query_nodup (h : k.Fits s) {p : TaskRow → Bool} {out : List (TaskRow × Nat)}
    (hq : Recursive.query childOf s.tasks (s.tasks.filter p) = some out) : out.Nodup := by
  have hnodup : s.tasks.Nodup := h.wellFormed.tasks.of_map
  refine Recursive.query_nodup hnodup (fun a ha b hb c hac hbc => ?_) (List.filter_subset_self _) (hnodup.filter _) hq
  have hid : some a.id = some b.id := (of_decide_eq_true hac).symm.trans (of_decide_eq_true hbc)
  exact Table.eq_of_key h.wellFormed.tasks ha hb (Option.some.inj hid)

/-! ### Constraints -/

theorem reference_congr {constraint : String} {old new : Option Uuid} {l m : List Uuid}
    (same : ∀ id ∈ new, id ∈ l ↔ id ∈ m) : reference constraint old new l = reference constraint old new m := by
  cases new with
  | none => rfl
  | some id =>
    have hcontains : l.contains id = m.contains id := by
      rw [Bool.eq_iff_iff, List.contains_iff_mem, List.contains_iff_mem]
      exact same id rfl
    simp only [reference, hcontains]

theorem fresh_of_notMem {constraint : String} {id : Uuid} {l : List Uuid} (h : id ∉ l) :
    fresh constraint id l = .ok () := by
  simp [fresh, h]

/-- Both statements are rejected with one error, or both leave states that agree. -/
def Same (w : Uuid) : Except DbError Tables → Except DbError Tables → Prop
  | .ok s₁, .ok s₂ => Tables.Agree w s₁ s₂
  | .error e₁, .error e₂ => e₁ = e₂
  | _, _ => False

theorem same_bind {α : Type} {x₁ x₂ : Except DbError α} {f₁ f₂ : α → Except DbError Tables} (hx : x₁ = x₂)
    (hf : ∀ a, x₁ = .ok a → Same w (f₁ a) (f₂ a)) : Same w (x₁ >>= f₁) (x₂ >>= f₂) := by
  subst hx
  cases x₁ with
  | error e => rfl
  | ok a => exact hf a rfl

/-- A save adds the row to both tables, or puts it in place of the same row. -/
theorem upsert_same {ρ : Type} {id : ρ → Uuid} (replaced : ρ → ρ) {x : ρ} {l₁ l₂ : List ρ}
    (hfind : l₁.find? (id · = id x) = l₂.find? (id · = id x)) :
    (∃ old, old ∈ l₁ ∧ old ∈ l₂ ∧ id old = id x ∧ upsert id replaced x l₁ = Table.replace id (replaced old) l₁ ∧
      upsert id replaced x l₂ = Table.replace id (replaced old) l₂) ∨
    (id x ∉ l₁.map id ∧ id x ∉ l₂.map id ∧ upsert id replaced x l₁ = l₁ ++ [x] ∧ upsert id replaced x l₂ = l₂ ++ [x]) := by
  rcases upsert_cases id replaced x l₁ with ⟨old, hm, hid, hf, heq⟩ | ⟨hfresh, hf, heq⟩
  · obtain ⟨hm', -⟩ := find?_some (hfind ▸ hf)
    exact Or.inl ⟨old, hm, hm', hid, heq, by rw [upsert, ← hfind, hf]⟩
  · rcases upsert_cases id replaced x l₂ with ⟨old, -, -, hf', -⟩ | ⟨hfresh', -, heq'⟩
    · rw [hfind, hf'] at hf
      cases hf
    · exact Or.inr ⟨hfresh, hfresh', heq, heq'⟩

theorem commit_lockstep {c : Call} {a : c.Reply} {x₁ x₂ : Except DbError Tables} (refl : alike c a a)
    (agree : Tables.Agree w s₁ s₂) (h : Same w x₁ x₂) :
    System.Alike (contract r) c (commit s₁ a x₁).1 (commit s₂ a x₂).1 ∧
      Tables.Agree w (commit s₁ a x₁).2 (commit s₂ a x₂).2 := by
  cases x₁ with
  | ok s₁' =>
    cases x₂ with
    | ok s₂' => exact ⟨refl, h⟩
    | error e₂ => exact h.elim
  | error e₁ =>
    cases x₂ with
    | ok s₂' => exact h.elim
    | error e₂ => exact ⟨congrArg Err.db h, agree⟩

section
variable (h₁ : k₁.Fits s₁) (h₂ : k₂.Fits s₂) (agree : Tables.Agree w s₁ s₂)
include h₁ h₂ agree

theorem projectId_iff {p : Uuid} (hp₁ : .project p w ∈ k₁) (hp₂ : .project p w ∈ k₂) :
    p ∈ s₁.projectIds ↔ p ∈ s₂.projectIds :=
  ⟨h₁.project_mem agree hp₁, h₂.project_mem agree.symm hp₂⟩

theorem taskId_iff {t : Uuid} (ht₁ : k₁.HasTask w t) (ht₂ : k₂.HasTask w t) : t ∈ s₁.taskIds ↔ t ∈ s₂.taskIds :=
  ⟨h₁.taskId_mem agree ht₁, h₂.taskId_mem agree.symm ht₂⟩

/-! #### Projects -/

omit h₁ h₂ in
theorem checkProject_same {old : Option ProjectRow} {x : ProjectRow} (hw : x.workspaceId = w) :
    s₁.checkProject old x = s₂.checkProject old x := by
  simp only [Tables.checkProject]
  rw [reference_congr (m := s₂.workspaces) (by rintro _ ⟨⟩; rw [hw]; exact agree.workspace),
    reference_congr (m := s₂.users) fun u _ => agree.users u]

theorem addProject_same {x : ProjectRow} (fresh₁ : x.id ∉ s₁.projectIds) (fresh₂ : x.id ∉ s₂.projectIds) :
    Tables.Agree w { s₁ with projects := s₁.projects ++ [x] } { s₂ with projects := s₂.projects ++ [x] } := by
  refine ⟨?_, agree.users, agree.workspace⟩
  rw [Tables.rows_addProject h₁.wellFormed fresh₁, Tables.rows_addProject h₂.wellFormed fresh₂, agree.rows]

theorem insertProject_same {x : ProjectRow} (fresh₁ : x.id ∉ s₁.projectIds) (fresh₂ : x.id ∉ s₂.projectIds)
    (hw : x.workspaceId = w) : Same w (s₁.insertProject x) (s₂.insertProject x) := by
  refine same_bind (by rw [fresh_of_notMem fresh₁, fresh_of_notMem fresh₂]) fun _ _ => ?_
  exact same_bind (checkProject_same agree hw) fun _ _ => addProject_same h₁ h₂ agree fresh₁ fresh₂

theorem saveProject_same {p : Project} (pre₁ : r.pre k₁ (.saveProject p)) (pre₂ : r.pre k₂ (.saveProject p))
    (hr : r.workspaceId.uuid = w) : Same w (s₁.saveProject p) (s₂.saveProject p) := by
  subst hr
  refine same_bind rfl fun x hrow => ?_
  obtain ⟨hid, hw⟩ := Project.toRow?_ok hrow
  have hfind : s₁.projects.find? (·.id = x.id) = s₂.projects.find? (·.id = x.id) := by
    refine find?_congr h₁.wellFormed.projects (fun y hy => of_decide_eq_true hy) fun y hy => ?_
    have hy : y.id = p.id := (of_decide_eq_true hy).trans hid
    constructor
    · intro hmem
      have := h₁.oneWorkspace (h₁.project y hmem) (hy ▸ pre₁.2)
      exact ((agree.mem (.project y)).mp ⟨hmem, this⟩).1
    · intro hmem
      have := h₂.oneWorkspace (h₂.project y hmem) (hy ▸ pre₂.2)
      exact ((agree.mem (.project y)).mpr ⟨hmem, this⟩).1
  refine same_bind (by rw [hfind]; exact checkProject_same agree (hw.trans pre₁.1)) fun _ _ => ?_
  rcases upsert_same x.over hfind with ⟨old, hm₁, hm₂, hold, heq₁, heq₂⟩ | ⟨hf₁, hf₂, heq₁, heq₂⟩
  · obtain ⟨hsame, -⟩ := h₁.set_project pre₁ hrow hm₁ hold
    refine ⟨?_, agree.users, agree.workspace⟩
    rw [heq₁, heq₂, Tables.rows_setProject (r := x.over old) h₁.wellFormed hm₁ hold hsame,
      Tables.rows_setProject (r := x.over old) h₂.wellFormed hm₂ hold hsame, agree.rows]
  · rw [heq₁, heq₂]
    exact addProject_same h₁ h₂ agree hf₁ hf₂

/-! #### Tasks -/

theorem checkTask_same {old : Option TaskRow} {x : TaskRow} (hp₁ : .project x.projectId w ∈ k₁)
    (hp₂ : .project x.projectId w ∈ k₂) (hparent₁ : ∀ q ∈ x.parentTaskId, .task q x.projectId ∈ k₁)
    (hparent₂ : ∀ q ∈ x.parentTaskId, .task q x.projectId ∈ k₂) : s₁.checkTask old x = s₂.checkTask old x := by
  simp only [Tables.checkTask]
  rw [reference_congr (m := s₂.projectIds) (by rintro _ ⟨⟩; exact projectId_iff h₁ h₂ agree hp₁ hp₂),
    reference_congr (m := s₂.taskIds) fun q hq =>
      taskId_iff h₁ h₂ agree ⟨_, hp₁, hparent₁ q hq⟩ ⟨_, hp₂, hparent₂ q hq⟩,
    reference_congr (m := s₂.users) fun u _ => agree.users u,
    reference_congr (m := s₂.users) fun u (_ : u ∈ some x.createdBy) => agree.users u]

theorem addTask_same {x : TaskRow} (fresh₁ : x.id ∉ s₁.taskIds) (fresh₂ : x.id ∉ s₂.taskIds) :
    Tables.Agree w { s₁ with tasks := s₁.tasks ++ [x] } { s₂ with tasks := s₂.tasks ++ [x] } := by
  refine ⟨?_, agree.users, agree.workspace⟩
  rw [Tables.rows_addTask h₁.wellFormed fresh₁, Tables.rows_addTask h₂.wellFormed fresh₂, agree.rows,
    propext agree.inProject_iff]

theorem insertTask_same {x : TaskRow} (fresh₁ : x.id ∉ s₁.taskIds) (fresh₂ : x.id ∉ s₂.taskIds)
    (hp₁ : .project x.projectId w ∈ k₁) (hp₂ : .project x.projectId w ∈ k₂)
    (hparent₁ : ∀ q ∈ x.parentTaskId, .task q x.projectId ∈ k₁)
    (hparent₂ : ∀ q ∈ x.parentTaskId, .task q x.projectId ∈ k₂) : Same w (s₁.insertTask x) (s₂.insertTask x) := by
  refine same_bind (by rw [fresh_of_notMem fresh₁, fresh_of_notMem fresh₂]) fun _ _ => ?_
  exact same_bind (checkTask_same h₁ h₂ agree hp₁ hp₂ hparent₁ hparent₂) fun _ _ => addTask_same h₁ h₂ agree fresh₁ fresh₂

theorem saveTask_same {t : Task} (pre₁ : r.pre k₁ (.saveTask t)) (pre₂ : r.pre k₂ (.saveTask t))
    (hr : r.workspaceId.uuid = w) : Same w (s₁.saveTask t) (s₂.saveTask t) := by
  subst hr
  refine same_bind rfl fun x hrow => ?_
  obtain ⟨hid, -⟩ := Task.toRow?_ok hrow
  have hx : (Call.saveTask t).taskRow? (envAt 0) = some x := by simp [Call.taskRow?, hrow, Except.toOption]
  obtain ⟨hp₁, -, hparent₁⟩ := Request.pre_taskRow pre₁ hx
  obtain ⟨hp₂, -, hparent₂⟩ := Request.pre_taskRow pre₂ hx
  have hfind : s₁.tasks.find? (·.id = x.id) = s₂.tasks.find? (·.id = x.id) := by
    refine find?_congr h₁.wellFormed.tasks (fun y hy => of_decide_eq_true hy) fun y hy => ?_
    have hy : y.id = t.id := (of_decide_eq_true hy).trans hid
    exact ⟨h₁.task_mem_of_id agree ⟨_, pre₁.1, hy ▸ pre₁.2.1⟩, h₂.task_mem_of_id agree.symm ⟨_, pre₂.1, hy ▸ pre₂.2.1⟩⟩
  refine same_bind (by rw [hfind]; exact checkTask_same h₁ h₂ agree hp₁ hp₂ hparent₁ hparent₂) fun _ _ => ?_
  rcases upsert_same x.over hfind with ⟨old, hm₁, hm₂, hold, heq₁, heq₂⟩ | ⟨hf₁, hf₂, heq₁, heq₂⟩
  · obtain ⟨hsame, -⟩ := h₁.set_task pre₁ hrow hm₁ hold
    refine ⟨?_, agree.users, agree.workspace⟩
    rw [heq₁, heq₂, Tables.rows_setTask (r := x.over old) h₁.wellFormed hm₁ hold hsame,
      Tables.rows_setTask (r := x.over old) h₂.wellFormed hm₂ hold hsame, agree.rows, propext agree.inProject_iff]
  · rw [heq₁, heq₂]
    exact addTask_same h₁ h₂ agree hf₁ hf₂

/-! #### Comments and activity -/

theorem checkComment_same {old : Option CommentRow} {x : CommentRow} (ht₁ : k₁.HasTask w x.taskId)
    (ht₂ : k₂.HasTask w x.taskId) (hparent₁ : ∀ q ∈ x.parentCommentId, k₁.HasComment x.taskId q)
    (hparent₂ : ∀ q ∈ x.parentCommentId, k₂.HasComment x.taskId q) : s₁.checkComment old x = s₂.checkComment old x := by
  simp only [Tables.checkComment]
  rw [reference_congr (m := s₂.taskIds) (by rintro _ ⟨⟩; exact taskId_iff h₁ h₂ agree ht₁ ht₂),
    reference_congr (m := s₂.users) fun u _ => agree.users u,
    reference_congr (m := s₂.commentIds) fun q hq =>
      ⟨h₁.commentId_mem agree ht₁ (hparent₁ q hq), h₂.commentId_mem agree.symm ht₂ (hparent₂ q hq)⟩]

omit h₁ h₂ in
theorem addComment_same {x : CommentRow} :
    Tables.Agree w { s₁ with comments := s₁.comments ++ [x] } { s₂ with comments := s₂.comments ++ [x] } := by
  refine ⟨?_, agree.users, agree.workspace⟩
  rw [Tables.rows_addComment, Tables.rows_addComment, agree.rows, propext agree.inTask_iff]

theorem insertComment_same {x : CommentRow} (fresh₁ : x.id ∉ s₁.commentIds) (fresh₂ : x.id ∉ s₂.commentIds)
    (ht₁ : k₁.HasTask w x.taskId) (ht₂ : k₂.HasTask w x.taskId)
    (hparent₁ : ∀ q ∈ x.parentCommentId, k₁.HasComment x.taskId q)
    (hparent₂ : ∀ q ∈ x.parentCommentId, k₂.HasComment x.taskId q) :
    Same w (s₁.insertComment x) (s₂.insertComment x) := by
  refine same_bind (by rw [fresh_of_notMem fresh₁, fresh_of_notMem fresh₂]) fun _ _ => ?_
  exact same_bind (checkComment_same h₁ h₂ agree ht₁ ht₂ hparent₁ hparent₂) fun _ _ => addComment_same agree

theorem saveComment_same {m : Comment} (pre₁ : r.pre k₁ (.saveComment m)) (pre₂ : r.pre k₂ (.saveComment m))
    (hr : r.workspaceId.uuid = w) : Same w (s₁.saveComment m) (s₂.saveComment m) := by
  subst hr
  have hrow : (Call.saveComment m).commentRow? (envAt 0) = some m.toRow := rfl
  obtain ⟨ht₁, -, hparent₁⟩ := Request.pre_commentRow pre₁ hrow
  obtain ⟨ht₂, -, hparent₂⟩ := Request.pre_commentRow pre₂ hrow
  have hfind : s₁.comments.find? (·.id = m.toRow.id) = s₂.comments.find? (·.id = m.toRow.id) := by
    refine find?_congr h₁.wellFormed.comments (fun y hy => of_decide_eq_true hy) fun y hy => ?_
    have hy : y.id = m.id := of_decide_eq_true hy
    constructor
    · intro hmem
      obtain ⟨htask, -⟩ := h₁.oneTask (h₁.comment y hmem) (hy ▸ pre₁.2.1)
      exact h₁.comment_mem agree (htask ▸ ht₁) hmem
    · intro hmem
      obtain ⟨htask, -⟩ := h₂.oneTask (h₂.comment y hmem) (hy ▸ pre₂.2.1)
      exact h₂.comment_mem agree.symm (htask ▸ ht₂) hmem
  refine same_bind (by rw [hfind]; exact checkComment_same h₁ h₂ agree ht₁ ht₂ hparent₁ hparent₂) fun _ _ => ?_
  rcases upsert_same m.toRow.over hfind with ⟨old, hm₁, hm₂, hold, heq₁, heq₂⟩ | ⟨hf₁, hf₂, heq₁, heq₂⟩
  · refine ⟨?_, agree.users, agree.workspace⟩
    rw [heq₁, heq₂, Tables.rows_setComment (r := m.toRow.over old) h₁.wellFormed hm₁ hold,
      Tables.rows_setComment (r := m.toRow.over old) h₂.wellFormed hm₂ hold, agree.rows, propext agree.inTask_iff]
  · rw [heq₁, heq₂]
    exact addComment_same agree

theorem insertActivity_same {x : TaskActivity} (fresh₁ : x.id ∉ s₁.activity.map TaskActivity.id)
    (fresh₂ : x.id ∉ s₂.activity.map TaskActivity.id) (ht₁ : k₁.HasTask w x.taskId) (ht₂ : k₂.HasTask w x.taskId) :
    Same w (s₁.insertActivity x) (s₂.insertActivity x) := by
  refine same_bind (by rw [fresh_of_notMem fresh₁, fresh_of_notMem fresh₂]) fun _ _ => ?_
  refine same_bind ?_ fun _ _ => ⟨?_, agree.users, agree.workspace⟩
  · simp only [Tables.checkActivity]
    rw [reference_congr (m := s₂.taskIds) (by rintro _ ⟨⟩; exact taskId_iff h₁ h₂ agree ht₁ ht₂),
      reference_congr (m := s₂.users) fun u _ => agree.users u]
  · rw [Tables.rows_addActivity, Tables.rows_addActivity, agree.rows, propext agree.inTask_iff]

end

/-! ### Every call -/

theorem alike_refl : ∀ (c : Call) (a : c.Reply), alike c a a
  | .descendants _, _ => List.Perm.refl _
  | .findProject .., _ | .insertProject .., _ | .saveProject .., _ | .removeProject .., _ | .listProjects .., _
  | .findTask .., _ | .insertTask .., _ | .saveTask .., _ | .removeTask .., _ | .listTasks .., _ | .subtree .., _
  | .depthOf .., _ | .findComment .., _ | .insertComment .., _ | .saveComment .., _ | .removeComment .., _
  | .listComments .., _ | .insertActivity .., _ | .listActivity .., _ => rfl

theorem alike_of_eq {c : Call} {x₁ x₂ : Except Err c.Reply} (h : x₁ = x₂) : System.Alike (contract r) c x₁ x₂ := by
  subst h
  cases x₁ with
  | ok a => exact alike_refl c a
  | error e => rfl

section
variable (h₁ : k₁.Fits s₁) (h₂ : k₂.Fits s₂) (agree : Tables.Agree w s₁ s₂)
include h₁ h₂ agree

theorem task_iff {t : TaskRow} (hp₁ : .project t.projectId w ∈ k₁) (hp₂ : .project t.projectId w ∈ k₂) :
    t ∈ s₁.tasks ↔ t ∈ s₂.tasks :=
  ⟨h₁.task_mem agree hp₁, h₂.task_mem agree.symm hp₂⟩

theorem task_iff_of_id {t : TaskRow} (ht₁ : k₁.HasTask w t.id) (ht₂ : k₂.HasTask w t.id) :
    t ∈ s₁.tasks ↔ t ∈ s₂.tasks :=
  ⟨h₁.task_mem_of_id agree ht₁, h₂.task_mem_of_id agree.symm ht₂⟩

theorem comment_iff {m : CommentRow} (ht₁ : k₁.HasTask w m.taskId) (ht₂ : k₂.HasTask w m.taskId) :
    m ∈ s₁.comments ↔ m ∈ s₂.comments :=
  ⟨h₁.comment_mem agree ht₁, h₂.comment_mem agree.symm ht₂⟩

theorem activity_iff {a : TaskActivity} (ht₁ : k₁.HasTask w a.taskId) (ht₂ : k₂.HasTask w a.taskId) :
    a ∈ s₁.activity ↔ a ∈ s₂.activity :=
  ⟨h₁.activity_mem agree ht₁, h₂.activity_mem agree.symm ht₂⟩

omit h₂ agree in
/-- A task that is known to be in the workspace is in one of its projects. -/
theorem own_task {id : Uuid} (ht : k₁.HasTask w id) : ∀ t ∈ s₁.tasks, t.id = id → s₁.InProject w t.projectId := by
  rintro t hmem rfl
  obtain ⟨p, hproject, htask⟩ := ht
  obtain rfl := h₁.oneProject (h₁.task t hmem) htask
  exact h₁.inProject_of_task hproject hmem

theorem descendants_alike {id : Uuid} (ht₁ : k₁.HasTask w id) (ht₂ : k₂.HasTask w id) :
    System.Alike (contract r) (.descendants id) (s₁.descendants id) (s₂.descendants id) := by
  have hquery := query_alike h₁ h₂ agree childOf (p := (·.id = id))
    (fun h ha hb hj => h.child_project ha hb hj)
    (fun t ht => task_iff_of_id h₁ h₂ agree (of_decide_eq_true ht ▸ ht₁) (of_decide_eq_true ht ▸ ht₂))
    (fun t hmem ht => own_task h₁ ht₁ t hmem (of_decide_eq_true ht))
  simp only [Tables.descendants]
  rcases hquery with ⟨hn₁, hn₂⟩ | ⟨out₁, out₂, hq₁, hq₂, hsame⟩
  · rw [hn₁, hn₂]
    rfl
  · rw [hq₁, hq₂]
    exact ((List.perm_ext_iff_of_nodup (h₁.query_nodup hq₁) (h₂.query_nodup hq₂)).mpr hsame).map _

theorem depthOf_same {id : Uuid} (ht₁ : k₁.HasTask w id) (ht₂ : k₂.HasTask w id) : s₁.depthOf id = s₂.depthOf id := by
  have hquery := query_alike h₁ h₂ agree parentOf (p := (·.id = id))
    (fun h ha hb hj => (h.child_project hb ha hj).symm)
    (fun t ht => task_iff_of_id h₁ h₂ agree (of_decide_eq_true ht ▸ ht₁) (of_decide_eq_true ht ▸ ht₂))
    (fun t hmem ht => own_task h₁ ht₁ t hmem (of_decide_eq_true ht))
  simp only [Tables.depthOf]
  rcases hquery with ⟨hn₁, hn₂⟩ | ⟨out₁, out₂, hq₁, hq₂, hsame⟩
  · rw [hn₁, hn₂]
  · rw [hq₁, hq₂]
    exact congrArg Except.ok (Recursive.foldl_max_congr fun n => by simp only [List.mem_map, hsame])

theorem subtree_same {t p : Uuid} (hp₁ : .project p w ∈ k₁) (hp₂ : .project p w ∈ k₂) :
    s₁.subtree t p = s₂.subtree t p := by
  have hproject : ∀ {x : TaskRow}, (decide (x.id = t) && decide (x.projectId = p)) = true → x.projectId = p := fun h =>
    of_decide_eq_true (Bool.and_eq_true_iff.mp h).2
  have hquery := query_alike h₁ h₂ agree childOf (p := fun x => x.id = t && x.projectId = p)
    (fun h ha hb hj => h.child_project ha hb hj)
    (fun x hx => task_iff h₁ h₂ agree (hproject hx ▸ hp₁) (hproject hx ▸ hp₂))
    (fun x hmem hx => h₁.inProject_of_task (hproject hx ▸ hp₁) hmem)
  simp only [Tables.subtree]
  rcases hquery with ⟨hn₁, hn₂⟩ | ⟨out₁, out₂, hq₁, hq₂, hsame⟩
  · rw [hn₁, hn₂]
  · rw [hq₁, hq₂]
    have hperm := (List.perm_ext_iff_of_nodup (h₁.query_nodup hq₁) (h₂.query_nodup hq₂)).mpr hsame
    refine congrArg Except.ok (List.Perm.eq_of_pairwise
      (fun a b ha hb (hab : Tables.subtreeKey a ≤ Tables.subtreeKey b) hba => ?_) (List.pairwise_insertionSort _ _) (List.pairwise_insertionSort _ _)
      (((List.perm_insertionSort _ _).trans (hperm.map _)).trans (List.perm_insertionSort _ _).symm))
    obtain ⟨x, hx, rfl⟩ := List.mem_map.mp ((List.mem_insertionSort _).mp ha)
    obtain ⟨y, hy, rfl⟩ := List.mem_map.mp ((List.mem_insertionSort _).mp hb)
    have hmem : ∀ z ∈ out₁, z.1 ∈ s₁.tasks := fun z hz =>
      Recursive.level_subset (List.filter_subset_self _) ((Recursive.mem_query hq₁).mp hz)
    have hkey : Tables.subtreeKey (x.1.toSubtreeRow x.2) = Tables.subtreeKey (y.1.toSubtreeRow y.2) :=
      le_antisymm hab hba
    have hdepth : x.2 = y.2 := congrArg (fun k => (ofLex k).1) hkey
    have hid : x.1.id = y.1.id := congrArg (fun k => (ofLex k).2) hkey
    rw [Table.eq_of_key h₁.wellFormed.tasks (hmem x hx) (hmem y ((hsame y).mpr hy)) hid, hdepth]

end

/-- A generated id is the id of no row. -/
theorem Knowledge.Fits.fresh_ids (h : k.Fits s) (hadm : s.generated.admits env = true) :
    env.uuid ∉ s.projectIds ∧ env.uuid ∉ s.taskIds ∧ env.uuid ∉ s.commentIds ∧
      env.uuid ∉ s.activity.map TaskActivity.id := by
  have hnew := (Generated.admits_iff.mp hadm).1
  refine ⟨fun hmem => ?_, fun hmem => ?_, fun hmem => ?_, fun hmem => ?_⟩ <;>
    obtain ⟨x, hx, heq⟩ := List.mem_map.mp hmem <;> rw [← heq] at hnew
  · exact hnew (h.spent _ (h.project x hx))
  · exact hnew (h.spent _ (h.task x hx))
  · exact hnew (h.spent _ (h.comment x hx))
  · exact hnew (h.activity x hx)

/-- A call of a request is answered alike in states that agree on its workspace, and leaves such states. -/
theorem call_lockstep (pg : Postgres) {c : Call} (h₁ : k₁.Fits s₁) (h₂ : k₂.Fits s₂)
    (agree : Tables.Agree r.workspaceId.uuid s₁ s₂) (adm₁ : s₁.generated.admits env = true)
    (adm₂ : s₂.generated.admits env = true) (pre₁ : r.pre k₁ c) (pre₂ : r.pre k₂ c) :
    System.Alike (contract r) c ((system pg).handler env c s₁).1 ((system pg).handler env c s₂).1 ∧
      Tables.Agree r.workspaceId.uuid ((system pg).handler env c s₁).2 ((system pg).handler env c s₂).2 := by
  obtain ⟨hp₁, ht₁, hc₁, ha₁⟩ := h₁.fresh_ids adm₁
  obtain ⟨hp₂, ht₂, hc₂, ha₂⟩ := h₂.fresh_ids adm₂
  replace h₁ := h₁.spend env
  replace h₂ := h₂.spend env
  replace agree := agree.spend env
  cases c with
  | findProject id w =>
    refine ⟨congrArg (Option.map ProjectRow.toEntity) (find?_congr (i := id) h₁.wellFormed.projects (fun x hx => ?_)
      fun x hx => ?_), agree⟩
    · exact of_decide_eq_true (Bool.and_eq_true_iff.mp hx).1
    · have hw : x.workspaceId = r.workspaceId.uuid := (of_decide_eq_true (Bool.and_eq_true_iff.mp hx).2).trans pre₁
      exact ⟨fun hm => ((agree.mem (.project x)).mp ⟨hm, hw⟩).1, fun hm => ((agree.mem (.project x)).mpr ⟨hm, hw⟩).1⟩
  | listProjects f cursor take =>
    refine ⟨alike_of_eq (congrArg (Except.map (List.map ProjectRow.toEntity)) (select_congr h₁.wellFormed.projects
      h₂.wellFormed.projects (fun _ _ => key_id) (fun x hx => ?_) cursor take)), agree⟩
    have hw : x.workspaceId = r.workspaceId.uuid :=
      (of_decide_eq_true (Bool.and_eq_true_iff.mp hx).1).trans pre₁
    exact ⟨fun hm => ((agree.mem (.project x)).mp ⟨hm, hw⟩).1, fun hm => ((agree.mem (.project x)).mpr ⟨hm, hw⟩).1⟩
  | findTask id p =>
    refine ⟨congrArg (Option.map TaskRow.toEntity) (find?_congr (i := id) h₁.wellFormed.tasks (fun x hx => ?_)
      fun x hx => ?_), agree⟩
    · exact of_decide_eq_true (Bool.and_eq_true_iff.mp hx).1
    · obtain rfl := of_decide_eq_true (Bool.and_eq_true_iff.mp hx).2
      exact task_iff h₁ h₂ agree pre₁ pre₂
  | listTasks f cursor take =>
    refine ⟨alike_of_eq (congrArg (Except.map (List.map TaskRow.toEntity)) (select_congr h₁.wellFormed.tasks
      h₂.wellFormed.tasks (fun _ _ => key_id) (fun x hx => ?_) cursor take)), agree⟩
    simp only [TaskFilter.accepts, Bool.and_eq_true, decide_eq_true_eq] at hx
    obtain ⟨⟨⟨⟨hproject, -⟩, -⟩, -⟩, -⟩ := hx
    exact task_iff h₁ h₂ agree (hproject ▸ pre₁) (hproject ▸ pre₂)
  | findComment id t =>
    refine ⟨congrArg (Option.map CommentRow.toEntity) (find?_congr (i := id) h₁.wellFormed.comments (fun x hx => ?_)
      fun x hx => ?_), agree⟩
    · exact of_decide_eq_true (Bool.and_eq_true_iff.mp hx).1
    · obtain rfl := of_decide_eq_true (Bool.and_eq_true_iff.mp hx).2
      exact comment_iff h₁ h₂ agree pre₁ pre₂
  | listComments f cursor take =>
    refine ⟨alike_of_eq (congrArg (Except.map (List.map CommentRow.toEntity)) (select_congr h₁.wellFormed.comments
      h₂.wellFormed.comments (fun _ _ => key_id) (fun x hx => ?_) cursor take)), agree⟩
    have htask : x.taskId = f.taskId := of_decide_eq_true (Bool.and_eq_true_iff.mp hx).1
    exact comment_iff h₁ h₂ agree (htask ▸ pre₁) (htask ▸ pre₂)
  | listActivity t cursor take =>
    refine ⟨alike_of_eq (congrArg (Except.map (List.map TaskActivity.toEntity)) (select_congr h₁.wellFormed.activity
      h₂.wellFormed.activity (fun _ _ => key_id) (fun x hx => ?_) cursor take)), agree⟩
    obtain rfl := of_decide_eq_true hx
    exact activity_iff h₁ h₂ agree pre₁ pre₂
  | subtree t p => exact ⟨alike_of_eq (subtree_same h₁ h₂ agree pre₁ pre₂), agree⟩
  | descendants t => exact ⟨descendants_alike h₁ h₂ agree pre₁ pre₂, agree⟩
  | depthOf t => exact ⟨alike_of_eq (depthOf_same h₁ h₂ agree pre₁ pre₂), agree⟩
  | insertProject n =>
    exact commit_lockstep rfl agree (insertProject_same (x := n.toRow env) h₁ h₂ agree hp₁ hp₂ pre₁)
  | saveProject p => exact commit_lockstep rfl agree (saveProject_same h₁ h₂ agree pre₁ pre₂ rfl)
  | insertTask n =>
    have hrow : (Call.insertTask n).taskRow? env = some (n.toRow env) := rfl
    obtain ⟨hq₁, -, hparent₁⟩ := Request.pre_taskRow pre₁ hrow
    obtain ⟨hq₂, -, hparent₂⟩ := Request.pre_taskRow pre₂ hrow
    exact commit_lockstep rfl agree (insertTask_same (x := n.toRow env) h₁ h₂ agree ht₁ ht₂ hq₁ hq₂ hparent₁ hparent₂)
  | saveTask t => exact commit_lockstep rfl agree (saveTask_same h₁ h₂ agree pre₁ pre₂ rfl)
  | insertComment n =>
    have hrow : (Call.insertComment n).commentRow? env = some (n.toRow env) := rfl
    obtain ⟨hq₁, -, hparent₁⟩ := Request.pre_commentRow pre₁ hrow
    obtain ⟨hq₂, -, hparent₂⟩ := Request.pre_commentRow pre₂ hrow
    exact commit_lockstep rfl agree
      (insertComment_same (x := n.toRow env) h₁ h₂ agree hc₁ hc₂ hq₁ hq₂ hparent₁ hparent₂)
  | saveComment m => exact commit_lockstep rfl agree (saveComment_same h₁ h₂ agree pre₁ pre₂ rfl)
  | insertActivity n =>
    exact commit_lockstep rfl agree (insertActivity_same (x := n.toRow env) h₁ h₂ agree ha₁ ha₂ pre₁ pre₂)
  | removeProject id =>
    refine ⟨rfl, ?_, agree.users, agree.workspace⟩
    change ((s₁.spend env).deleteProject id).rows _ = ((s₂.spend env).deleteProject id).rows _
    rw [Tables.rows_deleteProject, Tables.rows_deleteProject, agree.rows, goneWith_agree h₁ h₂ agree]
    · intro t ht
      obtain rfl := of_decide_eq_true ht
      exact task_iff h₁ h₂ agree pre₁ pre₂
    · intro t hmem ht
      obtain rfl := of_decide_eq_true ht
      exact h₁.inProject_of_task pre₁ hmem
  | removeTask id =>
    refine ⟨rfl, ?_, agree.users, agree.workspace⟩
    change ((s₁.spend env).deleteTasks _).rows _ = ((s₂.spend env).deleteTasks _).rows _
    rw [Tables.rows_deleteTasks, Tables.rows_deleteTasks, agree.rows, goneWith_agree h₁ h₂ agree]
    · intro t ht
      obtain rfl := of_decide_eq_true ht
      exact task_iff_of_id h₁ h₂ agree pre₁ pre₂
    · exact fun t hmem ht => own_task h₁ pre₁ t hmem (of_decide_eq_true ht)
  | removeComment id =>
    refine ⟨rfl, ?_, agree.users, agree.workspace⟩
    change ((s₁.spend env).deleteComments _).rows _ = ((s₂.spend env).deleteComments _).rows _
    obtain ⟨t₁, a₁, htask₁, hfact₁, -⟩ := pre₁
    obtain ⟨t₂, a₂, htask₂, hfact₂, -⟩ := pre₂
    have hown : ∀ m ∈ (s₁.spend env).comments, m.id = id → m.taskId = t₁ := by
      rintro m hm rfl
      exact (h₁.oneTask (h₁.comment m hm) hfact₁).1
    have hown₂ : ∀ m ∈ (s₂.spend env).comments, m.id = id → m.taskId = t₂ := by
      rintro m hm rfl
      exact (h₂.oneTask (h₂.comment m hm) hfact₂).1
    have hgone := gone_comments h₁ h₂ agree (p := (·.id = id)) (fun m hm => ?_) fun m hmem hm => ?_
    · rw [Tables.rows_deleteComments, Tables.rows_deleteComments, agree.rows]
      simp only [hgone]
    · have hm := of_decide_eq_true hm
      exact ⟨fun hmem => h₁.comment_mem agree (hown m hmem hm ▸ htask₁) hmem,
        fun hmem => h₂.comment_mem agree.symm (hown₂ m hmem hm ▸ htask₂) hmem⟩
    · have htask := hown m hmem (of_decide_eq_true hm)
      exact h₁.inTask_of_mem (htask ▸ htask₁) (h₁.wellFormed.commentTask m hmem)

/-! ### Every request -/

/-- A state that requests reach from empty tables, in any order of their calls. -/
def Tables.Reachable (pg : Postgres) (s : Tables) : Prop :=
  ∃ users workspaces generated c,
    (system pg).Reach (fun _ _ => True) (.initial (Tables.start users workspaces generated)) c ∧ c.shared = s

theorem Tables.Reachable.fits (h : s.Reachable pg) : ∃ k, Knowledge.Fits k s := by
  obtain ⟨users, workspaces, generated, c, hr, rfl⟩ := h
  obtain ⟨k, -, hknown⟩ := (Board.fits pg).reach program_meets (start_fits users workspaces generated) hr
  exact ⟨k, hknown.1⟩

/-- A request in a workspace leaves the rows of all other workspaces as they are; and in states that agree on the
    rows of its workspace and on the users it ends in the same way, and makes the same of the rows of its workspace. -/
theorem tenants_isolated (pg : Postgres) (r : Request) (env : Nat → Env) (s : Tables) (hs : s.Reachable pg)
    (served : (system pg).Serves r env s) :
    (∀ w, w ≠ r.workspaceId.uuid → ((system pg).serve r env s).2.rows w = s.rows w) ∧
    ∀ s' : Tables, s'.Reachable pg → (system pg).Serves r env s' → Tables.Agree r.workspaceId.uuid s s' →
      ((system pg).serve r env s).1 = ((system pg).serve r env s').1 ∧
      ((system pg).serve r env s).2.rows r.workspaceId.uuid = ((system pg).serve r env s').2.rows r.workspaceId.uuid := by
  obtain ⟨k, hk⟩ := hs.fits
  refine ⟨fun w hw => ?_, fun s' hs' served' agree => ?_⟩
  · refine ((fits pg).run (R := fun s s' => s'.rows w = s.rows w) (fun _ => rfl) (fun h h' => h'.trans h)
      (fun h hadm hpre => ?_) (hk.spend (env 0)) (program_meets r k) served.2).1
    exact (exec_write pg _ _ _).others h hpre hw
  · obtain ⟨k', hk'⟩ := hs'.fits
    obtain ⟨hresult, hagree⟩ := (fits pg).lockstep (fun h₁ h₂ agree adm₁ adm₂ pre₁ pre₂ =>
      call_lockstep pg h₁ h₂ agree adm₁ adm₂ pre₁ pre₂) (hk.spend (env 0)) (hk'.spend (env 0)) (agree.spend (env 0))
      (program_meets r k) (program_meets r k') served.2 served'.2
    exact ⟨hresult, hagree.rows⟩

end

/-! ### Two tenants -/

def website : ProjectRow := ⟨102, 1, "Website", none, .ACTIVE, 9, .epoch⟩

def shop : ProjectRow := ⟨104, 2, "Shop", none, .ACTIVE, 9, .epoch⟩

/-- One workspace has a project. -/
def oneTenant : Tables :=
  { Tables.start [9] [1, 2] ⟨[102, 101], ["rr", "r"]⟩ with projects := [website] }

/-- So has another one. -/
def twoTenants : Tables :=
  { Tables.start [9] [1, 2] ⟨[104, 103, 102, 101], ["rrrr", "rrr", "rr", "r"]⟩ with projects := [website, shop] }

theorem oneTenant_reachable : oneTenant.Reachable .strict :=
  ⟨[9], [1, 2], ⟨[], []⟩, _, System.reach_of_run
    [.start ⟨Uuid.text 1, .createProject 9 { name := "Website" }⟩ (envAt 1), .call 0 .answered (envAt 2)] rfl, rfl⟩

theorem twoTenants_reachable : twoTenants.Reachable .strict :=
  ⟨[9], [1, 2], ⟨[], []⟩, _, System.reach_of_run
    [.start ⟨Uuid.text 1, .createProject 9 { name := "Website" }⟩ (envAt 1), .call 0 .answered (envAt 2),
     .start ⟨Uuid.text 2, .createProject 9 { name := "Shop" }⟩ (envAt 3), .call 1 .answered (envAt 4)] rfl, rfl⟩

theorem tenants_agree : Tables.Agree 1 oneTenant twoTenants where
  rows := by
    ext x
    cases x with
    | project y =>
      have hshop : y = shop → y.workspaceId ≠ 1 := by
        rintro rfl
        decide
      simp only [Tables.mem_rows_project, oneTenant, twoTenants, List.mem_cons, List.not_mem_nil, or_false]
      tauto
    | task t => simp [Tables.mem_rows_task, oneTenant, twoTenants, Tables.start]
    | comment m => simp [Tables.mem_rows_comment, oneTenant, twoTenants, Tables.start]
    | activity a => simp [Tables.mem_rows_activity, oneTenant, twoTenants, Tables.start]
  users := fun _ => Iff.rfl
  workspace := Iff.rfl

def addTask : Request := ⟨Uuid.text 1, .createTask (Uuid.text 102) 9 { title := "Task" }⟩

/-- A task is created in one workspace, whether or not there is another one. -/
theorem tenants_isolated_addTask :
    ((system .strict).serve addTask (fun n => envAt (n + 5)) oneTenant).1 =
      ((system .strict).serve addTask (fun n => envAt (n + 5)) twoTenants).1 ∧
    ((system .strict).serve addTask (fun n => envAt (n + 5)) twoTenants).2.rows 2 = twoTenants.rows 2 :=
  ⟨((tenants_isolated .strict addTask (fun n => envAt (n + 5)) oneTenant oneTenant_reachable (by decide)).2 twoTenants
    twoTenants_reachable (by decide) tenants_agree).1,
   (tenants_isolated .strict addTask (fun n => envAt (n + 5)) twoTenants twoTenants_reachable (by decide)).1 2 (by decide)⟩

end TaskPlatform.Board

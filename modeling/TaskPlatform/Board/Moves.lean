import TaskPlatform.Board.Outcomes
import TaskPlatform.Board.Trees

/-! `moveTask`, served alone on a forest: which moves it accepts, and what they do to the trees. -/

namespace TaskPlatform.Board
open Effects

/-- A legal move: the new parent is a task of the project, neither the task itself nor below it, and the subtree
    is not too high for it. -/
def MayMove (s : Tables) (p t : Uuid) : Option Uuid → Prop
  | none => True
  | some q => (∃ x ∈ s.tasks, x.id = q ∧ x.projectId = p) ∧ (∀ k, ¬ s.Below t q k) ∧
      ∃ d h, s.AtDepth q d ∧ s.Height t h ∧ d + 1 + h ≤ TasksService.MAX_DEPTH

/-- What a move leaves: the task has the new parent and nothing else is changed, the links are a forest, the
    subtree is shifted as a whole, and all other tasks stay where they are. -/
structure Reparented (s s' : Tables) (t : Uuid) (q : Option Uuid) : Prop where
  rows : s'.users = s.users ∧ s'.workspaces = s.workspaces ∧ s'.projects = s.projects ∧ s'.comments = s.comments ∧
    s'.activity = s.activity
  tasks : s'.tasks = s.tasks.map fun r => if r.id = t then { r with parentTaskId := q } else r
  forest : s'.Forest
  shift : ∃ shift : Int, ∀ x k n, s.Below t x k → s.AtDepth x n → ∃ m, s'.AtDepth x m ∧ (m : Int) = n + shift
  stay : ∀ x n, (∀ k, ¬ s.Below t x k) → (s'.AtDepth x n ↔ s.AtDepth x n)

/-- A move that does what it should: it succeeds if it is legal and only then, and it changes nothing where
    it fails. -/
structure MoveCorrect (s : Tables) (p t : UuidText) (newParentId : Option UuidText) (out : Except Err Task × Tables) :
    Prop where
  accepted : (∃ task, out.1 = .ok task) ↔ MayMove s p.uuid t.uuid (newParentId.map UuidText.uuid)
  moved : ∀ task, out.1 = .ok task → Reparented s out.2 t.uuid (newParentId.map UuidText.uuid)
  rejected : ∀ e, out.1 = .error e → s.SameRows out.2 ∧ out.2.activity = s.activity

/-- The moves that pass all checks: the cycle check compares texts. -/
def MoveAccepted (s : Tables) (p t : UuidText) : Option UuidText → Prop
  | none => True
  | some q => (∃ x ∈ s.tasks, x.id = q.uuid ∧ x.projectId = p.uuid) ∧ q.uuid ≠ t.uuid ∧
      (q = q.uuid.text → ∀ k, ¬ s.Below t.uuid q.uuid k) ∧
      ∃ d h, s.AtDepth q.uuid d ∧ s.Height t.uuid h ∧ d + 1 + h ≤ TasksService.MAX_DEPTH

section
variable {s s' : Tables} {pg : Postgres} {env : Nat → Env} {w p t : UuidText} {old : TaskRow}

/-! ### The save -/

theorem moved_toRow? (old : TaskRow) (q : Option UuidText) :
    Task.toRow? { old.toEntity with parentTaskId := q } =
      .ok { old with parentTaskId := q.map UuidText.uuid, createdAt := old.createdAt.truncate } := by
  have hassignee : (old.assigneeId.map Uuid.text).map UuidText.uuid = old.assigneeId := by
    cases old.assigneeId <;> rfl
  simp only [Task.toRow?, TaskRow.toEntity, required, hassignee]
  rfl

/-- The save of a move fails only if the task would be its own parent. -/
theorem saveTask_moved (wf : s.WellFormed) (mem : old ∈ s.tasks) {q : Option UuidText}
    (hq : ∀ id ∈ q.map UuidText.uuid, id ∈ s.taskIds) :
    s.saveTask { old.toEntity with parentTaskId := q } =
      if q.map UuidText.uuid = some old.id then .error (.check "CHK_tasks_no_self_parent")
      else .ok { s with tasks := Table.replace TaskRow.id { old with parentTaskId := q.map UuidText.uuid } s.tasks } := by
  have hfind : s.tasks.find? (·.id = old.id) = some old := Table.find?_key wf.tasks mem
  have hparent : reference "FK_tasks_parent" old.parentTaskId (q.map UuidText.uuid) s.taskIds = .ok () := by
    cases h : q.map UuidText.uuid with
    | none => rfl
    | some id => simp [reference, hq id h]
  have hcheck : s.checkTask (some old) { old with parentTaskId := q.map UuidText.uuid, createdAt := old.createdAt.truncate } =
      if q.map UuidText.uuid = some old.id then .error (.check "CHK_tasks_no_self_parent") else .ok () := by
    simp only [Tables.checkTask, Option.map_some, Option.bind_some, sent_same, reference_same, hparent, check]
    by_cases hself : q.map UuidText.uuid = some old.id
    · rw [if_pos hself, if_neg (by simpa using hself)]
      rfl
    · rw [if_neg hself, if_pos (by simpa using hself)]
      rfl
  rw [Tables.saveTask, moved_toRow?]
  change (s.checkTask (s.tasks.find? (·.id = old.id)) _ >>= _) = _
  rw [hfind, hcheck]
  split
  · rfl
  · have hset : upsert TaskRow.id
        ({ old with parentTaskId := q.map UuidText.uuid, createdAt := old.createdAt.truncate } : TaskRow).over
        { old with parentTaskId := q.map UuidText.uuid, createdAt := old.createdAt.truncate } s.tasks =
        Table.replace TaskRow.id { old with parentTaskId := q.map UuidText.uuid } s.tasks := by
      rw [upsert, hfind]
      rfl
    exact congrArg (fun tasks => Except.ok { s with tasks }) hset

/-! ### The run of a move -/

theorem Found.task (found : Found w p t s old) (wf : s.WellFormed) :
    s.tasks.find? (fun r => r.id = t.uuid && r.projectId = p.uuid) = some old :=
  Table.find?_unique found.mem (by simp [found.id, found.projectId]) fun y hy h => by
    simp only [Bool.and_eq_true, decide_eq_true_eq] at h
    exact Table.eq_of_key wf.tasks hy found.mem (h.1.trans found.id.symm)

variable (pg env) in
/-- A request that finds its task goes on with it. -/
theorem Found.served {α : Type} (found : Found w p t s old) (wf : s.WellFormed) (f : Task → Service α) :
    ((TasksService.findOneOrFail w p t).bind f).run (system pg).handler env s =
      (f old.toEntity).run (system pg).handler (fun n => env (n + 2)) ((s.spend (env 1)).spend (env 2)) := by
  rw [findTask_served, found.task wf]
  cases hp : s.projects.find? fun r => r.id = p.uuid && r.workspaceId = w.uuid with
  | some x => rfl
  | none =>
    obtain ⟨x, hx, hid⟩ := found.inProject
    have := List.find?_eq_none.mp hp x hx
    simp [hid.1, hid.2] at this

/-- What a move leaves of the tables, if it saves the task. -/
def Tables.reparent (s : Tables) (old : TaskRow) (q : Option UuidText) (g : Generated) : Tables :=
  { s with tasks := Table.replace TaskRow.id { old with parentTaskId := q.map UuidText.uuid } s.tasks, generated := g }

/-- The save at the end of a move. -/
theorem save_moved (wf : s.WellFormed) (mem : old ∈ s.tasks) {q : Option UuidText}
    (hq : ∀ id ∈ q.map UuidText.uuid, id ∈ s.taskIds) (env : Nat → Env) (g : Generated) :
    (perform (.saveTask { old.toEntity with parentTaskId := q })).run (system pg).handler env { s with generated := g } =
      if q.map UuidText.uuid = some old.id then
        (.error (.db (.check "CHK_tasks_no_self_parent")), { s with generated := g.spend (env 1) })
      else (.ok { old.toEntity with parentTaskId := q }, s.reparent old q (g.spend (env 1))) := by
  have hsave := saveTask_moved (s := { s with generated := g.spend (env 1) }) { wf with } mem (q := q) hq
  have hrun : (system pg).handler (env 1) (.saveTask { old.toEntity with parentTaskId := q }) { s with generated := g } =
      commit { s with generated := g.spend (env 1) } { old.toEntity with parentTaskId := q }
        (Tables.saveTask { s with generated := g.spend (env 1) } { old.toEntity with parentTaskId := q }) := rfl
  rw [perform, Prog.perform, Prog.run_call, hrun, hsave]
  by_cases hself : q.map UuidText.uuid = some old.id
  · rw [if_pos hself, if_pos hself]
    rfl
  · rw [if_neg hself, if_neg hself]
    rfl

theorem moveTask_run (wf : s.WellFormed) (forest : s.Forest) (found : Found w p t s old) (newParentId : Option UuidText) :
    (MoveAccepted s p t newParentId ∧
      ∃ g, (TasksService.moveTask w p t newParentId).run (system pg).handler env s =
        (.ok { old.toEntity with parentTaskId := newParentId }, s.reparent old newParentId g)) ∨
    (¬ MoveAccepted s p t newParentId ∧
      ∃ e g, (TasksService.moveTask w p t newParentId).run (system pg).handler env s =
        (.error e, { s with generated := g })) := by
  rw [TasksService.moveTask, Prog.bind_eq, found.served pg env wf]
  cases newParentId with
  | none =>
    exact Or.inl ⟨trivial, _, save_moved wf found.mem (fun _ h => by cases h) _ _⟩
  | some q =>
    by_cases hself : q = t
    · simp only [hself, ↓reduceIte]
      exact Or.inr ⟨fun h => h.2.1 rfl, _, _, rfl⟩
    simp only [hself, ↓reduceIte, Prog.bind_eq]
    let s₃ := ((s.spend (env 1)).spend (env 2)).spend (env 3)
    have hfind : (system pg).handler (env 3) (.findTask q.uuid p.uuid) ((s.spend (env 1)).spend (env 2)) =
        (.ok ((s.tasks.find? fun r => r.id = q.uuid && r.projectId = p.uuid).map TaskRow.toEntity), s₃) := rfl
    rw [perform, Prog.run_perform_ok (I := interface) _ hfind]
    cases hq : s.tasks.find? fun r => r.id = q.uuid && r.projectId = p.uuid with
    | none =>
      refine Or.inr ⟨?_, _, _, rfl⟩
      rintro ⟨⟨x, hx, hid, hproject⟩, -⟩
      have := List.find?_eq_none.mp hq x hx
      simp [hid, hproject] at this
    | some parent =>
      obtain ⟨hparent, hpp⟩ := find?_some hq
      simp only [Bool.and_eq_true, decide_eq_true_eq] at hpp
      obtain ⟨rows, hrows, hmem⟩ := forest.descendants wf t.uuid
      obtain ⟨d, hd⟩ := forest.atDepth wf hparent
      rw [hpp.1] at hd
      have hheight := height_of_descendants hmem ⟨old, found.mem, found.id⟩
      have hbelow : (system pg).handler (env 4) (.descendants t.uuid) s₃ = (.ok rows, s₃.spend (env 4)) :=
        Prod.ext hrows rfl
      have hdepth : (system pg).handler (env 5) (.depthOf q.uuid) (s₃.spend (env 4)) =
          (.ok d, (s₃.spend (env 4)).spend (env 5)) :=
        Prod.ext (forest.depthOf wf hd) rfl
      simp only [Option.map_some]
      rw [perform, Prog.run_perform_ok (I := interface) _ hbelow]
      by_cases hany : (rows.any fun row => decide (row.1.text = q)) = true
      · rw [if_pos hany]
        refine Or.inr ⟨?_, _, _, rfl⟩
        obtain ⟨⟨x, k⟩, hx, heq⟩ := List.any_eq_true.mp hany
        obtain rfl := of_decide_eq_true heq
        exact fun h => h.2.2.1 rfl k ((hmem x k).mp hx)
      rw [if_neg hany, perform, Prog.run_perform_ok (I := interface) _ hdepth]
      by_cases hmax : d + 1 + (rows.map Prod.snd).foldl Nat.max 0 > TasksService.MAX_DEPTH
      · rw [if_pos hmax]
        refine Or.inr ⟨?_, _, _, rfl⟩
        rintro ⟨-, -, -, d', h', hd', hh', hle⟩
        rw [hd'.unique wf hd, hh'.unique hheight] at hle
        exact absurd hle (Nat.not_le.mpr hmax)
      rw [if_neg hmax]
      have hin : ∀ id ∈ (some q).map UuidText.uuid, id ∈ s.taskIds := by
        rintro _ ⟨⟩
        exact hpp.1 ▸ List.mem_map_of_mem hparent
      refine (em (q.uuid = t.uuid)).elim (fun hsame => Or.inr ⟨fun h => h.2.1 hsame, ?_⟩) fun hne => Or.inl ⟨?_, ?_⟩
      · refine ⟨_, _, (save_moved wf found.mem hin _ _).trans (if_pos ?_)⟩
        rw [Option.map_some, hsame, found.id]
      · refine ⟨⟨parent, hparent, hpp⟩, hne, fun htext k hk => hany ?_, d, _, hd, hheight, Nat.not_lt.mp hmax⟩
        exact List.any_eq_true.mpr ⟨(q.uuid, k), (hmem _ _).mpr hk, decide_eq_true htext.symm⟩
      · refine ⟨_, (save_moved wf found.mem hin _ _).trans (if_neg ?_)⟩
        exact fun h => hne ((Option.some.inj h).trans found.id)

/-! ### What a legal move does to the trees -/

section
variable {q : Option Uuid} (wf : s.WellFormed) (wf' : s'.WellFormed) (forest : s.Forest) (mem : old ∈ s.tasks)
  (tasks : s'.tasks = Table.replace TaskRow.id { old with parentTaskId := q } s.tasks)
  (legal : MayMove s old.projectId old.id q)
include wf forest mem tasks legal

omit wf forest legal in
theorem mem_moved {r : TaskRow} :
    r ∈ s'.tasks ↔ r = { old with parentTaskId := q } ∨ r ∈ s.tasks ∧ r.id ≠ old.id :=
  mem_replaced (r := { old with parentTaskId := q }) mem rfl tasks

theorem forest_of_move : s'.Forest := by
  have hmem := @mem_moved s s' old q mem tasks
  -- Every task that was there is still there, in its project.
  have hkept : ∀ u ∈ s.tasks, ∃ u' ∈ s'.tasks, u'.id = u.id ∧ u'.projectId = u.projectId := by
    intro u hu
    by_cases hid : u.id = old.id
    · obtain rfl := Table.eq_of_key wf.tasks hu mem hid
      exact ⟨_, hmem.mpr (Or.inl rfl), rfl, rfl⟩
    · exact ⟨u, hmem.mpr (Or.inr ⟨hu, hid⟩), rfl, rfl⟩
  constructor
  · intro r hr p hp
    rcases hmem.mp hr with rfl | ⟨hr, -⟩
    · obtain rfl : q = some p := hp
      obtain ⟨⟨x, hx, rfl, hproject⟩, -⟩ := legal
      obtain ⟨u, hu, hid, hup⟩ := hkept x hx
      exact ⟨u, hu, hid, hup.trans hproject⟩
    · obtain ⟨x, hx, rfl, hproject⟩ := forest.project r hr p hp
      obtain ⟨u, hu, hid, hup⟩ := hkept x hx
      exact ⟨u, hu, hid, hup.trans hproject⟩
  · have hset : Tables.Acyclic { s with tasks := Table.replace TaskRow.id { old with parentTaskId := q } s.tasks } := by
      refine acyclic_of_set (r := { old with parentTaskId := q }) forest.acyclic mem rfl fun p hp => Or.inr ?_
      obtain rfl : q = some p := hp
      obtain ⟨-, hapart, -⟩ := legal
      obtain ⟨rows, hrows, hlist⟩ := forest.descendants wf old.id
      simp only [Tables.notBelow, hrows, Bool.not_eq_true', List.contains_eq_mem, decide_eq_false_iff_not]
      intro h
      obtain ⟨⟨x, k⟩, hx, rfl⟩ := List.mem_map.mp h
      exact hapart k ((hlist _ _).mp hx)
    exact acyclic_of_subset hset fun r hr => tasks ▸ hr

omit forest legal in
theorem stay_of_move {x : Uuid} {n : Nat} (apart : ∀ k, ¬ s.Below old.id x k) (h : s.AtDepth x n) : s'.AtDepth x n := by
  refine h.stay (r := { old with parentTaskId := q }) mem rfl tasks fun k y hy heq => apart k ?_
  exact heq ▸ (below_iff_level wf (mem_of_level hy)).mpr hy

omit forest in
/-- The depth of the moved task. -/
theorem depth_of_move : ∃ d, s'.AtDepth old.id d := by
  have hnew : ({ old with parentTaskId := q } : TaskRow) ∈ s'.tasks := (mem_moved mem tasks).mpr (Or.inl rfl)
  cases q with
  | none =>
    have hroot : s'.AtDepth ({ old with parentTaskId := none } : TaskRow).id 0 := .root hnew rfl
    exact ⟨0, hroot⟩
  | some q =>
    obtain ⟨-, hapart, d, -, hd, -⟩ := legal
    have hchild : s'.AtDepth ({ old with parentTaskId := some q } : TaskRow).id (d + 1) :=
      .child hnew rfl (stay_of_move wf mem tasks hapart hd)
    exact ⟨d + 1, hchild⟩

theorem shift_of_move : ∃ shift : Int, ∀ x k n, s.Below old.id x k → s.AtDepth x n →
    ∃ m, s'.AtDepth x m ∧ (m : Int) = n + shift := by
  obtain ⟨d, hd⟩ := depth_of_move wf mem tasks legal
  obtain ⟨m, hm⟩ := forest.atDepth wf mem
  refine ⟨(d : Int) - m, fun x k n hbelow hn => ?_⟩
  obtain ⟨y, hy, rfl⟩ := hbelow.mem
  have hlevel := (below_iff_level wf hy).mp hbelow
  refine ⟨d + k, .hang (r := { old with parentTaskId := q }) wf mem rfl tasks hd hm hlevel, ?_⟩
  -- Before the move the task was so many levels below.
  have := hn.unique wf (hm.level hlevel)
  omega

include wf'

omit legal in
theorem stay_of_move_iff {x : Uuid} {n : Nat} (apart : ∀ k, ¬ s.Below old.id x k) : s'.AtDepth x n ↔ s.AtDepth x n := by
  refine ⟨fun h => ?_, stay_of_move wf mem tasks apart⟩
  obtain ⟨y, hy, hid⟩ := h.mem
  have hids : x ∈ s.taskIds := by
    have : x ∈ s'.tasks.map TaskRow.id := hid ▸ List.mem_map_of_mem hy
    rwa [tasks, Table.map_key_replace] at this
  obtain ⟨u, hu, rfl⟩ := List.mem_map.mp hids
  obtain ⟨d, hd⟩ := forest.atDepth wf hu
  rw [h.unique wf' (stay_of_move wf mem tasks apart hd)]
  exact hd

end

theorem reparented {q : Option UuidText} {g : Generated} (wf : s.WellFormed) (wf' : (s.reparent old q g).WellFormed)
    (forest : s.Forest) (mem : old ∈ s.tasks) (legal : MayMove s old.projectId old.id (q.map UuidText.uuid)) :
    Reparented s (s.reparent old q g) old.id (q.map UuidText.uuid) where
  rows := ⟨rfl, rfl, rfl, rfl, rfl⟩
  tasks := by
    refine List.map_congr_left fun r hr => ?_
    by_cases hid : r.id = old.id
    · obtain rfl := Table.eq_of_key wf.tasks hr mem hid
      exact (if_pos rfl).trans (if_pos rfl).symm
    · exact (if_neg hid).trans (if_neg hid).symm
  forest := forest_of_move wf forest mem rfl legal
  shift := shift_of_move wf forest mem rfl legal
  stay _ _ apart := stay_of_move_iff wf wf' forest mem rfl apart

/-! ### Which moves are correct -/

variable (pg env w p t) in
theorem moveTask_wellFormed (wf : s.WellFormed) (newParentId : Option UuidText) :
    ((TasksService.moveTask w p t newParentId).run (system pg).handler env s).2.WellFormed :=
  (Prog.calls_of_forall (P := fun _ => True) (fun _ => trivial) _).run_keeps
    (fun _ h => (exec_write pg _ _ _).wellFormed (h.spend _)) wf

theorem accepted_of_legal {newParentId : Option UuidText}
    (mem : old ∈ s.tasks) (id : old.id = t.uuid) (h : MayMove s p.uuid t.uuid (newParentId.map UuidText.uuid)) :
    MoveAccepted s p t newParentId := by
  cases newParentId with
  | none => trivial
  | some q =>
    obtain ⟨hin, hapart, hdepth⟩ := h
    refine ⟨hin, fun heq => hapart 0 ?_, fun _ => hapart, hdepth⟩
    rw [heq]
    exact .self mem id

/-- A move does what it should exactly if the new parent is written as Postgres writes it, or is not below the
    task, or is too deep for the subtree. -/
theorem move_correct_iff (pg : Postgres) (env : Nat → Env) {s : Tables} (wf : s.WellFormed) (forest : s.Forest)
    {w p t : UuidText} {old : TaskRow} (found : Found w p t s old) (newParentId : Option UuidText) :
    MoveCorrect s p t newParentId ((TasksService.moveTask w p t newParentId).run (system pg).handler env s) ↔
      ∀ q ∈ newParentId, q = q.uuid.text ∨ ¬ s.Ancestor q.uuid t.uuid ∨
        ∀ d h, s.AtDepth q.uuid d → s.Height t.uuid h → TasksService.MAX_DEPTH < d + 1 + h := by
  rcases moveTask_run wf forest found newParentId with ⟨haccepted, g, hrun⟩ | ⟨hrejected, e, g, hrun⟩
  · have wf' : (s.reparent old newParentId g).WellFormed := by
      have := moveTask_wellFormed pg env w p t wf newParentId
      rwa [hrun] at this
    rw [hrun]
    constructor
    · -- The move succeeds, so it has to be a legal one.
      rintro ⟨hlegal, -, -⟩ q rfl
      obtain ⟨-, hapart, -⟩ := hlegal.mp ⟨_, rfl⟩
      refine Or.inr (Or.inl fun h => ?_)
      obtain ⟨k, hk⟩ := below_of_ancestor wf h
      exact hapart _ hk
    · intro cond
      have hlegal : MayMove s p.uuid t.uuid (newParentId.map UuidText.uuid) := by
        cases newParentId with
        | none => trivial
        | some q =>
          obtain ⟨hin, hne, htext, d, h, hd, hh, hle⟩ := haccepted
          refine ⟨hin, fun k hk => ?_, d, h, hd, hh, hle⟩
          rcases cond q rfl with hspelled | hapart | hdeep
          · exact htext hspelled k hk
          · cases k with
            | zero => exact hne hk.zero
            | succ k => exact hapart hk.ancestor
          · exact absurd hle (Nat.not_le.mpr (hdeep d h hd hh))
      refine ⟨⟨fun _ => hlegal, fun _ => ⟨_, rfl⟩⟩, fun _ _ => ?_, nofun⟩
      rw [← found.projectId, ← found.id] at hlegal
      exact found.id ▸ reparented wf wf' forest found.mem hlegal
  · rw [hrun]
    constructor
    · -- A move under a task that the cycle check does not see was rejected, so it is too deep.
      rintro - q rfl
      by_cases hspelled : q = q.uuid.text
      · exact Or.inl hspelled
      refine Or.inr (or_iff_not_imp_left.mpr fun hbelow d h hd hh => Nat.not_le.mp fun hle => hrejected ?_)
      have hancestor : s.Ancestor q.uuid t.uuid := not_not.mp hbelow
      obtain ⟨k, hk⟩ := below_of_ancestor wf hancestor
      refine ⟨forest.project_below wf ⟨old, found.mem, found.id, found.projectId⟩ hk, fun heq => ?_,
        fun htext => absurd htext hspelled, d, h, hd, hh, hle⟩
      rw [heq] at hancestor
      exact forest.acyclic _ hancestor
    · intro _
      refine ⟨⟨?_, fun hlegal => absurd (accepted_of_legal found.mem found.id hlegal) hrejected⟩, ?_, fun _ _ => ?_⟩
      · rintro ⟨_, h⟩
        cases h
      · intro _ h
        cases h
      · exact ⟨⟨rfl, rfl, rfl, rfl, rfl⟩, rfl⟩

end
/-! ### A task below another one -/

/-- Task 10 (`…0a`) is below task 11 (`…0b`). -/
def nestedTasks : Tables := { twoTasks with tasks := [{ task 10 with parentTaskId := some 11 }, task 11] }

theorem mem_nestedTasks {t : TaskRow} (ht : t ∈ nestedTasks.tasks) :
    t = { task 10 with parentTaskId := some 11 } ∨ t = task 11 := by
  simpa [nestedTasks] using ht

theorem nestedTasks_wellFormed : nestedTasks.WellFormed where
  projects := by decide
  tasks := by decide
  comments := by decide
  activity := by decide
  taskProject := by decide
  taskParent t ht p hp := by
    rcases mem_nestedTasks ht with rfl | rfl <;> cases hp
    decide
  commentTask := nofun
  commentParent := nofun
  activityTask := nofun

theorem nestedTasks_forest : nestedTasks.Forest where
  project t ht p hp := by
    rcases mem_nestedTasks ht with rfl | rfl <;> cases hp
    exact ⟨task 11, List.mem_cons_of_mem _ (List.mem_cons_self ..), rfl, rfl⟩
  acyclic a h := by
    have hlinks : ∀ {a b}, nestedTasks.Parent a b → a = 10 ∧ b = 11 := by
      rintro a b ⟨t, ht, rfl, hp⟩
      rcases mem_nestedTasks ht with rfl | rfl <;> cases hp
      exact ⟨rfl, rfl⟩
    obtain ⟨b, hab, hba⟩ := Relation.TransGen.head'_iff.mp h
    obtain ⟨rfl, rfl⟩ := hlinks hab
    rcases hba.cases_head with heq | ⟨c, hbc, -⟩
    · exact absurd heq (by decide)
    · exact absurd (hlinks hbc).1 (by decide)

theorem nestedTasks_found (id : Uuid) (h : id = 10 ∨ id = 11) :
    ∃ old, Found (Uuid.text 1) (Uuid.text 2) id.text nestedTasks old := by
  rcases h with rfl | rfl
  · exact ⟨_, List.mem_cons_self .., rfl, rfl, project, List.mem_cons_self .., rfl, rfl⟩
  · exact ⟨_, List.mem_cons_of_mem _ (List.mem_cons_self ..), rfl, rfl, project, List.mem_cons_self .., rfl, rfl⟩

/-- The move under a task below is rejected where that task is written as Postgres writes it. -/
theorem move_correct_below :
    MoveCorrect nestedTasks (Uuid.text 2) (Uuid.text 11) (some (Uuid.text 10))
      ((TasksService.moveTask (Uuid.text 1) (Uuid.text 2) (Uuid.text 11) (some (Uuid.text 10))).run
        (system .strict).handler envAt nestedTasks) := by
  obtain ⟨old, found⟩ := nestedTasks_found 11 (Or.inr rfl)
  refine (move_correct_iff .strict envAt nestedTasks_wellFormed nestedTasks_forest found _).mpr fun q hq => Or.inl ?_
  cases hq
  rfl

/-- In capitals the task below is not found below, and the move makes a circle. -/
theorem move_below_in_capitals :
    ¬ ∀ (s : Tables) (env : Nat → Env) (w p t : UuidText) (old : TaskRow) (newParentId : Option UuidText),
      s.WellFormed → s.Forest → Found w p t s old → MoveCorrect s p t newParentId
        ((TasksService.moveTask w p t newParentId).run (system .strict).handler env s) := by
  intro h
  obtain ⟨old, found⟩ := nestedTasks_found 11 (Or.inr rfl)
  have hcorrect := h nestedTasks envAt _ _ _ old (some ⟨10, 1⟩) nestedTasks_wellFormed nestedTasks_forest found
  have hok : ((TasksService.moveTask (Uuid.text 1) (Uuid.text 2) (Uuid.text 11) (some ⟨10, 1⟩)).run
      (system .strict).handler envAt nestedTasks).1.isOk = true := by decide +kernel
  obtain ⟨-, hapart, -⟩ : MayMove nestedTasks 2 11 (some 10) := hcorrect.accepted.mp (by
    generalize ((TasksService.moveTask (Uuid.text 1) (Uuid.text 2) (Uuid.text 11) (some ⟨10, 1⟩)).run
      (system .strict).handler envAt nestedTasks).1 = result at hok
    cases result with
    | ok task => exact ⟨task, rfl⟩
    | error e => cases hok)
  have hbelow : nestedTasks.Below 11 ({ task 10 with parentTaskId := some 11 } : TaskRow).id 1 :=
    .child (List.mem_cons_self ..) rfl (.self (x := task 11) (List.mem_cons_of_mem _ (List.mem_cons_self ..)) rfl)
  exact hapart 1 hbelow

end TaskPlatform.Board

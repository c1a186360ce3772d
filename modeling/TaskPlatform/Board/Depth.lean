import TaskPlatform.Board.Requests
import TaskPlatform.Board.Forest

/-! The nesting depth of tasks: which requests keep it within `MAX_DEPTH`. -/

namespace TaskPlatform.Board
open Effects Relation

/-- The task has this depth below a root, which has depth 0. A task above itself has none. -/
inductive Tables.AtDepth (s : Tables) : Uuid → Nat → Prop
  | root {t : TaskRow} (mem : t ∈ s.tasks) (parent : t.parentTaskId = none) : AtDepth s t.id 0
  | child {t : TaskRow} {p : Uuid} {n : Nat} (mem : t ∈ s.tasks) (parent : t.parentTaskId = some p)
      (above : AtDepth s p n) : AtDepth s t.id (n + 1)

/-- No task is nested deeper than `MAX_DEPTH`. -/
def Tables.Shallow (s : Tables) : Prop := ∀ t ∈ s.tasks, ∃ n ≤ TasksService.MAX_DEPTH, s.AtDepth t.id n

/-- No task of the project that is to be the parent of a new one is at `MAX_DEPTH`. -/
def Tables.RoomBelow (s : Tables) (p : UuidText) (parentTaskId : Option UuidText) : Prop :=
  ∀ q ∈ parentTaskId, ∀ x ∈ s.tasks, x.id = q.uuid → x.projectId = p.uuid → ∀ n, s.AtDepth x.id n →
    n < TasksService.MAX_DEPTH

/-- There is room below the parent of a new task. The new parent of a task is written as the database writes it, so
    that the cycle check can find it, or is not below the task. -/
def Request.keepsDepth (s : Tables) (r : Request) : Prop :=
  match r.operation with
  | .createTask p _ dto => s.RoomBelow p dto.parentTaskId
  | .moveTask _ t (some q) => q = q.uuid.text ∨ ¬ s.Ancestor q.uuid t.uuid
  | _ => True

section
variable {s s' : Tables} {id : Uuid} {n : Nat}

namespace Tables

theorem AtDepth.congr (h : s.AtDepth id n) (tasks : s'.tasks = s.tasks) : s'.AtDepth id n := by
  induction h with
  | root mem parent => exact .root (tasks ▸ mem) parent
  | child mem parent _ ih => exact .child (tasks ▸ mem) parent ih

theorem Shallow.congr (h : s.Shallow) (tasks : s'.tasks = s.tasks) : s'.Shallow := by
  intro t ht
  obtain ⟨n, hn, hdepth⟩ := h t (tasks ▸ ht)
  exact ⟨n, hn, hdepth.congr tasks⟩

theorem AtDepth.mem (h : s.AtDepth id n) : ∃ t ∈ s.tasks, t.id = id := by
  cases h with
  | root mem _ | child mem _ _ => exact ⟨_, mem, rfl⟩

theorem AtDepth.unique {m : Nat} (wf : s.WellFormed) (h : s.AtDepth id n) (h' : s.AtDepth id m) : n = m := by
  induction h generalizing m with
  | @root t mem parent =>
    generalize hid : t.id = i at h'
    cases h' with
    | root => rfl
    | child mem' parent' _ =>
      rw [Table.eq_of_key wf.tasks mem mem' hid, parent'] at parent
      cases parent
  | @child t p n mem parent _ ih =>
    generalize hid : t.id = i at h'
    cases h' with
    | root mem' parent' =>
      rw [Table.eq_of_key wf.tasks mem mem' hid, parent'] at parent
      cases parent
    | child mem' parent' above' =>
      rw [Table.eq_of_key wf.tasks mem mem' hid, parent', Option.some.injEq] at parent
      rw [ih (parent ▸ above')]

/-! ### Creates and deletes -/

theorem AtDepth.add {r : TaskRow} (h : s.AtDepth id n) (tasks : s'.tasks = s.tasks ++ [r]) : s'.AtDepth id n := by
  induction h with
  | root mem parent => exact .root (tasks ▸ List.mem_append_left _ mem) parent
  | child mem parent _ ih => exact .child (tasks ▸ List.mem_append_left _ mem) parent ih

/-- A new task is one level below its parent. -/
theorem Shallow.add {r : TaskRow} (h : s.Shallow) (tasks : s'.tasks = s.tasks ++ [r])
    (parent : ∀ p ∈ r.parentTaskId, p ∈ s.taskIds ∧ ∀ n, s.AtDepth p n → n < TasksService.MAX_DEPTH) : s'.Shallow := by
  have hnew : r ∈ s'.tasks := tasks ▸ List.mem_append_right _ (List.mem_singleton_self r)
  intro t ht
  rw [tasks] at ht
  rcases List.mem_append.mp ht with ht | ht
  · obtain ⟨n, hn, hdepth⟩ := h t ht
    exact ⟨n, hn, hdepth.add tasks⟩
  · obtain rfl := List.mem_singleton.mp ht
    cases hp : t.parentTaskId with
    | none => exact ⟨0, Nat.zero_le _, .root hnew hp⟩
    | some p =>
      obtain ⟨hmem, hlt⟩ := parent p hp
      obtain ⟨x, hx, rfl⟩ := List.mem_map.mp hmem
      obtain ⟨n, -, hdepth⟩ := h x hx
      exact ⟨n + 1, hlt n hdepth, .child hnew hp (hdepth.add tasks)⟩

/-- What is left of the tasks is as deep as before: with a task its parent is left. -/
theorem AtDepth.sub (h : s.AtDepth id n) (wf : s.WellFormed) (wf' : s'.WellFormed) (sub : ∀ t ∈ s'.tasks, t ∈ s.tasks)
    (left : id ∈ s'.taskIds) : s'.AtDepth id n := by
  have hleft : ∀ {t}, t ∈ s.tasks → t.id ∈ s'.taskIds → t ∈ s'.tasks := fun ht hid => by
    obtain ⟨x, hx, heq⟩ := List.mem_map.mp hid
    exact Table.eq_of_key wf.tasks (sub x hx) ht heq ▸ hx
  induction h with
  | root mem parent => exact .root (hleft mem left) parent
  | child mem parent _ ih => exact .child (hleft mem left) parent (ih (wf'.taskParent _ (hleft mem left) _ parent))

theorem Shallow.sub (h : s.Shallow) (wf : s.WellFormed) (wf' : s'.WellFormed) (sub : ∀ t ∈ s'.tasks, t ∈ s.tasks) :
    s'.Shallow := by
  intro t ht
  obtain ⟨n, hn, hdepth⟩ := h t (sub t ht)
  exact ⟨n, hn, hdepth.sub wf wf' sub (List.mem_map_of_mem ht)⟩

end Tables

/-! ### Saves -/

section
variable {r old : TaskRow} (wf : s.WellFormed) (mem : old ∈ s.tasks) (id_eq : old.id = r.id)
  (tasks : s'.tasks = Table.replace TaskRow.id r s.tasks)
include wf mem id_eq tasks

omit wf in
theorem mem_replaced {t : TaskRow} : t ∈ s'.tasks ↔ t = r ∨ t ∈ s.tasks ∧ t.id ≠ r.id := by
  rw [tasks, Table.mem_replace ⟨old, mem, id_eq⟩]

/-- A task that keeps its parent, or becomes a root, makes no task deeper. -/
theorem Tables.AtDepth.keep (parent : r.parentTaskId = none ∨ r.parentTaskId = old.parentTaskId) (h : s.AtDepth id n) :
    ∃ m ≤ n, s'.AtDepth id m := by
  have hmem := @mem_replaced s s' r old mem id_eq tasks
  have hnew : r ∈ s'.tasks := hmem.mpr (Or.inl rfl)
  induction h with
  | @root t ht hroot =>
    refine ⟨0, Nat.le_refl 0, ?_⟩
    by_cases hid : t.id = r.id
    · obtain rfl := Table.eq_of_key wf.tasks ht mem (hid.trans id_eq.symm)
      exact hid ▸ .root hnew (parent.elim (fun h => h) fun h => h.trans hroot)
    · exact .root (hmem.mpr (Or.inr ⟨ht, hid⟩)) hroot
  | @child t p n ht hp _ ih =>
    obtain ⟨m, hm, hdepth⟩ := ih
    by_cases hid : t.id = r.id
    · obtain rfl := Table.eq_of_key wf.tasks ht mem (hid.trans id_eq.symm)
      rcases parent with hnone | hsame
      · exact ⟨0, Nat.zero_le _, hid ▸ .root hnew hnone⟩
      · exact ⟨m + 1, Nat.succ_le_succ hm, hid ▸ .child hnew (hsame.trans hp) hdepth⟩
    · exact ⟨m + 1, Nat.succ_le_succ hm, .child (hmem.mpr (Or.inr ⟨ht, hid⟩)) hp hdepth⟩

theorem Tables.Shallow.keep (parent : r.parentTaskId = none ∨ r.parentTaskId = old.parentTaskId) (h : s.Shallow) :
    s'.Shallow := by
  have hdepth : ∀ t ∈ s.tasks, ∃ n ≤ TasksService.MAX_DEPTH, s'.AtDepth t.id n := fun t ht => by
    obtain ⟨n, hn, hd⟩ := h t ht
    obtain ⟨m, hm, hd'⟩ := hd.keep wf mem id_eq tasks parent
    exact ⟨m, Nat.le_trans hm hn, hd'⟩
  intro t ht
  rcases (mem_replaced mem id_eq tasks).mp ht with rfl | ⟨ht, -⟩
  · exact id_eq ▸ hdepth old mem
  · exact hdepth t ht

end

/-! ### Moves -/

/-- The tasks that are `k` levels below the task `t`. -/
def Tables.level (s : Tables) (t : Uuid) (k : Nat) : List TaskRow :=
  Recursive.level childOf s.tasks (s.tasks.filter (·.id = t)) k

section
variable {t : Uuid} {k : Nat} {x : TaskRow}

theorem mem_level_zero : x ∈ s.level t 0 ↔ x ∈ s.tasks ∧ x.id = t := by
  simp [Tables.level, Recursive.level]

theorem mem_level_succ : x ∈ s.level t (k + 1) ↔ x ∈ s.tasks ∧ ∃ y ∈ s.level t k, x.parentTaskId = some y.id := by
  simp only [Tables.level, Recursive.level, Recursive.mem_next, childOf, decide_eq_true_eq]

theorem mem_of_level (h : x ∈ s.level t k) : x ∈ s.tasks := Recursive.level_subset (List.filter_subset_self _) h

/-- A task below another one is above it nowhere but in a circle. -/
theorem ancestor_of_level (h : x ∈ s.level t (k + 1)) : s.Ancestor x.id t := by
  induction k generalizing x with
  | zero =>
    obtain ⟨hx, y, hy, hp⟩ := mem_level_succ.mp h
    obtain ⟨-, rfl⟩ := mem_level_zero.mp hy
    exact .single ⟨x, hx, rfl, hp⟩
  | succ k ih =>
    obtain ⟨hx, y, hy, hp⟩ := mem_level_succ.mp h
    exact .head ⟨x, hx, rfl, hp⟩ (ih hy)

/-- A task on the k-th level below another one is k levels deeper. -/
theorem Tables.AtDepth.level (h : s.AtDepth t n) (hx : x ∈ s.level t k) : s.AtDepth x.id (n + k) := by
  induction k generalizing x with
  | zero =>
    obtain ⟨-, rfl⟩ := mem_level_zero.mp hx
    exact h
  | succ k ih =>
    obtain ⟨hx, y, hy, hp⟩ := mem_level_succ.mp hx
    exact .child hx hp (ih hy)

/-- The walk of `depthOf` gets from a task to its root. -/
theorem Tables.AtDepth.walk (h : s.AtDepth id n) (wf : s.WellFormed) {seed : List TaskRow} (sub : seed ⊆ s.tasks) {j : Nat}
    {y : TaskRow} (hy : y ∈ Recursive.level parentOf s.tasks seed j) (hid : y.id = id) :
    ∃ z, z ∈ Recursive.level parentOf s.tasks seed (j + n) := by
  induction h generalizing j y with
  | root => exact ⟨y, hy⟩
  | @child t p n ht hp above ih =>
    obtain rfl := Table.eq_of_key wf.tasks (Recursive.level_subset sub hy) ht hid
    obtain ⟨z, hz, hzp⟩ := above.mem
    have hlevel : z ∈ Recursive.level parentOf s.tasks seed (j + 1) :=
      Recursive.mem_next.mpr ⟨hz, y, hy, decide_eq_true (by rw [hp, hzp])⟩
    obtain ⟨u, hu⟩ := ih hlevel hzp
    exact ⟨u, by rwa [Nat.add_right_comm] at hu⟩

theorem le_depthOf (wf : s.WellFormed) {q : Uuid} {depth : Nat} (hd : s.depthOf q = .ok depth) (h : s.AtDepth q n) :
    n ≤ depth := by
  obtain ⟨x, hx, hid⟩ := h.mem
  have hseed : x ∈ s.tasks.filter (·.id = q) := List.mem_filter.mpr ⟨hx, decide_eq_true hid⟩
  obtain ⟨z, hz⟩ := h.walk wf (List.filter_subset_self _) (j := 0) hseed hid
  rw [Nat.zero_add] at hz
  simp only [Tables.depthOf] at hd
  cases hq : Recursive.query parentOf s.tasks (s.tasks.filter (·.id = q)) with
  | none =>
    rw [hq] at hd
    cases hd
  | some rows =>
    rw [hq] at hd
    cases hd
    refine Recursive.le_foldl_max.mpr (Or.inr ⟨n, ?_, Nat.le_refl n⟩)
    exact List.mem_map.mpr ⟨(z, n), (Recursive.mem_query hq).mpr hz, rfl⟩

/-- The query of the subtree lists every task below with how far it is below. -/
theorem le_height {rows : List (Uuid × Nat)} (hrows : s.descendants t = .ok rows) (hx : x ∈ s.level t k) :
    x.id ∈ rows.map Prod.fst ∧ k ≤ (rows.map Prod.snd).foldl Nat.max 0 := by
  refine ⟨descendants_ok hrows hx, ?_⟩
  simp only [Tables.descendants] at hrows
  cases hq : Recursive.query childOf s.tasks (s.tasks.filter (·.id = t)) with
  | none =>
    rw [hq] at hrows
    cases hrows
  | some out =>
    rw [hq] at hrows
    cases hrows
    refine Recursive.le_foldl_max.mpr (Or.inr ⟨k, ?_, Nat.le_refl k⟩)
    exact List.mem_map.mpr ⟨(x.id, k), List.mem_map.mpr ⟨(x, k), (Recursive.mem_query hq).mpr hx, rfl⟩, rfl⟩

end

section
variable {r old : TaskRow} (wf : s.WellFormed) (mem : old ∈ s.tasks) (id_eq : old.id = r.id)
  (tasks : s'.tasks = Table.replace TaskRow.id r s.tasks)
include mem id_eq tasks

/-- Tasks that are not below the one that is moved stay where they are. -/
theorem Tables.AtDepth.stay (h : s.AtDepth id n) (apart : ∀ k, ∀ x ∈ s.level r.id k, x.id ≠ id) : s'.AtDepth id n := by
  have hkept : ∀ {y}, y ∈ s.tasks → (∀ k, ∀ x ∈ s.level r.id k, x.id ≠ y.id) → y ∈ s'.tasks := fun {y} hy hapart =>
    (mem_replaced mem id_eq tasks).mpr (Or.inr ⟨hy, fun heq => hapart 0 y (mem_level_zero.mpr ⟨hy, heq⟩) rfl⟩)
  induction h with
  | root hy hp => exact .root (hkept hy apart) hp
  | @child y p n hy hp above ih =>
    refine .child (hkept hy apart) hp (ih fun k x hx heq => ?_)
    exact apart (k + 1) y (mem_level_succ.mpr ⟨hy, x, hx, by rw [hp, heq]⟩) rfl

include wf

/-- The subtree of the moved task hangs below it as before. -/
theorem Tables.AtDepth.hang {d m k : Nat} {x : TaskRow} (h : s'.AtDepth r.id d) (hr : s.AtDepth r.id m)
    (hx : x ∈ s.level r.id k) : s'.AtDepth x.id (d + k) := by
  induction k generalizing x with
  | zero =>
    obtain ⟨-, hid⟩ := mem_level_zero.mp hx
    exact hid ▸ h
  | succ k ih =>
    -- The moved task is not below itself: it would have two depths.
    have hne : x.id ≠ r.id := fun heq => by
      have := (hr.level hx).unique wf (heq ▸ hr)
      omega
    obtain ⟨hmem, y, hy, hp⟩ := mem_level_succ.mp hx
    exact .child ((mem_replaced mem id_eq tasks).mpr (Or.inr ⟨hmem, hne⟩)) hp (ih hy)

/-- A move that passes the checks, under a parent that is not below the task, makes no task too deep. -/
theorem Tables.Shallow.move {q : Uuid} {rows : List (Uuid × Nat)} {depth : Nat} (h : s.Shallow)
    (parent : r.parentTaskId = some q) (hq : q ∈ s.taskIds) (apart : ∀ k, ∀ x ∈ s.level r.id k, x.id ≠ q)
    (hrows : s.descendants r.id = .ok rows) (hdepth : s.depthOf q = .ok depth)
    (hmax : depth + 1 + (rows.map Prod.snd).foldl Nat.max 0 ≤ TasksService.MAX_DEPTH) : s'.Shallow := by
  obtain ⟨m, -, hr⟩ := h old mem
  obtain ⟨y, hy, rfl⟩ := List.mem_map.mp hq
  obtain ⟨d, -, hd⟩ := h y hy
  have hbelow : ∀ {k x}, x ∈ s.level r.id k → ∃ n ≤ TasksService.MAX_DEPTH, s'.AtDepth x.id n := fun {k x} hx => by
    have hnew : s'.AtDepth r.id (d + 1) :=
      .child ((mem_replaced mem id_eq tasks).mpr (Or.inl rfl)) parent (hd.stay mem id_eq tasks apart)
    refine ⟨d + 1 + k, ?_, .hang wf mem id_eq tasks hnew (id_eq ▸ hr) hx⟩
    have hd := le_depthOf wf hdepth hd
    have hk := (le_height hrows hx).2
    omega
  intro x hx
  rcases (mem_replaced mem id_eq tasks).mp hx with rfl | ⟨hx, -⟩
  · exact id_eq ▸ hbelow (mem_level_zero.mpr ⟨mem, id_eq⟩)
  · by_cases hin : ∃ k, ∃ y ∈ s.level r.id k, y.id = x.id
    · obtain ⟨k, y, hy, heq⟩ := hin
      exact heq ▸ hbelow hy
    · obtain ⟨n, hn, hdepth⟩ := h x hx
      exact ⟨n, hn, hdepth.stay mem id_eq tasks fun k y hy heq => hin ⟨k, y, hy, heq⟩⟩

end

/-! ### Every request -/

section
variable {pg : Postgres} {env : Nat → Env} {w p t : UuidText}

theorem createTask_shallow (h : s.Shallow) {createdBy : Uuid} {dto : CreateTaskDto}
    (room : s.RoomBelow p dto.parentTaskId) :
    ((TasksService.create w p createdBy dto).run (system pg).handler env s).2.Shallow := by
  rcases createTask_tasks pg env s w p createdBy dto with
    hsame | ⟨hin, r, -, -, hparent, hrefs, htasks⟩
  · exact h.congr hsame
  · refine h.add htasks fun q hq => ?_
    obtain ⟨q', hq', rfl⟩ := Option.map_eq_some_iff.mp (hparent.symm.trans hq)
    obtain ⟨x, hx, hid, hp⟩ := hin q' hq'
    exact ⟨(hrefs.parent _ hq).resolve_left nofun, hid ▸ room q' hq' x hx hid hp⟩

theorem updateTask_shallow (wf : s.WellFormed) (h : s.Shallow) {actorId : Uuid} {dto : UpdateTaskDto} :
    ((TasksService.update w p t actorId dto).run (system pg).handler env s).2.Shallow := by
  rcases updateTask_tasks pg env w p t wf actorId dto with
    hsame | ⟨now, old, r, hmem, hid, -, -, hrow, -, htasks⟩
  · exact h.congr hsame
  · obtain ⟨hrid, -, hparent⟩ := Task.toRow?_ok hrow
    have hsame : r.parentTaskId = old.parentTaskId := by
      rw [hparent]
      simp [UpdateTaskDto.apply, TaskRow.toEntity, Function.comp_def, Uuid.text]
    exact h.keep (r := r.over old) wf hmem hrid.symm htasks (Or.inr hsame)

theorem moveTask_shallow (wf : s.WellFormed) (h : s.Shallow) {newParentId : Option UuidText}
    (keeps : ∀ q ∈ newParentId, q = q.uuid.text ∨ ¬ s.Ancestor q.uuid t.uuid) :
    ((TasksService.moveTask w p t newParentId).run (system pg).handler env s).2.Shallow := by
  rcases moveTask_tasks pg env w p t wf newParentId with
    hsame | ⟨hpasses, old, r, hmem, hid, -, -, hrow, hrefs, htasks⟩
  · exact h.congr hsame
  · obtain ⟨hrid, -, hparent⟩ := Task.toRow?_ok hrow
    replace hrid : r.id = t.uuid := (show r.id = old.id from hrid).trans hid
    cases newParentId with
    | none => exact h.keep (r := r.over old) wf hmem (hid.trans hrid.symm) htasks (Or.inl hparent)
    | some q =>
      obtain ⟨parent, rows, depth, hmemq, hpid, -, hrows, hlisted, hdepth, hmax⟩ := hpasses q rfl
      refine h.move (r := r.over old) wf hmem (hid.trans hrid.symm) htasks hparent (hpid ▸ List.mem_map_of_mem hmemq) ?_
        (hrid ▸ hrows) hdepth hmax
      intro k x hx heq
      have hx : x ∈ s.level t.uuid k := hrid ▸ hx
      rcases keeps q rfl with htext | habove
      · -- The cycle check would have found the new parent.
        obtain ⟨row, hrow, hfst⟩ := List.mem_map.mp (le_height hrows hx).1
        exact hlisted row hrow (by rw [hfst, heq, ← htext])
      · cases k with
        | zero =>
          obtain ⟨-, hxt⟩ := mem_level_zero.mp hx
          exact hrefs.noSelf (by rw [hparent, Option.map_some, hrid, ← hxt, heq])
        | succ k => exact habove (heq ▸ ancestor_of_level hx)

theorem serve_wellFormed (r : Request) (wf : s.WellFormed) : ((system pg).serve r env s).2.WellFormed :=
  (Prog.calls_of_forall (P := fun _ => True) (fun _ => trivial) _).run_keeps
    (fun _ h => (exec_write pg _ _ _).wellFormed (h.spend _)) (wf.spend (env 0))

theorem removed_shallow {r : Request} (wf : s.WellFormed) (h : s.Shallow) (hr : r.operation.writesTask = false) :
    ((program r).run (system pg).handler env s).2.Shallow := by
  have hkeep : ∀ {e : Env} {c : Call} {s' : Tables}, c.leavesTasks = true → s'.WellFormed ∧ s'.Shallow →
      ((system pg).handler e c s').2.WellFormed ∧ ((system pg).handler e c s').2.Shallow := by
    intro e c s' hc hs
    have hwrite := exec_write pg (s'.spend e) e c
    have wf' := hwrite.wellFormed (hs.1.spend e)
    refine ⟨wf', ?_⟩
    rcases hwrite.leavesTasks hc with htasks | ⟨p, htasks⟩
    · exact hs.2.congr htasks
    · refine hs.2.sub hs.1 wf' fun t ht => (Tables.mem_deleteTasks.mp (htasks ▸ ht)).1
  have hkept : ((program r).run (system pg).handler env s).2.WellFormed ∧
      ((program r).run (system pg).handler env s).2.Shallow :=
    (program_leavesTasks hr).run_keeps (K := fun s : Tables => s.WellFormed ∧ s.Shallow) hkeep ⟨wf, h⟩
  exact hkept.2

/-- A request that keeps to the condition makes no task too deep. -/
theorem serve_shallow {r : Request} (wf : s.WellFormed) (h : s.Shallow) (keeps : r.keepsDepth s) :
    ((system pg).serve r env s).2.Shallow := by
  replace wf := wf.spend (env 0)
  replace h : (s.spend (env 0)).Shallow := h.congr rfl
  have hprogram : ∀ {r : Request}, r.operation.writesTask = false → ((system pg).serve r env s).2.Shallow :=
    fun hr => removed_shallow wf h hr
  obtain ⟨w, operation⟩ := r
  cases operation with
  | createTask p user dto =>
    rw [serve_createTask]
    exact createTask_shallow h fun q hq x hx hid hp n hn => keeps q hq x hx hid hp n (hn.congr rfl)
  | updateTask p t user dto =>
    rw [serve_updateTask]
    exact updateTask_shallow wf h
  | moveTask p t parent =>
    rw [serve_moveTask]
    refine moveTask_shallow wf h fun q hq => ?_
    cases hq
    exact keeps
  | _ => exact hprogram rfl

end

/-- Each request of the sequence meets the condition in the state in which it is served. -/
def KeepsDepth (pg : Postgres) : List (Request × (Nat → Env)) → Tables → Prop
  | [], _ => True
  | (r, env) :: rest, s => r.keepsDepth s ∧ KeepsDepth pg rest ((system pg).serve r env s).2

theorem serveAll_wellFormed {pg : Postgres} {rs : List (Request × (Nat → Env))} (wf : s.WellFormed) :
    ((system pg).serveAll rs s).2.WellFormed := by
  induction rs generalizing s with
  | nil => exact wf
  | cons r rs ih => exact ih (serve_wellFormed _ wf)

theorem serveAll_shallow {pg : Postgres} {rs : List (Request × (Nat → Env))} (wf : s.WellFormed) (h : s.Shallow)
    (keeps : KeepsDepth pg rs s) : ((system pg).serveAll rs s).2.Shallow := by
  induction rs generalizing s with
  | nil => exact h
  | cons r rs ih => exact ih (serve_wellFormed _ wf) (serve_shallow wf h keeps.1) keeps.2

/-- Requests one after another nest no task too deep, as long as each of them meets the condition. -/
theorem depth_bounded (pg : Postgres) (users workspaces : List Uuid) (generated : Generated)
    (rs : List (Request × (Nat → Env))) (keeps : KeepsDepth pg rs (Tables.start users workspaces generated)) :
    ((system pg).serveAll rs (Tables.start users workspaces generated)).2.Shallow :=
  serveAll_shallow (start_fits users workspaces generated).wellFormed (fun _ ht => absurd ht List.not_mem_nil) keeps

end

/-! ### A chain of new tasks -/

def addProject : Request × (Nat → Env) := (⟨Uuid.text 1, .createProject 9 { name := "Website" }⟩, envAt)

/-- Adds a task, below the parent. -/
def addBelow (parent : Option Uuid) (n : Nat) : Request × (Nat → Env) :=
  (⟨Uuid.text 1, .createTask (Uuid.text 101) 9 { title := "Task", parentTaskId := parent.map Uuid.text }⟩,
   fun k => envAt (10 * n + k))

def moveBelow (id parent : Uuid) (n : Nat) : Request × (Nat → Env) :=
  (⟨Uuid.text 1, .moveTask (Uuid.text 101) id.text (some parent.text)⟩, fun k => envAt (10 * n + k))

/-- Two tasks, of which one is then moved below the other. -/
def addAndMove : List (Request × (Nat → Env)) :=
  [addProject, addBelow none 1, addBelow none 2, moveBelow 112 122 3]

theorem depth_bounded_move :
    ((system .strict).serveAll addAndMove (Tables.start [9] [1] ⟨[], []⟩)).2.tasks.map TaskRow.parentTaskId =
      [some 122, none] ∧
    ((system .strict).serveAll addAndMove (Tables.start [9] [1] ⟨[], []⟩)).2.Shallow :=
  ⟨by decide +kernel, depth_bounded .strict [9] [1] ⟨[], []⟩ addAndMove ⟨trivial, nofun, nofun, Or.inl rfl, trivial⟩⟩

/-- Each task below the one before. -/
def chain : List (Request × (Nat → Env)) :=
  [addProject, addBelow none 1, addBelow (some 112) 2, addBelow (some 123) 3, addBelow (some 133) 4,
   addBelow (some 143) 5, addBelow (some 153) 6, addBelow (some 163) 7]

def chained : Tables := ((system .strict).serveAll chain (Tables.start [9] [1] ⟨[], []⟩)).2

theorem chained_tasks : chained.tasks.map (fun t => (t.id, t.parentTaskId)) =
    [(112, none), (123, some 112), (133, some 123), (143, some 133), (153, some 143), (163, some 153),
     (173, some 163)] := by decide +kernel

theorem chained_atDepth : chained.AtDepth 173 6 := by
  have root : ∀ {i : Uuid}, (i, none) ∈ chained.tasks.map (fun t => (t.id, t.parentTaskId)) → chained.AtDepth i 0 := by
    intro i h
    obtain ⟨t, ht, heq⟩ := List.mem_map.mp h
    obtain ⟨rfl, hp⟩ := Prod.mk.inj heq
    exact .root ht hp
  have below : ∀ {i p : Uuid} {n : Nat}, (i, some p) ∈ chained.tasks.map (fun t => (t.id, t.parentTaskId)) →
      chained.AtDepth p n → chained.AtDepth i (n + 1) := by
    intro i p n h above
    obtain ⟨t, ht, heq⟩ := List.mem_map.mp h
    obtain ⟨rfl, hp⟩ := Prod.mk.inj heq
    exact .child ht hp above
  simp only [chained_tasks, List.mem_cons, Prod.mk.injEq] at root below
  refine below (p := 163) (by decide) <| below (p := 153) (by decide) <| below (p := 143) (by decide) <|
    below (p := 133) (by decide) <| below (p := 123) (by decide) <| below (p := 112) (by decide) (root (by decide))

/-- The seventh task is at depth 6. -/
theorem chain_too_deep : ¬ chained.Shallow := by
  intro h
  obtain ⟨t, ht, hid⟩ := chained_atDepth.mem
  obtain ⟨n, hn, hdepth⟩ := h t ht
  have hwf : chained.WellFormed := serveAll_wellFormed (start_fits _ _ _).wellFormed
  rw [hid] at hdepth
  rw [hdepth.unique hwf chained_atDepth] at hn
  exact absurd hn (by decide)

end TaskPlatform.Board

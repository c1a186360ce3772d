import TaskPlatform.Library.Links
import TaskPlatform.Board.Integrity

/-! The parent links of tasks: when a task can become its own ancestor. -/

namespace TaskPlatform.Board
open Effects Relation

abbrev State := Config interface Tables Request Response

/-- The task `a` has the parent `b`. -/
def Tables.Parent (s : Tables) (a b : Uuid) : Prop := ∃ t ∈ s.tasks, t.id = a ∧ t.parentTaskId = some b

/-- The task `b` is above the task `a`. -/
def Tables.Ancestor (s : Tables) : Uuid → Uuid → Prop := TransGen s.Parent

/-- No task is its own ancestor. -/
def Tables.Acyclic (s : Tables) : Prop := Links.Acyclic s.Parent

/-- The cycle check of `moveTask`, as it would come out now: the query ends, and the new parent is not in
    it. -/
def Tables.notBelow (s : Tables) (taskId parentId : Uuid) : Bool :=
  match s.descendants taskId with
  | .ok descendants => !(descendants.map Prod.fst).contains parentId
  | .error _ => false

/-- A save that gives an existing task another parent still passes the cycle check. -/
def Tables.passes (s : Tables) (t : Task) : Bool :=
  match s.tasks.find? (·.id = t.id), t.parentTaskId with
  | some old, some parent => old.parentTaskId = some parent.uuid || s.notBelow t.id parent.uuid
  | _, _ => true

/-- Every save of a task passes the cycle check at the moment it takes effect. -/
def checked (c : State) : Move interface Request → Bool
  | .call i fate _ =>
    match (c.threads[i]?).bind Thread.next? with
    | some (.saveTask t) => fate = .failed || c.shared.passes t
    | _ => true
  | _ => true

section
variable {s s' : Tables} {env : Env} {c : Call}

/-- The query from a task lists every task below it. -/
theorem below_of_path {a b : Uuid} (h : ReflTransGen s.Parent a b) {r : TaskRow} (hr : r ∈ s.tasks) (hb : r.id = b) :
    ∃ n t, t ∈ Recursive.level childOf s.tasks (s.tasks.filter (·.id = b)) n ∧ t.id = a := by
  induction h using ReflTransGen.head_induction_on with
  | refl => exact ⟨0, r, List.mem_filter.mpr ⟨hr, decide_eq_true hb⟩, hb⟩
  | head hab _ ih =>
    obtain ⟨t, ht, rfl, hp⟩ := hab
    obtain ⟨n, u, hu, hid⟩ := ih
    exact ⟨n + 1, t, Recursive.mem_next.mpr ⟨ht, u, hu, decide_eq_true (by rw [hp, hid])⟩, rfl⟩

theorem descendants_ok {id : Uuid} {out : List (Uuid × Nat)} (h : s.descendants id = .ok out) {n : Nat} {t : TaskRow}
    (ht : t ∈ Recursive.level childOf s.tasks (s.tasks.filter (·.id = id)) n) : t.id ∈ out.map Prod.fst := by
  simp only [Tables.descendants] at h
  cases hq : Recursive.query childOf s.tasks (s.tasks.filter (·.id = id)) with
  | none =>
    rw [hq] at h
    cases h
  | some rows =>
    rw [hq] at h
    cases h
    exact List.mem_map.mpr ⟨_, List.mem_map.mpr ⟨_, (Recursive.mem_query hq).mpr ht, rfl⟩, rfl⟩

/-- Where the cycle check passes, no path leads from the new parent to the task. -/
theorem Tables.notBelow_apart {x p : Uuid} {r : TaskRow} (hr : r ∈ s.tasks) (hx : r.id = x)
    (h : s.notBelow x p = true) : ¬ ReflTransGen s.Parent p x := by
  intro hpath
  obtain ⟨n, t, ht, rfl⟩ := below_of_path hpath hr hx
  simp only [Tables.notBelow] at h
  split at h
  · next out hout => simp [descendants_ok hout ht] at h
  · cases h

/-! ### What a call keeps -/

theorem acyclic_of_subset (acyclic : s.Acyclic) (sub : ∀ t ∈ s'.tasks, t ∈ s.tasks) : s'.Acyclic :=
  Links.Acyclic.mono acyclic fun _ _ ⟨t, ht, h⟩ => ⟨t, sub t ht, h⟩

/-- A new task is nobody's parent. -/
theorem acyclic_of_added {r : TaskRow} (wf : s.WellFormed) (acyclic : s.Acyclic) (fresh : r.id ∉ s.taskIds)
    (noSelf : r.parentTaskId ≠ some r.id) : Tables.Acyclic { s with tasks := s.tasks ++ [r] } := by
  have hleaf : ∀ a, ¬ s.Parent a r.id := fun a ⟨t, ht, _, hp⟩ => fresh (wf.taskParent t ht _ hp)
  cases hp : r.parentTaskId with
  | none =>
    refine Links.Acyclic.mono acyclic fun a b ⟨t, ht, ha, hb⟩ => ?_
    rcases List.mem_append.mp ht with ht | ht
    · exact ⟨t, ht, ha, hb⟩
    · obtain rfl := List.mem_singleton.mp ht
      rw [hp] at hb
      cases hb
  | some p =>
    refine Links.Acyclic.add (x := r.id) (p := p) acyclic (fun a b ⟨t, ht, ha, hb⟩ => ?_) hleaf
      fun heq => noSelf (heq ▸ hp)
    rcases List.mem_append.mp ht with ht | ht
    · exact Or.inl ⟨t, ht, ha, hb⟩
    · obtain rfl := List.mem_singleton.mp ht
      exact Or.inr ⟨ha.symm, Option.some.inj (hb.symm.trans hp)⟩

/-- A task that is set keeps its parent, or takes one that is not below it. -/
theorem acyclic_of_set {r old : TaskRow} (acyclic : s.Acyclic) (mem : old ∈ s.tasks) (id : old.id = r.id)
    (passes : ∀ p ∈ r.parentTaskId, old.parentTaskId = some p ∨ s.notBelow r.id p = true) :
    Tables.Acyclic { s with tasks := Table.replace TaskRow.id r s.tasks } := by
  have hlinks : ∀ {a b}, Tables.Parent { s with tasks := Table.replace TaskRow.id r s.tasks } a b →
      s.Parent a b ∨ a = r.id ∧ r.parentTaskId = some b := by
    rintro a b ⟨t, ht, ha, hb⟩
    rcases (Table.mem_replace ⟨old, mem, id⟩).mp ht with rfl | ⟨ht, -⟩
    · exact Or.inr ⟨ha.symm, hb⟩
    · exact Or.inl ⟨t, ht, ha, hb⟩
  cases hp : r.parentTaskId with
  | none => exact Links.Acyclic.mono acyclic fun a b h => (hlinks h).resolve_right (by simp [hp])
  | some p =>
    rcases passes p hp with hsame | hbelow
    · refine Links.Acyclic.mono acyclic fun a b h => (hlinks h).elim (fun h => h) ?_
      rintro ⟨rfl, hb⟩
      exact ⟨old, mem, id, hsame.trans (hp.symm.trans hb)⟩
    · refine Links.Acyclic.set (x := r.id) (p := p) acyclic (fun a b h => ?_)
        (Tables.notBelow_apart mem id hbelow)
      exact (hlinks h).imp_right fun ⟨ha, hb⟩ => ⟨ha, Option.some.inj (hb.symm.trans hp)⟩

theorem Write.acyclic (w : Write s env c s') (wf : s.WellFormed) (acyclic : s.Acyclic)
    (passes : ∀ t, c = .saveTask t → s.passes t = true) : s'.Acyclic := by
  cases w with
  | same | projectAdded | projectSet | commentAdded | commentSet | commentRemoved | activityAdded => exact acyclic
  | projectRemoved | taskRemoved => exact acyclic_of_subset acyclic fun t ht => (Tables.mem_deleteTasks.mp ht).1
  | taskAdded row fresh refs => exact acyclic_of_added wf acyclic fresh refs.noSelf
  | @taskSet t r old call row mem id refs =>
    obtain ⟨hid, -, hparent⟩ := Task.toRow?_ok row
    refine acyclic_of_set (r := r.over old) acyclic mem id fun p hp => ?_
    obtain ⟨q, hq, rfl⟩ := Option.map_eq_some_iff.mp (hparent.symm.trans hp)
    have hfind : s.tasks.find? (·.id = t.id) = some old := by
      have := Table.find?_key (show (s.tasks.map TaskRow.id).Nodup from wf.tasks) mem
      rwa [id, hid] at this
    have hpasses := passes t call
    simp only [Tables.passes, hfind, hq, Bool.or_eq_true, decide_eq_true_eq] at hpasses
    simpa only [TaskRow.over_id, hid] using hpasses

/-! ### Every run -/

variable {pg : Postgres} {d e : State} {m : Move interface Request}

theorem wellFormed_step (wf : d.shared.WellFormed) (hs : (system pg).step d m = some e) : e.shared.WellFormed := by
  rcases System.step_shared hs with heq | ⟨env, -, heq⟩ | ⟨i, fate, env, t, op, -, -, -, -, heq⟩
  · exact heq ▸ wf
  · exact heq ▸ wf.spend env
  · exact heq ▸ effect_wellFormed pg fate wf

theorem acyclic_step (wf : d.shared.WellFormed) (acyclic : d.shared.Acyclic) (hok : checked d m = true)
    (hs : (system pg).step d m = some e) : e.shared.Acyclic := by
  rcases System.step_shared hs with heq | ⟨env, -, heq⟩ | ⟨i, fate, env, t, op, rfl, ht, hn, -, heq⟩
  · exact heq ▸ acyclic
  · exact heq ▸ acyclic
  · rw [heq]
    cases fate with
    | failed => exact acyclic
    | answered | lost =>
      refine (exec_write pg (d.shared.spend env) env op).acyclic (wf.spend env) acyclic ?_
      rintro t rfl
      have hpasses : d.shared.passes t = true := by simpa [checked, ht, hn] using hok
      exact hpasses

/-- In a run whose saves pass the cycle check when they take effect, no task becomes its own ancestor. -/
theorem no_task_above_itself (pg : Postgres) (s : Tables) (c : State) (wf : s.WellFormed) (acyclic : s.Acyclic)
    (hr : (system pg).Reach (checked · ·) (.initial s) c) : ∀ id, ¬ c.shared.Ancestor id id :=
  (hr.invariant (P := fun c => c.shared.WellFormed ∧ c.shared.Acyclic) ⟨wf, acyclic⟩ fun ⟨wf, acyclic⟩ hok hs =>
    ⟨wellFormed_step wf hs, acyclic_step wf acyclic hok hs⟩).2

end

/-! ### Runs -/

def project : ProjectRow := ⟨2, 1, "Website", none, .ACTIVE, 9, .epoch⟩

def task (id : Uuid) : TaskRow :=
  ⟨id, 2, none, "Task", none, .TODO, .MEDIUM, none, 9, none, none, .epoch⟩

def twoTasks : Tables :=
  { users := [9], workspaces := [1], projects := [project], tasks := [task 10, task 11], comments := [], activity := [],
    generated := ⟨[], []⟩ }

def moveUnder (taskId parentId : Uuid) : Request := ⟨Uuid.text 1, .moveTask (Uuid.text 2) taskId.text (some parentId.text)⟩

/-- One task is moved under the other. -/
def oneMove : List (Move interface Request) :=
  [.start (moveUnder 10 11) (envAt 1), .call 0 .answered (envAt 2), .call 0 .answered (envAt 3),
   .call 0 .answered (envAt 4), .call 0 .answered (envAt 5), .call 0 .answered (envAt 6), .call 0 .answered (envAt 7)]

/-- Two tasks are moved under each other: both cycle checks come before both saves. -/
def crossedMoves : List (Move interface Request) :=
  [.start (moveUnder 10 11) (envAt 1), .start (moveUnder 11 10) (envAt 2),
   .call 0 .answered (envAt 3), .call 0 .answered (envAt 4), .call 0 .answered (envAt 5), .call 0 .answered (envAt 6),
   .call 0 .answered (envAt 7), .call 1 .answered (envAt 8), .call 1 .answered (envAt 9), .call 1 .answered (envAt 10),
   .call 1 .answered (envAt 11), .call 1 .answered (envAt 12), .call 0 .answered (envAt 13),
   .call 1 .answered (envAt 14)]

theorem mem_twoTasks {t : TaskRow} (ht : t ∈ twoTasks.tasks) : t = task 10 ∨ t = task 11 := by
  simpa [twoTasks] using ht

theorem twoTasks_wellFormed : twoTasks.WellFormed where
  projects := by decide
  tasks := by decide
  comments := by decide
  activity := by decide
  taskProject := by decide
  taskParent t ht p hp := by rcases mem_twoTasks ht with rfl | rfl <;> cases hp
  commentTask := nofun
  commentParent := nofun
  activityTask := nofun

theorem twoTasks_acyclic : twoTasks.Acyclic := by
  intro a h
  obtain ⟨b, ⟨t, ht, -, hp⟩, -⟩ := TransGen.head'_iff.mp h
  rcases mem_twoTasks ht with rfl | rfl <;> cases hp

set_option maxRecDepth 4000 in
theorem no_task_above_itself_move : ∃ c : State, c.shared.tasks = [{ task 10 with parentTaskId := some 11 }, task 11] ∧
    ¬ c.shared.Ancestor 10 10 := by
  have hrun : ∃ c : State, (system .strict).Reach (checked · ·) (.initial twoTasks) c ∧
      c.shared.tasks = [{ task 10 with parentTaskId := some 11 }, task 11] :=
    ⟨_, System.reach_of_run oneMove rfl, rfl⟩
  obtain ⟨c, hr, htasks⟩ := hrun
  exact ⟨c, htasks, no_task_above_itself .strict twoTasks c twoTasks_wellFormed twoTasks_acyclic hr 10⟩

set_option maxRecDepth 4000 in
/-- Two moves that both return end with two tasks above each other. -/
theorem task_above_itself : ∃ c : State, (system .strict).Reach (fun _ _ => True) (.initial twoTasks) c ∧ c.Idle ∧
    c.shared.Ancestor 10 10 := by
  obtain ⟨c, hc⟩ : ∃ c, (system .strict).run (fun _ _ => True) (.initial twoTasks) crossedMoves = some c := ⟨_, rfl⟩
  have hend : ((system .strict).run (fun _ _ => True) (.initial twoTasks) crossedMoves).map
      (fun c => (c.shared.tasks, decide c.Idle)) =
      some ([{ task 10 with parentTaskId := some 11 }, { task 11 with parentTaskId := some 10 }], true) := rfl
  rw [hc, Option.map_some, Option.some.injEq, Prod.mk.injEq, decide_eq_true_eq] at hend
  obtain ⟨htasks, hidle⟩ := hend
  have hparent : ∀ a b, { task a with parentTaskId := some b } ∈ c.shared.tasks → c.shared.Parent a b := fun a b h =>
    ⟨_, h, rfl, rfl⟩
  refine ⟨c, System.reach_of_run crossedMoves hc, hidle, .tail (.single (hparent 10 11 ?_)) (hparent 11 10 ?_)⟩
  · exact htasks ▸ List.mem_cons_self ..
  · exact htasks ▸ List.mem_cons_of_mem _ (List.mem_cons_self ..)

end TaskPlatform.Board

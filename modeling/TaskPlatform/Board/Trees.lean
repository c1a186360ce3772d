import TaskPlatform.Board.Depth

/-! The trees that the parent links of tasks make, and what the recursive queries return of them. -/

namespace TaskPlatform.Board
open Effects Relation

/-- The parent links form a forest inside each project. -/
structure Tables.Forest (s : Tables) : Prop where
  project : ∀ t ∈ s.tasks, ∀ p ∈ t.parentTaskId, ∃ u ∈ s.tasks, u.id = p ∧ u.projectId = t.projectId
  acyclic : s.Acyclic

/-- So many parent links lead from a task up to the task `t`. -/
inductive Tables.Below (s : Tables) (t : Uuid) : Uuid → Nat → Prop
  | self {x : TaskRow} (mem : x ∈ s.tasks) (id : x.id = t) : Below s t t 0
  | child {x : TaskRow} {p : Uuid} {k : Nat} (mem : x ∈ s.tasks) (parent : x.parentTaskId = some p)
      (above : Below s t p k) : Below s t x.id (k + 1)

/-- The height of the subtree of a task. -/
structure Tables.Height (s : Tables) (t : Uuid) (h : Nat) : Prop where
  attained : ∃ x, s.Below t x h
  le : ∀ x k, s.Below t x k → k ≤ h

section
variable {s : Tables} {t x id : Uuid} {n k : Nat}

theorem Tables.Below.mem (h : s.Below t x k) : ∃ r ∈ s.tasks, r.id = x := by
  cases h with
  | self mem id => exact ⟨_, mem, id⟩
  | child mem => exact ⟨_, mem, rfl⟩

theorem Tables.Below.zero (h : s.Below t x 0) : x = t := by
  cases h
  rfl

/-- The levels of the query are the tasks below. -/
theorem below_iff_level (wf : s.WellFormed) {r : TaskRow} (hr : r ∈ s.tasks) : s.Below t r.id k ↔ r ∈ s.level t k := by
  constructor
  · intro h
    generalize hid : r.id = i at h
    induction h generalizing r with
    | self => exact mem_level_zero.mpr ⟨hr, hid⟩
    | child mem parent above ih =>
      obtain rfl := Table.eq_of_key wf.tasks hr mem hid
      obtain ⟨y, hy, rfl⟩ := above.mem
      exact mem_level_succ.mpr ⟨hr, y, ih hy rfl, parent⟩
  · intro h
    induction k generalizing r with
    | zero =>
      obtain ⟨-, rfl⟩ := mem_level_zero.mp h
      exact .self hr rfl
    | succ k ih =>
      obtain ⟨-, y, hy, hp⟩ := mem_level_succ.mp h
      exact .child hr hp (ih (mem_of_level hy) hy)

theorem Tables.Below.ancestor (h : s.Below t x (k + 1)) : s.Ancestor x t := by
  generalize hm : k + 1 = m at h
  induction h generalizing k with
  | self => cases hm
  | child mem parent above ih =>
    cases above with
    | self => exact .single ⟨_, mem, rfl, parent⟩
    | child => exact .head ⟨_, mem, rfl, parent⟩ (ih rfl)

theorem below_of_ancestor (wf : s.WellFormed) (h : s.Ancestor x t) : ∃ k, s.Below t x (k + 1) := by
  induction h using TransGen.head_induction_on with
  | single hab =>
    obtain ⟨r, hr, rfl, hp⟩ := hab
    obtain ⟨u, hu, rfl⟩ := List.mem_map.mp (wf.taskParent r hr _ hp)
    exact ⟨0, .child hr hp (.self hu rfl)⟩
  | head hab _ ih =>
    obtain ⟨r, hr, rfl, hp⟩ := hab
    obtain ⟨k, hk⟩ := ih
    exact ⟨k + 1, .child hr hp hk⟩

/-- In a forest a task is below another one by one number of links. -/
theorem Tables.Below.unique (wf : s.WellFormed) (forest : s.Forest) {m : Nat} (h : s.Below t x k) (h' : s.Below t x m) :
    k = m := by
  induction h generalizing m with
  | self mem id =>
    cases m with
    | zero => rfl
    | succ m => exact absurd h'.ancestor (forest.acyclic t)
  | @child r p k mem parent above ih =>
    generalize hid : r.id = i at h'
    cases h' with
    | self =>
      have := (Tables.Below.child mem parent above).ancestor
      rw [hid] at this
      exact absurd this (forest.acyclic t)
    | child mem' parent' above' =>
      obtain rfl := Table.eq_of_key wf.tasks mem mem' hid
      rw [parent', Option.some.injEq] at parent
      rw [ih (parent ▸ above')]

/-- A subtree is in one project. -/
theorem Tables.Forest.project_below (forest : s.Forest) (wf : s.WellFormed) {p : Uuid}
    (ht : ∃ r ∈ s.tasks, r.id = t ∧ r.projectId = p) (h : s.Below t x k) : ∃ r ∈ s.tasks, r.id = x ∧ r.projectId = p := by
  induction h with
  | self => exact ht
  | child mem parent above ih =>
    obtain ⟨r, hr, hid, hproject⟩ := ih
    obtain ⟨u, hu, huid, hup⟩ := forest.project _ mem _ parent
    obtain rfl := Table.eq_of_key wf.tasks hu hr (huid.trans hid.symm)
    exact ⟨_, mem, rfl, hup.symm.trans hproject⟩

/-! ### The queries end -/

theorem seed_subset (s : Tables) (id : Uuid) : s.tasks.filter (·.id = id) ⊆ s.tasks := List.filter_subset_self _

theorem Tables.Forest.subtree_ends (forest : s.Forest) {seed : List TaskRow} (sub : seed ⊆ s.tasks) :
    ∃ out, Recursive.query childOf s.tasks seed = some out := by
  refine Recursive.query_ends sub fun r h => forest.acyclic r.id ?_
  have hpath : ∀ {a b}, TransGen (fun u c => c ∈ s.tasks ∧ childOf u c = true) a b → s.Ancestor b.id a.id := by
    intro a b h
    induction h with
    | single hab => exact .single ⟨_, hab.1, rfl, of_decide_eq_true hab.2⟩
    | tail _ hbc ih => exact .head ⟨_, hbc.1, rfl, of_decide_eq_true hbc.2⟩ ih
  exact hpath h

theorem Tables.Forest.walk_ends (forest : s.Forest) {seed : List TaskRow} (sub : seed ⊆ s.tasks) :
    ∃ out, Recursive.query parentOf s.tasks seed = some out := by
  refine Recursive.query_ends sub fun r h => forest.acyclic r.id ?_
  have hpath : ∀ {a b}, TransGen (fun u c => c ∈ s.tasks ∧ parentOf u c = true) a b → a ∈ s.tasks →
      b ∈ s.tasks ∧ s.Ancestor a.id b.id := by
    intro a b h ha
    induction h with
    | single hab => exact ⟨hab.1, .single ⟨a, ha, rfl, of_decide_eq_true hab.2⟩⟩
    | tail _ hbc ih => exact ⟨hbc.1, .tail ih.2 ⟨_, ih.1, rfl, of_decide_eq_true hbc.2⟩⟩
  -- The row of the circle is a task: a step leads to it.
  have hr : r ∈ s.tasks := by
    cases h with
    | single h => exact h.1
    | tail _ h => exact h.1
  exact (hpath h hr).2

/-! ### Every task has a depth -/

theorem atDepth_of_walk (wf : s.WellFormed) {r : TaskRow} (hr : r ∈ s.tasks)
    (h : Recursive.level parentOf s.tasks [r] n = []) : ∃ d, s.AtDepth r.id d := by
  induction n generalizing r with
  | zero => cases h
  | succ n ih =>
    cases hp : r.parentTaskId with
    | none => exact ⟨0, .root hr hp⟩
    | some p =>
      obtain ⟨u, hu, rfl⟩ := List.mem_map.mp (wf.taskParent r hr p hp)
      have hnext : [u] ⊆ Recursive.next parentOf s.tasks [r] := by
        intro y hy
        obtain rfl := List.mem_singleton.mp hy
        exact Recursive.mem_next.mpr ⟨hu, r, List.mem_singleton_self r, decide_eq_true hp⟩
      have hnil : Recursive.level parentOf s.tasks [u] n = [] := by
        refine List.eq_nil_iff_forall_not_mem.mpr fun y hy => ?_
        have := Recursive.level_mono hnext hy
        rw [Recursive.level_next, h] at this
        cases this
      obtain ⟨d, hd⟩ := ih hu hnil
      exact ⟨d + 1, .child hr hp hd⟩

theorem Tables.Forest.atDepth (forest : s.Forest) (wf : s.WellFormed) {r : TaskRow} (hr : r ∈ s.tasks) :
    ∃ d, s.AtDepth r.id d := by
  have sub : [r] ⊆ s.tasks := List.cons_subset.mpr ⟨hr, List.nil_subset _⟩
  obtain ⟨out, hout⟩ := forest.walk_ends sub
  have hsome : Recursive.query parentOf s.tasks [r] ≠ none := by simp [hout]
  obtain ⟨n, hn⟩ := not_forall.mp (mt (Recursive.query_eq_none sub).mpr hsome)
  exact atDepth_of_walk wf hr (not_not.mp hn)

/-- The walk of `depthOf` gets one level higher with each step. -/
theorem Tables.AtDepth.up (wf : s.WellFormed) (h : s.AtDepth id n) {j : Nat} {y : TaskRow}
    (hy : y ∈ Recursive.level parentOf s.tasks (s.tasks.filter (·.id = id)) j) : ∃ m, m + j = n ∧ s.AtDepth y.id m := by
  induction j generalizing y with
  | zero =>
    obtain ⟨hy, hid⟩ := List.mem_filter.mp hy
    exact ⟨n, rfl, (of_decide_eq_true hid : y.id = id) ▸ h⟩
  | succ j ih =>
    obtain ⟨-, u, hu, hj⟩ := Recursive.mem_next.mp hy
    obtain ⟨m, hm, hdepth⟩ := ih hu
    have hu : u ∈ s.tasks := Recursive.level_subset (List.filter_subset_self _) hu
    generalize hid : u.id = i at hdepth
    cases hdepth with
    | root mem parent =>
      obtain rfl := Table.eq_of_key wf.tasks hu mem hid
      rw [of_decide_eq_true hj] at parent
      cases parent
    | @child t p m' mem parent above =>
      obtain rfl := Table.eq_of_key wf.tasks hu mem hid
      have hp : some y.id = some p := (of_decide_eq_true hj).symm.trans parent
      exact ⟨m', by omega, Option.some.inj hp ▸ above⟩

/-- `depthOf` returns the depth. -/
theorem Tables.Forest.depthOf (forest : s.Forest) (wf : s.WellFormed) (h : s.AtDepth id n) : s.depthOf id = .ok n := by
  obtain ⟨out, hout⟩ := forest.walk_ends (seed_subset s id)
  have hd : s.depthOf id = .ok ((out.map Prod.snd).foldl Nat.max 0) := by
    simp only [Tables.depthOf, hout]
    rfl
  rw [hd]
  refine congrArg Except.ok (Nat.le_antisymm ?_ (le_depthOf wf hd h))
  rcases Recursive.le_foldl_max.mp (Nat.le_refl ((out.map Prod.snd).foldl Nat.max 0)) with hzero | ⟨j, hj, hle⟩
  · omega
  · obtain ⟨⟨y, j⟩, hy, rfl⟩ := List.mem_map.mp hj
    obtain ⟨m, hm, -⟩ := h.up wf ((Recursive.mem_query hout).mp hy)
    exact Nat.le_trans hle (by omega)

/-! ### The tasks below -/

/-- `descendants` returns the task and the tasks below it, each with how far it is below. -/
theorem Tables.Forest.descendants (forest : s.Forest) (wf : s.WellFormed) (t : Uuid) :
    ∃ rows, s.descendants t = .ok rows ∧ ∀ x k, (x, k) ∈ rows ↔ s.Below t x k := by
  obtain ⟨out, hout⟩ := forest.subtree_ends (seed_subset s t)
  refine ⟨out.map fun r => (r.1.id, r.2), ?_, fun x k => ?_⟩
  · simp only [Tables.descendants, hout]
    rfl
  · rw [List.mem_map]
    constructor
    · rintro ⟨⟨r, k⟩, hr, heq⟩
      obtain ⟨rfl, rfl⟩ := Prod.mk.inj heq
      have hlevel : r ∈ s.level t k := (Recursive.mem_query hout).mp hr
      exact (below_iff_level wf (mem_of_level hlevel)).mpr hlevel
    · intro h
      obtain ⟨r, hr, rfl⟩ := h.mem
      exact ⟨(r, k), (Recursive.mem_query hout).mpr ((below_iff_level wf hr).mp h), rfl⟩

/-- The greatest distance below a task is the height of its subtree. -/
theorem height_of_descendants {rows : List (Uuid × Nat)} (hrows : ∀ x k, (x, k) ∈ rows ↔ s.Below t x k)
    (ht : ∃ r ∈ s.tasks, r.id = t) : s.Height t ((rows.map Prod.snd).foldl Nat.max 0) := by
  obtain ⟨r, hr, hid⟩ := ht
  have hself : (t, 0) ∈ rows := (hrows t 0).mpr (.self hr hid)
  constructor
  · obtain ⟨⟨x, k⟩, hx, heq⟩ := List.mem_map.mp (Recursive.max_mem (List.ne_nil_of_mem (List.mem_map_of_mem hself)))
    rw [← heq]
    exact ⟨x, (hrows x k).mp hx⟩
  · exact fun x k h => Recursive.le_max (List.mem_map.mpr ⟨(x, k), (hrows x k).mpr h, rfl⟩)

theorem Tables.Height.unique {m : Nat} (h : s.Height t n) (h' : s.Height t m) : n = m := by
  obtain ⟨x, hx⟩ := h.attained
  obtain ⟨y, hy⟩ := h'.attained
  exact Nat.le_antisymm (h'.le x n hx) (h.le y m hy)

end
end TaskPlatform.Board

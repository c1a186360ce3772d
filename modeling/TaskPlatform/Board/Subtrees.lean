import TaskPlatform.Board.Moves

/-! `getSubtree`, served alone on a forest: the tree that it returns. -/

namespace TaskPlatform.Board
open Effects

def SubtreeNode.id : SubtreeNode → Uuid
  | .mk id .. => id

mutual

/-- All nodes of a tree with their depths. -/
def SubtreeNode.nodes : SubtreeNode → List (Uuid × Nat)
  | .mk id _ _ _ _ _ depth children => (id, depth) :: SubtreeNode.nodesOf children

def SubtreeNode.nodesOf : List SubtreeNode → List (Uuid × Nat)
  | [] => []
  | c :: cs => c.nodes ++ nodesOf cs

end

/-- A node that shows the row of a task, with the nodes of all tasks whose parent it is, in the order of the ids. -/
inductive Tables.Shows (s : Tables) : Nat → SubtreeNode → Prop
  | node {r : TaskRow} {k : Nat} {children : List SubtreeNode} (mem : r ∈ s.tasks)
      (own : ∀ x, x ∈ children.map SubtreeNode.id ↔ ∃ c ∈ s.tasks, c.id = x ∧ c.parentTaskId = some r.id)
      (sorted : (children.map SubtreeNode.id).Pairwise (· < ·)) (below : ∀ c ∈ children, Shows s (k + 1) c) :
      Shows s k (.mk r.id r.title r.status r.priority r.assigneeId r.dueDate k children)

/-- The tree of a task and everything below it. -/
structure TreeOf (s : Tables) (t : Uuid) (root : SubtreeNode) : Prop where
  id : root.id = t
  shows : s.Shows 0 root
  nodes : ∀ x k, (x, k) ∈ root.nodes ↔ s.Below t x k
  once : (root.nodes.map Prod.fst).Nodup

def SubtreeCorrect (s : Tables) (t : UuidText) (out : Except Err (Option SubtreeNode) × Tables) : Prop :=
  ∃ root, out.1 = .ok (some root) ∧ TreeOf s t.uuid root

theorem nodesOf_eq (children : List SubtreeNode) : SubtreeNode.nodesOf children = children.flatMap SubtreeNode.nodes := by
  induction children with
  | nil => rfl
  | cons c cs ih => rw [SubtreeNode.nodesOf, ih, List.flatMap_cons]

section
variable {s : Tables} {pg : Postgres} {env : Nat → Env} {w p t : UuidText} {old : TaskRow}

/-! ### Chains of parent links -/

theorem Tables.Below.levels {t x : Uuid} {k : Nat} (h : s.Below t x k) : ∀ j ≤ k, ∃ y, s.Below t y j := by
  induction h with
  | @self x mem id =>
    intro j hj
    obtain rfl := Nat.le_zero.mp hj
    exact ⟨t, .self mem id⟩
  | child mem parent above ih =>
    intro j hj
    rcases Nat.le_succ_iff.mp hj with hle | rfl
    · exact ih j hle
    · exact ⟨_, .child mem parent above⟩

theorem Tables.Below.append {t y x : Uuid} {k i : Nat} (h : s.Below t y k) (h' : s.Below y x i) : s.Below t x (k + i) := by
  induction h' with
  | self => exact h
  | child mem parent _ ih => exact .child mem parent ih

/-- A task is so many links below one task only. -/
theorem Tables.Below.root_unique (wf : s.WellFormed) {y z x : Uuid} {i : Nat} (h : s.Below y x i) (h' : s.Below z x i) :
    y = z := by
  induction h with
  | self => exact h'.zero
  | @child r p k mem parent above ih =>
    generalize hid : r.id = x at h'
    cases h' with
    | child mem' parent' above' =>
      obtain rfl := Table.eq_of_key wf.tasks mem mem' hid
      rw [parent', Option.some.injEq] at parent
      exact ih (parent ▸ above')

/-! ### The nodes of a tree that shows the tasks -/

theorem child_below {r : TaskRow} {ids : List Uuid} (mem : r ∈ s.tasks)
    (own : ∀ x, x ∈ ids ↔ ∃ c ∈ s.tasks, c.id = x ∧ c.parentTaskId = some r.id) {x : Uuid} (hx : x ∈ ids) :
    s.Below r.id x 1 := by
  obtain ⟨c, hc, rfl, hp⟩ := (own x).mp hx
  exact .child hc hp (.self mem rfl)

theorem Tables.Shows.nodes_below {k : Nat} {node : SubtreeNode} (h : s.Shows k node) {x : Uuid} {j : Nat}
    (hx : (x, j) ∈ node.nodes) : ∃ i, j = k + i ∧ s.Below node.id x i := by
  induction h with
  | @node r k children mem own _ _ ih =>
    rw [SubtreeNode.nodes, nodesOf_eq, List.mem_cons, List.mem_flatMap] at hx
    rcases hx with heq | ⟨c, hc, hx⟩
    · obtain ⟨rfl, rfl⟩ := Prod.mk.inj heq
      exact ⟨0, rfl, .self mem rfl⟩
    · obtain ⟨i, hj, hbelow⟩ := ih c hc hx
      exact ⟨1 + i, by omega, (child_below mem own (List.mem_map_of_mem hc)).append hbelow⟩

/-- With a node the tree has the nodes of the tasks whose parent it is. -/
theorem Tables.Shows.child_mem {k : Nat} {node : SubtreeNode} (h : s.Shows k node) {x : Uuid} {j : Nat} {c : TaskRow}
    (hx : (x, j) ∈ node.nodes) (hc : c ∈ s.tasks) (hp : c.parentTaskId = some x) : (c.id, j + 1) ∈ node.nodes := by
  induction h with
  | @node r k children mem own _ below ih =>
    rw [SubtreeNode.nodes, nodesOf_eq, List.mem_cons, List.mem_flatMap] at hx ⊢
    refine Or.inr ?_
    rcases hx with heq | ⟨y, hy, hx⟩
    · obtain ⟨rfl, rfl⟩ := Prod.mk.inj heq
      obtain ⟨y, hy, hid⟩ := List.mem_map.mp ((own c.id).mpr ⟨c, hc, rfl, hp⟩)
      refine ⟨y, hy, hid ▸ ?_⟩
      cases below y hy
      exact List.mem_cons_self ..
    · exact ⟨y, hy, ih y hy hx⟩

theorem Tables.Shows.once (wf : s.WellFormed) (forest : s.Forest) {k : Nat} {node : SubtreeNode} (h : s.Shows k node) :
    (node.nodes.map Prod.fst).Nodup := by
  induction h with
  | @node r k children mem own sorted below ih =>
    -- Every node below a child is below the task, by one link more.
    have hbelow : ∀ c ∈ children, ∀ x ∈ c.nodes.map Prod.fst, ∃ i, s.Below c.id x i ∧ s.Below r.id x (1 + i) := by
      intro c hc x hx
      obtain ⟨⟨y, j⟩, hy, rfl⟩ := List.mem_map.mp hx
      obtain ⟨i, -, hi⟩ := (below c hc).nodes_below hy
      exact ⟨i, hi, (child_below mem own (List.mem_map_of_mem hc)).append hi⟩
    rw [SubtreeNode.nodes, nodesOf_eq, List.map_cons, List.map_flatMap, List.nodup_cons]
    constructor
    · intro h
      obtain ⟨c, hc, hx⟩ := List.mem_flatMap.mp h
      obtain ⟨i, -, hround⟩ := hbelow c hc _ hx
      rw [Nat.add_comm] at hround
      exact forest.acyclic _ hround.ancestor
    · refine List.nodup_flatMap.mpr ⟨ih, (List.pairwise_map.mp sorted).imp_of_mem fun {c d} hc hd hlt => ?_⟩
      intro x hx hx'
      obtain ⟨i, hi, hri⟩ := hbelow c hc x hx
      obtain ⟨j, hj, hrj⟩ := hbelow d hd x hx'
      obtain rfl : i = j := Nat.add_left_cancel (hri.unique wf forest hrj)
      exact absurd (hi.root_unique wf hj) hlt.ne

/-- A tree that shows the tasks from its root on is the tree of the root. -/
theorem Tables.Shows.treeOf (wf : s.WellFormed) (forest : s.Forest) {root : SubtreeNode} (h : s.Shows 0 root) {u : Uuid}
    (hid : root.id = u) : TreeOf s u root where
  id := hid
  shows := h
  nodes x k := by
    subst hid
    constructor
    · intro hx
      obtain ⟨i, rfl, hi⟩ := h.nodes_below hx
      exact (Nat.zero_add i).symm ▸ hi
    · intro hx
      induction hx with
      | self =>
        cases h
        exact List.mem_cons_self ..
      | child mem parent _ ih => exact h.child_mem ih mem parent
  once := h.once wf forest

/-! ### The two loops -/

/-- The rows that the second loop pushes to the children of a node. -/
def pushed (t : UuidText) (x : Uuid) (r : SubtreeRow) : Bool := r.id.text ≠ t && r.parentTaskId = some x

/-- The node of a row after both loops. -/
def linked (t : UuidText) (rows : List SubtreeRow) (r : SubtreeRow) : TasksService.MapNode :=
  { row := r, children := (rows.filter (pushed t r.id)).map SubtreeRow.id }

theorem createNodes_mem {rows : List SubtreeRow} (nodup : (rows.map SubtreeRow.id).Nodup) {r : SubtreeRow}
    (hr : r ∈ rows) : TasksService.createNodes rows r.id = some { row := r, children := [] } := by
  induction rows using List.reverseRecOn with
  | nil => cases hr
  | append_singleton rows last ih =>
    rw [List.map_append, List.nodup_append'] at nodup
    rw [TasksService.createNodes, List.foldl_append, List.foldl_cons, List.foldl_nil]
    rcases List.mem_append.mp hr with hr | hr
    · have hne : r.id ≠ last.id := fun heq =>
        nodup.2.2 (List.mem_map_of_mem hr) (heq ▸ List.mem_map_of_mem (List.mem_singleton_self last))
      rw [Function.update_of_ne hne]
      exact ih nodup.1 hr
    · obtain rfl := List.mem_singleton.mp hr
      exact Function.update_self ..

theorem link_node (t : UuidText) (rows : List SubtreeRow) (state : Option Uuid × (Uuid → Option TasksService.MapNode))
    {x : Uuid} {n : TasksService.MapNode} (h : state.2 x = some n) :
    (rows.foldl (TasksService.link t) state).2 x =
      some { n with children := n.children ++ (rows.filter (pushed t x)).map SubtreeRow.id } := by
  induction rows generalizing state n with
  | nil => simpa using h
  | cons r rows ih =>
    rw [List.foldl_cons]
    by_cases hpush : pushed t x r = true
    · have hkeep : (TasksService.link t state r).2 x = some { n with children := n.children ++ [r.id] } := by
        simp only [pushed, Bool.and_eq_true, decide_eq_true_eq] at hpush
        simp only [TasksService.link, if_neg hpush.1, hpush.2, Function.update_self, h, Option.map_some]
      rw [ih _ hkeep, List.filter_cons_of_pos hpush, List.map_cons, List.append_assoc, List.singleton_append]
    · have hkeep : (TasksService.link t state r).2 x = some n := by
        unfold TasksService.link
        split
        · exact h
        · rename_i hroot
          split
          · exact h
          · rename_i q hq
            have hne : x ≠ q := fun heq => hpush (by simp [pushed, hroot, hq, heq])
            exact (Function.update_of_ne hne ..).trans h
      rw [ih _ hkeep, List.filter_cons_of_neg hpush]

/-- The root is the last row that has the text of the request as its id. -/
theorem link_root (t : UuidText) (rows : List SubtreeRow) (state : Option Uuid × (Uuid → Option TasksService.MapNode)) :
    (rows.foldl (TasksService.link t) state).1 =
      if ∃ r ∈ rows, r.id.text = t then some t.uuid else state.1 := by
  induction rows generalizing state with
  | nil => simp
  | cons r rows ih =>
    rw [List.foldl_cons, ih]
    by_cases hroot : r.id.text = t
    · have hid : r.id = t.uuid := congrArg UuidText.uuid hroot
      have hset : (TasksService.link t state r).1 = some t.uuid := by rw [TasksService.link, if_pos hroot, hid]
      simp only [hset, ite_self, List.exists_mem_cons_iff, hroot, true_or, ↓reduceIte]
    · have hkeep : (TasksService.link t state r).1 = state.1 := by
        unfold TasksService.link
        rw [if_neg hroot]
        split <;> rfl
      simp only [hkeep, List.exists_mem_cons_iff, hroot, false_or]

theorem node_id (nodes : Uuid → Option TasksService.MapNode) (fuel : Nat) (n : TasksService.MapNode) :
    (TasksService.node nodes fuel n).id = n.row.id := by
  cases fuel <;> rfl

/-! ### The rows of the query -/

/-- The rows that the query returns: the task and the tasks below, each with how far it is below. -/
structure SubtreeRows (s : Tables) (t : Uuid) (rows : List SubtreeRow) : Prop where
  mem : ∀ r, r ∈ rows ↔ ∃ x ∈ s.tasks, ∃ k, s.Below t x.id k ∧ x.toSubtreeRow k = r
  ids : (rows.map SubtreeRow.id).Nodup
  sorted : rows.Pairwise (Tables.subtreeKey · ≤ Tables.subtreeKey ·)

theorem Found.subtree (found : Found w p t s old) (wf : s.WellFormed) (forest : s.Forest) :
    ∃ rows, s.subtree t.uuid p.uuid = .ok rows ∧ SubtreeRows s t.uuid rows := by
  have hseed : s.tasks.filter (fun x => x.id = t.uuid && x.projectId = p.uuid) = s.tasks.filter (·.id = t.uuid) := by
    refine List.filter_congr fun x hx => ?_
    by_cases hid : x.id = t.uuid
    · obtain rfl := Table.eq_of_key wf.tasks hx found.mem (hid.trans found.id.symm)
      simp [hid, found.projectId]
    · simp [hid]
  obtain ⟨out, hout⟩ := forest.subtree_ends (seed_subset s t.uuid)
  have hmem : ∀ x k, (x, k) ∈ out ↔ x ∈ s.tasks ∧ s.Below t.uuid x.id k := by
    intro x k
    have hlevel : (x, k) ∈ out ↔ x ∈ s.level t.uuid k := Recursive.mem_query hout
    rw [hlevel]
    exact ⟨fun h => ⟨mem_of_level h, (below_iff_level wf (mem_of_level h)).mpr h⟩, fun h => (below_iff_level wf h.1).mp h.2⟩
  have hone : ∀ a ∈ s.tasks, ∀ b ∈ s.tasks, ∀ c, childOf a c = true → childOf b c = true → a = b := by
    intro a ha b hb c hac hbc
    exact Table.eq_of_key wf.tasks ha hb (Option.some.inj ((of_decide_eq_true hac).symm.trans (of_decide_eq_true hbc)))
  have hnodup : out.Nodup :=
    Recursive.query_nodup wf.tasks.of_map hone (seed_subset s t.uuid) (wf.tasks.of_map.filter _) hout
  have hperm := List.perm_insertionSort (Tables.subtreeKey · ≤ Tables.subtreeKey ·) (out.map fun r => r.1.toSubtreeRow r.2)
  refine ⟨_, by rw [Tables.subtree, hseed, hout]; rfl, fun r => ?_, ?_, List.pairwise_insertionSort _ _⟩
  · rw [hperm.mem_iff, List.mem_map]
    constructor
    · rintro ⟨⟨x, k⟩, hx, rfl⟩
      exact ⟨x, ((hmem x k).mp hx).1, k, ((hmem x k).mp hx).2, rfl⟩
    · rintro ⟨x, hx, k, hk, rfl⟩
      exact ⟨(x, k), (hmem x k).mpr ⟨hx, hk⟩, rfl⟩
  · rw [(hperm.map SubtreeRow.id).nodup_iff, List.map_map]
    refine hnodup.map_on fun a ha b hb hid => ?_
    obtain ⟨ha, hka⟩ := (hmem a.1 a.2).mp ha
    obtain ⟨hb, hkb⟩ := (hmem b.1 b.2).mp hb
    have heq : a.1 = b.1 := Table.eq_of_key wf.tasks ha hb hid
    exact Prod.ext heq (hka.unique wf forest (heq ▸ hkb))

section
variable {rows : List SubtreeRow} {u : Uuid} (subtree : SubtreeRows s u rows)
include subtree

/-- A row at some depth has a row at every depth above it. -/
theorem SubtreeRows.depth_lt {r : SubtreeRow} (hr : r ∈ rows) : r.depth < rows.length := by
  have hdepths : List.range (r.depth + 1) ⊆ rows.map SubtreeRow.depth := by
    intro j hj
    obtain ⟨x, -, k, hk, rfl⟩ := (subtree.mem r).mp hr
    obtain ⟨y, hy⟩ := hk.levels j (Nat.lt_succ_iff.mp (List.mem_range.mp hj))
    obtain ⟨z, hz, rfl⟩ := hy.mem
    exact List.mem_map.mpr ⟨_, (subtree.mem _).mpr ⟨z, hz, j, hy, rfl⟩, rfl⟩
  have := (List.nodup_range.subperm hdepths).length_le
  rwa [List.length_range, List.length_map] at this

/-- The rows that are pushed to a node are those of the tasks whose parent it is, one level lower. -/
theorem SubtreeRows.pushed_iff (wf : s.WellFormed) (forest : s.Forest) (ht : t.uuid = u) {r : SubtreeRow} (hr : r ∈ rows)
    {c : SubtreeRow} :
    c ∈ rows.filter (pushed t r.id) ↔
      ∃ x ∈ s.tasks, x.parentTaskId = some r.id ∧ c = x.toSubtreeRow (r.depth + 1) := by
  obtain ⟨y, hy, k, hk, rfl⟩ := (subtree.mem r).mp hr
  rw [List.mem_filter, pushed, Bool.and_eq_true, decide_eq_true_eq, decide_eq_true_eq]
  constructor
  · rintro ⟨hc, -, hp⟩
    obtain ⟨x, hx, m, hm, rfl⟩ := (subtree.mem c).mp hc
    obtain rfl : m = k + 1 := hm.unique wf forest (.child hx hp hk)
    exact ⟨x, hx, hp, rfl⟩
  · rintro ⟨x, hx, hp, rfl⟩
    have hchild := Tables.Below.child hx hp hk
    refine ⟨(subtree.mem _).mpr ⟨x, hx, k + 1, hchild, rfl⟩, fun htext => ?_, hp⟩
    -- The task itself is not below itself.
    have hid : x.id = u := (congrArg UuidText.uuid htext).trans ht
    rw [hid] at hchild
    exact forest.acyclic u hchild.ancestor

theorem SubtreeRows.pushed_sorted (wf : s.WellFormed) (forest : s.Forest) (ht : t.uuid = u) {r : SubtreeRow} (hr : r ∈ rows) :
    ((rows.filter (pushed t r.id)).map SubtreeRow.id).Pairwise (· < ·) := by
  have hids : rows.Pairwise fun a b => a.id ≠ b.id := List.pairwise_map.mp subtree.ids
  refine List.pairwise_map.mpr (((subtree.sorted.and hids).filter _).imp_of_mem fun {a b} ha hb h => ?_)
  obtain ⟨x, -, -, rfl⟩ := (subtree.pushed_iff wf forest ht hr).mp ha
  obtain ⟨y, -, -, rfl⟩ := (subtree.pushed_iff wf forest ht hr).mp hb
  rcases Prod.Lex.toLex_le_toLex.mp h.1 with hlt | ⟨-, hle⟩
  · exact absurd hlt (Nat.lt_irrefl _)
  · exact lt_of_le_of_ne hle h.2

/-- Read from a row on, the map shows the tasks. -/
theorem SubtreeRows.shows_node (wf : s.WellFormed) (forest : s.Forest) (ht : t.uuid = u)
    {nodes : Uuid → Option TasksService.MapNode} (hnodes : ∀ r ∈ rows, nodes r.id = some (linked t rows r)) {fuel : Nat}
    {r : SubtreeRow} (hr : r ∈ rows) (hfuel : rows.length ≤ fuel + r.depth) :
    s.Shows r.depth (TasksService.node nodes fuel (linked t rows r)) := by
  induction fuel generalizing r with
  | zero => exact absurd (subtree.depth_lt hr) (by omega)
  | succ fuel ih =>
    have hread : (linked t rows r).children.filterMap nodes = (rows.filter (pushed t r.id)).map (linked t rows) := by
      rw [linked, List.filterMap_map, ← List.filterMap_eq_map]
      exact List.filterMap_congr fun c hc => hnodes c (List.mem_of_mem_filter hc)
    have hids : ((rows.filter (pushed t r.id)).map fun c => TasksService.node nodes fuel (linked t rows c)).map
        SubtreeNode.id = (rows.filter (pushed t r.id)).map SubtreeRow.id := by
      rw [List.map_map]
      exact List.map_congr_left fun c _ => node_id nodes fuel (linked t rows c)
    have hpushed := fun c => subtree.pushed_iff wf forest ht hr (c := c)
    have hsorted := subtree.pushed_sorted wf forest ht hr
    rw [TasksService.node, hread, List.map_map]
    have hbelow : ∀ c ∈ (rows.filter (pushed t r.id)).map (TasksService.node nodes fuel ∘ linked t rows),
        s.Shows (r.depth + 1) c := by
      intro c hc
      obtain ⟨d, hd, rfl⟩ := List.mem_map.mp hc
      obtain ⟨x, -, -, hrow⟩ := (hpushed d).mp hd
      have hdepth : d.depth = r.depth + 1 := congrArg SubtreeRow.depth hrow
      exact hdepth ▸ ih (List.mem_of_mem_filter hd) (by omega)
    obtain ⟨x, hx, k, hk, rfl⟩ := (subtree.mem r).mp hr
    refine .node hx (fun y => ?_) ?_ hbelow
    · refine (congrArg (y ∈ ·) hids).to_iff.trans (List.mem_map.trans ⟨?_, ?_⟩)
      · rintro ⟨c, hc, rfl⟩
        obtain ⟨z, hz, hp, rfl⟩ := (hpushed c).mp hc
        exact ⟨z, hz, rfl, hp⟩
      · rintro ⟨z, hz, rfl, hp⟩
        exact ⟨_, (hpushed _).mpr ⟨z, hz, hp, rfl⟩, rfl⟩
    · exact hids ▸ hsorted

end

/-! ### Which subtrees are correct -/

variable (pg env) in
theorem getSubtree_run (wf : s.WellFormed) (forest : s.Forest) (found : Found w p t s old) :
    ∃ rows, SubtreeRows s t.uuid rows ∧
      ((TasksService.getSubtree w p t).run (system pg).handler env s).1 =
        let out := rows.foldl (TasksService.link t) (none, TasksService.createNodes rows)
        .ok ((out.1.bind out.2).map (TasksService.node out.2 rows.length)) := by
  obtain ⟨rows, hrows, hsubtree⟩ := found.subtree wf forest
  refine ⟨rows, hsubtree, ?_⟩
  have hserved := found.served pg env wf fun _ =>
    (perform (.subtree t.uuid p.uuid)).bind fun rows =>
      let out := rows.foldl (TasksService.link t) (none, TasksService.createNodes rows)
      .ret ((out.1.bind out.2).map (TasksService.node out.2 rows.length))
  have hcall : (system pg).handler (env 3) (.subtree t.uuid p.uuid) ((s.spend (env 1)).spend (env 2)) =
      (.ok rows, ((s.spend (env 1)).spend (env 2)).spend (env 3)) := Prod.ext hrows rfl
  rw [perform, Prog.run_perform_ok (I := interface) _ hcall] at hserved
  exact congrArg Prod.fst hserved

/-- A subtree is correct exactly if the id of the request is written as Postgres writes it. -/
theorem subtree_correct_iff (pg : Postgres) (env : Nat → Env) {s : Tables} (wf : s.WellFormed) (forest : s.Forest)
    {w p t : UuidText} {old : TaskRow} (found : Found w p t s old) :
    SubtreeCorrect s t ((TasksService.getSubtree w p t).run (system pg).handler env s) ↔ t = t.uuid.text := by
  obtain ⟨rows, hsubtree, hrun⟩ := getSubtree_run pg env wf forest found
  have hroot := link_root t rows (none, TasksService.createNodes rows)
  constructor
  · rintro ⟨root, hout, -⟩
    by_cases hex : ∃ r ∈ rows, r.id.text = t
    · obtain ⟨r, -, rfl⟩ := hex
      rfl
    · rw [if_neg hex] at hroot
      simp only [hrun, hroot, Option.bind_none, Option.map_none, Except.ok.injEq, reduceCtorEq] at hout
  · intro htext
    have hself : old.toSubtreeRow 0 ∈ rows :=
      (hsubtree.mem _).mpr ⟨old, found.mem, 0, found.id ▸ .self found.mem rfl, rfl⟩
    have hid : (old.toSubtreeRow 0).id = t.uuid := found.id
    have hnodes : ∀ r ∈ rows, (rows.foldl (TasksService.link t) (none, TasksService.createNodes rows)).2 r.id =
        some (linked t rows r) := by
      intro r hr
      exact link_node t rows (none, TasksService.createNodes rows) (createNodes_mem hsubtree.ids hr)
    have hshows := hsubtree.shows_node wf forest rfl hnodes hself (Nat.le_add_right rows.length 0)
    rw [if_pos ⟨_, hself, (congrArg Uuid.text hid).trans htext.symm⟩] at hroot
    refine ⟨_, ?_, hshows.treeOf wf forest ((node_id ..).trans hid)⟩
    simp only [hrun, hroot, Option.bind_some, ← hid, hnodes _ hself, Option.map_some]

end
/-! ### A task with one below it -/

theorem subtree_correct_nested :
    SubtreeCorrect nestedTasks (Uuid.text 11)
      ((TasksService.getSubtree (Uuid.text 1) (Uuid.text 2) (Uuid.text 11)).run (system .strict).handler envAt
        nestedTasks) := by
  obtain ⟨old, found⟩ := nestedTasks_found 11 (Or.inr rfl)
  exact (subtree_correct_iff .strict envAt nestedTasks_wellFormed nestedTasks_forest found).mpr rfl

/-- With the id in capitals no row is found to be the root, and there is no tree in the response. -/
theorem subtree_in_capitals :
    ¬ ∀ (s : Tables) (env : Nat → Env) (w p t : UuidText) (old : TaskRow),
      s.WellFormed → s.Forest → Found w p t s old →
        SubtreeCorrect s t ((TasksService.getSubtree w p t).run (system .strict).handler env s) := by
  intro h
  have found : Found (Uuid.text 1) (Uuid.text 2) ⟨11, 1⟩ nestedTasks (task 11) :=
    ⟨List.mem_cons_of_mem _ (List.mem_cons_self ..), rfl, rfl, project, List.mem_cons_self .., rfl, rfl⟩
  obtain ⟨root, hout, -⟩ := h nestedTasks envAt _ _ _ _ nestedTasks_wellFormed nestedTasks_forest found
  have hnone : ((TasksService.getSubtree (Uuid.text 1) (Uuid.text 2) ⟨11, 1⟩).run (system .strict).handler envAt
      nestedTasks).1.toOption.bind id |>.isNone := by decide +kernel
  rw [hout] at hnone
  cases hnone

end TaskPlatform.Board

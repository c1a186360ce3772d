import TaskPlatform.Board.Isolation

/-! What a call shows: everything that a reply tells of the rows is read off rows of the workspace of the request. -/

namespace TaskPlatform.Board
open Effects Recursive

/-- Everything that the reply tells is read off these rows: the entities it returns, and the depth of a task, which is
    the number of tasks above it. -/
def Call.ReadFrom (rows : Set Row) : (c : Call) → c.Reply → Prop
  | .findProject _ _, (p : Option Project) => ∀ x ∈ p, ∃ r, .project r ∈ rows ∧ x = r.toEntity
  | .listProjects _ _ _, (ps : List Project) => ∀ x ∈ ps, ∃ r, .project r ∈ rows ∧ x = r.toEntity
  | .findTask _ _, (t : Option Task) => ∀ x ∈ t, ∃ r, .task r ∈ rows ∧ x = r.toEntity
  | .listTasks _ _ _, (ts : List Task) => ∀ x ∈ ts, ∃ r, .task r ∈ rows ∧ x = r.toEntity
  | .subtree _ _, (ts : List SubtreeRow) => ∀ x ∈ ts, ∃ r, .task r ∈ rows ∧ x = r.toSubtreeRow x.depth
  | .descendants _, (ts : List (Uuid × Nat)) => ∀ x ∈ ts, ∃ r, .task r ∈ rows ∧ x.1 = r.id
  | .depthOf id, (n : Nat) => n = 0 ∨ ∃ f : Nat → TaskRow, (f 0).id = id ∧ (∀ i ≤ n, .task (f i) ∈ rows) ∧
      ∀ i < n, (f i).parentTaskId = some (f (i + 1)).id
  | .findComment _ _, (m : Option Comment) => ∀ x ∈ m, ∃ r, .comment r ∈ rows ∧ x = r.toEntity
  | .listComments _ _ _, (ms : List Comment) => ∀ x ∈ ms, ∃ r, .comment r ∈ rows ∧ x = r.toEntity
  | .listActivity _ _ _, (as : List TaskActivity) => ∀ x ∈ as, ∃ r, .activity r ∈ rows ∧ x = r.toEntity
  | .insertProject _, _ | .saveProject _, _ | .removeProject _, _ | .insertTask _, _ | .saveTask _, _ | .removeTask _, _
  | .insertComment _, _ | .saveComment _, _ | .removeComment _, _ | .insertActivity _, _ => True

section
variable {k : Knowledge} {s : Tables} {w : Uuid} {pg : Postgres} {env : Env} {r : Request}

/-! ### Lists and lookups -/

theorem mem_select {ρ : Type} {key : ρ → Key} {accepts : ρ → Bool} {cursor : Option Cursor} {take : Nat}
    {rows out : List ρ} (h : select pg key accepts cursor take rows = .ok out) {x : ρ} (hx : x ∈ out) :
    x ∈ rows ∧ accepts x = true := by
  unfold select at h
  split at h
  · obtain rfl := Except.ok.inj h
    exact List.mem_filter.mp (Keyset.mem_fetch hx).1
  · split at h
    · obtain rfl := Except.ok.inj h
      exact List.mem_filter.mp (Keyset.mem_fetch hx).1
    · cases h

/-- What a list returns is read off rows that its query accepts. -/
theorem mem_map_select {ρ ε : Type} {key : ρ → Key} {accepts : ρ → Bool} {cursor : Option Cursor} {take : Nat}
    {rows : List ρ} {f : ρ → ε} {out : List ε} (h : (select pg key accepts cursor take rows).map (List.map f) = .ok out)
    {x : ε} (hx : x ∈ out) : ∃ y ∈ rows, accepts y = true ∧ x = f y := by
  obtain ⟨ys, hys, rfl⟩ := ok_of_map h
  obtain ⟨y, hy, rfl⟩ := List.mem_map.mp hx
  obtain ⟨hmem, haccepts⟩ := mem_select hys hy
  exact ⟨y, hmem, haccepts, rfl⟩

/-! ### Recursive queries -/

/-- A query that starts in the workspace and does not leave a project stays in the workspace. -/
theorem level_rows {join : TaskRow → TaskRow → Bool} {p : TaskRow → Bool}
    (stays : ∀ {a b}, a ∈ s.tasks → b ∈ s.tasks → join a b = true → b.projectId = a.projectId)
    (own : ∀ t ∈ s.tasks, p t = true → s.InProject w t.projectId) (n : Nat) :
    ∀ t ∈ level join s.tasks (s.tasks.filter p) n, .task t ∈ s.rows w := by
  induction n with
  | zero =>
    intro t ht
    obtain ⟨hmem, hp⟩ := List.mem_filter.mp ht
    exact ⟨hmem, own t hmem hp⟩
  | succ n ih =>
    intro t ht
    obtain ⟨hmem, a, ha, hjoin⟩ := mem_next.mp ht
    obtain ⟨hmem', hproject⟩ := ih a ha
    exact ⟨hmem, stays hmem' hmem hjoin ▸ hproject⟩

theorem ended_ok {α β : Type} {x : Option α} {f : α → β} {b : β} (h : (Tables.ended x).map f = .ok b) :
    ∃ a, x = some a ∧ f a = b := by
  cases x with
  | none => cases h
  | some a => exact ⟨a, rfl, Except.ok.inj h⟩

theorem subtree_read (h : k.Fits s) {t p : Uuid} (hp : .project p w ∈ k) {out : List SubtreeRow}
    (ha : s.subtree t p = .ok out) : (Call.subtree t p).ReadFrom (s.rows w) out := by
  obtain ⟨rows, hrows, rfl⟩ := ended_ok ha
  intro x hx
  obtain ⟨⟨y, n⟩, hy, rfl⟩ := List.mem_map.mp ((List.mem_insertionSort _).mp hx)
  refine ⟨y, level_rows (fun ha hb hj => h.child_project ha hb hj) (fun a ha hpa => ?_) n y ((mem_query hrows).mp hy), rfl⟩
  simp only [Bool.and_eq_true, decide_eq_true_eq] at hpa
  exact h.inProject_of_task (hpa.2 ▸ hp) ha

theorem descendants_read (h : k.Fits s) {t : Uuid} (ht : k.HasTask w t) {out : List (Uuid × Nat)}
    (ha : s.descendants t = .ok out) : (Call.descendants t).ReadFrom (s.rows w) out := by
  obtain ⟨rows, hrows, rfl⟩ := ended_ok ha
  intro x hx
  obtain ⟨⟨y, n⟩, hy, rfl⟩ := List.mem_map.mp hx
  have hown : ∀ a ∈ s.tasks, decide (a.id = t) = true → s.InProject w a.projectId := fun a ha hid =>
    own_task h ht a ha (of_decide_eq_true hid)
  exact ⟨y, level_rows (fun ha hb hj => h.child_project ha hb hj) hown n y ((mem_query hrows).mp hy), rfl⟩

theorem depthOf_read (h : k.Fits s) {t : Uuid} (ht : k.HasTask w t) {n : Nat} (ha : s.depthOf t = .ok n) :
    (Call.depthOf t).ReadFrom (s.rows w) n := by
  obtain ⟨rows, hrows, rfl⟩ := ended_ok ha
  by_cases hnil : rows.map Prod.snd = []
  · exact Or.inl (by simp [hnil])
  -- The greatest depth is the depth of one of the rows, which is above the task.
  obtain ⟨⟨y, n⟩, hy, heq⟩ := List.mem_map.mp (max_mem hnil)
  dsimp only at heq
  rw [← heq]
  obtain ⟨f, hseed, -, hstep⟩ := exists_path ((mem_query hrows).mp hy)
  have hown : ∀ a ∈ s.tasks, decide (a.id = t) = true → s.InProject w a.projectId := fun a ha hid =>
    own_task h ht a ha (of_decide_eq_true hid)
  have hlevel : ∀ i ≤ n, f i ∈ level parentOf s.tasks (s.tasks.filter (·.id = t)) i := fun i hi => by
    induction i with
    | zero => exact hseed
    | succ i ih => exact mem_next.mpr ⟨(hstep i hi).1, f i, ih (Nat.le_of_succ_le hi), (hstep i hi).2⟩
  refine Or.inr ⟨f, of_decide_eq_true (List.mem_filter.mp hseed).2, fun i hi => ?_, fun i hi => ?_⟩
  · exact level_rows (fun ha hb hj => (h.child_project hb ha hj).symm) hown i _ (hlevel i hi)
  · simpa [parentOf] using (hstep i hi).2

/-! ### Every call -/

/-- What a call of a request returns is read off rows of its workspace. -/
theorem exec_reads (h : k.Fits s) {c : Call} (hpre : r.pre k c) {a : c.Reply} (ha : (exec pg env c s).1 = .ok a) :
    c.ReadFrom (s.rows r.workspaceId.uuid) a := by
  cases c with
  | findProject id w =>
    intro x hx
    obtain ⟨y, hy, rfl⟩ := Option.map_eq_some_iff.mp (Except.ok.inj ha ▸ hx)
    obtain ⟨hmem, hp⟩ := find?_some hy
    simp only [Bool.and_eq_true, decide_eq_true_eq] at hp
    exact ⟨y, ⟨hmem, hp.2.trans hpre⟩, rfl⟩
  | listProjects f cursor take =>
    intro x hx
    obtain ⟨y, hmem, hp, rfl⟩ := mem_map_select ha hx
    simp only [ProjectFilter.accepts, Bool.and_eq_true, decide_eq_true_eq] at hp
    exact ⟨y, ⟨hmem, hp.1.trans hpre⟩, rfl⟩
  | findTask id p =>
    intro x hx
    obtain ⟨y, hy, rfl⟩ := Option.map_eq_some_iff.mp (Except.ok.inj ha ▸ hx)
    obtain ⟨hmem, hp⟩ := find?_some hy
    simp only [Bool.and_eq_true, decide_eq_true_eq] at hp
    exact ⟨y, ⟨hmem, h.inProject_of_task (hp.2 ▸ hpre) hmem⟩, rfl⟩
  | listTasks f cursor take =>
    intro x hx
    obtain ⟨y, hmem, hp, rfl⟩ := mem_map_select ha hx
    simp only [TaskFilter.accepts, Bool.and_eq_true, decide_eq_true_eq] at hp
    obtain ⟨⟨⟨⟨hproject, -⟩, -⟩, -⟩, -⟩ := hp
    exact ⟨y, ⟨hmem, h.inProject_of_task (hproject ▸ hpre) hmem⟩, rfl⟩
  | subtree t p => exact subtree_read h hpre ha
  | descendants t => exact descendants_read h hpre ha
  | depthOf t => exact depthOf_read h hpre ha
  | findComment id t =>
    intro x hx
    obtain ⟨y, hy, rfl⟩ := Option.map_eq_some_iff.mp (Except.ok.inj ha ▸ hx)
    obtain ⟨hmem, hp⟩ := find?_some hy
    simp only [Bool.and_eq_true, decide_eq_true_eq] at hp
    exact ⟨y, ⟨hmem, h.inTask_of_mem (hp.2 ▸ hpre) (h.wellFormed.commentTask y hmem)⟩, rfl⟩
  | listComments f cursor take =>
    intro x hx
    obtain ⟨y, hmem, hp, rfl⟩ := mem_map_select ha hx
    simp only [CommentFilter.accepts, Bool.and_eq_true, decide_eq_true_eq] at hp
    exact ⟨y, ⟨hmem, h.inTask_of_mem (hp.1 ▸ hpre) (h.wellFormed.commentTask y hmem)⟩, rfl⟩
  | listActivity t cursor take =>
    intro x hx
    obtain ⟨y, hmem, hp, rfl⟩ := mem_map_select ha hx
    obtain rfl := of_decide_eq_true hp
    exact ⟨y, ⟨hmem, h.inTask_of_mem hpre (h.wellFormed.activityTask y hmem)⟩, rfl⟩
  | insertProject | saveProject | removeProject | insertTask | saveTask | removeTask | insertComment | saveComment
  | removeComment | insertActivity => trivial

end
end TaskPlatform.Board

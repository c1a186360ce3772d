import TaskPlatform.Pagination.Lists

/-! The order in which a client who follows the cursors gets the rows, while others insert, delete and update them. -/

namespace TaskPlatform
open Effects

namespace ListEndpoint
variable {S ρ α : Type} (l : ListEndpoint S ρ α)

/-- The answers that a client gets who follows the cursors, each request served in the next of the states. -/
def follow (limit : Option Nat) : List S → Option String → List (Except Err (Page α))
  | [], _ => []
  | s :: rest, cursor =>
    match l.page { limit, cursor } s with
    | .error e => [.error e]
    | .ok p =>
      match p.info.nextCursor with
      | none => [.ok p]
      | some next => .ok p :: follow limit rest (some next)

/-- The rows in these answers. -/
def rowsOf (answers : List (Except Err (Page α))) : List α := answers.flatMap fun a => (a.toOption.map Page.data).getD []

/-- In every state ids are unique, and a row keeps its id and its time of creation from state to state. -/
def Keyed (states : List S) : Prop :=
  (∀ s ∈ states, ((l.table s).map (l.stamp · |>.2)).Nodup) ∧
    ∀ s ∈ states, ∀ t ∈ states, ∀ r ∈ l.table s, ∀ r' ∈ l.table t, (l.stamp r).2 = (l.stamp r').2 → l.stamp r = l.stamp r'

/-- The rows come strictly one below the other, so none of them twice, whatever happens to the tables between two pages;
    and a table that stays as it is has only so many pages. -/
def WalksDown : Prop :=
  ∀ limit : Option Nat, 1 ≤ limit.getD 20 → limit.getD 20 ≤ 100 →
    (∀ states, l.Keyed states → ∃ rows : List ρ, rowsOf (l.follow limit states none) = rows.map l.load ∧
      (∀ r ∈ rows, ∃ s ∈ states, r ∈ l.matching s) ∧ (rows.Pairwise fun a b => (l.stamp b).key < (l.stamp a).key) ∧
      (rows.map (l.stamp · |>.2)).Nodup) ∧
    ∀ s, ∃ n, ∀ m, (l.follow limit (List.replicate m s) none).length ≤ n

/-- An endpoint that refuses one request refuses all of them. -/
def Uniform : Prop := ∀ s, l.Answers s ∨ ∀ q, ∃ e, l.page q s = .error e

variable {l} {pg : Postgres} {limit : Option Nat} {c : Option Stamp} {s : S} {states : List S}

theorem follow_error {e : Err} {cursor : Option String} (h : l.page { limit, cursor } s = .error e) :
    l.follow limit (s :: states) cursor = [.error e] := by
  simp [follow, h]

theorem follow_last {p : Page α} {cursor : Option String} (h : l.page { limit, cursor } s = .ok p)
    (last : p.info.nextCursor = none) : l.follow limit (s :: states) cursor = [.ok p] := by
  simp [follow, h, last]

theorem follow_next {p : Page α} {cursor : Option String} {next : String} (h : l.page { limit, cursor } s = .ok p)
    (more : p.info.nextCursor = some next) :
    l.follow limit (s :: states) cursor = .ok p :: l.follow limit states (some next) := by
  simp [follow, h, more]

theorem rowsOf_cons {p : Page α} {answers : List (Except Err (Page α))} :
    rowsOf (.ok p :: answers) = p.data ++ rowsOf answers := rfl

/-- No two rows of a list have one key. -/
theorem Keyed.nodup (h : l.Keyed states) (hs : s ∈ states) : ((l.matching s).map (Stamp.key ∘ l.stamp)).Nodup :=
  keys_nodup ((h.1 s hs).sublist (List.filter_sublist.map _))

variable (limit) in
/-- The induction is over the pages: all rows that come after a page lie below its next cursor. -/
theorem follow_desc (serves : l.Serves pg) (uniform : l.Uniform) (keyed : l.Keyed states) :
    ∃ rows : List ρ, rowsOf (l.follow limit states (c.map Stamp.text)) = rows.map l.load ∧
      (∀ r ∈ rows, (∃ s ∈ states, r ∈ l.matching s) ∧ ∀ y ∈ c, (l.stamp r).key < y.cut.key) ∧
      rows.Pairwise fun a b => (l.stamp b).key < (l.stamp a).key := by
  induction states generalizing c with
  | nil => exact ⟨[], rfl, nofun, .nil⟩
  | cons s rest ih =>
    rcases uniform s with answers | refuses
    · obtain ⟨p, rows, next, hpage, hdata, hnext, heq, hdown⟩ := page_eq c limit serves answers
      obtain ⟨hstrict, hbelow, habove⟩ := Keyset.page_strict cutKey_le (keyed.nodup (List.mem_cons_self ..)) heq
      have hrows : ∀ r ∈ rows, (∃ t ∈ s :: rest, r ∈ l.matching t) ∧ ∀ y ∈ c, (l.stamp r).key < y.cut.key := fun r hr =>
        ⟨⟨s, List.mem_cons_self .., (hbelow r hr).1⟩, fun y hy => (hbelow r hr).2 _ (Option.mem_map_of_mem _ hy)⟩
      cases next with
      | none =>
        rw [follow_last hpage hnext]
        exact ⟨rows, by rw [rowsOf_cons, hdata]; exact List.append_nil _, hrows, hstrict⟩
      | some x =>
        have hrest : l.Keyed rest := ⟨fun t ht => keyed.1 t (List.mem_cons_of_mem _ ht), fun t ht u hu =>
          keyed.2 t (List.mem_cons_of_mem _ ht) u (List.mem_cons_of_mem _ hu)⟩
        obtain ⟨more, hmore, hmem, hdesc⟩ := ih (c := some x) hrest
        have hcut : ∀ r ∈ more, ∀ r' ∈ rows, (l.stamp r).key < (l.stamp r').key := fun r hr r' hr' =>
          lt_of_lt_of_le ((hmem r hr).2 x rfl) (habove _ rfl r' hr')
        rw [follow_next hpage hnext]
        refine ⟨rows ++ more, ?_, fun r hr => ?_, List.pairwise_append.mpr ⟨hstrict, hdesc, fun r hr r' hr' => hcut r' hr' r hr⟩⟩
        · rw [rowsOf_cons, hdata, List.map_append]
          exact congrArg _ hmore
        · rcases List.mem_append.mp hr with hr | hr
          · exact hrows r hr
          · obtain ⟨t, ht, hmatch⟩ := (hmem r hr).1
            refine ⟨⟨t, List.mem_cons_of_mem _ ht, hmatch⟩, fun y hy => ?_⟩
            calc (l.stamp r).key < x.cut.key := (hmem r hr).2 x rfl
              _ ≤ x.key := Stamp.key_cut x ▸ cutKey_le _
              _ < y.cut.key := hdown x rfl y hy
    · obtain ⟨e, he⟩ := refuses { limit, cursor := c.map Stamp.text }
      rw [follow_error he]
      exact ⟨[], rfl, nofun, .nil⟩

/-- Following the cursors comes to an end. The induction is on the cursor, which only goes down. -/
theorem follow_ends (serves : l.Serves pg) (uniform : l.Uniform) (s : S) :
    ∃ n, ∀ m, (l.follow limit (List.replicate m s) (c.map Stamp.text)).length ≤ n := by
  rcases uniform s with answers | refuses
  · induction c using Stamp.wellFounded.induction with
    | _ c ih =>
      obtain ⟨p, _, next, hpage, -, hnext, -, hbelow⟩ := page_eq c limit serves answers
      cases next with
      | none =>
        refine ⟨1, fun m => ?_⟩
        cases m with
        | zero => exact Nat.zero_le _
        | succ m =>
          rw [List.replicate_succ, follow_last hpage hnext]
          exact le_refl 1
      | some x =>
        have hless : ∀ y ∈ c, x.key < y.key := fun y hy =>
          lt_of_lt_of_le (hbelow x rfl y hy) (Stamp.key_cut y ▸ cutKey_le _)
        obtain ⟨n, hrest⟩ := ih (some x) ⟨x, rfl, hless⟩
        refine ⟨n + 1, fun m => ?_⟩
        cases m with
        | zero => exact Nat.zero_le _
        | succ m =>
          rw [List.replicate_succ, follow_next hpage hnext]
          exact Nat.succ_le_succ (hrest m)
  · obtain ⟨e, he⟩ := refuses { limit, cursor := c.map Stamp.text }
    refine ⟨1, fun m => ?_⟩
    cases m with
    | zero => exact Nat.zero_le _
    | succ m =>
      rw [List.replicate_succ, follow_error he]
      exact le_refl 1

theorem walksDown (serves : l.Serves pg) (uniform : l.Uniform) : l.WalksDown := by
  intro limit _ _
  refine ⟨fun states keyed => ?_, fun s => follow_ends (c := none) serves uniform s⟩
  obtain ⟨rows, hrows, hmem, hdesc⟩ := follow_desc (c := none) limit serves uniform keyed
  refine ⟨rows, hrows, fun r hr => (hmem r hr).1, hdesc, ?_⟩
  -- Rows with one id have one key.
  refine List.pairwise_map.mpr (List.Pairwise.imp_of_mem (fun {a b} ha hb hlt hid => ?_) hdesc)
  obtain ⟨s, hs, ha⟩ := (hmem a ha).1
  obtain ⟨t, ht, hb⟩ := (hmem b hb).1
  have heq := keyed.2 s hs t ht a (List.mem_filter.mp ha).1 b (List.mem_filter.mp hb).1 hid
  rw [heq] at hlt
  exact lt_irrefl _ hlt

end ListEndpoint

/-! ### The five lists -/

namespace Board
variable {pg : Postgres} {env : Nat → Env} {w p t : UuidText}

theorem projectsList_uniform (query : ListProjectsQueryDto) : (projectsList pg env w query).Uniform :=
  fun _ => Or.inl fun _ => ⟨_, page_run (c := .listProjects _ _ _) rfl⟩

theorem tasksList_uniform (query : ListTasksQueryDto) : (tasksList pg env w p query).Uniform := by
  intro s
  cases hp : s.projects.find? fun r => r.id = p.uuid && r.workspaceId = w.uuid with
  | none =>
    refine Or.inr fun q => ⟨.notFound "Project not found", ?_⟩
    simp only [tasksList, TasksService.list, Prog.bind_eq, findProject_run, hp]
  | some r => exact Or.inl fun limit => ⟨_, tasksList_page (Option.isSome_iff_exists.mpr ⟨r, hp⟩) rfl⟩

/-- A list that begins with looking up a task refuses all requests if the task is not there. -/
theorem findTask_or_refuses (w p t : UuidText) (s : Tables) :
    ((s.projects.find? fun r => r.id = p.uuid && r.workspaceId = w.uuid).isSome = true ∧
      (s.tasks.find? fun r => r.id = t.uuid && r.projectId = p.uuid).isSome = true) ∨
    ∃ e, ∀ {α : Type} (f : Task → Service α), (((TasksService.findOneOrFail w p t).bind f).run (exec pg) env s).1 = .error e := by
  cases hp : s.projects.find? fun r => r.id = p.uuid && r.workspaceId = w.uuid with
  | none => exact Or.inr ⟨.notFound "Project not found", fun f => by rw [findTask_run, hp]⟩
  | some x =>
    cases ht : s.tasks.find? fun r => r.id = t.uuid && r.projectId = p.uuid with
    | none => exact Or.inr ⟨.notFound "Task not found", fun f => by rw [findTask_run, hp, ht]⟩
    | some y => exact Or.inl ⟨rfl, rfl⟩

theorem commentsList_uniform (query : ListCommentsQueryDto) : (commentsList pg env w p t query).Uniform := by
  intro s
  rcases findTask_or_refuses w p t s with ⟨hp, ht⟩ | ⟨e, he⟩
  · exact Or.inl fun limit => ⟨_, commentsList_page hp ht rfl⟩
  · exact Or.inr fun q => ⟨e, he _⟩

theorem activityList_uniform : (activityList pg env w p t).Uniform := by
  intro s
  rcases findTask_or_refuses w p t s with ⟨hp, ht⟩ | ⟨e, he⟩
  · exact Or.inl fun limit => ⟨_, activityList_page hp ht rfl⟩
  · exact Or.inr fun q => ⟨e, he _⟩

end Board

theorem Notifications.notificationsList_uniform {pg : Postgres} {env : Nat → Env} {user : UuidText}
    (query : ListNotificationsQueryDto) : (notificationsList pg env user query).Uniform :=
  fun _ => Or.inl fun _ => ⟨_, notificationsList_page rfl⟩

/-- Each of the lists gives out its rows strictly descending in `(created_at, id)`, whatever its filter and limit, and
    however its tables change between two pages. -/
theorem lists_walk_down (pg : Postgres) (env : Nat → Env) (w p t user : UuidText) (projects : Board.ListProjectsQueryDto)
    (tasks : Board.ListTasksQueryDto) (comments : Board.ListCommentsQueryDto)
    (notifications : Notifications.ListNotificationsQueryDto) :
    (Board.projectsList pg env w projects).WalksDown ∧ (Board.tasksList pg env w p tasks).WalksDown ∧
      (Board.commentsList pg env w p t comments).WalksDown ∧ (Board.activityList pg env w p t).WalksDown ∧
      (Notifications.notificationsList pg env user notifications).WalksDown :=
  ⟨ListEndpoint.walksDown (Board.projectsList_serves projects) (Board.projectsList_uniform projects),
    ListEndpoint.walksDown (Board.tasksList_serves tasks) (Board.tasksList_uniform tasks),
    ListEndpoint.walksDown (Board.commentsList_serves comments) (Board.commentsList_uniform comments),
    ListEndpoint.walksDown Board.activityList_serves Board.activityList_uniform,
    ListEndpoint.walksDown (Notifications.notificationsList_serves notifications)
      (Notifications.notificationsList_uniform notifications)⟩

end TaskPlatform

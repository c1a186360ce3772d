import TaskPlatform.Pagination.Lists

/-! Which of the texts that a client may send as a cursor make a list request fail in the database. -/

namespace TaskPlatform
open Effects

/-- The text in a cursor, whatever its characters are: of each code unit the low byte is read. -/
def cursorText (cursor : String) : List Char := Text.decode (Base64.decode cursor.toList)

/-- Where the text has a first and a second part, both not empty, these are a time and a uuid for the casts. -/
def Readable (pg : Postgres) (text : List Char) : Prop :=
  ∀ createdAt id rest, text.splitOn '|' = createdAt :: id :: rest → createdAt ≠ [] → id ≠ [] →
    (pg.castTimestamptz (String.ofList createdAt)).isOk = true ∧ (pg.castUuid (String.ofList id)).isOk = true

/-- The casts accept both texts of a cursor. -/
def Postgres.Accepts (pg : Postgres) (c : Cursor) : Prop :=
  (pg.castTimestamptz c.createdAt).isOk = true ∧ (pg.castUuid c.id).isOk = true

namespace ListEndpoint
variable {S ρ α : Type}

/-- No request with the cursor fails in the database. -/
def Withstands (l : ListEndpoint S ρ α) (cursor : String) : Prop :=
  ∀ limit s e, l.page { limit, cursor := some cursor } s ≠ .error (.db e)

/-- Where what is listed is found, a request fails in the database exactly if a cast of its cursor fails. -/
structure Casts (pg : Postgres) (l : ListEndpoint S ρ α) (found : S → Prop) : Prop where
  possible : ∃ s, found s
  errors : ∀ q s e, l.page q s = .error (.db e) ↔ found s ∧ ∃ c, q.decoded = some c ∧ pg.castCursor c = .error e

end ListEndpoint

section
variable {pg : Postgres} {S ρ α β : Type} {cursor : String}

/-! ### What `decodeCursor` accepts -/

/-- The parts of a text are the one before its first bar, and those of what comes after the bar. -/
theorem splitOn_bar (l : List Char) : l.dropWhile (· ≠ '|') = [] ∧ l.splitOn '|' = [l.takeWhile (· ≠ '|')] ∨
    ∃ rest, l.dropWhile (· ≠ '|') = '|' :: rest ∧ l.splitOn '|' = l.takeWhile (· ≠ '|') :: rest.splitOn '|' := by
  have htake : '|' ∉ l.takeWhile (· ≠ '|') := fun h => by simpa using List.mem_takeWhile_imp h
  have hl : l.takeWhile (· ≠ '|') ++ l.dropWhile (· ≠ '|') = l := List.takeWhile_append_dropWhile
  cases hdrop : l.dropWhile (· ≠ '|') with
  | nil =>
    rw [hdrop, List.append_nil] at hl
    rw [hl] at htake ⊢
    exact Or.inl ⟨rfl, List.splitOn_eq_singleton htake⟩
  | cons c rest =>
    have hc : c = '|' := by
      have := List.head?_dropWhile_not (· ≠ '|') l
      rw [hdrop] at this
      simpa using this
    subst hc
    rw [hdrop] at hl
    refine Or.inr ⟨rest, rfl, ?_⟩
    conv_lhs => rw [← hl, List.splitOn_append_cons_self_of_not_mem htake]

theorem splitOn_head (l : List Char) : ∃ rest, l.splitOn '|' = l.takeWhile (· ≠ '|') :: rest := by
  rcases splitOn_bar l with ⟨-, h⟩ | ⟨rest, -, h⟩
  · exact ⟨_, h⟩
  · exact ⟨_, h⟩

/-- `decodeCursor` takes the first two parts of the text. -/
theorem decodeCursor_some {c : Cursor} : decodeCursor cursor = some c ↔
    ∃ createdAt id rest, (cursorText cursor).splitOn '|' = createdAt :: id :: rest ∧ createdAt ≠ [] ∧ id ≠ [] ∧
      c = ⟨String.ofList createdAt, String.ofList id⟩ := by
  unfold decodeCursor
  change (if _ ∨ _ then none else some _) = some c ↔ _
  rcases splitOn_bar (cursorText cursor) with ⟨hdrop, hsplit⟩ | ⟨rest, hdrop, hsplit⟩
  · rw [← cursorText, hdrop, hsplit]
    simp
  · obtain ⟨rest', hrest⟩ := splitOn_head rest
    rw [← cursorText, hdrop, hsplit, hrest]
    simp only [List.drop_one, List.tail_cons]
    constructor
    · intro h
      split at h
      · cases h
      · next hparts =>
        exact ⟨_, _, _, rfl, fun h => hparts (Or.inl h), fun h => hparts (Or.inr h), (Option.some.inj h).symm⟩
    · rintro ⟨a, b, tail, heq, ha, hb, rfl⟩
      simp only [List.cons.injEq] at heq
      obtain ⟨rfl, rfl, -⟩ := heq
      rw [if_neg (not_or.mpr ⟨ha, hb⟩)]

/-- All that `decodeCursor` makes of the cursor is accepted exactly if the text is readable. -/
theorem accepts_iff : (∀ c, decodeCursor cursor = some c → pg.Accepts c) ↔ Readable pg (cursorText cursor) := by
  constructor
  · intro h createdAt id rest hsplit hcreatedAt hid
    exact h ⟨String.ofList createdAt, String.ofList id⟩
      (decodeCursor_some.mpr ⟨createdAt, id, rest, hsplit, hcreatedAt, hid, rfl⟩)
  · intro h c hc
    obtain ⟨createdAt, id, rest, hsplit, hcreatedAt, hid, rfl⟩ := decodeCursor_some.mp hc
    exact h createdAt id rest hsplit hcreatedAt hid

/-! ### What the casts accept -/

theorem Postgres.accepts_iff_castCursor {c : Cursor} : pg.Accepts c ↔ ∀ e, pg.castCursor c ≠ .error e := by
  unfold Postgres.Accepts Postgres.castCursor
  cases pg.castTimestamptz c.createdAt with
  | error e => exact iff_of_false (fun h => nomatch h.1) fun h => h e rfl
  | ok t =>
    cases pg.castUuid c.id with
    | error e => exact iff_of_false (fun h => nomatch h.2) fun h => h e rfl
    | ok id => exact iff_of_true ⟨rfl, rfl⟩ nofun

/-- A query fails exactly if a cast does. -/
theorem select_error {key : ρ → Key} {accepts : ρ → Bool} {c : Option Cursor} {take : Nat} {rows : List ρ} {e : DbError} :
    select pg key accepts c take rows = .error (.db e) ↔ ∃ k, c = some k ∧ pg.castCursor k = .error e := by
  cases c with
  | none => simp [select]
  | some k =>
    simp only [select]
    cases h : pg.castCursor k <;> simp [h]

theorem map_select_error {key : ρ → Key} {accepts : ρ → Bool} {c : Option Cursor} {take : Nat} {rows : List ρ} {f : ρ → β}
    {e : DbError} : (select pg key accepts c take rows).map (List.map f) = .error (.db e) ↔
      ∃ k, c = some k ∧ pg.castCursor k = .error e := by
  rw [← select_error]
  cases select pg key accepts c take rows <;> simp [Except.map]

theorem decoded_some (limit : Option Nat) : PaginationQuery.decoded { limit, cursor := some cursor } = decodeCursor cursor := by
  by_cases h : cursor = ""
  · subst h
    rfl
  · simp [PaginationQuery.decoded, Option.filter, h]

/-- An endpoint withstands a cursor exactly if its text is readable. -/
theorem ListEndpoint.Casts.withstands_iff {l : ListEndpoint S ρ α} {found : S → Prop} (h : l.Casts pg found) :
    l.Withstands cursor ↔ Readable pg (cursorText cursor) := by
  rw [← accepts_iff]
  constructor
  · intro hl c hc
    obtain ⟨s, hs⟩ := h.possible
    refine Postgres.accepts_iff_castCursor.mpr fun e he => ?_
    exact hl none s e ((h.errors _ s e).mpr ⟨hs, c, (decoded_some none).trans hc, he⟩)
  · intro hc limit s e he
    obtain ⟨-, c, hdecoded, hcast⟩ := (h.errors _ s e).mp he
    exact Postgres.accepts_iff_castCursor.mp (hc c ((decoded_some limit).symm.trans hdecoded)) e hcast

/-- The last step of a list fails exactly if its query does. -/
theorem page_error {I : Interface} {exec : Handler I S} {c : I.Call} {f : I.Reply c → α} {env : Nat → I.Env} {s : S}
    {e : I.Error} : (((Prog.perform c).bind fun rows => Prog.ret (f rows)).run exec env s).1 = .error e ↔
      (exec (env 1) c s).1 = .error e := by
  rw [Prog.perform, Prog.call_bind, Prog.run_call]
  cases (exec (env 1) c s).1 <;> simp

end

/-! ### The endpoints -/

namespace Board
variable {pg : Postgres} {env : Nat → Env} {s : Tables} {w p t : UuidText} {α : Type}

theorem projectsList_casts (query : ListProjectsQueryDto) : (projectsList pg env w query).Casts pg fun _ => True where
  possible := ⟨oneTask w w w, trivial⟩
  errors q s e := by
    refine (page_error (I := interface) (c := .listProjects _ _ _)).trans ?_
    rw [true_and]
    exact map_select_error

/-- The project of a list, and the task of one. -/
def Tables.HasProject (s : Tables) (w p : UuidText) : Prop :=
  (s.projects.find? fun r => r.id = p.uuid && r.workspaceId = w.uuid).isSome = true

def Tables.HasTask (s : Tables) (w p t : UuidText) : Prop :=
  s.HasProject w p ∧ (s.tasks.find? fun r => r.id = t.uuid && r.projectId = p.uuid).isSome = true

/-- What begins with looking up a project fails in the database only if it goes on and does. -/
theorem findProject_error {next : Service α} {e : DbError} :
    (((ProjectsService.findOneOrFail w p).bind fun _ => next).run (exec pg) env s).1 = .error (.db e) ↔
      s.HasProject w p ∧ (next.run (exec pg) (fun n => env (n + 1)) s).1 = .error (.db e) := by
  rw [findProject_run, Tables.HasProject]
  cases s.projects.find? fun r => r.id = p.uuid && r.workspaceId = w.uuid <;> simp

theorem findTask_error {next : Service α} {e : DbError} :
    (((TasksService.findOneOrFail w p t).bind fun _ => next).run (exec pg) env s).1 = .error (.db e) ↔
      s.HasTask w p t ∧ (next.run (exec pg) (fun n => env (n + 2)) s).1 = .error (.db e) := by
  rw [findTask_run, Tables.HasTask, Tables.HasProject]
  cases s.projects.find? fun r => r.id = p.uuid && r.workspaceId = w.uuid with
  | none => simp
  | some r => cases s.tasks.find? fun r => r.id = t.uuid && r.projectId = p.uuid <;> simp

theorem tasksList_casts (query : ListTasksQueryDto) :
    (tasksList pg env w p query).Casts pg fun s => s.HasProject w p where
  possible := ⟨oneTask w p p, oneTask_project w p p⟩
  errors q s e := by
    refine findProject_error.trans (and_congr_right fun _ => ?_)
    exact (page_error (I := interface) (c := .listTasks _ _ _)).trans map_select_error

theorem commentsList_casts (query : ListCommentsQueryDto) :
    (commentsList pg env w p t query).Casts pg fun s => s.HasTask w p t where
  possible := ⟨oneTask w p t, oneTask_project w p t, oneTask_task w p t⟩
  errors q s e := by
    refine findTask_error.trans (and_congr_right fun _ => ?_)
    exact (page_error (I := interface) (c := .listComments _ _ _)).trans map_select_error

theorem activityList_casts : (activityList pg env w p t).Casts pg fun s => s.HasTask w p t where
  possible := ⟨oneTask w p t, oneTask_project w p t, oneTask_task w p t⟩
  errors q s e := by
    refine findTask_error.trans (and_congr_right fun _ => ?_)
    exact (page_error (I := interface) (c := .listActivity _ _ _)).trans map_select_error

end Board

namespace Notifications
variable {pg : Postgres} {env : Nat → Env} {userId : UuidText}

theorem notificationsList_casts (query : ListNotificationsQueryDto) :
    (notificationsList pg env userId query).Casts pg fun _ => True where
  possible := ⟨⟨[], [], [], ⟨[], []⟩⟩, trivial⟩
  errors q s e := by
    refine (page_error (I := interface) (c := .listNotifications _ _ _)).trans ?_
    rw [true_and]
    exact map_select_error

end Notifications

/-! ### Every text -/

/-- Whatever a client sends as a cursor: `decodeCursor` gives nothing or what the casts accept, and none of the list
    requests fails in the database because of it, exactly if the text in the cursor does not have a first and a second
    part, or these are a time and a uuid. -/
theorem cursor_accepted_iff (pg : Postgres) (cursor : String) (env : Nat → Env) (w p t user : UuidText)
    (projects : Board.ListProjectsQueryDto) (tasks : Board.ListTasksQueryDto) (comments : Board.ListCommentsQueryDto)
    (notifications : Notifications.ListNotificationsQueryDto) :
    ((∀ c, decodeCursor cursor = some c → pg.Accepts c) ∧ (Board.projectsList pg env w projects).Withstands cursor ∧
      (Board.tasksList pg env w p tasks).Withstands cursor ∧ (Board.commentsList pg env w p t comments).Withstands cursor ∧
      (Board.activityList pg env w p t).Withstands cursor ∧
      (Notifications.notificationsList pg env user notifications).Withstands cursor) ↔ Readable pg (cursorText cursor) := by
  rw [accepts_iff, (Board.projectsList_casts projects).withstands_iff, (Board.tasksList_casts tasks).withstands_iff,
    (Board.commentsList_casts comments).withstands_iff, Board.activityList_casts.withstands_iff,
    (Notifications.notificationsList_casts notifications).withstands_iff]
  simp only [and_self]

/-- Characters outside the alphabet whose low bytes are in it say `x|y` as well. -/
example : decodeCursor (String.ofList ['\u0165', '\u0148', '\u0178', '\u0135']) = some ⟨"x", "y"⟩ := by
  decide +kernel

/-- The cursors that the lists give out are readable. -/
theorem encodeCursor_readable (pg : Postgres) (t : Timestamptz) (id : Uuid) :
    Readable pg (cursorText (encodeCursor t id)) := by
  rw [← accepts_iff, decodeCursor_encodeCursor]
  intro c hc
  have haccepts : pg.Accepts ⟨t.toISOString, uuidText id⟩ := by
    rw [Postgres.accepts_iff_castCursor, Postgres.castCursor_encoded]
    exact fun e => nofun
  exact Option.some.inj hc ▸ haccepts

/-- The cursor `eHx5` says `x|y`: it is decoded, and the list of tasks fails in the database. -/
theorem cursor_fails : ∃ (pg : Postgres) (cursor : String) (env : Nat → Env) (w p : UuidText) (s : Board.Tables)
    (c : Cursor) (e : DbError), decodeCursor cursor = some c ∧ c = ⟨"x", "y"⟩ ∧ ¬ pg.Accepts c ∧
    (Board.tasksList pg env w p {}).page { cursor := some cursor } s = .error (.db e) :=
  ⟨.strict, "eHx5", envAt, Uuid.text 1, Uuid.text 2, oneMillisecond, ⟨"x", "y"⟩, .invalidText "timestamptz",
    by decide +kernel, rfl, fun accepted => absurd accepted.1 (by decide +kernel), by decide +kernel⟩

end TaskPlatform

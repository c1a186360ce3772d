import TaskPlatform.Board.Finality
import TaskPlatform.Board.Footprints
import TaskPlatform.Board.Outcomes

/-! The audit trail, whatever else is in flight and whatever fails: every row of it tells a change that the user it names
    has asked for, and that was made before the row was written. -/

namespace TaskPlatform.Board
open Effects

/-! ### What a request was told before it records an event -/

/-- The task was read as `old`, and then saved as `new`, which left it as `saved`. -/
def Changes (log : List (Said interface)) (old new saved : Task) : Prop :=
  ∃ l₁ l₂ id p, log = l₁ ++ ⟨.saveTask new, .ok saved⟩ :: l₂ ∧ ⟨.findTask id p, .ok (some old)⟩ ∈ l₂ ∧ new.id = old.id

/-- What a request was told bears out what it records. -/
inductive BornOut (op : Operation) (log : List (Said interface)) : NewActivity → Prop
  | created {p : UuidText} {user : Uuid} {dto : CreateTaskDto} {new : NewTask} {task : Task}
      (asked : op = .createTask p user dto) (saved : ⟨.insertTask new, .ok task⟩ ∈ log) (project : new.projectId = p)
      (creator : new.createdBy = user) : BornOut op log ⟨task.id.text, some user, .CREATED, [("projectId", .id p)]⟩
  | given {p q : UuidText} {user : Uuid} {dto : CreateTaskDto} {new : NewTask} {task : Task}
      (asked : op = .createTask p user dto) (saved : ⟨.insertTask new, .ok task⟩ ∈ log)
      (assignee : task.assigneeId = some q) : BornOut op log ⟨task.id.text, some user, .ASSIGNED, [("assigneeId", .id q)]⟩
  | assigned {p t q : UuidText} {user : Uuid} {dto : UpdateTaskDto} {old new saved : Task}
      (asked : op = .updateTask p t user dto) (change : Changes log old new saved)
      (differ : new.assigneeId ≠ old.assigneeId) (assignee : saved.assigneeId = some q) :
      BornOut op log ⟨saved.id.text, some user, .ASSIGNED, [("assigneeId", .id q)]⟩
  | statusChanged {p t : UuidText} {user : Uuid} {dto : UpdateTaskDto} {old new saved : Task}
      (asked : op = .updateTask p t user dto) (change : Changes log old new saved) (differ : new.status ≠ old.status) :
      BornOut op log
        ⟨saved.id.text, some user, .STATUS_CHANGED, [("from", .status old.status), ("to", .status saved.status)]⟩
  | completed {p t : UuidText} {user : Uuid} {dto : UpdateTaskDto} {old new saved : Task}
      (asked : op = .updateTask p t user dto) (change : Changes log old new saved) (differ : new.status ≠ old.status)
      (done : saved.status = some .DONE) : BornOut op log ⟨saved.id.text, some user, .COMPLETED, []⟩
  | commented {p t : UuidText} {user : Uuid} {dto : CreateCommentDto} {new : NewComment} {comment : Comment}
      (asked : op = .createComment p t user dto) (saved : ⟨.insertComment new, .ok comment⟩ ∈ log) (task : new.taskId = t)
      (author : new.authorId = user) :
      BornOut op log ⟨t, some user, if comment.parentCommentId.isSome then .REPLIED else .COMMENTED,
        ("commentId", .id comment.id.text) ::
          (comment.parentCommentId.map fun p => ("parentCommentId", MetadataValue.id p)).toList⟩

section
variable {op : Operation} {log log' : List (Said interface)} {n : NewActivity} {w p t : UuidText} {user : Uuid}

theorem Changes.grow {old new saved : Task} (h : Changes log old new saved) (hlog : log <:+ log') :
    Changes log' old new saved := by
  obtain ⟨l, rfl⟩ := hlog
  obtain ⟨l₁, l₂, id, p, rfl, hread, hid⟩ := h
  exact ⟨l ++ l₁, l₂, id, p, by rw [List.append_assoc], hread, hid⟩

theorem BornOut.grow (h : BornOut op log n) (hlog : log <:+ log') : BornOut op log' n := by
  cases h with
  | created asked saved project creator => exact .created asked (hlog.subset saved) project creator
  | given asked saved assignee => exact .given asked (hlog.subset saved) assignee
  | assigned asked change differ assignee => exact .assigned asked (change.grow hlog) differ assignee
  | statusChanged asked change differ => exact .statusChanged asked (change.grow hlog) differ
  | completed asked change differ done => exact .completed asked (change.grow hlog) differ done
  | commented asked saved task author => exact .commented asked (hlog.subset saved) task author

/-- What is recorded of the events is borne out. -/
def Told (op : Operation) (log : List (Said interface)) (es : List DomainEvent) : Prop :=
  ∀ e ∈ es, ∀ n, e.recorded? = some n → BornOut op log n

/-! ### The events of each request -/

theorem answered_leaves (c : Call) : (perform c).Leaves (fun log a => ⟨c, .ok a⟩ ∈ log) log :=
  Prog.Leaves.perform fun _ => List.mem_cons_self ..

theorem createTask_told {new : NewTask} {dto : CreateTaskDto} (asked : op = .createTask p user dto)
    (project : new.projectId = p) (creator : new.createdBy = user) :
    (TasksService.create.unannounced.save p user new).Leaves (fun log x => Told op log x.1) log := by
  refine (answered_leaves _).bind fun log task saved => ?_
  intro e he n hn
  rcases List.mem_cons.mp he with rfl | he
  · cases hn
    exact .created asked saved project creator
  · obtain ⟨q, hq, rfl⟩ := Option.map_eq_some_iff.mp (Option.mem_toList.mp he)
    cases hn
    exact .given asked saved hq

theorem findTask_leaves : (TasksService.findOneOrFail w p t).Leaves
    (fun log x => ⟨.findTask t.uuid p.uuid, .ok (some x)⟩ ∈ log) log := by
  refine (Prog.leaves_true _ _).bind fun log _ _ => ?_
  refine (answered_leaves _).bind fun log a ha => ?_
  cases a with
  | none => trivial
  | some x => exact ha

theorem updateTask_told {dto : UpdateTaskDto} (asked : op = .updateTask p t user dto) :
    (TasksService.update.unannounced w p t user dto).Leaves (fun log x => Told op log x.1) log := by
  refine findTask_leaves.bind fun log x hx => Prog.Leaves.read_bind fun env => ?_
  have leaves : (perform (.saveTask (dto.apply env.now x))).Leaves
      (fun log saved => Changes log x (dto.apply env.now x) saved) log :=
    Prog.Leaves.perform fun saved => ⟨[], log, t.uuid, p.uuid, rfl, hx, rfl⟩
  refine leaves.bind fun log saved change => ?_
  intro e he n hn
  rcases List.mem_append.mp he with he | he
  · -- The assignee of the request is not the one that was read.
    unfold TasksService.update.assigned at he
    split at he
    · next assignee q hdto hq =>
      split at he
      · cases he
      · next hne =>
        obtain rfl := List.mem_singleton.mp he
        cases hn
        refine .assigned asked change (fun heq => hne ?_) hq
        rw [← heq]
        exact (congrArg (Option.getD · x.assigneeId) hdto).symm
    · cases he
  · -- Nor is the status.
    unfold TasksService.update.statusChanged at he
    split at he
    · cases he
    · next status hdto =>
      split at he
      · cases he
      · next hne =>
        have differ : (dto.apply env.now x).status ≠ x.status := fun heq =>
          hne ((congrArg (Option.getD · x.status) hdto).symm.trans heq)
        rcases List.mem_cons.mp he with rfl | he
        · cases hn
          exact .statusChanged asked change differ
        · split at he
          · next hdone =>
            obtain rfl := List.mem_singleton.mp he
            cases hn
            exact .completed asked change differ hdone
          · cases he

theorem createComment_told {dto : CreateCommentDto} {task : Task} {parentAuthor : Option Uuid}
    (asked : op = .createComment p t user dto) :
    (CommentsService.create.unannounced.save t user dto task parentAuthor).Leaves (fun log x => Told op log x.1) log := by
  refine (answered_leaves _).bind fun log m saved => ?_
  intro e he n hn
  rcases List.mem_cons.mp he with rfl | he
  · cases hn
    exact .commented asked saved rfl rfl
  · split at he
    · obtain rfl := List.mem_singleton.mp he
      cases hn
    · cases he

/-- The events that a request has when its work is done, it was told about. -/
theorem unannounced_told (r : Request) : (unannounced r).Leaves (fun log x => Told r.operation log x.1) [] := by
  have wrap : ∀ {α : Type} {q : Service (List DomainEvent × α)} {f : α → Response} {log : List (Said interface)},
      q.Leaves (fun log x => Told r.operation log x.1) log →
        (q.bind fun x => .ret (x.1, f x.2)).Leaves (fun log x => Told r.operation log x.1) log :=
    fun h => h.bind fun _ _ h => h
  have quiet : ∀ q : Service Response, (q.bind fun res => .ret (([] : List DomainEvent), res)).Leaves
      (fun log x => Told r.operation log x.1) [] := fun q =>
    (Prog.leaves_true q []).bind fun _ _ _ e he => absurd he List.not_mem_nil
  obtain ⟨w, operation⟩ := r
  cases operation with
  | createTask p user dto =>
    refine wrap ((Prog.leaves_true _ _).bind fun log _ _ => ?_)
    cases dto.parentTaskId with
    | none => exact createTask_told rfl rfl rfl
    | some q =>
      refine (Prog.leaves_true _ _).bind fun log parent _ => ?_
      cases parent with
      | none => trivial
      | some parent => exact createTask_told rfl rfl rfl
  | updateTask p t actor dto => exact wrap (updateTask_told rfl)
  | createComment p t author dto =>
    refine wrap ((Prog.leaves_true _ _).bind fun log task _ => ?_)
    cases dto.parentCommentId with
    | none => exact createComment_told rfl
    | some q =>
      refine (Prog.leaves_true _ _).bind fun log parent _ => ?_
      cases parent with
      | none => trivial
      | some parent => exact createComment_told rfl
  | _ => exact quiet _

/-! ### What a request records -/

/-- What a request may record. -/
def MayRecord (op : Operation) (log : List (Said interface)) (c : Call) : Prop :=
  ∀ n, c = .insertActivity n → BornOut op log n

theorem emit_makes {e : DomainEvent} (h : ∀ n, e.recorded? = some n → BornOut op log n) :
    (emit e).Makes (MayRecord op) log := by
  refine Prog.Makes.handle ?_ fun _ _ => ?_
  · cases e with
    | commentReplied => trivial
    | taskCreated | taskAssigned | taskStatusChanged | taskCompleted | commentCreated =>
      refine Prog.Makes.perform fun n hn => ?_
      cases hn
      exact h _ rfl
  · trivial

theorem announce_makes {es : List DomainEvent} (h : Told op log es) : (announce es).Makes (MayRecord op) log := by
  induction es generalizing log with
  | nil => trivial
  | cons e es ih =>
    refine (emit_makes (h e (List.mem_cons_self ..))).bind (Prog.Leaves.suffix _ _) fun log' _ hlog => ih fun e' he n hn => ?_
    exact (h e' (List.mem_cons_of_mem _ he) n hn).grow hlog

/-- Before its events a request records nothing. -/
theorem unannounced_silent (r : Request) : (unannounced r).Calls (Call.isRecord · = false) := by
  refine (unannounced_calls r).mono fun c hc => ?_
  cases c with
  | insertActivity => cases r.operation <;> simp [Operation.calls, Operation.writes, Call.reads] at hc
  | _ => rfl

theorem program_records (r : Request) : (program r).Makes (MayRecord r.operation) [] := by
  rw [program_announces]
  refine Prog.Makes.bind ?_ (unannounced_told r) fun log x h => ?_
  · refine (unannounced_silent r).makes fun log c hc n hn => ?_
    subst hn
    cases hc
  · exact (announce_makes h).bind (Prog.leaves_true _ _) fun _ _ _ => trivial

end

/-! ### What the states of a run have shown -/

/-- The call, which the thread made at the moment `n` of the run, led from `s` to `s'`. -/
structure Turned (d : State) (t : Thread interface Request Response) (n : Nat) (op : Call) (s s' : Tables) : Prop where
  called : ∃ e ∈ t.log, e.time = n ∧ e.call = op
  before : d.at? n = some s
  after : d.at? (n + 1) = some s'

/-- A call of the thread, made before the moment `n`, found the task and answered with its row. -/
def Saw (d : State) (t : Thread interface Request Response) (n : Nat) (y : TaskRow) : Prop :=
  ∃ e ∈ t.log, ∃ id p s, e.said = ⟨.findTask id p, .ok (some y.toEntity)⟩ ∧ e.time < n ∧ d.at? e.time = some s ∧ y ∈ s.tasks

/-- What a row of activity tells happened before the moment `k`, by the request of the thread. A row that names an
    assignee by an id in capitals may tell of the one that the task had. -/
inductive Happened (d : State) (t : Thread interface Request Response) (k : Nat) (a : TaskActivity) : Prop
  | created {p : UuidText} {user : Uuid} {dto : CreateTaskDto} {n : Nat} {task : NewTask} {s s' : Tables} {x : TaskRow}
      (lt : n < k) (asked : t.request.operation = .createTask p user dto) (turned : Turned d t n (.insertTask task) s s')
      (new : x.id ∉ s.taskIds) (row : x ∈ s'.tasks) (project : x.projectId = p.uuid) (creator : x.createdBy = user)
      (told : a = ⟨a.id, x.id, some user, .CREATED, [("projectId", .id p)], a.createdAt⟩)
  | given {p q : UuidText} {user : Uuid} {dto : CreateTaskDto} {n : Nat} {task : NewTask} {s s' : Tables} {x : TaskRow}
      (lt : n < k) (asked : t.request.operation = .createTask p user dto) (turned : Turned d t n (.insertTask task) s s')
      (new : x.id ∉ s.taskIds) (row : x ∈ s'.tasks) (assignee : x.assigneeId = some q.uuid)
      (told : a = ⟨a.id, x.id, some user, .ASSIGNED, [("assigneeId", .id q)], a.createdAt⟩)
  | assigned {p u q : UuidText} {user : Uuid} {dto : UpdateTaskDto} {n : Nat} {task : Task} {s s' : Tables} {x y : TaskRow}
      (lt : n < k) (asked : t.request.operation = .updateTask p u user dto) (turned : Turned d t n (.saveTask task) s s')
      (row : x ∈ s'.tasks) (saw : Saw d t n y) (same : task.id = x.id ∧ y.id = x.id) (assignee : x.assigneeId = some q.uuid)
      (differ : q = q.uuid.text → y.assigneeId ≠ x.assigneeId)
      (told : a = ⟨a.id, x.id, some user, .ASSIGNED, [("assigneeId", .id q)], a.createdAt⟩)
  | statusChanged {p u : UuidText} {user : Uuid} {dto : UpdateTaskDto} {n : Nat} {task : Task} {s s' : Tables}
      {x y : TaskRow} (lt : n < k) (asked : t.request.operation = .updateTask p u user dto)
      (turned : Turned d t n (.saveTask task) s s') (row : x ∈ s'.tasks) (saw : Saw d t n y)
      (same : task.id = x.id ∧ y.id = x.id) (differ : y.status ≠ x.status)
      (told : a = ⟨a.id, x.id, some user, .STATUS_CHANGED,
        [("from", .status (some y.status)), ("to", .status (some x.status))], a.createdAt⟩)
  | completed {p u : UuidText} {user : Uuid} {dto : UpdateTaskDto} {n : Nat} {task : Task} {s s' : Tables} {x y : TaskRow}
      (lt : n < k) (asked : t.request.operation = .updateTask p u user dto) (turned : Turned d t n (.saveTask task) s s')
      (row : x ∈ s'.tasks) (saw : Saw d t n y) (same : task.id = x.id ∧ y.id = x.id) (differ : y.status ≠ x.status)
      (done : x.status = .DONE) (told : a = ⟨a.id, x.id, some user, .COMPLETED, [], a.createdAt⟩)
  | commented {p u : UuidText} {user : Uuid} {dto : CreateCommentDto} {n : Nat} {comment : NewComment} {s s' : Tables}
      {m : CommentRow} (lt : n < k) (asked : t.request.operation = .createComment p u user dto)
      (turned : Turned d t n (.insertComment comment) s s') (new : m.id ∉ s.commentIds) (row : m ∈ s'.comments)
      (author : m.authorId = user) (top : m.parentCommentId = none)
      (told : a = ⟨a.id, m.taskId, some user, .COMMENTED, [("commentId", .id m.id.text)], a.createdAt⟩)
  | replied {p u q : UuidText} {user : Uuid} {dto : CreateCommentDto} {n : Nat} {comment : NewComment} {s s' : Tables}
      {m : CommentRow} (lt : n < k) (asked : t.request.operation = .createComment p u user dto)
      (turned : Turned d t n (.insertComment comment) s s') (new : m.id ∉ s.commentIds) (row : m ∈ s'.comments)
      (author : m.authorId = user) (parent : m.parentCommentId = some q.uuid)
      (told : a = ⟨a.id, m.taskId, some user, .REPLIED,
        [("commentId", .id m.id.text), ("parentCommentId", .id q)], a.createdAt⟩)

section
variable {pg : Postgres} {s : Tables} {env : Env} {users workspaces : List Uuid} {generated : Generated} {c d : State}

/-! ### What an answer says of the states before and after it -/

theorem insertTask_answered {n : NewTask} {task : Task} (ha : ((system pg).handler env (.insertTask n) s).1 = .ok task) :
    task = n.saved env ∧ (n.toRow env).id ∉ s.taskIds ∧ n.toRow env ∈ ((system pg).handler env (.insertTask n) s).2.tasks := by
  rcases insertTask_handled pg s n env with ⟨err, h⟩ | ⟨hfresh, -, h⟩
  · rw [h] at ha
    cases ha
  · rw [h] at ha ⊢
    exact ⟨(Except.ok.inj ha).symm, hfresh, List.mem_concat_self⟩

theorem insertComment_answered {n : NewComment} {m : Comment}
    (ha : ((system pg).handler env (.insertComment n) s).1 = .ok m) :
    m = n.saved env ∧ (n.toRow env).id ∉ s.commentIds ∧
      n.toRow env ∈ ((system pg).handler env (.insertComment n) s).2.comments := by
  obtain ⟨_, hfresh, -⟩ := ok_of_bind (commit_made ha)
  refine ⟨commit_ok ha, fresh_ok hfresh, ?_⟩
  exact (congrArg (n.toRow env ∈ Tables.comments ·) (ok_of_checks (commit_made ha))).mpr List.mem_concat_self

/-- The row of a task that was saved. -/
theorem saveTask_answered {x saved : Task} (ha : ((system pg).handler env (.saveTask x) s).1 = .ok saved) :
    saved = x ∧ ∃ r ∈ ((system pg).handler env (.saveTask x) s).2.tasks, r.id = x.id ∧ x.status = some r.status ∧
      r.assigneeId = x.assigneeId.map UuidText.uuid := by
  refine ⟨commit_ok ha, ?_⟩
  obtain ⟨r, hr, h⟩ := ok_of_bind (commit_made ha)
  obtain ⟨_, -, h⟩ := ok_of_bind h
  obtain ⟨-, hstatus, -, hid, -, -, -, hassignee, -⟩ := Task.toRow?_row hr
  have htasks : ((system pg).handler env (.saveTask x) s).2.tasks = upsert TaskRow.id r.over r s.tasks :=
    congrArg Tables.tasks (Except.ok.inj h).symm
  rw [htasks]
  rcases upsert_cases TaskRow.id r.over r s.tasks with ⟨old, hmem, hold, -, heq⟩ | ⟨-, -, heq⟩
  · have hrow := (Table.mem_replace (x := r.over old) ⟨old, hmem, hold⟩).mpr (Or.inl rfl)
    exact ⟨r.over old, heq ▸ hrow, hid, hstatus, hassignee⟩
  · exact ⟨r, heq ▸ List.mem_concat_self, hid, hstatus, hassignee⟩

theorem findTask_answered {id p : Uuid} {x : Task} (ha : ((system pg).handler env (.findTask id p) s).1 = .ok (some x)) :
    ∃ r ∈ s.tasks, x = r.toEntity := by
  obtain ⟨r, hr, rfl⟩ := Option.map_eq_some_iff.mp (Except.ok.inj ha)
  exact ⟨r, (find?_some hr).1, rfl⟩

/-! ### What a thread was told happened -/

variable {t : Thread interface Request Response} {before after : List (Event interface)} {e : Event interface}

/-- The calls after which another one comes in the log were made before it. -/
theorem earlier (hr : (system pg).Reach (fun _ _ => True) (.initial (Tables.start users workspaces generated)) d)
    (ht : t ∈ d.threads) (hlog : t.log = before ++ e :: after) {e' : Event interface} (he' : e' ∈ after) :
    e' ∈ t.log ∧ e'.time < e.time := by
  have hmem : e' ∈ t.log := hlog ▸ List.mem_append_right _ (List.mem_cons_of_mem _ he')
  have hsorted := hlog ▸ hr.sorted t ht
  exact ⟨hmem, (List.pairwise_cons.mp (List.pairwise_append.mp hsorted).2.1).1 e' he'⟩

/-- A call that was answered before turned the tables at its time. -/
theorem answered_turned (hr : (system pg).Reach (fun _ _ => True) (.initial (Tables.start users workspaces generated)) d)
    (ht : t ∈ d.threads) (hlog : t.log = before ++ e :: after) {op : Call} {a : op.Reply}
    (h : ⟨op, .ok a⟩ ∈ after.map Event.said) :
    ∃ n s env, n < e.time ∧ Turned d t n op s ((system pg).handler env op s).2 ∧ ((system pg).handler env op s).1 = .ok a := by
  obtain ⟨e', he', hsaid⟩ := List.mem_map.mp h
  obtain ⟨hmem, hlt⟩ := earlier hr ht hlog he'
  obtain ⟨-, -, s, env, hs, -, ha, hs'⟩ := (hr.recorded t ht e' hmem).answered hsaid
  exact ⟨e'.time, s, env, hlt, ⟨⟨e', hmem, rfl, congrArg (·.1) hsaid⟩, hs, hs'⟩, ha⟩

/-- A task that was read and then saved. -/
theorem changes_turned (hr : (system pg).Reach (fun _ _ => True) (.initial (Tables.start users workspaces generated)) d)
    (ht : t ∈ d.threads) (hlog : t.log = before ++ e :: after) {old new saved : Task}
    (h : Changes (after.map Event.said) old new saved) :
    ∃ n s s' x y, n < e.time ∧ Turned d t n (.saveTask new) s s' ∧ x ∈ s'.tasks ∧ Saw d t n y ∧ y.id = x.id ∧ x.id = saved.id ∧
      saved = new ∧ old = y.toEntity ∧ new.status = some x.status ∧ x.assigneeId = new.assigneeId.map UuidText.uuid := by
  obtain ⟨l₁, l₂, id, p, hsplit, hread, hid⟩ := h
  obtain ⟨a₁, rest, hafter, -, hrest⟩ := List.map_eq_append_iff.mp hsplit
  obtain ⟨e₁, a₂, rfl, hsaid, rfl⟩ := List.map_eq_cons_iff.mp hrest
  -- The save, and the read before it.
  have hlog₁ : t.log = (before ++ e :: a₁) ++ e₁ :: a₂ := by rw [hlog, hafter, List.append_assoc, List.cons_append]
  obtain ⟨hmem₁, hlt₁⟩ := earlier hr ht hlog
    (show e₁ ∈ after from hafter ▸ List.mem_append_right _ (List.mem_cons_self ..))
  obtain ⟨-, -, s, env, hs, -, ha, hs'⟩ := (hr.recorded t ht e₁ hmem₁).answered hsaid
  obtain ⟨rfl, x, hx, hxid, hstatus, hassignee⟩ := saveTask_answered ha
  obtain ⟨e₂, he₂, hsaid₂⟩ := List.mem_map.mp hread
  obtain ⟨hmem₂, hlt₂⟩ := earlier hr ht hlog₁ he₂
  obtain ⟨-, -, s₂, env₂, hs₂, -, ha₂, -⟩ := (hr.recorded t ht e₂ hmem₂).answered hsaid₂
  obtain ⟨y, hy, rfl⟩ := findTask_answered ha₂
  exact ⟨e₁.time, s, _, x, y, hlt₁, ⟨⟨e₁, hmem₁, rfl, congrArg (·.1) hsaid⟩, hs, hs'⟩, hx,
    ⟨e₂, hmem₂, id, p, s₂, hsaid₂, hlt₂, hs₂, hy⟩, hid.symm.trans hxid.symm, hxid, rfl, rfl, hstatus, hassignee⟩

/-- What a thread was told when it records an event, happened. -/
theorem BornOut.happened (hr : (system pg).Reach (fun _ _ => True) (.initial (Tables.start users workspaces generated)) d)
    (ht : t ∈ d.threads) (hlog : t.log = before ++ e :: after) {n : NewActivity}
    (h : BornOut t.request.operation (after.map Event.said) n) (env : Env) : Happened d t e.time (n.toRow env) := by
  cases h with
  | @created p user dto new task asked saved project creator =>
    obtain ⟨m, s, env', hlt, hturned, ha⟩ := answered_turned hr ht hlog saved
    obtain ⟨rfl, hfresh, hrow⟩ := insertTask_answered ha
    exact .created hlt asked hturned hfresh hrow (congrArg UuidText.uuid project) creator rfl
  | @given p q user dto new task asked saved assignee =>
    obtain ⟨m, s, env', hlt, hturned, ha⟩ := answered_turned hr ht hlog saved
    obtain ⟨rfl, hfresh, hrow⟩ := insertTask_answered ha
    have hq : new.assigneeId = some q := assignee
    exact .given hlt asked hturned hfresh hrow (congrArg (Option.map UuidText.uuid) hq) rfl
  | @assigned p u q user dto old new saved asked change differ assignee =>
    obtain ⟨m, s, s', x, y, hlt, hturned, hrow, hsaw, hsame, hid, rfl, rfl, -, hassignee⟩ := changes_turned hr ht hlog change
    rw [assignee] at hassignee differ
    refine .assigned hlt asked hturned hrow hsaw ⟨hid.symm, hsame⟩ hassignee (fun hq heq => differ ?_) (by rw [hid]; rfl)
    rw [hq, TaskRow.toEntity, heq, hassignee]
    rfl
  | @statusChanged p u user dto old new saved asked change differ =>
    obtain ⟨m, s, s', x, y, hlt, hturned, hrow, hsaw, hsame, hid, rfl, rfl, hstatus, -⟩ := changes_turned hr ht hlog change
    rw [hstatus] at differ ⊢
    exact .statusChanged hlt asked hturned hrow hsaw ⟨hid.symm, hsame⟩ (fun heq => differ (congrArg some heq.symm))
      (by rw [hid]; rfl)
  | @completed p u user dto old new saved asked change differ done =>
    obtain ⟨m, s, s', x, y, hlt, hturned, hrow, hsaw, hsame, hid, rfl, rfl, hstatus, -⟩ := changes_turned hr ht hlog change
    rw [hstatus] at differ done
    exact .completed hlt asked hturned hrow hsaw ⟨hid.symm, hsame⟩ (fun heq => differ (congrArg some heq.symm))
      (Option.some.inj done) (by rw [hid]; rfl)
  | @commented p u user dto new comment asked saved task author =>
    obtain ⟨m, s, env', hlt, hturned, ha⟩ := answered_turned hr ht hlog saved
    obtain ⟨rfl, hfresh, hrow⟩ := insertComment_answered ha
    subst task
    cases hp : new.parentCommentId with
    | none =>
      refine .commented hlt asked hturned hfresh hrow author (congrArg (Option.map UuidText.uuid) hp) ?_
      simp only [NewComment.saved, hp]
      rfl
    | some q =>
      refine .replied hlt asked hturned hfresh hrow author (congrArg (Option.map UuidText.uuid) hp) ?_
      simp only [NewComment.saved, hp]
      rfl

/-! ### Who wrote a row -/

/-- A row of activity that a call leaves was there before, or the call wrote it. -/
theorem Write.activity {s' : Tables} {op : Call} (w : Write s env op s') {a : TaskActivity} (ha : a ∈ s'.activity) :
    a ∈ s.activity ∨ a ∉ s.activity ∧ ∃ n, op = .insertActivity n ∧ a = n.toRow env := by
  cases w with
  | same | projectAdded | projectSet | taskAdded | taskSet | commentAdded | commentSet | commentRemoved => exact Or.inl ha
  | projectRemoved | taskRemoved => exact Or.inl (Tables.mem_deleteTasks_activity.mp ha).1
  | @activityAdded n call fresh task =>
    rcases List.mem_append.mp ha with ha | ha
    · exact Or.inl ha
    · obtain rfl := List.mem_singleton.mp ha
      exact Or.inr ⟨fun hold => fresh (List.mem_map_of_mem hold), n, call, rfl⟩

/-- A call of a thread wrote the row. -/
def Wrote (d : State) (t : Thread interface Request Response) (a : TaskActivity) : Prop :=
  ∃ e ∈ t.log, ∃ n env s s', e.call = .insertActivity n ∧ a = n.toRow env ∧ d.at? e.time = some s ∧
    d.at? (e.time + 1) = some s' ∧ a ∉ s.activity ∧ a ∈ s'.activity

theorem Wrote.step {m : Move interface Request} (hs : (system pg).step c m = some d) {a : TaskActivity}
    (h : ∃ t ∈ c.threads, Wrote c t a) : ∃ t ∈ d.threads, Wrote d t a := by
  obtain ⟨t, ht, e, he, n, env, s, s', hcall, ha, hbefore, hafter, hnew, hrow⟩ := h
  obtain ⟨t', ht', -, -, hlog⟩ := System.step_keeps_thread hs ht
  exact ⟨t', ht', e, hlog he, n, env, s, s', hcall, ha, System.step_at? hs hbefore, System.step_at? hs hafter, hnew, hrow⟩

theorem written (hr : (system pg).Reach (fun _ _ => True) (.initial (Tables.start users workspaces generated)) d) :
    ∀ a ∈ d.shared.activity, ∃ t ∈ d.threads, Wrote d t a := by
  refine hr.invariant (P := fun d => ∀ a ∈ d.shared.activity, ∃ t ∈ d.threads, Wrote d t a)
    (fun _ ha => absurd ha List.not_mem_nil) ?_
  intro c d m ih _ hs a ha
  have old : a ∈ c.shared.activity → ∃ t ∈ d.threads, Wrote d t a := fun ha => Wrote.step hs (ih a ha)
  have hbefore : d.at? c.time = some c.shared := System.step_at? hs (System.at?_time c)
  have hafter : d.at? (c.time + 1) = some d.shared := System.step_time hs ▸ System.at?_time d
  cases m with
  | start r env =>
    obtain ⟨-, rfl⟩ := System.step_start hs
    exact old ha
  | kill i =>
    obtain ⟨t, op, next, -, -, rfl⟩ := System.step_kill hs
    exact old ha
  | call i fate env =>
    obtain ⟨t, op, next, ht, hnext, -, rfl⟩ := System.step_call hs
    cases fate with
    | failed => exact old ha
    | answered | lost =>
      rcases (exec_write pg (c.shared.spend env) env op).activity ha with hold | ⟨hnew, n, rfl, hrow⟩
      · exact old hold
      · refine ⟨_, List.mem_of_getElem? (List.getElem?_set_self (List.getElem?_eq_some_iff.mp ht).1), _,
          List.mem_cons_self .., n, env, c.shared, _, rfl, hrow, hbefore, hafter, hnew, ha⟩

end

/-- In every run, a row of activity was written by a request of the user it names, and what it tells happened before: a
    call of that request had added the task or the comment with what the row says of it, or had saved the task, which a
    call of the request had found with another status, or with another assignee if the row names him as Postgres does. -/
theorem activity_happened (pg : Postgres) (users workspaces : List Uuid) (generated : Generated) (d : State)
    (hr : (system pg).Reach (fun _ _ => True) (.initial (Tables.start users workspaces generated)) d) :
    ∀ a ∈ d.shared.activity, ∃ t ∈ d.threads, ∃ k n s s', Turned d t k (.insertActivity n) s s' ∧ a ∉ s.activity ∧
      a ∈ s'.activity ∧ Happened d t k a := by
  intro a ha
  obtain ⟨t, ht, e, he, n, env, s, s', hcall, hrow, hbefore, hafter, hnew, hmem⟩ := written hr a ha
  obtain ⟨before, after, hlog⟩ := List.append_of_mem he
  have hallowed := (hr.makes program_records t ht).2
  rw [hlog] at hallowed
  refine ⟨t, ht, e.time, n, s, s', ⟨⟨e, he, rfl, hcall⟩, hbefore, hafter⟩, hnew, hmem, ?_⟩
  rw [hrow]
  exact (hallowed.split n hcall).happened hr ht hlog env

/-- A task is created and then completed, while somebody else deletes it and it comes back. -/
def completedAway : List (Move interface Request) :=
  renameAndRemove.take 6 ++
  [.start ⟨Uuid.text 1, .updateTask (Uuid.text 102) (Uuid.text 105) 9 { status := some (some .DONE) }⟩ (envAt 8),
   .call 2 .answered (envAt 9), .call 2 .answered (envAt 10),
   .start ⟨Uuid.text 1, .removeTask (Uuid.text 102) (Uuid.text 105)⟩ (envAt 11), .call 3 .answered (envAt 12),
   .call 3 .answered (envAt 13), .call 3 .answered (envAt 14), .call 2 .answered (envAt 15), .call 2 .answered (envAt 16),
   .call 2 .answered (envAt 17)]

/-- The trail of the task that came back tells what was made of it. -/
theorem activity_happened_completed : ∃ d : State,
    (system .strict).Reach (fun _ _ => True) (.initial (Tables.start [9] [1] ⟨[], []⟩)) d ∧
      ∃ a ∈ d.shared.activity, a.action = .COMPLETED ∧ ∃ t ∈ d.threads, ∃ k, Happened d t k a := by
  have hrun : ∃ d : State, (system .strict).Reach (fun _ _ => True) (.initial (Tables.start [9] [1] ⟨[], []⟩)) d ∧
      ∃ a ∈ d.shared.activity, a.action = .COMPLETED := System.reach_exists completedAway (by decide +kernel)
  obtain ⟨d, hd, a, ha, haction⟩ := hrun
  obtain ⟨t, ht, k, -, -, -, -, -, -, happened⟩ := activity_happened .strict [9] [1] ⟨[], []⟩ d hd a ha
  exact ⟨d, hd, a, ha, haction, t, ht, k, happened⟩

end TaskPlatform.Board

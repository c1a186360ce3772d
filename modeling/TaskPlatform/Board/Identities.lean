import TaskPlatform.Board.Finality
import TaskPlatform.Board.History

/-! Every request writes back what it has read of the identity of a row; so, whatever the others do in between, a row
    stays what it is, and replies never run in a circle. -/

namespace TaskPlatform.Board
open Effects Relation

namespace History

section
variable {k : History} {c : Call} {w p t : UuidText} {α : Type} {Q : History → α → Prop}

/-- The rule of a call with what follows it. -/
theorem call_meets {f : c.Reply → Service α} (hpre : k.pre c)
    (next : ∀ k', k ≤ k' → ∀ a, k'.post c a → (f a).Meets identities Q k') :
    ((perform c).bind f).Meets identities Q k :=
  Prog.Meets.perform_bind hpre (fun _ _ h => congrArg f h) next

theorem last_meets (hpre : k.pre c) : (perform c).Meets identities (fun _ _ => True) k :=
  Prog.Meets.perform hpre (fun _ _ h => h) fun _ _ _ _ => trivial

theorem emit_meets (e : DomainEvent) : (emit e).Meets identities (fun _ _ => True) k := by
  refine Prog.Meets.handle ?_ fun _ _ _ => trivial
  cases e with
  | commentReplied => trivial
  | taskCreated | taskAssigned | taskStatusChanged | taskCompleted | commentCreated => exact last_meets trivial

theorem findProject_meets : (ProjectsService.findOneOrFail w p).Meets identities (fun k x => k.Knows x.identity) k :=
  call_meets trivial fun _ _ a ha => by
    cases a with
    | none => trivial
    | some x => exact ha

theorem findTask_meets : (TasksService.findOneOrFail w p t).Meets identities (fun k x => k.Knows x.identity) k :=
  findProject_meets.bind fun _ _ _ _ => call_meets trivial fun _ _ a ha => by
    cases a with
    | none => trivial
    | some x => exact ha

theorem findComment_meets {m : UuidText} :
    (CommentsService.findOneOrFail w p t m).Meets identities (fun k x => k.Knows x.identity) k :=
  findTask_meets.bind fun _ _ _ _ => call_meets trivial fun _ _ a ha => by
    cases a with
    | none => trivial
    | some x => exact ha.1

/-! ### Each service -/

theorem finishTask_meets (user : Uuid) (new : NewTask) :
    (TasksService.create.finish p user new).Meets identities (fun _ _ => True) k := by
  refine call_meets trivial fun _ _ task _ => (emit_meets _).bind fun _ _ _ _ => ?_
  cases task.assigneeId with
  | none => trivial
  | some a => exact (emit_meets _).bind fun _ _ _ _ => trivial

theorem createTask_meets (user : Uuid) (dto : CreateTaskDto) :
    (TasksService.create w p user dto).Meets identities (fun _ _ => True) k := by
  refine findProject_meets.bind fun _ _ _ _ => ?_
  cases dto.parentTaskId with
  | none => exact finishTask_meets _ _
  | some q =>
    refine call_meets trivial fun _ _ a _ => ?_
    cases a with
    | none => trivial
    | some parent => exact finishTask_meets _ _

theorem emitStatus_meets {actor : Uuid} {dto : UpdateTaskDto} {status : Option TaskStatus} {saved : Task} :
    (TasksService.update.emitStatus actor dto status saved).Meets identities (fun _ _ => True) k := by
  unfold TasksService.update.emitStatus
  split
  · trivial
  · split
    · trivial
    · refine (emit_meets _).bind fun _ _ _ _ => ?_
      split
      · exact emit_meets _
      · trivial

/-- A patch leaves the identity of the task as it is. -/
theorem updateTask_meets (actor : Uuid) (dto : UpdateTaskDto) :
    (TasksService.update w p t actor dto).Meets identities (fun _ _ => True) k := by
  refine findTask_meets.bind fun k₁ _ x hx => fun env => ?_
  refine call_meets (c := .saveTask (dto.apply env.now x)) hx fun k₂ _ saved _ => ?_
  refine Prog.Meets.bind (Q := fun _ _ => True) ?_ fun _ _ _ _ => emitStatus_meets.bind fun _ _ _ _ => trivial
  unfold TasksService.update.emitAssigned
  split
  · split
    · trivial
    · exact emit_meets _
  · trivial

theorem moveTask_meets (newParentId : Option UuidText) :
    (TasksService.moveTask w p t newParentId).Meets identities (fun _ _ => True) k := by
  refine findTask_meets.bind fun k₁ _ x hx => ?_
  cases newParentId with
  | none => exact last_meets hx
  | some q =>
    simp only [Prog.bind_eq]
    split
    · trivial
    refine call_meets trivial fun k₂ hk₂ a _ => ?_
    cases a with
    | none => trivial
    | some parent =>
      refine call_meets trivial fun k₃ hk₃ rows _ => ?_
      split
      · trivial
      · refine call_meets trivial fun k₄ hk₄ depth _ => ?_
        split
        · trivial
        · exact last_meets (hx.grow (le_trans hk₂ (le_trans hk₃ hk₄)))

theorem finishComment_meets {user : Uuid} {dto : CreateCommentDto} {task : Task} {parentAuthor : Option Uuid}
    (hparent : ∀ q ∈ dto.parentCommentId, k.HasComment t.uuid q.uuid) :
    (CommentsService.create.finish t user dto task parentAuthor).Meets identities (fun _ _ => True) k := by
  refine call_meets hparent fun _ _ m _ => (emit_meets _).bind fun _ _ _ _ => ?_
  split
  · exact (emit_meets _).bind fun _ _ _ _ => trivial
  · trivial

theorem createComment_meets (user : Uuid) (dto : CreateCommentDto) :
    (CommentsService.create w p t user dto).Meets identities (fun _ _ => True) k := by
  refine findTask_meets.bind fun k₁ _ x _ => ?_
  cases hd : dto.parentCommentId with
  | none => exact finishComment_meets (by simp [hd])
  | some q =>
    refine call_meets trivial fun k₂ _ a ha => ?_
    cases a with
    | none => trivial
    | some parent =>
      refine finishComment_meets fun q' hq' => ?_
      cases hd.symm.trans hq'
      exact ha.2

theorem updateComment_meets {m : UuidText} (actor : Uuid) (body : String) :
    (CommentsService.update w p t m actor body).Meets identities (fun _ _ => True) k := by
  refine findComment_meets.bind fun _ _ x hx => ?_
  simp only [Prog.bind_eq]
  split
  · trivial
  · exact fun env => last_meets (c := .saveComment { x with body := body, editedAt := some env.now }) hx

theorem updateProject_meets (dto : UpdateProjectDto) :
    (ProjectsService.update w p dto).Meets identities (fun _ _ => True) k :=
  findProject_meets.bind fun _ _ _ hx => last_meets hx

theorem removeProject_meets : (ProjectsService.remove w p).Meets identities (fun _ _ => True) k :=
  findProject_meets.bind fun _ _ _ _ => last_meets trivial

theorem removeTask_meets : (TasksService.remove w p t).Meets identities (fun _ _ => True) k :=
  findTask_meets.bind fun _ _ _ _ => last_meets trivial

theorem removeComment_meets {m : UuidText} (actor : Uuid) (role : Option WorkspaceRole) :
    (CommentsService.remove w p t m actor role).Meets identities (fun _ _ => True) k := by
  refine findComment_meets.bind fun _ _ x _ => ?_
  split
  · trivial
  · exact last_meets trivial

/-- Every request keeps the contract. -/
theorem program_meets (r : Request) (k : History) : (program r).Meets identities (fun _ _ => True) k := by
  have wrap : ∀ {α : Type} {p : Service α} {f : α → Response} {Q : History → α → Prop}, p.Meets identities Q k →
      (p.bind fun a => .ret (f a)).Meets identities (fun _ _ => True) k := fun h => h.bind fun _ _ _ _ => trivial
  -- A list after the project or the task of the request.
  have list : ∀ {α β : Type} {p : Service α} {Q : History → α → Prop} {c : Call} {f : c.Reply → β} {g : β → Response},
      p.Meets identities Q k → (∀ k, pre k c) → ((p.bind fun _ => (perform c).bind fun rows => .ret (f rows)).bind
        fun a => .ret (g a)).Meets identities (fun _ _ => True) k := fun h hpre =>
    wrap (Q := fun _ _ => True) (h.bind fun k' _ _ _ => call_meets (hpre k') fun _ _ _ _ => trivial)
  obtain ⟨w, operation⟩ := r
  cases operation with
  | createProject user dto => exact wrap (last_meets trivial)
  | listProjects q => exact wrap (call_meets (Q := fun _ _ => True) trivial fun _ _ _ _ => trivial)
  | getProject p => exact wrap findProject_meets
  | updateProject p dto => exact wrap (updateProject_meets dto)
  | removeProject p => exact wrap removeProject_meets
  | createTask p user dto => exact wrap (createTask_meets user dto)
  | listTasks p q => exact list findProject_meets fun _ => trivial
  | getTask p t => exact wrap findTask_meets
  | updateTask p t actor dto => exact wrap (updateTask_meets actor dto)
  | removeTask p t => exact wrap removeTask_meets
  | getSubtree p t => exact list findTask_meets fun _ => trivial
  | moveTask p t parent => exact wrap (moveTask_meets parent)
  | createComment p t author dto => exact wrap (createComment_meets author dto)
  | listComments p t q => exact list findTask_meets fun _ => trivial
  | getComment p t c => exact wrap findComment_meets
  | updateComment p t c actor body => exact wrap (updateComment_meets actor body)
  | removeComment p t c actor role => exact wrap (removeComment_meets actor role)
  | listActivity p t q => exact list findTask_meets fun _ => trivial

end

theorem start_fits (users workspaces : List Uuid) (generated : Generated) :
    History.Fits (Tables.start users workspaces generated).everyRow (Tables.start users workspaces generated) := by
  have none : ∀ x, x ∉ (Tables.start users workspaces generated).everyRow := fun x hx => by
    cases x <;> exact absurd hx List.not_mem_nil
  exact {
    wellFormed := (TaskPlatform.Board.start_fits users workspaces generated).wellFormed
    shown := Set.Subset.refl _
    spent := fun x hx => absurd hx (none x)
    one := fun x hx => absurd hx (none x)
    parents := fun m hm => absurd hm (none _)
    acyclic := fun a h => by
      obtain ⟨_, ⟨m, hm, -⟩, -⟩ := TransGen.head'_iff.mp h
      exact none _ hm }

end History

section
variable (pg : Postgres) (users workspaces : List Uuid) (generated : Generated) (c d : State)

/-- The rows that the states of a run have shown fit the last one. -/
theorem reach_history (hr : (system pg).Reach (fun _ _ => True) (.initial (Tables.start users workspaces generated)) d) :
    History.Fits (d.shown Tables.everyRow) d.shared :=
  ((History.shows pg).reach History.program_meets (History.start_fits users workspaces generated) hr).1

/-- In every run, a row that has an id has the identity of every row that has had the id before, though it may have been
    deleted and added again meanwhile, or saved as somebody loaded it long ago. -/
theorem identity_kept (hc : (system pg).Reach (fun _ _ => True) (.initial (Tables.start users workspaces generated)) c)
    (hd : (system pg).Reach (fun _ _ => True) c d) :
    ∀ x ∈ c.shared.everyRow, ∀ y ∈ d.shared.everyRow, y.id = x.id → y.identity = x.identity := fun x hx y hy hid =>
  (reach_history pg users workspaces generated d (hc.trans hd)).one y (System.shared_shown d hy) x
    (System.shown_mono hd (System.shared_shown c hx)) hid

/-- A task is added again after it was deleted, as the task that it was. -/
theorem identity_kept_returned : ∃ c d : State,
    (system .strict).Reach (fun _ _ => True) (.initial (Tables.start [9] [1] ⟨[], []⟩)) c ∧
      (system .strict).Reach (fun _ _ => True) c d ∧ ∃ x ∈ c.shared.tasks, ∃ y ∈ d.shared.tasks,
        y.title ≠ x.title ∧ (Row.task y).identity = (Row.task x).identity := by
  have hrun : ∃ c : State,
      (system .strict).Reach (fun _ _ => True) (.initial (Tables.start [9] [1] ⟨[], []⟩)) c ∧
      ∃ d ∈ (system .strict).run (fun _ _ => True) c (renameAndRemove.drop 9 ++ [.call 2 .answered (envAt 14)]),
        ∃ x ∈ c.shared.tasks, ∃ y ∈ d.shared.tasks, y.id = x.id ∧ y.title ≠ x.title :=
    System.reach_exists (renameAndRemove.take 9) (by decide +kernel)
  obtain ⟨c, hc, d, hd, x, hx, y, hy, hid, htitle⟩ := hrun
  have hd := System.reach_of_run _ hd
  exact ⟨c, d, hc, hd, x, hx, y, hy, htitle, identity_kept .strict [9] [1] ⟨[], []⟩ c d hc hd (.task x) hx (.task y) hy hid⟩

end

/-! ### Threads -/

/-- The comment `a` is a reply to the comment `b`. -/
def Tables.Replies (s : Tables) (a b : Uuid) : Prop := ∃ m ∈ s.comments, m.id = a ∧ m.parentCommentId = some b

section
variable {k : History} {s : Tables}

/-- The comment above a reply is on its task. -/
theorem History.Fits.parent (h : k.Fits s) {m : CommentRow} {p : Uuid} (hm : m ∈ s.comments)
    (hp : m.parentCommentId = some p) : ∃ q ∈ s.comments, q.id = p ∧ q.taskId = m.taskId := by
  obtain ⟨q, hq, rfl⟩ := List.mem_map.mp (h.wellFormed.commentParent m hm p hp)
  obtain ⟨o, ho, hid, htask⟩ := h.parents m (h.shown (a := .comment m) hm) q.id hp
  have heq := h.one (.comment q) (h.shown (a := .comment q) hq) (.comment o) ho hid.symm
  exact ⟨q, hq, rfl, (Identity.comment.inj heq).2.1.trans htask⟩

/-- So are all the comments above it. -/
theorem History.Fits.above (h : k.Fits s) {m : CommentRow} (hm : m ∈ s.comments) {b : Uuid}
    (path : ReflTransGen s.Replies m.id b) : ∃ x ∈ s.comments, x.id = b ∧ x.taskId = m.taskId := by
  induction path with
  | refl => exact ⟨m, hm, rfl, rfl⟩
  | tail _ hbc ih =>
    obtain ⟨x, hx, hid, htask⟩ := ih
    obtain ⟨y, hy, hyid, hp⟩ := hbc
    obtain rfl := Table.eq_of_key h.wellFormed.comments hx hy (hid.trans hyid.symm)
    obtain ⟨q, hq, hqid, hqtask⟩ := h.parent hx hp
    exact ⟨q, hq, hqid, hqtask.trans htask⟩

theorem History.Fits.replies_acyclic (h : k.Fits s) : Links.Acyclic s.Replies :=
  h.acyclic.mono fun _ _ ⟨m, hm, hid, hp⟩ => ⟨m, h.shown (a := .comment m) hm, hid, hp⟩

end

/-- In every run, replies run in no circle: every comment leads up to one that is no reply, and all the comments on the
    way are on its task. -/
theorem replies_form_forest (pg : Postgres) (users workspaces : List Uuid) (generated : Generated) (d : State)
    (hr : (system pg).Reach (fun _ _ => True) (.initial (Tables.start users workspaces generated)) d) :
    Links.Acyclic d.shared.Replies ∧ ∀ m ∈ d.shared.comments,
      (∃ top ∈ d.shared.comments, top.parentCommentId = none ∧ ReflTransGen d.shared.Replies m.id top.id) ∧
        ∀ x ∈ d.shared.comments, ReflTransGen d.shared.Replies m.id x.id → x.taskId = m.taskId := by
  have h := reach_history pg users workspaces generated d hr
  refine ⟨h.replies_acyclic, fun m hm => ⟨?_, fun x hx path => ?_⟩⟩
  · have leads : ∀ a ∈ d.shared.commentIds, (∃ x ∈ d.shared.comments, x.id = a ∧ x.parentCommentId = none) ∨
        ∃ b ∈ d.shared.commentIds, d.shared.Replies a b := by
      intro a ha
      obtain ⟨x, hx, rfl⟩ := List.mem_map.mp ha
      cases hp : x.parentCommentId with
      | none => exact Or.inl ⟨x, hx, rfl, hp⟩
      | some p => exact Or.inr ⟨p, h.wellFormed.commentParent x hx p hp, x, hx, rfl, hp⟩
    obtain ⟨_, -, ⟨top, htop, rfl, hnone⟩, path⟩ := h.replies_acyclic.exists_top leads (List.mem_map_of_mem hm)
    exact ⟨top, htop, hnone, path⟩
  · obtain ⟨y, hy, hid, htask⟩ := h.above hm path
    exact Table.eq_of_key h.wellFormed.comments hy hx hid ▸ htask

/-- A comment with a reply to it, which its author edits. -/
def repliedTo : List (Move interface Request) :=
  renameAndRemove.take 6 ++
  [.start ⟨Uuid.text 1, .createComment (Uuid.text 102) (Uuid.text 105) 9 { body := "Done?" }⟩ (envAt 7),
   .call 2 .answered (envAt 8), .call 2 .answered (envAt 9), .call 2 .answered (envAt 10), .call 2 .answered (envAt 11),
   .start ⟨Uuid.text 1, .createComment (Uuid.text 102) (Uuid.text 105) 9 ⟨"Yes", some (Uuid.text 110)⟩⟩ (envAt 12),
   .call 3 .answered (envAt 13), .call 3 .answered (envAt 14), .call 3 .answered (envAt 15), .call 3 .answered (envAt 16),
   .call 3 .answered (envAt 17)]

theorem replies_form_forest_reply : ∃ d : State,
    (system .strict).Reach (fun _ _ => True) (.initial (Tables.start [9] [1] ⟨[], []⟩)) d ∧
      ∃ m ∈ d.shared.comments, m.parentCommentId = some 110 ∧
        ∃ top ∈ d.shared.comments, top.parentCommentId = none ∧ ReflTransGen d.shared.Replies m.id top.id := by
  have hrun : ∃ d : State, (system .strict).Reach (fun _ _ => True) (.initial (Tables.start [9] [1] ⟨[], []⟩)) d ∧
      ∃ m ∈ d.shared.comments, m.parentCommentId = some 110 := System.reach_exists repliedTo (by decide +kernel)
  obtain ⟨d, hd, m, hm, hp⟩ := hrun
  exact ⟨d, hd, m, hm, hp, ((replies_form_forest .strict [9] [1] ⟨[], []⟩ d hd).2 m hm).1⟩

end TaskPlatform.Board

import TaskPlatform.Board.Knowledge

/-! Every request of the board keeps its contract: it makes a call only where it knows what the call presupposes,
    and the order of the rows that a query leaves open makes no difference to it. -/

namespace TaskPlatform.Board
open Effects

section
variable {r : Request} {k : Knowledge} {w p t : UuidText} {α : Type} {Q : Knowledge → α → Prop}

/-- The task of an event. -/
def DomainEvent.task : DomainEvent → Uuid
  | taskCreated t _ _ | taskAssigned t _ _ | taskStatusChanged t _ _ _ | taskCompleted t _ _ | commentCreated _ t _ _ _
  | commentReplied _ t _ _ _ => t.uuid

/-- What is known of a project that was found. -/
theorem findProject_meets (hw : r.workspaceId = w) :
    (ProjectsService.findOneOrFail w p).Meets (contract r)
      (fun k x => x.id = p.uuid ∧ x.workspaceId.uuid = w.uuid ∧ .project p.uuid w.uuid ∈ k) k := by
  refine Prog.Meets.perform_bind (congrArg UuidText.uuid hw.symm) (fun a a' h => by rw [show a = a' from h])
    fun k' _ a ha => ?_
  cases a with
  | none => trivial
  | some x => exact ha

/-- What is known of a task that was found. -/
def Knowledge.Found (k : Knowledge) (w p t : Uuid) (x : Task) : Prop :=
  x.id = t ∧ x.projectId.uuid = p ∧ .project p w ∈ k ∧ .task t p ∈ k ∧ ∀ q ∈ x.parentTaskId, .task q.uuid p ∈ k

theorem findTask_meets (hw : r.workspaceId = w) :
    (TasksService.findOneOrFail w p t).Meets (contract r) (fun k x => k.Found w.uuid p.uuid t.uuid x) k := by
  refine (findProject_meets hw).bind fun k' _ x ⟨_, _, hproject⟩ => ?_
  refine Prog.Meets.perform_bind (show .project p.uuid r.workspaceId.uuid ∈ k' from hw ▸ hproject)
    (fun a a' h => by rw [show a = a' from h]) fun k'' hk a ha => ?_
  cases a with
  | none => trivial
  | some x => exact ⟨ha.1, ha.2.1, hk hproject, ha.2.2.1, ha.2.2.2⟩

theorem Knowledge.Found.hasTask {x : Task} (h : k.Found w.uuid p.uuid t.uuid x) : k.HasTask w.uuid t.uuid :=
  ⟨p.uuid, h.2.2.1, h.2.2.2.1⟩

/-- The rule of a call whose reply the request goes on with. -/
theorem call_meets {c : Call} {f : c.Reply → Service α} (hc : alike c = fun a a' => a = a') (pre : r.pre k c)
    (next : ∀ k', k ≤ k' → ∀ a, k'.post c a → (f a).Meets (contract r) Q k') :
    ((perform c).bind f).Meets (contract r) Q k :=
  Prog.Meets.perform_bind pre (fun a a' h => congrArg f ((congrFun (congrFun hc a) a').mp h)) next

theorem last_meets {c : Call} (hc : alike c = fun a a' => a = a') (pre : r.pre k c) :
    (perform c).Meets (contract r) (fun _ _ => True) k :=
  Prog.Meets.perform pre (fun a a' h => (congrFun (congrFun hc a) a').mp h) fun _ _ _ _ => trivial

theorem emit_meets {e : DomainEvent} (h : k.HasTask r.workspaceId.uuid e.task) :
    (emit e).Meets (contract r) (fun _ _ => True) k := by
  refine Prog.Meets.handle ?_ fun _ _ _ => trivial
  cases e with
  | commentReplied => trivial
  | taskCreated | taskAssigned | taskStatusChanged | taskCompleted | commentCreated => exact last_meets rfl h

/-! ### Each service -/

theorem updateProject_meets (hw : r.workspaceId = w) (dto : UpdateProjectDto) :
    (ProjectsService.update w p dto).Meets (contract r) (fun _ _ => True) k := by
  refine (findProject_meets hw).bind fun k' _ x ⟨hid, hproject, hfact⟩ => last_meets rfl ?_
  subst hw
  exact ⟨hproject, hid ▸ hfact⟩

theorem removeProject_meets (hw : r.workspaceId = w) :
    (ProjectsService.remove w p).Meets (contract r) (fun _ _ => True) k := by
  refine (findProject_meets hw).bind fun k' _ x ⟨hid, _, hfact⟩ => last_meets rfl ?_
  subst hw
  exact hid ▸ hfact

theorem listTasks_meets (hw : r.workspaceId = w) (query : ListTasksQueryDto) :
    (TasksService.list w p query).Meets (contract r) (fun _ _ => True) k := by
  refine (findProject_meets hw).bind fun k' _ x ⟨_, _, hfact⟩ => call_meets rfl ?_ fun _ _ _ _ => trivial
  subst hw
  exact hfact

theorem finishTask_meets {new : NewTask} {createdBy : Uuid} (hw : r.workspaceId = w)
    (hproject : .project new.projectId.uuid w.uuid ∈ k)
    (hparent : ∀ q ∈ new.parentTaskId, .task q.uuid new.projectId.uuid ∈ k) :
    (TasksService.create.finish p createdBy new).Meets (contract r) (fun _ _ => True) k := by
  subst hw
  refine call_meets rfl ⟨hproject, hparent⟩ fun k' hk task htask => ?_
  have htask : k'.HasTask r.workspaceId.uuid task.id := ⟨_, hk hproject, htask⟩
  refine (emit_meets htask).bind fun k'' hk' _ _ => ?_
  cases task.assigneeId with
  | none => trivial
  | some a => exact (emit_meets (htask.grow hk')).bind fun _ _ _ _ => trivial

theorem createTask_meets (hw : r.workspaceId = w) (createdBy : Uuid) (dto : CreateTaskDto) :
    (TasksService.create w p createdBy dto).Meets (contract r) (fun _ _ => True) k := by
  refine (findProject_meets hw).bind fun k' _ x ⟨_, _, hfact⟩ => ?_
  cases hd : dto.parentTaskId with
  | none => exact finishTask_meets hw hfact nofun
  | some q =>
    refine call_meets rfl (show .project p.uuid r.workspaceId.uuid ∈ k' from hw ▸ hfact) fun k'' hk a ha => ?_
    cases a with
    | none => trivial
    | some parent => exact finishTask_meets hw (hk hfact) fun q' hq' => by cases hq'; exact ha.2.2.1

theorem updateTask_meets (hw : r.workspaceId = w) (actorId : Uuid) (dto : UpdateTaskDto) :
    (TasksService.update w p t actorId dto).Meets (contract r) (fun _ _ => True) k := by
  refine (findTask_meets hw).bind fun k₁ _ x hx => ?_
  refine fun env => call_meets rfl ?_ fun k₂ hk₂ saved hsaved => ?_
  · subst hw
    obtain ⟨hid, hproject, hfact, htask, hparent⟩ := hx
    exact ⟨hproject ▸ hfact, hproject ▸ hid ▸ htask, fun q hq => hproject ▸ hparent q hq⟩
  · have htask : ∀ {k₃}, k₂ ≤ k₃ → k₃.HasTask r.workspaceId.uuid saved.id := fun hk₃ => by
      subst hw
      rw [show saved = dto.apply env.now x from hsaved, show (dto.apply env.now x).id = x.id from rfl, hx.1]
      exact hx.hasTask.grow (le_trans hk₂ hk₃)
    have hassigned : (TasksService.update.emitAssigned actorId dto x.assigneeId saved).Meets (contract r)
        (fun _ _ => True) k₂ := by
      unfold TasksService.update.emitAssigned
      split
      · split
        · trivial
        · exact emit_meets (htask (le_refl k₂))
      · trivial
    refine hassigned.bind fun k₃ hk₃ _ _ => Prog.Meets.bind (Q := fun _ _ => True) ?_ fun _ _ _ _ => trivial
    unfold TasksService.update.emitStatus
    split
    · trivial
    · split
      · trivial
      · refine (emit_meets (htask hk₃)).bind fun k₄ hk₄ _ _ => ?_
        split
        · exact emit_meets (htask (le_trans hk₃ hk₄))
        · trivial

theorem removeTask_meets (hw : r.workspaceId = w) :
    (TasksService.remove w p t).Meets (contract r) (fun _ _ => True) k := by
  refine (findTask_meets hw).bind fun k' _ x hx => last_meets rfl ?_
  subst hw
  exact show k'.HasTask _ x.id from hx.1 ▸ hx.hasTask

theorem getSubtree_meets (hw : r.workspaceId = w) :
    (TasksService.getSubtree w p t).Meets (contract r) (fun _ _ => True) k := by
  refine (findTask_meets hw).bind fun k' _ x hx => call_meets rfl ?_ fun _ _ _ _ => trivial
  subst hw
  exact hx.2.2.1

theorem moveTask_meets (hw : r.workspaceId = w) (newParentId : Option UuidText) :
    (TasksService.moveTask w p t newParentId).Meets (contract r) (fun _ _ => True) k := by
  refine (findTask_meets hw).bind fun k₁ _ x hx => ?_
  subst hw
  have hsave : ∀ {k₂}, k₁ ≤ k₂ → ∀ parent : Option UuidText, (∀ q ∈ parent, .task q.uuid p.uuid ∈ k₂) →
      r.pre k₂ (.saveTask { x with parentTaskId := parent }) := fun hk parent hparent => by
    obtain ⟨hid, hproject, hfact, htask, -⟩ := hx
    exact ⟨hk (hproject ▸ hfact), hk (hproject ▸ hid ▸ htask), fun q hq => hproject ▸ hparent q hq⟩
  cases newParentId with
  | none => exact last_meets rfl (hsave (le_refl k₁) none nofun)
  | some q =>
    simp only [Prog.bind_eq]
    split
    · trivial
    refine call_meets rfl hx.2.2.1 fun k₂ hk₂ a ha => ?_
    cases a with
    | none => trivial
    | some parent =>
      have hparent := ha.2.2.1
      -- Whether and where the new parent is in the list does not depend on the order of the list.
      refine Prog.Meets.perform_bind (hx.hasTask.grow hk₂) (fun rows rows' h => ?_) fun k₃ hk₃ rows _ => ?_
      · have hperm : List.Perm rows rows' := h
        have hany : rows.any (fun row => row.1.text = q) = rows'.any (fun row => row.1.text = q) := hperm.any_eq
        have hmax : (rows.map Prod.snd).foldl Nat.max 0 = (rows'.map Prod.snd).foldl Nat.max 0 :=
          (hperm.map _).foldl_eq' (fun _ _ _ _ _ => Nat.max_right_comm ..) 0
        simp only [hany, hmax]
      · split
        · trivial
        · refine call_meets rfl ⟨p.uuid, hk₃ (hk₂ hx.2.2.1), hk₃ hparent⟩ fun k₄ hk₄ depth _ => ?_
          split
          · trivial
          · exact last_meets rfl (hsave (le_trans hk₂ (le_trans hk₃ hk₄)) (some q) fun q' hq' => by
              cases hq'
              exact hk₄ (hk₃ hparent))

/-- What is known of a comment that was found. -/
def Knowledge.FoundComment (k : Knowledge) (w t c : Uuid) (x : Comment) : Prop :=
  x.id = c ∧ x.taskId.uuid = t ∧ k.HasTask w t ∧ .comment c t x.authorId ∈ k ∧
    ∀ q ∈ x.parentCommentId, k.HasComment t q.uuid

theorem findComment_meets {c : UuidText} (hw : r.workspaceId = w) :
    (CommentsService.findOneOrFail w p t c).Meets (contract r) (fun k x => k.FoundComment w.uuid t.uuid c.uuid x) k := by
  refine (findTask_meets hw).bind fun k₁ _ x hx => ?_
  subst hw
  refine call_meets rfl hx.hasTask fun k₂ hk₂ a ha => ?_
  cases a with
  | none => trivial
  | some m => exact ⟨ha.1, ha.2.1, hx.hasTask.grow hk₂, ha.2.2.1, ha.2.2.2⟩

theorem finishComment_meets {task : Task} {parentAuthor : Option Uuid} {authorId : Uuid} {dto : CreateCommentDto}
    (hw : r.workspaceId = w) (htask : k.HasTask w.uuid t.uuid)
    (hparent : ∀ q ∈ dto.parentCommentId, k.HasComment t.uuid q.uuid) :
    (CommentsService.create.finish t authorId dto task parentAuthor).Meets (contract r) (fun _ _ => True) k := by
  subst hw
  refine call_meets rfl ⟨htask, hparent⟩ fun k₁ hk₁ m _ => ?_
  refine (emit_meets (htask.grow hk₁)).bind fun k₂ hk₂ _ _ => ?_
  split
  · exact (emit_meets ((htask.grow hk₁).grow hk₂)).bind fun _ _ _ _ => trivial
  · trivial

theorem createComment_meets (hw : r.workspaceId = w) (authorId : Uuid) (dto : CreateCommentDto) :
    (CommentsService.create w p t authorId dto).Meets (contract r) (fun _ _ => True) k := by
  refine (findTask_meets hw).bind fun k₁ _ x hx => ?_
  cases hd : dto.parentCommentId with
  | none => exact finishComment_meets hw hx.hasTask (by simp [hd])
  | some q =>
    refine call_meets rfl (show k₁.HasTask r.workspaceId.uuid t.uuid from hw ▸ hx.hasTask) fun k₂ hk₂ a ha => ?_
    cases a with
    | none => trivial
    | some parent =>
      refine finishComment_meets hw (hx.hasTask.grow hk₂) fun q' hq' => ?_
      cases hd.symm.trans hq'
      exact ⟨parent.authorId, ha.2.2.1⟩

theorem listComments_meets (hw : r.workspaceId = w) (query : ListCommentsQueryDto) :
    (CommentsService.list w p t query).Meets (contract r) (fun _ _ => True) k := by
  refine (findTask_meets hw).bind fun k₁ _ x hx => call_meets rfl ?_ fun _ _ _ _ => trivial
  subst hw
  exact show k₁.HasTask r.workspaceId.uuid t.uuid from hx.hasTask

theorem updateComment_meets {c : UuidText} (hw : r.workspaceId = w) (actorId : Uuid) (body : String) :
    (CommentsService.update w p t c actorId body).Meets (contract r) (fun _ _ => True) k := by
  refine (findComment_meets hw).bind fun k₁ _ x ⟨hid, htask, hhas, hfact, hparent⟩ => ?_
  subst hw
  simp only [Prog.bind_eq]
  split
  · trivial
  · exact fun env => last_meets rfl ⟨htask ▸ hhas, htask ▸ hid ▸ hfact, fun q hq => htask ▸ hparent q hq⟩

/-- Where the author of the comment or an `ADMIN` asks for it, the comment is removed. -/
theorem removeComment_meets {c : UuidText} {actorId : Uuid} {role : Option WorkspaceRole}
    (h : r.operation = .removeComment p t c actorId role) :
    (CommentsService.remove r.workspaceId p t c actorId role).Meets (contract r) (fun _ _ => True) k := by
  refine (findComment_meets rfl).bind fun k₁ _ x ⟨hid, _, hhas, hfact, _⟩ => ?_
  by_cases hmay : x.authorId ≠ actorId ∧ role ≠ some .ADMIN
  · rw [if_pos hmay]
    trivial
  · rw [if_neg hmay]
    have hallowed : x.authorId = actorId ∨ role = some .ADMIN := by
      by_cases hauthor : x.authorId = actorId
      · exact Or.inl hauthor
      · exact Or.inr (not_not.mp fun hrole => hmay ⟨hauthor, hrole⟩)
    exact last_meets rfl ⟨t.uuid, x.authorId, hhas, hid ▸ hfact, p, t, c, actorId, role, h, hid.symm, hallowed⟩

theorem listActivity_meets (hw : r.workspaceId = w) (query : PaginationQuery) :
    (ActivityService.listForTask w p t query).Meets (contract r) (fun _ _ => True) k := by
  refine (findTask_meets hw).bind fun k₁ _ x hx => call_meets rfl ?_ fun _ _ _ _ => trivial
  subst hw
  exact show k₁.HasTask r.workspaceId.uuid t.uuid from hx.hasTask

/-- Every request keeps its contract. -/
theorem program_meets (r : Request) (k : Knowledge) : (program r).Meets (contract r) (fun _ _ => True) k := by
  have wrap : ∀ {α : Type} {p : Service α} {f : α → Response} {Q : Knowledge → α → Prop}, p.Meets (contract r) Q k →
      (p.bind fun a => .ret (f a)).Meets (contract r) (fun _ _ => True) k := fun h => h.bind fun _ _ _ _ => trivial
  obtain ⟨w, operation⟩ := r
  cases operation with
  | createProject user dto => exact wrap (last_meets rfl rfl)
  | listProjects q => exact wrap (call_meets (Q := fun _ _ => True) rfl rfl fun _ _ _ _ => trivial)
  | getProject p => exact wrap (findProject_meets rfl)
  | updateProject p dto => exact wrap (updateProject_meets rfl dto)
  | removeProject p => exact wrap (removeProject_meets rfl)
  | createTask p user dto => exact wrap (createTask_meets rfl user dto)
  | listTasks p q => exact wrap (listTasks_meets rfl q)
  | getTask p t => exact wrap (findTask_meets rfl)
  | updateTask p t actor dto => exact wrap (updateTask_meets rfl actor dto)
  | removeTask p t => exact wrap (removeTask_meets rfl)
  | getSubtree p t => exact wrap (getSubtree_meets rfl)
  | moveTask p t parent => exact wrap (moveTask_meets rfl parent)
  | createComment p t author dto => exact wrap (createComment_meets rfl author dto)
  | listComments p t q => exact wrap (listComments_meets rfl q)
  | getComment p t c => exact wrap (findComment_meets rfl)
  | updateComment p t c actor body => exact wrap (updateComment_meets rfl actor body)
  | removeComment p t c actor role => exact wrap (removeComment_meets rfl)
  | listActivity p t q => exact wrap (listActivity_meets rfl q)

end

end TaskPlatform.Board

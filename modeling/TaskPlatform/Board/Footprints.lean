import TaskPlatform.Board.Events
import TaskPlatform.Board.Requests

/-! What each request may call before its events: lookups and queries, and the one kind of write it is for. -/

namespace TaskPlatform.Board
open Effects

/-- The call changes no row. -/
def Call.reads : Call → Bool
  | .findProject _ _ | .listProjects _ _ _ | .findTask _ _ | .listTasks _ _ _ | .subtree _ _ | .descendants _ | .depthOf _
  | .findComment _ _ | .listComments _ _ _ | .listActivity _ _ _ => true
  | _ => false

/-- The kind of write that the operation is for. -/
def Operation.writes : Operation → Call → Bool
  | .createProject _ _, .insertProject _ | .updateProject _ _, .saveProject _ | .removeProject _, .removeProject _
  | .createTask _ _ _, .insertTask _ | .updateTask _ _ _ _, .saveTask _ | .moveTask _ _ _, .saveTask _
  | .removeTask _ _, .removeTask _ | .createComment _ _ _ _, .insertComment _ | .updateComment _ _ _ _ _, .saveComment _
  | .removeComment _ _ _ _ _, .removeComment _ => true
  | _, _ => false

/-- What the operation may call. -/
def Operation.calls (op : Operation) (c : Call) : Prop := c.reads = true ∨ op.writes c = true

section
variable {op : Operation} {w p t : UuidText} {α β : Type}

theorem reads_calls {c : Call} (h : c.reads = true) : (perform c).Calls op.calls := Prog.calls_perform (Or.inl h)

theorem writes_calls {c : Call} (h : op.writes c = true) : (perform c).Calls op.calls := Prog.calls_perform (Or.inr h)

theorem answer_calls {q : Service α} {f : α → β} (h : q.Calls op.calls) : (q.bind fun a => .ret (f a)).Calls op.calls :=
  h.bind fun _ => trivial

theorem findProject_calls : (ProjectsService.findOneOrFail w p).Calls op.calls := by
  refine (reads_calls rfl).bind fun a => ?_
  cases a <;> trivial

theorem findTask_calls : (TasksService.findOneOrFail w p t).Calls op.calls := by
  refine findProject_calls.bind fun _ => (reads_calls rfl).bind fun a => ?_
  cases a <;> trivial

theorem findComment_calls {m : UuidText} : (CommentsService.findOneOrFail w p t m).Calls op.calls := by
  refine findTask_calls.bind fun _ => (reads_calls rfl).bind fun a => ?_
  cases a <;> trivial

theorem createTask_calls (user : Uuid) (dto : CreateTaskDto) :
    (TasksService.create.unannounced w p user dto).Calls (Operation.createTask p user dto).calls := by
  refine findProject_calls.bind fun _ => ?_
  split
  · exact answer_calls (writes_calls rfl)
  · refine (reads_calls rfl).bind fun parent => ?_
    cases parent with
    | none => trivial
    | some _ => exact answer_calls (writes_calls rfl)

theorem createComment_calls (author : Uuid) (dto : CreateCommentDto) :
    (CommentsService.create.unannounced w p t author dto).Calls (Operation.createComment p t author dto).calls := by
  refine findTask_calls.bind fun _ => ?_
  split
  · exact answer_calls (writes_calls rfl)
  · refine (reads_calls rfl).bind fun parent => ?_
    cases parent with
    | none => trivial
    | some _ => exact answer_calls (writes_calls rfl)

theorem moveTask_calls (parent : Option UuidText) :
    (TasksService.moveTask w p t parent).Calls (Operation.moveTask p t parent).calls := by
  refine findTask_calls.bind fun x => ?_
  cases parent with
  | none => exact writes_calls rfl
  | some q =>
    simp only [Prog.bind_eq]
    split
    · trivial
    refine (reads_calls rfl).bind fun a => ?_
    cases a with
    | none => trivial
    | some parent =>
      refine (reads_calls rfl).bind fun rows => ?_
      split
      · trivial
      · refine (reads_calls rfl).bind fun depth => ?_
        split
        · trivial
        · exact writes_calls rfl

/-- Before its events a request makes only calls of its operation. -/
theorem unannounced_calls (r : Request) : (unannounced r).Calls r.operation.calls := by
  obtain ⟨w, operation⟩ := r
  cases operation with
  | createProject user dto => exact answer_calls (answer_calls (writes_calls rfl))
  | listProjects q => exact answer_calls (answer_calls (answer_calls (reads_calls rfl)))
  | getProject p => exact answer_calls (answer_calls findProject_calls)
  | updateProject p dto => exact answer_calls (answer_calls (findProject_calls.bind fun _ => writes_calls rfl))
  | removeProject p => exact answer_calls (answer_calls (findProject_calls.bind fun _ => writes_calls rfl))
  | createTask p user dto => exact answer_calls (createTask_calls user dto)
  | listTasks p q => exact answer_calls (answer_calls (findProject_calls.bind fun _ => answer_calls (reads_calls rfl)))
  | getTask p t => exact answer_calls (answer_calls findTask_calls)
  | updateTask p t actor dto => exact answer_calls (findTask_calls.bind fun _ => fun _ => answer_calls (writes_calls rfl))
  | removeTask p t => exact answer_calls (answer_calls (findTask_calls.bind fun _ => writes_calls rfl))
  | getSubtree p t => exact answer_calls (answer_calls (findTask_calls.bind fun _ => answer_calls (reads_calls rfl)))
  | moveTask p t parent => exact answer_calls (answer_calls (moveTask_calls parent))
  | createComment p t author dto => exact answer_calls (createComment_calls author dto)
  | listComments p t q => exact answer_calls (answer_calls (findTask_calls.bind fun _ => answer_calls (reads_calls rfl)))
  | getComment p t m => exact answer_calls (answer_calls findComment_calls)
  | updateComment p t m actor body =>
    refine answer_calls (answer_calls (findComment_calls.bind fun x => ?_))
    split
    · trivial
    · exact fun _ => writes_calls rfl
  | removeComment p t m actor role =>
    refine answer_calls (answer_calls (findComment_calls.bind fun x => ?_))
    split
    · trivial
    · exact writes_calls rfl
  | listActivity p t q => exact answer_calls (answer_calls (findTask_calls.bind fun _ => answer_calls (reads_calls rfl)))

/-- Its events make only calls that record them. -/
theorem announce_records (es : List DomainEvent) : (announce es).Calls Call.Records := by
  induction es with
  | nil => trivial
  | cons e es ih => exact (emit_records e).bind fun _ => ih

end
end TaskPlatform.Board

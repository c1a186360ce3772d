import TaskPlatform.Board.Contracts
import TaskPlatform.Board.Footprints
import TaskPlatform.Board.History
import TaskPlatform.Board.Isolation
import TaskPlatform.Board.Requests

/-! What a request deletes: the project, the task or the comment that it names, with everything in it or below it, and
    nothing else. -/

namespace TaskPlatform.Board
open Effects Relation

/-! ### A request deletes what it names -/

/-- The project or the task that is deleted is the one that the request names. -/
def Request.names (r : Request) : Call → Prop
  | .removeProject id => ∃ p, r.operation = .removeProject p ∧ p.uuid = id
  | .removeTask id => ∃ p t, r.operation = .removeTask p t ∧ t.uuid = id
  | _ => True

def naming (r : Request) : Contract interface Knowledge where
  pre _ := r.names
  post := Knowledge.post
  alike _ _ _ := False
  grows _ h := h

section
variable {r : Request} {k : Knowledge} {w p t : UuidText}

theorem findProject_names :
    (ProjectsService.findOneOrFail w p).Meets (naming r) (fun _ x => x.id = p.uuid) k := by
  refine Prog.Meets.perform_bind trivial (fun _ _ h => h.elim) fun k' _ a ha => ?_
  cases a with
  | none => trivial
  | some x => exact ha.1

theorem findTask_names :
    (TasksService.findOneOrFail w p t).Meets (naming r) (fun _ x => x.id = t.uuid) k := by
  refine findProject_names.bind fun k₁ _ _ _ => Prog.Meets.perform_bind trivial (fun _ _ h => h.elim) fun k₂ _ a ha => ?_
  cases a with
  | none => trivial
  | some x => exact ha.1

/-- A request that deletes neither a project nor a task. -/
theorem names_of_calls (hp : ∀ p, r.operation ≠ .removeProject p) (ht : ∀ p t, r.operation ≠ .removeTask p t) :
    (program r).Meets (naming r) (fun _ _ => True) k := by
  have hcalls : ∀ c, r.operation.calls c → r.names c := fun c hc => by
    cases c with
    | removeProject id =>
      cases hop : r.operation with
      | removeProject p => exact absurd hop (hp p)
      | _ => simp [Operation.calls, Operation.writes, Call.reads, hop] at hc
    | removeTask id =>
      cases hop : r.operation with
      | removeTask p t => exact absurd hop (ht p t)
      | _ => simp [Operation.calls, Operation.writes, Call.reads, hop] at hc
    | _ => trivial
  have hannounce : ∀ c, Call.Records c → r.names c := by
    rintro _ ⟨n, rfl⟩
    trivial
  rw [program_announces]
  refine Prog.Calls.meets (Prog.Calls.bind (((unannounced_calls r).mono hcalls).mono fun _ hc => ⟨fun _ => hc, nofun⟩) fun x => ?_)
  exact (((announce_records x.1).mono hannounce).mono fun _ hc => ⟨fun _ => hc, nofun⟩).bind fun _ => trivial

theorem program_names (r : Request) (k : Knowledge) : (program r).Meets (naming r) (fun _ _ => True) k := by
  obtain ⟨w, operation⟩ := r
  cases operation with
  | removeProject p =>
    have hremove : (ProjectsService.remove w p).Meets (naming ⟨w, .removeProject p⟩) (fun _ _ => True) k :=
      findProject_names.bind fun k' _ x hx => Prog.Meets.perform ⟨p, rfl, hx.symm⟩ nofun fun _ _ _ _ => trivial
    exact hremove.bind fun _ _ _ _ => trivial
  | removeTask p t =>
    have hremove : (TasksService.remove w p t).Meets (naming ⟨w, .removeTask p t⟩) (fun _ _ => True) k :=
      findTask_names.bind fun k' _ x hx => Prog.Meets.perform ⟨p, t, rfl, hx.symm⟩ nofun fun _ _ _ _ => trivial
    exact hremove.bind fun _ _ _ _ => trivial
  | _ => exact names_of_calls nofun nofun

end

/-! ### What goes with it -/

namespace Tables

/-- The row is one of these tasks, or is on one of them. -/
def On (s : Tables) (tasks : TaskRow → Prop) : Row → Prop
  | .project _ => False
  | .task t => t ∈ s.tasks ∧ tasks t
  | .comment m => ∃ t ∈ s.tasks, t.id = m.taskId ∧ tasks t
  | .activity a => ∃ t ∈ s.tasks, t.id = a.taskId ∧ tasks t

/-- An operation asks to delete the row: it names the project that the row is or is in, the task that it is or is on or
    below, or the comment that it is or replies to, by whatever replies are between. -/
inductive Asked (s : Tables) : Operation → Row → Prop
  | project {p : UuidText} {r : ProjectRow} (named : r.id = p.uuid) : Asked s (.removeProject p) (.project r)
  | inside {p : UuidText} {x : Row} (on : s.On (·.projectId = p.uuid) x) : Asked s (.removeProject p) x
  | below {p t : UuidText} {x : Row} (on : s.On (fun y => ∃ a ∈ s.tasks, a.id = t.uuid ∧ ReflTransGen s.Subtask a y) x) :
      Asked s (.removeTask p t) x
  | thread {p t c : UuidText} {actor : Uuid} {role : Option WorkspaceRole} {a m : CommentRow} (mem : a ∈ s.comments)
      (named : a.id = c.uuid) (path : ReflTransGen s.Reply a m) : Asked s (.removeComment p t c actor role) (.comment m)

end Tables

section
variable {k : Knowledge} {s s' : Tables} {env : Env} {c : Call} {r : Request} {x : Row}

/-- What goes with tasks is what is on them and below them. -/
theorem Knowledge.Fits.mem_deleteTasks_iff (h : k.Fits s) {p : TaskRow → Bool} :
    x ∈ (s.deleteTasks p).everyRow ↔ x ∈ s.everyRow ∧
      ¬ s.On (fun y => ∃ a ∈ s.tasks, p a = true ∧ ReflTransGen s.Subtask a y) x := by
  have hid : ∀ {id : Uuid}, id ∈ (s.goneTasks p).map TaskRow.id ↔
      ∃ t ∈ s.tasks, t.id = id ∧ ∃ a ∈ s.tasks, p a = true ∧ ReflTransGen s.Subtask a t := fun {id} => by
    simp only [List.mem_map, Board.mem_goneTasks]
    constructor
    · rintro ⟨t, ⟨a, ha, hp, path⟩, rfl⟩
      exact ⟨t, (h.below_project ha path).1, rfl, a, ha, hp, path⟩
    · rintro ⟨t, -, rfl, hgone⟩
      exact ⟨t, hgone, rfl⟩
  cases x with
  | project r => exact (and_iff_left id).symm
  | task t =>
    refine Tables.mem_deleteTasks.trans (and_congr_right fun ht => not_congr ?_)
    exact Board.mem_goneTasks.trans (and_iff_right ht).symm
  | comment m =>
    refine Tables.mem_deleteTasks_comments.trans (and_congr_right fun hm => not_congr ?_)
    refine Iff.trans ?_ hid
    rw [Board.mem_goneComments]
    constructor
    · rintro ⟨a, ha, hp, path⟩
      exact (h.thread_task ha path).2 ▸ of_decide_eq_true hp
    · exact fun hgone => ⟨m, hm, decide_eq_true hgone, .refl⟩
  | activity a =>
    exact Tables.mem_deleteTasks_activity.trans (and_congr_right fun _ => not_congr hid)

/-- The tasks of a project are below no others. -/
theorem Knowledge.Fits.on_project_iff (h : k.Fits s) {p : Uuid} :
    s.On (fun y => ∃ a ∈ s.tasks, decide (a.projectId = p) = true ∧ ReflTransGen s.Subtask a y) x ↔ s.On (·.projectId = p) x := by
  have htask : ∀ t ∈ s.tasks, (∃ a ∈ s.tasks, decide (a.projectId = p) = true ∧ ReflTransGen s.Subtask a t) ↔ t.projectId = p :=
    fun t ht => by
      constructor
      · rintro ⟨a, ha, hp, path⟩
        exact (h.below_project ha path).2.trans (of_decide_eq_true hp)
      · exact fun hp => ⟨t, ht, decide_eq_true hp, .refl⟩
  cases x with
  | project r => exact Iff.rfl
  | task t => exact and_congr_right (htask t)
  | comment m => exact exists_congr fun t => and_congr_right fun ht => and_congr_right fun _ => htask t ht
  | activity a => exact exists_congr fun t => and_congr_right fun ht => and_congr_right fun _ => htask t ht

/-! ### What each removal leaves -/

theorem Knowledge.Fits.removeProject_exact (h : k.Fits s) (p : UuidText) :
    x ∈ (s.deleteProject p.uuid).everyRow ↔ x ∈ s.everyRow ∧ ¬ s.Asked (.removeProject p) x := by
  have hasked : s.Asked (.removeProject p) x ↔ (∃ z, z.id = p.uuid ∧ x = .project z) ∨ s.On (·.projectId = p.uuid) x := by
    constructor
    · rintro (hnamed | hon)
      · exact Or.inl ⟨_, hnamed, rfl⟩
      · exact Or.inr hon
    · rintro (⟨z, hnamed, rfl⟩ | hon)
      · exact .project hnamed
      · exact .inside hon
  have htasks := h.mem_deleteTasks_iff (x := x) (p := (·.projectId = p.uuid))
  rw [h.on_project_iff] at htasks
  cases x with
  | project z =>
    have hproject : .project z ∈ (s.deleteProject p.uuid).everyRow ↔ z ∈ s.projects ∧ z.id ≠ p.uuid := by
      show z ∈ s.projects.filter (·.id ≠ p.uuid) ↔ _
      simp
    refine hproject.trans (and_congr_right fun _ => not_congr (Iff.trans ?_ hasked.symm))
    exact ⟨fun hid => Or.inl ⟨z, hid, rfl⟩, by rintro (⟨_, hid, ⟨⟩⟩ | ⟨⟨⟩⟩); exact hid⟩
  | task t | comment m | activity a =>
    refine htasks.trans (and_congr_right fun _ => not_congr (Iff.trans ?_ hasked.symm))
    exact ⟨Or.inr, by rintro (⟨_, -, ⟨⟩⟩ | hon); exact hon⟩

theorem Knowledge.Fits.removeTask_exact (h : k.Fits s) (p t : UuidText) :
    x ∈ (s.deleteTasks (·.id = t.uuid)).everyRow ↔ x ∈ s.everyRow ∧ ¬ s.Asked (.removeTask p t) x := by
  refine h.mem_deleteTasks_iff.trans (and_congr_right fun _ => not_congr ?_)
  simp only [decide_eq_true_eq]
  exact ⟨.below, fun hasked => by cases hasked with | below on => exact on⟩

theorem removeComment_exact (p t c : UuidText) (actor : Uuid) (role : Option WorkspaceRole) :
    x ∈ (s.deleteComments (·.id = c.uuid)).everyRow ↔
      x ∈ s.everyRow ∧ ¬ s.Asked (.removeComment p t c actor role) x := by
  cases x with
  | comment z =>
    refine Tables.mem_deleteComments.trans (and_congr_right fun _ => not_congr (mem_goneComments.trans ?_))
    constructor
    · rintro ⟨b, hb, hid, path⟩
      exact .thread hb (of_decide_eq_true hid) path
    · rintro (_ | _ | _ | ⟨hb, hid, path⟩)
      exact ⟨_, hb, decide_eq_true hid, path⟩
  | project | task | activity => exact (and_iff_left (by rintro ⟨⟩)).symm

/-! ### All of it is in the workspace -/

variable {w : Uuid}

/-- What is on tasks of the workspace is in the workspace. -/
theorem Tables.On.rows {tasks : TaskRow → Prop} (h : s.On tasks x) (mem : x ∈ s.everyRow)
    (own : ∀ t ∈ s.tasks, tasks t → s.InProject w t.projectId) : x ∈ s.rows w := by
  cases x with
  | project => exact h.elim
  | task t => exact ⟨mem, own t mem h.2⟩
  | comment m | activity a =>
    obtain ⟨t, ht, hid, htasks⟩ := h
    exact ⟨mem, t, ht, hid, own t ht htasks⟩

theorem Knowledge.Fits.asked_project (h : k.Fits s) {p : UuidText} (hp : .project p.uuid w ∈ k)
    (asked : s.Asked (.removeProject p) x) (mem : x ∈ s.everyRow) : x ∈ s.rows w := by
  cases asked with
  | @project _ r named => exact ⟨mem, h.oneWorkspace (h.project r mem) (named ▸ hp)⟩
  | inside on => exact on.rows mem fun t ht hproject => h.inProject_of_task (hproject ▸ hp) ht

theorem Knowledge.Fits.asked_task (h : k.Fits s) {p t : UuidText} (htask : k.HasTask w t.uuid)
    (asked : s.Asked (.removeTask p t) x) (mem : x ∈ s.everyRow) : x ∈ s.rows w := by
  cases asked with
  | below on =>
    refine on.rows mem ?_
    rintro y - ⟨a, ha, hid, path⟩
    exact (h.below_project ha path).2 ▸ own_task h htask a ha hid

theorem Knowledge.Fits.asked_comment (h : k.Fits s) {p q c : UuidText} {actor t author : Uuid}
    {role : Option WorkspaceRole} (htask : k.HasTask w t) (hfact : .comment c.uuid t author ∈ k)
    (asked : s.Asked (.removeComment p q c actor role) x) (mem : x ∈ s.everyRow) : x ∈ s.rows w := by
  cases asked with
  | @thread _ _ _ _ _ a m ha named path =>
    obtain ⟨hm, heq⟩ := h.thread_task ha path
    have hat : a.taskId = t := (h.oneTask (h.comment a ha) (named ▸ hfact)).1
    exact ⟨mem, h.inTask_of_mem (heq.trans hat ▸ htask) (h.wellFormed.commentTask m hm)⟩

/-! ### Every write -/

/-- Any other write leaves a row in the place of every row. -/
theorem Write.stays_or_removes (w : Write s env c s') :
    (∀ x ∈ s.everyRow, ∃ y ∈ s'.everyRow, y.id = x.id) ∨ (∃ id, c = .removeProject id ∧ s' = s.deleteProject id) ∨
      (∃ id, c = .removeTask id ∧ s' = s.deleteTasks (·.id = id)) ∨
        ∃ id, c = .removeComment id ∧ s' = s.deleteComments (·.id = id) := by
  cases w with
  | projectRemoved call => exact Or.inr (Or.inl ⟨_, call, rfl⟩)
  | taskRemoved call => exact Or.inr (Or.inr (Or.inl ⟨_, call, rfl⟩))
  | commentRemoved call => exact Or.inr (Or.inr (Or.inr ⟨_, call, rfl⟩))
  | same => exact Or.inl fun x hx => ⟨x, hx, rfl⟩
  | projectAdded | taskAdded | commentAdded | activityAdded =>
    refine Or.inl fun x hx => ⟨x, ?_, rfl⟩
    cases x with
    | project | task | comment | activity => first | exact hx | exact List.mem_append_left _ hx
  | @projectSet p y old =>
    refine Or.inl fun x hx => ?_
    cases x with
    | project z =>
      obtain ⟨z', hz', hid⟩ := Table.mem_replace_key ProjectRow.id (y.over old) hx
      exact ⟨.project z', hz', hid⟩
    | task | comment | activity => exact ⟨_, hx, rfl⟩
  | @taskSet t y old =>
    refine Or.inl fun x hx => ?_
    cases x with
    | task z =>
      obtain ⟨z', hz', hid⟩ := Table.mem_replace_key TaskRow.id (y.over old) hx
      exact ⟨.task z', hz', hid⟩
    | project | comment | activity => exact ⟨_, hx, rfl⟩
  | @commentSet m y old =>
    refine Or.inl fun x hx => ?_
    cases x with
    | comment z =>
      obtain ⟨z', hz', hid⟩ := Table.mem_replace_key CommentRow.id (y.over old) hx
      exact ⟨.comment z', hz', hid⟩
    | project | task | activity => exact ⟨_, hx, rfl⟩

/-- A request takes the row away: it has asked for it, in its workspace, and all goes that it has asked for. Where it names
    a comment, its actor is the author of that or an `ADMIN`. -/
structure Tables.Loses (s s' : Tables) (r : Request) (x : Row) : Prop where
  asked : s.Asked r.operation x
  inside : x ∈ s.rows r.workspaceId.uuid
  whole : ∀ y, y ∈ s'.everyRow ↔ y ∈ s.everyRow ∧ ¬ s.Asked r.operation y
  allowed : ∀ p t m actor role, r.operation = .removeComment p t m actor role →
    ∃ a ∈ s.comments, a.id = m.uuid ∧ (a.authorId = actor ∨ role = some .ADMIN)

/-- What goes is asked for. -/
theorem asked_of_whole {op : Operation} (whole : ∀ y, y ∈ s'.everyRow ↔ y ∈ s.everyRow ∧ ¬ s.Asked op y)
    (mem : x ∈ s.everyRow) (gone : ∀ y ∈ s'.everyRow, y.id ≠ x.id) : s.Asked op x :=
  not_not.mp fun hasked => gone x ((whole x).mpr ⟨mem, hasked⟩) rfl

/-- A row disappears only where a request takes it away. -/
theorem Write.removes (write : Write s env c s') (h : k.Fits s) (hpre : r.pre k c) (hnames : r.names c)
    (mem : x ∈ s.everyRow) (gone : ∀ y ∈ s'.everyRow, y.id ≠ x.id) : s.Loses s' r x := by
  obtain ⟨w, op⟩ := r
  rcases write.stays_or_removes with stays | ⟨id, rfl, rfl⟩ | ⟨id, rfl, rfl⟩ | ⟨id, rfl, rfl⟩
  · obtain ⟨z, hz, hid⟩ := stays x mem
    exact absurd hid (gone z hz)
  · obtain ⟨p, rfl, rfl⟩ := hnames
    have whole := fun y => h.removeProject_exact (x := y) p
    have asked := asked_of_whole whole mem gone
    exact ⟨asked, h.asked_project hpre asked mem, whole, by rintro _ _ _ _ _ ⟨⟩⟩
  · obtain ⟨p, t, rfl, rfl⟩ := hnames
    have whole := fun y => h.removeTask_exact (x := y) p t
    have asked := asked_of_whole whole mem gone
    exact ⟨asked, h.asked_task hpre asked mem, whole, by rintro _ _ _ _ _ ⟨⟩⟩
  · obtain ⟨t, author, htask, hfact, p, q, m, actor, role, rfl, rfl, hmay⟩ := hpre
    have whole := fun y => removeComment_exact (s := s) (x := y) p q m actor role
    have asked := asked_of_whole whole mem gone
    refine ⟨asked, h.asked_comment htask hfact asked mem, whole, ?_⟩
    rintro _ _ _ _ _ ⟨⟩
    cases asked with
    | thread ha named path =>
      have hauthor := (h.oneTask (h.comment _ ha) (named ▸ hfact)).2
      exact ⟨_, ha, named, hauthor ▸ hmay⟩

end
end TaskPlatform.Board

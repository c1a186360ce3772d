import TaskPlatform.Board.Writes

/-! The users that tasks and comments refer to are registered, in every run. -/

namespace TaskPlatform.Board
open Effects

/-- `FK_tasks_assignee`, `FK_tasks_creator` and `FK_comments_author`. -/
structure Tables.Registered (s : Tables) : Prop where
  assignee : ∀ t ∈ s.tasks, ∀ u ∈ t.assigneeId, u ∈ s.users
  creator : ∀ t ∈ s.tasks, t.createdBy ∈ s.users
  author : ∀ m ∈ s.comments, m.authorId ∈ s.users

section
variable {s s' : Tables} {env : Env} {c : Call}

theorem checkComment_author {old : Option CommentRow} {r : CommentRow} (h : s.checkComment old r = .ok ()) :
    old.map (·.authorId) = some r.authorId ∨ r.authorId ∈ s.users := by
  obtain ⟨_, -, h⟩ := ok_of_bind h
  obtain ⟨_, -, h⟩ := ok_of_bind h
  obtain ⟨_, -, h⟩ := ok_of_bind h
  obtain ⟨_, hauthor, -⟩ := ok_of_bind h
  exact reference_ok hauthor _ rfl

/-- A task that passes the constraints in place of a row `old` whose users are registered. -/
theorem Tables.Registered.task (reg : s.Registered) {old : Option TaskRow} {r : TaskRow}
    (mem : ∀ x ∈ old, x ∈ s.tasks) (h : s.checkTask old r = .ok ()) :
    (∀ u ∈ r.assigneeId, u ∈ s.users) ∧ r.createdBy ∈ s.users := by
  have refs := Tables.checkTask_ok h
  constructor
  · intro u hu
    rcases refs.assignee u hu with hold | hu
    · obtain ⟨x, hx, hxu⟩ := Option.bind_eq_some_iff.mp hold
      exact reg.assignee x (mem x hx) u hxu
    · exact hu
  · rcases refs.creator with hold | hu
    · obtain ⟨x, hx, hxu⟩ := Option.map_eq_some_iff.mp hold
      exact hxu ▸ reg.creator x (mem x hx)
    · exact hu

theorem Tables.Registered.comment (reg : s.Registered) {old : Option CommentRow} {r : CommentRow}
    (mem : ∀ x ∈ old, x ∈ s.comments) (h : s.checkComment old r = .ok ()) : r.authorId ∈ s.users := by
  rcases checkComment_author h with hold | hu
  · obtain ⟨x, hx, hxu⟩ := Option.map_eq_some_iff.mp hold
    exact hxu ▸ reg.author x (mem x hx)
  · exact hu

/-- Tables whose tasks and comments are some of those of `s`. -/
theorem Tables.Registered.sub (reg : s.Registered) (users : s'.users = s.users) (tasks : s'.tasks ⊆ s.tasks)
    (comments : s'.comments ⊆ s.comments) : s'.Registered where
  assignee t ht := users ▸ reg.assignee t (tasks ht)
  creator t ht := users ▸ reg.creator t (tasks ht)
  author m hm := users ▸ reg.author m (comments hm)

theorem Tables.Registered.addTask (reg : s.Registered) {r : TaskRow} (h : s.checkTask none r = .ok ()) :
    Tables.Registered { s with tasks := s.tasks ++ [r] } := by
  obtain ⟨hassignee, hcreator⟩ := reg.task (fun _ hx => by cases hx) h
  have hmem : ∀ {t}, t ∈ s.tasks ++ [r] → t ∈ s.tasks ∨ t = r := fun ht =>
    (List.mem_append.mp ht).imp_right List.mem_singleton.mp
  exact { reg with
    assignee := fun t ht => (hmem ht).elim (reg.assignee t) fun h => h ▸ hassignee
    creator := fun t ht => (hmem ht).elim (reg.creator t) fun h => h ▸ hcreator }

theorem Tables.Registered.setTask (reg : s.Registered) {r old : TaskRow} (mem : old ∈ s.tasks) (id : old.id = r.id)
    (h : s.checkTask (some old) r = .ok ()) :
    Tables.Registered { s with tasks := Table.replace TaskRow.id (r.over old) s.tasks } := by
  obtain ⟨hassignee, hcreator⟩ := reg.task (fun x hx => Option.some.inj hx ▸ mem) h
  have hmem : ∀ {t}, t ∈ Table.replace TaskRow.id (r.over old) s.tasks → t = r.over old ∨ t ∈ s.tasks := fun ht =>
    ((Table.mem_replace (x := r.over old) ⟨old, mem, id⟩).mp ht).imp_right And.left
  exact { reg with
    assignee := fun t ht => by
      rcases hmem ht with rfl | ht
      · exact hassignee
      · exact reg.assignee t ht
    creator := fun t ht => by
      rcases hmem ht with rfl | ht
      · exact hcreator
      · exact reg.creator t ht }

theorem Tables.Registered.addComment (reg : s.Registered) {r : CommentRow} (h : s.checkComment none r = .ok ()) :
    Tables.Registered { s with comments := s.comments ++ [r] } := by
  have hauthor := reg.comment (fun _ hx => by cases hx) h
  have hmem : ∀ {m}, m ∈ s.comments ++ [r] → m ∈ s.comments ∨ m = r := fun hm =>
    (List.mem_append.mp hm).imp_right List.mem_singleton.mp
  exact { reg with author := fun m hm => (hmem hm).elim (reg.author m) fun h => h ▸ hauthor }

theorem Tables.Registered.setComment (reg : s.Registered) {r old : CommentRow} (mem : old ∈ s.comments)
    (id : old.id = r.id) (h : s.checkComment (some old) r = .ok ()) :
    Tables.Registered { s with comments := Table.replace CommentRow.id (r.over old) s.comments } := by
  have hauthor := reg.comment (fun x hx => Option.some.inj hx ▸ mem) h
  have hmem : ∀ {m}, m ∈ Table.replace CommentRow.id (r.over old) s.comments → m = r.over old ∨ m ∈ s.comments :=
    fun hm => ((Table.mem_replace (x := r.over old) ⟨old, mem, id⟩).mp hm).imp_right And.left
  exact { reg with
    author := fun m hm => by
      rcases hmem hm with rfl | hm
      · exact hauthor
      · exact reg.author m hm }

theorem commit_registered {α : Type} {a : α} {x : Except DbError Tables} (reg : s.Registered)
    (h : ∀ s', x = .ok s' → s'.Registered) : (commit s a x).2.Registered := by
  cases x with
  | error e => exact reg
  | ok s' => exact h s' rfl

theorem Write.registered_of_same (w : Write s env c s') (reg : s.Registered) (task : c.taskRow? env = none)
    (comment : c.commentRow? env = none) : s'.Registered := by
  cases w with
  | same => exact reg
  | projectAdded | projectSet | activityAdded => exact { reg with }
  | projectRemoved => exact reg.sub rfl (fun _ h => (List.mem_filter.mp h).1) fun _ h => (List.mem_filter.mp h).1
  | taskRemoved => exact reg.sub rfl (fun _ h => (List.mem_filter.mp h).1) fun _ h => (List.mem_filter.mp h).1
  | commentRemoved => exact reg.sub rfl (fun _ h => h) fun _ h => (List.mem_filter.mp h).1
  | taskAdded row => rw [task] at row; cases row
  | commentAdded row => rw [comment] at row; cases row
  | taskSet call row =>
    subst call
    simp [Call.taskRow?, row, Except.toOption] at task
  | commentSet call =>
    subst call
    cases comment

/-- No call lets a task or a comment refer to a user who is not registered. -/
theorem exec_registered (pg : Postgres) (env : Env) (c : Call) (reg : s.Registered) :
    (exec pg env c s).2.Registered := by
  cases c with
  | insertTask n =>
    refine commit_registered reg fun s' h => ?_
    obtain ⟨_, -, h⟩ := ok_of_bind h
    obtain ⟨_, hcheck, h⟩ := ok_of_bind h
    cases h
    exact reg.addTask hcheck
  | saveTask t =>
    refine commit_registered reg fun s' h => ?_
    obtain ⟨r, -, h⟩ := ok_of_bind h
    obtain ⟨_, hcheck, h⟩ := ok_of_bind h
    cases h
    rcases upsert_cases TaskRow.id r.over r s.tasks with ⟨old, hm, hid, hf, heq⟩ | ⟨-, hf, heq⟩
    · exact heq ▸ reg.setTask hm hid (hf ▸ hcheck)
    · exact heq ▸ reg.addTask (hf ▸ hcheck)
  | insertComment n =>
    refine commit_registered reg fun s' h => ?_
    obtain ⟨_, -, h⟩ := ok_of_bind h
    obtain ⟨_, hcheck, h⟩ := ok_of_bind h
    cases h
    exact reg.addComment hcheck
  | saveComment m =>
    refine commit_registered reg fun s' h => ?_
    obtain ⟨_, hcheck, h⟩ := ok_of_bind h
    cases h
    rcases upsert_cases CommentRow.id m.toRow.over m.toRow s.comments with ⟨old, hm, hid, hf, heq⟩ | ⟨-, hf, heq⟩
    · exact heq ▸ reg.setComment hm hid (hf ▸ hcheck)
    · exact heq ▸ reg.addComment (hf ▸ hcheck)
  | _ => exact (exec_write pg s env _).registered_of_same reg rfl rfl

end
end TaskPlatform.Board

import TaskPlatform.Library.Links
import TaskPlatform.Library.Shown
import TaskPlatform.Board.Tenancy

/-! What a run never changes of a row. A save writes every column of an entity that may have been loaded long before, and
    may even add a row again that was deleted meanwhile; but what it writes of some columns is what they always were. -/

namespace TaskPlatform.Board
open Effects Relation

/-! ### Identities -/

/-- What is set of a row when it is added. A save may take the microseconds of `created_at` away. -/
inductive Identity where
  | project (id workspaceId createdBy : Uuid) (createdAt : Timestamptz)
  | task (id projectId createdBy : Uuid) (createdAt : Timestamptz)
  | comment (id taskId authorId : Uuid) (parentCommentId : Option Uuid) (createdAt : Timestamptz)
  | activity (a : TaskActivity)

def Identity.id : Identity → Uuid
  | project id _ _ _ | task id _ _ _ | comment id _ _ _ _ => id
  | activity a => a.id

def Row.id : Row → Uuid
  | .project r => r.id
  | .task t => t.id
  | .comment m => m.id
  | .activity a => a.id

def Row.identity : Row → Identity
  | .project r => .project r.id r.workspaceId r.createdBy r.createdAt.truncate
  | .task t => .task t.id t.projectId t.createdBy t.createdAt.truncate
  | .comment m => .comment m.id m.taskId m.authorId m.parentCommentId m.createdAt.truncate
  | .activity a => .activity a

@[simp] theorem Row.identity_id (x : Row) : x.identity.id = x.id := by
  cases x <;> rfl

def Project.identity (p : Project) : Identity := .project p.id p.workspaceId.uuid p.createdBy p.createdAt.truncate

def Task.identity (t : Task) : Identity := .task t.id t.projectId.uuid t.createdBy t.createdAt.truncate

def Comment.identity (m : Comment) : Identity :=
  .comment m.id m.taskId.uuid m.authorId (m.parentCommentId.map UuidText.uuid) m.createdAt.truncate

theorem ProjectRow.toEntity_identity (r : ProjectRow) : r.toEntity.identity = Row.identity (.project r) :=
  congrArg (Identity.project r.id r.workspaceId r.createdBy) r.createdAt.truncate_truncate

theorem TaskRow.toEntity_identity (t : TaskRow) : t.toEntity.identity = Row.identity (.task t) :=
  congrArg (Identity.task t.id t.projectId t.createdBy) t.createdAt.truncate_truncate

theorem CommentRow.toEntity_identity (m : CommentRow) : m.toEntity.identity = Row.identity (.comment m) := by
  have hparent : (m.parentCommentId.map Uuid.text).map UuidText.uuid = m.parentCommentId := by
    cases m.parentCommentId <;> rfl
  exact congrArg₂ (Identity.comment m.id m.taskId m.authorId) hparent m.createdAt.truncate_truncate

theorem Project.toRow?_identity {p : Project} {r : ProjectRow} (h : p.toRow? = .ok r) :
    Row.identity (.project r) = p.identity := by
  obtain ⟨_, -, h⟩ := ok_of_bind h
  obtain ⟨_, -, h⟩ := ok_of_bind h
  cases h
  rfl

theorem Task.toRow?_identity {t : Task} {r : TaskRow} (h : t.toRow? = .ok r) : Row.identity (.task r) = t.identity := by
  obtain ⟨_, -, h⟩ := ok_of_bind h
  obtain ⟨_, -, h⟩ := ok_of_bind h
  obtain ⟨_, -, h⟩ := ok_of_bind h
  cases h
  rfl

/-! ### What the states of a run have shown -/

/-- The rows of the tables of a board. -/
def Tables.everyRow (s : Tables) : Set Row
  | .project r => r ∈ s.projects
  | .task t => t ∈ s.tasks
  | .comment m => m ∈ s.comments
  | .activity a => a ∈ s.activity

/-- The row that a call inserts. -/
def Call.inserted? (env : Env) : Call → Option Row
  | .insertProject n => some (.project (n.toRow env))
  | .insertTask n => some (.task (n.toRow env))
  | .insertComment n => some (.comment (n.toRow env))
  | .insertActivity n => some (.activity (n.toRow env))
  | _ => none

/-- The rows that were there at some time. -/
abbrev History := Set Row

namespace History
variable {k k' : History} {s s' : Tables} {env : Env} {c : Call} {x y : Row}

def Knows (k : History) (i : Identity) : Prop := ∃ x ∈ k, x.identity = i

/-- The comment `a` was a reply to the comment `b`. -/
def Replies (k : History) (a b : Uuid) : Prop := ∃ m, .comment m ∈ k ∧ m.id = a ∧ m.parentCommentId = some b

/-- The comment was on the task. -/
def HasComment (k : History) (t c : Uuid) : Prop := ∃ m, .comment m ∈ k ∧ m.id = c ∧ m.taskId = t

/-- No id was used for two things, and every reply was to a comment on its task that was there before. -/
structure Fits (k : History) (s : Tables) : Prop where
  wellFormed : s.WellFormed
  shown : s.everyRow ⊆ k
  spent : ∀ x ∈ k, x.id ∈ s.generated.uuids
  one : ∀ x ∈ k, ∀ y ∈ k, x.id = y.id → x.identity = y.identity
  parents : ∀ m, .comment m ∈ k → ∀ p ∈ m.parentCommentId, k.HasComment m.taskId p
  acyclic : Links.Acyclic k.Replies

theorem Knows.grow {i : Identity} (h : k.Knows i) (hk : k ≤ k') : k'.Knows i :=
  let ⟨x, hx, hi⟩ := h
  ⟨x, hk hx, hi⟩

theorem HasComment.grow {t m : Uuid} (h : k.HasComment t m) (hk : k ≤ k') : k'.HasComment t m :=
  let ⟨x, hx, hi⟩ := h
  ⟨x, hk hx, hi⟩

/-! ### What a save knows of the row that it sets -/

def pre (k : History) : Call → Prop
  | .saveProject p => k.Knows p.identity
  | .saveTask t => k.Knows t.identity
  | .saveComment m => k.Knows m.identity
  | .insertComment n => ∀ q ∈ n.parentCommentId, k.HasComment n.taskId.uuid q.uuid
  | _ => True

def post (k : History) : (c : Call) → c.Reply → Prop
  | .findProject _ _, some p => k.Knows p.identity
  | .findTask _ _, some t => k.Knows t.identity
  | .findComment id t, some m => k.Knows m.identity ∧ k.HasComment t id
  | _, _ => True

def identities : Contract interface History where
  pre := pre
  post := post
  alike _ a a' := a = a'
  grows {k k' c} hk h := by
    cases c with
    | saveProject | saveTask | saveComment => exact Knows.grow h hk
    | insertComment => exact fun q hq => (h q hq).grow hk
    | _ => trivial

/-! ### The rows after a call -/

/-- A row in place of another one of the same identity, but for `created_at`, has that identity. -/
theorem over_project {r old : ProjectRow} (h : Row.identity (.project r) = Row.identity (.project old)) :
    Row.identity (.project (r.over old)) = Row.identity (.project old) := by
  obtain ⟨hid, hworkspace, hby, -⟩ := Identity.project.inj h
  simp only [Row.identity, ProjectRow.over, hid, hworkspace, hby]

theorem over_task {r old : TaskRow} (h : Row.identity (.task r) = Row.identity (.task old)) :
    Row.identity (.task (r.over old)) = Row.identity (.task old) := by
  obtain ⟨hid, hproject, hby, -⟩ := Identity.task.inj h
  simp only [Row.identity, TaskRow.over, hid, hproject, hby]

theorem over_comment {r old : CommentRow} (h : Row.identity (.comment r) = Row.identity (.comment old)) :
    Row.identity (.comment (r.over old)) = Row.identity (.comment old) := by
  obtain ⟨hid, htask, hauthor, hparent, -⟩ := Identity.comment.inj h
  simp only [Row.identity, CommentRow.over, hid, htask, hauthor, hparent]

/-- A row of a known identity with the id of a row that is there is of the same identity. -/
theorem Fits.same (h : k.Fits s) (known : k.Knows x.identity) (hy : y ∈ k) (id : y.id = x.id) : x.identity = y.identity := by
  obtain ⟨z, hz, heq⟩ := known
  have hid : z.id = y.id := by rw [id, ← Row.identity_id z, heq, Row.identity_id]
  exact heq ▸ h.one z hz y hy hid

theorem Fits.spend (h : k.Fits s) (env : Env) : k.Fits (s.spend env) :=
  { h with
    wellFormed := h.wellFormed.spend env
    shown := fun x hx => h.shown (by cases x <;> exact hx)
    spent := fun x hx => List.mem_cons_of_mem _ (h.spent x hx) }

/-- A row after a call is of a known identity, or the call inserted it. -/
theorem Fits.row (h : k.Fits s) (w : Write (s.spend env) env c s') (hpre : pre k c) (hx : x ∈ s'.everyRow) :
    k.Knows x.identity ∨ c.inserted? env = some x := by
  have old : ∀ {y : Row}, y ∈ s.everyRow → k.Knows y.identity := fun hy => ⟨_, h.shown hy, rfl⟩
  have project : ∀ {r}, c.projectRow? env = some r → k.Knows (Row.identity (.project r)) ∨
      c.inserted? env = some (.project r) := by
    intro r row
    cases c with
    | insertProject n => exact Or.inr (congrArg (Option.map Row.project) row)
    | saveProject p => exact Or.inl (Project.toRow?_identity (ok_of_toOption row) ▸ hpre)
    | _ => cases row
  have task : ∀ {r}, c.taskRow? env = some r → k.Knows (Row.identity (.task r)) ∨ c.inserted? env = some (.task r) := by
    intro r row
    cases c with
    | insertTask n => exact Or.inr (congrArg (Option.map Row.task) row)
    | saveTask t => exact Or.inl (Task.toRow?_identity (ok_of_toOption row) ▸ hpre)
    | _ => cases row
  have comment : ∀ {r}, c.commentRow? env = some r → k.Knows (Row.identity (.comment r)) ∨
      c.inserted? env = some (.comment r) := by
    intro r row
    cases c with
    | insertComment n => exact Or.inr (congrArg (Option.map Row.comment) row)
    | saveComment m =>
      cases row
      exact Or.inl hpre
    | _ => cases row
  cases w with
  | same => exact Or.inl (old (by cases x <;> exact hx))
  | @projectAdded r row fresh =>
    cases x with
    | project y =>
      rcases List.mem_append.mp hx with hx | hx
      · exact Or.inl (old (y := .project y) hx)
      · exact List.mem_singleton.mp hx ▸ project row
    | _ => exact Or.inl (old hx)
  | @projectSet p r o call row mem id =>
    cases x with
    | project y =>
      rcases (Table.mem_replace (x := r.over o) ⟨o, mem, id⟩).mp hx with rfl | ⟨hx, -⟩
      · have known : k.Knows (Row.identity (.project r)) := by
          subst call
          exact Project.toRow?_identity row ▸ hpre
        have hsame := h.same (x := .project r) (y := .project o) known (h.shown mem) id
        exact Or.inl ⟨.project o, h.shown mem, (over_project hsame).symm⟩
      · exact Or.inl (old (y := .project y) hx)
    | _ => exact Or.inl (old hx)
  | @taskAdded r row fresh refs =>
    cases x with
    | task y =>
      rcases List.mem_append.mp hx with hx | hx
      · exact Or.inl (old (y := .task y) hx)
      · exact List.mem_singleton.mp hx ▸ task row
    | _ => exact Or.inl (old hx)
  | @taskSet t r o call row mem id refs =>
    cases x with
    | task y =>
      rcases (Table.mem_replace (x := r.over o) ⟨o, mem, id⟩).mp hx with rfl | ⟨hx, -⟩
      · have known : k.Knows (Row.identity (.task r)) := by
          subst call
          exact Task.toRow?_identity row ▸ hpre
        have hsame := h.same (x := .task r) (y := .task o) known (h.shown mem) id
        exact Or.inl ⟨.task o, h.shown mem, (over_task hsame).symm⟩
      · exact Or.inl (old (y := .task y) hx)
    | _ => exact Or.inl (old hx)
  | @commentAdded r row fresh refs =>
    cases x with
    | comment y =>
      rcases List.mem_append.mp hx with hx | hx
      · exact Or.inl (old (y := .comment y) hx)
      · exact List.mem_singleton.mp hx ▸ comment row
    | _ => exact Or.inl (old hx)
  | @commentSet m r o call row mem id refs =>
    cases x with
    | comment y =>
      rcases (Table.mem_replace (x := r.over o) ⟨o, mem, id⟩).mp hx with rfl | ⟨hx, -⟩
      · have known : k.Knows (Row.identity (.comment r)) := by
          subst call row
          exact hpre
        have hsame := h.same (x := .comment r) (y := .comment o) known (h.shown mem) id
        exact Or.inl ⟨.comment o, h.shown mem, (over_comment hsame).symm⟩
      · exact Or.inl (old (y := .comment y) hx)
    | _ => exact Or.inl (old hx)
  | @activityAdded n call fresh task =>
    cases x with
    | activity a =>
      rcases List.mem_append.mp hx with hx | hx
      · exact Or.inl (old (y := .activity a) hx)
      · obtain rfl := List.mem_singleton.mp hx
        exact Or.inr (call ▸ rfl)
    | _ => exact Or.inl (old hx)
  | projectRemoved =>
    cases x with
    | project r => exact Or.inl (old (y := .project r) (List.mem_filter.mp hx).1)
    | task t => exact Or.inl (old (y := .task t) (Tables.mem_deleteTasks.mp hx).1)
    | comment m => exact Or.inl (old (y := .comment m) (Tables.mem_deleteTasks_comments.mp hx).1)
    | activity a => exact Or.inl (old (y := .activity a) (Tables.mem_deleteTasks_activity.mp hx).1)
  | taskRemoved =>
    cases x with
    | project r => exact Or.inl (old (y := .project r) hx)
    | task t => exact Or.inl (old (y := .task t) (Tables.mem_deleteTasks.mp hx).1)
    | comment m => exact Or.inl (old (y := .comment m) (Tables.mem_deleteTasks_comments.mp hx).1)
    | activity a => exact Or.inl (old (y := .activity a) (Tables.mem_deleteTasks_activity.mp hx).1)
  | commentRemoved =>
    cases x with
    | comment m => exact Or.inl (old (y := .comment m) (Tables.mem_deleteComments.mp hx).1)
    | _ => exact Or.inl (old hx)

/-- A comment of a known identity was there before, on the same task and under the same comment. -/
theorem Knows.comment {m : CommentRow} (h : k.Knows (Row.identity (.comment m))) :
    ∃ o, .comment o ∈ k ∧ o.id = m.id ∧ o.taskId = m.taskId ∧ o.authorId = m.authorId ∧
      o.parentCommentId = m.parentCommentId := by
  obtain ⟨x, hx, heq⟩ := h
  cases x with
  | comment o =>
    obtain ⟨hid, htask, hauthor, hparent, -⟩ := Identity.comment.inj heq
    exact ⟨o, hx, hid, htask, hauthor, hparent⟩
  | _ => cases heq

theorem inserted_id (h : c.inserted? env = some x) : x.id = env.uuid := by
  cases c with
  | insertProject | insertTask | insertComment | insertActivity =>
    cases h
    rfl
  | _ => cases h

theorem inserted_comment {m : CommentRow} (h : c.inserted? env = some (.comment m)) :
    ∃ n, c = .insertComment n ∧ m = n.toRow env := by
  cases c with
  | insertComment n =>
    cases h
    exact ⟨n, rfl, rfl⟩
  | insertProject | insertTask | insertActivity => cases h
  | _ => cases h

/-- What a call leaves fits what was shown before and after it. -/
theorem Fits.write (h : k.Fits s) (hadm : s.generated.admits env = true) (w : Write (s.spend env) env c s')
    (hpre : pre k c) : (k ∪ s'.everyRow).Fits s' := by
  have hnew : ∀ x ∈ k, x.id ≠ env.uuid := fun x hx heq => (Generated.admits_iff.mp hadm).1 (heq ▸ h.spent x hx)
  have hrow : ∀ x ∈ k ∪ s'.everyRow, k.Knows x.identity ∨ c.inserted? env = some x := fun x hx =>
    hx.elim (fun hx => Or.inl ⟨x, hx, rfl⟩) (h.row w hpre)
  have le : k ≤ k ∪ s'.everyRow := Set.subset_union_left
  -- A comment of the history was there before, or it is the one that is inserted.
  have hcomment : ∀ {m : CommentRow}, .comment m ∈ k ∪ s'.everyRow →
      (∃ o, .comment o ∈ k ∧ o.id = m.id ∧ o.taskId = m.taskId ∧ o.parentCommentId = m.parentCommentId) ∨
        ∃ n, c = .insertComment n ∧ m = n.toRow env := fun hm => by
    refine (hrow _ hm).imp (fun known => ?_) inserted_comment
    obtain ⟨o, ho, hid, htask, -, hparent⟩ := known.comment
    exact ⟨o, ho, hid, htask, hparent⟩
  constructor
  · exact w.wellFormed (h.wellFormed.spend env)
  · exact Set.subset_union_right
  · intro x hx
    rw [w.outside.2.2]
    rcases hrow x hx with ⟨y, hy, heq⟩ | hins
    · rw [← Row.identity_id, ← heq, Row.identity_id]
      exact List.mem_cons_of_mem _ (h.spent y hy)
    · exact inserted_id hins ▸ List.mem_cons_self ..
  · intro x hx y hy hid
    rcases hrow x hx with ⟨x', hx', hxid⟩ | hins
    · rcases hrow y hy with ⟨y', hy', hyid⟩ | hins
      · rw [← hxid, ← hyid]
        refine h.one x' hx' y' hy' ?_
        rw [← Row.identity_id, hxid, Row.identity_id, hid, ← Row.identity_id, ← hyid, Row.identity_id]
      · refine absurd ?_ (hnew x' hx')
        rw [← inserted_id hins, ← hid, ← Row.identity_id, hxid, Row.identity_id]
    · rcases hrow y hy with ⟨y', hy', hyid⟩ | hins'
      · refine absurd ?_ (hnew y' hy')
        rw [← inserted_id hins, hid, ← Row.identity_id, hyid, Row.identity_id]
      · rw [Option.some.inj (hins.symm.trans hins')]
  · intro m hm p hp
    rcases hcomment hm with ⟨o, ho, -, htask, hparent⟩ | ⟨n, rfl, rfl⟩
    · exact htask ▸ (h.parents o ho p (hparent ▸ hp)).grow le
    · obtain ⟨q, hq, rfl⟩ := Option.map_eq_some_iff.mp hp
      exact (hpre q hq).grow le
  · have links : ∀ a b, History.Replies (k ∪ s'.everyRow) a b → k.Replies a b ∨
        ∃ n q, c = .insertComment n ∧ n.parentCommentId = some q ∧ a = env.uuid ∧ b = q.uuid := by
      rintro a b ⟨m, hm, rfl, hb⟩
      rcases hcomment hm with ⟨o, ho, hid, -, hparent⟩ | ⟨n, rfl, rfl⟩
      · exact Or.inl ⟨o, ho, hid, hparent.trans hb⟩
      · obtain ⟨q, hq, rfl⟩ := Option.map_eq_some_iff.mp hb
        exact Or.inr ⟨n, q, rfl, hq, rfl, rfl⟩
    by_cases hreply : ∃ n q, c = .insertComment n ∧ n.parentCommentId = some q
    · -- The new comment is under one that was there, and nothing is under it.
      obtain ⟨n, q, rfl, hq⟩ := hreply
      obtain ⟨parent, hparent, hid, -⟩ := hpre q hq
      refine h.acyclic.add (x := env.uuid) (p := q.uuid) (fun a b hab => (links a b hab).imp id ?_) ?_ ?_
      · rintro ⟨n', q', heq, hq', rfl, rfl⟩
        cases heq
        cases hq.symm.trans hq'
        exact ⟨rfl, rfl⟩
      · rintro a ⟨m, hm, -, hp⟩
        obtain ⟨o, ho, hoid, -⟩ := h.parents m hm env.uuid hp
        exact hnew _ ho hoid
      · exact fun heq => hnew _ hparent (hid.trans heq)
    · refine h.acyclic.mono fun a b hab => (links a b hab).resolve_right ?_
      rintro ⟨n, q, hc, hq, -⟩
      exact hreply ⟨n, q, hc, hq⟩

/-- What a reply shows of a row, its row has shown. -/
theorem Fits.answer {pg : Postgres} (h : k.Fits s) (hk : k ≤ k') (a : c.Reply)
    (ha : (exec pg env c (s.spend env)).1 = .ok a) : k'.post c a := by
  cases c with
  | findProject id w =>
    cases a with
    | none => trivial
    | some p =>
      obtain ⟨x, hx, rfl⟩ := Option.map_eq_some_iff.mp (Except.ok.inj ha)
      exact ⟨_, hk (h.shown (a := .project x) (find?_some hx).1), x.toEntity_identity.symm⟩
  | findTask id p =>
    cases a with
    | none => trivial
    | some t =>
      obtain ⟨x, hx, rfl⟩ := Option.map_eq_some_iff.mp (Except.ok.inj ha)
      exact ⟨_, hk (h.shown (a := .task x) (find?_some hx).1), x.toEntity_identity.symm⟩
  | findComment id t =>
    cases a with
    | none => trivial
    | some m =>
      obtain ⟨x, hx, rfl⟩ := Option.map_eq_some_iff.mp (Except.ok.inj ha)
      obtain ⟨hmem, hp⟩ := find?_some hx
      simp only [Bool.and_eq_true, decide_eq_true_eq] at hp
      have hshown : Row.comment x ∈ k := h.shown (a := .comment x) hmem
      exact ⟨⟨_, hk hshown, x.toEntity_identity.symm⟩, x, hk hshown, hp⟩
  | _ => trivial

/-- What the states of a run have shown is what its requests know. -/
theorem shows (pg : Postgres) : (system pg).Shows Tables.everyRow (fun _ => identities) Fits where
  shown h := h.shown
  spend h _ := h.spend _
  call h hadm hpre := ⟨h.write hadm (exec_write pg _ _ _) hpre, fun a ha => h.answer Set.subset_union_left a ha⟩

end History
end TaskPlatform.Board

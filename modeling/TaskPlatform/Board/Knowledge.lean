import Mathlib.Data.Set.BooleanAlgebra
import Mathlib.Order.CompletePartialOrder
import TaskPlatform.Library.Contract
import TaskPlatform.Board.Integrity

/-! What a request knows of the rows it has read: the workspace of a project, the project of a task, the task and
    the author of a comment. None of these ever changes, and no id is used twice; so a request may act on what it
    has read, whatever others do in between. -/

namespace TaskPlatform.Board
open Effects Relation

/-- What never changes of a row. -/
inductive Fact where
  | project (id workspaceId : Uuid)
  | task (id projectId : Uuid)
  | comment (id taskId authorId : Uuid)

def Fact.id : Fact → Uuid
  | project id _ | task id _ | comment id _ _ => id

abbrev Knowledge := Set Fact

namespace Knowledge
variable {k k' : Knowledge} {s : Tables} {env : Env} {c : Call}

/-- The task is known to be in a project of the workspace. -/
def HasTask (k : Knowledge) (w t : Uuid) : Prop := ∃ p, .project p w ∈ k ∧ .task t p ∈ k

/-- The comment is known to be on the task. -/
def HasComment (k : Knowledge) (t c : Uuid) : Prop := ∃ a, .comment c t a ∈ k

/-- What is known holds of the rows, and of ids that were generated; every row is known, and its parent is in its
    project or on its task. No id of the activity is still to be generated. -/
structure Fits (k : Knowledge) (s : Tables) : Prop where
  wellFormed : s.WellFormed
  spent : ∀ f ∈ k, f.id ∈ s.generated.uuids
  oneWorkspace : ∀ {id w w'}, .project id w ∈ k → .project id w' ∈ k → w = w'
  oneProject : ∀ {id p p'}, .task id p ∈ k → .task id p' ∈ k → p = p'
  oneTask : ∀ {id t t' a a'}, .comment id t a ∈ k → .comment id t' a' ∈ k → t = t' ∧ a = a'
  project : ∀ r ∈ s.projects, .project r.id r.workspaceId ∈ k
  task : ∀ t ∈ s.tasks, .task t.id t.projectId ∈ k
  taskParent : ∀ t ∈ s.tasks, ∀ p ∈ t.parentTaskId, .task p t.projectId ∈ k
  comment : ∀ m ∈ s.comments, .comment m.id m.taskId m.authorId ∈ k
  commentParent : ∀ m ∈ s.comments, ∀ p ∈ m.parentCommentId, k.HasComment m.taskId p
  activity : ∀ a ∈ s.activity, a.id ∈ s.generated.uuids

theorem HasTask.grow {w t : Uuid} (h : k.HasTask w t) (hk : k ≤ k') : k'.HasTask w t :=
  let ⟨p, hp, ht⟩ := h
  ⟨p, hk hp, hk ht⟩

theorem HasComment.grow {t c : Uuid} (h : k.HasComment t c) (hk : k ≤ k') : k'.HasComment t c :=
  let ⟨a, ha⟩ := h
  ⟨a, hk ha⟩

end Knowledge

/-- The row is there that says so. -/
def Fact.Shown (s : Tables) : Fact → Prop
  | project id w => ∃ r ∈ s.projects, r.id = id ∧ r.workspaceId = w
  | task id p => ∃ t ∈ s.tasks, t.id = id ∧ t.projectId = p
  | comment id t a => ∃ m ∈ s.comments, m.id = id ∧ m.taskId = t ∧ m.authorId = a

/-! ### The contract of a request -/

/-- The request is to delete this comment, and may do so if it is by this author. -/
def Request.mayRemove (r : Request) (id author : Uuid) : Prop :=
  ∃ p t c actor role, r.operation = .removeComment p t c actor role ∧ c.uuid = id ∧
    (author = actor ∨ role = some .ADMIN)

/-- What a request has made sure of before it makes a call. -/
def Request.pre (r : Request) (k : Knowledge) : Call → Prop
  | .findProject _ w => w = r.workspaceId.uuid
  | .insertProject n => n.workspaceId.uuid = r.workspaceId.uuid
  | .saveProject p => p.workspaceId.uuid = r.workspaceId.uuid ∧ .project p.id r.workspaceId.uuid ∈ k
  | .removeProject id => .project id r.workspaceId.uuid ∈ k
  | .listProjects f _ _ => f.workspaceId = r.workspaceId.uuid
  | .findTask _ p => .project p r.workspaceId.uuid ∈ k
  | .insertTask n =>
    .project n.projectId.uuid r.workspaceId.uuid ∈ k ∧ ∀ q ∈ n.parentTaskId, .task q.uuid n.projectId.uuid ∈ k
  | .saveTask t =>
    .project t.projectId.uuid r.workspaceId.uuid ∈ k ∧ .task t.id t.projectId.uuid ∈ k ∧
      ∀ q ∈ t.parentTaskId, .task q.uuid t.projectId.uuid ∈ k
  | .removeTask id | .descendants id | .depthOf id => k.HasTask r.workspaceId.uuid id
  | .listTasks f _ _ => .project f.projectId r.workspaceId.uuid ∈ k
  | .subtree _ p => .project p r.workspaceId.uuid ∈ k
  | .findComment _ t => k.HasTask r.workspaceId.uuid t
  | .insertComment n =>
    k.HasTask r.workspaceId.uuid n.taskId.uuid ∧ ∀ q ∈ n.parentCommentId, k.HasComment n.taskId.uuid q.uuid
  | .saveComment m =>
    k.HasTask r.workspaceId.uuid m.taskId.uuid ∧ .comment m.id m.taskId.uuid m.authorId ∈ k ∧
      ∀ q ∈ m.parentCommentId, k.HasComment m.taskId.uuid q.uuid
  | .removeComment id =>
    ∃ t a, k.HasTask r.workspaceId.uuid t ∧ .comment id t a ∈ k ∧ r.mayRemove id a
  | .listComments f _ _ => k.HasTask r.workspaceId.uuid f.taskId
  | .insertActivity n => k.HasTask r.workspaceId.uuid n.taskId.uuid
  | .listActivity t _ _ => k.HasTask r.workspaceId.uuid t

/-- What is known from a reply. -/
def Knowledge.post (k : Knowledge) : (c : Call) → c.Reply → Prop
  | .findProject id w, some p => p.id = id ∧ p.workspaceId.uuid = w ∧ .project id w ∈ k
  | .findTask id p, some t =>
    t.id = id ∧ t.projectId.uuid = p ∧ .task id p ∈ k ∧ ∀ q ∈ t.parentTaskId, .task q.uuid p ∈ k
  | .insertTask n, t => .task t.id n.projectId.uuid ∈ k
  | .saveTask t, t' => t' = t
  | .findComment id t, some m =>
    m.id = id ∧ m.taskId.uuid = t ∧ .comment id t m.authorId ∈ k ∧ ∀ q ∈ m.parentCommentId, k.HasComment t q.uuid
  | _, _ => True

/-- The order of the rows that `descendants` returns is open. -/
def alike : (c : Call) → c.Reply → c.Reply → Prop
  | .descendants _ => fun (rows rows' : List (Uuid × Nat)) => rows.Perm rows'
  | _ => fun a a' => a = a'

def contract (r : Request) : Contract interface Knowledge where
  pre := r.pre
  post := Knowledge.post
  alike := alike
  grows {k k' c} hk h := by
    cases c with
    | findProject | insertProject | listProjects => exact h
    | removeProject | findTask | listTasks | subtree => exact hk h
    | saveProject => exact ⟨h.1, hk h.2⟩
    | insertTask => exact ⟨hk h.1, fun q hq => hk (h.2 q hq)⟩
    | saveTask => exact ⟨hk h.1, hk h.2.1, fun q hq => hk (h.2.2 q hq)⟩
    | removeTask | descendants | depthOf | findComment | listComments | insertActivity | listActivity => exact h.grow hk
    | insertComment => exact ⟨h.1.grow hk, fun q hq => (h.2 q hq).grow hk⟩
    | saveComment => exact ⟨h.1.grow hk, hk h.2.1, fun q hq => (h.2.2 q hq).grow hk⟩
    | removeComment =>
      obtain ⟨t, a, ht, ha, hr⟩ := h
      exact ⟨t, a, ht.grow hk, hk ha, hr⟩

/-! ### What a call makes known -/

/-- The facts of the row that a call inserts. -/
def Call.facts (env : Env) : Call → Knowledge
  | .insertProject n => {.project env.uuid n.workspaceId.uuid}
  | .insertTask n => {.task env.uuid n.projectId.uuid}
  | .insertComment n => {.comment env.uuid n.taskId.uuid n.authorId}
  | _ => ∅

def Knowledge.learn (k : Knowledge) (env : Env) (c : Call) : Knowledge := k ∪ c.facts env

section
variable {pg : Postgres} {k : Knowledge} {s s' : Tables} {env : Env} {r : Request} {c : Call} {f g : Fact}

theorem Call.facts_id (h : f ∈ c.facts env) : f.id = env.uuid := by
  cases c <;> simp only [facts, Set.mem_singleton_iff, Set.mem_empty_iff_false] at h <;> subst h <;> rfl

theorem Call.facts_one (hf : f ∈ c.facts env) (hg : g ∈ c.facts env) : f = g := by
  cases c <;> simp only [facts, Set.mem_singleton_iff, Set.mem_empty_iff_false] at hf hg <;> rw [hf, hg]

namespace Knowledge

theorem le_learn : k ≤ k.learn env c := Set.subset_union_left

/-- A fact that is learned is the fact of a new id. -/
theorem Fits.learn_cases (h : k.Fits s) (hadm : s.generated.admits env = true) (hf : f ∈ k.learn env c)
    (hg : g ∈ k.learn env c) (hid : f.id = g.id) : f ∈ k ∧ g ∈ k ∨ f = g := by
  have hnew : ∀ f ∈ k, f.id ≠ env.uuid := fun f hf heq => (Generated.admits_iff.mp hadm).1 (heq ▸ h.spent f hf)
  rcases hf with hf | hf <;> rcases hg with hg | hg
  · exact Or.inl ⟨hf, hg⟩
  · exact absurd (hid.trans (Call.facts_id hg)) (hnew f hf)
  · exact absurd (hid.symm.trans (Call.facts_id hf)) (hnew g hg)
  · exact Or.inr (Call.facts_one hf hg)

/-- The rows of `s'` being known, all that is learned fits them. -/
theorem Fits.learn (h : k.Fits s) (hadm : s.generated.admits env = true) (wf : s'.WellFormed)
    (generated : s'.generated = s.generated.spend env)
    (project : ∀ r ∈ s'.projects, .project r.id r.workspaceId ∈ k.learn env c)
    (task : ∀ t ∈ s'.tasks, .task t.id t.projectId ∈ k.learn env c)
    (taskParent : ∀ t ∈ s'.tasks, ∀ p ∈ t.parentTaskId, .task p t.projectId ∈ k.learn env c)
    (comment : ∀ m ∈ s'.comments, .comment m.id m.taskId m.authorId ∈ k.learn env c)
    (commentParent : ∀ m ∈ s'.comments, ∀ p ∈ m.parentCommentId, (k.learn env c).HasComment m.taskId p)
    (activity : ∀ a ∈ s'.activity, a.id ∈ s'.generated.uuids) : (k.learn env c).Fits s' where
  wellFormed := wf
  spent f hf := by
    rw [generated]
    rcases hf with hf | hf
    · exact List.mem_cons_of_mem _ (h.spent f hf)
    · exact Call.facts_id hf ▸ List.mem_cons_self ..
  oneWorkspace hf hg := by
    rcases h.learn_cases hadm hf hg rfl with ⟨hf, hg⟩ | heq
    · exact h.oneWorkspace hf hg
    · exact (Fact.project.inj heq).2
  oneProject hf hg := by
    rcases h.learn_cases hadm hf hg rfl with ⟨hf, hg⟩ | heq
    · exact h.oneProject hf hg
    · exact (Fact.task.inj heq).2
  oneTask hf hg := by
    rcases h.learn_cases hadm hf hg rfl with ⟨hf, hg⟩ | heq
    · exact h.oneTask hf hg
    · exact (Fact.comment.inj heq).2
  project := project
  task := task
  taskParent := taskParent
  comment := comment
  commentParent := commentParent
  activity := activity

theorem Fits.spend (h : k.Fits s) (env : Env) : k.Fits (s.spend env) :=
  { h with
    wellFormed := h.wellFormed.spend env
    spent := fun f hf => List.mem_cons_of_mem _ (h.spent f hf)
    activity := fun a ha => List.mem_cons_of_mem _ (h.activity a ha) }

end Knowledge

/-! ### The rows that a call writes are known -/

theorem Request.pre_projectRow (h : r.pre k c) {x : ProjectRow} (hrow : c.projectRow? env = some x) :
    x.workspaceId = r.workspaceId.uuid ∧ .project x.id r.workspaceId.uuid ∈ k.learn env c := by
  cases c with
  | insertProject n =>
    obtain rfl := Option.some.inj hrow
    exact ⟨h, Or.inr (h ▸ rfl)⟩
  | saveProject p =>
    obtain ⟨hid, hw⟩ := Project.toRow?_ok (ok_of_toOption hrow)
    exact ⟨hw.trans h.1, hid ▸ Or.inl h.2⟩
  | _ => cases hrow

theorem Request.pre_taskRow (h : r.pre k c) {x : TaskRow} (hrow : c.taskRow? env = some x) :
    .project x.projectId r.workspaceId.uuid ∈ k ∧ .task x.id x.projectId ∈ k.learn env c ∧
      ∀ p ∈ x.parentTaskId, .task p x.projectId ∈ k := by
  have hparents : ∀ {parent : Option UuidText} {p : Uuid}, (∀ q ∈ parent, .task q.uuid p ∈ k) →
      ∀ q ∈ parent.map UuidText.uuid, .task q p ∈ k := fun h p hp => by
    obtain ⟨q, hq, rfl⟩ := Option.map_eq_some_iff.mp hp
    exact h q hq
  cases c with
  | insertTask n =>
    obtain rfl := Option.some.inj hrow
    exact ⟨h.1, Or.inr rfl, hparents h.2⟩
  | saveTask t =>
    obtain ⟨hid, hproject, hparent⟩ := Task.toRow?_ok (ok_of_toOption hrow)
    rw [hid, hproject, hparent]
    exact ⟨h.1, Or.inl h.2.1, hparents h.2.2⟩
  | _ => cases hrow

theorem Request.pre_commentRow (h : r.pre k c) {x : CommentRow} (hrow : c.commentRow? env = some x) :
    k.HasTask r.workspaceId.uuid x.taskId ∧ .comment x.id x.taskId x.authorId ∈ k.learn env c ∧
      ∀ p ∈ x.parentCommentId, k.HasComment x.taskId p := by
  have hparents : ∀ {parent : Option UuidText} {t : Uuid}, (∀ q ∈ parent, k.HasComment t q.uuid) →
      ∀ q ∈ parent.map UuidText.uuid, k.HasComment t q := fun h p hp => by
    obtain ⟨q, hq, rfl⟩ := Option.map_eq_some_iff.mp hp
    exact h q hq
  cases c with
  | insertComment n =>
    obtain rfl := Option.some.inj hrow
    exact ⟨h.1, Or.inr rfl, hparents h.2⟩
  | saveComment m =>
    obtain rfl := Option.some.inj hrow
    exact ⟨h.1, Or.inl h.2.1, hparents h.2.2⟩
  | _ => cases hrow

/-- What a call leaves is known. -/
theorem Write.fits (w : Write (s.spend env) env c s') (h : k.Fits s) (hadm : s.generated.admits env = true)
    (hpre : r.pre k c) : (k.learn env c).Fits s' := by
  have wf := w.wellFormed (h.wellFormed.spend env)
  have project : ∀ x ∈ s.projects, .project x.id x.workspaceId ∈ k.learn env c := fun x hx => Or.inl (h.project x hx)
  have task : ∀ t ∈ s.tasks, .task t.id t.projectId ∈ k.learn env c := fun t ht => Or.inl (h.task t ht)
  have taskParent : ∀ t ∈ s.tasks, ∀ p ∈ t.parentTaskId, .task p t.projectId ∈ k.learn env c := fun t ht p hp =>
    Or.inl (h.taskParent t ht p hp)
  have comment : ∀ m ∈ s.comments, .comment m.id m.taskId m.authorId ∈ k.learn env c := fun m hm =>
    Or.inl (h.comment m hm)
  have commentParent : ∀ m ∈ s.comments, ∀ p ∈ m.parentCommentId, (k.learn env c).HasComment m.taskId p :=
    fun m hm p hp => (h.commentParent m hm p hp).grow Knowledge.le_learn
  have activity : ∀ a ∈ s.activity, a.id ∈ (s.spend env).generated.uuids := (h.spend env).activity
  cases w with
  | same => exact h.learn hadm wf rfl project task taskParent comment commentParent activity
  | activityAdded =>
    refine h.learn hadm wf rfl project task taskParent comment commentParent fun a ha => ?_
    rcases List.mem_append.mp ha with ha | ha
    · exact activity a ha
    · obtain rfl := List.mem_singleton.mp ha
      exact List.mem_cons_self ..
  | @projectAdded x row fresh =>
    refine h.learn hadm wf rfl (fun y hy => ?_) task taskParent comment commentParent activity
    rcases List.mem_append.mp hy with hy | hy
    · exact project y hy
    · obtain rfl := List.mem_singleton.mp hy
      obtain ⟨hw, hfact⟩ := Request.pre_projectRow hpre row
      exact hw ▸ hfact
  | @projectSet p x old call row mem id =>
    have hrow : c.projectRow? env = some x := by simp [call, Call.projectRow?, row, Except.toOption]
    refine h.learn hadm wf rfl (fun y hy => ?_) task taskParent comment commentParent activity
    rcases (Table.mem_replace (x := x.over old) ⟨old, mem, id⟩).mp hy with rfl | ⟨hy, -⟩
    · obtain ⟨hw, hfact⟩ := Request.pre_projectRow hpre hrow
      exact hw ▸ hfact
    · exact project y hy
  | @taskAdded x row fresh refs =>
    obtain ⟨-, hfact, hparent⟩ := Request.pre_taskRow hpre row
    refine h.learn hadm wf rfl project (fun y hy => ?_) (fun y hy p hp => ?_) comment commentParent activity
    · rcases List.mem_append.mp hy with hy | hy
      · exact task y hy
      · exact List.mem_singleton.mp hy ▸ hfact
    · rcases List.mem_append.mp hy with hy | hy
      · exact taskParent y hy p hp
      · obtain rfl := List.mem_singleton.mp hy
        exact Or.inl (hparent p hp)
  | @taskSet t x old call row mem id refs =>
    have hrow : c.taskRow? env = some x := by simp [call, Call.taskRow?, row, Except.toOption]
    obtain ⟨-, hfact, hparent⟩ := Request.pre_taskRow hpre hrow
    refine h.learn hadm wf rfl project (fun y hy => ?_) (fun y hy p hp => ?_) comment commentParent activity
    · rcases (Table.mem_replace (x := x.over old) ⟨old, mem, id⟩).mp hy with rfl | ⟨hy, -⟩
      · exact hfact
      · exact task y hy
    · rcases (Table.mem_replace (x := x.over old) ⟨old, mem, id⟩).mp hy with rfl | ⟨hy, -⟩
      · exact Or.inl (hparent p hp)
      · exact taskParent y hy p hp
  | @commentAdded x row fresh refs =>
    obtain ⟨-, hfact, hparent⟩ := Request.pre_commentRow hpre row
    refine h.learn hadm wf rfl project task taskParent (fun y hy => ?_) (fun y hy p hp => ?_) activity
    · rcases List.mem_append.mp hy with hy | hy
      · exact comment y hy
      · exact List.mem_singleton.mp hy ▸ hfact
    · rcases List.mem_append.mp hy with hy | hy
      · exact commentParent y hy p hp
      · obtain rfl := List.mem_singleton.mp hy
        exact (hparent p hp).grow Knowledge.le_learn
  | @commentSet m x old call row mem id refs =>
    have hrow : c.commentRow? env = some x := by rw [call, row]; rfl
    obtain ⟨-, hfact, hparent⟩ := Request.pre_commentRow hpre hrow
    refine h.learn hadm wf rfl project task taskParent (fun y hy => ?_) (fun y hy p hp => ?_) activity
    · rcases (Table.mem_replace (x := x.over old) ⟨old, mem, id⟩).mp hy with rfl | ⟨hy, -⟩
      · exact hfact
      · exact comment y hy
    · rcases (Table.mem_replace (x := x.over old) ⟨old, mem, id⟩).mp hy with rfl | ⟨hy, -⟩
      · exact (hparent p hp).grow Knowledge.le_learn
      · exact commentParent y hy p hp
  | projectRemoved =>
    exact h.learn hadm wf rfl (fun x hx => project x (List.mem_filter.mp hx).1)
      (fun t ht => task t (Tables.mem_deleteTasks.mp ht).1) (fun t ht => taskParent t (Tables.mem_deleteTasks.mp ht).1)
      (fun m hm => comment m (Tables.mem_deleteTasks_comments.mp hm).1)
      (fun m hm => commentParent m (Tables.mem_deleteTasks_comments.mp hm).1)
      (fun a ha => activity a (Tables.mem_deleteTasks_activity.mp ha).1)
  | taskRemoved =>
    exact h.learn hadm wf rfl project (fun t ht => task t (Tables.mem_deleteTasks.mp ht).1)
      (fun t ht => taskParent t (Tables.mem_deleteTasks.mp ht).1)
      (fun m hm => comment m (Tables.mem_deleteTasks_comments.mp hm).1)
      (fun m hm => commentParent m (Tables.mem_deleteTasks_comments.mp hm).1)
      (fun a ha => activity a (Tables.mem_deleteTasks_activity.mp ha).1)
  | commentRemoved =>
    exact h.learn hadm wf rfl project task taskParent (fun m hm => comment m (Tables.mem_deleteComments.mp hm).1)
      (fun m hm => commentParent m (Tables.mem_deleteComments.mp hm).1) activity

/-! ### What a reply makes known -/

theorem find?_some {ρ : Type} {p : ρ → Bool} {l : List ρ} {x : ρ} (h : l.find? p = some x) : x ∈ l ∧ p x = true :=
  ⟨List.mem_of_find?_eq_some h, List.find?_some h⟩

theorem commit_ok {σ α : Type} {s : σ} {a b : α} {x : Except DbError σ} (h : (commit s a x).1 = .ok b) : b = a := by
  cases x with
  | error e => cases h
  | ok s' => exact (Except.ok.inj h).symm

theorem answer_known (h : k.Fits s) (a : c.Reply) (ha : (exec pg env c (s.spend env)).1 = .ok a) :
    (k.learn env c).post c a := by
  cases c with
  | findProject id w =>
    cases a with
    | none => trivial
    | some p =>
      obtain ⟨x, hx, rfl⟩ := Option.map_eq_some_iff.mp (Except.ok.inj ha)
      obtain ⟨hmem, hp⟩ := find?_some hx
      simp only [Bool.and_eq_true, decide_eq_true_eq] at hp
      obtain ⟨rfl, rfl⟩ := hp
      exact ⟨rfl, rfl, Or.inl (h.project x hmem)⟩
  | findTask id p =>
    cases a with
    | none => trivial
    | some t =>
      obtain ⟨x, hx, rfl⟩ := Option.map_eq_some_iff.mp (Except.ok.inj ha)
      obtain ⟨hmem, hp⟩ := find?_some hx
      simp only [Bool.and_eq_true, decide_eq_true_eq] at hp
      obtain ⟨rfl, rfl⟩ := hp
      refine ⟨rfl, rfl, Or.inl (h.task x hmem), fun q hq => ?_⟩
      obtain ⟨p, hp, rfl⟩ := Option.map_eq_some_iff.mp hq
      exact Or.inl (h.taskParent x hmem p hp)
  | findComment id t =>
    cases a with
    | none => trivial
    | some m =>
      obtain ⟨x, hx, rfl⟩ := Option.map_eq_some_iff.mp (Except.ok.inj ha)
      obtain ⟨hmem, hp⟩ := find?_some hx
      simp only [Bool.and_eq_true, decide_eq_true_eq] at hp
      obtain ⟨rfl, rfl⟩ := hp
      refine ⟨rfl, rfl, Or.inl (h.comment x hmem), fun q hq => ?_⟩
      obtain ⟨p, hp, rfl⟩ := Option.map_eq_some_iff.mp hq
      exact (h.commentParent x hmem p hp).grow Knowledge.le_learn
  | insertTask n =>
    obtain rfl := commit_ok ha
    exact Or.inr rfl
  | saveTask t => exact commit_ok ha
  | _ => trivial

theorem Knowledge.post_grow {k k' : Knowledge} {a : c.Reply} (h : k.post c a) (hk : k ≤ k') : k'.post c a := by
  cases c with
  | findProject | findTask | findComment =>
    cases a with
    | none => trivial
    | some x =>
      simp only [post] at h ⊢
      first
        | exact ⟨h.1, h.2.1, hk h.2.2⟩
        | exact ⟨h.1, h.2.1, hk h.2.2.1, fun q hq => hk (h.2.2.2 q hq)⟩
        | exact ⟨h.1, h.2.1, hk h.2.2.1, fun q hq => (h.2.2.2 q hq).grow hk⟩
  | insertTask => exact hk h
  | saveTask => exact h
  | _ => trivial

/-- A write that is answered has been made. -/
theorem commit_made {σ α : Type} {s : σ} {a b : α} {x : Except DbError σ} (h : (commit s a x).1 = .ok b) :
    x = .ok (commit s a x).2 := by
  cases x with
  | error e => cases h
  | ok s' => rfl

/-- What is left where two checks pass. -/
theorem ok_of_checks {σ : Type} {x y : Except DbError Unit} {s s' : σ} (h : (do x; y; return s') = Except.ok s) : s = s' := by
  obtain ⟨_, -, h⟩ := ok_of_bind h
  obtain ⟨_, -, h⟩ := ok_of_bind h
  exact (Except.ok.inj h).symm

/-- The row of a task that was inserted or saved. -/
theorem inserted_shown {n : NewTask} {t : Task} (ha : (exec pg env (.insertTask n) s).1 = .ok t) :
    n.toRow env ∈ (exec pg env (.insertTask n) s).2.tasks :=
  (congrArg (n.toRow env ∈ Tables.tasks ·) (ok_of_checks (commit_made ha))).mpr List.mem_concat_self

theorem saved_shown {t t' : Task} (ha : (exec pg env (.saveTask t) s).1 = .ok t') :
    ∃ x ∈ (exec pg env (.saveTask t) s).2.tasks, x.id = t.id ∧ x.assigneeId = t.assigneeId.map UuidText.uuid := by
  obtain ⟨r, hr, h⟩ := ok_of_bind (commit_made ha)
  obtain ⟨_, -, h⟩ := ok_of_bind h
  obtain ⟨-, -, -, hid, -, -, -, hassignee, -⟩ := Task.toRow?_row hr
  have htasks : (exec pg env (.saveTask t) s).2.tasks = upsert TaskRow.id r.over r s.tasks :=
    congrArg Tables.tasks (Except.ok.inj h).symm
  rw [htasks]
  rcases upsert_cases TaskRow.id r.over r s.tasks with ⟨old, hmem, hold, -, heq⟩ | ⟨-, -, heq⟩
  · exact ⟨r.over old, heq ▸ (Table.mem_replace (x := r.over old) ⟨old, hmem, hold⟩).mpr (Or.inl rfl), hid, hassignee⟩
  · exact ⟨r, heq ▸ List.mem_concat_self, hid, hassignee⟩

/-- What an insert that is answered makes known, its row shows. -/
theorem facts_shown {a : c.Reply} (ha : (exec pg env c s).1 = .ok a) (hf : f ∈ c.facts env) :
    f.Shown (exec pg env c s).2 := by
  cases c with
  | insertProject n =>
    obtain rfl := Set.mem_singleton_iff.mp hf
    refine ⟨n.toRow env, ?_, rfl, rfl⟩
    exact (congrArg (n.toRow env ∈ Tables.projects ·) (ok_of_checks (commit_made ha))).mpr List.mem_concat_self
  | insertTask n =>
    obtain rfl := Set.mem_singleton_iff.mp hf
    exact ⟨n.toRow env, inserted_shown ha, rfl, rfl⟩
  | insertComment n =>
    obtain rfl := Set.mem_singleton_iff.mp hf
    refine ⟨n.toRow env, ?_, rfl, rfl, rfl⟩
    exact (congrArg (n.toRow env ∈ Tables.comments ·) (ok_of_checks (commit_made ha))).mpr List.mem_concat_self
  | _ => exact absurd hf (Set.notMem_empty _)

/-- Every call of a request whose preconditions are known leads to knowledge that fits the tables. -/
theorem fits (pg : Postgres) : (system pg).Fits contract Knowledge.Fits where
  spend h _ := h.spend _
  call h hadm hpre :=
    ⟨_, Knowledge.le_learn, (exec_write pg _ _ _).fits h hadm hpre, fun a ha => answer_known h a ha⟩

end

/-! ### Less knowledge -/

section
variable {k k₀ : Knowledge} {s : Tables}

theorem Knowledge.Fits.shown (h : k.Fits s) {f : Fact} (hf : f.Shown s) : f ∈ k := by
  cases f with
  | project id w =>
    obtain ⟨r, hr, rfl, rfl⟩ := hf
    exact h.project r hr
  | task id p =>
    obtain ⟨t, ht, rfl, rfl⟩ := hf
    exact h.task t ht
  | comment id t a =>
    obtain ⟨m, hm, rfl, rfl, rfl⟩ := hf
    exact h.comment m hm

/-- Part of what is known fits the tables too, if all that their rows say is part of it. -/
theorem Knowledge.Fits.part (h : k.Fits s) (le : k₀ ⊆ k) (shown : ∀ {f}, Fact.Shown s f → f ∈ k₀) : k₀.Fits s where
  wellFormed := h.wellFormed
  spent f hf := h.spent f (le hf)
  oneWorkspace hf hg := h.oneWorkspace (le hf) (le hg)
  oneProject hf hg := h.oneProject (le hf) (le hg)
  oneTask hf hg := h.oneTask (le hf) (le hg)
  project r hr := shown ⟨r, hr, rfl, rfl⟩
  task t ht := shown ⟨t, ht, rfl, rfl⟩
  taskParent t ht p hp := by
    -- The parent is there, and it is in the one project that it is known to be in.
    obtain ⟨x, hx, rfl⟩ := List.mem_map.mp (h.wellFormed.taskParent t ht p hp)
    exact shown ⟨x, hx, rfl, h.oneProject (h.task x hx) (h.taskParent t ht x.id hp)⟩
  comment m hm := shown ⟨m, hm, rfl, rfl, rfl⟩
  commentParent m hm p hp := by
    obtain ⟨x, hx, rfl⟩ := List.mem_map.mp (h.wellFormed.commentParent m hm p hp)
    obtain ⟨a, ha⟩ := h.commentParent m hm x.id hp
    exact ⟨x.authorId, shown ⟨x, hx, rfl, (h.oneTask (h.comment x hx) ha).1, rfl⟩⟩
  activity := h.activity

end

/-! ### The start -/

/-- Tables without projects, and so without anything in them. -/
def Tables.start (users workspaces : List Uuid) (generated : Generated) : Tables :=
  { users, workspaces, projects := [], tasks := [], comments := [], activity := [], generated }

/-- Nothing is known of empty tables. -/
theorem start_fits (users workspaces : List Uuid) (generated : Generated) :
    Knowledge.Fits ∅ (Tables.start users workspaces generated) where
  wellFormed := by constructor <;> simp [Tables.start, Tables.projectIds, Tables.taskIds, Tables.commentIds]
  spent _ h := h.elim
  oneWorkspace h := h.elim
  oneProject h := h.elim
  oneTask h := h.elim
  project _ h := nomatch h
  task _ h := nomatch h
  taskParent _ h := nomatch h
  comment _ h := nomatch h
  commentParent _ h := nomatch h
  activity _ h := nomatch h

/-! ### Deletes stay in one project and on one task -/

/-- The comment `b` is a reply to the comment `a`. -/
def Tables.Reply (s : Tables) (a b : CommentRow) : Prop := b ∈ s.comments ∧ replyTo a b = true

section
variable {k : Knowledge} {s : Tables} {x : CommentRow} {t : TaskRow}

theorem mem_goneComments {p : CommentRow → Bool} :
    x ∈ s.goneComments p ↔ ∃ a ∈ s.comments, p a = true ∧ ReflTransGen s.Reply a x := by
  rw [Tables.goneComments, Recursive.mem_reached_iff_path (List.filter_subset_self _)]
  simp only [List.mem_filter, and_assoc]
  rfl

/-- A thread is on one task. -/
theorem Knowledge.Fits.thread_task (h : k.Fits s) {a : CommentRow} (ha : a ∈ s.comments) (path : ReflTransGen s.Reply a x) :
    x ∈ s.comments ∧ x.taskId = a.taskId := by
  induction path with
  | refl => exact ⟨ha, rfl⟩
  | tail _ hr ih =>
    obtain ⟨hy, htask⟩ := ih
    obtain ⟨hx, hparent⟩ := hr
    obtain ⟨_, hfact⟩ := h.commentParent _ hx _ (by simpa [replyTo] using hparent)
    exact ⟨hx, (h.oneTask hfact (h.comment _ hy)).1.trans htask⟩

/-- The task `b` is a subtask of the task `a`. -/
def Tables.Subtask (s : Tables) (a b : TaskRow) : Prop := b ∈ s.tasks ∧ childOf a b = true

theorem mem_goneTasks {p : TaskRow → Bool} :
    t ∈ s.goneTasks p ↔ ∃ a ∈ s.tasks, p a = true ∧ ReflTransGen s.Subtask a t := by
  rw [Tables.goneTasks, Recursive.mem_reached_iff_path (List.filter_subset_self _)]
  simp only [List.mem_filter, and_assoc]
  rfl

theorem Knowledge.Fits.child_project (h : k.Fits s) {a b : TaskRow} (ha : a ∈ s.tasks) (hb : b ∈ s.tasks)
    (hj : childOf a b = true) : b.projectId = a.projectId :=
  h.oneProject (h.taskParent b hb _ (by simpa [childOf] using hj)) (h.task a ha)

/-- Everything below a task is in its project. -/
theorem Knowledge.Fits.below_project (h : k.Fits s) {a : TaskRow} (ha : a ∈ s.tasks) (path : ReflTransGen s.Subtask a t) :
    t ∈ s.tasks ∧ t.projectId = a.projectId := by
  induction path with
  | refl => exact ⟨ha, rfl⟩
  | tail _ hr ih => exact ⟨hr.1, (h.child_project ih.1 hr.1 hr.2).trans ih.2⟩

end

end TaskPlatform.Board

import TaskPlatform.Platform.Knowledge

/-! Every call leaves what the run has shown so far fitting the tables, and bears its reply out. -/

namespace TaskPlatform.Platform
open Effects Notifications

section
variable {out : Access.Outside} {pg : Postgres} {k k' : Knowledge} {s s' : Tables} {env : Env}

/-! ### What is known by rows -/

/-- All that the rows of the board say, they show. -/
theorem shown_row {f : Board.Fact} (h : f.Shown s.rest.board) : .row f ∈ s.shows := h

theorem Knowledge.Fits.hasTask_unique (h : k.Fits s) {w w' t : Uuid} (htask : (Platform.rows k).HasTask w t)
    (htask' : (Platform.rows k).HasTask w' t) : w' = w := by
  obtain ⟨p, hproject, ht⟩ := htask
  obtain ⟨p', hproject', ht'⟩ := htask'
  obtain rfl := h.rows.oneProject ht ht'
  exact h.rows.oneWorkspace hproject' hproject

/-- A creator has been a member of the workspace of the task, if the task has been in no other one. -/
theorem Knowledge.Fits.member (h : k.Fits s) {w t u : Uuid} (belongs : k.Belongs t u) (htask : (Platform.rows k).HasTask w t) :
    .member w u ∈ k := by
  obtain ⟨w', htask', hmember⟩ := belongs
  exact h.hasTask_unique htask htask' ▸ hmember

/-- What the tables show after a step fits them with what was known, if it does so of their rows, and what is new is
    as it should be. -/
theorem Knowledge.Fits.extend (h : k.Fits s) (rows : (Platform.rows (k ∪ s'.shows)).Fits s'.rest.board)
    (creators : ∀ x ∈ s'.rest.board.tasks, (k ∪ s'.shows).Belongs x.id x.createdBy)
    (authors : ∀ x ∈ s'.rest.board.comments, (k ∪ s'.shows).Belongs x.taskId x.authorId)
    (cached : ∀ p, ∀ e ∈ s'.caches p, .member e.1.workspaceId.uuid e.1.userId.uuid ∈ k ∪ s'.shows)
    (queued : ∀ j ∈ s'.notificationJobs.waiting, (k ∪ s'.shows).Addressed j.data.note) : (k ∪ s'.shows).Fits s' where
  shown := Set.subset_union_right
  rows := rows
  creators hf := by
    rcases hf with hf | ⟨x, hx, rfl, rfl⟩
    · exact (h.creators hf).grow Set.subset_union_left
    · exact creators x hx
  authors hf := by
    rcases hf with hf | ⟨x, hx, rfl, rfl, rfl⟩
    · exact (h.authors hf).grow Set.subset_union_left
    · exact authors x hx
  cached := cached
  queued := queued

/-- A creator of a task that is there has been a member. -/
theorem Knowledge.Fits.creator (h : k.Fits s) {x : Board.TaskRow} (hx : x ∈ s.rest.board.tasks) :
    k.Belongs x.id x.createdBy :=
  h.creators (h.shown ⟨x, hx, rfl, rfl⟩)

theorem Knowledge.Fits.author (h : k.Fits s) {x : Board.CommentRow} (hx : x ∈ s.rest.board.comments) :
    k.Belongs x.taskId x.authorId :=
  h.authors (h.shown (shown_row (f := .comment x.id x.taskId x.authorId) ⟨x, hx, rfl, rfl, rfl⟩))

/-- A step that leaves the rows of the board as they are. -/
theorem Knowledge.Fits.aside (h : k.Fits s) (env : Env) (workspaces : List Uuid)
    (board : s'.rest.board = { s.rest.board.spend env with workspaces })
    (cached : ∀ p, ∀ e ∈ s'.caches p, .member e.1.workspaceId.uuid e.1.userId.uuid ∈ k)
    (queued : ∀ j ∈ s'.notificationJobs.waiting, k.Addressed j.data.note) : (k ∪ s'.shows).Fits s' := by
  have le : k ≤ k ∪ s'.shows := Set.subset_union_left
  have hrows : Platform.rows (k ∪ s'.shows) = Platform.rows k := by
    refine Set.Subset.antisymm (fun f hf => hf.elim id fun hf => h.rows.shown (f := f) ?_) fun f hf => Or.inl hf
    have hf : f.Shown s'.rest.board := hf
    rw [board] at hf
    cases f <;> exact hf
  refine h.extend ?_ (fun x hx => ?_) (fun x hx => ?_) (fun p e he => le (cached p e he)) fun j hj => (queued j hj).grow le
  · have hspent := h.rows.spend env
    rw [hrows, board]
    exact { hspent with wellFormed := { hspent.wellFormed with } }
  · rw [board] at hx
    exact (h.creator hx).grow le
  · rw [board] at hx
    exact (h.author hx).grow le

theorem Knowledge.Fits.spend (h : k.Fits s) (env : Env) : k.Fits (s.spend env) where
  shown f hf := h.shown <| by
    cases f with
    | row f => cases f <;> exact hf
    | _ => exact hf
  rows := h.rows.spend env
  creators := h.creators
  authors := h.authors
  cached := h.cached
  queued := h.queued

/-- What a call leaves and answers is as it should be. -/
def Tables.Bears (out : Access.Outside) (pg : Postgres) (s : Tables) (env : Env) (k : Knowledge) (c : Call) : Prop :=
  let done := exec out pg env c (s.spend env)
  (k ∪ done.2.shows).Fits done.2 ∧ ∀ a, done.1 = .ok a → c.post (k ∪ done.2.shows) a

/-! ### Workspaces -/

theorem mem_cache {a : Access.Tables} {c : Access.Call} {e : Access.MembershipKey × Workspaces.WorkspaceMember}
    (he : e ∈ (Access.exec out env c a).2.cache) : e ∈ a.cache ∨ c = .cacheSet e.1 e.2 := by
  have commit : ∀ {α : Type} {x : α} {r : Except Err Workspaces.Tables}, e ∈ (a.commit x r).2.cache → e ∈ a.cache := by
    intro α x r he
    cases r <;> exact he
  cases c with
  | commitCreate | insertInvitation => exact Or.inl (commit he)
  | cacheSet key m =>
    rcases List.mem_cons.mp he with rfl | he
    · exact Or.inr rfl
    · exact Or.inl (List.mem_filter.mp he).1
  | cacheDel => exact Or.inl (List.mem_filter.mp he).1
  | _ => exact Or.inl he

theorem Knowledge.Fits.access (h : k.Fits s) {process : Nat} {c : Access.Call} (hpre : (Call.access process c).pre k) :
    s.Bears out pg env k (.access process c) := by
  constructor
  · refine h.aside env _ rfl (fun p e he => ?_) h.queued
    by_cases hp : p = process
    · subst hp
      have he : e ∈ (Access.exec out env c ((s.spend env).access p)).2.cache := by
        simpa only [exec, Tables.withAccess, Function.update_self] using he
      rcases mem_cache he with he | rfl
      · exact h.cached p e he
      · exact hpre
    · have he : e ∈ (s.spend env).caches p := by simpa only [exec, Tables.withAccess, Function.update_of_ne hp] using he
      exact h.cached p e he
  · intro a ha
    cases c with
    | db c =>
      cases c with
      | findMember w u =>
        cases a with
        | none => trivial
        | some m =>
          have hm : (s.db.member? w u) = some m := Except.ok.inj ha
          have hkey := List.find?_some hm
          simp only [Bool.and_eq_true, beq_iff_eq] at hkey
          exact Or.inr ⟨m, List.mem_of_find?_eq_some hm, hkey.1, hkey.2⟩
      | _ => trivial
    | cacheGet key =>
      cases a with
      | none => trivial
      | some m =>
        obtain ⟨e, he, -⟩ := Option.map_eq_some_iff.mp (Except.ok.inj ha)
        have hkey : e.1 = key := by simpa using List.find?_some he
        exact Or.inl (hkey ▸ h.cached process e (List.mem_of_find?_eq_some he))
    | _ => trivial

/-! ### The board -/

/-- What the tables show after a call on the board is part of what the call makes known. -/
theorem rows_le_learn {c : Board.Call} (fits : ((rows k).learn env c).Fits s'.rest.board) :
    rows (k ∪ s'.shows) ≤ (rows k).learn env c := by
  rintro f (hf | hf)
  · exact Or.inl hf
  · exact fits.shown hf

theorem Knowledge.Fits.board (h : k.Fits s) (new : s.rest.board.generated.admits env = true) {c : Board.Call}
    (hpre : (Call.reminders (.board c)).pre k) : s.Bears out pg env k (.reminders (.board c)) := by
  obtain ⟨⟨r, hpre⟩, hallows⟩ := hpre
  set s' := (exec out pg env (.reminders (.board c)) (s.spend env)).2
  have w : Board.Write (s.rest.board.spend env) env c s'.rest.board := Board.exec_write pg _ env c
  have hlearn := w.fits h.rows new hpre
  have le : k ≤ k ∪ s'.shows := Set.subset_union_left
  have hrows : (Platform.rows (k ∪ s'.shows)).Fits s'.rest.board :=
    hlearn.part (rows_le_learn hlearn) fun hf => Or.inr hf
  have fits : (k ∪ s'.shows).Fits s' := by
    refine h.extend hrows (fun x hx => ?_) (fun x hx => ?_) (fun p e he => le (h.cached p e he)) fun j hj =>
      (h.queued j hj).grow le
    · rcases w.creator hx with ⟨y, hy, hid, hby⟩ | ⟨n, rfl, rfl⟩ | ⟨t, rfl, hid, hby⟩
      · exact hid ▸ hby ▸ (h.creator hy).grow le
      · obtain ⟨w, hproject, hmember⟩ := hallows
        exact ⟨w, ⟨_, le hproject, hrows.task _ hx⟩, le hmember⟩
      · exact hid ▸ hby ▸ (h.creators hallows).grow le
    · rcases hlearn.comment x hx with hf | hf
      · exact (h.authors hf).grow le
      · cases c with
        | insertComment n =>
          obtain ⟨-, htask, hauthor⟩ := Board.Fact.comment.inj hf
          rw [htask, hauthor]
          exact Knowledge.Belongs.grow hallows le
        | insertProject | insertTask => cases hf
        | _ => exact absurd hf (Set.notMem_empty _)
  refine ⟨fits, fun a (ha : (Board.exec pg env c (s.rest.board.spend env)).1 = .ok a) => ⟨?_, ?_⟩⟩
  · refine Board.Knowledge.post_grow (Board.answer_known h.rows a ha) ?_
    rintro f (hf | hf)
    · exact Or.inl hf
    · exact Or.inr (Board.facts_shown ha hf)
  · cases c with
    | findTask id p =>
      cases a with
      | none => trivial
      | some t =>
        obtain ⟨x, hx, rfl⟩ := Option.map_eq_some_iff.mp (Except.ok.inj ha)
        obtain ⟨hmem, hp⟩ := Board.find?_some hx
        simp only [Bool.and_eq_true, decide_eq_true_eq] at hp
        obtain ⟨rfl, rfl⟩ := hp
        refine ⟨Or.inr ⟨x, hmem, rfl, rfl⟩, fun u hu => ?_, fun w hproject => ?_⟩
        · obtain ⟨v, hv, rfl⟩ := Option.map_eq_some_iff.mp hu
          exact Or.inr ⟨x, hmem, rfl, hv⟩
        · exact fits.member (fits.creator hmem) ⟨_, hproject, hrows.task x hmem⟩
    | insertTask n =>
      intro u hu
      have hmem := Board.inserted_shown ha
      obtain rfl := Board.commit_ok ha
      exact Or.inr ⟨n.toRow env, hmem, rfl, congrArg (Option.map UuidText.uuid) hu⟩
    | saveTask t =>
      intro u hu
      obtain ⟨x, hx, hid, hassignee⟩ := Board.saved_shown ha
      have hsaved : a = t := Board.commit_ok ha
      refine Or.inr ⟨x, hx, hid.trans (congrArg Board.Task.id hsaved.symm), ?_⟩
      rw [hassignee, ← hsaved, hu]
      rfl
    | findComment id t =>
      cases a with
      | none => trivial
      | some m =>
        obtain ⟨x, hx, rfl⟩ := Option.map_eq_some_iff.mp (Except.ok.inj ha)
        obtain ⟨hmem, hp⟩ := Board.find?_some hx
        simp only [Bool.and_eq_true, decide_eq_true_eq] at hp
        obtain ⟨rfl, rfl⟩ := hp
        exact fun w htask => fits.member (fits.author hmem) htask
    | insertComment n =>
      obtain rfl := Board.commit_ok ha
      exact Or.inr (Board.facts_shown (f := .comment env.uuid n.taskId.uuid n.authorId) ha rfl)
    | _ => trivial

/-! ### Everything else -/

/-- What is read of tasks that are there. -/
theorem Knowledge.Fits.hasTasks (h : k.Fits s) (le : k ≤ k') {tasks : List Board.TaskRow} (sub : tasks ⊆ s.rest.board.tasks) :
    k'.HasTasks (tasks.map Board.TaskRow.toEntity) := by
  intro t ht
  obtain ⟨x, hx, rfl⟩ := List.mem_map.mp ht
  refine ⟨?_, fun a ha => ?_⟩
  · obtain ⟨r, hr, hid⟩ := List.mem_map.mp (h.rows.wellFormed.taskProject x (sub hx))
    exact ⟨r.workspaceId, r.id, le (h.rows.project r hr), le (hid ▸ h.rows.task x (sub hx))⟩
  · obtain ⟨u, hu, rfl⟩ := Option.map_eq_some_iff.mp ha
    exact le (h.shown ⟨x, sub hx, rfl, hu⟩)

theorem Knowledge.Fits.reminders (h : k.Fits s) (new : s.rest.board.generated.admits env = true) {c : Reminders.Call}
    (hpre : (Call.reminders c).pre k) : s.Bears out pg env k (.reminders c) := by
  by_cases hb : ∃ b, c = .board b
  · obtain ⟨b, rfl⟩ := hb
    exact h.board new hpre
  have hboard : (Reminders.exec pg env c (s.rest.spend env)).2.board = s.rest.board.spend env :=
    (Reminders.exec_write pg (s.rest.spend env) env c).board_same fun b hc => hb ⟨b, hc⟩
  refine ⟨h.aside env s.rest.board.workspaces hboard h.cached h.queued, fun a ha => ?_⟩
  have le : k ≤ k ∪ (exec out pg env (.reminders c) (s.spend env)).2.shows := Set.subset_union_left
  cases c with
  | board b => exact absurd ⟨b, rfl⟩ hb
  | tasksDueSoon | tasksOverdue =>
    cases ha
    exact h.hasTasks le (List.filter_subset_self _)
  | findTaskById id =>
    cases ha
    rw [Call.post, Option.toList_map]
    exact h.hasTasks le fun x hx => List.mem_of_find?_eq_some (Option.mem_toList.mp hx)
  | _ => trivial

theorem Knowledge.Fits.jobs (h : k.Fits s) {q : Queue} (queued : ∀ j ∈ q.waiting, k.Addressed j.data.note) :
    (k ∪ Tables.shows { s.spend env with notificationJobs := q }).Fits { s.spend env with notificationJobs := q } :=
  h.aside env s.rest.board.workspaces rfl h.cached queued

theorem waiting?_mem {id : JobId} {i : Nat} {j : Job} (h : s.waiting? id = some (i, j)) :
    j ∈ s.notificationJobs.waiting := by
  obtain ⟨n, -, h⟩ := Option.bind_eq_some_iff.mp h
  obtain ⟨x, hx, heq⟩ := Option.map_eq_some_iff.mp h
  obtain ⟨-, rfl⟩ := Prod.mk.inj heq
  exact List.mem_of_getElem? hx

variable (out pg) in
/-- What is known is what the tables have shown so far. -/
theorem shows (queue : Bool) : (system out pg queue).Shows Tables.shows (fun _ => contract) Knowledge.Fits where
  shown h := h.shown
  spend h _ := h.spend _
  call {k s env r c} h new hpre := by
    have new : s.rest.board.generated.admits env = true := (Bool.and_eq_true_iff.mp new).2
    show s.Bears out pg env k c
    match c with
    | .access process c => exact h.access hpre
    | .reminders c => exact h.reminders new hpre
    | .addNotificationJob input =>
      refine ⟨h.jobs fun j hj => ?_, fun _ _ => trivial⟩
      simp only [NotificationQueueListener.enqueue, Queue.add] at hj
      split at hj
      · exact h.queued j hj
      · rcases List.mem_append.mp hj with hj | hj
        · exact h.queued j hj
        · obtain rfl := List.mem_singleton.mp hj
          exact hpre
    | .takeNotificationJob id =>
      refine ⟨h.jobs h.queued, fun a ha j hj => ?_⟩
      cases ha
      obtain ⟨⟨i, x⟩, hx, rfl⟩ := Option.map_eq_some_iff.mp hj
      exact (h.queued x (waiting?_mem hx)).grow Set.subset_union_left
    | .completeNotificationJob id =>
      refine ⟨?_, fun _ _ => trivial⟩
      simp only [exec]
      split
      · exact h.jobs fun j hj => h.queued j (List.mem_of_mem_eraseIdx hj)
      · exact h.jobs h.queued

end
end TaskPlatform.Platform

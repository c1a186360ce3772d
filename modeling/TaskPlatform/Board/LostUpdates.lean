import TaskPlatform.Board.Forest
import TaskPlatform.Board.Requests
import TaskPlatform.Library.Log

/-! Two requests that edit one task at a time: each loads the whole task and saves the whole task, so a save puts
    back what the task was when its request loaded it. -/

namespace TaskPlatform.Board
open Effects

/-- What a request changes of a task. -/
inductive TaskEdit where
  | update (dto : UpdateTaskDto)
  | move (newParentId : Option UuidText)

/-- The task that a request edits, and how. -/
def Request.edit? (r : Request) : Option (UuidText × TaskEdit) :=
  match r.operation with
  | .updateTask _ t _ dto => some (t, .update dto)
  | .moveTask _ t parent => some (t, .move parent)
  | _ => none

namespace TaskEdit

def apply (now : Date) (task : Task) : TaskEdit → Task
  | update dto => dto.apply now task
  | move parent => { task with parentTaskId := parent }

/-- The row has in it what the edit sets: `completed_at` goes with the status. -/
def In (r : TaskRow) : TaskEdit → Prop
  | update dto =>
    (∀ v ∈ dto.title, v = some r.title) ∧ (∀ v ∈ dto.description, v = r.description) ∧
      (∀ v ∈ dto.priority, v = some r.priority) ∧ (∀ v ∈ dto.assigneeId, v.map UuidText.uuid = r.assigneeId) ∧
      (∀ v ∈ dto.dueDate, v = r.dueDate) ∧
      ∀ v ∈ dto.status, v = some r.status ∧ (r.completedAt.isSome ↔ v = some .DONE)
  | move parent => r.parentTaskId = parent.map UuidText.uuid

/-- The two edits set different fields. -/
def Disjoint : TaskEdit → TaskEdit → Prop
  | update a, update b =>
    (a.title = none ∨ b.title = none) ∧ (a.description = none ∨ b.description = none) ∧
      (a.priority = none ∨ b.priority = none) ∧ (a.assigneeId = none ∨ b.assigneeId = none) ∧
      (a.dueDate = none ∨ b.dueDate = none) ∧ (a.status = none ∨ b.status = none)
  | update _, move _ | move _, update _ => True
  | move _, move _ => False

theorem Disjoint.symm {a b : TaskEdit} (h : a.Disjoint b) : b.Disjoint a := by
  cases a with
  | update d =>
    cases b with
    | update d' =>
      obtain ⟨h₁, h₂, h₃, h₄, h₅, h₆⟩ := h
      exact ⟨h₁.symm, h₂.symm, h₃.symm, h₄.symm, h₅.symm, h₆.symm⟩
    | move => trivial
  | move =>
    cases b with
    | update => trivial
    | move => exact h

end TaskEdit

/-- The row of the task has in it what the edit sets. -/
def Tables.Carries (s : Tables) (id : Uuid) (e : TaskEdit) : Prop := ∃ r ∈ s.tasks, r.id = id ∧ e.In r

def Call.findsTask : Call → Bool
  | .findTask _ _ => true
  | _ => false

def Call.writesTasks : Call → Bool
  | .insertTask _ | .saveTask _ | .removeTask _ | .removeProject _ => true
  | _ => false

/-- When a request loaded the task that it edits: that is its first look at a task. -/
def loadedAt (t : Thread interface Request Response) : Option Nat := (t.times Call.findsTask).getLast?

/-- When a request saved the task that it edits. -/
def savedAt (t : Thread interface Request Response) : Option Nat := (t.times Call.writesTasks).head?

/-- The request `t` saved the task after `u` did, as it had loaded it before. -/
def Overwrites (t u : Thread interface Request Response) : Prop :=
  ∃ l ∈ loadedAt t, ∃ n ∈ savedAt u, ∃ m ∈ savedAt t, l < n ∧ n < m

/-! ### The row that a save writes -/

section
variable {e e' : TaskEdit} {now : Date} {old row r : TaskRow} {t : Task}

theorem map_uuid_text (o : Option Uuid) : (o.map Uuid.text).map UuidText.uuid = o := by
  cases o <;> rfl

theorem TaskEdit.in_over : e.In (r.over old) ↔ e.In r := by
  cases e <;> rfl

/-- The row that is saved carries the edit. -/
theorem TaskEdit.in_saved (h : (e.apply now row.toEntity).toRow? = .ok r) : e.In r := by
  obtain ⟨htitle, hstatus, hpriority, -, -, hparent, hdescription, hassignee, -, hdue, hcompleted⟩ := Task.toRow?_row h
  cases e with
  | move parent => exact hparent
  | update dto =>
    refine ⟨?_, ?_, ?_, ?_, ?_, ?_⟩ <;> intro v hv <;> rw [Option.mem_def] at hv
    · simpa [apply, UpdateTaskDto.apply, hv] using htitle
    · simpa [apply, UpdateTaskDto.apply, hv] using hdescription.symm
    · simpa [apply, UpdateTaskDto.apply, hv] using hpriority
    · simpa [apply, UpdateTaskDto.apply, hv] using hassignee.symm
    · simpa [apply, UpdateTaskDto.apply, hv] using hdue.symm
    · have hstatus : v = some r.status := by simpa [apply, UpdateTaskDto.apply, hv] using hstatus
      have hcompleted : r.completedAt = if v = some .DONE then some now else none := by
        simpa [apply, UpdateTaskDto.apply, hv] using hcompleted
      refine ⟨hstatus, ?_⟩
      rw [hcompleted]
      by_cases hdone : v = some .DONE
      · simp [hdone]
      · simp [hdone]

/-- What a field of a request must have in the row, where another request leaves that field alone. -/
theorem field_iff {β γ : Type} {x : Option β} {y : Option γ} {P Q : γ → Prop} (disjoint : x = none ∨ y = none)
    (same : x = none → ∀ v, P v ↔ Q v) : (∀ v ∈ y, P v) ↔ ∀ v ∈ y, Q v := by
  rcases disjoint with hx | hy
  · exact forall₂_congr fun v _ => same hx v
  · rw [hy]
    exact ⟨fun _ _ hv => (Option.not_mem_none _ hv).elim, fun _ _ hv => (Option.not_mem_none _ hv).elim⟩

/-- Of another edit the saved row carries what the loaded one does. -/
theorem TaskEdit.in_saved_iff (h : (e.apply now row.toEntity).toRow? = .ok r) (disjoint : e.Disjoint e') :
    e'.In r ↔ e'.In row := by
  obtain ⟨htitle, hstatus, hpriority, -, -, hparent, hdescription, hassignee, -, hdue, hcompleted⟩ := Task.toRow?_row h
  cases e with
  | move parent =>
    cases e' with
    | move => exact disjoint.elim
    | update dto =>
      have htitle : row.title = r.title := Option.some.inj htitle
      have hstatus : row.status = r.status := Option.some.inj hstatus
      have hpriority : row.priority = r.priority := Option.some.inj hpriority
      have hassignee : r.assigneeId = row.assigneeId := hassignee.trans (map_uuid_text _)
      have hdescription : r.description = row.description := hdescription
      have hdue : r.dueDate = row.dueDate := hdue
      have hcompleted : r.completedAt = row.completedAt := hcompleted
      simp only [In, htitle, hstatus, hpriority, hassignee, hdescription, hdue, hcompleted]
  | update a =>
    cases e' with
    | move parent =>
      have hparent : r.parentTaskId = row.parentTaskId := hparent.trans (map_uuid_text _)
      simp only [In, hparent]
    | update b =>
      obtain ⟨h₁, h₂, h₃, h₄, h₅, h₆⟩ := disjoint
      refine and_congr (field_iff h₁ fun hn v => ?_) (and_congr (field_iff h₂ fun hn v => ?_)
        (and_congr (field_iff h₃ fun hn v => ?_) (and_congr (field_iff h₄ fun hn v => ?_)
          (and_congr (field_iff h₅ fun hn v => ?_) (field_iff h₆ fun hn v => ?_)))))
      · have htitle : row.title = r.title := by
          simpa [apply, UpdateTaskDto.apply, hn, TaskRow.toEntity] using htitle
        rw [htitle]
      · have hdescription : r.description = row.description := by
          simpa [apply, UpdateTaskDto.apply, hn, TaskRow.toEntity] using hdescription
        rw [hdescription]
      · have hpriority : row.priority = r.priority := by
          simpa [apply, UpdateTaskDto.apply, hn, TaskRow.toEntity] using hpriority
        rw [hpriority]
      · have hassignee : r.assigneeId = row.assigneeId := by
          rw [hassignee, apply, UpdateTaskDto.apply, hn]
          exact map_uuid_text _
        rw [hassignee]
      · have hdue : r.dueDate = row.dueDate := by
          simpa [apply, UpdateTaskDto.apply, hn, TaskRow.toEntity] using hdue
        rw [hdue]
      · have hstatus : row.status = r.status := by
          simpa [apply, UpdateTaskDto.apply, hn, TaskRow.toEntity] using hstatus
        have hcompleted : r.completedAt = row.completedAt := by
          simpa [apply, UpdateTaskDto.apply, hn, TaskRow.toEntity] using hcompleted
        rw [hstatus, hcompleted]

end

/-! ### What a request was told -/

/-- No call of these writes to the tasks. -/
def Quiet (log : List (Said interface)) : Prop := ∀ x ∈ log, x.1.writesTasks = false

/-- The project of the task was found, and then the task. -/
def Loaded (task : UuidText) (E : Task) (log : List (Said interface)) : Prop :=
  ∃ p x, log = [(⟨.findTask task.uuid p, .ok (some E)⟩ : Said interface), x] ∧ x.1.findsTask = false ∧
    x.1.writesTasks = false

/-- The task was loaded, and its edit was saved; nothing else was written to the tasks. -/
def Edited (task : UuidText) (e : TaskEdit) (log : List (Said interface)) : Prop :=
  ∃ E now saved load mid after, log = after ++ (⟨.saveTask (e.apply now E), .ok saved⟩ : Said interface) :: (mid ++ load) ∧
    Loaded task E load ∧ Quiet mid ∧ Quiet after

section
variable {w p t : UuidText} {α : Type} {log : List (Said interface)}

theorem quiet_nil : Quiet [] := fun _ h => absurd h List.not_mem_nil

theorem Quiet.cons {x : Said interface} (h : Quiet log) (hx : x.1.writesTasks = false) : Quiet (x :: log) := by
  intro y hy
  rcases List.mem_cons.mp hy with rfl | hy
  · exact hx
  · exact h y hy

theorem findTask_loaded : (TasksService.findOneOrFail w p t).Leaves (fun log E => Loaded t E log) [] := by
  have hproject : (ProjectsService.findOneOrFail w p).Leaves
      (fun log _ => ∃ x : Said interface, log = [x] ∧ x.1.findsTask = false ∧ x.1.writesTasks = false) [] := by
    refine Prog.Leaves.bind (Q := fun log _ => ∃ x : Said interface, log = [x] ∧ x.1.findsTask = false ∧
      x.1.writesTasks = false) (Prog.Leaves.perform fun a => ⟨_, rfl, rfl, rfl⟩) ?_
    rintro log (_ | _) ⟨x, rfl, hx⟩
    · trivial
    · exact ⟨x, rfl, hx⟩
  refine hproject.bind ?_
  rintro log _ ⟨x, rfl, hfinds, hwrites⟩
  refine Prog.Leaves.bind (Q := fun log a => log = [(⟨.findTask t.uuid p.uuid, .ok a⟩ : Said interface), x])
    (Prog.Leaves.perform fun a => rfl) ?_
  rintro log (_ | E) rfl
  · trivial
  · exact ⟨p.uuid, x, rfl, hfinds, hwrites⟩

/-- A save, with calls after it that write nothing to the tasks. -/
theorem save_edited {e : TaskEdit} {E : Task} (now : Date) {load mid : List (Said interface)} {f : Task → Service α}
    (hload : Loaded t E load) (hmid : Quiet mid) (hf : ∀ x, (f x).Calls (Call.writesTasks · = false)) :
    ((perform (.saveTask (e.apply now E))).bind f).Leaves (fun log _ => Edited t e log) (mid ++ load) := by
  refine Prog.Leaves.bind (Q := fun log saved =>
    log = (⟨.saveTask (e.apply now E), .ok saved⟩ : Said interface) :: (mid ++ load)) (Prog.Leaves.perform fun _ => rfl) ?_
  rintro _ saved rfl
  refine ((hf saved).leaves _).mono ?_
  rintro _ _ ⟨after, rfl, hafter⟩
  exact ⟨E, now, saved, load, mid, after, rfl, hload, hmid, hafter⟩

theorem records_quiet {q : Service α} (h : q.Calls Call.Records) : q.Calls (Call.writesTasks · = false) := by
  refine h.mono ?_
  rintro c ⟨n, rfl⟩
  rfl

theorem update_edited {actorId : Uuid} {dto : UpdateTaskDto} :
    (TasksService.update w p t actorId dto).Leaves (fun log _ => Edited t (.update dto) log) [] := by
  refine findTask_loaded.bind fun log E hload => ?_
  intro env
  refine save_edited (e := .update dto) (Env.now env) hload quiet_nil fun saved => ?_
  refine Prog.Calls.bind ?_ fun _ => Prog.Calls.bind ?_ fun _ => trivial
  · unfold TasksService.update.emitAssigned
    split
    · split
      · trivial
      · exact records_quiet (emit_records _)
    · trivial
  · unfold TasksService.update.emitStatus
    split
    · trivial
    · split
      · trivial
      · refine (records_quiet (emit_records _)).bind fun _ => ?_
        split
        · exact records_quiet (emit_records _)
        · trivial

theorem moveTask_edited {newParentId : Option UuidText} :
    (TasksService.moveTask w p t newParentId).Leaves (fun log _ => Edited t (.move newParentId) log) [] := by
  refine findTask_loaded.bind fun load E hload => ?_
  have save : ∀ {mid : List (Said interface)}, Quiet mid →
      (perform (.saveTask { E with parentTaskId := newParentId })).Leaves (fun log _ => Edited t (.move newParentId) log)
        (mid ++ load) := by
    intro mid hmid
    rw [← Prog.bind_ret (perform _)]
    exact save_edited (e := .move newParentId) 0 hload hmid fun _ => trivial
  cases newParentId with
  | none => exact save quiet_nil
  | some newParentId =>
    -- Each look at the table on the way adds a call that writes nothing.
    have look : ∀ {mid : List (Said interface)} {c : Call} {f : c.Reply → Service Task}, Quiet mid →
        c.writesTasks = false →
        (∀ a, Quiet ((⟨c, .ok a⟩ : Said interface) :: mid) → (f a).Leaves
          (fun log _ => Edited t (.move (some newParentId)) log) ((⟨c, .ok a⟩ : Said interface) :: mid ++ load)) →
        ((perform c).bind f).Leaves (fun log _ => Edited t (.move (some newParentId)) log) (mid ++ load) := by
      intro mid c f hmid hc hf
      refine Prog.Leaves.bind (Q := fun log a => log = (⟨c, .ok a⟩ : Said interface) :: (mid ++ load))
        (Prog.Leaves.perform fun _ => rfl) ?_
      rintro _ a rfl
      exact hf a (hmid.cons hc)
    dsimp only
    split
    · trivial
    · refine look quiet_nil rfl fun parent hparent => ?_
      cases parent with
      | none => trivial
      | some _ =>
        refine look hparent rfl fun descendants hdescendants => ?_
        dsimp only
        split
        · trivial
        · refine look hdescendants rfl fun depth hdepth => ?_
          dsimp only
          split
          · trivial
          · exact save hdepth

theorem program_edited {r : Request} {e : TaskEdit} (h : r.edit? = some (t, e)) :
    (program r).Leaves (fun log _ => Edited t e log) [] := by
  obtain ⟨w, operation⟩ := r
  cases operation <;> cases h
  · exact Prog.Leaves.bind update_edited fun _ _ h => h
  · exact Prog.Leaves.bind moveTask_edited fun _ _ h => h

end

/-! ### What a request read, and what it wrote -/

theorem Write.keepsTasks {s s' : Tables} {env : Env} {c : Call} (w : Write s env c s') (h : c.writesTasks = false) :
    s'.tasks = s.tasks := by
  cases w with
  | same | projectAdded | projectSet | commentAdded | commentSet | commentRemoved | activityAdded => rfl
  | projectRemoved call | taskRemoved call | taskSet call =>
    subst call
    cases h
  | taskAdded row =>
    cases c with
    | insertTask | saveTask => cases h
    | _ => cases row

/-- Only calls that write to the tasks change them. -/
theorem tasks_owe (pg : Postgres) : System.Owes (system pg) Tables.tasks Call.writesTasks where
  spend _ _ := rfl
  call s env h := (exec_write pg s env _).keepsTasks h

variable {pg : Postgres} {s₀ : Tables} {c : State} {t u : Thread interface Request Response} {task : UuidText}
  {e e' : TaskEdit}

theorem wellFormed_at (wf : s₀.WellFormed) (hr : (system pg).Reach (fun _ _ => True) (.initial s₀) c) {n : Nat}
    {s : Tables} (hn : c.at? n = some s) : s.WellFormed :=
  hr.carries (P := Tables.WellFormed) (fun _ _ hs wf => wellFormed_step wf hs) hr.at?_zero hn (Nat.zero_le n) wf

/-- A request that edited the task found its row `row` at the time `l`, and wrote one with the edit at the time `m`. -/
structure EditRun (c : State) (t : Thread interface Request Response) (task : UuidText) (e : TaskEdit) (l m : Nat) :
    Prop where
  loaded : loadedAt t = some l
  saved : t.times Call.writesTasks = [m]
  load : ∃ x ∈ t.log, x.time = l
  save : ∃ x ∈ t.log, x.time = m
  order : l < m
  rows : ∃ s row s' r now, c.at? l = some s ∧ row ∈ s.tasks ∧ row.id = task.uuid ∧ c.at? (m + 1) = some s' ∧
    (e.apply now row.toEntity).toRow? = .ok r ∧ ∃ x ∈ s'.tasks, x.id = task.uuid ∧ ∀ e' : TaskEdit, e'.In x ↔ e'.In r

/-- A task that was found is the entity of its row. -/
theorem findTask_row {s : Tables} {env : Env} {id p : Uuid} {E : Task}
    (h : ((system pg).handler env (.findTask id p) s).1 = .ok (some E)) :
    ∃ row ∈ s.tasks, row.id = id ∧ E = row.toEntity := by
  have hfind : (s.tasks.find? fun r => r.id = id && r.projectId = p).map TaskRow.toEntity = some E := Except.ok.inj h
  obtain ⟨row, hrow, rfl⟩ := Option.map_eq_some_iff.mp hfind
  obtain ⟨hmem, hp⟩ := find?_some hrow
  simp only [Bool.and_eq_true, decide_eq_true_eq] at hp
  exact ⟨row, hmem, hp.1, rfl⟩

/-- A save that was accepted leaves the row of the task with the columns of the entity. -/
theorem saveTask_row {s : Tables} {env : Env} {x y : Task} (h : ((system pg).handler env (.saveTask x) s).1 = .ok y) :
    ∃ r, x.toRow? = .ok r ∧ ∃ q ∈ ((system pg).handler env (.saveTask x) s).2.tasks, q.id = x.id ∧
      ∀ e : TaskEdit, e.In q ↔ e.In r := by
  simp only [System.handler, system, exec] at h ⊢
  cases hs : (s.spend env).saveTask x with
  | error err =>
    rw [hs] at h
    cases h
  | ok s' =>
    obtain ⟨r, hr, hs⟩ := ok_of_bind hs
    obtain ⟨_, -, hs⟩ := ok_of_bind hs
    cases hs
    have hid := (Task.toRow?_ok hr).1
    refine ⟨r, hr, ?_⟩
    change ∃ q ∈ upsert TaskRow.id r.over r s.tasks, q.id = x.id ∧ ∀ e : TaskEdit, e.In q ↔ e.In r
    rcases upsert_cases TaskRow.id r.over r s.tasks with ⟨old, hmem, hold, -, heq⟩ | ⟨-, -, heq⟩
    · rw [heq]
      exact ⟨r.over old, (Table.mem_replace (x := r.over old) ⟨old, hmem, hold⟩).mpr (Or.inl rfl), hid,
        fun _ => TaskEdit.in_over⟩
    · rw [heq]
      exact ⟨r, List.mem_append_right _ (List.mem_singleton_self r), hid, fun _ => Iff.rfl⟩

/-- The calls of the log that took effect on the tasks. -/
theorem filter_quiet {log : List (Event interface)} (h : Quiet (log.map Event.said)) :
    (log.filter fun x => x.took && x.call.writesTasks) = [] := by
  refine List.filter_eq_nil_iff.mpr fun x hx => ?_
  have hquiet : x.call.writesTasks = false := h _ (List.mem_map_of_mem hx)
  simp [hquiet]

theorem edit_run (hr : (system pg).Reach (fun _ _ => True) (.initial s₀) c) (ht : t ∈ c.threads)
    (edit : t.request.edit? = some (task, e)) {a : Response} (ok : t.result? = some (.ok a)) :
    ∃ l m, EditRun c t task e l m := by
  have hedited : Edited task e (t.log.map Event.said) :=
    hr.ended (Q := fun r log _ => ∀ {task e}, r.edit? = some (task, e) → Edited task e log) (fun r => by
      cases h : r.edit? with
      | none => exact (Prog.leaves_true _ _).mono fun _ _ _ _ _ h => nomatch h
      | some te =>
        refine (program_edited h).mono fun _ _ hedited _ _ heq => ?_
        cases heq
        exact hedited) ht ok edit
  obtain ⟨E, now, saved, load, mid, after, hlog, ⟨p, x, rfl, hxfinds, hxwrites⟩, hmid, hafter⟩ := hedited
  -- The events of the log.
  obtain ⟨A, B, hAB, rfl, hB⟩ := List.map_eq_append_iff.mp hlog
  obtain ⟨save, B, rfl, hsave, hB⟩ := List.map_eq_cons_iff.mp hB
  obtain ⟨M, L, rfl, rfl, hL⟩ := List.map_eq_append_iff.mp hB
  obtain ⟨find, L, rfl, hfind, hL⟩ := List.map_eq_cons_iff.mp hL
  obtain ⟨first, rest, rfl, rfl, hrest⟩ := List.map_eq_cons_iff.mp hL
  obtain rfl := List.map_eq_nil_iff.mp hrest
  have hsavemem : save ∈ t.log := by simp [hAB]
  have hfindmem : find ∈ t.log := by simp [hAB]
  obtain ⟨hsavecall, hsavetook, s₁, env₁, hs₁, -, hanswer₁, hnext₁⟩ := (hr.recorded t ht save hsavemem).answered hsave
  obtain ⟨hfindcall, hfindtook, s₂, env₂, hs₂, -, hanswer₂, -⟩ := (hr.recorded t ht find hfindmem).answered hfind
  obtain ⟨row, hrow, hid, rfl⟩ := findTask_row hanswer₂
  obtain ⟨r, htoRow, q, hq, hqid, hin⟩ := saveTask_row hanswer₁
  have happlied : (e.apply now row.toEntity).id = row.id := by cases e <;> rfl
  refine ⟨find.time, save.time, ?_, ?_, ⟨find, hfindmem, rfl⟩, ⟨save, hsavemem, rfl⟩, ?_,
    s₂, row, _, r, now, hs₂, hrow, hid, hnext₁, htoRow, q, hq, (hqid.trans happlied).trans hid, hin⟩
  · have hfirst : first.call.findsTask = false := hxfinds
    have hfinds : find.call.findsTask = true := by rw [hfindcall]; rfl
    have hlast : [find, first].filter (fun x => x.took && x.call.findsTask) = [find] := by
      simp [hfirst, hfinds, hfindtook]
    have hsplit : A ++ save :: (M ++ [find, first]) = (A ++ save :: M) ++ [find, first] := by simp
    rw [loadedAt, Thread.times, hAB, hsplit, List.filter_append, hlast, List.map_append]
    exact List.getLast?_concat
  · have hfirst : first.call.writesTasks = false := hxwrites
    have hfinds : find.call.writesTasks = false := by rw [hfindcall]; rfl
    have hsaves : save.call.writesTasks = true := by rw [hsavecall]; rfl
    rw [Thread.times, hAB]
    simp [hfirst, hfinds, hsaves, hsavetook, filter_quiet hafter, filter_quiet hmid]
  · have hsorted := hr.sorted t ht
    rw [hAB] at hsorted
    have hsorted := (List.pairwise_append.mp hsorted).2.1
    exact List.rel_of_pairwise_cons hsorted (List.mem_append_right _ (List.mem_cons_self ..))

variable {task' : UuidText} {l m l' m' : Nat}

/-- The request that saves last puts its edit in the row, and leaves of the other edit what it had loaded. -/
theorem last_save (wf : s₀.WellFormed) (hr : (system pg).Reach (fun _ _ => True) (.initial s₀) c)
    (threads : ∀ x ∈ c.threads, x = t ∨ x = u) (first : EditRun c t task e l m) (last : EditRun c u task' e' l' m')
    (same : task.uuid = task'.uuid) (disjoint : e'.Disjoint e) (lt : m < m') (ne : l' ≠ m) :
    (∃ q ∈ c.shared.tasks, q.id = task.uuid ∧ e.In q ∧ e'.In q) ↔ (l' < m → s₀.Carries task.uuid e) := by
  obtain ⟨s₁, row₁, d₁, r₁, now₁, -, -, -, hd₁, hsaved₁, x₁, hx₁, hxid₁, hin₁⟩ := first.rows
  obtain ⟨s₂, row₂, d₂, r₂, now₂, hs₂, hrow₂, hid₂, hd₂, hsaved₂, x₂, hx₂, hxid₂, hin₂⟩ := last.rows
  have writes : ∀ x ∈ c.threads, ∀ k ∈ x.times Call.writesTasks, k = m ∨ k = m' := by
    intro x hx k hk
    rcases threads x hx with rfl | rfl
    · rw [first.saved] at hk
      exact Or.inl (List.mem_singleton.mp hk)
    · rw [last.saved] at hk
      exact Or.inr (List.mem_singleton.mp hk)
  -- Nothing is written after the last save.
  have hend : c.shared.tasks = d₂.tasks := by
    refine (tasks_owe pg).stays hr hd₂ (System.at?_time c) (System.at?_le hd₂) fun x hx k hk => ?_
    rcases writes x hx k hk with rfl | rfl
    · exact Or.inl (Nat.lt_succ_of_lt lt)
    · exact Or.inl (Nat.lt_succ_self _)
  have hfinal : (∃ q ∈ c.shared.tasks, q.id = task.uuid ∧ e.In q ∧ e'.In q) ↔ e.In row₂ := by
    rw [hend, ← TaskEdit.in_saved_iff hsaved₂ disjoint, ← hin₂ e]
    constructor
    · rintro ⟨q, hq, hqid, he, -⟩
      obtain rfl : q = x₂ :=
        Table.eq_of_key (wellFormed_at wf hr hd₂).tasks hq hx₂ ((hqid.trans same).trans hxid₂.symm)
      exact he
    · intro he
      exact ⟨x₂, hx₂, hxid₂.trans same.symm, he, (hin₂ e').mpr (TaskEdit.in_saved hsaved₂)⟩
  rw [hfinal]
  rcases Nat.lt_or_gt_of_ne ne with hbefore | hafter
  · -- The task was loaded as it was at the start.
    have hload : s₂.tasks = s₀.tasks := by
      refine (tasks_owe pg).stays hr hr.at?_zero hs₂ (Nat.zero_le _) fun x hx k hk => Or.inr ?_
      rcases writes x hx k hk with rfl | rfl
      · exact Nat.le_of_lt hbefore
      · exact Nat.le_of_lt last.order
    rw [Tables.Carries, ← hload]
    constructor
    · intro he _
      exact ⟨row₂, hrow₂, hid₂.trans same.symm, he⟩
    · intro h
      obtain ⟨q, hq, hqid, he⟩ := h hbefore
      obtain rfl : q = row₂ :=
        Table.eq_of_key (wellFormed_at wf hr hs₂).tasks hq hrow₂ ((hqid.trans same).trans hid₂.symm)
      exact he
  · -- The task was loaded as the first save had left it.
    have hload : s₂.tasks = d₁.tasks := by
      refine (tasks_owe pg).stays hr hd₁ hs₂ hafter fun x hx k hk => ?_
      rcases writes x hx k hk with rfl | rfl
      · exact Or.inl (Nat.lt_succ_self _)
      · exact Or.inr (Nat.le_of_lt last.order)
    obtain rfl : x₁ = row₂ :=
      Table.eq_of_key (wellFormed_at wf hr hs₂).tasks (hload ▸ hx₁) hrow₂ ((hxid₁.trans same).trans hid₂.symm)
    exact iff_of_true ((hin₁ e).mpr (TaskEdit.in_saved hsaved₁)) fun h => absurd h (Nat.lt_asymm hafter)

theorem EditRun.overwrites_iff (run : EditRun c t task e l m) (other : EditRun c u task' e' l' m') :
    Overwrites u t ↔ l' < m ∧ m < m' := by
  simp [Overwrites, savedAt, run.saved, other.saved, other.loaded]

/-- Two requests that edit different fields of one task leave both edits in its row, but for an edit that the other
    request overwrites and that the row did not have at the start. -/
theorem both_edits_kept_iff (pg : Postgres) (s₀ : Tables) (c : State) (wf : s₀.WellFormed)
    (hr : (system pg).Reach (fun _ _ => True) (.initial s₀) c) (t u : Thread interface Request Response)
    (threads : c.threads = [t, u]) (task task' : UuidText) (e e' : TaskEdit) (edit : t.request.edit? = some (task, e))
    (edit' : u.request.edit? = some (task', e')) (same : task.uuid = task'.uuid) (disjoint : e.Disjoint e')
    (a a' : Response) (ok : t.result? = some (.ok a)) (ok' : u.result? = some (.ok a')) :
    (∃ row ∈ c.shared.tasks, row.id = task.uuid ∧ e.In row ∧ e'.In row) ↔
      (Overwrites u t → s₀.Carries task.uuid e) ∧ (Overwrites t u → s₀.Carries task.uuid e') := by
  have ht : t ∈ c.threads := by simp [threads]
  have hu : u ∈ c.threads := by simp [threads]
  have two : ∀ x ∈ c.threads, x = t ∨ x = u := by simp [threads]
  obtain ⟨l, m, run⟩ := edit_run hr ht edit ok
  obtain ⟨l', m', run'⟩ := edit_run hr hu edit' ok'
  have apart : ∀ x ∈ t.log, ∀ y ∈ u.log, x.time ≠ y.time :=
    hr.apart (i := 0) (j := 1) (by decide) (by simp [threads]) (by simp [threads])
  obtain ⟨x, hx, hload⟩ := run.load
  obtain ⟨y, hy, hsave⟩ := run.save
  obtain ⟨x', hx', hload'⟩ := run'.load
  obtain ⟨y', hy', hsave'⟩ := run'.save
  rw [run.overwrites_iff run', run'.overwrites_iff run]
  have hne : m ≠ m' := hsave ▸ hsave' ▸ apart y hy y' hy'
  rcases Nat.lt_or_gt_of_ne hne with hlt | hgt
  · have hne : l' ≠ m := (hload' ▸ hsave ▸ apart y hy x' hx').symm
    rw [last_save wf hr two run run' same disjoint.symm hlt hne]
    constructor
    · intro h
      exact ⟨fun ho => h ho.1, fun ho => absurd ho.2 (Nat.lt_asymm hlt)⟩
    · intro h hl
      exact h.1 ⟨hl, hlt⟩
  · have hne : l ≠ m' := hload ▸ hsave' ▸ apart x hx y' hy'
    have hlast := last_save wf hr (fun x hx => (two x hx).symm) run' run same.symm disjoint hgt hne
    rw [← same] at hlast
    have hswap : (∃ row ∈ c.shared.tasks, row.id = task.uuid ∧ e.In row ∧ e'.In row) ↔
        ∃ row ∈ c.shared.tasks, row.id = task.uuid ∧ e'.In row ∧ e.In row :=
      exists_congr fun row => and_congr_right fun _ => and_congr_right fun _ => and_comm
    rw [hswap, hlast]
    constructor
    · intro h
      exact ⟨fun ho => absurd ho.2 (Nat.lt_asymm hgt), fun ho => h ho.1⟩
    · intro h hl
      exact h.2 ⟨hl, hgt⟩

def rename : UpdateTaskDto := { title := some (some "New") }

def describe : UpdateTaskDto := { description := some (some "Text") }

def editTask (dto : UpdateTaskDto) : Request :=
  ⟨Uuid.text 1, .updateTask (Uuid.text 2) (Uuid.text 10) 9 dto⟩

/-- The task is described once its new name is saved. -/
def editsInTurn : List (Move interface Request) :=
  [.start (editTask rename) (envAt 1), .start (editTask describe) (envAt 2), .call 0 .answered (envAt 3),
   .call 1 .answered (envAt 4), .call 0 .answered (envAt 5), .call 0 .answered (envAt 6), .call 1 .answered (envAt 7),
   .call 1 .answered (envAt 8)]

/-- Both requests load the task before they save it. -/
def editsCrossed : List (Move interface Request) :=
  [.start (editTask rename) (envAt 1), .start (editTask describe) (envAt 2), .call 0 .answered (envAt 3),
   .call 1 .answered (envAt 4), .call 0 .answered (envAt 5), .call 1 .answered (envAt 6), .call 0 .answered (envAt 7),
   .call 1 .answered (envAt 8)]

theorem rename_disjoint_describe : (TaskEdit.update rename).Disjoint (.update describe) :=
  ⟨Or.inr rfl, Or.inl rfl, Or.inl rfl, Or.inl rfl, Or.inl rfl, Or.inl rfl⟩

set_option maxRecDepth 4000 in
theorem both_edits_kept_in_turn : ∃ c : State,
    ∃ row ∈ c.shared.tasks, row.id = 10 ∧ (TaskEdit.update rename).In row ∧ (TaskEdit.update describe).In row := by
  obtain ⟨c, t, u, hr, threads, edit, edit', ⟨a, ok⟩, ⟨a', ok'⟩, hseen, hlast⟩ : ∃ (c : State)
      (t u : Thread interface Request Response), (system .strict).Reach (fun _ _ => True) (.initial twoTasks) c ∧
        c.threads = [t, u] ∧ t.request.edit? = some (Uuid.text 10, .update rename) ∧
        u.request.edit? = some (Uuid.text 10, .update describe) ∧ (∃ a, t.result? = some (.ok a)) ∧
        (∃ a, u.result? = some (.ok a)) ∧ loadedAt u = some 6 ∧ savedAt t = some 5 ∧ savedAt u = some 7 :=
    ⟨_, _, _, System.reach_of_run editsInTurn rfl, rfl, rfl, rfl, ⟨_, rfl⟩, ⟨_, rfl⟩, rfl, rfl, rfl⟩
  have hkept := both_edits_kept_iff .strict twoTasks c twoTasks_wellFormed hr t u threads _ _ _ _ edit edit' rfl
    rename_disjoint_describe a a' ok ok'
  refine ⟨c, hkept.mpr ⟨?_, ?_⟩⟩
  · rintro ⟨l, hl, n, hn, m, hm, hbefore, -⟩
    simp [hseen, hlast] at hl hn
    omega
  · rintro ⟨l, hl, n, hn, m, hm, -, hafter⟩
    simp [hlast] at hn hm
    omega

set_option maxRecDepth 4000 in
/-- The new name is lost. -/
theorem edit_lost : ∃ (c : State) (t u : Thread interface Request Response),
    (system .strict).Reach (fun _ _ => True) (.initial twoTasks) c ∧ c.threads = [t, u] ∧
      t.request.edit? = some (Uuid.text 10, .update rename) ∧ u.request.edit? = some (Uuid.text 10, .update describe) ∧
      (TaskEdit.update rename).Disjoint (.update describe) ∧ (∃ a, t.result? = some (.ok a)) ∧
      (∃ a, u.result? = some (.ok a)) ∧
      ¬ ∃ row ∈ c.shared.tasks, row.id = 10 ∧ (TaskEdit.update rename).In row ∧ (TaskEdit.update describe).In row := by
  obtain ⟨c, t, u, hr, threads, edit, edit', ok, ok', htasks⟩ : ∃ (c : State)
      (t u : Thread interface Request Response), (system .strict).Reach (fun _ _ => True) (.initial twoTasks) c ∧
        c.threads = [t, u] ∧ t.request.edit? = some (Uuid.text 10, .update rename) ∧
        u.request.edit? = some (Uuid.text 10, .update describe) ∧ (∃ a, t.result? = some (.ok a)) ∧
        (∃ a, u.result? = some (.ok a)) ∧
        c.shared.tasks = [{ task 10 with description := some "Text" }, task 11] :=
    ⟨_, _, _, System.reach_of_run editsCrossed rfl, rfl, rfl, rfl, ⟨_, rfl⟩, ⟨_, rfl⟩, rfl⟩
  refine ⟨c, t, u, hr, threads, edit, edit', rename_disjoint_describe, ok, ok', ?_⟩
  rintro ⟨row, hrow, -, ⟨htitle, -⟩, -⟩
  have htitle : some row.title = some "New" := (htitle _ rfl).symm
  rw [htasks] at hrow
  rcases List.mem_cons.mp hrow with rfl | hrow
  · exact absurd htitle (by decide)
  · rw [List.mem_singleton] at hrow
    subst hrow
    exact absurd htitle (by decide)

end TaskPlatform.Board

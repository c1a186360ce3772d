import TaskPlatform.Board.Trail

/-! When a task was completed: `completedAt` against the update that moved the task to `DONE`. -/

namespace TaskPlatform.Board
open Effects

/-- The task was in another status before, and is `DONE` after. -/
def MovesToDone (x : Uuid) (s s' : Tables) : Prop :=
  (∃ t ∈ s.tasks, t.id = x ∧ t.status ≠ .DONE) ∧ ∃ t ∈ s'.tasks, t.id = x ∧ t.status = .DONE

instance (x : Uuid) (s s' : Tables) : Decidable (MovesToDone x s s') := inferInstanceAs (Decidable (_ ∧ _))

/-- The time of a request, if it moves the task to `DONE`. -/
def completionTimes (pg : Postgres) (x : Uuid) (r : Request) (env : Nat → Env) (s : Tables) : List Date :=
  if MovesToDone x s ((system pg).serve r env s).2 then [(env 2).now] else []

/-- The tasks of which the status stays keep their `completedAt`. -/
def KeepsCompletedAt (s s' : Tables) : Prop :=
  ∀ t ∈ s.tasks, ∀ t' ∈ s'.tasks, t'.id = t.id → t'.status = t.status → t'.completedAt = t.completedAt

/-- An update that is accepted, and sends `DONE` for a task that is `DONE`. -/
def CompletesAgain (r : Request) (s : Tables) : Prop :=
  match r.operation with
  | .updateTask p t _ dto =>
    dto.status = some (some .DONE) ∧
      ∃ old, Found r.workspaceId p t s old ∧ dto.Accepted s old ∧ old.status = .DONE
  | _ => False

/-- What a create, an update or a move makes of a task: a new one, one of which it leaves the status, or one of
    which it sets it. -/
inductive StatusStep (r : Request) (env : Nat → Env) (s : Tables) (t' : TaskRow) : Prop
  | new (fresh : t'.id ∉ s.taskIds) (status : t'.status = .TODO) (completedAt : t'.completedAt = none)
  | kept {t : TaskRow} (mem : t ∈ s.tasks) (id : t'.id = t.id) (status : t'.status = t.status)
      (completedAt : t'.completedAt = t.completedAt)
  | set {w p t : UuidText} {actor : Uuid} {dto : UpdateTaskDto} (call : r = ⟨w, .updateTask p t actor dto⟩)
      {old : TaskRow} (found : Found w p t s old) (accepted : dto.Accepted s old) (id : t'.id = old.id)
      (status : dto.status = some (some t'.status))
      (completedAt : t'.completedAt = if t'.status = .DONE then some (env 2).now else none)

section
variable {pg : Postgres} {s : Tables} {r : Request} {env : Nat → Env} {x : Uuid}

theorem statusStep_self {t : TaskRow} (h : t ∈ s.tasks) : StatusStep r env s t := .kept h rfl rfl rfl

variable (pg env) in
/-- Every create, update and move does what `StatusStep` says. -/
theorem serve_statusStep (wf : s.WellFormed) (h : r.operation.writesTask = true) {t' : TaskRow}
    (ht : t' ∈ ((system pg).serve r env s).2.tasks) : StatusStep r env s t' := by
  by_cases hsaves : r.operation.savesTask = true
  · obtain ⟨res, s₁, rows, hout, -, -, same, -⟩ := serve_outcome pg env wf hsaves
    rw [same.tasks] at ht
    cases hout with
    | rejected e same₁ hact₁ => exact statusStep_self (same₁.tasks ▸ ht)
    | @created w p user dto call e fresh s₁ same₁ hact₁ =>
      rw [same₁.tasks] at ht
      rcases List.mem_append.mp ht with ht | ht
      · exact statusStep_self ht
      · obtain rfl := List.mem_singleton.mp ht
        exact .new fresh rfl rfl
    | @updated w p t actor dto call old new found accepted row s₁ same₁ hact₁ =>
      rw [same₁.tasks] at ht
      obtain ⟨-, hstatus, -, hid, -, -, -, -, -, -, hcompleted⟩ := Task.toRow?_row row
      have hid : new.id = old.id := hid
      rcases (Table.mem_replace (x := new.over old) ⟨old, found.mem, hid.symm⟩).mp ht with rfl | ⟨ht, -⟩
      · simp only [UpdateTaskDto.apply] at hstatus hcompleted
        cases hd : dto.status with
        | none =>
          rw [hd] at hstatus hcompleted
          exact .kept found.mem hid (Option.some.inj hstatus).symm hcompleted
        | some status =>
          rw [hd] at hstatus hcompleted
          have hstatus : status = some new.status := hstatus
          subst hstatus
          refine .set call found accepted hid hd (hcompleted.trans ?_)
          simp only [Option.some.injEq]
          rfl
      · exact statusStep_self ht
  · obtain ⟨w, operation⟩ := r
    cases operation with
    | moveTask p t newParentId =>
      rw [serve_moveTask] at ht
      rcases moveTask_tasks pg env w p t (wf.spend (env 0)) newParentId with hsame | ⟨-, old, new, hmem, hid, -, -, hnew, -, hset⟩
      · exact statusStep_self (hsame ▸ ht)
      · rw [hset] at ht
        obtain ⟨-, hstatus, -, hnid, -, -, -, -, -, -, hcompleted⟩ := Task.toRow?_row hnew
        have hnid : new.id = old.id := hnid
        rcases (Table.mem_replace (x := new.over old) ⟨old, hmem, hnid.symm⟩).mp ht with rfl | ⟨ht, -⟩
        · exact .kept hmem hnid (Option.some.inj hstatus).symm hcompleted
        · exact statusStep_self ht
    | createTask | updateTask => exact absurd rfl hsaves
    | _ => cases h

/-! ### The invariant -/

/-- A task that is `DONE` was completed at the last of the times, any other one was not. -/
def CompletedLast (x : Uuid) (s : Tables) (times : List Date) : Prop :=
  ∀ t ∈ s.tasks, t.id = x →
    (t.status = .DONE → ∃ time, times.getLast? = some time ∧ t.completedAt = some time) ∧
      (t.status ≠ .DONE → t.completedAt = none)

theorem serve_completedLast (wf : s.WellFormed) {times : List Date} (inv : CompletedLast x s times)
    (h : r.operation.writesTask = true) (once : ¬ CompletesAgain r s) :
    CompletedLast x ((system pg).serve r env s).2 (times ++ completionTimes pg x r env s) := by
  intro t' ht' hx
  -- The task before the request, if it has the id of `t'`.
  have hbefore : ∀ {t}, t ∈ s.tasks → t'.id = t.id → ∀ u ∈ s.tasks, u.id = x → u = t := fun ht hid u hu hux =>
    Table.eq_of_key wf.tasks hu ht (hux.trans (hx.symm.trans hid))
  rcases serve_statusStep pg env wf h ht' with
    ⟨hfresh, hstatus, hnone⟩ | ⟨hmem, hid, hstatus, hsame⟩ | ⟨hcall, hfound, haccepted, hid, hstatus, hset⟩
  · refine ⟨fun hdone => ?_, fun _ => hnone⟩
    rw [hstatus] at hdone
    cases hdone
  · obtain ⟨hdone, hopen⟩ := inv _ hmem (hid.symm.trans hx)
    rw [hstatus, hsame]
    refine ⟨fun hd => ?_, hopen⟩
    have hnot : ¬ MovesToDone x s ((system pg).serve r env s).2 := by
      rintro ⟨⟨u, hu, hux, hne⟩, -⟩
      exact hne (hbefore hmem hid u hu hux ▸ hd)
    rw [completionTimes, if_neg hnot, List.append_nil]
    exact hdone hd
  · refine ⟨fun hd => ?_, fun hne => hset.trans (if_neg hne)⟩
    subst hcall
    have hold : _ ≠ TaskStatus.DONE := fun hold => once ⟨hd ▸ hstatus, _, hfound, haccepted, hold⟩
    have hmoves : MovesToDone x s ((system pg).serve _ env s).2 :=
      ⟨⟨_, hfound.mem, hid.symm.trans hx, hold⟩, t', ht', hx, hd⟩
    rw [completionTimes, if_pos hmoves, List.getLast?_concat]
    exact ⟨_, rfl, hset.trans (if_pos hd)⟩

theorem serve_keepsCompletedAt (wf : s.WellFormed) (inv : ∀ x, ∃ times, CompletedLast x s times)
    (h : r.operation.writesTask = true) (once : ¬ CompletesAgain r s) :
    KeepsCompletedAt s ((system pg).serve r env s).2 := by
  intro t ht t' ht' hid hsame
  rcases serve_statusStep pg env wf h ht' with
    ⟨hfresh, hstatus, hnone⟩ | ⟨hmem, hid', hstatus, hcompleted⟩ | ⟨hcall, hfound, haccepted, hid', hstatus, hset⟩
  · exact absurd (hid ▸ List.mem_map_of_mem ht) hfresh
  · rw [hcompleted, Table.eq_of_key wf.tasks hmem ht (hid'.symm.trans hid)]
  · obtain rfl := Table.eq_of_key wf.tasks hfound.mem ht (hid'.symm.trans hid)
    subst hcall
    -- The status that is sent is the one the task has, and it is not `DONE`.
    have hopen : t'.status ≠ .DONE := fun hd => once ⟨hd ▸ hstatus, _, hfound, haccepted, hsame ▸ hd⟩
    obtain ⟨times, hinv⟩ := inv (TaskRow.id _)
    rw [hset, if_neg hopen]
    exact ((hinv _ ht rfl).2 (hsame ▸ hopen)).symm

/-! ### Runs -/

/-- Requests one after another, of which none completes a task again: every task that is done was completed
    by the update that last moved it to `DONE`, and a request that leaves a status leaves `completedAt`. -/
theorem completed_when_moved (pg : Postgres) {s : Tables} (wf : s.WellFormed) (start : s.tasks = [])
    (rs : List (Request × (Nat → Env)))
    (cond : (system pg).Throughout (fun r _ s => r.operation.writesTask = true ∧ ¬ CompletesAgain r s) rs s) :
    (∀ t ∈ ((system pg).serveAll rs s).2.tasks, t.status = .DONE →
      ∃ time, ((system pg).observe (completionTimes pg t.id) rs s).getLast? = some time ∧ t.completedAt = some time) ∧
    (system pg).Throughout (fun r env s => KeepsCompletedAt s ((system pg).serve r env s).2) rs s := by
  have hstart : ∀ x, CompletedLast x s [] := fun x t ht => absurd (start ▸ ht) List.not_mem_nil
  constructor
  · intro t ht
    have := System.serveAll_observe (completionTimes pg t.id)
      (P := fun s times => s.WellFormed ∧ CompletedLast t.id s times) ⟨wf, hstart t.id⟩ cond fun ⟨wf, inv⟩ ⟨h, once⟩ =>
        ⟨serve_wellFormed _ wf, serve_completedLast wf inv h once⟩
    exact (this.2 t ht rfl).1
  · refine System.Throughout.of_invariant (P := fun s => s.WellFormed ∧ ∀ x, ∃ times, CompletedLast x s times)
      ⟨wf, fun x => ⟨[], hstart x⟩⟩ cond ?_ ?_
    · rintro r env s ⟨wf, inv⟩ ⟨h, once⟩
      refine ⟨serve_wellFormed _ wf, fun x => ?_⟩
      obtain ⟨times, hinv⟩ := inv x
      exact ⟨_, serve_completedLast wf hinv h once⟩
    · rintro r env s ⟨wf, inv⟩ ⟨h, once⟩
      exact serve_keepsCompletedAt wf inv h once

end

/-! ### A task that is completed twice -/

/-- A task that is completed, taken up again, and completed again. -/
def reopened : List (Request × (Nat → Env)) :=
  [createAssigned, updateTo { status := some (some .DONE) } 2, updateTo { status := some (some .TODO) } 3,
   updateTo { status := some (some .DONE) } 4]

theorem completed_when_moved_back :
    (system .strict).observe (completionTimes .strict 112) reopened emptyProject = [2, 4] ∧
    (∀ t ∈ ((system .strict).serveAll reopened emptyProject).2.tasks, t.status = .DONE →
      ∃ time, ((system .strict).observe (completionTimes .strict t.id) reopened emptyProject).getLast? = some time ∧
        t.completedAt = some time) ∧
    (system .strict).Throughout (fun r env s => KeepsCompletedAt s ((system .strict).serve r env s).2) reopened
      emptyProject := by
  refine ⟨by decide +kernel, completed_when_moved .strict emptyProject_wellFormed rfl reopened ?_⟩
  have again : ∀ {r : Request} {s : Tables}, (∀ t ∈ s.tasks, t.status ≠ .DONE) → ¬ CompletesAgain r s := by
    rintro ⟨w, operation⟩ s hopen h
    cases operation with
    | updateTask =>
      obtain ⟨-, old, found, -, hold⟩ := h
      exact hopen old found.mem hold
    | _ => exact h
  refine ⟨⟨rfl, id⟩, ⟨rfl, again ?_⟩, ⟨rfl, ?_⟩, ⟨rfl, again ?_⟩, trivial⟩
  · decide +kernel
  · intro h
    cases h.1
  · decide +kernel

/-- An update that sends `DONE` again sets a new time. -/
theorem completed_again_later :
    ¬ ∀ s : Tables, s.WellFormed → s.tasks = [] → ∀ rs,
      (system .strict).Throughout (fun r _ _ => r.operation.writesTask = true) rs s →
      (∀ t ∈ ((system .strict).serveAll rs s).2.tasks, t.status = .DONE →
        ∃ time, ((system .strict).observe (completionTimes .strict t.id) rs s).getLast? = some time ∧
          t.completedAt = some time) ∧
      (system .strict).Throughout (fun r env s => KeepsCompletedAt s ((system .strict).serve r env s).2) rs s := by
  intro h
  obtain ⟨-, -, -, hkeeps, -⟩ := h emptyProject emptyProject_wellFormed rfl
    [createAssigned, updateTo { status := some (some .DONE) } 2, updateTo { status := some (some .DONE) } 3]
    ⟨rfl, rfl, rfl, trivial⟩
  revert hkeeps
  unfold KeepsCompletedAt
  decide +kernel

end TaskPlatform.Board

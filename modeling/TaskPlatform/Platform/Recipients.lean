import TaskPlatform.Platform.Contracts
import TaskPlatform.Platform.Fitting

/-! Who is told of a task or a comment: somebody who has been a member of its workspace, or whom the task has been
    assigned to, at that moment or before. -/

namespace TaskPlatform.Platform
open Effects Notifications

section
variable {out : Access.Outside} {pg : Postgres} {k : Knowledge} {s : Tables} {env : Env} {n : NotificationRow}

/-- Empty tables show nothing. -/
theorem start_fits (users : List Uuid) (generated : Generated) :
    (Tables.start users generated).shows.Fits (Tables.start users generated) := by
  have hnone : (Tables.start users generated).shows = ∅ := by
    refine Set.eq_empty_of_forall_notMem fun f hf => ?_
    cases f with
    | row f =>
      cases f with
      | project | task | comment =>
        obtain ⟨x, hx, -⟩ := hf
        cases hx
    | creator | assignee | member =>
      obtain ⟨x, hx, -⟩ := hf
      cases hx
  rw [hnone]
  exact {
    shown := hnone.le
    rows := Board.start_fits users [] generated
    creators := fun h => h.elim
    authors := fun h => h.elim
    cached := fun _ _ h => absurd h List.not_mem_nil
    queued := fun _ h => absurd h List.not_mem_nil }

/-! ### One task and one workspace -/

/-- An entity is one task or a comment on one, in one workspace. -/
theorem Knowledge.Fits.concerns_unique (h : k.Fits s) {type : Option String} {id : Option Uuid} {w w' t t' : Uuid}
    (hc : k.Concerns type id w t) (hc' : k.Concerns type id w' t') : w' = w ∧ t' = t := by
  obtain ⟨htask, hentity⟩ := hc
  obtain ⟨htask', hentity'⟩ := hc'
  have ht : t' = t := by
    rcases hentity with ⟨rfl, rfl⟩ | ⟨rfl, m, a, rfl, hm⟩ <;> rcases hentity' with ⟨htype, hid⟩ | ⟨htype, m', a', hid, hm'⟩
    · exact (Option.some.inj hid).symm
    · exact absurd (Option.some.inj htype) (by decide)
    · exact absurd (Option.some.inj htype) (by decide)
    · obtain rfl := Option.some.inj hid
      exact (h.rows.oneTask hm' hm).1
  exact ⟨h.hasTask_unique htask (ht ▸ htask'), ht⟩

/-! ### New notifications -/

theorem insert_rows {input : CreateNotificationInput} {s : Notifications.Tables}
    (hn : n ∈ (Notifications.exec pg env (.insertNotification input) s).2.notifications) :
    n ∈ s.notifications ∨ n = input.toRow env := by
  rw [Notifications.exec] at hn
  cases h : s.insertNotification (input.toRow env) with
  | error e =>
    rw [h] at hn
    exact Or.inl hn
  | ok s' =>
    rw [h] at hn
    obtain ⟨_, -, h⟩ := ok_of_bind h
    obtain ⟨_, -, h⟩ := ok_of_bind h
    cases h
    exact (List.mem_append.mp hn).imp_right List.mem_singleton.mp

/-- A call that adds a notification knew that it may. -/
theorem notification_added {c : Call} (hpre : c.pre k) (hn : n ∈ (exec out pg env c s).2.rest.notifications)
    (hnew : n ∉ s.rest.notifications) : k.Addressed n.note := by
  match c with
  | .access _ c => exact absurd hn hnew
  | .addNotificationJob _ | .takeNotificationJob _ => exact absurd hn hnew
  | .completeNotificationJob id =>
    simp only [exec] at hn
    split at hn <;> exact absurd hn hnew
  | .reminders c =>
    have hn : n ∈ (Reminders.exec pg env c s.rest).2.notifications := hn
    by_cases hinbox : ∃ b, c = .inbox b
    · obtain ⟨b, rfl⟩ := hinbox
      obtain ⟨input, rfl, haddressed⟩ := hpre
      rcases insert_rows hn with hold | rfl
      · exact absurd hold hnew
      · exact haddressed
    · rw [(Reminders.exec_write pg s.rest env c).inbox_same fun b hb => hinbox ⟨b, hb⟩] at hn
      exact absurd hn hnew

end

/-- What has been so at some moment of the run. -/
def State.known (c : State) : Knowledge := c.shown Tables.shows

/-- In every run, a notification that a step adds is of one task in one workspace, as the run so far has shown. Its recipient
    has been a member there by then, if the task is completed or a comment is answered; anything else is told to somebody
    whom the task has been assigned to. -/
theorem recipient_entitled (out : Access.Outside) (pg : Postgres) (queue : Bool) (users : List Uuid) (generated : Generated)
    (c d : State) (m : Move interface Request)
    (hc : (system out pg queue).Reach (fun _ _ => True) (.initial (Tables.start users generated)) c)
    (hs : (system out pg queue).step c m = some d) (n : NotificationRow) (hn : n ∈ d.shared.rest.notifications)
    (hnew : n ∉ c.shared.rest.notifications) :
    ∃ w t, c.known.Concerns n.entityType n.entityId w t ∧
      (∀ w' t', c.known.Concerns n.entityType n.entityId w' t' → w' = w ∧ t' = t) ∧
      c.known.Entitles w t n.recipientId n.type := by
  have hknown : System.Known (fun _ => contract) Knowledge.Fits c.known c :=
    (shows out pg queue).reach (program_meets out queue) (start_fits users generated) hc
  have haddressed : c.known.Addressed n.note := by
    rcases System.step_shared hs with heq | ⟨env, -, heq⟩ | ⟨i, fate, env, t, op, -, ht, hop, -, heq⟩
    · rw [heq] at hn
      exact absurd hn hnew
    · rw [heq] at hn
      exact absurd hn hnew
    · rw [heq] at hn
      have hpre : op.pre c.known := hknown.pre ht hop
      cases fate with
      | failed => exact absurd hn hnew
      | answered | lost => exact notification_added hpre hn hnew
  obtain ⟨w, t, hconcerns, hentitles⟩ := haddressed
  exact ⟨w, t, hconcerns, fun w' t' h => hknown.1.concerns_unique hconcerns h, hentitles⟩

/-! ### Somebody else is told -/

/-- The user is a member of the workspace of the task. -/
def Tables.MemberOf (s : Tables) (t u : Uuid) : Prop :=
  ∃ x ∈ s.rest.board.tasks, x.id = t ∧ ∃ p ∈ s.rest.board.projects, p.id = x.projectId ∧
    ∃ m ∈ s.db.members, m.workspaceId = p.workspaceId ∧ m.userId = u

instance (s : Tables) (t u : Uuid) : Decidable (s.MemberOf t u) :=
  inferInstanceAs (Decidable (∃ x ∈ s.rest.board.tasks, x.id = t ∧ ∃ p ∈ s.rest.board.projects, p.id = x.projectId ∧
    ∃ m ∈ s.db.members, m.workspaceId = p.workspaceId ∧ m.userId = u))

/-- A step that adds a notification of a task for somebody who is no member of its workspace. -/
def TellsStranger (type : NotificationType) (c d : State) : Prop :=
  ∃ n ∈ d.shared.rest.notifications, n ∉ c.shared.rest.notifications ∧ n.type = type ∧
    ∃ t ∈ d.shared.rest.board.tasks, n.entityType = some "task" ∧ n.entityId = some t.id ∧
      ¬ d.shared.MemberOf t.id n.recipientId

instance (type : NotificationType) (c d : State) : Decidable (TellsStranger type c d) :=
  inferInstanceAs (Decidable (∃ n ∈ d.shared.rest.notifications, n ∉ c.shared.rest.notifications ∧ n.type = type ∧
    ∃ t ∈ d.shared.rest.board.tasks, n.entityType = some "task" ∧ n.entityId = some t.id ∧
      ¬ d.shared.MemberOf t.id n.recipientId))

/-- A request with nobody else between its calls, all of which are answered. -/
def alone (i : Nat) (r : Request) (calls n : Nat) : List (Move interface Request) :=
  .start r (envAt n) :: (List.range calls).map fun j => .call i .answered (envAt (n + 1 + j))

/-- Users 8 and 9 have an address each. -/
def twoUsers : Access.Outside :=
  { toLowerCase := fun s => s, citext := fun s => s, email := fun u => if u = 9 then "nine@acme.com" else "eight@acme.com" }

/-- User 8 creates a workspace and a project. -/
def founded : List (Move interface Request) :=
  alone 0 (.access 0 ⟨8, .create { name := "Acme" }⟩) 3 0 ++
  alone 1 (.board 0 8 ⟨Uuid.text 102, .createProject 8 { name := "Website" }⟩) 4 10

/-- User 8 creates a task that user 9 is to do, who is in no workspace. -/
def delegated : List (Move interface Request) :=
  founded ++ alone 2 (.board 0 8 ⟨Uuid.text 102,
    .createTask (Uuid.text 114) 8 { title := "Design", assigneeId := some (Uuid.text 9) }⟩) 5 20

/-- User 9 joins, creates a task, and is removed before user 8 completes the task. -/
def departed : List (Move interface Request) :=
  founded ++ alone 2 (.access 0 ⟨8, .invite (Uuid.text 102) { email := "nine@acme.com" }⟩) 5 20 ++
  alone 3 (.access 0 ⟨9, .accept (envAt 24).random⟩) 3 30 ++
  alone 4 (.board 0 9 ⟨Uuid.text 102, .createTask (Uuid.text 114) 9 { title := "Design" }⟩) 6 40 ++
  alone 5 (.access 0 ⟨8, .removeMember (Uuid.text 102) (Uuid.text 9)⟩) 5 50 ++
  alone 6 (.board 0 8 ⟨Uuid.text 102,
    .updateTask (Uuid.text 114) (Uuid.text 145) 8 { status := some (some .DONE) }⟩) 6 60

/-- Who is assigned a task need be no member of the workspace, and who created one need be no member any more. -/
theorem strangers_told :
    (∃ c : State, (system twoUsers .strict false).Reach (fun _ _ => True) (.initial (Tables.start [8, 9] ⟨[], []⟩)) c ∧
      ∃ d ∈ (system twoUsers .strict false).step c (.call 2 .answered (envAt 26)), TellsStranger .TASK_ASSIGNED c d) ∧
    ∃ c : State, (system twoUsers .strict false).Reach (fun _ _ => True) (.initial (Tables.start [8, 9] ⟨[], []⟩)) c ∧
      ∃ d ∈ (system twoUsers .strict false).step c (.call 6 .answered (envAt 67)), TellsStranger .TASK_COMPLETED c d :=
  ⟨System.reach_exists delegated (by decide +kernel), System.reach_exists departed (by decide +kernel)⟩

/-- The assignee has been assigned the task. -/
theorem recipient_entitled_delegated : ∃ c : State,
    (system twoUsers .strict false).Reach (fun _ _ => True) (.initial (Tables.start [8, 9] ⟨[], []⟩)) c ∧
    ∃ d ∈ (system twoUsers .strict false).step c (.call 2 .answered (envAt 26)),
      ∃ n ∈ d.shared.rest.notifications, n.recipientId = 9 ∧
        ∃ w t, c.known.Concerns n.entityType n.entityId w t ∧ c.known.Entitles w t n.recipientId n.type := by
  have hrun : ∃ c : State,
      (system twoUsers .strict false).Reach (fun _ _ => True) (.initial (Tables.start [8, 9] ⟨[], []⟩)) c ∧
      ∃ d ∈ (system twoUsers .strict false).step c (.call 2 .answered (envAt 26)),
        ∃ n ∈ d.shared.rest.notifications, n.recipientId = 9 ∧ n ∉ c.shared.rest.notifications :=
    System.reach_exists delegated (by decide +kernel)
  obtain ⟨c, hc, d, hd, n, hn, hnine, hnew⟩ := hrun
  obtain ⟨w, t, hconcerns, -, hentitles⟩ :=
    recipient_entitled twoUsers .strict false [8, 9] ⟨[], []⟩ c d (.call 2 .answered (envAt 26)) hc hd n hn hnew
  exact ⟨c, hc, d, hd, n, hn, hnine, w, t, hconcerns, hentitles⟩

end TaskPlatform.Platform

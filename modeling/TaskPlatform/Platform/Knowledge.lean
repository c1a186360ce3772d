import TaskPlatform.Board.Contracts
import TaskPlatform.Library.Shown
import TaskPlatform.Platform.Services
import TaskPlatform.Reminders.Writes

/-! What programs know of people: who has been a member of a workspace, who created a task or wrote a comment, whom a task
    was assigned. It has been so at some moment of the run, and need not be so any longer. -/

namespace TaskPlatform.Platform
open Effects Notifications

/-! ### Facts -/

inductive Fact where
  | row (f : Board.Fact)
  | creator (taskId userId : Uuid)
  | assignee (taskId userId : Uuid)
  | member (workspaceId userId : Uuid)

/-- The row is there that says so. -/
def Fact.Shown (s : Tables) : Fact → Prop
  | row f => f.Shown s.rest.board
  | creator t u => ∃ x ∈ s.rest.board.tasks, x.id = t ∧ x.createdBy = u
  | assignee t u => ∃ x ∈ s.rest.board.tasks, x.id = t ∧ x.assigneeId = some u
  | member w u => ∃ m ∈ s.db.members, m.workspaceId = w ∧ m.userId = u

abbrev Knowledge := Set Fact

def Tables.shows (s : Tables) : Knowledge := {f | f.Shown s}

/-- What is known of the rows of the board. -/
def rows : Knowledge →o Board.Knowledge := ⟨Set.preimage Fact.row, fun _ _ h => Set.preimage_mono h⟩

namespace Knowledge

/-- The entity is the task, or a comment on it, and the task is in the workspace. -/
def Concerns (k : Knowledge) (entityType : Option String) (entityId : Option Uuid) (w t : Uuid) : Prop :=
  (rows k).HasTask w t ∧
    (entityType = some "task" ∧ entityId = some t ∨
      entityType = some "comment" ∧ ∃ c a, entityId = some c ∧ .row (.comment c t a) ∈ k)

/-- The creator of a task that is completed, and the author of a comment that is answered, are to have been members of
    the workspace; who is told anything else of a task is to have been its assignee. -/
def Entitles (k : Knowledge) (w t u : Uuid) : NotificationType → Prop
  | .TASK_COMPLETED | .COMMENT_REPLY => .member w u ∈ k
  | .TASK_ASSIGNED | .TASK_DUE_SOON | .TASK_OVERDUE | .COMMENT_ADDED => .assignee t u ∈ k
  | .WORKSPACE_INVITE => False

/-- The notification may be created. -/
def Addressed (k : Knowledge) (n : Uuid × NotificationType × Option String × Option Uuid) : Prop :=
  ∃ w t, k.Concerns n.2.2.1 n.2.2.2 w t ∧ k.Entitles w t n.1 n.2.1

/-- The user has been a member of the workspace of the task. -/
def Belongs (k : Knowledge) (t u : Uuid) : Prop := ∃ w, (rows k).HasTask w t ∧ .member w u ∈ k

/-- The tasks have been in a workspace each, and their assignees have been assigned to them. -/
def HasTasks (k : Knowledge) (tasks : List Board.Task) : Prop :=
  ∀ t ∈ tasks, (∃ w, (rows k).HasTask w t.id) ∧ ∀ a ∈ t.assigneeId, .assignee t.id a.uuid ∈ k

/-! ### The contract -/

/-- What the board must know of people before a call. -/
def allows (k : Knowledge) : Board.Call → Prop
  | .insertTask n => ∃ w, .row (.project n.projectId.uuid w) ∈ k ∧ .member w n.createdBy ∈ k
  | .saveTask t => .creator t.id t.createdBy ∈ k
  | .insertComment n => k.Belongs n.taskId.uuid n.authorId
  | _ => True

/-- What a reply tells the board of people. -/
def tells (k : Knowledge) : (c : Board.Call) → c.Reply → Prop
  | .findTask id p, some t =>
    .creator id t.createdBy ∈ k ∧ (∀ a ∈ t.assigneeId, .assignee id a.uuid ∈ k) ∧
      ∀ w, .row (.project p w) ∈ k → .member w t.createdBy ∈ k
  | .insertTask _, t => ∀ a ∈ t.assigneeId, .assignee t.id a.uuid ∈ k
  | .saveTask _, t => ∀ a ∈ t.assigneeId, .assignee t.id a.uuid ∈ k
  | .findComment _ t, some m => ∀ w, (rows k).HasTask w t → .member w m.authorId ∈ k
  | .insertComment n, m => .row (.comment m.id n.taskId.uuid n.authorId) ∈ k
  | _, _ => True

end Knowledge

/-- What is to be known where a call is made: who is cached as a member has been one, and who is to be told may be. -/
def Call.pre (k : Knowledge) : Call → Prop
  | .access _ (.cacheSet key _) => .member key.workspaceId.uuid key.userId.uuid ∈ k
  | .reminders (.board c) => (∃ r, (Board.contract r).pre (rows k) c) ∧ k.allows c
  | .reminders (.inbox c) => ∃ input, c = .insertNotification input ∧ k.Addressed input.note
  | .addNotificationJob input => k.Addressed input.note
  | _ => True

def Call.post (k : Knowledge) : (c : Call) → c.Reply → Prop
  | .access _ (.db (.findMember w u)), some _ => .member w u ∈ k
  | .access _ (.cacheGet key), some _ => .member key.workspaceId.uuid key.userId.uuid ∈ k
  | .reminders (.board c), a => (rows k).post c a ∧ k.tells c a
  | .reminders (.tasksDueSoon _ _), tasks => k.HasTasks tasks
  | .reminders (.tasksOverdue _), tasks => k.HasTasks tasks
  | .reminders (.findTaskById _), a => k.HasTasks a.toList
  | .takeNotificationJob _, a => ∀ j ∈ a, k.Addressed j.data.note
  | _, _ => True

/-- What is known fits the tables: their rows are known, creators and authors have been members, and so have been those
    who are cached as members; and who is to be told by a job that waits may be. -/
structure Knowledge.Fits (k : Knowledge) (s : Tables) : Prop where
  shown : s.shows ⊆ k
  rows : (rows k).Fits s.rest.board
  creators : ∀ {t u}, .creator t u ∈ k → k.Belongs t u
  authors : ∀ {c t a}, .row (.comment c t a) ∈ k → k.Belongs t a
  cached : ∀ p, ∀ e ∈ s.caches p, .member e.1.workspaceId.uuid e.1.userId.uuid ∈ k
  queued : ∀ j ∈ s.notificationJobs.waiting, k.Addressed j.data.note

/-! ### More is known -/

section
variable {k k' : Knowledge} {s s' : Tables} {w t u : Uuid}

theorem hasTask_grow (h : (rows k).HasTask w t) (hk : k ≤ k') : (rows k').HasTask w t := h.grow (rows.monotone hk)

theorem Knowledge.Belongs.grow (h : k.Belongs t u) (hk : k ≤ k') : k'.Belongs t u := by
  obtain ⟨w, htask, hmember⟩ := h
  exact ⟨w, hasTask_grow htask hk, hk hmember⟩

theorem Knowledge.Addressed.grow {n : Uuid × NotificationType × Option String × Option Uuid} (h : k.Addressed n)
    (hk : k ≤ k') : k'.Addressed n := by
  obtain ⟨w, t, ⟨htask, hentity⟩, hentitles⟩ := h
  refine ⟨w, t, ⟨hasTask_grow htask hk, hentity.imp_right fun ⟨htype, c, a, hid, hc⟩ => ⟨htype, c, a, hid, hk hc⟩⟩, ?_⟩
  cases htype : n.2.1 <;> rw [htype] at hentitles
  case WORKSPACE_INVITE => exact hentitles
  all_goals exact hk hentitles

theorem Knowledge.allows_grow {c : Board.Call} (h : k.allows c) (hk : k ≤ k') : k'.allows c := by
  cases c with
  | insertTask n =>
    obtain ⟨w, hproject, hmember⟩ := h
    exact ⟨w, hk hproject, hk hmember⟩
  | saveTask t => exact hk h
  | insertComment n => exact Knowledge.Belongs.grow h hk
  | _ => trivial

theorem Call.pre.grow {c : Call} (hk : k ≤ k') (h : c.pre k) : c.pre k' := by
  match c with
  | .access _ c =>
    cases c with
    | cacheSet => exact hk h
    | _ => trivial
  | .reminders c =>
    cases c with
    | board c =>
      obtain ⟨⟨r, hr⟩, hallows⟩ := h
      exact ⟨⟨r, (Board.contract r).grows (rows.monotone hk) hr⟩, Knowledge.allows_grow hallows hk⟩
    | inbox c =>
      obtain ⟨input, hc, haddressed⟩ := h
      exact ⟨input, hc, haddressed.grow hk⟩
    | _ => trivial
  | .addNotificationJob input => exact Knowledge.Addressed.grow h hk
  | .takeNotificationJob _ | .completeNotificationJob _ => trivial

end

def contract : Contract interface Knowledge where
  pre := Call.pre
  post := Call.post
  alike _ _ _ := False
  grows := Call.pre.grow

end TaskPlatform.Platform

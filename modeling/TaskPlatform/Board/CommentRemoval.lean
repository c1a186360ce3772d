import TaskPlatform.Board.Contracts
import TaskPlatform.Board.Forest

/-! Whose request makes a comment disappear: a comment goes with the one it replies to. -/

namespace TaskPlatform.Board
open Effects Relation

/-- The comment `b` is `a`, or a reply to it, or a reply to such a reply, and so on. -/
def Tables.InThread (s : Tables) (a b : CommentRow) : Prop := a ∈ s.comments ∧ ReflTransGen s.Reply a b

/-- The move is a call of a request by `actor`, who has this role, to delete the comment `id`. -/
def Deletes (c : State) (m : Move interface Request) (id actor : Uuid) (role : Option WorkspaceRole) : Prop :=
  ∃ i fate env t p q cid, m = .call i fate env ∧ c.threads[i]? = some t ∧
    t.request.operation = .removeComment p q cid actor role ∧ cid.uuid = id

section
variable {k : Knowledge} {s s' : Tables} {env : Env} {c : Call} {x : CommentRow}

/-- A comment that goes with tasks is on no task that is left. -/
theorem Knowledge.Fits.gone_with_task (h : k.Fits s) {p : TaskRow → Bool} (mem : x ∈ s.comments)
    (gone : x.id ∉ (s.deleteTasks p).commentIds) : x.taskId ∉ (s.deleteTasks p).taskIds := by
  have hgone : x ∈ s.goneComments (·.taskId ∈ (s.goneTasks p).map TaskRow.id) := by
    by_contra hkept
    exact gone (List.mem_map_of_mem (Tables.mem_deleteTasks_comments.mpr ⟨mem, hkept⟩))
  obtain ⟨a, ha, hp, hpath⟩ := mem_goneComments.mp hgone
  obtain ⟨t, ht, hid⟩ := List.mem_map.mp (of_decide_eq_true hp)
  intro hleft
  obtain ⟨t', ht', hid'⟩ := List.mem_map.mp hleft
  obtain ⟨ht', hkept⟩ := Tables.mem_deleteTasks.mp ht'
  have hmem : t ∈ s.tasks := by
    obtain ⟨n, hn⟩ := (Recursive.mem_reached (List.filter_subset_self _)).mp ht
    exact Recursive.level_subset (List.filter_subset_self _) hn
  have heq : t'.id = t.id := by rw [hid', (h.thread_task ha hpath).2, hid]
  exact hkept (Table.eq_of_key h.wellFormed.tasks ht' hmem heq ▸ ht)

theorem mem_ids_of_replace {y old : CommentRow} {l : List CommentRow} (hx : x.id ∈ l.map CommentRow.id) :
    x.id ∈ (Table.replace CommentRow.id (y.over old) l).map CommentRow.id := by
  rwa [Table.map_key_replace]

/-- Only the removal of a comment takes one away from a task that stays. -/
theorem Write.comment_gone (w : Write s env c s') (h : k.Fits s) (mem : x ∈ s.comments) (gone : x.id ∉ s'.commentIds)
    (task : x.taskId ∈ s'.taskIds) : ∃ a, c = .removeComment a.id ∧ s.InThread a x := by
  have hid : x.id ∈ s.comments.map CommentRow.id := List.mem_map_of_mem mem
  cases w with
  | same | projectAdded | projectSet | taskAdded | taskSet | activityAdded => exact absurd hid gone
  | commentAdded => exact absurd (mem_append_ids hid) gone
  | commentSet => exact absurd (mem_ids_of_replace hid) gone
  | projectRemoved | taskRemoved => exact absurd task (h.gone_with_task mem gone)
  | @commentRemoved id call =>
    by_cases hgone : x ∈ s.goneComments (·.id = id)
    · obtain ⟨a, ha, hp, hpath⟩ := mem_goneComments.mp hgone
      obtain rfl := of_decide_eq_true hp
      exact ⟨a, call, ha, hpath⟩
    · exact absurd (List.mem_map_of_mem (Tables.mem_deleteComments.mpr ⟨mem, hgone⟩)) gone

/-- Where a comment disappears from a task that stays, its author, the author of a comment above it in its thread
    or an `ADMIN` had asked to delete that comment. -/
theorem comment_disappears (pg : Postgres) (users workspaces : List Uuid) (generated : Generated) (c d : State)
    (m : Move interface Request) (x : CommentRow)
    (hr : (system pg).Reach (fun _ _ => True) (.initial (Tables.start users workspaces generated)) c)
    (hs : (system pg).step c m = some d) (mem : x ∈ c.shared.comments) (gone : x.id ∉ d.shared.commentIds)
    (task : x.taskId ∈ d.shared.taskIds) :
    ∃ a actor role, Deletes c m a.id actor role ∧ c.shared.InThread a x ∧
      (a.authorId = actor ∨ role = some .ADMIN) := by
  obtain ⟨k, -, hknown⟩ := (fits pg).reach program_meets (start_fits users workspaces generated) hr
  have hid : x.id ∈ c.shared.commentIds := List.mem_map_of_mem mem
  rcases System.step_shared hs with heq | ⟨env, -, heq⟩ | ⟨i, fate, env, t, op, rfl, ht, hn, hadm, heq⟩
  · exact absurd (heq ▸ hid) gone
  · exact absurd (heq ▸ hid) gone
  · rw [heq] at gone task
    cases fate with
    | failed => exact absurd hid gone
    | answered | lost =>
      obtain ⟨a, rfl, ha⟩ := (exec_write pg (c.shared.spend env) env op).comment_gone (hknown.1.spend env) mem gone task
      obtain ⟨_, author, -, hfact, p, q, cid, actor, role, hop, hcid, hmay⟩ := hknown.pre ht hn
      obtain ⟨-, hauthor⟩ := hknown.1.oneTask hfact (hknown.1.comment a ha.1)
      exact ⟨a, actor, role, ⟨i, _, env, t, p, q, cid, rfl, ht, hop, hcid⟩, ha, hauthor ▸ hmay⟩

end

/-! ### A reply that goes with the comment -/

/-- User 8 comments, user 9 replies, and user 8, a `MEMBER`, asks to delete the comment. -/
def replyAndRemove : List (Move interface Request) :=
  [.start ⟨Uuid.text 1, .createProject 9 { name := "Website" }⟩ (envAt 1), .call 0 .answered (envAt 2),
   .start ⟨Uuid.text 1, .createTask (Uuid.text 102) 9 { title := "Task" }⟩ (envAt 3), .call 1 .answered (envAt 4),
   .call 1 .answered (envAt 5), .call 1 .answered (envAt 6),
   .start ⟨Uuid.text 1, .createComment (Uuid.text 102) (Uuid.text 105) 8 { body := "Done?" }⟩ (envAt 7),
   .call 2 .answered (envAt 8), .call 2 .answered (envAt 9), .call 2 .answered (envAt 10), .call 2 .answered (envAt 11),
   .start ⟨Uuid.text 1, .createComment (Uuid.text 102) (Uuid.text 105) 9
     { body := "Yes.", parentCommentId := some (Uuid.text 110) }⟩ (envAt 12),
   .call 3 .answered (envAt 13), .call 3 .answered (envAt 14), .call 3 .answered (envAt 15), .call 3 .answered (envAt 16),
   .call 3 .answered (envAt 17),
   .start ⟨Uuid.text 1, .removeComment (Uuid.text 102) (Uuid.text 105) (Uuid.text 110) 8 (some .MEMBER)⟩ (envAt 18),
   .call 4 .answered (envAt 19), .call 4 .answered (envAt 20), .call 4 .answered (envAt 21)]

def reply : CommentRow := ⟨116, 105, 9, some 110, "Yes.", none, .epoch⟩

set_option maxRecDepth 8000 in
/-- The reply is gone after the last call, the task is not. -/
theorem replyAndRemove_run : ∃ c d : State,
    (system .strict).Reach (fun _ _ => True) (.initial (Tables.start [8, 9] [1] ⟨[], []⟩)) c ∧
      (system .strict).step c (.call 4 .answered (envAt 22)) = some d ∧ reply ∈ c.shared.comments ∧
      reply.id ∉ d.shared.commentIds ∧ reply.taskId ∈ d.shared.taskIds ∧
      (c.threads[4]?).map (·.request.operation) =
        some (.removeComment (Uuid.text 102) (Uuid.text 105) (Uuid.text 110) 8 (some .MEMBER)) :=
  ⟨_, _, System.reach_of_run replyAndRemove rfl, rfl, .tail _ (.head _), List.not_mem_nil, .head _, rfl⟩

theorem comment_disappears_reply : ∃ (c d : State) (a : CommentRow) (actor : Uuid) (role : Option WorkspaceRole),
    reply.id ∉ d.shared.commentIds ∧ Deletes c (.call 4 .answered (envAt 22)) a.id actor role ∧
      c.shared.InThread a reply ∧ (a.authorId = actor ∨ role = some .ADMIN) := by
  obtain ⟨c, d, hr, hs, mem, gone, task, -⟩ := replyAndRemove_run
  exact ⟨c, d, (comment_disappears .strict [8, 9] [1] ⟨[], []⟩ c d _ reply hr hs mem gone task).imp fun a h =>
    h.imp fun actor h => h.imp fun role h => ⟨gone, h⟩⟩

/-- The one who deletes the comment is neither the author of the reply nor an `ADMIN`. -/
theorem reply_disappears : ∃ (c d : State) (m : Move interface Request),
    (system .strict).Reach (fun _ _ => True) (.initial (Tables.start [8, 9] [1] ⟨[], []⟩)) c ∧
      (system .strict).step c m = some d ∧ reply ∈ c.shared.comments ∧ reply.id ∉ d.shared.commentIds ∧
      reply.taskId ∈ d.shared.taskIds ∧
      ¬ ∃ id actor role, Deletes c m id actor role ∧ (reply.authorId = actor ∨ role = some .ADMIN) := by
  obtain ⟨c, d, hr, hs, mem, gone, task, hop⟩ := replyAndRemove_run
  refine ⟨c, d, _, hr, hs, mem, gone, task, ?_⟩
  rintro ⟨id, actor, role, ⟨i, fate, env, t, p, q, cid, hm, ht, hreq, -⟩, hmay⟩
  cases hm
  rw [ht, Option.map_some, hreq] at hop
  cases hop
  rcases hmay with h | h <;> cases h

end TaskPlatform.Board

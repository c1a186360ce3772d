import TaskPlatform.Board.Knowledge
import TaskPlatform.Library.Log
import TaskPlatform.Reminders.RemindersService

/-! What the calls do to the reminders, and what the tables keep in every run: the unique key, and that a reminder is
    of a task. -/

namespace TaskPlatform.Reminders
open Effects

def NewReminder.key? (n : NewReminder) : Option ReminderKey := n.scheduledFor.map fun d => ⟨n.taskId, n.type, d⟩

/-- What a call can do to the tables. -/
inductive Write (pg : Postgres) (s : Tables) (env : Env) (c : Call) : Tables → Prop
  | same : Write pg s env c s
  | board {b : Board.Call} (call : c = .board b) : Write pg s env c (s.withBoard (Board.exec pg env b s.board).2)
  | inbox {n : Notifications.Call} (call : c = .inbox n) :
      Write pg s env c { s with notifications := (Notifications.exec pg env n s.inbox).2.notifications }
  | added {n : NewReminder} {due : Date} (call : c = .insertReminder n) (scheduled : n.scheduledFor = some due)
      (newKey : (n.toRow env due).key ∉ s.reminders.map Reminder.key) (newId : env.uuid ∉ s.reminders.map Reminder.id)
      (task : n.taskId ∈ s.board.taskIds) : Write pg s env c { s with reminders := s.reminders ++ [n.toRow env due] }
  | updated {id : Uuid} {patch : ReminderPatch} (call : c = .updateReminder id patch) :
      Write pg s env c (s.updateReminder id patch)
  | queued {q : Queue} (call : (∃ o, c = .addJob o ∧ q = s.queue.add o) ∨
      (∃ id j, c = .completeJob id ∧ s.queue.take? id = some j ∧ q = s.queue.complete j) ∨
      ∃ id j, c = .failJob id ∧ s.queue.take? id = some j ∧ q = s.queue.fail j) : Write pg s env c { s with queue := q }

section
variable {pg : Postgres} {s s' : Tables} {env : Env} {c : Call} {r : Reminder}

theorem has_map {β κ : Type} [DecidableEq κ] {f : β → κ} {k : κ} {l : List β} :
    Table.has f k l = true ↔ k ∈ l.map f := by
  rw [Table.has_iff, List.mem_map]

/-- An insert finds a reminder with its key or id, is rejected, or adds the reminder. -/
theorem insertReminder_cases (s : Tables) (env : Env) (n : NewReminder) :
    (∃ e, s.insertReminder env n = (.error e, s)) ∨
    (∃ due, n.scheduledFor = some due ∧ s.insertReminder env n = (.ok none, s) ∧
      ((n.toRow env due).key ∈ s.reminders.map Reminder.key ∨ env.uuid ∈ s.reminders.map Reminder.id)) ∨
    ∃ due, n.scheduledFor = some due ∧ (n.toRow env due).key ∉ s.reminders.map Reminder.key ∧
      env.uuid ∉ s.reminders.map Reminder.id ∧ n.taskId ∈ s.board.taskIds ∧
      s.insertReminder env n = (.ok (some env.uuid), { s with reminders := s.reminders ++ [n.toRow env due] }) := by
  unfold Tables.insertReminder
  cases hd : n.scheduledFor with
  | none => exact Or.inl ⟨_, rfl⟩
  | some due =>
    simp only [Bool.or_eq_true, has_map]
    split
    · next h => exact Or.inr (Or.inl ⟨due, rfl, rfl, h⟩)
    · next h =>
      obtain ⟨hkey, hid⟩ := not_or.mp h
      split
      · exact Or.inl ⟨_, rfl⟩
      · next htask =>
        have htask : n.taskId ∈ s.board.taskIds := by simpa [NewReminder.toRow] using htask
        exact Or.inr (Or.inr ⟨due, rfl, hkey, hid, htask, rfl⟩)

theorem onJob_cases {α : Type} (s : Tables) (id : Uuid) (answer : Job → α) (next : Queue → Job → Queue) :
    (∃ e, s.onJob id answer next = (.error e, s)) ∨
    ∃ j, s.queue.take? id = some j ∧ s.onJob id answer next = (.ok (answer j), { s with queue := next s.queue j }) := by
  unfold Tables.onJob
  cases hj : s.queue.take? id with
  | none => exact Or.inl ⟨_, rfl⟩
  | some j => exact Or.inr ⟨j, rfl, rfl⟩

/-- Every call does what `Write` says. -/
theorem exec_write (pg : Postgres) (s : Tables) (env : Env) (c : Call) : Write pg s env c (exec pg env c s).2 := by
  cases c with
  | board b => exact .board rfl
  | inbox n => exact .inbox rfl
  | tasksDueSoon | tasksOverdue | findReminder | findTaskById | takeJob => exact .same
  | updateReminder id patch => exact .updated rfl
  | addJob o => exact .queued (Or.inl ⟨o, rfl, rfl⟩)
  | insertReminder n =>
    rcases insertReminder_cases s env n with ⟨e, h⟩ | ⟨due, -, h, -⟩ | ⟨due, hdue, hkey, hid, htask, h⟩
    · rw [exec, h]
      exact .same
    · rw [exec, h]
      exact .same
    · rw [exec, h]
      exact .added rfl hdue hkey hid htask
  | completeJob id =>
    rcases onJob_cases s id (fun _ => ()) Queue.complete with ⟨e, h⟩ | ⟨j, hj, h⟩
    · rw [exec, h]
      exact .same
    · rw [exec, h]
      exact .queued (Or.inr (Or.inl ⟨id, j, rfl, hj, rfl⟩))
  | failJob id =>
    rcases onJob_cases s id Job.again Queue.fail with ⟨e, h⟩ | ⟨j, hj, h⟩
    · rw [exec, h]
      exact .same
    · rw [exec, h]
      exact .queued (Or.inr (Or.inr ⟨id, j, rfl, hj, rfl⟩))

/-- Only a call of the board changes its tables. -/
theorem Write.board_same (w : Write pg s env c s') (other : ∀ b, c ≠ .board b) : s'.board = s.board := by
  cases w with
  | board call => exact absurd call (other _)
  | _ => rfl

/-- Only a call of the inbox changes the notifications. -/
theorem Write.inbox_same (w : Write pg s env c s') (other : ∀ n, c ≠ .inbox n) : s'.notifications = s.notifications := by
  cases w with
  | inbox call => exact absurd call (other _)
  | _ => rfl

/-! ### The reminders -/

theorem mem_updateReminder {id : Uuid} {patch : ReminderPatch} :
    r ∈ (s.updateReminder id patch).reminders ↔
      (r ∈ s.reminders ∧ r.id ≠ id) ∨ ∃ q ∈ s.reminders, q.id = id ∧ r = patch.apply q := by
  have hiff := @Table.mem_update _ s.reminders r (fun r => decide (r.id = id)) patch.apply
  simpa only [Tables.updateReminder, decide_eq_true_eq, decide_eq_false_iff_not] using hiff

/-- Where a reminder after a call comes from. -/
theorem Write.origin (w : Write pg s env c s') (hr : r ∈ s'.reminders) :
    r ∈ s.reminders ∨ (∃ id patch, ∃ q ∈ s.reminders, c = .updateReminder id patch ∧ q.id = id ∧ r = patch.apply q) ∨
      ∃ n due, c = .insertReminder n ∧ n.scheduledFor = some due ∧ r = n.toRow env due := by
  cases w with
  | same | inbox | queued => exact Or.inl hr
  | board => exact Or.inl (List.mem_filter.mp hr).1
  | @added n due call scheduled =>
    rcases List.mem_append.mp hr with hr | hr
    · exact Or.inl hr
    · exact Or.inr (Or.inr ⟨n, due, call, scheduled, List.mem_singleton.mp hr⟩)
  | @updated id patch call =>
    rcases mem_updateReminder.mp hr with ⟨hr, -⟩ | ⟨q, hq, hid, rfl⟩
    · exact Or.inl hr
    · exact Or.inr (Or.inl ⟨id, patch, q, hq, call, hid, rfl⟩)

/-- The reminder of a task that stays is there after a call, as it was or updated. -/
theorem Write.kept (w : Write pg s env c s') (hr : r ∈ s.reminders) (task : r.taskId ∈ s'.board.taskIds) :
    r ∈ s'.reminders ∨ ∃ id patch, c = .updateReminder id patch ∧ r.id = id ∧ patch.apply r ∈ s'.reminders := by
  cases w with
  | same | inbox | queued => exact Or.inl hr
  | board => exact Or.inl (List.mem_filter.mpr ⟨hr, decide_eq_true task⟩)
  | added => exact Or.inl (List.mem_append_left _ hr)
  | @updated id patch call =>
    by_cases hid : r.id = id
    · exact Or.inr ⟨id, patch, call, hid, mem_updateReminder.mpr (Or.inr ⟨r, hr, hid, rfl⟩)⟩
    · exact Or.inl (mem_updateReminder.mpr (Or.inl ⟨hr, hid⟩))

/-- A reminder of the key `k` with the id `id`. -/
def Tables.Reminds (s : Tables) (k : ReminderKey) (id : Uuid) : Prop := ∃ r ∈ s.reminders, r.key = k ∧ r.id = id

theorem Write.reminds {k : ReminderKey} {id : Uuid} (w : Write pg s env c s') (h : s.Reminds k id)
    (task : k.taskId ∈ s'.board.taskIds) : s'.Reminds k id := by
  obtain ⟨r, hr, rfl, rfl⟩ := h
  rcases w.kept hr task with hr' | ⟨_, patch, -, -, hr'⟩
  · exact ⟨r, hr', rfl, rfl⟩
  · exact ⟨_, hr', rfl, rfl⟩

/-! ### In every run -/

/-- What the tables keep. -/
structure Tables.WellFormed (s : Tables) : Prop where
  board : s.board.WellFormed
  keys : (s.reminders.map Reminder.key).Nodup
  ids : (s.reminders.map Reminder.id).Nodup
  task : ∀ r ∈ s.reminders, r.taskId ∈ s.board.taskIds
  issued : ∀ r ∈ s.reminders, r.id ∈ s.board.generated.uuids

theorem start_wellFormed (users workspaces : List Uuid) (generated : Generated) :
    (Tables.start users workspaces generated).WellFormed where
  board := (Board.start_fits users workspaces generated).wellFormed
  keys := List.nodup_nil
  ids := List.nodup_nil
  task _ h := absurd h List.not_mem_nil
  issued _ h := absurd h List.not_mem_nil

theorem map_key_updateReminder {id : Uuid} {patch : ReminderPatch} :
    (s.updateReminder id patch).reminders.map Reminder.key = s.reminders.map Reminder.key := by
  have hmap := @Table.map_update _ s.reminders _ Reminder.key (fun r => decide (r.id = id)) patch.apply fun _ => rfl
  simpa only [Tables.updateReminder, decide_eq_true_eq] using hmap

theorem map_id_updateReminder {id : Uuid} {patch : ReminderPatch} :
    (s.updateReminder id patch).reminders.map Reminder.id = s.reminders.map Reminder.id := by
  have hmap := @Table.map_update _ s.reminders _ Reminder.id (fun r => decide (r.id = id)) patch.apply fun _ => rfl
  simpa only [Tables.updateReminder, decide_eq_true_eq] using hmap

theorem nodup_concat {β κ : Type} {f : β → κ} {l : List β} {x : β} (h : (l.map f).Nodup) (new : f x ∉ l.map f) :
    ((l ++ [x]).map f).Nodup := by
  rw [List.map_append, List.map_singleton]
  exact List.nodup_append'.mpr ⟨h, List.nodup_singleton _, List.disjoint_singleton.mpr new⟩

theorem Tables.WellFormed.spend (wf : s.WellFormed) (env : Env) : (s.spend env).WellFormed :=
  { wf with
    board := wf.board.spend env
    issued := fun r hr => List.mem_cons_of_mem _ (wf.issued r hr) }

/-- A statement of the board takes the reminders of the deleted tasks away. -/
theorem Tables.WellFormed.withBoard (wf : s.WellFormed) (b : Board.Call) :
    (s.withBoard (Board.exec pg env b s.board).2).WellFormed where
  board := (Board.exec_write pg s.board env b).wellFormed wf.board
  keys := wf.keys.sublist (List.filter_sublist.map _)
  ids := wf.ids.sublist (List.filter_sublist.map _)
  task r hr := of_decide_eq_true (List.mem_filter.mp hr).2
  issued r hr := by
    rw [Tables.withBoard, (Board.exec_write pg s.board env b).outside.2.2]
    exact wf.issued r (List.mem_filter.mp hr).1

theorem Tables.WellFormed.updateReminder (wf : s.WellFormed) (id : Uuid) (patch : ReminderPatch) :
    (s.updateReminder id patch).WellFormed where
  board := wf.board
  keys := by
    rw [map_key_updateReminder]
    exact wf.keys
  ids := by
    rw [map_id_updateReminder]
    exact wf.ids
  task r hr := by
    rcases mem_updateReminder.mp hr with ⟨hr, -⟩ | ⟨q, hq, -, rfl⟩
    · exact wf.task r hr
    · exact wf.task q hq
  issued r hr := by
    rcases mem_updateReminder.mp hr with ⟨hr, -⟩ | ⟨q, hq, -, rfl⟩
    · exact wf.issued r hr
    · exact wf.issued q hq

theorem Write.wellFormed (w : Write pg s env c s') (wf : s.WellFormed)
    (spent : env.uuid ∈ s.board.generated.uuids) : s'.WellFormed := by
  cases w with
  | same => exact wf
  | inbox | queued => exact { wf with }
  | board => exact wf.withBoard _
  | updated => exact wf.updateReminder _ _
  | @added n due call scheduled newKey newId task =>
    have hmem : ∀ {r}, r ∈ s.reminders ++ [n.toRow env due] → r ∈ s.reminders ∨ r = n.toRow env due := fun h =>
      (List.mem_append.mp h).imp_right List.mem_singleton.mp
    exact { wf with
      keys := nodup_concat wf.keys newKey
      ids := nodup_concat wf.ids newId
      task := fun r hr => by
        rcases hmem hr with hr | rfl
        · exact wf.task r hr
        · exact task
      issued := fun r hr => by
        rcases hmem hr with hr | rfl
        · exact wf.issued r hr
        · exact spent }

/-- What one move can make of the tables, as a write after its values are spent. -/
theorem change_write {queue : Bool} (h : (system pg queue).Change s s') :
    s' = s ∨ ∃ env c, s.board.generated.admits env = true ∧ Write pg (s.spend env) env c s' := by
  cases h with
  | same => exact Or.inl rfl
  | @spent env new => exact Or.inr ⟨env, .takeJob 0, new, .same⟩
  | @called env fate c new =>
    refine Or.inr ⟨env, c, new, ?_⟩
    cases fate with
    | failed => exact .same
    | answered | lost => exact exec_write pg (s.spend env) env c

theorem change_wellFormed {queue : Bool} (h : (system pg queue).Change s s') (wf : s.WellFormed) : s'.WellFormed := by
  rcases change_write h with rfl | ⟨env, c, -, w⟩
  · exact wf
  · exact w.wellFormed (wf.spend env) (List.mem_cons_self ..)

end

section
variable {pg : Postgres} {queue : Bool} {users workspaces : List Uuid} {generated : Generated}
  {ok : State → Move interface Request → Prop} {c : State}

/-- The tables are well formed at every moment of a run. -/
theorem wellFormed_at (hr : (system pg queue).Reach ok (.initial (.start users workspaces generated)) c) {n : Nat}
    {s : Tables} (hn : c.at? n = some s) : s.WellFormed :=
  hr.always (start_wellFormed users workspaces generated) change_wellFormed hn

/-- The reminder of a task that stays from one moment to a later one is still there. -/
theorem reminds_lasts (hr : (system pg queue).Reach ok (.initial (.start users workspaces generated)) c) {n m : Nat}
    {s s' : Tables} (hn : c.at? n = some s) (hm : c.at? m = some s') (le : n ≤ m) {k : ReminderKey} {id : Uuid}
    (h : s.Reminds k id) (task : ∀ i a, n < i → i ≤ m → c.at? i = some a → k.taskId ∈ a.board.taskIds) :
    s'.Reminds k id := by
  refine hr.lasts (P := fun s => s.Reminds k id) hn hm le h fun {i a b} hi him _ hb hchange ha => ?_
  have htask := task (i + 1) b (Nat.lt_succ_of_le hi) him hb
  rcases change_write hchange with rfl | ⟨env, c, -, w⟩
  · exact ha
  · exact w.reminds ha htask

end
end TaskPlatform.Reminders

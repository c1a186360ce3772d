import TaskPlatform.Library.Account
import TaskPlatform.Reminders.Scans

/-! Any number of scans at the same time: of all that insert a reminder one wins, and only that one dispatches it. -/

namespace TaskPlatform.Reminders
open Effects

/-! ### What the logs say -/

/-- `queue.add`, and the insert of an in-process notification. -/
def Call.dispatches : Call → Bool
  | .addJob _ | .inbox (.insertNotification _) => true
  | _ => false

/-- The answer to an insert that added the reminder `k`. -/
def wins (k : ReminderKey) : Said interface → Bool
  | ⟨.insertReminder n, .ok (some _)⟩ => n.key? = some k
  | _ => false

/-- The key that a scan inserted last. -/
def current? : List (Said interface) → Option ReminderKey
  | [] => none
  | ⟨.insertReminder n, _⟩ :: _ => n.key?
  | _ :: log => current? log

/-- How often the calls of a log dispatch the reminder `k`: the one that was inserted last before the call. -/
def dispatched (k : ReminderKey) : List (Event interface) → Nat
  | [] => 0
  | e :: log =>
    (if e.took && e.call.dispatches && current? (log.map Event.said) = some k then 1 else 0) + dispatched k log

/-- How often a scan dispatches the reminder `k`. -/
def dispatches (k : ReminderKey) (t : Thread interface Request Response) : Nat :=
  match t.request with
  | .scan _ => dispatched k t.log
  | _ => 0

/-- The move does not delete the task. -/
def Spares (pg : Postgres) (queue : Bool) (taskId : Uuid) (c : State) (m : Move interface Request) : Prop :=
  ∀ d ∈ (system pg queue).step c m, taskId ∈ c.shared.board.taskIds → taskId ∈ d.shared.board.taskIds

instance (pg : Postgres) (queue : Bool) (taskId : Uuid) (c : State) (m : Move interface Request) :
    Decidable (Spares pg queue taskId c m) :=
  inferInstanceAs (Decidable (∀ d ∈ (system pg queue).step c m, _ → _))

section
variable {pg : Postgres} {queue : Bool} {k : ReminderKey}

/-- A dispatch comes right after the insert that won. -/
theorem Follows.won {log : List (Said interface)} {c : Call} (h : Follows queue log c) (hc : c.dispatches = true)
    (hk : current? log = some k) : log.head?.any (wins k) = true := by
  cases h with
  | @looks log c idle call =>
    cases c with
    | addJob | inbox => cases call
    | _ => cases hc
  | sent => cases hc
  | enqueue | notify => exact decide_eq_true hk

theorem wins_of_dispatches {e : Event interface} (h : e.call.dispatches = true) : wins k e.said = false := by
  obtain ⟨c, a, took, n⟩ := e
  cases c with
  | addJob | inbox => rfl
  | _ => cases h

/-- A scan dispatches at most as often as it wins, and what it won in the last call it has not dispatched yet. -/
theorem dispatched_le {log : List (Event interface)} (h : Prog.Allowed (Follows queue) log) :
    dispatched k log + (if (log.map Event.said).head?.any (wins k) then 1 else 0) ≤
      log.countP fun e => wins k e.said := by
  induction log with
  | nil => simp [dispatched]
  | cons e log ih =>
    obtain ⟨hcall, hlog⟩ := h
    have ih := ih hlog
    rw [dispatched, List.countP_cons, List.map_cons, List.head?_cons, Option.any_some]
    by_cases hd : e.call.dispatches = true
    · rw [wins_of_dispatches hd]
      by_cases hk : current? (log.map Event.said) = some k
      · rw [if_pos (hcall.won hd hk)] at ih
        split <;> simp <;> omega
      · rw [if_neg (by simp [hk])]
        simp
        omega
    · rw [if_neg (by simp [hd])]
      split <;> omega

/-! ### The account of the key -/

/-- One insert can still win the key, unless a reminder has it. -/
def Tables.unclaimed (k : ReminderKey) (s : Tables) : Nat := if k ∈ s.reminders.map Reminder.key then 0 else 1

theorem mem_keys {s : Tables} : k ∈ s.reminders.map Reminder.key ↔ ∃ id, s.Reminds k id := by
  simp [Tables.Reminds]

/-- A write that spares the task does not free the key. -/
theorem Write.unclaimed_le {s s' : Tables} {env : Env} {c : Call} (w : Write pg s env c s') (wf : s.WellFormed)
    (spares : k.taskId ∈ s.board.taskIds → k.taskId ∈ s'.board.taskIds) : s'.unclaimed k ≤ s.unclaimed k := by
  unfold Tables.unclaimed
  by_cases hk : k ∈ s.reminders.map Reminder.key
  · obtain ⟨id, r, hr, rfl, hid⟩ := mem_keys.mp hk
    have hkept := w.reminds ⟨r, hr, rfl, hid⟩ (spares (wf.task r hr))
    rw [if_pos hk, if_pos (mem_keys.mpr ⟨id, hkept⟩)]
  · rw [if_neg hk]
    split <;> omega

/-- Who wins the key takes it. -/
theorem exec_wins {s : Tables} {env : Env} {c : Call} (h : wins k ⟨c, (exec pg env c s).1⟩ = true) :
    s.unclaimed k = 1 ∧ (exec pg env c s).2.unclaimed k = 0 := by
  cases c with
  | insertReminder n =>
    rcases insertReminder_cases s env n with ⟨e, hn⟩ | ⟨due, -, hn, -⟩ | ⟨due, hdue, hkey, -, -, hn⟩
    · rw [exec, hn] at h
      cases h
    · rw [exec, hn] at h
      cases h
    · rw [exec, hn] at h ⊢
      have hk : k = (n.toRow env due).key := by
        have := of_decide_eq_true h
        rw [NewReminder.key?, hdue] at this
        exact (Option.some.inj this).symm
      subst hk
      rw [Tables.unclaimed, if_neg hkey, Tables.unclaimed, if_pos]
      · exact ⟨rfl, rfl⟩
      · simp
  | _ => cases h

theorem wins_error {c : Call} {e : Err} : wins k ⟨c, .error e⟩ = false := by
  cases c <;> rfl

/-- A call that spares the task claims the key where it wins it, and never frees it. -/
theorem claim {s : Tables} {env : Env} {c : Call} {fate : Fate} (wf : s.WellFormed)
    (spares : k.taskId ∈ s.board.taskIds → k.taskId ∈ ((system pg queue).effect fate env c s).board.taskIds) :
    ((system pg queue).effect fate env c s).unclaimed k +
        (if wins k ⟨c, (system pg queue).answer fate (exec pg env c (s.spend env)).1⟩ then 1 else 0) ≤
      s.unclaimed k := by
  have hwrite := (exec_write pg (s.spend env) env c).unclaimed_le (k := k) (wf.spend env)
  cases fate with
  | failed =>
    rw [System.answer, wins_error]
    exact Nat.le_refl _
  | lost =>
    rw [System.answer, wins_error]
    exact hwrite spares
  | answered =>
    by_cases hwin : wins k ⟨c, (exec pg env c (s.spend env)).1⟩ = true
    · obtain ⟨hbefore, hafter⟩ := exec_wins hwin
      rw [System.answer, if_pos hwin]
      exact (congrArg (· + 1) hafter).trans_le hbefore.ge
    · rw [System.answer, if_neg hwin]
      exact hwrite spares

theorem wins_account : Account (system pg queue) (Spares pg queue k.taskId) (fun c => c.shared.WellFormed)
    (Tables.unclaimed k) (fun t => t.log.countP fun e => wins k e.said) where
  start _ _ _ := Nat.le_refl _
  kill := Nat.le_refl _
  call {c i fate env t op next} n wf hok ht hnext hadm := by
    have hstep : (system pg queue).step c (.call i fate env) = some ⟨(system pg queue).effect fate env op c.shared,
        c.threads.set i ((system pg queue).resume t op next fate env c.shared c.time), c.past ++ [c.shared]⟩ := by
      simp [System.step, ht, hnext, hadm]
    have hclaim := claim wf (hok _ hstep)
    simp only [System.resume, List.countP_cons]
    have hsaid : ∀ a took m, (Event.said ⟨op, a, took, m⟩ : Said interface) = ⟨op, a⟩ := fun _ _ _ => rfl
    rw [hsaid]
    have hexec : (system pg queue).exec env op ((system pg queue).spend c.shared env) =
      exec pg env op (c.shared.spend env) := rfl
    rw [hexec]
    omega

/-- The moves of a run that spare a task never delete it. -/
theorem spared {s₀ : Tables} {taskId : Uuid} {c : State}
    (hr : (system pg queue).Reach (Spares pg queue taskId) (.initial s₀) c) {n m : Nat} {s s' : Tables} (le : n ≤ m)
    (hn : c.at? n = some s) (hm : c.at? m = some s') (h : taskId ∈ s.board.taskIds) : taskId ∈ s'.board.taskIds := by
  revert n m s s'
  refine hr.invariant (P := fun c => ∀ {n m s s'}, n ≤ m → c.at? n = some s → c.at? m = some s' →
    taskId ∈ s.board.taskIds → taskId ∈ s'.board.taskIds) ?_ ?_
  · intro n m s s' le hn hm h
    have hm0 : m = 0 := Nat.le_zero.mp (System.at?_le hm)
    obtain rfl : n = m := by omega
    exact Option.some.inj (hn.symm.trans hm) ▸ h
  · intro c d m ih hok hs n m' s s' le hn hm h
    rcases System.step_at?_cases hs hm with hm' | ⟨hm', rfl⟩
    · rcases System.step_at?_cases hs hn with hn' | ⟨hn', rfl⟩
      · exact ih le hn' hm' h
      · have := System.at?_le hm'
        rw [System.step_time hs] at hn'
        omega
    · rcases System.step_at?_cases hs hn with hn' | ⟨-, rfl⟩
      · exact hok d hs (ih (System.at?_le hn') hn' (System.at?_time c) h)
      · exact h

theorem countP_key_le {s : Tables} (wf : s.WellFormed) : s.reminders.countP (·.key = k) ≤ 1 := by
  have hcount := List.nodup_iff_count_le_one.mp wf.keys k
  rw [List.count, List.countP_map] at hcount
  exact (List.countP_mono_left fun r _ h => beq_iff_eq.mpr (of_decide_eq_true h)).trans hcount

theorem dispatches_le {c : State}
    (h : ∀ t ∈ c.threads, Prog.Allowed (fun log c => ∀ now, t.request = .scan now → Follows queue log c) t.log) :
    c.total (dispatches k) ≤ c.total fun t => t.log.countP fun e => wins k e.said := by
  refine Config.total_le fun t ht => ?_
  have ht := h t ht
  rw [dispatches]
  split
  · next now hreq =>
    have hlog : Prog.Allowed (Follows queue) t.log := ht.mono fun _ _ h => h now hreq
    exact (Nat.le_add_right _ _).trans (dispatched_le hlog)
  · exact Nat.zero_le _

/-- In every run that does not delete the task, at most one reminder of a key ever exists, and it is dispatched at most
    once. -/
theorem reminded_once (pg : Postgres) (queue : Bool) (users workspaces : List Uuid) (generated : Generated)
    (k : ReminderKey) (c : State)
    (hr : (system pg queue).Reach (Spares pg queue k.taskId) (.initial (.start users workspaces generated)) c) :
    (∀ n m s s', c.at? n = some s → c.at? m = some s' → ∀ r ∈ s.reminders, ∀ r' ∈ s'.reminders, r.key = k →
      r'.key = k → r.id = r'.id) ∧
    (∀ n s, c.at? n = some s → s.reminders.countP (·.key = k) ≤ 1) ∧ c.total (dispatches k) ≤ 1 := by
  -- A reminder stays until a later moment, where the key is unique.
  have hlater : ∀ {n m s s'}, n ≤ m → c.at? n = some s → c.at? m = some s' → ∀ r ∈ s.reminders, ∀ r' ∈ s'.reminders,
      r.key = k → r'.key = k → r.id = r'.id := by
    intro n m s s' le hn hm r hr₁ r' hr₂ hk hk'
    have htask : k.taskId ∈ s.board.taskIds := hk ▸ (wellFormed_at hr hn).task r hr₁
    obtain ⟨q, hq, hqk, hqid⟩ := reminds_lasts hr hn hm le ⟨r, hr₁, hk, rfl⟩
      fun i a hi _ ha => spared hr (Nat.le_of_lt hi) hn ha htask
    rw [← hqid, Table.eq_of_key (wellFormed_at hr hm).keys hq hr₂ (hqk.trans hk'.symm)]
  refine ⟨fun n m s s' hn hm r hr₁ r' hr₂ hk hk' => ?_, fun n s hn => countP_key_le (wellFormed_at hr hn), ?_⟩
  · rcases Nat.le_total n m with le | le
    · exact hlater le hn hm r hr₁ r' hr₂ hk hk'
    · exact (hlater le hm hn r' hr₂ r hr₁ hk' hk).symm
  · have hwins := (wins_account (k := k)).reach (fun hd => wellFormed_at hd (System.at?_time _)) hr
    have hlogs := dispatches_le (k := k) fun t ht => (hr.makes (program_makes pg) t ht).2
    have hstart : (Tables.start users workspaces generated).unclaimed k ≤ 1 := by
      unfold Tables.unclaimed
      split <;> omega
    omega

end

/-- User 8 creates a task that is due at 10 and assigned to user 9. Two scans read it at 5, both insert its reminder,
    and the first one delivers it. -/
def race : List (Move interface Request) :=
  [.start (.board ⟨Uuid.text 1, .createProject 8 { name := "Website" }⟩) (envAt 1), .call 0 .answered (envAt 2),
   .start (.board ⟨Uuid.text 1, .createTask (Uuid.text 102) 8
     { title := "Task", dueDate := some 10, assigneeId := some (Uuid.text 9) }⟩) (envAt 3),
   .call 1 .answered (envAt 4), .call 1 .answered (envAt 5), .call 1 .answered (envAt 6), .call 1 .answered (envAt 7),
   .start (.scan 5) (envAt 8), .start (.scan 5) (envAt 9), .call 2 .answered (envAt 10), .call 3 .answered (envAt 11),
   .call 2 .answered (envAt 12), .call 3 .answered (envAt 13), .call 2 .answered (envAt 14), .call 3 .answered (envAt 15),
   .call 2 .answered (envAt 16), .call 2 .answered (envAt 17)]

theorem race_run : ∃ c : State,
    (system .strict false).Reach (Spares .strict false 105) (.initial (.start [8, 9] [1] ⟨[], []⟩)) c ∧
      c.total (dispatches ⟨105, .DUE_SOON, 10⟩) = 1 ∧ c.shared.notifications.length = 1 :=
  ⟨_, System.reach_of_run race rfl, rfl, rfl⟩

theorem reminded_once_race : ∃ c : State, c.total (dispatches ⟨105, .DUE_SOON, 10⟩) = 1 ∧
    ∀ n s, c.at? n = some s → s.reminders.countP (·.key = ⟨105, .DUE_SOON, 10⟩) ≤ 1 := by
  obtain ⟨c, hr, hdispatched, -⟩ := race_run
  exact ⟨c, hdispatched, (reminded_once .strict false [8, 9] [1] ⟨[], []⟩ ⟨105, .DUE_SOON, 10⟩ c hr).2.1⟩

end TaskPlatform.Reminders

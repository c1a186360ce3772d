import TaskPlatform.Board.Tenancy
import TaskPlatform.Platform.Contracts
import TaskPlatform.Reminders.Statuses

/-! Tenant isolation in flight: whatever else runs on the platform, a request of the board leaves the rows of all other
    workspaces as they are. -/

namespace TaskPlatform.Platform
open Effects

/-! ### The contract -/

/-- A call on the board is by a request of the board, which knows of the rows what its workspace asks it to know. -/
def Call.within (k : Board.Knowledge) (r : Request) : Call → Prop
  | .reminders (.board c) =>
    ∃ p u b r', r = .board p u b ∧ r'.workspaceId = b.workspaceId ∧ Board.Request.pre r' k c
  | _ => True

def Call.learned (k : Board.Knowledge) : (c : Call) → c.Reply → Prop
  | .reminders (.board c), a => k.post c a
  | _, _ => True

/-- The contract of a request with the rows of the board. -/
def tenancy (r : Request) : Contract interface Board.Knowledge where
  pre k := Call.within k r
  post := Call.learned
  alike _ _ _ := False
  grows {k k' c} hk h := by
    match c with
    | .reminders (.board c) =>
      obtain ⟨p, u, b, r', hr, hw, hpre⟩ := h
      exact ⟨p, u, b, r', hr, hw, (Board.contract r').grows hk hpre⟩
    | .reminders (.inbox _) | .reminders (.tasksDueSoon _ _) | .reminders (.tasksOverdue _) | .reminders (.insertReminder _)
    | .reminders (.findReminder _) | .reminders (.findTaskById _) | .reminders (.updateReminder _ _) | .reminders (.addJob _)
    | .reminders (.takeJob _) | .reminders (.completeJob _) | .reminders (.failJob _) => trivial
    | .access _ _ | .addNotificationJob _ | .takeNotificationJob _ | .completeNotificationJob _ => trivial

section
variable {out : Access.Outside} {pg : Postgres} {k : Board.Knowledge} {s s' : Tables} {env : Env} {c : Call}

/-- The call is one on the board. -/
def Call.onBoard : Call → Bool
  | .reminders (.board _) => true
  | _ => false

variable (out pg s env) in
/-- Any other call leaves the rows of the board. It may add a workspace. -/
theorem board_aside (h : c.onBoard = false) : ∃ workspaces,
    (exec out pg env c (s.spend env)).2.rest.board = { s.rest.board.spend env with workspaces } := by
  match c with
  | .access p c => exact ⟨_, rfl⟩
  | .reminders c =>
    refine ⟨s.rest.board.workspaces, (Reminders.exec_write pg (s.rest.spend env) env c).board_same ?_⟩
    rintro b rfl
    cases h
  | .addNotificationJob _ | .takeNotificationJob _ => exact ⟨_, rfl⟩
  | .completeNotificationJob id =>
    refine ⟨s.rest.board.workspaces, ?_⟩
    simp only [exec]
    split <;> rfl

theorem learned_aside (h : c.onBoard = false) (a : c.Reply) : Call.learned k c a := by
  unfold Call.learned
  split
  · cases h
  · trivial

variable (out pg) in
/-- Knowledge of the rows of the board is kept by every call of the platform. -/
theorem board_fits (queue : Bool) : (system out pg queue).Fits tenancy fun k s => k.Fits s.rest.board where
  spend h _ := h.spend _
  call {k s env r c} h new hpre := by
    have new : s.rest.board.generated.admits env = true := (Bool.and_eq_true_iff.mp new).2
    cases hb : c.onBoard with
    | false =>
      obtain ⟨workspaces, hboard⟩ := board_aside out pg s env hb
      refine ⟨k, le_refl k, ?_, fun a _ => learned_aside hb a⟩
      have hspent := h.spend env
      show k.Fits (exec out pg env c (s.spend env)).2.rest.board
      rw [hboard]
      exact { hspent with wellFormed := { hspent.wellFormed with } }
    | true =>
      match c with
      | .reminders (.board c) =>
        obtain ⟨p, u, b, r', -, -, hpre⟩ := hpre
        exact (Board.fits pg).call (r := r') h new hpre

end

/-! ### Programs -/

section
variable {k k' : Board.Knowledge} {r : Request} {queue : Bool} {α : Type} {Q : Board.Knowledge → α → Prop}

/-- A program that makes no call on the board. -/
theorem aside_meets {p : Service α} (h : p.Calls (Call.onBoard · = false)) : p.Meets (tenancy r) (fun _ _ => True) k := by
  refine Prog.Calls.meets (h.mono fun c hc => ⟨fun k => ?_, fun _ _ h => h.elim⟩)
  show Call.within k r c
  unfold Call.within
  split
  · cases hc
  · trivial

theorem ofAccess_aside (p : Nat) (q : Access.Service α) : (ofAccess p q).Calls (Call.onBoard · = false) :=
  Prog.Calls.lift (Prog.calls_of_forall (fun _ => rfl) q)

theorem ofInbox_aside (q : Notifications.Service α) : (ofInbox q).Calls (Call.onBoard · = false) :=
  Prog.Calls.lift (Prog.calls_of_forall (fun _ => rfl) q)

theorem notify_aside (e : Board.DomainEvent) : (notify queue e).Calls (Call.onBoard · = false) := by
  cases queue with
  | true =>
    simp only [notify, if_true]
    cases Notifications.mapEvent e with
    | none => trivial
    | some input => exact Prog.calls_perform rfl
  | false =>
    rw [notify, if_neg (by decide)]
    exact ofInbox_aside _

/-- A program of the board that keeps the contract of a request in the same workspace. -/
theorem ofBoard_tenancy {p : Nat} {u : Uuid} {b r' : Board.Request} (hr : r = .board p u b)
    (hw : r'.workspaceId = b.workspaceId) {q : Board.Service α} (h : q.Meets ((Board.contract r').within OrderHom.id) Q k) :
    (ofBoard q).Meets (tenancy r) Q k :=
  h.lift (fun hpre => ⟨p, u, b, r', hr, hw, hpre⟩) id fun h => h.elim

theorem announce_tenancy {p : Nat} {u : Uuid} {b r' : Board.Request} (hr : r = .board p u b)
    (hw : r'.workspaceId = b.workspaceId) {es : List Board.DomainEvent}
    (h : (Board.announce es).Meets ((Board.contract r').within OrderHom.id) (fun _ _ => True) k) :
    (announce queue es).Meets (tenancy r) (fun _ _ => True) k := by
  induction es generalizing k with
  | nil => trivial
  | cons e es ih =>
    have hemit := Prog.Meets.of_bind (p := Board.emit e) (f := fun _ => Board.announce es) h fun _ _ _ => id
    refine (ofBoard_tenancy hr hw hemit).bind fun k₁ hk₁ _ hrest => ?_
    refine (aside_meets ((notify_aside e).handle fun _ => Prog.calls_ret)).bind fun k₂ hk₂ _ _ => ?_
    exact ih (System.meets_grow hrest hk₂)

theorem board_tenancy (p : Nat) (u : Uuid) (b : Board.Request) :
    (board queue p u b).Meets (tenancy (.board p u b)) (fun _ _ => True) k := by
  refine (aside_meets (ofAccess_aside p _)).bind fun k₁ _ role _ => ?_
  refine (aside_meets (ofAccess_aside p _)).bind fun k₂ _ _ _ => ?_
  let request : Board.Request := ⟨b.workspaceId, Operation.by u role b.operation⟩
  have hw : request.workspaceId = b.workspaceId := rfl
  have hmeets : (Board.program request).Meets (Board.contract request) (fun _ _ => True) (OrderHom.id k₂) :=
    Board.program_meets request k₂
  have hboard : ((Board.unannounced request).bind Board.announcing).Meets
      ((Board.contract request).within OrderHom.id) (fun _ _ => True) k₂ :=
    Board.program_announces request ▸ hmeets.within
  refine (ofBoard_tenancy rfl hw (hboard.of_bind fun _ _ _ => id)).bind fun k₃ _ x hrest => ?_
  have hannounce : (Board.announce x.1).Meets ((Board.contract request).within OrderHom.id) (fun _ _ => True) k₃ :=
    (hrest.of_bind fun _ _ _ => id).mono fun _ _ _ _ => trivial
  exact (announce_tenancy rfl hw hannounce).bind fun _ _ _ _ => trivial

theorem ofReminders_aside {q : Reminders.Service α} (h : q.Calls Reminders.Call.ofReminders) :
    (ofReminders q).Calls (Call.onBoard · = false) := by
  refine Prog.Calls.lift (h.mono fun c hc => ?_)
  cases c with
  | board => exact hc.elim
  | _ => rfl

/-- Only requests of the board make calls on it. -/
theorem program_aside (out : Access.Outside) (queue : Bool) {r : Request} (h : ∀ p u b, r ≠ .board p u b) :
    (program out queue r).Calls (Call.onBoard · = false) := by
  cases r with
  | access p a => exact (ofAccess_aside p _).bind fun _ => trivial
  | board p u b => exact absurd rfl (h p u b)
  | scan now =>
    have hscan : (Reminders.program queue (.scan now)).Calls Reminders.Call.ofReminders :=
      (Reminders.scan_calls now).bind fun _ => trivial
    exact (ofReminders_aside hscan).bind fun _ => trivial
  | remind id =>
    have hwork : (Reminders.program queue (.work id)).Calls Reminders.Call.ofReminders :=
      (Reminders.work_calls id).bind fun _ => trivial
    exact (ofReminders_aside hwork).bind fun _ => trivial
  | deliver id =>
    have hwork : (NotificationProcessor.work id).Calls (Call.onBoard · = false) := by
      have htake : (perform (.takeNotificationJob id)).Calls (Call.onBoard · = false) := Prog.calls_perform rfl
      refine htake.bind fun job => ?_
      cases job with
      | none => trivial
      | some job => exact (ofInbox_aside _).bind fun _ => Prog.calls_perform rfl
    exact hwork.bind fun _ => trivial
  | expire p key => exact (ofAccess_aside p _).bind fun _ => trivial

theorem program_tenancy (out : Access.Outside) (queue : Bool) (r : Request) (k : Board.Knowledge) :
    (program out queue r).Meets (tenancy r) (fun _ _ => True) k := by
  cases r with
  | board p u b => exact (board_tenancy p u b).bind fun _ _ _ _ => trivial
  | access | scan | remind | deliver | expire => exact aside_meets (program_aside out queue (by rintro _ _ _ ⟨⟩))

end

/-! ### Every step -/

section
variable {out : Access.Outside} {pg : Postgres} {queue : Bool} {k : Board.Knowledge} {s : Tables} {env : Env} {r : Request}
  {c : Call} {v : Uuid} {a b : State} {m : Move interface Request}

/-- A call changes the rows of a workspace only if it is by a request of the board in that workspace. -/
theorem call_others (h : k.Fits s.rest.board) (hpre : (tenancy r).pre k c)
    (changed : (exec out pg env c (s.spend env)).2.rest.board.rows v ≠ s.rest.board.rows v) :
    c.onBoard = true ∧ ∃ p u b, r = .board p u b ∧ b.workspaceId.uuid = v := by
  cases hb : c.onBoard with
  | false =>
    obtain ⟨workspaces, hboard⟩ := board_aside out pg s env hb
    rw [hboard] at changed
    exact absurd rfl changed
  | true =>
    match c with
    | .reminders (.board c) =>
      obtain ⟨p, u, b, r', rfl, hw, hpre⟩ := hpre
      refine ⟨rfl, p, u, b, rfl, ?_⟩
      by_contra hne
      have write : Board.Write (s.rest.board.spend env) env c (Board.exec pg env c (s.rest.board.spend env)).2 :=
        Board.exec_write pg _ env c
      exact changed (write.others h hpre (hw ▸ Ne.symm hne))

/-- The rows of a workspace change only by calls of requests in that workspace. -/
theorem step_tenancy (known : System.Known tenancy (fun k s => k.Fits s.rest.board) k a)
    (hs : (system out pg queue).step a m = some b) (changed : b.shared.rest.board.rows v ≠ a.shared.rest.board.rows v) :
    ∃ i fate env t op p u r, m = .call i fate env ∧ a.threads[i]? = some t ∧ t.next? = some op ∧ op.onBoard = true ∧
      t.request = .board p u r ∧ r.workspaceId.uuid = v := by
  rcases System.step_shared hs with heq | ⟨env, -, heq⟩ | ⟨i, fate, env, t, op, hm, ht, hop, -, heq⟩
  · rw [heq] at changed
    exact absurd rfl changed
  · rw [heq] at changed
    exact absurd rfl changed
  · rw [heq] at changed
    cases fate with
    | failed => exact absurd rfl changed
    | answered | lost =>
      obtain ⟨hb, p, u, r, hr, hv⟩ := call_others known.1 (known.pre ht hop) changed
      exact ⟨i, _, env, t, op, p, u, r, hm, ht, hop, hb, hr, hv⟩

end
end TaskPlatform.Platform

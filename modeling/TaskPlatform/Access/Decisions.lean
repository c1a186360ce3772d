import TaskPlatform.Access.Services
import TaskPlatform.Statements
import TaskPlatform.Library.Contract

/-! Accepting and revoking one invitation, at the same time and any number of times: when a decision is final. -/

namespace TaskPlatform.Access
open Effects Workspaces

/-! ### The two services in flight -/

/-- A call of `InvitationsService` that decides on an invitation. -/
inductive Decision where
  | accept (userId : Uuid) (userEmail token : String)
  | revoke (workspaceId invitationId : UuidText)
  deriving DecidableEq

def Decision.program (out : Outside) : Decision → Service Response
  | .accept userId userEmail token => return .accepted (← InvitationsService.accept out userId userEmail token)
  | .revoke w id => do
    InvitationsService.revoke w id
    return .revoked

def decisions (out : Outside) : System interface Tables Decision Response := { system out with program := Decision.program out }

abbrev Deciding := Config interface Tables Decision Response

/-- The invitation that a call writes. -/
def Call.invitation? : Call → Option WorkspaceInvitation
  | .db (.saveInvitation inv) | .db (.commitAccept _ inv) => some inv
  | _ => none

/-- The call that the move makes, if it takes effect. -/
def taken? (out : Outside) (c : Deciding) : Move interface Decision → Option Call
  | .call i fate env =>
    match (c.threads[i]?).bind Thread.next? with
    | some op => if fate ≠ .failed ∧ (exec out env op (c.shared.spend env)).1.isOk then some op else none
    | none => none
  | _ => none

/-- An invitation that is written is still pending then, or has the written status already. -/
def Undecided (out : Outside) (c : Deciding) (m : Move interface Decision) : Prop :=
  ∀ op ∈ taken? out c m, ∀ inv ∈ op.invitation?, ∀ r ∈ c.shared.db.invitations, r.id = inv.id →
    r.status = .PENDING ∨ r.status = inv.status

instance (out : Outside) (c : Deciding) (m : Move interface Decision) : Decidable (Undecided out c m) :=
  inferInstanceAs (Decidable (∀ op ∈ taken? out c m, ∀ inv ∈ op.invitation?, ∀ r ∈ c.shared.db.invitations,
    r.id = inv.id → r.status = .PENDING ∨ r.status = inv.status))

/-- The move is a call of `accept` that adds a member for the invitation. -/
def AddsMember (out : Outside) (c : Deciding) (m : Move interface Decision) (id : Uuid) : Prop :=
  ∃ n inv, taken? out c m = some (.db (.commitAccept (some n) inv)) ∧ inv.id = id

/-- The invitation is in the table, and has the status. -/
def Tables.HasStatus (s : Tables) (id : Uuid) (status : InvitationStatus) : Prop :=
  (∃ r ∈ s.db.invitations, r.id = id) ∧ ∀ r ∈ s.db.invitations, r.id = id → r.status = status

instance (s : Tables) (id : Uuid) (status : InvitationStatus) : Decidable (s.HasStatus id status) :=
  inferInstanceAs (Decidable ((∃ r ∈ s.db.invitations, r.id = id) ∧ ∀ r ∈ s.db.invitations, r.id = id → r.status = status))

/-- The calls of the two services. -/
def Call.Decides : Call → Prop
  | .db (.findInvitation _) | .db (.findMember _ _) | .findInvitation _ _ | .db (.saveInvitation _) => True
  | .db (.commitAccept _ inv) => inv.status = .ACCEPTED
  | _ => False

section
variable {out : Outside} {s s' : Tables} {env : Env} {op : Call} {c d : Deciding} {m : Move interface Decision}

/-! ### What a call does to the invitations -/

theorem saveInvitation_ok {t t' : Workspaces.Tables} {inv : WorkspaceInvitation} (h : t.saveInvitation inv = .ok t') :
    t'.invitations = Table.replace WorkspaceInvitation.id inv t.invitations ∧ (∃ r ∈ t.invitations, r.id = inv.id) ∨
      t'.invitations = t.invitations ++ [inv] ∧ ∀ r ∈ t.invitations, r.id ≠ inv.id := by
  rw [Workspaces.Tables.saveInvitation] at h
  by_cases hhas : Table.has WorkspaceInvitation.id inv.id t.invitations = true
  · rw [if_pos hhas] at h
    cases h
    exact Or.inl ⟨rfl, Table.has_iff.mp hhas⟩
  · rw [if_neg hhas] at h
    refine Or.inr ⟨?_, fun r hr hid => hhas (Table.has_iff.mpr ⟨r, hr, hid⟩)⟩
    split at h
    · cases h
    · split at h
      · cases h
      · split at h
        · cases h
        · cases h
          rfl

theorem insertMember_ok {t t' : Workspaces.Tables} {r : WorkspaceMember} (h : t.insertMember r = .ok t') :
    t' = { t with members := t.members ++ [r] } := by
  rw [Workspaces.Tables.insertMember] at h
  split at h
  · cases h
  · split at h
    · cases h
    · split at h
      · cases h
      · cases h
        rfl

theorem commitAccept_ok {t t' : Workspaces.Tables} {new : Option NewMember} {inv : WorkspaceInvitation}
    {a : Option WorkspaceMember} (h : t.commitAccept env new inv = .ok (a, t')) :
    ∃ u : Workspaces.Tables, u.invitations = t.invitations ∧ u.saveInvitation inv = .ok t' := by
  cases new with
  | none =>
    obtain ⟨u, hu, h⟩ := ok_of_map h
    cases h
    exact ⟨t, rfl, hu⟩
  | some n =>
    obtain ⟨u, hu, h⟩ := ok_of_bind h
    obtain ⟨v, hv, h⟩ := ok_of_bind h
    cases h
    exact ⟨u, by rw [insertMember_ok hu], hv⟩

variable (out s env) in
/-- The invitations after a call of the two services: as before, or one of them is saved. -/
theorem exec_invitations (decides : op.Decides) :
    (exec out env op s).2.db.invitations = s.db.invitations ∧
        (op.invitation? = none ∨ (exec out env op s).1.isOk = false) ∨
      ∃ inv t, op.invitation? = some inv ∧ (exec out env op s).1.isOk = true ∧ t.invitations = s.db.invitations ∧
        Workspaces.Tables.saveInvitation t inv = .ok (exec out env op s).2.db := by
  cases op with
  | findInvitation => exact Or.inl ⟨rfl, Or.inl rfl⟩
  | db c =>
    cases c with
    | findInvitation | findMember => exact Or.inl ⟨rfl, Or.inl rfl⟩
    | saveInvitation inv =>
      simp only [exec, Workspaces.exec]
      cases h : s.db.saveInvitation inv with
      | error e => exact Or.inl ⟨rfl, Or.inr rfl⟩
      | ok t => exact Or.inr ⟨inv, s.db, rfl, rfl, rfl, h⟩
    | commitAccept new inv =>
      simp only [exec, Workspaces.exec]
      cases h : s.db.commitAccept env new inv with
      | error e => exact Or.inl ⟨rfl, Or.inr rfl⟩
      | ok t =>
        obtain ⟨u, hu, hsave⟩ := commitAccept_ok h
        exact Or.inr ⟨inv, u, rfl, rfl, hu, hsave⟩
    | findWorkspace | saveMember | removeMember | cacheGet | cacheSet | cacheDel => cases decides
  | _ => cases decides

/-- After a call that takes effect, the invitation that it writes has the written status. -/
theorem written_status {inv : WorkspaceInvitation} (decides : op.Decides) (hinv : op.invitation? = some inv)
    (hok : (exec out env op s).1.isOk = true) : (exec out env op s).2.HasStatus inv.id inv.status := by
  rcases exec_invitations out s env decides with ⟨-, h | h⟩ | ⟨inv', t, h, -, ht, hsave⟩
  · cases hinv.symm.trans h
  · cases hok.symm.trans h
  · cases hinv.symm.trans h
    rcases saveInvitation_ok hsave with ⟨hrows, hmem⟩ | ⟨hrows, hnone⟩
    · refine ⟨⟨inv, ?_, rfl⟩, fun r hr hid => ?_⟩
      · rw [hrows, Table.mem_replace hmem]
        exact Or.inl rfl
      · rw [hrows, Table.mem_replace hmem] at hr
        rcases hr with rfl | ⟨-, hne⟩
        · rfl
        · exact absurd hid hne
    · refine ⟨⟨inv, by simp [hrows], rfl⟩, fun r hr hid => ?_⟩
      rw [hrows] at hr
      rcases List.mem_append.mp hr with hr | hr
      · exact absurd hid (hnone r hr)
      · rw [List.mem_singleton.mp hr]

/-- An invitation keeps its status, unless a call writes another one. -/
theorem other_status {id : Uuid} {status : InvitationStatus} (decides : op.Decides) (h : s.HasStatus id status)
    (same : ∀ inv ∈ op.invitation?, (exec out env op s).1.isOk = true → inv.id = id → inv.status = status) :
    (exec out env op s).2.HasStatus id status := by
  rcases exec_invitations out s env decides with ⟨hrows, -⟩ | ⟨inv, t, hinv, hok, ht, hsave⟩
  · simpa only [Tables.HasStatus, hrows] using h
  · by_cases hid : inv.id = id
    · exact hid ▸ same inv hinv hok hid ▸ written_status decides hinv hok
    · obtain ⟨⟨r, hr, hrid⟩, hall⟩ := h
      rcases saveInvitation_ok hsave with ⟨hrows, hmem⟩ | ⟨hrows, -⟩
      · have hiff : ∀ x, x ∈ (exec out env op s).2.db.invitations ↔ x = inv ∨ x ∈ s.db.invitations ∧ x.id ≠ inv.id :=
          fun x => by rw [hrows, Table.mem_replace hmem, ht]
        simp only [Tables.HasStatus, hiff]
        refine ⟨⟨r, Or.inr ⟨hr, fun h => hid (h.symm.trans hrid)⟩, hrid⟩, fun x hx hxid => ?_⟩
        rcases hx with rfl | ⟨hx, -⟩
        · exact absurd hxid hid
        · exact hall x hx hxid
      · simp only [Tables.HasStatus, hrows, ht, List.mem_append, List.mem_singleton]
        refine ⟨⟨r, Or.inl hr, hrid⟩, fun x hx hxid => ?_⟩
        rcases hx with hx | rfl
        · exact hall x hx hxid
        · exact absurd hxid hid

/-! ### The calls of the two services -/

theorem lift_calls {α : Type} {P : Call → Prop} {p : Workspaces.Service α} (h : p.Calls fun c => P (.of c)) :
    (lift p).Calls P :=
  h.lift

theorem decision_calls (out : Outside) (r : Decision) : (r.program out).Calls Call.Decides := by
  have hperform : ∀ {c : Workspaces.Call}, Call.Decides (.of c) →
      (Workspaces.WorkspacesService.perform c).Calls fun c => Call.Decides (.of c) := fun h => Prog.calls_perform h
  cases r with
  | accept userId userEmail token =>
    refine (lift_calls ?_).bind fun _ => trivial
    refine (hperform (c := .findInvitation token) trivial).bind fun inv => ?_
    cases inv with
    | none => trivial
    | some inv =>
      simp only
      split
      · trivial
      · simp only [Prog.bind_eq, Prog.read_bind]
        intro env
        beta_reduce
        split
        · exact (hperform (c := .saveInvitation _) trivial).bind fun _ => trivial
        · split
          · trivial
          · refine (hperform (c := .findMember _ _) trivial).bind fun m => ?_
            cases m with
            | some m =>
              refine (hperform ?_).bind fun _ => trivial
              rfl
            | none =>
              refine hperform ?_
              rfl
  | revoke w id =>
    refine Prog.Calls.bind ?_ fun _ => trivial
    refine Prog.Calls.bind (Prog.calls_perform trivial) fun inv => ?_
    cases inv with
    | none => trivial
    | some inv =>
      simp only
      split
      · trivial
      · exact Prog.calls_perform trivial

/-- The calls of `InvitationsService`. -/
def Call.Invites : Call → Prop
  | .findUserByEmail _ | .findPending _ _ | .insertInvitation _ | .findInvitation _ _ => True
  | .db (.findInvitation _) | .db (.findMember _ _) | .db (.saveInvitation _) | .db (.commitAccept _ _) => True
  | _ => False

theorem Call.Decides.invites {c : Call} (h : c.Decides) : c.Invites := by
  cases c with
  | db c => cases c <;> trivial
  | findInvitation => trivial
  | _ => exact h.elim

theorem accept_calls (out : Outside) (userId : Uuid) (userEmail token : String) :
    (InvitationsService.accept out userId userEmail token).Calls Call.Invites :=
  (decision_calls out (.accept userId userEmail token)).of_bind.mono fun _ => Call.Decides.invites

theorem revoke_calls (out : Outside) (w id : UuidText) : (InvitationsService.revoke w id).Calls Call.Invites :=
  (decision_calls out (.revoke w id)).of_bind.mono fun _ => Call.Decides.invites

theorem invite_calls (w : UuidText) (inviterId : Uuid) (dto : CreateInvitationDto) :
    (InvitationsService.invite w inviterId dto).Calls Call.Invites := by
  have hissue : (InvitationsService.invite.issue w inviterId dto).Calls Call.Invites := by
    refine (Prog.calls_perform trivial).bind fun pending => ?_
    cases pending with
    | some inv => trivial
    | none => exact fun _ _ => Prog.calls_perform trivial
  refine (Prog.calls_perform trivial).bind fun user => ?_
  cases user with
  | none => exact hissue
  | some user =>
    refine (Prog.calls_perform trivial).bind fun m => ?_
    cases m with
    | none => exact hissue
    | some m => trivial

/-! ### The order of calls in `revoke` -/

/-- What comes after a reply in `revoke`. -/
def AfterReply (id : Uuid) : (c : Call) → c.Reply → Service Response → Prop
  | .findInvitation i _, inv, rest => i = id ∧ ((∃ e, rest = .throw e) ∨
      ∃ x, inv = some x ∧ rest.next? = some (.db (.saveInvitation { x with status := .REVOKED })))
  | .db (.saveInvitation _), _, rest => rest = .ret .revoked
  | _, _, _ => False

/-- What comes after the answer to a call of a `revoke`. -/
def Follows : Decision → (c : Call) → Except Err c.Reply → Service Response → Prop
  | .revoke _ id, c, .ok a, rest => AfterReply id.uuid c a rest
  | .revoke _ _, _, .error e, rest => rest = .throw e
  | .accept .., _, _, _ => True

theorem flows_true {α : Type} (p : Prog interface α) : p.Flows fun _ _ _ => True := by
  induction p with
  | ret | throw => trivial
  | ask k ih => exact ih
  | call c k ih => exact fun a => ⟨fun _ => trivial, ih a⟩

theorem decision_flows (out : Outside) (r : Decision) : (r.program out).Flows (Follows r) := by
  cases r with
  | accept => exact flows_true _
  | revoke w id =>
    intro inv
    rcases inv with e | (_ | inv)
    · exact ⟨fun _ => rfl, trivial⟩
    · exact ⟨fun _ => ⟨rfl, Or.inl ⟨_, rfl⟩⟩, trivial⟩
    · simp only [Prog.ret_bind, Prog.ite_bind]
      by_cases hpending : inv.status ≠ .PENDING
      · rw [if_pos hpending]
        exact ⟨fun _ => ⟨rfl, Or.inl ⟨_, rfl⟩⟩, trivial⟩
      · rw [if_neg hpending]
        refine ⟨fun _ => ⟨rfl, Or.inr ⟨inv, rfl, rfl⟩⟩, fun a => ?_⟩
        cases a with
        | error e => exact ⟨fun _ => rfl, trivial⟩
        | ok a => exact ⟨fun _ => rfl, trivial⟩

/-! ### Every run -/

theorem taken_step (hs : (decisions out).step c m = some d) (h : taken? out c m = some op) :
    ∃ t ∈ c.threads, ∃ env, t.next? = some op ∧ (exec out env op (c.shared.spend env)).1.isOk = true ∧
      d.shared = (exec out env op (c.shared.spend env)).2 := by
  cases m with
  | start | kill => cases h
  | call i fate env =>
    obtain ⟨t, op', k, ht, hk, -, rfl⟩ := System.step_call hs
    have hn : t.next? = some op' := by rw [Thread.next?, hk]; rfl
    simp only [taken?, ht, Option.bind_some, hn] at h
    split at h
    · next htook =>
      cases h
      refine ⟨t, List.mem_of_getElem? ht, env, hn, htook.2, ?_⟩
      cases fate with
      | failed => exact absurd rfl htook.1
      | answered | lost => rfl
    · cases h

/-- A decided invitation keeps its status in a move that writes no other one. -/
theorem status_step {id : Uuid} {status : InvitationStatus} (calls : ∀ t ∈ c.threads, t.rest.Calls Call.Decides)
    (hok : Undecided out c m) (hs : (decisions out).step c m = some d) (h : c.shared.HasStatus id status)
    (decided : status ≠ .PENDING) : d.shared.HasStatus id status := by
  rcases System.step_shared hs with heq | ⟨env, -, heq⟩ | ⟨i, fate, env, t, op, rfl, ht, hn, -, heq⟩
  · exact heq ▸ h
  · exact heq ▸ h
  · rw [heq]
    by_cases hfate : fate = .failed
    · subst hfate
      exact h
    · have heff : (decisions out).effect fate env op c.shared = (exec out env op (c.shared.spend env)).2 := by
        cases fate with
        | failed => exact absurd rfl hfate
        | answered | lost => rfl
      rw [heff]
      refine other_status ((calls t (List.mem_of_getElem? ht)).next hn) h fun inv hinv htook hid => ?_
      have htaken : taken? out c (.call i fate env) = some op := by
        simp only [taken?, ht, Option.bind_some, hn]
        exact if_pos ⟨hfate, htook⟩
      obtain ⟨⟨r, hr, hrid⟩, hall⟩ := h
      rcases hok op htaken inv hinv r hr (hrid.trans hid.symm) with hpending | hsame
      · exact absurd ((hall r hr hrid).symm.trans hpending) decided
      · exact hsame.symm.trans (hall r hr hrid)

variable (out s env) in
/-- A `revoke` after the answer to a call has failed, or goes on after a reply. -/
theorem after_answer {t : Thread interface Decision Response} {k : Except Err op.Reply → Service Response} {w id : UuidText}
    (flows : t.rest.Flows (Follows t.request)) (hk : t.rest = .call op k) (hreq : t.request = .revoke w id) (fate : Fate)
    (n : Nat) : (∃ e, ((decisions out).resume t op k fate env s n).rest = .throw e) ∨
      fate = .answered ∧ ∃ a, (exec out env op (s.spend env)).1 = .ok a ∧
        AfterReply id.uuid op a ((decisions out).resume t op k fate env s n).rest := by
  have hfol := ((hk ▸ flows) ((decisions out).answer fate (exec out env op (s.spend env)).1)).1 env
  rw [hreq] at hfol
  cases fate with
  | failed | lost => exact Or.inl ⟨_, hfol⟩
  | answered =>
    cases ha : (exec out env op (s.spend env)).1 with
    | error e =>
      simp only [System.answer, ha] at hfol
      have hthrow : (k (.error e)).settle env = .throw e := hfol
      refine Or.inl ⟨e, ?_⟩
      simpa only [System.resume, System.answer, decisions, system, ha] using hthrow
    | ok a =>
      simp only [System.answer, ha] at hfol
      have hafter : AfterReply id.uuid op a ((k (.ok a)).settle env) := hfol
      refine Or.inr ⟨rfl, a, rfl, ?_⟩
      simpa only [System.resume, System.answer, decisions, system, ha] using hafter

/-- A `revoke` in flight writes `REVOKED`, and where one has succeeded the invitation is revoked. -/
def Revoking (c : Deciding) : Prop :=
  ∀ t ∈ c.threads, ∀ w id, t.request = .revoke w id →
    (∀ inv, t.next? = some (.db (.saveInvitation inv)) → inv.id = id.uuid ∧ inv.status = .REVOKED) ∧
    ∀ v, t.result? = some (.ok v) → c.shared.HasStatus id.uuid .REVOKED

theorem revoking_step (calls : ∀ t ∈ c.threads, t.rest.Calls Call.Decides)
    (flows : ∀ t ∈ c.threads, t.rest.Flows (Follows t.request)) (hok : Undecided out c m)
    (hs : (decisions out).step c m = some d) (h : Revoking c) : Revoking d := by
  intro t ht w id hreq
  rcases System.step_thread hs ht with ht | ⟨r, env, -, -, -, rfl⟩ | ⟨i, fate, env, u, op, k, -, hu, hk, -, heq, rfl⟩ |
    ⟨i, u, -, hu, -, rfl⟩
  · obtain ⟨hnext, hresult⟩ := h t ht w id hreq
    exact ⟨hnext, fun v hv => status_step calls hok hs (hresult v hv) (by rintro ⟨⟩)⟩
  · obtain rfl : r = .revoke w id := hreq
    exact ⟨by rintro _ ⟨⟩, by rintro _ ⟨⟩⟩
  · have humem := List.mem_of_getElem? hu
    rcases after_answer out c.shared env (flows u humem) hk hreq fate c.time with
      ⟨e, he⟩ | ⟨rfl, a, ha, hafter⟩
    · rw [Thread.next?, Thread.result?, he]
      exact ⟨by rintro _ ⟨⟩, by rintro _ ⟨⟩⟩
    · cases op with
      | findInvitation i w' =>
        obtain ⟨rfl, ⟨e, he⟩ | ⟨x, rfl, hx⟩⟩ := hafter
        · rw [Thread.next?, Thread.result?, he]
          exact ⟨by rintro _ ⟨⟩, by rintro _ ⟨⟩⟩
        · have hrow := Except.ok.inj ha
          have hfound := List.find?_some hrow
          simp only [Bool.and_eq_true, decide_eq_true_eq] at hfound
          refine ⟨fun inv hinv => ?_, fun v hv => ?_⟩
          · obtain rfl : { x with status := .REVOKED } = inv := by simpa using hx.symm.trans hinv
            exact ⟨hfound.1, rfl⟩
          · rw [Prog.next?_of_result? hv] at hx
            cases hx
      | db c' =>
        cases c' with
        | saveInvitation inv =>
          obtain ⟨hid, hstatus⟩ := (h u humem w id hreq).1 inv (by rw [Thread.next?, hk]; rfl)
          refine ⟨fun inv' hinv' => ?_, fun _ _ => ?_⟩
          · rw [Thread.next?, hafter] at hinv'
            cases hinv'
          · rw [heq, ← hid, ← hstatus]
            have htook : (exec out env (.db (.saveInvitation inv)) (c.shared.spend env)).1.isOk = true := by
              rw [ha]
              rfl
            exact written_status trivial rfl htook
        | _ => cases hafter
      | _ => cases hafter
  · exact ⟨by rintro _ ⟨⟩, by rintro _ ⟨⟩⟩

theorem status_reach {s₀ : Tables} {id : Uuid} {status : InvitationStatus}
    (hc : (decisions out).Reach (Undecided out) (.initial s₀) c) (hd : (decisions out).Reach (Undecided out) c d)
    (h : c.shared.HasStatus id status) (decided : status ≠ .PENDING) : d.shared.HasStatus id status :=
  hd.invariant_with (Q := fun c => ∀ t ∈ c.threads, t.rest.Calls Call.Decides) (P := fun c => c.shared.HasStatus id status)
    (fun hd' => System.Reach.calls (P := fun _ => Call.Decides) (decision_calls out) (hc.trans hd')) h
    fun calls _ h hok hs => status_step calls hok hs h decided

theorem revoking_reach {s₀ : Tables} (hc : (decisions out).Reach (Undecided out) (.initial s₀) c) : Revoking c :=
  hc.invariant_with (Q := fun c => (∀ t ∈ c.threads, t.rest.Calls Call.Decides) ∧
      ∀ t ∈ c.threads, t.rest.Flows (Follows t.request))
    (fun hd => ⟨System.Reach.calls (P := fun _ => Call.Decides) (decision_calls out) hd, hd.flows (decision_flows out)⟩)
    nofun fun ⟨calls, flows⟩ _ h hok hs => revoking_step calls flows hok hs h

end

/-- In a run in which an invitation is pending whenever another status is written, a decided invitation keeps its
    status, and an accept adds no member for an invitation of which a revoke succeeds, before or after. -/
theorem decision_final (out : Outside) (s : Tables) (c d : Deciding)
    (hc : (decisions out).Reach (Undecided out) (.initial s) c) (hd : (decisions out).Reach (Undecided out) c d)
    (id : Uuid) :
    (∀ status, status ≠ .PENDING → c.shared.HasStatus id status → d.shared.HasStatus id status) ∧
      ∀ m c', Undecided out c m → (decisions out).step c m = some c' → (decisions out).Reach (Undecided out) c' d →
        AddsMember out c m id → ∀ t ∈ d.threads, ∀ w i, t.request = .revoke w i → i.uuid = id →
          ∀ v, t.result? ≠ some (.ok v) := by
  refine ⟨fun status decided h => status_reach hc hd h decided, ?_⟩
  rintro m c' hok hs hd' ⟨n, inv, htaken, rfl⟩ t ht w i hreq hi v hv
  have hc' : (decisions out).Reach (Undecided out) (.initial s) c' := hc.tail ⟨m, hok, hs⟩
  have hrevoked := (revoking_reach (hc'.trans hd') t ht w i hreq).2 v hv
  -- The commit of the accept leaves the invitation accepted.
  have haccepted : c'.shared.HasStatus inv.id .ACCEPTED := by
    obtain ⟨u, hu, env, hn, htook, heq⟩ := taken_step hs htaken
    have hstatus : inv.status = .ACCEPTED :=
      (System.Reach.calls (P := fun _ => Call.Decides) (decision_calls out) hc u hu).next hn
    rw [heq, ← hstatus]
    exact written_status hstatus rfl htook
  obtain ⟨⟨r, hr, hid⟩, hall⟩ := status_reach hc' hd' haccepted nofun
  cases (hall r hr hid).symm.trans (hrevoked.2 r hr (hid.trans hi.symm))

/-! ### A revoke between the reads of an accept and its commit -/

def pendingInvitation : WorkspaceInvitation := ⟨30, 1, "new@acme.com", .MEMBER, "token", .PENDING, 9, 1000⟩

/-- User 9 owns workspace 1 and invited somebody. -/
def invited : Tables :=
  { db := { users := [5, 9], workspaces := [⟨1, "Acme", "acme", 9⟩], members := [⟨20, 1, 9, .ADMIN, 0⟩],
            invitations := [pendingInvitation], caches := [], generated := ⟨[], []⟩ }
    cache := [] }

/-- Lower case is not needed here. -/
def verbatim : Outside := { toLowerCase := fun s => s, citext := fun s => s, email := fun _ => "new@acme.com" }

def acceptFirst : List (Move interface Decision) :=
  [.start (.accept 5 "new@acme.com" "token") (envAt 1), .call 0 .answered (envAt 2), .call 0 .answered (envAt 3),
   .call 0 .answered (envAt 4)]

def revokeLater : List (Move interface Decision) :=
  [.start (.revoke (Uuid.text 1) (Uuid.text 30)) (envAt 5), .call 1 .answered (envAt 6)]

def revokeBetween : List (Move interface Decision) :=
  [.start (.accept 5 "new@acme.com" "token") (envAt 1), .call 0 .answered (envAt 2), .call 0 .answered (envAt 3),
   .start (.revoke (Uuid.text 1) (Uuid.text 30)) (envAt 4), .call 1 .answered (envAt 5), .call 1 .answered (envAt 6)]

theorem decision_final_accept : ∃ c d : Deciding, (decisions verbatim).Reach (Undecided verbatim) (.initial invited) c ∧
    (decisions verbatim).Reach (Undecided verbatim) c d ∧ d.threads.length = 2 ∧ d.shared.HasStatus 30 .ACCEPTED := by
  have hrun : ∃ c d : Deciding, (decisions verbatim).Reach (Undecided verbatim) (.initial invited) c ∧
      (decisions verbatim).Reach (Undecided verbatim) c d ∧ d.threads.length = 2 ∧ c.shared.HasStatus 30 .ACCEPTED :=
    ⟨_, _, System.reach_of_run acceptFirst rfl, System.reach_of_run revokeLater rfl, rfl, by decide +kernel⟩
  obtain ⟨c, d, hc, hd, hlen, h⟩ := hrun
  exact ⟨c, d, hc, hd, hlen, (decision_final verbatim invited c d hc hd 30).1 .ACCEPTED nofun h⟩

/-- The revoke succeeds, and then the accept adds the member and writes another status. -/
theorem revoked_joins : ∃ c d : Deciding, (decisions verbatim).Reach (fun _ _ => True) (.initial invited) c ∧
    (decisions verbatim).step c (.call 0 .answered (envAt 7)) = some d ∧
    (∃ t ∈ d.threads, t.request = .revoke (Uuid.text 1) (Uuid.text 30) ∧ t.result? = some (.ok .revoked)) ∧
    AddsMember verbatim c (.call 0 .answered (envAt 7)) 30 ∧ c.shared.HasStatus 30 .REVOKED ∧
    d.shared.HasStatus 30 .ACCEPTED :=
  ⟨_, _, System.reach_of_run revokeBetween rfl, rfl, ⟨_, .tail _ (.head _), rfl, rfl⟩, ⟨_, _, rfl, rfl⟩,
    by decide +kernel, by decide +kernel⟩

end TaskPlatform.Access

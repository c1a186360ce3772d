import TaskPlatform.Access.Decisions
import TaskPlatform.Access.Serving

/-! `InvitationsService` over time: when an address that was invited before can be invited again. -/

namespace TaskPlatform.Access
open Effects Workspaces

/-! ### The service -/

/-- A call of `InvitationsService` that writes. -/
inductive Exchange where
  | invite (workspaceId : UuidText) (inviterId : Uuid) (dto : CreateInvitationDto)
  | decide (decision : Decision)
  deriving DecidableEq

def Exchange.program (out : Outside) : Exchange → Service Response
  | .invite workspaceId inviterId dto => return .invitation (← InvitationsService.invite workspaceId inviterId dto)
  | .decide decision => decision.program out

def exchanges (out : Outside) : System interface Tables Exchange Response := { system out with program := Exchange.program out }

/-- A pending invitation of the address to the workspace. -/
def Invites (out : Outside) (w : Uuid) (email : String) (inv : WorkspaceInvitation) : Prop :=
  inv.workspaceId = w ∧ out.citext inv.email = out.citext email ∧ inv.status = .PENDING

instance (out : Outside) (w : Uuid) (email : String) (inv : WorkspaceInvitation) : Decidable (Invites out w email inv) :=
  inferInstanceAs (Decidable (_ ∧ _ ∧ _))

/-- How many of them have not expired. -/
def Tables.live (out : Outside) (s : Tables) (w : Uuid) (email : String) (now : Date) : Nat :=
  s.db.invitations.countP fun inv => Invites out w email inv ∧ now ≤ inv.expiresAt

/-- The tokens of the invitations were generated. -/
def Tables.Issued (s : Tables) : Prop := ∀ inv ∈ s.db.invitations, inv.token ∈ s.db.generated.randoms

section
variable {out : Outside} {s s' : Tables} {env : Nat → Env} {e : Env} {c : Call} {w : UuidText} {inviter : Uuid}
  {dto : CreateInvitationDto}

/-! ### Tokens -/

theorem Tables.Issued.of_mem (h : s.Issued) (generated : s.db.generated.randoms ⊆ s'.db.generated.randoms)
    (tokens : ∀ inv ∈ s'.db.invitations, (∃ old ∈ s.db.invitations, inv.token = old.token) ∨
      inv.token ∈ s'.db.generated.randoms) : s'.Issued := by
  intro inv hinv
  rcases tokens inv hinv with ⟨old, hold, htoken⟩ | hnew
  · exact htoken ▸ generated (h old hold)
  · exact hnew

theorem Tables.Issued.spend (h : s.Issued) (e : Env) : (s.spend e).Issued :=
  h.of_mem (List.subset_cons_self ..) fun inv hinv => Or.inl ⟨inv, hinv, rfl⟩

variable (out) in
theorem generated_handled (e : Env) (c : Call) (s : Tables) :
    ((system out).handler e c s).2.db.generated = (s.spend e).db.generated := exec_generated out (s.spend e) e c

/-- A decision writes back a token that it has read. -/
theorem Tables.Issued.decided (h : s.Issued) (decides : c.Decides)
    (known : ∀ inv ∈ c.invitation?, inv.token ∈ s.db.generated.randoms) : ((system out).handler e c s).2.Issued := by
  have hsub : s.db.generated.randoms ⊆ ((system out).handler e c s).2.db.generated.randoms := by
    rw [generated_handled]
    exact List.subset_cons_self ..
  refine h.of_mem hsub fun inv hinv => ?_
  rcases exec_invitations out (s.spend e) e decides with ⟨heq, -⟩ | ⟨x, t, hx, -, ht, hsave⟩
  · exact Or.inl ⟨inv, heq ▸ hinv, rfl⟩
  · have hmem : inv = x ∨ inv ∈ t.invitations := by
      rcases saveInvitation_ok hsave with ⟨hrows, y, hy, hyid⟩ | ⟨hrows, -⟩
      · have hinv' : inv ∈ Table.replace WorkspaceInvitation.id x t.invitations := hrows ▸ hinv
        exact ((Table.mem_replace (x := x) ⟨y, hy, hyid⟩).mp hinv').imp_right And.left
      · have hinv' : inv ∈ t.invitations ++ [x] := hrows ▸ hinv
        exact (List.mem_append.mp hinv').symm.imp_left List.mem_singleton.mp
    rcases hmem with rfl | hmem
    · exact Or.inr (hsub (known inv hx))
    · exact Or.inl ⟨inv, ht ▸ hmem, rfl⟩

variable (out) in
theorem revoke_issued (h : s.Issued) (w id : UuidText) :
    (system out).Ends (InvitationsService.revoke w id) s fun _ s' => s'.Issued := by
  rw [InvitationsService.revoke, Prog.bind_eq]
  refine System.Ends.bind (Q := fun a s' => s'.Issued ∧ ∀ inv, a = .ok (some inv) → inv.token ∈ s'.db.generated.randoms)
    (System.Ends.perform fun e _ => ⟨h.spend e, fun inv hinv => ?_⟩) ?_ fun _ _ h => h.1
  · exact (h.spend e) inv (List.mem_of_find?_eq_some (Except.ok.inj hinv))
  · rintro found s₁ ⟨h, hfound⟩
    cases found with
    | none => exact System.Ends.throw h
    | some inv =>
      simp only
      split
      · exact System.Ends.throw h
      · refine System.Ends.perform fun e _ => h.decided trivial ?_
        rintro x ⟨⟩
        exact hfound inv rfl

variable (out) in
theorem accept_issued (h : s.Issued) (userId : Uuid) (userEmail token : String) :
    (system out).Ends (InvitationsService.accept out userId userEmail token) s fun _ s' => s'.Issued := by
  rw [InvitationsService.accept, Workspaces.InvitationsService.accept, Prog.bind_eq, lift_bind, lift_perform rfl]
  refine System.Ends.bind (Q := fun a s' => s'.Issued ∧ ∀ inv, a = .ok (some inv) → inv.token ∈ s'.db.generated.randoms)
    (System.Ends.perform fun e _ => ⟨h.spend e, fun inv hinv => ?_⟩) ?_ fun _ _ h => h.1
  · exact (h.spend e) inv (List.mem_of_find?_eq_some (Except.ok.inj hinv))
  · rintro found s₁ ⟨h, hfound⟩
    cases found with
    | none => exact System.Ends.throw h
    | some inv =>
      have htoken := hfound inv rfl
      simp only
      split
      · exact System.Ends.throw h
      · simp only [Prog.bind_eq, Prog.read_bind, lift_ask]
        refine System.Ends.ask fun now => ?_
        split
        · rw [lift_bind, lift_perform rfl]
          refine System.Ends.bind (Q := fun _ s' => s'.Issued) (System.Ends.perform fun e _ => ?_)
            (fun _ _ h => System.Ends.throw h) fun _ _ h => h
          refine h.decided trivial ?_
          rintro x ⟨⟩
          exact htoken
        · split
          · exact System.Ends.throw h
          · rw [lift_bind, lift_perform rfl]
            refine System.Ends.bind (Q := fun _ s' => s'.Issued ∧ inv.token ∈ s'.db.generated.randoms)
              (System.Ends.perform fun e _ => ⟨h.spend e, List.mem_cons_of_mem _ htoken⟩) ?_ fun _ _ h => h.1
            rintro membership s₂ ⟨h, htoken⟩
            cases membership with
            | some m =>
              simp only
              rw [lift_bind, lift_perform rfl]
              refine System.Ends.bind (Q := fun _ s' => s'.Issued) (System.Ends.perform fun e _ => ?_)
                (fun _ _ h => System.Ends.ret h) fun _ _ h => h
              refine h.decided rfl ?_
              rintro x ⟨⟩
              exact htoken
            | none =>
              simp only
              rw [lift_perform rfl]
              refine System.Ends.perform fun e _ => h.decided rfl ?_
              rintro x ⟨⟩
              exact htoken

/-! ### An invitation is issued -/

/-- What `invite` inserts, the token drawn and the clock read in this environment. -/
def draft (w : UuidText) (inviter : Uuid) (dto : CreateInvitationDto) (e : Env) : NewInvitation :=
  { workspaceId := w, email := dto.email, role := dto.role.getD .MEMBER, token := e.random, status := .PENDING,
    invitedBy := inviter, expiresAt := e.now + InvitationsService.INVITE_TTL_MS }

variable (out env s) in
theorem issue_run : (InvitationsService.invite.issue w inviter dto).run (system out).handler env s =
    match Tables.pending? out s.db w.uuid dto.email with
    | some _ => (.error (.conflict "A pending invitation already exists for this email"), s.spend (env 1))
    | none => (system out).handler (env 2) (.insertInvitation (draft w inviter dto (env 1))) (s.spend (env 1)) := by
  have hfind : (system out).handler (env 1) (.findPending w.uuid dto.email) s =
      (.ok (Tables.pending? out s.db w.uuid dto.email), s.spend (env 1)) := rfl
  rw [InvitationsService.invite.issue, Prog.bind_eq, perform, Prog.run_perform_ok (I := interface) env hfind]
  cases Tables.pending? out s.db w.uuid dto.email with
  | some pending => rfl
  | none =>
    simp only [Prog.bind_eq, Prog.read_bind, Prog.run_ask, perform, Prog.perform, Prog.run_call, draft]
    generalize (system out).handler _ _ _ = answer
    obtain ⟨a, t⟩ := answer
    cases a <;> rfl

variable (out) in
theorem insertInvitation_issued (h : s.Issued) {n : NewInvitation} (token : n.token ∈ s.db.generated.randoms) (e : Env) :
    ((system out).handler e (.insertInvitation n) s).2.Issued := by
  simp only [System.handler, system, exec]
  rcases commit_cases (s.spend e) (n.toRow e) (Tables.insertInvitation out (s.spend e).db (n.toRow e)) with
    ⟨db, hdb, heq⟩ | ⟨err, heq⟩
  · rw [heq]
    obtain rfl := insertInvitation_ok hdb
    refine (h.spend e).of_mem (fun _ hx => hx) fun inv hinv => ?_
    rcases List.mem_append.mp hinv with hold | hnew
    · exact Or.inl ⟨inv, hold, rfl⟩
    · obtain rfl := List.mem_singleton.mp hnew
      exact Or.inr (List.mem_cons_of_mem _ token)
  · rw [heq]
    exact h.spend e

variable (out) in
theorem issue_issued (h : s.Issued) (w : UuidText) (inviter : Uuid) (dto : CreateInvitationDto) :
    (system out).Ends (InvitationsService.invite.issue w inviter dto) s fun _ s' => s'.Issued := by
  intro env _
  rw [issue_run]
  split
  · exact h.spend _
  · exact insertInvitation_issued out (h.spend (env 1)) (List.mem_cons_self ..) (env 2)

variable (out) in
theorem invite_issued (h : s.Issued) (w : UuidText) (inviter : Uuid) (dto : CreateInvitationDto) :
    (system out).Ends (InvitationsService.invite w inviter dto) s fun _ s' => s'.Issued := by
  rw [InvitationsService.invite, Prog.bind_eq]
  refine System.Ends.bind (Q := fun _ s' => s'.Issued) (System.Ends.perform fun e _ => h.spend e) ?_ fun _ _ h => h
  intro existingUser s₁ h
  cases existingUser with
  | none => exact issue_issued out h w inviter dto
  | some v =>
    refine System.Ends.bind (Q := fun _ s' => s'.Issued) (System.Ends.perform fun e _ => h.spend e) ?_ fun _ _ h => h
    intro membership s₂ h
    cases membership with
    | some m => exact System.Ends.throw h
    | none => exact issue_issued out h w inviter dto

/-- Every call of the service keeps the tokens generated ones. -/
theorem serve_issued {r : Exchange} (h : s.Issued) (served : (exchanges out).Serves r env s) :
    ((exchanges out).serve r env s).2.Issued := by
  have hends : (system out).Ends (r.program out) (s.spend (env 0)) fun _ s' => s'.Issued := by
    have hspent := h.spend (env 0)
    cases r with
    | invite w inviter dto =>
      exact (invite_issued out hspent w inviter dto).bind (fun _ _ h => System.Ends.ret h) fun _ _ h => h
    | decide decision =>
      cases decision with
      | accept userId userEmail token =>
        exact (accept_issued out hspent userId userEmail token).bind (fun _ _ h => System.Ends.ret h) fun _ _ h => h
      | revoke w id => exact (revoke_issued out hspent w id).bind (fun _ _ h => System.Ends.ret h) fun _ _ h => h
  exact hends env served.2

/-! ### How `invite` ends -/

theorem pending?_none {t : Workspaces.Tables} {x : Uuid} {email : String} :
    Tables.pending? out t x email = none ↔ ∀ inv ∈ t.invitations, ¬ Invites out x email inv := by
  rw [Tables.pending?, List.find?_eq_none]
  refine forall₂_congr fun inv _ => not_congr ?_
  simp only [Bool.and_eq_true, decide_eq_true_eq, and_assoc]
  rfl

/-- The insert succeeds where no index and no foreign key is against it. -/
theorem insertInvitation_free {t : Workspaces.Tables} {row : WorkspaceInvitation}
    (token : ∀ inv ∈ t.invitations, inv.token ≠ row.token)
    (free : Tables.pending? out t row.workspaceId row.email = none)
    (workspace : row.workspaceId ∈ t.workspaces.map Workspace.id) (user : row.invitedBy ∈ t.users) :
    Tables.insertInvitation out t row = .ok { t with invitations := t.invitations ++ [row] } := by
  have htoken : ¬ Table.has WorkspaceInvitation.token row.token t.invitations = true := fun hhas => by
    obtain ⟨inv, hinv, heq⟩ := Table.has_iff.mp hhas
    exact token inv hinv heq
  have hworkspace : Table.has Workspace.id row.workspaceId t.workspaces = true := by
    obtain ⟨x, hx, hid⟩ := List.mem_map.mp workspace
    exact Table.has_iff.mpr ⟨x, hx, hid⟩
  have huser : t.users.contains row.invitedBy = true := List.contains_iff_mem.mpr user
  rw [Tables.insertInvitation, if_neg htoken, free, hworkspace, huser]
  simp

/-- The rows are as before, and more tokens were generated. -/
structure Later (s s' : Tables) : Prop extends SameRows s s' where
  users : s'.db.users = s.db.users
  randoms : s.db.generated.randoms ⊆ s'.db.generated.randoms

theorem Later.spend (h : Later s s') (e : Env) : Later s (s'.spend e) :=
  ⟨h.toSameRows.spend e, h.users, fun _ hx => List.mem_cons_of_mem _ (h.randoms hx)⟩

theorem Later.refl (s : Tables) : Later s s := ⟨.refl s, rfl, fun _ hx => hx⟩

/-- An address of no member is left to `issue`. -/
theorem invite_issues (stranger : ∀ m ∈ s.db.members, m.workspaceId = w.uuid → out.citext (out.email m.userId) ≠ out.citext dto.email)
    (h : Later s s')
    (admitted : (InvitationsService.invite w inviter dto).Admitted (system out).handler
      (fun s e => (system out).admits s e = true) env s') :
    ∃ n s₁, Later s s₁ ∧
      (InvitationsService.invite w inviter dto).run (system out).handler env s' =
        (InvitationsService.invite.issue w inviter dto).run (system out).handler (fun i => env (i + n)) s₁ ∧
      (InvitationsService.invite.issue w inviter dto).Admitted (system out).handler
        (fun s e => (system out).admits s e = true) (fun i => env (i + n)) s₁ := by
  have hfind : (system out).handler (env 1) (.findUserByEmail dto.email) s' =
      (.ok (s.db.users.find? fun u => out.citext (out.email u) = out.citext dto.email), s'.spend (env 1)) := by
    rw [← h.users]
    rfl
  rw [InvitationsService.invite, Prog.bind_eq, perform] at admitted ⊢
  rw [Prog.run_perform_ok (I := interface) env hfind]
  replace admitted := ((Prog.admitted_perform_ok (I := interface) env hfind).mp admitted).2
  cases huser : s.db.users.find? fun u => out.citext (out.email u) = out.citext dto.email with
  | none =>
    rw [huser] at admitted
    exact ⟨1, _, h.spend _, rfl, admitted⟩
  | some u =>
    have hemail : out.citext (out.email u) = out.citext dto.email := by simpa using List.find?_some huser
    have hnone : s'.db.member? w.uuid u = none := by
      cases hm : s'.db.member? w.uuid u with
      | none => rfl
      | some m =>
        obtain ⟨hmem, hworkspace, rfl⟩ := member?_some hm
        exact absurd hemail (stranger m (h.members ▸ hmem) hworkspace)
    have hmember : (system out).handler (env 2) (.db (.findMember w.uuid u)) (s'.spend (env 1)) =
        (.ok none, (s'.spend (env 1)).spend (env 2)) := Prod.ext (congrArg Except.ok hnone) rfl
    rw [huser] at admitted
    replace admitted := ((Prog.admitted_perform_ok (I := interface) (fun i => env (i + 1)) hmember).mp admitted).2
    refine ⟨2, _, (h.spend _).spend _, ?_, admitted⟩
    exact Prog.run_perform_ok (I := interface) (fun i => env (i + 1)) hmember

/-- The new invitation is issued exactly if no other one is pending. -/
theorem issue_outcome (h : s.Issued) (workspace : w.uuid ∈ s.db.workspaces.map Workspace.id) (user : inviter ∈ s.db.users)
    (later : Later s s')
    (admitted : (InvitationsService.invite.issue w inviter dto).Admitted (system out).handler
      (fun s e => (system out).admits s e = true) env s') :
    (∀ inv ∈ s.db.invitations, ¬ Invites out w.uuid dto.email inv) ∧
        (∃ inv s'', (InvitationsService.invite.issue w inviter dto).run (system out).handler env s' = (.ok inv, s'') ∧
          s''.db.invitations = s.db.invitations ++ [inv] ∧ Invites out w.uuid dto.email inv ∧
          inv.expiresAt = (env 1).now + InvitationsService.INVITE_TTL_MS) ∨
      (∃ inv ∈ s.db.invitations, Invites out w.uuid dto.email inv) ∧
        ∃ e s'', (InvitationsService.invite.issue w inviter dto).run (system out).handler env s' = (.error e, s'') := by
  have hpending : Tables.pending? out s'.db w.uuid dto.email = Tables.pending? out s.db w.uuid dto.email := by
    rw [Tables.pending?, later.invitations]
    rfl
  rw [issue_run, hpending]
  cases hfind : Tables.pending? out s.db w.uuid dto.email with
  | some inv =>
    have hmem : ∃ inv ∈ s.db.invitations, Invites out w.uuid dto.email inv := by
      by_contra hnone
      have hnone : ∀ inv ∈ s.db.invitations, ¬ Invites out w.uuid dto.email inv := fun inv hinv hi => hnone ⟨inv, hinv, hi⟩
      rw [pending?_none.mpr hnone] at hfind
      cases hfind
    exact Or.inr ⟨hmem, _, _, rfl⟩
  | none =>
    have hnew : (env 1).random ∉ s'.db.generated.randoms := (Generated.admits_iff.mp admitted.1).2
    have hrow : ∀ inv ∈ ((s'.spend (env 1)).spend (env 2)).db.invitations, inv.token ≠ (env 1).random := by
      intro inv hinv heq
      have hold : inv ∈ s.db.invitations := later.invitations ▸ hinv
      exact hnew (heq ▸ later.randoms (h inv hold))
    let row := (draft w inviter dto (env 1)).toRow (env 2)
    have hinsert : Tables.insertInvitation out ((s'.spend (env 1)).spend (env 2)).db row = .ok
        { ((s'.spend (env 1)).spend (env 2)).db with invitations := s'.db.invitations ++ [row] } :=
      insertInvitation_free hrow (hpending.trans hfind) (by exact later.workspaces ▸ workspace) (by exact later.users ▸ user)
    have hcall : (system out).handler (env 2) (.insertInvitation (draft w inviter dto (env 1))) (s'.spend (env 1)) =
        (.ok row, { (s'.spend (env 1)).spend (env 2) with
          db := { ((s'.spend (env 1)).spend (env 2)).db with invitations := s'.db.invitations ++ [row] } }) :=
      congrArg (Tables.commit _ row) hinsert
    exact Or.inl ⟨pending?_none.mp hfind, row, _, hcall, congrArg (· ++ [row]) later.invitations, ⟨rfl, rfl, rfl⟩, rfl⟩

theorem live_append {t : Tables} {now : Date} {inv : WorkspaceInvitation} {email : String}
    (rows : t.db.invitations = s.db.invitations ++ [inv]) (invites : Invites out w.uuid email inv)
    (notExpired : now ≤ inv.expiresAt) : t.live out w.uuid email now = s.live out w.uuid email now + 1 := by
  rw [Tables.live, rows, List.countP_append, Tables.live, List.countP_singleton, if_pos (decide_eq_true ⟨invites, notExpired⟩)]

/-- After any calls of the service, an address that neither a member has nor a pending invitation that has not expired
    can be invited, with one such invitation then, exactly if no other invitation of it is pending: an expired one that
    nobody has tried to accept or revoked is. -/
theorem invite_succeeds_iff (out : Outside) (s₀ : Tables) (empty : s₀.db.invitations = [])
    (calls : List (Exchange × (Nat → Env))) (served : (exchanges out).ServesAll calls s₀) (s : Tables)
    (reached : ((exchanges out).serveAll calls s₀).2 = s) (w : UuidText) (inviter : Uuid) (dto : CreateInvitationDto)
    (workspace : w.uuid ∈ s.db.workspaces.map Workspace.id) (user : inviter ∈ s.db.users) (now : Date) (env : Nat → Env)
    (later : ∀ n, now ≤ (env n).now) (serves : (exchanges out).Serves (.invite w inviter dto) env s)
    (stranger : ∀ m ∈ s.db.members, m.workspaceId = w.uuid → out.citext (out.email m.userId) ≠ out.citext dto.email)
    (free : s.live out w.uuid dto.email now = 0) :
    (∃ inv s', (exchanges out).serve (.invite w inviter dto) env s = (.ok (.invitation inv), s') ∧
        s'.live out w.uuid dto.email now = 1) ↔
      ∀ inv ∈ s.db.invitations, ¬ Invites out w.uuid dto.email inv := by
  have hissued : s.Issued := by
    rw [← reached]
    refine System.serveAll_keeps (fun h served => serve_issued h served) (fun inv hinv => ?_) served
    rw [empty] at hinv
    cases hinv
  have hprogram := (Prog.run_bind _ _ _ _ serves.2).1
  obtain ⟨n, s₁, hlater, hrun, hadmitted⟩ := invite_issues stranger ((Later.refl s).spend (env 0)) hprogram
  have hserve : (exchanges out).serve (.invite w inviter dto) env s =
      (((InvitationsService.invite w inviter dto).run (system out).handler env (s.spend (env 0))).1.map .invitation,
        ((InvitationsService.invite w inviter dto).run (system out).handler env (s.spend (env 0))).2) :=
    Prod.ext (Prog.run_map_result _ _ _ _ _) (Prog.run_map _ _ _ _ _)
  rw [hserve, hrun]
  rcases issue_outcome hissued workspace user hlater hadmitted with
    ⟨hnone, inv, s', heq, hrows, hinvites, hexpires⟩ | ⟨⟨inv, hinv, hinvites⟩, e, s', heq⟩
  · rw [heq]
    refine iff_of_true ⟨inv, s', rfl, ?_⟩ hnone
    have hnow : now ≤ inv.expiresAt := by
      rw [hexpires]
      exact (later (1 + n)).trans (Int.le_add_of_nonneg_right (by decide))
    rw [live_append hrows hinvites hnow, free]
  · rw [heq]
    refine iff_of_false ?_ fun hnone => hnone inv hinv hinvites
    rintro ⟨inv', s'', h, -⟩
    cases h

end

/-- User 9 owns workspace 1, and nobody is invited. -/
def uninvited : Tables := { invited with db := { invited.db with invitations := [] } }

/-- The owner invites, and thirty days later wants to invite the same address again. -/
def inviteOnce : List (Exchange × (Nat → Env)) :=
  [(.invite (Uuid.text 1) 9 { email := "new@acme.com" }, envAt)]

def thirtyDays : Date := 30 * 24 * 60 * 60 * 1000

def muchLater (n : Nat) : Env := { envAt (100 + n) with now := thirtyDays }

/-- The lower case of addresses, and the addresses of users 5 and 9. -/
def addresses : Outside :=
  { verbatim with email := fun u => if u = 9 then "owner@acme.com" else "five@acme.com" }

/-- The owner revokes the invitation in between. -/
def inviteAndRevoke : List (Exchange × (Nat → Env)) :=
  inviteOnce ++ [(.decide (.revoke (Uuid.text 1) (Uuid.text 103)), fun n => envAt (50 + n))]

/-- A revoked invitation does not block the address. -/
theorem invite_succeeds_revoked : ∃ s, s.db.invitations.map WorkspaceInvitation.status = [.REVOKED] ∧
    ∃ inv s', (exchanges addresses).serve (.invite (Uuid.text 1) 9 { email := "new@acme.com" }) muchLater s =
      (.ok (.invitation inv), s') ∧ s'.live addresses 1 "new@acme.com" thirtyDays = 1 :=
  ⟨((exchanges addresses).serveAll inviteAndRevoke uninvited).2, by decide +kernel,
    (invite_succeeds_iff addresses uninvited rfl inviteAndRevoke (by decide +kernel) _ rfl (Uuid.text 1) 9
      { email := "new@acme.com" } (by decide +kernel) (by decide +kernel) thirtyDays muchLater (fun _ => Int.le_refl _)
      (by decide +kernel) (by decide +kernel) (by decide +kernel)).mpr (by decide +kernel)⟩

/-- The invitation of thirty days ago has expired, and blocks the address. -/
theorem expired_blocks : ∃ (out : Outside) (s₀ : Tables) (calls : List (Exchange × (Nat → Env))) (w : UuidText)
    (inviter : Uuid) (dto : CreateInvitationDto) (now : Date) (env : Nat → Env), s₀.db.invitations = [] ∧
    (exchanges out).ServesAll calls s₀ ∧
    let s := ((exchanges out).serveAll calls s₀).2
    w.uuid ∈ s.db.workspaces.map Workspace.id ∧ inviter ∈ s.db.users ∧ (∀ n, now ≤ (env n).now) ∧
      (exchanges out).Serves (.invite w inviter dto) env s ∧
      (∀ m ∈ s.db.members, m.workspaceId = w.uuid → out.citext (out.email m.userId) ≠ out.citext dto.email) ∧
      s.live out w.uuid dto.email now = 0 ∧
      ((exchanges out).serve (.invite w inviter dto) env s).1 =
        .error (.conflict "A pending invitation already exists for this email") :=
  ⟨addresses, uninvited, inviteOnce, Uuid.text 1, 9, { email := "new@acme.com" }, thirtyDays, muchLater, rfl,
    by decide +kernel, by decide +kernel, by decide +kernel, fun _ => Int.le_refl _, by decide +kernel, by decide +kernel,
    by decide +kernel, rfl⟩

end TaskPlatform.Access

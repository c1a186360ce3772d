import TaskPlatform.Platform.Grants

/-! Every program of the platform keeps to what its user was granted: beyond the guards it acts only for who is admitted,
    and it writes only the memberships that its route names. -/

namespace TaskPlatform.Platform
open Effects Workspaces

section
variable {k k' : Grants} {r : Request} {process : Nat} {queue : Bool} {w v : UuidText} {userId : Uuid} {α : Type}
  {Q : Grants → α → Prop}

/-! ### Programs of the workspaces -/

/-- The contract as an API process has it with the workspaces. -/
abbrev permittingIn (r : Request) (process : Nat) : Contract Access.interface Grants :=
  (permitting r).on (Call.access process)

theorem permitted_access {p : Access.Service α} (h : p.Meets (permittingIn r process) Q k) :
    (ofAccess process p).Meets (permitting r) Q k :=
  h.lift id id id

/-- The rule of a call of somebody who is admitted. -/
theorem admitted_call {c : Access.Call} {f : c.Reply → Access.Service α} (admits : k.Admits r) (warrants : k.warrants r c)
    (next : ∀ k', k ≤ k' → ∀ a, k'.tells (.access process c) a → (f a).Meets (permittingIn r process) Q k') :
    ((Access.perform c).bind f).Meets (permittingIn r process) Q k :=
  Prog.Meets.perform_bind ⟨Or.inr admits, fun _ _ hc => by cases hc; exact warrants⟩ (fun _ _ h => h.elim) next

theorem admitted_last {c : Access.Call} (admits : k.Admits r) (warrants : k.warrants r c) :
    (Access.perform c).Meets (permittingIn r process) (fun _ _ => True) k :=
  Prog.Meets.perform ⟨Or.inr admits, fun _ _ hc => by cases hc; exact warrants⟩ (fun _ _ h => h.elim) fun _ _ _ _ => trivial

/-- The rule of a lookup. -/
theorem lookup_call {c : Access.Call} {f : c.Reply → Access.Service α} (looks : (Call.access process c).LooksUp)
    (warrants : k.warrants r c)
    (next : ∀ k', k ≤ k' → ∀ a, k'.tells (.access process c) a → (f a).Meets (permittingIn r process) Q k') :
    ((Access.perform c).bind f).Meets (permittingIn r process) Q k :=
  Prog.Meets.perform_bind ⟨Or.inl looks, fun _ _ hc => by cases hc; exact warrants⟩ (fun _ _ h => h.elim) next

/-! ### The guards -/

/-- A membership that is found, in the cache or in the table, has been one. -/
theorem membership_held (w v : UuidText) : (Access.WorkspacesService.getMembership w v).Meets (permittingIn r process)
    (fun k m => ∀ x ∈ m, k.Held w.uuid v.uuid x.role) k := by
  rw [Access.WorkspacesService.getMembership_eq]
  refine lookup_call trivial trivial fun k₁ _ cached hcached => ?_
  cases cached with
  | some m =>
    rintro _ ⟨⟩
    exact hcached
  | none =>
    refine lookup_call trivial trivial fun k₂ _ membership hmember => ?_
    cases membership with
    | none => rintro _ ⟨⟩
    | some m =>
      obtain ⟨hw, hv, hm⟩ := hmember
      have hheld : k₂.Held w.uuid v.uuid m.role := ⟨m.id, hw ▸ hv ▸ hm⟩
      refine lookup_call trivial hheld fun k₃ hk _ _ => ?_
      rintro _ ⟨⟩
      exact hheld.grow hk

/-- Who passes the guard for members has held the role that it attaches. -/
theorem guard_held (w : UuidText) (userId : Uuid) : (Access.WorkspaceMemberGuard.canActivate w userId).Meets
    (permittingIn r process) (fun k role => k.Held w.uuid userId role) k := by
  refine (membership_held w userId.text).bind fun k' _ m hm => ?_
  cases m with
  | none => trivial
  | some m => exact hm m rfl

theorem roles_checked (required : List WorkspaceRole) (role : WorkspaceRole) : (Access.RolesGuard.canActivate required role).Meets
    (permittingIn r process) (fun _ _ => required = [] ∨ role ∈ required) k := by
  unfold Access.RolesGuard.canActivate
  split
  · next hnone => exact Or.inl hnone
  · split
    · next hmem => exact Or.inr hmem
    · trivial

/-- Who passes both guards is admitted. -/
theorem guards_checked {roles : List WorkspaceRole} {role : WorkspaceRole} (route : r.route = some (userId, w, roles))
    (held : k.Held w.uuid userId role) (required : roles = [] ∨ role ∈ roles) : k.Admits r := by
  intro u x rs hroute
  cases route.symm.trans hroute
  exact ⟨role, held, required⟩

theorem member_admitted (route : r.route = some (userId, w, [])) :
    (Access.WorkspaceMemberGuard.canActivate w userId).Meets (permittingIn r process) (fun k _ => k.Admits r) k :=
  (guard_held w userId).mono fun _ _ _ hheld => guards_checked route hheld (Or.inl rfl)

theorem admin_admitted (route : r.route = some (userId, w, [.ADMIN])) :
    (Access.adminOnly w userId).Meets (permittingIn r process) (fun k _ => k.Admits r) k := by
  refine (guard_held w userId).bind fun k₁ _ role hheld => ?_
  exact (roles_checked [.ADMIN] role).mono fun _ hk _ hrole => guards_checked route (hheld.grow hk) hrole

theorem admitted_anywhere (route : r.route = none) : k.Admits r := by
  intro u w roles hroute
  cases route.symm.trans hroute

/-! ### The services of the workspaces -/

/-- Nothing has to warrant the call. -/
def unwarranted : Access.Call → Bool
  | .cacheSet _ _ | .insertInvitation _ | .commitCreate _ _ => false
  | .db (.saveMember _) | .db (.removeMember _) | .db (.commitAccept _ _) | .db (.saveInvitation _) => false
  | _ => true

theorem warrants_of_unwarranted {c : Access.Call} (h : unwarranted c = true) : k.warrants r c := by
  cases c with
  | db c =>
    cases c with
    | saveMember | removeMember | commitAccept | saveInvitation => cases h
    | _ => trivial
  | cacheSet | insertInvitation | commitCreate => cases h
  | _ => trivial

/-- A program of such calls for somebody who is admitted. -/
theorem admitted_meets {p : Access.Service α} (admits : k.Admits r) (h : p.Calls (unwarranted · = true)) :
    p.Meets (permittingIn r process) (fun _ _ => True) k :=
  Prog.Calls.meets_of_le (le_refl k) <| h.mono fun _ hc =>
    ⟨⟨Or.inr admits, fun _ _ heq => by cases heq; exact warrants_of_unwarranted hc⟩, fun _ _ h => h.elim⟩

theorem findByIdOrFail_unwarranted (w : UuidText) :
    (Access.WorkspacesService.findByIdOrFail w).Calls (unwarranted · = true) := by
  rw [Access.WorkspacesService.findByIdOrFail_eq]
  have hfind : (Access.perform (.db (.findWorkspace w.uuid))).Calls (unwarranted · = true) := Prog.calls_perform rfl
  refine hfind.bind fun ws => ?_
  cases ws <;> trivial

theorem create_permitted (admits : k.Admits r) {dto : Access.CreateWorkspaceDto}
    (hr : r = .access process ⟨userId, .create dto⟩) (out : Access.Outside) :
    (Access.WorkspacesService.create out userId dto).Meets (permittingIn r process) (fun _ _ => True) k := by
  refine admitted_call admits trivial fun k₁ hk₁ count _ => ?_
  split
  · trivial
  · refine admitted_call (admits.grow hk₁) trivial fun k₂ hk₂ ws howner => ?_
    have howner : ws.ownerId = userId := howner
    refine admitted_call ((admits.grow hk₁).grow hk₂) ?_ fun _ _ _ _ => trivial
    exact ⟨process, dto, howner ▸ hr, by rw [howner]⟩

theorem updateMemberRole_permitted (admits : k.Admits r) {role : WorkspaceRole}
    (hr : r = .access process ⟨userId, .updateRole w v role⟩) :
    (Access.WorkspacesService.updateMemberRole w v role).Meets (permittingIn r process) (fun _ _ => True) k := by
  rw [Access.WorkspacesService.updateMemberRole_eq]
  refine (admitted_meets admits (findByIdOrFail_unwarranted w)).bind fun k₁ hk₁ ws _ => ?_
  split
  · trivial
  · refine admitted_call (admits.grow hk₁) trivial fun k₂ hk₂ m hm => ?_
    have admits₂ := (admits.grow hk₁).grow hk₂
    cases m with
    | none => trivial
    | some m =>
      obtain ⟨hw, hv, hm⟩ := hm
      refine admitted_call admits₂ ?_ fun k₃ hk₃ _ _ => ?_
      · exact ⟨process, userId, w, v, role, hr, hw, hv, rfl, m.role, hw ▸ hv ▸ hm⟩
      · exact admitted_call (admits₂.grow hk₃) trivial fun _ _ _ _ => trivial

theorem removeMember_permitted (admits : k.Admits r) (hr : r = .access process ⟨userId, .removeMember w v⟩) :
    (Access.WorkspacesService.removeMember w v).Meets (permittingIn r process) (fun _ _ => True) k := by
  rw [Access.WorkspacesService.removeMember_eq]
  refine (admitted_meets admits (findByIdOrFail_unwarranted w)).bind fun k₁ hk₁ ws _ => ?_
  split
  · trivial
  · refine admitted_call (admits.grow hk₁) trivial fun k₂ hk₂ m hm => ?_
    have admits₂ := (admits.grow hk₁).grow hk₂
    cases m with
    | none => trivial
    | some m =>
      obtain ⟨hw, hv, hm⟩ := hm
      refine admitted_call admits₂ ?_ fun k₃ hk₃ _ _ => ?_
      · exact ⟨process, userId, w, v, hr, m.role, hw ▸ hv ▸ hm⟩
      · exact admitted_last (admits₂.grow hk₃) trivial

theorem invite_permitted (admits : k.Admits r) {dto : Access.CreateInvitationDto}
    (hr : r = .access process ⟨userId, .invite w dto⟩) :
    (Access.InvitationsService.invite w userId dto).Meets (permittingIn r process) (fun _ _ => True) k := by
  have hissue : ∀ {k₁}, k ≤ k₁ →
      (Access.InvitationsService.invite.issue w userId dto).Meets (permittingIn r process) (fun _ _ => True) k₁ := by
    intro k₁ hk₁
    refine admitted_call (admits.grow hk₁) trivial fun k₂ hk₂ pending _ => ?_
    cases pending with
    | some inv => trivial
    | none => exact fun _ _ => admitted_last ((admits.grow hk₁).grow hk₂) ⟨process, w, dto, hr, rfl⟩
  refine admitted_call admits trivial fun k₁ hk₁ user _ => ?_
  cases user with
  | none => exact hissue hk₁
  | some user =>
    refine admitted_call (admits.grow hk₁) trivial fun k₂ hk₂ m _ => ?_
    cases m with
    | none => exact hissue (le_trans hk₁ hk₂)
    | some m => trivial

theorem revoke_permitted (admits : k.Admits r) (id : UuidText) :
    (Access.InvitationsService.revoke w id).Meets (permittingIn r process) (fun _ _ => True) k := by
  refine admitted_call admits trivial fun k₁ hk₁ inv hinv => ?_
  cases inv with
  | none => trivial
  | some inv =>
    simp only
    split
    · trivial
    · exact admitted_last (admits.grow hk₁) hinv

theorem accept_permitted (admits : k.Admits r) {token : String} (hr : r = .access process ⟨userId, .accept token⟩)
    (out : Access.Outside) (email : String) :
    (Access.InvitationsService.accept out userId email token).Meets (permittingIn r process) (fun _ _ => True) k := by
  rw [Access.InvitationsService.accept, Workspaces.InvitationsService.accept, Prog.bind_eq, Access.lift_perform_bind]
  refine admitted_call admits trivial fun k₁ hk₁ inv hinv => ?_
  have admits₁ := admits.grow hk₁
  cases inv with
  | none => trivial
  | some inv =>
    obtain ⟨htoken, hinv⟩ := hinv
    simp only [Access.Call.reply]
    split
    · trivial
    · simp only [Prog.bind_eq, Prog.read_bind, Access.lift_ask]
      intro env
      beta_reduce
      split
      · rw [Access.lift_perform_bind]
        exact admitted_call admits₁ hinv fun _ _ _ _ => trivial
      · split
        · trivial
        · rw [Access.lift_perform_bind]
          refine admitted_call admits₁ trivial fun k₂ hk₂ m _ => ?_
          have admits₂ := admits₁.grow hk₂
          have hreq : r = .access process ⟨userId, .accept inv.token⟩ := htoken ▸ hr
          cases m with
          | some m =>
            simp only [Access.Call.reply]
            rw [Access.lift_perform_bind]
            refine admitted_call admits₂ ?_ fun _ _ _ _ => trivial
            exact ⟨hk₂ hinv, process, userId, hreq, by rintro _ ⟨⟩⟩
          | none =>
            simp only [Access.Call.reply]
            rw [Access.lift_perform rfl]
            refine admitted_last admits₂ ?_
            exact ⟨hk₂ hinv, process, userId, hreq, by rintro _ ⟨⟩; rfl⟩

theorem access_permitted (out : Access.Outside) (a : Access.Request) (k : Grants) :
    (Access.program out a).Meets (permittingIn (.access process a) process) (fun _ _ => True) k := by
  have wrap : ∀ {α β : Type} {p : Access.Service α} {f : α → β} {k : Grants},
      p.Meets (permittingIn (.access process a) process) (fun _ _ => True) k →
      (p.bind fun a => .ret (f a)).Meets (permittingIn (.access process a) process) (fun _ _ => True) k := fun h =>
    h.bind fun _ _ _ _ => trivial
  obtain ⟨userId, operation⟩ := a
  cases operation with
  | create dto => exact wrap (create_permitted (admitted_anywhere rfl) rfl out)
  | listMine => exact wrap (admitted_last (admitted_anywhere rfl) trivial)
  | get w =>
    exact (member_admitted rfl).bind fun _ _ _ admits => wrap (admitted_meets admits (findByIdOrFail_unwarranted w))
  | members w => exact (member_admitted rfl).bind fun _ _ _ admits => wrap (admitted_last admits trivial)
  | updateRole w v role =>
    exact (admin_admitted rfl).bind fun _ _ _ admits => wrap (updateMemberRole_permitted admits rfl)
  | removeMember w v => exact (admin_admitted rfl).bind fun _ _ _ admits => wrap (removeMember_permitted admits rfl)
  | invite w dto => exact (admin_admitted rfl).bind fun _ _ _ admits => wrap (invite_permitted admits rfl)
  | listInvitations w => exact (admin_admitted rfl).bind fun _ _ _ admits => wrap (admitted_last admits trivial)
  | revoke w id => exact (admin_admitted rfl).bind fun _ _ _ admits => wrap (revoke_permitted admits id)
  | accept token => exact wrap (accept_permitted (admitted_anywhere rfl) rfl out _)

/-! ### All other programs -/

/-- The call is none on the workspaces. -/
def Call.beyond : Call → Bool
  | .access _ _ => false
  | _ => true

theorem beyond_permitted {p : Service α} (admits : k.Admits r) (h : p.Calls (Call.beyond · = true)) :
    p.Meets (permitting r) (fun _ _ => True) k :=
  Prog.Calls.meets_of_le (le_refl k) <| h.mono fun _ hc =>
    ⟨⟨Or.inr admits, fun _ _ heq => by subst heq; cases hc⟩, fun _ _ h => h.elim⟩

theorem ofBoard_beyond (p : Board.Service α) : (ofBoard p).Calls (Call.beyond · = true) :=
  Prog.Calls.lift (Prog.calls_of_forall (fun _ => rfl) p)

theorem ofInbox_beyond (p : Notifications.Service α) : (ofInbox p).Calls (Call.beyond · = true) :=
  Prog.Calls.lift (Prog.calls_of_forall (fun _ => rfl) p)

theorem ofReminders_beyond (p : Reminders.Service α) : (ofReminders p).Calls (Call.beyond · = true) :=
  Prog.Calls.lift (Prog.calls_of_forall (fun _ => rfl) p)

theorem notify_beyond (e : Board.DomainEvent) : (notify queue e).Calls (Call.beyond · = true) := by
  cases queue with
  | true =>
    simp only [notify, if_true]
    cases Notifications.mapEvent e with
    | none => trivial
    | some input => exact Prog.calls_perform rfl
  | false =>
    rw [notify, if_neg (by decide)]
    exact ofInbox_beyond _

theorem announce_beyond (es : List Board.DomainEvent) : (announce queue es).Calls (Call.beyond · = true) := by
  induction es with
  | nil => trivial
  | cons e es ih =>
    exact (ofBoard_beyond _).bind fun _ => ((notify_beyond e).handle fun _ => Prog.calls_ret).bind fun _ => ih

theorem board_permitted (b : Board.Request) (k : Grants) :
    (board queue process userId b).Meets (permitting (.board process userId b)) (fun _ _ => True) k := by
  refine (permitted_access (guard_held b.workspaceId userId)).bind fun k₁ _ role hheld => ?_
  refine (permitted_access (roles_checked (Operation.roles b.operation) role)).bind fun k₂ hk₂ _ hrole => ?_
  have admits : k₂.Admits (.board process userId b) := guards_checked rfl (hheld.grow hk₂) hrole
  exact beyond_permitted admits ((ofBoard_beyond _).bind fun x => (announce_beyond x.1).bind fun _ => trivial)

theorem program_permitted (out : Access.Outside) (queue : Bool) (r : Request) (k : Grants) :
    (program out queue r).Meets (permitting r) (fun _ _ => True) k := by
  cases r with
  | access process a => exact (permitted_access (access_permitted out a k)).bind fun _ _ _ _ => trivial
  | board process userId b => exact (board_permitted b k).bind fun _ _ _ _ => trivial
  | scan now =>
    exact beyond_permitted (admitted_anywhere rfl) ((ofReminders_beyond _).bind fun _ => trivial)
  | remind id =>
    exact beyond_permitted (admitted_anywhere rfl) ((ofReminders_beyond _).bind fun _ => trivial)
  | deliver id =>
    have hwork : (NotificationProcessor.work id).Calls (Call.beyond · = true) := by
      have htake : (perform (.takeNotificationJob id)).Calls (Call.beyond · = true) := Prog.calls_perform rfl
      refine htake.bind fun job => ?_
      cases job with
      | none => trivial
      | some job => exact (ofInbox_beyond _).bind fun _ => Prog.calls_perform rfl
    exact beyond_permitted (admitted_anywhere rfl) (hwork.bind fun _ => trivial)
  | expire process key =>
    have hexpire : (Access.perform (.cacheDel key)).Meets (permittingIn (.expire process key) process) (fun _ _ => True) k :=
      admitted_last (admitted_anywhere rfl) trivial
    exact (permitted_access hexpire).bind fun _ _ _ _ => trivial

end
end TaskPlatform.Platform

import TaskPlatform.Access.Services
import TaskPlatform.Statements
import TaskPlatform.Workspaces.Members

/-! What a request through the controllers does, when requests are served one after another. -/

namespace TaskPlatform.Access
open Effects Workspaces

/-! ### Memberships, in the table and in the cache -/

/-- The membership is a row of its user in its workspace. -/
def Holds (members : List WorkspaceMember) (e : MembershipKey × WorkspaceMember) : Prop :=
  e.2 ∈ members ∧ e.2.workspaceId = e.1.workspaceId.uuid ∧ e.2.userId = e.1.userId.uuid

/-- The cache agrees with the table. -/
def Tables.Coherent (s : Tables) : Prop := ∀ e ∈ s.cache, Holds s.db.members e

/-- The user is an administrator of the workspace, in the table. -/
def Tables.IsAdmin (s : Tables) (u w : Uuid) : Prop :=
  ∃ m ∈ s.db.members, m.workspaceId = w ∧ m.userId = u ∧ m.role = .ADMIN

instance (s : Tables) (u w : Uuid) : Decidable (s.IsAdmin u w) :=
  inferInstanceAs (Decidable (∃ m ∈ s.db.members, m.workspaceId = w ∧ m.userId = u ∧ m.role = .ADMIN))

/-- The membership that a request of `caller` on the member `u` of `w` gets to: the caller is an administrator, and
    the owner of the workspace does not have the id that the request spells. -/
def Tables.governed? (s : Tables) (caller : Uuid) (w u : UuidText) : Option WorkspaceMember :=
  if s.IsAdmin caller w.uuid then
    match s.db.workspaces.find? (·.id == w.uuid) with
    | some x => if x.ownerId.text = u then none else s.db.member? w.uuid u.uuid
    | none => none
  else none

/-- Generated ids stay generated. -/
def Grown (s s' : Tables) : Prop := s.db.generated.uuids ⊆ s'.db.generated.uuids

/-- The rows are the same, whatever was generated. -/
structure SameRows (s s' : Tables) : Prop where
  grown : Grown s s'
  workspaces : s'.db.workspaces = s.db.workspaces
  members : s'.db.members = s.db.members
  invitations : s'.db.invitations = s.db.invitations

/-- What is cached now was cached before, or is in the table. -/
def CachedFrom (s s' : Tables) : Prop := ∀ e ∈ s'.cache, e ∈ s.cache ∨ Holds s.db.members e

/-- Nothing is done. -/
structure Kept (s s' : Tables) : Prop extends SameRows s s' where
  cache : CachedFrom s s'

/-- What the guards leave: the membership of the caller may be in the cache. -/
structure Guarded (s s' : Tables) (w : UuidText) (caller : Uuid) : Prop extends SameRows s s' where
  cache : ∀ e ∈ s'.cache, e ∈ s.cache ∨ e.1 = ⟨w, caller.text⟩ ∧ Holds s.db.members e

/-! ### What requests do -/

/-- A new workspace, with the membership of its owner. -/
structure Created (s s' : Tables) (u : Uuid) (x : Workspace) (m : WorkspaceMember) : Prop where
  owner : x.ownerId = u
  member : m.workspaceId = x.id ∧ m.userId = u ∧ m.role = .ADMIN
  new : s.db.member? x.id u = none
  fresh : m.id ∉ s.db.generated.uuids ∧ m.id ∈ s'.db.generated.uuids
  grown : Grown s s'
  workspaces : s'.db.workspaces = s.db.workspaces ++ [x]
  members : s'.db.members = s.db.members ++ [m]
  invitations : s'.db.invitations = s.db.invitations
  cache : CachedFrom s s'

/-- A membership that the caller governs is no longer cached under the key of the request, and the row is as `rows`
    says. -/
structure Governed (s s' : Tables) (caller : Uuid) (w u : UuidText) (m : WorkspaceMember)
    (rows : List WorkspaceMember) : Prop where
  governed : s.governed? caller w u = some m
  grown : Grown s s'
  workspaces : s'.db.workspaces = s.db.workspaces
  members : s'.db.members = rows
  invitations : s'.db.invitations = s.db.invitations
  cache : ∀ e ∈ s'.cache, e.1 ≠ ⟨w, u⟩ ∧ (e ∈ s.cache ∨ e.1 = ⟨w, caller.text⟩ ∧ Holds s.db.members e)

structure Invited (s s' : Tables) (caller : Uuid) (w : UuidText) (inv : WorkspaceInvitation) : Prop where
  admin : s.IsAdmin caller w.uuid
  workspace : inv.workspaceId = w.uuid
  pending : inv.status = .PENDING
  grown : Grown s s'
  workspaces : s'.db.workspaces = s.db.workspaces
  members : s'.db.members = s.db.members
  invitations : s'.db.invitations = s.db.invitations ++ [inv]
  cache : CachedFrom s s'

/-- An invitation gets another status. -/
structure Decided (s s' : Tables) (inv : WorkspaceInvitation) (status : InvitationStatus) : Prop where
  mem : inv ∈ s.db.invitations
  grown : Grown s s'
  workspaces : s'.db.workspaces = s.db.workspaces
  members : s'.db.members = s.db.members
  invitations : s'.db.invitations = Table.replace WorkspaceInvitation.id { inv with status := status } s.db.invitations
  cache : CachedFrom s s'

/-- An invitation is accepted, and the user becomes a member. -/
structure Joined (out : Outside) (s s' : Tables) (u : Uuid) (now : Date) (inv : WorkspaceInvitation)
    (m : WorkspaceMember) : Prop where
  mem : inv ∈ s.db.invitations
  pending : inv.status = .PENDING
  notExpired : now ≤ inv.expiresAt
  addressed : out.toLowerCase inv.email = out.toLowerCase (out.email u)
  new : s.db.member? inv.workspaceId u = none
  fresh : m.id ∉ s.db.generated.uuids ∧ m.id ∈ s'.db.generated.uuids
  grown : Grown s s'
  member : m.workspaceId = inv.workspaceId ∧ m.userId = u ∧ m.role = inv.role
  workspaces : s'.db.workspaces = s.db.workspaces
  members : s'.db.members = s.db.members ++ [m]
  invitations : s'.db.invitations =
    Table.replace WorkspaceInvitation.id { inv with status := .ACCEPTED } s.db.invitations
  cache : CachedFrom s s'

/-- The request is done, and not only an answer from the tables. -/
def Operation.Changes : Operation → Except Err Response → Prop
  | .create _, .ok _ | .updateRole .., .ok _ | .removeMember .., .ok _ | .invite .., .ok _ | .revoke .., .ok _
  | .accept _, .ok _ => True
  | _, _ => False

/-- What serving a request does, and how it ends; `now` is the time at which it would read the clock. -/
inductive Effect (out : Outside) (s : Tables) (now : Date) : Request → Except Err Response → Tables → Prop where
  | reads {r result s'} (unchanged : ¬ r.operation.Changes result) (h : Kept s s') : Effect out s now r result s'
  | created {u dto x m s'} (h : Created s s' u x m) : Effect out s now ⟨u, .create dto⟩ (.ok (.workspace x)) s'
  | roleSet {caller w u role m s'}
    (h : Governed s s' caller w u m (Table.replace WorkspaceMember.id { m with role := role } s.db.members)) :
    Effect out s now ⟨caller, .updateRole w u role⟩ (.ok (.updated { m with role := role })) s'
  | removed {caller w u m s'} (h : Governed s s' caller w u m (s.db.members.filter (·.id != m.id))) :
    Effect out s now ⟨caller, .removeMember w u⟩ (.ok .removed) s'
  | invited {caller w dto inv s'} (h : Invited s s' caller w inv) :
    Effect out s now ⟨caller, .invite w dto⟩ (.ok (.invitation inv)) s'
  | revoked {caller w id inv s'} (h : Decided s s' inv .REVOKED) :
    Effect out s now ⟨caller, .revoke w id⟩ (.ok .revoked) s'
  | expired {u token e inv s'} (h : Decided s s' inv .EXPIRED) : Effect out s now ⟨u, .accept token⟩ (.error e) s'
  | again {u token m inv s'} (member : m ∈ s.db.members) (h : Decided s s' inv .ACCEPTED) :
    Effect out s now ⟨u, .accept token⟩ (.ok (.accepted (some m))) s'
  | joined {u token m inv s'} (presented : inv.token = token) (h : Joined out s s' u now inv m) :
    Effect out s now ⟨u, .accept token⟩ (.ok (.accepted (some m))) s'

section
variable {out : Outside} {s s' : Tables} {w u : UuidText} {caller : Uuid}

theorem Grown.trans {s'' : Tables} (h : Grown s s') (h' : Grown s' s'') : Grown s s'' := fun _ hx => h' (h hx)

theorem Grown.spend (h : Grown s s') (env : Env) : Grown s (s'.spend env) := fun _ hx => List.mem_cons_of_mem _ (h hx)

theorem SameRows.spend (h : SameRows s s') (env : Env) : SameRows s (s'.spend env) :=
  ⟨h.grown.spend env, h.workspaces, h.members, h.invitations⟩

theorem SameRows.refl (s : Tables) : SameRows s s := ⟨fun _ hx => hx, rfl, rfl, rfl⟩

theorem Kept.spend (h : Kept s s') (env : Env) : Kept s (s'.spend env) :=
  ⟨h.toSameRows.spend env, h.cache⟩

theorem Guarded.kept (h : Guarded s s' w caller) : Kept s s' :=
  ⟨h.toSameRows, fun e he => (h.cache e he).imp_right And.right⟩

theorem member?_some {t : Workspaces.Tables} {w u : Uuid} {m : WorkspaceMember} (h : t.member? w u = some m) :
    m ∈ t.members ∧ m.workspaceId = w ∧ m.userId = u := by
  have hm := List.find?_some h
  simp only [Bool.and_eq_true, beq_iff_eq] at hm
  exact ⟨List.mem_of_find?_eq_some h, hm⟩

theorem member?_none {t : Workspaces.Tables} {w u : Uuid} (h : t.member? w u = none) :
    ∀ m ∈ t.members, m.workspaceId = w → m.userId ≠ u := by
  intro m hm hw hu
  have := List.find?_eq_none.mp h m hm
  simp [hw, hu] at this

/-! ### The guards -/

theorem getMembership_ends (coherent : s.Coherent) :
    (system out).Ends (WorkspacesService.getMembership w caller.text) s fun result s' =>
      Guarded s s' w caller ∧
        ∀ m, result = .ok (some m) → m ∈ s.db.members ∧ m.workspaceId = w.uuid ∧ m.userId = caller := by
  rw [WorkspacesService.getMembership_eq, Prog.bind_eq]
  refine System.Ends.bind (Q := fun result s' => Guarded s s' w caller ∧ s'.cache = s.cache ∧
    result = .ok ((s.cache.find? (·.1 = ⟨w, caller.text⟩)).map Prod.snd)) (System.Ends.perform fun e _ => ?_) ?_ ?_
  · exact ⟨⟨(SameRows.refl s).spend e, fun _ he => Or.inl he⟩, rfl, rfl⟩
  · rintro cached s₁ ⟨hg, hcache, hres⟩
    cases hres
    cases hf : s.cache.find? (·.1 = ⟨w, caller.text⟩) with
    | some e =>
      obtain ⟨hmem, hw, hu⟩ := coherent e (List.mem_of_find?_eq_some hf)
      have hkey : e.1 = ⟨w, caller.text⟩ := by simpa using List.find?_some hf
      refine System.Ends.ret ⟨hg, fun m hm => ?_⟩
      cases hm
      rw [hkey] at hw hu
      exact ⟨hmem, hw, hu⟩
    | none =>
      refine System.Ends.bind (Q := fun result s' => Guarded s s' w caller ∧
        result = .ok (s.db.member? w.uuid caller)) (System.Ends.perform fun e _ => ?_) ?_ ?_
      · refine ⟨⟨hg.toSameRows.spend e, fun e' he => Or.inl (hcache ▸ he)⟩, ?_⟩
        simp only [System.handler, system, exec, Workspaces.exec, Workspaces.Tables.member?, Tables.spend,
          Workspaces.Tables.spend, hg.members]
        rfl
      · rintro membership s₂ ⟨hg, hres⟩
        cases hres
        cases hm : s.db.member? w.uuid caller with
        | none => exact System.Ends.ret ⟨hg, fun _ h => by cases h⟩
        | some m =>
          obtain ⟨hmem, hrow⟩ := member?_some hm
          refine System.Ends.bind (Q := fun _ s' => Guarded s s' w caller) (System.Ends.perform fun e _ => ?_) ?_ ?_
          · refine ⟨⟨hg.grown.spend e, hg.workspaces, hg.members, hg.invitations⟩, fun e' he => ?_⟩
            rcases List.mem_cons.mp he with rfl | he
            · exact Or.inr ⟨rfl, hmem, hrow⟩
            · exact hg.cache e' (List.mem_filter.mp he).1
          · rintro - s₃ hg
            refine System.Ends.ret ⟨hg, fun m' hm' => ?_⟩
            cases hm'
            exact ⟨hmem, hrow⟩
          · exact fun _ _ hg => ⟨hg, fun _ h => by cases h⟩
      · rintro e s₂ ⟨-, hres⟩
        cases hres
  · rintro e s₁ ⟨-, -, hres⟩
    cases hres

theorem canActivate_ends (coherent : s.Coherent) :
    (system out).Ends (WorkspaceMemberGuard.canActivate w caller) s fun result s' =>
      Guarded s s' w caller ∧ (result = .ok .ADMIN → s.IsAdmin caller w.uuid) := by
  rw [WorkspaceMemberGuard.canActivate, Prog.bind_eq]
  refine System.Ends.bind (getMembership_ends coherent) ?_ fun e s₁ h => ⟨h.1, nofun⟩
  rintro membership s₁ ⟨hg, hm⟩
  cases membership with
  | none => exact System.Ends.throw ⟨hg, nofun⟩
  | some m =>
    obtain ⟨hmem, hw, hu⟩ := hm m rfl
    exact System.Ends.ret ⟨hg, fun hrole => ⟨m, hmem, hw, hu, Except.ok.inj hrole⟩⟩

/-- Past the guards the caller is an administrator, in the table. -/
theorem adminOnly_ends (coherent : s.Coherent) :
    (system out).Ends (adminOnly w caller) s fun result s' =>
      Guarded s s' w caller ∧ (result = .ok () → s.IsAdmin caller w.uuid) := by
  rw [adminOnly, Prog.bind_eq]
  refine System.Ends.bind (canActivate_ends coherent) ?_ fun e s₁ h => ⟨h.1, nofun⟩
  rintro role s₁ ⟨hg, hadmin⟩
  rw [RolesGuard.canActivate, if_neg (List.cons_ne_nil _ _)]
  split
  · next hrole => exact System.Ends.ret ⟨hg, fun _ => hadmin (congrArg Except.ok (List.mem_singleton.mp hrole))⟩
  · exact System.Ends.throw ⟨hg, nofun⟩

/-! ### Changes to a membership -/

theorem Guarded.of_spend {env : Env} (h : Guarded (s.spend env) s' w caller) : Guarded s s' w caller :=
  ⟨⟨fun _ hx => h.grown (List.mem_cons_of_mem _ hx), h.workspaces, h.members, h.invitations⟩, h.cache⟩

theorem Guarded.spend (h : Guarded s s' w caller) (env : Env) : Guarded s (s'.spend env) w caller :=
  ⟨h.toSameRows.spend env, h.cache⟩

/-- A service past the guards that changes nothing. -/
def Unchanged {α : Type} (s : Tables) (result : Except Err α) (s' : Tables) : Prop :=
  ∃ e, result = .error e ∧ Kept s s'

theorem Kept.unchanged {α : Type} (h : Kept s s') (e : Err) : Unchanged s (.error e : Except Err α) s' := ⟨e, rfl, h⟩

/-- What is generated later is new. -/
theorem Kept.new_id (h : Kept s s') {env : Env} (admits : (system out).admits s' env = true) :
    env.uuid ∉ s.db.generated.uuids ∧ env.uuid ∈ (s'.spend env).db.generated.uuids :=
  ⟨fun hx => (Generated.admits_iff.mp admits).1 (h.grown hx), List.mem_cons_self ..⟩

theorem Unchanged.kept {α : Type} {result : Except Err α} (h : Unchanged s result s') : Kept s s' :=
  let ⟨_, _, hk⟩ := h
  hk

theorem not_unchanged {α : Type} {a : α} (h : Unchanged s (.ok a) s') : False := by
  obtain ⟨e, he, -⟩ := h
  cases he

theorem Guarded.unchanged {α : Type} (h : Guarded s s' w caller) (e : Err) : Unchanged s (.error e : Except Err α) s' :=
  h.kept.unchanged e

theorem findByIdOrFail_ends (hg : Guarded s s' w caller) :
    (system out).Ends (WorkspacesService.findByIdOrFail w) s' fun result s'' => Guarded s s'' w caller ∧
      ∀ x, result = .ok x → s.db.workspaces.find? (·.id == w.uuid) = some x := by
  intro env _
  have hrun : (WorkspacesService.findByIdOrFail w).run (system out).handler env s' =
      match s.db.workspaces.find? (·.id == w.uuid) with
      | some x => (.ok x, s'.spend (env 1))
      | none => (.error (.notFound "Workspace not found"), s'.spend (env 1)) := by
    rw [WorkspacesService.findByIdOrFail_eq, perform, Prog.perform, Prog.bind_eq, Prog.call_bind, Prog.run_call,
      ← hg.workspaces]
    simp only [System.handler, system, exec, Workspaces.exec, Tables.spend, Workspaces.Tables.spend, Prog.ret_bind]
    cases s'.db.workspaces.find? (·.id == w.uuid) <;> rfl
  rw [hrun]
  cases s.db.workspaces.find? (·.id == w.uuid) with
  | none => exact ⟨hg.spend _, by rintro _ ⟨⟩⟩
  | some x => exact ⟨hg.spend _, fun y hy => congrArg some (Except.ok.inj hy)⟩

theorem findMember_ends (hg : Guarded s s' w caller) {v : Uuid} :
    (system out).Ends (perform (.db (.findMember w.uuid v))) s' fun result s'' => Guarded s s'' w caller ∧
      result = .ok (s.db.member? w.uuid v) := by
  refine System.Ends.perform fun e _ => ⟨hg.spend e, ?_⟩
  simp only [System.handler, system, exec, Workspaces.exec, Workspaces.Tables.member?, Tables.spend,
    Workspaces.Tables.spend, hg.members]

/-- The membership that `updateMemberRole` and `removeMember` go on with. -/
theorem governed_ends (hg : Guarded s s' w caller) (admin : s.IsAdmin caller w.uuid) {α : Type} {message : String}
    {f : WorkspaceMember → Service α} {Q : Except Err α → Tables → Prop} (rejected : ∀ r s', Unchanged s r s' → Q r s')
    (next : ∀ m s'', Guarded s s'' w caller → s.governed? caller w u = some m →
      (system out).Ends (f m) s'' Q) :
    (system out).Ends (do
      let workspace ← WorkspacesService.findByIdOrFail w
      if workspace.ownerId.text = u then .throw (.forbidden message)
      else do
        let membership ← perform (.db (.findMember w.uuid u.uuid))
        match membership with
        | none => .throw (.notFound "Member not found")
        | some membership => f membership : Service α) s' Q := by
  rw [Prog.bind_eq]
  refine System.Ends.bind (findByIdOrFail_ends hg) ?_ fun e s₁ h => rejected _ _ (h.1.unchanged e)
  rintro x s₁ ⟨hg, hx⟩
  have hx := hx x rfl
  split
  · exact System.Ends.throw (rejected _ _ (hg.unchanged _))
  · next howner =>
    refine System.Ends.bind (findMember_ends hg) ?_ fun e s₂ h => rejected _ _ (h.1.unchanged e)
    rintro membership s₂ ⟨hg, hres⟩
    cases hres
    cases hm : s.db.member? w.uuid u.uuid with
    | none => exact System.Ends.throw (rejected _ _ (hg.unchanged _))
    | some m =>
      refine next m s₂ hg ?_
      rw [Tables.governed?, if_pos admin, hx]
      simp only [howner, ↓reduceIte, hm]

theorem governed_mem {m : WorkspaceMember} (h : s.governed? caller w u = some m) :
    m ∈ s.db.members ∧ m.workspaceId = w.uuid ∧ m.userId = u.uuid ∧ s.IsAdmin caller w.uuid := by
  rw [Tables.governed?] at h
  split at h
  · next hadmin =>
    split at h
    · split at h
      · cases h
      · obtain ⟨hmem, hw, hu⟩ := member?_some h
        exact ⟨hmem, hw, hu, hadmin⟩
    · cases h
  · cases h

/-- The deletion of the key at the end. -/
theorem Governed.del {s₁ : Tables} {m : WorkspaceMember} {rows : List WorkspaceMember} (hg : Guarded s s₁ w caller)
    (governed : s.governed? caller w u = some m) (grown : Grown s₁ s') (workspaces : s'.db.workspaces = s₁.db.workspaces)
    (members : s'.db.members = rows) (invitations : s'.db.invitations = s₁.db.invitations)
    (cache : s'.cache = s₁.cache.filter (·.1 ≠ ⟨w, u⟩)) : Governed s s' caller w u m rows := by
  refine ⟨governed, hg.grown.trans grown, workspaces.trans hg.workspaces, members, invitations.trans hg.invitations,
    fun e he => ?_⟩
  rw [cache] at he
  obtain ⟨he, hne⟩ := List.mem_filter.mp he
  exact ⟨of_decide_eq_true hne, hg.cache e he⟩

theorem updateMemberRole_ends (hg : Guarded s s' w caller) (admin : s.IsAdmin caller w.uuid) (role : WorkspaceRole) :
    (system out).Ends (WorkspacesService.updateMemberRole w u role) s' fun result s'' =>
      Unchanged s result s'' ∨ ∃ m, result = .ok { m with role := role } ∧
        Governed s s'' caller w u m (Table.replace WorkspaceMember.id { m with role := role } s.db.members) := by
  rw [WorkspacesService.updateMemberRole_eq]
  refine governed_ends hg admin (fun _ _ h => Or.inl h) fun m s₁ hg hm => ?_
  have hsave : ∀ e, (system out).handler e (.db (.saveMember { m with role := role })) s₁ = (.ok { m with role := role },
      { s₁.spend e with db := { s₁.db.spend e with
        members := Table.replace WorkspaceMember.id { m with role := role } s.db.members } }) := by
    intro e
    have hhas : Table.has WorkspaceMember.id m.id s.db.members = true :=
      Table.has_iff.mpr ⟨m, (governed_mem hm).1, rfl⟩
    simp only [System.handler, system, exec, Workspaces.exec, Workspaces.Tables.saveMember, Tables.spend,
      Workspaces.Tables.spend, hhas, ↓reduceIte, hg.members, Except.map, Workspaces.Tables.commit]
  rw [Prog.bind_eq]
  refine System.Ends.bind (Q := fun result s'' => result = .ok { m with role := role } ∧
    ∃ e, s'' = { s₁.spend e with db := { s₁.db.spend e with
      members := Table.replace WorkspaceMember.id { m with role := role } s.db.members } })
    (System.Ends.perform fun e _ => ?_) ?_ ?_
  · rw [hsave]
    exact ⟨rfl, e, rfl⟩
  · rintro saved s₂ ⟨hres, e, rfl⟩
    cases hres
    refine System.Ends.bind (Q := fun result s'' => result = .ok () ∧
      Governed s s'' caller w u m (Table.replace WorkspaceMember.id { m with role := role } s.db.members))
      (System.Ends.perform fun e' _ => ⟨rfl, Governed.del hg hm (((SameRows.refl s₁).grown.spend e).spend e') rfl rfl rfl rfl⟩) ?_ ?_
    · rintro - s₃ ⟨-, h⟩
      exact System.Ends.ret (Or.inr ⟨m, rfl, h⟩)
    · rintro e s₃ ⟨hres, -⟩
      cases hres
  · rintro e s₂ ⟨hres, -⟩
    cases hres

theorem removeMember_ends (hg : Guarded s s' w caller) (admin : s.IsAdmin caller w.uuid) :
    (system out).Ends (WorkspacesService.removeMember w u) s' fun result s'' =>
      Unchanged s result s'' ∨ ∃ m, result = .ok () ∧
        Governed s s'' caller w u m (s.db.members.filter (·.id != m.id)) := by
  rw [WorkspacesService.removeMember_eq]
  refine governed_ends hg admin (fun _ _ h => Or.inl h) fun m s₁ hg hm => ?_
  rw [Prog.bind_eq]
  refine System.Ends.bind (Q := fun result s'' => result = .ok () ∧
    ∃ e, s'' = { s₁.spend e with db := { s₁.db.spend e with members := s.db.members.filter (·.id != m.id) } })
    (System.Ends.perform fun e _ => ⟨rfl, e, ?_⟩) ?_ ?_
  · rw [← hg.members]
    rfl
  · rintro - s₂ ⟨-, e, rfl⟩
    exact System.Ends.perform fun e' _ => Or.inr ⟨m, rfl, Governed.del hg hm (((SameRows.refl s₁).grown.spend e).spend e') rfl rfl rfl rfl⟩
  · rintro e s₂ ⟨hres, -⟩
    cases hres

/-! ### New workspaces and invitations -/

/-- A write that is not rejected. -/
theorem commit_cases {α : Type} (s : Tables) (a : α) (r : Except Err Workspaces.Tables) :
    (∃ db, r = .ok db ∧ s.commit a r = (.ok a, { s with db })) ∨ ∃ e, s.commit a r = (.error e, s) := by
  cases r with
  | ok db => exact Or.inl ⟨db, rfl, rfl⟩
  | error e => exact Or.inr ⟨e, rfl⟩

theorem commitCreate_ok {t t' : Workspaces.Tables} {env : Env} {x : Workspace} {n : NewMember}
    (h : Tables.commitCreate out t env x n = .ok t') :
    t' = { t with workspaces := t.workspaces ++ [x], members := t.members ++ [n.toRow env] } ∧
      t.member? n.workspaceId n.userId = none := by
  rw [Tables.commitCreate] at h
  split at h
  · cases h
  · split at h
    · cases h
    · exact Workspaces.Tables.insertMember_ok h

theorem create_ends (hk : Kept s s') {dto : CreateWorkspaceDto} :
    (system out).Ends (WorkspacesService.create out caller dto) s' fun result s'' =>
      Unchanged s result s'' ∨ ∃ x m, result = .ok x ∧ Created s s'' caller x m := by
  rw [WorkspacesService.create, Prog.bind_eq]
  refine System.Ends.bind (Q := fun _ s'' => Kept s s'') (System.Ends.perform fun e _ => hk.spend e) ?_
    fun e s₁ hk => Or.inl (hk.unchanged e)
  intro count s₁ hk
  split
  · exact System.Ends.throw (Or.inl (hk.unchanged _))
  · refine System.Ends.bind (Q := fun result s'' => Kept s s'' ∧ ∀ x, result = .ok x → x.ownerId = caller)
      (System.Ends.perform fun e _ => ⟨hk.spend e, ?_⟩) ?_ fun e s₂ h => Or.inl (h.1.unchanged e)
    · rintro x hx
      exact congrArg Workspace.ownerId (insertWorkspace_ok out hx)
    · rintro x s₂ ⟨hk, howner⟩
      refine System.Ends.bind (Q := fun result s'' => Unchanged s result s'' ∨ result = .ok () ∧ ∃ m, Created s s'' caller x m)
        (System.Ends.perform fun e he => ?_) ?_ ?_
      · simp only [System.handler, system, exec]
        rcases commit_cases (s₂.spend e) () (Tables.commitCreate out (s₂.spend e).db e x ⟨x.id, caller, .ADMIN⟩) with
          ⟨db, hdb, heq⟩ | ⟨err, heq⟩
        · rw [heq]
          obtain ⟨rfl, hnone⟩ := commitCreate_ok hdb
          refine Or.inr ⟨rfl, NewMember.toRow ⟨x.id, caller, .ADMIN⟩ e, howner x rfl, ⟨rfl, rfl, rfl⟩, ?_,
            hk.new_id he, hk.grown.spend e, ?_, ?_, hk.invitations, hk.cache⟩
          · simpa only [Tables.spend, Workspaces.Tables.spend, Workspaces.Tables.member?, hk.members] using hnone
          · exact congrArg (· ++ [x]) hk.workspaces
          · exact congrArg (· ++ [_]) hk.members
        · rw [heq]
          exact Or.inl ((hk.spend e).unchanged err)
      · rintro _ s₃ (h | ⟨-, m, hm⟩)
        · exact (not_unchanged h).elim
        · exact System.Ends.ret (Or.inr ⟨x, m, rfl, hm⟩)
      · rintro e s₃ (h | ⟨he, -⟩)
        · exact Or.inl (h.kept.unchanged e)
        · cases he

theorem insertInvitation_ok {t t' : Workspaces.Tables} {inv : WorkspaceInvitation}
    (h : Tables.insertInvitation out t inv = .ok t') : t' = { t with invitations := t.invitations ++ [inv] } := by
  rw [Tables.insertInvitation] at h
  split at h
  · cases h
  · split at h
    · cases h
    · split at h
      · cases h
      · split at h
        · cases h
        · exact (Except.ok.inj h).symm

variable (out s) in
/-- No call generates values by itself. -/
theorem exec_generated (env : Env) (c : Call) : (exec out env c s).2.db.generated = s.db.generated := by
  cases c with
  | db c => exact Workspaces.exec_generated
  | countSlug | insertWorkspace | workspacesOf | membersOf | cacheGet | cacheSet | cacheDel | findUserByEmail | findPending
  | invitationsOf | findInvitation => rfl
  | insertInvitation n =>
    simp only [exec]
    cases h : Tables.insertInvitation out s.db (n.toRow env) with
    | error e => rfl
    | ok t =>
      obtain rfl := insertInvitation_ok h
      rfl
  | commitCreate w n =>
    simp only [exec]
    cases h : Tables.commitCreate out s.db env w n with
    | error e => rfl
    | ok t =>
      obtain ⟨rfl, -⟩ := commitCreate_ok h
      rfl

theorem issue_ends (hg : Guarded s s' w caller) (admin : s.IsAdmin caller w.uuid) {dto : CreateInvitationDto} :
    (system out).Ends (InvitationsService.invite.issue w caller dto) s' fun result s'' =>
      Unchanged s result s'' ∨ ∃ inv, result = .ok inv ∧ Invited s s'' caller w inv := by
  rw [InvitationsService.invite.issue, Prog.bind_eq]
  refine System.Ends.bind (Q := fun _ s'' => Guarded s s'' w caller) (System.Ends.perform fun e _ => hg.spend e) ?_
    fun e s₁ hg => Or.inl (hg.unchanged e)
  intro pending s₁ hg
  cases pending with
  | some _ => exact System.Ends.throw (Or.inl (hg.unchanged _))
  | none =>
    refine System.Ends.ask fun e => System.Ends.ask fun e' => System.Ends.perform fun e'' he => ?_
    simp only [System.handler, system, exec]
    generalize hn : NewInvitation.toRow _ e'' = inv
    rcases commit_cases (s₁.spend e'') inv (Tables.insertInvitation out (s₁.spend e'').db inv) with
      ⟨db, hdb, heq⟩ | ⟨err, heq⟩
    · rw [heq]
      obtain rfl := insertInvitation_ok hdb
      refine Or.inr ⟨inv, rfl, admin, ?_, ?_, hg.grown.spend e'', hg.workspaces, hg.members, ?_, hg.kept.cache⟩
      · rw [← hn]
        rfl
      · rw [← hn]
        rfl
      · exact congrArg (· ++ [inv]) hg.invitations
    · rw [heq]
      exact Or.inl ((hg.spend e'').unchanged err)

theorem invite_ends (hg : Guarded s s' w caller) (admin : s.IsAdmin caller w.uuid) {dto : CreateInvitationDto} :
    (system out).Ends (InvitationsService.invite w caller dto) s' fun result s'' =>
      Unchanged s result s'' ∨ ∃ inv, result = .ok inv ∧ Invited s s'' caller w inv := by
  rw [InvitationsService.invite, Prog.bind_eq]
  refine System.Ends.bind (Q := fun _ s'' => Guarded s s'' w caller) (System.Ends.perform fun e _ => hg.spend e) ?_
    fun e s₁ hg => Or.inl (hg.unchanged e)
  intro existingUser s₁ hg
  cases existingUser with
  | none => exact issue_ends hg admin
  | some v =>
    refine System.Ends.bind (findMember_ends hg) ?_ fun e s₂ h => Or.inl (h.1.unchanged e)
    rintro membership s₂ ⟨hg, -⟩
    cases membership with
    | some _ => exact System.Ends.throw (Or.inl (hg.unchanged _))
    | none => exact issue_ends hg admin

/-! ### Decisions on an invitation -/

/-- The save of an invitation that is in the table. -/
theorem saveInvitation_mem {t : Workspaces.Tables} {inv : WorkspaceInvitation} (mem : inv ∈ t.invitations)
    (status : InvitationStatus) : t.saveInvitation { inv with status := status } =
      .ok { t with invitations := Table.replace WorkspaceInvitation.id { inv with status := status } t.invitations } :=
  if_pos (Table.has_iff.mpr ⟨inv, mem, rfl⟩)

theorem saveInvitation_handled {env : Env} {inv : WorkspaceInvitation} (mem : inv ∈ s.db.invitations)
    (status : InvitationStatus) : (system out).handler env (.db (.saveInvitation { inv with status := status })) s =
      (.ok (), { s.spend env with db := { s.db.spend env with
        invitations := Table.replace WorkspaceInvitation.id { inv with status := status } s.db.invitations } }) := by
  have hsave := saveInvitation_mem (t := (s.spend env).db) mem status
  simp only [System.handler, system, exec, Workspaces.exec, hsave, Except.map, Workspaces.Tables.commit]
  rfl

theorem revoke_ends (hg : Guarded s s' w caller) :
    (system out).Ends (InvitationsService.revoke w u) s' fun result s'' =>
      Unchanged s result s'' ∨ result = .ok () ∧ ∃ inv, Decided s s'' inv .REVOKED := by
  rw [InvitationsService.revoke, Prog.bind_eq]
  refine System.Ends.bind (Q := fun result s'' => Guarded s s'' w caller ∧ ∀ inv, result = .ok (some inv) →
    inv ∈ s.db.invitations) (System.Ends.perform fun e _ => ⟨hg.spend e, fun inv hinv => ?_⟩) ?_
    fun e s₁ h => Or.inl (h.1.unchanged e)
  · rw [← hg.invitations]
    exact List.mem_of_find?_eq_some (Except.ok.inj hinv)
  · rintro found s₁ ⟨hg, hmem⟩
    cases found with
    | none => exact System.Ends.throw (Or.inl (hg.unchanged _))
    | some inv =>
      have hmem := hmem inv rfl
      simp only
      split
      · exact System.Ends.throw (Or.inl (hg.unchanged _))
      · refine System.Ends.perform fun e _ => ?_
        rw [saveInvitation_handled (hg.invitations ▸ hmem)]
        refine Or.inr ⟨rfl, inv, hmem, hg.grown.spend e, hg.workspaces, hg.members, ?_, hg.kept.cache⟩
        exact congrArg (Table.replace WorkspaceInvitation.id _) hg.invitations

/-- The transaction of `accept` for one who is no member yet. -/
theorem commitAccept_some {t t' : Workspaces.Tables} {env : Env} {n : NewMember} {inv : WorkspaceInvitation}
    (mem : inv ∈ t.invitations) {status : InvitationStatus} {a : Option WorkspaceMember}
    (h : t.commitAccept env (some n) { inv with status := status } = .ok (a, t')) :
    a = some (n.toRow env) ∧ t.member? n.workspaceId n.userId = none ∧
      t' = { t with members := t.members ++ [n.toRow env]
                    invitations := Table.replace WorkspaceInvitation.id { inv with status := status } t.invitations } := by
  obtain ⟨t₁, ht₁, h⟩ := ok_of_bind h
  obtain ⟨t₂, ht₂, h⟩ := ok_of_bind h
  obtain ⟨rfl, hnone⟩ := Workspaces.Tables.insertMember_ok ht₁
  rw [saveInvitation_mem (t := { t with members := t.members ++ [n.toRow env] }) mem status] at ht₂
  cases ht₂
  cases h
  exact ⟨rfl, hnone, rfl⟩

/-- The transaction of `accept` for a member. -/
theorem commitAccept_handled {env : Env} {inv : WorkspaceInvitation} (mem : inv ∈ s.db.invitations)
    (status : InvitationStatus) : (system out).handler env (.db (.commitAccept none { inv with status := status })) s =
      (.ok none, { s.spend env with db := { s.db.spend env with
        invitations := Table.replace WorkspaceInvitation.id { inv with status := status } s.db.invitations } }) := by
  have hsave := saveInvitation_mem (t := (s.spend env).db) mem status
  simp only [System.handler, system, exec, Workspaces.exec, Workspaces.Tables.commitAccept, hsave, Except.map,
    Workspaces.Tables.commit]
  rfl

/-- How `accept` ends. -/
def Accepting (out : Outside) (s : Tables) (u : Uuid) (token : String) (now : Date)
    (result : Except Err (Option WorkspaceMember)) (s' : Tables) : Prop :=
  Unchanged s result s' ∨ (∃ e inv, result = .error e ∧ Decided s s' inv .EXPIRED) ∨
    (∃ m inv, result = .ok (some m) ∧ m ∈ s.db.members ∧ Decided s s' inv .ACCEPTED) ∨
    ∃ m inv, result = .ok (some m) ∧ inv.token = token ∧ Joined out s s' u now inv m

variable (out caller) in
theorem accept_ends (hk : Kept s s') (token : String) (env : Nat → Env)
    (admitted : (InvitationsService.accept out caller (out.email caller) token).Admitted (system out).handler
      (fun s e => (system out).admits s e = true) env s') :
    Accepting out s caller token (env 1).now
      ((InvitationsService.accept out caller (out.email caller) token).run (system out).handler env s').1
      ((InvitationsService.accept out caller (out.email caller) token).run (system out).handler env s').2 := by
  rw [InvitationsService.accept, Workspaces.InvitationsService.accept, Prog.bind_eq, lift_bind, lift_perform rfl, perform]
    at admitted ⊢
  have hfind : (system out).handler (env 1) (.db (.findInvitation token)) s' =
      (.ok (s.db.invitations.find? (·.token == token)), s'.spend (env 1)) := by
    simp only [System.handler, system, exec, Workspaces.exec, Tables.spend, Workspaces.Tables.spend, hk.invitations]
  have hk₁ := hk.spend (env 1)
  rw [Prog.run_perform_ok (I := interface) env hfind]
  replace admitted := ((Prog.admitted_perform_ok (I := interface) env hfind).mp admitted).2
  cases hinv : s.db.invitations.find? (·.token == token) with
  | none => exact Or.inl (hk₁.unchanged _)
  | some inv =>
    have hmem := List.mem_of_find?_eq_some hinv
    have htoken : inv.token = token := by simpa using List.find?_some hinv
    simp only
    split
    · exact Or.inl (hk₁.unchanged _)
    · next hpending =>
      have hpending : inv.status = .PENDING := not_not.mp hpending
      simp only [hinv, if_neg (not_not.mpr hpending), Prog.bind_eq, Prog.read_bind, lift_ask, Prog.run_ask, Prog.admitted_ask,
        Nat.zero_add] at admitted ⊢
      generalize (env 1).now = now at admitted ⊢
      generalize s'.spend (env 1) = s₁ at hk₁ admitted ⊢
      have hmem₁ : inv ∈ s₁.db.invitations := hk₁.invitations ▸ hmem
      refine (show (system out).Ends _ s₁ (Accepting out s caller token now) from ?_) _ admitted
      split
      · -- The row is set to `EXPIRED` before the error.
        rw [lift_bind, lift_perform rfl]
        refine System.Ends.bind (Q := fun result s'' => result = .ok () ∧ Decided s s'' inv .EXPIRED)
          (System.Ends.perform fun e _ => ?_) ?_ ?_
        · rw [saveInvitation_handled hmem₁]
          refine ⟨rfl, hmem, hk₁.grown.spend e, hk₁.workspaces, hk₁.members, ?_, hk₁.cache⟩
          exact congrArg (Table.replace WorkspaceInvitation.id _) hk₁.invitations
        · rintro _ s₂ ⟨-, h⟩
          exact System.Ends.throw (Or.inr (Or.inl ⟨_, inv, rfl, h⟩))
        · rintro e s₂ ⟨he, -⟩
          cases he
      · next hexp =>
        split
        · exact System.Ends.throw (Or.inl (hk₁.unchanged _))
        · next haddr =>
          rw [lift_bind, lift_perform rfl]
          refine System.Ends.bind (Q := fun result s'' => Kept s s'' ∧
            result = .ok (s.db.member? inv.workspaceId caller)) (System.Ends.perform fun e _ => ⟨hk₁.spend e, ?_⟩) ?_ ?_
          · simp only [System.handler, system, exec, Workspaces.exec, Workspaces.Tables.member?, Tables.spend,
              Workspaces.Tables.spend, hk₁.members]
          · rintro membership s₂ ⟨hk₂, hres⟩
            cases hres
            have hmem₂ : inv ∈ s₂.db.invitations := hk₂.invitations ▸ hmem
            cases hm : s.db.member? inv.workspaceId caller with
            | some m =>
              simp only
              rw [lift_bind, lift_perform rfl]
              refine System.Ends.bind (Q := fun result s'' => result.isOk = true ∧ Decided s s'' inv .ACCEPTED)
                (System.Ends.perform fun e _ => ?_) ?_ ?_
              · rw [commitAccept_handled hmem₂]
                refine ⟨rfl, hmem, hk₂.grown.spend e, hk₂.workspaces, hk₂.members, ?_, hk₂.cache⟩
                exact congrArg (Table.replace WorkspaceInvitation.id _) hk₂.invitations
              · rintro _ s₃ ⟨-, h⟩
                exact System.Ends.ret (Or.inr (Or.inr (Or.inl ⟨m, inv, rfl, (member?_some hm).1, h⟩)))
              · rintro e s₃ ⟨he, -⟩
                cases he
            | none =>
              simp only
              rw [lift_perform rfl]
              refine System.Ends.perform fun e he => ?_
              rcases Workspaces.Tables.commit_cases (s₂.spend e).db ((s₂.spend e).db.commitAccept e
                (some ⟨inv.workspaceId, caller, inv.role⟩) { inv with status := .ACCEPTED }) with
                ⟨a, db, hdb, heq⟩ | ⟨err, -, heq⟩
              · obtain ⟨rfl, -, rfl⟩ := commitAccept_some (t := (s₂.spend e).db) hmem₂ hdb
                simp only [System.handler, system, exec, Workspaces.exec, heq]
                refine Or.inr (Or.inr (Or.inr ⟨_, inv, rfl, htoken, hmem, hpending, Int.not_lt.mp hexp, not_not.mp haddr,
                  hm, hk₂.new_id he, hk₂.grown.spend e, ⟨rfl, rfl, rfl⟩, hk₂.workspaces, ?_, ?_, hk₂.cache⟩))
                · exact congrArg (· ++ [_]) hk₂.members
                · exact congrArg (Table.replace WorkspaceInvitation.id _) hk₂.invitations
              · simp only [System.handler, system, exec, Workspaces.exec, heq]
                exact Or.inl ((hk₂.spend e).unchanged err)
          · rintro e s₂ ⟨-, he⟩
            cases he

/-! ### Requests -/

/-- A request of an administrator, past its guards. -/
theorem admin_request (coherent : s.Coherent) (env : Env) {α : Type} {p : Service α} {f : α → Response}
    {Q : Except Err Response → Tables → Prop} (rejected : ∀ e s', Kept s s' → Q (.error e) s')
    (next : ∀ s', Guarded s s' w caller → s.IsAdmin caller w.uuid →
      (system out).Ends p s' fun result s'' => Q (result.map f) s'') :
    (system out).Ends (do
      adminOnly w caller
      return f (← p) : Service Response) (s.spend env) Q := by
  rw [Prog.bind_eq]
  refine System.Ends.bind (adminOnly_ends (s := s.spend env) coherent) ?_ fun e s₁ h => rejected e s₁ h.1.of_spend.kept
  rintro _ s₁ ⟨hg, hadmin⟩
  exact System.Ends.bind (next s₁ hg.of_spend (hadmin rfl)) (fun a s₂ h => System.Ends.ret h) fun e s₂ h => h

/-- A request of a member for what is in the tables. -/
theorem member_request (coherent : s.Coherent) (env : Env) {α : Type} {p : Service α} {f : α → Response}
    {Q : Except Err Response → Tables → Prop} (kept : ∀ r s', Kept s s' → Q r s')
    (next : ∀ s', Guarded s s' w caller → (system out).Ends p s' fun _ s'' => Kept s s'') :
    (system out).Ends (do
      let _ ← WorkspaceMemberGuard.canActivate w caller
      return f (← p) : Service Response) (s.spend env) Q := by
  rw [Prog.bind_eq]
  refine System.Ends.bind (canActivate_ends (s := s.spend env) coherent) ?_ fun e s₁ h => kept _ s₁ h.1.of_spend.kept
  rintro _ s₁ ⟨hg, -⟩
  exact System.Ends.bind (next s₁ hg.of_spend) (fun a s₂ h => System.Ends.ret (kept _ _ h)) fun e s₂ h => kept _ _ h

theorem Kept.of_spend (s : Tables) (env : Env) : Kept s (s.spend env) :=
  ⟨(SameRows.refl s).spend env, fun _ he => Or.inl he⟩

/-- What a request does, served alone while the cache agrees with the table. -/
theorem serve_effect (coherent : s.Coherent) {r : Request} {env : Nat → Env} (served : (system out).Serves r env s) :
    Effect out s (env 1).now r ((system out).serve r env s).1 ((system out).serve r env s).2 := by
  have hk : Kept s (s.spend (env 0)) := .of_spend s (env 0)
  have herror : ∀ {op : Operation} {e : Err} {s' : Tables}, Kept s s' →
      Effect out s (env 1).now ⟨r.userId, op⟩ (.error e) s' := fun {op} _ _ h => .reads (by cases op <;> exact id) h
  obtain ⟨caller, op⟩ := r
  cases op with
  | create dto =>
    refine (show (system out).Ends _ _ (Effect out s _ _) from ?_) _ served.2
    refine System.Ends.bind (create_ends hk) ?_ ?_
    · rintro x s₁ (h | ⟨x', m, hx, h⟩)
      · exact (not_unchanged h).elim
      · cases hx
        exact System.Ends.ret (.created h)
    · rintro e s₁ (h | ⟨x', m, hx, h⟩)
      · exact herror h.kept
      · cases hx
  | listMine =>
    refine (show (system out).Ends _ _ (Effect out s _ _) from ?_) _ served.2
    refine System.Ends.bind (Q := fun _ s' => Kept s s') (System.Ends.perform fun e _ => hk.spend e) ?_ ?_
    · exact fun ws s₁ h => System.Ends.ret (.reads id h)
    · exact fun e s₁ h => herror h
  | get w =>
    refine member_request coherent (env 0) (fun r s' h => .reads (by cases r <;> exact id) h) (fun s' hg => ?_) _ served.2
    exact (findByIdOrFail_ends hg).mono fun _ _ h => h.1.kept
  | members w =>
    refine member_request coherent (env 0) (fun r s' h => .reads (by cases r <;> exact id) h) (fun s' hg => ?_) _ served.2
    exact System.Ends.perform fun e _ => (hg.spend e).kept
  | updateRole w u role =>
    refine admin_request coherent (env 0) (fun _ _ => herror) (fun s' hg hadmin => ?_) _ served.2
    refine (updateMemberRole_ends hg hadmin role).mono ?_
    rintro result s₁ (⟨e, rfl, hk⟩ | ⟨m, rfl, h⟩)
    · exact herror hk
    · exact .roleSet h
  | removeMember w u =>
    refine admin_request coherent (env 0) (fun _ _ => herror) (fun s' hg hadmin => ?_) _ served.2
    refine (removeMember_ends hg hadmin).mono ?_
    rintro result s₁ (⟨e, rfl, hk⟩ | ⟨m, rfl, h⟩)
    · exact herror hk
    · exact .removed h
  | invite w dto =>
    refine admin_request coherent (env 0) (fun _ _ => herror) (fun s' hg hadmin => ?_) _ served.2
    refine (invite_ends hg hadmin).mono ?_
    rintro result s₁ (⟨e, rfl, hk⟩ | ⟨inv, rfl, h⟩)
    · exact herror hk
    · exact .invited h
  | listInvitations w =>
    refine admin_request coherent (env 0) (fun _ _ => herror) (fun s' hg _ => ?_) _ served.2
    exact System.Ends.perform fun e _ => .reads id (hg.spend e).kept
  | revoke w id =>
    refine admin_request coherent (env 0) (fun _ _ => herror) (fun s' hg _ => ?_) _ served.2
    refine (revoke_ends hg).mono ?_
    rintro result s₁ (⟨e, rfl, hk⟩ | ⟨rfl, inv, h⟩)
    · exact herror hk
    · exact .revoked h
  | accept token =>
    have haccept := accept_ends out caller hk token env (Prog.run_bind _ _ _ _ served.2).1
    have hserve : (system out).serve ⟨caller, .accept token⟩ env s =
        ((InvitationsService.accept out caller (out.email caller) token).bind fun a => .ret (.accepted a)).run
          (system out).handler env (s.spend (env 0)) := rfl
    rw [hserve, Prog.run_map, Prog.run_map_result]
    revert haccept
    generalize (InvitationsService.accept out caller (out.email caller) token).run (system out).handler env
      (s.spend (env 0)) = answer
    rintro (⟨e, he, h⟩ | ⟨e, inv, he, h⟩ | ⟨m, inv, he, hmem, h⟩ | ⟨m, inv, he, htoken, h⟩)
    · rw [he]
      exact herror h
    · rw [he]
      exact .expired h
    · rw [he]
      exact .again hmem h
    · rw [he]
      exact .joined htoken h

end
end TaskPlatform.Access

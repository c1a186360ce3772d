import TaskPlatform.Access.Owners
import TaskPlatform.Platform.Fitting

/-! Whom the guards let pass, in every run of the platform: a request is served in a workspace for somebody who has
    held a role there that the route asks for, and memberships change by the will of admins and of who is invited. -/

namespace TaskPlatform.Platform
open Effects Workspaces

/-! ### Grants -/

/-- What makes somebody a member: a role that is held by a row of the memberships, and an invitation that is issued. -/
inductive Grant where
  | held (id workspaceId userId : Uuid) (role : WorkspaceRole)
  | issued (token : String) (workspaceId invitedBy : Uuid) (role : WorkspaceRole)

def Grant.ofMember (m : WorkspaceMember) : Grant := .held m.id m.workspaceId m.userId m.role

def Grant.ofInvitation (inv : WorkspaceInvitation) : Grant := .issued inv.token inv.workspaceId inv.invitedBy inv.role

abbrev Grants := Set Grant

/-- The grants that there are rows for. -/
def Tables.grants (s : Tables) : Grants :=
  {g | (∃ m ∈ s.db.members, g = .ofMember m) ∨ ∃ inv ∈ s.db.invitations, g = .ofInvitation inv}

/-- The user has held the role in the workspace. -/
def Grants.Held (k : Grants) (w u : Uuid) (role : WorkspaceRole) : Prop := ∃ id, .held id w u role ∈ k

/-! ### Routes -/

/-- The workspace of a route, and the roles that `@Roles(...)` asks for. Some routes are in no workspace. -/
def Access.route : Access.Operation → Option (UuidText × List WorkspaceRole)
  | .create _ | .listMine | .accept _ => none
  | .get w | .members w => some (w, [])
  | .updateRole w _ _ | .removeMember w _ | .invite w _ | .listInvitations w | .revoke w _ => some (w, [.ADMIN])

/-- Who asks, in which workspace, and for which roles. -/
def Request.route : Request → Option (Uuid × UuidText × List WorkspaceRole)
  | .access _ r => (Access.route r.operation).map fun x => (r.userId, x)
  | .board _ u r => some (u, r.workspaceId, Operation.roles r.operation)
  | _ => none

/-- The user of the request has held a role that its route asks for. -/
def Grants.Admits (k : Grants) (r : Request) : Prop :=
  ∀ u w roles, r.route = some (u, w, roles) → ∃ role, k.Held w.uuid u role ∧ (roles = [] ∨ role ∈ roles)

/-! ### The contract -/

/-- The call looks a membership up, or keeps one that was found. -/
def Call.LooksUp : Call → Prop
  | .access _ (.db (.findMember _ _)) | .access _ (.cacheGet _) | .access _ (.cacheSet _ _) => True
  | _ => False

/-- What warrants a write of a request to memberships and invitations, and to the cache. -/
def Grants.warrants (k : Grants) (r : Request) : Access.Call → Prop
  | .cacheSet key m => k.Held key.workspaceId.uuid key.userId.uuid m.role
  | .db (.saveMember m) => ∃ p u w v role, r = .access p ⟨u, .updateRole w v role⟩ ∧ m.workspaceId = w.uuid ∧
      m.userId = v.uuid ∧ m.role = role ∧ ∃ old, .held m.id w.uuid v.uuid old ∈ k
  | .db (.removeMember m) => ∃ p u w v, r = .access p ⟨u, .removeMember w v⟩ ∧ ∃ old, .held m.id w.uuid v.uuid old ∈ k
  | .db (.commitAccept new inv) => .ofInvitation inv ∈ k ∧ ∃ p u, r = .access p ⟨u, .accept inv.token⟩ ∧
      ∀ n ∈ new, n = ⟨inv.workspaceId, u, inv.role⟩
  | .db (.saveInvitation inv) => .ofInvitation inv ∈ k
  | .insertInvitation n => ∃ p w dto, r = .access p ⟨n.invitedBy, .invite w dto⟩ ∧ n.workspaceId.uuid = w.uuid
  | .commitCreate w n => ∃ p dto, r = .access p ⟨w.ownerId, .create dto⟩ ∧ n = ⟨w.id, w.ownerId, .ADMIN⟩
  | _ => True

/-- What a request has made sure of before it makes a call: its user is admitted, unless the call is to find out. -/
def Grants.allows (k : Grants) (r : Request) (c : Call) : Prop :=
  (c.LooksUp ∨ k.Admits r) ∧ ∀ p a, c = .access p a → k.warrants r a

def Grants.tells (k : Grants) : (c : Call) → c.Reply → Prop
  | .access _ (.db (.findMember w u)), some m => m.workspaceId = w ∧ m.userId = u ∧ .ofMember m ∈ k
  | .access _ (.cacheGet key), some m => k.Held key.workspaceId.uuid key.userId.uuid m.role
  | .access _ (.db (.findInvitation token)), some inv => inv.token = token ∧ .ofInvitation inv ∈ k
  | .access _ (.findInvitation _ _), some inv => .ofInvitation inv ∈ k
  | .access _ (.insertWorkspace n), w => w.ownerId = n.ownerId
  | _, _ => True

section
variable {k k' : Grants} {r : Request} {w u : Uuid} {role : WorkspaceRole}

theorem Grants.Held.grow (h : k.Held w u role) (hk : k ≤ k') : k'.Held w u role :=
  let ⟨id, hid⟩ := h
  ⟨id, hk hid⟩

theorem Grants.Admits.grow (h : k.Admits r) (hk : k ≤ k') : k'.Admits r := fun u w roles hroute =>
  let ⟨role, hheld, hrole⟩ := h u w roles hroute
  ⟨role, hheld.grow hk, hrole⟩

theorem Grants.warrants_grow {c : Access.Call} (h : k.warrants r c) (hk : k ≤ k') : k'.warrants r c := by
  cases c with
  | cacheSet key m => exact Grants.Held.grow h hk
  | db c =>
    cases c with
    | saveMember m =>
      obtain ⟨p, u, w, v, role, hr, hw, hv, hrole, old, hold⟩ := h
      exact ⟨p, u, w, v, role, hr, hw, hv, hrole, old, hk hold⟩
    | removeMember m =>
      obtain ⟨p, u, w, v, hr, old, hold⟩ := h
      exact ⟨p, u, w, v, hr, old, hk hold⟩
    | commitAccept new inv => exact ⟨hk h.1, h.2⟩
    | saveInvitation inv => exact hk h
    | _ => trivial
  | insertInvitation | commitCreate => exact h
  | _ => trivial

end

/-- The contract of a request with the tables of the workspaces. -/
def permitting (r : Request) : Contract interface Grants where
  pre k := k.allows r
  post := Grants.tells
  alike _ _ _ := False
  grows hk h := ⟨h.1.imp_right fun hadmits => hadmits.grow hk, fun p a hc => Grants.warrants_grow (h.2 p a hc) hk⟩

/-- What is known fits the tables: their rows are known, what is cached has been held, a row is for one user in one
    workspace, and every invitation is by an admin. -/
structure Grants.Fits (k : Grants) (s : Tables) : Prop where
  shown : s.grants ⊆ k
  spent : ∀ {id w u role}, .held id w u role ∈ k → id ∈ s.db.generated.uuids
  one : ∀ {id w u role w' u' role'}, .held id w u role ∈ k → .held id w' u' role' ∈ k → w' = w ∧ u' = u
  cached : ∀ p, ∀ e ∈ s.caches p, k.Held e.1.workspaceId.uuid e.1.userId.uuid e.2.role
  inviter : ∀ {token w u role}, .issued token w u role ∈ k → k.Held w u .ADMIN

/-! ### What a call leaves -/

/-- The member that a call inserts. -/
def newMember? : Access.Call → Option NewMember
  | .commitCreate _ n => some n
  | .db (.commitAccept new _) => new
  | _ => none

section
variable {out : Access.Outside} {pg : Postgres} {k : Grants} {s s' : Tables} {env : Env} {r : Request} {m : WorkspaceMember}
  {inv : WorkspaceInvitation}

theorem Grants.Fits.member (h : k.Fits s) (hm : m ∈ s.db.members) : .ofMember m ∈ k := h.shown (Or.inl ⟨m, hm, rfl⟩)

theorem Grants.Fits.invitation (h : k.Fits s) (hinv : inv ∈ s.db.invitations) : .ofInvitation inv ∈ k :=
  h.shown (Or.inr ⟨inv, hinv, rfl⟩)

/-- What the tables show after a step fits them with what was known, if every row has the id of one that was known,
    or is the one new row, and every invitation was known or is by an admin. -/
theorem Grants.Fits.extend (h : k.Fits s) (new : env.uuid ∉ s.db.generated.uuids) (joins : Option NewMember)
    (generated : s'.db.generated = s.db.generated.spend env)
    (members : ∀ m ∈ s'.db.members, (∃ old, .held m.id m.workspaceId m.userId old ∈ k) ∨ ∃ n ∈ joins, m = n.toRow env)
    (invitations : ∀ inv ∈ s'.db.invitations, .ofInvitation inv ∈ k ∨ k.Held inv.workspaceId inv.invitedBy .ADMIN)
    (cached : ∀ p, ∀ e ∈ s'.caches p, k.Held e.1.workspaceId.uuid e.1.userId.uuid e.2.role) :
    (k ∪ s'.grants).Fits s' := by
  have le : k ≤ k ∪ s'.grants := Set.subset_union_left
  -- A row that is held now has an id that was known, or is the new one.
  have held : ∀ {id w u role}, .held id w u role ∈ k ∪ s'.grants →
      (∃ old, .held id w u old ∈ k) ∨ ∃ n ∈ joins, id = env.uuid ∧ w = n.workspaceId ∧ u = n.userId := by
    rintro id w u role (hk | ⟨m, hm, heq⟩ | ⟨inv, -, heq⟩)
    · exact Or.inl ⟨role, hk⟩
    · cases heq
      refine (members m hm).imp_right ?_
      rintro ⟨n, hn, rfl⟩
      exact ⟨n, hn, rfl, rfl, rfl⟩
    · cases heq
  refine ⟨Set.subset_union_right, fun hheld => ?_, fun hheld hheld' => ?_, fun p e he => (cached p e he).grow le, ?_⟩
  · rw [generated]
    rcases held hheld with ⟨old, hold⟩ | ⟨n, -, rfl, -, -⟩
    · exact List.mem_cons_of_mem _ (h.spent hold)
    · exact List.mem_cons_self ..
  · rcases held hheld with ⟨old, hold⟩ | ⟨n, hn, rfl, rfl, rfl⟩ <;>
      rcases held hheld' with ⟨old', hold'⟩ | ⟨n', hn', hid, rfl, rfl⟩
    · exact h.one hold hold'
    · exact absurd (hid ▸ h.spent hold) new
    · exact absurd (h.spent hold') new
    · obtain rfl := Option.mem_unique hn hn'
      exact ⟨rfl, rfl⟩
  · rintro token w u role (hk | ⟨m, -, heq⟩ | ⟨inv, hinv, heq⟩)
    · exact (h.inviter hk).grow le
    · cases heq
    · cases heq
      rcases invitations inv hinv with hk | hadmin
      · exact (h.inviter hk).grow le
      · exact hadmin.grow le

/-- A row after a warranted call has the id of one that is known, or is the one that the call inserts. -/
theorem member_after {c : Access.Call} {a a' : Access.Tables} (write : Access.Write a env c a') (hwarrants : k.warrants r c)
    (known : ∀ m ∈ a.db.members, .ofMember m ∈ k) (hm : m ∈ a'.db.members) :
    (∃ old, .held m.id m.workspaceId m.userId old ∈ k) ∨ ∃ n ∈ newMember? c, m = n.toRow env := by
  have saved : ∀ {m}, c = .db (.saveMember m) → ∃ old, .held m.id m.workspaceId m.userId old ∈ k := by
    rintro m rfl
    obtain ⟨-, -, w, v, -, -, hw, hv, -, old, hold⟩ := hwarrants
    exact ⟨old, hw ▸ hv ▸ hold⟩
  cases write with
  | same _ members => exact Or.inl ⟨m.role, known m (members ▸ hm)⟩
  | removed _ _ members => exact Or.inl ⟨m.role, known m (List.mem_filter.mp (members ▸ hm)).1⟩
  | replaced call mem _ members =>
    rw [members, Table.mem_replace mem] at hm
    rcases hm with rfl | ⟨hm, -⟩
    · exact Or.inl (saved call)
    · exact Or.inl ⟨m.role, known m hm⟩
  | returned call _ _ members =>
    rw [members] at hm
    rcases List.mem_append.mp hm with hm | hm
    · exact Or.inl ⟨m.role, known m hm⟩
    · obtain rfl := List.mem_singleton.mp hm
      exact Or.inl (saved call)
  | created call _ _ _ members | joined call _ _ members =>
    rw [members] at hm
    rcases List.mem_append.mp hm with hm | hm
    · exact Or.inl ⟨m.role, known m hm⟩
    · exact Or.inr ⟨_, call ▸ rfl, List.mem_singleton.mp hm⟩

theorem mem_saveInvitation {a b : Workspaces.Tables} {x : WorkspaceInvitation} (h : a.saveInvitation x = .ok b)
    (hinv : inv ∈ b.invitations) : inv ∈ a.invitations ∨ inv = x := by
  rcases Access.saveInvitation_ok h with ⟨heq, hex⟩ | ⟨heq, -⟩
  · rw [heq, Table.mem_replace hex] at hinv
    exact hinv.symm.imp_left And.left
  · rw [heq] at hinv
    exact (List.mem_append.mp hinv).imp_right List.mem_singleton.mp

/-- An invitation after a call was there before, is one that the call writes back, or the one that it issues. -/
theorem invitation_after {c : Access.Call} {a : Access.Tables} (hinv : inv ∈ (Access.exec out env c a).2.db.invitations) :
    inv ∈ a.db.invitations ∨ c = .db (.saveInvitation inv) ∨ (∃ new, c = .db (.commitAccept new inv)) ∨
      ∃ n, c = .insertInvitation n ∧ inv = n.toRow env := by
  cases c with
  | db c =>
    cases c with
    | saveInvitation x =>
      simp only [Access.exec, Workspaces.exec] at hinv
      cases h : a.db.saveInvitation x with
      | error e => exact Or.inl (by rwa [h] at hinv)
      | ok b =>
        rw [h] at hinv
        rcases mem_saveInvitation h hinv with hinv | rfl
        · exact Or.inl hinv
        · exact Or.inr (Or.inl rfl)
    | commitAccept new x =>
      simp only [Access.exec, Workspaces.exec] at hinv
      cases h : a.db.commitAccept env new x with
      | error e => exact Or.inl (by rwa [h] at hinv)
      | ok b =>
        rw [h] at hinv
        obtain ⟨b₁, hsame, hsave⟩ := Access.commitAccept_ok h
        rcases mem_saveInvitation hsave hinv with hinv | rfl
        · exact Or.inl (hsame ▸ hinv)
        · exact Or.inr (Or.inr (Or.inl ⟨new, rfl⟩))
    | saveMember x =>
      simp only [Access.exec, Workspaces.exec] at hinv
      cases h : a.db.saveMember x with
      | error e => exact Or.inl (by rwa [h] at hinv)
      | ok b =>
        rw [h] at hinv
        rcases Workspaces.Tables.saveMember_ok h with ⟨-, rfl⟩ | ⟨-, rfl⟩ <;> exact Or.inl hinv
    | _ => exact Or.inl hinv
  | commitCreate w n =>
    simp only [Access.exec] at hinv
    cases h : Access.Tables.commitCreate out a.db env w n with
    | error e => exact Or.inl (by rwa [h] at hinv)
    | ok b =>
      rw [h] at hinv
      obtain ⟨rfl, -⟩ := Access.commitCreate_ok h
      exact Or.inl hinv
  | insertInvitation n =>
    simp only [Access.exec] at hinv
    cases h : Access.Tables.insertInvitation out a.db (n.toRow env) with
    | error e => exact Or.inl (by rwa [h] at hinv)
    | ok b =>
      rw [h] at hinv
      obtain rfl := Access.insertInvitation_ok h
      exact (List.mem_append.mp hinv).imp_right fun hinv =>
        Or.inr (Or.inr ⟨n, rfl, List.mem_singleton.mp hinv⟩)
  | _ => exact Or.inl hinv

/-! ### Every call fits -/

theorem Grants.Fits.spend (h : k.Fits s) (env : Env) : k.Fits (s.spend env) where
  shown := h.shown
  spent hid := List.mem_cons_of_mem _ (h.spent hid)
  one := h.one
  cached := h.cached
  inviter := h.inviter

/-- A call that leaves the workspaces and the caches as they are. -/
theorem Grants.Fits.aside (h : k.Fits s) (env : Env) (db : s'.db = s.db.spend env) (caches : s'.caches = s.caches) :
    (k ∪ s'.grants).Fits s' := by
  have hgrants : s'.grants ⊆ k := by
    rw [Tables.grants, db]
    exact h.shown
  rw [Set.union_eq_left.mpr hgrants]
  have hspent := h.spend env
  exact ⟨hgrants, fun hid => db ▸ hspent.spent hid, h.one, fun p e he => h.cached p e (caches ▸ he), h.inviter⟩

/-- Who is admitted where an admin is asked for has been one. -/
theorem Grants.Admits.admin {u : Uuid} {w : UuidText} (h : k.Admits r) (route : r.route = some (u, w, [.ADMIN])) :
    k.Held w.uuid u .ADMIN := by
  obtain ⟨role, hheld, hrole⟩ := h u w [.ADMIN] route
  rcases hrole with hrole | hrole
  · cases hrole
  · exact List.mem_singleton.mp hrole ▸ hheld

variable (pg) in
theorem Grants.Fits.access (h : k.Fits s) (new : env.uuid ∉ s.db.generated.uuids) {p : Nat} {c : Access.Call}
    (hallows : k.allows r (.access p c)) :
    let done := exec out pg env (.access p c) (s.spend env)
    (k ∪ done.2.grants).Fits done.2 ∧ ∀ a, done.1 = .ok a → (k ∪ done.2.grants).tells (.access p c) a := by
  obtain ⟨hadmits, hwarrants⟩ := hallows
  replace hwarrants := hwarrants p c rfl
  intro done
  constructor
  · refine h.extend new (newMember? c) (Access.exec_generated out _ env c) (fun m hm => ?_) (fun inv hinv => ?_) fun q e he => ?_
    · exact member_after (Access.exec_write out _ env c) hwarrants (fun m hm => h.member hm) hm
    · rcases invitation_after hinv with hinv | rfl | ⟨joins, rfl⟩ | ⟨n, rfl, rfl⟩
      · exact Or.inl (h.invitation hinv)
      · exact Or.inl hwarrants
      · exact Or.inl hwarrants.1
      · obtain ⟨q, w, dto, rfl, hw⟩ := hwarrants
        refine Or.inr ?_
        rcases hadmits with hlooks | hadmits
        · exact hlooks.elim
        · exact (show (n.toRow env).workspaceId = w.uuid from hw) ▸ hadmits.admin rfl
    · by_cases hq : q = p
      · subst hq
        have he : e ∈ (Access.exec out env c ((s.spend env).access q)).2.cache := by
          simpa only [done, exec, Tables.withAccess, Function.update_self] using he
        rcases mem_cache he with he | rfl
        · exact h.cached q e he
        · exact hwarrants
      · have he : e ∈ (s.spend env).caches q := by
          simpa only [done, exec, Tables.withAccess, Function.update_of_ne hq] using he
        exact h.cached q e he
  · intro a ha
    have le : k ≤ k ∪ done.2.grants := Set.subset_union_left
    cases c with
    | db c =>
      cases c with
      | findMember w u =>
        cases a with
        | none => trivial
        | some m =>
          have hm : s.db.member? w u = some m := Except.ok.inj ha
          have hkey := List.find?_some hm
          simp only [Bool.and_eq_true, beq_iff_eq] at hkey
          exact ⟨hkey.1, hkey.2, le (h.member (List.mem_of_find?_eq_some hm))⟩
      | findInvitation token =>
        cases a with
        | none => trivial
        | some inv =>
          have hinv : s.db.invitations.find? (·.token == token) = some inv := Except.ok.inj ha
          exact ⟨by simpa using List.find?_some hinv, le (h.invitation (List.mem_of_find?_eq_some hinv))⟩
      | _ => trivial
    | cacheGet key =>
      cases a with
      | none => trivial
      | some m =>
        obtain ⟨e, he, rfl⟩ := Option.map_eq_some_iff.mp (Except.ok.inj ha)
        have hkey : e.1 = key := by simpa using List.find?_some he
        exact (hkey ▸ h.cached p e (List.mem_of_find?_eq_some he)).grow le
    | findInvitation id w =>
      cases a with
      | none => trivial
      | some inv => exact le (h.invitation (List.mem_of_find?_eq_some (Except.ok.inj ha)))
    | insertWorkspace n => exact congrArg Workspace.ownerId (Access.insertWorkspace_ok out (s := (s.spend env).access p) ha)
    | _ => trivial

variable (out pg) in
/-- What is known is what the tables have shown so far. -/
theorem shows_grants (queue : Bool) : (system out pg queue).Shows Tables.grants permitting Grants.Fits where
  shown h := h.shown
  spend h _ := h.spend _
  call {k s env r c} h new hpre := by
    have new : env.uuid ∉ s.db.generated.uuids := (Generated.admits_iff.mp (Bool.and_eq_true_iff.mp new).1).1
    match c with
    | .access p c => exact h.access pg new hpre
    | .reminders c => exact ⟨h.aside env rfl rfl, fun _ _ => trivial⟩
    | .addNotificationJob input => exact ⟨h.aside env rfl rfl, fun _ _ => trivial⟩
    | .takeNotificationJob id => exact ⟨h.aside env rfl rfl, fun _ _ => trivial⟩
    | .completeNotificationJob id =>
      refine ⟨?_, fun _ _ => trivial⟩
      refine h.aside env ?_ ?_ <;>
        · simp only [System.handler, system, exec]
          split <;> rfl

end
end TaskPlatform.Platform

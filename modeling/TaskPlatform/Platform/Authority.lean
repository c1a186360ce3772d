import TaskPlatform.Platform.Admission
import TaskPlatform.Platform.Recipients
import TaskPlatform.Platform.Tenants

/-! Who may change what, in every run of the platform: beyond the guards nothing happens but for who is admitted, the rows
    of a workspace are changed by its members, and its memberships by its admins and by who was invited. -/

namespace TaskPlatform.Platform
open Effects Workspaces

/-- What has been granted at some moment of the run. -/
def State.granted (c : State) : Grants := c.shown Tables.grants

section
variable {out : Access.Outside} {pg : Postgres} {queue : Bool} {users : List Uuid} {generated : Generated} {c d : State}
  {mv : Move interface Request}

/-- Empty tables grant nothing. -/
theorem start_grants (users : List Uuid) (generated : Generated) :
    (Tables.start users generated).grants.Fits (Tables.start users generated) := by
  have hnone : (Tables.start users generated).grants = ∅ := by
    refine Set.eq_empty_of_forall_notMem fun g hg => ?_
    rcases hg with ⟨m, hm, -⟩ | ⟨inv, hinv, -⟩
    · cases hm
    · cases hinv
  rw [hnone]
  exact ⟨hnone.le, fun h => h.elim, fun h => h.elim, fun _ _ h => absurd h List.not_mem_nil, fun h => h.elim⟩

theorem granted_known (hc : (system out pg queue).Reach (fun _ _ => True) (.initial (Tables.start users generated)) c) :
    System.Known permitting Grants.Fits c.granted c :=
  (shows_grants out pg queue).reach (program_permitted out queue) (start_grants users generated) hc

theorem rows_known (hc : (system out pg queue).Reach (fun _ _ => True) (.initial (Tables.start users generated)) c) :
    ∃ k, System.Known tenancy (fun k s => Board.Knowledge.Fits k s.rest.board) k c := by
  obtain ⟨k, -, hk⟩ := (board_fits out pg queue).reach (program_tenancy out queue)
    (Board.start_fits users [] generated) hc
  exact ⟨k, hk⟩

/-! ### Beyond the guards -/

theorem not_looksUp {op : Call} (h : op.onBoard = true) : ¬ op.LooksUp := by
  unfold Call.LooksUp
  split
  · cases h
  · cases h
  · cases h
  · exact id

/-- In every run, a request makes no call but to look a membership up, unless its user has by then held a role in the
    workspace of its route, one that the route asks for. -/
theorem beyond_guards (out : Access.Outside) (pg : Postgres) (queue : Bool) (users : List Uuid) (generated : Generated)
    (c d : State) (i : Nat) (fate : Fate) (env : Env)
    (hc : (system out pg queue).Reach (fun _ _ => True) (.initial (Tables.start users generated)) c)
    (hs : (system out pg queue).step c (.call i fate env) = some d) :
    ∃ t op, c.threads[i]? = some t ∧ t.next? = some op ∧ (op.LooksUp ∨ c.granted.Admits t.request) := by
  obtain ⟨t, op, next, ht, hnext, -, -⟩ := System.step_call hs
  have hop : t.next? = some op := by rw [Thread.next?, hnext]; rfl
  exact ⟨t, op, ht, hop, ((granted_known hc).pre ht hop).1⟩

/-- User 8 creates a workspace, and looks up the membership for the project to create in it. -/
def beforeProject : List (Move interface Request) :=
  alone 0 (.access 0 ⟨8, .create { name := "Acme" }⟩) 3 0 ++
  alone 1 (.board 0 8 ⟨Uuid.text 102, .createProject 8 { name := "Website" }⟩) 3 10

/-- Before the project is created, its creator has held a role. -/
theorem beyond_guards_founded : ∃ c : State,
    (system twoUsers .strict false).Reach (fun _ _ => True) (.initial (Tables.start [8, 9] ⟨[], []⟩)) c ∧
    ∃ d ∈ (system twoUsers .strict false).step c (.call 1 .answered (envAt 14)),
      ∃ t op, c.threads[1]? = some t ∧ t.next? = some op ∧ (op.LooksUp ∨ c.granted.Admits t.request) := by
  have hrun : ∃ c : State,
      (system twoUsers .strict false).Reach (fun _ _ => True) (.initial (Tables.start [8, 9] ⟨[], []⟩)) c ∧
      ∃ d ∈ (system twoUsers .strict false).step c (.call 1 .answered (envAt 14)), True :=
    System.reach_exists beforeProject (by decide +kernel)
  obtain ⟨c, hc, d, hd, -⟩ := hrun
  exact ⟨c, hc, d, hd, beyond_guards twoUsers .strict false [8, 9] ⟨[], []⟩ c d 1 .answered (envAt 14) hc hd⟩

/-- In every run, a step that changes the projects, tasks, comments or activity of a workspace is a call of a request of
    the board in that workspace, whose user has by then held a role there, one that its route asks for. -/
theorem rows_changed_by_member (out : Access.Outside) (pg : Postgres) (queue : Bool) (users : List Uuid)
    (generated : Generated) (c d : State) (m : Move interface Request) (w : Uuid)
    (hc : (system out pg queue).Reach (fun _ _ => True) (.initial (Tables.start users generated)) c)
    (hs : (system out pg queue).step c m = some d) (changed : d.shared.rest.board.rows w ≠ c.shared.rest.board.rows w) :
    ∃ i fate env t p u r role, m = .call i fate env ∧ c.threads[i]? = some t ∧ t.request = .board p u r ∧
      r.workspaceId.uuid = w ∧ c.granted.Held w u role ∧
      (Operation.roles r.operation = [] ∨ role ∈ Operation.roles r.operation) := by
  obtain ⟨k, hk⟩ := rows_known hc
  obtain ⟨i, fate, env, t, op, p, u, r, rfl, ht, hop, hboard, hr, rfl⟩ := step_tenancy hk hs changed
  have hadmits := ((granted_known hc).pre ht hop).1.resolve_left (not_looksUp hboard)
  obtain ⟨role, hheld, hrole⟩ := hadmits u r.workspaceId _ (by rw [hr]; rfl)
  exact ⟨i, fate, env, t, p, u, r, role, rfl, ht, hr, rfl, hheld, hrole⟩

/-- The project is created by somebody who has held a role. -/
theorem rows_changed_by_member_founded : ∃ c : State,
    (system twoUsers .strict false).Reach (fun _ _ => True) (.initial (Tables.start [8, 9] ⟨[], []⟩)) c ∧
    ∃ t p u r role, c.threads[1]? = some t ∧ t.request = .board p u r ∧ r.workspaceId.uuid = 102 ∧
      c.granted.Held 102 u role ∧ (Operation.roles r.operation = [] ∨ role ∈ Operation.roles r.operation) := by
  have hrun : ∃ c : State,
      (system twoUsers .strict false).Reach (fun _ _ => True) (.initial (Tables.start [8, 9] ⟨[], []⟩)) c ∧
      ∃ d ∈ (system twoUsers .strict false).step c (.call 1 .answered (envAt 14)),
        ∃ r ∈ d.shared.rest.board.projects, r.workspaceId = 102 ∧ r ∉ c.shared.rest.board.projects :=
    System.reach_exists beforeProject (by decide +kernel)
  obtain ⟨c, hc, d, hd, r, hr, hw, hnew⟩ := hrun
  have changed : d.shared.rest.board.rows 102 ≠ c.shared.rest.board.rows 102 := fun h =>
    hnew (Board.Tables.mem_rows_project.mp (h ▸ Board.Tables.mem_rows_project.mpr ⟨hr, hw⟩)).1
  obtain ⟨i, fate, env, t, p, u, r, role, hi, ht, hrest⟩ :=
    rows_changed_by_member twoUsers .strict false [8, 9] ⟨[], []⟩ c d _ 102 hc hd changed
  cases hi
  exact ⟨c, hc, t, p, u, r, role, ht, hrest⟩

/-! ### Memberships -/

/-- Why an operation of a user may make a membership between two states: the user founds the workspace, is an admin who
    sets the role of a member, or has been invited by an admin. -/
inductive Warrant (k : Grants) (s s' : Tables) (u : Uuid) (m : WorkspaceMember) : Access.Operation → Prop
  | founded {dto : Access.CreateWorkspaceDto} {ws : Workspace} (fresh : ws ∉ s.db.workspaces) (made : ws ∈ s'.db.workspaces)
      (workspace : m.workspaceId = ws.id) (owner : ws.ownerId = u) (user : m.userId = u) (role : m.role = .ADMIN) :
      Warrant k s s' u m (.create dto)
  | appointed {w v : UuidText} {role : WorkspaceRole} (workspace : m.workspaceId = w.uuid) (user : m.userId = v.uuid)
      (set : m.role = role) (admin : k.Held w.uuid u .ADMIN) : Warrant k s s' u m (.updateRole w v role)
  | invited {token : String} {inviter : Uuid} (user : m.userId = u) (issued : .issued token m.workspaceId inviter m.role ∈ k)
      (admin : k.Held m.workspaceId inviter .ADMIN) : Warrant k s s' u m (.accept token)

/-- Why an operation of a user may take a membership away, or put another one in its place: the user is an admin. -/
inductive Revokes (k : Grants) (u : Uuid) (m : WorkspaceMember) : Access.Operation → Prop
  | replaced {w v : UuidText} {role : WorkspaceRole} (workspace : m.workspaceId = w.uuid) (user : m.userId = v.uuid)
      (admin : k.Held w.uuid u .ADMIN) : Revokes k u m (.updateRole w v role)
  | removed {w v : UuidText} (workspace : m.workspaceId = w.uuid) (user : m.userId = v.uuid)
      (admin : k.Held w.uuid u .ADMIN) : Revokes k u m (.removeMember w v)

section
variable {k : Grants} {s : Tables} {env : Env} {r : Request} {p : Nat} {a : Access.Call} {m : WorkspaceMember}

/-- What a call adds to the memberships is warranted. -/
theorem call_warrants (h : k.Fits s) (hallows : k.allows r (.access p a))
    (hm : m ∈ (exec out pg env (.access p a) (s.spend env)).2.db.members) (hnew : m ∉ s.db.members) :
    ∃ q u op, r = .access q ⟨u, op⟩ ∧ Warrant k s (exec out pg env (.access p a) (s.spend env)).2 u m op := by
  obtain ⟨hadmits, hwarrants⟩ := hallows
  replace hwarrants := hwarrants p a rfl
  have write : Access.Write ((s.spend env).access p) env a (Access.exec out env a ((s.spend env).access p)).2 :=
    Access.exec_write out _ env a
  have hm : m ∈ (Access.exec out env a ((s.spend env).access p)).2.db.members := hm
  have hset : ∀ {x}, a = .db (.saveMember x) → m = x → ∃ q u op, r = .access q ⟨u, op⟩ ∧
      Warrant k s (exec out pg env (.access p a) (s.spend env)).2 u m op := by
    rintro x rfl rfl
    obtain ⟨q, u, w, v, role, rfl, hw, hv, hrole, -⟩ := hwarrants
    exact ⟨q, u, _, rfl, .appointed hw hv hrole ((hadmits.resolve_left id).admin rfl)⟩
  cases write with
  | same _ members => exact absurd (members ▸ hm) hnew
  | removed _ _ members => exact absurd (List.mem_filter.mp (members ▸ hm)).1 hnew
  | replaced call mem _ members =>
    rw [members, Table.mem_replace mem] at hm
    exact hset call (hm.resolve_right fun hm => hnew hm.1)
  | returned call _ _ members =>
    rw [members] at hm
    exact hset call (List.mem_singleton.mp ((List.mem_append.mp hm).resolve_left hnew))
  | @created ws n call fresh _ workspaces members =>
    subst call
    rw [members] at hm
    obtain rfl := List.mem_singleton.mp ((List.mem_append.mp hm).resolve_left hnew)
    obtain ⟨q, dto, rfl, rfl⟩ := hwarrants
    have made : ws ∈ (Access.exec out env (.commitCreate ws ⟨ws.id, ws.ownerId, .ADMIN⟩) ((s.spend env).access p)).2.db.workspaces :=
      workspaces ▸ List.mem_append_right _ (List.mem_singleton_self _)
    exact ⟨q, ws.ownerId, _, rfl, .founded fresh made rfl rfl rfl rfl⟩
  | joined call _ _ members =>
    subst call
    rw [members] at hm
    obtain rfl := List.mem_singleton.mp ((List.mem_append.mp hm).resolve_left hnew)
    obtain ⟨hinv, q, u, rfl, hjoins⟩ := hwarrants
    obtain rfl := hjoins _ rfl
    exact ⟨q, u, _, rfl, .invited rfl hinv (h.inviter hinv)⟩

/-- What a call takes from the memberships, it may take. -/
theorem call_revokes (h : k.Fits s) (hallows : k.allows r (.access p a)) (hm : m ∈ s.db.members)
    (hgone : m ∉ (exec out pg env (.access p a) (s.spend env)).2.db.members) :
    ∃ q u op, r = .access q ⟨u, op⟩ ∧ Revokes k u m op := by
  obtain ⟨hadmits, hwarrants⟩ := hallows
  replace hwarrants := hwarrants p a rfl
  have write : Access.Write ((s.spend env).access p) env a (Access.exec out env a ((s.spend env).access p)).2 :=
    Access.exec_write out _ env a
  have hgone : m ∉ (Access.exec out env a ((s.spend env).access p)).2.db.members := hgone
  cases write with
  | same _ members => exact absurd (members ▸ hm) hgone
  | created _ _ _ _ members | returned _ _ _ members | joined _ _ _ members =>
    exact absurd (members ▸ List.mem_append_left _ hm) hgone
  | @removed x call _ members =>
    subst call
    obtain ⟨q, u, w, v, rfl, old, hold⟩ := hwarrants
    have hid : m.id = x.id := by
      by_contra hne
      exact hgone (members ▸ List.mem_filter.mpr ⟨hm, bne_iff_ne.mpr hne⟩)
    obtain ⟨hw, hv⟩ := h.one (hid ▸ hold) (h.member hm)
    exact ⟨q, u, _, rfl, .removed hw hv ((hadmits.resolve_left id).admin rfl)⟩
  | @replaced x call mem _ members =>
    subst call
    obtain ⟨q, u, w, v, role, rfl, -, -, -, old, hold⟩ := hwarrants
    have hid : m.id = x.id := by
      by_contra hne
      exact hgone (members ▸ (Table.mem_replace mem).mpr (Or.inr ⟨hm, hne⟩))
    obtain ⟨hw, hv⟩ := h.one (hid ▸ hold) (h.member hm)
    exact ⟨q, u, _, rfl, .replaced hw hv ((hadmits.resolve_left id).admin rfl)⟩

/-- Only calls on the workspaces change memberships. -/
theorem members_aside {op : Call} (h : ∀ p a, op ≠ .access p a) :
    (exec out pg env op (s.spend env)).2.db.members = s.db.members := by
  match op with
  | .access p a => exact absurd rfl (h p a)
  | .reminders _ | .addNotificationJob _ | .takeNotificationJob _ => rfl
  | .completeNotificationJob id =>
    simp only [exec]
    split <;> rfl

end

/-- In every run, a membership that a step adds is warranted: its user has founded the workspace, an admin has set the
    role, or an admin has issued an invitation that the user accepts. One that a step takes away, an admin takes. -/
theorem members_changed_by_right (out : Access.Outside) (pg : Postgres) (queue : Bool) (users : List Uuid)
    (generated : Generated) (c d : State) (mv : Move interface Request) (m : WorkspaceMember)
    (hc : (system out pg queue).Reach (fun _ _ => True) (.initial (Tables.start users generated)) c)
    (hs : (system out pg queue).step c mv = some d) (changed : ¬ (m ∈ c.shared.db.members ↔ m ∈ d.shared.db.members)) :
    ∃ i fate env t p u op, mv = .call i fate env ∧ c.threads[i]? = some t ∧ t.request = .access p ⟨u, op⟩ ∧
      (m ∈ d.shared.db.members → Warrant c.granted c.shared d.shared u m op) ∧
      (m ∈ c.shared.db.members → Revokes c.granted u m op) := by
  have hfits : c.granted.Fits c.shared := (granted_known hc).1
  rcases System.step_shared hs with heq | ⟨env, -, heq⟩ | ⟨i, fate, env, t, op, rfl, ht, hop, -, heq⟩
  · exact absurd (by rw [heq]) changed
  · exact absurd (by rw [heq]; exact Iff.rfl) changed
  · have hallows : c.granted.allows t.request op := (granted_known hc).pre ht hop
    have heffect : d.shared = (exec out pg env op (c.shared.spend env)).2 := by
      cases fate with
      | failed => exact absurd (by rw [heq]; exact Iff.rfl) changed
      | answered | lost => exact heq
    rw [heffect] at changed ⊢
    by_cases haccess : ∃ p a, op = .access p a
    · obtain ⟨p, a, rfl⟩ := haccess
      by_cases hold : m ∈ c.shared.db.members
      · have hgone := fun hm => changed (iff_of_true hold hm)
        obtain ⟨q, u, op, hr, hrevokes⟩ := call_revokes hfits hallows hold hgone
        exact ⟨i, fate, env, t, q, u, op, rfl, ht, hr, fun hm => absurd hm hgone, fun _ => hrevokes⟩
      · have hnew := not_not.mp fun hm => changed (iff_of_false hold hm)
        obtain ⟨q, u, op, hr, hwarrant⟩ := call_warrants hfits hallows hnew hold
        exact ⟨i, fate, env, t, q, u, op, rfl, ht, hr, fun _ => hwarrant, fun hm => absurd hm hold⟩
    · refine absurd ?_ changed
      rw [members_aside fun p a h => haccess ⟨p, a, h⟩]

/-- User 9 is removed by an admin. -/
theorem members_changed_by_right_founded : ∃ c : State,
    (system twoUsers .strict false).Reach (fun _ _ => True) (.initial (Tables.start [8, 9] ⟨[], []⟩)) c ∧
    ∃ d ∈ (system twoUsers .strict false).step c (.call 5 .answered (envAt 54)), ∃ m, m ∈ c.shared.db.members ∧
      ∃ t p u op, c.threads[5]? = some t ∧ t.request = .access p ⟨u, op⟩ ∧ Revokes c.granted u m op := by
  have hrun : ∃ c : State,
      (system twoUsers .strict false).Reach (fun _ _ => True) (.initial (Tables.start [8, 9] ⟨[], []⟩)) c ∧
      ∃ d ∈ (system twoUsers .strict false).step c (.call 5 .answered (envAt 54)),
        ∃ m ∈ c.shared.db.members, m ∉ d.shared.db.members :=
    System.reach_exists (departed.take 30) (by decide +kernel)
  obtain ⟨c, hc, d, hd, m, hm, hgone⟩ := hrun
  obtain ⟨i, fate, env, t, p, u, op, hi, ht, hr, -, hrevokes⟩ :=
    members_changed_by_right twoUsers .strict false [8, 9] ⟨[], []⟩ c d _ m hc hd fun h => hgone (h.mp hm)
  cases hi
  exact ⟨c, hc, d, hd, m, hm, t, p, u, op, ht, hr, hrevokes hm⟩

end
end TaskPlatform.Platform

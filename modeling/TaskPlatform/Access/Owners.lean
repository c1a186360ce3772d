import Mathlib.Data.Set.BooleanAlgebra
import Mathlib.Order.CompletePartialOrder
import TaskPlatform.Access.Decisions
import TaskPlatform.Access.Provenance
import TaskPlatform.Library.Contract
import TaskPlatform.Workspaces.Members

/-! The membership of the owner of a workspace, while requests of any kind are in flight. What is found and what is
    saved later are calls apart: what is known in between is that a row stays with its workspace and its user. The
    caches, of however many processes, may hold any memberships: who passes the guards does not matter here. -/

namespace TaskPlatform.Access
open Effects Workspaces

/-- What is in flight: a request, or a membership that leaves a cache or enters it. -/
inductive Job where
  | request (r : Request)
  | forget (key : MembershipKey)
  | remember (key : MembershipKey) (m : WorkspaceMember)
  deriving DecidableEq

def Job.program (out : Outside) : Job → Service Response
  | .request r => Access.program out r
  | .forget key => do
    perform (.cacheDel key)
    return .removed
  | .remember key m => do
    perform (.cacheSet key m)
    return .updated m

def fleet (out : Outside) : System interface Tables Job Response where
  exec := exec out
  program := Job.program out
  fault := .unavailable
  admits s env := s.db.generated.admits env
  spend := Tables.spend

abbrev State := Config interface Tables Job Response

/-- The roles that the owner of a workspace has in it, one for each of his rows. -/
def Tables.ownerRoles (s : Tables) (w : Workspace) : List WorkspaceRole :=
  (s.db.members.filter fun m => m.workspaceId = w.id && m.userId = w.ownerId).map WorkspaceMember.role

/-- The member whom a request is about, as the URL spells his id. -/
def Job.target? : Job → Option UuidText
  | .request ⟨_, .updateRole _ u _⟩ | .request ⟨_, .removeMember _ u⟩ => some u
  | _ => none

/-- A request about the owner of the workspace that it looks up spells his id as Postgres does. -/
def spells (job : Job) (s : Tables) : Call → Bool
  | .db (.findWorkspace id) =>
    s.db.workspaces.all fun w => job.target?.all fun u => w.id ≠ id || w.ownerId ≠ u.uuid || w.ownerId.text = u
  | _ => true

/-- Every request that gets an answer when it looks up the workspace spells the owner so. -/
def spellsOwner (c : State) : Move interface Job → Bool
  | .call i .answered _ =>
    match c.threads[i]? with
    | some t => t.next?.all (spells t.request c.shared)
    | none => true
  | _ => true

/-! ### What a request knows -/

/-- Facts that once true stay true: who owns a workspace, whose a row is, and that only one workspace can have an id. -/
inductive Fact where
  | owner (workspaceId ownerId : Uuid)
  | row (id workspaceId userId : Uuid)
  | named (w : Workspace)

def Fact.Holds (s : Tables) : Fact → Prop
  | owner w o => ∃ x ∈ s.db.workspaces, x.id = w ∧ x.ownerId = o
  | row id w u => id ∈ s.db.generated.uuids ∧ ∀ m ∈ s.db.members, m.id = id → m.workspaceId = w ∧ m.userId = u
  | named w => w.id ∈ s.db.generated.uuids ∧ ∀ x ∈ s.db.workspaces, x.id = w.id → x = w

/-- Two facts do not say different things of one id. -/
def Fact.Agrees : Fact → Fact → Prop
  | row id w u, row id' w' u' => id = id' → w = w' ∧ u = u'
  | named w, named w' => w.id = w'.id → w = w'
  | _, _ => True

theorem Fact.agrees_self (f : Fact) : f.Agrees f := by
  cases f with
  | row => exact fun _ => ⟨rfl, rfl⟩
  | named => exact fun _ => rfl
  | owner => trivial

abbrev Knowledge := Set Fact

/-- The row is no owner's. -/
def Knowledge.Spares (k : Knowledge) (m : WorkspaceMember) : Prop :=
  .row m.id m.workspaceId m.userId ∈ k ∧ ∃ o, .owner m.workspaceId o ∈ k ∧ o ≠ m.userId

def Call.pre (k : Knowledge) : Call → Prop
  | .db (.saveMember m) | .db (.removeMember m) => k.Spares m
  | .commitCreate w owner => .named w ∈ k ∧ owner = ⟨w.id, w.ownerId, .ADMIN⟩
  | _ => True

def Call.post (job : Job) (k : Knowledge) : (c : Call) → c.Reply → Prop
  | .db (.findWorkspace id), a =>
    ∀ w ∈ a, w.id = id ∧ .owner w.id w.ownerId ∈ k ∧ ∀ u ∈ job.target?, w.ownerId = u.uuid → w.ownerId.text = u
  | .db (.findMember w u), a => ∀ m ∈ a, .row m.id m.workspaceId m.userId ∈ k ∧ m.workspaceId = w ∧ m.userId = u
  | .insertWorkspace n, w => w.ownerId = n.ownerId ∧ .named w ∈ k
  | _, _ => True

theorem Call.pre.grow {k k' : Knowledge} {c : Call} (hk : k ≤ k') (h : c.pre k) : c.pre k' := by
  have hspares : ∀ {m}, k.Spares m → k'.Spares m := fun ⟨hrow, o, howner, hne⟩ => ⟨hk hrow, o, hk howner, hne⟩
  cases c with
  | commitCreate w owner => exact ⟨hk h.1, h.2⟩
  | db c =>
    cases c with
    | saveMember m => exact hspares h
    | removeMember m => exact hspares h
    | _ => trivial
  | _ => trivial

def contract (job : Job) : Contract interface Knowledge where
  pre := Call.pre
  post := Call.post job
  alike _ a a' := a = a'
  grows := Call.pre.grow

/-- What the tables keep, and what is known of them. -/
structure Knowledge.Fits (k : Knowledge) (s : Tables) : Prop where
  ids : (s.db.workspaces.map Workspace.id).Nodup
  rows : (s.db.members.map WorkspaceMember.id).Nodup
  workspaces : ∀ w ∈ s.db.workspaces, w.id ∈ s.db.generated.uuids
  members : ∀ m ∈ s.db.members, m.id ∈ s.db.generated.uuids
  owners : ∀ w ∈ s.db.workspaces, s.ownerRoles w = [.ADMIN]
  holds : ∀ f ∈ k, f.Holds s
  agree : ∀ f ∈ k, ∀ g ∈ k, f.Agrees g

/-! ### What a call does to workspaces and members -/

inductive Write (s : Tables) (env : Env) (c : Call) (s' : Tables) : Prop
  | same (workspaces : s'.db.workspaces = s.db.workspaces) (members : s'.db.members = s.db.members)
  | created {w : Workspace} {n : NewMember} (call : c = .commitCreate w n) (fresh : w ∉ s.db.workspaces)
      (new : s.db.member? n.workspaceId n.userId = none) (workspaces : s'.db.workspaces = s.db.workspaces ++ [w])
      (members : s'.db.members = s.db.members ++ [n.toRow env])
  | replaced {m : WorkspaceMember} (call : c = .db (.saveMember m)) (mem : ∃ r ∈ s.db.members, r.id = m.id)
      (workspaces : s'.db.workspaces = s.db.workspaces)
      (members : s'.db.members = Table.replace WorkspaceMember.id m s.db.members)
  | returned {m : WorkspaceMember} (call : c = .db (.saveMember m)) (gone : ∀ r ∈ s.db.members, r.id ≠ m.id)
      (workspaces : s'.db.workspaces = s.db.workspaces) (members : s'.db.members = s.db.members ++ [m])
  | removed {m : WorkspaceMember} (call : c = .db (.removeMember m)) (workspaces : s'.db.workspaces = s.db.workspaces)
      (members : s'.db.members = s.db.members.filter (·.id != m.id))
  | joined {n : NewMember} {inv : WorkspaceInvitation} (call : c = .db (.commitAccept (some n) inv))
      (new : s.db.member? n.workspaceId n.userId = none) (workspaces : s'.db.workspaces = s.db.workspaces)
      (members : s'.db.members = s.db.members ++ [n.toRow env])

section
variable {out : Outside} {s s' : Tables} {env : Env} {c : Call}

theorem db_write (c : Workspaces.Call) : Write s env (.db c) (exec out env (.db c) s).2 := by
  cases c with
  | findWorkspace | findMember | cacheGet | cacheSet | cacheDel | findInvitation => exact .same rfl rfl
  | removeMember m => exact .removed rfl rfl rfl
  | saveInvitation inv =>
    simp only [exec, Workspaces.exec]
    cases h : s.db.saveInvitation inv with
    | error e => exact .same rfl rfl
    | ok t =>
      have ht := Workspaces.Tables.saveInvitation_ok h
      have hw : t.workspaces = s.db.workspaces := by rw [ht]
      have hm : t.members = s.db.members := by rw [ht]
      exact .same hw hm
  | saveMember m =>
    simp only [exec, Workspaces.exec]
    cases h : s.db.saveMember m with
    | error e => exact .same rfl rfl
    | ok t =>
      rcases Workspaces.Tables.saveMember_ok h with ⟨hmem, rfl⟩ | ⟨hgone, rfl⟩
      · exact .replaced rfl hmem rfl rfl
      · exact .returned rfl hgone rfl rfl
  | commitAccept new inv =>
    simp only [exec, Workspaces.exec]
    cases h : s.db.commitAccept env new inv with
    | error e => exact .same rfl rfl
    | ok a =>
      obtain ⟨a, t⟩ := a
      rcases Workspaces.Tables.commitAccept_ok h with ⟨-, ht⟩ | ⟨n, rfl, ht, hnone⟩
      · have hw : t.workspaces = s.db.workspaces := by rw [ht]
        have hm : t.members = s.db.members := by rw [ht]
        exact .same hw hm
      · have hw : t.workspaces = s.db.workspaces := by rw [ht]
        have hm : t.members = s.db.members ++ [n.toRow env] := by rw [ht]
        exact .joined rfl hnone hw hm

/-- The slug of a workspace that is created is free, so the workspace is not there yet. -/
theorem commitCreate_fresh {t t' : Workspaces.Tables} {w : Workspace} {n : NewMember}
    (h : Tables.commitCreate out t env w n = .ok t') : w ∉ t.workspaces := by
  intro hmem
  have hany : (t.workspaces.any fun x => out.citext x.slug = out.citext w.slug) = true :=
    List.any_eq_true.mpr ⟨w, hmem, decide_eq_true rfl⟩
  rw [Tables.commitCreate, if_pos hany] at h
  cases h

variable (out s env c) in
theorem exec_write : Write s env c (exec out env c s).2 := by
  cases c with
  | db c => exact db_write c
  | countSlug | insertWorkspace | workspacesOf | membersOf | cacheGet | cacheSet | cacheDel | findUserByEmail | findPending
  | invitationsOf | findInvitation => exact .same rfl rfl
  | insertInvitation n =>
    simp only [exec]
    cases h : Tables.insertInvitation out s.db (n.toRow env) with
    | error e => exact .same rfl rfl
    | ok t =>
      obtain rfl := insertInvitation_ok h
      exact .same rfl rfl
  | commitCreate w n =>
    simp only [exec]
    cases h : Tables.commitCreate out s.db env w n with
    | error e => exact .same rfl rfl
    | ok t =>
      have hfresh := commitCreate_fresh h
      obtain ⟨rfl, hnone⟩ := commitCreate_ok h
      exact .created rfl hfresh hnone rfl rfl

/-! ### The row of an owner -/

variable {k : Knowledge} {w : Workspace} {m : WorkspaceMember} {rows : List WorkspaceMember}

/-- The rows of the owner of a workspace. -/
def isOwner (w : Workspace) (m : WorkspaceMember) : Bool := m.workspaceId = w.id && m.userId = w.ownerId

theorem ownerRoles_eq (s : Tables) (w : Workspace) :
    s.ownerRoles w = (s.db.members.filter (isOwner w)).map WorkspaceMember.role := rfl

/-- A row that is no owner's is not the owner's of any workspace. -/
theorem Knowledge.Fits.spares (h : k.Fits s) (spared : k.Spares m) (hw : w ∈ s.db.workspaces) : isOwner w m = false := by
  obtain ⟨-, o, howner, hne⟩ := spared
  obtain ⟨x, hx, hid, ho⟩ := h.holds _ howner
  by_contra hm
  simp only [isOwner, Bool.not_eq_false, Bool.and_eq_true, decide_eq_true_eq] at hm
  obtain rfl := Table.eq_of_key h.ids hx hw (hid.trans hm.1)
  exact hne (ho.symm.trans hm.2.symm)

/-- The rows with its id are no owner's either. -/
theorem Knowledge.Fits.spares_rows (h : k.Fits s) (spared : k.Spares m) (hw : w ∈ s.db.workspaces) {r : WorkspaceMember}
    (hr : r ∈ s.db.members) (hid : r.id = m.id) : isOwner w r = false := by
  obtain ⟨hws, hu⟩ := (h.holds _ spared.1).2 r hr hid
  rw [isOwner, hws, hu]
  exact h.spares spared hw

/-- Whoever is no member of a workspace is not its owner. -/
theorem Knowledge.Fits.stranger (h : k.Fits s) {n : NewMember} (new : s.db.member? n.workspaceId n.userId = none)
    (hw : w ∈ s.db.workspaces) : isOwner w (n.toRow env) = false := by
  by_contra hm
  simp only [isOwner, Bool.not_eq_false, Bool.and_eq_true, decide_eq_true_eq] at hm
  have hroles := h.owners w hw
  rw [ownerRoles_eq] at hroles
  obtain ⟨r, hr, -⟩ := List.mem_map.mp (hroles ▸ List.mem_singleton_self WorkspaceRole.ADMIN)
  obtain ⟨hr, howner⟩ := List.mem_filter.mp hr
  simp only [isOwner, Bool.and_eq_true, decide_eq_true_eq] at howner
  exact member?_none new r hr (howner.1.trans hm.1.symm) (howner.2.trans hm.2.symm)

theorem filter_owner_append (h : isOwner w m = false) : (rows ++ [m]).filter (isOwner w) = rows.filter (isOwner w) := by
  simp [List.filter_append, h]

/-- A workspace that is created has one row of its owner. -/
theorem created_owner {n : NewMember} (hn : n = ⟨w.id, w.ownerId, .ADMIN⟩)
    (new : s.db.member? n.workspaceId n.userId = none) :
    ((s.db.members ++ [n.toRow env]).filter (isOwner w)).map WorkspaceMember.role = [.ADMIN] := by
  subst hn
  have hnone : s.db.members.filter (isOwner w) = [] := by
    refine List.filter_eq_nil_iff.mpr fun r hr howner => ?_
    simp only [isOwner, Bool.and_eq_true, decide_eq_true_eq] at howner
    exact member?_none new r hr howner.1 howner.2
  simp [List.filter_append, hnone, isOwner, NewMember.toRow]

/-- The owner's row of a workspace that was there stays as it is. -/
theorem Knowledge.Fits.owner_write (h : k.Fits s) (write : Write s env c s') (hpre : c.pre k) (hw : w ∈ s.db.workspaces) :
    s'.ownerRoles w = [.ADMIN] := by
  rw [ownerRoles_eq, ← h.owners w hw, ownerRoles_eq]
  cases write with
  | same _ members => rw [members]
  | created _ _ new _ members | joined _ new _ members => rw [members, filter_owner_append (h.stranger new hw)]
  | replaced call _ _ members =>
    subst call
    rw [members, Table.filter_replace (fun r hr hid => h.spares_rows hpre hw hr hid) (h.spares hpre hw)]
  | returned call _ _ members =>
    subst call
    rw [members, filter_owner_append (h.spares hpre hw)]
  | @removed x call _ members =>
    subst call
    rw [members, List.filter_filter]
    refine congrArg _ (List.filter_congr fun r hr => ?_)
    by_cases hid : r.id = x.id
    · simp [h.spares_rows hpre hw hr hid]
    · simp [hid]

/-! ### Every call bears its contract out -/

/-- A workspace after a call was there before, or is created under an id that is known to be its own. -/
theorem Write.workspace (write : Write s env c s') (hpre : c.pre k) (hw : w ∈ s'.db.workspaces) :
    w ∈ s.db.workspaces ∨ (.named w ∈ k ∧ w ∉ s.db.workspaces ∧ s'.ownerRoles w = [.ADMIN] ∧
      s'.db.workspaces = s.db.workspaces ++ [w]) := by
  cases write with
  | created call fresh new workspaces members =>
    subst call
    rw [workspaces] at hw
    rcases List.mem_append.mp hw with hw | hw
    · exact Or.inl hw
    · obtain rfl := List.mem_singleton.mp hw
      exact Or.inr ⟨hpre.1, fresh, by rw [ownerRoles_eq, members, created_owner hpre.2 new], workspaces⟩
  | same workspaces | replaced _ _ workspaces | returned _ _ workspaces | removed _ workspaces | joined _ _ workspaces =>
    exact Or.inl (workspaces ▸ hw)

/-- A row after a call was there before, is new, or is one that is known to be no owner's. -/
theorem Write.member (write : Write s env c s') (hpre : c.pre k) (hm : m ∈ s'.db.members) :
    m ∈ s.db.members ∨ m.id = env.uuid ∨ k.Spares m := by
  cases write with
  | same _ members => exact Or.inl (members ▸ hm)
  | created _ _ _ _ members | joined _ _ _ members =>
    rw [members] at hm
    rcases List.mem_append.mp hm with hm | hm
    · exact Or.inl hm
    · obtain rfl := List.mem_singleton.mp hm
      exact Or.inr (Or.inl rfl)
  | replaced call mem _ members =>
    subst call
    rw [members, Table.mem_replace mem] at hm
    rcases hm with rfl | ⟨hm, -⟩
    · exact Or.inr (Or.inr hpre)
    · exact Or.inl hm
  | returned call _ _ members =>
    subst call
    rw [members] at hm
    rcases List.mem_append.mp hm with hm | hm
    · exact Or.inl hm
    · obtain rfl := List.mem_singleton.mp hm
      exact Or.inr (Or.inr hpre)
  | removed _ _ members =>
    rw [members] at hm
    exact Or.inl (List.mem_filter.mp hm).1

theorem Write.workspaces_sub (write : Write s env c s') (hw : w ∈ s.db.workspaces) : w ∈ s'.db.workspaces := by
  cases write with
  | created _ _ _ workspaces => exact workspaces ▸ List.mem_append_left _ hw
  | same workspaces | replaced _ _ workspaces | returned _ _ workspaces | removed _ workspaces | joined _ _ workspaces =>
    exact workspaces ▸ hw

theorem Knowledge.Fits.spend (h : k.Fits s) (env : Env) : k.Fits (s.spend env) where
  ids := h.ids
  rows := h.rows
  workspaces w hw := List.mem_cons_of_mem _ (h.workspaces w hw)
  members m hm := List.mem_cons_of_mem _ (h.members m hm)
  owners := h.owners
  holds f hf := by
    cases f with
    | owner => exact h.holds _ hf
    | row => exact ⟨List.mem_cons_of_mem _ (h.holds _ hf).1, (h.holds _ hf).2⟩
    | named => exact ⟨List.mem_cons_of_mem _ (h.holds _ hf).1, (h.holds _ hf).2⟩
  agree := h.agree

/-- What is known still holds after a call. -/
theorem Knowledge.Fits.keeps (h : k.Fits s) (write : Write (s.spend env) env c s')
    (generated : s'.db.generated = (s.spend env).db.generated) (new : env.uuid ∉ s.db.generated.uuids) (hpre : c.pre k)
    {f : Fact} (hf : f ∈ k) : f.Holds s' := by
  cases f with
  | owner ws o =>
    obtain ⟨x, hx, hid⟩ := h.holds _ hf
    exact ⟨x, write.workspaces_sub hx, hid⟩
  | row id ws u =>
    obtain ⟨hissued, hrow⟩ := h.holds _ hf
    refine ⟨generated ▸ List.mem_cons_of_mem _ hissued, fun m hm hid => ?_⟩
    rcases write.member hpre hm with hm | hm | hspares
    · exact hrow m hm hid
    · exact absurd (hid.symm.trans hm ▸ hissued) new
    · exact h.agree _ hspares.1 _ hf hid
  | named x =>
    obtain ⟨hissued, hone⟩ := h.holds _ hf
    refine ⟨generated ▸ List.mem_cons_of_mem _ hissued, fun y hy hid => ?_⟩
    rcases write.workspace hpre hy with hy | ⟨hnamed, -⟩
    · exact hone y hy hid
    · exact h.agree _ hnamed _ hf hid

omit s s' env c k w in
/-- A row with an id of its own comes to the others. -/
theorem nodup_rows (nodup : (rows.map WorkspaceMember.id).Nodup) (new : ∀ r ∈ rows, r.id ≠ m.id) :
    ((rows ++ [m]).map WorkspaceMember.id).Nodup := by
  rw [List.map_append, List.map_singleton]
  refine List.nodup_append'.mpr ⟨nodup, List.nodup_singleton _, List.disjoint_singleton.mpr fun hid => ?_⟩
  obtain ⟨r, hr, hid⟩ := List.mem_map.mp hid
  exact new r hr hid

theorem Knowledge.Fits.write (h : k.Fits s) (write : Write (s.spend env) env c s')
    (generated : s'.db.generated = (s.spend env).db.generated) (new : env.uuid ∉ s.db.generated.uuids) (hpre : c.pre k) :
    k.Fits s' where
  ids := by
    cases write with
    | @created w n call fresh _ workspaces members =>
      subst call
      rw [workspaces, List.map_append, List.map_singleton]
      refine List.nodup_append'.mpr ⟨h.ids, List.nodup_singleton _, List.disjoint_singleton.mpr fun hid => fresh ?_⟩
      obtain ⟨x, hx, hid⟩ := List.mem_map.mp hid
      exact (h.holds _ hpre.1).2 x hx hid ▸ hx
    | same workspaces | replaced _ _ workspaces | returned _ _ workspaces | removed _ workspaces | joined _ _ workspaces =>
      rw [workspaces]
      exact h.ids
  rows := by
    cases write with
    | same _ members =>
      rw [members]
      exact h.rows
    | @created _ n _ _ _ _ members | @joined n _ _ _ _ members =>
      rw [members]
      refine nodup_rows h.rows fun r hr hid => new ?_
      have hissued := h.members r hr
      rw [hid] at hissued
      exact hissued
    | replaced _ _ _ members =>
      rw [members, Table.map_key_replace]
      exact h.rows
    | returned _ gone _ members =>
      rw [members]
      exact nodup_rows h.rows gone
    | removed _ _ members =>
      rw [members]
      exact h.rows.sublist (List.filter_sublist.map _)
  workspaces w hw := by
    rw [generated]
    rcases write.workspace hpre hw with hw | ⟨hnamed, -⟩
    · exact List.mem_cons_of_mem _ (h.workspaces w hw)
    · exact List.mem_cons_of_mem _ (h.holds _ hnamed).1
  members m hm := by
    rw [generated]
    rcases write.member hpre hm with hm | hm | hspares
    · exact List.mem_cons_of_mem _ (h.members m hm)
    · exact hm ▸ List.mem_cons_self ..
    · exact List.mem_cons_of_mem _ (h.holds _ hspares.1).1
  owners w hw := by
    rcases write.workspace hpre hw with hw | ⟨-, -, howner, -⟩
    · exact (h.spend env).owner_write write hpre hw
    · exact howner
  holds f hf := h.keeps write generated new hpre hf
  agree := h.agree

/-- One more fact that holds and agrees with the others. -/
theorem Knowledge.Fits.learn (h : k.Fits s) {f : Fact} (holds : f.Holds s)
    (agree : ∀ g ∈ k, f.Agrees g ∧ g.Agrees f) : Knowledge.Fits (insert f k) s where
  ids := h.ids
  rows := h.rows
  workspaces := h.workspaces
  members := h.members
  owners := h.owners
  holds g hg := by
    rcases hg with rfl | hg
    · exact holds
    · exact h.holds g hg
  agree g hg g' hg' := by
    rcases hg with rfl | hg <;> rcases hg' with rfl | hg'
    · exact Fact.agrees_self _
    · exact (agree g' hg').1
    · exact (agree g hg).2
    · exact h.agree g hg g' hg'

/-- What a call adds to what is known, and what its reply says. -/
theorem Knowledge.Fits.call (h : k.Fits s) {job : Job} (admits : s.db.generated.admits env = true) (hpre : c.pre k) :
    ∃ k', k ≤ k' ∧ k'.Fits (exec out env c (s.spend env)).2 ∧
      (spells job s c = true → ∀ a, (exec out env c (s.spend env)).1 = .ok a → Call.post job k' c a) := by
  have hnew := (Generated.admits_iff.mp admits).1
  have hfits := h.write (exec_write out (s.spend env) env c) (exec_generated out (s.spend env) env c) hnew hpre
  cases c with
  | insertWorkspace n =>
    refine ⟨insert (.named (n.toRow env)) k, Set.subset_insert _ _, hfits.learn ?_ ?_, fun _ a ha => ?_⟩
    · refine ⟨List.mem_cons_self .., fun x hx hid => absurd ?_ hnew⟩
      have hissued := h.workspaces x hx
      rw [hid] at hissued
      exact hissued
    · intro g hg
      cases g with
      | named w =>
        have hne : (n.toRow env).id ≠ w.id := fun hid => by
          have hissued := (h.holds _ hg).1
          rw [← hid] at hissued
          exact hnew hissued
        exact ⟨fun hid => absurd hid hne, fun hid => absurd hid.symm hne⟩
      | _ => exact ⟨trivial, trivial⟩
    · obtain rfl := insertWorkspace_ok out ha
      exact ⟨rfl, Set.mem_insert _ _⟩
  | db c =>
    cases c with
    | findWorkspace id =>
      cases hfound : s.db.workspaces.find? (·.id == id) with
      | none =>
        refine ⟨k, le_refl k, hfits, fun _ a ha w hw => ?_⟩
        cases ha
        cases hfound.symm.trans hw
      | some w =>
        have hmem := List.mem_of_find?_eq_some hfound
        have hid : w.id = id := by simpa using List.find?_some hfound
        have howner : (Fact.owner w.id w.ownerId).Holds (s.spend env) := ⟨w, hmem, rfl, rfl⟩
        refine ⟨insert (.owner w.id w.ownerId) k, Set.subset_insert _ _,
          hfits.learn (f := .owner w.id w.ownerId) howner fun g _ => by cases g <;> exact ⟨trivial, trivial⟩, fun hspells a ha x hx => ?_⟩
        cases ha
        cases hfound.symm.trans hx
        refine ⟨hid, Set.mem_insert _ _, fun u hu howner => ?_⟩
        simp only [spells, List.all_eq_true, Option.all_eq_true] at hspells
        simpa [hid, howner] using hspells w hmem u hu
    | findMember w u =>
      cases hfound : s.db.member? w u with
      | none =>
        refine ⟨k, le_refl k, hfits, fun _ a ha m hm => ?_⟩
        cases ha
        cases hfound.symm.trans hm
      | some m =>
        have hmem := List.mem_of_find?_eq_some hfound
        have hkey := List.find?_some hfound
        simp only [Bool.and_eq_true, beq_iff_eq] at hkey
        refine ⟨insert (.row m.id m.workspaceId m.userId) k, Set.subset_insert _ _, hfits.learn ?_ ?_,
          fun _ a ha x hx => ?_⟩
        · refine ⟨List.mem_cons_of_mem _ (h.members m hmem), fun x hx hid => ?_⟩
          obtain rfl := Table.eq_of_key h.rows hx hmem hid
          exact ⟨rfl, rfl⟩
        · intro g hg
          cases g with
          | row id w' u' =>
            have hrow := (h.holds _ hg).2 m hmem
            exact ⟨hrow, fun hid => ⟨(hrow hid.symm).1.symm, (hrow hid.symm).2.symm⟩⟩
          | _ => exact ⟨trivial, trivial⟩
        · cases ha
          cases hfound.symm.trans hx
          exact ⟨Set.mem_insert _ _, hkey⟩
    | _ => exact ⟨k, le_refl k, hfits, fun _ _ _ => trivial⟩
  | _ => exact ⟨k, le_refl k, hfits, fun _ _ _ => trivial⟩

variable (out) in
theorem fleet_fits : (fleet out).FitsUnder (fun job s c => spells job s c = true) contract Knowledge.Fits where
  spend h _ := h.spend _
  call h admits hpre := h.call admits hpre

end

/-! ### Every request keeps its contract -/

section
variable {job : Job} {k : Knowledge} {out : Outside}

/-- A call for which nothing must be known. -/
def Call.Free (c : Call) : Prop := ∀ k : Knowledge, c.pre k

theorem free_meets {α : Type} {p : Service α} (h : p.Calls Call.Free) : p.Meets (contract job) (fun _ _ => True) k :=
  Prog.Calls.meets (h.mono fun _ hc => ⟨hc, fun _ _ h => h⟩)

theorem call_meets {α : Type} {c : Call} {f : c.Reply → Service α} {Q : Knowledge → α → Prop} (pre : c.pre k)
    (next : ∀ k', k ≤ k' → ∀ a, Call.post job k' c a → (f a).Meets (contract job) Q k') :
    ((perform c).bind f).Meets (contract job) Q k :=
  Prog.Meets.perform_bind pre (fun _ _ h => congrArg f h) next

theorem last_meets {c : Call} (pre : c.pre k) : (perform c).Meets (contract job) (fun _ _ => True) k :=
  Prog.Meets.perform pre (fun _ _ h => h) fun _ _ _ _ => trivial

theorem invites_meets {α : Type} {p : Service α} (h : p.Calls Call.Invites) : p.Meets (contract job) (fun _ _ => True) k := by
  refine free_meets (h.mono fun c hc k => ?_)
  match c with
  | .db c => cases c <;> trivial
  | .commitCreate .. => exact hc.elim
  | .countSlug _ | .insertWorkspace _ | .workspacesOf _ | .membersOf _ | .cacheGet _ | .cacheSet _ _ | .cacheDel _
  | .findUserByEmail _ | .findPending _ _ | .insertInvitation _ | .invitationsOf _ | .findInvitation _ _ => trivial

theorem create_meets (ownerId : Uuid) (dto : CreateWorkspaceDto) :
    (WorkspacesService.create out ownerId dto).Meets (contract job) (fun _ _ => True) k := by
  refine call_meets trivial fun k₁ _ count _ => ?_
  split
  · trivial
  · refine call_meets trivial fun k₂ _ w hw => ?_
    obtain ⟨howner, hnamed⟩ := hw
    refine call_meets ⟨hnamed, ?_⟩ fun _ _ _ _ => trivial
    rw [howner]

/-- The workspace that a request found, and who owns it. -/
theorem findByIdOrFail_meets (id : UuidText) : (WorkspacesService.findByIdOrFail id).Meets (contract job)
    (fun k w => w.id = id.uuid ∧ .owner w.id w.ownerId ∈ k ∧
      ∀ u ∈ job.target?, w.ownerId = u.uuid → w.ownerId.text = u) k := by
  rw [WorkspacesService.findByIdOrFail_eq]
  refine call_meets trivial fun k' _ a ha => ?_
  cases a with
  | none => trivial
  | some w => exact ha w rfl

/-- The row of a member who is not the owner. -/
theorem spared {w u : UuidText} {ws : Workspace} {m : WorkspaceMember} (hid : ws.id = w.uuid)
    (owner : .owner ws.id ws.ownerId ∈ k) (other : ws.ownerId ≠ u.uuid) (row : .row m.id m.workspaceId m.userId ∈ k)
    (hw : m.workspaceId = w.uuid) (hu : m.userId = u.uuid) : k.Spares m := by
  refine ⟨row, ws.ownerId, ?_, ?_⟩
  · rw [hw, ← hid]
    exact owner
  · rw [hu]
    exact other

theorem updateMemberRole_meets {w u : UuidText} (role : WorkspaceRole) (target : job.target? = some u) :
    (WorkspacesService.updateMemberRole w u role).Meets (contract job) (fun _ _ => True) k := by
  rw [WorkspacesService.updateMemberRole_eq]
  refine (findByIdOrFail_meets w).bind fun k₁ _ ws ⟨hid, howner, hspells⟩ => ?_
  split
  · trivial
  · next htext =>
    have hother : ws.ownerId ≠ u.uuid := fun h => htext (hspells u target h)
    refine call_meets trivial fun k₂ hk a ha => ?_
    cases a with
    | none => trivial
    | some m =>
      obtain ⟨hrow, hw, hu⟩ := ha m rfl
      have hspared : k₂.Spares { m with role := role } := spared hid (hk howner) hother hrow hw hu
      exact call_meets hspared fun _ _ _ _ => call_meets trivial fun _ _ _ _ => trivial

theorem removeMember_meets {w u : UuidText} (target : job.target? = some u) :
    (WorkspacesService.removeMember w u).Meets (contract job) (fun _ _ => True) k := by
  rw [WorkspacesService.removeMember_eq]
  refine (findByIdOrFail_meets w).bind fun k₁ _ ws ⟨hid, howner, hspells⟩ => ?_
  split
  · trivial
  · next htext =>
    have hother : ws.ownerId ≠ u.uuid := fun h => htext (hspells u target h)
    refine call_meets trivial fun k₂ hk a ha => ?_
    cases a with
    | none => trivial
    | some m =>
      obtain ⟨hrow, hw, hu⟩ := ha m rfl
      exact call_meets (spared hid (hk howner) hother hrow hw hu) fun _ _ _ _ => last_meets trivial

theorem getMembership_calls (w u : UuidText) : (WorkspacesService.getMembership w u).Calls Call.Free := by
  rw [WorkspacesService.getMembership_eq]
  refine (Prog.calls_perform fun _ => trivial).bind fun cached => ?_
  cases cached with
  | some m => trivial
  | none =>
    refine (Prog.calls_perform fun _ => trivial).bind fun m => ?_
    cases m with
    | none => trivial
    | some m => exact (Prog.calls_perform fun _ => trivial).bind fun _ => trivial

theorem memberGuard_calls (w : UuidText) (u : Uuid) : (WorkspaceMemberGuard.canActivate w u).Calls Call.Free := by
  refine (getMembership_calls w u.text).bind fun m => ?_
  cases m <;> trivial

theorem adminOnly_calls (w : UuidText) (u : Uuid) : (adminOnly w u).Calls Call.Free := by
  refine (memberGuard_calls w u).bind fun role => ?_
  unfold RolesGuard.canActivate
  split
  · trivial
  · split <;> trivial

variable (out) in
theorem program_meets (job : Job) (k : Knowledge) : (job.program out).Meets (contract job) (fun _ _ => True) k := by
  have wrap : ∀ {α : Type} {p : Service α} {f : α → Response} {k : Knowledge}, p.Meets (contract job) (fun _ _ => True) k →
      (p.bind fun a => .ret (f a)).Meets (contract job) (fun _ _ => True) k := fun h => h.bind fun _ _ _ _ => trivial
  have admin : ∀ {w u k} {p : Service Response}, (∀ k', p.Meets (contract job) (fun _ _ => True) k') →
      ((adminOnly w u).bind fun _ => p).Meets (contract job) (fun _ _ => True) k :=
    fun h => (free_meets (adminOnly_calls _ _)).bind fun k' _ _ _ => h k'
  have member : ∀ {w u k} {p : Service Response}, (∀ k', p.Meets (contract job) (fun _ _ => True) k') →
      ((WorkspaceMemberGuard.canActivate w u).bind fun _ => p).Meets (contract job) (fun _ _ => True) k :=
    fun h => (free_meets (memberGuard_calls _ _)).bind fun k' _ _ _ => h k'
  match job with
  | .forget key => exact call_meets trivial fun _ _ _ _ => trivial
  | .remember key m => exact call_meets trivial fun _ _ _ _ => trivial
  | .request ⟨u, .create dto⟩ => exact wrap (create_meets u dto)
  | .request ⟨u, .listMine⟩ => exact wrap (last_meets trivial)
  | .request ⟨u, .get w⟩ => exact member fun _ => (findByIdOrFail_meets w).bind fun _ _ _ _ => trivial
  | .request ⟨u, .members w⟩ => exact member fun _ => wrap (last_meets trivial)
  | .request ⟨u, .updateRole w v role⟩ => exact admin fun _ => wrap (updateMemberRole_meets role rfl)
  | .request ⟨u, .removeMember w v⟩ => exact admin fun _ => wrap (removeMember_meets rfl)
  | .request ⟨u, .invite w dto⟩ => exact admin fun _ => wrap (invites_meets (invite_calls w u dto))
  | .request ⟨u, .listInvitations w⟩ => exact admin fun _ => wrap (last_meets trivial)
  | .request ⟨u, .revoke w id⟩ => exact admin fun _ => wrap (invites_meets (revoke_calls out w id))
  | .request ⟨u, .accept token⟩ => exact wrap (invites_meets (accept_calls out u _ token))

end

/-! ### Every run -/

theorem fits_initial (users : List Uuid) (generated : Generated) : Knowledge.Fits ∅ (initial users generated) where
  ids := List.nodup_nil
  rows := List.nodup_nil
  workspaces _ hw := absurd hw List.not_mem_nil
  members _ hm := absurd hm List.not_mem_nil
  owners _ hw := absurd hw List.not_mem_nil
  holds _ hf := absurd hf (Set.notMem_empty _)
  agree _ hf := absurd hf (Set.notMem_empty _)

/-- Every workspace has one row of its owner, an administrator's, in every run whose requests spell the owner as
    Postgres does when they are about him. -/
theorem owner_is_admin (out : Outside) (users : List Uuid) (generated : Generated) {d : State}
    (hr : (fleet out).Reach (fun c m => spellsOwner c m = true) (.initial (initial users generated)) d) :
    ∀ w ∈ d.shared.db.workspaces, d.shared.ownerRoles w = [.ADMIN] := by
  have hallowed : ∀ {c : State} {i env t op}, spellsOwner c (.call i .answered env) = true → c.threads[i]? = some t →
      t.next? = some op → spells t.request c.shared op = true := by
    intro c i env t op hok ht hnext
    simpa only [spellsOwner, ht, hnext, Option.all_some] using hok
  obtain ⟨k, -, hfits, -⟩ := (fleet_fits out).reach (program_meets out) hallowed (fits_initial users generated) hr
  exact hfits.owners

/-- The `n`-th move is a call of the request `i`. -/
def calls (i : Nat) (ns : List Nat) : List (Move interface Job) := ns.map fun n => .call i .answered (envAt n)

/-- User 10 creates a workspace, and 5 joins it; while 10 makes 5 an administrator he removes him, and the role that was
    set meanwhile brings the membership back. -/
def returned : List (Move interface Job) :=
  .start (.request ⟨10, .create ⟨"acme", none⟩⟩) (envAt 1) :: calls 0 [2, 3, 4] ++
  .start (.request ⟨10, .invite (Uuid.text 103) ⟨"new@acme.com", none⟩⟩) (envAt 5) :: calls 1 (List.range' 6 7) ++
  .start (.request ⟨5, .accept (envAt 11).random⟩) (envAt 20) :: calls 2 [21, 22, 23] ++
  .start (.request ⟨10, .updateRole (Uuid.text 103) (Uuid.text 5) .ADMIN⟩) (envAt 30) :: calls 3 [31, 32, 33] ++
  .start (.request ⟨10, .removeMember (Uuid.text 103) (Uuid.text 5)⟩) (envAt 40) :: calls 4 [41, 42, 43, 44] ++
  calls 3 [50]

theorem owner_is_admin_returned : ∃ d, (fleet acme).Reach (fun c m => spellsOwner c m = true)
    (.initial (initial [5, 10] ⟨[], []⟩)) d ∧ d.shared.db.members.map (·.userId) = [10, 5] ∧
    ∀ w ∈ d.shared.db.workspaces, d.shared.ownerRoles w = [.ADMIN] := by
  have hrun : ∃ d, (fleet acme).Reach (fun c m => spellsOwner c m = true) (.initial (initial [5, 10] ⟨[], []⟩)) d ∧
      d.shared.db.members.map (·.userId) = [10, 5] := System.reach_exists returned (by decide +kernel)
  obtain ⟨d, hr, hmembers⟩ := hrun
  exact ⟨d, hr, hmembers, owner_is_admin acme [5, 10] ⟨[], []⟩ hr⟩

/-- The owner sets his own role, his id in capitals. -/
def resigned : List (Move interface Job) :=
  .start (.request ⟨10, .create ⟨"acme", none⟩⟩) (envAt 1) :: calls 0 [2, 3, 4] ++
  .start (.request ⟨10, .updateRole (Uuid.text 103) ⟨10, 1⟩ .MEMBER⟩) (envAt 5) :: calls 1 (List.range' 6 6)

/-- The workspace has no administrator left. -/
theorem owner_demoted : ∃ d, (fleet acme).Reach (fun _ _ => True) (.initial (initial [5, 10] ⟨[], []⟩)) d ∧
    ∃ w ∈ d.shared.db.workspaces, d.shared.ownerRoles w = [.MEMBER] :=
  System.reach_exists resigned (by decide +kernel)

end TaskPlatform.Access

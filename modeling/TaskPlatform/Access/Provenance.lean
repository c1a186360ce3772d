import TaskPlatform.Access.Serving
import TaskPlatform.Library.Trace

/-! Where memberships come from: the history of one API process that serves requests one after another. -/

namespace TaskPlatform.Access
open Effects Workspaces

/-- The process serves a request, or a cached membership expires. -/
inductive Step where
  | request (r : Request) (env : Nat → Env)
  | expire (key : MembershipKey)

def step (out : Outside) (s : Tables) : Step → Option Tables
  | .request r env => if (system out).Serves r env s then some ((system out).serve r env s).2 else none
  | .expire key => some { s with cache := s.cache.filter (·.1 ≠ key) }

/-- The tables before there is a workspace. -/
def initial (users : List Uuid) (generated : Generated) : Tables := ⟨⟨users, [], [], [], [], generated⟩, []⟩

/-! ### What happens in a step -/

def Creates (out : Outside) (s : Tables) (m : Step) (u w : Uuid) : Prop :=
  ∃ dto env x, m = .request ⟨u, .create dto⟩ env ∧
    ((system out).serve ⟨u, .create dto⟩ env s).1 = .ok (.workspace x) ∧ x.id = w

def Issues (out : Outside) (s : Tables) (m : Step) (inviter : Uuid) (inv : WorkspaceInvitation) : Prop :=
  ∃ w dto env, m = .request ⟨inviter, .invite w dto⟩ env ∧
    ((system out).serve ⟨inviter, .invite w dto⟩ env s).1 = .ok (.invitation inv)

/-- At `now` the user accepts the invitation, and gets the membership. -/
def Accepts (out : Outside) (s : Tables) (m : Step) (u : Uuid) (inv : WorkspaceInvitation) (now : Date)
    (member : WorkspaceMember) : Prop :=
  inv ∈ s.db.invitations ∧ ∃ env, m = .request ⟨u, .accept inv.token⟩ env ∧ now = (env 1).now ∧
    ((system out).serve ⟨u, .accept inv.token⟩ env s).1 = .ok (.accepted (some member))

def SetsRole (out : Outside) (s : Tables) (m : Step) (caller w u : Uuid) (role : WorkspaceRole) : Prop :=
  ∃ wt ut env member, m = .request ⟨caller, .updateRole wt ut role⟩ env ∧ wt.uuid = w ∧ ut.uuid = u ∧
    ((system out).serve ⟨caller, .updateRole wt ut role⟩ env s).1 = .ok (.updated member)

/-! ### Provenance -/

section
variable (out : Outside) (s₀ : Tables) (ms : List Step)

/-- The tables `s` before the step `i`, which is `m`. -/
abbrev Happens (i : Nat) (s : Tables) (m : Step) : Prop := Trace.At (step out) s₀ ms i s m

/-- The user created the workspace. -/
def Creator (u w : Uuid) : Prop := ∃ i s m, Happens out s₀ ms i s m ∧ Creates out s m u w

/-- A user who was an administrator of the workspace then issued the invitation, before the step `j`. -/
def IssuedBefore (j : Nat) (inv : WorkspaceInvitation) : Prop :=
  ∃ i s m inviter, i < j ∧ Happens out s₀ ms i s m ∧ Issues out s m inviter inv ∧ s.IsAdmin inviter inv.workspaceId

/-- In the step `j` the user accepted the invitation, then pending, not expired and addressed to him; this created the
    membership. -/
def AcceptedAt (j : Nat) (inv : WorkspaceInvitation) (row : WorkspaceMember) : Prop :=
  ∃ s m now member, Happens out s₀ ms j s m ∧ Accepts out s m row.userId inv now member ∧ inv.status = .PENDING ∧
    now ≤ inv.expiresAt ∧ out.toLowerCase inv.email = out.toLowerCase (out.email row.userId) ∧
    inv.workspaceId = row.workspaceId ∧ s.db.member? row.workspaceId row.userId = none ∧ member.id = row.id

/-- Nobody sets the role of the member after the step `i`. -/
def Untouched (i : Nat) (w u : Uuid) : Prop :=
  ∀ j s m, i < j → Happens out s₀ ms j s m → ∀ caller role, ¬SetsRole out s m caller w u role

/-- After the step `j` the role is `first`, or what a user who was an administrator then set it to last. -/
def LatestRole (j : Nat) (w u : Uuid) (first role : WorkspaceRole) : Prop :=
  (role = first ∧ Untouched out s₀ ms j w u) ∨
    ∃ i s m caller, j < i ∧ Happens out s₀ ms i s m ∧ SetsRole out s m caller w u role ∧ s.IsAdmin caller w ∧
      Untouched out s₀ ms i w u

/-- The member created the workspace and is an administrator, or was invited and has the latest role. -/
def Provenance (row : WorkspaceMember) : Prop :=
  (Creator out s₀ ms row.userId row.workspaceId ∧ row.role = .ADMIN) ∨
    (¬Creator out s₀ ms row.userId row.workspaceId ∧ ∃ j inv, IssuedBefore out s₀ ms j inv ∧
      AcceptedAt out s₀ ms j inv row ∧ LatestRole out s₀ ms j row.workspaceId row.userId inv.role row.role)

end

/-! ### The spelling of ids -/

/-- The membership that a request is to change, and the key under which it is deleted from the cache. -/
def Tables.target? (s : Tables) (r : Request) : Option (MembershipKey × WorkspaceMember) :=
  match r.operation with
  | .updateRole w u role => ((s.governed? r.userId w u).filter (·.role ≠ role)).map (⟨w, u⟩, ·)
  | .removeMember w u => (s.governed? r.userId w u).map (⟨w, u⟩, ·)
  | _ => none

/-- The cached memberships once the guards have let the caller pass. -/
def Tables.cacheFor (s : Tables) (caller : Uuid) (w : UuidText) : List (MembershipKey × WorkspaceMember) :=
  s.cache ++ (s.db.members.filter fun m => m.workspaceId = w.uuid && m.userId = caller).map (⟨w, caller.text⟩, ·)

/-- A request that changes a membership does not name the owner, and deletes the membership from the cache under each
    of its keys. -/
def Spelled (s : Tables) : Step → Prop
  | .request r _ => ∀ x ∈ s.target? r, (∀ w ∈ s.db.workspaces, w.id = x.2.workspaceId → w.ownerId ≠ x.2.userId) ∧
      ∀ e ∈ s.cacheFor r.userId x.1.workspaceId, e.2.id = x.2.id → e.1 = x.1
  | .expire _ => True

instance (s : Tables) : DecidablePred (Spelled s)
  | .request r _ => inferInstanceAs (Decidable (∀ x ∈ s.target? r,
      (∀ w ∈ s.db.workspaces, w.id = x.2.workspaceId → w.ownerId ≠ x.2.userId) ∧
        ∀ e ∈ s.cacheFor r.userId x.1.workspaceId, e.2.id = x.2.id → e.1 = x.1))
  | .expire _ => inferInstanceAs (Decidable True)

/-! ### The tables -/

/-- What the tables keep as long as requests are spelled so. -/
structure Tables.Sound (s : Tables) : Prop where
  coherent : s.Coherent
  ids : (s.db.members.map WorkspaceMember.id).Nodup
  generated : ∀ m ∈ s.db.members, m.id ∈ s.db.generated.uuids
  unique : ∀ a ∈ s.db.members, ∀ b ∈ s.db.members, a.workspaceId = b.workspaceId → a.userId = b.userId → a = b

section
variable {out : Outside} {s s' : Tables} {w u : UuidText} {caller : Uuid} {m : WorkspaceMember} {r : Request}
  {env : Nat → Env} {now : Date} {result : Except Err Response} {role : WorkspaceRole}

theorem Tables.Sound.same (h : s.Sound) (grown : Grown s s') (members : s'.db.members = s.db.members)
    (cache : CachedFrom s s') : s'.Sound where
  coherent e he := members ▸ (cache e he).elim (h.coherent e) id
  ids := members ▸ h.ids
  generated m hm := grown (h.generated m (members ▸ hm))
  unique := members ▸ h.unique

theorem Tables.Sound.append (h : s.Sound) (new : s.db.member? m.workspaceId m.userId = none)
    (fresh : m.id ∉ s.db.generated.uuids ∧ m.id ∈ s'.db.generated.uuids) (grown : Grown s s')
    (members : s'.db.members = s.db.members ++ [m]) (cache : CachedFrom s s') : s'.Sound where
  coherent e he := by
    obtain ⟨hmem, hrow⟩ := (cache e he).elim (h.coherent e) id
    exact ⟨members ▸ List.mem_append_left _ hmem, hrow⟩
  ids := by
    rw [members, List.map_append, List.map_singleton]
    refine List.nodup_append.mpr ⟨h.ids, List.nodup_singleton _, fun a ha b hb => ?_⟩
    rintro rfl
    obtain ⟨r, hr, hid⟩ := List.mem_map.mp ha
    exact fresh.1 (List.mem_singleton.mp hb ▸ hid ▸ h.generated r hr)
  generated r hr := by
    rw [members] at hr
    rcases List.mem_append.mp hr with hr | hr
    · exact grown (h.generated r hr)
    · exact List.mem_singleton.mp hr ▸ fresh.2
  unique a ha b hb hw hu := by
    rw [members] at ha hb
    rcases List.mem_append.mp ha with ha' | ha' <;> rcases List.mem_append.mp hb with hb' | hb'
    · exact h.unique a ha' b hb' hw hu
    · obtain rfl := List.mem_singleton.mp hb'
      exact absurd hu (member?_none new a ha' hw)
    · obtain rfl := List.mem_singleton.mp ha'
      exact absurd hu.symm (member?_none new b hb' hw.symm)
    · rw [List.mem_singleton.mp ha', List.mem_singleton.mp hb']

/-- What a request leaves in the cache is not of the member that it changes. -/
theorem Governed.cached {rows : List WorkspaceMember} (h : Governed s s' caller w u m rows) (coherent : s.Coherent)
    (spelled : ∀ e ∈ s.cacheFor caller w, e.2.id = m.id → e.1 = ⟨w, u⟩) :
    ∀ e ∈ s'.cache, Holds s.db.members e ∧ e.2.id ≠ m.id := by
  intro e he
  obtain ⟨hne, he | ⟨hkey, hholds⟩⟩ := h.cache e he
  · exact ⟨coherent e he, fun hid => hne (spelled e (List.mem_append_left _ he) hid)⟩
  · refine ⟨hholds, fun hid => hne (spelled e (List.mem_append_right _ ?_) hid)⟩
    obtain ⟨hmem, hw, hu⟩ := hholds
    rw [hkey] at hw hu
    refine List.mem_map.mpr ⟨e.2, List.mem_filter.mpr ⟨hmem, ?_⟩, ?_⟩
    · rw [hw, hu]
      exact Bool.and_eq_true_iff.mpr ⟨decide_eq_true rfl, decide_eq_true rfl⟩
    · rw [← hkey]

theorem Governed.cachedFrom {rows : List WorkspaceMember} (h : Governed s s' caller w u m rows) : CachedFrom s s' :=
  fun e he => (h.cache e he).2.imp_right And.right

/-- The row of a member whose role is set to another one. -/
theorem Tables.Sound.roleSet (h : s.Sound)
    (governed : Governed s s' caller w u m (Table.replace WorkspaceMember.id { m with role := role } s.db.members))
    (spelled : ∀ e ∈ s.cacheFor caller w, e.2.id = m.id → e.1 = ⟨w, u⟩) : s'.Sound := by
  obtain ⟨hm, -⟩ := governed_mem governed.governed
  have hrows : ∀ r, r ∈ s'.db.members ↔ r = { m with role := role } ∨ r ∈ s.db.members ∧ r.id ≠ m.id := fun r => by
    rw [governed.members]
    exact Table.mem_replace ⟨m, hm, rfl⟩
  refine ⟨fun e he => ?_, ?_, fun r hr => ?_, fun a ha b hb hw hu => ?_⟩
  · obtain ⟨⟨hmem, hrow⟩, hid⟩ := governed.cached h.coherent spelled e he
    exact ⟨(hrows _).mpr (Or.inr ⟨hmem, hid⟩), hrow⟩
  · rw [governed.members, Table.map_key_replace]
    exact h.ids
  · rcases (hrows r).mp hr with rfl | ⟨hr, -⟩
    · exact governed.grown (h.generated m hm)
    · exact governed.grown (h.generated r hr)
  · rcases (hrows a).mp ha with rfl | ⟨ha, hna⟩ <;> rcases (hrows b).mp hb with rfl | ⟨hb, hnb⟩
    · rfl
    · exact absurd (congrArg WorkspaceMember.id (h.unique m hm b hb hw hu)).symm hnb
    · exact absurd (congrArg WorkspaceMember.id (h.unique a ha m hm hw hu)) hna
    · exact h.unique a ha b hb hw hu

theorem Tables.Sound.removed (h : s.Sound)
    (governed : Governed s s' caller w u m (s.db.members.filter (·.id != m.id)))
    (spelled : ∀ e ∈ s.cacheFor caller w, e.2.id = m.id → e.1 = ⟨w, u⟩) : s'.Sound := by
  have hrows : ∀ r, r ∈ s'.db.members ↔ r ∈ s.db.members ∧ r.id ≠ m.id := fun r => by
    rw [governed.members, List.mem_filter, bne_iff_ne]
  refine ⟨fun e he => ?_, ?_, fun r hr => ?_, fun a ha b hb => ?_⟩
  · obtain ⟨⟨hmem, hrow⟩, hid⟩ := governed.cached h.coherent spelled e he
    exact ⟨(hrows _).mpr ⟨hmem, hid⟩, hrow⟩
  · rw [governed.members]
    exact h.ids.sublist (List.filter_sublist.map _)
  · exact governed.grown (h.generated r ((hrows r).mp hr).1)
  · exact h.unique a ((hrows a).mp ha).1 b ((hrows b).mp hb).1

/-! ### What happened tells what was done -/

theorem Creates.effect {i : Step} {v x : Uuid} (h : Creates out s i v x) (hi : i = .request r env)
    (he : Effect out s now r ((system out).serve r env s).1 s') : ∃ ws m, Created s s' v ws m ∧ ws.id = x := by
  subst hi
  obtain ⟨dto, env', ws, heq, hres, hid⟩ := h
  obtain ⟨rfl, rfl⟩ := Step.request.inj heq
  rw [hres] at he
  cases he with
  | reads unchanged => exact absurd trivial unchanged
  | created h => exact ⟨ws, _, h, hid⟩

/-- Setting a role is done to the member of the request, by an administrator. -/
theorem SetsRole.effect {i : Step} {v w' u' : Uuid} (h : SetsRole out s i v w' u' role) (hi : i = .request r env)
    (he : Effect out s now r ((system out).serve r env s).1 s') :
    r.operation.Changes ((system out).serve r env s).1 ∧ ∃ w u m, r = ⟨v, .updateRole w u role⟩ ∧
      Governed s s' v w u m (Table.replace WorkspaceMember.id { m with role := role } s.db.members) ∧
      m.workspaceId = w' ∧ m.userId = u' := by
  subst hi
  obtain ⟨wt, ut, env', member, heq, rfl, rfl, hres⟩ := h
  obtain ⟨rfl, rfl⟩ := Step.request.inj heq
  rw [hres] at he ⊢
  cases he with
  | reads unchanged => exact absurd trivial unchanged
  | roleSet h =>
    obtain ⟨-, hw, hu, -⟩ := governed_mem h.governed
    exact ⟨trivial, wt, ut, _, rfl, h, hw, hu⟩

/-! ### One step more -/

section
variable {s₀ : Tables} {ms : List Step} {i : Step} {row : WorkspaceMember} {j : Nat} {v x : Uuid}

theorem creator_concat (hrun : Trace.run (step out) s₀ ms = some s) :
    Creator out s₀ (ms ++ [i]) v x ↔ Creator out s₀ ms v x ∨ Creates out s i v x := by
  constructor
  · rintro ⟨k, t, m, hat, h⟩
    rcases Trace.at_concat.mp hat with hat | ⟨-, rfl, ht⟩
    · exact Or.inl ⟨k, t, m, hat, h⟩
    · exact Or.inr (Option.some.inj (hrun.symm.trans ht) ▸ h)
  · rintro (⟨k, t, m, hat, h⟩ | h)
    · exact ⟨k, t, m, hat.concat, h⟩
    · exact ⟨ms.length, s, i, Trace.at_last hrun, h⟩

theorem IssuedBefore.concat {inv : WorkspaceInvitation} {k : Nat} (h : IssuedBefore out s₀ ms j inv) (hk : j ≤ k) :
    IssuedBefore out s₀ (ms ++ [i]) k inv := by
  obtain ⟨l, t, m, inviter, hl, hat, h⟩ := h
  exact ⟨l, t, m, inviter, Nat.lt_of_lt_of_le hl hk, hat.concat, h⟩

theorem AcceptedAt.concat {inv : WorkspaceInvitation} (h : AcceptedAt out s₀ ms j inv row) :
    AcceptedAt out s₀ (ms ++ [i]) j inv row := by
  obtain ⟨t, m, now, member, hat, h⟩ := h
  exact ⟨t, m, now, member, hat.concat, h⟩

theorem Untouched.concat (hrun : Trace.run (step out) s₀ ms = some s) (h : Untouched out s₀ ms j x v)
    (hno : ∀ caller role, ¬SetsRole out s i caller x v role) : Untouched out s₀ (ms ++ [i]) j x v := by
  intro k t m hk hat caller role hset
  rcases Trace.at_concat.mp hat with hat | ⟨-, rfl, ht⟩
  · exact h k t m hk hat caller role hset
  · exact hno caller role (Option.some.inj (hrun.symm.trans ht) ▸ hset)

/-- Nothing comes after the last step. -/
theorem untouched_last : Untouched out s₀ (ms ++ [i]) ms.length x v := by
  intro k t m hk hat
  have := hat.lt
  rw [List.length_append, List.length_singleton] at this
  omega

theorem LatestRole.concat {first : WorkspaceRole} (hrun : Trace.run (step out) s₀ ms = some s)
    (h : LatestRole out s₀ ms j x v first role) (hno : ∀ caller role, ¬SetsRole out s i caller x v role) :
    LatestRole out s₀ (ms ++ [i]) j x v first role := by
  rcases h with ⟨hrole, h⟩ | ⟨k, t, m, caller, hk, hat, hset, hadmin, h⟩
  · exact Or.inl ⟨hrole, h.concat hrun hno⟩
  · exact Or.inr ⟨k, t, m, caller, hk, hat.concat, hset, hadmin, h.concat hrun hno⟩

/-- A membership keeps its provenance in a step that neither creates its workspace nor sets its role. -/
theorem Provenance.concat (hrun : Trace.run (step out) s₀ ms = some s) (h : Provenance out s₀ ms row)
    (created : ¬Creates out s i row.userId row.workspaceId)
    (hno : ∀ caller role, ¬SetsRole out s i caller row.workspaceId row.userId role) :
    Provenance out s₀ (ms ++ [i]) row := by
  rcases h with ⟨hc, hrole⟩ | ⟨hc, k, inv, hissued, haccepted, hlatest⟩
  · exact Or.inl ⟨(creator_concat hrun).mpr (Or.inl hc), hrole⟩
  · refine Or.inr ⟨fun h => ?_, k, inv, hissued.concat (Nat.le_refl _), haccepted.concat, hlatest.concat hrun hno⟩
    exact ((creator_concat hrun).mp h).elim hc created

omit s₀ ms i row j v x in
theorem mem_decided {inv inv' : WorkspaceInvitation} {status : InvitationStatus} {rows : List WorkspaceInvitation}
    (mem : inv ∈ rows) (h : inv' ∈ Table.replace WorkspaceInvitation.id { inv with status := status } rows) :
    inv' = { inv with status := status } ∨ inv' ∈ rows := by
  have hid : ∃ r ∈ rows, r.id = ({ inv with status := status } : WorkspaceInvitation).id := ⟨inv, mem, rfl⟩
  exact ((Table.mem_replace hid).mp h).imp_right And.left

/-- What the history and the tables keep as long as requests are spelled so. -/
structure Recorded (out : Outside) (s₀ : Tables) (ms : List Step) (s : Tables) : Prop extends s.Sound where
  creators : ∀ v x, Creator out s₀ ms v x → (∃ ws ∈ s.db.workspaces, ws.id = x ∧ ws.ownerId = v) ∧ s.IsAdmin v x
  issued : ∀ inv ∈ s.db.invitations, IssuedBefore out s₀ ms ms.length { inv with status := .PENDING }
  provenance : ∀ row ∈ s.db.members, Provenance out s₀ ms row

section
variable (h : Recorded out s₀ ms s) (hrun : Trace.run (step out) s₀ ms = some s)
include h hrun

/-- A step that leaves the memberships alone. -/
theorem Recorded.same (sound : s'.Sound) (workspaces : s'.db.workspaces = s.db.workspaces)
    (members : s'.db.members = s.db.members) (created : ∀ v x, ¬Creates out s i v x)
    (set : ∀ caller x v role, ¬SetsRole out s i caller x v role)
    (issued : ∀ inv ∈ s'.db.invitations, inv ∈ s.db.invitations ∨
      IssuedBefore out s₀ (ms ++ [i]) (ms ++ [i]).length { inv with status := .PENDING }) :
    Recorded out s₀ (ms ++ [i]) s' where
  toSound := sound
  creators v x hc := by
    rw [Tables.IsAdmin, workspaces, members]
    exact h.creators v x (((creator_concat hrun).mp hc).resolve_right (created v x))
  issued inv hinv := (issued inv hinv).elim (fun hinv => (h.issued inv hinv).concat (by simp)) id
  provenance row hrow := by
    rw [members] at hrow
    exact (h.provenance row hrow).concat hrun (created _ _) fun caller => set caller _ _

/-- A step that decides on an invitation. -/
theorem Recorded.decided {inv : WorkspaceInvitation} {status : InvitationStatus} (decided : Decided s s' inv status)
    (created : ∀ v x, ¬Creates out s i v x) (set : ∀ caller x v role, ¬SetsRole out s i caller x v role) :
    Recorded out s₀ (ms ++ [i]) s' := by
  refine h.same hrun (h.toSound.same decided.grown decided.members decided.cache) decided.workspaces decided.members
    created set fun r hr => ?_
  rw [decided.invitations] at hr
  rcases mem_decided decided.mem hr with rfl | hr
  · exact Or.inr ((h.issued inv decided.mem).concat (by simp))
  · exact Or.inl hr

/-- A step that adds a membership. -/
theorem Recorded.append {row : WorkspaceMember} (sound : s'.Sound) (members : s'.db.members = s.db.members ++ [row])
    (set : ∀ caller x v role, ¬SetsRole out s i caller x v role)
    (creators : ∀ v x, Creator out s₀ (ms ++ [i]) v x →
      (∃ ws ∈ s'.db.workspaces, ws.id = x ∧ ws.ownerId = v) ∧ s'.IsAdmin v x)
    (issued : ∀ inv ∈ s'.db.invitations, IssuedBefore out s₀ (ms ++ [i]) (ms ++ [i]).length { inv with status := .PENDING })
    (created : ∀ r ∈ s.db.members, ¬Creates out s i r.userId r.workspaceId)
    (provenance : Provenance out s₀ (ms ++ [i]) row) : Recorded out s₀ (ms ++ [i]) s' where
  toSound := sound
  creators := creators
  issued := issued
  provenance r hr := by
    rw [members] at hr
    rcases List.mem_append.mp hr with hr | hr
    · exact (h.provenance r hr).concat hrun (created r hr) fun caller => set caller _ _
    · exact List.mem_singleton.mp hr ▸ provenance

end

/-- Another role is set of a member who does not own the workspace, and all that is cached of the member is under the
    key of the request. -/
theorem Spelled.roleSet (spelled : Spelled s (.request ⟨caller, .updateRole w u role⟩ env))
    (governed : s.governed? caller w u = some m) (other : role ≠ m.role) :
    (∀ ws ∈ s.db.workspaces, ws.id = m.workspaceId → ws.ownerId ≠ m.userId) ∧
      ∀ e ∈ s.cacheFor caller w, e.2.id = m.id → e.1 = ⟨w, u⟩ := by
  refine spelled (⟨w, u⟩, m) ?_
  simp only [Tables.target?, governed, Option.filter_some, ne_eq, other.symm, not_false_eq_true, decide_true, ↓reduceIte,
    Option.map_some, Option.mem_some_iff]

theorem Spelled.removed (spelled : Spelled s (.request ⟨caller, .removeMember w u⟩ env))
    (governed : s.governed? caller w u = some m) :
    (∀ ws ∈ s.db.workspaces, ws.id = m.workspaceId → ws.ownerId ≠ m.userId) ∧
      ∀ e ∈ s.cacheFor caller w, e.2.id = m.id → e.1 = ⟨w, u⟩ := by
  refine spelled (⟨w, u⟩, m) ?_
  simp only [Tables.target?, governed, Option.map_some, Option.mem_some_iff]

/-- The membership of the creator of a workspace is not the one that is changed. -/
theorem Recorded.not_creator (h : Recorded out s₀ ms s)
    (owner : ∀ ws ∈ s.db.workspaces, ws.id = m.workspaceId → ws.ownerId ≠ m.userId) :
    ¬Creator out s₀ ms m.userId m.workspaceId := by
  intro hc
  obtain ⟨ws, hws, hid, how⟩ := (h.creators _ _ hc).1
  exact owner ws hws hid how

theorem Recorded.roleSet (h : Recorded out s₀ ms s) (hrun : Trace.run (step out) s₀ ms = some s)
    (hi : i = .request ⟨caller, .updateRole w u role⟩ env) (spelled : Spelled s i)
    (governed : Governed s s' caller w u m (Table.replace WorkspaceMember.id { m with role := role } s.db.members))
    (set : SetsRole out s i caller m.workspaceId m.userId role)
    (only : ∀ v x y role', SetsRole out s i v x y role' → x = m.workspaceId ∧ y = m.userId) :
    Recorded out s₀ (ms ++ [i]) s' := by
  obtain ⟨hm, hw, hu, hadmin⟩ := governed_mem governed.governed
  have hcreated : ∀ v x, ¬Creates out s i v x := by
    rintro v x ⟨dto, env', ws, heq, -⟩
    cases hi.symm.trans heq
  have hrows : ∀ r, r ∈ s'.db.members ↔ r = { m with role := role } ∨ r ∈ s.db.members ∧ r.id ≠ m.id := fun r => by
    rw [governed.members]
    exact Table.mem_replace ⟨m, hm, rfl⟩
  have howner : Creator out s₀ ms m.userId m.workspaceId → role = m.role := by
    intro hc
    by_contra hne
    exact h.not_creator ((hi ▸ spelled).roleSet governed.governed hne).1 hc
  refine ⟨?_, fun v x hc => ?_, fun inv hinv => ?_, fun r hr => ?_⟩
  · by_cases hrole : role = m.role
    · refine h.toSound.same governed.grown ?_ governed.cachedFrom
      rw [governed.members, hrole]
      exact Table.replace_self h.ids hm
    · exact h.toSound.roleSet governed ((hi ▸ spelled).roleSet governed.governed hrole).2
  · have hc := ((creator_concat hrun).mp hc).resolve_right (hcreated v x)
    obtain ⟨hws, a, ha, hax, hav, hrole⟩ := h.creators v x hc
    refine ⟨governed.workspaces ▸ hws, ?_⟩
    by_cases hid : a.id = m.id
    · obtain rfl := Table.eq_of_key h.ids ha hm hid
      subst hax hav
      exact ⟨_, (hrows _).mpr (Or.inl rfl), rfl, rfl, (howner hc).trans hrole⟩
    · exact ⟨a, (hrows a).mpr (Or.inr ⟨ha, hid⟩), hax, hav, hrole⟩
  · exact (h.issued inv (governed.invitations ▸ hinv)).concat (by simp)
  · rcases (hrows r).mp hr with rfl | ⟨hr, hid⟩
    · -- The member whose role is set now.
      rcases h.provenance m hm with ⟨hc, hrole⟩ | ⟨hc, k, inv, hissued, haccepted, -⟩
      · exact Or.inl ⟨(creator_concat hrun).mpr (Or.inl hc), (howner hc).trans hrole⟩
      · refine Or.inr ⟨fun hc' => ((creator_concat hrun).mp hc').elim hc (hcreated _ _), k, inv,
          hissued.concat (Nat.le_refl _), haccepted.concat, Or.inr ⟨ms.length, s, i, caller, ?_, Trace.at_last hrun, set, ?_,
          untouched_last⟩⟩
        · obtain ⟨t, m', now, member, hat, -⟩ := haccepted
          exact hat.lt
        · rw [hw]
          exact hadmin
    · refine (h.provenance r hr).concat hrun (hcreated _ _) fun v role' hs => hid ?_
      obtain ⟨hx, hy⟩ := only v _ _ role' hs
      rw [h.unique r hr m hm hx hy]

theorem Recorded.removed (h : Recorded out s₀ ms s) (hrun : Trace.run (step out) s₀ ms = some s)
    (hi : i = .request ⟨caller, .removeMember w u⟩ env) (spelled : Spelled s i)
    (governed : Governed s s' caller w u m (s.db.members.filter (·.id != m.id))) : Recorded out s₀ (ms ++ [i]) s' := by
  obtain ⟨hm, -⟩ := governed_mem governed.governed
  obtain ⟨howner, hcache⟩ := (hi ▸ spelled).removed governed.governed
  have hcreated : ∀ v x, ¬Creates out s i v x := by
    rintro v x ⟨dto, env', ws, heq, -⟩
    cases hi.symm.trans heq
  have hset : ∀ v x y role, ¬SetsRole out s i v x y role := by
    rintro v x y role ⟨wt, ut, env', member, heq, -⟩
    cases hi.symm.trans heq
  have hrows : ∀ r, r ∈ s'.db.members ↔ r ∈ s.db.members ∧ r.id ≠ m.id := fun r => by
    rw [governed.members, List.mem_filter, bne_iff_ne]
  refine ⟨h.toSound.removed governed hcache, fun v x hc => ?_, fun inv hinv => ?_, fun r hr => ?_⟩
  · have hc := ((creator_concat hrun).mp hc).resolve_right (hcreated v x)
    obtain ⟨hws, a, ha, hax, hav, hrole⟩ := h.creators v x hc
    refine ⟨governed.workspaces ▸ hws, a, (hrows a).mpr ⟨ha, fun hid => ?_⟩, hax, hav, hrole⟩
    obtain rfl := Table.eq_of_key h.ids ha hm hid
    subst hax hav
    exact h.not_creator howner hc
  · exact (h.issued inv (governed.invitations ▸ hinv)).concat (by simp)
  · exact (h.provenance r ((hrows r).mp hr).1).concat hrun (hcreated _ _) fun v => hset v _ _

theorem Recorded.created (h : Recorded out s₀ ms s) (hrun : Trace.run (step out) s₀ ms = some s) {ws : Workspace}
    (created : Created s s' v ws m) (mine : Creates out s i v ws.id)
    (only : ∀ v' x, Creates out s i v' x → ∃ ws' m', Created s s' v' ws' m' ∧ ws'.id = x)
    (set : ∀ caller x y role, ¬SetsRole out s i caller x y role) : Recorded out s₀ (ms ++ [i]) s' := by
  obtain ⟨hw, hu, hrole⟩ := created.member
  refine h.append hrun (h.toSound.append ?_ created.fresh created.grown created.members created.cache) created.members
    set (fun v' x hc => ?_) (fun inv hinv => ?_) (fun r hr hc => ?_) (Or.inl ⟨?_, hrole⟩)
  · rw [hw, hu]
    exact created.new
  · rcases (creator_concat hrun).mp hc with hc | hc
    · obtain ⟨⟨ws', hws', hid⟩, a, ha, hrow⟩ := h.creators v' x hc
      refine ⟨⟨ws', ?_, hid⟩, a, ?_, hrow⟩
      · exact created.workspaces ▸ List.mem_append_left _ hws'
      · exact created.members ▸ List.mem_append_left _ ha
    · obtain ⟨ws', m', hnew, rfl⟩ := only v' x hc
      refine ⟨⟨ws', ?_, rfl, hnew.owner⟩, m', ?_, hnew.member⟩
      · exact hnew.workspaces ▸ List.mem_append_right _ (List.mem_singleton_self ws')
      · exact hnew.members ▸ List.mem_append_right _ (List.mem_singleton_self m')
  · exact (h.issued inv (created.invitations ▸ hinv)).concat (by simp)
  · obtain ⟨ws', m', hc, hid⟩ := only _ _ hc
    exact member?_none hc.new r hr hid.symm rfl
  · rw [hw, hu]
    exact (creator_concat hrun).mpr (Or.inr mine)

theorem Recorded.joined (h : Recorded out s₀ ms s) (hrun : Trace.run (step out) s₀ ms = some s) {inv : WorkspaceInvitation}
    (joined : Joined out s s' v now inv m) (accepts : Accepts out s i v inv now m)
    (created : ∀ v' x, ¬Creates out s i v' x) (set : ∀ caller x y role, ¬SetsRole out s i caller x y role) :
    Recorded out s₀ (ms ++ [i]) s' := by
  obtain ⟨hw, hu, hrole⟩ := joined.member
  have hpending : { inv with status := .PENDING } = inv := by rw [← joined.pending]
  have hnew : s.db.member? m.workspaceId m.userId = none := by
    rw [hw, hu]
    exact joined.new
  refine h.append hrun (h.toSound.append hnew joined.fresh joined.grown joined.members joined.cache) joined.members
    set (fun v' x hc => ?_) (fun inv' hinv => ?_) (fun r _ => created _ _) (Or.inr ⟨fun hc => ?_, ms.length, inv, ?_, ?_,
    Or.inl ⟨hrole, untouched_last⟩⟩)
  · have hc := ((creator_concat hrun).mp hc).resolve_right (created v' x)
    obtain ⟨hws, a, ha, hrow⟩ := h.creators v' x hc
    exact ⟨joined.workspaces ▸ hws, a, joined.members ▸ List.mem_append_left _ ha, hrow⟩
  · rw [joined.invitations] at hinv
    rcases mem_decided joined.mem hinv with rfl | hinv
    · exact (h.issued inv joined.mem).concat (by simp)
    · exact (h.issued inv' hinv).concat (by simp)
  · -- The creator is a member already.
    obtain ⟨-, a, ha, hax, hav, -⟩ := h.creators _ _ (((creator_concat hrun).mp hc).resolve_right (created _ _))
    exact member?_none hnew a ha hax hav
  · exact (hpending ▸ h.issued inv joined.mem).concat (Nat.le_refl _)
  · refine ⟨s, i, now, m, Trace.at_last hrun, hu.symm ▸ accepts, joined.pending, joined.notExpired, hu.symm ▸ joined.addressed,
      hw.symm, hnew, rfl⟩

/-- A request keeps the record. -/
theorem Recorded.request (h : Recorded out s₀ ms s) (hrun : Trace.run (step out) s₀ ms = some s)
    (served : (system out).Serves r env s) (spelled : Spelled s (.request r env)) :
    Recorded out s₀ (ms ++ [.request r env]) ((system out).serve r env s).2 := by
  have heff := serve_effect h.coherent served
  have hcreated := fun v x (hc : Creates out s (.request r env) v x) => hc.effect rfl heff
  have hset := fun v w' u' role (hs : SetsRole out s (.request r env) v w' u' role) => hs.effect rfl heff
  -- A new workspace comes with a new membership.
  have hnone : ((system out).serve r env s).2.db.members = s.db.members → ∀ v x, ¬Creates out s (.request r env) v x := by
    intro hsame v x hc
    obtain ⟨ws, m, hc, -⟩ := hcreated v x hc
    have := congrArg List.length (hc.members.symm.trans hsame)
    simp at this
  have hother : (∀ v w u role, r ≠ ⟨v, .updateRole w u role⟩) → ∀ v x y role, ¬SetsRole out s (.request r env) v x y role := by
    intro hne v x y role hs
    obtain ⟨-, w, u, m, heq, -⟩ := hset v x y role hs
    exact hne v w u role heq
  generalize ((system out).serve r env s).2 = s' at heff hcreated hset hnone ⊢
  generalize hres : ((system out).serve r env s).1 = result at heff hset
  cases heff with
  | reads unchanged hk =>
    exact h.same hrun (h.toSound.same hk.grown hk.members hk.cache) hk.workspaces hk.members (hnone hk.members)
      (fun v w' u' role hs => unchanged (hset v w' u' role hs).1) fun inv hinv => Or.inl (hk.invitations ▸ hinv)
  | created hc =>
    exact h.created hrun hc ⟨_, env, _, rfl, hres, rfl⟩ hcreated (hother fun _ _ _ _ h => by cases h)
  | roleSet hg =>
    obtain ⟨-, hw, hu, -⟩ := governed_mem hg.governed
    refine h.roleSet hrun rfl spelled hg ⟨_, _, env, _, rfl, hw.symm, hu.symm, hres⟩ fun v x y role' hs => ?_
    obtain ⟨-, w', u', m', heq, hg', hx, hy⟩ := hset v x y role' hs
    cases heq
    cases hg.governed.symm.trans hg'.governed
    exact ⟨hx.symm, hy.symm⟩
  | removed hg => exact h.removed hrun rfl spelled hg
  | invited hi =>
    refine h.same hrun (h.toSound.same hi.grown hi.members hi.cache) hi.workspaces hi.members (hnone hi.members)
      (hother fun _ _ _ _ h => by cases h) fun inv hinv => ?_
    rw [hi.invitations] at hinv
    refine (List.mem_append.mp hinv).imp_right fun hinv => ?_
    obtain rfl := List.mem_singleton.mp hinv
    rw [show { inv with status := .PENDING } = inv by rw [← hi.pending]]
    exact ⟨ms.length, s, _, _, by simp, Trace.at_last hrun, ⟨_, _, env, rfl, hres⟩, hi.workspace ▸ hi.admin⟩
  | revoked hd | expired hd | again _ hd =>
    exact h.decided hrun hd (hnone hd.members) (hother fun _ _ _ _ h => by cases h)
  | joined presented hj =>
    subst presented
    refine h.joined hrun hj ⟨hj.mem, env, rfl, rfl, hres⟩ (fun v x hc => ?_) (hother fun _ _ _ _ h => by cases h)
    obtain ⟨dto, env', ws, heq, -⟩ := hc
    cases heq

/-! ### Every run -/

theorem recorded_initial (users : List Uuid) (generated : Generated) :
    Recorded out (initial users generated) [] (initial users generated) where
  coherent _ he := absurd he List.not_mem_nil
  ids := List.nodup_nil
  generated _ hm := absurd hm List.not_mem_nil
  unique _ ha := absurd ha List.not_mem_nil
  creators _ _ hc := by
    obtain ⟨i, t, m, hat, -⟩ := hc
    exact absurd hat.lt (Nat.not_lt_zero i)
  issued _ hinv := absurd hinv List.not_mem_nil
  provenance _ hrow := absurd hrow List.not_mem_nil

theorem Recorded.step (h : Recorded out s₀ ms s) (hrun : Trace.run (step out) s₀ ms = some s) (spelled : Spelled s i)
    (hs : step out s i = some s') : Recorded out s₀ (ms ++ [i]) s' := by
  cases i with
  | request r env =>
    rw [Access.step] at hs
    split at hs
    · next served =>
      cases hs
      exact h.request hrun served spelled
    · cases hs
  | expire key =>
    cases hs
    have hcache : CachedFrom s { s with cache := s.cache.filter (·.1 ≠ key) } :=
      fun e he => Or.inl (List.mem_filter.mp he).1
    refine h.same hrun (h.toSound.same (fun _ hx => hx) rfl hcache) rfl rfl ?_ ?_ fun _ => Or.inl
    · rintro v x ⟨dto, env, ws, heq, -⟩
      cases heq
    · rintro v x y role ⟨wt, ut, env, member, heq, -⟩
      cases heq

end
end

/-- Where the memberships come from, in every run of one API process whose requests are spelled so that they change no
    membership of an owner and leave no changed membership in the cache. -/
theorem members_provenance (out : Outside) (users : List Uuid) (generated : Generated) {ms : List Step} {s : Tables}
    (hrun : Trace.run (step out) (initial users generated) ms = some s)
    (spelled : ∀ i t m, Happens out (initial users generated) ms i t m → Spelled t m) :
    ∀ row ∈ s.db.members, Provenance out (initial users generated) ms row := by
  have hrecorded : Recorded out (initial users generated) ms s := by
    refine Trace.run_induction (P := fun ms s => (∀ i t m, Happens out (initial users generated) ms i t m → Spelled t m) →
      Recorded out (initial users generated) ms s) (fun _ => recorded_initial users generated) ?_ hrun spelled
    intro ms m t t' hrun ih hs spelled
    refine (ih fun i u m hat => spelled i u m hat.concat).step hrun ?_ hs
    exact spelled _ t m (Trace.at_last hrun)
  exact hrecorded.provenance

/-! ### An owner whose id is spelled in capitals -/

/-- Lower case is not needed here. -/
def acme : Outside where
  toLowerCase s := s
  citext s := s
  email u := if u = 10 then "ada@acme.com" else "new@acme.com"

def envFrom (n : Nat) : Nat → Env := fun i => envAt (n + i)

/-- User 5 is invited to a new workspace, and made an administrator. -/
def promoted : List Step :=
  [.request ⟨10, .create ⟨"acme", none⟩⟩ (envFrom 1),
   .request ⟨10, .invite (Uuid.text 103) ⟨"new@acme.com", none⟩⟩ (envFrom 10),
   .request ⟨5, .accept (envFrom 10 6).random⟩ (envFrom 20),
   .request ⟨10, .updateRole (Uuid.text 103) (Uuid.text 5) .ADMIN⟩ (envFrom 30),
   .expire ⟨Uuid.text 103, Uuid.text 10⟩]

/-- The role of the owner of a new workspace is set. -/
def demoted : List Step :=
  [.request ⟨10, .create ⟨"acme", none⟩⟩ (envFrom 1),
   .request ⟨10, .updateRole (Uuid.text 103) ⟨10, 1⟩ .MEMBER⟩ (envFrom 10)]

theorem members_provenance_promoted : ∃ s, Trace.run (step acme) (initial [5, 10] ⟨[], []⟩) promoted = some s ∧
    s.db.members.map (·.userId) = [10, 5] ∧
    ∀ row ∈ s.db.members, Provenance acme (initial [5, 10] ⟨[], []⟩) promoted row := by
  have hspelled : Trace.Meets (step acme) Spelled (initial [5, 10] ⟨[], []⟩) promoted := by decide +kernel
  have hrun : ∃ s, Trace.run (step acme) (initial [5, 10] ⟨[], []⟩) promoted = some s ∧
      s.db.members.map (·.userId) = [10, 5] := ⟨_, rfl, rfl⟩
  obtain ⟨s, hrun, hmembers⟩ := hrun
  exact ⟨s, hrun, hmembers, members_provenance acme [5, 10] ⟨[], []⟩ hrun fun _ _ _ hat => hspelled.at hat⟩

/-- The creator of the workspace has a membership that is not an administrator's. -/
theorem creator_demoted : ∃ s, Trace.run (step acme) (initial [5, 10] ⟨[], []⟩) demoted = some s ∧
    ∃ row ∈ s.db.members, ¬Provenance acme (initial [5, 10] ⟨[], []⟩) demoted row := by
  refine ⟨_, rfl, ⟨104, 103, 10, .MEMBER, 0⟩, List.mem_singleton_self _, ?_⟩
  rintro (⟨-, hrole⟩ | ⟨hc, -⟩)
  · cases hrole
  · exact hc ⟨0, initial [5, 10] ⟨[], []⟩, _, ⟨rfl, rfl⟩, ⟨"acme", none⟩, envFrom 1, _, rfl, rfl, rfl⟩

end TaskPlatform.Access

import TaskPlatform.Workspaces.Staleness

/-! Removal of a member: `updateMemberRole` saves a row it loaded earlier, and a save of a row that is
    gone inserts it again; an accept in flight can add the row that a removal has just deleted. -/

namespace TaskPlatform.Workspaces
open Effects

/-- The row that the move saves. -/
def saves? (c : State) : Move interface Request → Option WorkspaceMember
  | .call i fate _ =>
    match (c.threads[i]?).bind Thread.next? with
    | some (.saveMember m) => if fate = .failed then none else some m
    | _ => none
  | _ => none

/-- The accept that the move commits, with the member it adds. -/
def joins? (c : State) : Move interface Request → Option (InFlight × NewMember)
  | .call i fate _ =>
    match c.threads[i]? with
    | some t =>
      match t.next? with
      | some (.commitAccept (some n) _) => if fate = .failed then none else some (t, n)
      | _ => none
    | none => none
  | _ => none

/-- A removal of the membership of `u` in `w`. -/
def Request.removes (w u : Uuid) : Request → Bool
  | .removeMember _ w' u' => w'.uuid == w && u'.uuid == u
  | _ => false

/-- A removal that has read the row, and neither failed nor was killed. -/
def pastRead (t : InFlight) : Bool :=
  match t.next?, t.result? with
  | some (.removeMember _), _ => true
  | some (.cacheDel _), _ => true
  | none, some (.ok _) => true
  | _, _ => false

/-- A save finds its row in the table; and when an accept adds a member, every removal of this member
    that has read the row had returned before the accept started. -/
def KeepsRemoved (c : State) (m : Move interface Request) : Prop :=
  (∀ x ∈ saves? c m, ∃ r ∈ c.shared.members, r.id = x.id) ∧
    ∀ x ∈ joins? c m, ∀ f ∈ c.threads, f.request.removes x.2.workspaceId x.2.userId = true → pastRead f = true →
      f.next? = none ∧ f.last < x.1.started

instance (c : State) (m : Move interface Request) : Decidable (KeepsRemoved c m) :=
  inferInstanceAs (Decidable ((∀ x ∈ saves? c m, ∃ r ∈ c.shared.members, r.id = x.id) ∧
    ∀ x ∈ joins? c m, ∀ f ∈ c.threads, f.request.removes x.2.workspaceId x.2.userId = true → pastRead f = true →
      f.next? = none ∧ f.last < x.1.started))

/-- The thread is an accept by `u` that added the member of `w`. -/
def Joined (c : State) (w u : Uuid) (t : InFlight) : Prop :=
  (∃ email token, t.request = .accept u email token) ∧ ∃ e ∈ t.log, ∃ n inv s s',
    e.call = .commitAccept (some n) inv ∧ c.at? e.time = some s ∧ c.at? (e.time + 1) = some s' ∧
      s.member? w u = none ∧ (s'.member? w u).isSome

/-- What holds of the members and of the requests in flight in every run that keeps removed members out. -/
structure Removals (c : State) : Prop where
  ids : ∀ r ∈ c.shared.members, ∀ r' ∈ c.shared.members, r.id = r'.id → r = r'
  pairs : ∀ r ∈ c.shared.members, ∀ r' ∈ c.shared.members, r.workspaceId = r'.workspaceId → r.userId = r'.userId → r = r'
  issued : ∀ r ∈ c.shared.members, r.id ∈ c.shared.generated.uuids
  saving : ∀ t ∈ c.threads, ∀ x, t.next? = some (.saveMember x) → x.id ∈ c.shared.generated.uuids ∧
    ∀ r ∈ c.shared.members, r.id = x.id → r.workspaceId = x.workspaceId ∧ r.userId = x.userId
  removing : ∀ t ∈ c.threads, ∀ p w u, t.request = .removeMember p w u → ∀ x, t.next? = some (.removeMember x) →
    ∀ r ∈ c.shared.members, r.workspaceId = w.uuid → r.userId = u.uuid → r.id = x.id
  removed : ∀ t ∈ c.threads, ∀ p w u, t.request = .removeMember p w u →
    (∃ k, t.next? = some (.cacheDel k)) ∨ (∃ v, t.result? = some (.ok v)) →
    ∀ r ∈ c.shared.members, r.workspaceId = w.uuid → r.userId = u.uuid →
      ∃ a ∈ c.threads, Joined c w.uuid u.uuid a ∧ t.next? = none ∧ t.last < a.started

section
variable {lower : String → String} {c d : State} {m : Move interface Request}

theorem member?_some {s : Tables} {w u : Uuid} {x : WorkspaceMember} (h : s.member? w u = some x) :
    x ∈ s.members ∧ x.workspaceId = w ∧ x.userId = u := by
  have := List.find?_some h
  exact ⟨List.mem_of_find?_eq_some h, by simpa using this⟩

theorem member?_none {s : Tables} {w u : Uuid} (h : s.member? w u = none) :
    ∀ r ∈ s.members, r.workspaceId = w → r.userId ≠ u := by
  intro r hr hw hu
  have := List.find?_eq_none.mp h r hr
  simp [hw, hu] at this

/-- A row after a move: kept, saved over its old row, or added by an accept. -/
theorem row_cases (hok : KeepsRemoved c m) (hs : (system lower).step c m = some d) {r : WorkspaceMember}
    (hr : r ∈ d.shared.members) :
    (r ∈ c.shared.members ∧ ∀ i fate env t x, m = .call i fate env → c.threads[i]? = some t → fate ≠ .failed →
      t.next? = some (.removeMember x) ∨ t.next? = some (.saveMember x) → r.id ≠ x.id) ∨
    (∃ i fate env t r₀, m = .call i fate env ∧ c.threads[i]? = some t ∧ fate ≠ .failed ∧
      t.next? = some (.saveMember r) ∧ r₀ ∈ c.shared.members ∧ r₀.id = r.id) ∨
    ∃ i fate env t n inv, m = .call i fate env ∧ c.threads[i]? = some t ∧ fate ≠ .failed ∧
      t.next? = some (.commitAccept (some n) inv) ∧ env.uuid ∉ c.shared.generated.uuids ∧ r = n.toRow env ∧
      c.shared.member? n.workspaceId n.userId = none := by
  cases m with
  | start req env =>
    obtain ⟨-, rfl⟩ := System.step_start hs
    exact Or.inl ⟨hr, fun _ _ _ _ _ heq => nomatch heq⟩
  | kill i =>
    obtain ⟨t, op, k, ht, hk, rfl⟩ := System.step_kill hs
    exact Or.inl ⟨hr, fun _ _ _ _ _ heq => nomatch heq⟩
  | call i fate env =>
    obtain ⟨t, op, k, ht, hk, hadm, rfl⟩ := System.step_call hs
    have hnext : t.next? = some op := by rw [Thread.next?, hk]; rfl
    by_cases hfate : fate = .failed
    · subst hfate
      refine Or.inl ⟨hr, fun _ _ _ _ _ heq _ hne => ?_⟩
      cases heq
      exact absurd rfl hne
    · have heff : (system lower).effect fate env op c.shared = (exec env op (c.shared.spend env)).2 := by
        cases fate with
        | failed => exact absurd rfl hfate
        | answered | lost => rfl
      have hr : r ∈ ((system lower).effect fate env op c.shared).members := hr
      rw [heff] at hr
      rcases mem_members_exec hr with ⟨hr, hne⟩ | rfl | ⟨n, inv, rfl, rfl, hnone⟩
      · refine Or.inl ⟨hr, fun _ _ _ t' x heq ht' _ hx => ?_⟩
        cases heq
        cases ht.symm.trans ht'
        refine hne x ?_
        rcases hx with hx | hx
        · exact Or.inl (Option.some.inj (hnext.symm.trans hx))
        · exact Or.inr (Option.some.inj (hnext.symm.trans hx))
      · obtain ⟨r₀, hr₀, hid⟩ := hok.1 r (by simp [saves?, ht, hnext, hfate])
        exact Or.inr (Or.inl ⟨i, fate, env, t, r₀, rfl, ht, hfate, hnext, hr₀, hid⟩)
      · exact Or.inr (Or.inr ⟨i, fate, env, t, n, inv, rfl, ht, hfate, hnext, (Generated.admits_iff.mp hadm).1, rfl, hnone⟩)

/-- Two rows after a move with one id, or of one member, are one row. -/
theorem Removals.unique_step (h : Removals c) (hok : KeepsRemoved c m) (hs : (system lower).step c m = some d)
    {r r' : WorkspaceMember} (hr : r ∈ d.shared.members) (hr' : r' ∈ d.shared.members)
    (heq : r.id = r'.id ∨ r.workspaceId = r'.workspaceId ∧ r.userId = r'.userId) : r = r' := by
  have kept_saved : ∀ {x y y₀ : WorkspaceMember} {t : InFlight}, x ∈ c.shared.members → x.id ≠ y.id → t ∈ c.threads →
      t.next? = some (.saveMember y) → y₀ ∈ c.shared.members → y₀.id = y.id →
      ¬(x.id = y.id ∨ x.workspaceId = y.workspaceId ∧ x.userId = y.userId) := by
    rintro x y y₀ t hx hne ht hnext hy₀ hid (heq | ⟨hw, hu⟩)
    · exact hne heq
    · obtain ⟨hw₀, hu₀⟩ := (h.saving t ht y hnext).2 y₀ hy₀ hid
      exact hne (h.pairs x hx y₀ hy₀ (hw.trans hw₀.symm) (hu.trans hu₀.symm) ▸ hid)
  have new_old : ∀ {x₀ x : WorkspaceMember} {n : NewMember} {env : Env}, x₀ ∈ c.shared.members → x₀.id = x.id →
      x₀.workspaceId = x.workspaceId → x₀.userId = x.userId → env.uuid ∉ c.shared.generated.uuids →
      c.shared.member? n.workspaceId n.userId = none →
      ¬(x.id = (n.toRow env).id ∨ x.workspaceId = (n.toRow env).workspaceId ∧ x.userId = (n.toRow env).userId) := by
    rintro x₀ x n env hx₀ hid hw hu hfresh hnone (heq | ⟨hw', hu'⟩)
    · exact hfresh ((hid.trans heq : x₀.id = env.uuid) ▸ h.issued x₀ hx₀)
    · exact member?_none hnone x₀ hx₀ (hw.trans hw') (hu.trans hu')
  have saved_old : ∀ {y y₀ : WorkspaceMember} {t : InFlight}, t ∈ c.threads → t.next? = some (.saveMember y) →
      y₀ ∈ c.shared.members → y₀.id = y.id → y₀.workspaceId = y.workspaceId ∧ y₀.userId = y.userId :=
    fun ht hnext hy₀ hid => (h.saving _ ht _ hnext).2 _ hy₀ hid
  have hsym : r'.id = r.id ∨ r'.workspaceId = r.workspaceId ∧ r'.userId = r.userId :=
    heq.imp Eq.symm fun h => ⟨h.1.symm, h.2.symm⟩
  rcases row_cases hok hs hr with ⟨hr, hne⟩ | ⟨i, fate, env, t, r₀, rfl, ht, hf, hn, hr₀, hid⟩ |
      ⟨i, fate, env, t, n, inv, rfl, ht, hf, hn, hfresh, rfl, hnone⟩ <;>
    rcases row_cases hok hs hr' with ⟨hr', hne'⟩ | ⟨i', fate', env', t', r₀', hm, ht', hf', hn', hr₀', hid'⟩ |
      ⟨i', fate', env', t', n', inv', hm, ht', hf', hn', hfresh', rfl, hnone'⟩
  · rcases heq with heq | ⟨hw, hu⟩
    · exact h.ids r hr r' hr' heq
    · exact h.pairs r hr r' hr' hw hu
  · exact absurd heq (kept_saved hr (hne _ _ _ _ _ hm ht' hf' (Or.inr hn')) (List.mem_of_getElem? ht') hn' hr₀' hid')
  · exact absurd heq (new_old hr rfl rfl rfl hfresh' hnone')
  · exact absurd hsym (kept_saved hr' (hne' _ _ _ _ _ rfl ht hf (Or.inr hn)) (List.mem_of_getElem? ht) hn hr₀ hid)
  · cases hm
    cases ht.symm.trans ht'
    cases hn.symm.trans hn'
    rfl
  · cases hm
    cases ht.symm.trans ht'
    cases hn.symm.trans hn'
  · exact absurd hsym (new_old hr' rfl rfl rfl hfresh hnone)
  · cases hm
    cases ht.symm.trans ht'
    cases hn.symm.trans hn'
  · cases hm
    cases ht.symm.trans ht'
    cases hn.symm.trans hn'
    rfl

/-- A row after a move: it has an old row of the same id and member, or an accept adds it. -/
theorem Removals.row_old (h : Removals c) (hok : KeepsRemoved c m) (hs : (system lower).step c m = some d)
    {r : WorkspaceMember} (hr : r ∈ d.shared.members) :
    (∃ r₀ ∈ c.shared.members, r₀.id = r.id ∧ r₀.workspaceId = r.workspaceId ∧ r₀.userId = r.userId) ∨
    ∃ i fate env t n inv, m = .call i fate env ∧ c.threads[i]? = some t ∧ fate ≠ .failed ∧
      t.next? = some (.commitAccept (some n) inv) ∧ env.uuid ∉ c.shared.generated.uuids ∧ r = n.toRow env ∧
      c.shared.member? n.workspaceId n.userId = none := by
  rcases row_cases hok hs hr with ⟨hr, -⟩ | ⟨i, fate, env, t, r₀, -, ht, -, hn, hr₀, hid⟩ | hnew
  · exact Or.inl ⟨r, hr, rfl, rfl, rfl⟩
  · obtain ⟨hw, hu⟩ := (h.saving t (List.mem_of_getElem? ht) r hn).2 r₀ hr₀ hid
    exact Or.inl ⟨r₀, hr₀, hid, hw, hu⟩
  · exact Or.inr hnew

theorem generated_step (hs : (system lower).step c m = some d) :
    c.shared.generated.uuids ⊆ d.shared.generated.uuids ∧
      ∀ i fate env, m = .call i fate env → env.uuid ∈ d.shared.generated.uuids := by
  cases m with
  | start r env =>
    obtain ⟨-, rfl⟩ := System.step_start hs
    exact ⟨fun _ h => List.mem_cons_of_mem _ h, fun _ _ _ heq => nomatch heq⟩
  | kill i =>
    obtain ⟨t, op, k, ht, hk, rfl⟩ := System.step_kill hs
    exact ⟨fun _ h => h, fun _ _ _ heq => nomatch heq⟩
  | call i fate env =>
    obtain ⟨t, op, k, ht, hk, hadm, rfl⟩ := System.step_call hs
    have hgen : ((system lower).effect fate env op c.shared).generated = c.shared.generated.spend env := by
      cases fate with
      | failed => rfl
      | answered | lost => exact exec_generated
    refine ⟨fun x hx => ?_, fun _ _ _ heq => ?_⟩
    · show x ∈ ((system lower).effect fate env op c.shared).generated.uuids
      rw [hgen]
      exact List.mem_cons_of_mem _ hx
    · cases heq
      show env.uuid ∈ ((system lower).effect fate env op c.shared).generated.uuids
      rw [hgen]
      exact List.mem_cons_self ..

theorem Removals.issued_step (h : Removals c) (hok : KeepsRemoved c m) (hs : (system lower).step c m = some d) :
    ∀ r ∈ d.shared.members, r.id ∈ d.shared.generated.uuids := by
  intro r hr
  obtain ⟨hsub, hnew⟩ := generated_step hs
  rcases h.row_old hok hs hr with ⟨r₀, hr₀, hid, -, -⟩ | ⟨i, fate, env, t, n, inv, hm, -, -, -, -, rfl, -⟩
  · exact hid ▸ hsub (h.issued r₀ hr₀)
  · exact hnew i fate env hm

/-- What a read of the row was answered is the row of the table. -/
theorem found_row {i : Nat} {fate : Fate} {env : Env} {t : InFlight} {w u : Uuid} {x : WorkspaceMember}
    (hs : (system lower).step c (.call i fate env) = some d) (ht : c.threads[i]? = some t)
    (hn : t.next? = some (.findMember w u)) (hx : c.shared.member? w u = some x) (h : Removals c) :
    d.shared.members = c.shared.members ∧ x ∈ c.shared.members ∧ ∀ r ∈ d.shared.members, r.id = x.id ∨
      (r.workspaceId = w ∧ r.userId = u) → r = x := by
  obtain ⟨t', op, k, ht', hk, -, rfl⟩ := System.step_call hs
  cases ht.symm.trans ht'
  rw [Thread.next?, hk] at hn
  cases hn
  have heff : ((system lower).effect fate env (.findMember w u) c.shared).members = c.shared.members := by
    cases fate <;> rfl
  obtain ⟨hmem, hw, hu⟩ := member?_some hx
  refine ⟨heff, hmem, fun r hr heq => ?_⟩
  have hr : r ∈ c.shared.members := heff ▸ hr
  rcases heq with hid | ⟨hrw, hru⟩
  · exact h.ids r hr x hmem hid
  · exact h.pairs r hr x hmem (hrw.trans hw.symm) (hru.trans hu.symm)

/-- A save and a delete come right after the read of the row. -/
theorem write_after_read {req : Request} {op : Call} {a : op.Reply} {rest : Service Response} {env : Env} {s : Tables}
    {x : WorkspaceMember} (ha : (exec env op s).1 = .ok a) (h : AfterReply req op a rest)
    (hn : rest.next? = some (.saveMember x) ∨ rest.next? = some (.removeMember x)) :
    ∃ w u y, op = .findMember w u ∧ s.member? w u = some y ∧ y.id = x.id ∧ y.workspaceId = x.workspaceId ∧
      y.userId = x.userId ∧ (rest.next? = some (.removeMember x) →
        y = x ∧ ∃ p w' u', req = .removeMember p w' u' ∧ w'.uuid = w ∧ u'.uuid = u) := by
  have hno : ∀ c, c ≠ .saveMember x → c ≠ .removeMember x → rest.next? ≠ some c := by
    intro c h₁ h₂ hc
    rcases hn with hn | hn
    · exact h₁ (Option.some.inj (hc.symm.trans hn))
    · exact h₂ (Option.some.inj (hc.symm.trans hn))
  have hend : rest.next? ≠ none := by rcases hn with hn | hn <;> simp [hn]
  cases req with
  | getMembership p w u =>
    cases op with
    | cacheGet =>
      obtain ⟨-, ⟨-, rfl⟩ | ⟨-, h⟩⟩ := h
      · exact absurd rfl hend
      · exact absurd h (hno _ nofun nofun)
    | findMember =>
      obtain ⟨-, -, ⟨-, rfl⟩ | ⟨y, -, h⟩⟩ := h
      · exact absurd rfl hend
      · exact absurd h (hno _ nofun nofun)
    | cacheSet =>
      obtain ⟨-, rfl⟩ := h
      exact absurd rfl hend
    | _ => cases h
  | updateMemberRole p w u role =>
    cases op with
    | findWorkspace =>
      rcases h with ⟨e, rfl⟩ | h
      · exact absurd rfl hend
      · exact absurd h (hno _ nofun nofun)
    | findMember =>
      obtain ⟨rfl, rfl, ⟨e, rfl⟩ | ⟨y, rfl, h⟩⟩ := h
      · exact absurd rfl hend
      · refine ⟨_, _, y, rfl, Except.ok.inj ha, ?_⟩
        rcases hn with hn | hn <;> cases h.symm.trans hn
        exact ⟨rfl, rfl, rfl, fun h' => by cases h.symm.trans h'⟩
    | saveMember => exact absurd h (hno _ nofun nofun)
    | cacheDel =>
      obtain ⟨-, y, rfl⟩ := h
      exact absurd rfl hend
    | _ => cases h
  | removeMember p w u =>
    cases op with
    | findWorkspace =>
      rcases h with ⟨e, rfl⟩ | h
      · exact absurd rfl hend
      · exact absurd h (hno _ nofun nofun)
    | findMember =>
      obtain ⟨rfl, rfl, ⟨e, rfl⟩ | ⟨y, rfl, h⟩⟩ := h
      · exact absurd rfl hend
      · refine ⟨_, _, y, rfl, Except.ok.inj ha, ?_⟩
        rcases hn with hn | hn <;> cases h.symm.trans hn
        exact ⟨rfl, rfl, rfl, fun _ => ⟨rfl, p, w, u, rfl, rfl, rfl⟩⟩
    | removeMember => exact absurd h (hno _ nofun nofun)
    | cacheDel =>
      obtain ⟨-, rfl⟩ := h
      exact absurd rfl hend
    | _ => cases h
  | accept u email token =>
    cases op with
    | findInvitation =>
      rcases h with ⟨e, rfl⟩ | ⟨inv, h⟩ | ⟨inv, -, h⟩
      · exact absurd rfl hend
      · exact absurd h (hno _ nofun nofun)
      · exact absurd h (hno _ nofun nofun)
    | saveInvitation =>
      obtain ⟨e, rfl⟩ := h
      exact absurd rfl hend
    | findMember =>
      obtain ⟨new, inv, h, -⟩ := h
      exact absurd h (hno _ nofun nofun)
    | commitAccept =>
      obtain ⟨-, y, rfl⟩ := h
      exact absurd rfl hend
    | _ => cases h

theorem Removals.saving_step (h : Removals c) (hf : ∀ t ∈ c.threads, t.rest.Flows (Follows t.request))
    (hok : KeepsRemoved c m) (hs : (system lower).step c m = some d) :
    ∀ t ∈ d.threads, ∀ x, t.next? = some (.saveMember x) → x.id ∈ d.shared.generated.uuids ∧
      ∀ r ∈ d.shared.members, r.id = x.id → r.workspaceId = x.workspaceId ∧ r.userId = x.userId := by
  intro t ht x hn
  rcases System.step_thread hs ht with ht | ⟨r, env, -, -, -, rfl⟩ |
    ⟨i, fate, env, t₀, op, k, rfl, ht₀, hk, -, -, rfl⟩ | ⟨i, t₀, -, ht₀, -, rfl⟩
  · obtain ⟨hgen, hagree⟩ := h.saving t ht x hn
    refine ⟨(generated_step hs).1 hgen, fun r hr hid => ?_⟩
    rcases h.row_old hok hs hr with ⟨r₀, hr₀, hid₀, hw, hu⟩ | ⟨i, fate, env, t', n, inv, -, -, -, -, hfresh, rfl, -⟩
    · obtain ⟨hw', hu'⟩ := hagree r₀ hr₀ (hid₀.trans hid)
      exact ⟨hw.symm.trans hw', hu.symm.trans hu'⟩
    · have hid : env.uuid = x.id := hid
      exact absurd (hid.symm ▸ hgen) hfresh
  · cases r <;> cases hn
  · obtain ⟨rfl, a, ha, hafter⟩ := after_reply (hf t₀ (List.mem_of_getElem? ht₀)) hk
      fun e he => by rw [Thread.next?, he] at hn; cases hn
    obtain ⟨w, u, y, rfl, hy, hid, hw, hu, -⟩ := write_after_read ha hafter (Or.inl hn)
    obtain ⟨-, hmem, hrow⟩ := found_row hs ht₀ (by rw [Thread.next?, hk]; rfl) hy h
    refine ⟨hid ▸ (generated_step hs).1 (h.issued y hmem), fun r hr hrid => ?_⟩
    cases hrow r hr (Or.inl (hrid.trans hid.symm))
    exact ⟨hw, hu⟩
  · cases hn

theorem Removals.removing_step (h : Removals c) (hf : ∀ t ∈ c.threads, t.rest.Flows (Follows t.request))
    (hok : KeepsRemoved c m) (hs : (system lower).step c m = some d) :
    ∀ t ∈ d.threads, ∀ p w u, t.request = .removeMember p w u → ∀ x, t.next? = some (.removeMember x) →
      ∀ r ∈ d.shared.members, r.workspaceId = w.uuid → r.userId = u.uuid → r.id = x.id := by
  intro t ht p w u hreq x hn r hr hw hu
  rcases System.step_thread hs ht with ht | ⟨req, env, -, -, -, rfl⟩ |
    ⟨i, fate, env, t₀, op, k, rfl, ht₀, hk, -, -, rfl⟩ | ⟨i, t₀, -, ht₀, -, rfl⟩
  · rcases h.row_old hok hs hr with ⟨r₀, hr₀, hid, hw₀, hu₀⟩ | ⟨i, fate, env, t', n, inv, rfl, ht', hfate, hn', -, rfl, -⟩
    · exact hid.symm.trans (h.removing t ht p w u hreq x hn r₀ hr₀ (hw₀.trans hw) (hu₀.trans hu))
    · have hjoin : joins? c (.call i fate env) = some (t', n) := by simp [joins?, ht', hn', hfate]
      have hw : n.workspaceId = w.uuid := hw
      have hu : n.userId = u.uuid := hu
      have hrem : t.request.removes n.workspaceId n.userId = true := by
        rw [hreq, hw, hu]
        simp [Request.removes]
      have := (hok.2 _ hjoin t ht hrem (by simp [pastRead, hn])).1
      rw [hn] at this
      cases this
  · cases req <;> cases hn
  · obtain ⟨rfl, a, ha, hafter⟩ := after_reply (hf t₀ (List.mem_of_getElem? ht₀)) hk
      fun e he => by rw [Thread.next?, he] at hn; cases hn
    obtain ⟨w', u', y, rfl, hy, -, -, -, hrem⟩ := write_after_read ha hafter (Or.inr hn)
    obtain ⟨rfl, p', _, _, hreq', rfl, rfl⟩ := hrem hn
    have hreq₀ : t₀.request = .removeMember p w u := hreq
    cases hreq'.symm.trans hreq₀
    obtain ⟨-, -, hrow⟩ := found_row hs ht₀ (by rw [Thread.next?, hk]; rfl) hy h
    rw [hrow r hr (Or.inr ⟨hw, hu⟩)]
  · cases hn

theorem Joined.step {w u : Uuid} {t t' : InFlight} (h : Joined c w u t) (hs : (system lower).step c m = some d)
    (hreq : t'.request = t.request) (hlog : t.log ⊆ t'.log) : Joined d w u t' := by
  obtain ⟨hacc, e, he, n, inv, s, s', hcall, hat, hat', hnone, hsome⟩ := h
  exact ⟨hreq ▸ hacc, e, hlog he, n, inv, s, s', hcall, System.step_at? hs hat, System.step_at? hs hat', hnone, hsome⟩

theorem accept_of_commit {t : InFlight} {op : Call} {new : Option NewMember} {inv : WorkspaceInvitation}
    (hf : t.rest.Flows (Follows t.request)) (hn : t.next? = some op) (hop : op = .commitAccept new inv) :
    ∃ u email token, t.request = .accept u email token ∧ ∀ n ∈ new, n.userId = u := by
  obtain ⟨k, hk⟩ := Prog.eq_call_of_next? hn
  subst hop
  rw [hk] at hf
  have hafter : AfterReply t.request (.commitAccept new inv) none _ :=
    (hf (.ok none)).1 { now := 0, dbNow := .epoch, uuid := 0, random := "" }
  cases hreq : t.request with
  | accept u email token =>
    rw [hreq] at hafter
    exact ⟨u, email, token, rfl, hafter.1⟩
  | _ => rw [hreq] at hafter; cases hafter

/-- The accept whose commit added the row is on record. -/
theorem joined_of_commit (hf : ∀ t ∈ c.threads, t.rest.Flows (Follows t.request)) {i : Nat} {fate : Fate} {env : Env}
    {t : InFlight} {n : NewMember} {inv : WorkspaceInvitation} (hs : (system lower).step c (.call i fate env) = some d)
    (ht : c.threads[i]? = some t) (hn : t.next? = some (.commitAccept (some n) inv))
    (hnone : c.shared.member? n.workspaceId n.userId = none) (hr : n.toRow env ∈ d.shared.members) :
    ∃ a ∈ d.threads, a.started = t.started ∧ Joined d n.workspaceId n.userId a := by
  have hat := System.step_at? hs (System.at?_time c)
  have hat' : d.at? (c.time + 1) = some d.shared := System.step_time hs ▸ System.at?_time d
  obtain ⟨t', op, k, ht', hk, -, rfl⟩ := System.step_call hs
  cases ht.symm.trans ht'
  obtain ⟨u, email, token, hreq, huser⟩ := accept_of_commit (hf t (List.mem_of_getElem? ht)) hn rfl
  rw [Thread.next?, hk] at hn
  cases hn
  refine ⟨_, List.mem_of_getElem? (List.getElem?_set_self (List.getElem?_eq_some_iff.mp ht).1), rfl, ?_⟩
  refine ⟨⟨email, token, huser n rfl ▸ hreq⟩, _, List.mem_cons_self .., n, inv, _, _, rfl, hat, hat', hnone, ?_⟩
  refine List.find?_isSome.mpr ⟨_, hr, ?_⟩
  simp [NewMember.toRow]

theorem changes_removeMember (p : Nat) (w u : UuidText) : (Request.removeMember p w u).changes = some ⟨p, w, u⟩ := rfl

theorem Removals.removed_step (h : Removals c) (hf : ∀ t ∈ c.threads, t.rest.Flows (Follows t.request))
    (hok : KeepsRemoved c m) (hs : (system lower).step c m = some d) :
    ∀ t ∈ d.threads, ∀ p w u, t.request = .removeMember p w u →
      (∃ k, t.next? = some (.cacheDel k)) ∨ (∃ v, t.result? = some (.ok v)) →
      ∀ r ∈ d.shared.members, r.workspaceId = w.uuid → r.userId = u.uuid →
        ∃ a ∈ d.threads, Joined d w.uuid u.uuid a ∧ t.next? = none ∧ t.last < a.started := by
  intro t ht p w u hreq hdone r hr hw hu
  rcases System.step_thread hs ht with htc | ⟨req, env, -, -, -, rfl⟩ |
    ⟨i, fate, env, t₀, op, k, rfl, ht₀, hk, -, -, rfl⟩ | ⟨i, t₀, -, ht₀, -, rfl⟩
  · rcases h.row_old hok hs hr with ⟨r₀, hr₀, -, hw₀, hu₀⟩ | ⟨i, fate, env, t', n, inv, rfl, ht', hfate, hn', -, rfl, hnone⟩
    · obtain ⟨a, ha, hjoin, hnone, hlast⟩ := h.removed t htc p w u hreq hdone r₀ hr₀ (hw₀.trans hw) (hu₀.trans hu)
      obtain ⟨a', ha', hreq', hstart, hlog⟩ := System.step_keeps_thread hs ha
      exact ⟨a', ha', hjoin.step hs hreq' hlog, hnone, hstart ▸ hlast⟩
    · have hjoin : joins? c (.call i fate env) = some (t', n) := by simp [joins?, ht', hn', hfate]
      have hw : n.workspaceId = w.uuid := hw
      have hu : n.userId = u.uuid := hu
      have hrem : t.request.removes n.workspaceId n.userId = true := by
        rw [hreq, hw, hu]
        simp [Request.removes]
      have hpast : pastRead t = true := by
        rcases hdone with ⟨k, hk⟩ | ⟨v, hv⟩
        · simp [pastRead, hk]
        · have hnext : t.next? = none := Prog.next?_of_result? hv
          simp [pastRead, hv, hnext]
      obtain ⟨hend, hlast⟩ := hok.2 _ hjoin t htc hrem hpast
      obtain ⟨a, ha, hstart, hjoined⟩ := joined_of_commit hf hs ht' hn' hnone hr
      exact ⟨a, ha, hw ▸ hu ▸ hjoined, hend, hstart ▸ hlast⟩
  · cases req <;> rcases hdone with ⟨_, hdone⟩ | ⟨_, hdone⟩ <;> cases hdone
  · have hreq₀ : t₀.request = .removeMember p w u := hreq
    have hm := List.mem_of_getElem? ht₀
    have hn₀ : t₀.next? = some op := by rw [Thread.next?, hk]; rfl
    obtain ⟨rfl, a, -, hafter⟩ := after_reply (hf t₀ hm) hk fun e he => by
      rcases hdone with ⟨_, hdone⟩ | ⟨_, hdone⟩
      · rw [Thread.next?, he] at hdone
        cases hdone
      · rw [Thread.result?, he] at hdone
        cases hdone
    rw [hreq₀] at hafter
    rcases hdone with ⟨k', hn⟩ | ⟨v, hv⟩
    · -- The row was deleted: whatever row the member has had the id of the deleted one.
      have hwrite := cacheDel_after_write (changes_removeMember p w u) hafter hn
      cases op with
      | removeMember x =>
        rcases row_cases hok hs hr with ⟨hr, hne⟩ | ⟨_, _, _, t', _, heq, ht', -, hn', -⟩ | ⟨_, _, _, t', _, _, heq, ht', -, hn', -⟩
        · exact absurd (h.removing t₀ hm p w u hreq₀ x hn₀ r hr hw hu) (hne _ _ _ _ _ rfl ht₀ (by rintro ⟨⟩) (Or.inl hn₀))
        · cases heq
          cases ht₀.symm.trans ht'
          cases hn₀.symm.trans hn'
        · cases heq
          cases ht₀.symm.trans ht'
          cases hn₀.symm.trans hn'
      | saveMember x => cases hafter
      | _ => cases hwrite
    · obtain ⟨k', rfl⟩ := return_after_cacheDel (changes_removeMember p w u) hafter hv
      rcases h.row_old hok hs hr with ⟨r₀, hr₀, -, hw₀, hu₀⟩ | ⟨_, _, _, t', _, _, heq, ht', -, hn', -⟩
      · obtain ⟨_, -, -, hnone, -⟩ := h.removed t₀ hm p w u hreq₀ (Or.inl ⟨k', hn₀⟩) r₀ hr₀ (hw₀.trans hw) (hu₀.trans hu)
        rw [hn₀] at hnone
        cases hnone
      · cases heq
        cases ht₀.symm.trans ht'
        cases hn₀.symm.trans hn'
  · rcases hdone with ⟨_, hdone⟩ | ⟨_, hdone⟩ <;> cases hdone

theorem Removals.step (h : Removals c) (hf : ∀ t ∈ c.threads, t.rest.Flows (Follows t.request))
    (hok : KeepsRemoved c m) (hs : (system lower).step c m = some d) : Removals d where
  ids _ hr _ hr' hid := h.unique_step hok hs hr hr' (Or.inl hid)
  pairs _ hr _ hr' hw hu := h.unique_step hok hs hr hr' (Or.inr ⟨hw, hu⟩)
  issued := h.issued_step hok hs
  saving := h.saving_step hf hok hs
  removing := h.removing_step hf hok hs
  removed := h.removed_step hf hok hs

/-- Members differ in their ids and in their pairs of workspace and user, and their ids were generated. -/
structure Tables.WellFormed (s : Tables) : Prop where
  ids : ∀ r ∈ s.members, ∀ r' ∈ s.members, r.id = r'.id → r = r'
  pairs : ∀ r ∈ s.members, ∀ r' ∈ s.members, r.workspaceId = r'.workspaceId → r.userId = r'.userId → r = r'
  issued : ∀ r ∈ s.members, r.id ∈ s.generated.uuids

theorem reach_removals {s : Tables} (wf : s.WellFormed) (hr : (system lower).Reach KeepsRemoved (.initial s) c) :
    Removals c :=
  hr.invariant_with (fun h => h.flows (program_flows lower)) ⟨wf.ids, wf.pairs, wf.issued, nofun, nofun, nofun⟩
    fun hq _ h hok hs => h.step hq hok hs

/-- As long as saves find their rows and accepts do not overtake removals, a member that was removed has
    no row until an accept that started after the removal had returned adds one. -/
theorem removed_until_accept (lower : String → String) (s : Tables) (c : State) (wf : s.WellFormed)
    (hr : (system lower).Reach KeepsRemoved (.initial s) c) (f : InFlight) (hf : f ∈ c.threads) (p : Nat)
    (w u : UuidText) (hreq : f.request = .removeMember p w u) (v : Response) (hret : f.result? = some (.ok v))
    (r : WorkspaceMember) (hrow : r ∈ c.shared.members) (hw : r.workspaceId = w.uuid) (hu : r.userId = u.uuid) :
    ∃ a ∈ c.threads, Joined c w.uuid u.uuid a ∧ f.last < a.started := by
  obtain ⟨a, ha, hjoin, -, hlast⟩ :=
    (reach_removals wf hr).removed f hf p w u hreq (Or.inr ⟨v, hret⟩) r hrow hw hu
  exact ⟨a, ha, hjoin, hlast⟩

end

/-! ### Runs -/

def invitation : WorkspaceInvitation := ⟨30, 1, "five@acme.com", .MEMBER, "token", .PENDING, 9, 1000⟩

def oneInvited : Tables := { oneAdmin with invitations := [invitation] }

/-- The member is removed and accepts an invitation afterwards. -/
def rejoin : List (Move interface Request) :=
  [.start (.removeMember 0 ⟨1, 0⟩ ⟨5, 0⟩) (envAt 1), .call 0 .answered (envAt 2), .call 0 .answered (envAt 3),
   .call 0 .answered (envAt 4), .call 0 .answered (envAt 5), .start (.accept 5 "five@acme.com" "token") (envAt 6),
   .call 1 .answered (envAt 7), .call 1 .answered (envAt 8), .call 1 .answered (envAt 9)]

/-- A change of the role has read the row when the member is removed, and saves it afterwards. -/
def lateSave : List (Move interface Request) :=
  [.start (.updateMemberRole 0 ⟨1, 0⟩ ⟨5, 0⟩ .MEMBER) (envAt 1), .call 0 .answered (envAt 2), .call 0 .answered (envAt 3),
   .start (.removeMember 0 ⟨1, 0⟩ ⟨5, 0⟩) (envAt 4), .call 1 .answered (envAt 5), .call 1 .answered (envAt 6),
   .call 1 .answered (envAt 7), .call 1 .answered (envAt 8), .call 0 .answered (envAt 9), .call 0 .answered (envAt 10)]

set_option maxRecDepth 4000 in
theorem removed_until_accept_rejoin : ∃ (c : State) (a : InFlight), a ∈ c.threads ∧ Joined c 1 5 a := by
  have hrun : ∃ (c : State) (f : InFlight), (system id).Reach KeepsRemoved (.initial oneInvited) c ∧
      c.threads[0]? = some f ∧ f.request = .removeMember 0 ⟨1, 0⟩ ⟨5, 0⟩ ∧ f.result? = some (.ok .removed) ∧
      c.shared.members[0]? = some ⟨109, 1, 5, .MEMBER, 0⟩ :=
    ⟨_, _, System.reach_of_run rejoin rfl, rfl, rfl, rfl, rfl⟩
  obtain ⟨c, f, hr, hf, hreq, hret, hrow⟩ := hrun
  obtain ⟨a, ha, hjoin, -⟩ := removed_until_accept id oneInvited c ⟨by decide, by decide, by decide⟩ hr f
    (List.mem_of_getElem? hf) 0 ⟨1, 0⟩ ⟨5, 0⟩ hreq _ hret _ (List.mem_of_getElem? hrow) rfl rfl
  exact ⟨c, a, ha, hjoin⟩

set_option maxRecDepth 4000 in
/-- The member has a row after the removal has returned and no request is in flight, and nobody has
    accepted an invitation. -/
theorem removed_comes_back : ∃ (c : State) (f : InFlight), (system id).Reach (fun _ _ => True) (.initial oneAdmin) c ∧
    c.Idle ∧ c.threads[1]? = some f ∧ f.request = .removeMember 0 ⟨1, 0⟩ ⟨5, 0⟩ ∧ f.result? = some (.ok .removed) ∧
    c.shared.members = [{ admin with role := .MEMBER }] ∧
    c.threads.map Thread.request = [.updateMemberRole 0 ⟨1, 0⟩ ⟨5, 0⟩ .MEMBER, .removeMember 0 ⟨1, 0⟩ ⟨5, 0⟩] :=
  ⟨_, _, System.reach_of_run lateSave rfl, by decide, rfl, rfl, rfl, rfl, rfl⟩

end TaskPlatform.Workspaces

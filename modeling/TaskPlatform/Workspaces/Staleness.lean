import TaskPlatform.Workspaces.Flow
import TaskPlatform.Workspaces.Members

/-! The membership cache: `getMembership` reads the row and stores it in two calls, an update writes the
    row and deletes the key in two calls. A row that was read before the write can be stored after the
    key was deleted. -/

namespace TaskPlatform.Workspaces
open Effects

abbrev State := Config interface Tables Request Response

abbrev InFlight := Thread interface Request Response

/-- Two keys of one membership in the cache of one process; they may spell its ids differently. -/
def MembershipKey.Alike (key key' : MembershipKey) : Prop :=
  key.process = key'.process ∧ key.workspaceId.uuid = key'.workspaceId.uuid ∧ key.userId.uuid = key'.userId.uuid

instance : DecidableRel MembershipKey.Alike := fun _ _ => inferInstanceAs (Decidable (_ ∧ _))

theorem MembershipKey.Alike.symm {key key' : MembershipKey} (h : key.Alike key') : key'.Alike key :=
  ⟨h.1.symm, h.2.1.symm, h.2.2.symm⟩

/-- The key of the membership that a request changes. -/
def Request.changes : Request → Option MembershipKey
  | .updateMemberRole p w u _ => some ⟨p, w, u⟩
  | .removeMember p w u => some ⟨p, w, u⟩
  | _ => none

def Call.isRead : Call → Bool
  | .findMember _ _ => true
  | _ => false

/-- The save of an update, the delete of a removal. -/
def Call.isWrite : Call → Bool
  | .saveMember _ | .removeMember _ => true
  | _ => false

def Call.isDrop : Call → Bool
  | .cacheDel _ => true
  | _ => false

/-- When the request read a membership row. -/
def reads (t : InFlight) : List Nat := t.times Call.isRead

/-- When the request wrote a membership row. -/
def writes (t : InFlight) : List Nat := t.times Call.isWrite

/-- When the request deleted a key of the cache. -/
def drops (t : InFlight) : List Nat := t.times Call.isDrop

/-- The thread that stores a membership in the cache, and the key. -/
def stores? (c : State) : Move interface Request → Option (InFlight × MembershipKey)
  | .call i fate _ =>
    match c.threads[i]? with
    | some t =>
      match t.next? with
      | some (.cacheSet key _) => if fate = .failed then none else some (t, key)
      | _ => none
    | none => none
  | _ => none

/-- A request that changed the row before it was read. -/
def changedBefore (t : InFlight) (u : InFlight) : Prop := ∀ n ∈ writes u, ∀ r ∈ reads t, n < r

instance (t u : InFlight) : Decidable (changedBefore t u) :=
  inferInstanceAs (Decidable (∀ n ∈ writes u, ∀ r ∈ reads t, n < r))

/-- The key that the move deletes from the cache. -/
def drops? (c : State) : Move interface Request → Option MembershipKey
  | .call i fate _ =>
    match (c.threads[i]?).bind Thread.next? with
    | some (.cacheDel key) => if fate = .failed then none else some key
    | _ => none
  | _ => none

/-- A membership is stored in the cache only if every request that has changed it, and deleted its key, wrote its
    change before the membership was read. -/
def StoresFresh (c : State) (m : Move interface Request) : Prop :=
  ∀ x ∈ stores? c m, ∀ u ∈ c.threads, ∀ key ∈ u.request.changes, key.Alike x.2 → drops u ≠ [] → changedBefore x.1 u

/-- When a key is deleted, what the cache holds of its membership under another spelling of the key is the row. -/
def DropsSpelled (c : State) (m : Move interface Request) : Prop :=
  ∀ key ∈ drops? c m, ∀ e ∈ c.shared.caches, e.key.Alike key → e.key ≠ key →
    c.shared.member? key.workspaceId.uuid key.userId.uuid = some e.membership

/-- Neither does an old membership come into a cache, nor does it stay there. -/
def KeepsFresh (c : State) (m : Move interface Request) : Prop := StoresFresh c m ∧ DropsSpelled c m

instance (c : State) (m : Move interface Request) : Decidable (StoresFresh c m) :=
  inferInstanceAs (Decidable (∀ x ∈ stores? c m, ∀ u ∈ c.threads, ∀ key ∈ u.request.changes, key.Alike x.2 →
    drops u ≠ [] → changedBefore x.1 u))

instance (c : State) (m : Move interface Request) : Decidable (DropsSpelled c m) :=
  inferInstanceAs (Decidable (∀ key ∈ drops? c m, ∀ e ∈ c.shared.caches, e.key.Alike key → e.key ≠ key →
    c.shared.member? key.workspaceId.uuid key.userId.uuid = some e.membership))

instance (c : State) (m : Move interface Request) : Decidable (KeepsFresh c m) :=
  inferInstanceAs (Decidable (StoresFresh c m ∧ DropsSpelled c m))

/-- `v` was the membership of the key at a moment after the writes of all requests that changed it and deleted their key
    at a time that meets `lim`. -/
def Fresh (c : State) (key : MembershipKey) (v : Option WorkspaceMember) (lim : Nat → Prop) : Prop :=
  ∃ n s, c.at? n = some s ∧ s.member? key.workspaceId.uuid key.userId.uuid = v ∧
    ∀ u ∈ c.threads, ∀ key' ∈ u.request.changes, key'.Alike key → (∃ x ∈ drops u, lim x) → ∀ m ∈ writes u, m < n

/-- What holds of caches and requests in every run that stores fresh memberships. -/
structure Coherent (c : State) : Prop where
  ended : ∀ t ∈ c.threads, drops t ≠ [] → t.next? = none
  cached : ∀ e ∈ c.shared.caches, Fresh c e.key (some e.membership) fun _ => True
  storing : ∀ t ∈ c.threads, ∀ p w u, t.request = .getMembership p w u → ∀ key m, t.next? = some (.cacheSet key m) →
    key = ⟨p, w, u⟩ ∧ ∃ n ∈ reads t, ∃ s, c.at? n = some s ∧ s.member? w.uuid u.uuid = some m
  answered : ∀ t ∈ c.threads, ∀ p w u, t.request = .getMembership p w u → ∀ v,
    t.result? = some (.ok (.membership v)) → Fresh c ⟨p, w, u⟩ v (· < t.started)
  returned : ∀ t ∈ c.threads, ∀ key, t.request.changes = some key →
    ((∃ k, t.next? = some (.cacheDel k)) → writes t ≠ []) ∧
      ((∃ v, t.result? = some (.ok v)) → writes t ≠ [] ∧ t.last ∈ drops t)

section
variable {lower : String → String} {c d : State} {key : MembershipKey} {v : Option WorkspaceMember} {lim : Nat → Prop}

/-- A fresh value stays fresh unless the move deletes a key of its membership. -/
theorem Fresh.step {m : Move interface Request} (h : Fresh c key v lim) (hs : (system lower).step c m = some d)
    (hend : ∀ t ∈ c.threads, drops t ≠ [] → t.next? = none)
    (hdrop : ∀ i fate env t op (k : Except Err op.Reply → Service Response), m = .call i fate env →
      c.threads[i]? = some t → t.rest = .call op k → op.isDrop = true → fate ≠ .failed →
      ∀ key' ∈ t.request.changes, key'.Alike key → ¬lim c.time) : Fresh d key v lim := by
  obtain ⟨n, s, hat, hv, hw⟩ := h
  refine ⟨n, s, System.step_at? hs hat, hv, ?_⟩
  cases m with
  | start req env =>
    obtain ⟨-, rfl⟩ := System.step_start hs
    intro u hu key' hkey alike hx
    rcases List.mem_append.mp hu with hu | hu
    · exact hw u hu key' hkey alike hx
    · obtain rfl := List.mem_singleton.mp hu
      obtain ⟨x, hx, -⟩ := hx
      cases hx
  | call i fate env =>
    obtain ⟨t, op, k, ht, hk, -, rfl⟩ := System.step_call hs
    intro u hu key' hkey alike hx
    rcases List.mem_or_eq_of_mem_set hu with hu | rfl
    · exact hw u hu key' hkey alike hx
    · -- The thread has not deleted a key before, so it deletes this one now.
      have hnone : drops t = [] := by
        by_contra hne
        have := hend t (List.mem_of_getElem? ht) hne
        simp [Thread.next?, hk] at this
      obtain ⟨x, hx, hlim⟩ := hx
      rw [drops, System.times_resume] at hx
      split at hx
      · next hop =>
        obtain ⟨hfate, hop⟩ := Bool.and_eq_true_iff.mp hop
        rw [show t.times Call.isDrop = [] from hnone, List.mem_singleton] at hx
        exact absurd (hx ▸ hlim) (hdrop i fate env t op k rfl ht hk hop (by simpa using hfate) key' hkey alike)
      · rw [show t.times Call.isDrop = [] from hnone] at hx
        cases hx
  | kill i =>
    obtain ⟨t, op, k, ht, hk, rfl⟩ := System.step_kill hs
    intro u hu key' hkey alike hx
    rcases List.mem_or_eq_of_mem_set hu with hu | rfl
    · exact hw u hu key' hkey alike hx
    · exact hw t (List.mem_of_getElem? ht) key' hkey alike hx

theorem Fresh.weaken {lim' : Nat → Prop} (h : Fresh c key v lim) (hl : ∀ x, lim' x → lim x) : Fresh c key v lim' := by
  obtain ⟨n, s, hat, hv, hw⟩ := h
  exact ⟨n, s, hat, hv, fun u hu key' hkey alike hx => hw u hu key' hkey alike (hx.imp fun _ => And.imp_right (hl _))⟩

/-- The row in the table is fresh, after a move that writes none. -/
theorem fresh_row {i : Nat} {fate : Fate} {env : Env} {t : InFlight} {op : Call} {k : Except Err op.Reply → Service Response}
    (timed : System.Timed c) (hs : (system lower).step c (.call i fate env) = some d) (ht : c.threads[i]? = some t)
    (hk : t.rest = .call op k) (reads : op.isWrite = false)
    (hrow : c.shared.member? key.workspaceId.uuid key.userId.uuid = v) : Fresh d key v lim := by
  refine ⟨c.time, c.shared, System.step_at? hs (System.at?_time c), hrow, fun u hu _ _ _ _ n hn => ?_⟩
  obtain ⟨t', op', k', ht', hk', -, rfl⟩ := System.step_call hs
  cases ht.symm.trans ht'
  cases hk.symm.trans hk'
  rcases List.mem_or_eq_of_mem_set hu with hu | rfl
  · exact timed.times_lt hu hn
  · rw [writes, System.times_resume, if_neg (by simp [reads])] at hn
    exact timed.times_lt (List.mem_of_getElem? ht) hn

theorem cache_hit {s : Tables} {env : Env} (h : (exec env (.cacheGet key) s).1 = .ok v) (hv : v.isSome) :
    ∃ e ∈ s.caches, e.key = key ∧ v = some e.membership := by
  obtain ⟨m, rfl⟩ := Option.isSome_iff_exists.mp hv
  obtain ⟨e, he, rfl⟩ := Option.map_eq_some_iff.mp (Except.ok.inj h)
  have hfind : s.caches.find? (·.key == key) = some e := (Option.filter_eq_some_iff.mp he).1
  exact ⟨e, List.mem_of_find?_eq_some hfind, by simpa using List.find?_some hfind, rfl⟩

/-- How a `getMembership` comes to its answer: a value from the cache, no row, or a row just stored. -/
theorem answer_cases {p : Nat} {w u : UuidText} {t : InFlight} {op : Call} {k : Except Err op.Reply → Service Response}
    {fate : Fate} {env : Env} {s : Tables} {n : Nat} (hf : t.rest.Flows (Follows t.request))
    (hk : t.rest = .call op k) (hreq : t.request = .getMembership p w u)
    (hres : ((system lower).resume t op k fate env s n).result? = some (.ok (.membership v))) :
    (∃ e ∈ s.caches, e.key = ⟨p, w, u⟩ ∧ v = some e.membership) ∨ (s.member? w.uuid u.uuid = none ∧ v = none) ∨
      (fate = .answered ∧ ∃ m, op = .cacheSet ⟨p, w, u⟩ m ∧ v = some m) := by
  obtain ⟨rfl, a, ha, hafter⟩ := after_reply hf hk (fun e he => by rw [Thread.result?, he] at hres; cases hres)
  rw [hreq] at hafter
  rw [Thread.result?] at hres
  cases op with
  | cacheGet key =>
    obtain ⟨rfl, ⟨hsome, hrest⟩ | ⟨-, hnext⟩⟩ := hafter
    · rw [hrest] at hres
      cases hres
      exact Or.inl (cache_hit ha hsome)
    · obtain ⟨k', hk'⟩ := Prog.eq_call_of_next? hnext
      rw [hk'] at hres
      cases hres
  | findMember w' u' =>
    obtain ⟨rfl, rfl, ⟨rfl, hrest⟩ | ⟨x, -, hnext⟩⟩ := hafter
    · rw [hrest] at hres
      cases hres
      exact Or.inr (Or.inl ⟨Except.ok.inj ha, rfl⟩)
    · obtain ⟨k', hk'⟩ := Prog.eq_call_of_next? hnext
      rw [hk'] at hres
      cases hres
  | cacheSet key m =>
    obtain ⟨rfl, hrest⟩ := hafter
    rw [hrest] at hres
    cases hres
    exact Or.inr (Or.inr ⟨rfl, m, rfl, rfl⟩)
  | _ => cases hafter

/-! ### What a move keeps -/

variable {m : Move interface Request}

/-- A request deletes the key of the membership it changes. -/
theorem drops_own_key {req : Request} {key' : MembershipKey} {k : Except Err Unit → Service Response}
    (hf : (Prog.call (.cacheDel key') k : Service Response).Flows (Follows req)) (env : Env)
    (hkey : req.changes = some key) : key' = key := by
  have hafter : AfterReply req (.cacheDel key') () _ := (hf (.ok ())).1 env
  cases req with
  | updateMemberRole p w u role => exact hafter.1.trans (Option.some.inj hkey)
  | removeMember p w u => exact hafter.1.trans (Option.some.inj hkey)
  | _ => cases hkey

theorem mem_caches_effect {fate : Fate} {env : Env} {op : Call} {s : Tables} {e : CacheEntry}
    (he : e ∈ ((system lower).effect fate env op s).caches) :
    (e ∈ s.caches ∧ ∀ key, op = .cacheDel key → fate ≠ .failed → e.key ≠ key) ∨
      (fate ≠ .failed ∧ op = .cacheSet e.key e.membership) := by
  by_cases hfate : fate = .failed
  · subst hfate
    exact Or.inl ⟨he, fun _ _ h => absurd rfl h⟩
  · have heff : (system lower).effect fate env op s = (exec env op (s.spend env)).2 := by
      cases fate with
      | failed => exact absurd rfl hfate
      | answered | lost => rfl
    rw [heff] at he
    cases op with
    | cacheSet key m =>
      rcases List.mem_cons.mp he with rfl | he
      · exact Or.inr ⟨hfate, rfl⟩
      · exact Or.inl ⟨(List.mem_filter.mp he).1, nofun⟩
    | cacheDel key =>
      obtain ⟨he, hne⟩ := List.mem_filter.mp he
      refine Or.inl ⟨he, fun key' hkey _ => ?_⟩
      cases hkey
      simpa using hne
    | _ =>
      rw [exec_caches (by simp) (by simp)] at he
      exact Or.inl ⟨he, nofun⟩

theorem Coherent.ended_step (h : Coherent c) (hf : ∀ t ∈ c.threads, t.rest.Flows (Follows t.request))
    (hs : (system lower).step c m = some d) : ∀ t ∈ d.threads, drops t ≠ [] → t.next? = none := by
  intro t ht hne
  rcases System.step_thread hs ht with ht | ⟨r, env, -, -, -, rfl⟩ | ⟨i, fate, env, u, op, k, -, hu, hk, -, -, rfl⟩ |
    ⟨i, u, -, hu, -, rfl⟩
  · exact h.ended t ht hne
  · exact absurd rfl hne
  · have hm := List.mem_of_getElem? hu
    by_contra hnext
    obtain ⟨rfl, a, -, hafter⟩ := after_reply (hf u hm) hk fun e he => hnext (by rw [Thread.next?, he]; rfl)
    rw [drops, System.times_resume] at hne
    split at hne
    · next hop =>
      cases op with
      | cacheDel key =>
        cases hreq : u.request with
        | updateMemberRole p w v role =>
          rw [hreq] at hafter
          obtain ⟨-, x, hrest⟩ := hafter
          exact hnext (by rw [Thread.next?, hrest]; rfl)
        | removeMember p w v =>
          rw [hreq] at hafter
          exact hnext (by rw [Thread.next?, hafter.2]; rfl)
        | _ => rw [hreq] at hafter; cases hafter
      | _ => cases hop
    · have := h.ended u hm hne
      simp [Thread.next?, hk] at this
  · rfl

/-- A membership that is stored is fresh when it is stored. -/
theorem Coherent.stored {t : InFlight} {i : Nat} {fate : Fate} {env : Env} {p : Nat} {w u : UuidText} {x : WorkspaceMember}
    (h : Coherent c) (hok : StoresFresh c (.call i fate env)) (ht : c.threads[i]? = some t) (hfate : fate ≠ .failed)
    (hreq : t.request = .getMembership p w u) (hnext : t.next? = some (.cacheSet key x))
    (hs : (system lower).step c (.call i fate env) = some d) : Fresh d key (some x) lim := by
  obtain ⟨rfl, n, hn, s, hat, hmem⟩ := h.storing t (List.mem_of_getElem? ht) p w u hreq key x hnext
  refine ⟨n, s, System.step_at? hs hat, hmem, fun v hv key' hkey alike hy => ?_⟩
  have hv : v ∈ c.threads := by
    rcases System.step_thread hs hv with hv | ⟨_, _, hm, -⟩ | ⟨j, _, _, t', op, k, hm, ht', -, -, -, rfl⟩ | ⟨_, _, hm, -⟩
    · exact hv
    · cases hm
    · -- The thread that stores the membership changes nothing.
      cases hm
      cases ht.symm.trans ht'
      have hkey : key' ∈ t.request.changes := hkey
      rw [hreq] at hkey
      cases hkey
    · cases hm
  obtain ⟨y, hy, -⟩ := hy
  exact fun m hm => hok (t, _) (by simp [stores?, ht, hnext, hfate]) v hv key' hkey alike (List.ne_nil_of_mem hy) m hm n hn

theorem Coherent.cached_step (h : Coherent c) (hf : ∀ t ∈ c.threads, t.rest.Flows (Follows t.request))
    (timed : System.Timed c) (hok : KeepsFresh c m) (hs : (system lower).step c m = some d) :
    ∀ e ∈ d.shared.caches, Fresh d e.key (some e.membership) fun _ => True := by
  intro e he
  cases m with
  | start r env =>
    obtain ⟨-, rfl⟩ := System.step_start hs
    exact (h.cached e he).step hs h.ended fun _ _ _ _ _ _ heq => nomatch heq
  | kill i =>
    obtain ⟨t, op, k, ht, hk, rfl⟩ := System.step_kill hs
    exact (h.cached e he).step hs h.ended fun _ _ _ _ _ _ heq => nomatch heq
  | call i fate env =>
    have hs' := hs
    obtain ⟨t, op, k, ht, hk, -, rfl⟩ := System.step_call hs'
    have hm := List.mem_of_getElem? ht
    have he : e ∈ ((system lower).effect fate env op c.shared).caches := he
    rcases mem_caches_effect he with ⟨hold, hdel⟩ | ⟨hfate, rfl⟩
    · by_cases hspelled : ∃ key', fate ≠ .failed ∧ op = .cacheDel key' ∧ key'.Alike e.key
      · -- The entry stays under another spelling of the key: it is the row.
        obtain ⟨key', hfate, rfl, alike⟩ := hspelled
        have hdrops : drops? c (.call i fate env) = some key' := by simp [drops?, ht, Thread.next?, hk, hfate]
        have hrow := hok.2 key' hdrops e hold alike.symm (hdel key' rfl hfate)
        rw [alike.2.1, alike.2.2] at hrow
        exact fresh_row timed hs ht hk rfl hrow
      · refine (h.cached e hold).step hs h.ended ?_
        intro j fate' env' t' op' k' heq ht' hk' hop hfate key' hkey alike
        cases heq
        cases ht.symm.trans ht'
        cases hk.symm.trans hk'
        cases op with
        | cacheDel key =>
          have hflows : (Prog.call (.cacheDel key) k : Service Response).Flows (Follows t.request) := hk ▸ hf t hm
          obtain rfl := drops_own_key hflows env hkey
          exact absurd ⟨_, hfate, rfl, alike⟩ hspelled
        | _ => cases hop
    · have hflows : (Prog.call (.cacheSet e.key e.membership) k : Service Response).Flows (Follows t.request) :=
        hk ▸ hf t hm
      have hafter : AfterReply t.request (.cacheSet e.key e.membership) () _ := (hflows (.ok ())).1 env
      cases hreq : t.request with
      | getMembership p w u => exact h.stored hok.1 ht hfate hreq (by rw [Thread.next?, hk]; rfl) hs
      | _ => rw [hreq] at hafter; cases hafter

theorem Coherent.storing_step (h : Coherent c) (hf : ∀ t ∈ c.threads, t.rest.Flows (Follows t.request))
    (hs : (system lower).step c m = some d) : ∀ t ∈ d.threads, ∀ p w u, t.request = .getMembership p w u →
      ∀ key x, t.next? = some (.cacheSet key x) →
        key = ⟨p, w, u⟩ ∧ ∃ n ∈ reads t, ∃ s, d.at? n = some s ∧ s.member? w.uuid u.uuid = some x := by
  have keep : ∀ t ∈ c.threads, ∀ p w u, t.request = .getMembership p w u → ∀ key x,
      t.next? = some (.cacheSet key x) →
        key = ⟨p, w, u⟩ ∧ ∃ n ∈ reads t, ∃ s, d.at? n = some s ∧ s.member? w.uuid u.uuid = some x := by
    intro t ht p w u hreq key x hnext
    obtain ⟨hkey, n, hn, s, hat, hmem⟩ := h.storing t ht p w u hreq key x hnext
    exact ⟨hkey, n, hn, s, System.step_at? hs hat, hmem⟩
  intro t ht p w u hreq key x hnext
  rcases System.step_thread hs ht with ht | ⟨r, env, -, -, -, rfl⟩ | ⟨i, fate, env, t₀, op, k, -, ht₀, hk, -, -, rfl⟩ |
    ⟨i, t₀, -, ht₀, -, rfl⟩
  · exact keep t ht p w u hreq key x hnext
  · have hreq : r = .getMembership p w u := hreq
    subst hreq
    cases hnext
  · have hreq₀ : t₀.request = .getMembership p w u := hreq
    obtain ⟨rfl, a, ha, hafter⟩ := after_reply (hf t₀ (List.mem_of_getElem? ht₀)) hk
      fun e he => by rw [Thread.next?, he] at hnext; cases hnext
    rw [hreq₀] at hafter
    rw [Thread.next?] at hnext
    cases op with
    | findMember w' u' =>
      obtain ⟨rfl, rfl, ⟨-, hrest⟩ | ⟨y, rfl, hnext'⟩⟩ := hafter
      · rw [hrest] at hnext
        cases hnext
      · cases hnext'.symm.trans hnext
        refine ⟨rfl, c.time, ?_, c.shared, System.step_at? hs (System.at?_time c), Except.ok.inj ha⟩
        rw [reads, System.times_resume]
        exact List.mem_cons_self ..
    | cacheGet key' =>
      obtain ⟨-, ⟨-, hrest⟩ | ⟨-, hnext'⟩⟩ := hafter
      · rw [hrest] at hnext
        cases hnext
      · cases hnext'.symm.trans hnext
    | cacheSet key' y =>
      rw [hafter.2] at hnext
      cases hnext
    | _ => cases hafter
  · cases hnext

theorem Coherent.answered_step (h : Coherent c) (hf : ∀ t ∈ c.threads, t.rest.Flows (Follows t.request))
    (ht : System.Timed c) (hok : KeepsFresh c m) (hs : (system lower).step c m = some d) :
    ∀ t ∈ d.threads, ∀ p w u, t.request = .getMembership p w u → ∀ v,
      t.result? = some (.ok (.membership v)) → Fresh d ⟨p, w, u⟩ v (· < t.started) := by
  intro t htd p w u hreq v hres
  rcases System.step_thread hs htd with htc | ⟨r, env, -, -, -, rfl⟩ | ⟨i, fate, env, t₀, op, k, rfl, ht₀, hk, -, -, rfl⟩ |
    ⟨i, t₀, -, ht₀, -, rfl⟩
  · refine (h.answered t htc p w u hreq v hres).step hs h.ended fun _ _ _ _ _ _ _ _ _ _ _ _ _ _ hlt => ?_
    exact absurd (ht t htc).1 (Nat.lt_asymm hlt)
  · have hreq : r = .getMembership p w u := hreq
    subst hreq
    cases hres
  · have hm := List.mem_of_getElem? ht₀
    have hreq : t₀.request = .getMembership p w u := hreq
    rcases answer_cases (hf t₀ hm) hk hreq hres with ⟨e, he, hkey, rfl⟩ | ⟨hnone, rfl⟩ | ⟨rfl, x, rfl, rfl⟩
    · -- The value comes from the cache, and this request deletes no key.
      rw [← hkey]
      refine ((h.cached e he).step hs h.ended ?_).weaken fun _ _ => trivial
      intro j fate' env' t' op' k' heq ht' hk' hop hfate key' hch
      cases heq
      cases ht₀.symm.trans ht'
      rw [hreq] at hch
      cases hch
    · refine ⟨c.time, c.shared, System.step_at? hs (System.at?_time c), hnone, fun y hy key' hch _ _ n hn => ?_⟩
      rcases System.step_thread hs hy with hy | ⟨_, _, heq, -⟩ | ⟨j, _, _, t', op', k', heq, ht', -, -, -, rfl⟩ |
        ⟨_, _, heq, -⟩
      · exact ht.times_lt hy hn
      · cases heq
      · cases heq
        cases ht₀.symm.trans ht'
        have hch : key' ∈ t₀.request.changes := hch
        rw [hreq] at hch
        cases hch
      · cases heq
    · exact h.stored hok.1 ht₀ nofun hreq (by rw [Thread.next?, hk]; rfl) hs
  · cases hres

/-- A request deletes its key right after its write. -/
theorem cacheDel_after_write {req : Request} {op : Call} {a : op.Reply} {rest : Service Response} {k : MembershipKey}
    (hkey : req.changes = some key) (h : AfterReply req op a rest) (hnext : rest.next? = some (.cacheDel k)) :
    op.isWrite = true := by
  cases req with
  | getMembership | accept => cases hkey
  | updateMemberRole p w u role =>
    cases op with
    | saveMember => rfl
    | findWorkspace =>
      rcases h with ⟨e, rfl⟩ | h
      · cases hnext
      · cases h.symm.trans hnext
    | findMember =>
      obtain ⟨-, -, ⟨e, rfl⟩ | ⟨x, -, h⟩⟩ := h
      · cases hnext
      · cases h.symm.trans hnext
    | cacheDel =>
      obtain ⟨-, x, rfl⟩ := h
      cases hnext
    | _ => cases h
  | removeMember p w u =>
    cases op with
    | removeMember => rfl
    | findWorkspace =>
      rcases h with ⟨e, rfl⟩ | h
      · cases hnext
      · cases h.symm.trans hnext
    | findMember =>
      obtain ⟨-, -, ⟨e, rfl⟩ | ⟨x, -, h⟩⟩ := h
      · cases hnext
      · cases h.symm.trans hnext
    | cacheDel =>
      obtain ⟨-, rfl⟩ := h
      cases hnext
    | _ => cases h

/-- A request returns right after it deleted its key. -/
theorem return_after_cacheDel {req : Request} {op : Call} {a : op.Reply} {rest : Service Response} {v : Response}
    (hkey : req.changes = some key) (h : AfterReply req op a rest) (hres : rest.result? = some (.ok v)) :
    ∃ k, op = .cacheDel k := by
  have hgo : ∀ c, rest.next? ≠ some c := fun c hc => by rw [Prog.next?_of_result? hres] at hc; cases hc
  cases req with
  | getMembership | accept => cases hkey
  | updateMemberRole p w u role =>
    cases op with
    | cacheDel k => exact ⟨k, rfl⟩
    | findWorkspace =>
      rcases h with ⟨e, rfl⟩ | h
      · cases hres
      · exact absurd h (hgo _)
    | findMember =>
      obtain ⟨-, -, ⟨e, rfl⟩ | ⟨x, -, h⟩⟩ := h
      · cases hres
      · exact absurd h (hgo _)
    | saveMember => exact absurd h (hgo _)
    | _ => cases h
  | removeMember p w u =>
    cases op with
    | cacheDel k => exact ⟨k, rfl⟩
    | findWorkspace =>
      rcases h with ⟨e, rfl⟩ | h
      · cases hres
      · exact absurd h (hgo _)
    | findMember =>
      obtain ⟨-, -, ⟨e, rfl⟩ | ⟨x, -, h⟩⟩ := h
      · cases hres
      · exact absurd h (hgo _)
    | removeMember => exact absurd h (hgo _)
    | _ => cases h

theorem Coherent.returned_step (h : Coherent c) (hf : ∀ t ∈ c.threads, t.rest.Flows (Follows t.request))
    (hs : (system lower).step c m = some d) : ∀ t ∈ d.threads, ∀ key, t.request.changes = some key →
      ((∃ k, t.next? = some (.cacheDel k)) → writes t ≠ []) ∧
        ((∃ v, t.result? = some (.ok v)) → writes t ≠ [] ∧ t.last ∈ drops t) := by
  intro t ht key hkey
  rcases System.step_thread hs ht with ht | ⟨r, env, -, -, -, rfl⟩ | ⟨i, fate, env, t₀, op, k, -, ht₀, hk, -, -, rfl⟩ |
    ⟨i, t₀, -, ht₀, -, rfl⟩
  · exact h.returned t ht key hkey
  · have hkey : r.changes = some key := hkey
    cases r with
    | updateMemberRole | removeMember => exact ⟨by rintro ⟨_, ⟨⟩⟩, by rintro ⟨_, ⟨⟩⟩⟩
    | _ => cases hkey
  · have hm := List.mem_of_getElem? ht₀
    have hkey₀ : t₀.request.changes = some key := hkey
    rw [writes, drops, System.times_resume, System.times_resume]
    constructor
    · rintro ⟨k', hnext⟩
      obtain ⟨rfl, a, -, hafter⟩ := after_reply (hf t₀ hm) hk
        fun e he => by rw [Thread.next?, he] at hnext; cases hnext
      have hwrite := cacheDel_after_write hkey₀ hafter hnext
      rw [if_pos (by simp [hwrite])]
      exact List.cons_ne_nil _ _
    · rintro ⟨v, hres⟩
      obtain ⟨rfl, a, -, hafter⟩ := after_reply (hf t₀ hm) hk
        fun e he => by rw [Thread.result?, he] at hres; cases hres
      obtain ⟨k', rfl⟩ := return_after_cacheDel hkey₀ hafter hres
      refine ⟨(h.returned t₀ hm key hkey₀).1 ⟨k', by rw [Thread.next?, hk]; rfl⟩, ?_⟩
      exact List.mem_cons_self ..
  · exact ⟨by rintro ⟨_, ⟨⟩⟩, by rintro ⟨_, ⟨⟩⟩⟩

theorem Coherent.step (h : Coherent c) (hf : ∀ t ∈ c.threads, t.rest.Flows (Follows t.request))
    (ht : System.Timed c) (hok : KeepsFresh c m) (hs : (system lower).step c m = some d) : Coherent d where
  ended := h.ended_step hf hs
  cached := h.cached_step hf ht hok hs
  storing := h.storing_step hf hs
  answered := h.answered_step hf ht hok hs
  returned := h.returned_step hf hs

/-- The caches hold what the table holds. -/
def Tables.CachesAgree (s : Tables) : Prop :=
  ∀ e ∈ s.caches, s.member? e.key.workspaceId.uuid e.key.userId.uuid = some e.membership

theorem reach_coherent {s : Tables} (hs : s.CachesAgree) (hr : (system lower).Reach KeepsFresh (.initial s) c) :
    Coherent c := by
  have known : ∀ {c}, (system lower).Reach KeepsFresh (.initial s) c →
      (∀ t ∈ c.threads, t.rest.Flows (Follows t.request)) ∧ System.Timed c := fun h =>
    ⟨h.flows (program_flows lower), h.invariant nofun fun ih _ hs => ih.step hs⟩
  refine hr.invariant_with known ⟨nofun, fun e he => ?_, nofun, nofun, nofun⟩ fun hq _ h hok hs => h.step hq.1 hq.2 hok hs
  exact ⟨0, s, rfl, hs e he, nofun⟩

/-- As long as only fresh memberships are stored, and those cached under another spelling are fresh when a key is
    deleted, a `getMembership` that starts after a change of the membership has returned in the same process answers with
    what the table held at a moment after the write of the change; however the two requests spell the ids. -/
theorem getMembership_fresh (lower : String → String) (s : Tables) (c : State) (hs : s.CachesAgree)
    (hr : (system lower).Reach KeepsFresh (.initial s) c) (f g : InFlight) (hf : f ∈ c.threads) (hg : g ∈ c.threads)
    (key : MembershipKey) (hkey : f.request.changes = some key) (hret : ∃ x, f.result? = some (.ok x)) (p : Nat)
    (w u : UuidText) (hreq : g.request = .getMembership p w u) (alike : key.Alike ⟨p, w, u⟩) (hlater : f.last < g.started)
    (v : Option WorkspaceMember) (hres : g.result? = some (.ok (.membership v))) :
    ∃ n, (∃ k ∈ writes f, k < n) ∧ ∃ t, c.at? n = some t ∧ t.member? w.uuid u.uuid = v := by
  have h := reach_coherent hs hr
  obtain ⟨hw, hlast⟩ := (h.returned f hf _ hkey).2 hret
  obtain ⟨n, t, hat, hv, hall⟩ := h.answered g hg p w u hreq v hres
  obtain ⟨k, hk⟩ := List.exists_mem_of_ne_nil _ hw
  exact ⟨n, ⟨k, hk, hall f hf key hkey alike ⟨_, hlast, hlater⟩ k hk⟩, t, hat, hv⟩

end

/-! ### Runs -/

/-- User 5 is an ADMIN of workspace 1, which user 9 owns. -/
def admin : WorkspaceMember := ⟨20, 1, 5, .ADMIN, 0⟩

def oneAdmin : Tables := ⟨[5, 9], [⟨1, "Acme", "acme", 9⟩], [admin], [], [], ⟨[1, 5, 9, 20], []⟩⟩

/-- The role is changed, and then the membership resolved by an id in capitals. -/
def demotion : List (Move interface Request) :=
  [.start (.updateMemberRole 0 ⟨1, 0⟩ ⟨5, 0⟩ .MEMBER) (envAt 1), .call 0 .answered (envAt 2),
   .call 0 .answered (envAt 3), .call 0 .answered (envAt 4), .call 0 .answered (envAt 5),
   .start (.getMembership 0 ⟨1, 0⟩ ⟨5, 1⟩) (envAt 6), .call 1 .answered (envAt 7), .call 1 .answered (envAt 8),
   .call 1 .answered (envAt 9)]

/-- A `getMembership` reads the row before the change and stores it after the key was deleted; the next
    one finds it in the cache. -/
def staleDemotion : List (Move interface Request) :=
  [.start (.getMembership 0 ⟨1, 0⟩ ⟨5, 0⟩) (envAt 1), .call 0 .answered (envAt 2), .call 0 .answered (envAt 3),
   .start (.updateMemberRole 0 ⟨1, 0⟩ ⟨5, 0⟩ .MEMBER) (envAt 4), .call 1 .answered (envAt 5),
   .call 1 .answered (envAt 6), .call 1 .answered (envAt 7), .call 1 .answered (envAt 8), .call 0 .answered (envAt 9),
   .start (.getMembership 0 ⟨1, 0⟩ ⟨5, 0⟩) (envAt 10), .call 2 .answered (envAt 11)]

set_option maxRecDepth 4000 in
theorem getMembership_fresh_demotion : ∃ (c : State) (n : Nat) (t : Tables), c.at? n = some t ∧
    t.member? 1 5 = some { admin with role := .MEMBER } := by
  have hrun : ∃ (c : State) (f g : InFlight), (system id).Reach KeepsFresh (.initial oneAdmin) c ∧
      c.threads[0]? = some f ∧ c.threads[1]? = some g ∧ f.request = .updateMemberRole 0 ⟨1, 0⟩ ⟨5, 0⟩ .MEMBER ∧
      f.result? = some (.ok (.updated { admin with role := .MEMBER })) ∧
      g.request = .getMembership 0 ⟨1, 0⟩ ⟨5, 1⟩ ∧ f.last < g.started ∧
      g.result? = some (.ok (.membership (some { admin with role := .MEMBER }))) :=
    ⟨_, _, _, System.reach_of_run demotion rfl, rfl, rfl, rfl, rfl, rfl, by decide, rfl⟩
  obtain ⟨c, f, g, hr, hf, hg, hreqf, hret, hreqg, hlater, hres⟩ := hrun
  obtain ⟨n, -, t, hat, hm⟩ := getMembership_fresh id oneAdmin c nofun hr f g (List.mem_of_getElem? hf)
    (List.mem_of_getElem? hg) ⟨0, ⟨1, 0⟩, ⟨5, 0⟩⟩ (hreqf ▸ rfl) ⟨_, hret⟩ 0 _ _ hreqg ⟨rfl, rfl, rfl⟩ hlater _ hres
  exact ⟨c, n, t, hat, hm⟩

set_option maxRecDepth 4000 in
/-- The role is MEMBER from the sixth move on; the call that starts after the change has returned answers
    ADMIN. -/
theorem getMembership_stale : ∃ (c : State) (f g : InFlight), (system id).Reach (fun _ _ => True) (.initial oneAdmin) c ∧
    c.threads[1]? = some f ∧ c.threads[2]? = some g ∧ f.request = .updateMemberRole 0 ⟨1, 0⟩ ⟨5, 0⟩ .MEMBER ∧
    f.result? = some (.ok (.updated { admin with role := .MEMBER })) ∧ g.request = .getMembership 0 ⟨1, 0⟩ ⟨5, 0⟩ ∧
    f.last < g.started ∧ g.result? = some (.ok (.membership (some admin))) ∧ writes f = [6] ∧
    ∀ t ∈ (c.past ++ [c.shared]).drop 7, t.member? 1 5 = some { admin with role := .MEMBER } :=
  ⟨_, _, _, System.reach_of_run staleDemotion rfl, rfl, rfl, rfl, rfl, rfl, by decide, rfl, rfl, by decide⟩

/-- The membership is cached, and its role then changed by an id in capitals: the key that is deleted is another one. -/
def respelledDemotion : List (Move interface Request) :=
  [.start (.getMembership 0 ⟨1, 0⟩ ⟨5, 0⟩) (envAt 1), .call 0 .answered (envAt 2), .call 0 .answered (envAt 3),
   .call 0 .answered (envAt 4), .start (.updateMemberRole 0 ⟨1, 0⟩ ⟨5, 1⟩ .MEMBER) (envAt 5),
   .call 1 .answered (envAt 6), .call 1 .answered (envAt 7), .call 1 .answered (envAt 8), .call 1 .answered (envAt 9),
   .start (.getMembership 0 ⟨1, 0⟩ ⟨5, 0⟩) (envAt 10), .call 2 .answered (envAt 11)]

example : ∃ c, (system id).Reach (fun _ _ => True) (.initial oneAdmin) c ∧
    ∃ f ∈ c.threads[1]?, f.result? = some (.ok (.updated { admin with role := .MEMBER })) ∧
      ∃ g ∈ c.threads[2]?, f.last < g.started ∧ g.result? = some (.ok (.membership (some admin))) :=
  System.reach_exists respelledDemotion (by decide +kernel)

end TaskPlatform.Workspaces

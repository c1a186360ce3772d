import TaskPlatform.Library.Clock
import TaskPlatform.Workspaces.Staleness

/-! How old a membership can be that `getMembership` answers with, in whatever process: as old as a row can get between
    its read and its way into the cache, and the cache then keeps it. -/

namespace TaskPlatform.Workspaces
open Effects

/-- The system by the clock. -/
abbrev timed (lower : String → String) : System interface (Tables × Date) Request Response :=
  (system lower).clocked Env.now

abbrev TimedState := Config interface (Tables × Date) Request Response

def Call.isLookup : Call → Bool
  | .cacheGet _ => true
  | _ => false

/-- When the request looked into the cache. -/
def lookups (t : InFlight) : List Nat := t.times Call.isLookup

/-- The thread that stores a membership in the cache, and the time. -/
def storesAt? (c : TimedState) : Move interface Request → Option (InFlight × Date)
  | .call i fate env =>
    match c.threads[i]? with
    | some t =>
      match t.next? with
      | some (.cacheSet _ _) => if fate = .failed then none else some (t, env.now)
      | _ => none
    | none => none
  | _ => none

/-- A membership is stored in the cache at most `d` milliseconds after its row was read. -/
def Prompt (d : Nat) (c : TimedState) (m : Move interface Request) : Prop :=
  ∀ x ∈ storesAt? c m, ∀ n ∈ reads x.1, ∀ s ∈ c.at? (n + 1), x.2 ≤ s.2 + d

instance (d : Nat) (c : TimedState) (m : Move interface Request) : Decidable (Prompt d c m) :=
  inferInstanceAs (Decidable (∀ x ∈ storesAt? c m, ∀ n ∈ reads x.1, ∀ s ∈ c.at? (n + 1), x.2 ≤ s.2 + d))

/-- The member's row at the time. -/
def RowAt (c : TimedState) (w u : Uuid) (m : WorkspaceMember) (time : Date) : Prop :=
  c.HeldAt (fun s => s.member? w u = some m) time

/-! ### What a `getMembership` was told -/

/-- A membership that is stored was just read. -/
def Stored : Request → List (Said interface) → Call → Prop
  | .getMembership _ w u, log, .cacheSet _ m => ∃ rest, log = ⟨.findMember w.uuid u.uuid, .ok (some m)⟩ :: rest
  | _, _, _ => True

/-- How a `getMembership` came to its answer. -/
def Answered : Request → List (Said interface) → Response → Prop
  | .getMembership p w u, log, .membership v =>
    (∃ m, v = some m ∧ log = [⟨.cacheGet ⟨p, w, u⟩, .ok (some m)⟩]) ∨
      (v = none ∧ log = [⟨.findMember w.uuid u.uuid, .ok none⟩, ⟨.cacheGet ⟨p, w, u⟩, .ok none⟩]) ∨
      ∃ m, v = some m ∧ log = [⟨.cacheSet ⟨p, w, u⟩ m, .ok ()⟩, ⟨.findMember w.uuid u.uuid, .ok (some m)⟩,
        ⟨.cacheGet ⟨p, w, u⟩, .ok none⟩]
  | _, _, _ => True

section
variable {lower : String → String} {d : Nat} {c : TimedState}

theorem program_stores (r : Request) : (program lower r).Makes (Stored r) [] := by
  cases r with
  | getMembership p w u =>
    refine Prog.Makes.bind ?_ (Prog.leaves_true ..) fun _ _ _ => trivial
    refine Prog.Makes.perform_bind trivial fun cached => ?_
    cases cached with
    | some m => trivial
    | none =>
      refine Prog.Makes.perform_bind trivial fun m => ?_
      cases m with
      | none => trivial
      | some m => exact Prog.Makes.perform_bind ⟨_, rfl⟩ fun _ => trivial
  | _ => exact Prog.makes_of_forall (fun _ _ => trivial) _ _

theorem program_answers (r : Request) : (program lower r).Leaves (Answered r) [] := by
  cases r with
  | getMembership p w u =>
    intro cached
    rcases cached with e | ⟨_ | m⟩
    · trivial
    · intro row
      rcases row with e | ⟨_ | m⟩
      · trivial
      · exact Or.inr (Or.inl ⟨rfl, rfl⟩)
      · intro stored
        cases stored with
        | error e => trivial
        | ok _ => exact Or.inr (Or.inr ⟨m, rfl, rfl⟩)
    · exact Or.inl ⟨m, rfl, rfl⟩
  | _ => exact (Prog.leaves_true ..).mono fun _ _ _ => trivial

/-! ### Where the entries of a cache come from -/

/-- An entry was the committed row at most the life of an entry, and `d`, before the entry expires. -/
def Sourced (d : Nat) (c : TimedState) (e : CacheEntry) : Prop :=
  ∃ time, e.expiresAt ≤ time + MEMBERSHIP_TTL_MS + d ∧ RowAt c e.key.workspaceId.uuid e.key.userId.uuid e.membership time

theorem mem_caches_stored {fate : Fate} {env : Env} {op : Call} {s : Tables} {e : CacheEntry}
    (he : e ∈ ((system lower).effect fate env op s).caches) :
    e ∈ s.caches ∨ fate ≠ .failed ∧ op = .cacheSet e.key e.membership ∧ e.expiresAt = env.now + MEMBERSHIP_TTL_MS := by
  rcases mem_caches_effect he with ⟨he, -⟩ | ⟨hfate, hop⟩
  · exact Or.inl he
  · subst hop
    have heff : e ∈ (exec env (.cacheSet e.key e.membership) (s.spend env)).2.caches := by
      cases fate with
      | failed => exact absurd rfl hfate
      | answered | lost => exact he
    rcases List.mem_cons.mp heff with heq | he
    · exact Or.inr ⟨hfate, rfl, by rw [heq]⟩
    · exact Or.inl (List.mem_filter.mp he).1

/-- A row that a request was told of was committed then. -/
theorem row_read {ok : TimedState → Move interface Request → Prop} {s₀ : Tables × Date}
    (hr : (timed lower).Reach ok (.initial s₀) c) {t : InFlight} (ht : t ∈ c.threads) {e : Event interface} (he : e ∈ t.log)
    {w u : Uuid} {v : Option WorkspaceMember} (hsaid : e.said = ⟨.findMember w u, .ok v⟩) :
    e.time ∈ reads t ∧ ∃ s s', c.at? e.time = some s ∧ c.at? (e.time + 1) = some s' ∧ s.2 ≤ s'.2 ∧
      s.1.member? w u = v := by
  obtain ⟨op, answer, took, time⟩ := e
  simp only [Event.said] at hsaid
  cases hsaid
  obtain ⟨rfl, s, s', env, hat, hat', htime, hle, hreply, -⟩ := System.Reach.answered hr ht he rfl
  refine ⟨?_, s, s', hat, hat', htime ▸ hle, Except.ok.inj hreply⟩
  exact List.mem_map.mpr ⟨_, List.mem_filter.mpr ⟨he, rfl⟩, rfl⟩

/-- A look into the cache; what it found had not expired then. -/
theorem looked_up {ok : TimedState → Move interface Request → Prop} {s₀ : Tables × Date}
    (hr : (timed lower).Reach ok (.initial s₀) c) {t : InFlight} (ht : t ∈ c.threads) {e : Event interface} (he : e ∈ t.log)
    {key : MembershipKey} {v : Option WorkspaceMember} (hsaid : e.said = ⟨.cacheGet key, .ok v⟩) :
    e.time ∈ lookups t ∧ ∃ s s', c.at? e.time = some s ∧ c.at? (e.time + 1) = some s' ∧
      ∀ m ∈ v, ∃ x ∈ s.1.caches, x.key = key ∧ x.membership = m ∧ s'.2 ≤ x.expiresAt := by
  obtain ⟨op, answer, took, time⟩ := e
  simp only [Event.said] at hsaid
  cases hsaid
  obtain ⟨rfl, s, s', env, hat, hat', htime, -, hreply, -⟩ := System.Reach.answered hr ht he rfl
  refine ⟨List.mem_map.mpr ⟨_, List.mem_filter.mpr ⟨he, rfl⟩, rfl⟩, s, s', hat, hat', fun m hm => ?_⟩
  rw [← Except.ok.inj hreply] at hm
  obtain ⟨x, hx, rfl⟩ := Option.map_eq_some_iff.mp hm
  obtain ⟨hfound, hlive⟩ := Option.filter_eq_some_iff.mp hx
  refine ⟨x, List.mem_of_find?_eq_some hfound, by simpa using List.find?_some hfound, rfl, ?_⟩
  rw [htime]
  exact of_decide_eq_true hlive

/-- A stored entry is sourced: its row was read by the request that stores it. -/
theorem sourced_stored {s₀ : Tables × Date} (hr : (timed lower).Reach (fun c m => Prompt d c m) (.initial s₀) c)
    {i : Nat} {fate : Fate} {env : Env} {t : InFlight} {e : CacheEntry} (hok : Prompt d c (.call i fate env))
    (ht : c.threads[i]? = some t) (hnext : t.next? = some (.cacheSet e.key e.membership)) (hfate : fate ≠ .failed)
    (hexpires : e.expiresAt = env.now + MEMBERSHIP_TTL_MS) : Sourced d c e := by
  have hmem := List.mem_of_getElem? ht
  obtain ⟨k, hk⟩ := Prog.eq_call_of_next? hnext
  have hflows : (Prog.call (.cacheSet e.key e.membership) k : Service Response).Flows (Follows t.request) :=
    hk ▸ hr.flows (F := Follows) (program_flows lower) t hmem
  have hafter : AfterReply t.request (.cacheSet e.key e.membership) () _ := (hflows (.ok ())).1 env
  have hstored := ((hr.makes program_stores t hmem).1).next hnext
  generalize t.request = r at hafter hstored
  cases r with
  | getMembership p w u =>
    obtain ⟨hkey, -⟩ := hafter
    obtain ⟨rest, hlog⟩ := hstored
    obtain ⟨f, log, hf, hsaid, -⟩ := List.map_eq_cons_iff.mp hlog
    have hflog : f ∈ t.log := hf ▸ List.mem_cons_self ..
    obtain ⟨hread, s, s', hat, hat', hle, hrow⟩ := row_read hr hmem hflog hsaid
    have hprompt := hok (t, env.now) (by simp [storesAt?, ht, hnext, hfate]) f.time hread s' hat'
    refine ⟨s'.2, ?_, f.time, s, s', hat, hat', hle, le_refl _, by rw [hkey]; exact hrow⟩
    rw [hexpires, Int.add_right_comm]
    exact Int.add_le_add_right hprompt _
  | _ => cases hafter

/-- At every moment all entries of all caches are sourced. -/
theorem caches_sourced {s₀ : Tables × Date} (empty : s₀.1.caches = [])
    (hr : (timed lower).Reach (fun c m => Prompt d c m) (.initial s₀) c) :
    ∀ n s, c.at? n = some s → ∀ e ∈ s.1.caches, Sourced d c e := by
  have keep : ∀ {c c' : TimedState} {m e}, (timed lower).step c m = some c' → Sourced d c e → Sourced d c' e := by
    intro c c' m e hs ⟨time, hexpires, hrow⟩
    exact ⟨time, hexpires, hrow.step hs⟩
  induction hr with
  | refl =>
    intro n s hat e he
    obtain rfl : n = 0 := Nat.le_zero.mp (System.at?_le hat)
    obtain rfl : s₀ = s := Option.some.inj hat
    rw [empty] at he
    cases he
  | @tail c c' hr hs ih =>
    obtain ⟨m, hok, hs⟩ := hs
    intro n s hat e he
    rcases System.step_at?_cases hs hat with hat | ⟨-, rfl⟩
    · exact keep hs (ih n s hat e he)
    · rcases System.step_shared hs with heq | ⟨env, -, heq⟩ | ⟨i, fate, env, t, op, rfl, ht, hnext, -, heq⟩
      · exact keep hs (ih _ _ (System.at?_time c) e (heq ▸ he))
      · rw [heq] at he
        exact keep hs (ih _ _ (System.at?_time c) e he)
      · rw [heq, System.clocked_effect] at he
        rcases mem_caches_stored he with he | ⟨hfate, rfl, hexpires⟩
        · exact keep hs (ih _ _ (System.at?_time c) e he)
        · exact keep hs (sourced_stored hr hok ht hnext hfate hexpires)

/-- A membership that `getMembership` answers with was the committed row of the user at a time that is before its look
    into the cache by no more than an entry's life and the longest time between a read and its store; and where it
    answers that there is none, it has read so from the table. -/
theorem getMembership_bounded (lower : String → String) (d : Nat) (s : Tables) (start : Date) (empty : s.caches = [])
    (c : TimedState) (hr : (timed lower).Reach (fun c m => Prompt d c m) (.initial (s, start)) c) (g : InFlight)
    (hg : g ∈ c.threads) (p : Nat) (w u : UuidText) (hreq : g.request = .getMembership p w u) (v : Option WorkspaceMember)
    (hres : g.result? = some (.ok (.membership v))) :
    (∀ m ∈ v, ∃ n ∈ lookups g, ∃ look time, c.MadeAt n look ∧ look - MEMBERSHIP_TTL_MS - d ≤ time ∧
      RowAt c w.uuid u.uuid m time) ∧
      (v = none → ∃ n ∈ reads g, ∃ t, c.at? n = some t ∧ t.1.member? w.uuid u.uuid = none) := by
  have hanswered := hr.ended program_answers hg hres
  rw [hreq] at hanswered
  rcases hanswered with ⟨m, rfl, hlog⟩ | ⟨rfl, hlog⟩ | ⟨m, rfl, hlog⟩
  · -- The cache had it: its entry was not yet expired.
    obtain ⟨e, log, hlog, hsaid, -⟩ := List.map_eq_cons_iff.mp hlog
    obtain ⟨hlook, t, t', hat, hat', hfound⟩ := looked_up hr hg (hlog ▸ List.mem_cons_self ..) hsaid
    refine ⟨fun m' hm' => ?_, nofun⟩
    obtain ⟨x, hx, hkey, hm, hlive⟩ := hfound m' hm'
    obtain ⟨time, hexpires, hrow⟩ := caches_sourced empty hr e.time t hat x hx
    rw [hkey, hm] at hrow
    refine ⟨e.time, hlook, t'.2, time, ⟨t', hat', rfl⟩, ?_, hrow⟩
    have hage : (t'.2 : Int) ≤ time + MEMBERSHIP_TTL_MS + d := Int.le_trans hlive hexpires
    exact Int.sub_right_le_of_le_add (Int.sub_right_le_of_le_add (Int.add_right_comm .. ▸ hage))
  · obtain ⟨f, log, hlog, hsaid, -⟩ := List.map_eq_cons_iff.mp hlog
    obtain ⟨hread, t, -, hat, -, -, hrow⟩ := row_read hr hg (hlog ▸ List.mem_cons_self ..) hsaid
    exact ⟨nofun, fun _ => ⟨f.time, hread, t, hat, hrow⟩⟩
  · -- It was read after the look into the cache.
    obtain ⟨stored, log, hlog, -, hrest⟩ := List.map_eq_cons_iff.mp hlog
    obtain ⟨f, log', hlog', hread, hrest⟩ := List.map_eq_cons_iff.mp hrest
    obtain ⟨e, log'', hlog'', hlooked, -⟩ := List.map_eq_cons_iff.mp hrest
    subst hlog' hlog''
    have hf : f ∈ g.log := by simp [hlog]
    have he : e ∈ g.log := by simp [hlog]
    have hsorted := hr.sorted g hg
    rw [hlog] at hsorted
    have hlt : e.time < f.time := List.rel_of_pairwise_cons (List.pairwise_cons.mp hsorted).2 (List.mem_cons_self ..)
    obtain ⟨hlook, -, t, -, hat, -⟩ := looked_up hr hg he hlooked
    obtain ⟨-, x, x', hx, hx', hle, hrow⟩ := row_read hr hg hf hread
    refine ⟨fun m' hm' => ?_, nofun⟩
    obtain rfl := Option.some.inj hm'
    have hlater : (t.2 : Int) ≤ x'.2 := System.Reach.clock_le hr hat hx' (Nat.succ_le_succ (Nat.le_of_lt hlt))
    refine ⟨e.time, hlook, t.2, x'.2, ⟨t, hat, rfl⟩, ?_, f.time, x, x', hx, hx', hle, le_refl _, hrow⟩
    have httl : (0 : Int) ≤ MEMBERSHIP_TTL_MS := by decide
    have hless : (t.2 : Int) - MEMBERSHIP_TTL_MS - d ≤ t.2 :=
      Int.le_trans (Int.sub_le_self _ (Int.natCast_nonneg d)) (Int.sub_le_self _ httl)
    exact Int.le_trans hless hlater

end

/-! ### A demotion in another process -/

/-- The environment of the `n`-th move, at a time. -/
def envAtTime (n : Nat) (now : Date) : Env := { envAt n with now }

/-- Process 1 stores the membership ten seconds after it read it; meanwhile the role is set in process 0. It still answers
    with the old role thirty seconds later. -/
def demotedElsewhere : List (Move interface Request) :=
  [.start (.getMembership 1 ⟨1, 0⟩ ⟨5, 0⟩) (envAtTime 1 0), .call 0 .answered (envAtTime 2 0), .call 0 .answered (envAtTime 3 0),
   .start (.updateMemberRole 0 ⟨1, 0⟩ ⟨5, 0⟩ .MEMBER) (envAtTime 4 100), .call 1 .answered (envAtTime 5 100),
   .call 1 .answered (envAtTime 6 100), .call 1 .answered (envAtTime 7 100), .call 1 .answered (envAtTime 8 100),
   .call 0 .answered (envAtTime 9 10000), .start (.getMembership 1 ⟨1, 0⟩ ⟨5, 0⟩) (envAtTime 10 40000),
   .call 2 .answered (envAtTime 11 40000)]

theorem getMembership_bounded_demotion : ∃ (c : TimedState) (time : Date), (0 : Int) ≤ time ∧ RowAt c 1 5 admin time := by
  have hrun : ∃ c, (timed id).Reach (fun c m => Prompt 10000 c m) (.initial (oneAdmin, 0)) c ∧
      ∃ g ∈ c.threads[2]?, g.request = .getMembership 1 ⟨1, 0⟩ ⟨5, 0⟩ ∧ g.result? = some (.ok (.membership (some admin))) ∧
        lookups g = [10] ∧ (c.at? 11).map Prod.snd = some 40000 :=
    System.reach_exists demotedElsewhere (by decide +kernel)
  obtain ⟨c, hr, g, hg, hreq, hres, hlookups, hlook⟩ := hrun
  obtain ⟨n, hn, look, time, ⟨t, hat, rfl⟩, hbound, hrow⟩ := (getMembership_bounded id 10000 oneAdmin 0 rfl c hr g
    (List.mem_of_getElem? hg) 1 ⟨1, 0⟩ ⟨5, 0⟩ hreq _ hres).1 admin rfl
  obtain rfl := List.mem_singleton.mp (hlookups ▸ hn)
  rw [hat] at hlook
  obtain hlook : t.2 = 40000 := Option.some.inj hlook
  rw [hlook] at hbound
  exact ⟨c, time, hbound, hrow⟩

end TaskPlatform.Workspaces

import TaskPlatform.Library.Serial

/-! What a run leaves on record: the answers that a program got, and the states that the run went through. -/

namespace Effects
variable {I : Interface} {S Req α β : Type}

/-- A call with its answer. -/
abbrev Said (I : Interface) := Σ c : I.Call, Except I.Error (I.Reply c)

def Event.said (e : Event I) : Said I := ⟨e.call, e.answer⟩

/-! ### What a program that ends was told -/

namespace Prog
variable {p : Prog I α} {f : α → Prog I β} {Q Q' : List (Said I) → α → Prop} {R : List (Said I) → β → Prop}
  {log : List (Said I)}

/-- Whatever the program is told after `log`, if it ends with a value then `Q` holds of all that it was told,
    newest first, and of the value. -/
def Leaves (Q : List (Said I) → α → Prop) : Prog I α → List (Said I) → Prop
  | ret a, log => Q log a
  | throw _, _ => True
  | ask k, log => ∀ env, (k env).Leaves Q log
  | call c k, log => ∀ a, (k a).Leaves Q (⟨c, a⟩ :: log)

@[simp] theorem leaves_ret {a : α} : (ret a : Prog I α).Leaves Q log ↔ Q log a := Iff.rfl

@[simp] theorem leaves_throw {e : I.Error} : (throw e : Prog I α).Leaves Q log := trivial

theorem Leaves.mono (h : p.Leaves Q log) (hQ : ∀ log a, Q log a → Q' log a) : p.Leaves Q' log := by
  induction p generalizing log with
  | ret a => exact hQ log a h
  | throw e => trivial
  | ask k ih => exact fun env => ih env (h env)
  | call c k ih => exact fun a => ih a (h a)

/-- The sequence rule. -/
theorem Leaves.bind (h : p.Leaves Q log) (hf : ∀ log a, Q log a → (f a).Leaves R log) : (p.bind f).Leaves R log := by
  induction p generalizing log with
  | ret a => exact hf log a h
  | throw e => trivial
  | ask k ih => exact fun env => ih env (h env)
  | call c k ih => exact fun a => ih a (h a)

/-- The rule of a call. -/
theorem Leaves.perform {c : I.Call} {Q : List (Said I) → I.Reply c → Prop} (h : ∀ a, Q (⟨c, .ok a⟩ :: log) a) :
    (Prog.perform c).Leaves Q log
  | .ok a => h a
  | .error _ => trivial

theorem Leaves.read_bind {g : I.Env → α} (h : ∀ env, (f (g env)).Leaves R log) : ((read g).bind f).Leaves R log := h

theorem Leaves.settle (h : p.Leaves Q log) (env : I.Env) : (p.settle env).Leaves Q log := by
  induction p with
  | ret | throw => exact h
  | ask k ih => exact ih env (h env)
  | call c k => exact h

/-- What a program is told comes after what it was told before. -/
theorem Leaves.suffix (p : Prog I α) (log : List (Said I)) : p.Leaves (fun log' _ => log <:+ log') log := by
  induction p generalizing log with
  | ret a => exact List.suffix_refl log
  | throw e => trivial
  | ask k ih => exact fun env => ih env log
  | call c k ih => exact fun a => (ih a _).mono fun _ _ h => (List.suffix_cons _ _).trans h

/-- All that a program was told before stays on record. -/
theorem Leaves.extends (p : Prog I α) (log : List (Said I)) : p.Leaves (fun log' _ => log ⊆ log') log := by
  induction p generalizing log with
  | ret a => exact fun _ h => h
  | throw e => trivial
  | ask k ih => exact fun env => ih env log
  | call c k ih => exact fun a => (ih a _).mono fun _ _ h => fun _ hx => h (List.mem_cons_of_mem _ hx)

/-- What a program is told comes after what it was told before, and answers calls that it makes. -/
theorem Calls.leaves {P : I.Call → Prop} (h : p.Calls P) (log : List (Said I)) :
    p.Leaves (fun log' _ => ∃ said, log' = said ++ log ∧ ∀ x ∈ said, P x.1) log := by
  induction p generalizing log with
  | ret a => exact ⟨[], rfl, fun _ hx => absurd hx List.not_mem_nil⟩
  | throw e => trivial
  | ask k ih => exact fun env => ih env (h env) log
  | call c k ih =>
    intro a
    refine (ih a (h.2 a) (⟨c, a⟩ :: log)).mono ?_
    rintro _ _ ⟨said, rfl, hsaid⟩
    refine ⟨said ++ [⟨c, a⟩], by rw [List.append_assoc, List.singleton_append], fun x hx => ?_⟩
    rcases List.mem_append.mp hx with hx | hx
    · exact hsaid x hx
    · exact List.mem_singleton.mp hx ▸ h.1

theorem Leaves.and (h : p.Leaves Q log) (h' : p.Leaves Q' log) : p.Leaves (fun log a => Q log a ∧ Q' log a) log := by
  induction p generalizing log with
  | ret a => exact ⟨h, h'⟩
  | throw e => trivial
  | ask k ih => exact fun env => ih env (h env) (h' env)
  | call c k ih => exact fun a => ih a (h a) (h' a)

/-! ### How a program ends -/

/-- However the program ends after `log`, with a value or an error, `Q` holds of all that it was told and of how it
    ended. -/
def Yields (Q : List (Said I) → Except I.Error α → Prop) : Prog I α → List (Said I) → Prop
  | ret a, log => Q log (.ok a)
  | throw e, log => Q log (.error e)
  | ask k, log => ∀ env, (k env).Yields Q log
  | call c k, log => ∀ a, (k a).Yields Q (⟨c, a⟩ :: log)

variable {Y : List (Said I) → Except I.Error α → Prop} {Z : List (Said I) → Except I.Error β → Prop}

/-- The sequence rule. -/
theorem Yields.bind (h : p.Yields Y log) (ok : ∀ log a, Y log (.ok a) → (f a).Yields Z log)
    (error : ∀ log e, Y log (.error e) → Z log (.error e)) : (p.bind f).Yields Z log := by
  induction p generalizing log with
  | ret a => exact ok log a h
  | throw e => exact error log e h
  | ask k ih => exact fun env => ih env (h env)
  | call c k ih => exact fun a => ih a (h a)

theorem Yields.mono {Y' : List (Said I) → Except I.Error α → Prop} (h : p.Yields Y log) (hY : ∀ log a, Y log a → Y' log a) :
    p.Yields Y' log := by
  induction p generalizing log with
  | ret | throw => exact hY _ _ h
  | ask k ih => exact fun env => ih env (h env)
  | call c k ih => exact fun a => ih a (h a)

theorem yields_of_forall (h : ∀ log a, Y log a) (p : Prog I α) (log : List (Said I)) : p.Yields Y log := by
  induction p generalizing log with
  | ret | throw => exact h _ _
  | ask k ih => exact fun env => ih env log
  | call c k ih => exact fun a => ih a _

/-- The rule of a call with what follows it. -/
theorem Yields.perform_bind {c : I.Call} {f : I.Reply c → Prog I β} (ok : ∀ a, (f a).Yields Z (⟨c, .ok a⟩ :: log))
    (error : ∀ e, Z (⟨c, .error e⟩ :: log) (.error e)) : ((Prog.perform c).bind f).Yields Z log
  | .ok a => ok a
  | .error e => error e

/-- A program that is run for how it ends has a value. -/
theorem Yields.attempt (h : p.Yields Y log) : p.attempt.Yields (fun log a => ∃ r, a = .ok r ∧ Y log r) log := by
  induction p generalizing log with
  | ret | throw => exact ⟨_, rfl, h⟩
  | ask k ih => exact fun env => ih env (h env)
  | call c k ih => exact fun a => ih a (h a)

theorem Yields.leaves (h : p.Yields Y log) : p.Leaves (fun log a => Y log (.ok a)) log := by
  induction p generalizing log with
  | ret a => exact h
  | throw e => trivial
  | ask k ih => exact fun env => ih env (h env)
  | call c k ih => exact fun a => ih a (h a)

theorem Yields.settle (h : p.Yields Y log) (env : I.Env) : (p.settle env).Yields Y log := by
  induction p with
  | ret | throw => exact h
  | ask k ih => exact ih env (h env)
  | call c k => exact h

/-- A program that has no more calls to make has ended. -/
theorem Yields.ended (h : p.Yields Y log) (env : I.Env) (ended : (p.settle env).next? = none) : ∃ a, Y log a := by
  induction p with
  | ret a => exact ⟨_, h⟩
  | throw e => exact ⟨_, h⟩
  | ask k ih => exact ih env (h env) ended
  | call c k => cases ended

/-! ### What a program calls -/

/-- Every call that the program can make is one that `P` allows after what the program was told before. -/
def Makes (P : List (Said I) → I.Call → Prop) : Prog I α → List (Said I) → Prop
  | ret _, _ | throw _, _ => True
  | ask k, log => ∀ env, (k env).Makes P log
  | call c k, log => P log c ∧ ∀ a, (k a).Makes P (⟨c, a⟩ :: log)

variable {P : List (Said I) → I.Call → Prop}

@[simp] theorem makes_ret {a : α} : (ret a : Prog I α).Makes P log := trivial

@[simp] theorem makes_throw {e : I.Error} : (throw e : Prog I α).Makes P log := trivial

theorem Makes.mono {P' : List (Said I) → I.Call → Prop} (h : p.Makes P log) (hP : ∀ log c, P log c → P' log c) :
    p.Makes P' log := by
  induction p generalizing log with
  | ret | throw => trivial
  | ask k ih => exact fun env => ih env (h env)
  | call c k ih => exact ⟨hP log c h.1, fun a => ih a (h.2 a)⟩

theorem makes_of_forall (h : ∀ log c, P log c) (p : Prog I α) (log : List (Said I)) : p.Makes P log := by
  induction p generalizing log with
  | ret | throw => trivial
  | ask k ih => exact fun env => ih env log
  | call c k ih => exact ⟨h log c, fun a => ih a _⟩

theorem leaves_true (p : Prog I α) (log : List (Said I)) : p.Leaves (fun _ _ => True) log :=
  (Leaves.extends p log).mono fun _ _ _ => trivial

/-- The sequence rule. -/
theorem Makes.bind (h : p.Makes P log) (hp : p.Leaves Q log) (hf : ∀ log a, Q log a → (f a).Makes P log) :
    (p.bind f).Makes P log := by
  induction p generalizing log with
  | ret a => exact hf log a hp
  | throw e => trivial
  | ask k ih => exact fun env => ih env (h env) (hp env)
  | call c k ih => exact ⟨h.1, fun a => ih a (h.2 a) (hp a)⟩

/-- A program makes what it calls. -/
theorem Calls.makes {P' : I.Call → Prop} (h : p.Calls P') (hP : ∀ log c, P' c → P log c) : p.Makes P log := by
  induction p generalizing log with
  | ret | throw => trivial
  | ask k ih => exact fun env => ih env (h env)
  | call c k ih => exact ⟨hP _ _ h.1, fun a => ih a (h.2 a)⟩

theorem Makes.perform {c : I.Call} (h : P log c) : (Prog.perform c).Makes P log :=
  ⟨h, fun a => by cases a <;> trivial⟩

/-- The rule of a call with what follows it. -/
theorem Makes.perform_bind {c : I.Call} {f : I.Reply c → Prog I β} (h : P log c)
    (next : ∀ a, (f a).Makes P (⟨c, .ok a⟩ :: log)) : ((Prog.perform c).bind f).Makes P log :=
  ⟨h, fun
    | .ok a => next a
    | .error _ => trivial⟩

/-- The rule of an error that is caught. -/
theorem Makes.handle {h : I.Error → Prog I α} (hp : p.Makes P log) (hh : ∀ log e, (h e).Makes P log) :
    (p.handle h).Makes P log := by
  induction p generalizing log with
  | ret a => trivial
  | throw e => exact hh log e
  | ask k ih => exact fun env => ih env (hp env)
  | call c k ih => exact ⟨hp.1, fun a => ih a (hp.2 a)⟩

theorem Makes.attempt (h : p.Makes P log) : p.attempt.Makes P log :=
  (h.bind (leaves_true _ _) fun _ _ _ => makes_ret).handle fun _ _ => makes_ret

theorem Makes.read_bind {g : I.Env → α} (h : ∀ env, (f (g env)).Makes P log) : ((read g).bind f).Makes P log := h

theorem Makes.settle (h : p.Makes P log) (env : I.Env) : (p.settle env).Makes P log := by
  induction p with
  | ret | throw => trivial
  | ask k ih => exact ih env (h env)
  | call c k => exact h

theorem Makes.next {c : I.Call} (h : p.Makes P log) (hn : p.next? = some c) : P log c := by
  obtain ⟨k, rfl⟩ := eq_call_of_next? hn
  exact h.1

/-- Every call of the log is one that `P` allows after what was told before it. -/
def Allowed (P : List (Said I) → I.Call → Prop) : List (Event I) → Prop
  | [] => True
  | e :: log => P (log.map Event.said) e.call ∧ Allowed P log

theorem Allowed.split {before after : List (Event I)} {e : Event I} (h : Allowed P (before ++ e :: after)) :
    P (after.map Event.said) e.call := by
  induction before with
  | nil => exact h.1
  | cons x before ih => exact ih h.2

theorem Allowed.mono {P' : List (Said I) → I.Call → Prop} {log : List (Event I)} (h : Allowed P log)
    (hP : ∀ log c, P log c → P' log c) : Allowed P' log := by
  induction log with
  | nil => trivial
  | cons e log ih => exact ⟨hP _ _ h.1, ih h.2⟩

end Prog

namespace System
variable {sys : System I S Req α} {ok : Config I S Req α → Move I Req → Prop} {s₀ : S} {c d : Config I S Req α}

theorem Reach.leaves {Q : Req → List (Said I) → α → Prop} (h : ∀ r, (sys.program r).Leaves (Q r) [])
    (hr : sys.Reach ok (.initial s₀) d) : ∀ t ∈ d.threads, t.rest.Leaves (Q t.request) (t.log.map Event.said) := by
  refine hr.invariant (P := fun c => ∀ t ∈ c.threads, t.rest.Leaves (Q t.request) (t.log.map Event.said)) nofun ?_
  intro c d m ih _ hs t ht
  rcases step_thread hs ht with ht | ⟨r, env, -, -, -, rfl⟩ | ⟨i, fate, env, u, op, k, -, hu, hk, -, -, rfl⟩ |
    ⟨i, u, -, hu, -, rfl⟩
  · exact ih t ht
  · exact (h r).settle env
  · have hleaves : (Prog.call op k).Leaves (Q u.request) (u.log.map Event.said) := hk ▸ ih u (List.mem_of_getElem? hu)
    exact (hleaves _).settle env
  · trivial

/-- What programs call while they run, and have called. -/
theorem Reach.makes {P : Req → List (Said I) → I.Call → Prop} (h : ∀ r, (sys.program r).Makes (P r) [])
    (hr : sys.Reach ok (.initial s₀) d) :
    ∀ t ∈ d.threads, t.rest.Makes (P t.request) (t.log.map Event.said) ∧ Prog.Allowed (P t.request) t.log := by
  refine hr.invariant (P := fun c => ∀ t ∈ c.threads, t.rest.Makes (P t.request) (t.log.map Event.said) ∧
    Prog.Allowed (P t.request) t.log) nofun ?_
  intro c d m ih _ hs t ht
  rcases step_thread hs ht with ht | ⟨r, env, -, -, -, rfl⟩ | ⟨i, fate, env, u, op, k, -, hu, hk, -, -, rfl⟩ |
    ⟨i, u, -, hu, -, rfl⟩
  · exact ih t ht
  · exact ⟨(h r).settle env, trivial⟩
  · obtain ⟨hmakes, hallowed⟩ := ih u (List.mem_of_getElem? hu)
    have hmakes : (Prog.call op k).Makes (P u.request) (u.log.map Event.said) := hk ▸ hmakes
    exact ⟨(hmakes.2 _).settle env, hmakes.1, hallowed⟩
  · exact ⟨trivial, (ih u hu).2⟩

/-- The program that a call is answered to, if it has ended then. -/
theorem ended_resume {Y : List (Said I) → Except I.Error α → Prop} {t : Thread I Req α} {op : I.Call}
    {k : Except I.Error (I.Reply op) → Prog I α} {fate : Fate} {env : I.Env} {s : S} {n : Nat} (next : t.rest = .call op k)
    (h : t.rest.Yields Y (t.log.map Event.said)) (ended : (sys.resume t op k fate env s n).Ended) :
    ∃ a, Y ((sys.resume t op k fate env s n).log.map Event.said) a := by
  rw [next] at h
  exact (h _).ended env ended

/-- How a program in flight will end. -/
theorem Reach.yields {Y : Req → List (Said I) → Except I.Error α → Prop} (h : ∀ r, (sys.program r).Yields (Y r) [])
    (hr : sys.Reach ok (.initial s₀) d) :
    ∀ t ∈ d.threads, t.Ended ∨ t.rest.Yields (Y t.request) (t.log.map Event.said) := by
  refine hr.invariant (P := fun c => ∀ t ∈ c.threads, t.Ended ∨ t.rest.Yields (Y t.request) (t.log.map Event.said)) nofun ?_
  intro c d m ih _ hs t ht
  rcases step_thread hs ht with ht | ⟨r, env, -, -, -, rfl⟩ | ⟨i, fate, env, u, op, k, -, hu, hk, -, -, rfl⟩ |
    ⟨i, u, -, hu, -, rfl⟩
  · exact ih t ht
  · exact Or.inr ((h r).settle env)
  · rcases ih u (List.mem_of_getElem? hu) with hended | hyields
    · rw [Thread.Ended, Thread.next?, hk] at hended
      cases hended
    · have hyields : (Prog.call op k).Yields (Y u.request) (u.log.map Event.said) := hk ▸ hyields
      exact Or.inr ((hyields _).settle env)
  · exact Or.inl rfl

/-- How every program ends, where one that is stopped ends as it should, too. -/
theorem Reach.yields_all {Y : Req → List (Said I) → Except I.Error α → Prop} (h : ∀ r, (sys.program r).Yields (Y r) [])
    (stopped : ∀ r log, Y r log (.error sys.fault)) (hr : sys.Reach ok (.initial s₀) d) :
    ∀ t ∈ d.threads, t.rest.Yields (Y t.request) (t.log.map Event.said) := by
  refine hr.invariant (P := fun c => ∀ t ∈ c.threads, t.rest.Yields (Y t.request) (t.log.map Event.said)) nofun ?_
  intro c d m ih _ hs t ht
  rcases step_thread hs ht with ht | ⟨r, env, -, -, -, rfl⟩ | ⟨i, fate, env, u, op, k, -, hu, hk, -, -, rfl⟩ |
    ⟨i, u, -, hu, -, rfl⟩
  · exact ih t ht
  · exact (h r).settle env
  · have hyields : (Prog.call op k).Yields (Y u.request) (u.log.map Event.said) := hk ▸ ih u (List.mem_of_getElem? hu)
    exact (hyields _).settle env
  · exact stopped u.request _

/-- How a program has ended. -/
theorem yields_result {Y : List (Said I) → Except I.Error α → Prop} {t : Thread I Req α} {a : Except I.Error α}
    (h : t.rest.Yields Y (t.log.map Event.said)) (ha : t.result? = some a) : Y (t.log.map Event.said) a := by
  rw [Thread.result?] at ha
  generalize t.rest = p at ha h
  cases p with
  | ret b | throw e =>
    cases ha
    exact h
  | ask | call => cases ha

/-- What holds of a program that has ended with a value. -/
theorem Reach.ended {Q : Req → List (Said I) → α → Prop} (h : ∀ r, (sys.program r).Leaves (Q r) [])
    (hr : sys.Reach ok (.initial s₀) d) {t : Thread I Req α} (ht : t ∈ d.threads) {a : α}
    (ha : t.result? = some (.ok a)) : Q t.request (t.log.map Event.said) a := by
  have hleaves := hr.leaves h t ht
  rw [Thread.result?] at ha
  generalize t.rest = p at ha hleaves
  cases p with
  | ret b =>
    cases ha
    exact hleaves
  | throw | ask | call => cases ha

/-! ### The states of a run -/

/-- What a move can make of the shared state. -/
inductive Change (sys : System I S Req α) (s : S) : S → Prop
  | same : Change sys s s
  | spent {env : I.Env} (new : sys.admits s env = true) : Change sys s (sys.spend s env)
  | called {env : I.Env} (fate : Fate) (c : I.Call) (new : sys.admits s env = true) :
      Change sys s (sys.effect fate env c s)

theorem step_change {m : Move I Req} (h : sys.step c m = some d) : sys.Change c.shared d.shared := by
  rcases step_shared h with heq | ⟨env, hadm, heq⟩ | ⟨i, fate, env, t, op, -, -, -, hadm, heq⟩
  · exact heq ▸ .same
  · exact heq ▸ .spent hadm
  · exact heq ▸ .called fate op hadm

theorem at?_exists (c : Config I S Req α) {n : Nat} (h : n ≤ c.time) : ∃ s, c.at? n = some s := by
  have hlt : n < (c.past ++ [c.shared]).length := by
    rw [List.length_append, List.length_singleton]
    exact Nat.lt_succ_of_le h
  exact ⟨_, List.getElem?_eq_getElem hlt⟩

theorem at?_le {c : Config I S Req α} {n : Nat} {s : S} (h : c.at? n = some s) : n ≤ c.time := by
  have hlt := (List.getElem?_eq_some_iff.mp h).1
  rw [List.length_append, List.length_singleton] at hlt
  exact Nat.le_of_lt_succ hlt

theorem at?_mem_drop {c : Config I S Req α} {n m : Nat} {s : S} (h : c.at? n = some s) (lt : m < n) :
    s ∈ (c.past ++ [c.shared]).drop (m + 1) := by
  refine List.mem_iff_getElem?.mpr ⟨n - (m + 1), ?_⟩
  rw [List.getElem?_drop, Nat.add_sub_cancel' lt]
  exact h

/-- After one more move the states are the former ones and the shared state of now. -/
theorem step_at?_cases {m : Move I Req} (h : sys.step c m = some d) {n : Nat} {s : S} (hn : d.at? n = some s) :
    c.at? n = some s ∨ n = d.time ∧ s = d.shared := by
  rcases Nat.lt_or_ge n d.time with hlt | hge
  · rw [step_time h] at hlt
    obtain ⟨s', hs'⟩ := at?_exists c (Nat.le_of_lt_succ hlt)
    exact Or.inl (hs'.trans ((step_at? h hs').symm.trans hn))
  · have heq := Nat.le_antisymm (at?_le hn) hge
    exact Or.inr ⟨heq, Option.some.inj (hn.symm.trans (heq ▸ at?_time d))⟩

theorem Reach.change (hr : sys.Reach ok (.initial s₀) d) {n : Nat} {s s' : S} (hn : d.at? n = some s)
    (hn' : d.at? (n + 1) = some s') : sys.Change s s' := by
  revert n s s'
  refine hr.invariant
    (P := fun d => ∀ {n s s'}, d.at? n = some s → d.at? (n + 1) = some s' → sys.Change s s') ?_ ?_
  · intro n s s' _ hn'
    exact absurd (at?_le hn') (Nat.not_succ_le_zero n)
  · intro c d m ih _ hs n s s' hn hn'
    rcases step_at?_cases hs hn' with hc' | ⟨htime, rfl⟩
    · obtain ⟨s₁, hs₁⟩ := at?_exists c (Nat.le_of_succ_le (at?_le hc'))
      exact Option.some.inj (hn.symm.trans (step_at? hs hs₁)) ▸ ih hs₁ hc'
    · have hc : n = c.time := Nat.succ.inj (htime.trans (step_time hs))
      have hshared := step_at? hs (at?_time c)
      rw [← hc, hn] at hshared
      exact Option.some.inj hshared ▸ step_change hs

/-- What holds at one moment and is kept from each state to the next one still holds later. -/
theorem Reach.lasts {P : S → Prop} (hr : sys.Reach ok (.initial s₀) d) {n m : Nat} {s s' : S} (hn : d.at? n = some s)
    (hm : d.at? m = some s') (le : n ≤ m) (init : P s)
    (keep : ∀ {i a b}, n ≤ i → i < m → d.at? i = some a → d.at? (i + 1) = some b → sys.Change a b → P a → P b) :
    P s' := by
  induction le generalizing s' with
  | refl => exact Option.some.inj (hn.symm.trans hm) ▸ init
  | @step m le ih =>
    obtain ⟨a, ha⟩ := at?_exists d (Nat.le_of_succ_le (at?_le hm))
    have hP : P a := ih ha fun hi him => keep hi (Nat.lt_succ_of_lt him)
    exact keep le (Nat.lt_succ_self m) ha hm (hr.change ha hm) hP

theorem Reach.at?_zero (hr : sys.Reach ok (.initial s₀) d) : d.at? 0 = some s₀ :=
  hr.invariant (P := fun d => d.at? 0 = some s₀) rfl fun h _ hs => step_at? hs h

/-- What holds at the start and is kept from each state to the next one always holds. -/
theorem Reach.always {P : S → Prop} (hr : sys.Reach ok (.initial s₀) d) (init : P s₀)
    (keep : ∀ {a b}, sys.Change a b → P a → P b) {n : Nat} {s : S} (hn : d.at? n = some s) : P s :=
  hr.lasts hr.at?_zero hn (Nat.zero_le n) init fun _ _ _ _ hchange => keep hchange

/-- What every allowed move keeps of the shared state lasts from one moment of a run to every later one. -/
theorem Reach.carries {P : S → Prop} (hr : sys.Reach ok (.initial s₀) d)
    (keep : ∀ {c d m}, sys.Reach ok (.initial s₀) c → ok c m → sys.step c m = some d → P c.shared → P d.shared)
    {n m : Nat} {s s' : S} (hn : d.at? n = some s) (hm : d.at? m = some s') (le : n ≤ m) (init : P s) : P s' := by
  induction hr generalizing n m s s' with
  | refl =>
    obtain rfl : m = 0 := Nat.le_zero.mp (at?_le hm)
    obtain rfl : n = 0 := Nat.le_zero.mp le
    exact Option.some.inj (hn.symm.trans hm) ▸ init
  | @tail c d hr hs ih =>
    obtain ⟨mv, hok, hs⟩ := hs
    rcases step_at?_cases hs hn with hn' | ⟨rfl, rfl⟩
    · rcases step_at?_cases hs hm with hm' | ⟨-, rfl⟩
      · exact ih hn' hm' le init
      · exact keep hr hok hs (ih hn' (at?_time c) (at?_le hn') init)
    · obtain rfl : m = d.time := Nat.le_antisymm (at?_le hm) le
      exact Option.some.inj (hn.symm.trans hm) ▸ init

/-! ### The calls of a run -/

/-- The event is a call that was made in the state of its time, and led to the next one. -/
def Recorded (sys : System I S Req α) (c : Config I S Req α) (e : Event I) : Prop :=
  ∃ s env fate, c.at? e.time = some s ∧ sys.admits s env = true ∧
    c.at? (e.time + 1) = some (sys.effect fate env e.call s) ∧
    e.answer = sys.answer fate (sys.exec env e.call (sys.spend s env)).1 ∧ e.took = (fate != .failed)

theorem Recorded.step {m : Move I Req} {e : Event I} (h : Recorded sys c e) (hs : sys.step c m = some d) :
    Recorded sys d e := by
  obtain ⟨s, env, fate, hs₁, hadm, hs₂, h⟩ := h
  exact ⟨s, env, fate, step_at? hs hs₁, hadm, step_at? hs hs₂, h⟩

theorem Reach.recorded (hr : sys.Reach ok (.initial s₀) d) : ∀ t ∈ d.threads, ∀ e ∈ t.log, Recorded sys d e := by
  refine hr.invariant (P := fun d => ∀ t ∈ d.threads, ∀ e ∈ t.log, Recorded sys d e) nofun ?_
  intro c d m ih _ hs t ht e he
  rcases step_thread hs ht with ht | ⟨r, env, -, -, -, rfl⟩ | ⟨i, fate, env, u, op, k, -, hu, -, hadm, heq, rfl⟩ |
    ⟨i, u, -, hu, -, rfl⟩
  · exact (ih t ht e he).step hs
  · cases he
  · rcases List.mem_cons.mp he with rfl | he
    · refine ⟨c.shared, env, fate, step_at? hs (at?_time c), hadm, ?_, rfl, rfl⟩
      rw [← heq, ← step_time hs]
      exact at?_time d
    · exact (ih u (List.mem_of_getElem? hu) e he).step hs
  · exact (ih u hu e he).step hs

theorem Reach.timed (hr : sys.Reach ok (.initial s₀) d) : Timed d :=
  hr.invariant nofun fun h _ hs => h.step hs

/-- The log of a thread is in order, the newest call first. -/
theorem Reach.sorted (hr : sys.Reach ok (.initial s₀) d) :
    ∀ t ∈ d.threads, t.log.Pairwise fun e e' => e'.time < e.time := by
  refine hr.invariant_with (Q := Timed) (P := fun d => ∀ t ∈ d.threads, t.log.Pairwise fun e e' => e'.time < e.time)
    (fun hr => hr.timed) nofun ?_
  intro c d m timed _ ih _ hs t ht
  rcases step_thread hs ht with ht | ⟨r, env, -, -, -, rfl⟩ | ⟨i, fate, env, u, op, k, -, hu, hk, -, -, rfl⟩ |
    ⟨i, u, -, hu, -, rfl⟩
  · exact ih t ht
  · exact .nil
  · have hu := List.mem_of_getElem? hu
    exact .cons (fun e he => ((timed u hu).2 e he).2) (ih u hu)
  · exact ih u hu

/-- A call that was answered took effect in the state of its time. -/
theorem Recorded.answered {e : Event I} (h : Recorded sys d e) {c : I.Call} {a : I.Reply c} (said : e.said = ⟨c, .ok a⟩) :
    e.call = c ∧ e.took = true ∧ ∃ s env, d.at? e.time = some s ∧ sys.admits s env = true ∧
      (sys.handler env c s).1 = .ok a ∧ d.at? (e.time + 1) = some (sys.handler env c s).2 := by
  obtain ⟨op, answer, took, n⟩ := e
  simp only [Event.said] at said
  cases said
  obtain ⟨s, env, fate, hs₁, hadm, hs₂, hanswer, htook⟩ := h
  cases fate with
  | answered => exact ⟨rfl, htook, s, env, hs₁, hadm, hanswer.symm, hs₂⟩
  | failed | lost => cases hanswer

/-- A call that was answered by an error failed from outside, or was rejected in the state of its time. -/
theorem Recorded.rejected {e : Event I} (h : Recorded sys d e) {c : I.Call} {err : I.Error} (said : e.said = ⟨c, .error err⟩) :
    err = sys.fault ∨ ∃ s env, d.at? e.time = some s ∧ sys.admits s env = true ∧ (sys.handler env c s).1 = .error err := by
  obtain ⟨op, answer, took, n⟩ := e
  simp only [Event.said] at said
  cases said
  obtain ⟨s, env, fate, hs₁, hadm, -, hanswer, -⟩ := h
  cases fate with
  | answered => exact Or.inr ⟨s, env, hs₁, hadm, hanswer.symm⟩
  | failed | lost => exact Or.inl (Except.error.inj hanswer)

/-- A reply that a program got was given to its call at a moment after it had started. -/
theorem Reach.said (hr : sys.Reach ok (.initial s₀) d) {t : Thread I Req α} (ht : t ∈ d.threads) {c : I.Call}
    {a : I.Reply c} (h : ⟨c, .ok a⟩ ∈ t.log.map Event.said) :
    ∃ n s env, t.started < n ∧ d.at? n = some s ∧ sys.admits s env = true ∧ (sys.handler env c s).1 = .ok a ∧
      d.at? (n + 1) = some (sys.handler env c s).2 := by
  obtain ⟨e, he, hsaid⟩ := List.mem_map.mp h
  obtain ⟨-, -, s, env, h⟩ := (hr.recorded t ht e he).answered hsaid
  exact ⟨e.time, s, env, ((hr.timed t ht).2 e he).1, h⟩

theorem Reach.at? (hr : sys.Reach ok c d) {n : Nat} {s : S} (hn : c.at? n = some s) : d.at? n = some s := by
  induction hr with
  | refl => exact hn
  | tail _ hs ih =>
    obtain ⟨m, -, hs⟩ := hs
    exact step_at? hs ih

/-- The moment of a call: what the run had reached then, with the thread that was about to make it. -/
theorem Reach.moment (hr : sys.Reach ok (.initial s₀) d) : ∀ t ∈ d.threads, ∀ e ∈ t.log, ∃ c u,
    sys.Reach ok (.initial s₀) c ∧ sys.Reach ok c d ∧ c.time = e.time ∧ u ∈ c.threads ∧ u.request = t.request ∧
      u.next? = some e.call := by
  refine hr.invariant_with (Q := fun c => sys.Reach ok (.initial s₀) c) (P := fun d => ∀ t ∈ d.threads, ∀ e ∈ t.log, ∃ c u,
    sys.Reach ok (.initial s₀) c ∧ sys.Reach ok c d ∧ c.time = e.time ∧ u ∈ c.threads ∧ u.request = t.request ∧
      u.next? = some e.call) id nofun ?_
  intro b d m hb _ ih hok hs t ht e he
  have former : ∀ t' ∈ b.threads, t'.request = t.request → e ∈ t'.log → ∃ c u, sys.Reach ok (.initial s₀) c ∧
      sys.Reach ok c d ∧ c.time = e.time ∧ u ∈ c.threads ∧ u.request = t.request ∧ u.next? = some e.call := by
    intro t' ht' hreq he'
    obtain ⟨c, u, hc, hcb, htime, hu, hrequest, hnext⟩ := ih t' ht' e he'
    exact ⟨c, u, hc, hcb.tail ⟨m, hok, hs⟩, htime, hu, hrequest.trans hreq, hnext⟩
  rcases step_thread hs ht with ht | ⟨r, env, -, -, -, rfl⟩ | ⟨i, fate, env, u, op, k, -, hu, hk, -, -, rfl⟩ |
    ⟨i, u, -, hu, -, rfl⟩
  · exact former t ht rfl he
  · cases he
  · rcases List.mem_cons.mp he with rfl | he
    · exact ⟨b, u, hb, .single ⟨m, hok, hs⟩, rfl, List.mem_of_getElem? hu, rfl, by rw [Thread.next?, hk]; rfl⟩
    · exact former u (List.mem_of_getElem? hu) rfl he
  · exact former u hu rfl he

/-! ### What a part of the state owes to which calls -/

/-- Two threads never call at the same time. -/
theorem Reach.apart (hr : sys.Reach ok (.initial s₀) d) : ∀ {i j : Nat} {t u : Thread I Req α}, i ≠ j →
    d.threads[i]? = some t → d.threads[j]? = some u → ∀ e ∈ t.log, ∀ e' ∈ u.log, e.time ≠ e'.time := by
  refine hr.invariant_with (Q := Timed) (P := fun d => ∀ {i j : Nat} {t u : Thread I Req α}, i ≠ j →
    d.threads[i]? = some t → d.threads[j]? = some u → ∀ e ∈ t.log, ∀ e' ∈ u.log, e.time ≠ e'.time)
    (fun hr => hr.timed) nofun ?_
  intro c d m timed _ ih _ hs i j t u hij ht hu e he e' he'
  -- The log of a thread after the move: a former one, or one more call, made now.
  have former : ∀ {i : Nat} {t : Thread I Req α} {e : Event I}, d.threads[i]? = some t → e ∈ t.log →
      (∃ t', c.threads[i]? = some t' ∧ e ∈ t'.log) ∨ e.time = c.time ∧ ∃ fate env, m = .call i fate env := by
    intro i t e ht he
    cases m with
    | start r env =>
      obtain ⟨-, rfl⟩ := step_start hs
      rcases getElem?_concat_cases ht with ht | ⟨-, rfl⟩
      · exact Or.inl ⟨t, ht, he⟩
      · cases he
    | call k fate env =>
      obtain ⟨w, op, next, hw, -, -, rfl⟩ := step_call hs
      rcases getElem?_set_cases ht with ⟨-, ht⟩ | ⟨rfl, rfl⟩
      · exact Or.inl ⟨t, ht, he⟩
      · rcases List.mem_cons.mp he with rfl | he
        · exact Or.inr ⟨rfl, fate, env, rfl⟩
        · exact Or.inl ⟨w, hw, he⟩
    | kill k =>
      obtain ⟨w, op, next, hw, -, rfl⟩ := step_kill hs
      rcases getElem?_set_cases ht with ⟨-, ht⟩ | ⟨rfl, rfl⟩
      · exact Or.inl ⟨t, ht, he⟩
      · exact Or.inl ⟨w, hw, he⟩
  rcases former ht he with ⟨t', ht', he₁⟩ | ⟨htime, fate, env, rfl⟩
  · rcases former hu he' with ⟨u', hu', he₂⟩ | ⟨htime, -⟩
    · exact ih hij ht' hu' e he₁ e' he₂
    · exact Nat.ne_of_lt (htime ▸ ((timed t' (List.mem_of_getElem? ht')).2 e he₁).2)
  · rcases former hu he' with ⟨u', hu', he₂⟩ | ⟨-, fate', env', hm⟩
    · exact Nat.ne_of_gt (htime ▸ ((timed u' (List.mem_of_getElem? hu')).2 e' he₂).2)
    · cases hm
      exact absurd rfl hij

/-- Only calls that meet `p` change the part `f` of the shared state. -/
structure Owes {β : Type} (sys : System I S Req α) (f : S → β) (p : I.Call → Bool) : Prop where
  spend : ∀ s env, f (sys.spend s env) = f s
  call : ∀ {c} s env, p c = false → f (sys.exec env c s).2 = f s

variable {β : Type} {f : S → β} {p : I.Call → Bool}

/-- From one moment to the next one the part stays, unless a call that meets `p` was made. -/
theorem Owes.next (o : Owes sys f p) (hr : sys.Reach ok (.initial s₀) d) {n : Nat} {s s' : S} (hn : d.at? n = some s)
    (hn' : d.at? (n + 1) = some s') : f s' = f s ∨ ∃ t ∈ d.threads, n ∈ t.times p := by
  revert n s s'
  refine hr.invariant (P := fun d => ∀ {n s s'}, d.at? n = some s → d.at? (n + 1) = some s' →
    f s' = f s ∨ ∃ t ∈ d.threads, n ∈ t.times p) ?_ ?_
  · intro n s s' _ hn'
    exact absurd (at?_le hn') (Nat.not_succ_le_zero n)
  · intro c d m ih _ hs n s s' hn hn'
    rcases step_at?_cases hs hn' with hc' | ⟨htime, rfl⟩
    · obtain ⟨s₁, hs₁⟩ := at?_exists c (Nat.le_of_succ_le (at?_le hc'))
      obtain rfl : s₁ = s := Option.some.inj ((step_at? hs hs₁).symm.trans hn)
      refine (ih hs₁ hc').imp_right ?_
      rintro ⟨t, ht, hmem⟩
      obtain ⟨e, he, rfl⟩ := List.mem_map.mp hmem
      obtain ⟨t', ht', -, -, hlog⟩ := step_keeps_thread hs ht
      obtain ⟨he, hp⟩ := List.mem_filter.mp he
      exact ⟨t', ht', List.mem_map_of_mem (List.mem_filter.mpr ⟨hlog he, hp⟩)⟩
    · obtain rfl : n = c.time := Nat.succ.inj (htime.trans (step_time hs))
      obtain rfl : c.shared = s := Option.some.inj ((step_at? hs (at?_time c)).symm.trans hn)
      cases m with
      | start r env =>
        obtain ⟨-, rfl⟩ := step_start hs
        exact Or.inl (o.spend _ _)
      | kill i =>
        obtain ⟨t, op, k, -, -, rfl⟩ := step_kill hs
        exact Or.inl rfl
      | call i fate env =>
        obtain ⟨t, op, k, ht, -, -, rfl⟩ := step_call hs
        cases hq : fate != .failed && p op with
        | true =>
          refine Or.inr ⟨_, List.mem_of_getElem? (List.getElem?_set_self (List.getElem?_eq_some_iff.mp ht).1), ?_⟩
          rw [times_resume, if_pos hq]
          exact List.mem_cons_self ..
        | false =>
          refine Or.inl ?_
          cases fate with
          | failed => exact o.spend _ _
          | answered | lost => exact (o.call _ _ hq).trans (o.spend _ _)

/-- While no call that meets `p` is made, the part stays. -/
theorem Owes.stays (o : Owes sys f p) (hr : sys.Reach ok (.initial s₀) d) {n m : Nat} {s s' : S}
    (hn : d.at? n = some s) (hm : d.at? m = some s') (le : n ≤ m)
    (quiet : ∀ t ∈ d.threads, ∀ k ∈ t.times p, k < n ∨ m ≤ k) : f s' = f s := by
  refine hr.lasts (P := fun a => f a = f s) hn hm le rfl fun hni him ha hb _ hf => ?_
  rcases o.next hr ha hb with heq | ⟨t, ht, hk⟩
  · exact heq.trans hf
  · exact absurd (quiet t ht _ hk) (by omega)

end System
end Effects

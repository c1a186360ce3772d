import TaskPlatform.Library.Interleave

/-! Requests one after another: each is served with nobody else between its calls. -/

namespace Effects

namespace Prog
variable {I : Interface} {S α : Type}

/-- Every call of the run takes place in an environment that the state of that moment allows. -/
def Admitted (exec : Handler I S) (ok : S → I.Env → Prop) : Prog I α → (Nat → I.Env) → S → Prop
  | ret _, _, _ | throw _, _, _ => True
  | ask k, env, s => (k (env 0)).Admitted exec ok env s
  | call c k, env, s =>
    ok s (env 1) ∧
      (k (exec (env 1) c s).1).Admitted exec ok (fun n => env (n + 1)) (exec (env 1) c s).2

variable {exec : Handler I S} {ok : S → I.Env → Prop} {env : Nat → I.Env} {s s' : S}

instance decidableAdmitted [∀ s e, Decidable (ok s e)] :
    (p : Prog I α) → (env : Nat → I.Env) → (s : S) → Decidable (p.Admitted exec ok env s)
  | ret _, _, _ | throw _, _, _ => isTrue trivial
  | ask k, env, s => decidableAdmitted (k (env 0)) env s
  | call c k, env, s =>
    have := decidableAdmitted (k (exec (env 1) c s).1) (fun n => env (n + 1)) (exec (env 1) c s).2
    inferInstanceAs (Decidable (_ ∧ _))

@[simp] theorem admitted_ask {k : I.Env → Prog I α} :
    (ask k).Admitted exec ok env s ↔ (k (env 0)).Admitted exec ok env s := Iff.rfl

theorem admitted_perform {c : I.Call} {f : I.Reply c → Prog I α} :
    ((perform c).bind f).Admitted exec ok env s ↔ ok s (env 1) ∧
      ∀ a, (exec (env 1) c s).1 = .ok a → (f a).Admitted exec ok (fun n => env (n + 1)) (exec (env 1) c s).2 := by
  rw [perform, call_bind, Admitted]
  cases (exec (env 1) c s).1 with
  | error e => simp [Admitted]
  | ok a => simp

theorem admitted_perform_ok {c : I.Call} {f : I.Reply c → Prog I α} {a : I.Reply c} (env : Nat → I.Env)
    (h : exec (env 1) c s = (.ok a, s')) :
    ((perform c).bind f).Admitted exec ok env s ↔
      ok s (env 1) ∧ (f a).Admitted exec ok (fun n => env (n + 1)) s' := by
  simp [admitted_perform, h]

/-! ### Programs of which all calls are of one kind -/

/-- Every call that the program can make meets `P`. -/
def Calls (P : I.Call → Prop) : Prog I α → Prop
  | ret _ | throw _ => True
  | ask k => ∀ env, (k env).Calls P
  | call c k => P c ∧ ∀ a, (k a).Calls P

section Calls
variable {β : Type} {P : I.Call → Prop} {p : Prog I α}

@[simp] theorem calls_ret {a : α} : (ret a : Prog I α).Calls P := trivial

@[simp] theorem calls_throw {e : I.Error} : (throw e : Prog I α).Calls P := trivial

theorem calls_perform {c : I.Call} (h : P c) : (perform c : Prog I (I.Reply c)).Calls P :=
  ⟨h, fun a => by cases a <;> trivial⟩

theorem calls_of_forall (h : ∀ c, P c) (p : Prog I α) : p.Calls P := by
  induction p with
  | ret | throw => trivial
  | ask k ih => exact ih
  | call c k ih => exact ⟨h c, ih⟩

theorem Calls.mono {P' : I.Call → Prop} (h : p.Calls P) (hP : ∀ c, P c → P' c) : p.Calls P' := by
  induction p with
  | ret | throw => trivial
  | ask k ih => exact fun env => ih env (h env)
  | call c k ih => exact ⟨hP c h.1, fun a => ih a (h.2 a)⟩

theorem Calls.bind {f : α → Prog I β} (h : p.Calls P) (hf : ∀ a, (f a).Calls P) : (p.bind f).Calls P := by
  induction p with
  | ret a => exact hf a
  | throw e => trivial
  | ask k ih => exact fun env => ih env (h env)
  | call c k ih => exact ⟨h.1, fun a => ih a (h.2 a)⟩

theorem Calls.of_bind {f : α → Prog I β} (h : (p.bind f).Calls P) : p.Calls P := by
  induction p with
  | ret | throw => trivial
  | ask k ih => exact fun env => ih env (h env)
  | call c k ih => exact ⟨h.1, fun a => ih a (h.2 a)⟩

theorem Calls.handle {f : I.Error → Prog I α} (h : p.Calls P) (hf : ∀ e, (f e).Calls P) : (p.handle f).Calls P := by
  induction p with
  | ret a => trivial
  | throw e => exact hf e
  | ask k ih => exact fun env => ih env (h env)
  | call c k ih => exact ⟨h.1, fun a => ih a (h.2 a)⟩

theorem Calls.attempt (h : p.Calls P) : p.attempt.Calls P :=
  (h.bind fun _ => calls_ret).handle fun _ => calls_ret

/-- What every such call keeps, the program keeps. -/
theorem Calls.run_keeps {K : S → Prop} (h : p.Calls P) (keep : ∀ {env c s}, P c → K s → K (exec env c s).2)
    {env : Nat → I.Env} {s : S} (hs : K s) : K (p.run exec env s).2 := by
  induction p generalizing env s with
  | ret | throw => exact hs
  | ask k ih => exact ih (env 0) (h (env 0)) hs
  | call c k ih => exact ih _ (h.2 _) (keep h.1 hs)

theorem Calls.settle (h : p.Calls P) (env : I.Env) : (p.settle env).Calls P := by
  induction p with
  | ret | throw => trivial
  | ask k ih => exact ih env (h env)
  | call c k => exact h

theorem Calls.next {c : I.Call} (h : p.Calls P) (hn : p.next? = some c) : P c := by
  obtain ⟨k, rfl⟩ := eq_call_of_next? hn
  exact h.1

end Calls

/-! ### A program and what follows it -/

theorem run_bind {β : Type} (p : Prog I α) (f : α → Prog I β) (env : Nat → I.Env) (s : S)
    (admitted : (p.bind f).Admitted exec ok env s) : p.Admitted exec ok env s ∧
      ((∃ a n, (p.run exec env s).1 = .ok a ∧
          (f a).Admitted exec ok (fun i => env (i + n)) (p.run exec env s).2 ∧
          (p.bind f).run exec env s = (f a).run exec (fun i => env (i + n)) (p.run exec env s).2) ∨
        ∃ e, (p.run exec env s).1 = .error e ∧ (p.bind f).run exec env s = (.error e, (p.run exec env s).2)) := by
  induction p generalizing env s with
  | ret a => exact ⟨trivial, Or.inl ⟨a, 0, rfl, admitted, rfl⟩⟩
  | throw e => exact ⟨trivial, Or.inr ⟨e, rfl, rfl⟩⟩
  | ask k ih => exact ih (env 0) env s admitted
  | call c k ih =>
    obtain ⟨hp, ⟨a, n, ha, hf, hrun⟩ | he⟩ :=
      ih (exec (env 1) c s).1 (fun i => env (i + 1)) (exec (env 1) c s).2 admitted.2
    · exact ⟨⟨admitted.1, hp⟩, Or.inl ⟨a, n + 1, ha, hf, hrun⟩⟩
    · exact ⟨⟨admitted.1, hp⟩, Or.inr he⟩

end Prog

namespace System
variable {I : Interface} {S Req α : Type}

/-- Programs whose calls are all of one kind make no others while they run. -/
theorem Reach.calls {sys : System I S Req α} {P : Req → I.Call → Prop} {ok : Config I S Req α → Move I Req → Prop}
    {s : S} {d : Config I S Req α} (h : ∀ r, (sys.program r).Calls (P r)) (hr : sys.Reach ok (.initial s) d) :
    ∀ t ∈ d.threads, t.rest.Calls (P t.request) := by
  refine hr.invariant (P := fun c => ∀ t ∈ c.threads, t.rest.Calls (P t.request)) nofun ?_
  intro c d m ih _ hs t ht
  rcases step_thread hs ht with ht | ⟨r, env, -, -, -, rfl⟩ | ⟨i, fate, env, u, op, k, -, hu, hk, -, -, rfl⟩ |
    ⟨i, u, -, hu, -, rfl⟩
  · exact ih t ht
  · exact (h r).settle env
  · have hcalls : (Prog.call op k).Calls (P u.request) := hk ▸ ih u (List.mem_of_getElem? hu)
    exact (hcalls.2 _).settle env
  · trivial

variable (sys : System I S Req α)

/-- An answered call, the values of its environment spent. -/
def handler : Handler I S := fun env c s => sys.exec env c (sys.spend s env)

/-- Serves a request alone: how it ends, and the state it leaves. -/
def serve (r : Req) (env : Nat → I.Env) (s : S) : Except I.Error α × S :=
  (sys.program r).run sys.handler env (sys.spend s (env 0))

/-- The values that serving a request generates are new. -/
def Serves (r : Req) (env : Nat → I.Env) (s : S) : Prop :=
  sys.admits s (env 0) = true ∧
    (sys.program r).Admitted sys.handler (fun s e => sys.admits s e = true) env (sys.spend s (env 0))

/-- Serves requests in turn. -/
def serveAll : List (Req × (Nat → I.Env)) → S → List (Except I.Error α) × S
  | [], s => ([], s)
  | (r, env) :: rest, s =>
    let now := sys.serve r env s
    let later := serveAll rest now.2
    (now.1 :: later.1, later.2)

def ServesAll : List (Req × (Nat → I.Env)) → S → Prop
  | [], _ => True
  | (r, env) :: rest, s => sys.Serves r env s ∧ ServesAll rest (sys.serve r env s).2

/-- Every request meets a condition on the state that it is served in. -/
def Each (P : Req → (Nat → I.Env) → S → Prop) : List (Req × (Nat → I.Env)) → S → Prop
  | [], _ => True
  | (r, env) :: rest, s => P r env s ∧ Each P rest (sys.serve r env s).2

instance (r : Req) (env : Nat → I.Env) (s : S) : Decidable (sys.Serves r env s) := inferInstanceAs (Decidable (_ ∧ _))

instance decidableServesAll : (rs : List (Req × (Nat → I.Env))) → (s : S) → Decidable (sys.ServesAll rs s)
  | [], _ => isTrue trivial
  | (r, env) :: rest, s =>
    have := decidableServesAll rest (sys.serve r env s).2
    inferInstanceAs (Decidable (_ ∧ _))

instance decidableEach (P : Req → (Nat → I.Env) → S → Prop) [∀ r env s, Decidable (P r env s)] :
    (rs : List (Req × (Nat → I.Env))) → (s : S) → Decidable (sys.Each P rs s)
  | [], _ => isTrue trivial
  | (r, env) :: rest, s =>
    have := decidableEach P rest (sys.serve r env s).2
    inferInstanceAs (Decidable (_ ∧ _))

variable {sys}

/-- What every call keeps, a run alone keeps. -/
theorem run_keeps {P : S → Prop} (keep : ∀ {s c env}, P s → sys.admits s env = true → P (sys.handler env c s).2)
    {p : Prog I α} {env : Nat → I.Env} {s : S} (h : P s)
    (admitted : p.Admitted sys.handler (fun s e => sys.admits s e = true) env s) : P (p.run sys.handler env s).2 := by
  induction p generalizing env s with
  | ret a => exact h
  | throw e => exact h
  | ask k ih => exact ih (env 0) h admitted
  | call c k ih => exact ih _ (keep h admitted.1) admitted.2

/-- What serving one request keeps, serving requests in turn keeps. -/
theorem serveAll_keeps {P : S → Prop} (keep : ∀ {r env s}, P s → sys.Serves r env s → P (sys.serve r env s).2)
    {rs : List (Req × (Nat → I.Env))} {s : S} (h : P s) (served : sys.ServesAll rs s) : P (sys.serveAll rs s).2 := by
  induction rs generalizing s with
  | nil => exact h
  | cons r rs ih => exact ih (keep h served.1) served.2

end System

/-! ### How a program alone ends -/

namespace System
variable {I : Interface} {S Req α β γ : Type} (sys : System I S Req α)

/-- From `s` the program alone ends so, whatever new values are generated and whatever is read. -/
def Ends (p : Prog I β) (s : S) (Q : Except I.Error β → S → Prop) : Prop :=
  ∀ env : Nat → I.Env, p.Admitted sys.handler (fun s e => sys.admits s e = true) env s →
    Q (p.run sys.handler env s).1 (p.run sys.handler env s).2

variable {sys} {s : S} {p : Prog I β} {f : β → Prog I γ} {Q Q' : Except I.Error β → S → Prop}
  {R : Except I.Error γ → S → Prop}

theorem Ends.mono (h : sys.Ends p s Q) (hQ : ∀ a s', Q a s' → Q' a s') : sys.Ends p s Q' :=
  fun env admitted => hQ _ _ (h env admitted)

/-- The sequence rule. -/
theorem Ends.bind (h : sys.Ends p s Q) (ok : ∀ a s', Q (.ok a) s' → sys.Ends (f a) s' R)
    (error : ∀ e s', Q (.error e) s' → R (.error e) s') : sys.Ends (p.bind f) s R := by
  intro env admitted
  obtain ⟨hp, ⟨a, n, ha, hf, hrun⟩ | ⟨e, he, hrun⟩⟩ := Prog.run_bind p f env s admitted
  · have hQ := h env hp
    rw [ha] at hQ
    rw [hrun]
    exact ok a _ hQ _ hf
  · have hQ := h env hp
    rw [he] at hQ
    rw [hrun]
    exact error e _ hQ

theorem Ends.ret {a : β} (h : Q (.ok a) s) : sys.Ends (.ret a) s Q := fun _ _ => h

theorem Ends.throw {e : I.Error} (h : Q (.error e) s) : sys.Ends (.throw e) s Q := fun _ _ => h

theorem Ends.ask {k : I.Env → Prog I β} (h : ∀ e, sys.Ends (k e) s Q) : sys.Ends (.ask k) s Q :=
  fun env admitted => h _ env admitted

/-- The rule of a call. -/
theorem Ends.perform {c : I.Call} {Q : Except I.Error (I.Reply c) → S → Prop}
    (h : ∀ e, sys.admits s e = true → Q (sys.handler e c s).1 (sys.handler e c s).2) :
    sys.Ends (Prog.perform c) s Q := by
  intro env admitted
  have hc := h (env 1) admitted.1
  rw [Prog.perform, Prog.run_call]
  generalize sys.handler (env 1) c s = answer at hc ⊢
  obtain ⟨result, s'⟩ := answer
  cases result with
  | ok a => exact hc
  | error e => exact hc

theorem run_attempt (exec : Handler I S) (p : Prog I β) (env : Nat → I.Env) (s : S) :
    p.attempt.run exec env s = (.ok (p.run exec env s).1, (p.run exec env s).2) := by
  induction p generalizing env s with
  | ret | throw => rfl
  | ask k ih => exact ih (env 0) env s
  | call c k ih => exact ih _ _ _

theorem admitted_attempt {exec : Handler I S} {ok : S → I.Env → Prop} (p : Prog I β) (env : Nat → I.Env) (s : S) :
    p.attempt.Admitted exec ok env s ↔ p.Admitted exec ok env s := by
  induction p generalizing env s with
  | ret | throw => exact Iff.rfl
  | ask k ih => exact ih (env 0) env s
  | call c k ih => exact and_congr_right fun _ => ih _ _ _

/-- The rule of an attempt. -/
theorem Ends.attempt (h : sys.Ends p s Q) : sys.Ends p.attempt s fun a s' => ∃ r, a = .ok r ∧ Q r s' := by
  intro env admitted
  rw [run_attempt]
  exact ⟨_, rfl, h env ((admitted_attempt p env s).mp admitted)⟩

end System

/-! ### An abstract machine -/

section Machine
variable {M Op Out : Type}

/-- The operations of a machine in turn, with what each of them gives out. -/
def stepAll (step : Op → M → Out × M) : List Op → M → List Out × M
  | [], m => ([], m)
  | op :: rest, m =>
    let now := step op m
    let later := stepAll step rest now.2
    (now.1 :: later.1, later.2)

variable {I : Interface} {S Req α : Type} {sys : System I S Req α}

/-- Requests served in turn refine a machine exactly if each of them meets the condition under which a request that is
    served in a state that the machine represents does what its operation does. -/
theorem System.serveAll_refines_iff (R : S → M → Prop) (op : Req → (Nat → I.Env) → Op) (out : Except I.Error α → Out)
    (step : Op → M → Out × M) {P : Req → (Nat → I.Env) → S → Prop}
    (refines : ∀ {r env s m}, R s m → sys.Serves r env s → P r env s →
      (step (op r env) m).1 = out (sys.serve r env s).1 ∧ R (sys.serve r env s).2 (step (op r env) m).2)
    (differs : ∀ {r env s m}, R s m → sys.Serves r env s → ¬ P r env s → (step (op r env) m).1 ≠ out (sys.serve r env s).1)
    {rs : List (Req × (Nat → I.Env))} {s : S} {m : M} (h : R s m) (served : sys.ServesAll rs s) :
    ((stepAll step (rs.map fun r => op r.1 r.2) m).1 = (sys.serveAll rs s).1.map out ↔ sys.Each P rs s) ∧
      (sys.Each P rs s → R (sys.serveAll rs s).2 (stepAll step (rs.map fun r => op r.1 r.2) m).2) := by
  induction rs generalizing s m with
  | nil => exact ⟨iff_of_true rfl trivial, fun _ => h⟩
  | cons r rs ih =>
    by_cases hmeets : P r.1 r.2 s
    · obtain ⟨hout, hstep⟩ := refines h served.1 hmeets
      obtain ⟨houts, hsteps⟩ := ih hstep served.2
      refine ⟨?_, fun hall => hsteps hall.2⟩
      simp only [List.map_cons, stepAll, System.serveAll, hout, List.cons.injEq, true_and]
      exact houts.trans (and_iff_right hmeets).symm
    · refine ⟨iff_of_false (fun houts => differs h served.1 hmeets ?_) fun hall => hmeets hall.1,
        fun hall => absurd hall.1 hmeets⟩
      simp only [List.map_cons, stepAll, System.serveAll, List.cons.injEq] at houts
      exact houts.1

end Machine
end Effects

import TaskPlatform.Library.Serial

/-! What requests in turn show: the calls that each makes, and whatever else is observed of each. -/

namespace Effects

namespace Prog
variable {I : Interface} {S α β : Type}

/-- Every call of the run meets `P`, in the environment and the state in which it is made. -/
def Along (exec : Handler I S) (P : I.Env → I.Call → S → Prop) : Prog I α → (Nat → I.Env) → S → Prop
  | ret _, _, _ | throw _, _, _ => True
  | ask k, env, s => (k (env 0)).Along exec P env s
  | call c k, env, s =>
    P (env 1) c s ∧ (k (exec (env 1) c s).1).Along exec P (fun n => env (n + 1)) (exec (env 1) c s).2

variable {exec : Handler I S} {P : I.Env → I.Call → S → Prop}

instance decidableAlong [∀ e c s, Decidable (P e c s)] :
    (p : Prog I α) → (env : Nat → I.Env) → (s : S) → Decidable (p.Along exec P env s)
  | ret _, _, _ | throw _, _, _ => isTrue trivial
  | ask k, env, s => decidableAlong (k (env 0)) env s
  | call c k, env, s =>
    have := decidableAlong (k (exec (env 1) c s).1) (fun n => env (n + 1)) (exec (env 1) c s).2
    inferInstanceAs (Decidable (_ ∧ _))

variable (exec P) in
/-- A run of a program and of what follows it: the second part goes on where the first one ended. -/
theorem run_then (p : Prog I α) (f : α → Prog I β) (env : Nat → I.Env) (s : S) :
    (∃ a n, (p.run exec env s).1 = .ok a ∧
      (p.bind f).run exec env s = (f a).run exec (fun i => env (i + n)) (p.run exec env s).2 ∧
      ((p.bind f).Along exec P env s → (f a).Along exec P (fun i => env (i + n)) (p.run exec env s).2)) ∨
    ∃ e, (p.run exec env s).1 = .error e ∧ (p.bind f).run exec env s = (.error e, (p.run exec env s).2) := by
  induction p generalizing env s with
  | ret a => exact Or.inl ⟨a, 0, rfl, rfl, id⟩
  | throw e => exact Or.inr ⟨e, rfl, rfl⟩
  | ask k ih => exact ih (env 0) env s
  | call c k ih =>
    rcases ih (exec (env 1) c s).1 (fun i => env (i + 1)) (exec (env 1) c s).2 with ⟨a, n, ha, hrun, halong⟩ | he
    · exact Or.inl ⟨a, n + 1, ha, hrun, fun h => halong h.2⟩
    · exact Or.inr he

theorem Along.left {p : Prog I α} {f : α → Prog I β} {env : Nat → I.Env} {s : S}
    (h : (p.bind f).Along exec P env s) : p.Along exec P env s := by
  induction p generalizing env s with
  | ret | throw => trivial
  | ask k ih => exact ih (env 0) h
  | call c k ih => exact ⟨h.1, ih _ h.2⟩

end Prog

namespace System
variable {I : Interface} {S Req α O : Type} (sys : System I S Req α)

/-- Every request meets `P` in the state in which it is served. -/
def Throughout (P : Req → (Nat → I.Env) → S → Prop) : List (Req × (Nat → I.Env)) → S → Prop
  | [], _ => True
  | (r, env) :: rest, s => P r env s ∧ Throughout P rest (sys.serve r env s).2

instance decidableThroughout {P : Req → (Nat → I.Env) → S → Prop} [∀ r env s, Decidable (P r env s)] :
    (rs : List (Req × (Nat → I.Env))) → (s : S) → Decidable (sys.Throughout P rs s)
  | [], _ => isTrue trivial
  | (r, env) :: rest, s =>
    have := decidableThroughout (P := P) rest (sys.serve r env s).2
    inferInstanceAs (Decidable (_ ∧ _))

/-- What is observed of the requests, in turn. -/
def observe (obs : Req → (Nat → I.Env) → S → List O) : List (Req × (Nat → I.Env)) → S → List O
  | [], _ => []
  | (r, env) :: rest, s => obs r env s ++ observe obs rest (sys.serve r env s).2

variable {sys} {C : Req → (Nat → I.Env) → S → Prop} {obs : Req → (Nat → I.Env) → S → List O}
  {rs : List (Req × (Nat → I.Env))} {s : S}

variable (obs) in
/-- The run rule: what every request keeps, of the state and of all that was observed before it. -/
theorem serveAll_observe {P : S → List O → Prop} {os : List O} (h : P s os) (cond : sys.Throughout C rs s)
    (keep : ∀ {r env s os}, P s os → C r env s → P (sys.serve r env s).2 (os ++ obs r env s)) :
    P (sys.serveAll rs s).2 (os ++ sys.observe obs rs s) := by
  induction rs generalizing s os with
  | nil =>
    rw [observe, List.append_nil]
    exact h
  | cons r rs ih =>
    have := ih (keep h cond.1) cond.2
    rwa [List.append_assoc] at this

/-- The run rule where nothing is observed. -/
theorem serveAll_throughout {P : S → Prop} (h : P s) (cond : sys.Throughout C rs s)
    (keep : ∀ {r env s}, P s → C r env s → P (sys.serve r env s).2) : P (sys.serveAll rs s).2 := by
  induction rs generalizing s with
  | nil => exact h
  | cons r rs ih => exact ih (keep h cond.1) cond.2

theorem ServesAll.throughout (h : sys.ServesAll rs s) : sys.Throughout sys.Serves rs s := by
  induction rs generalizing s with
  | nil => trivial
  | cons r rs ih => exact ⟨h.1, ih h.2⟩

/-- What holds of every request of the run, by what the requests before it keep. -/
theorem Throughout.of_invariant {P : S → Prop} {D : Req → (Nat → I.Env) → S → Prop} (h : P s)
    (cond : sys.Throughout C rs s) (keep : ∀ {r env s}, P s → C r env s → P (sys.serve r env s).2)
    (holds : ∀ {r env s}, P s → C r env s → D r env s) : sys.Throughout D rs s := by
  induction rs generalizing s with
  | nil => trivial
  | cons r rs ih => exact ⟨holds h cond.1, ih (keep h cond.1) cond.2⟩

end System
end Effects

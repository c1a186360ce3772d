import Mathlib.Logic.Relation

/-! Programs that make calls to a shared service, one call at a time. Between two calls a program runs
    alone: it may read its environment (clocks, generated values) but nothing that others write. -/

namespace Effects

/-- What a program talks to: the environment it reads, the calls it makes with the type of each reply,
    and the errors that a call answers or the program throws. -/
structure Interface where
  Env : Type
  Call : Type
  Reply : Call → Type
  Error : Type

/-- A program: it ends with a value or an error, reads the environment, or makes a call and goes on
    with the answer. -/
inductive Prog (I : Interface) (α : Type) : Type where
  | ret (value : α)
  | throw (error : I.Error)
  | ask (next : I.Env → Prog I α)
  | call (c : I.Call) (next : Except I.Error (I.Reply c) → Prog I α)

namespace Prog
variable {I : Interface} {α β γ : Type}

def bind : Prog I α → (α → Prog I β) → Prog I β
  | ret a, f => f a
  | throw e, _ => throw e
  | ask k, f => ask fun env => (k env).bind f
  | call c k, f => call c fun a => (k a).bind f

instance : Monad (Prog I) where
  pure := ret
  bind := bind

/-- Makes one call: goes on with its reply, throws its error. -/
def perform (c : I.Call) : Prog I (I.Reply c) :=
  call c fun
    | .ok a => ret a
    | .error e => throw e

/-- Reads one value of the environment. -/
def read (f : I.Env → α) : Prog I α :=
  ask fun env => ret (f env)

/-- Runs `p` and, where it throws, goes on with the handler. -/
def handle : Prog I α → (I.Error → Prog I α) → Prog I α
  | ret a, _ => ret a
  | throw e, h => h e
  | ask k, h => ask fun env => (k env).handle h
  | call c k, h => call c fun a => (k a).handle h

/-- Runs `p` and goes on with how it ended. -/
def attempt (p : Prog I α) : Prog I (Except I.Error α) :=
  (p.bind fun a => ret (.ok a)).handle fun e => ret (.error e)

/-! ### The next call -/

/-- Reads the environment as long as the program does nothing else. -/
def settle (env : I.Env) : Prog I α → Prog I α
  | ret a => ret a
  | throw e => throw e
  | ask k => (k env).settle env
  | call c k => call c k

/-- The call a settled program makes next. -/
def next? : Prog I α → Option I.Call
  | call c _ => some c
  | _ => none

/-- How an ended program ended. -/
def result? : Prog I α → Option (Except I.Error α)
  | ret a => some (.ok a)
  | throw e => some (.error e)
  | _ => none

@[simp] theorem pure_eq_ret (a : α) : (pure a : Prog I α) = ret a := rfl

@[simp] theorem bind_eq (p : Prog I α) (f : α → Prog I β) : p >>= f = p.bind f := rfl

@[simp] theorem ret_bind (a : α) (f : α → Prog I β) : (ret a : Prog I α).bind f = f a := rfl

@[simp] theorem throw_bind (e : I.Error) (f : α → Prog I β) : (throw e : Prog I α).bind f = throw e := rfl

@[simp] theorem ask_bind (k : I.Env → Prog I α) (f : α → Prog I β) :
    (ask k).bind f = ask fun env => (k env).bind f := rfl

@[simp] theorem call_bind (c : I.Call) (k : Except I.Error (I.Reply c) → Prog I α) (f : α → Prog I β) :
    (call c k).bind f = call c fun a => (k a).bind f := rfl

@[simp] theorem read_bind (g : I.Env → α) (f : α → Prog I β) :
    (read g : Prog I α).bind f = ask fun env => f (g env) := rfl

@[simp] theorem ite_bind (p : Prop) [Decidable p] (x y : Prog I α) (f : α → Prog I β) :
    (if p then x else y).bind f = if p then x.bind f else y.bind f := by
  split <;> rfl

@[simp] theorem bind_ret (p : Prog I α) : p.bind ret = p := by
  induction p with
  | ret | throw => rfl
  | ask k ih => exact congrArg ask (funext ih)
  | call c k ih => exact congrArg (call c) (funext ih)

theorem bind_assoc (p : Prog I α) (f : α → Prog I β) (g : β → Prog I γ) :
    (p.bind f).bind g = p.bind fun a => (f a).bind g := by
  induction p with
  | ret | throw => rfl
  | ask k ih => exact congrArg ask (funext ih)
  | call c k ih => exact congrArg (call c) (funext ih)

@[simp] theorem settle_ret (env : I.Env) (a : α) : (ret a : Prog I α).settle env = ret a := rfl

@[simp] theorem settle_throw (env : I.Env) (e : I.Error) : (throw e : Prog I α).settle env = throw e := rfl

@[simp] theorem settle_ask (env : I.Env) (k : I.Env → Prog I α) : (ask k).settle env = (k env).settle env := rfl

@[simp] theorem settle_call (env : I.Env) (c : I.Call) (k : Except I.Error (I.Reply c) → Prog I α) :
    (call c k).settle env = call c k := rfl

@[simp] theorem next?_ret (a : α) : (ret a : Prog I α).next? = none := rfl

@[simp] theorem next?_throw (e : I.Error) : (throw e : Prog I α).next? = none := rfl

@[simp] theorem next?_call (c : I.Call) (k : Except I.Error (I.Reply c) → Prog I α) :
    (call c k).next? = some c := rfl

@[simp] theorem result?_ret (a : α) : (ret a : Prog I α).result? = some (.ok a) := rfl

@[simp] theorem result?_throw (e : I.Error) : (throw e : Prog I α).result? = some (.error e) := rfl

@[simp] theorem result?_call (c : I.Call) (k : Except I.Error (I.Reply c) → Prog I α) :
    (call c k).result? = none := rfl

theorem eq_call_of_next? {p : Prog I α} {c : I.Call} (h : p.next? = some c) : ∃ k, p = call c k := by
  cases p with
  | call c' k =>
    cases Option.some.inj h
    exact ⟨k, rfl⟩
  | ret | throw | ask => cases h

theorem next?_of_result? {p : Prog I α} {r : Except I.Error α} (h : p.result? = some r) : p.next? = none := by
  cases p with
  | ret | throw => rfl
  | ask | call => cases h

/-! ### What follows a call -/

/-- Whatever a call of the program is answered, and whatever the environment then is, the settled rest
    of the program is as `F` says. -/
def Flows (F : (c : I.Call) → Except I.Error (I.Reply c) → Prog I α → Prop) : Prog I α → Prop
  | ret _ | throw _ => True
  | ask k => ∀ env, (k env).Flows F
  | call c k => ∀ a, (∀ env, F c a ((k a).settle env)) ∧ (k a).Flows F

section Flows
variable {F : (c : I.Call) → Except I.Error (I.Reply c) → Prog I α → Prop}

@[simp] theorem flows_ret (a : α) : (ret a : Prog I α).Flows F := trivial

@[simp] theorem flows_throw (e : I.Error) : (throw e : Prog I α).Flows F := trivial

@[simp] theorem flows_ask {k : I.Env → Prog I α} : (ask k).Flows F ↔ ∀ env, (k env).Flows F := Iff.rfl

@[simp] theorem flows_call {c : I.Call} {k : Except I.Error (I.Reply c) → Prog I α} :
    (call c k).Flows F ↔ ∀ a, (∀ env, F c a ((k a).settle env)) ∧ (k a).Flows F := Iff.rfl

theorem Flows.settle {p : Prog I α} (h : p.Flows F) (env : I.Env) : (p.settle env).Flows F := by
  induction p with
  | ret | throw => trivial
  | ask k ih => exact ih env (h env)
  | call c k => exact h

end Flows

end Prog

/-! ### Running a program alone -/

/-- What a call does to the shared state, and its answer. -/
abbrev Handler (I : Interface) (S : Type) : Type :=
  I.Env → (c : I.Call) → S → Except I.Error (I.Reply c) × S

namespace Prog
variable {I : Interface} {S α β : Type}

/-- Runs a program with nobody else between its calls. The program starts in the environment `env 0`;
    its n-th call, and what follows it up to the next call, takes place in `env n`. -/
def run (exec : Handler I S) : Prog I α → (Nat → I.Env) → S → Except I.Error α × S
  | ret a, _, s => (.ok a, s)
  | throw e, _, s => (.error e, s)
  | ask k, env, s => (k (env 0)).run exec env s
  | call c k, env, s =>
    let answer := exec (env 1) c s
    (k answer.1).run exec (fun n => env (n + 1)) answer.2

@[simp] theorem run_ret (exec : Handler I S) (a : α) (env : Nat → I.Env) (s : S) :
    (ret a : Prog I α).run exec env s = (.ok a, s) := rfl

@[simp] theorem run_throw (exec : Handler I S) (e : I.Error) (env : Nat → I.Env) (s : S) :
    (throw e : Prog I α).run exec env s = (.error e, s) := rfl

@[simp] theorem run_ask (exec : Handler I S) (k : I.Env → Prog I α) (env : Nat → I.Env) (s : S) :
    (ask k).run exec env s = (k (env 0)).run exec env s := rfl

theorem run_call (exec : Handler I S) (c : I.Call) (k : Except I.Error (I.Reply c) → Prog I α)
    (env : Nat → I.Env) (s : S) :
    (call c k).run exec env s =
      (k (exec (env 1) c s).1).run exec (fun n => env (n + 1)) (exec (env 1) c s).2 := rfl

theorem run_perform_ok {exec : Handler I S} {c : I.Call} {f : I.Reply c → Prog I α} {s s' : S} {a : I.Reply c}
    (env : Nat → I.Env) (h : exec (env 1) c s = (.ok a, s')) :
    ((perform c).bind f).run exec env s = (f a).run exec (fun n => env (n + 1)) s' := by
  rw [perform, call_bind, run_call, h]
  rfl

theorem run_perform_error {exec : Handler I S} {c : I.Call} {f : I.Reply c → Prog I α} {s s' : S} {e : I.Error}
    (env : Nat → I.Env) (h : exec (env 1) c s = (.error e, s')) :
    ((perform c).bind f).run exec env s = (.error e, s') := by
  rw [perform, call_bind, run_call, h]
  rfl

/-- A call whose reply is wrapped. -/
theorem run_perform_map (exec : Handler I S) (c : I.Call) (f : I.Reply c → α) (env : Nat → I.Env) (s : S) :
    ((perform c).bind fun a => ret (f a)).run exec env s = ((exec (env 1) c s).1.map f, (exec (env 1) c s).2) := by
  rw [perform, call_bind, run_call]
  cases (exec (env 1) c s).1 <;> rfl

/-- What a program returns can be wrapped without a difference to the state. -/
theorem run_map (exec : Handler I S) (p : Prog I α) (f : α → β) (env : Nat → I.Env) (s : S) :
    ((p.bind fun a => ret (f a)).run exec env s).2 = (p.run exec env s).2 := by
  induction p generalizing env s with
  | ret | throw => rfl
  | ask k ih => exact ih (env 0) env s
  | call c k ih => exact ih _ _ _

theorem run_map_result (exec : Handler I S) (p : Prog I α) (f : α → β) (env : Nat → I.Env) (s : S) :
    ((p.bind fun a => ret (f a)).run exec env s).1 = (p.run exec env s).1.map f := by
  induction p generalizing env s with
  | ret | throw => rfl
  | ask k ih => exact ih (env 0) env s
  | call c k ih => exact ih _ _ _

end Prog
end Effects

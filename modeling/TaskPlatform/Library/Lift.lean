import TaskPlatform.Library.Program

/-! Programs on one interface as programs on another one, whose calls include those of the first. -/

namespace Effects.Prog

variable {Env Error C D α β : Type} {R : C → Type} {S : D → Type}

/-- Makes the calls as `f` names them, and reads their replies by `g`. -/
def lift (f : C → D) (g : ∀ c, S (f c) → R c) : Prog ⟨Env, C, R, Error⟩ α → Prog ⟨Env, D, S, Error⟩ α
  | ret a => ret a
  | throw e => throw e
  | ask k => ask fun env => lift f g (k env)
  | call c k => call (f c) fun a => lift f g (k (a.map (g c)))

variable {f : C → D} {g : ∀ c, S (f c) → R c}

theorem lift_bind (p : Prog ⟨Env, C, R, Error⟩ α) (k : α → Prog ⟨Env, C, R, Error⟩ β) :
    (p.bind k).lift f g = (p.lift f g).bind fun a => (k a).lift f g := by
  induction p with
  | ret | throw => rfl
  | ask p ih => exact congrArg (ask (I := ⟨Env, D, S, Error⟩)) (funext ih)
  | call c p ih => exact congrArg (call (I := ⟨Env, D, S, Error⟩) (f c)) (funext fun a => ih (a.map (g c)))

/-- A lifted call, and what follows it. -/
theorem lift_perform_bind (c : C) (k : R c → Prog ⟨Env, C, R, Error⟩ α) :
    ((perform (I := ⟨Env, C, R, Error⟩) c).bind k).lift f g =
      (perform (I := ⟨Env, D, S, Error⟩) (f c)).bind fun a => (k (g c a)).lift f g := by
  refine congrArg (call (I := ⟨Env, D, S, Error⟩) (f c)) (funext fun a => ?_)
  cases a <;> rfl

end Effects.Prog

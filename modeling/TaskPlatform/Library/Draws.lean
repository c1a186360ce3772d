import TaskPlatform.Library.Lift
import TaskPlatform.Library.Log

/-! What programs make of the values they read: a call is made in the environment of the answer before it, whose values
    have been spent by then. -/

namespace Effects

namespace Prog
variable {I : Interface} {α β : Type} {P : I.Env → I.Call → Prop}

/-- Going on in this environment the program makes a next call that `P` allows there, and so after every answer in the
    environment of that. -/
def Draws (P : I.Env → I.Call → Prop) : I.Env → Prog I α → Prop
  | _, ret _ | _, throw _ => True
  | env, ask k => (k env).Draws P env
  | env, call c k => P env c ∧ ∀ a env', (k a).Draws P env'

/-- The sequence rule. -/
theorem Draws.bind {p : Prog I α} {f : α → Prog I β} {env : I.Env} (h : p.Draws P env) (hf : ∀ env a, (f a).Draws P env) :
    (p.bind f).Draws P env := by
  induction p generalizing env with
  | ret a => exact hf env a
  | throw e => trivial
  | ask k ih => exact ih env h
  | call c k ih => exact ⟨h.1, fun a env' => ih a (h.2 a env')⟩

/-- A program that makes only calls which are allowed anywhere. -/
theorem Calls.draws {p : Prog I α} {Q : I.Call → Prop} (h : p.Calls Q) (hP : ∀ {env c}, Q c → P env c) (env : I.Env) :
    p.Draws P env := by
  induction p generalizing env with
  | ret | throw => trivial
  | ask k ih => exact ih env (h env) env
  | call c k ih => exact ⟨hP h.1, fun a env' => ih a (h.2 a) env'⟩

/-- A program on a smaller interface. -/
theorem Draws.lift {Env Error A B : Type} {RA : A → Type} {RB : B → Type} {f : A → B} {g : ∀ c, RB (f c) → RA c}
    {P : Env → B → Prop} {p : Prog ⟨Env, A, RA, Error⟩ α} {env : Env} (h : p.Draws (fun env c => P env (f c)) env) :
    (p.lift f g : Prog ⟨Env, B, RB, Error⟩ α).Draws P env := by
  induction p generalizing env with
  | ret | throw => trivial
  | ask k ih => exact ih env h
  | call c k ih => exact ⟨h.1, fun a env' => ih _ (h.2 _ env')⟩

theorem Draws.settle {p : Prog I α} {env : I.Env} (h : p.Draws P env) : (p.settle env).Draws P env := by
  induction p with
  | ret | throw => trivial
  | ask k ih => exact ih env h
  | call c k => exact h

theorem Draws.next {p : Prog I α} {env : I.Env} {c : I.Call} (h : p.Draws P env) (hn : p.next? = some c) : P env c := by
  obtain ⟨k, rfl⟩ := eq_call_of_next? hn
  exact h.1

end Prog

namespace System
variable {I : Interface} {S Req α : Type} {sys : System I S Req α} {ok : Config I S Req α → Move I Req → Prop}
  {P : I.Env → I.Call → Prop} {s₀ : S} {d : Config I S Req α}

/-- Every program in flight goes on in an environment that is spent. -/
theorem Reach.draws (spent : S → I.Env → Prop) (programs : ∀ r env, (sys.program r).Draws P env)
    (spend : ∀ {s env}, spent (sys.spend s env) env) (effect : ∀ {fate env c s}, spent (sys.effect fate env c s) env)
    (stays : ∀ {s s' env}, sys.Change s s' → spent s env → spent s' env) (hr : sys.Reach ok (.initial s₀) d) :
    ∀ t ∈ d.threads, ∃ env, spent d.shared env ∧ t.rest.Draws P env := by
  refine hr.invariant (P := fun c => ∀ t ∈ c.threads, ∃ env, spent c.shared env ∧ t.rest.Draws P env) nofun ?_
  intro c d m ih _ hs t ht
  have hchange := step_change hs
  have old : ∀ t ∈ c.threads, ∃ env, spent d.shared env ∧ t.rest.Draws P env := fun t ht =>
    let ⟨env, hspent, hdraws⟩ := ih t ht
    ⟨env, stays hchange hspent, hdraws⟩
  rcases step_thread hs ht with ht | ⟨r, env, -, -, heq, rfl⟩ | ⟨i, fate, env, u, op, k, -, hu, hk, -, heq, rfl⟩ |
    ⟨i, u, -, hu, -, rfl⟩
  · exact old t ht
  · exact ⟨env, heq ▸ spend, (programs r env).settle⟩
  · obtain ⟨env', -, hdraws⟩ := ih u (List.mem_of_getElem? hu)
    rw [hk] at hdraws
    exact ⟨env, heq ▸ effect, (hdraws.2 _ env).settle⟩
  · obtain ⟨env, hspent, -⟩ := old u hu
    exact ⟨env, hspent, trivial⟩

end System
end Effects

import TaskPlatform.Library.Interleave

/-! A program alone whose calls may fail: the fate of each call is given in advance. -/

namespace Effects.System
variable {I : Interface} {S Req α β γ : Type} (sys : System I S Req α)

/-- Runs a program whose calls have these fates in turn. -/
def runUnder : Prog I β → (Nat → Fate) → (Nat → I.Env) → S → Except I.Error β × S
  | .ret a, _, _, s => (.ok a, s)
  | .throw e, _, _, s => (.error e, s)
  | .ask k, fates, env, s => runUnder (k (env 0)) fates env s
  | .call c k, fates, env, s =>
    runUnder (k (sys.answer (fates 0) (sys.exec (env 1) c (sys.spend s (env 1))).1)) (fun n => fates (n + 1))
      (fun n => env (n + 1)) (sys.effect (fates 0) (env 1) c s)

variable {sys} {fates : Nat → Fate} {env : Nat → I.Env} {s s' : S} {c : I.Call} {f : I.Reply c → Prog I β}

/-- A call that fails ends the program. -/
theorem runUnder_failed (h : fates 0 = .failed) :
    sys.runUnder ((Prog.perform c).bind f) fates env s = (.error sys.fault, sys.spend s (env 1)) := by
  simp only [Prog.perform, Prog.call_bind, runUnder, h, answer, effect]
  rfl

/-- So does one whose answer is lost, but it has taken effect. -/
theorem runUnder_lost (h : fates 0 = .lost) :
    sys.runUnder ((Prog.perform c).bind f) fates env s =
      (.error sys.fault, (sys.exec (env 1) c (sys.spend s (env 1))).2) := by
  simp only [Prog.perform, Prog.call_bind, runUnder, h, answer, effect]
  rfl

theorem runUnder_ok {a : I.Reply c} (h : fates 0 = .answered) (hc : sys.exec (env 1) c (sys.spend s (env 1)) = (.ok a, s')) :
    sys.runUnder ((Prog.perform c).bind f) fates env s =
      sys.runUnder (f a) (fun n => fates (n + 1)) (fun n => env (n + 1)) s' := by
  simp only [Prog.perform, Prog.call_bind, runUnder, h, answer, effect, hc]
  rfl

theorem runUnder_error {e : I.Error} (h : fates 0 = .answered)
    (hc : sys.exec (env 1) c (sys.spend s (env 1)) = (.error e, s')) :
    sys.runUnder ((Prog.perform c).bind f) fates env s = (.error e, s') := by
  simp only [Prog.perform, Prog.call_bind, runUnder, h, answer, effect, hc]
  rfl

end Effects.System

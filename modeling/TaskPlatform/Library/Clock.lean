import TaskPlatform.Library.Log

/-! A system with a clock on the wall: every move reads it, and it does not go back. -/

namespace Effects
variable {I : Interface} {S Req α : Type}

/-- The state of the clocked system holds the time of the last move. -/
def System.clocked (sys : System I S Req α) (now : I.Env → Int) : System I (S × Int) Req α where
  exec env c s := ((sys.exec env c s.1).1, (sys.exec env c s.1).2, s.2)
  program := sys.program
  fault := sys.fault
  admits s env := sys.admits s.1 env && s.2 ≤ now env
  spend s env := (sys.spend s.1 env, now env)

/-- When the move after the first `n` ones was made. -/
def Config.MadeAt (c : Config I (S × Int) Req α) (n : Nat) (time : Int) : Prop := ∃ s, c.at? (n + 1) = some s ∧ s.2 = time

/-- `P` held of the shared state at the time. -/
def Config.HeldAt (c : Config I (S × Int) Req α) (P : S → Prop) (time : Int) : Prop :=
  ∃ n s s', c.at? n = some s ∧ c.at? (n + 1) = some s' ∧ s.2 ≤ time ∧ time ≤ s'.2 ∧ P s.1

namespace System
variable {sys : System I S Req α} {now : I.Env → Int} {s₀ s s' : S × Int} {c d : Config I (S × Int) Req α}
  {ok : Config I (S × Int) Req α → Move I Req → Prop} {P : S → Prop} {n m : Nat} {time : Int}

theorem clocked_effect (fate : Fate) (env : I.Env) (op : I.Call) (s : S × Int) :
    (sys.clocked now).effect fate env op s = (sys.effect fate env op s.1, now env) := by
  cases fate <;> rfl

theorem clocked_admits {env : I.Env} : (sys.clocked now).admits s env = true ↔ sys.admits s.1 env = true ∧ s.2 ≤ now env := by
  simp [clocked]

theorem Change.clock_le (h : (sys.clocked now).Change s s') : s.2 ≤ s'.2 := by
  cases h with
  | same => exact Int.le_refl s.2
  | spent hadm => exact (clocked_admits.mp hadm).2
  | called fate op hadm =>
    rw [clocked_effect]
    exact (clocked_admits.mp hadm).2

theorem Reach.clock_le (hr : (sys.clocked now).Reach ok (.initial s₀) d) (hn : d.at? n = some s) (hm : d.at? m = some s')
    (le : n ≤ m) : s.2 ≤ s'.2 :=
  hr.lasts (P := fun a => s.2 ≤ a.2) hn hm le (Int.le_refl s.2) fun _ _ _ _ hchange h => Int.le_trans h hchange.clock_le

/-- What an answered call says held when it was made. -/
theorem Reach.answered (hr : (sys.clocked now).Reach ok (.initial s₀) d) {t : Thread I Req α} (ht : t ∈ d.threads)
    {e : Event I} (he : e ∈ t.log) {a : I.Reply e.call} (ha : e.answer = .ok a) :
    e.took = true ∧ ∃ s s' env, d.at? e.time = some s ∧ d.at? (e.time + 1) = some s' ∧ s'.2 = now env ∧ s.2 ≤ now env ∧
      (sys.handler env e.call s.1).1 = .ok a ∧ s'.1 = (sys.handler env e.call s.1).2 := by
  obtain ⟨s, env, fate, hat, hadm, hat', hanswer, htook⟩ := hr.recorded t ht e he
  cases fate with
  | answered =>
    refine ⟨htook, s, _, env, hat, hat', ?_, (clocked_admits.mp hadm).2, hanswer.symm.trans ha, ?_⟩ <;> rw [clocked_effect]
    rfl
  | failed | lost => cases hanswer.symm.trans ha

end System

/-- What held at a time still did after one more move. -/
theorem Config.HeldAt.step {sys : System I S Req α} {now : I.Env → Int} {c d : Config I (S × Int) Req α} {P : S → Prop}
    {time : Int} {m : Move I Req} (h : c.HeldAt P time) (hs : (sys.clocked now).step c m = some d) :
    d.HeldAt P time := by
  obtain ⟨n, s, s', hn, hn', h⟩ := h
  exact ⟨n, s, s', System.step_at? hs hn, System.step_at? hs hn', h⟩

end Effects

import Mathlib.Algebra.GroupWithZero.Nat
import Mathlib.Algebra.Order.BigOperators.Group.List
import Mathlib.Algebra.Order.Group.Nat
import TaskPlatform.Library.Interleave

/-! Accounting over a run. The shared state holds a credit and every thread a credit of its own; if no
    move raises the total, the total of every configuration reached is at most the first one. -/

namespace Effects
variable {I : Interface} {S Req α : Type}

section List
variable {β : Type} {l : List β} {i : Nat} {x y : β}

/-- One element changes: the sum changes by what it weighs. -/
theorem sum_map_set (w : β → Nat) (h : l[i]? = some x) : ((l.set i y).map w).sum + w x = (l.map w).sum + w y := by
  induction l generalizing i with
  | nil => cases h
  | cons z l ih =>
    cases i with
    | zero =>
      cases Option.some.inj h
      simp only [List.set_cons_zero, List.map_cons, List.sum_cons]
      omega
    | succ i =>
      have := ih (List.getElem?_cons_succ ▸ h)
      simp only [List.set_cons_succ, List.map_cons, List.sum_cons]
      omega

/-- What weighs at least one where `p` holds counts `p`. -/
theorem countP_le_sum {p : β → Bool} {w : β → Nat} (h : ∀ x ∈ l, p x = true → 1 ≤ w x) : l.countP p ≤ (l.map w).sum := by
  induction l with
  | nil => simp
  | cons x l ih =>
    have hl := ih fun y hy => h y (List.mem_cons_of_mem _ hy)
    rw [List.countP_cons, List.map_cons, List.sum_cons]
    split
    · have := h x (List.mem_cons_self ..) ‹_›
      omega
    · omega

end List

/-- What the threads hold together. -/
def Config.total (w : Thread I Req α → Nat) (c : Config I S Req α) : Nat := (c.threads.map w).sum

theorem Config.total_le {w w' : Thread I Req α → Nat} {c : Config I S Req α} (h : ∀ t ∈ c.threads, w t ≤ w' t) :
    c.total w ≤ c.total w' := List.sum_le_sum h

/-- No move raises the total of the credit `φ` of the shared state and the credits `w` of the threads.
    `Q` is what is known of the configurations of the run. -/
structure Account (sys : System I S Req α) (ok : Config I S Req α → Move I Req → Prop) (Q : Config I S Req α → Prop)
    (φ : S → Nat) (w : Thread I Req α → Nat) : Prop where
  start : ∀ {c r env} (n : Nat), Q c → sys.admits c.shared env = true →
    φ (sys.spend c.shared env) + w ⟨r, n, [], (sys.program r).settle env⟩ ≤ φ c.shared
  call : ∀ {c i fate env t op k} (n : Nat), Q c → ok c (.call i fate env) → c.threads[i]? = some t →
    t.rest = .call op k → sys.admits c.shared env = true →
    φ (sys.effect fate env op c.shared) + w (sys.resume t op k fate env c.shared n) ≤ φ c.shared + w t
  kill : ∀ {t : Thread I Req α}, w { t with rest := .throw sys.fault } ≤ w t

variable {sys : System I S Req α} {ok : Config I S Req α → Move I Req → Prop} {Q : Config I S Req α → Prop}
  {φ : S → Nat} {w : Thread I Req α → Nat} {c d : Config I S Req α}

theorem Account.step (a : Account sys ok Q φ w) {m : Move I Req} (hq : Q c) (hok : ok c m)
    (hs : sys.step c m = some d) : φ d.shared + d.total w ≤ φ c.shared + c.total w := by
  cases m with
  | start r env =>
    obtain ⟨hadm, rfl⟩ := System.step_start hs
    have := a.start (r := r) c.time hq hadm
    simp only [Config.total, List.map_append, List.sum_append, List.map_singleton, List.sum_singleton]
    omega
  | call i fate env =>
    obtain ⟨t, op, k, ht, hk, hadm, rfl⟩ := System.step_call hs
    have := a.call c.time hq hok ht hk hadm
    have hsum := sum_map_set w (y := sys.resume t op k fate env c.shared c.time) ht
    simp only [Config.total]
    omega
  | kill i =>
    obtain ⟨t, op, k, ht, hk, rfl⟩ := System.step_kill hs
    have := a.kill (t := t)
    have hsum := sum_map_set w (y := { t with rest := .throw sys.fault }) ht
    simp only [Config.total]
    omega

theorem Account.reach (a : Account sys ok Q φ w) {s : S} (known : ∀ {d}, sys.Reach ok (.initial s) d → Q d)
    (hr : sys.Reach ok (.initial s) d) : φ d.shared + d.total w ≤ φ s :=
  hr.invariant_with known (Nat.le_refl _) fun hq _ ih hok hs => Nat.le_trans (a.step hq hok hs) ih

end Effects

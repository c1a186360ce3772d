import Mathlib.Data.Fintype.Card
import Mathlib.Data.Fintype.EquivFin
import Mathlib.Data.Fintype.Sets
import Mathlib.Logic.Relation

/-! Links from one thing to the next, and when setting one of them closes a circle. -/

namespace Links
open Relation
variable {α : Type} {R R' : α → α → Prop} {x p a b : α}

def Acyclic (R : α → α → Prop) : Prop := ∀ a, ¬ TransGen R a a

theorem Acyclic.mono (acyclic : Acyclic R) (links : ∀ a b, R' a b → R a b) : Acyclic R' :=
  fun a h => acyclic a (TransGen.mono links _ _ h)

/-- With the link from `x` to `p` set, a path is an old one, or leads over the new link, once. -/
theorem path_of_set (links : ∀ a b, R' a b → R a b ∨ a = x ∧ b = p) (apart : ¬ ReflTransGen R p x)
    (h : TransGen R' a b) : TransGen R a b ∨ ReflTransGen R a x ∧ ReflTransGen R p b := by
  induction h with
  | single hab =>
    rcases links _ _ hab with hab | ⟨rfl, rfl⟩
    · exact Or.inl (.single hab)
    · exact Or.inr ⟨.refl, .refl⟩
  | tail _ hbc ih =>
    rcases links _ _ hbc with hbc | ⟨rfl, rfl⟩
    · exact ih.imp (·.tail hbc) fun ⟨hax, hpb⟩ => ⟨hax, hpb.tail hbc⟩
    · rcases ih with hab | ⟨-, hpx⟩
      · exact Or.inr ⟨hab.to_reflTransGen, .refl⟩
      · exact absurd hpx apart

/-- Setting the link from `x` to `p` closes no circle if no path leads from `p` to `x`. -/
theorem Acyclic.set (acyclic : Acyclic R) (links : ∀ a b, R' a b → R a b ∨ a = x ∧ b = p)
    (apart : ¬ ReflTransGen R p x) : Acyclic R' := by
  intro a h
  rcases path_of_set links apart h with h | ⟨hax, hpa⟩
  · exact acyclic a h
  · exact apart (hpa.trans hax)

/-- A link from a new thing, which no link leads to, closes no circle. -/
theorem Acyclic.add (acyclic : Acyclic R) (links : ∀ a b, R' a b → R a b ∨ a = x ∧ b = p)
    (leaf : ∀ a, ¬ R a x) (ne : p ≠ x) : Acyclic R' := by
  refine acyclic.set links fun h => ?_
  rcases h.cases_tail with heq | ⟨b, -, hb⟩
  · exact ne heq.symm
  · exact leaf b hb

/-- Where links run in no circle, and lead on from all but the tops, they lead from everywhere to a top. -/
theorem Acyclic.exists_top {l : List α} {top : α → Prop} (acyclic : Acyclic R)
    (leads : ∀ a ∈ l, top a ∨ ∃ b ∈ l, R a b) (ha : a ∈ l) : ∃ b ∈ l, top b ∧ ReflTransGen R a b := by
  classical
  have : IsTrans {x // x ∈ l} fun x y => TransGen R y.1 x.1 := ⟨fun _ _ _ hxy hyz => hyz.trans hxy⟩
  have : Std.Irrefl fun x y : {x // x ∈ l} => TransGen R y.1 x.1 := ⟨fun x => acyclic x.1⟩
  have wf : WellFounded fun x y : {x // x ∈ l} => TransGen R y.1 x.1 := Finite.wellFounded_of_trans_of_irrefl _
  suffices h : ∀ x : {x // x ∈ l}, ∃ b ∈ l, top b ∧ ReflTransGen R x.1 b from h ⟨a, ha⟩
  intro x
  induction x using wf.induction with
  | _ x ih =>
    rcases leads x.1 x.2 with htop | ⟨b, hb, hab⟩
    · exact ⟨x.1, x.2, htop, .refl⟩
    · obtain ⟨t, ht, htop, path⟩ := ih ⟨b, hb⟩ (.single hab)
      exact ⟨t, ht, htop, .head hab path⟩

end Links

import Mathlib.Data.Set.BooleanAlgebra
import Mathlib.Order.CompletePartialOrder
import TaskPlatform.Library.Contract

/-! Contracts over what was ever so: what is known is what the states of the run have shown so far, though it may no
    longer be so. -/

namespace Effects

/-- What the states of a run show, the present one and those before it. -/
def Config.shown {I : Interface} {S Req α F : Type} (shows : S → Set F) (c : Config I S Req α) : Set F :=
  {f | ∃ s ∈ c.past ++ [c.shared], f ∈ shows s}

namespace System
variable {I : Interface} {S Req α F : Type} {sys : System I S Req α} {shows : S → Set F} {C : Req → Contract I (Set F)}
  {fits : Set F → S → Prop} {c d : Config I S Req α}

theorem step_shown {m : Move I Req} (hs : sys.step c m = some d) : d.shown shows = c.shown shows ∪ shows d.shared := by
  ext f
  simp only [Config.shown, step_past hs, List.mem_append, List.mem_singleton, Set.mem_ofPred_eq, Set.mem_union]
  constructor
  · rintro ⟨s, hs | rfl, hf⟩
    · exact Or.inl ⟨s, hs, hf⟩
    · exact Or.inr hf
  · rintro (⟨s, hs, hf⟩ | hf)
    · exact ⟨s, Or.inl hs, hf⟩
    · exact ⟨_, Or.inr rfl, hf⟩

/-- What was shown stays so. -/
theorem shown_mono {ok : Config I S Req α → Move I Req → Prop} (hr : sys.Reach ok c d) : c.shown shows ⊆ d.shown shows := by
  induction hr with
  | refl => exact Set.Subset.refl _
  | tail _ hs ih =>
    obtain ⟨m, -, hs⟩ := hs
    exact ih.trans (step_shown hs ▸ Set.subset_union_left)

theorem shared_shown (c : Config I S Req α) : shows c.shared ⊆ c.shown shows := fun _ hf =>
  ⟨c.shared, List.mem_concat_self, hf⟩

variable (sys C shows fits) in
/-- What is known is what the states have shown so far: that fits, and a call under its precondition leads to a state
    with which it does, and to a reply that what is shown then bears out. -/
structure Shows : Prop where
  shown : ∀ {k s}, fits k s → shows s ⊆ k
  spend : ∀ {k s env}, fits k s → sys.admits s env = true → fits k (sys.spend s env)
  call : ∀ {k s env r c}, fits k s → sys.admits s env = true → (C r).pre k c →
    fits (k ∪ shows (sys.handler env c s).2) (sys.handler env c s).2 ∧
      ∀ a, (sys.handler env c s).1 = .ok a → (C r).post (k ∪ shows (sys.handler env c s).2) c a

/-- What a move adds to what is known. -/
theorem Shows.step (h : sys.Shows shows C fits) (programs : ∀ r k, (sys.program r).Meets (C r) (fun _ _ => True) k)
    {k : Set F} {m : Move I Req} (hc : Known C fits k c) (hs : sys.step c m = some d) :
    Known C fits (k ∪ shows d.shared) d := by
  have le : ∀ (k : Set F) (s : S), k ≤ k ∪ shows s := fun _ _ => Set.subset_union_left
  have stay : ∀ {k s}, fits k s → ∃ k', k' = k ∪ shows s ∧ k ≤ k' ∧ fits k' s := fun {k s} hfits =>
    ⟨k, (Set.union_eq_left.mpr (h.shown hfits)).symm, le_refl k, hfits⟩
  obtain ⟨k', rfl, hknown⟩ := hc.extend (fun k s k' => k' = k ∪ shows s) hs stay h.spend
    (fun hfits hadm hpre => ⟨_, rfl, le _ _, h.call hfits hadm hpre⟩) programs
  exact hknown

/-- The same beside other knowledge, which grows as it may. -/
theorem reach_beside {κ : Type} [Preorder κ] {D : Req → Contract I (κ × Set F)} {fits : κ × Set F → S → Prop}
    (shown : ∀ {k s}, fits k s → shows s ⊆ k.2)
    (spend : ∀ {k s env}, fits k s → sys.admits s env = true → fits k (sys.spend s env))
    (call : ∀ {k s env r c}, fits k s → sys.admits s env = true → (D r).pre k c →
      ∃ k₁, k.1 ≤ k₁ ∧ fits (k₁, k.2 ∪ shows (sys.handler env c s).2) (sys.handler env c s).2 ∧
        ∀ a, (sys.handler env c s).1 = .ok a → (D r).post (k₁, k.2 ∪ shows (sys.handler env c s).2) c a)
    (programs : ∀ r k, (sys.program r).Meets (D r) (fun _ _ => True) k)
    {ok : Config I S Req α → Move I Req → Prop} {s : S} {k : κ} (init : fits (k, shows s) s)
    (hr : sys.Reach ok (.initial s) d) : ∃ k₁, Known D fits (k₁, d.shown shows) d := by
  refine hr.invariant (P := fun d => ∃ k₁, Known D fits (k₁, d.shown shows) d) ?_ ?_
  · rw [show Config.shown shows (.initial s : Config I S Req α) = shows s by simp [Config.shown, Config.initial]]
    exact ⟨k, init, fun _ ht => nomatch ht⟩
  · rintro c d m ⟨k₁, hc⟩ _ hs
    have stay : ∀ {k s}, fits k s → ∃ k', k'.2 = k.2 ∪ shows s ∧ k ≤ k' ∧ fits k' s := fun {k s} hfits =>
      ⟨k, (Set.union_eq_left.mpr (shown hfits)).symm, le_refl k, hfits⟩
    obtain ⟨⟨k₂, _⟩, rfl, hd⟩ := hc.extend (fun k s k' => k'.2 = k.2 ∪ shows s) hs stay spend
      (fun hfits hadm hpre => by
        obtain ⟨k₁, hk, hfits, hpost⟩ := call hfits hadm hpre
        exact ⟨(k₁, _), rfl, ⟨hk, Set.subset_union_left⟩, hfits, hpost⟩) programs
    rw [step_shown hs]
    exact ⟨k₂, hd⟩

/-- In every run, what its states have shown fits the last one, and from it all programs in flight meet their
    contracts. -/
theorem Shows.reach (h : sys.Shows shows C fits) (programs : ∀ r k, (sys.program r).Meets (C r) (fun _ _ => True) k)
    {ok : Config I S Req α → Move I Req → Prop} {s : S} (init : fits (shows s) s) (hr : sys.Reach ok (.initial s) d) :
    Known C fits (d.shown shows) d := by
  refine hr.invariant (P := fun d => Known C fits (d.shown shows) d) ?_ ?_
  · rw [show Config.shown shows (.initial s : Config I S Req α) = shows s by simp [Config.shown, Config.initial]]
    exact ⟨init, fun _ ht => nomatch ht⟩
  · intro c d m hc _ hs
    have := h.step programs hc hs
    rwa [← step_shown hs] at this

end System
end Effects

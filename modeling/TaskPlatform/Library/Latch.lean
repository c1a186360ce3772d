import TaskPlatform.Library.Log

/-! A latch: a flag in the shared state that one program at a time sets for itself and clears again. -/

namespace Effects

/-- Which replies tell a program that it has set the flag, and which calls clear it. -/
structure Latch (I : Interface) (S : Type) where
  flag : S → Bool
  takes : Said I → Bool
  frees : I.Call → Bool

variable {I : Interface} {S Req α : Type}

namespace Latch

/-- The program that was told this has set the flag and not cleared it since. -/
def held (L : Latch I S) : List (Said I) → Bool
  | [] => false
  | x :: log => !L.frees x.1 && (L.takes x || L.held log)

/-- The flag is the thread's. -/
def Holds (L : Latch I S) (t : Thread I Req α) : Prop := L.held (t.log.map Event.said) = true

/-- The call can set the flag or clear it. -/
def Touches (L : Latch I S) (c : I.Call) : Prop := L.frees c = true ∨ ∃ a, L.takes ⟨c, a⟩ = true

/-- A flag that is only set where it is clear, by programs that clear it before they end, whichever way; the moves of a
    run do not lose the calls on it, and stop no program that has set it. -/
structure Guards (L : Latch I S) (sys : System I S Req α) (ok : Config I S Req α → Move I Req → Prop) : Prop where
  spend : ∀ s env, L.flag (sys.spend s env) = L.flag s
  take : ∀ {s env c}, L.frees c = false → L.takes ⟨c, (sys.handler env c s).1⟩ = true →
    L.flag s = false ∧ L.flag (sys.handler env c s).2 = true
  free : ∀ {s env c}, L.frees c = true → L.flag (sys.handler env c s).2 = false
  other : ∀ {s env c}, L.frees c = false → L.takes ⟨c, (sys.handler env c s).1⟩ = false →
    L.flag (sys.handler env c s).2 = L.flag s
  makes : ∀ r, (sys.program r).Makes (fun log c => L.frees c = true → L.held log = true) []
  yields : ∀ r, (sys.program r).Yields (fun log _ => L.held log = false) []
  sure : ∀ {c i fate env t op}, ok c (.call i fate env) → c.threads[i]? = some t → t.next? = some op → L.Touches op →
    fate = .answered
  spares : ∀ {s₀ c i t}, sys.Reach ok (.initial s₀) c → ok c (.kill i) → c.threads[i]? = some t → ¬ L.Holds t

/-- The flag is set while a program holds it, which is one at most and has not ended. -/
structure Safe (L : Latch I S) (c : Config I S Req α) : Prop where
  unique : ∀ {i j : Nat} {t u : Thread I Req α}, c.threads[i]? = some t → c.threads[j]? = some u → L.Holds t →
    L.Holds u → i = j
  set : ∀ t ∈ c.threads, L.Holds t → L.flag c.shared = true
  held : L.flag c.shared = true → ∃ t ∈ c.threads, L.Holds t
  ended : ∀ t ∈ c.threads, t.Ended → ¬ L.Holds t

variable {L : Latch I S} {sys : System I S Req α} {ok : Config I S Req α → Move I Req → Prop} {c d : Config I S Req α}
  {s₀ : S}

theorem not_holds {t : Thread I Req α} : ¬ L.Holds t ↔ L.held (t.log.map Event.said) = false := by
  rw [Holds, Bool.not_eq_true]

/-! ### Programs that do not touch the flag -/

section
variable {p : Prog I α} {log : List (Said I)} {x : Said I} {P : I.Call → Prop} {b : Bool}

theorem held_untouched (h : ¬ L.Touches x.1) : L.held (x :: log) = L.held log := by
  have hfrees : L.frees x.1 = false := Bool.eq_false_iff.mpr fun hf => h (Or.inl hf)
  have htakes : L.takes x = false := Bool.eq_false_iff.mpr fun ht => h (Or.inr ⟨x.2, ht⟩)
  simp [held, hfrees, htakes]

theorem makes_untouched (h : p.Calls fun c => ¬ L.Touches c ∧ P c) (hold : L.held log = b) :
    p.Makes (fun log c => L.held log = b ∧ P c) log := by
  induction p generalizing log with
  | ret | throw => trivial
  | ask k ih => exact fun env => ih env (h env) hold
  | call c k ih => exact ⟨⟨hold, h.1.2⟩, fun a => ih a (h.2 a) ((held_untouched h.1.1).trans hold)⟩

theorem yields_untouched (h : p.Calls fun c => ¬ L.Touches c) (hold : L.held log = b) :
    p.Yields (fun log _ => L.held log = b) log := by
  induction p generalizing log with
  | ret | throw => exact hold
  | ask k ih => exact fun env => ih env (h env) hold
  | call c k ih => exact fun a => ih a (h.2 a) ((held_untouched h.1).trans hold)

/-- The flag was set by a call. -/
theorem takes_of_held (h : L.held log = true) : ∃ x ∈ log, L.takes x = true := by
  induction log with
  | nil => cases h
  | cons x log ih =>
    rw [held, Bool.and_eq_true_iff, Bool.or_eq_true_iff] at h
    rcases h.2 with h | h
    · exact ⟨x, List.mem_cons_self .., h⟩
    · obtain ⟨y, hy, htakes⟩ := ih h
      exact ⟨y, List.mem_cons_of_mem _ hy, htakes⟩

end

/-! ### Every move -/

/-- A thread in the place of another one, where the flag stays whose it is. -/
theorem Safe.replace (h : L.Safe c) {i : Nat} {t t' : Thread I Req α} {s : S} (ht : c.threads[i]? = some t)
    (same : L.Holds t' ↔ L.Holds t) (flag : L.flag s = L.flag c.shared) (ended : t'.Ended → ¬ L.Holds t') :
    L.Safe ⟨s, c.threads.set i t', c.past ++ [c.shared]⟩ := by
  have former : ∀ {j : Nat} {u : Thread I Req α}, (c.threads.set i t')[j]? = some u → L.Holds u →
      ∃ v, c.threads[j]? = some v ∧ L.Holds v := by
    intro j u hu hold
    rcases System.getElem?_set_cases hu with ⟨-, hu⟩ | ⟨rfl, rfl⟩
    · exact ⟨u, hu, hold⟩
    · exact ⟨t, ht, same.mp hold⟩
  refine ⟨fun hu hv hholds hholds' => ?_, fun u hu hold => ?_, fun hset => ?_, fun u hu hended => ?_⟩
  · obtain ⟨_, hu, hholds⟩ := former hu hholds
    obtain ⟨_, hv, hholds'⟩ := former hv hholds'
    exact h.unique hu hv hholds hholds'
  · obtain ⟨j, hu⟩ := List.mem_iff_getElem?.mp hu
    obtain ⟨v, hv, hold⟩ := former hu hold
    exact flag.trans (h.set v (List.mem_of_getElem? hv) hold)
  · obtain ⟨u, hu, hold⟩ := h.held (flag.symm.trans hset)
    obtain ⟨j, hu⟩ := List.mem_iff_getElem?.mp hu
    by_cases hij : i = j
    · subst hij
      cases ht.symm.trans hu
      exact ⟨t', List.mem_of_getElem? (List.getElem?_set_self (List.getElem?_eq_some_iff.mp ht).1), same.mpr hold⟩
    · exact ⟨u, List.mem_of_getElem? ((List.getElem?_set_ne hij).trans hu), hold⟩
  · rcases List.mem_or_eq_of_mem_set hu with hu | rfl
    · exact h.ended u hu hended
    · exact ended hended

/-- The thread whose call sets the flag. -/
theorem Safe.take (h : L.Safe c) {i : Nat} {t t' : Thread I Req α} {s : S} (ht : c.threads[i]? = some t)
    (clear : L.flag c.shared = false) (flag : L.flag s = true) (hold : L.Holds t') (goes : ¬ t'.Ended) :
    L.Safe ⟨s, c.threads.set i t', c.past ++ [c.shared]⟩ := by
  have others : ∀ {j : Nat} {u : Thread I Req α}, (c.threads.set i t')[j]? = some u → L.Holds u → j = i := by
    intro j u hu hold
    rcases System.getElem?_set_cases hu with ⟨-, hu⟩ | ⟨rfl, -⟩
    · exact absurd (h.set u (List.mem_of_getElem? hu) hold) (by simp [clear])
    · rfl
  refine ⟨fun hu hv hholds hholds' => (others hu hholds).trans (others hv hholds').symm, fun _ _ _ => flag,
    fun _ => ⟨t', List.mem_of_getElem? (List.getElem?_set_self (List.getElem?_eq_some_iff.mp ht).1), hold⟩,
    fun u hu hended => ?_⟩
  rcases List.mem_or_eq_of_mem_set hu with hu | rfl
  · exact h.ended u hu hended
  · exact absurd hended goes

/-- The thread whose call clears the flag it holds. -/
theorem Safe.free (h : L.Safe c) {i : Nat} {t t' : Thread I Req α} {s : S} (ht : c.threads[i]? = some t) (hold : L.Holds t)
    (flag : L.flag s = false) (cleared : ¬ L.Holds t') : L.Safe ⟨s, c.threads.set i t', c.past ++ [c.shared]⟩ := by
  have none : ∀ u ∈ c.threads.set i t', ¬ L.Holds u := fun u hu hold' => by
    obtain ⟨j, hu⟩ := List.mem_iff_getElem?.mp hu
    rcases System.getElem?_set_cases hu with ⟨hne, hu⟩ | ⟨-, rfl⟩
    · exact hne (h.unique hu ht hold' hold)
    · exact cleared hold'
  exact ⟨fun hu _ hold _ => absurd hold (none _ (List.mem_of_getElem? hu)), fun u hu hold => absurd hold (none u hu),
    fun hset => by simp [flag] at hset, fun u hu _ => none u hu⟩

/-- A move keeps it so, where every program clears the flag before it ends. -/
theorem Guards.step (g : L.Guards sys ok) {m : Move I Req} (hr : sys.Reach ok (.initial s₀) c) (h : L.Safe c)
    (hok : ok c m) (hs : sys.step c m = some d) : L.Safe d := by
  cases m with
  | start r env =>
    obtain ⟨-, rfl⟩ := System.step_start hs
    have former : ∀ {j : Nat} {u : Thread I Req α}, (c.threads ++ [⟨r, c.time, [], (sys.program r).settle env⟩])[j]? = some u →
        L.Holds u → c.threads[j]? = some u := by
      intro j u hu hold
      rcases System.getElem?_concat_cases hu with hu | ⟨-, rfl⟩
      · exact hu
      · exact absurd hold Bool.false_ne_true
    refine ⟨fun hu hv hholds hholds' => h.unique (former hu hholds) (former hv hholds') hholds hholds',
      fun u hu hold => ?_, fun hset => ?_, fun u hu hended => ?_⟩
    · obtain ⟨j, hu⟩ := List.mem_iff_getElem?.mp hu
      exact (g.spend _ _).trans (h.set u (List.mem_of_getElem? (former hu hold)) hold)
    · obtain ⟨u, hu, hold⟩ := h.held ((g.spend _ _).symm.trans hset)
      exact ⟨u, List.mem_append_left _ hu, hold⟩
    · rcases List.mem_append.mp hu with hu | hu
      · exact h.ended u hu hended
      · obtain rfl := List.mem_singleton.mp hu
        exact Bool.false_ne_true
  | kill i =>
    obtain ⟨t, op, k, ht, hk, rfl⟩ := System.step_kill hs
    have hspared := g.spares hr hok ht
    exact h.replace ht Iff.rfl rfl fun _ => hspared
  | call i fate env =>
    obtain ⟨t, op, k, ht, hk, -, rfl⟩ := System.step_call hs
    have hmem := List.mem_of_getElem? ht
    have hcall : t.next? = some op := by rw [Thread.next?, hk]; rfl
    have hgoes : ¬ t.Ended := fun hended => by
      rw [Thread.Ended, hcall] at hended
      cases hended
    have hyields := (hr.yields g.yields t hmem).resolve_left hgoes
    have hended : (sys.resume t op k fate env c.shared c.time).Ended →
        ¬ L.Holds (sys.resume t op k fate env c.shared c.time) := fun hended => by
      obtain ⟨_, hlet⟩ := System.ended_resume hk hyields hended
      exact not_holds.mpr hlet
    have hsaid : (sys.resume t op k fate env c.shared c.time).log.map Event.said =
        ⟨op, sys.answer fate (sys.exec env op (sys.spend c.shared env)).1⟩ :: t.log.map Event.said := rfl
    cases hfrees : L.frees op with
    | true =>
      -- Only the program that has set the flag clears it.
      obtain rfl := g.sure hok ht hcall (Or.inl hfrees)
      have hold : L.Holds t := (hr.makes g.makes t hmem).1.next hcall hfrees
      refine h.free ht hold (g.free hfrees) (not_holds.mpr ?_)
      rw [hsaid, held, hfrees]
      rfl
    | false =>
      cases htakes : L.takes ⟨op, sys.answer fate (sys.exec env op (sys.spend c.shared env)).1⟩ with
      | true =>
        obtain rfl := g.sure hok ht hcall (Or.inr ⟨_, htakes⟩)
        obtain ⟨hclear, hset⟩ := g.take hfrees htakes
        have hold : L.Holds (sys.resume t op k .answered env c.shared c.time) := by
          rw [Holds, hsaid, held, hfrees, htakes]
          rfl
        exact h.take ht hclear hset hold fun hdone => hended hdone hold
      | false =>
        refine h.replace ht ?_ ?_ hended
        · rw [Holds, Holds, hsaid, held, hfrees, htakes]
          simp
        · cases fate with
          | failed => exact g.spend _ _
          | answered => exact g.other hfrees htakes
          | lost =>
            refine g.other hfrees (Bool.eq_false_iff.mpr fun htakes => ?_)
            exact absurd (g.sure hok ht hcall (Or.inr ⟨_, htakes⟩)) (by decide)

/-- In every run the flag is set while one program holds it, and no other does. -/
theorem Guards.reach (g : L.Guards sys ok) (clear : L.flag s₀ = false) (hr : sys.Reach ok (.initial s₀) d) : L.Safe d := by
  refine hr.invariant_with (Q := fun c => sys.Reach ok (.initial s₀) c) id ?_ fun hc _ h hok hs => g.step hc h hok hs
  refine ⟨fun ht => ?_, fun t ht => ?_, fun hset => ?_, fun t ht => ?_⟩
  · cases ht
  · cases ht
  · exact absurd (clear.symm.trans hset) Bool.false_ne_true
  · cases ht

end Latch
end Effects

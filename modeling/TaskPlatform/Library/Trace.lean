import Mathlib.Data.List.Induction

/-! Runs of a machine whose moves may be refused, as lists of moves. -/

namespace Trace
variable {S M : Type} {step : S → M → Option S} {s s' : S} {m : M} {ms : List M}

/-- The state after the moves, if none of them is refused. -/
def run (step : S → M → Option S) : S → List M → Option S
  | s, [] => some s
  | s, m :: rest =>
    match step s m with
    | none => none
    | some s' => run step s' rest

@[simp] theorem run_nil : run step s [] = some s := rfl

theorem run_cons : run step s (m :: ms) = some s' ↔ ∃ t, step s m = some t ∧ run step t ms = some s' := by
  rw [run]
  cases step s m with
  | none => simp
  | some t => simp

theorem run_append {ns : List M} :
    run step s (ms ++ ns) = some s' ↔ ∃ t, run step s ms = some t ∧ run step t ns = some s' := by
  induction ms generalizing s with
  | nil => simp
  | cons m ms ih =>
    rw [List.cons_append, run_cons]
    simp only [run_cons, ih]
    exact ⟨fun ⟨t, ht, u, hu, h⟩ => ⟨u, ⟨t, ht, hu⟩, h⟩, fun ⟨u, ⟨t, ht, hu⟩, h⟩ => ⟨t, ht, u, hu, h⟩⟩

/-- What holds of the start, and with the moves so far is kept by a next one, holds after every run. -/
theorem run_induction {P : List M → S → Prop} (start : P [] s)
    (next : ∀ {ms m t t'}, run step s ms = some t → P ms t → step t m = some t' → P (ms ++ [m]) t')
    (h : run step s ms = some s') : P ms s' := by
  induction ms using List.reverseRecOn generalizing s' with
  | nil => exact Option.some.inj h ▸ start
  | append_singleton ms m ih =>
    obtain ⟨t, ht, hm⟩ := run_append.mp h
    obtain ⟨t', hstep, hend⟩ := run_cons.mp hm
    exact Option.some.inj hend ▸ next ht (ih ht) hstep

/-- An invariant of the moves that meet `ok` holds after every run of such moves. -/
theorem run_keeps {P : S → Prop} {ok : M → Prop} (keep : ∀ {t m t'}, ok m → P t → step t m = some t' → P t')
    (hok : ∀ m ∈ ms, ok m) (start : P s) (h : run step s ms = some s') : P s' := by
  refine run_induction (P := fun ms s' => (∀ m ∈ ms, ok m) → P s') (fun _ => start) ?_ h hok
  intro ms m t t' _ hP hstep hok
  have hms := List.forall_mem_append.mp hok
  exact keep (hms.2 m (List.mem_singleton_self m)) (hP hms.1) hstep

/-! ### The moves of a run -/

/-- The move after the first `i` ones is `m`, and is made in the state `t`. -/
def At (step : S → M → Option S) (s : S) (ms : List M) (i : Nat) (t : S) (m : M) : Prop :=
  ms[i]? = some m ∧ run step s (ms.take i) = some t

theorem At.lt {i : Nat} {t : S} (h : At step s ms i t m) : i < ms.length := (List.getElem?_eq_some_iff.mp h.1).1

/-- Among one more move are those before it, and itself. -/
theorem at_concat {i : Nat} {t : S} {m' : M} :
    At step s (ms ++ [m]) i t m' ↔ At step s ms i t m' ∨ i = ms.length ∧ m' = m ∧ run step s ms = some t := by
  rcases Nat.lt_trichotomy i ms.length with h | rfl | h
  · rw [At, At, List.getElem?_append_left h, List.take_append_of_le_length (Nat.le_of_lt h)]
    exact ⟨Or.inl, Or.rec id fun hi => absurd hi.1 (Nat.ne_of_lt h)⟩
  · rw [At, List.getElem?_concat_length, List.take_left, Option.some.injEq]
    refine ⟨fun hm => Or.inr ⟨rfl, hm.1.symm, hm.2⟩, ?_⟩
    rintro (hat | ⟨-, hm, hrun⟩)
    · exact absurd hat.lt (Nat.lt_irrefl _)
    · exact ⟨hm.symm, hrun⟩
  · refine ⟨fun hat => ?_, ?_⟩
    · have hlt := hat.lt
      rw [List.length_append, List.length_singleton] at hlt
      omega
    · rintro (hat | ⟨hi, -⟩)
      · exact absurd hat.lt (Nat.not_lt.mpr (Nat.le_of_lt h))
      · exact absurd hi (Nat.ne_of_gt h)

theorem At.concat {i : Nat} {t : S} {m' : M} (h : At step s ms i t m') : At step s (ms ++ [m]) i t m' :=
  at_concat.mpr (Or.inl h)

theorem at_last (h : run step s ms = some s') : At step s (ms ++ [m]) ms.length s' m :=
  at_concat.mpr (Or.inr ⟨rfl, rfl, h⟩)

/-- Every move of a run meets `ok` in the state in which it is made, as far as the run goes. -/
def Meets (step : S → M → Option S) (ok : S → M → Prop) : S → List M → Prop
  | _, [] => True
  | s, m :: rest => ok s m ∧ ∀ t ∈ step s m, Meets step ok t rest

instance decidableMeets {ok : S → M → Prop} [∀ s m, Decidable (ok s m)] :
    (ms : List M) → (s : S) → Decidable (Meets step ok s ms)
  | [], _ => isTrue trivial
  | m :: rest, s =>
    have later : (o : Option S) → Decidable (∀ t ∈ o, Meets step ok t rest)
      | none => isTrue fun _ ht => nomatch ht
      | some t => @decidable_of_iff _ (Meets step ok t rest)
          ⟨fun hm _ ht => Option.some.inj ht ▸ hm, fun hm => hm t rfl⟩ (decidableMeets rest t)
    @instDecidableAnd _ _ _ (later (step s m))

theorem Meets.at {ok : S → M → Prop} (h : Meets step ok s ms) {i : Nat} {t : S} (hat : At step s ms i t m) : ok t m := by
  induction ms generalizing s i with
  | nil => exact absurd hat.lt (Nat.not_lt_zero i)
  | cons m' ms ih =>
    cases i with
    | zero =>
      obtain ⟨hm, hrun⟩ := hat
      cases hm
      cases hrun
      exact h.1
    | succ i =>
      obtain ⟨u, hu, hrun⟩ := run_cons.mp hat.2
      exact ih (h.2 u hu) ⟨hat.1, hrun⟩

end Trace

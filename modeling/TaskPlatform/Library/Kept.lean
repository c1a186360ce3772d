import TaskPlatform.Library.Contract

/-! Contracts over what stays so: what is known is read off the present state, and no call takes any of it back. Then it
    is known of every program in flight what it will end with, too. -/

namespace Effects.System
variable {I : Interface} {S Req α κ : Type} [Preorder κ] {sys : System I S Req α} {knows : S → κ} {sound : S → Prop}
  {C : Req → Contract I κ} {Q : Req → κ → α → Prop} {ok : Config I S Req α → Move I Req → Prop} {c d : Config I S Req α}

variable (sys knows sound C) in
/-- A call under its precondition keeps the state sound, takes nothing back of what is known, and what is known then bears
    its reply out. -/
structure Keeps : Prop where
  spend : ∀ {s env}, sound s → sys.admits s env = true → sound (sys.spend s env) ∧ knows s ≤ knows (sys.spend s env)
  call : ∀ {s env r c}, sound s → sys.admits s env = true → (C r).pre (knows s) c →
    sound (sys.handler env c s).2 ∧ knows s ≤ knows (sys.handler env c s).2 ∧
      ∀ a, (sys.handler env c s).1 = .ok a → (C r).post (knows (sys.handler env c s).2) c a

namespace Keeps

/-- A program in flight meets its contract, with what is to be true of its value. -/
def Meets (knows : S → κ) (C : Req → Contract I κ) (Q : Req → κ → α → Prop) (s : S) (t : Thread I Req α) : Prop :=
  t.rest.Meets (C t.request) (Q t.request) (knows s)

theorem effect (h : sys.Keeps knows sound C) {s : S} {env : I.Env} {r : Req} {op : I.Call} (fate : Fate) (hs : sound s)
    (hadm : sys.admits s env = true) (hpre : (C r).pre (knows s) op) :
    sound (sys.effect fate env op s) ∧ knows s ≤ knows (sys.effect fate env op s) ∧
      ∀ a, sys.answer fate (sys.exec env op (sys.spend s env)).1 = .ok a →
        (C r).post (knows (sys.effect fate env op s)) op a := by
  cases fate with
  | failed =>
    obtain ⟨hsound, hk⟩ := h.spend hs hadm
    exact ⟨hsound, hk, fun _ ha => nomatch ha⟩
  | answered => exact h.call hs hadm hpre
  | lost =>
    obtain ⟨hsound, hk, -⟩ := h.call hs hadm hpre
    exact ⟨hsound, hk, fun _ ha => nomatch ha⟩

/-- Whatever the others do, a program goes on from what it knows. -/
theorem guarantee (h : sys.Keeps knows sound C) (programs : ∀ r k, (sys.program r).Meets (C r) (Q r) k)
    (grows : ∀ {r k k' a}, k ≤ k' → Q r k a → Q r k' a) :
    Guarantee sys sound (Meets knows C Q) fun s s' => knows s ≤ knows s' where
  start {s r env} _ hs hadm := by
    obtain ⟨hsound, hk⟩ := h.spend hs hadm
    exact ⟨hsound, hk, (programs r _).settle env⟩
  call {s t op next env} fate _ hs ht hnext hadm := by
    have hmeets : (Prog.call op next).Meets (C t.request) (Q t.request) (knows s) := hnext ▸ ht
    obtain ⟨hsound, hk, hpost⟩ := h.effect fate hs hadm hmeets.1
    exact ⟨hsound, hk, (hmeets.next hk hpost).settle env⟩
  kill _ _ _ := trivial
  stable hk ht := Prog.Meets.grow ht hk grows

theorem reach (h : sys.Keeps knows sound C) (programs : ∀ r k, (sys.program r).Meets (C r) (Q r) k)
    (grows : ∀ {r k k' a}, k ≤ k' → Q r k a → Q r k' a) {s : S} (init : sound s) (hr : sys.Reach ok (.initial s) d) :
    sound d.shared ∧ ∀ t ∈ d.threads, Meets knows C Q d.shared t :=
  (h.guarantee programs grows).reach init hr

/-- What a call of a program in flight must know is known when the call is made. -/
theorem pre (h : ∀ t ∈ c.threads, Meets knows C Q c.shared t) {i : Nat} {t : Thread I Req α} {op : I.Call}
    (ht : c.threads[i]? = some t) (hn : t.next? = some op) : (C t.request).pre (knows c.shared) op := by
  obtain ⟨next, hnext⟩ := Prog.eq_call_of_next? hn
  have hmeets : (Prog.call op next).Meets (C t.request) (Q t.request) (knows c.shared) :=
    hnext ▸ h t (List.mem_of_getElem? ht)
  exact hmeets.1

/-- The shared state after a move: what it was, but for spent values, or what a call has left that its program may make. -/
theorem moved (h : ∀ t ∈ c.threads, Meets knows C Q c.shared t) {m : Move I Req} (hs : sys.step c m = some d) :
    d.shared = c.shared ∨ (∃ env, d.shared = sys.spend c.shared env) ∨ ∃ t ∈ c.threads, ∃ op env,
      sys.admits c.shared env = true ∧ (C t.request).pre (knows c.shared) op ∧
        d.shared = (sys.handler env op c.shared).2 := by
  rcases step_shared hs with heq | ⟨env, -, heq⟩ | ⟨i, fate, env, t, op, -, ht, hop, hadm, heq⟩
  · exact Or.inl heq
  · exact Or.inr (Or.inl ⟨env, heq⟩)
  · have hpre := pre h ht hop
    cases fate with
    | failed => exact Or.inr (Or.inl ⟨env, heq⟩)
    | answered | lost => exact Or.inr (Or.inr ⟨t, List.mem_of_getElem? ht, op, env, hadm, hpre, heq⟩)

/-- What a program has ended with is as it is to be. -/
theorem result {s : S} {t : Thread I Req α} {a : α} (h : Meets knows C Q s t) (ha : t.result? = some (.ok a)) :
    Q t.request (knows s) a := by
  have hrest : t.rest = .ret a := by
    unfold Thread.result? at ha
    cases hr : t.rest with
    | ret b =>
      rw [hr] at ha
      exact congrArg Prog.ret (Except.ok.inj (Option.some.inj ha))
    | throw | ask | call => rw [hr] at ha; cases ha
  rw [Meets, hrest] at h
  exact h

/-- A move takes nothing back of what is known. -/
theorem step (h : sys.Keeps knows sound C) (hc : sound c.shared) (hmeets : ∀ t ∈ c.threads, Meets knows C Q c.shared t)
    {m : Move I Req} (hs : sys.step c m = some d) : knows c.shared ≤ knows d.shared := by
  rcases step_shared hs with heq | ⟨env, hadm, heq⟩ | ⟨i, fate, env, t, op, -, ht, hop, hadm, heq⟩
  · exact (congrArg knows heq).ge
  · exact heq ▸ (h.spend hc hadm).2
  · exact heq ▸ (h.effect fate hc hadm (pre hmeets ht hop)).2.1

/-! ### Programs that start later -/

variable {Q' : Req → κ → α → Prop} {k₀ : κ} {n : Nat}

/-- A program that starts once `k₀` is known starts from that, too. -/
theorem guarantee_later (h : sys.Keeps knows sound C) (programs : ∀ r k, (sys.program r).Meets (C r) (Q r) k)
    (grows : ∀ {r k k' a}, k ≤ k' → Q r k a → Q r k' a)
    (later : ∀ r k, k₀ ≤ k → (sys.program r).Meets (C r) (Q' r) k)
    (grows' : ∀ {r k k' a}, k ≤ k' → Q' r k a → Q' r k' a) :
    Guarantee sys (fun s => sound s ∧ k₀ ≤ knows s)
      (fun s t => Meets knows C Q s t ∧ (n ≤ t.started → Meets knows C Q' s t)) fun s s' => knows s ≤ knows s' where
  start {s r env} _ hs hadm := by
    obtain ⟨hsound, hk⟩ := h.spend hs.1 hadm
    exact ⟨⟨hsound, le_trans hs.2 hk⟩, hk, (programs r _).settle env,
      fun _ => (later r _ (le_trans hs.2 hk)).settle env⟩
  call {s t op next env} fate _ hs ht hnext hadm := by
    have hmeets : (Prog.call op next).Meets (C t.request) (Q t.request) (knows s) := hnext ▸ ht.1
    obtain ⟨hsound, hk, hpost⟩ := h.effect fate hs.1 hadm hmeets.1
    refine ⟨⟨hsound, le_trans hs.2 hk⟩, hk, (hmeets.next hk hpost).settle env, fun hstarted => ?_⟩
    have hmeets' : (Prog.call op next).Meets (C t.request) (Q' t.request) (knows s) := hnext ▸ ht.2 hstarted
    exact (hmeets'.next hk hpost).settle env
  kill _ _ _ := ⟨trivial, fun _ => trivial⟩
  stable hk ht := ⟨Prog.Meets.grow ht.1 hk grows, fun hstarted => Prog.Meets.grow (ht.2 hstarted) hk grows'⟩

/-- What holds of every program that starts after what is known now. -/
theorem later (h : sys.Keeps knows sound C) (programs : ∀ r k, (sys.program r).Meets (C r) (Q r) k)
    (grows : ∀ {r k k' a}, k ≤ k' → Q r k a → Q r k' a)
    (later : ∀ r k, knows c.shared ≤ k → (sys.program r).Meets (C r) (Q' r) k)
    (grows' : ∀ {r k k' a}, k ≤ k' → Q' r k a → Q' r k' a) (hc : sound c.shared)
    (hmeets : ∀ t ∈ c.threads, Meets knows C Q c.shared t) (timed : Timed c) (hr : sys.Reach ok c d) :
    ∀ t ∈ d.threads, c.time ≤ t.started → Meets knows C Q' d.shared t := by
  have g := h.guarantee_later (n := c.time) programs grows later grows'
  refine fun t ht => ((hr.invariant (P := fun d => (sound d.shared ∧ knows c.shared ≤ knows d.shared) ∧ ∀ t ∈ d.threads,
    Meets knows C Q d.shared t ∧ (c.time ≤ t.started → Meets knows C Q' d.shared t)) ?_ ?_).2 t ht).2
  · exact ⟨⟨hc, le_refl _⟩, fun t ht => ⟨hmeets t ht, fun hstarted => absurd (timed t ht).1 (Nat.not_lt.mpr hstarted)⟩⟩
  · intro c d m hc _ hs
    obtain ⟨hsound, hthreads, -⟩ := g.keep hs hc
    exact ⟨hsound, hthreads⟩

end Keeps
end Effects.System

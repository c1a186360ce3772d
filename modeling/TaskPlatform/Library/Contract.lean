import Mathlib.Order.Hom.Basic
import TaskPlatform.Library.Lift
import TaskPlatform.Library.Serial

/-! Rules of pre- and postconditions for programs whose calls others interleave. A condition speaks of what is
    known: a value of a preorder that only grows, however the shared state changes. What a program knows when
    it makes a call it still knows when the call takes effect. -/

namespace Effects

/-- What a program must know to make a call, and what it knows from the reply. Two replies that are alike must
    not make a difference to the program. -/
structure Contract (I : Interface) (κ : Type) [Preorder κ] where
  pre : κ → I.Call → Prop
  post : κ → (c : I.Call) → I.Reply c → Prop
  alike : (c : I.Call) → I.Reply c → I.Reply c → Prop
  grows : ∀ {k k' : κ} {c : I.Call}, k ≤ k' → pre k c → pre k' c

/-- Both contracts; which replies are alike the first one says. -/
def Contract.and {I : Interface} {κ : Type} [Preorder κ] (C D : Contract I κ) : Contract I κ where
  pre k c := C.pre k c ∧ D.pre k c
  post k c a := C.post k c a ∧ D.post k c a
  alike := C.alike
  grows hk h := ⟨C.grows hk h.1, D.grows hk h.2⟩

/-- The contract where what is known is part of something larger. It takes no two replies for alike. -/
def Contract.within {I : Interface} {κ μ : Type} [Preorder κ] [Preorder μ] (C : Contract I κ) (part : μ →o κ) :
    Contract I μ where
  pre k := C.pre (part k)
  post k := C.post (part k)
  alike _ _ _ := False
  grows hk h := C.grows (part.monotone hk) h

/-- The contract of programs on a smaller interface, whose calls are among those of the larger one. -/
def Contract.on {Env A B Error κ : Type} {R : B → Type} [Preorder κ] (D : Contract ⟨Env, B, R, Error⟩ κ) (f : A → B) :
    Contract ⟨Env, A, fun c => R (f c), Error⟩ κ where
  pre k c := D.pre k (f c)
  post k c := D.post k (f c)
  alike c := D.alike (f c)
  grows := D.grows

namespace Prog
variable {I : Interface} {κ α β : Type} [Preorder κ] (C : Contract I κ)

/-- From what is known, the program makes calls under their preconditions only, and ends with a value that
    meets `Q`. -/
def Meets (Q : κ → α → Prop) : Prog I α → κ → Prop
  | ret a, k => Q k a
  | throw _, _ => True
  | ask p, k => ∀ env, (p env).Meets Q k
  | call c p, k =>
    C.pre k c ∧ (∀ a a', C.alike c a a' → p (.ok a) = p (.ok a')) ∧
      ∀ k', k ≤ k' → (∀ a, C.post k' c a → (p (.ok a)).Meets Q k') ∧ ∀ e, (p (.error e)).Meets Q k'

variable {C} {Q : κ → α → Prop} {R : κ → β → Prop} {p : Prog I α} {f : α → Prog I β} {k k' : κ}

@[simp] theorem meets_ret {a : α} : (ret a : Prog I α).Meets C Q k ↔ Q k a := Iff.rfl

@[simp] theorem meets_throw {e : I.Error} : (throw e : Prog I α).Meets C Q k ↔ True := Iff.rfl

@[simp] theorem meets_ask {p : I.Env → Prog I α} : (ask p).Meets C Q k ↔ ∀ env, (p env).Meets C Q k := Iff.rfl

/-- More may be known. -/
theorem Meets.grow (h : p.Meets C Q k) (hk : k ≤ k') (hQ : ∀ {k k' a}, k ≤ k' → Q k a → Q k' a) : p.Meets C Q k' := by
  induction p with
  | ret a => exact hQ hk h
  | throw e => trivial
  | ask p ih => exact fun env => ih env (h env)
  | call c p ih => exact ⟨C.grows hk h.1, h.2.1, fun k'' hk' => h.2.2 k'' (le_trans hk hk')⟩

theorem Meets.mono {Q' : κ → α → Prop} (h : p.Meets C Q k) (hQ : ∀ k', k ≤ k' → ∀ a, Q k' a → Q' k' a) :
    p.Meets C Q' k := by
  induction p generalizing k with
  | ret a => exact hQ k (le_refl k) a h
  | throw e => trivial
  | ask p ih => exact fun env => ih env (h env) hQ
  | call c p ih =>
    refine ⟨h.1, h.2.1, fun k' hk => ⟨fun a ha => ?_, fun e => ?_⟩⟩
    · exact ih (.ok a) ((h.2.2 k' hk).1 a ha) fun k'' hk' => hQ k'' (le_trans hk hk')
    · exact ih (.error e) ((h.2.2 k' hk).2 e) fun k'' hk' => hQ k'' (le_trans hk hk')

/-- The sequence rule. -/
theorem Meets.bind (h : p.Meets C Q k) (hf : ∀ k', k ≤ k' → ∀ a, Q k' a → (f a).Meets C R k') :
    (p.bind f).Meets C R k := by
  induction p generalizing k with
  | ret a => exact hf k (le_refl k) a h
  | throw e => trivial
  | ask p ih => exact fun env => ih env (h env) hf
  | call c p ih =>
    refine ⟨h.1, fun a a' ha => congrArg (Prog.bind · f) (h.2.1 a a' ha), fun k' hk => ⟨fun a ha => ?_, fun e => ?_⟩⟩
    · exact ih (.ok a) ((h.2.2 k' hk).1 a ha) fun k'' hk' => hf k'' (le_trans hk hk')
    · exact ih (.error e) ((h.2.2 k' hk).2 e) fun k'' hk' => hf k'' (le_trans hk hk')

/-- The rule of a call with what follows it. -/
theorem Meets.perform_bind {c : I.Call} {f : I.Reply c → Prog I β} (pre : C.pre k c)
    (alike : ∀ a a', C.alike c a a' → f a = f a') (next : ∀ k', k ≤ k' → ∀ a, C.post k' c a → (f a).Meets C R k') :
    ((perform c).bind f).Meets C R k :=
  ⟨pre, alike, fun k' hk => ⟨next k' hk, fun _ => trivial⟩⟩

theorem Meets.perform {c : I.Call} {Q : κ → I.Reply c → Prop} (pre : C.pre k c)
    (alike : ∀ a a', C.alike c a a' → a = a') (next : ∀ k', k ≤ k' → ∀ a, C.post k' c a → Q k' a) :
    (perform c : Prog I (I.Reply c)).Meets C Q k :=
  ⟨pre, fun a a' ha => congrArg ret (alike a a' ha), fun k' hk => ⟨next k' hk, fun _ => trivial⟩⟩

/-- A program that makes only calls for which nothing must be known, and that replies make no difference to. -/
theorem Calls.meets (h : p.Calls fun c => (∀ k, C.pre k c) ∧ ∀ a a', C.alike c a a' → a = a') :
    p.Meets C (fun _ _ => True) k := by
  induction p generalizing k with
  | ret | throw => trivial
  | ask p ih => exact fun env => ih env (h env)
  | call c p ih =>
    exact ⟨h.1.1 k, fun a a' ha => congrArg (fun a => p (.ok a)) (h.1.2 a a' ha),
      fun k' _ => ⟨fun a _ => ih (.ok a) (h.2 _), fun e => ih (.error e) (h.2 _)⟩⟩

/-- The same of calls that are allowed by what is known to begin with. -/
theorem Calls.meets_of_le {k₀ : κ} (hk : k₀ ≤ k)
    (h : p.Calls fun c => C.pre k₀ c ∧ ∀ a a', C.alike c a a' → a = a') : p.Meets C (fun _ _ => True) k := by
  induction p generalizing k with
  | ret | throw => trivial
  | ask p ih => exact fun env => ih env hk (h env)
  | call c p ih =>
    exact ⟨C.grows hk h.1.1, fun a a' ha => congrArg (fun a => p (.ok a)) (h.1.2 a a' ha),
      fun k' hk' => ⟨fun a _ => ih (.ok a) (le_trans hk hk') (h.2 _), fun e => ih (.error e) (le_trans hk hk') (h.2 _)⟩⟩

/-- The rule of an error that is caught. -/
theorem Meets.handle {h : I.Error → Prog I α} (hp : p.Meets C Q k) (hh : ∀ k', k ≤ k' → ∀ e, (h e).Meets C Q k') :
    (p.handle h).Meets C Q k := by
  induction p generalizing k with
  | ret a => exact hp
  | throw e => exact hh k (le_refl k) e
  | ask p ih => exact fun env => ih env (hp env) hh
  | call c p ih =>
    refine ⟨hp.1, fun a a' ha => congrArg (Prog.handle · h) (hp.2.1 a a' ha),
      fun k' hk => ⟨fun a ha => ?_, fun e => ?_⟩⟩
    · exact ih (.ok a) ((hp.2.2 k' hk).1 a ha) fun k'' hk' => hh k'' (le_trans hk hk')
    · exact ih (.error e) ((hp.2.2 k' hk).2 e) fun k'' hk' => hh k'' (le_trans hk hk')

/-- The rule of a program that is run for how it ends. -/
theorem Meets.attempt (h : p.Meets C Q k) : p.attempt.Meets C (fun k result => ∀ a, result = .ok a → Q k a) k := by
  refine Meets.handle (h.bind fun k' _ a ha => ?_) fun k' _ e => ?_
  · intro b hb
    exact Except.ok.inj hb ▸ ha
  · exact fun _ hb => nomatch hb

/-- A program that keeps two contracts keeps both at once. -/
theorem Meets.and {D : Contract I κ} {Q' : κ → α → Prop} (h : p.Meets C Q k) (h' : p.Meets D Q' k) :
    p.Meets (C.and D) (fun k a => Q k a ∧ Q' k a) k := by
  induction p generalizing k with
  | ret a => exact ⟨h, h'⟩
  | throw e => trivial
  | ask p ih => exact fun env => ih env (h env) (h' env)
  | call c p ih =>
    refine ⟨⟨h.1, h'.1⟩, h.2.1, fun k' hk => ⟨fun a ha => ?_, fun e => ?_⟩⟩
    · exact ih (.ok a) ((h.2.2 k' hk).1 a ha.1) ((h'.2.2 k' hk).1 a ha.2)
    · exact ih (.error e) ((h.2.2 k' hk).2 e) ((h'.2.2 k' hk).2 e)

/-- The rule of consequence: a contract that asks less of the calls that the program makes, and promises more of their
    replies. -/
theorem Meets.weaken {D : Contract I κ} {P : I.Call → Prop} (h : p.Meets C Q k) (calls : p.Calls P)
    (pre : ∀ {k c}, P c → C.pre k c → D.pre k c) (post : ∀ {k c a}, P c → D.post k c a → C.post k c a)
    (alike : ∀ {c a a'}, D.alike c a a' → C.alike c a a') : p.Meets D Q k := by
  induction p generalizing k with
  | ret a => exact h
  | throw e => trivial
  | ask p ih => exact fun env => ih env (h env) (calls env)
  | call c p ih =>
    refine ⟨pre calls.1 h.1, fun a a' ha => h.2.1 a a' (alike ha), fun k' hk => ⟨fun a ha => ?_, fun e => ?_⟩⟩
    · exact ih (.ok a) ((h.2.2 k' hk).1 a (post calls.1 ha)) (calls.2 _)
    · exact ih (.error e) ((h.2.2 k' hk).2 e) (calls.2 _)

theorem Meets.within {μ : Type} [Preorder μ] {part : μ →o κ} {k : μ} (h : p.Meets C Q (part k)) :
    p.Meets (C.within part) (fun k a => Q (part k) a) k := by
  induction p generalizing k with
  | ret a => exact h
  | throw e => trivial
  | ask p ih => exact fun env => ih env (h env)
  | call c p ih =>
    refine ⟨h.1, fun a a' ha => ha.elim, fun k' hk => ⟨fun a ha => ?_, fun e => ?_⟩⟩
    · exact ih (.ok a) ((h.2.2 _ (part.monotone hk)).1 a ha)
    · exact ih (.error e) ((h.2.2 _ (part.monotone hk)).2 e)

/-- The sequence rule the other way: where a program ends, what follows keeps the contract. -/
theorem Meets.of_bind (h : (p.bind f).Meets C R k) (alike : ∀ c a a', ¬ C.alike c a a') :
    p.Meets C (fun k a => (f a).Meets C R k) k := by
  induction p generalizing k with
  | ret a => exact h
  | throw e => trivial
  | ask p ih => exact fun env => ih env (h env)
  | call c p ih =>
    refine ⟨h.1, fun a a' ha => absurd ha (alike c a a'), fun k' hk => ⟨fun a ha => ?_, fun e => ?_⟩⟩
    · exact ih (.ok a) ((h.2.2 k' hk).1 a ha)
    · exact ih (.error e) ((h.2.2 k' hk).2 e)

/-- The rule of a program on a smaller interface, whose calls the contract of the larger one treats alike. -/
theorem Meets.lift {Env Error A B : Type} {RA : A → Type} {RB : B → Type} {C : Contract ⟨Env, A, RA, Error⟩ κ}
    {D : Contract ⟨Env, B, RB, Error⟩ κ} {f : A → B} {g : ∀ c, RB (f c) → RA c} {p : Prog ⟨Env, A, RA, Error⟩ α}
    (pre : ∀ {k c}, C.pre k c → D.pre k (f c)) (post : ∀ {k c a}, D.post k (f c) a → C.post k c (g c a))
    (alike : ∀ {c a a'}, D.alike (f c) a a' → C.alike c (g c a) (g c a')) (h : p.Meets C Q k) :
    (p.lift f g).Meets D Q k := by
  induction p generalizing k with
  | ret a => exact h
  | throw e => trivial
  | ask p ih => exact fun env => ih env (h env)
  | call c p ih =>
    refine ⟨pre h.1, fun a a' ha => congrArg (Prog.lift f g) (h.2.1 _ _ (alike ha)), fun k' hk => ⟨fun a ha => ?_, fun e => ?_⟩⟩
    · exact ih (.ok (g c a)) ((h.2.2 k' hk).1 _ (post ha))
    · exact ih (.error e) ((h.2.2 k' hk).2 e)

/-- The calls of a program on a smaller interface. -/
theorem Calls.lift {Env Error A B : Type} {RA : A → Type} {RB : B → Type} {f : A → B} {g : ∀ c, RB (f c) → RA c}
    {P : B → Prop} {p : Prog ⟨Env, A, RA, Error⟩ α} (h : p.Calls fun c => P (f c)) :
    (p.lift f g : Prog ⟨Env, B, RB, Error⟩ α).Calls P := by
  induction p with
  | ret | throw => trivial
  | ask p ih => exact fun env => ih env (h env)
  | call c p ih => exact ⟨h.1, fun a => ih _ (h.2 _)⟩

/-- What follows a call, whatever its answer. -/
theorem Meets.next {c : I.Call} {p : Except I.Error (I.Reply c) → Prog I α} {answer : Except I.Error (I.Reply c)}
    (h : (call c p).Meets C Q k) (hk : k ≤ k') (post : ∀ a, answer = .ok a → C.post k' c a) :
    (p answer).Meets C Q k' := by
  cases answer with
  | ok a => exact (h.2.2 k' hk).1 a (post a rfl)
  | error e => exact (h.2.2 k' hk).2 e

theorem Meets.settle (h : p.Meets C Q k) (env : I.Env) : (p.settle env).Meets C Q k := by
  induction p with
  | ret | throw => exact h
  | ask p ih => exact ih env (h env)
  | call c p => exact h

end Prog

/-! ### Every run -/

namespace System
variable {I : Interface} {S Req α κ : Type} [Preorder κ]

/-- What is known fits the shared state, and a call under its precondition leads to knowledge that fits the
    state after it and that its reply bears out. -/
structure Fits (sys : System I S Req α) (C : Req → Contract I κ) (fits : κ → S → Prop) : Prop where
  spend : ∀ {k s env}, fits k s → sys.admits s env = true → fits k (sys.spend s env)
  call : ∀ {k s env r c}, fits k s → sys.admits s env = true → (C r).pre k c →
    ∃ k', k ≤ k' ∧ fits k' (sys.handler env c s).2 ∧ ∀ a, (sys.handler env c s).1 = .ok a → (C r).post k' c a

/-- The same, where a reply bears the knowledge out only if the run allows the call in its state. -/
structure FitsUnder (sys : System I S Req α) (allows : Req → S → I.Call → Prop) (C : Req → Contract I κ)
    (fits : κ → S → Prop) : Prop where
  spend : ∀ {k s env}, fits k s → sys.admits s env = true → fits k (sys.spend s env)
  call : ∀ {k s env r c}, fits k s → sys.admits s env = true → (C r).pre k c →
    ∃ k', k ≤ k' ∧ fits k' (sys.handler env c s).2 ∧
      (allows r s c → ∀ a, (sys.handler env c s).1 = .ok a → (C r).post k' c a)

variable {sys : System I S Req α} {C : Req → Contract I κ} {fits : κ → S → Prop} {c d : Config I S Req α}

/-- The programs in flight meet their contracts from what is known, and that fits the shared state. -/
def Known (C : Req → Contract I κ) (fits : κ → S → Prop) (k : κ) (c : Config I S Req α) : Prop :=
  fits k c.shared ∧ ∀ t ∈ c.threads, t.rest.Meets (C t.request) (fun _ _ => True) k

theorem meets_grow {C : Contract I κ} {p : Prog I α} {k k' : κ} (h : p.Meets C (fun _ _ => True) k) (hk : k ≤ k') :
    p.Meets C (fun _ _ => True) k' :=
  h.grow hk fun _ _ => trivial

variable {allows : Req → S → I.Call → Prop}

/-- What becomes known when a call takes effect, and the state after it. -/
theorem FitsUnder.effect (h : sys.FitsUnder allows C fits) {k : κ} {s : S} {env : I.Env} {r : Req} {op : I.Call}
    (fate : Fate) (hfits : fits k s) (hadm : sys.admits s env = true) (hpre : (C r).pre k op)
    (allowed : fate = .answered → allows r s op) :
    ∃ k', k ≤ k' ∧ fits k' (sys.effect fate env op s) ∧
      ∀ a, sys.answer fate (sys.exec env op (sys.spend s env)).1 = .ok a → (C r).post k' op a := by
  cases fate with
  | failed => exact ⟨k, le_refl k, h.spend hfits hadm, fun _ ha => nomatch ha⟩
  | answered =>
    obtain ⟨k', hk, hfits', hpost⟩ := h.call hfits hadm hpre
    exact ⟨k', hk, hfits', hpost (allowed rfl)⟩
  | lost =>
    obtain ⟨k', hk, hfits', -⟩ := h.call hfits hadm hpre
    exact ⟨k', hk, hfits', fun _ ha => nomatch ha⟩

/-- What a thread is about to call, it may call. -/
theorem Known.pre {k : κ} (h : Known C fits k c) {i : Nat} {t : Thread I Req α} {op : I.Call}
    (ht : c.threads[i]? = some t) (hn : t.next? = some op) : (C t.request).pre k op := by
  obtain ⟨next, hnext⟩ := Prog.eq_call_of_next? hn
  have hmeets : (Prog.call op next).Meets (C t.request) (fun _ _ => True) k :=
    hnext ▸ h.2 t (List.mem_of_getElem? ht)
  exact hmeets.1

/-- A move from what is known to more that fits the state after it: the programs in flight meet their contracts still,
    and what is answered bears the knowledge out. -/
theorem Known.step {k k' : κ} {m : Move I Req} (hc : Known C fits k c) (hs : sys.step c m = some d) (hk : k ≤ k')
    (hfits : fits k' d.shared) (program : ∀ r env, m = .start r env → (sys.program r).Meets (C r) (fun _ _ => True) k')
    (post : ∀ i fate env t op, m = .call i fate env → c.threads[i]? = some t → t.next? = some op →
      ∀ a, sys.answer fate (sys.exec env op (sys.spend c.shared env)).1 = .ok a → (C t.request).post k' op a) :
    Known C fits k' d ∧ ∀ t ∈ d.threads, ∀ e ∈ t.log,
      (∃ u ∈ c.threads, u.request = t.request ∧ e ∈ u.log) ∨ ∀ a, e.answer = .ok a → (C t.request).post k' e.call a := by
  obtain ⟨-, hthreads⟩ := hc
  cases m with
  | start r env =>
    obtain ⟨-, rfl⟩ := step_start hs
    refine ⟨⟨hfits, fun t ht => ?_⟩, fun t ht e he => ?_⟩
    · rcases List.mem_append.mp ht with ht | ht
      · exact meets_grow (hthreads t ht) hk
      · obtain rfl := List.mem_singleton.mp ht
        exact (program r env rfl).settle env
    · rcases List.mem_append.mp ht with ht | ht
      · exact Or.inl ⟨t, ht, rfl, he⟩
      · obtain rfl := List.mem_singleton.mp ht
        cases he
  | call i fate env =>
    obtain ⟨t, op, next, ht, hnext, -, rfl⟩ := step_call hs
    have hmem := List.mem_of_getElem? ht
    have hmeets : (Prog.call op next).Meets (C t.request) (fun _ _ => True) k := hnext ▸ hthreads t hmem
    have hcall : t.next? = some op := by rw [Thread.next?, hnext]; rfl
    have hpost := post i fate env t op rfl ht hcall
    refine ⟨⟨hfits, fun u hu => ?_⟩, fun u hu e he => ?_⟩
    · rcases List.mem_or_eq_of_mem_set hu with hu | rfl
      · exact meets_grow (hthreads u hu) hk
      · exact (hmeets.next hk hpost).settle env
    · rcases List.mem_or_eq_of_mem_set hu with hu | rfl
      · exact Or.inl ⟨u, hu, rfl, he⟩
      · rcases List.mem_cons.mp he with rfl | he
        · exact Or.inr hpost
        · exact Or.inl ⟨t, hmem, rfl, he⟩
  | kill i =>
    obtain ⟨t, op, next, ht, hnext, rfl⟩ := step_kill hs
    refine ⟨⟨hfits, fun u hu => ?_⟩, fun u hu e he => ?_⟩
    · rcases List.mem_or_eq_of_mem_set hu with hu | rfl
      · exact meets_grow (hthreads u hu) hk
      · trivial
    · rcases List.mem_or_eq_of_mem_set hu with hu | rfl
      · exact Or.inl ⟨u, hu, rfl, he⟩
      · exact Or.inl ⟨t, List.mem_of_getElem? ht, rfl, he⟩

/-- A move makes known what more the knowledge by the state after it, where there is such an extension that fits the
    state as it stays, and one that fits what a call makes of it and bears its reply out. -/
theorem Known.extend (more : κ → S → κ → Prop) {k : κ} {m : Move I Req} (hc : Known C fits k c)
    (hs : sys.step c m = some d) (stay : ∀ {k s}, fits k s → ∃ k', more k s k' ∧ k ≤ k' ∧ fits k' s)
    (spend : ∀ {k s env}, fits k s → sys.admits s env = true → fits k (sys.spend s env))
    (call : ∀ {k s env r c}, fits k s → sys.admits s env = true → (C r).pre k c →
      ∃ k', more k (sys.handler env c s).2 k' ∧ k ≤ k' ∧ fits k' (sys.handler env c s).2 ∧
        ∀ a, (sys.handler env c s).1 = .ok a → (C r).post k' c a)
    (programs : ∀ r k, (sys.program r).Meets (C r) (fun _ _ => True) k) : ∃ k', more k d.shared k' ∧ Known C fits k' d := by
  cases m with
  | start r env =>
    obtain ⟨hadm, hd⟩ := step_start hs
    obtain ⟨k', hext, hk, hfits⟩ := stay (s := d.shared) (by rw [hd]; exact spend hc.1 hadm)
    exact ⟨k', hext, (hc.step hs hk hfits (fun r _ _ => programs r _) (by rintro _ _ _ _ _ ⟨⟩)).1⟩
  | call i fate env =>
    obtain ⟨t, op, next, ht, hnext, hadm, hd⟩ := step_call hs
    have hcall : t.next? = some op := by rw [Thread.next?, hnext]; rfl
    have told : ∀ {k'}, more k d.shared k' → k ≤ k' → fits k' d.shared →
        (∀ a, sys.answer fate (sys.exec env op (sys.spend c.shared env)).1 = .ok a → (C t.request).post k' op a) →
        ∃ k', more k d.shared k' ∧ Known C fits k' d := fun {k'} hext hk hfits hpost => by
      refine ⟨k', hext, (hc.step hs hk hfits (by rintro _ _ ⟨⟩) fun j fate' env' u op' heq hu hop => ?_).1⟩
      cases heq
      cases ht.symm.trans hu
      cases hcall.symm.trans hop
      exact hpost
    subst hd
    cases fate with
    | failed =>
      obtain ⟨k', hext, hk, hfits⟩ := stay (spend hc.1 hadm)
      exact told hext hk hfits (by rintro _ ⟨⟩)
    | lost =>
      obtain ⟨k', hext, hk, hfits, -⟩ := call hc.1 hadm (hc.pre ht hcall)
      exact told hext hk hfits (by rintro _ ⟨⟩)
    | answered =>
      obtain ⟨k', hext, hk, hfits, hpost⟩ := call hc.1 hadm (hc.pre ht hcall)
      exact told hext hk hfits hpost
  | kill i =>
    obtain ⟨t, op, next, -, -, hd⟩ := step_kill hs
    obtain ⟨k', hext, hk, hfits⟩ := stay (s := d.shared) (by rw [hd]; exact hc.1)
    exact ⟨k', hext, (hc.step hs hk hfits (by rintro _ _ ⟨⟩) (by rintro _ _ _ _ _ ⟨⟩)).1⟩

/-- What is known after a move, the postcondition of a new answer included. The program of a request that starts must
    keep its contract from what is known then. -/
theorem FitsUnder.step (h : sys.FitsUnder allows C fits) {k : κ} {m : Move I Req}
    (program : ∀ r env, m = .start r env → (sys.program r).Meets (C r) (fun _ _ => True) k)
    (allowed : ∀ i env t op, m = .call i .answered env → c.threads[i]? = some t → t.next? = some op →
      allows t.request c.shared op)
    (hc : Known C fits k c) (hs : sys.step c m = some d) :
    ∃ k', k ≤ k' ∧ Known C fits k' d ∧ ∀ t ∈ d.threads, ∀ e ∈ t.log,
      (∃ u ∈ c.threads, u.request = t.request ∧ e ∈ u.log) ∨ ∀ a, e.answer = .ok a → (C t.request).post k' e.call a := by
  cases m with
  | start r env =>
    obtain ⟨hadm, hd⟩ := step_start hs
    exact ⟨k, le_refl k, hc.step hs (le_refl k) (hd ▸ h.spend hc.1 hadm) program (by rintro _ _ _ _ _ ⟨⟩)⟩
  | call i fate env =>
    obtain ⟨t, op, next, ht, hnext, hadm, hd⟩ := step_call hs
    have hcall : t.next? = some op := by rw [Thread.next?, hnext]; rfl
    obtain ⟨k', hk, hfits, hpost⟩ := h.effect fate hc.1 hadm (hc.pre ht hcall)
      fun hfate => allowed i env t op (hfate ▸ rfl) ht hcall
    refine ⟨k', hk, hc.step hs hk (hd ▸ hfits) (by rintro _ _ ⟨⟩) fun j fate' env' u op' heq hu hop => ?_⟩
    cases heq
    cases ht.symm.trans hu
    cases hcall.symm.trans hop
    exact hpost
  | kill i =>
    obtain ⟨t, op, next, -, -, hd⟩ := step_kill hs
    exact ⟨k, le_refl k, hc.step hs (le_refl k) (hd ▸ hc.1) (by rintro _ _ ⟨⟩) (by rintro _ _ _ _ _ ⟨⟩)⟩

/-- In every run whose calls are all allowed there is knowledge that fits the shared state and from which all programs
    in flight meet their contracts. -/
theorem FitsUnder.reach (h : sys.FitsUnder allows C fits)
    (programs : ∀ r k, (sys.program r).Meets (C r) (fun _ _ => True) k)
    {ok : Config I S Req α → Move I Req → Prop} {s : S} {k : κ}
    (allowed : ∀ {c i env t op}, ok c (.call i .answered env) → c.threads[i]? = some t → t.next? = some op →
      allows t.request c.shared op)
    (init : fits k s) (hr : sys.Reach ok (.initial s) d) : ∃ k', k ≤ k' ∧ Known C fits k' d := by
  refine hr.invariant (P := fun d => ∃ k', k ≤ k' ∧ Known C fits k' d)
    ⟨k, le_refl k, init, fun _ ht => nomatch ht⟩ ?_
  rintro c d m ⟨k', hk, hc⟩ hok hs
  obtain ⟨k'', hk', hd, -⟩ := h.step (fun r _ _ => programs r k') (by rintro i env t op rfl; exact allowed hok) hc hs
  exact ⟨k'', le_trans hk hk', hd⟩

theorem Fits.under (h : sys.Fits C fits) : sys.FitsUnder (fun _ _ _ => True) C fits where
  spend := h.spend
  call hfits hadm hpre := by
    obtain ⟨k', hk, hfits', hpost⟩ := h.call hfits hadm hpre
    exact ⟨k', hk, hfits', fun _ => hpost⟩

/-- In every run of programs that meet their contracts there is knowledge that fits the shared state and from
    which all programs in flight meet the contracts. -/
theorem Fits.reach (h : sys.Fits C fits) (programs : ∀ r k, (sys.program r).Meets (C r) (fun _ _ => True) k)
    {ok : Config I S Req α → Move I Req → Prop} {s : S} {k : κ} (init : fits k s)
    (hr : sys.Reach ok (.initial s) d) : ∃ k', k ≤ k' ∧ Known C fits k' d :=
  h.under.reach programs (fun _ _ _ => trivial) init hr

/-! ### A program alone, and two in lockstep -/

section Alone
variable {s s₁ s₂ : S} {env : Nat → I.Env} {p : Prog I α} {k k₁ k₂ : κ}

/-- What every call of a contract does to the state, a program that meets it does, however many calls it makes. -/
theorem Fits.run (h : sys.Fits C fits) {r : Req} {Q : κ → α → Prop} {R : S → S → Prop} (refl : ∀ s, R s s)
    (trans : ∀ {s₁ s₂ s₃}, R s₁ s₂ → R s₂ s₃ → R s₁ s₃)
    (call : ∀ {k s env c}, fits k s → sys.admits s env = true → (C r).pre k c → R s (sys.handler env c s).2)
    (hfits : fits k s) (meets : p.Meets (C r) Q k)
    (admitted : p.Admitted sys.handler (fun s e => sys.admits s e = true) env s) :
    R s (p.run sys.handler env s).2 ∧ ∃ k', k ≤ k' ∧ fits k' (p.run sys.handler env s).2 ∧
      ∀ a, (p.run sys.handler env s).1 = .ok a → Q k' a := by
  induction p generalizing env s k with
  | ret a => exact ⟨refl s, k, le_refl k, hfits, fun _ ha => by cases ha; exact meets⟩
  | throw e => exact ⟨refl s, k, le_refl k, hfits, fun _ ha => nomatch ha⟩
  | ask p ih => exact ih (env 0) hfits (meets (env 0)) admitted
  | call c p ih =>
    obtain ⟨k', hk, hfits', hpost⟩ := h.call hfits admitted.1 meets.1
    have hR := call hfits admitted.1 meets.1
    obtain ⟨hR', k'', hk', h⟩ := ih _ hfits' (meets.next hk hpost) admitted.2
    exact ⟨trans hR hR', k'', le_trans hk hk', h⟩

/-- Two answers between which a program makes no difference. -/
def Alike (C : Contract I κ) (c : I.Call) : Except I.Error (I.Reply c) → Except I.Error (I.Reply c) → Prop
  | .ok a, .ok a' => C.alike c a a'
  | .error e, .error e' => e = e'
  | _, _ => False

/-- A program that is run on two states between which no call of its contract makes a difference ends in the
    same way, and leaves two such states. -/
theorem Fits.lockstep (h : sys.Fits C fits) {r : Req} {Q : κ → α → Prop} {A : S → S → Prop}
    (call : ∀ {k₁ k₂ s₁ s₂ env c}, fits k₁ s₁ → fits k₂ s₂ → A s₁ s₂ → sys.admits s₁ env = true →
      sys.admits s₂ env = true → (C r).pre k₁ c → (C r).pre k₂ c →
      Alike (C r) c (sys.handler env c s₁).1 (sys.handler env c s₂).1 ∧
        A (sys.handler env c s₁).2 (sys.handler env c s₂).2)
    (hfits₁ : fits k₁ s₁) (hfits₂ : fits k₂ s₂) (hA : A s₁ s₂) (meets₁ : p.Meets (C r) Q k₁)
    (meets₂ : p.Meets (C r) Q k₂)
    (admitted₁ : p.Admitted sys.handler (fun s e => sys.admits s e = true) env s₁)
    (admitted₂ : p.Admitted sys.handler (fun s e => sys.admits s e = true) env s₂) :
    (p.run sys.handler env s₁).1 = (p.run sys.handler env s₂).1 ∧
      A (p.run sys.handler env s₁).2 (p.run sys.handler env s₂).2 := by
  induction p generalizing env s₁ s₂ k₁ k₂ with
  | ret a => exact ⟨rfl, hA⟩
  | throw e => exact ⟨rfl, hA⟩
  | ask p ih => exact ih (env 0) hfits₁ hfits₂ hA (meets₁ (env 0)) (meets₂ (env 0)) admitted₁ admitted₂
  | call c p ih =>
    obtain ⟨halike, hA'⟩ := call hfits₁ hfits₂ hA admitted₁.1 admitted₂.1 meets₁.1 meets₂.1
    obtain ⟨k₁', hk₁, hfits₁', hpost₁⟩ := h.call hfits₁ admitted₁.1 meets₁.1
    obtain ⟨k₂', hk₂, hfits₂', hpost₂⟩ := h.call hfits₂ admitted₂.1 meets₂.1
    have hnext : p (sys.handler (env 1) c s₁).1 = p (sys.handler (env 1) c s₂).1 := by
      revert halike
      cases (sys.handler (env 1) c s₁).1 with
      | ok a =>
        cases (sys.handler (env 1) c s₂).1 with
        | ok a' => exact meets₁.2.1 a a'
        | error e => exact False.elim
      | error e =>
        cases (sys.handler (env 1) c s₂).1 with
        | ok a' => exact False.elim
        | error e' => exact fun h => congrArg (fun e => p (.error e)) h
    have hmeets₂ := meets₂.next hk₂ hpost₂
    have hadmitted₂ := admitted₂.2
    simp only [Prog.run_call]
    rw [← hnext] at hmeets₂ hadmitted₂ ⊢
    exact ih _ hfits₁' hfits₂' hA' (meets₁.next hk₁ hpost₁) hmeets₂ admitted₁.2 hadmitted₂

end Alone
end System
end Effects

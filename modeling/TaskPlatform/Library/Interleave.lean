import TaskPlatform.Library.Program

/-! Any number of programs in flight on one shared state. A move starts a program, lets one program make
    its next call, or stops a program for good; every order of moves is a run. A call can also fail
    before it takes effect, or take effect while its answer is lost.

    A configuration keeps the log of each program and the shared states the run went through. No
    program reads them: they are there to say what happened when. -/

namespace Effects

/-- What becomes of a call: it is answered, it fails without effect, or it takes effect and its answer
    is lost. -/
inductive Fate where
  | answered
  | failed
  | lost
  deriving DecidableEq, Repr

/-- A shared state with the programs that requests start on it. `admits` says which environments a
    state allows (a generated value is new), `spend` takes note of the values an environment holds. -/
structure System (I : Interface) (S Req α : Type) where
  exec : Handler I S
  program : Req → Prog I α
  fault : I.Error
  admits : S → I.Env → Bool
  spend : S → I.Env → S

/-- A call that a program made: its answer, whether it took effect, and when. -/
structure Event (I : Interface) where
  call : I.Call
  answer : Except I.Error (I.Reply call)
  took : Bool
  time : Nat

/-- A program in flight or ended, with the request it serves and its calls so far, newest first. -/
structure Thread (I : Interface) (Req α : Type) where
  request : Req
  started : Nat
  log : List (Event I)
  rest : Prog I α

structure Config (I : Interface) (S Req α : Type) where
  shared : S
  threads : List (Thread I Req α)
  past : List S

inductive Move (I : Interface) (Req : Type) where
  | start (r : Req) (env : I.Env)
  | call (i : Nat) (fate : Fate) (env : I.Env)
  | kill (i : Nat)

variable {I : Interface} {S Req α : Type}

namespace Thread

def next? (t : Thread I Req α) : Option I.Call := t.rest.next?

def result? (t : Thread I Req α) : Option (Except I.Error α) := t.rest.result?

/-- The program has ended: it makes no further call. -/
def Ended (t : Thread I Req α) : Prop := t.next? = none

/-- When the thread made its calls that took effect and meet `p`. -/
def times (p : I.Call → Bool) (t : Thread I Req α) : List Nat :=
  (t.log.filter fun e => e.took && p e.call).map Event.time

/-- When the thread made its last call. -/
def last (t : Thread I Req α) : Nat :=
  match t.log with
  | [] => t.started
  | e :: _ => e.time

end Thread

namespace Config

/-- The number of moves made so far. -/
def time (c : Config I S Req α) : Nat := c.past.length

/-- The shared state after the first `n` moves. -/
def at? (c : Config I S Req α) (n : Nat) : Option S := (c.past ++ [c.shared])[n]?

/-- No program is in flight. -/
def Idle (c : Config I S Req α) : Prop := ∀ t ∈ c.threads, t.Ended

def initial (s : S) : Config I S Req α := ⟨s, [], []⟩

instance (c : Config I S Req α) : Decidable c.Idle :=
  decidable_of_iff (c.threads.all (·.next?.isNone) = true) (by simp [Idle, Thread.Ended])

end Config

namespace System
variable (sys : System I S Req α)

/-- The answer a program gets for a call with this fate. -/
def answer (fate : Fate) {c : I.Call} (a : Except I.Error (I.Reply c)) : Except I.Error (I.Reply c) :=
  match fate with
  | .answered => a
  | .failed | .lost => .error sys.fault

/-- The shared state after call `c`. -/
def effect (fate : Fate) (env : I.Env) (c : I.Call) (s : S) : S :=
  match fate with
  | .failed => sys.spend s env
  | .answered | .lost => (sys.exec env c (sys.spend s env)).2

/-- The thread after its call `c` was answered. -/
def resume (t : Thread I Req α) (c : I.Call) (k : Except I.Error (I.Reply c) → Prog I α) (fate : Fate)
    (env : I.Env) (s : S) (time : Nat) : Thread I Req α :=
  let a := sys.answer fate (sys.exec env c (sys.spend s env)).1
  { t with log := ⟨c, a, fate != .failed, time⟩ :: t.log, rest := (k a).settle env }

def step (c : Config I S Req α) : Move I Req → Option (Config I S Req α)
  | .start r env =>
    if sys.admits c.shared env then
      some ⟨sys.spend c.shared env, c.threads ++ [⟨r, c.time, [], (sys.program r).settle env⟩],
        c.past ++ [c.shared]⟩
    else none
  | .call i fate env =>
    match c.threads[i]? with
    | none => none
    | some t =>
      match t.rest with
      | .call op k =>
        if sys.admits c.shared env then
          some ⟨sys.effect fate env op c.shared,
            c.threads.set i (sys.resume t op k fate env c.shared c.time), c.past ++ [c.shared]⟩
        else none
      | _ => none
  | .kill i =>
    match c.threads[i]? with
    | none => none
    | some t =>
      match t.rest with
      | .call _ _ => some ⟨c.shared, c.threads.set i { t with rest := .throw sys.fault }, c.past ++ [c.shared]⟩
      | _ => none

/-- Makes the moves one after the other, as long as each meets `ok`. -/
def run (ok : Config I S Req α → Move I Req → Prop) [∀ c m, Decidable (ok c m)] (c : Config I S Req α) :
    List (Move I Req) → Option (Config I S Req α)
  | [] => some c
  | m :: ms => if ok c m then (sys.step c m).bind fun c' => run ok c' ms else none

/-- `d` is reached from `c` by moves that all meet `ok` in the configuration they are made in. -/
def Reach (ok : Config I S Req α → Move I Req → Prop) : Config I S Req α → Config I S Req α → Prop :=
  Relation.ReflTransGen fun c d => ∃ m, ok c m ∧ sys.step c m = some d

/-! ### What one move does -/

variable {sys} {c d : Config I S Req α}

theorem step_start {r : Req} {env : I.Env} (h : sys.step c (.start r env) = some d) :
    sys.admits c.shared env = true ∧
      d = ⟨sys.spend c.shared env, c.threads ++ [⟨r, c.time, [], (sys.program r).settle env⟩],
        c.past ++ [c.shared]⟩ := by
  simp only [step] at h
  split at h
  · exact ⟨‹_›, (Option.some.inj h).symm⟩
  · cases h

theorem step_call {i : Nat} {fate : Fate} {env : I.Env} (h : sys.step c (.call i fate env) = some d) :
    ∃ t op k, c.threads[i]? = some t ∧ t.rest = .call op k ∧ sys.admits c.shared env = true ∧
      d = ⟨sys.effect fate env op c.shared, c.threads.set i (sys.resume t op k fate env c.shared c.time),
        c.past ++ [c.shared]⟩ := by
  simp only [step] at h
  split at h
  · cases h
  · next t ht =>
    split at h
    · next op k hk =>
      split at h
      · exact ⟨t, op, k, ht, hk, ‹_›, (Option.some.inj h).symm⟩
      · cases h
    · cases h

theorem step_kill {i : Nat} (h : sys.step c (.kill i) = some d) :
    ∃ t op k, c.threads[i]? = some t ∧ t.rest = .call op k ∧
      d = ⟨c.shared, c.threads.set i { t with rest := .throw sys.fault }, c.past ++ [c.shared]⟩ := by
  simp only [step] at h
  split at h
  · cases h
  · next t ht =>
    split at h
    · next op k hk => exact ⟨t, op, k, ht, hk, (Option.some.inj h).symm⟩
    · cases h

/-- A thread after a move was there before, or started, made a call or was killed in the move. -/
theorem step_thread {m : Move I Req} (h : sys.step c m = some d) {t : Thread I Req α} (ht : t ∈ d.threads) :
    t ∈ c.threads ∨
    (∃ r env, m = .start r env ∧ sys.admits c.shared env = true ∧ d.shared = sys.spend c.shared env ∧
      t = ⟨r, c.time, [], (sys.program r).settle env⟩) ∨
    (∃ i fate env u op k, m = .call i fate env ∧ c.threads[i]? = some u ∧ u.rest = .call op k ∧
      sys.admits c.shared env = true ∧ d.shared = sys.effect fate env op c.shared ∧
      t = sys.resume u op k fate env c.shared c.time) ∨
    ∃ i u, m = .kill i ∧ u ∈ c.threads ∧ d.shared = c.shared ∧ t = { u with rest := .throw sys.fault } := by
  cases m with
  | start r env =>
    obtain ⟨hadm, rfl⟩ := step_start h
    rcases List.mem_append.mp ht with ht | ht
    · exact Or.inl ht
    · exact Or.inr (Or.inl ⟨r, env, rfl, hadm, rfl, List.mem_singleton.mp ht⟩)
  | call i fate env =>
    obtain ⟨u, op, k, hu, hk, hadm, rfl⟩ := step_call h
    rcases List.mem_or_eq_of_mem_set ht with ht | ht
    · exact Or.inl ht
    · exact Or.inr (Or.inr (Or.inl ⟨i, fate, env, u, op, k, rfl, hu, hk, hadm, rfl, ht⟩))
  | kill i =>
    obtain ⟨u, op, k, hu, hk, rfl⟩ := step_kill h
    rcases List.mem_or_eq_of_mem_set ht with ht | ht
    · exact Or.inl ht
    · exact Or.inr (Or.inr (Or.inr ⟨i, u, rfl, List.mem_of_getElem? hu, rfl, ht⟩))

/-- The shared state after a move: unchanged but for spent values, or what a call made of it. -/
theorem step_shared {m : Move I Req} (h : sys.step c m = some d) :
    d.shared = c.shared ∨ (∃ env, sys.admits c.shared env = true ∧ d.shared = sys.spend c.shared env) ∨
    ∃ i fate env t op, m = .call i fate env ∧ c.threads[i]? = some t ∧ t.next? = some op ∧
      sys.admits c.shared env = true ∧ d.shared = sys.effect fate env op c.shared := by
  cases m with
  | start r env =>
    obtain ⟨hadm, rfl⟩ := step_start h
    exact Or.inr (Or.inl ⟨env, hadm, rfl⟩)
  | call i fate env =>
    obtain ⟨t, op, k, ht, hk, hadm, rfl⟩ := step_call h
    exact Or.inr (Or.inr ⟨i, fate, env, t, op, rfl, ht, by simp [Thread.next?, hk], hadm, rfl⟩)
  | kill i =>
    obtain ⟨t, op, k, -, -, rfl⟩ := step_kill h
    exact Or.inl rfl

/-- No thread goes away: its request and its log stay. -/
theorem step_keeps_thread {m : Move I Req} (h : sys.step c m = some d) {t : Thread I Req α} (ht : t ∈ c.threads) :
    ∃ t' ∈ d.threads, t'.request = t.request ∧ t'.started = t.started ∧ t.log ⊆ t'.log := by
  obtain ⟨j, hj⟩ := List.mem_iff_getElem?.mp ht
  have keep : ∀ {i : Nat} {u u' : Thread I Req α}, c.threads[i]? = some u → u'.request = u.request →
      u'.started = u.started → u.log ⊆ u'.log →
      ∃ t' ∈ c.threads.set i u', t'.request = t.request ∧ t'.started = t.started ∧ t.log ⊆ t'.log := by
    intro i u u' hu hreq hstart hlog
    by_cases hij : i = j
    · subst hij
      cases hu.symm.trans hj
      exact ⟨u', List.mem_of_getElem? (List.getElem?_set_self (List.getElem?_eq_some_iff.mp hu).1), hreq, hstart, hlog⟩
    · exact ⟨t, List.mem_of_getElem? ((List.getElem?_set_ne hij).trans hj), rfl, rfl, fun _ h => h⟩
  cases m with
  | start r env =>
    obtain ⟨-, rfl⟩ := step_start h
    exact ⟨t, List.mem_append_left _ ht, rfl, rfl, fun _ h => h⟩
  | call i fate env =>
    obtain ⟨u, op, k, hu, -, -, rfl⟩ := step_call h
    exact keep hu rfl rfl fun _ h => List.mem_cons_of_mem _ h
  | kill i =>
    obtain ⟨u, op, k, hu, -, rfl⟩ := step_kill h
    exact keep hu rfl rfl fun _ h => h

/-- Who has made a request before a move has made it after it. -/
theorem step_keeps_request {m : Move I Req} (h : sys.step c m = some d) {P : Req → Prop}
    (made : ∃ t ∈ c.threads, P t.request) : ∃ t ∈ d.threads, P t.request := by
  obtain ⟨t, ht, hP⟩ := made
  obtain ⟨u, hu, hreq, -⟩ := step_keeps_thread h ht
  exact ⟨u, hu, hreq ▸ hP⟩

theorem step_past {m : Move I Req} (h : sys.step c m = some d) : d.past = c.past ++ [c.shared] := by
  cases m with
  | start r env =>
    obtain ⟨-, rfl⟩ := step_start h
    rfl
  | call i fate env =>
    obtain ⟨t, op, k, -, -, -, rfl⟩ := step_call h
    rfl
  | kill i =>
    obtain ⟨t, op, k, -, -, rfl⟩ := step_kill h
    rfl

theorem step_time {m : Move I Req} (h : sys.step c m = some d) : d.time = c.time + 1 := by
  simp [Config.time, step_past h]

theorem times_resume (p : I.Call → Bool) (t : Thread I Req α) (op : I.Call)
    (k : Except I.Error (I.Reply op) → Prog I α) (fate : Fate) (env : I.Env) (s : S) (n : Nat) :
    (sys.resume t op k fate env s n).times p =
      if (fate != .failed && p op) = true then n :: t.times p else t.times p := by
  simp only [Thread.times, resume, List.filter_cons]
  split <;> rfl

/-- What was the shared state after the first `n` moves stays so. -/
theorem step_at? {m : Move I Req} (h : sys.step c m = some d) {n : Nat} {s : S} (hn : c.at? n = some s) :
    d.at? n = some s := by
  rw [Config.at?, step_past h]
  exact (List.getElem?_append_left (List.getElem?_eq_some_iff.mp hn).1).trans hn

theorem at?_time (c : Config I S Req α) : c.at? c.time = some c.shared := by
  simp [Config.at?, Config.time]

section List
variable {β : Type} {l : List β} {i j : Nat} {x y : β}

theorem getElem?_concat_cases (h : (l ++ [x])[j]? = some y) : l[j]? = some y ∨ j = l.length ∧ y = x := by
  rw [List.getElem?_append] at h
  split at h
  · exact Or.inl h
  · rw [List.getElem?_singleton] at h
    split at h
    · exact Or.inr ⟨by omega, (Option.some.inj h).symm⟩
    · cases h

theorem getElem?_set_cases (h : (l.set i x)[j]? = some y) : j ≠ i ∧ l[j]? = some y ∨ j = i ∧ y = x := by
  rw [List.getElem?_set] at h
  split at h
  · split at h
    · exact Or.inr ⟨‹i = j›.symm, (Option.some.inj h).symm⟩
    · cases h
  · exact Or.inl ⟨Ne.symm ‹_›, h⟩

end List

/-! ### Runs -/

/-- What holds at the start, and every allowed move keeps, holds in every configuration reached. -/
theorem Reach.invariant {ok : Config I S Req α → Move I Req → Prop} {P : Config I S Req α → Prop}
    (hr : sys.Reach ok c d) (init : P c)
    (keep : ∀ {c d m}, P c → ok c m → sys.step c m = some d → P d) : P d := by
  induction hr with
  | refl => exact init
  | tail _ hs ih =>
    obtain ⟨m, hok, hs⟩ := hs
    exact keep ih hok hs

/-- The same, with the help of what is already known of every configuration reached. -/
theorem Reach.invariant_with {ok : Config I S Req α → Move I Req → Prop} {P Q : Config I S Req α → Prop}
    (hr : sys.Reach ok c d) (known : ∀ {d}, sys.Reach ok c d → Q d) (init : P c)
    (keep : ∀ {c d m}, Q c → Q d → P c → ok c m → sys.step c m = some d → P d) : P d := by
  induction hr with
  | refl => exact init
  | tail hr hs ih =>
    have hq := known (hr.tail hs)
    obtain ⟨m, hok, hs⟩ := hs
    exact keep (known hr) hq ih hok hs

theorem Reach.weaken {ok : Config I S Req α → Move I Req → Prop} (hr : sys.Reach ok c d) :
    sys.Reach (fun _ _ => True) c d :=
  Relation.ReflTransGen.mono (fun _ _ ⟨m, _, hs⟩ => ⟨m, trivial, hs⟩) _ _ hr

/-- Programs of which `F` says what follows each call stay so while they run. -/
theorem Reach.flows {F : Req → (c : I.Call) → Except I.Error (I.Reply c) → Prog I α → Prop}
    {ok : Config I S Req α → Move I Req → Prop} {s : S} (h : ∀ r, (sys.program r).Flows (F r))
    (hr : sys.Reach ok (.initial s) d) : ∀ t ∈ d.threads, t.rest.Flows (F t.request) := by
  refine hr.invariant (P := fun c => ∀ t ∈ c.threads, t.rest.Flows (F t.request)) nofun ?_
  intro c d m ih _ hs t ht
  rcases step_thread hs ht with ht | ⟨r, env, -, -, -, rfl⟩ | ⟨i, fate, env, u, op, k, -, hu, hk, -, -, rfl⟩ |
    ⟨i, u, -, hu, -, rfl⟩
  · exact ih t ht
  · exact (h r).settle env
  · have hflows : (Prog.call op k).Flows (F u.request) := hk ▸ ih u (List.mem_of_getElem? hu)
    exact (hflows _).2.settle env
  · trivial

/-- A thread makes its calls after it started, and all of that is past. -/
def Timed (c : Config I S Req α) : Prop :=
  ∀ t ∈ c.threads, t.started < c.time ∧ ∀ e ∈ t.log, t.started < e.time ∧ e.time < c.time

theorem Timed.step {m : Move I Req} (h : Timed c) (hs : sys.step c m = some d) : Timed d := by
  intro t ht
  rw [step_time hs]
  rcases step_thread hs ht with ht | ⟨r, env, -, -, -, rfl⟩ | ⟨i, fate, env, u, op, k, -, hu, hk, -, -, rfl⟩ |
    ⟨i, u, -, hu, -, rfl⟩
  · exact ⟨Nat.lt_succ_of_lt (h t ht).1, fun e he => ⟨((h t ht).2 e he).1, Nat.lt_succ_of_lt ((h t ht).2 e he).2⟩⟩
  · exact ⟨Nat.lt_succ_self _, nofun⟩
  · have hu := h u (List.mem_of_getElem? hu)
    refine ⟨Nat.lt_succ_of_lt hu.1, fun e he => ?_⟩
    rcases List.mem_cons.mp he with rfl | he
    · exact ⟨hu.1, Nat.lt_succ_self _⟩
    · exact ⟨(hu.2 e he).1, Nat.lt_succ_of_lt (hu.2 e he).2⟩
  · exact ⟨Nat.lt_succ_of_lt (h u hu).1, fun e he => ⟨((h u hu).2 e he).1, Nat.lt_succ_of_lt ((h u hu).2 e he).2⟩⟩

theorem Timed.times_lt (h : Timed c) {t : Thread I Req α} (ht : t ∈ c.threads) {p : I.Call → Bool} {n : Nat}
    (hn : n ∈ t.times p) : n < c.time := by
  obtain ⟨e, he, rfl⟩ := List.mem_map.mp hn
  exact ((h t ht).2 e (List.mem_filter.mp he).1).2

/-! ### Rely and guarantee

`G` is kept of the shared state, `T` of each thread. What a thread does to the shared state is `R`, and
what is true of the other threads must withstand `R`. -/

/-- The obligations of the rule, one for each kind of move and one for the threads that do not move. -/
structure Guarantee (sys : System I S Req α) (G : S → Prop) (T : S → Thread I Req α → Prop)
    (R : S → S → Prop) : Prop where
  start : ∀ {s r env} (n : Nat), G s → sys.admits s env = true → G (sys.spend s env) ∧ R s (sys.spend s env) ∧
    T (sys.spend s env) ⟨r, n, [], (sys.program r).settle env⟩
  call : ∀ {s t op k env} (fate : Fate) (n : Nat), G s → T s t → t.rest = .call op k → sys.admits s env = true →
    G (sys.effect fate env op s) ∧ R s (sys.effect fate env op s) ∧
      T (sys.effect fate env op s) (sys.resume t op k fate env s n)
  kill : ∀ {s t op k}, G s → T s t → t.rest = .call op k → T s { t with rest := .throw sys.fault }
  stable : ∀ {s s' t}, R s s' → T s t → T s' t

variable {G : S → Prop} {T : S → Thread I Req α → Prop} {R : S → S → Prop}

theorem Guarantee.keep (g : Guarantee sys G T R) {m : Move I Req} (hs : sys.step c m = some d)
    (h : G c.shared ∧ ∀ t ∈ c.threads, T c.shared t) :
    G d.shared ∧ (∀ t ∈ d.threads, T d.shared t) ∧ (R c.shared d.shared ∨ d.shared = c.shared) := by
  obtain ⟨hG, hT⟩ := h
  cases m with
  | start r env =>
    obtain ⟨hadm, rfl⟩ := step_start hs
    obtain ⟨hG', hR, hnew⟩ := g.start (r := r) c.time hG hadm
    refine ⟨hG', fun t ht => ?_, Or.inl hR⟩
    rcases List.mem_append.mp ht with ht | ht
    · exact g.stable hR (hT t ht)
    · exact List.mem_singleton.mp ht ▸ hnew
  | call i fate env =>
    obtain ⟨t, op, k, ht, hk, hadm, rfl⟩ := step_call hs
    obtain ⟨hG', hR, hnew⟩ := g.call fate c.time hG (hT t (List.mem_of_getElem? ht)) hk hadm
    refine ⟨hG', fun u hu => ?_, Or.inl hR⟩
    rcases List.mem_or_eq_of_mem_set hu with hu | rfl
    · exact g.stable hR (hT u hu)
    · exact hnew
  | kill i =>
    obtain ⟨t, op, k, ht, hk, rfl⟩ := step_kill hs
    refine ⟨hG, fun u hu => ?_, Or.inr rfl⟩
    rcases List.mem_or_eq_of_mem_set hu with hu | rfl
    · exact hT u hu
    · exact g.kill hG (hT t (List.mem_of_getElem? ht)) hk

theorem Guarantee.reach (g : Guarantee sys G T R) {ok : Config I S Req α → Move I Req → Prop} {s : S}
    (hG : G s) (hr : sys.Reach ok (.initial s) d) : G d.shared ∧ ∀ t ∈ d.threads, T d.shared t :=
  hr.invariant ⟨hG, fun _ h => nomatch h⟩ fun h _ hs =>
    let k := g.keep hs h
    ⟨k.1, k.2.1⟩

theorem reach_of_run {ok : Config I S Req α → Move I Req → Prop} [∀ c m, Decidable (ok c m)]
    (ms : List (Move I Req)) (h : sys.run ok c ms = some d) : sys.Reach ok c d := by
  induction ms generalizing c with
  | nil =>
    cases Option.some.inj h
    exact .refl
  | cons m ms ih =>
    simp only [run] at h
    split at h
    · obtain ⟨c', hs, hr⟩ := Option.bind_eq_some_iff.mp h
      exact .head ⟨m, ‹_›, hs⟩ (ih hr)
    · cases h

/-- A run that can be made, and what it comes to. -/
theorem reach_exists {ok : Config I S Req α → Move I Req → Prop} [∀ c m, Decidable (ok c m)]
    {P : Config I S Req α → Prop} (ms : List (Move I Req)) (h : ∃ d ∈ sys.run ok c ms, P d) :
    ∃ d, sys.Reach ok c d ∧ P d := by
  obtain ⟨d, hd, hP⟩ := h
  exact ⟨d, reach_of_run ms hd, hP⟩

end System
end Effects

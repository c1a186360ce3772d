import TaskPlatform.Library.Contract
import TaskPlatform.Library.Latch
import TaskPlatform.Reminders.RemindersService

/-! `SchedulerService`, the cron driver of the reminder scan: a flag in each process keeps its scans apart. -/

namespace TaskPlatform.Scheduler
open Effects Reminders

/-- The calls of a tick: on the tables, and on the flag `running` of its process. -/
inductive Call where
  | tables (c : Reminders.Call)
  /-- Reads the flag, and sets it where it is clear; nothing else runs in the process in between. -/
  | enter (process : Nat)
  | leave (process : Nat)
  deriving DecidableEq

abbrev Call.Reply : Call → Type
  | .tables c => c.Reply
  | .enter _ => Bool
  | .leave _ => Unit

abbrev interface : Interface := ⟨Env, Call, Call.Reply, Err⟩

abbrev Service (α : Type) := Prog interface α

/-- The tables, and the processes whose flag is set. -/
structure Workers where
  tables : Reminders.Tables
  running : List Nat

def exec (pg : Postgres) : Handler interface Workers := fun env c s =>
  match c with
  | .tables c => ((Reminders.exec pg env c s.tables).1, { s with tables := (Reminders.exec pg env c s.tables).2 })
  | .enter p => if p ∈ s.running then (.ok false, s) else (.ok true, { s with running := p :: s.running })
  | .leave p => (.ok (), { s with running := s.running.filter (· ≠ p) })

def perform (c : Call) : Service c.Reply := Prog.perform (I := interface) c

/-- A program of the reminders. -/
def ofReminders {α : Type} (p : Reminders.Service α) : Service α := Prog.lift Call.tables (fun _ a => a) p

/-- An error of the scan is logged; the flag is cleared in any case. -/
def SchedulerService.handleReminderScan (queue : Bool) (process : Nat) : Service Unit := do
  let entered ← perform (.enter process)
  if entered then do
    let now ← Prog.read Env.now
    let _ ← (ofReminders (RemindersService.scan queue now)).attempt
    perform (.leave process)
  else return ()

/-- A tick of a process, or what else is asked of the reminders. -/
inductive Request where
  | tick (process : Nat)
  | other (r : Reminders.Request)
  deriving DecidableEq

inductive Response where
  | ticked
  | other (response : Reminders.Response)

def program (queue : Bool) : Request → Service Response
  | .tick process => do
    SchedulerService.handleReminderScan queue process
    return .ticked
  | .other r => do
    let response ← ofReminders (Reminders.program queue r)
    return .other response

def Workers.spend (s : Workers) (env : Env) : Workers := { s with tables := s.tables.spend env }

def system (pg : Postgres) (queue : Bool) : System interface Workers Request Response where
  exec := exec pg
  program := program queue
  fault := .unavailable
  admits s env := s.tables.board.generated.admits env
  spend := Workers.spend

abbrev State := Config interface Workers Request Response

/-- The flag is a field of the process: no call on it fails, and no tick stops without its process. -/
def inProcess (c : State) : Move interface Request → Bool
  | .start _ _ => true
  | .call i fate _ => (c.threads[i]?.bind Thread.next?).all fun
    | .tables _ => true
    | .enter _ | .leave _ => fate = .answered
  | .kill i => c.threads[i]?.all fun t =>
    match t.request with
    | .tick _ => false
    | .other _ => true

/-! ### The flag -/

/-- The flag of a process. -/
def running (p : Nat) : Latch interface Workers where
  flag s := p ∈ s.running
  takes
    | ⟨.enter q, .ok true⟩ => q = p
    | _ => false
  frees c := c = .leave p

/-- The thread has begun a scan in the process and has not ended it. -/
def Scanning (p : Nat) (t : Thread interface Request Response) : Prop := (running p).Holds t

variable {pg : Postgres} {queue : Bool} {p : Nat} {r : Request} {c d : State} {s : Workers} {env : Env}

theorem takes_iff {x : Said interface} : (running p).takes x = true ↔ x = ⟨.enter p, .ok true⟩ := by
  constructor
  · intro h
    simp only [running] at h
    split at h
    · next q => rw [of_decide_eq_true h]
    · cases h
  · rintro rfl
    exact decide_eq_true rfl

theorem frees_iff {op : Call} : (running p).frees op = true ↔ op = .leave p := decide_eq_true_iff

theorem tables_untouched (op : Reminders.Call) : ¬ (running p).Touches (.tables op) := by
  rintro (h | ⟨a, h⟩)
  · cases frees_iff.mp h
  · cases takes_iff.mp h

theorem ofReminders_calls {α : Type} (service : Reminders.Service α) {P : Call → Prop} (h : ∀ op, P (.tables op)) :
    (ofReminders service).Calls P :=
  Prog.Calls.lift (Prog.calls_of_forall h service)

/-- What a request may call: a tick is on the tables while it scans, and it alone sets and clears the flag. -/
structure Orderly (r : Request) (log : List (Said interface)) (op : Call) : Prop where
  enters : ∀ p, op = .enter p → r = .tick p
  scans : ∀ p c, r = .tick p → op = .tables c → (running p).held log = true
  leaves : ∀ p, op = .leave p → (running p).held log = true

theorem tick_makes (p : Nat) : (SchedulerService.handleReminderScan queue p).Makes (Orderly (.tick p)) [] := by
  refine Prog.Makes.perform_bind ⟨fun q h => ?_, by rintro _ _ - ⟨⟩, by rintro _ ⟨⟩⟩ fun entered => ?_
  · cases h
    rfl
  · cases entered with
    | false => exact Prog.makes_ret
    | true =>
      refine Prog.Makes.read_bind fun env => ?_
      have hold : (running p).held [⟨.enter p, .ok true⟩] = true := by simp [Latch.held, running]
      have hcalls : (ofReminders (RemindersService.scan queue env.now)).attempt.Calls fun op =>
          ¬ (running p).Touches op ∧ ∃ c, op = Call.tables c :=
        (ofReminders_calls _ fun op => ⟨tables_untouched op, op, rfl⟩).attempt
      refine Prog.Makes.bind ((Latch.makes_untouched hcalls hold).mono ?_)
        (Latch.yields_untouched (hcalls.mono fun _ h => h.1) hold).leaves fun log _ hlog => ?_
      · rintro log _ ⟨hlog, c, rfl⟩
        refine ⟨by rintro _ ⟨⟩, fun q _ hr _ => ?_, by rintro _ ⟨⟩⟩
        cases hr
        exact hlog
      · refine Prog.Makes.perform ⟨by rintro _ ⟨⟩, by rintro _ _ - ⟨⟩, fun q h => ?_⟩
        cases h
        exact hlog

theorem program_makes (r : Request) : (program queue r).Makes (Orderly r) [] := by
  cases r with
  | tick p => exact (tick_makes p).bind (Prog.leaves_true _ _) fun _ _ _ => Prog.makes_ret
  | other r =>
    have hcalls : (ofReminders (Reminders.program queue r)).Calls fun op => ∃ c, op = Call.tables c :=
      ofReminders_calls _ fun op => ⟨op, rfl⟩
    refine Prog.Makes.bind (hcalls.makes ?_) (Prog.leaves_true _ _) fun _ _ _ => Prog.makes_ret
    rintro log _ ⟨c, rfl⟩
    exact ⟨by rintro _ ⟨⟩, by rintro _ _ ⟨⟩, by rintro _ ⟨⟩⟩

/-- A tick has cleared the flag of its process when it ends, if it had set it. -/
theorem tick_yields (q : Nat) :
    (SchedulerService.handleReminderScan queue q).Yields (fun log _ => (running p).held log = false) [] := by
  have untaken : ∀ {a : Except Err Bool}, a ≠ .ok true → (running p).held [⟨.enter q, a⟩] = false := fun {a} ha => by
    have htakes : (running p).takes ⟨.enter q, a⟩ = false := Bool.eq_false_iff.mpr fun h => by
      cases takes_iff.mp h
      exact ha rfl
    simp [Latch.held, htakes]
  refine Prog.Yields.perform_bind (fun entered => ?_) fun e => untaken (by rintro ⟨⟩)
  cases entered with
  | false => exact untaken (by rintro ⟨⟩)
  | true =>
    intro env
    have hscan : (ofReminders (RemindersService.scan queue env.now)).attempt.Yields (fun log a => ∃ r, a = .ok r ∧
        (running p).held log = (running p).held [⟨Call.enter q, .ok true⟩]) [⟨Call.enter q, .ok true⟩] :=
      (Latch.yields_untouched (ofReminders_calls _ tables_untouched) rfl).attempt
    refine hscan.bind ?_ ?_
    · rintro log _ ⟨_, -, hlog⟩
      -- Whether it set the flag of `p` or that of another process, it does not hold it any more.
      have hleft : ∀ a, (running p).held (⟨.leave q, a⟩ :: log) = false := fun a => by
        by_cases hq : q = p
        · simp [Latch.held, running, hq]
        · rw [Latch.held, hlog]
          simp [Latch.held, running, hq]
      intro a
      cases a <;> exact hleft _
    · rintro log e ⟨_, he, -⟩
      cases he

theorem program_yields (r : Request) : (program queue r).Yields (fun log _ => (running p).held log = false) [] := by
  cases r with
  | tick q => exact (tick_yields q).bind (fun _ _ h => h) fun _ _ h => h
  | other r =>
    exact (Latch.yields_untouched (ofReminders_calls _ tables_untouched) rfl).bind (fun _ _ h => h) fun _ _ h => h

/-! ### Every run -/

variable (pg queue env s) in
theorem enter_cases (q : Nat) :
    q ∈ s.running ∧ (system pg queue).handler env (.enter q) s = (.ok false, s.spend env) ∨
      q ∉ s.running ∧ (system pg queue).handler env (.enter q) s =
        (.ok true, { s.spend env with running := q :: s.running }) := by
  by_cases hq : q ∈ s.running
  · exact Or.inl ⟨hq, if_pos hq⟩
  · exact Or.inr ⟨hq, if_neg hq⟩

/-- Only a tick of the process scans in it. -/
theorem scanning_tick {ok : State → Move interface Request → Prop} {s₀ : Workers}
    (hr : (system pg queue).Reach ok (.initial s₀) c) {t : Thread interface Request Response} (ht : t ∈ c.threads)
    (scanning : Scanning p t) : t.request = .tick p := by
  obtain ⟨x, hx, htakes⟩ := Latch.takes_of_held scanning
  obtain ⟨e, he, hsaid⟩ := List.mem_map.mp hx
  obtain ⟨before, after, hlog⟩ := List.append_of_mem he
  have hallowed := (hr.makes program_makes t ht).2
  rw [hlog] at hallowed
  exact hallowed.split.enters p (congrArg Sigma.fst (hsaid.trans (takes_iff.mp htakes)))

variable (pg queue p) in
theorem guards : (running p).Guards (system pg queue) (fun c m => inProcess c m = true) where
  spend _ _ := rfl
  take {s env c} _ htakes := by
    cases c with
    | tables | leave => cases takes_iff.mp htakes
    | enter q =>
      rcases enter_cases pg queue s env q with ⟨-, heq⟩ | ⟨hq, heq⟩ <;> rw [heq] at htakes ⊢ <;>
        cases takes_iff.mp htakes
      exact ⟨decide_eq_false hq, decide_eq_true (List.mem_cons_self ..)⟩
  free hfrees := by
    obtain rfl := frees_iff.mp hfrees
    exact decide_eq_false (by simp [system, System.handler, exec])
  other {s env c} hfrees htakes := by
    cases c with
    | tables => rfl
    | enter q =>
      rcases enter_cases pg queue s env q with ⟨-, heq⟩ | ⟨-, heq⟩ <;> rw [heq] at htakes ⊢
      · rfl
      · have hne : p ≠ q := fun h => by
          subst h
          simp [running] at htakes
        simp [running, Workers.spend, hne]
    | leave q =>
      have hne : p ≠ q := fun h => by
        subst h
        simp [running] at hfrees
      simp [running, system, System.handler, exec, Workers.spend, hne]
  makes r := (program_makes r).mono fun log c h hfrees => h.leaves p (frees_iff.mp hfrees)
  yields r := program_yields r
  sure {c i fate env t op} hok ht hnext htouches := by
    simp only [inProcess, ht, Option.bind_some, hnext, Option.all_some] at hok
    cases op with
    | tables op => exact absurd htouches (tables_untouched op)
    | enter | leave => exact of_decide_eq_true hok
  spares {s₀ c i t} hr hok ht scanning := by
    simp only [inProcess, ht, Option.all_some, scanning_tick hr (List.mem_of_getElem? ht) scanning] at hok
    cases hok

/-- What holds of the ticks of a run that is at `d`. -/
structure Apart (pg : Postgres) (queue : Bool) (s₀ : Workers) (d : State) : Prop where
  /-- At most one tick of a process scans at a time. -/
  one : ∀ p (i j : Nat) t u, d.threads[i]? = some t → d.threads[j]? = some u → Scanning p t → Scanning p u → i = j
  /-- A tick is on the tables only while it scans. -/
  inside : ∀ p, ∀ t ∈ d.threads, t.request = .tick p → ∀ op, t.next? = some (.tables op) → Scanning p t
  /-- A tick was skipped only if another one of its process was in the midst of its scan. -/
  skipped : ∀ p, ∀ t ∈ d.threads, ⟨.enter p, .ok false⟩ ∈ t.log.map Event.said →
    ∃ c : State, (system pg queue).Reach (fun c m => inProcess c m = true) (.initial s₀) c ∧
      (system pg queue).Reach (fun c m => inProcess c m = true) c d ∧ t.started < c.time ∧
      ∃ u ∈ c.threads, u.request = .tick p ∧ Scanning p u ∧ ¬ u.Ended
  /-- Once the ticks of a process have ended, however their scans did, the flag is clear for the next one. -/
  clear : ∀ p, (∀ t ∈ d.threads, t.request = .tick p → t.Ended) → p ∉ d.shared.running

/-- In every run, with scans that fail and with other requests and jobs in between, the scans of a process do not overlap,
    and none keeps the next one out. -/
theorem scans_apart (pg : Postgres) (queue : Bool) (tables : Reminders.Tables) (d : State)
    (hr : (system pg queue).Reach (fun c m => inProcess c m = true) (.initial ⟨tables, []⟩) d) :
    Apart pg queue ⟨tables, []⟩ d := by
  have safe : ∀ p {c : State}, (system pg queue).Reach (fun c m => inProcess c m = true) (.initial ⟨tables, []⟩) c →
      (running p).Safe c := fun p _ hc => (guards pg queue p).reach rfl hc
  have holder : ∀ p {c : State}, (system pg queue).Reach (fun c m => inProcess c m = true) (.initial ⟨tables, []⟩) c →
      p ∈ c.shared.running → ∃ u ∈ c.threads, u.request = .tick p ∧ Scanning p u ∧ ¬ u.Ended := by
    intro p c hc hset
    obtain ⟨u, hu, hold⟩ := (safe p hc).held (decide_eq_true hset)
    exact ⟨u, hu, scanning_tick hc hu hold, hold, fun hended => (safe p hc).ended u hu hended hold⟩
  refine ⟨fun p i j t u ht hu => (safe p hr).unique ht hu, fun p t ht hrequest op hnext => ?_, fun p t ht hsaid => ?_,
    fun p hidle hset => ?_⟩
  · exact ((hr.makes program_makes t ht).1.next hnext).scans p op hrequest rfl
  · obtain ⟨e, he, hsaid⟩ := List.mem_map.mp hsaid
    obtain ⟨-, -, s, env, hs, -, hanswer, -⟩ := (hr.recorded t ht e he).answered hsaid
    obtain ⟨c, u, hc, hcd, htime, -, -, -⟩ := hr.moment t ht e he
    obtain rfl : c.shared = s := Option.some.inj ((hcd.at? (System.at?_time c)).symm.trans (htime ▸ hs))
    have hset : p ∈ c.shared.running := by
      rcases enter_cases pg queue c.shared env p with ⟨hset, -⟩ | ⟨-, heq⟩
      · exact hset
      · rw [heq] at hanswer
        cases hanswer
    exact ⟨c, hc, hcd, htime ▸ ((hr.timed t ht).2 e he).1, holder p hc hset⟩
  · obtain ⟨u, hu, hrequest, -, hgoes⟩ := holder p hr hset
    exact hgoes (hidle u hu hrequest)

/-- A tick starts while another one scans, whose first query then fails. -/
def overlapping : List (Move interface Request) :=
  [.start (.tick 0) (envAt 0), .call 0 .answered (envAt 1), .start (.tick 0) (envAt 2), .call 1 .answered (envAt 3),
   .call 0 .failed (envAt 4), .call 0 .answered (envAt 5)]

theorem scans_apart_overlapping : ∃ d : State, Apart .strict false ⟨.start [8] [] ⟨[], []⟩, []⟩ d ∧
    (d.threads.map fun t => t.log.length) = [3, 1] ∧ d.Idle ∧ d.shared.running = [] := by
  have hrun : ∃ d : State, (system .strict false).Reach (fun c m => inProcess c m = true)
      (.initial ⟨.start [8] [] ⟨[], []⟩, []⟩) d ∧
        ((d.threads.map fun t => t.log.length) = [3, 1] ∧ d.Idle ∧ d.shared.running = []) :=
    System.reach_exists overlapping (by decide +kernel)
  obtain ⟨d, hr, hd⟩ := hrun
  exact ⟨d, scans_apart .strict false _ d hr, hd⟩

end TaskPlatform.Scheduler

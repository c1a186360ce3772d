import TaskPlatform.Library.Serial
import TaskPlatform.Notifications.NotificationsService

/-! `NotificationProcessor`, the worker of the notification queue: it hands a job to one channel after another, and an
    attempt that fails is followed by one that begins with the first channel again. -/

namespace TaskPlatform.Notifications
open Effects

/-- A channel that delivers notifications: the inbox, or one of those that can be plugged in. -/
inductive Channel (κ : Type) where
  | inApp
  | other (name : κ)
  deriving DecidableEq

/-- A call of `deliver` on the channel at a place of the list. -/
structure Delivery (κ : Type) where
  place : Nat
  channel : Channel κ
  input : CreateNotificationInput
  deriving DecidableEq

/-- What a delivery meets: what it reads, and what becomes of it. When the worker dies after the delivery took effect its
    answer is lost. -/
structure Moment where
  env : Env
  fate : Fate

/-- The inbox and what went out through the other channels. No channel reads `took`: the places of the channels whose
    deliveries took effect, the last one first. -/
structure World (κ : Type) where
  inbox : Tables
  sent : List (κ × CreateNotificationInput)
  took : List Nat
  deriving DecidableEq

section
variable {κ : Type}

abbrev deliveries (κ : Type) : Interface := ⟨Moment, Delivery κ, fun _ => Unit, Err⟩

/-- `InAppChannel.deliver` creates the notification in the inbox. -/
def InAppChannel.deliver (input : CreateNotificationInput) : Service Unit := do
  let _ ← NotificationsService.create input
  return ()

variable (pg : Postgres)

/-- What a delivery does to the world, if the database does not reject it. -/
def Delivery.take (env : Env) (d : Delivery κ) (s : World κ) : Except Err (World κ) :=
  match d.channel with
  | .inApp =>
    let a := (InAppChannel.deliver d.input).run (exec pg) (fun _ => env) s.inbox
    a.1.map fun _ => { s with inbox := a.2, took := d.place :: s.took }
  | .other name => .ok { s with sent := (name, d.input) :: s.sent, took := d.place :: s.took }

def Delivery.exec : Handler (deliveries κ) (World κ) := fun m d s =>
  match m.fate, d.take pg m.env s with
  | .failed, _ => (.error .unavailable, s)
  | _, .error e => (.error e, s)
  | .answered, .ok s' => (.ok (), s')
  | .lost, .ok s' => (.error .unavailable, s')

/-- Hands the job to the channels from a place on. -/
def NotificationProcessor.deliverFrom (data : CreateNotificationInput) : Nat → List (Channel κ) → Prog (deliveries κ) Unit
  | _, [] => return ()
  | place, channel :: rest => do
    let _ ← Prog.perform (I := deliveries κ) ⟨place, channel, data⟩
    deliverFrom data (place + 1) rest

def NotificationProcessor.process (channels : List (Channel κ)) (data : CreateNotificationInput) : Prog (deliveries κ) Unit :=
  deliverFrom data 0 channels

def World.spend (s : World κ) (m : Moment) : World κ :=
  { s with inbox := { s.inbox with generated := s.inbox.generated.spend m.env } }

/-- The worker; a request is an attempt at a job. -/
def worker (channels : List (Channel κ)) : System (deliveries κ) (World κ) CreateNotificationInput Unit where
  exec := Delivery.exec pg
  program := NotificationProcessor.process channels
  fault := .unavailable
  admits s m := s.inbox.generated.admits m.env
  spend := World.spend

/-- Attempts at one job. -/
def attempts (data : CreateNotificationInput) (ms : List (Nat → Moment)) : List (CreateNotificationInput × (Nat → Moment)) :=
  ms.map fun m => (data, m)

/-- The database takes the notification: its recipient and its workspace exist. -/
def Channel.accepts (inbox : Tables) (data : CreateNotificationInput) : Channel κ → Bool
  | .inApp => inbox.users.contains data.recipientId.uuid && data.workspaceId.all fun w => inbox.workspaces.contains w.uuid
  | .other _ => true

/-- Of the attempts at a job at most one gets the first channel to deliver. -/
def FirstOnce (channels : List (Channel κ)) (inbox : Tables) (data : CreateNotificationInput) (ms : List (Nat → Moment)) :
    Prop :=
  ∀ c ∈ channels.head?, c.accepts inbox data = true → ms.countP (fun m => (m 1).fate ≠ .failed) ≤ 1

/-! ### One delivery -/

variable {pg}

/-- The ids of the inbox were generated. -/
def World.Issued (s : World κ) : Prop := ∀ r ∈ s.inbox.notifications, r.id ∈ s.inbox.generated.uuids

def Channel.isInApp : Channel κ → Bool
  | .inApp => true
  | .other _ => false

/-- How many of the deliveries were to the inbox. -/
def inboxed (channels : List (Channel κ)) (took : List Nat) : Nat := took.countP fun i => channels[i]?.any Channel.isInApp

/-- What deliveries at the places do. -/
structure Takes (channels : List (Channel κ)) (places : List Nat) (s s' : World κ) : Prop where
  took : s'.took = places ++ s.took
  users : s'.inbox.users = s.inbox.users
  workspaces : s'.inbox.workspaces = s.inbox.workspaces
  issued : s'.Issued
  rows : s'.inbox.notifications.length + inboxed channels s.took = s.inbox.notifications.length + inboxed channels s'.took

theorem Takes.trans {channels : List (Channel κ)} {is js : List Nat} {s s' s'' : World κ} (h : Takes channels is s s')
    (h' : Takes channels js s' s'') : Takes channels (js ++ is) s s'' where
  took := by rw [h'.took, h.took, List.append_assoc]
  users := h'.users.trans h.users
  workspaces := h'.workspaces.trans h.workspaces
  issued := h'.issued
  rows := by
    have := h.rows
    have := h'.rows
    omega

theorem takes_refl {channels : List (Channel κ)} {s : World κ} (issued : s.Issued) : Takes channels [] s s :=
  ⟨rfl, rfl, rfl, issued, rfl⟩

theorem takes_nothing {channels : List (Channel κ)} {s : World κ} {m : Moment} (issued : s.Issued) :
    Takes channels [] s (s.spend m) where
  took := rfl
  users := rfl
  workspaces := rfl
  issued _ hr := List.mem_cons_of_mem _ (issued _ hr)
  rows := rfl

/-- A notification is inserted if its recipient and its workspace exist. -/
theorem insert_eq (input : CreateNotificationInput) (env : Env) (s : Tables) (new : env.uuid ∉ s.notifications.map (·.id)) :
    s.insertNotification (input.toRow env) =
      if s.users.contains input.recipientId.uuid = true then
        if input.workspaceId.all (fun w => s.workspaces.contains w.uuid) = true then
          .ok { s with notifications := s.notifications ++ [input.toRow env] }
        else .error (.foreignKey "FK_notifications_workspace")
      else .error (.foreignKey "FK_notifications_recipient") := by
  have hfresh : fresh "notifications_pkey" (input.toRow env).id (s.notifications.map (·.id)) = .ok () := if_neg (by
    rw [List.contains_iff_mem]
    exact new)
  have hworkspace : (input.workspaceId.map UuidText.uuid).all s.workspaces.contains =
      input.workspaceId.all fun w => s.workspaces.contains w.uuid := by
    cases input.workspaceId <;> rfl
  rw [Tables.insertNotification, hfresh, Tables.checkNotification, Option.map_none, Option.bind_none, reference_new,
    reference_new, CreateNotificationInput.toRow, hworkspace, Option.all_some]
  split
  · split <;> rfl
  · rfl

variable (κ) in
/-- The inbox takes a notification that it accepts, and the database rejects any other one. -/
theorem insert_accepts (input : CreateNotificationInput) (env : Env) (s : Tables) (new : env.uuid ∉ s.notifications.map (·.id)) :
    (Channel.accepts s input (.inApp : Channel κ) = true ∧
      s.insertNotification (input.toRow env) = .ok { s with notifications := s.notifications ++ [input.toRow env] }) ∨
    (Channel.accepts s input (.inApp : Channel κ) = false ∧ ∃ e, s.insertNotification (input.toRow env) = .error e) := by
  rw [insert_eq input env s new, Channel.accepts]
  by_cases huser : s.users.contains input.recipientId.uuid = true
  · by_cases hws : (input.workspaceId.all fun w => s.workspaces.contains w.uuid) = true
    · rw [if_pos huser, if_pos hws]
      exact Or.inl ⟨Bool.and_eq_true_iff.mpr ⟨huser, hws⟩, rfl⟩
    · rw [if_pos huser, if_neg hws]
      exact Or.inr ⟨by rw [Bool.eq_false_iff.mpr hws, Bool.and_false], _, rfl⟩
  · rw [if_neg huser]
    exact Or.inr ⟨by rw [Bool.eq_false_iff.mpr huser, Bool.false_and], _, rfl⟩

variable (pg) in
/-- The inbox after a delivery that it accepts; one that it does not accept is rejected. -/
theorem inApp_take {input : CreateNotificationInput} {env : Env} (place : Nat) {s : World κ}
    (new : env.uuid ∉ s.inbox.notifications.map (·.id)) :
    (Channel.accepts s.inbox input (.inApp : Channel κ) = true ∧ Delivery.take pg env ⟨place, .inApp, input⟩ s =
      .ok { s with inbox := { s.inbox with notifications := s.inbox.notifications ++ [input.toRow env] },
                   took := place :: s.took }) ∨
    (Channel.accepts s.inbox input (.inApp : Channel κ) = false ∧
      ∃ e, Delivery.take pg env ⟨place, .inApp, input⟩ s = .error e) := by
  simp only [Delivery.take, InAppChannel.deliver, NotificationsService.create, NotificationsService.perform,
    Prog.perform, Prog.bind_eq, Prog.call_bind, Prog.run_call, exec]
  rcases insert_accepts κ input env s.inbox new with ⟨haccepts, hinsert⟩ | ⟨hrejects, e, hinsert⟩
  · rw [hinsert]
    exact Or.inl ⟨haccepts, rfl⟩
  · rw [hinsert]
    exact Or.inr ⟨hrejects, _, rfl⟩

variable {channels : List (Channel κ)} {data : CreateNotificationInput} {s : World κ} {m : Moment} {d : Delivery κ}

variable (pg) in
/-- A delivery takes effect where it does not fail and is accepted. -/
theorem delivery_cases (hd : channels[d.place]? = some d.channel) (issued : s.Issued)
    (admits : s.inbox.generated.admits m.env = true) :
    ((m.fate ≠ .failed ∧ d.channel.accepts s.inbox d.input = true) ∧
      Takes channels [d.place] s ((worker pg channels).handler m d s).2) ∨
    (¬(m.fate ≠ .failed ∧ d.channel.accepts s.inbox d.input = true) ∧
      (∃ e, ((worker pg channels).handler m d s).1 = .error e) ∧
        Takes channels [] s ((worker pg channels).handler m d s).2) := by
  have hnothing : Takes channels [] s (s.spend m) := takes_nothing issued
  obtain ⟨place, channel, input⟩ := d
  have htake : (channel.accepts s.inbox input = true ∧ ∃ s', Delivery.take pg m.env ⟨place, channel, input⟩ (s.spend m) = .ok s' ∧
      Takes channels [place] s s') ∨
      (channel.accepts s.inbox input = false ∧ ∃ e, Delivery.take pg m.env ⟨place, channel, input⟩ (s.spend m) = .error e) := by
    cases channel with
    | other name =>
      refine Or.inl ⟨rfl, _, rfl, rfl, rfl, rfl, hnothing.issued, ?_⟩
      simp [World.spend, inboxed, hd, Channel.isInApp]
    | inApp =>
      have hnew : m.env.uuid ∉ (s.spend m).inbox.notifications.map (·.id) := fun hid => by
        obtain ⟨r, hr, hid⟩ := List.mem_map.mp hid
        exact (Generated.admits_iff.mp admits).1 (hid ▸ issued r hr)
      refine (inApp_take pg place hnew).imp (fun ⟨haccepts, htake⟩ => ⟨haccepts, _, htake, ?_⟩) id
      refine ⟨rfl, rfl, rfl, fun r hr => ?_, ?_⟩
      · rcases List.mem_append.mp hr with hr | hr
        · exact hnothing.issued r hr
        · obtain rfl := List.mem_singleton.mp hr
          exact List.mem_cons_self ..
      · simp [World.spend, inboxed, hd, Channel.isInApp]
        omega
  simp only [System.handler, worker, Delivery.exec]
  rcases htake with ⟨haccepts, s', htake, htakes⟩ | ⟨hrejects, e, htake⟩
  · rw [htake]
    cases hfate : m.fate with
    | failed => exact Or.inr ⟨fun h => h.1 rfl, ⟨_, rfl⟩, hnothing⟩
    | answered => exact Or.inl ⟨⟨nofun, haccepts⟩, htakes⟩
    | lost => exact Or.inl ⟨⟨nofun, haccepts⟩, htakes⟩
  · rw [htake]
    have hnot : ¬(m.fate ≠ .failed ∧ channel.accepts s.inbox input = true) := fun h => by simp [hrejects] at h
    cases hfate : m.fate <;> exact Or.inr ⟨hfate ▸ hnot, ⟨_, rfl⟩, hnothing⟩

/-! ### One attempt -/

/-- An attempt delivers at places one after another; the first one where the first call does. -/
theorem deliverFrom_takes {rest : List (Channel κ)} {place : Nat} (hrest : channels.drop place = rest) (issued : s.Issued)
    {env : Nat → Moment} (admitted : (NotificationProcessor.deliverFrom data place rest).Admitted (worker pg channels).handler
      (fun s m => (worker pg channels).admits s m = true) env s) :
    ∃ n, Takes channels (List.range' place n).reverse s
        ((NotificationProcessor.deliverFrom data place rest).run (worker pg channels).handler env s).2 ∧
      (0 < n ↔ ∃ c ∈ rest.head?, (env 1).fate ≠ .failed ∧ c.accepts s.inbox data = true) := by
  induction rest generalizing place s env with
  | nil => exact ⟨0, takes_refl issued, by simp⟩
  | cons c rest ih =>
    have hd : channels[place]? = some c := by rw [← List.head?_drop, hrest, List.head?_cons]
    have hnext : channels.drop (place + 1) = rest := by rw [← List.tail_drop, hrest, List.tail_cons]
    rw [NotificationProcessor.deliverFrom, Prog.bind_eq, Prog.admitted_perform] at admitted
    rw [NotificationProcessor.deliverFrom, Prog.bind_eq]
    obtain ⟨admits, hrun⟩ := admitted
    have hcases := delivery_cases pg (d := ⟨place, c, data⟩) hd issued admits
    generalize hanswer : (worker pg channels).handler (env 1) ⟨place, c, data⟩ s = answer at hcases hrun
    obtain ⟨result, s'⟩ := answer
    rcases hcases with ⟨htook, htakes⟩ | ⟨hnot, ⟨e, he⟩, hnothing⟩
    · cases result with
      | ok a =>
        obtain ⟨n, hrest, -⟩ := ih hnext htakes.issued (hrun a rfl)
        refine ⟨n + 1, ?_, ?_⟩
        · rw [Prog.run_perform_ok (I := deliveries κ) env hanswer, List.range'_succ, List.reverse_cons]
          exact htakes.trans hrest
        · simpa using htook
      | error e =>
        refine ⟨1, ?_, by simpa using htook⟩
        rw [Prog.run_perform_error (I := deliveries κ) env hanswer]
        exact htakes
    · obtain rfl : result = .error e := he
      refine ⟨0, ?_, by simpa using hnot⟩
      rw [Prog.run_perform_error (I := deliveries κ) env hanswer]
      exact hnothing

/-! ### Attempt after attempt -/

/-- The first delivery of the attempt takes effect. -/
def begins (channels : List (Channel κ)) (inbox : Tables) (data : CreateNotificationInput) (m : Nat → Moment) : Bool :=
  channels.head?.any (·.accepts inbox data) && (m 1).fate ≠ .failed

theorem Takes.begins {places : List Nat} {s' : World κ} (h : Takes channels places s s') :
    begins channels s'.inbox data = begins channels s.inbox data := by
  have haccepts : ∀ c : Channel κ, c.accepts s'.inbox data = c.accepts s.inbox data := fun c => by
    cases c with
    | inApp => rw [Channel.accepts, Channel.accepts, h.users, h.workspaces]
    | other => rfl
  funext m
  simp only [Notifications.begins, haccepts]

/-- No channel delivers in more attempts than the first one. -/
theorem attempts_take {ms : List (Nat → Moment)} (issued : s.Issued)
    (served : (worker pg channels).ServesAll (attempts data ms) s) :
    ∃ places, Takes channels places s ((worker pg channels).serveAll (attempts data ms) s).2 ∧
      (∀ i, places.count i ≤ places.count 0) ∧ places.count 0 = ms.countP (begins channels s.inbox data) := by
  induction ms generalizing s with
  | nil => exact ⟨[], takes_refl issued, fun _ => le_refl _, rfl⟩
  | cons m ms ih =>
    obtain ⟨⟨admits, admitted⟩, hrest⟩ := served
    have hspend : Takes channels [] s (s.spend (m 0)) := takes_nothing issued
    have hall : channels.drop 0 = channels := List.drop_zero
    obtain ⟨n, htakes, hn⟩ := deliverFrom_takes hall hspend.issued admitted
    have hserve := hspend.trans htakes
    rw [List.append_nil] at hserve
    obtain ⟨places, hlater, hle, hfirst⟩ := ih hserve.issued hrest
    refine ⟨places ++ (List.range' 0 n).reverse, hserve.trans hlater, fun i => ?_, ?_⟩
    · rw [List.count_append, List.count_append, List.count_reverse, List.count_reverse]
      refine Nat.add_le_add (hle i) ?_
      rw [List.count_range_1', List.count_range_1']
      split_ifs <;> omega
    · have hfirst : places.count 0 = ms.countP (begins channels s.inbox data) := hserve.begins ▸ hfirst
      have hbegins : 0 < n ↔ begins channels s.inbox data m = true := by
        rw [hn, begins, Bool.and_eq_true, Option.any_eq_true, decide_eq_true_iff]
        exact ⟨fun ⟨c, hc, hfate, haccepts⟩ => ⟨⟨c, hc, haccepts⟩, hfate⟩, fun ⟨⟨c, hc, haccepts⟩, hfate⟩ =>
          ⟨c, hc, hfate, haccepts⟩⟩
      rw [List.count_append, List.count_reverse, List.count_range_1', hfirst, List.countP_cons]
      by_cases h : 0 < n
      · rw [if_pos ⟨le_refl 0, (Nat.zero_add n).symm ▸ h⟩, if_pos (hbegins.mp h)]
      · rw [if_neg fun h' => h ((Nat.zero_add n) ▸ h'.2), if_neg fun h' => h (hbegins.mpr h')]

theorem firstOnce_iff {inbox : Tables} {ms : List (Nat → Moment)} :
    FirstOnce channels inbox data ms ↔ ms.countP (begins channels inbox data) ≤ 1 := by
  have hnone : ∀ {p : (Nat → Moment) → Bool}, (∀ m, p m = false) → ms.countP p ≤ 1 := fun h => by
    rw [List.countP_eq_zero.mpr fun m _ => by simp [h m]]
    exact Nat.zero_le 1
  unfold FirstOnce begins
  cases channels.head? with
  | none => exact ⟨fun _ => hnone fun _ => rfl, fun _ => nofun⟩
  | some c =>
    cases haccepts : c.accepts inbox data with
    | true => simp [haccepts]
    | false =>
      refine ⟨fun _ => hnone fun _ => by simp [haccepts], fun _ c' hc' h => ?_⟩
      obtain rfl := Option.some.inj hc'
      rw [haccepts] at h
      cases h

theorem countP_range {α : Type} (p : α → Bool) (l : List α) : (List.range l.length).countP (l[·]?.any p) = l.countP p := by
  induction l with
  | nil => rfl
  | cons x l ih =>
    rw [List.length_cons, List.range_succ_eq_map, List.countP_cons, List.countP_map, List.countP_cons, ← ih]
    rfl

variable (channels) in
/-- Different places that hold the inbox are no more than there are. -/
theorem inboxed_le {took : List Nat} (nodup : took.Nodup) : inboxed channels took ≤ channels.countP Channel.isInApp := by
  rw [← countP_range, inboxed, List.countP_eq_length_filter, List.countP_eq_length_filter]
  refine (List.subperm_of_subset (nodup.filter _) fun i hi => ?_).length_le
  obtain ⟨hi, hat⟩ := List.mem_filter.mp hi
  obtain ⟨c, hc, -⟩ := (Option.any_eq_true _ _).mp hat
  exact List.mem_filter.mpr ⟨List.mem_range.mpr (List.getElem?_eq_some_iff.mp hc).1, hat⟩

/-- Each channel delivers a job at most once, and the inbox gets it at most once, exactly if at most one attempt gets the
    first channel to deliver. -/
theorem delivered_once_iff (pg : Postgres) (channels : List (Channel κ)) (data : CreateNotificationInput)
    (ms : List (Nat → Moment)) (inbox : Tables) (issued : World.Issued ⟨inbox, ([] : List (κ × _)), []⟩)
    (served : (worker pg channels).ServesAll (attempts data ms) ⟨inbox, [], []⟩) :
    ((∀ place, ((worker pg channels).serveAll (attempts data ms) ⟨inbox, [], []⟩).2.took.count place ≤ 1) ∧
      ((worker pg channels).serveAll (attempts data ms) ⟨inbox, [], []⟩).2.inbox.notifications.length ≤
        inbox.notifications.length + channels.countP Channel.isInApp) ↔ FirstOnce channels inbox data ms := by
  obtain ⟨places, htakes, hle, hfirst⟩ := attempts_take issued served
  have htook := htakes.took
  rw [List.append_nil] at htook
  have hrows := htakes.rows
  rw [htook, firstOnce_iff, ← hfirst]
  refine ⟨fun h => h.1 0, fun h => ?_⟩
  have honce : ∀ place, places.count place ≤ 1 := fun place => le_trans (hle place) h
  refine ⟨honce, ?_⟩
  have hplaces := inboxed_le channels (List.nodup_iff_count_le_one.mpr honce)
  rw [htook] at hrows
  simp only [inboxed, List.countP_nil, Nat.add_zero] at hrows hplaces ⊢
  omega

end

/-! ### The worker dies after it created the notification -/

/-- User 5 is assigned task 7. -/
def assigned : CreateNotificationInput :=
  { recipientId := Uuid.text 5, type := .TASK_ASSIGNED, title := "You were assigned a task", entityType := some "task",
    entityId := some (Uuid.text 7) }

def oneUser : Tables := ⟨[5], [], [], ⟨[], []⟩⟩

/-- An attempt whose only delivery meets this fate; it generates values from `n` on. -/
def attempt (n : Nat) (fate : Fate) : Nat → Moment := fun i => ⟨envAt (n + i), fate⟩

/-- With the inbox for its only channel. -/
theorem created_twice :
    let w := (worker .strict [(.inApp : Channel Empty)]).serveAll
      (attempts assigned [attempt 0 .lost, attempt 10 .answered]) ⟨oneUser, [], []⟩
    (worker .strict [(.inApp : Channel Empty)]).ServesAll
        (attempts assigned [attempt 0 .lost, attempt 10 .answered]) ⟨oneUser, [], []⟩ ∧
      w.2.took = [0, 0] ∧ w.2.inbox.notifications.map (fun r => (r.recipientId, r.type, r.entityId)) =
        [(5, .TASK_ASSIGNED, some 7), (5, .TASK_ASSIGNED, some 7)] := by
  decide +kernel

/-- Attempts that fail before the delivery do no harm. -/
theorem delivered_once_retried :
    ((worker .strict [(.inApp : Channel Empty)]).serveAll
      (attempts assigned [attempt 0 .failed, attempt 10 .failed, attempt 20 .lost]) ⟨oneUser, [], []⟩).2.took.count 0 ≤ 1 :=
  ((delivered_once_iff .strict [.inApp] assigned [attempt 0 .failed, attempt 10 .failed, attempt 20 .lost] oneUser
    (fun _ hr => absurd hr List.not_mem_nil) (by decide +kernel)).mpr (fun _ _ _ => by decide)).1 0

end TaskPlatform.Notifications

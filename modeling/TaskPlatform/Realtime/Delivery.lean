import TaskPlatform.Realtime.Cluster

/-! How often a socket receives a notification: once for each API process. -/

namespace TaskPlatform.Realtime
open Notifications NotificationsGateway Finset

variable {n : Nat} {c d : Cluster n} {ms : List (Move n)} {m : Move n} {i : Fin n} {k : Socket} {e : Room × Payload}

/-! ### The parts of the state -/

theorem set_api (a : Api) (j : Fin n) : (c.set i a).api j = if j = i then a else c.api j := Function.update_apply ..

/-- A part of every process that the new value of one process shares with the old one is as before. -/
theorem set_same {β : Type} (f : Api → β) (c : Cluster n) (i : Fin n) {a : Api} (h : f a = f (c.api i)) (j : Fin n) :
    f ((c.set i a).api j) = f (c.api j) := by
  rw [set_api]
  split
  · next heq => rw [heq, h]
  · rfl

theorem created_append : created (ms ++ [m]) = created ms ++ m.created?.toList := by
  rw [created, List.filterMap_append]
  cases h : m.created? <;> simp [created, h]

/-- A socket gets a packet that is for its room. -/
theorem count_deliver (a : Api) (e' : Room × Payload) (y : Payload) :
    (a.deliver e').count (k, y) = if e' = (joined k, y) then a.sockets.count k else 0 := by
  obtain ⟨r, z⟩ := e'
  by_cases hz : z = y
  · subst hz
    have hinj : Function.Injective fun k : Socket => (k, z) := fun _ _ h => (Prod.mk.inj h).1
    rw [Api.deliver, List.count_map_of_injective _ _ hinj]
    by_cases hr : joined k = r
    · rw [List.count_filter (by simpa using hr), if_pos (by rw [hr])]
    · rw [if_neg fun h => hr (Prod.mk.inj h).1.symm]
      exact List.count_eq_zero.mpr fun hk => hr (of_decide_eq_true (List.mem_filter.mp hk).2)
  · rw [if_neg fun h => hz (Prod.mk.inj h).2]
    refine List.count_eq_zero.mpr fun hk => ?_
    obtain ⟨l, -, hl⟩ := List.mem_map.mp hk
    exact hz (Prod.mk.inj hl).2

/-- A sum that changes in one place. -/
theorem sum_change {f g : Fin n → Nat} (h : ∀ j, j ≠ i → f j = g j) : ∑ j, f j + g i = ∑ j, g j + f i := by
  have hrest : ∑ j ∈ univ.erase i, f j = ∑ j ∈ univ.erase i, g j :=
    sum_congr rfl fun j hj => h j (ne_of_mem_erase hj)
  rw [← add_sum_erase _ f (mem_univ i), ← add_sum_erase _ g (mem_univ i), hrest]
  omega

/-! ### What arrives was created -/

structure Sound (ms : List (Move n)) (c : Cluster n) : Prop where
  messages : ∀ j, ∀ x ∈ (c.api j).messages, x ∈ created ms
  packets : ∀ j, ∀ e ∈ (c.api j).packets, ∃ x ∈ created ms, pushNotification x = e
  received : ∀ r ∈ c.received, ∃ x ∈ created ms, pushNotification x = (joined r.1, r.2)

theorem Sound.grow {ms' : List (Move n)} (h : Sound ms c) (sub : created ms ⊆ created ms') : Sound ms' c where
  messages j x hx := sub (h.messages j x hx)
  packets j e he := (h.packets j e he).imp fun _ => And.imp_left fun hx => sub hx
  received r hr := (h.received r hr).imp fun _ => And.imp_left fun hx => sub hx

/-- A process that loses messages and packets. -/
theorem Sound.set {a : Api} (h : Sound ms c) (messages : a.messages ⊆ (c.api i).messages)
    (packets : a.packets ⊆ (c.api i).packets) : Sound ms (c.set i a) where
  messages j x hx := by
    rw [set_api] at hx
    split at hx
    · exact h.messages i x (messages hx)
    · exact h.messages j x hx
  packets j e he := by
    rw [set_api] at he
    split at he
    · exact h.packets i e (packets he)
    · exact h.packets j e he
  received := h.received

theorem Sound.step (h : Sound ms c) (hs : step c m = some d) : Sound (ms ++ [m]) d := by
  have hgrow : Sound (ms ++ [m]) c := h.grow (created_append ▸ List.subset_append_left ..)
  cases m with
  | connect i id verified =>
    rw [Realtime.step] at hs
    split at hs
    · cases hs
    · cases hs
      have hset := hgrow.set (i := i)
        (a := { c.api i with sockets := (c.api i).sockets ++ (handleConnection id verified).toList })
        (List.Subset.refl _) (List.Subset.refl _)
      exact ⟨hset.messages, hset.packets, hset.received⟩
  | disconnect i id =>
    cases hs
    exact hgrow.set (List.Subset.refl _) (List.Subset.refl _)
  | create x =>
    cases hs
    refine { hgrow with messages := fun j y hy => ?_ }
    rcases List.mem_append.mp hy with hy | hy
    · exact hgrow.messages j y hy
    · rw [created_append]
      exact List.mem_append_right _ hy
  | message i =>
    rw [Realtime.step] at hs
    split at hs
    · cases hs
    · next x rest hx =>
      cases hs
      have hset := hgrow.set (i := i) (a := { c.api i with messages := rest })
        (hx ▸ List.subset_cons_of_subset _ (List.Subset.refl _)) (List.Subset.refl _)
      refine { hset with packets := fun j e he => ?_ }
      rcases List.mem_append.mp he with he | he
      · exact hset.packets j e he
      · exact ⟨x, hgrow.messages i x (hx ▸ List.mem_cons_self ..), (List.mem_singleton.mp he).symm⟩
  | packet i =>
    rw [Realtime.step] at hs
    split at hs
    · cases hs
    · next e rest he =>
      cases hs
      have hset := hgrow.set (i := i) (a := { c.api i with packets := rest }) (List.Subset.refl _)
        (he ▸ List.subset_cons_of_subset _ (List.Subset.refl _))
      refine { hset with received := fun r hr => ?_ }
      rcases List.mem_append.mp hr with hr | hr
      · exact hset.received r hr
      · obtain ⟨k, hk, rfl⟩ := List.mem_map.mp hr
        obtain ⟨x, hx, hpush⟩ := hgrow.packets i e (he ▸ List.mem_cons_self ..)
        exact ⟨x, hx, by rw [hpush, of_decide_eq_true (List.mem_filter.mp hk).2]⟩

/-! ### Where the sockets are -/

/-- A socket has an id of its own, which no later one gets. -/
structure Placed (c : Cluster n) : Prop where
  known : ∀ j, ∀ k ∈ (c.api j).sockets, k.id ∈ c.ids
  nodup : ∀ j, (c.api j).sockets.Nodup
  apart : ∀ i j, ∀ k ∈ (c.api i).sockets, ∀ l ∈ (c.api j).sockets, k.id = l.id → i = j ∧ k = l

theorem placed_start (p : Placement n) : Placed p.start where
  known i _ hk := List.mem_flatMap.mpr ⟨i, List.mem_finRange i, List.mem_map_of_mem hk⟩
  nodup := p.nodup
  apart := p.apart

/-- The sockets of a process after a socket of it has gone. -/
theorem Placed.fewer {l : List Socket} (h : Placed c) (sub : l.Sublist (c.api i).sockets) :
    Placed (c.set i { c.api i with sockets := l }) := by
  have hsub : ∀ j, ((c.set i { c.api i with sockets := l }).api j).sockets.Sublist (c.api j).sockets := by
    intro j
    rw [set_api]
    split
    · next heq => exact heq ▸ sub
    · exact List.Sublist.refl _
  exact ⟨fun j k hk => h.known j k ((hsub j).subset hk), fun j => (h.nodup j).sublist (hsub j),
    fun j j' k hk l hl => h.apart j j' k ((hsub j).subset hk) l ((hsub j').subset hl)⟩

theorem Placed.connect (h : Placed c) {id : Nat} (fresh : id ∉ c.ids) (verified : Option Uuid) :
    Placed { c.set i { c.api i with sockets := (c.api i).sockets ++ (handleConnection id verified).toList } with
      ids := id :: c.ids } := by
  have hnew : ∀ k ∈ (handleConnection id verified).toList, k.id = id := by
    intro k hk
    cases verified with
    | none => cases hk
    | some sub => rw [List.mem_singleton.mp hk]
  have hmem : ∀ j, ∀ k ∈ ((c.set i { c.api i with
      sockets := (c.api i).sockets ++ (handleConnection id verified).toList }).api j).sockets,
      k ∈ (c.api j).sockets ∨ j = i ∧ k ∈ (handleConnection id verified).toList := by
    intro j k hk
    rw [set_api] at hk
    split at hk
    · next heq => exact (List.mem_append.mp hk).imp (fun hk => heq ▸ hk) fun hk => ⟨heq, hk⟩
    · exact Or.inl hk
  have hone : ∀ k ∈ (handleConnection id verified).toList, ∀ l ∈ (handleConnection id verified).toList, k = l := by
    intro k hk l hl
    cases verified with
    | none => cases hk
    | some sub => rw [List.mem_singleton.mp hk, List.mem_singleton.mp hl]
  have hold : ∀ j, ∀ k ∈ (c.api j).sockets, k.id ≠ id := fun j k hk heq => fresh (heq ▸ h.known j k hk)
  refine ⟨fun j k hk => ?_, fun j => ?_, fun j j' k hk l hl hid => ?_⟩
  · rcases hmem j k hk with hk | ⟨-, hk⟩
    · exact List.mem_cons_of_mem _ (h.known j k hk)
    · rw [hnew k hk]
      exact List.mem_cons_self ..
  · show ((c.set i _).api j).sockets.Nodup
    rw [set_api]
    split
    · refine List.nodup_append'.mpr ⟨h.nodup i, ?_, fun k hk hk' => hold i k hk (hnew k hk')⟩
      cases verified with
      | none => exact List.nodup_nil
      | some sub => exact List.nodup_singleton _
    · exact h.nodup j
  · rcases hmem j k hk with hk₁ | ⟨hj, hk₁⟩ <;> rcases hmem j' l hl with hl₁ | ⟨hj', hl₁⟩
    · exact h.apart j j' k hk₁ l hl₁ hid
    · exact absurd (hid.trans (hnew l hl₁)) (hold j k hk₁)
    · exact absurd (hid.symm.trans (hnew k hk₁)) (hold j' l hl₁)
    · exact ⟨hj.trans hj'.symm, hone k hk₁ l hl₁⟩

theorem Placed.step (h : Placed c) (hs : step c m = some d) : Placed d := by
  cases m with
  | connect i id verified =>
    rw [Realtime.step] at hs
    split at hs
    · cases hs
    · next hfresh =>
      cases hs
      exact h.connect hfresh verified
  | disconnect i id =>
    cases hs
    exact h.fewer List.filter_sublist
  | create x =>
    cases hs
    exact ⟨h.known, h.nodup, h.apart⟩
  | message i =>
    rw [Realtime.step] at hs
    split at hs
    · cases hs
    · next x rest hx =>
      cases hs
      have hsame := set_same Api.sockets c i (a := { c.api i with messages := rest }) rfl
      have hsockets : ∀ j, ((RealtimeSubscriber.handleMessage x (c.set i { c.api i with messages := rest })).api j).sockets =
          (c.api j).sockets := hsame
      exact ⟨fun j => (hsockets j).symm ▸ h.known j, fun j => (hsockets j).symm ▸ h.nodup j,
        fun j j' => (hsockets j).symm ▸ (hsockets j').symm ▸ h.apart j j'⟩
  | packet i =>
    rw [Realtime.step] at hs
    split at hs
    · cases hs
    · next e rest he =>
      cases hs
      have hsockets := set_same Api.sockets c i (a := { c.api i with packets := rest }) rfl
      exact ⟨fun j => (hsockets j).symm ▸ h.known j, fun j => (hsockets j).symm ▸ h.nodup j,
        fun j j' => (hsockets j).symm ▸ (hsockets j').symm ▸ h.apart j j'⟩

/-! ### How often it arrives -/

/-- The messages that will be emitted to the room with the payload. -/
def Cluster.coming (c : Cluster n) (e : Room × Payload) : Nat :=
  ∑ j, ((c.api j).messages.map pushNotification).count e

/-- A socket that is connected in the process `i`, and how often something for its room was or will be received. -/
structure Counted (i : Fin n) (k : Socket) (y : Payload) (ms : List (Move n)) (c : Cluster n) : Prop where
  here : ∀ j, (c.api j).sockets.count k = if j = i then 1 else 0
  known : k.id ∈ c.ids
  count : c.received.count (k, y) + (c.api i).packets.count (joined k, y) + c.coming (joined k, y) =
    n * ((created ms).map pushNotification).count (joined k, y)

section
variable {y : Payload}

/-- Other sockets come and go without a difference. -/
theorem Counted.sockets {l : List Socket} {j : Fin n} (h : Counted i k y ms c)
    (same : l.count k = (c.api j).sockets.count k) (created_eq : created (ms ++ [m]) = created ms) :
    Counted i k y (ms ++ [m]) (c.set j { c.api j with sockets := l }) where
  here j' := (set_same (fun a => a.sockets.count k) c j same j').trans (h.here j')
  known := h.known
  count := by
    let a : Api := { c.api j with sockets := l }
    have hpackets := set_same (fun a => a.packets) c j (a := a) rfl i
    have hcoming : (c.set j a).coming (joined k, y) = c.coming (joined k, y) :=
      sum_congr rfl fun j' _ => set_same (fun a => (a.messages.map pushNotification).count (joined k, y)) c j (a := a) rfl j'
    rw [created_eq, hcoming, hpackets]
    exact h.count

theorem coming_publish (x : Notification) (e : Room × Payload) :
    (RealtimePublisher.publish x c).coming e = c.coming e + n * [pushNotification x].count e := by
  simp [Cluster.coming, RealtimePublisher.publish, sum_add_distrib]

/-- A message that is handled is no longer to come. -/
theorem coming_set {x : Notification} {a : Api} (hx : (c.api i).messages = x :: a.messages) (e : Room × Payload) :
    c.coming e = (c.set i a).coming e + [pushNotification x].count e := by
  have hsum := sum_change (i := i) (f := fun j => ((c.api j).messages.map pushNotification).count e)
    (g := fun j => (((c.set i a).api j).messages.map pushNotification).count e) fun j hj => by rw [set_api, if_neg hj]
  have hi : (c.set i a).api i = a := (set_api a i).trans (if_pos rfl)
  simp only [hi, hx, List.map_cons, List.count_cons, List.count_nil] at hsum ⊢
  simp only [Cluster.coming]
  omega

/-- A new socket is none that was there before. -/
theorem not_mem_connected {id : Nat} (fresh : id ∉ c.ids) (known : k.id ∈ c.ids) (verified : Option Uuid) :
    k ∉ (handleConnection id verified).toList := by
  intro hk
  cases verified with
  | none => cases hk
  | some sub =>
    rw [List.mem_singleton.mp hk] at known
    exact fresh known

theorem Counted.step (h : Counted i k y ms c) (stays : m ≠ .disconnect i k.id) (hs : step c m = some d) :
    Counted i k y (ms ++ [m]) d := by
  cases m with
  | connect j id verified =>
    rw [Realtime.step] at hs
    split at hs
    · cases hs
    · next hfresh =>
      cases hs
      have hsockets := h.sockets (j := j) (m := .connect j id verified)
        (l := (c.api j).sockets ++ (handleConnection id verified).toList) ?_ (created_append.trans (List.append_nil _))
      · exact ⟨hsockets.here, List.mem_cons_of_mem _ h.known, hsockets.count⟩
      · rw [List.count_append, Nat.add_eq_left]
        exact List.count_eq_zero.mpr (not_mem_connected hfresh h.known verified)
  | disconnect j id =>
    cases hs
    refine h.sockets ?_ (created_append.trans (List.append_nil _))
    by_cases hj : j = i
    · exact List.count_filter (decide_eq_true fun hid => stays (by rw [hj, hid]))
    · have hnone : (c.api j).sockets.count k = 0 := by rw [h.here, if_neg hj]
      rw [hnone]
      exact Nat.le_zero.mp (hnone ▸ List.filter_sublist.count_le k)
  | create x =>
    cases hs
    refine ⟨h.here, h.known, ?_⟩
    rw [coming_publish, created_append, List.map_append, List.count_append, Nat.mul_add, ← h.count]
    exact (Nat.add_assoc ..).symm
  | message j =>
    rw [Realtime.step] at hs
    split at hs
    · cases hs
    · next x rest hx =>
      cases hs
      let a : Api := { c.api j with messages := rest }
      have hpackets := set_same (fun a => a.packets) c j (a := a) rfl i
      have hcreated : created (ms ++ [.message j]) = created ms := created_append.trans (List.append_nil _)
      refine ⟨fun j' => (set_same (fun a => a.sockets.count k) c j (a := a) rfl j').trans (h.here j'), h.known, ?_⟩
      show c.received.count (k, y) + (((c.set j a).api i).packets ++ [pushNotification x]).count (joined k, y) +
        (c.set j a).coming (joined k, y) = _
      rw [hcreated, ← h.count, coming_set (a := a) hx, hpackets, List.count_append]
      omega
  | packet j =>
    rw [Realtime.step] at hs
    split at hs
    · cases hs
    · next e rest he =>
      cases hs
      let a : Api := { c.api j with packets := rest }
      have hcreated : created (ms ++ [.packet j]) = created ms := created_append.trans (List.append_nil _)
      have hcoming : (c.set j a).coming (joined k, y) = c.coming (joined k, y) :=
        sum_congr rfl fun j' _ => set_same (fun a => (a.messages.map pushNotification).count (joined k, y)) c j (a := a) rfl j'
      refine ⟨fun j' => (set_same (fun a => a.sockets.count k) c j (a := a) rfl j').trans (h.here j'), h.known, ?_⟩
      show (c.received ++ (c.api j).deliver e).count (k, y) + ((c.set j a).api i).packets.count (joined k, y) +
        (c.set j a).coming (joined k, y) = _
      rw [hcreated, ← h.count, hcoming, List.count_append, count_deliver, h.here, set_api]
      by_cases hj : j = i
      · subst hj
        have hrest : a.packets = rest := rfl
        rw [he, List.count_cons, if_pos rfl, if_pos rfl, hrest]
        simp only [beq_iff_eq]
        omega
      · rw [if_neg hj, if_neg (Ne.symm hj), ite_self, Nat.add_zero]

/-- The socket has received what it was sent of the payload, and nothing more of it is on its way. -/
structure Settled (i : Fin n) (k : Socket) (y : Payload) (total : Nat) (c : Cluster n) : Prop where
  elsewhere : ∀ j, j ≠ i → k ∉ (c.api j).sockets
  known : k.id ∈ c.ids
  coming : c.coming (joined k, y) = 0
  packets : (joined k, y) ∉ (c.api i).packets
  count : c.received.count (k, y) = total

/-- A process gets other sockets, but not this one. -/
theorem Settled.sockets {total : Nat} {l : List Socket} {j : Fin n} (h : Settled i k y total c)
    (sub : j ≠ i → k ∉ l) : Settled i k y total (c.set j { c.api j with sockets := l }) where
  elsewhere j' hj' := by
    rw [set_api]
    split
    · next heq => exact sub (heq ▸ hj')
    · exact h.elsewhere j' hj'
  known := h.known
  coming := (sum_congr rfl fun j' _ => set_same (fun a => (a.messages.map pushNotification).count (joined k, y)) c j
    (a := { c.api j with sockets := l }) rfl j').trans h.coming
  packets := by
    rw [set_same Api.packets c j (a := { c.api j with sockets := l }) rfl i]
    exact h.packets
  count := h.count

theorem Settled.step {total : Nat} (h : Settled i k y total c)
    (other : ∀ x, m = .create x → pushNotification x ≠ (joined k, y)) (hs : step c m = some d) : Settled i k y total d := by
  cases m with
  | connect j id verified =>
    rw [Realtime.step] at hs
    split at hs
    · cases hs
    · next hfresh =>
      cases hs
      have hsockets := h.sockets (j := j) (l := (c.api j).sockets ++ (handleConnection id verified).toList) fun hj hk => ?_
      · exact ⟨hsockets.elsewhere, List.mem_cons_of_mem _ h.known, hsockets.coming, hsockets.packets, hsockets.count⟩
      · rcases List.mem_append.mp hk with hk | hk
        · exact h.elsewhere j hj hk
        · exact not_mem_connected hfresh h.known verified hk
  | disconnect j id =>
    cases hs
    exact h.sockets fun hj hk => h.elsewhere j hj (List.mem_of_mem_filter hk)
  | create x =>
    cases hs
    refine { h with coming := ?_ }
    rw [coming_publish, h.coming, List.count_singleton, if_neg (by simpa using other x rfl)]
    rfl
  | message j =>
    rw [Realtime.step] at hs
    split at hs
    · cases hs
    · next x rest hx =>
      cases hs
      let a : Api := { c.api j with messages := rest }
      have hcoming := (coming_set (a := a) hx (joined k, y)).symm.trans h.coming
      have hother : pushNotification x ≠ (joined k, y) := fun heq => by
        rw [heq, List.count_singleton_self] at hcoming
        omega
      refine ⟨fun j' hj' => ?_, h.known, ?_, ?_, h.count⟩
      · exact (set_same Api.sockets c j (a := a) rfl j').symm ▸ h.elsewhere j' hj'
      · exact (Nat.add_eq_zero_iff.mp hcoming).1
      · show _ ∉ ((c.set j a).api i).packets ++ [pushNotification x]
        rw [set_same Api.packets c j (a := a) rfl i]
        exact fun hmem => (List.mem_append.mp hmem).elim h.packets fun he => hother (List.mem_singleton.mp he).symm
  | packet j =>
    rw [Realtime.step] at hs
    split at hs
    · cases hs
    · next e rest he =>
      cases hs
      let a : Api := { c.api j with packets := rest }
      refine ⟨fun j' hj' => ?_, h.known, ?_, ?_, ?_⟩
      · exact (set_same Api.sockets c j (a := a) rfl j').symm ▸ h.elsewhere j' hj'
      · exact (sum_congr rfl fun j' _ => set_same (fun a => (a.messages.map pushNotification).count (joined k, y)) c j
          (a := a) rfl j').trans h.coming
      · show _ ∉ ((c.set j a).api i).packets
        rw [set_api]
        split
        · next heq => exact fun hmem => h.packets (heq ▸ he ▸ List.mem_cons_of_mem _ hmem)
        · exact h.packets
      · show (c.received ++ (c.api j).deliver e).count (k, y) = total
        rw [List.count_append, count_deliver, h.count]
        split
        · next heq =>
          have hj : j ≠ i := fun hj => h.packets (hj ▸ he ▸ heq ▸ List.mem_cons_self ..)
          rw [List.count_eq_zero.mpr (h.elsewhere j hj)]
          rfl
        · rfl

end

/-! ### A whole run -/

section
variable {p : Placement n}

theorem sound_run (hr : Trace.run step p.start ms = some d) : Sound ms d :=
  Trace.run_induction (P := Sound)
    ⟨fun _ _ hx => absurd hx List.not_mem_nil, fun _ _ he => absurd he List.not_mem_nil, fun _ hr => absurd hr List.not_mem_nil⟩
    (fun _ h hs => h.step hs) hr

theorem placed_run (hr : Trace.run step p.start ms = some d) : Placed d :=
  Trace.run_keeps (fun (_ : True) h hs => h.step hs) (fun _ _ => trivial) (placed_start p) hr

/-- With distinct ids, one created notification has the payload. -/
theorem count_push (ids : ((created ms).map Notification.id).Nodup) {x : Notification} (hx : x ∈ created ms) (r : Room) :
    ((created ms).map pushNotification).count (r, payload x) = if r = room x.recipientId then 1 else 0 := by
  have hone : ∀ z ∈ created ms, payload z = payload x → z = x := fun z hz h =>
    List.inj_on_of_nodup_map ids hz hx (congrArg Payload.id h)
  split
  · next hroom =>
    have hnodup : ((created ms).map pushNotification).Nodup :=
      List.Nodup.of_map (fun e => e.2.id) (by rwa [List.map_map])
    rw [hroom]
    exact List.count_eq_one_of_mem hnodup (List.mem_map_of_mem hx)
  · next hroom =>
    refine List.count_eq_zero.mpr fun hmem => hroom ?_
    obtain ⟨z, hz, hpush⟩ := List.mem_map.mp hmem
    obtain ⟨hr, hp⟩ := Prod.mk.inj hpush
    rw [← hr, hone z hz hp]

/-- Before a payload is pushed for the first time, a socket of the process has none of it, and none is on its way. -/
theorem counted_new (hr : Trace.run step p.start ms = some c) (hk : k ∈ (c.api i).sockets) {y : Payload}
    (new : ∀ z ∈ created ms, payload z ≠ y) : Counted i k y ms c := by
  have hsound := sound_run hr
  have hplaced := placed_run hr
  have hnew : ∀ z ∈ created ms, pushNotification z ≠ (joined k, y) := fun z hz heq => new z hz (congrArg Prod.snd heq)
  have hcreated : ((created ms).map pushNotification).count (joined k, y) = 0 := by
    refine List.count_eq_zero.mpr fun hmem => ?_
    obtain ⟨z, hz, heq⟩ := List.mem_map.mp hmem
    exact hnew z hz heq
  have hreceived : c.received.count (k, y) = 0 := by
    refine List.count_eq_zero.mpr fun hmem => ?_
    obtain ⟨z, hz, heq⟩ := hsound.received _ hmem
    exact hnew z hz heq
  have hpackets : (c.api i).packets.count (joined k, y) = 0 := by
    refine List.count_eq_zero.mpr fun hmem => ?_
    obtain ⟨z, hz, heq⟩ := hsound.packets i _ hmem
    exact hnew z hz heq
  have hcoming : c.coming (joined k, y) = 0 := by
    refine sum_eq_zero fun j _ => List.count_eq_zero.mpr fun hmem => ?_
    obtain ⟨z, hz, heq⟩ := List.mem_map.mp hmem
    exact hnew z (hsound.messages j z hz) heq
  refine ⟨fun j => ?_, hplaced.known i k hk, by rw [hreceived, hpackets, hcoming, hcreated, Nat.mul_zero]⟩
  split
  · next heq => exact heq ▸ List.count_eq_one_of_mem (hplaced.nodup i) hk
  · next hne => exact List.count_eq_zero.mpr fun hj => hne (hplaced.apart i j k hk k hj rfl).1.symm

/-- A socket that is connected from the creation of a notification until its arrival receives it once for each API
    process, if it is in the room. -/
theorem received_count (hr : Trace.run step p.start ms = some d) (ids : ((created ms).map Notification.id).Nodup)
    {x : Notification} (connected : p.Connected ms x k) :
    d.received.count (k, payload x) = if joined k = room x.recipientId then n else 0 := by
  obtain ⟨before, during, after, c, c', i, rfl, hbefore, hk, hstays, hduring, hmessages, hpackets⟩ := connected
  have hcreated : created (before ++ .create x :: (during ++ after)) =
      created before ++ x :: (created during ++ created after) := by
    simp [created, Move.created?]
  rw [hcreated, List.map_append, List.map_cons, List.map_append] at ids
  -- Nothing that is created before or after has the id.
  have hnew : ∀ z ∈ created before, payload z ≠ payload x := fun z hz heq =>
    (List.nodup_append.mp ids).2.2 _ (List.mem_map_of_mem hz) _ (List.mem_cons_self ..) (congrArg Payload.id heq)
  have hlater : ∀ z ∈ created after, payload z ≠ payload x := fun z hz heq => by
    have hid : z.id = x.id := congrArg Payload.id heq
    exact (List.nodup_cons.mp (List.nodup_append.mp ids).2.1).1 (List.mem_append_right _ (hid ▸ List.mem_map_of_mem hz))
  have hrun : Trace.run step p.start (before ++ .create x :: during) = some c' := Trace.run_append.mpr ⟨c, hbefore, hduring⟩
  have hids : ((created (before ++ .create x :: during)).map Notification.id).Nodup := by
    have hcreated' : created (before ++ .create x :: during) = created before ++ x :: created during := by
      simp [created, Move.created?]
    rw [hcreated', List.map_append, List.map_cons]
    refine ids.sublist (List.Sublist.append (List.Sublist.refl _) (List.Sublist.cons_cons _ ?_))
    exact List.sublist_append_left ..
  have hx : x ∈ created (before ++ .create x :: during) := by simp [created, Move.created?]
  have hcounted : Counted i k (payload x) (before ++ .create x :: during) c' := by
    refine Trace.run_induction
      (P := fun ms' t => (∀ m ∈ ms', m ≠ .disconnect i k.id) → Counted i k (payload x) (before ++ ms') t)
      (fun _ => ?_) ?_ hduring fun m hm heq => ?_
    · exact (List.append_nil before).symm ▸ counted_new hbefore hk hnew
    · intro ms' m t t' _ h hs hne
      have hms := List.forall_mem_append.mp hne
      rw [← List.append_assoc]
      exact (h hms.1).step (hms.2 m (List.mem_singleton_self m)) hs
    · rcases List.mem_cons.mp hm with rfl | hm
      · cases heq
      · exact hstays (heq ▸ hm)
  have hsound := sound_run hrun
  -- What is on its way with the payload would be the notification itself.
  have hself : ∀ z ∈ created (before ++ .create x :: during), pushNotification z = (joined k, payload x) → z = x :=
    fun z hz heq => List.inj_on_of_nodup_map hids hz hx (congrArg (fun e : Room × Payload => e.2.id) heq)
  have hsettled : Settled i k (payload x) (if joined k = room x.recipientId then n else 0) c' := by
    have hcoming : c'.coming (joined k, payload x) = 0 := by
      refine sum_eq_zero fun j _ => List.count_eq_zero.mpr fun hmem => ?_
      obtain ⟨z, hz, heq⟩ := List.mem_map.mp hmem
      exact hmessages j (hself z (hsound.messages j z hz) heq ▸ hz)
    have hpackets : (joined k, payload x) ∉ (c'.api i).packets := fun hmem => by
      obtain ⟨z, hz, heq⟩ := hsound.packets i _ hmem
      exact hpackets (hself z hz heq ▸ heq ▸ hmem)
    refine ⟨fun j hj => List.count_eq_zero.mp ((hcounted.here j).trans (if_neg hj)), hcounted.known, hcoming, hpackets, ?_⟩
    have hcount := hcounted.count
    rw [hcoming, List.count_eq_zero.mpr hpackets, count_push hids hx] at hcount
    simpa [mul_ite] using hcount
  obtain ⟨t, ht, hafter⟩ := Trace.run_append.mp ((List.append_assoc before (.create x :: during) after) ▸ hr)
  obtain rfl := Option.some.inj (hrun.symm.trans ht)
  have hkeep : ∀ {t m t'}, (∀ z, m = .create z → pushNotification z ≠ (joined k, payload x)) →
      Settled i k (payload x) (if joined k = room x.recipientId then n else 0) t → step t m = some t' →
      Settled i k (payload x) (if joined k = room x.recipientId then n else 0) t' := fun hok h hs => h.step hok hs
  refine (Trace.run_keeps hkeep ?_ hsettled hafter).count
  rintro _ hm z rfl heq
  exact hlater z (List.mem_filterMap.mpr ⟨_, hm, rfl⟩) (congrArg Prod.snd heq)

end

/-- In every run in which the created notifications have distinct ids, every socket of the recipient that is connected from
    the creation of a notification until its arrival receives it exactly once and nobody else does, exactly if there is one
    API process and the id of the recipient is written as the database writes it, or the recipient has no such socket. -/
theorem received_once_iff (n : Nat) (p : Placement n) (ms : List (Move n)) (d : Cluster n)
    (hr : Trace.run step p.start ms = some d) (ids : ((created ms).map Notification.id).Nodup)
    (x : Notification) (hx : x ∈ created ms) :
    ((∀ k, p.Connected ms x k → k.userId = x.recipientId.uuid → d.received.count (k, payload x) = 1) ∧
      ∀ r ∈ d.received, r.2 = payload x → r.1.userId = x.recipientId.uuid) ↔
    n = 1 ∧ x.recipientId = x.recipientId.uuid.text ∨ ∀ k, p.Connected ms x k → k.userId ≠ x.recipientId.uuid := by
  have hcount : ∀ k, p.Connected ms x k → k.userId = x.recipientId.uuid →
      d.received.count (k, payload x) = if x.recipientId = x.recipientId.uuid.text then n else 0 := by
    intro k hk huser
    rw [received_count hr ids hk, joined, huser]
    simp only [room, Room.mk.injEq, eq_comm (a := x.recipientId.uuid.text)]
  have hown : ∀ r ∈ d.received, r.2 = payload x → r.1.userId = x.recipientId.uuid := by
    rintro ⟨k, y⟩ hmem rfl
    obtain ⟨z, hz, hpush⟩ := (sound_run hr).received _ hmem
    obtain ⟨hroom, hpayload⟩ := Prod.mk.inj hpush
    obtain rfl := List.inj_on_of_nodup_map ids hz hx (congrArg Payload.id hpayload)
    exact (congrArg (fun r : Room => r.userId.uuid) hroom).symm
  constructor
  · rintro ⟨honce, -⟩
    by_cases hsocket : ∀ k, p.Connected ms x k → k.userId ≠ x.recipientId.uuid
    · exact Or.inr hsocket
    · obtain ⟨k, hk, huser⟩ := by simpa only [not_forall, not_not, exists_prop] using hsocket
      have := (hcount k hk huser).symm.trans (honce k hk huser)
      split at this
      · next htext => exact Or.inl ⟨this, htext⟩
      · cases this
  · rintro (⟨hn, htext⟩ | hnone)
    · exact ⟨fun k hk huser => by rw [hcount k hk huser, if_pos htext, hn], hown⟩
    · exact ⟨fun k hk huser => absurd huser (hnone k hk), hown⟩

/-! ### Two API processes -/

def greeting : Notification :=
  ⟨50, Uuid.text 7, .TASK_ASSIGNED, "You were assigned a task", none, some "task", some (Uuid.text 10), none, false, none,
   .epoch⟩

/-- No socket is connected yet. -/
def noSocket (n : Nat) : Placement n where
  sockets _ := []
  nodup _ := List.nodup_nil
  apart _ _ _ hk := absurd hk List.not_mem_nil

/-- User 7 connects, the notification is created, everything that is under way arrives, and the user disconnects. -/
def oneProcess : List (Move 1) := [.connect 0 1 (some 7), .create greeting, .message 0, .packet 0, .disconnect 0 1]

def twoProcesses : List (Move 2) :=
  [.connect 0 1 (some 7), .create greeting, .message 0, .message 1, .packet 0, .packet 0, .disconnect 0 1, .packet 1, .packet 1]

theorem received_once_one : ∃ d, Trace.run step (noSocket 1).start oneProcess = some d ∧
    d.received.count (⟨1, 7⟩, payload greeting) = 1 := by
  have hconnected : (noSocket 1).Connected oneProcess greeting ⟨1, 7⟩ :=
    ⟨[.connect 0 1 (some 7)], [.message 0, .packet 0], [.disconnect 0 1], _, _, 0, rfl, rfl, .head _, by decide, rfl,
      by decide, by decide⟩
  refine ⟨_, rfl, ?_⟩
  exact ((received_once_iff 1 (noSocket 1) oneProcess _ rfl (by decide) greeting (.head _)).mpr (Or.inl ⟨rfl, rfl⟩)).1
    ⟨1, 7⟩ hconnected rfl

/-- The socket receives the notification twice. -/
theorem received_twice : ∃ d, Trace.run step (noSocket 2).start twoProcesses = some d ∧
    (noSocket 2).Connected twoProcesses greeting ⟨1, 7⟩ ∧ greeting.recipientId = Uuid.text 7 ∧
    d.received.count (⟨1, 7⟩, payload greeting) ≠ 1 := by
  have hconnected : (noSocket 2).Connected twoProcesses greeting ⟨1, 7⟩ :=
    ⟨[.connect 0 1 (some 7)], [.message 0, .message 1, .packet 0, .packet 0], [.disconnect 0 1, .packet 1, .packet 1],
      _, _, 0, rfl, rfl, .head _, by decide, rfl, by decide, by decide⟩
  exact ⟨_, rfl, hconnected, rfl, by decide +kernel⟩

end TaskPlatform.Realtime

import Mathlib.Order.Hom.Lattice
import TaskPlatform.Board.Removals
import TaskPlatform.Platform.Authority

/-! Who deletes what, in every run of the platform: a row of a board disappears only where somebody who may delete it has
    asked to delete it, or what it is in, on or below; and with it goes all that was asked for, and nothing else. -/

namespace TaskPlatform.Platform
open Effects Workspaces

/-! ### The contract -/

/-- A request of the board as the guards pass it on: for its user, with a role that the user has held. -/
def Grants.Passes (k : Grants) (r : Request) (b : Board.Request) : Prop :=
  ∃ p u o role, r = .board p u o ∧ k.Held o.workspaceId.uuid u role ∧ b = ⟨o.workspaceId, Operation.by u role o.operation⟩

theorem Grants.Passes.grow {k k' : Grants} {r : Request} {b : Board.Request} (h : k.Passes r b) (hk : k ≤ k') :
    k'.Passes r b :=
  let ⟨p, u, o, role, hr, hheld, hb⟩ := h
  ⟨p, u, o, role, hr, hheld.grow hk, hb⟩

/-- A call on the board is by a request that the guards passed on, and keeps its contract. -/
def Call.passed (k : Board.Knowledge × Grants) (r : Request) : Call → Prop
  | .reminders (.board c) => ∃ b, k.2.Passes r b ∧ b.pre k.1 c ∧ b.names c
  | _ => True

/-- What is known of the rows and of the grants, for the requests of the board. -/
def passing (r : Request) : Contract interface (Board.Knowledge × Grants) where
  pre k := Call.passed k r
  post k c a := Call.learned k.1 c a ∧ k.2.tells c a
  alike _ _ _ := False
  grows {k k' c} hk h := by
    unfold Call.passed at h ⊢
    split
    · obtain ⟨b, hb, hpre, hnames⟩ := h
      exact ⟨b, hb.grow hk.2, (Board.contract b).grows hk.1 hpre, hnames⟩
    · trivial

/-- The same, for all requests. -/
def deleting (r : Request) : Contract interface (Board.Knowledge × Grants) :=
  (passing r).and ((permitting r).within OrderHom.snd)

section
variable {out : Access.Outside} {pg : Postgres} {queue : Bool} {k : Board.Knowledge × Grants} {r : Request} {α : Type}

/-! ### Programs -/

theorem passed_aside {c : Call} (h : c.onBoard = false) : Call.passed k r c := by
  unfold Call.passed
  split
  · cases h
  · trivial

theorem aside_passing {p : Service α} (h : p.Calls (Call.onBoard · = false)) :
    p.Meets (passing r) (fun _ _ => True) k :=
  Prog.Calls.meets (h.mono fun _ hc => ⟨fun _ => passed_aside hc, fun _ _ h => h.elim⟩)

/-- A program aside from the board keeps what it knows of the grants. -/
theorem permitted_passing {p : Service α} {Q : Grants → α → Prop} (h : p.Meets (permitting r) Q k.2)
    (calls : p.Calls (Call.onBoard · = false)) : p.Meets (passing r) (fun k a => Q k.2 a) k :=
  Prog.Meets.weaken (C := (permitting r).within OrderHom.snd) h.within calls (fun hc _ => passed_aside hc)
    (fun _ ha => ha.2) id

theorem ofBoard_passing {b : Board.Request} {q : Board.Service α} {Q : Board.Knowledge × Grants → α → Prop}
    (hb : k.2.Passes r b)
    (h : q.Meets (((Board.contract b).and (Board.naming b)).within OrderHom.fst) Q k) : (ofBoard q).Meets (passing r) Q k := by
  induction q generalizing k with
  | ret a => exact h
  | throw e => trivial
  | ask q ih => exact fun env => ih env hb (h env)
  | call c q ih =>
    refine ⟨⟨b, hb, h.1⟩, fun _ _ ha => ha.elim, fun k' hk => ⟨fun a ha => ?_, fun e => ?_⟩⟩
    · exact ih (.ok a) (hb.grow hk.2) ((h.2.2 k' hk).1 a ⟨ha.1, ha.1⟩)
    · exact ih (.error e) (hb.grow hk.2) ((h.2.2 k' hk).2 e)

theorem announce_passing {b : Board.Request} {es : List Board.DomainEvent} (hb : k.2.Passes r b)
    (h : (Board.announce es).Meets (((Board.contract b).and (Board.naming b)).within OrderHom.fst) (fun _ _ => True) k) :
    (announce queue es).Meets (passing r) (fun _ _ => True) k := by
  induction es generalizing k with
  | nil => trivial
  | cons e es ih =>
    have hemit := Prog.Meets.of_bind (p := Board.emit e) (f := fun _ => Board.announce es) h fun _ _ _ => id
    refine (ofBoard_passing hb hemit).bind fun k₁ hk₁ _ hrest => ?_
    refine (aside_passing ((notify_aside e).handle fun _ => Prog.calls_ret)).bind fun k₂ hk₂ _ _ => ?_
    exact ih ((hb.grow hk₁.2).grow hk₂.2) (System.meets_grow hrest hk₂)

theorem board_passing (p : Nat) (u : Uuid) (o : Board.Request) :
    (board queue p u o).Meets (passing (.board p u o)) (fun _ _ => True) k := by
  refine (permitted_passing (permitted_access (guard_held o.workspaceId u)) (ofAccess_aside p _)).bind fun k₁ _ role hheld => ?_
  refine (aside_passing (ofAccess_aside p _)).bind fun k₂ hk₂ _ _ => ?_
  let b : Board.Request := ⟨o.workspaceId, Operation.by u role o.operation⟩
  have hb : k₂.2.Passes (.board p u o) b := ⟨p, u, o, role, rfl, hheld.grow hk₂.2, rfl⟩
  have hmeets : (Board.program b).Meets ((Board.contract b).and (Board.naming b)) (fun _ _ => True ∧ True) (OrderHom.fst k₂) :=
    (Board.program_meets b _).and (Board.program_names b _)
  have hboard : ((Board.unannounced b).bind Board.announcing).Meets
      (((Board.contract b).and (Board.naming b)).within OrderHom.fst) (fun _ _ => True ∧ True) k₂ :=
    Board.program_announces b ▸ hmeets.within
  refine (ofBoard_passing hb (hboard.of_bind fun _ _ _ => id)).bind fun k₃ hk₃ x hrest => ?_
  have hannounce : (Board.announce x.1).Meets (((Board.contract b).and (Board.naming b)).within OrderHom.fst)
      (fun _ _ => True) k₃ := (hrest.of_bind fun _ _ _ => id).mono fun _ _ _ _ => trivial
  exact (announce_passing (hb.grow hk₃.2) hannounce).bind fun _ _ _ _ => trivial

theorem program_deleting (out : Access.Outside) (queue : Bool) (r : Request) (k : Board.Knowledge × Grants) :
    (program out queue r).Meets (deleting r) (fun _ _ => True) k := by
  have hpassing : (program out queue r).Meets (passing r) (fun _ _ => True) k := by
    cases r with
    | board p u o => exact (board_passing p u o).bind fun _ _ _ _ => trivial
    | access | scan | remind | deliver | expire => exact aside_passing (program_aside out queue (by rintro _ _ _ ⟨⟩))
  have hgrants : (program out queue r).Meets (permitting r) (fun _ _ => True) (OrderHom.snd k) :=
    program_permitted out queue r k.2
  have hpermitted : (program out queue r).Meets ((permitting r).within OrderHom.snd) (fun _ _ => True) k := hgrants.within
  exact (hpassing.and hpermitted).mono fun _ _ _ _ => trivial

theorem passed_within {c : Call} (h : Call.passed k r c) : Call.within k.1 r c := by
  unfold Call.within
  split
  · obtain ⟨b, ⟨p, u, o, role, hr, -, rfl⟩, hpre, -⟩ := h
    exact ⟨p, u, o, ⟨o.workspaceId, Operation.by u role o.operation⟩, hr, rfl, hpre⟩
  · trivial

/-- In every run, what is known of the rows and what has been granted fit the tables, and all requests in flight keep to
    both. -/
theorem deleting_known {users : List Uuid} {generated : Generated} {c : State}
    (hc : (system out pg queue).Reach (fun _ _ => True) (.initial (Tables.start users generated)) c) :
    ∃ k : Board.Knowledge, System.Known deleting (fun k s => k.1.Fits s.rest.board ∧ k.2.Fits s) (k, c.granted) c := by
  refine System.reach_beside (fun h => h.2.shown)
    (fun h adm => ⟨(board_fits out pg queue).spend h.1 adm, (shows_grants out pg queue).spend h.2 adm⟩)
    (fun {k s env r op} h adm hpre => ?_) (program_deleting out queue)
    ⟨Board.start_fits users [] generated, start_grants users generated⟩ hc
  obtain ⟨k₁, hk₁, hfits₁, hpost₁⟩ := (board_fits out pg queue).call (r := r) h.1 adm (passed_within hpre.1)
  obtain ⟨hfits₂, hpost₂⟩ := (shows_grants out pg queue).call (r := r) h.2 adm hpre.2
  exact ⟨k₁, hk₁, ⟨hfits₁, hfits₂⟩, fun a ha => ⟨⟨hpost₁ a ha, hpost₂ a ha⟩, hpost₂ a ha⟩⟩

/-! ### Every step -/

variable {s : Board.Tables} {x : Board.Row} {u : Uuid} {role : WorkspaceRole} {op : Board.Operation} {env : Env}

theorem asked_spend (h : (s.spend env).Asked op x) : s.Asked op x := by
  cases h with
  | project named => exact .project named
  | inside on => exact .inside on
  | below on => exact .below on
  | thread mem named path => exact .thread mem named path

theorem spend_asked (h : s.Asked op x) : (s.spend env).Asked op x := by
  cases h with
  | project named => exact .project named
  | inside on => exact .inside on
  | below on => exact .below on
  | thread mem named path => exact .thread mem named path

/-- The guards pass on what the route asks to delete. -/
theorem asked_by : s.Asked (Operation.by u role op) x ↔ s.Asked op x := by
  cases op with
  | removeProject | removeTask => exact Iff.rfl
  | removeComment p t c actor claimed =>
    constructor
    · rintro (_ | _ | _ | ⟨mem, named, path⟩)
      exact .thread mem named path
    · rintro (_ | _ | _ | ⟨mem, named, path⟩)
      exact .thread mem named path
  | _ => exact ⟨by rintro ⟨⟩, by rintro ⟨⟩⟩

/-- Why a user may delete what a request names: an admin may delete a project, a member a task, the author or an admin a
    comment. -/
inductive MayDelete (k : Grants) (s : Board.Tables) (u : Uuid) : Board.Request → Prop
  | project {w p : UuidText} (admin : k.Held w.uuid u .ADMIN) : MayDelete k s u ⟨w, .removeProject p⟩
  | task {w p t : UuidText} {role : WorkspaceRole} (member : k.Held w.uuid u role) : MayDelete k s u ⟨w, .removeTask p t⟩
  | author {w p t c : UuidText} {actor : Uuid} {claimed : Option WorkspaceRole} {role : WorkspaceRole} {a : Board.CommentRow}
      (mem : a ∈ s.comments) (named : a.id = c.uuid) (author : a.authorId = u) (member : k.Held w.uuid u role) :
      MayDelete k s u ⟨w, .removeComment p t c actor claimed⟩
  | admin {w p t c : UuidText} {actor : Uuid} {claimed : Option WorkspaceRole} (admin : k.Held w.uuid u .ADMIN) :
      MayDelete k s u ⟨w, .removeComment p t c actor claimed⟩

/-- Who has passed the guards may delete what goes. -/
theorem mayDelete {g : Grants} {p : Nat} {o : Board.Request} {s' : Board.Tables} (admits : g.Admits (.board p u o))
    (held : g.Held o.workspaceId.uuid u role) (loses : (s.spend env).Loses s' ⟨o.workspaceId, Operation.by u role o.operation⟩ x) :
    MayDelete g s u o := by
  obtain ⟨w, op⟩ := o
  have hasked := asked_by.mp (asked_spend loses.asked)
  cases hasked with
  | project | inside =>
    obtain ⟨role, hheld, hrole⟩ := admits u w [.ADMIN] rfl
    have hadmin : role = .ADMIN := by simpa using hrole
    exact .project (hadmin ▸ hheld)
  | below => exact .task held
  | thread =>
    obtain ⟨a, ha, hid, hauthor | hrole⟩ := loses.allowed _ _ _ _ _ rfl
    · exact .author ha hid hauthor held
    · exact .admin (Option.some.inj hrole ▸ held)

theorem onBoard_board {c : Call} (h : c.onBoard = true) : ∃ b, c = .reminders (.board b) := by
  unfold Call.onBoard at h
  split at h
  · exact ⟨_, rfl⟩
  · cases h

/-- What a call takes away, its request has asked to delete. -/
theorem call_deletes {s : Tables} {c : Call} {g : Grants} (h : k.1.Fits s.rest.board) (hpre : (deleting r).pre (k.1, g) c)
    (mem : x ∈ s.rest.board.everyRow) (gone : ∀ y ∈ (exec out pg env c (s.spend env)).2.rest.board.everyRow, y.id ≠ x.id) :
    ∃ p u o, r = .board p u o ∧ MayDelete g s.rest.board u o ∧ s.rest.board.Asked o.operation x ∧
      x ∈ s.rest.board.rows o.workspaceId.uuid ∧
      (∀ y, y ∈ (exec out pg env c (s.spend env)).2.rest.board.everyRow ↔
        y ∈ s.rest.board.everyRow ∧ ¬ s.rest.board.Asked o.operation y) ∧
      ∀ q, q ∈ (exec out pg env c (s.spend env)).2.rest.reminders ↔
        q ∈ s.rest.reminders ∧ q.taskId ∈ (exec out pg env c (s.spend env)).2.rest.board.taskIds := by
  cases hb : c.onBoard with
  | false =>
    obtain ⟨workspaces, hboard⟩ := board_aside out pg s env hb
    rw [hboard] at gone
    exact absurd rfl (gone x mem)
  | true =>
    obtain ⟨bc, rfl⟩ := onBoard_board hb
    obtain ⟨⟨b, ⟨p, u, o, role, rfl, hheld, rfl⟩, hbpre, hnames⟩, hallows⟩ := hpre
    have hadmits := hallows.1.resolve_left (not_looksUp rfl)
    have write := Board.exec_write pg (s.rest.board.spend env) env bc
    have loses := write.removes (h.spend env) hbpre hnames mem gone
    refine ⟨p, u, o, rfl, mayDelete hadmits hheld loses, asked_by.mp (asked_spend loses.asked), loses.inside, ?_, fun q => ?_⟩
    · refine fun y => (loses.whole y).trans (and_congr_right fun _ => not_congr ?_)
      exact ⟨fun h => asked_by.mp (asked_spend h), fun h => spend_asked (asked_by.mpr h)⟩
    · exact List.mem_filter.trans (and_congr_right fun _ => decide_eq_true_iff)

/-- In every run, a row of a board that a step takes away is taken by a call of a request that names the project, the task
    or the comment that it is, or is in, on or below, in the workspace of the row; its user has by then held the role in
    that workspace that this takes, and is the author of the comment that it names or has held `ADMIN`. And with the row go
    all rows that the request asks to delete, with the reminders of the tasks among them, and no others. -/
theorem rows_deleted_as_asked (out : Access.Outside) (pg : Postgres) (queue : Bool) (users : List Uuid)
    (generated : Generated) (c d : State) (mv : Move interface Request) (x : Board.Row)
    (hc : (system out pg queue).Reach (fun _ _ => True) (.initial (Tables.start users generated)) c)
    (hs : (system out pg queue).step c mv = some d) (mem : x ∈ c.shared.rest.board.everyRow)
    (gone : ∀ y ∈ d.shared.rest.board.everyRow, y.id ≠ x.id) :
    ∃ i fate env t p u r, mv = .call i fate env ∧ c.threads[i]? = some t ∧ t.request = .board p u r ∧
      MayDelete c.granted c.shared.rest.board u r ∧ c.shared.rest.board.Asked r.operation x ∧
      x ∈ c.shared.rest.board.rows r.workspaceId.uuid ∧
      (∀ y, y ∈ d.shared.rest.board.everyRow ↔
        y ∈ c.shared.rest.board.everyRow ∧ ¬ c.shared.rest.board.Asked r.operation y) ∧
      ∀ q, q ∈ d.shared.rest.reminders ↔ q ∈ c.shared.rest.reminders ∧ q.taskId ∈ d.shared.rest.board.taskIds := by
  obtain ⟨k, hk⟩ := deleting_known hc
  have same : d.shared.rest.board.everyRow ≠ c.shared.rest.board.everyRow := fun heq => gone x (heq ▸ mem) rfl
  rcases System.step_shared hs with heq | ⟨env, -, heq⟩ | ⟨i, fate, env, t, op, rfl, ht, hop, -, heq⟩
  · exact absurd (by rw [heq]) same
  · exact absurd (by rw [heq]; rfl) same
  · have heffect : d.shared = (exec out pg env op (c.shared.spend env)).2 := by
      cases fate with
      | failed => exact absurd (by rw [heq]; rfl) same
      | answered | lost => exact heq
    rw [heffect] at gone ⊢
    obtain ⟨p, u, o, hr, h⟩ := call_deletes hk.1.1 (hk.pre ht hop) mem gone
    exact ⟨i, fate, env, t, p, u, o, rfl, ht, hr, h⟩

end

/-- User 8 creates a task, and is about to delete its project. -/
def emptied : List (Move interface Request) :=
  founded ++ alone 2 (.board 0 8 ⟨Uuid.text 102, .createTask (Uuid.text 114) 8 { title := "Task" }⟩) 4 20 ++
  alone 3 (.board 0 8 ⟨Uuid.text 102, .removeProject (Uuid.text 114)⟩) 2 30

/-- The task goes with its project, which an admin deletes. -/
theorem rows_deleted_as_asked_emptied : ∃ c : State,
    (system twoUsers .strict false).Reach (fun _ _ => True) (.initial (Tables.start [8, 9] ⟨[], []⟩)) c ∧
    ∃ d ∈ (system twoUsers .strict false).step c (.call 3 .answered (envAt 33)), ∃ x ∈ c.shared.rest.board.tasks,
      x.id ∉ d.shared.rest.board.taskIds ∧ ∃ t p u r, c.threads[3]? = some t ∧ t.request = .board p u r ∧
        MayDelete c.granted c.shared.rest.board u r ∧ c.shared.rest.board.Asked r.operation (.task x) := by
  have hrun : ∃ c : State,
      (system twoUsers .strict false).Reach (fun _ _ => True) (.initial (Tables.start [8, 9] ⟨[], []⟩)) c ∧
      ∃ d ∈ (system twoUsers .strict false).step c (.call 3 .answered (envAt 33)), ∃ x ∈ c.shared.rest.board.tasks,
        x.id ∉ d.shared.rest.board.taskIds ∧ x.id ∉ d.shared.rest.board.projectIds ∧
        x.id ∉ d.shared.rest.board.commentIds ∧ x.id ∉ d.shared.rest.board.activity.map Board.TaskActivity.id :=
    System.reach_exists emptied (by decide +kernel)
  obtain ⟨c, hc, d, hd, x, hx, htask, hproject, hcomment, hactivity⟩ := hrun
  have gone : ∀ y ∈ d.shared.rest.board.everyRow, y.id ≠ (Board.Row.task x).id := fun y hy hid => by
    cases y with
    | project z => exact hproject (List.mem_map.mpr ⟨z, hy, hid⟩)
    | task z => exact htask (List.mem_map.mpr ⟨z, hy, hid⟩)
    | comment z => exact hcomment (List.mem_map.mpr ⟨z, hy, hid⟩)
    | activity z => exact hactivity (List.mem_map.mpr ⟨z, hy, hid⟩)
  obtain ⟨i, fate, env, t, p, u, r, hi, ht, hr, hmay, hasked, -⟩ :=
    rows_deleted_as_asked twoUsers .strict false [8, 9] ⟨[], []⟩ c d _ (.task x) hc hd hx gone
  cases hi
  exact ⟨c, hc, d, hd, x, hx, htask, t, p, u, r, ht, hr, hmay, hasked⟩

end TaskPlatform.Platform

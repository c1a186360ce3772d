import TaskPlatform.Board.Reads
import TaskPlatform.Platform.Authority

/-! Who is shown what, in every run of the platform: a request is told nothing of the rows but of those in its own
    workspace, and its user has held a role there before. -/

namespace TaskPlatform.Platform
open Effects Workspaces

section
variable {out : Access.Outside} {pg : Postgres} {queue : Bool} {users : List Uuid} {generated : Generated} {c d : State}

/-- A role that has been held is the role of a row that there was. -/
theorem held_at {w u : Uuid} {role : WorkspaceRole} (h : c.granted.Held w u role) : ∃ n ≤ c.time, ∃ s, c.at? n = some s ∧
    ∃ m ∈ s.db.members, m.workspaceId = w ∧ m.userId = u ∧ m.role = role := by
  obtain ⟨id, s, hs, hgrant⟩ := h
  obtain ⟨n, hn⟩ := List.mem_iff_getElem?.mp hs
  have hat : c.at? n = some s := hn
  refine ⟨n, System.at?_le hat, s, hat, ?_⟩
  rcases hgrant with ⟨m, hm, heq⟩ | ⟨inv, -, heq⟩
  · simp only [Grant.ofMember, Grant.held.injEq] at heq
    obtain ⟨-, rfl, rfl, rfl⟩ := heq
    exact ⟨m, hm, rfl, rfl, rfl⟩
  · cases heq

/-- What a call on the board returns is read off the rows of the workspace of its request. -/
theorem board_reads {k : Board.Knowledge} {s : Tables} {env : Env} {r : Request} {op : Board.Call} {a : op.Reply}
    (h : k.Fits s.rest.board) (hpre : (tenancy r).pre k (.reminders (.board op)))
    (ha : ((system out pg queue).handler env (.reminders (.board op)) s).1 = .ok a) :
    ∃ p u b, r = .board p u b ∧ op.ReadFrom (s.rest.board.rows b.workspaceId.uuid) a := by
  obtain ⟨p, u, b, r', rfl, hw, hpre⟩ := hpre
  exact ⟨p, u, b, rfl, hw ▸ Board.exec_reads (h.spend env) hpre ha⟩

/-- In every run, whatever a request of the board is told of projects, tasks, comments and activity is read off rows
    that its workspace had at that moment; and by then its user has held a role in the workspace, one that the route asks
    for. -/
theorem told_of_workspace (out : Access.Outside) (pg : Postgres) (queue : Bool) (users : List Uuid)
    (generated : Generated) (d : State)
    (hr : (system out pg queue).Reach (fun _ _ => True) (.initial (Tables.start users generated)) d) :
    ∀ t ∈ d.threads, ∀ e ∈ t.log, ∀ op a, e.said = ⟨.reminders (.board op), .ok a⟩ →
      ∃ p u r, t.request = .board p u r ∧
        (∃ s, d.at? e.time = some s ∧ op.ReadFrom (s.rest.board.rows r.workspaceId.uuid) a) ∧
        ∃ n ≤ e.time, ∃ s, d.at? n = some s ∧ ∃ m ∈ s.db.members, m.workspaceId = r.workspaceId.uuid ∧ m.userId = u ∧
          (Operation.roles r.operation = [] ∨ m.role ∈ Operation.roles r.operation) := by
  intro t ht e he op a hsaid
  obtain ⟨c, v, hc, hcd, htime, hv, hreq, hnext⟩ := hr.moment t ht e he
  obtain ⟨hcall, -, s, env, hs, -, ha, -⟩ := (hr.recorded t ht e he).answered hsaid
  rw [hcall] at hnext
  obtain ⟨i, hi⟩ := List.mem_iff_getElem?.mp hv
  -- The state of the moment is the one that the run had reached.
  have hshared : d.at? e.time = some c.shared := htime ▸ hcd.at? (System.at?_time c)
  obtain rfl := Option.some.inj (hshared.symm.trans hs)
  obtain ⟨k, hk⟩ := rows_known hc
  obtain ⟨p, u, r, hr, hread⟩ := board_reads hk.1 (hk.pre hi hnext) ha
  have hadmits := ((granted_known hc).pre hi hnext).1.resolve_left (not_looksUp rfl)
  obtain ⟨role, hheld, hrole⟩ := hadmits u r.workspaceId _ (by rw [hr]; rfl)
  obtain ⟨n, hn, s₀, hs₀, m, hm, hw, hu, rfl⟩ := held_at hheld
  exact ⟨p, u, r, hreq ▸ hr, ⟨_, hs, hread⟩, n, htime ▸ hn, s₀, hcd.at? hs₀, m, hm, hw, hu, hrole⟩

/-- A project that is found. -/
def findsProject : Said interface → Bool
  | ⟨.reminders (.board (.findProject _ _)), .ok (some _)⟩ => true
  | _ => false

/-- User 8 looks at the project. -/
theorem told_of_workspace_founded : ∃ d : State,
    (system twoUsers .strict false).Reach (fun _ _ => True) (.initial (Tables.start [8, 9] ⟨[], []⟩)) d ∧
    ∃ t ∈ d.threads, ∃ e ∈ t.log, ∃ id w x, e.said = ⟨.reminders (.board (.findProject id w)), .ok (some x)⟩ ∧
      ∃ p u r s row, t.request = .board p u r ∧ d.at? e.time = some s ∧ row ∈ s.rest.board.projects ∧
        row.workspaceId = r.workspaceId.uuid ∧ x = row.toEntity := by
  have hrun : ∃ d : State,
      (system twoUsers .strict false).Reach (fun _ _ => True) (.initial (Tables.start [8, 9] ⟨[], []⟩)) d ∧
      ∃ t ∈ d.threads, ∃ e ∈ t.log, findsProject e.said = true :=
    System.reach_exists (founded ++ alone 2 (.board 0 8 ⟨Uuid.text 102, .getProject (Uuid.text 114)⟩) 2 20) (by decide +kernel)
  obtain ⟨d, hd, t, ht, e, he, hfinds⟩ := hrun
  have hsaid : ∃ id w x, e.said = ⟨.reminders (.board (.findProject id w)), .ok (some x)⟩ := by
    unfold findsProject at hfinds
    split at hfinds
    · exact ⟨_, _, _, by assumption⟩
    · cases hfinds
  obtain ⟨id, w, x, hsaid⟩ := hsaid
  obtain ⟨p, u, r, hr, ⟨s, hs, hread⟩, -⟩ :=
    told_of_workspace twoUsers .strict false [8, 9] ⟨[], []⟩ d hd t ht e he (.findProject id w) (some x) hsaid
  obtain ⟨row, ⟨hrow, hw⟩, hx⟩ := hread x rfl
  exact ⟨d, hd, t, ht, e, he, id, w, x, hsaid, p, u, r, s, row, hr, hs, hrow, hw, hx⟩

end
end TaskPlatform.Platform

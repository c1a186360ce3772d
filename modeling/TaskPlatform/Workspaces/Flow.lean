import TaskPlatform.Workspaces.WorkspacesService

/-! The order of calls in the membership operations. -/

namespace TaskPlatform.Workspaces
open Effects

/-- What comes after a reply, in each request; a request makes no call that is not listed. -/
def AfterReply : Request → (c : Call) → c.Reply → Service Response → Prop
  | .getMembership p w u, .cacheGet key, m, rest =>
    key = ⟨p, w, u⟩ ∧ ((m.isSome ∧ rest = .ret (.membership m)) ∨ (m = none ∧ rest.next? = some (.findMember w.uuid u.uuid)))
  | .getMembership p w u, .findMember w' u', m, rest =>
    w' = w.uuid ∧ u' = u.uuid ∧ ((m = none ∧ rest = .ret (.membership none)) ∨
      ∃ x, m = some x ∧ rest.next? = some (.cacheSet ⟨p, w, u⟩ x))
  | .getMembership p w u, .cacheSet key m, _, rest => key = ⟨p, w, u⟩ ∧ rest = .ret (.membership (some m))
  | .updateMemberRole _ w u _, .findWorkspace _, _, rest =>
    (∃ e, rest = .throw e) ∨ rest.next? = some (.findMember w.uuid u.uuid)
  | .updateMemberRole _ w u role, .findMember w' u', m, rest =>
    w' = w.uuid ∧ u' = u.uuid ∧ ((∃ e, rest = .throw e) ∨
      ∃ x, m = some x ∧ rest.next? = some (.saveMember { x with role := role }))
  | .updateMemberRole p w u _, .saveMember _, _, rest => rest.next? = some (.cacheDel ⟨p, w, u⟩)
  | .updateMemberRole p w u _, .cacheDel key, _, rest => key = ⟨p, w, u⟩ ∧ ∃ m, rest = .ret (.updated m)
  | .removeMember _ w u, .findWorkspace _, _, rest =>
    (∃ e, rest = .throw e) ∨ rest.next? = some (.findMember w.uuid u.uuid)
  | .removeMember _ w u, .findMember w' u', m, rest =>
    w' = w.uuid ∧ u' = u.uuid ∧ ((∃ e, rest = .throw e) ∨ ∃ x, m = some x ∧ rest.next? = some (.removeMember x))
  | .removeMember p w u, .removeMember _, _, rest => rest.next? = some (.cacheDel ⟨p, w, u⟩)
  | .removeMember p w u, .cacheDel key, _, rest => key = ⟨p, w, u⟩ ∧ rest = .ret .removed
  | .accept u _ _, .findInvitation _, inv, rest =>
    (∃ e, rest = .throw e) ∨ (∃ inv, rest.next? = some (.saveInvitation inv)) ∨
      ∃ x, inv = some x ∧ rest.next? = some (.findMember x.workspaceId u)
  | .accept _ _ _, .saveInvitation _, _, rest => ∃ e, rest = .throw e
  | .accept u _ _, .findMember _ _, _, rest =>
    ∃ new inv, rest.next? = some (.commitAccept new inv) ∧ ∀ n ∈ new, n.userId = u
  | .accept u _ _, .commitAccept new _, _, rest => (∀ n ∈ new, n.userId = u) ∧ ∃ m, rest = .ret (.accepted m)
  | _, _, _, _ => False

/-- What comes after the answer to a call: an error ends the request. -/
def Follows (req : Request) (c : Call) (answer : Except Err c.Reply) (rest : Service Response) : Prop :=
  match answer with
  | .ok a => AfterReply req c a rest
  | .error e => rest = .throw e

/-- A request whose call is answered by an error throws it. -/
theorem flows_reply {req : Request} {c : Call} {k : Except Err c.Reply → Service Response}
    (herr : ∀ e, k (.error e) = .throw e)
    (hok : ∀ a, (∀ env, AfterReply req c a ((k (.ok a)).settle env)) ∧ (k (.ok a)).Flows (Follows req)) :
    (Prog.call c k : Service Response).Flows (Follows req) := by
  intro a
  cases a with
  | error e => exact herr e ▸ ⟨fun _ => rfl, trivial⟩
  | ok a => exact hok a

theorem flows_error {req : Request} {c : Call} {k : Except Err c.Reply → Service Response}
    (hf : (Prog.call c k : Service Response).Flows (Follows req)) (e : Err) (env : Env) :
    (k (.error e)).settle env = .throw e :=
  (hf (.error e)).1 env

theorem getMembership_flows (toLowerCase : String → String) (p : Nat) (w u : UuidText) :
    (program toLowerCase (.getMembership p w u)).Flows (Follows (.getMembership p w u)) := by
  refine flows_reply (fun _ => rfl) fun cached => ?_
  cases cached with
  | some m => exact ⟨fun _ => ⟨rfl, Or.inl ⟨rfl, rfl⟩⟩, trivial⟩
  | none =>
    refine ⟨fun _ => ⟨rfl, Or.inr ⟨rfl, rfl⟩⟩, flows_reply (fun _ => rfl) fun m => ?_⟩
    cases m with
    | none => exact ⟨fun _ => ⟨rfl, rfl, Or.inl ⟨rfl, rfl⟩⟩, trivial⟩
    | some m =>
      refine ⟨fun _ => ⟨rfl, rfl, Or.inr ⟨m, rfl, rfl⟩⟩, flows_reply (fun _ => rfl) fun _ => ?_⟩
      exact ⟨fun _ => ⟨rfl, rfl⟩, trivial⟩

theorem updateMemberRole_flows (toLowerCase : String → String) (p : Nat) (w u : UuidText) (role : WorkspaceRole) :
    (program toLowerCase (.updateMemberRole p w u role)).Flows (Follows (.updateMemberRole p w u role)) := by
  refine flows_reply (fun _ => rfl) fun workspace => ?_
  cases workspace with
  | none => exact ⟨fun _ => Or.inl ⟨_, rfl⟩, trivial⟩
  | some workspace =>
    simp only [Prog.pure_eq_ret, Prog.ret_bind]
    by_cases howner : workspace.ownerId.text = u
    · simp only [howner, ↓reduceIte]
      exact ⟨fun _ => Or.inl ⟨_, rfl⟩, trivial⟩
    · simp only [howner, ↓reduceIte]
      refine ⟨fun _ => Or.inr rfl, flows_reply (fun _ => rfl) fun m => ?_⟩
      cases m with
      | none => exact ⟨fun _ => ⟨rfl, rfl, Or.inl ⟨_, rfl⟩⟩, trivial⟩
      | some m =>
        refine ⟨fun _ => ⟨rfl, rfl, Or.inr ⟨m, rfl, rfl⟩⟩, flows_reply (fun _ => rfl) fun saved => ?_⟩
        refine ⟨fun _ => rfl, flows_reply (fun _ => rfl) fun _ => ?_⟩
        exact ⟨fun _ => ⟨rfl, saved, rfl⟩, trivial⟩

theorem removeMember_flows (toLowerCase : String → String) (p : Nat) (w u : UuidText) :
    (program toLowerCase (.removeMember p w u)).Flows (Follows (.removeMember p w u)) := by
  refine flows_reply (fun _ => rfl) fun workspace => ?_
  cases workspace with
  | none => exact ⟨fun _ => Or.inl ⟨_, rfl⟩, trivial⟩
  | some workspace =>
    simp only [Prog.pure_eq_ret, Prog.ret_bind]
    by_cases howner : workspace.ownerId.text = u
    · simp only [howner, ↓reduceIte]
      exact ⟨fun _ => Or.inl ⟨_, rfl⟩, trivial⟩
    · simp only [howner, ↓reduceIte]
      refine ⟨fun _ => Or.inr rfl, flows_reply (fun _ => rfl) fun m => ?_⟩
      cases m with
      | none => exact ⟨fun _ => ⟨rfl, rfl, Or.inl ⟨_, rfl⟩⟩, trivial⟩
      | some m =>
        refine ⟨fun _ => ⟨rfl, rfl, Or.inr ⟨m, rfl, rfl⟩⟩, flows_reply (fun _ => rfl) fun _ => ?_⟩
        refine ⟨fun _ => rfl, flows_reply (fun _ => rfl) fun _ => ?_⟩
        exact ⟨fun _ => ⟨rfl, rfl⟩, trivial⟩

theorem accept_flows (toLowerCase : String → String) (u : Uuid) (email token : String) :
    (program toLowerCase (.accept u email token)).Flows (Follows (.accept u email token)) := by
  refine flows_reply (fun _ => rfl) fun inv => ?_
  cases inv with
  | none => exact ⟨fun _ => Or.inl ⟨_, rfl⟩, trivial⟩
  | some inv =>
    simp only [Prog.pure_eq_ret, Prog.ret_bind]
    by_cases hst : inv.status ≠ .PENDING
    · simp only [hst, ne_eq, not_false_eq_true, ↓reduceIte]
      exact ⟨fun _ => Or.inl ⟨_, rfl⟩, trivial⟩
    · simp only [hst, Prog.bind_eq, Prog.read_bind, Prog.ask_bind, Prog.ite_bind, ↓reduceIte]
      refine ⟨fun env => ?_, fun env => ?_⟩
      · by_cases hexp : inv.expiresAt < env.now
        · simp only [Prog.settle_ask, hexp, ↓reduceIte]
          exact Or.inr (Or.inl ⟨_, rfl⟩)
        · by_cases hmail : toLowerCase inv.email ≠ toLowerCase email
          · rw [Prog.settle_ask, if_neg hexp, if_pos hmail]
            exact Or.inl ⟨_, rfl⟩
          · rw [Prog.settle_ask, if_neg hexp, if_neg hmail]
            exact Or.inr (Or.inr ⟨inv, rfl, rfl⟩)
      · by_cases hexp : inv.expiresAt < env.now
        · simp only [hexp, ↓reduceIte]
          exact flows_reply (fun _ => rfl) fun _ => ⟨fun _ => ⟨_, rfl⟩, trivial⟩
        · simp only [hexp, ↓reduceIte]
          by_cases hmail : toLowerCase inv.email ≠ toLowerCase email
          · rw [if_pos hmail]
            trivial
          · rw [if_neg hmail]
            refine flows_reply (fun _ => rfl) fun m => ?_
            cases m with
            | some m =>
              refine ⟨fun _ => ⟨none, _, rfl, nofun⟩, flows_reply (fun _ => rfl) fun _ => ?_⟩
              exact ⟨fun _ => ⟨nofun, _, rfl⟩, trivial⟩
            | none =>
              refine ⟨fun _ => ⟨some _, _, rfl, ?_⟩, flows_reply (fun _ => rfl) fun m => ?_⟩
              · rintro n ⟨⟩
                rfl
              · refine ⟨fun _ => ⟨?_, m, rfl⟩, trivial⟩
                rintro n ⟨⟩
                rfl

theorem program_flows (toLowerCase : String → String) (req : Request) :
    (program toLowerCase req).Flows (Follows req) := by
  cases req with
  | getMembership p w u => exact getMembership_flows toLowerCase p w u
  | updateMemberRole p w u role => exact updateMemberRole_flows toLowerCase p w u role
  | removeMember p w u => exact removeMember_flows toLowerCase p w u
  | accept u email token => exact accept_flows toLowerCase u email token

/-- A request that goes on after a call was answered with a reply. -/
theorem after_reply {lower : String → String} {t : Thread interface Request Response} {op : Call}
    {k : Except Err op.Reply → Service Response} {fate : Fate} {env : Env} {s : Tables} {n : Nat}
    (hf : t.rest.Flows (Follows t.request)) (hk : t.rest = .call op k)
    (h : ∀ e, ((system lower).resume t op k fate env s n).rest ≠ .throw e) :
    fate = .answered ∧ ∃ a, (exec env op (s.spend env)).1 = .ok a ∧
      AfterReply t.request op a ((system lower).resume t op k fate env s n).rest := by
  rw [hk] at hf
  cases fate with
  | failed | lost => exact absurd (flows_error hf _ env) (h _)
  | answered =>
    have hfol := (hf (exec env op (s.spend env)).1).1 env
    refine ⟨rfl, ?_⟩
    cases ha : (exec env op (s.spend env)).1 with
    | ok a =>
      refine ⟨a, rfl, ?_⟩
      rw [ha] at hfol
      have hfol : AfterReply t.request op a ((k (.ok a)).settle env) := hfol
      simpa only [System.resume, System.answer, system, ha] using hfol
    | error e =>
      rw [ha] at hfol
      have hfol : (k (.error e)).settle env = .throw e := hfol
      refine absurd ?_ (h e)
      simpa only [System.resume, System.answer, system, ha] using hfol

end TaskPlatform.Workspaces

import TaskPlatform.Auth.Tokens

/-! The order of calls in `RefreshTokenService`, and what one call of a request in flight does. -/

namespace TaskPlatform.Auth
open Effects

/-- The error that `rotate` ends with after it revoked a family. -/
def reuseDetected : Err := .unauthorized "Refresh token reuse detected"

/-- What comes after a reply. -/
def AfterReply : (c : Call) → c.Reply → Service Response → Prop
  | .findOne _, cur, rest =>
    (∃ e, e ≠ reuseDetected ∧ rest = .throw e) ∨
    (∃ t now, cur = some t ∧ t.revokedAt.isSome ∧ rest.next? = some (.updateByFamily t.familyId now)) ∨
    (∃ t now, cur = some t ∧ t.revokedAt = none ∧ rest.next? = some (.save (t.revoke now)))
  | .save t, _, rest => ∃ n, rest.next? = some (.insert n) ∧ n.familyId = t.familyId
  | .insert _, _, rest => ∃ v, rest = .ret v
  | .updateByHash _ _, _, rest => ∃ v, rest = .ret v
  | .updateByFamily _ _, _, rest => rest = .throw reuseDetected

/-- What comes after the answer to a call: an error ends the request. -/
def Follows (c : Call) (answer : Except Err c.Reply) (rest : Service Response) : Prop :=
  match answer with
  | .ok a => AfterReply c a rest
  | .error e => rest = .throw e

/-- A request whose call is answered by an error throws it. -/
theorem flows_reply {c : Call} {k : Except Err c.Reply → Service Response} (herr : ∀ e, k (.error e) = .throw e)
    (hok : ∀ a, (∀ env, AfterReply c a ((k (.ok a)).settle env)) ∧ (k (.ok a)).Flows Follows) :
    (Prog.call c k : Service Response).Flows Follows := by
  intro a
  cases a with
  | error e => exact herr e ▸ ⟨fun _ => rfl, trivial⟩
  | ok a => exact hok a

theorem flows_error {c : Call} {k : Except Err c.Reply → Service Response}
    (hf : (Prog.call c k : Service Response).Flows Follows) (e : Err) (env : Env) :
    (k (.error e)).settle env = .throw e :=
  (hf (.error e)).1 env

theorem program_flows (ttlMs : Int) (r : Request) : (program ttlMs r).Flows Follows := by
  cases r with
  | issueForNewSession userId ctx =>
    intro env₁ env₂ env₃
    exact flows_reply (fun _ => rfl) fun t => ⟨fun _ => ⟨_, rfl⟩, trivial⟩
  | revoke raw =>
    intro env
    exact flows_reply (fun _ => rfl) fun _ => ⟨fun _ => ⟨_, rfl⟩, trivial⟩
  | rotate raw ctx =>
    refine flows_reply (fun _ => rfl) fun cur => ?_
    cases cur with
    | none => exact ⟨fun _ => Or.inl ⟨_, by decide, rfl⟩, trivial⟩
    | some cur =>
      by_cases hrev : cur.revokedAt.isSome = true
      · simp only [Prog.ret_bind, hrev, ↓reduceIte]
        refine ⟨fun env => Or.inr (Or.inl ⟨cur, env.now, rfl, hrev, rfl⟩), fun env => ?_⟩
        exact flows_reply (fun _ => rfl) fun _ => ⟨fun _ => rfl, trivial⟩
      · simp only [Prog.ret_bind, Prog.bind_eq, Prog.read_bind, hrev, Prog.ask_bind, Prog.ite_bind,
          Bool.false_eq_true, ↓reduceIte]
        refine ⟨fun env => ?_, fun env => ?_⟩
        · by_cases hexp : cur.expiresAt < env.now
          · simp only [Prog.settle_ask, hexp, ↓reduceIte]
            exact Or.inl ⟨_, by decide, rfl⟩
          · simp only [Prog.settle_ask, hexp, ↓reduceIte]
            exact Or.inr (Or.inr ⟨cur, env.now, rfl, by simpa using hrev, rfl⟩)
        · by_cases hexp : cur.expiresAt < env.now
          · simp [hexp]
          · simp only [hexp, ↓reduceIte]
            refine fun env => flows_reply (fun _ => rfl) fun t => ⟨fun env => ⟨_, rfl, rfl⟩, fun env₁ env₂ => ?_⟩
            exact flows_reply (fun _ => rfl) fun t => ⟨fun _ => ⟨_, rfl⟩, trivial⟩

/-! ### One call of a request in flight -/

/-- A call on the tables `s`: the tables after it and the rest of the program. -/
inductive Turn (inet : String → Bool) (s : Tables) : Call → Tables → Service Response → Prop
  | failed (c : Call) : Turn inet s c s (.throw .unavailable)
  | rejected {h : Sha256} {e : Err} (ne : e ≠ reuseDetected) : Turn inet s (.findOne h) s (.throw e)
  | reused {cur : RefreshToken} {now : Date} {rest : Service Response} (mem : cur ∈ s.tokens)
      (revoked : cur.revokedAt.isSome) (next : rest.next? = some (.updateByFamily cur.familyId now)) :
      Turn inet s (.findOne cur.tokenHash) s rest
  | valid {cur : RefreshToken} {now : Date} {rest : Service Response} (mem : cur ∈ s.tokens)
      (live : cur.revokedAt = none) (next : rest.next? = some (.save (cur.revoke now))) :
      Turn inet s (.findOne cur.tokenHash) s rest
  | marked {t : RefreshToken} {rest : Service Response}
      (next : rest = .throw .unavailable ∨ ∃ n, rest.next? = some (.insert n) ∧ n.familyId = t.familyId) :
      Turn inet s (.save t) (s.saveToken inet t).2 rest
  | refused {n : NewRefreshToken} {e : DbError} : Turn inet s (.insert n) s (.throw (.db e))
  | minted {n : NewRefreshToken} {id : Uuid} {rest : Service Response}
      (hash : n.tokenHash ∉ s.tokens.map RefreshToken.tokenHash) (issued : id ∈ s.generated.uuids)
      (fresh : id ∉ s.origins.map RefreshToken.id) (ends : rest = .throw .unavailable ∨ ∃ v, rest = .ret v) :
      Turn inet s (.insert n) { s with tokens := s.tokens ++ [n.toRow id] } rest
  | loggedOut {h : Sha256} {now : Date} {rest : Service Response}
      (ends : rest = .throw .unavailable ∨ ∃ v, rest = .ret v) :
      Turn inet s (.updateByHash h now) (s.revokeWhere (·.tokenHash == h) now) rest
  | detected {f : Uuid} {now : Date} {rest : Service Response}
      (ends : rest = .throw .unavailable ∨ rest = .throw reuseDetected) :
      Turn inet s (.updateByFamily f now) (s.revokeWhere (·.familyId == f) now) rest

/-- The tables after the values of `env` were generated. -/
def Tables.spend (s : Tables) (env : Env) : Tables := { s with generated := s.generated.spend env }

theorem find?_hash {s : Tables} {h : Sha256} {cur : RefreshToken}
    (hf : s.tokens.find? (·.tokenHash == h) = some cur) : cur ∈ s.tokens ∧ cur.tokenHash = h :=
  ⟨List.mem_of_find?_eq_some hf, by simpa using List.find?_some hf⟩

/-- An answered call takes one of the turns. -/
theorem turn_answered {inet : String → Bool} {s : Tables} {env : Env} {c : Call} {rest : Service Response} (wf : s.WellFormed)
    (hadm : s.generated.admits env = true) (hsave : ∀ t, c = .save t → t.origin ∈ s.origins)
    (h : Follows c (exec inet env c (s.spend env)).1 rest) :
    Turn inet (s.spend env) c (exec inet env c (s.spend env)).2 rest := by
  cases c with
  | findOne hash =>
    rcases h with ⟨e, hne, rfl⟩ | ⟨cur, now, hf, hrev, hn⟩ | ⟨cur, now, hf, hrev, hn⟩
    · exact .rejected hne
    · obtain ⟨hm, rfl⟩ := find?_hash hf
      exact .reused hm hrev hn
    · obtain ⟨hm, rfl⟩ := find?_hash hf
      exact .valid hm hrev hn
  | save t =>
    have hok : exec inet env (.save t) (s.spend env) = (.ok t, _) := Tables.saveToken_eq (s := s.spend env) (hsave t rfl)
    rw [hok] at h
    exact .marked (Or.inr h)
  | insert n =>
    rcases Tables.insertToken_cases inet (s.spend env) (n.toRow env.uuid) with ⟨heq, hhash⟩ | ⟨e, heq⟩
    · have heq : exec inet env (.insert n) (s.spend env) = _ := heq
      rw [heq] at h ⊢
      refine .minted hhash (List.mem_cons_self ..) (fun hm => ?_) (Or.inr h)
      obtain ⟨o, ho, hid⟩ := List.mem_map.mp hm
      exact (Generated.admits_iff.mp hadm).1 (hid ▸ (wf.issued o ho).1)
    · have heq : exec inet env (.insert n) (s.spend env) = _ := heq
      rw [heq] at h ⊢
      cases h
      exact .refused
  | updateByHash hash now => exact .loggedOut (Or.inr h)
  | updateByFamily f now => exact .detected (Or.inr h)

/-- A call that took effect while its answer is lost takes one of the turns, too. -/
theorem turn_lost {inet : String → Bool} {s : Tables} {env : Env} {c : Call} (wf : s.WellFormed)
    (hadm : s.generated.admits env = true) :
    Turn inet (s.spend env) c (exec inet env c (s.spend env)).2 (.throw .unavailable) := by
  cases c with
  | findOne hash => exact .failed _
  | save t => exact .marked (Or.inl rfl)
  | insert n =>
    rcases Tables.insertToken_cases inet (s.spend env) (n.toRow env.uuid) with ⟨heq, hhash⟩ | ⟨e, heq⟩
    · have heq : exec inet env (.insert n) (s.spend env) = _ := heq
      rw [heq]
      refine .minted hhash (List.mem_cons_self ..) (fun hm => ?_) (Or.inl rfl)
      obtain ⟨o, ho, hid⟩ := List.mem_map.mp hm
      exact (Generated.admits_iff.mp hadm).1 (hid ▸ (wf.issued o ho).1)
    · have heq : exec inet env (.insert n) (s.spend env) = _ := heq
      rw [heq]
      exact .failed _
  | updateByHash hash now => exact .loggedOut (Or.inl rfl)
  | updateByFamily f now => exact .detected (Or.inl rfl)

/-- Every call of a request in flight takes one of the turns. -/
theorem turn (inet : String → Bool) (ttlMs : Int) {s : Tables} {env : Env} {c : Call}
    {k : Except Err c.Reply → Service Response}
    (fate : Fate) (wf : s.WellFormed) (hadm : s.generated.admits env = true)
    (hsave : ∀ t, c = .save t → t.origin ∈ s.origins) (hf : (Prog.call c k : Service Response).Flows Follows) :
    Turn inet (s.spend env) c ((system inet ttlMs).effect fate env c s)
      ((k ((system inet ttlMs).answer fate (exec inet env c (s.spend env)).1)).settle env) := by
  cases fate with
  | answered => exact turn_answered wf hadm hsave ((hf _).1 env)
  | failed => exact flows_error hf _ env ▸ .failed _
  | lost => exact flows_error hf _ env ▸ turn_lost wf hadm

end TaskPlatform.Auth

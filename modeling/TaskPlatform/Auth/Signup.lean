import TaskPlatform.Auth.Provenance
import TaskPlatform.Auth.Sessions
import TaskPlatform.Library.Draws

/-! Signups and logins: at most one signup of an e-mail succeeds, whatever else is in flight; a login lets in exactly who
    shows the password, and whoever was signed up can log in. -/

namespace TaskPlatform.Auth.Accounts
open Effects
open RefreshTokenService (hashToken)

/-! ### What a signup was told -/

/-- An account has the e-mail. -/
def Registered (out : Outside) (email : String) (s : Registry) : Prop := ∃ a ∈ s.accounts, out.SameEmail a.email email

/-- The answers that a signup ends on. -/
inductive Attests (dto : SignupDto) (log : List (Said interface)) : Except Err Response → Prop
  | created {n : CreateUserInput} {a : UserAccount} {result : Except Err Response} (email : n.email = dto.email)
      (told : ⟨.insertUser n, .ok a⟩ ∈ log) : Attests dto log result
  | found {n : Nat} {e : Err} (pos : 0 < n) (told : ⟨.countByEmail dto.email, .ok n⟩ ∈ log) : Attests dto log (.error e)
  | refused {n : CreateUserInput} {e : Err} (email : n.email = dto.email) (name : n.name = dto.name)
      (hashed : ⟨.hash dto.password, .ok n.passwordHash⟩ ∈ log) (told : ⟨.insertUser n, .error e⟩ ∈ log) :
      Attests dto log (.error e)
  | uncounted {e : Err} (told : ⟨.countByEmail dto.email, .error e⟩ ∈ log) : Attests dto log (.error e)
  | unhashed {e : Err} (told : ⟨.hash dto.password, .error e⟩ ∈ log) : Attests dto log (.error e)
  | stopped : Attests dto log (.error .unavailable)

section
variable {out : Outside} {ttlMs : Int} {generated : Generated} {s : Registry} {env : Env} {d : State} {dto : SignupDto}
  {log log' : List (Said interface)}

/-- All that a program is told comes after what it was told before. -/
theorem created_yields {α : Type} {p : Service α} {f : α → Service Response} {n : CreateUserInput} {a : UserAccount}
    (email : n.email = dto.email) (told : ⟨.insertUser n, .ok a⟩ ∈ log) : (p.bind f).Yields (Attests dto) log := by
  generalize p.bind f = q
  induction q generalizing log with
  | ret | throw => exact .created email told
  | ask k ih => exact fun env => ih env told
  | call c k ih => exact fun a => ih a (List.mem_cons_of_mem _ told)

variable (out ttlMs) in
theorem signup_yields (ctx : SessionContext) : (program out ttlMs (.signup dto ctx)).Yields (Attests dto) [] := by
  simp only [program, AuthService.signup, UsersService.existsByEmail, PasswordService.hash, UsersService.create,
    Prog.bind_eq, Prog.pure_eq_ret, Prog.bind_assoc, Prog.ret_bind]
  refine Prog.Yields.perform_bind (fun n => ?_) fun e => .uncounted (List.mem_cons_self ..)
  by_cases hpos : 0 < n
  · simp only [hpos, decide_true, ↓reduceIte]
    exact .found hpos (List.mem_cons_self ..)
  · simp only [hpos, decide_false, Bool.false_eq_true, ↓reduceIte, Prog.bind_assoc]
    refine Prog.Yields.perform_bind (fun hash => ?_) fun e => .unhashed (List.mem_cons_self ..)
    refine Prog.Yields.perform_bind (fun a => ?_) fun e =>
      .refused rfl rfl (List.mem_cons_of_mem _ (List.mem_cons_self ..)) (List.mem_cons_self ..)
    exact created_yields rfl (List.mem_cons_self ..)

/-- An account stays. -/
theorem accounts_grow (env : Env) (c : Call) : s.accounts ⊆ (exec out env c s).2.accounts := by
  cases c with
  | insertUser n =>
    rcases insertUser_cases out s n env with ⟨-, -, heq⟩ | ⟨e, -, heq⟩
    · rw [exec, heq]
      exact List.subset_append_left _ _
    · rw [exec, heq]
      exact fun _ h => h
  | _ => exact fun _ h => h

theorem Registered.change {s s' : Registry} {email : String} (h : Registered out email s)
    (change : (system out ttlMs).Change s s') : Registered out email s' := by
  obtain ⟨a, ha, hsame⟩ := h
  cases change with
  | same => exact ⟨a, ha, hsame⟩
  | spent => exact ⟨a, ha, hsame⟩
  | @called env fate c =>
    cases fate with
    | failed => exact ⟨a, ha, hsame⟩
    | answered | lost => exact ⟨a, accounts_grow (s := s.spend env) env c ha, hsame⟩

/-- The insert of a user is answered with the account if nobody has the e-mail, and with an error if somebody has it or the
    columns do not take what is inserted. -/
theorem insertUser_told {n : CreateUserInput} {email : String} (heq : n.email = email) :
    (∀ a, (exec out env (.insertUser n) s).1 = .ok a →
      ¬ Registered out email s ∧ Registered out email (exec out env (.insertUser n) s).2) ∧
    ∀ e, (exec out env (.insertUser n) s).1 = .error e →
      Registered out email s ∨ ∃ err, e = .db err ∧ n.rejected = some err := by
  subst heq
  rcases insertUser_cases out s n env with ⟨-, hfree, heq⟩ | ⟨err, hwhy, heq⟩
  · rw [exec, heq]
    refine ⟨fun _ _ => ⟨?_, n.toRow env, List.mem_append_right _ (List.mem_singleton_self _), rfl⟩, by rintro _ ⟨⟩⟩
    rintro ⟨a, ha, hsame⟩
    exact hfree a ha hsame
  · rw [exec, heq]
    refine ⟨by rintro _ ⟨⟩, fun e he => ?_⟩
    exact hwhy.symm.imp id fun hrejected => ⟨err, (Except.error.inj he).symm, hrejected⟩

theorem reach_attests (hr : (system out ttlMs).Reach (fun _ _ => True) (.initial (start generated)) d)
    {t : Thread interface Request Response} (ht : t ∈ d.threads) {ctx : SessionContext} (hreq : t.request = .signup dto ctx)
    {result : Except Err Response} (hresult : t.result? = some result) : Attests dto (t.log.map Event.said) result := by
  have programs : ∀ r, (program out ttlMs r).Yields (fun log a => ∀ dto ctx, r = .signup dto ctx → Attests dto log a) [] := by
    intro r
    cases r with
    | signup dto ctx =>
      refine (signup_yields out ttlMs ctx).mono fun log a h => ?_
      rintro _ _ ⟨⟩
      exact h
    | _ => exact Prog.yields_of_forall (fun _ _ => by rintro _ _ ⟨⟩) _ _
  have hyields := hr.yields_all programs (fun _ _ _ _ _ => .stopped) t ht
  exact System.yields_result hyields hresult dto ctx hreq

/-- A signup that returns was told of the account that it created. -/
theorem signup_created (hr : (system out ttlMs).Reach (fun _ _ => True) (.initial (start generated)) d)
    {t : Thread interface Request Response} (ht : t ∈ d.threads) {ctx : SessionContext} (hreq : t.request = .signup dto ctx)
    (hreturned : Returned t) : ∃ e ∈ t.log, ∃ s s', d.at? e.time = some s ∧ ¬ Registered out dto.email s ∧
      d.at? (e.time + 1) = some s' ∧ Registered out dto.email s' := by
  obtain ⟨v, hv⟩ := hreturned
  cases reach_attests hr ht hreq hv with
  | created email told =>
    obtain ⟨e, he, hsaid⟩ := List.mem_map.mp told
    obtain ⟨-, -, s, env, hs, -, hanswer, hs'⟩ := (hr.recorded t ht e he).answered hsaid
    obtain ⟨hfree, htaken⟩ := (insertUser_told email).1 _ hanswer
    exact ⟨e, he, s, _, hs, hfree, hs', htaken⟩

end

/-- In every run, at most one signup of an e-mail (up to case) returns; and one that ends with an error, but for a failure
    from outside, leaves the e-mail to an account that somebody has signed up, unless the columns of `users` do not take
    what it inserts. -/
theorem signup_once (out : Outside) (ttlMs : Int) (generated : Generated) (d : State)
    (hr : (system out ttlMs).Reach (fun _ _ => True) (.initial (start generated)) d) :
    (∀ (i j : Nat) t u dto dto' ctx ctx', d.threads[i]? = some t → d.threads[j]? = some u → t.request = .signup dto ctx →
      u.request = .signup dto' ctx' → out.SameEmail dto.email dto'.email → Returned t → Returned u → i = j) ∧
    ∀ t ∈ d.threads, ∀ dto ctx e, t.request = .signup dto ctx → t.result? = some (.error e) → e ≠ .unavailable →
      (∃ a ∈ d.shared.accounts, out.SameEmail a.email dto.email ∧ ∃ u ∈ d.threads, SignedUp out a u.request) ∨
      ∃ salt err, e = .db err ∧
        CreateUserInput.rejected ⟨dto.email, dto.name, out.hash salt dto.password⟩ = some err := by
  -- Once an account has the e-mail, one does at every later moment.
  have lasts : ∀ {email n m s s'}, d.at? n = some s → d.at? m = some s' → n ≤ m → Registered out email s →
      Registered out email s' := fun hn hm le h => hr.lasts hn hm le h fun _ _ _ _ change h => h.change change
  constructor
  · intro i j t u dto dto' ctx ctx' ht hu hreq hreq' hsame hreturned hreturned'
    by_contra hij
    obtain ⟨e, he, s, s', hs, hfree, hs', htaken⟩ := signup_created hr (List.mem_of_getElem? ht) hreq hreturned
    obtain ⟨e', he', r, r', hr₁, hfree', hr₂, htaken'⟩ := signup_created hr (List.mem_of_getElem? hu) hreq' hreturned'
    have same : ∀ {s}, Registered out dto.email s ↔ Registered out dto'.email s := fun {s} =>
      exists_congr fun a => and_congr_right fun _ => by rw [Outside.SameEmail, Outside.SameEmail, show out.citext dto.email = out.citext dto'.email from hsame]
    rcases Nat.lt_or_gt_of_ne (hr.apart hij ht hu e he e' he') with hlt | hlt
    · exact hfree' (lasts hs' hr₁ hlt (same.mp htaken))
    · exact hfree (lasts hr₂ hs hlt (same.mpr htaken'))
  · intro t ht dto ctx e hreq hresult hfault
    -- An error that a call was answered with is one that it was rejected with.
    have rejected : ∀ {c : Call}, ⟨c, .error e⟩ ∈ t.log.map Event.said → ∃ n s env, d.at? n = some s ∧
        (exec out env c (s.spend env)).1 = .error e := by
      intro c told
      obtain ⟨event, he, hsaid⟩ := List.mem_map.mp told
      rcases (hr.recorded t ht event he).rejected hsaid with hfail | ⟨s, env, hs, -, hanswer⟩
      · exact absurd hfail hfault
      · exact ⟨event.time, s, env, hs, hanswer⟩
    have registered : Registered out dto.email d.shared ∨ ∃ salt err, e = .db err ∧
        CreateUserInput.rejected ⟨dto.email, dto.name, out.hash salt dto.password⟩ = some err := by
      have now := System.at?_time d
      cases reach_attests hr ht hreq hresult with
      | created email told =>
        obtain ⟨n, s, env, -, -, -, hanswer, hs'⟩ := hr.said ht told
        exact Or.inl (lasts hs' now (System.at?_le hs') ((insertUser_told email).1 _ hanswer).2)
      | found pos told =>
        obtain ⟨n, s, env, -, hs, -, hanswer, -⟩ := hr.said ht told
        obtain rfl := Except.ok.inj hanswer
        obtain ⟨a, ha, hsame⟩ := List.countP_pos_iff.mp pos
        exact Or.inl (lasts hs now (System.at?_le hs) ⟨a, ha, of_decide_eq_true hsame⟩)
      | @refused input _ email name hashed told =>
        obtain ⟨n, s, env, hs, hanswer⟩ := rejected told
        obtain ⟨_, _, drawn, -, -, -, hhash, -⟩ := hr.said ht hashed
        rcases (insertUser_told (s := s.spend env) email).2 _ hanswer with htaken | ⟨err, he, hrejected⟩
        · exact Or.inl (lasts hs now (System.at?_le hs) htaken)
        · have hinput : input = ⟨dto.email, dto.name, out.hash drawn.random dto.password⟩ := by
            have hash : out.hash drawn.random dto.password = input.passwordHash := Except.ok.inj hhash
            rw [← email, ← name, hash]
          exact Or.inr ⟨drawn.random, err, he, hinput ▸ hrejected⟩
      | uncounted told | unhashed told =>
        obtain ⟨n, s, env, -, hanswer⟩ := rejected told
        cases hanswer
      | stopped => exact absurd rfl hfault
    refine registered.imp_left ?_
    rintro ⟨a, ha, hsame⟩
    exact ⟨a, ha, hsame, (reach_rooted hr).accounts a ha⟩

/-- Two signups of an e-mail find it free before either of them takes it. -/
def race : List (Move interface Request) :=
  [.start (.signup { email := "jane@acme.com", name := "Jane", password := "secret12" } {}) (envAt 0),
   .start (.signup { email := "jane@acme.com", name := "Jane", password := "other123" } {}) (envAt 1)] ++
  ([0, 1, 0, 1, 0, 1, 0, 0] : List Nat).zipIdx.map fun x => .call x.1 .answered (envAt (x.2 + 2))

/-- One of the two gets the account, the other one is turned away by the unique key. -/
theorem signup_once_race : ∃ d : State, (system plain 1000).Reach (fun _ _ => True) (.initial (start ⟨[], []⟩)) d ∧
    (∃ t, d.threads[0]? = some t ∧ Returned t) ∧
    (∃ t, d.threads[1]? = some t ∧ ∃ e, t.result? = some (.error e) ∧ e = .db (.unique "UQ_users_email")) ∧
    ∃ a ∈ d.shared.accounts, plain.SameEmail a.email "jane@acme.com" ∧ ∃ u ∈ d.threads, SignedUp plain a u.request := by
  have hrun : ∃ d : State, (system plain 1000).Reach (fun _ _ => True) (.initial (start ⟨[], []⟩)) d ∧
      (∃ t ∈ d.threads[0]?, Returned t) ∧
      ∃ t ∈ d.threads[1]?, t.result? = some (.error (.db (.unique "UQ_users_email"))) ∧
        t.request = .signup { email := "jane@acme.com", name := "Jane", password := "other123" } {} :=
    System.reach_exists race (by decide +kernel)
  obtain ⟨d, hd, ⟨t, ht, hreturned⟩, u, hu, hresult, hreq⟩ := hrun
  have htakes : ∀ salt, CreateUserInput.rejected ⟨"jane@acme.com", "Jane", plain.hash salt "other123"⟩ = none := fun _ =>
    (by decide : CreateUserInput.rejected ⟨"jane@acme.com", "Jane", "$argon2id$" ++ "other123"⟩ = none)
  refine ⟨d, hd, ⟨t, ht, hreturned⟩, ⟨u, hu, _, hresult, rfl⟩, ?_⟩
  rcases (signup_once plain 1000 ⟨[], []⟩ d hd).2 u (List.mem_of_getElem? hu) _ {} _ hreq hresult (by rintro ⟨⟩) with
    htaken | ⟨salt, err, -, hrejected⟩
  · exact htaken
  · rw [htakes] at hrejected
    cases hrejected

/-! ### Secrets are new -/

/-- A token that is inserted is the secret that was generated last. -/
def Fresh (env : Env) (c : Call) : Prop := ∀ n, c = .tokens (.insert n) → n.tokenHash = hashToken env.random

def FreshToken (env : Env) (c : Auth.Call) : Prop := Fresh env (.tokens c)

/-- The secrets of all tokens have been generated. -/
def Drawn (s : Registry) : Prop := ∀ o ∈ s.tables.origins, o.tokenHash.preimage ∈ s.generated.randoms

section
variable {out : Outside} {ttlMs : Int} {generated : Generated} {env : Env} {d : State} {ctx : SessionContext}

/-- A call that issues no token. -/
def Call.Issues : Call → Prop
  | .tokens (.insert _) => True
  | _ => False

theorem fresh_quiet {c : Call} (h : ¬ c.Issues) : Fresh env c := by
  rintro n rfl
  exact absurd trivial h

theorem draws_quiet {α : Type} {p : Service α} (h : p.Calls fun c : Call => ¬ c.Issues) (env : Env) : p.Draws Fresh env :=
  h.draws fresh_quiet env

theorem createToken_draws {u f : Uuid} :
    (RefreshTokenService.createToken ttlMs u f ctx).Draws FreshToken env := by
  refine ⟨?_, fun a _ => ?_⟩
  · rintro n ⟨⟩
    rfl
  · cases a <;> trivial

theorem issueTokens_draws (user : User) : (AuthService.issueTokens ttlMs user ctx).Draws Fresh env := by
  refine Prog.Draws.bind (draws_quiet (Prog.calls_perform id) env) fun env token => ?_
  have htoken : Prog.Draws (I := Auth.interface) FreshToken env (RefreshTokenService.issueForNewSession ttlMs user.id ctx) :=
    createToken_draws
  exact Prog.Draws.bind (Prog.Draws.lift (P := Fresh) htoken) fun _ _ => trivial

theorem rotate_draws {raw : RawToken} :
    (RefreshTokenService.rotate ttlMs raw ctx).Draws FreshToken env := by
  have quiet : ∀ {c : Auth.Call} {env}, ¬ (Call.tokens c).Issues → (Prog.perform (I := Auth.interface) c).Draws
      FreshToken env := fun {c env} hc =>
    (Prog.calls_perform (P := fun c : Auth.Call => ¬ (Call.tokens c).Issues) hc).draws fresh_quiet env
  refine Prog.Draws.bind (quiet id) fun env found => ?_
  cases found with
  | none => trivial
  | some t =>
    by_cases hrev : t.revokedAt.isSome = true
    · simp only [hrev, ↓reduceIte]
      exact Prog.Draws.bind (quiet id : (RefreshTokenService.revokeFamily t.familyId).Draws _ env) fun _ _ => trivial
    · simp only [hrev, Bool.false_eq_true, ↓reduceIte]
      show Prog.Draws _ env (if t.expiresAt < env.now then _ else _)
      split
      · trivial
      · refine Prog.Draws.bind trivial fun env now => ?_
        refine Prog.Draws.bind (quiet id) fun env _ => ?_
        exact Prog.Draws.bind createToken_draws fun _ _ => trivial

/-- Whatever a request issues, it issues with the secret that was generated last. -/
theorem program_draws (out : Outside) (ttlMs : Int) (r : Request) (env : Env) : (program out ttlMs r).Draws Fresh env := by
  cases r with
  | signup dto ctx =>
    refine Prog.Draws.bind (Prog.Draws.bind ?_ fun env taken => ?_) fun _ _ => trivial
    · exact draws_quiet (Prog.Calls.bind (Prog.calls_perform id) fun _ => Prog.calls_ret) env
    · cases taken with
      | true => trivial
      | false =>
        refine Prog.Draws.bind (draws_quiet (Prog.calls_perform id) env) fun env hash => ?_
        refine Prog.Draws.bind (draws_quiet (Prog.calls_perform id) env) fun env a => ?_
        exact issueTokens_draws a.toUser
  | login dto ctx =>
    refine Prog.Draws.bind (Prog.Draws.bind (draws_quiet (Prog.calls_perform id) env) fun env found => ?_) fun _ _ => trivial
    cases found with
    | none => trivial
    | some a =>
      by_cases hactive : a.isActive = true
      · simp only [hactive, Bool.not_true, Bool.false_eq_true, ↓reduceIte]
        refine Prog.Draws.bind (draws_quiet ?_ env) fun env ok => ?_
        · exact Prog.Calls.handle (Prog.calls_perform id) fun _ => trivial
        · cases ok with
          | false => trivial
          | true => exact issueTokens_draws a.toUser
      · simp only [Bool.eq_false_iff.mpr hactive, Bool.not_false, ↓reduceIte]
        trivial
  | refresh raw ctx =>
    refine Prog.Draws.bind (Prog.Draws.lift ?_) fun _ _ => trivial
    refine Prog.Draws.bind (Prog.Draws.lift rotate_draws) fun env rotated => ?_
    refine Prog.Draws.bind (Prog.Calls.draws (Q := fun c : AuthService.Call => ¬ c.onAccounts.Issues)
      (Prog.calls_perform id) fresh_quiet env) fun env found => ?_
    cases found with
    | none => trivial
    | some user =>
      dsimp only
      split <;> trivial
  | logout raw =>
    have hquiet : (RefreshTokenService.revoke raw).Calls fun c : Auth.Call => ¬ (Call.tokens c).Issues :=
      fun env => Prog.calls_perform id
    have hdraws : Prog.Draws (I := Auth.interface) FreshToken env (RefreshTokenService.revoke raw) :=
      hquiet.draws fresh_quiet env
    exact Prog.Draws.bind (Prog.Draws.lift (P := Fresh) hdraws) fun _ _ => trivial
  | me userId =>
    refine Prog.Draws.bind (Prog.Draws.bind (draws_quiet (Prog.calls_perform id) env) fun env found => ?_) fun _ _ => trivial
    cases found <;> trivial

theorem exec_generated (s : Registry) (env : Env) (c : Call) : (exec out env c s).2.generated = s.generated := by
  cases c with
  | insertUser n =>
    rcases insertUser_cases out s n env with ⟨-, -, heq⟩ | ⟨e, -, heq⟩ <;> rw [exec, heq]
  | _ => rfl

theorem Change.randoms {s s' : Registry} {secret : RawToken} (h : secret ∈ s.generated.randoms)
    (change : (system out ttlMs).Change s s') : secret ∈ s'.generated.randoms := by
  cases change with
  | same => exact h
  | spent => exact List.mem_cons_of_mem _ h
  | @called env fate c =>
    have hspend : secret ∈ (s.spend env).generated.randoms := List.mem_cons_of_mem _ h
    cases fate with
    | failed => exact hspend
    | answered | lost => exact (congrArg Generated.randoms (exec_generated (s.spend env) env c)).symm ▸ hspend

theorem reach_drawn (hr : (system out ttlMs).Reach (fun _ _ => True) (.initial (start generated)) d) : Drawn d.shared := by
  refine hr.invariant_with (P := fun d => Drawn d.shared) (Q := fun d => (∀ t ∈ d.threads, System.Keeps.Meets Registry.facts
    (contract out) (Delivers out) d.shared t) ∧ ∀ t ∈ d.threads, ∃ env : Env, env.random ∈ d.shared.generated.randoms ∧
      t.rest.Draws Fresh env) (fun hr => ⟨(reach_known hr).2, ?_⟩) (fun _ ho => (nomatch ho)) ?_
  · refine hr.draws (fun (s : Registry) (env : Env) => env.random ∈ s.generated.randoms) (program_draws out ttlMs)
      (List.mem_cons_self ..) (fun {fate env c s} => ?_) fun change h => Change.randoms h change
    have hspend : env.random ∈ (s.spend env).generated.randoms := List.mem_cons_self ..
    cases fate with
    | failed => exact hspend
    | answered | lost => exact (congrArg Generated.randoms (exec_generated (s.spend env) env c)).symm ▸ hspend
  · intro c d m hc _ h _ hs o ho
    have hchange := System.step_change hs
    have old : o ∈ c.shared.tables.origins → o.tokenHash.preimage ∈ d.shared.generated.randoms := fun ho =>
      Change.randoms (h o ho) hchange
    rcases System.step_shared hs with heq | ⟨env, -, heq⟩ | ⟨i, fate, env, t, op, -, ht, hop, -, heq⟩
    · exact old (heq ▸ ho)
    · rw [heq] at ho
      exact old ho
    · have hallows : allows out c.shared.facts t.request op := System.Keeps.pre hc.1 ht hop
      have ho : o ∈ c.shared.tables.origins ∨ ∃ n, op = .tokens (.insert n) ∧ o = n.toRow env.uuid := by
        rw [heq] at ho
        cases fate with
        | failed => exact Or.inl ho
        | answered | lost => exact origins_after hallows ho
      rcases ho with ho | ⟨n, rfl, rfl⟩
      · exact old ho
      · obtain ⟨env', hspent, hdraws⟩ := hc.2 t (List.mem_of_getElem? ht)
        have hhash : n.tokenHash = hashToken env'.random := hdraws.next hop n rfl
        rw [NewRefreshToken.toRow_tokenHash, hhash]
        exact Change.randoms hspent hchange

end

/-! ### A login alone -/

section
variable {out : Outside} {ttlMs : Int} {s : Registry} {dto : LoginDto} {ctx : SessionContext} {env : Nat → Env} {a : UserAccount}

/-- What a login inserts for its session. -/
def session (ttlMs : Int) (userId : Uuid) (ctx : SessionContext) (env : Env) : NewRefreshToken :=
  ⟨userId, hashToken env.random, env.uuid, env.now + ttlMs, ctx.userAgent, ctx.ip⟩

variable (out) in
theorem insertToken_exec {e : Env} {n : NewRefreshToken} (user : ∃ a ∈ s.accounts, a.id = n.userId)
    (new : ∀ t ∈ s.tokens, t.tokenHash ≠ n.tokenHash) (takes : n.context.rejected out.inet = none) :
    exec out e (.tokens (.insert n)) s =
      (.ok (n.toRow e.uuid), { s with tokens := s.tokens ++ [n.toRow e.uuid] }) := by
  have hinsert : s.tables.insertToken out.inet (n.toRow e.uuid) =
      (.ok (n.toRow e.uuid), { s.tables with tokens := s.tokens ++ [n.toRow e.uuid] }) :=
    insertToken_new (s := s.tables) new (List.mem_map.mpr user) takes
  simp only [exec, Auth.exec, hinsert]

variable (out) in
theorem insertToken_exec_rejected {e : Env} {n : NewRefreshToken} {err : DbError}
    (rejected : n.context.rejected out.inet = some err) : exec out e (.tokens (.insert n)) s = (.error (.db err), s) := by
  have hinsert : s.tables.insertToken out.inet (n.toRow e.uuid) = (.error (.db err), s.tables) := by
    rw [Tables.insertToken, NewRefreshToken.toRow_rejected, rejected]
  simp only [exec, Auth.exec, hinsert]
  rfl

variable (out ttlMs ctx env s a) in
/-- Once the access token is signed, all that is left of issuing a session is an insert. -/
theorem issueTokens_run : (AuthService.issueTokens ttlMs a.toUser ctx).run (system out ttlMs).handler env s =
    ((Prog.perform (I := interface) (.tokens (.insert (session ttlMs a.id ctx (env 1))))).bind fun _ =>
      .ret (AuthService.toResponse a.toUser (out.sign { sub := a.id, email := a.email }) (env 1).random)).run
      (system out ttlMs).handler (fun n => env (n + 1)) (s.spend (env 1)) := by
  have hsign : (system out ttlMs).handler (env 1) (.sign { sub := a.id, email := a.email }) s =
      (.ok (out.sign { sub := a.id, email := a.email }), s.spend (env 1)) := rfl
  refine (Prog.run_perform_ok (I := interface) env hsign).trans ?_
  simp only [AuthService.ofTokenService, RefreshTokenService.issueForNewSession, RefreshTokenService.createToken,
    Prog.bind_eq, Prog.read_bind, Prog.lift, Prog.ask_bind, Prog.run_ask]
  rw [Prog.lift_perform_bind, Prog.bind_assoc]
  rfl

/-- What a login is to do: it starts a session of the account, and changes nothing else. -/
structure LetsIn (out : Outside) (ctx : SessionContext) (a : UserAccount) (s : Registry)
    (done : Except Err Response × Registry) : Prop where
  response : ∃ response row, done.1 = .ok (.session response) ∧ response.user = ⟨a.id, a.email, a.name⟩ ∧
    response.accessToken = out.sign { sub := a.id, email := a.email } ∧ done.2.tokens = s.tokens ++ [row] ∧
    row.tokenHash = hashToken response.refreshToken ∧ row.userId = a.id ∧ row.revokedAt = none ∧
    row.userAgent = ctx.userAgent.map (varchar 512) ∧ row.ip = ctx.ip
  accounts : done.2.accounts = s.accounts

/-- It ends with an error and changes nothing. -/
structure TurnsAway (e : Err) (s : Registry) (done : Except Err Response × Registry) : Prop where
  result : done.1 = .error e
  tokens : done.2.tokens = s.tokens
  accounts : done.2.accounts = s.accounts

/-- What becomes of a login with the right password: the columns take the texts of the session, or do not. -/
def Opened (out : Outside) (ctx : SessionContext) (a : UserAccount) (s : Registry)
    (done : Except Err Response × Registry) : Prop :=
  match ctx.rejected out.inet with
  | none => LetsIn out ctx a s done
  | some e => TurnsAway (.db e) s done

/-- What follows the lookup of the e-mail. -/
def afterLookup (ttlMs : Int) (dto : LoginDto) (ctx : SessionContext) : Option UserAccount → Service Response
  | none => .throw (.unauthorized "Invalid credentials")
  | some a =>
    if !a.isActive then .throw (.unauthorized "Invalid credentials")
    else (PasswordService.verify a.passwordHash dto.password).bind fun ok =>
      if !ok then .throw (.unauthorized "Invalid credentials")
      else (AuthService.issueTokens ttlMs a.toUser ctx).bind fun response => .ret (.session response)

variable (out) in
theorem login_eq : program out ttlMs (.login dto ctx) =
    (Prog.perform (I := interface) (.findByEmailWithSecret dto.email)).bind (afterLookup ttlMs dto ctx) := by
  simp only [program, AuthService.login, UsersService.findByEmailWithSecret, Prog.bind_eq, Prog.bind_assoc, Prog.pure_eq_ret]
  congr 1
  funext found
  cases found with
  | none => rfl
  | some a =>
    simp only [afterLookup]
    split
    · rfl
    · rw [Prog.bind_assoc]
      congr 1
      funext ok
      cases ok <;> rfl

/-- The answer of argon2 to a password: what it throws counts as a wrong one. -/
def accepts (out : Outside) (hash password : String) : Bool := decide (out.verify hash password = .ok true)

theorem verify_run {f : Bool → Service Response} {hash password : String} :
    ((PasswordService.verify hash password).bind f).run (system out ttlMs).handler env s =
      (f (accepts out hash password)).run (system out ttlMs).handler (fun n => env (n + 1)) (s.spend (env 1)) ∧
    (((PasswordService.verify hash password).bind f).Admitted (system out ttlMs).handler
      (fun s e => (system out ttlMs).admits s e = true) env s →
      (f (accepts out hash password)).Admitted (system out ttlMs).handler
        (fun s e => (system out ttlMs).admits s e = true) (fun n => env (n + 1)) (s.spend (env 1))) := by
  have hanswer : ((system out ttlMs).handler (env 1) (.verify hash password) s).1 = out.verify hash password := rfl
  rw [PasswordService.verify, Prog.perform, Prog.handle, Prog.call_bind, Prog.run_call, Prog.Admitted, hanswer]
  unfold accepts
  cases out.verify hash password with
  | ok ok =>
    cases ok <;> exact ⟨rfl, fun h => h.2⟩
  | error e => exact ⟨rfl, fun h => h.2⟩

theorem Opened.spent {env : Env} {done : Except Err Response × Registry} (h : Opened out ctx a (s.spend env) done) :
    Opened out ctx a s done := by
  unfold Opened at h ⊢
  cases hrejected : ctx.rejected out.inet with
  | none =>
    rw [hrejected] at h
    exact ⟨h.response, h.accounts⟩
  | some e =>
    rw [hrejected] at h
    exact ⟨h.result, h.tokens, h.accounts⟩

variable (out ttlMs ctx env) in
/-- The end of a login with the right password: a session is issued to a user who is there, with a new secret. -/
theorem issueTokens_opens (ha : a ∈ s.accounts) (new : ∀ t ∈ s.tokens, t.tokenHash ≠ hashToken (env 1).random) :
    Opened out ctx a s (((AuthService.issueTokens ttlMs a.toUser ctx).bind fun response => .ret (.session response)).run
      (system out ttlMs).handler env s) := by
  have hresult := Prog.run_map_result (system out ttlMs).handler (AuthService.issueTokens ttlMs a.toUser ctx)
    Response.session env s
  have hstate := Prog.run_map (system out ttlMs).handler (AuthService.issueTokens ttlMs a.toUser ctx) Response.session env s
  rw [issueTokens_run] at hresult hstate
  unfold Opened
  cases hrejected : ctx.rejected out.inet with
  | none =>
    have hinsert : (system out ttlMs).handler (env 2) (.tokens (.insert (session ttlMs a.id ctx (env 1)))) (s.spend (env 1)) =
        _ := insertToken_exec out (s := (s.spend (env 1)).spend (env 2)) ⟨a, ha, rfl⟩ new hrejected
    rw [Prog.run_perform_ok (I := interface) (fun n => env (n + 1)) hinsert] at hresult hstate
    refine ⟨⟨_, (session ttlMs a.id ctx (env 1)).toRow (env 2).uuid, hresult, rfl, rfl, ?_, rfl, rfl, rfl, rfl, rfl⟩, ?_⟩
    · exact (congrArg Registry.tokens hstate).trans rfl
    · exact (congrArg Registry.accounts hstate).trans rfl
  | some e =>
    have hinsert : (system out ttlMs).handler (env 2) (.tokens (.insert (session ttlMs a.id ctx (env 1)))) (s.spend (env 1)) =
        _ := insertToken_exec_rejected out (s := (s.spend (env 1)).spend (env 2)) hrejected
    rw [Prog.run_perform_error (I := interface) (fun n => env (n + 1)) hinsert] at hresult hstate
    refine ⟨hresult, ?_, ?_⟩
    · exact (congrArg Registry.tokens hstate).trans rfl
    · exact (congrArg Registry.accounts hstate).trans rfl

/-- A login that finds the account of the e-mail. -/
theorem login_found (drawn : Drawn s) (served : (system out ttlMs).Serves (.login dto ctx) env s)
    (ha : a ∈ s.accounts) (found : s.accounts.find? (fun a => out.SameEmail a.email dto.email) = some a) :
    if a.isActive = true ∧ out.verify a.passwordHash dto.password = .ok true
    then Opened out ctx a s ((system out ttlMs).serve (.login dto ctx) env s)
    else TurnsAway (.unauthorized "Invalid credentials") s ((system out ttlMs).serve (.login dto ctx) env s) := by
  have hfind : (system out ttlMs).handler (env 1) (.findByEmailWithSecret dto.email) (s.spend (env 0)) =
      (.ok (some a), (s.spend (env 0)).spend (env 1)) := congrArg (fun x => (Except.ok x, _)) found
  have hserve : (system out ttlMs).serve (.login dto ctx) env s = (afterLookup ttlMs dto ctx (some a)).run
      (system out ttlMs).handler (fun n => env (n + 1)) ((s.spend (env 0)).spend (env 1)) :=
    (congrArg (fun p : Service Response => p.run (system out ttlMs).handler env (s.spend (env 0))) (login_eq out)).trans
      (Prog.run_perform_ok (I := interface) env hfind)
  have hadmitted : (afterLookup ttlMs dto ctx (some a)).Admitted (system out ttlMs).handler
      (fun s e => (system out ttlMs).admits s e = true) (fun n => env (n + 1)) ((s.spend (env 0)).spend (env 1)) := by
    have h : (program out ttlMs (.login dto ctx)).Admitted (system out ttlMs).handler
      (fun s e => (system out ttlMs).admits s e = true) env (s.spend (env 0)) := served.2
    rw [login_eq] at h
    exact ((Prog.admitted_perform_ok (I := interface) env hfind).mp h).2
  rw [hserve]
  by_cases hactive : a.isActive = true
  · simp only [afterLookup, hactive, Bool.not_true, Bool.false_eq_true, ↓reduceIte] at hadmitted ⊢
    obtain ⟨hrun, hnext⟩ := verify_run (f := fun ok => if (!ok) = true then .throw (.unauthorized "Invalid credentials")
      else (AuthService.issueTokens ttlMs a.toUser ctx).bind fun response => .ret (.session response))
    rw [hrun]
    replace hnext := hnext hadmitted
    by_cases hverify : out.verify a.passwordHash dto.password = .ok true
    · rw [if_pos ⟨trivial, hverify⟩]
      simp only [accepts, hverify, decide_true, Bool.not_true, Bool.false_eq_true, ↓reduceIte] at hnext ⊢
      -- The secret that is read after the signature is not that of a row.
      have hadmits : (system out ttlMs).admits (((s.spend (env 0)).spend (env 1)).spend (env 2)) (env 3) = true := hnext.1
      have new : ∀ t ∈ s.tokens, t.tokenHash ≠ hashToken (env 3).random := fun t ht heq => by
        have hdrawn : t.tokenHash.preimage ∈ s.generated.randoms := drawn t.origin (Tables.origin_mem (s := s.tables) ht)
        rw [heq] at hdrawn
        refine (Generated.admits_iff.mp hadmits).2 ?_
        exact List.mem_cons_of_mem _ (List.mem_cons_of_mem _ (List.mem_cons_of_mem _ hdrawn))
      have hopened := issueTokens_opens out ttlMs ctx (fun n => env (n + 1 + 1))
        (s := ((s.spend (env 0)).spend (env 1)).spend (env 2)) ha new
      exact hopened.spent.spent.spent
    · rw [if_neg fun h => hverify h.2]
      simp only [accepts, hverify, decide_false, Bool.not_false, ↓reduceIte]
      exact ⟨rfl, rfl, rfl⟩
  · rw [if_neg fun h => hactive h.1]
    simp only [afterLookup, hactive, Bool.not_false, ↓reduceIte]
    exact ⟨rfl, rfl, rfl⟩

/-- A login that finds nobody. -/
theorem login_unknown (unknown : s.accounts.find? (fun a => out.SameEmail a.email dto.email) = none) :
    (system out ttlMs).serve (.login dto ctx) env s =
      (.error (.unauthorized "Invalid credentials"), (s.spend (env 0)).spend (env 1)) := by
  have hfind : (system out ttlMs).handler (env 1) (.findByEmailWithSecret dto.email) (s.spend (env 0)) =
      (.ok none, (s.spend (env 0)).spend (env 1)) := congrArg (fun x => (Except.ok x, _)) unknown
  exact (congrArg (fun p : Service Response => p.run (system out ttlMs).handler env (s.spend (env 0))) (login_eq out)).trans
    (Prog.run_perform_ok (I := interface) env hfind)

end

/-- From every state that a run can reach, a login alone lets in who shows an active account's e-mail, up to case, and a
    password that argon2 accepts for it: it starts a session of the account and changes nothing else, unless the columns do
    not take the texts of the session, and then it ends with what the database rejects them with and changes nothing. Any
    other login ends with the same error, and changes nothing. -/
theorem login_decides (out : Outside) (ttlMs : Int) (generated : Generated) (d : State) (dto : LoginDto) (ctx : SessionContext)
    (env : Nat → Env) (hr : (system out ttlMs).Reach (fun _ _ => True) (.initial (start generated)) d)
    (served : (system out ttlMs).Serves (.login dto ctx) env d.shared) :
    let done := (system out ttlMs).serve (.login dto ctx) env d.shared
    (∀ a ∈ d.shared.accounts, out.SameEmail a.email dto.email → a.isActive = true →
      out.verify a.passwordHash dto.password = .ok true →
      (ctx.rejected out.inet = none → LetsIn out ctx a d.shared done) ∧
      ∀ e, ctx.rejected out.inet = some e → TurnsAway (.db e) d.shared done) ∧
    ((∀ a ∈ d.shared.accounts, out.SameEmail a.email dto.email →
      ¬ (a.isActive = true ∧ out.verify a.passwordHash dto.password = .ok true)) →
      TurnsAway (.unauthorized "Invalid credentials") d.shared done) := by
  have hsound := (reach_known hr).1
  have hdrawn := reach_drawn hr
  intro done
  constructor
  · intro a ha hsame hactive hverify
    have found : d.shared.accounts.find? (fun a => out.SameEmail a.email dto.email) = some a := by
      refine Table.find?_unique ha (decide_eq_true hsame) fun b hb hb' => ?_
      exact Table.eq_of_key hsound.emails hb ha ((of_decide_eq_true hb').trans (Eq.symm hsame))
    have hlogin := login_found hdrawn served ha found
    rw [if_pos ⟨hactive, hverify⟩, Opened] at hlogin
    constructor
    · intro htakes
      rwa [htakes] at hlogin
    · intro e hrejected
      rwa [hrejected] at hlogin
  · intro hnone
    cases found : d.shared.accounts.find? (fun a => out.SameEmail a.email dto.email) with
    | none =>
      have hlogin : done = _ := login_unknown found
      rw [hlogin]
      exact ⟨rfl, rfl, rfl⟩
    | some a =>
      have ha := List.mem_of_find?_eq_some found
      have hlogin := login_found hdrawn served ha found
      rw [if_neg (hnone a ha (by simpa using List.find?_some found))] at hlogin
      exact hlogin

/-- The user who has signed up logs in. -/
theorem login_decides_jane : ∃ d : State, (system plain 1000).Reach (fun _ _ => True) (.initial (start ⟨[], []⟩)) d ∧
    ∃ a ∈ d.shared.accounts, LetsIn plain {} a d.shared
      ((system plain 1000).serve (.login ⟨"jane@acme.com", "secret12"⟩ {}) (fun n => envAt (n + 10)) d.shared) := by
  have hrun : ∃ d : State, (system plain 1000).Reach (fun _ _ => True) (.initial (start ⟨[], []⟩)) d ∧
      (system plain 1000).Serves (.login ⟨"jane@acme.com", "secret12"⟩ {}) (fun n => envAt (n + 10)) d.shared ∧
      ∃ a ∈ d.shared.accounts, a.email = "jane@acme.com" ∧ a.isActive = true ∧ a.passwordHash = "$argon2id$secret12" :=
    System.reach_exists signsUp (by decide +kernel)
  obtain ⟨d, hd, served, a, ha, hemail, hactive, hhash⟩ := hrun
  refine ⟨d, hd, a, ha, ((login_decides plain 1000 ⟨[], []⟩ d _ {} _ hd served).1 a ha hemail hactive ?_).1 rfl⟩
  rw [hhash]
  decide +kernel

/-- From every state that a run can reach, whoever an account was signed up for can log in, even if the signup itself
    failed on the way, with all texts of a session that the columns take. -/
theorem signed_up_can_log_in (out : Outside) (ttlMs : Int) (generated : Generated) (d : State)
    (law : ∀ salt password, out.verify (out.hash salt password) password = .ok true)
    (hr : (system out ttlMs).Reach (fun _ _ => True) (.initial (start generated)) d) (a : UserAccount) (ha : a ∈ d.shared.accounts) :
    ∃ t ∈ d.threads, ∃ dto ctx, t.request = .signup dto ctx ∧ a.email = dto.email ∧ ∀ ctx' env,
      ctx'.rejected out.inet = none → (system out ttlMs).Serves (.login ⟨dto.email, dto.password⟩ ctx') env d.shared →
      LetsIn out ctx' a d.shared ((system out ttlMs).serve (.login ⟨dto.email, dto.password⟩ ctx') env d.shared) := by
  obtain ⟨t, ht, dto, ctx, salt, hreq, hemail, -, hhash, hactive⟩ := (reach_rooted hr).accounts a ha
  refine ⟨t, ht, dto, ctx, hreq, hemail, fun ctx' env takes served => ?_⟩
  refine ((login_decides out ttlMs generated d _ ctx' env hr served).1 a ha (congrArg out.citext hemail) hactive ?_).1 takes
  rw [hhash]
  exact law salt dto.password

/-- A user whose signup ended after the account was made, before there was a session. -/
theorem signed_up_can_log_in_jane : ∃ d : State, (system plain 1000).Reach (fun _ _ => True) (.initial (start ⟨[], []⟩)) d ∧
    d.shared.tokens = [] ∧ ∃ a ∈ d.shared.accounts, LetsIn plain {} a d.shared
      ((system plain 1000).serve (.login ⟨"jane@acme.com", "secret12"⟩ {}) (fun n => envAt (n + 10)) d.shared) := by
  have hrun : ∃ d : State, (system plain 1000).Reach (fun _ _ => True) (.initial (start ⟨[], []⟩)) d ∧
      (system plain 1000).Serves (.login ⟨"jane@acme.com", "secret12"⟩ {}) (fun n => envAt (n + 10)) d.shared ∧
      d.shared.tokens = [] ∧ d.shared.accounts ≠ [] ∧ d.threads.map Thread.request =
        [.signup { email := "jane@acme.com", name := "Jane", password := "secret12" } {}] :=
    System.reach_exists (signsUp.take 4 ++ [.call 0 .failed (envAt 4)]) (by decide +kernel)
  obtain ⟨d, hd, served, htokens, haccounts, hthreads⟩ := hrun
  obtain ⟨a, ha⟩ := List.exists_mem_of_ne_nil _ haccounts
  obtain ⟨t, ht, dto, ctx, hreq, -, hlogin⟩ := signed_up_can_log_in plain 1000 ⟨[], []⟩ d
    (fun salt password => (plain_law salt password password).trans (by simp)) hd a ha
  have hreq := hreq.symm.trans (List.mem_singleton.mp (hthreads ▸ List.mem_map_of_mem ht))
  cases hreq
  exact ⟨d, hd, htokens, a, ha, hlogin {} _ rfl served⟩

end TaskPlatform.Auth.Accounts

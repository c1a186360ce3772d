import TaskPlatform.Auth.Credentials
import TaskPlatform.Library.Log

/-! Where sessions come from, in every run: each goes back to somebody who knew the password that its user signed up with,
    and a token that was spent or logged out stays dead. -/

namespace TaskPlatform.Auth.Accounts
open Effects
open RefreshTokenService (hashToken)

/-! ### Programs -/

/-- The account as a response shows it: its name may have spaces that the column has cut. -/
def Shows (a : UserAccount) (user : AuthResponseUser) : Prop :=
  user.id = a.id ∧ user.email = a.email ∧ (user.name = a.name ∨ varchar 255 user.name = a.name)

/-- A response that starts or continues a session of an account. -/
structure Issued (out : Outside) (k : Facts) (a : UserAccount) (response : AuthResponseDto) : Prop where
  user : Shows a response.user
  access : response.accessToken = out.sign ⟨a.id, a.email⟩
  refresh : Belongs k response.refreshToken a.id

/-- What a request ends with. -/
def Delivers (out : Outside) (r : Request) (k : Facts) : Response → Prop
  | .session response => ∃ a, .account a ∈ k ∧ Issued out k a response ∧ (Opens out a r ∨ Presents k r a.id)
  | .loggedOut => ∃ raw, r = .logout raw
  | .profile user => ∃ a, .account a ∈ k ∧ r = .me a.id ∧ user = a.toUserEntity

section
variable {out : Outside} {ttlMs : Int} {r : Request} {k k' : Facts} {a : UserAccount} {raw : RawToken} {ctx : SessionContext}

theorem Issued.grow {response : AuthResponseDto} (h : Issued out k a response) (hk : k ≤ k') : Issued out k' a response :=
  ⟨h.user, h.access, h.refresh.grow hk⟩

theorem Delivers.grow {v : Response} (h : Delivers out r k v) (hk : k ≤ k') : Delivers out r k' v := by
  cases v with
  | session response =>
    obtain ⟨a, ha, hissued, hright⟩ := h
    exact ⟨a, hk ha, hissued.grow hk, hright.imp_right fun h => h.grow hk⟩
  | loggedOut => exact h
  | profile user =>
    obtain ⟨a, ha, hr, huser⟩ := h
    exact ⟨a, hk ha, hr, huser⟩

variable (out r) in
/-- The part of the contract that is about tokens. -/
def tokenContract : Contract Auth.interface Facts := (contract out r).on Call.tokens

/-- A program of `RefreshTokenService`. -/
theorem meets_tokens {α : Type} {p : Auth.Service α} {Q : Facts → α → Prop} (h : p.Meets (tokenContract out r) Q k) :
    (AuthService.ofTokenService p).Meets (contract out r) Q k :=
  Prog.Meets.lift id id id h

theorem createToken_meets {u f : Uuid} (h : Entitles out k r u) :
    (RefreshTokenService.createToken ttlMs u f ctx).Meets (tokenContract out r)
      (fun k raw => Belongs k raw u) k := by
  refine fun env env' => Prog.Meets.perform_bind h (fun _ _ h => h.elim) fun k' _ row hrow => ?_
  exact hrow

theorem issueTokens_meets {user : User} (ha : .account a ∈ k) (hopens : Opens out a r)
    (shown : Shows a ⟨user.id, user.email, user.name⟩) :
    (AuthService.issueTokens ttlMs user ctx).Meets (contract out r) (fun k response => Issued out k a response) k := by
  obtain ⟨hid, hemail, hname⟩ := shown
  refine Prog.Meets.perform_bind trivial (fun _ _ h => h.elim) fun k' hk token htoken => ?_
  have hmeets : (RefreshTokenService.issueForNewSession ttlMs user.id ctx).Meets (tokenContract out r)
      (fun k raw => Belongs k raw a.id) k' := by
    rw [show user.id = a.id from hid]
    exact fun env => createToken_meets (Or.inl ⟨a, hk ha, rfl, hopens⟩)
  refine (meets_tokens hmeets).bind fun k'' _ raw hraw => ⟨⟨hid, hemail, hname⟩, ?_, hraw⟩
  rw [← show user.id = a.id from hid, ← show user.email = a.email from hemail]
  exact htoken

theorem shows_account : Shows a ⟨a.id, a.email, a.name⟩ := ⟨rfl, rfl, Or.inl rfl⟩

theorem signup_meets (dto : SignupDto) (ctx : SessionContext) :
    (AuthService.signup ttlMs dto ctx).Meets (contract out (.signup dto ctx))
      (fun k response => ∃ a, .account a ∈ k ∧ Issued out k a response ∧ Opens out a (.signup dto ctx)) k := by
  refine Prog.Meets.bind (Q := fun _ _ => True) ?_ fun k hk taken _ => ?_
  · exact Prog.Meets.perform_bind trivial (fun _ _ h => h.elim) fun _ _ _ _ => trivial
  · cases taken with
    | true => trivial
    | false =>
      refine Prog.Meets.perform_bind trivial (fun _ _ h => h.elim) fun k hk hash hhash => ?_
      obtain ⟨salt, rfl⟩ := hhash
      refine Prog.Meets.perform_bind ⟨dto, ctx, salt, rfl, rfl⟩ (fun _ _ h => h.elim) fun k hk u hu => ?_
      obtain ⟨a, ha, hid, huemail, huname, hemail, hname, hhash⟩ := hu
      have hopens : Opens out a (.signup dto ctx) := .signup hemail hname hhash
      have hshown : Shows a ⟨u.id, u.email, u.name⟩ :=
        ⟨hid.symm, huemail.trans hemail.symm, Or.inr ((congrArg (varchar 255) huname).trans hname.symm)⟩
      exact (issueTokens_meets ha hopens hshown).mono fun k hk response hissued => ⟨a, hk ha, hissued, hopens⟩

theorem login_meets (dto : LoginDto) (ctx : SessionContext) :
    (AuthService.login ttlMs dto ctx).Meets (contract out (.login dto ctx))
      (fun k response => ∃ a, .account a ∈ k ∧ Issued out k a response ∧ Opens out a (.login dto ctx)) k := by
  refine Prog.Meets.perform_bind trivial (fun _ _ h => h.elim) fun k hk found hfound => ?_
  cases found with
  | none => trivial
  | some a =>
    obtain ⟨ha, hemail⟩ := hfound
    by_cases hactive : a.isActive = true
    · simp only [hactive, Bool.not_true, Bool.false_eq_true, ↓reduceIte]
      have hverify : (PasswordService.verify a.passwordHash dto.password).Meets (contract out (.login dto ctx))
          (fun _ ok => ok = true → out.verify a.passwordHash dto.password = .ok true) k := by
        refine Prog.Meets.handle ?_ fun _ _ _ => by rintro ⟨⟩
        exact Prog.Meets.perform trivial (fun _ _ h => h.elim) fun _ _ ok hok htrue => htrue ▸ hok
      refine hverify.bind fun k hk ok hok => ?_
      cases ok with
      | false => trivial
      | true =>
        have hopens : Opens out a (.login dto ctx) := .login hemail hactive (hok rfl)
        exact (issueTokens_meets (hk ha) hopens shows_account).mono fun k' hk' response hissued =>
          ⟨a, hk' (hk ha), hissued, hopens⟩
    · simp only [Bool.eq_false_iff.mpr hactive, Bool.not_false, ↓reduceIte]
      trivial

variable (out r) in
/-- The part of the contract that `refresh` sees. -/
def sessionContract : Contract AuthService.interface Facts where
  pre k c := allows out k r c.onAccounts
  post k c a :=
    match c, a with
    | .tokens c, a => tells out k (.tokens c) a
    | .findById id, user => ∀ u ∈ user, ∃ a, .account a ∈ k ∧ a.id = id ∧ u = a.toUser
  alike _ _ _ := False
  grows := (contract out r).grows

theorem meets_session {α : Type} {p : AuthService.Service α} {Q : Facts → α → Prop}
    (h : p.Meets (sessionContract out r) Q k) : (AuthService.ofSession p).Meets (contract out r) Q k := by
  refine Prog.Meets.lift id (fun {k c a} htells => ?_) id h
  cases c with
  | tokens c => exact htells
  | findById id =>
    rintro u hu
    cases a with
    | none => cases hu
    | some user =>
      obtain rfl := Option.some.inj hu
      obtain ⟨a, ha, hid, rfl⟩ := htells
      exact ⟨a, ha, hid, rfl⟩

/-- A rotation has spent the token that it was presented when it mints the next one. -/
theorem rotate_meets : (RefreshTokenService.rotate ttlMs raw ctx).Meets (tokenContract out (.refresh raw ctx))
    (fun k rotated => Belongs k rotated.rawToken rotated.userId ∧ Presents k (.refresh raw ctx) rotated.userId) k := by
  refine Prog.Meets.perform_bind trivial (fun _ _ h => h.elim) fun k hk found hfound => ?_
  cases found with
  | none => trivial
  | some t =>
    obtain ⟨hhash, ht, -⟩ := hfound
    by_cases hrev : t.revokedAt.isSome = true
    · simp only [hrev, ↓reduceIte]
      exact fun env => Prog.Meets.perform_bind trivial (fun _ _ h => h.elim) fun _ _ _ _ => trivial
    · simp only [hrev, Bool.false_eq_true, ↓reduceIte]
      refine fun env => ?_
      by_cases hexpired : t.expiresAt < env.now
      · simp only [Prog.ret_bind, hexpired, ↓reduceIte]
        trivial
      · simp only [Prog.ret_bind, hexpired, ↓reduceIte]
        refine fun env => Prog.Meets.perform_bind ⟨ht, rfl⟩ (fun _ _ h => h.elim) fun k' hk' _ hsaved => ?_
        have hpresents : Presents k' (.refresh raw ctx) t.userId :=
          ⟨raw, ctx, t.origin, rfl, hk' ht, hhash, rfl, hhash ▸ hsaved⟩
        refine (createToken_meets (Or.inr hpresents)).bind fun k'' hk'' next hnext => ?_
        exact ⟨hnext, hpresents.grow hk''⟩

theorem refresh_meets : (AuthService.refresh out.sign ttlMs raw ctx).Meets (sessionContract out (.refresh raw ctx))
    (fun k response => ∃ a, .account a ∈ k ∧ Issued out k a response ∧ Presents k (.refresh raw ctx) a.id) k := by
  have hrotate : (AuthService.ofTokens (RefreshTokenService.rotate ttlMs raw ctx)).Meets
      (sessionContract out (.refresh raw ctx)) (fun k rotated => Belongs k rotated.rawToken rotated.userId ∧
        Presents k (.refresh raw ctx) rotated.userId) k :=
    Prog.Meets.lift id id id rotate_meets
  refine hrotate.bind fun k hk rotated hrotated => ?_
  refine Prog.Meets.perform_bind trivial (fun _ _ h => h.elim) fun k' hk' found hfound => ?_
  cases found with
  | none => trivial
  | some user =>
    obtain ⟨a, ha, hid, rfl⟩ := hfound user rfl
    by_cases hactive : a.isActive = true
    · simp only [hactive, Bool.not_true, Bool.false_eq_true, ↓reduceIte]
      have hbelongs := hrotated.1.grow hk'
      have hpresents := hrotated.2.grow hk'
      exact ⟨a, ha, ⟨shows_account, rfl, hid ▸ hbelongs⟩, hid ▸ hpresents⟩
    · simp only [Bool.eq_false_iff.mpr hactive, Bool.not_false, ↓reduceIte]
      trivial

variable (out ttlMs) in
/-- Every request keeps the contract, and ends as it is to end. -/
theorem program_meets (r : Request) (k : Facts) : (program out ttlMs r).Meets (contract out r) (Delivers out r) k := by
  cases r with
  | signup dto ctx =>
    refine (signup_meets dto ctx).bind fun k _ response h => ?_
    obtain ⟨a, ha, hissued, hopens⟩ := h
    exact ⟨a, ha, hissued, Or.inl hopens⟩
  | login dto ctx =>
    refine (login_meets dto ctx).bind fun k _ response h => ?_
    obtain ⟨a, ha, hissued, hopens⟩ := h
    exact ⟨a, ha, hissued, Or.inl hopens⟩
  | refresh raw ctx =>
    refine (meets_session refresh_meets).bind fun k _ response h => ?_
    obtain ⟨a, ha, hissued, hpresents⟩ := h
    exact ⟨a, ha, hissued, Or.inr hpresents⟩
  | logout raw => exact fun env => ⟨trivial, fun _ _ h => h.elim, fun _ _ => ⟨fun _ _ => ⟨raw, rfl⟩, fun _ => trivial⟩⟩
  | me userId =>
    refine Prog.Meets.perform_bind trivial (fun _ _ h => h.elim) fun k hk found hfound => ?_
    cases found with
    | none => trivial
    | some user =>
      obtain ⟨a, ha, rfl, rfl⟩ := hfound
      exact ⟨a, ha, rfl, rfl⟩

end

/-! ### Every run -/

/-- Nobody has signed up yet. -/
def start (generated : Generated) : Registry := ⟨[], [], generated⟩

theorem start_sound (out : Outside) (generated : Generated) : (start generated).Sound out where
  emails := List.nodup_nil
  users := List.nodup_nil
  registered _ ha := nomatch ha
  ids := List.nodup_nil
  hashes := List.nodup_nil
  issued _ ht := nomatch ht
  owners _ ht := nomatch ht

/-- The request has signed the account up. -/
def SignedUp (out : Outside) (a : UserAccount) (r : Request) : Prop :=
  ∃ dto ctx salt, r = .signup dto ctx ∧ a.email = dto.email ∧ a.name = varchar 255 dto.name ∧
    a.passwordHash = out.hash salt dto.password ∧ a.isActive = true

/-- Every account was signed up, and every token is of an account that a request had the right to open a session of. -/
structure Rooted (out : Outside) (c : State) : Prop where
  accounts : ∀ a ∈ c.shared.accounts, ∃ t ∈ c.threads, SignedUp out a t.request
  tokens : ∀ o ∈ c.shared.tables.origins, ∃ a ∈ c.shared.accounts, a.id = o.userId ∧ ∃ t ∈ c.threads, Opens out a t.request

section
variable {out : Outside} {ttlMs : Int} {generated : Generated} {s : Registry} {env : Env} {r : Request} {c d : State}

theorem accounts_after {op : Call} {a : UserAccount} (ha : a ∈ (exec out env op (s.spend env)).2.accounts) :
    a ∈ s.accounts ∨ ∃ n, op = .insertUser n ∧ a = n.toRow env := by
  cases op with
  | insertUser n =>
    rcases insertUser_cases out (s.spend env) n env with ⟨-, -, heq⟩ | ⟨e, -, heq⟩
    · rw [exec, heq] at ha
      exact (List.mem_append.mp ha).imp_right fun ha => ⟨n, rfl, List.mem_singleton.mp ha⟩
    · rw [exec, heq] at ha
      exact Or.inl ha
  | _ => exact Or.inl ha

theorem origins_after {op : Call} {o : RefreshToken} (hallows : allows out s.facts r op)
    (ho : o ∈ (exec out env op (s.spend env)).2.tables.origins) :
    o ∈ s.tables.origins ∨ ∃ n, op = .tokens (.insert n) ∧ o = n.toRow env.uuid := by
  obtain ⟨row, hrow, rfl⟩ := Tables.mem_origins.mp ho
  cases op with
  | tokens op =>
    cases op with
    | findOne h => exact Or.inl ho
    | save t =>
      have hsave : (exec out env (.tokens (.save t)) (s.spend env)).2.tokens =
          ((s.spend env).tables.saveToken out.inet t).2.tokens :=
        rfl
      have hrow : row ∈ ((s.spend env).tables.saveToken out.inet t).2.tokens := hsave ▸ hrow
      rcases (Tables.mem_saveToken (s := (s.spend env).tables) hallows.1).mp hrow with rfl | ⟨hrow, -⟩
      · exact Or.inl hallows.1
      · exact Or.inl (Tables.origin_mem (s := s.tables) hrow)
    | insert n =>
      have hrow : row ∈ ((s.spend env).tables.insertToken out.inet (n.toRow env.uuid)).2.tokens := hrow
      rcases Tables.insertToken_cases out.inet (s.spend env).tables (n.toRow env.uuid) with ⟨heq, -⟩ | ⟨e, heq⟩
      · rw [heq] at hrow
        rcases List.mem_append.mp hrow with hrow | hrow
        · exact Or.inl (Tables.origin_mem (s := s.tables) hrow)
        · obtain rfl := List.mem_singleton.mp hrow
          exact Or.inr ⟨n, rfl, rfl⟩
      · rw [heq] at hrow
        exact Or.inl (Tables.origin_mem (s := s.tables) hrow)
    | updateByHash h now => exact Or.inl (Tables.revokeWhere_origins (s := (s.spend env).tables) _ now ▸ ho)
    | updateByFamily f now => exact Or.inl (Tables.revokeWhere_origins (s := (s.spend env).tables) _ now ▸ ho)
  | insertUser n =>
    rcases insertUser_cases out (s.spend env) n env with ⟨-, -, heq⟩ | ⟨e, -, heq⟩
    · rw [exec, heq] at ho
      exact Or.inl ho
    · rw [exec, heq] at ho
      exact Or.inl ho
  | _ => exact Or.inl ho

/-- What is known of the tables and of every request, in every run. -/
theorem reach_known (hr : (system out ttlMs).Reach (fun _ _ => True) (.initial (start generated)) d) :
    d.shared.Sound out ∧ ∀ t ∈ d.threads, System.Keeps.Meets Registry.facts (contract out) (Delivers out) d.shared t :=
  (keeps out ttlMs).reach (program_meets out ttlMs) (fun hk h => h.grow hk) (start_sound out generated) hr

theorem Rooted.step {m : Move interface Request} (h : Rooted out c) (hs : (system out ttlMs).step c m = some d)
    (hknown : ∀ t ∈ c.threads, System.Keeps.Meets Registry.facts (contract out) (Delivers out) c.shared t)
    (grows : c.shared.facts ≤ d.shared.facts) : Rooted out d := by
  have stays : ∀ {P : Request → Prop}, (∃ t ∈ c.threads, P t.request) → ∃ t ∈ d.threads, P t.request :=
    fun made => System.step_keeps_request hs made
  have old : ∀ o ∈ c.shared.tables.origins, ∃ a ∈ d.shared.accounts, a.id = o.userId ∧ ∃ t ∈ d.threads, Opens out a t.request := by
    intro o ho
    obtain ⟨a, ha, hid, hopens⟩ := h.tokens o ho
    exact ⟨a, grows (Registry.mem_account.mpr ha), hid, stays hopens⟩
  rcases System.Keeps.moved hknown hs with heq | ⟨env, heq⟩ | ⟨t, hmem, op, env, -, hallows, heq⟩
  · exact ⟨fun a ha => stays (h.accounts a (heq ▸ ha)), fun o ho => old o (heq ▸ ho)⟩
  · refine ⟨fun a ha => stays (h.accounts a ?_), fun o ho => old o ?_⟩
    · rw [heq] at ha
      exact ha
    · rw [heq] at ho
      exact ho
  · have hallows : allows out c.shared.facts t.request op := hallows
    constructor
    · intro a ha
      rw [heq] at ha
      rcases accounts_after ha with ha | ⟨n, rfl, rfl⟩
      · exact stays (h.accounts a ha)
      · obtain ⟨dto, ctx, salt, hreq, rfl⟩ := hallows
        exact stays ⟨t, hmem, dto, ctx, salt, hreq, rfl, rfl, rfl, rfl⟩
    · intro o ho
      rw [heq] at ho
      rcases origins_after hallows ho with ho | ⟨n, rfl, rfl⟩
      · exact old o ho
      · rcases hallows with ⟨a, ha, hid, hopens⟩ | ⟨raw, ctx, o, -, ho, -, hid, -⟩
        · exact ⟨a, grows ha, hid, stays ⟨t, hmem, hopens⟩⟩
        · obtain ⟨a, ha, hid', hopens⟩ := old o (Registry.mem_token.mp ho)
          exact ⟨a, ha, hid'.trans hid, hopens⟩

theorem reach_rooted (hr : (system out ttlMs).Reach (fun _ _ => True) (.initial (start generated)) d) : Rooted out d := by
  refine hr.invariant_with (P := Rooted out) (Q := fun d => d.shared.Sound out ∧ ∀ t ∈ d.threads,
    System.Keeps.Meets Registry.facts (contract out) (Delivers out) d.shared t) (fun hr => reach_known hr) ?_ ?_
  · exact ⟨fun _ ha => (nomatch ha), fun _ ho => (nomatch ho)⟩
  · intro c d m hc _ h _ hs
    exact h.step hs hc.2 ((keeps out ttlMs).step hc.1 hc.2 hs)

end

/-! ### Sessions go back to the password -/

/-- The e-mail and the password that a request shows. -/
def Request.credentials : Request → Option (String × String)
  | .signup dto _ => some (dto.email, dto.password)
  | .login dto _ => some (dto.email, dto.password)
  | _ => none

/-- The request shows the e-mail of the account, up to case, and the password that a signup of the account had when it
    made the hash that the account has. -/
def KnowsPassword (out : Outside) (c : State) (a : UserAccount) (r : Request) : Prop :=
  ∃ s ∈ c.threads, ∃ dto ctx salt, s.request = .signup dto ctx ∧ a.email = dto.email ∧
    a.passwordHash = out.hash salt dto.password ∧
    ∃ email, r.credentials = some (email, dto.password) ∧ out.SameEmail email a.email

section
variable {out : Outside} {c : State} {a : UserAccount} {r : Request}

/-- Who has the right to open a session knows the password. -/
theorem Rooted.knows (h : Rooted out c)
    (law : ∀ salt password guess, out.verify (out.hash salt password) guess = .ok (decide (guess = password)))
    (ha : a ∈ c.shared.accounts) (hopens : Opens out a r) : KnowsPassword out c a r := by
  obtain ⟨t, ht, dto, ctx, salt, hreq, hemail, -, hhash, -⟩ := h.accounts a ha
  refine ⟨t, ht, dto, ctx, salt, hreq, hemail, hhash, ?_⟩
  have guessed : ∀ {guess}, out.verify a.passwordHash guess = .ok true → guess = dto.password := fun hverify => by
    rw [hhash, law] at hverify
    exact of_decide_eq_true (Except.ok.inj hverify)
  cases hopens with
  | @signup dto' ctx' salt' email name hash =>
    have hverify : out.verify a.passwordHash dto'.password = .ok true := by rw [hash, law, decide_eq_true rfl]
    exact ⟨dto'.email, guessed hverify ▸ rfl, congrArg out.citext email.symm⟩
  | @login dto' ctx' email active verified =>
    exact ⟨dto'.email, guessed verified ▸ rfl, email.symm⟩

end

/-- In every run, every row of a refresh token is of an account whose e-mail and password some request has shown, the
    password that the hash of the account was made of; and who gets a response with tokens of an account has shown them,
    or a token of the account that is revoked by now. -/
theorem sessions_by_password (out : Outside) (ttlMs : Int) (generated : Generated) (d : State)
    (law : ∀ salt password guess, out.verify (out.hash salt password) guess = .ok (decide (guess = password)))
    (hr : (system out ttlMs).Reach (fun _ _ => True) (.initial (start generated)) d) :
    (∀ o ∈ d.shared.tokens, ∃ a ∈ d.shared.accounts, a.id = o.userId ∧ ∃ t ∈ d.threads, KnowsPassword out d a t.request) ∧
    ∀ t ∈ d.threads, ∀ response, t.result? = some (.ok (.session response)) →
      ∃ a ∈ d.shared.accounts, Shows a response.user ∧
        response.accessToken = out.sign { sub := a.id, email := a.email } ∧
        (∃ o ∈ d.shared.tokens, o.tokenHash = hashToken response.refreshToken ∧ o.userId = a.id) ∧
        (KnowsPassword out d a t.request ∨ ∃ raw ctx, t.request = .refresh raw ctx ∧
          ∃ o ∈ d.shared.tokens, o.tokenHash = hashToken raw ∧ o.userId = a.id ∧ o.revokedAt.isSome) := by
  have hrooted := reach_rooted hr
  obtain ⟨hsound, hmeets⟩ := reach_known hr
  -- A token that is known has a row.
  have row : ∀ {raw u}, Belongs d.shared.facts raw u → ∃ o ∈ d.shared.tokens, o.tokenHash = hashToken raw ∧ o.userId = u := by
    rintro raw u ⟨t, ht, hhash, hu⟩
    obtain ⟨o, ho, rfl⟩ := Tables.mem_origins.mp (Registry.mem_token.mp ht)
    exact ⟨o, ho, hhash, hu⟩
  constructor
  · intro o ho
    obtain ⟨a, ha, hid, t, ht, hopens⟩ := hrooted.tokens o.origin (Tables.origin_mem (s := d.shared.tables) ho)
    exact ⟨a, ha, hid, t, ht, hrooted.knows law ha hopens⟩
  · intro t ht response hresult
    obtain ⟨a, ha, hissued, hright⟩ := System.Keeps.result (hmeets t ht) hresult
    refine ⟨a, ha, hissued.user, hissued.access, row hissued.refresh, ?_⟩
    rcases hright with hopens | ⟨raw, ctx, o, hreq, ho, hhash, hid, hrev⟩
    · exact Or.inl (hrooted.knows law ha hopens)
    · obtain ⟨u, hu, huhash, huid⟩ := row ⟨o, ho, hhash, hid⟩
      exact Or.inr ⟨raw, ctx, hreq, u, hu, huhash, huid, hsound.revoked hu (huhash.symm ▸ hrev)⟩

/-! ### A session -/

/-- E-mails are compared as they are, and a hash shows its password. -/
def plain : Outside where
  citext := id
  hash _ password := "$argon2id$" ++ password
  verify hash guess := .ok (decide (hash = "$argon2id$" ++ guess))
  sign payload := payload.email
  inet _ := true

theorem plain_law (salt password guess : String) :
    plain.verify (plain.hash salt password) guess = .ok (decide (guess = password)) := by
  simp [plain, eq_comm]

/-- A request with nobody else between its calls, all of which are answered. -/
def alone (i : Nat) (r : Request) (calls n : Nat) : List (Move interface Request) :=
  .start r (envAt n) :: (List.range calls).map fun j => .call i .answered (envAt (n + 1 + j))

/-- A user signs up. -/
def signsUp : List (Move interface Request) :=
  alone 0 (.signup { email := "jane@acme.com", name := "Jane", password := "secret12" } {}) 5 0

/-- The user logs in as well, and refreshes the first session. -/
def logsIn : List (Move interface Request) :=
  alone 1 (.login { email := "jane@acme.com", password := "secret12" } {}) 4 10 ++
  alone 2 (.refresh (envAt 4).random {}) 4 20

/-- The tokens of both sessions of a user. -/
theorem sessions_by_password_jane : ∃ d : State, (system plain 1000).Reach (fun _ _ => True) (.initial (start ⟨[], []⟩)) d ∧
    d.shared.tokens.length = 3 ∧
    ∀ o ∈ d.shared.tokens, ∃ a ∈ d.shared.accounts, a.id = o.userId ∧ ∃ t ∈ d.threads, KnowsPassword plain d a t.request := by
  have hrun : ∃ d : State, (system plain 1000).Reach (fun _ _ => True) (.initial (start ⟨[], []⟩)) d ∧
      d.shared.tokens.length = 3 :=
    System.reach_exists (signsUp ++ logsIn) (by decide +kernel)
  obtain ⟨d, hd, hlength⟩ := hrun
  exact ⟨d, hd, hlength, (sessions_by_password plain 1000 ⟨[], []⟩ d plain_law hd).1⟩

/-! ### Spent tokens -/

section
variable {out : Outside} {ttlMs : Int} {k : Facts} {raw : RawToken} {ctx : SessionContext}

/-- What logs a token out that is known revokes it. -/
theorem logout_meets {k₀ : Facts} (known : ∃ t, .token t ∈ k₀ ∧ t.tokenHash = hashToken raw) (hk : k₀ ≤ k) (r : Request) :
    (program out ttlMs r).Meets (contract out r) (fun k _ => r = .logout raw → .revoked (hashToken raw) ∈ k) k := by
  by_cases hr : r = .logout raw
  · subst hr
    obtain ⟨t, ht, hhash⟩ := known
    refine fun env => ⟨trivial, fun _ _ h => h.elim, fun k' hk' => ⟨fun _ htells _ => ?_, fun _ => trivial⟩⟩
    exact htells t (hk' (hk ht)) hhash
  · exact (program_meets out ttlMs r k).mono fun _ _ _ _ h => absurd h hr

/-- A refresh with a token that is revoked returns nothing. -/
theorem refused_meets {k₀ : Facts} (revoked : .revoked (hashToken raw) ∈ k₀) (hk : k₀ ≤ k) (r : Request) :
    (program out ttlMs r).Meets (contract out r) (fun _ _ => ∀ ctx, r ≠ .refresh raw ctx) k := by
  by_cases hr : ∃ ctx, r = .refresh raw ctx
  · obtain ⟨ctx, rfl⟩ := hr
    have hrotate : (RefreshTokenService.rotate ttlMs raw ctx).Meets (tokenContract out (.refresh raw ctx))
        (fun _ _ => False) k := by
      refine Prog.Meets.perform_bind trivial (fun _ _ h => h.elim) fun k' hk' found hfound => ?_
      cases found with
      | none => trivial
      | some t =>
        have hrev : t.revokedAt.isSome = true := hfound.2.2 (hk' (hk revoked))
        simp only [hrev, ↓reduceIte]
        exact fun env => Prog.Meets.perform_bind trivial (fun _ _ h => h.elim) fun _ _ _ _ => trivial
    have hrefresh : (AuthService.refresh out.sign ttlMs raw ctx).Meets (sessionContract out (.refresh raw ctx))
        (fun _ _ => False) k := by
      refine Prog.Meets.bind (Q := fun _ _ => False) ?_ fun _ _ _ h => h.elim
      exact Prog.Meets.lift id id id hrotate
    exact (meets_session hrefresh).bind fun _ _ _ h => h.elim
  · exact (program_meets out ttlMs r k).mono fun _ _ _ _ ctx h => hr ⟨ctx, h⟩

end

/-- The token that a request presents to have it exchanged. -/
def Request.presents : Request → Option RawToken
  | .refresh raw _ => some raw
  | _ => none

/-- The token that a request has no further use for. -/
def Request.spends : Request → Option RawToken
  | .refresh raw _ | .logout raw => some raw
  | _ => none

/-- The refresh token that the response to a request holds. -/
def handedOut (t : Thread interface Request Response) : Option RawToken :=
  match t.result? with
  | some (.ok (.session response)) => some response.refreshToken
  | _ => none

def Returned (t : Thread interface Request Response) : Prop := ∃ v, t.result? = some (.ok v)

instance (t : Thread interface Request Response) : Decidable (Returned t) :=
  match h : t.result? with
  | some (.ok v) => .isTrue ⟨v, h⟩
  | some (.error e) => .isFalse fun ⟨v, hv⟩ => by cases h.symm.trans hv
  | none => .isFalse fun ⟨v, hv⟩ => by cases h.symm.trans hv

theorem handedOut_session {t : Thread interface Request Response} {raw : RawToken} (h : handedOut t = some raw) :
    ∃ response, t.result? = some (.ok (.session response)) ∧ response.refreshToken = raw := by
  unfold handedOut at h
  split at h
  · next response hresult => exact ⟨response, hresult, Option.some.inj h⟩
  · cases h

theorem presents_iff {r : Request} {raw : RawToken} : r.presents = some raw ↔ ∃ ctx, r = .refresh raw ctx := by
  cases r <;> simp [Request.presents]

/-- In every run, once a logout with a token that was handed out before, or a refresh with it, has returned, no refresh
    with the token that starts later returns. -/
theorem spent_token_dead (out : Outside) (ttlMs : Int) (generated : Generated) (b c d : State) (raw : RawToken)
    (hb : (system out ttlMs).Reach (fun _ _ => True) (.initial (start generated)) b)
    (given : ∃ s ∈ b.threads, handedOut s = some raw) (hc : (system out ttlMs).Reach (fun _ _ => True) b c)
    (spent : ∃ t ∈ c.threads, b.time ≤ t.started ∧ t.request.spends = some raw ∧ Returned t)
    (hd : (system out ttlMs).Reach (fun _ _ => True) c d) :
    ∀ u ∈ d.threads, c.time ≤ u.started → u.request.presents = some raw → ¬ Returned u := by
  have hbc : (system out ttlMs).Reach (fun _ _ => True) (.initial (start generated)) c := hb.trans hc
  obtain ⟨hbsound, hbmeets⟩ := reach_known hb
  obtain ⟨hcsound, hcmeets⟩ := reach_known hbc
  obtain ⟨t, ht, hstarted, hreq, v, hv⟩ := spent
  have revoked : .revoked (hashToken raw) ∈ c.shared.facts := by
    have hdelivers := System.Keeps.result (hcmeets t ht) hv
    revert hreq hdelivers
    cases hrequest : t.request with
    | logout raw' =>
      intro hreq _
      obtain rfl := Option.some.inj hreq
      obtain ⟨s, hs, hgiven⟩ := given
      obtain ⟨response, hresult, rfl⟩ := handedOut_session hgiven
      obtain ⟨a, -, hissued, -⟩ := System.Keeps.result (hbmeets s hs) hresult
      obtain ⟨o, ho, hhash, -⟩ := hissued.refresh
      have hlater := (keeps out ttlMs).later (program_meets out ttlMs) (fun hk h => h.grow hk)
        (fun r _ hk => logout_meets ⟨o, ho, hhash⟩ hk r) (fun hk h hr => hk (h hr)) hbsound hbmeets hb.timed hc t ht hstarted
      exact System.Keeps.result hlater hv hrequest
    | refresh raw' ctx =>
      intro hreq hdelivers
      obtain rfl := Option.some.inj hreq
      cases v with
      | session response =>
        obtain ⟨a, -, -, hopens | ⟨_, _, o, heq, -, -, -, hrev⟩⟩ := hdelivers
        · cases hopens
        · cases heq
          exact hrev
      | loggedOut =>
        obtain ⟨_, heq⟩ := hdelivers
        cases heq
      | profile user =>
        obtain ⟨a, -, heq, -⟩ := hdelivers
        cases heq
    | signup | login | me =>
      intro hreq
      cases hreq
  rintro u hu hlate hpresents ⟨v, hv⟩
  obtain ⟨ctx, hrefresh⟩ := presents_iff.mp hpresents
  have hlater := (keeps out ttlMs).later (program_meets out ttlMs) (fun hk h => h.grow hk)
    (fun r _ hk => refused_meets revoked hk r) (fun _ h => h) hcsound hcmeets hbc.timed hd u hu hlate
  exact System.Keeps.result hlater hv ctx hrefresh

/-- The token of a session is logged out, and presented afterwards. -/
theorem spent_token_dead_jane : ∃ d : State, (system plain 1000).Reach (fun _ _ => True) (.initial (start ⟨[], []⟩)) d ∧
    ∃ u ∈ d.threads, u.request.presents = some (envAt 4).random ∧ u.Ended ∧ ¬ Returned u := by
  have hrun : ∃ b ∈ (system plain 1000).run (fun _ _ => True) (.initial (start ⟨[], []⟩)) signsUp,
      (∃ s ∈ b.threads, handedOut s = some (envAt 4).random) ∧
      ∃ c ∈ (system plain 1000).run (fun _ _ => True) b (alone 1 (.logout (envAt 4).random) 1 10),
        (∃ t ∈ c.threads, b.time ≤ t.started ∧ t.request.spends = some (envAt 4).random ∧ Returned t) ∧
        ∃ d ∈ (system plain 1000).run (fun _ _ => True) c (alone 2 (.refresh (envAt 4).random {}) 2 20),
          ∃ u ∈ d.threads, c.time ≤ u.started ∧ u.request.presents = some (envAt 4).random ∧ u.next?.isNone = true := by
    decide +kernel
  obtain ⟨b, hb, given, c, hc, spent, d, hd, u, hu, hlate, hpresents, hended⟩ := hrun
  have hb := System.reach_of_run signsUp hb
  have hc := System.reach_of_run _ hc
  have hd := System.reach_of_run _ hd
  exact ⟨d, (hb.trans hc).trans hd, u, hu, hpresents, Option.isNone_iff_eq_none.mp hended,
    spent_token_dead plain 1000 ⟨[], []⟩ b c d (envAt 4).random hb given hc spent hd u hu hlate hpresents⟩

end TaskPlatform.Auth.Accounts

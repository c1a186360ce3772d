import TaskPlatform.Auth.AuthService
import TaskPlatform.Auth.Sessions

/-! What a `refresh` that fails leaves of the tokens: the presented token is marked before the next one is minted and
    before the user is looked at. -/

namespace TaskPlatform.Auth.AuthService
open Effects

/-- Unless reuse was detected, a call that fails leaves the tokens as they were; one that succeeds returns a token that
    can be presented next. -/
structure Atomic (s : Store) (out : Except Err AuthResponseDto × Store) : Prop where
  failed : ∀ e, out.1 = .error e → e ≠ reuseDetected → out.2.tokens = s.tokens
  returned : ∀ a, out.1 = .ok a → ∃ r ∈ out.2.tokens,
    r.tokenHash = RefreshTokenService.hashToken a.refreshToken ∧ r.revokedAt = none

/-- The primary keys, and the unique hash. -/
structure WellFormed (s : Store) : Prop where
  users : (s.users.map User.id).Nodup
  ids : (s.tokens.map RefreshToken.id).Nodup
  hashes : (s.tokens.map RefreshToken.tokenHash).Nodup

def Active (s : Store) (id : Uuid) : Prop := ∃ u ∈ s.users, u.id = id ∧ u.isActive = true

/-- The calls after the one that marks the token succeed: its answer arrives, the columns take the texts of the session,
    the new token is not taken, and the user is there and active. -/
def Completes (inet : String → Bool) (ctx : SessionContext) (s : Store) (r : RefreshToken) (fates : Nat → Fate)
    (env : Nat → Env) : Prop :=
  fates 1 = .answered ∧ fates 2 = .answered ∧ fates 3 = .answered ∧ ctx.rejected inet = none ∧
    RefreshTokenService.hashToken (env 2).random ∉ s.tokens.map RefreshToken.tokenHash ∧ Active s r.userId

/-- If the write to the tokens takes effect, it is one of a rotation that completes, one of a detected reuse, or one
    that changes no row. -/
def Whole (inet : String → Bool) (ctx : SessionContext) (s : Store) (raw : RawToken) (fates : Nat → Fate)
    (env : Nat → Env) : Prop :=
  ∀ r ∈ s.tokens, r.tokenHash = RefreshTokenService.hashToken raw → fates 0 = .answered → fates 1 ≠ .failed →
    (r.revokedAt = none → (env 1).now ≤ r.expiresAt → Completes inet ctx s r fates env) ∧
    (r.revokedAt.isSome = true → fates 1 = .lost → ∀ x ∈ s.tokens, x.familyId = r.familyId → x.revokedAt.isSome = true)

section
variable {sign : JwtPayload → String} {inet : String → Bool} {ttlMs : Int} {raw : RawToken} {ctx : SessionContext}
  {s : Store} {fates : Nat → Fate}
  {env : Nat → Env} {r : RefreshToken}

/-- What follows the rotation. -/
def check (sign : JwtPayload → String) (rotated : Rotated) : Service AuthResponseDto :=
  (Prog.perform (I := interface) (.findById rotated.userId)).bind fun user =>
    match user with
    | none => .throw (.unauthorized "Invalid session")
    | some user =>
      if !user.isActive then .throw (.unauthorized "Invalid session")
      else .ret (toResponse user (sign { sub := user.id, email := user.email }) rotated.rawToken)

/-- The insert of the next token, and what follows it. -/
def mint (sign : JwtPayload → String) (n : NewRefreshToken) (raw : RawToken) : Service AuthResponseDto :=
  (Prog.perform (I := interface) (.tokens (.insert n))).bind fun _ => check sign { userId := n.userId, rawToken := raw }

/-- What follows the mark. -/
def afterMark (sign : JwtPayload → String) (ttlMs : Int) (ctx : SessionContext) (r : RefreshToken) : Service AuthResponseDto :=
  .ask fun e => .ask fun e' => mint sign
    { userId := r.userId, familyId := r.familyId, tokenHash := RefreshTokenService.hashToken e.random,
      expiresAt := e'.now + ttlMs, userAgent := ctx.userAgent, ip := ctx.ip } e.random

/-- What follows the lookup. -/
def afterFind (sign : JwtPayload → String) (ttlMs : Int) (ctx : SessionContext) : Option RefreshToken → Service AuthResponseDto
  | none => .throw (.unauthorized "Invalid refresh token")
  | some r =>
    if r.revokedAt.isSome then
      .ask fun e => (Prog.perform (I := interface) (.tokens (.updateByFamily r.familyId e.now))).bind fun _ =>
        .throw reuseDetected
    else .ask fun e =>
      if r.expiresAt < e.now then .throw (.unauthorized "Refresh token expired")
      else .ask fun e => (Prog.perform (I := interface) (.tokens (.save (r.revoke e.now)))).bind fun _ =>
        afterMark sign ttlMs ctx r

/-- A call of the rotation, with what follows. -/
theorem ofTokens_bind {α β : Type} {c : Auth.Call} {k : c.Reply → Auth.Service α} {f : α → Service β}
    {k' : c.Reply → Service β} (h : ∀ a, (ofTokens (k a)).bind f = k' a) :
    (ofTokens ((Prog.perform (I := Auth.interface) c).bind k)).bind f = (Prog.perform (I := interface) (.tokens c)).bind k' := by
  have hlift : ofTokens ((Prog.perform (I := Auth.interface) c).bind k) =
      (Prog.perform (I := interface) (.tokens c)).bind fun a => ofTokens (k a) := Prog.lift_perform_bind c k
  rw [hlift, Prog.bind_assoc]
  exact congrArg (Prog.bind _) (funext h)

/-- The calls of `refresh` in turn. -/
theorem refresh_eq : refresh sign ttlMs raw ctx =
    (Prog.perform (I := interface) (.tokens (.findOne (RefreshTokenService.hashToken raw)))).bind (afterFind sign ttlMs ctx) := by
  refine ofTokens_bind fun current => ?_
  cases current with
  | none => rfl
  | some r =>
    simp only [afterFind]
    split
    · exact congrArg Prog.ask (funext fun e => ofTokens_bind fun _ => rfl)
    · refine congrArg Prog.ask (funext fun e => ?_)
      dsimp only [Prog.ret_bind]
      split
      · rfl
      · refine congrArg Prog.ask (funext fun e => ofTokens_bind fun _ => ?_)
        refine congrArg Prog.ask (funext fun e => congrArg Prog.ask (funext fun e' => ?_))
        change (ofTokens (((Prog.perform (I := Auth.interface) _).bind fun _ => .ret e.random).bind
          fun nextRaw => .ret { userId := r.userId, rawToken := nextRaw })).bind (check sign) = _
        rw [Prog.bind_assoc]
        exact ofTokens_bind fun _ => rfl

/-! ### From the mark on -/

theorem fault_ne : (system sign inet ttlMs).fault ≠ reuseDetected := by
  intro h
  cases h

variable (sign inet ttlMs fates env) in
theorem check_run (users : (s.users.map User.id).Nodup) (rotated : Rotated) :
    (fates 0 = .answered ∧ Active s rotated.userId ∧
      ∃ a, (system sign inet ttlMs).runUnder (check sign rotated) fates env s =
          (.ok a, (system sign inet ttlMs).spend s (env 1)) ∧
        a.refreshToken = rotated.rawToken) ∨
    (¬ (fates 0 = .answered ∧ Active s rotated.userId) ∧
      ∃ e, (system sign inet ttlMs).runUnder (check sign rotated) fates env s =
          (.error e, (system sign inet ttlMs).spend s (env 1)) ∧
        e ≠ reuseDetected) := by
  have hinvalid : Err.unauthorized "Invalid session" ≠ reuseDetected := by decide
  cases hfate : fates 0 with
  | failed => exact Or.inr ⟨fun h => (nomatch h.1), _, System.runUnder_failed hfate, fault_ne⟩
  | lost => exact Or.inr ⟨fun h => (nomatch h.1), _, System.runUnder_lost hfate, fault_ne⟩
  | answered =>
    have hcall : (system sign inet ttlMs).exec (env 1) (.findById rotated.userId) ((system sign inet ttlMs).spend s (env 1)) =
        (.ok (s.users.find? (·.id = rotated.userId)), (system sign inet ttlMs).spend s (env 1)) := rfl
    have hrun : (system sign inet ttlMs).runUnder (check sign rotated) fates env s = _ := System.runUnder_ok hfate hcall
    cases hu : s.users.find? (·.id = rotated.userId) with
    | none =>
      rw [hu] at hrun
      refine Or.inr ⟨?_, _, hrun, hinvalid⟩
      rintro ⟨-, u, hmem, hid, -⟩
      exact List.find?_eq_none.mp hu u hmem (decide_eq_true hid)
    | some u =>
      rw [hu] at hrun
      have hmem := List.mem_of_find?_eq_some hu
      have hid : u.id = rotated.userId := by simpa using List.find?_some hu
      by_cases hactive : u.isActive = true
      · simp only [hactive, Bool.not_true, Bool.false_eq_true, ↓reduceIte] at hrun
        exact Or.inl ⟨rfl, ⟨u, hmem, hid, hactive⟩, _, hrun, rfl⟩
      · rw [Bool.not_eq_true] at hactive
        simp only [hactive, Bool.not_false, ↓reduceIte] at hrun
        refine Or.inr ⟨?_, _, hrun, hinvalid⟩
        rintro ⟨-, v, hv, hvid, hvactive⟩
        obtain rfl := Table.eq_of_key users hv hmem (hvid.trans hid.symm)
        rw [hactive] at hvactive
        cases hvactive

theorem insert_exec (inet : String → Bool) (e : Env) (n : NewRefreshToken) :
    (n.context.rejected inet = none ∧ n.tokenHash ∉ s.tokens.map RefreshToken.tokenHash ∧ n.userId ∈ s.users.map User.id ∧
      exec inet e (.tokens (.insert n)) s = (.ok (n.toRow e.uuid), { s with tokens := s.tokens ++ [n.toRow e.uuid] })) ∨
    (¬ (n.context.rejected inet = none ∧ n.tokenHash ∉ s.tokens.map RefreshToken.tokenHash ∧
      n.userId ∈ s.users.map User.id) ∧ ∃ err, exec inet e (.tokens (.insert n)) s = (.error (.db err), s)) := by
  have hexec : exec inet e (.tokens (.insert n)) s = ((s.tables.insertToken inet (n.toRow e.uuid)).1,
    { s with tokens := (s.tables.insertToken inet (n.toRow e.uuid)).2.tokens }) := rfl
  rw [hexec, Tables.insertToken, NewRefreshToken.toRow_rejected]
  cases hcontext : n.context.rejected inet with
  | some err => exact Or.inr ⟨(fun h => by cases h.1), err, rfl⟩
  | none =>
    dsimp only
    by_cases hhash : Table.has RefreshToken.tokenHash (n.toRow e.uuid).tokenHash s.tables.tokens = true
    · rw [if_pos hhash]
      refine Or.inr ⟨fun h => h.2.1 ?_, _, rfl⟩
      exact List.mem_map.mpr (Table.has_iff.mp hhash)
    · rw [if_neg hhash]
      have hnew : n.tokenHash ∉ s.tokens.map RefreshToken.tokenHash :=
        fun h => hhash (Table.has_iff.mpr (List.mem_map.mp h))
      by_cases huser : n.userId ∈ s.users.map User.id
      · have hcontains : (!s.tables.users.contains (n.toRow e.uuid).userId) = false := by
          rw [Bool.not_eq_false', List.contains_iff_mem]
          exact huser
        rw [hcontains, if_neg Bool.false_ne_true]
        exact Or.inl ⟨rfl, hnew, huser, rfl⟩
      · have hcontains : (!s.tables.users.contains (n.toRow e.uuid).userId) = true := by
          rw [Bool.not_eq_true', ← Bool.not_eq_true, List.contains_iff_mem]
          exact huser
        rw [if_pos hcontains]
        exact Or.inr ⟨fun h => huser h.2.2, _, rfl⟩

variable (sign inet ttlMs fates env) in
/-- Either the new token is inserted and its user passes the check, or the call fails. -/
theorem mint_run (users : (s.users.map User.id).Nodup) (n : NewRefreshToken) (raw : RawToken) :
    (fates 0 = .answered ∧ fates 1 = .answered ∧ n.context.rejected inet = none ∧
      n.tokenHash ∉ s.tokens.map RefreshToken.tokenHash ∧ Active s n.userId ∧
      ∃ a s', (system sign inet ttlMs).runUnder (mint sign n raw) fates env s = (.ok a, s') ∧ a.refreshToken = raw ∧
        s'.tokens = s.tokens ++ [n.toRow (env 1).uuid]) ∨
    (¬ (fates 0 = .answered ∧ fates 1 = .answered ∧ n.context.rejected inet = none ∧
      n.tokenHash ∉ s.tokens.map RefreshToken.tokenHash ∧ Active s n.userId) ∧
      ∃ e s', (system sign inet ttlMs).runUnder (mint sign n raw) fates env s = (.error e, s') ∧ e ≠ reuseDetected ∧
        s.tokens ⊆ s'.tokens) := by
  have hsub : s.tokens ⊆ (exec inet (env 1) (.tokens (.insert n)) ((system sign inet ttlMs).spend s (env 1))).2.tokens := by
    rcases insert_exec inet (s := (system sign inet ttlMs).spend s (env 1)) (env 1) n with
      ⟨-, -, -, hcall⟩ | ⟨-, err, hcall⟩
    · rw [hcall]
      exact List.subset_append_left ..
    · rw [hcall]
      exact List.Subset.refl _
  cases hfate : fates 0 with
  | failed => exact Or.inr ⟨fun h => (nomatch h.1), _, _, System.runUnder_failed hfate, fault_ne, List.Subset.refl _⟩
  | lost => exact Or.inr ⟨fun h => (nomatch h.1), _, _, System.runUnder_lost hfate, fault_ne, hsub⟩
  | answered =>
    rcases insert_exec inet (s := (system sign inet ttlMs).spend s (env 1)) (env 1) n with
      ⟨hcontext, hnew, -, hcall⟩ | ⟨hnot, err, hcall⟩
    · have hrun : (system sign inet ttlMs).runUnder (mint sign n raw) fates env s = _ := System.runUnder_ok hfate hcall
      rw [hrun]
      rcases check_run sign inet ttlMs (fun i => fates (i + 1)) (fun i => env (i + 1))
        (s := { (system sign inet ttlMs).spend s (env 1) with tokens := s.tokens ++ [n.toRow (env 1).uuid] }) users
        { userId := n.userId, rawToken := raw } with ⟨hfate', hactive, a, hcheck, ha⟩ | ⟨hnot, e, hcheck, he⟩
      · exact Or.inl ⟨rfl, hfate', hcontext, hnew, hactive, a, _, hcheck, ha, rfl⟩
      · exact Or.inr ⟨fun h => hnot ⟨h.2.1, h.2.2.2.2⟩, e, _, hcheck, he, List.subset_append_left ..⟩
    · have hrun : (system sign inet ttlMs).runUnder (mint sign n raw) fates env s = _ := System.runUnder_error hfate hcall
      refine Or.inr ⟨?_, _, _, hrun, (fun h => by cases h), List.Subset.refl _⟩
      rintro ⟨-, -, hcontext, hnew, u, hu, hid, -⟩
      exact hnot ⟨hcontext, hnew, List.mem_map.mpr ⟨u, hu, hid⟩⟩

/-! ### Which calls are atomic -/

theorem atomic_of_same {out : Except Err AuthResponseDto × Store} {e : Err} (h : out.1 = .error e)
    (same : out.2.tokens = s.tokens) : Atomic s out where
  failed _ _ _ := same
  returned a ha := by
    rw [h] at ha
    cases ha

theorem save_exec (inet : String → Bool) (e : Env) (now : Date) (hr : r ∈ s.tokens) :
    exec inet e (.tokens (.save (r.revoke now))) s =
      (.ok (r.revoke now), { s with tokens := Table.replace RefreshToken.id (r.revoke now) s.tokens }) := by
  have hsave : s.tables.saveToken inet (r.revoke now) = (.ok (r.revoke now),
      { s.tables with tokens := Table.replace RefreshToken.id (r.revoke now) s.tokens }) :=
    Tables.saveToken_eq (t := r.revoke now) (Tables.origin_mem (s := s.tables) (r := r) hr)
  rw [exec, Auth.exec, hsave]

/-- The marked token is not a row of the tables before. -/
theorem mark_new (wf : WellFormed s) (hr : r ∈ s.tokens) (live : r.revokedAt = none) (now : Date) : r.revoke now ∉ s.tokens := by
  intro h
  have heq : r.revoke now = r := Table.eq_of_key wf.ids h hr rfl
  rw [← heq] at live
  cases live

theorem afterFind_usable (live : r.revokedAt = none) (unexpired : (env 1).now ≤ r.expiresAt) :
    (system sign inet ttlMs).runUnder (afterFind sign ttlMs ctx (some r)) (fun n => fates (n + 1)) (fun n => env (n + 1)) s =
      (system sign inet ttlMs).runUnder
        ((Prog.perform (I := interface) (.tokens (.save (r.revoke (env 1).now)))).bind fun _ => afterMark sign ttlMs ctx r)
        (fun n => fates (n + 1)) (fun n => env (n + 1)) s := by
  simp only [afterFind, live, Option.isSome_none, Bool.false_eq_true, ↓reduceIte, System.runUnder, Nat.zero_add,
    if_neg (Int.not_lt.mpr unexpired)]

theorem afterFind_expired (live : r.revokedAt = none) (expired : r.expiresAt < (env 1).now) :
    (system sign inet ttlMs).runUnder (afterFind sign ttlMs ctx (some r)) (fun n => fates (n + 1)) (fun n => env (n + 1)) s =
      (.error (.unauthorized "Refresh token expired"), s) := by
  simp only [afterFind, live, Option.isSome_none, Bool.false_eq_true, ↓reduceIte, System.runUnder, Nat.zero_add,
    if_pos expired]

/-- A token that can be rotated: its mark takes effect, and the call is atomic if all that follows succeeds. -/
theorem atomic_iff_completes (wf : WellFormed s) (hr : r ∈ s.tokens) (live : r.revokedAt = none)
    (unexpired : (env 1).now ≤ r.expiresAt) (marked : fates 1 ≠ .failed) :
    Atomic s ((system sign inet ttlMs).runUnder (afterFind sign ttlMs ctx (some r)) (fun n => fates (n + 1))
        (fun n => env (n + 1))
      ((system sign inet ttlMs).spend s (env 1))) ↔ Completes inet ctx s r fates env := by
  have hcall := save_exec inet (s := (system sign inet ttlMs).spend ((system sign inet ttlMs).spend s (env 1)) (env 2))
    (env 2) (env 1).now hr
  have hmark : r.revoke (env 1).now ∈ Table.replace RefreshToken.id (r.revoke (env 1).now) s.tokens :=
    (Table.mem_replace (x := r.revoke (env 1).now) ⟨r, hr, rfl⟩).mpr (Or.inl rfl)
  have hbroken : ∀ {out : Except Err AuthResponseDto × Store} {e : Err}, out.1 = .error e → e ≠ reuseDetected →
      r.revoke (env 1).now ∈ out.2.tokens → ¬ Atomic s out := by
    intro out e he hne hmem h
    exact mark_new wf hr live _ (h.failed e he hne ▸ hmem)
  rw [afterFind_usable live unexpired]
  cases hfate : fates 1 with
  | failed => exact absurd hfate marked
  | lost =>
    rw [System.runUnder_lost hfate]
    refine iff_of_false (hbroken rfl fault_ne ?_) fun h => ?_
    · exact (congrArg (r.revoke (env 1).now ∈ ·.2.tokens) hcall).mpr hmark
    · rw [Completes, hfate] at h
      cases h.1
  | answered =>
    have hhashes : (Table.replace RefreshToken.id (r.revoke (env 1).now) s.tokens).map RefreshToken.tokenHash =
        s.tokens.map RefreshToken.tokenHash := Table.map_replace wf.ids ⟨r, hr, rfl, rfl⟩
    rcases mint_run sign inet ttlMs (fun n => fates (n + 2)) (fun n => env (n + 2))
      (s := { (system sign inet ttlMs).spend ((system sign inet ttlMs).spend s (env 1)) (env 2) with
        tokens := Table.replace RefreshToken.id (r.revoke (env 1).now) s.tokens }) wf.users
      { userId := r.userId, familyId := r.familyId, tokenHash := RefreshTokenService.hashToken (env 2).random,
        expiresAt := (env 2).now + ttlMs, userAgent := ctx.userAgent, ip := ctx.ip } (env 2).random with
      ⟨hinsert, hfind, hcontext, hnew, hactive, a, s', hrun, ha, htokens⟩ | ⟨hnot, e, s', hrun, hne, hsub⟩
    · rw [(System.runUnder_ok hfate hcall).trans hrun]
      refine iff_of_true ⟨fun e he => (nomatch he), fun b hb => ?_⟩ ⟨hfate, hinsert, hfind, hcontext, hhashes ▸ hnew, hactive⟩
      obtain rfl := Except.ok.inj hb
      exact ⟨_, htokens ▸ List.mem_append_right _ (List.mem_singleton_self _), congrArg _ ha.symm, rfl⟩
    · rw [(System.runUnder_ok hfate hcall).trans hrun]
      refine iff_of_false (hbroken rfl hne (hsub hmark)) fun h => hnot ⟨h.2.1, h.2.2.1, h.2.2.2.1, ?_, h.2.2.2.2.2⟩
      exact hhashes.symm ▸ h.2.2.2.2.1

/-- A token that was revoked: the call is atomic if the write does not take effect, or is answered, or finds no live
    token in the family. -/
theorem atomic_reuse (wf : WellFormed s) (revoked : r.revokedAt.isSome = true) :
    Atomic s ((system sign inet ttlMs).runUnder (afterFind sign ttlMs ctx (some r)) (fun n => fates (n + 1))
        (fun n => env (n + 1))
      ((system sign inet ttlMs).spend s (env 1))) ↔
      (fates 1 ≠ .failed → fates 1 = .lost → ∀ x ∈ s.tokens, x.familyId = r.familyId → x.revokedAt.isSome = true) := by
  have hrest : (system sign inet ttlMs).runUnder (afterFind sign ttlMs ctx (some r)) (fun n => fates (n + 1))
      (fun n => env (n + 1))
      ((system sign inet ttlMs).spend s (env 1)) = (system sign inet ttlMs).runUnder
        ((Prog.perform (I := interface) (.tokens (.updateByFamily r.familyId (env 1).now))).bind fun _ => .throw reuseDetected)
        (fun n => fates (n + 1)) (fun n => env (n + 1)) ((system sign inet ttlMs).spend s (env 1)) := by
    simp only [afterFind, revoked, ↓reduceIte, System.runUnder]
  rw [hrest]
  cases hfate : fates 1 with
  | failed =>
    rw [System.runUnder_failed hfate]
    exact iff_of_true (atomic_of_same rfl rfl) fun h => absurd rfl h
  | answered =>
    rw [System.runUnder_ok (a := ()) hfate rfl]
    refine iff_of_true ⟨fun e he hne => absurd ?_ hne, by rintro a ⟨⟩⟩ (by rintro _ ⟨⟩)
    exact (Except.error.inj he).symm
  | lost =>
    rw [System.runUnder_lost hfate]
    have hexec : (exec inet (env 2) (.tokens (.updateByFamily r.familyId (env 1).now))
        ((system sign inet ttlMs).spend ((system sign inet ttlMs).spend s (env 1)) (env 2))).2.tokens =
        (s.tables.revokeWhere (·.familyId == r.familyId) (env 1).now).tokens := rfl
    constructor
    · intro h _ _ x hx hfam
      by_contra hlive
      have hmem : x.revoke (env 1).now ∈ (s.tables.revokeWhere (·.familyId == r.familyId) (env 1).now).tokens :=
        Tables.mem_revokeWhere.mpr (Or.inr ⟨x, hx, by simpa [hfam] using hlive, rfl⟩)
      rw [← hexec] at hmem
      exact mark_new wf hx (by simpa using hlive) _ ((h.failed _ rfl fault_ne) ▸ hmem)
    · intro h
      refine atomic_of_same rfl (hexec.trans ?_)
      have hsame := Tables.revokeWhere_same (s := s.tables) (·.familyId == r.familyId) (env 1).now fun x hx => ?_
      · rw [hsame]
        rfl
      · by_cases hfam : x.familyId = r.familyId
        · have := h (by simp) rfl x hx hfam
          simp [hfam, Option.isNone_eq_false_iff.mpr this]
        · simp [hfam]

/-- A `refresh` is atomic exactly if no write takes effect, or what follows the mark of the token succeeds as well. -/
theorem refresh_atomic_iff (sign : JwtPayload → String) (inet : String → Bool) (ttlMs : Int) (raw : RawToken)
    (ctx : SessionContext) {s : Store}
    (wf : WellFormed s) (fates : Nat → Fate) (env : Nat → Env) :
    Atomic s ((system sign inet ttlMs).runUnder (refresh sign ttlMs raw ctx) fates env s) ↔ Whole inet ctx s raw fates env := by
  have hvacuous : fates 0 ≠ .answered → Whole inet ctx s raw fates env := fun hne r _ _ h => absurd h hne
  rw [refresh_eq]
  cases hfate : fates 0 with
  | failed =>
    rw [System.runUnder_failed hfate]
    exact iff_of_true (atomic_of_same rfl rfl) (hvacuous (by simp [hfate]))
  | lost =>
    rw [System.runUnder_lost hfate]
    exact iff_of_true (atomic_of_same rfl rfl) (hvacuous (by simp [hfate]))
  | answered =>
    have hcall : (system sign inet ttlMs).exec (env 1) (.tokens (.findOne (RefreshTokenService.hashToken raw)))
        ((system sign inet ttlMs).spend s (env 1)) =
        (.ok (s.tokens.find? (·.tokenHash == RefreshTokenService.hashToken raw)),
          (system sign inet ttlMs).spend s (env 1)) := rfl
    rw [System.runUnder_ok hfate hcall]
    cases hfind : s.tokens.find? (·.tokenHash == RefreshTokenService.hashToken raw) with
    | none =>
      refine iff_of_true (atomic_of_same rfl rfl) fun r hr hash => ?_
      have := List.find?_eq_none.mp hfind r hr
      simp [hash] at this
    | some r =>
      obtain ⟨hr, hash⟩ := find?_hash (s := s.tables) hfind
      -- The presented token is the only one with its hash.
      have honly : Whole inet ctx s raw fates env ↔ (fates 1 ≠ .failed →
          (r.revokedAt = none → (env 1).now ≤ r.expiresAt → Completes inet ctx s r fates env) ∧
          (r.revokedAt.isSome = true → fates 1 = .lost → ∀ x ∈ s.tokens, x.familyId = r.familyId → x.revokedAt.isSome = true)) := by
        refine ⟨fun h => h r hr hash hfate, fun h x hx hxh _ => ?_⟩
        obtain rfl := Table.eq_of_key wf.hashes hx hr (hxh.trans hash.symm)
        exact h
      rw [honly]
      by_cases hrevoked : r.revokedAt.isSome = true
      · rw [atomic_reuse wf hrevoked]
        exact forall_congr' fun _ => (and_iff_right_of_imp fun _ hlive => by simp [hlive] at hrevoked).symm.trans
          (and_congr_right fun _ => ⟨fun h _ => h, fun h => h hrevoked⟩)
      · have hlive : r.revokedAt = none := by simpa using hrevoked
        rcases Int.lt_or_le r.expiresAt (env 1).now with hexpired | hunexpired
        · rw [afterFind_expired hlive hexpired]
          refine iff_of_true (atomic_of_same rfl rfl) fun _ => ⟨fun _ h => ?_, fun h => absurd h hrevoked⟩
          exact absurd hexpired (Int.not_lt.mpr h)
        · by_cases hmarked : fates 1 = .failed
          · rw [afterFind_usable hlive hunexpired, System.runUnder_failed hmarked]
            exact iff_of_true (atomic_of_same rfl rfl) fun h => absurd hmarked h
          · rw [atomic_iff_completes wf hr hlive hunexpired hmarked]
            exact ⟨fun h _ => ⟨fun _ _ => h, fun h => absurd h hrevoked⟩, fun h => (h hmarked).1 hlive hunexpired⟩

end
/-! ### One session -/

/-- The session of a user who is active, or not any more. -/
def oneSession (active : Bool) : Store where
  users := [{ id := 1, email := "ada@example.com", name := "Ada", isActive := active }]
  tokens :=
    [{ id := 10, userId := 1, tokenHash := ⟨"presented"⟩, familyId := 20, expiresAt := 100, revokedAt := none,
       userAgent := none, ip := none }]
  generated := ⟨[], []⟩

theorem oneSession_wellFormed (active : Bool) : WellFormed (oneSession active) where
  users := List.nodup_singleton _
  ids := List.nodup_singleton _
  hashes := List.nodup_singleton _

theorem refresh_atomic_active : Atomic (oneSession true) ((system (fun _ => "jwt") (fun _ => true) 1000).runUnder
    (refresh (fun _ => "jwt") 1000 "presented" {}) (fun _ => .answered) envAt (oneSession true)) := by
  refine (refresh_atomic_iff _ _ _ _ _ (oneSession_wellFormed true) _ _).mpr fun r hr _ _ _ => ?_
  obtain rfl := List.mem_singleton.mp hr
  refine ⟨fun _ _ => ⟨rfl, rfl, rfl, rfl, by decide, ?_⟩, fun h => (nomatch h)⟩
  exact ⟨_, List.mem_singleton_self _, rfl, rfl⟩

/-- The token of an inactive user is revoked and another one minted that nobody gets, before the user is looked at. -/
theorem refresh_inactive : ¬ ∀ (s : Store) (raw : RawToken) (ctx : SessionContext) (fates : Nat → Fate) (env : Nat → Env),
    WellFormed s → (∃ i, ∀ j, j ≠ i → fates j = .answered) →
      Atomic s ((system (fun _ => "jwt") (fun _ => true) 1000).runUnder (refresh (fun _ => "jwt") 1000 raw ctx)
        fates env s) := by
  intro h
  have hatomic := h (oneSession false) "presented" {} (fun _ => .answered) envAt (oneSession_wellFormed false) ⟨0, fun _ _ => rfl⟩
  have hsame := hatomic.failed (.unauthorized "Invalid session") rfl (by decide)
  revert hsame
  decide +kernel

end TaskPlatform.Auth.AuthService

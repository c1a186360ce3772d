import TaskPlatform.Library.Serial
import TaskPlatform.Auth.InFlight

/-! What the token rows are for: a session machine with one state for each family. One after another, the
    operations of `RefreshTokenService` do what the machine does, as long as the database takes what they insert. -/

namespace TaskPlatform.Auth
open Effects

/-! ### The machine -/

/-- The state of a family: one token that can still be rotated, until it expires, or none. -/
inductive Session where
  | live (token : RawToken) (expiry : Date)
  | dead
  deriving DecidableEq

/-- The family of every token ever issued, and the state of every family. -/
structure Machine where
  family : RawToken → Option Uuid
  session : Uuid → Option Session

inductive SessionOp where
  | issue (family : Uuid) (token : RawToken) (expiry : Date)
  | rotate (token : RawToken) (now : Date) (next : RawToken) (expiry : Date)
  | revoke (token : RawToken)

/-- How an operation ends; the machine never ends one with `rejected`. -/
inductive Outcome where
  | issued (token : RawToken)
  | rotated (token : RawToken)
  | revoked
  | unknown
  | reuse
  | expired
  | rejected
  deriving DecidableEq

namespace Machine

def empty : Machine := ⟨fun _ => none, fun _ => none⟩

/-- The family becomes live with a new token. -/
def mint (m : Machine) (f : Uuid) (token : RawToken) (expiry : Date) : Machine where
  family := Function.update m.family token (some f)
  session := Function.update m.session f (some (.live token expiry))

def kill (m : Machine) (f : Uuid) : Machine := { m with session := Function.update m.session f (some .dead) }

/-- The token is the one of its family that can still be rotated. -/
def live? (m : Machine) (token : RawToken) (f : Uuid) : Option Date :=
  match m.session f with
  | some (.live t expiry) => if t = token then some expiry else none
  | _ => none

def step : SessionOp → Machine → Outcome × Machine
  | .issue f token expiry, m => (.issued token, m.mint f token expiry)
  | .rotate token now next expiry, m =>
    match m.family token with
    | none => (.unknown, m)
    | some f =>
      match m.live? token f with
      | some until_ => if now ≤ until_ then (.rotated next, m.mint f next expiry) else (.expired, m)
      | none => (.reuse, m.kill f)
  | .revoke token, m =>
    match m.family token with
    | none => (.revoked, m)
    | some f => if (m.live? token f).isSome then (.revoked, m.kill f) else (.revoked, m)

end Machine

/-! ### The rows that represent a state of the machine -/

/-- The rows of the tables are the tokens of the machine; a family is live with its row that is not revoked. -/
structure Tables.Represents (s : Tables) (m : Machine) : Prop where
  family : ∀ t f, m.family t = some f ↔ ∃ r ∈ s.tokens, r.tokenHash = ⟨t⟩ ∧ r.familyId = f
  live : ∀ f t e, m.session f = some (.live t e) ↔
    ∃ r ∈ s.tokens, r.familyId = f ∧ r.revokedAt = none ∧ r.tokenHash = ⟨t⟩ ∧ r.expiresAt = e
  dead : ∀ f, m.session f = some .dead ↔
    (∃ r ∈ s.tokens, r.familyId = f) ∧ ∀ r ∈ s.tokens, r.familyId = f → r.revokedAt.isSome

/-- What the rows keep between operations. -/
structure Tables.Sound (s : Tables) : Prop extends s.WellFormed where
  randoms : ∀ r ∈ s.tokens, r.tokenHash.preimage ∈ s.generated.randoms
  owners : ∀ r ∈ s.tokens, r.userId ∈ s.users

section
variable {inet : String → Bool} {s : Tables} {m : Machine} {r row : RefreshToken} {f : Uuid} {now : Date}

theorem Tables.revokeWhere_same (p : RefreshToken → Bool) (now : Date) (h : ∀ r ∈ s.tokens, (p r && r.revokedAt.isNone) = false) :
    s.revokeWhere p now = s := by
  have hrows : (s.tokens.map fun r => if p r && r.revokedAt.isNone then r.revoke now else r) = s.tokens := by
    conv_rhs => rw [← List.map_id' s.tokens]
    exact List.map_congr_left fun r hr => if_neg (by simp [h r hr])
  rw [Tables.revokeWhere, hrows]

/-! ### Killing a family -/

section Kill
variable {p : RefreshToken → Bool}
  (all : ∀ r ∈ s.tokens, (p r && r.revokedAt.isNone) = true ↔ r.familyId = f ∧ r.revokedAt = none)
include all

/-- A row of another family stays, and no row joins it. -/
theorem mem_kill_other {g : Uuid} (hr : r.familyId = g) (ne : g ≠ f) : r ∈ (s.revokeWhere p now).tokens ↔ r ∈ s.tokens := by
  rw [Tables.mem_revokeWhere]
  constructor
  · rintro (⟨hr, -⟩ | ⟨q, hq, hp, rfl⟩)
    · exact hr
    · exact absurd (hr.symm.trans ((all q hq).mp hp).1) ne
  · intro hm
    refine Or.inl ⟨hm, Bool.eq_false_iff.mpr fun hp => ne (hr.symm.trans ((all r hm).mp hp).1)⟩

/-- The rows of the family are revoked. -/
theorem kill_revoked (hr : r ∈ (s.revokeWhere p now).tokens) (hf : r.familyId = f) : r.revokedAt.isSome := by
  rcases Tables.mem_revokeWhere.mp hr with ⟨hm, hp⟩ | ⟨q, -, -, rfl⟩
  · rw [Option.isSome_iff_ne_none]
    intro hnone
    rw [(all r hm).mpr ⟨hf, hnone⟩] at hp
    cases hp
  · rfl

/-- Revoking what is not revoked yet in a family kills it. -/
theorem Tables.Represents.kill (h : s.Represents m) (member : ∃ r ∈ s.tokens, r.familyId = f) :
    (s.revokeWhere p now).Represents (m.kill f) where
  family t g := by
    rw [show (m.kill f).family = m.family from rfl, h.family]
    constructor
    · rintro ⟨r, hr, hh, hf⟩
      obtain ⟨r', hr', ho⟩ := Tables.mem_origins.mp (Tables.revokeWhere_origins (s := s) p now ▸ Tables.origin_mem hr)
      obtain ⟨-, hhash, hfam⟩ := RefreshToken.origin_eq ho
      exact ⟨r', hr', hhash.trans hh, hfam.trans hf⟩
    · rintro ⟨r', hr', hh, hf⟩
      obtain ⟨r, hr, ho⟩ := Tables.mem_origins.mp (Tables.revokeWhere_origins (s := s) p now ▸ Tables.origin_mem hr')
      obtain ⟨-, hhash, hfam⟩ := RefreshToken.origin_eq ho
      exact ⟨r, hr, hhash.trans hh, hfam.trans hf⟩
  live g t e := by
    by_cases hg : g = f
    · subst hg
      simp only [Machine.kill, Function.update_self, Option.some.injEq, reduceCtorEq, false_iff]
      rintro ⟨r, hr, hf, hlive, -⟩
      have := kill_revoked all hr hf
      rw [hlive] at this
      cases this
    · simp only [Machine.kill, Function.update_of_ne hg, h.live]
      refine exists_congr fun r => and_congr_left fun hr => (mem_kill_other all hr.1 hg).symm
  dead g := by
    by_cases hg : g = f
    · subst hg
      simp only [Machine.kill, Function.update_self, true_iff]
      obtain ⟨r, hr, hf⟩ := member
      obtain ⟨r', hr', ho⟩ := Tables.mem_origins.mp (Tables.revokeWhere_origins (s := s) p now ▸ Tables.origin_mem hr)
      exact ⟨⟨r', hr', (RefreshToken.origin_eq ho).2.2.trans hf⟩, fun r hr hf => kill_revoked all hr hf⟩
    · simp only [Machine.kill, Function.update_of_ne hg, h.dead]
      refine and_congr (exists_congr fun r => and_congr_left fun hr => (mem_kill_other all hr hg).symm) ?_
      exact forall_congr' fun r => ⟨fun h hr hf => h ((mem_kill_other all hf hg).mp hr) hf,
        fun h hr hf => h ((mem_kill_other all hf hg).mpr hr) hf⟩

end Kill

/-- A new token makes a family live that has no live token. -/
theorem Tables.Represents.mint (h : s.Represents m) {n : NewRefreshToken} {id : Uuid} {raw : RawToken}
    (hash : n.tokenHash = ⟨raw⟩) (fresh : ∀ r ∈ s.tokens, r.tokenHash ≠ ⟨raw⟩)
    (revoked : ∀ r ∈ s.tokens, r.familyId = n.familyId → r.revokedAt.isSome) :
    Tables.Represents { s with tokens := s.tokens ++ [n.toRow id] } (m.mint n.familyId raw n.expiresAt) where
  family t g := by
    simp only [List.mem_append, List.mem_singleton, or_and_right, exists_or, exists_eq_left,
      NewRefreshToken.toRow_tokenHash, NewRefreshToken.toRow_familyId, hash, Sha256.mk.injEq]
    by_cases ht : t = raw
    · subst ht
      have hnone : ¬ ∃ r ∈ s.tokens, r.tokenHash = ⟨t⟩ ∧ r.familyId = g := fun ⟨r, hr, hh, _⟩ => fresh r hr hh
      simp [Machine.mint, hnone]
    · simp [Machine.mint, Function.update_of_ne ht, h.family, Ne.symm ht]
  live g t e := by
    simp only [List.mem_append, List.mem_singleton, or_and_right, exists_or, exists_eq_left,
      NewRefreshToken.toRow_tokenHash, NewRefreshToken.toRow_familyId, hash, Sha256.mk.injEq]
    by_cases hg : g = n.familyId
    · subst hg
      have hnone : ¬ ∃ r ∈ s.tokens, r.familyId = n.familyId ∧ r.revokedAt = none ∧ r.tokenHash = ⟨t⟩ ∧ r.expiresAt = e := by
        rintro ⟨r, hr, hf, hlive, -⟩
        have := revoked r hr hf
        rw [hlive] at this
        cases this
      simp [Machine.mint, hnone, NewRefreshToken.toRow]
    · simp [Machine.mint, Function.update_of_ne hg, h.live, Ne.symm hg]
  dead g := by
    simp only [List.mem_append, List.mem_singleton, or_and_right, exists_or, exists_eq_left, or_imp, forall_and,
      forall_eq, NewRefreshToken.toRow_familyId]
    by_cases hg : g = n.familyId
    · subst hg
      simp [Machine.mint, NewRefreshToken.toRow]
    · simp [Machine.mint, Function.update_of_ne hg, h.dead, Ne.symm hg]

/-! ### What the rows keep -/

theorem Tables.Sound.spend (h : s.Sound) (env : Env) : (s.spend env).Sound where
  toWellFormed := h.toWellFormed.spend env
  randoms r hr := List.mem_cons_of_mem _ (h.randoms r hr)
  owners := h.owners

theorem Tables.Sound.revokeWhere (h : s.Sound) (p : RefreshToken → Bool) (now : Date) : (s.revokeWhere p now).Sound where
  toWellFormed := (Tables.revokeWhere_keeps h.toWellFormed p now).1
  randoms r hr := by
    rcases Tables.mem_revokeWhere.mp hr with ⟨hr, -⟩ | ⟨q, hq, -, rfl⟩
    · exact h.randoms r hr
    · exact h.randoms q hq
  owners r hr := by
    rcases Tables.mem_revokeWhere.mp hr with ⟨hr, -⟩ | ⟨q, hq, -, rfl⟩
    · exact h.owners r hr
    · exact h.owners q hq

/-- A save that revokes a row, in the words of an update. -/
theorem saveToken_revoke (h : s.Sound) (hr : r ∈ s.tokens) (live : r.revokedAt = none) :
    s.saveToken inet (r.revoke now) = (.ok (r.revoke now), s.revokeWhere (·.tokenHash == r.tokenHash) now) := by
  have horigin : (r.revoke now).origin ∈ s.origins := Tables.origin_mem (r := r) hr
  rw [Tables.saveToken_eq horigin]
  refine Prod.ext rfl ?_
  rw [Tables.revokeWhere]
  refine congrArg (fun tokens => { s with tokens }) (List.map_congr_left fun q hq => ?_)
  by_cases hid : q.id = r.id
  · obtain rfl := Table.eq_of_key h.toWellFormed.nodup_ids hq hr hid
    simp [RefreshToken.revoke, live]
  · have hhash : q.tokenHash ≠ r.tokenHash := fun heq => hid (by rw [Table.eq_of_key h.toWellFormed.nodup_hashes hq hr heq])
    simp [RefreshToken.revoke, hid, hhash]

/-- The insert of a token with a new hash that the columns and the foreign key take. -/
theorem insertToken_new {n : NewRefreshToken} {id : Uuid} (fresh : ∀ r ∈ s.tokens, r.tokenHash ≠ n.tokenHash)
    (registered : n.userId ∈ s.users) (takes : n.context.rejected inet = none) :
    s.insertToken inet (n.toRow id) = (.ok (n.toRow id), { s with tokens := s.tokens ++ [n.toRow id] }) := by
  have hhas : ¬ Table.has RefreshToken.tokenHash n.tokenHash s.tokens = true := fun h => by
    obtain ⟨r, hr, heq⟩ := Table.has_iff.mp h
    exact fresh r hr heq
  rw [Tables.insertToken, NewRefreshToken.toRow_rejected, takes, NewRefreshToken.toRow_tokenHash]
  dsimp only
  rw [if_neg hhas, if_neg (by simpa [NewRefreshToken.toRow] using registered)]

/-- The insert of a token that they do not take. -/
theorem insertToken_refused (inet : String → Bool) (s : Tables) (n : NewRefreshToken) (id : Uuid)
    (refused : ¬ (n.userId ∈ s.users ∧ n.context.rejected inet = none)) :
    ∃ e, s.insertToken inet (n.toRow id) = (.error (.db e), s) := by
  rw [Tables.insertToken, NewRefreshToken.toRow_rejected]
  cases hrejected : n.context.rejected inet with
  | some e => exact ⟨e, rfl⟩
  | none =>
    dsimp only
    split
    · exact ⟨_, rfl⟩
    · have hcontains : (!s.users.contains (n.toRow id).userId) = true := by
        simpa [NewRefreshToken.toRow] using fun h => refused ⟨h, hrejected⟩
      rw [if_pos hcontains]
      exact ⟨_, rfl⟩

theorem Tables.Sound.insert (h : s.Sound) {n : NewRefreshToken} {id : Uuid}
    (fresh : ∀ r ∈ s.tokens, r.tokenHash ≠ n.tokenHash) (issued : id ∈ s.generated.uuids)
    (new : ∀ r ∈ s.tokens, r.id ≠ id) (family : n.familyId ∈ s.generated.uuids)
    (random : n.tokenHash.preimage ∈ s.generated.randoms) (registered : n.userId ∈ s.users) :
    Tables.Sound { s with tokens := s.tokens ++ [n.toRow id] } where
  toWellFormed := by
    refine (Tables.insert_keeps h.toWellFormed ?_ issued ?_ family).1
    · intro hm
      obtain ⟨r, hr, heq⟩ := List.mem_map.mp hm
      exact fresh r hr heq
    · intro hm
      obtain ⟨o, ho, heq⟩ := List.mem_map.mp hm
      obtain ⟨r, hr, rfl⟩ := Tables.mem_origins.mp ho
      exact new r hr heq
  randoms r hr := by
    rcases List.mem_append.mp hr with hr | hr
    · exact h.randoms r hr
    · obtain rfl := List.mem_singleton.mp hr
      exact random
  owners r hr := by
    rcases List.mem_append.mp hr with hr | hr
    · exact h.owners r hr
    · obtain rfl := List.mem_singleton.mp hr
      exact registered

/-! ### One operation -/

/-- What an operation of the service is for the machine. -/
def Request.op (ttlMs : Int) (r : Request) (env : Nat → Env) : SessionOp :=
  match r with
  | .issueForNewSession _ _ => .issue (env 0).uuid (env 0).random ((env 0).now + ttlMs)
  | .rotate raw _ => .rotate raw (env 1).now (env 2).random ((env 2).now + ttlMs)
  | .revoke raw => .revoke raw

/-- The database takes the token that the operation inserts, if it comes to that: its user is there, and the columns take
    the texts of the session. -/
def Request.Insertable (inet : String → Bool) (r : Request) (env : Nat → Env) (s : Tables) : Prop :=
  match r with
  | .issueForNewSession userId ctx => userId ∈ s.users ∧ ctx.rejected inet = none
  | .rotate raw ctx =>
    (∃ r ∈ s.tokens, r.tokenHash = RefreshTokenService.hashToken raw ∧ r.revokedAt = none ∧ (env 1).now ≤ r.expiresAt) →
      ctx.rejected inet = none
  | .revoke _ => True

instance (inet : String → Bool) (r : Request) (env : Nat → Env) (s : Tables) : Decidable (r.Insertable inet env s) :=
  match r with
  | .issueForNewSession _ _ => inferInstanceAs (Decidable (_ ∧ _))
  | .rotate _ _ => inferInstanceAs (Decidable (_ → _))
  | .revoke _ => isTrue trivial

/-- What the caller sees of it. -/
def outcome : Except Err Response → Outcome
  | .ok (.issued raw) => .issued raw
  | .ok (.rotated r) => .rotated r.rawToken
  | .ok .revoked => .revoked
  | .error e =>
    if e = .unauthorized "Invalid refresh token" then .unknown
    else if e = reuseDetected then .reuse
    else if e = .unauthorized "Refresh token expired" then .expired
    else .rejected

variable {ttlMs : Int} {env : Nat → Env} {users : List Uuid}

/-- The tables with these users represent the machine, and keep what they keep. -/
structure Simulates (users : List Uuid) (s : Tables) (m : Machine) : Prop where
  sound : s.Sound
  users : s.users = users
  represents : s.Represents m

theorem Simulates.spend (h : Simulates users s m) (env : Env) : Simulates users (s.spend env) m :=
  ⟨h.sound.spend env, h.users, ⟨h.represents.family, h.represents.live, h.represents.dead⟩⟩

theorem Tables.Sound.new_hash (h : s.Sound) {e : Env} (hadm : s.generated.admits e = true) :
    ∀ r ∈ s.tokens, r.tokenHash ≠ ⟨e.random⟩ := by
  intro r hr heq
  have hmem := h.randoms r hr
  rw [heq] at hmem
  exact (Generated.admits_iff.mp hadm).2 hmem

theorem Tables.Sound.new_id (h : s.Sound) {e : Env} (hadm : s.generated.admits e = true) :
    ∀ r ∈ s.tokens, r.id ≠ e.uuid ∧ r.familyId ≠ e.uuid := by
  intro r hr
  obtain ⟨hid, hfamily⟩ := h.issued r.origin (Tables.origin_mem hr)
  have hnew := (Generated.admits_iff.mp hadm).1
  exact ⟨fun heq => hnew (heq ▸ hid), fun heq => hnew (heq ▸ hfamily)⟩

/-- The insert of a new token, in a family without a live one. -/
theorem Simulates.mint (t : Int) (h : Simulates users s m) {n : NewRefreshToken} {raw : RawToken} {e : Env}
    (hadm : s.generated.admits e = true) (hash : n.tokenHash = ⟨raw⟩) (fresh : ∀ r ∈ s.tokens, r.tokenHash ≠ ⟨raw⟩)
    (random : raw ∈ s.generated.randoms) (family : n.familyId ∈ s.generated.uuids) (registered : n.userId ∈ users)
    (takes : n.context.rejected inet = none) (revoked : ∀ r ∈ s.tokens, r.familyId = n.familyId → r.revokedAt.isSome) :
    (system inet t).handler e (.insert n) s =
        (.ok (n.toRow e.uuid), { s.spend e with tokens := s.tokens ++ [n.toRow e.uuid] }) ∧
      Simulates users { s.spend e with tokens := s.tokens ++ [n.toRow e.uuid] }
        (m.mint n.familyId raw n.expiresAt) := by
  have hspent := h.spend e
  have hfresh : ∀ r ∈ s.tokens, r.tokenHash ≠ n.tokenHash := hash ▸ fresh
  have hregistered : n.userId ∈ (s.spend e).users := hspent.users ▸ registered
  have hrandom : n.tokenHash.preimage ∈ (s.spend e).generated.randoms := hash ▸ List.mem_cons_of_mem _ random
  refine ⟨insertToken_new (s := s.spend e) hfresh hregistered takes, ?_, hspent.users, ?_⟩
  · exact hspent.sound.insert hfresh (List.mem_cons_self ..) (fun r hr => (h.sound.new_id hadm r hr).1)
      (List.mem_cons_of_mem _ family) hrandom hregistered
  · exact hspent.represents.mint hash fresh revoked

/-- What the service inserts for a new session. -/
def issued (ttlMs : Int) (userId : Uuid) (ctx : SessionContext) (env : Nat → Env) : NewRefreshToken :=
  ⟨userId, ⟨(env 0).random⟩, (env 0).uuid, (env 0).now + ttlMs, ctx.userAgent, ctx.ip⟩

variable (inet ttlMs env) in
theorem issue_serve (s : Tables) (userId : Uuid) (ctx : SessionContext) :
    (system inet ttlMs).serve (.issueForNewSession userId ctx) env s =
      ((Prog.perform (I := interface) (.insert (issued ttlMs userId ctx env))).bind fun _ =>
        Prog.ret (.issued (env 0).random)).run (system inet ttlMs).handler env (s.spend (env 0)) := by
  simp only [System.serve, system, program, RefreshTokenService.issueForNewSession, RefreshTokenService.createToken,
    Prog.bind_eq, Prog.read_bind, Prog.ask_bind, Prog.run_ask, Prog.bind_assoc]
  rfl

theorem issue_refines (h : Simulates users s m) {userId : Uuid} {ctx : SessionContext}
    (served : (system inet ttlMs).Serves (.issueForNewSession userId ctx) env s)
    (insertable : (Request.issueForNewSession userId ctx).Insertable inet env s) :
    (Machine.step (Request.op ttlMs (.issueForNewSession userId ctx) env) m).1 =
        outcome ((system inet ttlMs).serve (.issueForNewSession userId ctx) env s).1 ∧
      Simulates users ((system inet ttlMs).serve (.issueForNewSession userId ctx) env s).2
        (Machine.step (Request.op ttlMs (.issueForNewSession userId ctx) env) m).2 := by
  obtain ⟨hadm, hadm₁, -⟩ := served
  obtain ⟨hregistered, htakes⟩ := insertable
  obtain ⟨hinsert, hmint⟩ := (h.spend (env 0)).mint ttlMs (n := issued ttlMs userId ctx env) hadm₁ rfl (h.sound.new_hash hadm)
    (List.mem_cons_self ..) (List.mem_cons_self ..) (h.users ▸ hregistered) htakes
    fun r hr heq => absurd heq (h.sound.new_id hadm r hr).2
  rw [issue_serve, Prog.run_perform_ok (I := interface) env hinsert]
  exact ⟨rfl, hmint⟩

theorem issue_differs {userId : Uuid} {ctx : SessionContext}
    (refused : ¬ (Request.issueForNewSession userId ctx).Insertable inet env s) :
    (Machine.step (Request.op ttlMs (.issueForNewSession userId ctx) env) m).1 ≠
      outcome ((system inet ttlMs).serve (.issueForNewSession userId ctx) env s).1 := by
  obtain ⟨e, heq⟩ := insertToken_refused inet ((s.spend (env 0)).spend (env 1)) (issued ttlMs userId ctx env) (env 1).uuid
    refused
  have hinsert : (system inet ttlMs).handler (env 1) (.insert (issued ttlMs userId ctx env)) (s.spend (env 0)) =
      (.error (.db e), (s.spend (env 0)).spend (env 1)) := heq
  rw [issue_serve, Prog.run_perform_error (I := interface) env hinsert]
  simp [Request.op, Machine.step, outcome, reuseDetected]

/-! ### Looking a token up -/

/-- The row of a presented token, and what the machine knows of it. -/
theorem Simulates.lookup (h : Simulates users s m) (raw : RawToken) :
    (s.tokens.find? (·.tokenHash == ⟨raw⟩) = none ∧ m.family raw = none) ∨
    ∃ r ∈ s.tokens, s.tokens.find? (·.tokenHash == ⟨raw⟩) = some r ∧ r.tokenHash = ⟨raw⟩ ∧
      m.family raw = some r.familyId ∧
      ((r.revokedAt.isSome ∧ m.live? raw r.familyId = none) ∨
        (r.revokedAt = none ∧ m.live? raw r.familyId = some r.expiresAt)) := by
  cases hf : s.tokens.find? (·.tokenHash == ⟨raw⟩) with
  | none =>
    refine Or.inl ⟨rfl, Option.eq_none_iff_forall_ne_some.mpr fun f hfam => ?_⟩
    obtain ⟨r, hr, hh, -⟩ := (h.represents.family raw f).mp hfam
    exact List.find?_eq_none.mp hf r hr (by simp [hh])
  | some r =>
    obtain ⟨hr, hh⟩ := find?_hash hf
    refine Or.inr ⟨r, hr, rfl, hh, (h.represents.family raw _).mpr ⟨r, hr, hh, rfl⟩, ?_⟩
    cases hrev : r.revokedAt with
    | some t =>
      refine Or.inl ⟨rfl, ?_⟩
      rw [Machine.live?]
      split
      · next t e hlive =>
        obtain ⟨q, hq, -, hnone, hhash, -⟩ := (h.represents.live _ t e).mp hlive
        rw [if_neg]
        rintro rfl
        obtain rfl := Table.eq_of_key h.sound.toWellFormed.nodup_hashes hr hq (hh.trans hhash.symm)
        rw [hnone] at hrev
        cases hrev
      · rfl
    | none =>
      refine Or.inr ⟨rfl, ?_⟩
      rw [Machine.live?, (h.represents.live r.familyId raw r.expiresAt).mpr ⟨r, hr, rfl, hrev, hh, rfl⟩]
      exact if_pos rfl

/-- The rows that a family's revocation reaches, told by the family or by its live token. -/
theorem Simulates.kill_family (h : Simulates users s m) (hr : r ∈ s.tokens) :
    Simulates users (s.revokeWhere (·.familyId == r.familyId) now) (m.kill r.familyId) where
  sound := h.sound.revokeWhere _ _
  users := h.users
  represents := h.represents.kill (by simp) ⟨r, hr, rfl⟩

theorem Simulates.kill_token (h : Simulates users s m) (hr : r ∈ s.tokens) (live : r.revokedAt = none) :
    Simulates users (s.revokeWhere (·.tokenHash == r.tokenHash) now) (m.kill r.familyId) where
  sound := h.sound.revokeWhere _ _
  users := h.users
  represents := by
    refine h.represents.kill (fun q hq => ?_) ⟨r, hr, rfl⟩
    simp only [Bool.and_eq_true, beq_iff_eq, Option.isNone_iff_eq_none]
    refine and_congr_left fun hlive => ⟨fun hh => ?_, fun hf => ?_⟩
    · rw [Table.eq_of_key h.sound.toWellFormed.nodup_hashes hq hr hh]
    · have hlive_r := (h.represents.live r.familyId r.tokenHash.preimage r.expiresAt).mpr ⟨r, hr, rfl, live, rfl, rfl⟩
      have hlive_q := (h.represents.live r.familyId q.tokenHash.preimage q.expiresAt).mpr ⟨q, hq, hf, hlive, rfl, rfl⟩
      have heq := hlive_r.symm.trans hlive_q
      simp only [Option.some.injEq, Session.live.injEq] at heq
      exact congrArg Sha256.mk heq.1.symm

theorem revoke_refines (h : Simulates users s m) {raw : RawToken} :
    (Machine.step (Request.op ttlMs (.revoke raw) env) m).1 =
        outcome ((system inet ttlMs).serve (.revoke raw) env s).1 ∧
      Simulates users ((system inet ttlMs).serve (.revoke raw) env s).2
        (Machine.step (Request.op ttlMs (.revoke raw) env) m).2 := by
  have h₁ : Simulates users ((s.spend (env 0)).spend (env 1)) m := (h.spend _).spend _
  have hserve : (system inet ttlMs).serve (.revoke raw) env s =
      (.ok .revoked, ((s.spend (env 0)).spend (env 1)).revokeWhere (·.tokenHash == ⟨raw⟩) (env 0).now) := rfl
  rw [hserve]
  rcases h₁.lookup raw with ⟨hfind, hfam⟩ | ⟨r, hr, hfind, hh, hfam, ⟨hrev, hlive⟩ | ⟨hrev, hlive⟩⟩
  · have hsame := Tables.revokeWhere_same (s := (s.spend (env 0)).spend (env 1)) (·.tokenHash == ⟨raw⟩)
      (env 0).now fun q hq => by simp [by simpa using List.find?_eq_none.mp hfind q hq]
    simp only [Request.op, Machine.step, hfam, hsame]
    exact ⟨rfl, h₁⟩
  · have hsame := Tables.revokeWhere_same (s := (s.spend (env 0)).spend (env 1)) (·.tokenHash == ⟨raw⟩)
        (env 0).now fun q hq => by
      by_cases heq : q.tokenHash = ⟨raw⟩
      · rw [Table.eq_of_key h₁.sound.toWellFormed.nodup_hashes hq hr (heq.trans hh.symm)]
        simp [hrev]
      · simp [heq]
    simp only [Request.op, Machine.step, hfam, hlive, hsame]
    exact ⟨rfl, h₁⟩
  · simp only [Request.op, Machine.step, hfam, hlive]
    exact ⟨rfl, hh ▸ h₁.kill_token hr hrev⟩

/-- The token that follows the row in its family. -/
def successor (ttlMs : Int) (r : RefreshToken) (ctx : SessionContext) (env : Nat → Env) : NewRefreshToken :=
  ⟨r.userId, ⟨(env 2).random⟩, r.familyId, (env 2).now + ttlMs, ctx.userAgent, ctx.ip⟩

/-- The tables when a token that can be rotated has been revoked. -/
def marked (s : Tables) (r : RefreshToken) (env : Nat → Env) : Tables :=
  (((s.spend (env 0)).spend (env 1)).spend (env 2)).revokeWhere (·.tokenHash == r.tokenHash) (env 1).now

variable (env) in
/-- A rotation of such a token: what is left then, and which values it generates. -/
theorem rotate_serve (h : Simulates users s m) {raw : RawToken} (ctx : SessionContext) (hr : r ∈ s.tokens)
    (hfind : s.tokens.find? (·.tokenHash == ⟨raw⟩) = some r) (hrev : r.revokedAt = none)
    (hexp : (env 1).now ≤ r.expiresAt) :
    (system inet ttlMs).serve (.rotate raw ctx) env s =
      ((Prog.perform (I := interface) (.insert (successor ttlMs r ctx env))).bind fun _ =>
        Prog.ret (.rotated ⟨r.userId, (env 2).random⟩)).run (system inet ttlMs).handler (fun n => env (n + 2))
          (marked s r env) ∧
    ((system inet ttlMs).Serves (.rotate raw ctx) env s ↔ s.generated.admits (env 0) = true ∧
      (s.spend (env 0)).generated.admits (env 1) = true ∧
      ((s.spend (env 0)).spend (env 1)).generated.admits (env 2) = true ∧
      (marked s r env).generated.admits (env 3) = true) := by
  have hcall : (system inet ttlMs).handler (env 1) (.findOne ⟨raw⟩) (s.spend (env 0)) =
      (.ok (s.tokens.find? (·.tokenHash == ⟨raw⟩)), (s.spend (env 0)).spend (env 1)) := rfl
  have hserve : (system inet ttlMs).serve (.rotate raw ctx) env s =
      (program ttlMs (.rotate raw ctx)).run (system inet ttlMs).handler env (s.spend (env 0)) := rfl
  have hserved : (system inet ttlMs).Serves (.rotate raw ctx) env s ↔ s.generated.admits (env 0) = true ∧
      (program ttlMs (.rotate raw ctx)).Admitted (system inet ttlMs).handler
        (fun s e => s.generated.admits e = true) env (s.spend (env 0)) := Iff.rfl
  simp only [program, RefreshTokenService.rotate, RefreshTokenService.createToken, RefreshTokenService.hashToken,
    Prog.bind_eq, Prog.bind_assoc] at hserve hserved
  rw [Prog.run_perform_ok (I := interface) env hcall, hfind] at hserve
  rw [Prog.admitted_perform_ok (I := interface) env hcall, hfind] at hserved
  simp only [hrev, Option.isSome_none, Bool.false_eq_true, ↓reduceIte, Prog.read_bind, Prog.ask_bind, Prog.run_ask,
    Prog.admitted_ask, Prog.ite_bind, Nat.zero_add, Int.not_lt.mpr hexp, Prog.bind_assoc] at hserve hserved
  have hsave : (system inet ttlMs).handler (env 2) (.save (r.revoke (env 1).now)) ((s.spend (env 0)).spend (env 1)) =
      (.ok (r.revoke (env 1).now), marked s r env) :=
    saveToken_revoke (((h.spend (env 0)).spend (env 1)).spend (env 2)).sound hr hrev
  rw [Prog.run_perform_ok (I := interface) _ hsave] at hserve
  rw [Prog.admitted_perform_ok (I := interface) _ hsave] at hserved
  simp only [Prog.run_ask, Prog.admitted_ask] at hserve hserved
  refine ⟨hserve, hserved.trans ?_⟩
  refine and_congr_right fun _ => and_congr_right fun _ => and_congr_right fun _ => ?_
  refine (Prog.admitted_perform (I := interface)).trans (and_iff_left fun _ _ => ?_)
  trivial

variable (ttlMs env) in
/-- The token stays revoked where the columns do not take the texts of the next one. -/
theorem rotate_refused (h : Simulates users s m) {raw : RawToken} {ctx : SessionContext} (hr : r ∈ s.tokens)
    (hfind : s.tokens.find? (·.tokenHash == ⟨raw⟩) = some r) (hrev : r.revokedAt = none)
    (hexp : (env 1).now ≤ r.expiresAt) (refused : ctx.rejected inet ≠ none) :
    ∃ e, (system inet ttlMs).serve (.rotate raw ctx) env s = (.error (.db e), (marked s r env).spend (env 3)) := by
  obtain ⟨e, heq⟩ := insertToken_refused inet ((marked s r env).spend (env 3)) (successor ttlMs r ctx env) (env 3).uuid
    fun htakes => refused htakes.2
  have hinsert : (system inet ttlMs).handler (env 3) (.insert (successor ttlMs r ctx env)) (marked s r env) =
      (.error (.db e), (marked s r env).spend (env 3)) := heq
  exact ⟨e, (rotate_serve env h ctx hr hfind hrev hexp).1.trans (Prog.run_perform_error (I := interface) _ hinsert)⟩

/-- The machine rotates a token that can be rotated. -/
theorem rotate_step {raw : RawToken} {ctx : SessionContext} (hfam : m.family raw = some r.familyId)
    (hlive : m.live? raw r.familyId = some r.expiresAt) (hexp : (env 1).now ≤ r.expiresAt) :
    Machine.step (Request.op ttlMs (.rotate raw ctx) env) m =
      (.rotated (env 2).random, m.mint r.familyId (env 2).random ((env 2).now + ttlMs)) := by
  simp only [Request.op, Machine.step, hfam, hlive, if_pos hexp]

theorem rotate_refines (h : Simulates users s m) {raw : RawToken} {ctx : SessionContext}
    (served : (system inet ttlMs).Serves (.rotate raw ctx) env s)
    (insertable : (Request.rotate raw ctx).Insertable inet env s) :
    (Machine.step (Request.op ttlMs (.rotate raw ctx) env) m).1 =
        outcome ((system inet ttlMs).serve (.rotate raw ctx) env s).1 ∧
      Simulates users ((system inet ttlMs).serve (.rotate raw ctx) env s).2
        (Machine.step (Request.op ttlMs (.rotate raw ctx) env) m).2 := by
  have h₁ : Simulates users ((s.spend (env 0)).spend (env 1)) m := (h.spend _).spend _
  have hcall : (system inet ttlMs).handler (env 1) (.findOne ⟨raw⟩) (s.spend (env 0)) =
      (.ok (s.tokens.find? (·.tokenHash == ⟨raw⟩)), (s.spend (env 0)).spend (env 1)) := rfl
  have hserve : (system inet ttlMs).serve (.rotate raw ctx) env s =
      (program ttlMs (.rotate raw ctx)).run (system inet ttlMs).handler env (s.spend (env 0)) := rfl
  simp only [program, RefreshTokenService.rotate, RefreshTokenService.hashToken, Prog.bind_eq, Prog.bind_assoc] at hserve
  rw [Prog.run_perform_ok (I := interface) env hcall] at hserve
  rcases h₁.lookup raw with ⟨hfind, hfam⟩ | ⟨r, hr, hfind, hh, hfam, ⟨hrev, hlive⟩ | ⟨hrev, hlive⟩⟩
  · rw [show s.tokens.find? (·.tokenHash == ⟨raw⟩) = none from hfind] at hserve
    rw [hserve]
    simp only [Request.op, Machine.step, hfam]
    exact ⟨rfl, h₁⟩
  · rw [show s.tokens.find? (·.tokenHash == ⟨raw⟩) = some r from hfind] at hserve
    simp only [hrev, ↓reduceIte] at hserve
    rw [hserve]
    simp only [Request.op, Machine.step, hfam, hlive]
    exact ⟨rfl, (h₁.spend (env 2)).kill_family hr⟩
  · by_cases hexp : r.expiresAt < (env 1).now
    · rw [show s.tokens.find? (·.tokenHash == ⟨raw⟩) = some r from hfind] at hserve
      simp only [hrev, Option.isSome_none, Bool.false_eq_true, ↓reduceIte, Prog.read_bind, Prog.ask_bind, Prog.run_ask,
        Prog.ite_bind, Nat.zero_add, hexp] at hserve
      rw [hserve]
      simp only [Request.op, Machine.step, hfam, hlive, if_neg (Int.not_le.mpr hexp)]
      exact ⟨rfl, h₁⟩
    · -- The presented token is revoked, and then the next one of its family minted.
      have hunexpired := Int.not_lt.mp hexp
      obtain ⟨hserve, hserves⟩ := rotate_serve env h ctx hr hfind hrev hunexpired
      obtain ⟨-, -, hadm₂, hadm₃⟩ := hserves.mp served
      let s₂ := ((s.spend (env 0)).spend (env 1)).spend (env 2)
      have h₂ : Simulates users s₂ m := h₁.spend (env 2)
      have hkill : Simulates users (s₂.revokeWhere (·.tokenHash == r.tokenHash) (env 1).now) (m.kill r.familyId) :=
        h₂.kill_token hr hrev
      have hdead : ∀ q ∈ (s₂.revokeWhere (·.tokenHash == r.tokenHash) (env 1).now).tokens,
          q.familyId = r.familyId → q.revokedAt.isSome :=
        ((hkill.represents.dead r.familyId).mp (Function.update_self ..)).2
      have hfresh : ∀ q ∈ (s₂.revokeWhere (·.tokenHash == r.tokenHash) (env 1).now).tokens,
          q.tokenHash ≠ ⟨(env 2).random⟩ := by
        intro q hq
        rcases Tables.mem_revokeWhere.mp hq with ⟨hq, -⟩ | ⟨q', hq', -, rfl⟩
        · exact h₁.sound.new_hash hadm₂ q hq
        · exact h₁.sound.new_hash hadm₂ q' hq'
      have hregistered : r.userId ∈ users := h₁.users ▸ h₁.sound.owners r hr
      obtain ⟨hinsert, hmint⟩ := hkill.mint ttlMs (n := successor ttlMs r ctx env) hadm₃ rfl hfresh (List.mem_cons_self ..)
        (h₂.sound.issued r.origin (Tables.origin_mem hr)).2 hregistered (insertable ⟨r, hr, hh, hrev, hunexpired⟩) hdead
      rw [hserve, Prog.run_perform_ok (I := interface) _ hinsert, rotate_step hfam hlive hunexpired]
      refine ⟨rfl, ?_⟩
      have hmachine : (m.kill r.familyId).mint r.familyId (env 2).random ((env 2).now + ttlMs) =
          m.mint r.familyId (env 2).random ((env 2).now + ttlMs) := by
        simp only [Machine.mint, Machine.kill, Function.update_idem]
      exact hmachine ▸ hmint

/-- A rotation whose insert is refused: the machine would rotate the token. -/
theorem rotate_differs (h : Simulates users s m) {raw : RawToken} {ctx : SessionContext}
    (refused : ¬ (Request.rotate raw ctx).Insertable inet env s) :
    (Machine.step (Request.op ttlMs (.rotate raw ctx) env) m).1 ≠
      outcome ((system inet ttlMs).serve (.rotate raw ctx) env s).1 := by
  obtain ⟨⟨q, hq, hqhash, hqlive, hexp⟩, hrejected⟩ := Classical.not_imp.mp refused
  rcases h.lookup raw with ⟨hfind, -⟩ | ⟨r, hr, hfind, hh, hfam, hstate⟩
  · exact absurd (show q.tokenHash = ⟨raw⟩ from hqhash) (by simpa using List.find?_eq_none.mp hfind q hq)
  · obtain rfl := Table.eq_of_key h.sound.toWellFormed.nodup_hashes hq hr (hqhash.trans hh.symm)
    rcases hstate with ⟨hrev, -⟩ | ⟨-, hlive⟩
    · rw [hqlive] at hrev
      cases hrev
    · obtain ⟨e, hserve⟩ := rotate_refused ttlMs env h hr hfind hqlive hexp hrejected
      rw [hserve, rotate_step hfam hlive hexp]
      simp [outcome, reuseDetected]

theorem request_refines (h : Simulates users s m) {r : Request} (served : (system inet ttlMs).Serves r env s)
    (insertable : r.Insertable inet env s) :
    (Machine.step (r.op ttlMs env) m).1 = outcome ((system inet ttlMs).serve r env s).1 ∧
      Simulates users ((system inet ttlMs).serve r env s).2 (Machine.step (r.op ttlMs env) m).2 := by
  cases r with
  | issueForNewSession userId ctx => exact issue_refines h served insertable
  | rotate raw ctx => exact rotate_refines h served insertable
  | revoke raw => exact revoke_refines h

theorem request_differs (h : Simulates users s m) {r : Request}
    (refused : ¬ r.Insertable inet env s) :
    (Machine.step (r.op ttlMs env) m).1 ≠ outcome ((system inet ttlMs).serve r env s).1 := by
  cases r with
  | issueForNewSession userId ctx => exact issue_differs refused
  | rotate raw ctx => exact rotate_differs h refused
  | revoke raw => exact absurd trivial refused

theorem simulates_start (users : List Uuid) (generated : Generated) : Simulates users ⟨users, [], generated⟩ .empty := by
  refine ⟨⟨⟨List.nodup_nil, List.nodup_nil, nofun⟩, nofun, nofun⟩, rfl, ?_, ?_, ?_⟩ <;> simp [Machine.empty]

/-- One after another, the operations of the service do what the session machine does, they end as its operations end and
    the rows they leave represent the state it is then in, exactly if the database takes every token that they insert. -/
theorem sessions_refine (inet : String → Bool) (ttlMs : Int) (users : List Uuid) (generated : Generated)
    (requests : List (Request × (Nat → Env))) (served : (system inet ttlMs).ServesAll requests ⟨users, [], generated⟩) :
    let machine := stepAll Machine.step (requests.map fun r => r.1.op ttlMs r.2) .empty
    let service := (system inet ttlMs).serveAll requests ⟨users, [], generated⟩
    (machine.1 = service.1.map outcome ∧ service.2.Represents machine.2) ↔
      (system inet ttlMs).Each (Request.Insertable inet) requests ⟨users, [], generated⟩ := by
  obtain ⟨houts, hend⟩ := System.serveAll_refines_iff (Simulates users) (Request.op ttlMs) outcome Machine.step
    (fun h hserved => request_refines h hserved) (fun h _ => request_differs h)
    (simulates_start users generated) served
  exact ⟨fun h => houts.mp h.1, fun h => ⟨houts.mpr h, (hend h).represents⟩⟩

end

/-- A session is issued, its token rotated, and then presented a second time. -/
theorem sessions_refine_reuse :
    ((system (fun _ => true) 1000).serveAll [(.issueForNewSession 7 {}, fun n => envAt (n + 1)),
      (.rotate "r" {}, fun n => envAt (n + 3)), (.rotate "r" {}, fun n => envAt (n + 7))] ⟨[7], [], ⟨[], []⟩⟩).1.map outcome =
      [.issued "r", .rotated "rrrrr", .reuse] := by
  exact ((sessions_refine (fun _ => true) 1000 [7] ⟨[], []⟩ _ (by decide)).mpr (by decide)).1.symm.trans rfl

/-- A session is issued, and its token then presented in another session. -/
def presented (ctx : SessionContext) : List (Request × (Nat → Env)) :=
  [(.issueForNewSession 7 {}, fun n => envAt (n + 1)), (.rotate "r" ctx, fun n => envAt (n + 3))]

/-- Where the columns do not take the texts of that session, the token is revoked before the insert fails. -/
theorem presented_refused {ctx : SessionContext} (refused : ctx.rejected (fun _ => true) ≠ none) :
    (system (fun _ => true) 1000).ServesAll (presented ctx) ⟨[7], [], ⟨[], []⟩⟩ ∧
    (∀ t ∈ ((system (fun _ => true) 1000).serveAll (presented ctx) ⟨[7], [], ⟨[], []⟩⟩).2.tokens, t.revokedAt.isSome) ∧
    ∃ e, ((system (fun _ => true) 1000).serveAll (presented ctx) ⟨[7], [], ⟨[], []⟩⟩).1 =
      [.ok (.issued "r"), .error (.db e)] := by
  let opened := (system (fun _ => true) 1000).serve (.issueForNewSession 7 {}) (fun n => envAt (n + 1)) ⟨[7], [], ⟨[], []⟩⟩
  let row : RefreshToken := ⟨102, 7, ⟨"r"⟩, 101, 1000, none, none, none⟩
  have served : (system (fun _ => true) 1000).Serves (.issueForNewSession 7 {}) (fun n => envAt (n + 1))
      ⟨[7], [], ⟨[], []⟩⟩ := by
    decide
  obtain ⟨-, h⟩ := issue_refines (simulates_start [7] ⟨[], []⟩) served (by decide)
  have hrow : row ∈ opened.2.tokens := by decide
  have hfind : opened.2.tokens.find? (·.tokenHash == ⟨"r"⟩) = some row := by decide
  obtain ⟨-, serves⟩ := rotate_serve (fun n => envAt (n + 3)) h ctx hrow hfind rfl (by decide)
  obtain ⟨e, hserve⟩ := rotate_refused 1000 (fun n => envAt (n + 3)) h hrow hfind rfl (by decide) refused
  have hrevoked : ∀ t ∈ (marked opened.2 row fun n => envAt (n + 3)).tokens, t.revokedAt.isSome := by decide
  refine ⟨⟨served, serves.mpr (by decide), trivial⟩, ?_, e, ?_⟩
  · rw [presented, System.serveAll, System.serveAll, System.serveAll, hserve]
    exact hrevoked
  · rw [presented, System.serveAll, System.serveAll, System.serveAll, hserve]
    rfl

/-- A session is issued, and its token presented with a user agent of 513 characters. -/
def longUserAgent : List (Request × (Nat → Env)) :=
  presented { userAgent := some (String.ofList (List.replicate 513 'a')) }

/-- The token is live and not expired, so the machine rotates it; the service revokes it and fails on the insert. -/
theorem sessions_refine_long : (system (fun _ => true) 1000).ServesAll longUserAgent ⟨[7], [], ⟨[], []⟩⟩ ∧
    (∀ t ∈ ((system (fun _ => true) 1000).serveAll longUserAgent ⟨[7], [], ⟨[], []⟩⟩).2.tokens, t.revokedAt.isSome) ∧
    (stepAll Machine.step (longUserAgent.map fun r => r.1.op 1000 r.2) .empty).1 = [.issued "r", .rotated "rrrrr"] ∧
    ((system (fun _ => true) 1000).serveAll longUserAgent ⟨[7], [], ⟨[], []⟩⟩).1.map outcome ≠
      [.issued "r", .rotated "rrrrr"] := by
  have hrejected : ∀ text, readError text = none → lengthError 512 text ≠ none →
      SessionContext.rejected (fun _ => true) { userAgent := some text } ≠ none := by
    intro text hread hlength
    simp [SessionContext.rejected, hread, hlength]
  have hread : '\x00' ∉ (String.ofList (List.replicate 513 'a')).toList := by
    rw [String.toList_ofList, List.mem_replicate]
    decide
  have hlength : ¬ FitsVarchar 512 (String.ofList (List.replicate 513 'a')) := by
    rw [FitsVarchar, String.toList_ofList, List.drop_replicate]
    exact fun h => absurd (h 'a' (List.mem_cons_self ..)) (by decide)
  obtain ⟨served, revoked, e, results⟩ := presented_refused <| hrejected (String.ofList (List.replicate 513 'a'))
    (if_neg hread) ((if_neg hlength).trans_ne (Option.some_ne_none _))
  refine ⟨served, revoked, by decide, ?_⟩
  have results : ((system (fun _ => true) 1000).serveAll longUserAgent ⟨[7], [], ⟨[], []⟩⟩).1 = _ := results
  rw [results]
  simp [outcome, reuseDetected]

end TaskPlatform.Auth

import Mathlib.Data.Set.BooleanAlgebra
import Mathlib.Order.CompletePartialOrder
import TaskPlatform.Auth.Accounts
import TaskPlatform.Auth.Tokens
import TaskPlatform.Library.Kept

/-! What the tables of the accounts never lose, and what every request knows of them when it makes a call. -/

namespace TaskPlatform.Auth
open Effects

/-! ### Facts -/

/-- What stays so once it is so: an account, what a token was issued with, that a token is revoked. -/
inductive Fact where
  | account (a : UserAccount)
  | token (t : RefreshToken)
  | revoked (h : Sha256)

abbrev Facts := Set Fact

def Registry.facts (s : Registry) : Facts
  | .account a => a ∈ s.accounts
  | .token t => t ∈ s.tables.origins
  | .revoked h => ∃ t ∈ s.tokens, t.tokenHash = h ∧ t.revokedAt.isSome

/-- The keys of both tables, and the reference of a token to its user. -/
structure Registry.Sound (out : Outside) (s : Registry) : Prop where
  emails : (s.accounts.map fun a => out.citext a.email).Nodup
  users : (s.accounts.map fun a => a.id).Nodup
  registered : ∀ a ∈ s.accounts, a.id ∈ s.generated.uuids
  ids : (s.tables.origins.map RefreshToken.id).Nodup
  hashes : (s.tables.origins.map RefreshToken.tokenHash).Nodup
  issued : ∀ t ∈ s.tables.origins, t.id ∈ s.generated.uuids
  owners : ∀ t ∈ s.tables.origins, ∃ a ∈ s.accounts, a.id = t.userId

namespace Registry
variable {out : Outside} {s s' : Registry} {env : Env} {t : RefreshToken} {a : UserAccount} {h : Sha256}

theorem mem_account : .account a ∈ s.facts ↔ a ∈ s.accounts := Iff.rfl

theorem mem_token : .token t ∈ s.facts ↔ t ∈ s.tables.origins := Iff.rfl

theorem mem_revoked : .revoked h ∈ s.facts ↔ ∃ t ∈ s.tokens, t.tokenHash = h ∧ t.revokedAt.isSome := Iff.rfl

def spend (s : Registry) (env : Env) : Registry := { s with generated := s.generated.spend env }

@[simp] theorem facts_spend : (s.spend env).facts = s.facts := by
  funext f
  cases f <;> rfl

theorem Sound.spend (h : s.Sound out) (env : Env) : (s.spend env).Sound out where
  emails := h.emails
  users := h.users
  registered a ha := List.mem_cons_of_mem _ (h.registered a ha)
  ids := h.ids
  hashes := h.hashes
  issued t ht := List.mem_cons_of_mem _ (h.issued t ht)
  owners := h.owners

/-- The row that has the hash of an origin is the row of that origin. -/
theorem Sound.row (hs : s.Sound out) (ht : t ∈ s.tokens) {o : RefreshToken} (ho : o ∈ s.tables.origins)
    (heq : t.tokenHash = o.tokenHash) : t.origin = o :=
  Table.eq_of_key hs.hashes (Tables.origin_mem (s := s.tables) ht) ho heq

theorem Sound.revoked (hs : s.Sound out) (ht : t ∈ s.tokens) (hrev : .revoked t.tokenHash ∈ s.facts) :
    t.revokedAt.isSome := by
  obtain ⟨u, hu, heq, hrev⟩ := mem_revoked.mp hrev
  have hmap : (s.tokens.map RefreshToken.tokenHash).Nodup := by
    simpa [Tables.origins, Registry.tables, Function.comp_def, RefreshToken.origin] using hs.hashes
  exact Table.eq_of_key hmap hu ht heq ▸ hrev

/-! ### What a write keeps -/

/-- Tokens whose origins are the same as before, and whose revoked ones are revoked still. -/
theorem Sound.retoken (hs : s.Sound out) {tokens : List RefreshToken}
    (origins : tokens.map RefreshToken.origin = s.tokens.map RefreshToken.origin)
    (revoked : ∀ t ∈ s.tokens, t.revokedAt.isSome → ∃ u ∈ tokens, u.tokenHash = t.tokenHash ∧ u.revokedAt.isSome) :
    Registry.Sound out { s with tokens } ∧ s.facts ⊆ Registry.facts { s with tokens } := by
  have heq : Registry.tables { s with tokens } = { s.tables with tokens } := rfl
  have horigins : (Registry.tables { s with tokens }).origins = s.tables.origins := by
    rw [heq, Tables.origins, origins]
    rfl
  refine ⟨⟨hs.emails, hs.users, hs.registered, horigins ▸ hs.ids, horigins ▸ hs.hashes,
    fun t ht => hs.issued t (horigins ▸ ht), fun t ht => hs.owners t (horigins ▸ ht)⟩, fun f hf => ?_⟩
  cases f with
  | account a => exact hf
  | token t => exact mem_token.mpr (horigins.symm ▸ mem_token.mp hf)
  | revoked h =>
    obtain ⟨t, ht, rfl, hrev⟩ := mem_revoked.mp hf
    obtain ⟨u, hu, heq, hrev⟩ := revoked t ht hrev
    exact mem_revoked.mpr ⟨u, hu, heq, hrev⟩

/-- A loaded row is saved revoked. -/
theorem Sound.save (inet : String → Bool) (hs : s.Sound out) (ho : t.origin ∈ s.tables.origins) (hrev : t.revokedAt.isSome) :
    s.tables.saveToken inet t = (.ok t, { s.tables with tokens := Table.replace RefreshToken.id t s.tokens }) ∧
      Registry.Sound out { s with tokens := Table.replace RefreshToken.id t s.tokens } ∧
      s.facts ⊆ Registry.facts { s with tokens := Table.replace RefreshToken.id t s.tokens } := by
  obtain ⟨r, hr, horigin⟩ := Tables.mem_origins.mp ho
  have hid : r.id = t.id := (RefreshToken.origin_eq horigin).1
  have hids : (s.tokens.map RefreshToken.id).Nodup := by
    simpa [Tables.origins, Registry.tables, Function.comp_def, RefreshToken.origin] using hs.ids
  refine ⟨Tables.saveToken_eq ho, hs.retoken (Table.map_replace hids ⟨r, hr, hid, horigin⟩) fun u hu hurev => ?_⟩
  by_cases heq : u.id = t.id
  · obtain rfl : u = r := Table.eq_of_key hids hu hr (heq.trans hid.symm)
    exact ⟨t, (Table.mem_replace ⟨u, hr, hid⟩).mpr (Or.inl rfl), (RefreshToken.origin_eq horigin).2.1.symm, hrev⟩
  · exact ⟨u, (Table.mem_replace ⟨r, hr, hid⟩).mpr (Or.inr ⟨hu, heq⟩), rfl, hurev⟩

/-- A conditional update revokes. -/
theorem Sound.revokeWhere (hs : s.Sound out) (p : RefreshToken → Bool) (now : Date) :
    Registry.Sound out { s with tokens := (s.tables.revokeWhere p now).tokens } ∧
      s.facts ⊆ Registry.facts { s with tokens := (s.tables.revokeWhere p now).tokens } := by
  refine hs.retoken (Table.map_update fun _ => rfl) fun t ht hrev => ⟨t, ?_, rfl, hrev⟩
  refine Tables.mem_revokeWhere.mpr (Or.inl ⟨ht, ?_⟩)
  obtain ⟨at_, hat⟩ := Option.isSome_iff_exists.mp hrev
  simp [hat]

/-- A new token of a user. -/
theorem Sound.issue (hs : s.Sound out) {n : NewRefreshToken} {id : Uuid} (new : id ∉ s.tables.origins.map RefreshToken.id)
    (spent : id ∈ s.generated.uuids) (hash : n.tokenHash ∉ s.tokens.map RefreshToken.tokenHash)
    (owner : ∃ a ∈ s.accounts, a.id = n.userId) :
    Registry.Sound out { s with tokens := s.tokens ++ [n.toRow id] } ∧
      s.facts ⊆ Registry.facts { s with tokens := s.tokens ++ [n.toRow id] } := by
  have horigins : (Registry.tables { s with tokens := s.tokens ++ [n.toRow id] }).origins = s.tables.origins ++ [n.toRow id] := by
    simp [Tables.origins, Registry.tables]
  have hash' : n.tokenHash ∉ s.tables.origins.map RefreshToken.tokenHash := by
    simpa [Tables.origins, Registry.tables, Function.comp_def, RefreshToken.origin] using hash
  refine ⟨⟨hs.emails, hs.users, hs.registered, ?_, ?_, fun t ht => ?_, fun t ht => ?_⟩, fun f hf => ?_⟩
  · rw [horigins, List.map_append]
    exact List.nodup_append'.mpr ⟨hs.ids, List.nodup_singleton _, by simpa [NewRefreshToken.toRow] using new⟩
  · rw [horigins, List.map_append]
    exact List.nodup_append'.mpr ⟨hs.hashes, List.nodup_singleton _, by simpa using hash'⟩
  · rcases List.mem_append.mp (horigins ▸ ht) with ht | ht
    · exact hs.issued t ht
    · obtain rfl := List.mem_singleton.mp ht
      exact spent
  · rcases List.mem_append.mp (horigins ▸ ht) with ht | ht
    · exact hs.owners t ht
    · obtain rfl := List.mem_singleton.mp ht
      exact owner
  · cases f with
    | account a => exact hf
    | token t => exact mem_token.mpr (horigins.symm ▸ List.mem_append_left _ (mem_token.mp hf))
    | revoked h =>
      obtain ⟨t, ht, heq, hrev⟩ := mem_revoked.mp hf
      exact mem_revoked.mpr ⟨t, List.mem_append_left _ ht, heq, hrev⟩

/-- A new account. -/
theorem Sound.register (hs : s.Sound out) {row : UserAccount} (new : row.id ∉ s.accounts.map fun a => a.id)
    (spent : row.id ∈ s.generated.uuids) (email : out.citext row.email ∉ s.accounts.map fun a => out.citext a.email) :
    Registry.Sound out { s with accounts := s.accounts ++ [row] } ∧
      s.facts ⊆ Registry.facts { s with accounts := s.accounts ++ [row] } := by
  refine ⟨⟨?_, ?_, fun a ha => ?_, hs.ids, hs.hashes, hs.issued, fun t ht => ?_⟩, fun f hf => ?_⟩
  · rw [List.map_append]
    exact List.nodup_append'.mpr ⟨hs.emails, List.nodup_singleton _, by simpa using email⟩
  · rw [List.map_append]
    exact List.nodup_append'.mpr ⟨hs.users, List.nodup_singleton _, by simpa using new⟩
  · rcases List.mem_append.mp ha with ha | ha
    · exact hs.registered a ha
    · obtain rfl := List.mem_singleton.mp ha
      exact spent
  · obtain ⟨a, ha, heq⟩ := hs.owners t ht
    exact ⟨a, List.mem_append_left _ ha, heq⟩
  · cases f with
    | account a => exact List.mem_append_left _ hf
    | token t => exact hf
    | revoked h => exact hf

end Registry

/-! ### The contract -/

namespace Accounts
open RefreshTokenService (hashToken)

/-- Why a request may start a session with an account: it has signed the account up, or has shown its password. -/
inductive Opens (out : Outside) (a : UserAccount) : Request → Prop
  | signup {dto : SignupDto} {ctx : SessionContext} {salt : String} (email : a.email = dto.email)
      (name : a.name = varchar 255 dto.name) (hash : a.passwordHash = out.hash salt dto.password) :
      Opens out a (.signup dto ctx)
  | login {dto : LoginDto} {ctx : SessionContext} (email : out.SameEmail a.email dto.email) (active : a.isActive = true)
      (verified : out.verify a.passwordHash dto.password = .ok true) : Opens out a (.login dto ctx)

/-- The request has presented a token of the user, which is spent by that. -/
def Presents (k : Facts) (r : Request) (userId : Uuid) : Prop :=
  ∃ raw ctx t, r = .refresh raw ctx ∧ .token t ∈ k ∧ t.tokenHash = hashToken raw ∧ t.userId = userId ∧
    .revoked (hashToken raw) ∈ k

/-- For whom a request may have a token issued. -/
def Entitles (out : Outside) (k : Facts) (r : Request) (userId : Uuid) : Prop :=
  (∃ a, .account a ∈ k ∧ a.id = userId ∧ Opens out a r) ∨ Presents k r userId

/-- The raw token is one of the user. -/
def Belongs (k : Facts) (raw : RawToken) (userId : Uuid) : Prop :=
  ∃ t, .token t ∈ k ∧ t.tokenHash = hashToken raw ∧ t.userId = userId

def allows (out : Outside) (k : Facts) (r : Request) : Call → Prop
  | .tokens (.save t) => .token t.origin ∈ k ∧ t.revokedAt.isSome
  | .tokens (.insert n) => Entitles out k r n.userId
  | .insertUser n => ∃ dto ctx salt, r = .signup dto ctx ∧ n = ⟨dto.email, dto.name, out.hash salt dto.password⟩
  | _ => True

def tells (out : Outside) (k : Facts) : (c : Call) → c.Reply → Prop
  | .tokens (.findOne h), some t => t.tokenHash = h ∧ .token t.origin ∈ k ∧ (.revoked h ∈ k → t.revokedAt.isSome)
  | .tokens (.save t), _ => .revoked t.tokenHash ∈ k
  | .tokens (.insert n), _ => ∃ t, .token t ∈ k ∧ t.tokenHash = n.tokenHash ∧ t.userId = n.userId
  | .tokens (.updateByHash h _), _ => ∀ t, .token t ∈ k → t.tokenHash = h → .revoked h ∈ k
  | .findById id, some u => ∃ a, .account a ∈ k ∧ a.id = id ∧ u = a.toUserEntity
  | .countByEmail email, n => 0 < n → ∃ a, .account a ∈ k ∧ out.SameEmail a.email email
  | .findByEmailWithSecret email, some a => .account a ∈ k ∧ out.SameEmail a.email email
  | .insertUser n, u => ∃ a, .account a ∈ k ∧ a.id = u.id ∧ u.email = n.email ∧ u.name = n.name ∧ a.email = n.email ∧
    a.name = varchar 255 n.name ∧ a.passwordHash = n.passwordHash
  | .hash password, hash => ∃ salt, hash = out.hash salt password
  | .verify hash password, ok => out.verify hash password = .ok ok
  | .sign payload, token => token = out.sign payload
  | _, _ => True

section
variable {out : Outside} {k k' : Facts} {r : Request} {u : Uuid}

theorem Presents.grow (h : Presents k r u) (hk : k ≤ k') : Presents k' r u :=
  let ⟨raw, ctx, t, hr, ht, hhash, hu, hrev⟩ := h
  ⟨raw, ctx, t, hr, hk ht, hhash, hu, hk hrev⟩

theorem Entitles.grow (h : Entitles out k r u) (hk : k ≤ k') : Entitles out k' r u := by
  rcases h with ⟨a, ha, hu, hopens⟩ | h
  · exact Or.inl ⟨a, hk ha, hu, hopens⟩
  · exact Or.inr (h.grow hk)

theorem Belongs.grow {raw : RawToken} (h : Belongs k raw u) (hk : k ≤ k') : Belongs k' raw u :=
  let ⟨t, ht, hhash, hu⟩ := h
  ⟨t, hk ht, hhash, hu⟩

end

/-- The contract of a request with the tables of the accounts. -/
def contract (out : Outside) (r : Request) : Contract interface Facts where
  pre k := allows out k r
  post := tells out
  alike _ _ _ := False
  grows {k k' c} hk h := by
    cases c with
    | tokens c =>
      cases c with
      | save t => exact ⟨hk h.1, h.2⟩
      | insert n => exact Entitles.grow h hk
      | _ => trivial
    | insertUser n => exact h
    | _ => trivial

/-! ### Every call keeps it -/

section
variable {out : Outside} {s : Registry} {env : Env} {r : Request}

/-- What a call on the tokens leaves and tells. -/
theorem keeps_tokens {c : Auth.Call} (hs : s.Sound out) (new : s.generated.admits env = true)
    (hallows : allows out s.facts r (.tokens c)) :
    let done := exec out env (.tokens c) (s.spend env)
    done.2.Sound out ∧ s.facts ≤ done.2.facts ∧ ∀ a, done.1 = .ok a → tells out done.2.facts (.tokens c) a := by
  have hspend := hs.spend env
  have le : s.facts ≤ (s.spend env).facts := Registry.facts_spend.ge
  cases c with
  | findOne h =>
    refine ⟨hspend, le, fun a ha => ?_⟩
    cases a with
    | none => trivial
    | some t =>
      have hf : (s.spend env).tokens.find? (·.tokenHash == h) = some t := Except.ok.inj ha
      have ht := List.mem_of_find?_eq_some hf
      obtain rfl : t.tokenHash = h := by simpa using List.find?_some hf
      exact ⟨rfl, Tables.origin_mem (s := (s.spend env).tables) ht, hspend.revoked ht⟩
  | save t =>
    obtain ⟨heq, hsound, hle⟩ := hspend.save (t := t) out.inet (le hallows.1) hallows.2
    have hdone : exec out env (.tokens (.save t)) (s.spend env) =
        (.ok t, { s.spend env with tokens := Table.replace RefreshToken.id t s.tokens }) := by
      simp only [exec, Auth.exec, heq]
      rfl
    rw [hdone]
    refine ⟨hsound, le.trans hle, fun _ _ => Registry.mem_revoked.mpr ⟨t, ?_, rfl, hallows.2⟩⟩
    obtain ⟨row, hrow, horigin⟩ := Tables.mem_origins.mp hallows.1
    exact (Table.mem_replace ⟨row, hrow, (RefreshToken.origin_eq horigin).1⟩).mpr (Or.inl rfl)
  | insert n =>
    rcases Tables.insertToken_cases out.inet (s.spend env).tables (n.toRow env.uuid) with ⟨heq, hhash⟩ | ⟨e, heq⟩
    · have hdone : exec out env (.tokens (.insert n)) (s.spend env) =
          (.ok (n.toRow env.uuid), { s.spend env with tokens := s.tokens ++ [n.toRow env.uuid] }) := by
        simp only [exec, Auth.exec, heq]
        rfl
      have hid : env.uuid ∉ (s.spend env).tables.origins.map RefreshToken.id := fun hm => by
        obtain ⟨t, ht, hid⟩ := List.mem_map.mp hm
        exact (Generated.admits_iff.mp new).1 (hid ▸ hs.issued t ht)
      have howner : ∃ a ∈ (s.spend env).accounts, a.id = n.userId := by
        rcases hallows with ⟨a, ha, hid, -⟩ | ⟨raw, ctx, t, -, ht, -, hid, -⟩
        · exact ⟨a, ha, hid⟩
        · exact hid ▸ hs.owners t ht
      obtain ⟨hsound, hle⟩ := hspend.issue hid (List.mem_cons_self ..) hhash howner
      rw [hdone]
      refine ⟨hsound, le.trans hle, fun _ _ => ⟨n.toRow env.uuid, Registry.mem_token.mpr ?_, rfl, rfl⟩⟩
      exact Tables.mem_origins.mpr ⟨_, List.mem_append_right _ (List.mem_singleton_self _), rfl⟩
    · have hdone : exec out env (.tokens (.insert n)) (s.spend env) = (.error (.db e), s.spend env) := by
        simp only [exec, Auth.exec, heq]
        rfl
      rw [hdone]
      exact ⟨hspend, le, fun _ ha => nomatch ha⟩
  | updateByHash h now =>
    obtain ⟨hsound, hle⟩ := hspend.revokeWhere (·.tokenHash == h) now
    refine ⟨hsound, le.trans hle, fun _ _ t ht hhash => Registry.mem_revoked.mpr ?_⟩
    -- The row of the token is revoked by now, if it was not before.
    obtain ⟨row, hrow, rfl⟩ := Tables.mem_origins.mp (Registry.mem_token.mp ht)
    have hrowhash : row.tokenHash = h := hhash
    refine ⟨row, hrow, hrowhash, ?_⟩
    rcases Tables.mem_revokeWhere.mp hrow with ⟨-, hkept⟩ | ⟨q, -, -, rfl⟩
    · simpa [hrowhash] using hkept
    · rfl
  | updateByFamily f now =>
    obtain ⟨hsound, hle⟩ := hspend.revokeWhere (·.familyId == f) now
    exact ⟨hsound, le.trans hle, fun _ _ => trivial⟩

/-- The insert of a user is refused because of what it says or because the e-mail is taken, or it adds the row. -/
theorem insertUser_cases (out : Outside) (s : Registry) (n : CreateUserInput) (env : Env) :
    (n.rejected = none ∧ (∀ a ∈ s.accounts, ¬ out.SameEmail a.email n.email) ∧
      s.insertUser out n env = (.ok (n.toEntity env), { s with accounts := s.accounts ++ [n.toRow env] })) ∨
    ∃ e, (n.rejected = some e ∨ ∃ a ∈ s.accounts, out.SameEmail a.email n.email) ∧
      s.insertUser out n env = (.error (.db e), s) := by
  unfold Registry.insertUser
  cases hrejected : n.rejected with
  | some e => exact Or.inr ⟨e, Or.inl rfl, rfl⟩
  | none =>
    dsimp only
    split
    · next htaken => exact Or.inr ⟨_, Or.inr (by simpa using htaken), rfl⟩
    · next hfree => exact Or.inl ⟨rfl, by simpa using hfree, rfl⟩

/-- What the insert of a user leaves and tells. -/
theorem keeps_insertUser {n : CreateUserInput} (hs : s.Sound out) (new : s.generated.admits env = true) :
    let done := exec out env (.insertUser n) (s.spend env)
    done.2.Sound out ∧ s.facts ≤ done.2.facts ∧ ∀ a, done.1 = .ok a → tells out done.2.facts (.insertUser n) a := by
  have hspend := hs.spend env
  have le : s.facts ≤ (s.spend env).facts := Registry.facts_spend.ge
  rcases insertUser_cases out (s.spend env) n env with ⟨-, hfree, heq⟩ | ⟨e, -, heq⟩
  · have hid : (n.toRow env).id ∉ (s.spend env).accounts.map fun a => a.id := fun hm => by
      obtain ⟨a, ha, hid⟩ := List.mem_map.mp hm
      exact (Generated.admits_iff.mp new).1 ((show a.id = env.uuid from hid) ▸ hs.registered a ha)
    have hemail : out.citext (n.toRow env).email ∉ (s.spend env).accounts.map fun a => out.citext a.email := fun hm => by
      obtain ⟨a, ha, heq⟩ := List.mem_map.mp hm
      exact hfree a ha heq
    obtain ⟨hsound, hle⟩ := hspend.register hid (List.mem_cons_self ..) hemail
    simp only [exec, heq]
    refine ⟨hsound, le.trans hle, fun a ha => ?_⟩
    obtain rfl := Except.ok.inj ha
    exact ⟨n.toRow env, List.mem_append_right _ (List.mem_singleton_self _), rfl, rfl, rfl, rfl, rfl, rfl⟩
  · simp only [exec, heq]
    exact ⟨hspend, le, fun _ ha => nomatch ha⟩

variable (out) in
theorem keeps (ttlMs : Int) : (system out ttlMs).Keeps Registry.facts (Registry.Sound out) (contract out) where
  spend hs _ := ⟨hs.spend _, Registry.facts_spend.ge⟩
  call {s env r c} hs new hallows := by
    have hspend := hs.spend env
    have le : s.facts ≤ (s.spend env).facts := Registry.facts_spend.ge
    cases c with
    | tokens c => exact keeps_tokens hs new hallows
    | insertUser n => exact keeps_insertUser hs new
    | findById id =>
      refine ⟨hspend, le, fun u hu => ?_⟩
      cases u with
      | none => trivial
      | some u =>
        obtain ⟨a, ha, rfl⟩ := Option.map_eq_some_iff.mp (Except.ok.inj hu)
        exact ⟨a, List.mem_of_find?_eq_some ha, by simpa using List.find?_some ha, rfl⟩
    | countByEmail email =>
      refine ⟨hspend, le, fun n hn hpos => ?_⟩
      obtain rfl := Except.ok.inj hn
      obtain ⟨a, ha, hsame⟩ := List.countP_pos_iff.mp hpos
      exact ⟨a, ha, of_decide_eq_true hsame⟩
    | findByEmailWithSecret email =>
      refine ⟨hspend, le, fun u hu => ?_⟩
      cases u with
      | none => trivial
      | some a =>
        have hf := Except.ok.inj hu
        exact ⟨List.mem_of_find?_eq_some hf, by simpa using List.find?_some hf⟩
    | hash password => exact ⟨hspend, le, fun _ hh => ⟨env.random, (Except.ok.inj hh).symm⟩⟩
    | verify hash password => exact ⟨hspend, le, fun _ hok => hok⟩
    | sign payload => exact ⟨hspend, le, fun _ ht => (Except.ok.inj ht).symm⟩

end
end Accounts
end TaskPlatform.Auth

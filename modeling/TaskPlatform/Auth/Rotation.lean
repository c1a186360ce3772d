import TaskPlatform.Library.Account
import TaskPlatform.Auth.InFlight

/-! Refresh token rotation: how often a raw token is exchanged, and how many unrevoked tokens a family
    has. A rotation tests `revokedAt`, marks the token and mints the next one in three calls; two
    rotations of one token can both pass the test. -/

namespace TaskPlatform.Auth
open Effects

abbrev State := Config interface Tables Request Response

/-- The unrevoked rows whose origin meets `q`. -/
def Tables.live (s : Tables) (q : RefreshToken → Bool) : Nat :=
  s.tokens.countP fun r => q r.origin && r.revokedAt.isNone

/-- The number of unrevoked tokens of a family. -/
def Tables.liveIn (s : Tables) (f : Uuid) : Nat := s.live (·.familyId == f)

def Request.rotates (raw : RawToken) : Request → Bool
  | .rotate raw' _ => raw' == raw
  | _ => false

/-- The thread exchanged the raw token: its `rotate` was answered with a new one. -/
def exchanged (raw : RawToken) (t : Thread interface Request Response) : Bool :=
  t.request.rotates raw && match t.result? with
    | some (.ok _) => true
    | _ => false

/-- The token that the move marks as revoked. -/
def marks? (c : State) : Move interface Request → Option RefreshToken
  | .call i fate _ =>
    match (c.threads[i]?).bind Thread.next? with
    | some (.save t) => if fate = .failed then none else some t
    | _ => none
  | _ => none

/-- A token is marked as revoked while it is unrevoked, as an `UPDATE ... WHERE revoked_at IS NULL`
    would have it. -/
def MarksLive (c : State) (m : Move interface Request) : Prop :=
  ∀ t ∈ marks? c m, ∃ r ∈ c.shared.tokens, r.id = t.id ∧ r.revokedAt = none

instance (c : State) (m : Move interface Request) : Decidable (MarksLive c m) :=
  inferInstanceAs (Decidable (∀ t ∈ marks? c m, ∃ r ∈ c.shared.tokens, r.id = t.id ∧ r.revokedAt = none))

/-! ### How turns change the unrevoked rows -/

section
variable {s : Tables} {q : RefreshToken → Bool}

theorem Tables.live_save (inet : String → Bool) {t r : RefreshToken} (wf : s.WellFormed) (ho : t.origin ∈ s.origins)
    (hrev : t.revokedAt.isSome) (hr : r ∈ s.tokens) (hid : r.id = t.id) (hlive : r.revokedAt = none) :
    (s.saveToken inet t).2.live q + (if q t.origin then 1 else 0) = s.live q := by
  have hor : r.origin = t.origin := Table.eq_of_key wf.ids (Tables.origin_mem hr) ho hid
  obtain ⟨at_, hat⟩ := Option.isSome_iff_exists.mp hrev
  have := Table.countP_replace (p := fun r => q r.origin && r.revokedAt.isNone) wf.nodup_ids hr hid
  rw [Tables.saveToken_eq ho]
  simpa [Tables.live, hor, hlive, hat] using this

theorem Tables.live_revokeWhere_le (p : RefreshToken → Bool) (now : Date) : (s.revokeWhere p now).live q ≤ s.live q := by
  simp only [Tables.live, Tables.revokeWhere, List.countP_map]
  refine List.countP_mono_left fun r _ h => ?_
  rw [Function.comp_apply] at h
  split at h
  · simp [RefreshToken.revoke] at h
  · exact h

theorem Tables.live_insert (n : NewRefreshToken) (id : Uuid) :
    Tables.live { s with tokens := s.tokens ++ [n.toRow id] } q = s.live q + if q (n.toRow id) then 1 else 0 := by
  have hnone : (n.toRow id).revokedAt = none := rfl
  simp [Tables.live, hnone]

end

/-- What `MarksLive` says of the call of a thread. -/
def MarksLiveCall (s : Tables) (c : Call) : Prop :=
  ∀ t, c = .save t → ∃ r ∈ s.tokens, r.id = t.id ∧ r.revokedAt = none

/-! ### Families -/

/-- A call that is about to mint a token of the family. -/
def mints (f : Uuid) : Option Call → Nat
  | some (.insert n) => if n.familyId = f then 1 else 0
  | _ => 0

/-- One for a family not yet generated, and one for each of its unrevoked tokens. -/
def familyCredit (f : Uuid) (s : Tables) : Nat := (if f ∈ s.generated.uuids then 0 else 1) + s.liveIn f

theorem familyCredit_insert {s : Tables} {f : Uuid} (n : NewRefreshToken) (id : Uuid) :
    familyCredit f { s with tokens := s.tokens ++ [n.toRow id] } = familyCredit f s + if n.familyId = f then 1 else 0 := by
  have := Tables.live_insert (s := s) (q := (·.familyId == f)) n id
  simp only [familyCredit, Tables.liveIn, this, NewRefreshToken.toRow_familyId, beq_iff_eq]
  omega

theorem familyCredit_revokeWhere_le {s : Tables} {f : Uuid} (p : RefreshToken → Bool) (now : Date) :
    familyCredit f (s.revokeWhere p now) ≤ familyCredit f s :=
  Nat.add_le_add_left (Tables.live_revokeWhere_le p now) _

theorem familyCredit_save (inet : String → Bool) {s : Tables} {f : Uuid} {t : RefreshToken} (wf : s.WellFormed)
    (ho : t.origin ∈ s.origins) (hrev : t.revokedAt.isSome) (hlive : MarksLiveCall s (.save t)) :
    familyCredit f (s.saveToken inet t).2 + (if t.familyId = f then 1 else 0) = familyCredit f s := by
  obtain ⟨r, hr, hid, hnone⟩ := hlive t rfl
  have := Tables.live_save inet (q := (·.familyId == f)) wf ho hrev hr hid hnone
  have hgen : (s.saveToken inet t).2.generated = s.generated := by rw [Tables.saveToken_eq ho]
  simp only [RefreshToken.origin, beq_iff_eq] at this
  simp only [familyCredit, Tables.liveIn, hgen]
  omega

theorem Turn.family {inet : String → Bool} {s s' : Tables} {req : Request} {c : Call} {rest : Service Response} (f : Uuid)
    (h : Turn inet s c s' rest) (wf : s.WellFormed) (hp : Pending s req c) (hlive : MarksLiveCall s c) :
    familyCredit f s' + mints f rest.next? ≤ familyCredit f s + mints f (some c) := by
  cases h with
  | failed | rejected | refused => exact Nat.add_le_add_left (Nat.zero_le _) _
  | reused _ _ next | valid _ _ next =>
    rw [next]
    exact Nat.le_refl _
  | @marked t rest next =>
    obtain ⟨raw, ctx, -, -, hrev, ho⟩ := hp
    have hsave := familyCredit_save inet (f := f) wf ho hrev hlive
    have hmint : mints f rest.next? ≤ if t.familyId = f then 1 else 0 := by
      rcases next with rfl | ⟨n, hn, hfam⟩
      · exact Nat.zero_le _
      · rw [hn, ← hfam]
        exact Nat.le_refl _
    omega
  | @minted n id rest _ _ _ ends =>
    have hnext : rest.next? = none := by
      rcases ends with rfl | ⟨v, rfl⟩ <;> rfl
    rw [familyCredit_insert, hnext]
    exact Nat.le_refl _
  | @loggedOut _ _ rest ends =>
    have hnext : rest.next? = none := by
      rcases ends with rfl | ⟨v, rfl⟩ <;> rfl
    rw [hnext]
    exact Nat.add_le_add_right (familyCredit_revokeWhere_le _ _) 0
  | @detected _ _ rest ends =>
    have hnext : rest.next? = none := by
      rcases ends with rfl | rfl <;> rfl
    rw [hnext]
    exact Nat.add_le_add_right (familyCredit_revokeWhere_le _ _) 0

/-! ### Raw tokens -/

/-- A rotation of the raw token that marked it: it is about to mint the next token, or did. -/
def spends (raw : RawToken) (req : Request) (rest : Service Response) : Nat :=
  match rest.next?, rest.result? with
  | some (.insert _), _ => if req.rotates raw then 1 else 0
  | _, some (.ok _) => if req.rotates raw then 1 else 0
  | _, _ => 0

theorem spends_le (raw : RawToken) (req : Request) (rest : Service Response) :
    spends raw req rest ≤ if req.rotates raw then 1 else 0 := by
  unfold spends
  split
  · exact Nat.le_refl _
  · exact Nat.le_refl _
  · exact Nat.zero_le _

/-- One for a raw token without a row, and one for its unrevoked row. -/
def rawCredit (raw : RawToken) (s : Tables) : Nat :=
  (if (⟨raw⟩ : Sha256) ∈ s.tokens.map RefreshToken.tokenHash then 0 else 1) + s.live (·.tokenHash == ⟨raw⟩)

theorem rawCredit_insert {s : Tables} {raw : RawToken} {n : NewRefreshToken} (id : Uuid)
    (hash : n.tokenHash ∉ s.tokens.map RefreshToken.tokenHash) :
    rawCredit raw { s with tokens := s.tokens ++ [n.toRow id] } = rawCredit raw s := by
  have hl := Tables.live_insert (s := s) (q := (·.tokenHash == ⟨raw⟩)) n id
  simp only [rawCredit, hl, NewRefreshToken.toRow_tokenHash, beq_iff_eq, List.map_append, List.map_cons, List.map_nil,
    List.mem_append, List.mem_singleton]
  by_cases hraw : n.tokenHash = ⟨raw⟩
  · rw [hraw] at hash
    simp only [hraw, hash, or_true, ↓reduceIte]
    omega
  · simp only [hraw, Ne.symm hraw, or_false, ↓reduceIte]
    omega

theorem rawCredit_revokeWhere_le {s : Tables} (raw : RawToken) (p : RefreshToken → Bool) (now : Date) :
    rawCredit raw (s.revokeWhere p now) ≤ rawCredit raw s := by
  have hmap : (s.revokeWhere p now).tokens.map RefreshToken.tokenHash = s.tokens.map RefreshToken.tokenHash :=
    Table.map_update fun _ => rfl
  simp only [rawCredit, hmap]
  exact Nat.add_le_add_left (Tables.live_revokeWhere_le p now) _

theorem rawCredit_save (inet : String → Bool) {s : Tables} (raw : RawToken) {t : RefreshToken} (wf : s.WellFormed)
    (ho : t.origin ∈ s.origins) (hrev : t.revokedAt.isSome) (hlive : MarksLiveCall s (.save t)) :
    rawCredit raw (s.saveToken inet t).2 + (if t.tokenHash = ⟨raw⟩ then 1 else 0) = rawCredit raw s := by
  obtain ⟨r, hr, hid, hnone⟩ := hlive t rfl
  have := Tables.live_save inet (q := (·.tokenHash == ⟨raw⟩)) wf ho hrev hr hid hnone
  have hmap : (s.saveToken inet t).2.tokens.map RefreshToken.tokenHash = s.tokens.map RefreshToken.tokenHash := by
    have hor : r.origin = t.origin := Table.eq_of_key wf.ids (Tables.origin_mem hr) ho hid
    rw [Tables.saveToken_eq ho]
    exact Table.map_replace wf.nodup_ids ⟨r, hr, hid, (RefreshToken.origin_eq hor).2.1⟩
  simp only [RefreshToken.origin, beq_iff_eq] at this
  simp only [rawCredit, hmap]
  omega

theorem Turn.raw {inet : String → Bool} {s s' : Tables} {req : Request} {c : Call} {k : Except Err c.Reply → Service Response}
    {rest : Service Response} (raw : RawToken) (h : Turn inet s c s' rest) (wf : s.WellFormed) (hp : Pending s req c)
    (hlive : MarksLiveCall s c) :
    rawCredit raw s' + spends raw req rest ≤ rawCredit raw s + spends raw req (.call c k) := by
  cases h with
  | failed | rejected | refused => exact Nat.add_le_add_left (Nat.zero_le _) _
  | reused _ _ next | valid _ _ next =>
    obtain ⟨k', rfl⟩ := Prog.eq_call_of_next? next
    exact Nat.le_refl _
  | @marked t rest next =>
    obtain ⟨raw', ctx, rfl, hraw, hrev, ho⟩ := hp
    have hsave := rawCredit_save inet raw wf ho hrev hlive
    have hspend := spends_le raw (.rotate raw' ctx) rest
    simp only [Request.rotates, beq_iff_eq] at hspend
    simp only [hraw, Sha256.mk.injEq] at hsave
    omega
  | @minted n id rest hash _ _ ends =>
    rw [rawCredit_insert id hash]
    exact Nat.add_le_add_left (spends_le raw req rest) _
  | @loggedOut _ _ rest ends =>
    obtain ⟨raw', rfl⟩ := hp
    have hnone : spends raw (.revoke raw') rest = 0 := Nat.le_zero.mp (spends_le raw (.revoke raw') rest)
    rw [hnone]
    exact Nat.add_le_add_right (rawCredit_revokeWhere_le raw _ _) 0
  | @detected _ _ rest ends =>
    have hnext : spends raw req rest = 0 := by
      rcases ends with rfl | rfl <;> rfl
    rw [hnext]
    exact Nat.add_le_add_right (rawCredit_revokeWhere_le raw _ _) 0

/-! ### Every run in which marks meet unrevoked tokens -/

/-- A credit that no turn raises is not raised by any move. -/
theorem account {inet : String → Bool} {ttlMs : Int} {φ : Tables → Nat} {w : Request → Service Response → Nat}
    (spend : ∀ s env, φ (s.spend env) ≤ φ s)
    (start : ∀ {s req env}, s.WellFormed → s.generated.admits env = true →
      φ (s.spend env) + w req ((program ttlMs req).settle env) ≤ φ s)
    (turn : ∀ {s s' req c} {k : Except Err c.Reply → Service Response} {rest}, Turn inet s c s' rest → s.WellFormed →
      Pending s req c → MarksLiveCall s c → φ s' + w req rest ≤ φ s + w req (.call c k))
    (throws : ∀ req e, w req (.throw e) = 0) :
    Account (system inet ttlMs) MarksLive Sound φ (fun t => w t.request t.rest) where
  start _ hq hadm := start hq.1 hadm
  kill {t} := (throws t.request _).le.trans (Nat.zero_le _)
  call {c i fate env t op k} n hq hok ht hk hadm := by
    have hin := hq.2 t (List.mem_of_getElem? ht)
    obtain ⟨hturn, hp⟩ := hin.turn inet ttlMs hk hq.1 hadm fate n
    have hspend := spend c.shared env
    cases fate with
    | failed =>
      -- Nothing took effect, and the request ends.
      have hrest : ((system inet ttlMs).resume t op k .failed env c.shared n).rest = .throw .unavailable :=
        flows_error (hk ▸ hin.flows) _ env
      show φ (c.shared.spend env) + w t.request _ ≤ _
      rw [hrest, throws]
      omega
    | answered | lost =>
      have hlive : MarksLiveCall (c.shared.spend env) op := by
        rintro tok rfl
        exact hok tok (by simp [marks?, ht, Thread.next?, hk])
      have hturn := turn (k := k) hturn (hq.1.spend env) hp hlive
      rw [hk]
      exact Nat.le_trans hturn (Nat.add_le_add_right hspend _)

section
variable {inet : String → Bool} {ttlMs : Int} {s : Tables} {c : State}

theorem familyCredit_spend (f : Uuid) (s : Tables) (env : Env) : familyCredit f (s.spend env) ≤ familyCredit f s := by
  have : f ∈ s.generated.uuids → f ∈ (s.spend env).generated.uuids := List.mem_cons_of_mem _
  simp only [familyCredit]
  split <;> split <;> simp_all [Tables.spend, Tables.liveIn, Tables.live]

theorem account_family (inet : String → Bool) (ttlMs : Int) (f : Uuid) :
    Account (system inet ttlMs) MarksLive Sound (familyCredit f) (fun t => mints f t.rest.next?) := by
  refine account (w := fun _ rest => mints f rest.next?) (familyCredit_spend f) ?_ ?_ fun _ _ => rfl
  · intro s req env wf hadm
    have hspend := familyCredit_spend f s env
    cases req with
    | rotate | revoke => exact hspend
    | issueForNewSession userId ctx =>
      by_cases hf : env.uuid = f
      · -- The family is generated now: its credit goes to the thread that mints its first token.
        have hnew : f ∉ s.generated.uuids := hf ▸ (Generated.admits_iff.mp hadm).1
        have hnow : f ∈ (s.spend env).generated.uuids := hf ▸ List.mem_cons_self ..
        have hmint : mints f ((program ttlMs (.issueForNewSession userId ctx)).settle env).next? = 1 := if_pos hf
        have hlive : (s.spend env).liveIn f = s.liveIn f := rfl
        simp only [familyCredit, hnew, hnow, hmint, hlive, ↓reduceIte]
        omega
      · have hmint : mints f ((program ttlMs (.issueForNewSession userId ctx)).settle env).next? = 0 := if_neg hf
        rw [hmint]
        exact hspend
  · intro s s' req c k rest h wf hp hlive
    exact h.family f wf hp hlive

theorem account_raw (inet : String → Bool) (ttlMs : Int) (raw : RawToken) :
    Account (system inet ttlMs) MarksLive Sound (rawCredit raw) (fun t => spends raw t.request t.rest) := by
  refine account (fun _ _ => Nat.le_refl _) ?_ ?_ fun _ _ => rfl
  · intro s req env wf hadm
    cases req with
    | rotate | revoke | issueForNewSession => exact Nat.le_refl _
  · intro s s' req c k rest h wf hp hlive
    exact h.raw raw wf hp hlive

theorem familyCredit_le_one (wf : s.WellFormed) (single : ∀ f, s.liveIn f ≤ 1) (f : Uuid) : familyCredit f s ≤ 1 := by
  by_cases hf : f ∈ s.generated.uuids
  · simpa [familyCredit, hf] using single f
  · have hzero : s.liveIn f = 0 := by
      refine List.countP_eq_zero.mpr fun r hr h => hf ?_
      have hfam : r.origin.familyId = f := by simpa using (Bool.and_eq_true_iff.mp h).1
      exact hfam ▸ (wf.issued r.origin (Tables.origin_mem hr)).2
    simp [familyCredit, hf, hzero]

theorem rawCredit_le_one (wf : s.WellFormed) (raw : RawToken) : rawCredit raw s ≤ 1 := by
  have hle : s.live (·.tokenHash == ⟨raw⟩) ≤ (s.tokens.map RefreshToken.tokenHash).count ⟨raw⟩ := by
    rw [List.count, List.countP_map]
    exact List.countP_mono_left fun r _ h => (Bool.and_eq_true_iff.mp h).1
  by_cases hraw : (⟨raw⟩ : Sha256) ∈ s.tokens.map RefreshToken.tokenHash
  · rw [List.count_eq_one_of_mem wf.nodup_hashes hraw] at hle
    simpa [rawCredit, hraw] using hle
  · rw [List.count_eq_zero.mpr hraw] at hle
    simp only [rawCredit, hraw, ↓reduceIte]
    omega

theorem exchanged_spends {raw : RawToken} {t : Thread interface Request Response} (h : exchanged raw t = true) :
    1 ≤ spends raw t.request t.rest := by
  obtain ⟨hreq, hres⟩ := Bool.and_eq_true_iff.mp h
  cases hr : t.rest with
  | ret v => simp [spends, hreq]
  | throw | ask | call => simp [Thread.result?, hr, Prog.result?] at hres

/-- As long as every mark meets an unrevoked token, a raw token is exchanged at most once and a family
    has at most one unrevoked token, in every configuration of every run. -/
theorem rotate_once (inet : String → Bool) (ttlMs : Int) (s : Tables) (c : State) (wf : s.WellFormed)
    (single : ∀ f, s.liveIn f ≤ 1)
    (hr : (system inet ttlMs).Reach MarksLive (.initial s) c) :
    (∀ raw, c.threads.countP (exchanged raw) ≤ 1) ∧ ∀ f, c.shared.liveIn f ≤ 1 := by
  refine ⟨fun raw => ?_, fun f => ?_⟩
  · have hcredit := (account_raw inet ttlMs raw).reach (reach_sound wf) hr
    have hinit := rawCredit_le_one wf raw
    have hcount : c.threads.countP (exchanged raw) ≤ c.total fun t => spends raw t.request t.rest :=
      countP_le_sum fun t _ => exchanged_spends
    omega
  · have hcredit := (account_family inet ttlMs f).reach (reach_sound wf) hr
    have hinit := familyCredit_le_one wf single f
    have hlive : c.shared.liveIn f ≤ familyCredit f c.shared := Nat.le_add_left _ _
    omega

end

/-! ### Runs -/

/-- One user, no token yet. -/
def oneUser : Tables := ⟨[7], [], ⟨[], []⟩⟩

/-- A session is issued, and its token rotated. -/
def oneRotation : List (Move interface Request) :=
  [.start (.issueForNewSession 7 {}) (envAt 1), .call 0 .answered (envAt 2), .start (.rotate (envAt 1).random {}) (envAt 3),
   .call 1 .answered (envAt 5), .call 1 .answered (envAt 7), .call 1 .answered (envAt 9)]

set_option maxRecDepth 4000 in
theorem rotate_once_one : ∃ c : State, c.Idle ∧ c.threads.countP (exchanged (envAt 1).random) = 1 ∧
    ∀ f, c.shared.liveIn f ≤ 1 :=
  ⟨_, by decide, rfl, (rotate_once (fun _ => true) 1000 oneUser _ ⟨by decide, by decide, nofun⟩ (fun _ => Nat.zero_le 1)
    (System.reach_of_run oneRotation rfl)).2⟩

/-- A session is issued, and two rotations of its token make each call one after the other. -/
def twoRotations : List (Move interface Request) :=
  [.start (.issueForNewSession 7 {}) (envAt 1), .call 0 .answered (envAt 2),
   .start (.rotate (envAt 1).random {}) (envAt 3), .start (.rotate (envAt 1).random {}) (envAt 4),
   .call 1 .answered (envAt 5), .call 2 .answered (envAt 6),
   .call 1 .answered (envAt 7), .call 2 .answered (envAt 8),
   .call 1 .answered (envAt 9), .call 2 .answered (envAt 10)]

set_option maxRecDepth 4000 in
/-- Both rotations pass the test on `revokedAt`: the token is exchanged twice, and its family ends with
    two unrevoked tokens. -/
theorem rotate_twice : ∃ c : State, (system (fun _ => true) 1000).Reach (fun _ _ => True) (.initial oneUser) c ∧ c.Idle ∧
    c.threads.countP (exchanged (envAt 1).random) = 2 ∧ c.shared.liveIn (envAt 1).uuid = 2 :=
  ⟨_, System.reach_of_run twoRotations rfl, by decide, rfl, rfl⟩

end TaskPlatform.Auth

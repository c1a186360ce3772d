import TaskPlatform.Auth.Flow

/-! What holds of the tables and of every request in flight on them, in every run. -/

namespace TaskPlatform.Auth
open Effects

/-- The tables only grow: rows stay, revoked rows stay revoked. -/
structure Tables.Grows (s s' : Tables) : Prop where
  origins : s.origins ⊆ s'.origins
  uuids : s.generated.uuids ⊆ s'.generated.uuids
  revoked : ∀ r ∈ s.tokens, r.revokedAt.isSome → ∃ r' ∈ s'.tokens, r'.origin = r.origin ∧ r'.revokedAt.isSome

/-- A row of the raw token `raw`, of the family `f`. -/
def Tables.Holds (s : Tables) (raw : RawToken) (f : Uuid) : Prop :=
  ∃ o ∈ s.origins, o.tokenHash = ⟨raw⟩ ∧ o.familyId = f

/-- What is true of the request while it makes this call next. -/
def Pending (s : Tables) (req : Request) : Call → Prop
  | .findOne h => ∃ raw ctx, req = .rotate raw ctx ∧ h = ⟨raw⟩
  | .save t => ∃ raw ctx, req = .rotate raw ctx ∧ t.tokenHash = ⟨raw⟩ ∧ t.revokedAt.isSome ∧ t.origin ∈ s.origins
  | .insert n => n.familyId ∈ s.generated.uuids ∧ ∀ raw ctx, req = .rotate raw ctx → s.Holds raw n.familyId
  | .updateByHash _ _ => ∃ raw, req = .revoke raw
  | .updateByFamily f _ => ∃ raw ctx, req = .rotate raw ctx ∧ s.Holds raw f

/-- What is true of a request in flight. -/
structure InFlight (s : Tables) (t : Thread interface Request Response) : Prop where
  flows : t.rest.Flows Follows
  pending : ∀ c, t.next? = some c → Pending s t.request c

section
variable {inet : String → Bool} {s s' : Tables}

theorem Tables.Holds.grow {raw : RawToken} {f : Uuid} (h : s.Holds raw f) (g : s.Grows s') : s'.Holds raw f := by
  obtain ⟨o, ho, heq⟩ := h
  exact ⟨o, g.origins ho, heq⟩

theorem Tables.Holds.of_mem {r : RefreshToken} {raw : RawToken} (hr : r ∈ s.tokens) (hh : r.tokenHash = ⟨raw⟩) :
    s.Holds raw r.familyId :=
  ⟨r.origin, Tables.origin_mem hr, hh, rfl⟩

/-- A raw token is of one family. -/
theorem Tables.Holds.unique (wf : s.WellFormed) {raw : RawToken} {f f' : Uuid} (h : s.Holds raw f)
    (h' : s.Holds raw f') : f = f' := by
  obtain ⟨o, ho, hraw, rfl⟩ := h
  obtain ⟨o', ho', hraw', rfl⟩ := h'
  rw [Table.eq_of_key wf.hashes ho ho' (hraw.trans hraw'.symm)]

theorem Pending.grow {req : Request} {c : Call} (h : Pending s req c) (g : s.Grows s') : Pending s' req c := by
  cases c with
  | findOne | updateByHash => exact h
  | save t =>
    obtain ⟨raw, ctx, hreq, hh, hrev, ho⟩ := h
    exact ⟨raw, ctx, hreq, hh, hrev, g.origins ho⟩
  | insert n => exact ⟨g.uuids h.1, fun raw ctx hreq => (h.2 raw ctx hreq).grow g⟩
  | updateByFamily f now =>
    obtain ⟨raw, ctx, hreq, hf⟩ := h
    exact ⟨raw, ctx, hreq, hf.grow g⟩

theorem Tables.Grows.refl (s : Tables) : s.Grows s :=
  ⟨fun _ h => h, fun _ h => h, fun r hr h => ⟨r, hr, rfl, h⟩⟩

theorem Tables.Grows.trans {s'' : Tables} (g : s.Grows s') (g' : s'.Grows s'') : s.Grows s'' where
  origins := fun _ h => g'.origins (g.origins h)
  uuids := fun _ h => g'.uuids (g.uuids h)
  revoked r hr h := by
    obtain ⟨r₁, hr₁, ho₁, h₁⟩ := g.revoked r hr h
    obtain ⟨r₂, hr₂, ho₂, h₂⟩ := g'.revoked r₁ hr₁ h₁
    exact ⟨r₂, hr₂, ho₂.trans ho₁, h₂⟩

/-! ### What a turn keeps -/

theorem Tables.grows_spend (s : Tables) (env : Env) : s.Grows (s.spend env) :=
  ⟨fun _ h => h, fun _ h => List.mem_cons_of_mem _ h, fun r hr h => ⟨r, hr, rfl, h⟩⟩

theorem Tables.WellFormed.spend (wf : s.WellFormed) (env : Env) : (s.spend env).WellFormed where
  ids := wf.ids
  hashes := wf.hashes
  issued t ht := ⟨List.mem_cons_of_mem _ (wf.issued t ht).1, List.mem_cons_of_mem _ (wf.issued t ht).2⟩

theorem Tables.WellFormed.of_origins (wf : s.WellFormed) (ho : s'.origins = s.origins)
    (hg : s'.generated = s.generated) : s'.WellFormed where
  ids := ho ▸ wf.ids
  hashes := ho ▸ wf.hashes
  issued t ht := hg ▸ wf.issued t (ho ▸ ht)

theorem Tables.saveToken_keeps {t : RefreshToken} (wf : s.WellFormed) (ho : t.origin ∈ s.origins)
    (hrev : t.revokedAt.isSome) : (s.saveToken inet t).2.WellFormed ∧ s.Grows (s.saveToken inet t).2 := by
  have horig : (s.saveToken inet t).2.origins = s.origins := Tables.saveToken_origins ho wf
  have hgen : (s.saveToken inet t).2.generated = s.generated := by rw [Tables.saveToken_eq ho]
  refine ⟨wf.of_origins horig hgen, ⟨horig ▸ fun _ h => h, hgen ▸ fun _ h => h, fun r hr h => ?_⟩⟩
  by_cases hid : r.id = t.id
  · have : r.origin = t.origin := Table.eq_of_key wf.ids (Tables.origin_mem hr) ho hid
    exact ⟨t, (Tables.mem_saveToken ho).mpr (Or.inl rfl), this.symm, hrev⟩
  · exact ⟨r, (Tables.mem_saveToken ho).mpr (Or.inr ⟨hr, hid⟩), rfl, h⟩

theorem Tables.revokeWhere_keeps (wf : s.WellFormed) (p : RefreshToken → Bool) (now : Date) :
    (s.revokeWhere p now).WellFormed ∧ s.Grows (s.revokeWhere p now) := by
  have horig := Tables.revokeWhere_origins (s := s) p now
  refine ⟨wf.of_origins horig rfl, ⟨horig ▸ fun _ h => h, fun _ h => h, fun r hr h => ?_⟩⟩
  refine ⟨r, Tables.mem_revokeWhere.mpr (Or.inl ⟨hr, ?_⟩), rfl, h⟩
  obtain ⟨at_, hat⟩ := Option.isSome_iff_exists.mp h
  simp [hat]

theorem Tables.insert_keeps {n : NewRefreshToken} {id : Uuid} (wf : s.WellFormed)
    (hash : n.tokenHash ∉ s.tokens.map RefreshToken.tokenHash) (issued : id ∈ s.generated.uuids)
    (fresh : id ∉ s.origins.map RefreshToken.id) (family : n.familyId ∈ s.generated.uuids) :
    Tables.WellFormed { s with tokens := s.tokens ++ [n.toRow id] } ∧
      s.Grows { s with tokens := s.tokens ++ [n.toRow id] } := by
  have horig : Tables.origins { s with tokens := s.tokens ++ [n.toRow id] } = s.origins ++ [n.toRow id] := by
    simp [Tables.origins]
  have hash' : n.tokenHash ∉ s.origins.map RefreshToken.tokenHash := by
    simpa [Tables.origins, Function.comp_def, RefreshToken.origin] using hash
  refine ⟨⟨?_, ?_, fun t ht => ?_⟩, ⟨?_, fun _ h => h, fun r hr h => ⟨r, List.mem_append_left _ hr, rfl, h⟩⟩⟩
  · rw [horig, List.map_append]
    exact List.nodup_append'.mpr ⟨wf.ids, List.nodup_singleton _, by simpa [NewRefreshToken.toRow] using fresh⟩
  · rw [horig, List.map_append]
    exact List.nodup_append'.mpr ⟨wf.hashes, List.nodup_singleton _, by simpa using hash'⟩
  · rw [horig] at ht
    rcases List.mem_append.mp ht with ht | ht
    · exact wf.issued t ht
    · obtain rfl := List.mem_singleton.mp ht
      exact ⟨issued, family⟩
  · rw [horig]
    exact List.subset_append_left _ _

theorem Turn.keeps {req : Request} {c : Call} {rest : Service Response} (h : Turn inet s c s' rest) (wf : s.WellFormed)
    (hp : Pending s req c) : s'.WellFormed ∧ s.Grows s' := by
  cases h with
  | failed | rejected | reused | valid | refused => exact ⟨wf, .refl s⟩
  | marked =>
    obtain ⟨raw, ctx, -, -, hrev, ho⟩ := hp
    exact Tables.saveToken_keeps wf ho hrev
  | minted hash issued fresh => exact Tables.insert_keeps wf hash issued fresh hp.1
  | loggedOut | detected => exact Tables.revokeWhere_keeps wf _ _

/-- What comes next is true of the request again. -/
theorem Turn.pending {req : Request} {c c' : Call} {rest : Service Response} (h : Turn inet s c s' rest)
    (wf : s.WellFormed) (hp : Pending s req c) (hn : rest.next? = some c') : Pending s' req c' := by
  have g := (h.keeps wf hp).2
  cases h with
  | failed | rejected | refused => cases hn
  | reused mem revoked next =>
    obtain ⟨raw, ctx, hreq, hh⟩ := hp
    cases next.symm.trans hn
    exact ⟨raw, ctx, hreq, .of_mem mem hh⟩
  | @valid cur _ _ mem live next =>
    obtain ⟨raw, ctx, hreq, hh⟩ := hp
    cases next.symm.trans hn
    exact ⟨raw, ctx, hreq, hh, rfl, Tables.origin_mem (r := cur) mem⟩
  | @marked t _ next =>
    obtain ⟨raw, ctx, hreq, hh, -, ho⟩ := hp
    rcases next with rfl | ⟨n, hn', hfam⟩
    · cases hn
    · cases hn'.symm.trans hn
      have horig := g.origins ho
      refine ⟨?_, fun raw' ctx' hreq' => ⟨t.origin, horig, ?_, hfam.symm⟩⟩
      · exact hfam ▸ g.uuids (wf.issued _ ho).2
      · obtain ⟨rfl, rfl⟩ := Request.rotate.inj (hreq.symm.trans hreq')
        exact hh
  | minted _ _ _ ends | loggedOut ends =>
    rcases ends with rfl | ⟨v, rfl⟩ <;> cases hn
  | detected ends => rcases ends with rfl | rfl <;> cases hn

end

/-! ### Every run -/

theorem start_pending {ttlMs : Int} {s : Tables} {req : Request} {env : Env} {c : Call}
    (h : ((program ttlMs req).settle env).next? = some c) : Pending (s.spend env) req c := by
  cases req with
  | issueForNewSession userId ctx =>
    cases h
    exact ⟨List.mem_cons_self .., fun _ _ hreq => nomatch hreq⟩
  | rotate raw ctx =>
    cases h
    exact ⟨raw, ctx, rfl, rfl⟩
  | revoke raw =>
    cases h
    exact ⟨raw, rfl⟩

/-- The next call of a request in flight takes one of the turns. -/
theorem InFlight.turn (inet : String → Bool) (ttlMs : Int) {s : Tables} {t : Thread interface Request Response} {c : Call}
    {k : Except Err c.Reply → Service Response} {env : Env} (ht : InFlight s t) (hk : t.rest = .call c k)
    (wf : s.WellFormed) (hadm : s.generated.admits env = true) (fate : Fate) (n : Nat) :
    Turn inet (s.spend env) c ((system inet ttlMs).effect fate env c s) ((system inet ttlMs).resume t c k fate env s n).rest ∧
      Pending (s.spend env) t.request c := by
  have hp := (ht.pending c (by rw [Thread.next?, hk]; rfl)).grow (s.grows_spend env)
  refine ⟨Auth.turn inet ttlMs fate wf hadm ?_ (hk ▸ ht.flows), hp⟩
  rintro t rfl
  obtain ⟨_, _, _, _, _, ho⟩ := hp
  exact ho

theorem guarantee (inet : String → Bool) (ttlMs : Int) :
    System.Guarantee (system inet ttlMs) Tables.WellFormed InFlight Tables.Grows where
  start {s r env} _ wf _ :=
    ⟨wf.spend env, s.grows_spend env, (program_flows ttlMs r).settle env, fun _ hc => start_pending hc⟩
  call {s t c k env} fate n wf ht hk hadm := by
    obtain ⟨hturn, hp⟩ := ht.turn inet ttlMs hk wf hadm fate n
    obtain ⟨wf', g⟩ := hturn.keeps (wf.spend env) hp
    have hflows : (Prog.call c k : Service Response).Flows Follows := hk ▸ ht.flows
    exact ⟨wf', (s.grows_spend env).trans g, (hflows _).2.settle env, fun c' => hturn.pending (wf.spend env) hp⟩
  kill _ _ _ := ⟨trivial, fun _ hc => nomatch hc⟩
  stable g ht := ⟨ht.flows, fun c hc => (ht.pending c hc).grow g⟩

/-- The tables are well formed and the requests in flight are as `InFlight` says. -/
def Sound (c : Config interface Tables Request Response) : Prop :=
  c.shared.WellFormed ∧ ∀ t ∈ c.threads, InFlight c.shared t

theorem reach_sound {inet : String → Bool} {ttlMs : Int}
    {ok : Config interface Tables Request Response → Move interface Request → Prop} {s : Tables}
    {c : Config interface Tables Request Response} (wf : s.WellFormed)
    (hr : (system inet ttlMs).Reach ok (.initial s) c) : Sound c :=
  (guarantee inet ttlMs).reach wf hr

end TaskPlatform.Auth

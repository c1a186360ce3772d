import TaskPlatform.Auth.Rotation

/-! Reuse detection: a rotation that is presented a revoked token revokes the family of the token, in one
    update of the rows that are there at that moment. A rotation of the family that has passed its test
    but has not minted its token yet is not reached by the update. -/

namespace TaskPlatform.Auth
open Effects

/-- A call of a rotation of the family, from the test on `revokedAt` to the insert of the next token. -/
def rotatesIn (f : Uuid) : Option Call → Bool
  | some (.save t) => t.familyId == f
  | some (.insert n) => n.familyId == f
  | _ => false

/-- The family that the move revokes. -/
def revokes? (c : State) : Move interface Request → Option Uuid
  | .call i fate _ =>
    match (c.threads[i]?).bind Thread.next? with
    | some (.updateByFamily f _) => if fate = .failed then none else some f
    | _ => none
  | _ => none

/-- A family is revoked while none of its rotations is between its test and its insert. -/
def RevokesAlone (c : State) (m : Move interface Request) : Prop :=
  ∀ f ∈ revokes? c m, ∀ t ∈ c.threads, rotatesIn f t.next? = false

instance (c : State) (m : Move interface Request) : Decidable (RevokesAlone c m) :=
  Option.decidableForallMem (p := fun f => ∀ t ∈ c.threads, rotatesIn f t.next? = false) (revokes? c m)

/-- Every token of the family is revoked. -/
def Tables.Revoked (s : Tables) (f : Uuid) : Prop := ∀ r ∈ s.tokens, r.familyId = f → r.revokedAt.isSome

/-- The family is revoked and stays so: no request is about to add a token to it. -/
structure Closed (f : Uuid) (c : State) : Prop where
  generated : f ∈ c.shared.generated.uuids
  revoked : c.shared.Revoked f
  quiet : ∀ t ∈ c.threads, rotatesIn f t.next? = false

/-! ### A closed family stays closed -/

theorem Tables.Revoked.revokeWhere {s : Tables} {f : Uuid} (h : s.Revoked f) (p : RefreshToken → Bool) (now : Date) :
    (s.revokeWhere p now).Revoked f := by
  intro r hr hf
  rcases Tables.mem_revokeWhere.mp hr with ⟨hr, -⟩ | ⟨q, -, -, rfl⟩
  · exact h r hr hf
  · rfl

theorem Tables.revoked_revokeFamily (s : Tables) (f : Uuid) (now : Date) :
    (s.revokeWhere (·.familyId == f) now).Revoked f := by
  intro r hr hf
  rcases Tables.mem_revokeWhere.mp hr with ⟨-, hp⟩ | ⟨q, -, -, rfl⟩
  · simpa [hf, Option.isSome_iff_ne_none] using hp
  · rfl

/-- A turn that starts outside the family adds no token to it and does not turn to it. -/
theorem Turn.revoked {inet : String → Bool} {s s' : Tables} {req : Request} {c : Call} {rest : Service Response} {f : Uuid}
    (h : Turn inet s c s' rest) (hp : Pending s req c) (hrev : s.Revoked f) (hq : rotatesIn f (some c) = false) :
    s'.Revoked f ∧ rotatesIn f rest.next? = false := by
  cases h with
  | failed | rejected | refused => exact ⟨hrev, rfl⟩
  | reused _ _ next =>
    rw [next]
    exact ⟨hrev, rfl⟩
  | @valid cur now rest mem live next =>
    refine ⟨hrev, ?_⟩
    rw [next]
    refine beq_eq_false_iff_ne.mpr fun hf => ?_
    have := hrev cur mem hf
    simp [live] at this
  | @marked t rest next =>
    have hne : t.familyId ≠ f := beq_eq_false_iff_ne.mp hq
    obtain ⟨_, _, -, -, -, ho⟩ := hp
    constructor
    · intro r hr hf
      rcases (Tables.mem_saveToken ho).mp hr with rfl | ⟨hr, -⟩
      · exact absurd hf hne
      · exact hrev r hr hf
    · rcases next with rfl | ⟨n, hn, hfam⟩
      · rfl
      · rw [hn]
        exact beq_eq_false_iff_ne.mpr (hfam ▸ hne)
  | @minted n id rest _ _ _ ends =>
    have hne : n.familyId ≠ f := beq_eq_false_iff_ne.mp hq
    constructor
    · intro r hr hf
      rcases List.mem_append.mp hr with hr | hr
      · exact hrev r hr hf
      · obtain rfl := List.mem_singleton.mp hr
        exact absurd hf hne
    · rcases ends with rfl | ⟨v, rfl⟩ <;> rfl
  | loggedOut ends =>
    refine ⟨hrev.revokeWhere _ _, ?_⟩
    rcases ends with rfl | ⟨v, rfl⟩ <;> rfl
  | detected ends =>
    refine ⟨hrev.revokeWhere _ _, ?_⟩
    rcases ends with rfl | rfl <;> rfl

section
variable {inet : String → Bool} {ttlMs : Int} {c d : State} {m : Move interface Request} {f : Uuid}

theorem Closed.step (h : Closed f c) (hq : Sound c) (hs : (system inet ttlMs).step c m = some d) : Closed f d := by
  cases m with
  | start req env =>
    obtain ⟨hadm, rfl⟩ := System.step_start hs
    refine ⟨List.mem_cons_of_mem _ h.generated, h.revoked, fun t ht => ?_⟩
    rcases List.mem_append.mp ht with ht | ht
    · exact h.quiet t ht
    · obtain rfl := List.mem_singleton.mp ht
      cases req with
      | rotate | revoke => rfl
      | issueForNewSession userId ctx =>
        exact beq_eq_false_iff_ne.mpr fun (hf : env.uuid = f) => (Generated.admits_iff.mp hadm).1 (hf ▸ h.generated)
  | call i fate env =>
    obtain ⟨t, op, k, ht, hk, hadm, rfl⟩ := System.step_call hs
    have hm := List.mem_of_getElem? ht
    obtain ⟨hturn, hp⟩ := (hq.2 t hm).turn inet ttlMs hk hq.1 hadm fate c.time
    obtain ⟨hrev, hnext⟩ := hturn.revoked hp h.revoked (by simpa [Thread.next?, hk] using h.quiet t hm)
    have hg := (hturn.keeps (hq.1.spend env) hp).2.uuids
    refine ⟨hg (List.mem_cons_of_mem _ h.generated), hrev, fun u hu => ?_⟩
    rcases List.mem_or_eq_of_mem_set hu with hu | rfl
    · exact h.quiet u hu
    · exact hnext
  | kill i =>
    obtain ⟨t, op, k, ht, hk, rfl⟩ := System.step_kill hs
    refine ⟨h.generated, h.revoked, fun u hu => ?_⟩
    rcases List.mem_or_eq_of_mem_set hu with hu | rfl
    · exact h.quiet u hu
    · rfl

theorem Closed.reach {ok : State → Move interface Request → Prop} (h : Closed f c)
    (known : ∀ {d}, (system inet ttlMs).Reach ok c d → Sound d) (hr : (system inet ttlMs).Reach ok c d) : Closed f d :=
  hr.invariant_with known h fun hq _ h _ hs => h.step hq hs

/-! ### The update closes the family -/

/-- Of every rotation that ended with the error, the family is closed. -/
def DetectedClosed (c : State) : Prop :=
  ∀ t ∈ c.threads, t.result? = some (.error reuseDetected) → ∀ raw ctx, t.request = .rotate raw ctx →
    ∃ f, c.shared.Holds raw f ∧ Closed f c

theorem Turn.reuse_detected {inet : String → Bool} {s s' : Tables} {c : Call} {rest : Service Response}
    (h : Turn inet s c s' rest)
    (hres : rest.result? = some (.error reuseDetected)) :
    ∃ f now, c = .updateByFamily f now ∧ s' = s.revokeWhere (·.familyId == f) now := by
  cases h with
  | failed => cases hres
  | rejected ne => exact absurd (Except.error.inj (Option.some.inj hres)) ne
  | reused _ _ next | valid _ _ next =>
    obtain ⟨k, rfl⟩ := Prog.eq_call_of_next? next
    cases hres
  | marked next =>
    rcases next with rfl | ⟨n, next, -⟩
    · cases hres
    · obtain ⟨k, rfl⟩ := Prog.eq_call_of_next? next
      cases hres
  | refused => cases hres
  | minted _ _ _ ends | loggedOut ends =>
    rcases ends with rfl | ⟨v, rfl⟩ <;> cases hres
  | detected => exact ⟨_, _, rfl, rfl⟩

theorem DetectedClosed.step (h : DetectedClosed c) (hq : Sound c) (hok : RevokesAlone c m)
    (hs : (system inet ttlMs).step c m = some d) : DetectedClosed d := by
  have keep : ∀ t ∈ c.threads, t.result? = some (.error reuseDetected) → ∀ raw ctx, t.request = .rotate raw ctx →
      ∃ f, d.shared.Holds raw f ∧ Closed f d := by
    intro t ht hres raw ctx hreq
    obtain ⟨f, hf, hc⟩ := h t ht hres raw ctx hreq
    obtain ⟨-, -, g | g⟩ := (guarantee inet ttlMs).keep hs hq
    · exact ⟨f, hf.grow g, hc.step hq hs⟩
    · exact ⟨f, g ▸ hf, hc.step hq hs⟩
  cases m with
  | start req env =>
    obtain ⟨hadm, rfl⟩ := System.step_start hs
    intro t ht hres
    rcases List.mem_append.mp ht with ht | ht
    · exact keep t ht hres
    · obtain rfl := List.mem_singleton.mp ht
      cases req <;> cases hres
  | call i fate env =>
    obtain ⟨t, op, k, ht, hk, hadm, rfl⟩ := System.step_call hs
    have hin := hq.2 t (List.mem_of_getElem? ht)
    obtain ⟨hturn, hp⟩ := hin.turn inet ttlMs hk hq.1 hadm fate c.time
    intro u hu hres raw ctx hreq
    rcases List.mem_or_eq_of_mem_set hu with hu | rfl
    · exact keep u hu hres raw ctx hreq
    · obtain ⟨f, now, rfl, hs'⟩ := hturn.reuse_detected hres
      obtain ⟨raw', ctx', hreq', hf⟩ := hp
      obtain ⟨rfl, rfl⟩ := Request.rotate.inj (hreq'.symm.trans hreq)
      have hfate : fate ≠ .failed := by
        rintro rfl
        have hrest := flows_error (hk ▸ hin.flows) .unavailable env
        simp [Thread.result?, System.resume, System.answer, system, hrest] at hres
        cases hres
      have hgen : f ∈ (c.shared.spend env).generated.uuids := by
        obtain ⟨o, ho, -, rfl⟩ := hf
        exact ((hq.1.spend env).issued o ho).2
      have g := (hturn.keeps (hq.1.spend env) ⟨raw', ctx', hreq', hf⟩).2
      refine ⟨f, hf.grow g, g.uuids hgen, ?_, fun v hv => ?_⟩
      · show ((system inet ttlMs).effect fate env _ c.shared).Revoked f
        exact hs' ▸ Tables.revoked_revokeFamily _ f now
      · rcases List.mem_or_eq_of_mem_set hv with hv | rfl
        · exact hok f (by simp [revokes?, ht, Thread.next?, hk, hfate]) v hv
        · rw [Thread.next?, Prog.next?_of_result? hres]
          rfl
  | kill i =>
    obtain ⟨t, op, k, ht, hk, rfl⟩ := System.step_kill hs
    intro u hu hres
    rcases List.mem_or_eq_of_mem_set hu with hu | rfl
    · exact keep u hu hres
    · cases hres

/-! ### Rotations that start later -/

/-- A rotation with number `n` or more that succeeded is of another family. -/
def LaterElsewhere (n : Nat) (f : Uuid) (c : State) : Prop :=
  ∀ j t raw, n ≤ j → c.threads[j]? = some t → exchanged raw t = true → ∃ f', c.shared.Holds raw f' ∧ f' ≠ f

theorem exchanged_iff {raw : RawToken} {t : Thread interface Request Response} :
    exchanged raw t = true ↔ ∃ ctx v, t.request = .rotate raw ctx ∧ t.result? = some (.ok v) := by
  unfold exchanged Request.rotates
  cases t.request <;> cases t.result? with
  | none => simp
  | some r => cases r <;> simp

theorem Turn.exchanged {s s' : Tables} {req : Request} {c : Call} {rest : Service Response} {v : Response}
    (h : Turn inet s c s' rest) (hp : Pending s req c) (hreq : ∀ raw, req ≠ .revoke raw)
    (hres : rest.result? = some (.ok v)) : ∃ n, c = .insert n := by
  cases h with
  | failed | rejected | refused => cases hres
  | reused _ _ next | valid _ _ next =>
    obtain ⟨k, rfl⟩ := Prog.eq_call_of_next? next
    cases hres
  | marked next =>
    rcases next with rfl | ⟨n, next, -⟩
    · cases hres
    · obtain ⟨k, rfl⟩ := Prog.eq_call_of_next? next
      cases hres
  | minted => exact ⟨_, rfl⟩
  | loggedOut =>
    obtain ⟨raw, rfl⟩ := hp
    exact absurd rfl (hreq raw)
  | detected ends => rcases ends with rfl | rfl <;> cases hres

theorem LaterElsewhere.step {n : Nat} (h : LaterElsewhere n f c) (hc : Closed f c) (hq : Sound c)
    (hs : (system inet ttlMs).step c m = some d) : LaterElsewhere n f d := by
  have keep : ∀ j t raw, n ≤ j → c.threads[j]? = some t → exchanged raw t = true →
      ∃ f', d.shared.Holds raw f' ∧ f' ≠ f := by
    intro j t raw hj ht hex
    obtain ⟨f', hf', hne⟩ := h j t raw hj ht hex
    obtain ⟨-, -, g | g⟩ := (guarantee inet ttlMs).keep hs hq
    · exact ⟨f', hf'.grow g, hne⟩
    · exact ⟨f', g ▸ hf', hne⟩
  cases m with
  | start req env =>
    obtain ⟨hadm, rfl⟩ := System.step_start hs
    intro j t raw hj ht hex
    rcases System.getElem?_concat_cases ht with ht | ⟨-, rfl⟩
    · exact keep j t raw hj ht hex
    · obtain ⟨ctx, v, hreq, hres⟩ := exchanged_iff.mp hex
      cases req <;> cases hres
  | call i fate env =>
    obtain ⟨t, op, k, ht, hk, hadm, rfl⟩ := System.step_call hs
    have hin := hq.2 t (List.mem_of_getElem? ht)
    obtain ⟨hturn, hp⟩ := hin.turn inet ttlMs hk hq.1 hadm fate c.time
    intro j u raw hj hu hex
    rcases System.getElem?_set_cases hu with ⟨-, hu⟩ | ⟨-, rfl⟩
    · exact keep j u raw hj hu hex
    · obtain ⟨ctx, v, hreq, hres⟩ := exchanged_iff.mp hex
      have hreq : t.request = .rotate raw ctx := hreq
      obtain ⟨n, rfl⟩ := hturn.exchanged hp (by simp [hreq]) hres
      have hne : n.familyId ≠ f := by
        have hquiet : rotatesIn f (some (.insert n)) = false := by
          simpa [Thread.next?, hk] using hc.quiet t (List.mem_of_getElem? ht)
        exact beq_eq_false_iff_ne.mp hquiet
      exact ⟨n.familyId, (hp.2 raw ctx hreq).grow (hturn.keeps (hq.1.spend env) hp).2, hne⟩
  | kill i =>
    obtain ⟨t, op, k, ht, hk, rfl⟩ := System.step_kill hs
    intro j u raw hj hu hex
    rcases System.getElem?_set_cases hu with ⟨-, hu⟩ | ⟨-, rfl⟩
    · exact keep j u raw hj hu hex
    · simp [exchanged, Thread.result?] at hex

/-- Every family revocation being alone, once a rotation has ended with the error, its family has no
    unrevoked token any more, and no rotation that starts later succeeds with a token of the family. -/
theorem reuse_closes_family (inet : String → Bool) (ttlMs : Int) (s : Tables) (c d : State) (wf : s.WellFormed)
    (hr : (system inet ttlMs).Reach RevokesAlone (.initial s) c) (t : Thread interface Request Response) (ht : t ∈ c.threads)
    (raw : RawToken) (ctx : SessionContext) (hreq : t.request = .rotate raw ctx)
    (hres : t.result? = some (.error reuseDetected)) (hr' : (system inet ttlMs).Reach RevokesAlone c d) :
    ∃ f, c.shared.Holds raw f ∧ d.shared.Revoked f ∧
      ∀ j u raw', c.threads.length ≤ j → d.threads[j]? = some u → exchanged raw' u = true → ¬d.shared.Holds raw' f := by
  have known : ∀ {d}, (system inet ttlMs).Reach RevokesAlone c d → Sound d := fun h => reach_sound wf (hr.trans h)
  have hdet : DetectedClosed c :=
    hr.invariant_with (reach_sound wf) nofun fun hq _ h hok hs => h.step hq hok hs
  obtain ⟨f, hf, hc⟩ := hdet t ht hres raw ctx hreq
  have hd : Closed f d ∧ LaterElsewhere c.threads.length f d := by
    refine hr'.invariant_with (P := fun d => Closed f d ∧ LaterElsewhere c.threads.length f d) known
      ⟨hc, fun j u raw' hj hu => ?_⟩ fun hq _ h _ hs => ⟨h.1.step hq hs, h.2.step h.1 hq hs⟩
    rw [List.getElem?_eq_none hj] at hu
    cases hu
  refine ⟨f, hf, hd.1.revoked, fun j u raw' hj hu hex hf' => ?_⟩
  obtain ⟨f', hf'', hne⟩ := hd.2 j u raw' hj hu hex
  exact hne (hf''.unique (known hr').1 hf')

end

/-! ### Runs -/

/-- A session is issued and its token rotated; a thief presents the old token again. -/
def theft : List (Move interface Request) :=
  oneRotation ++
    [.start (.rotate (envAt 1).random {}) (envAt 11), .call 2 .answered (envAt 12), .call 2 .answered (envAt 13)]

set_option maxRecDepth 4000 in
theorem theft_closes_family : ∃ (c : State) (f : Uuid), c.shared.Holds (envAt 1).random f ∧ c.shared.Revoked f := by
  obtain ⟨c, hc⟩ : ∃ c, (system (fun _ => true) 1000).run RevokesAlone (.initial oneUser) theft = some c := ⟨_, rfl⟩
  have hlast : (((system (fun _ => true) 1000).run RevokesAlone (.initial oneUser) theft).bind fun c =>
      c.threads[2]?.map fun t => (t.request, t.result?)) =
      some (.rotate (envAt 1).random {}, some (.error reuseDetected)) := rfl
  rw [hc, Option.bind_some, Option.map_eq_some_iff] at hlast
  obtain ⟨t, ht, heq⟩ := hlast
  have hreq := congrArg Prod.fst heq
  have hres := congrArg Prod.snd heq
  obtain ⟨f, h, hrev, -⟩ := reuse_closes_family (fun _ => true) 1000 oneUser c c ⟨by decide, by decide, nofun⟩
    (System.reach_of_run theft hc) t (List.mem_of_getElem? ht) (envAt 1).random {} hreq hres .refl
  exact ⟨c, f, h, hrev⟩

/-- The owner rotates the second token and has marked it when the thief presents the first one: the family
    is revoked, and then the owner's rotation mints the third token. -/
def lateMint : List (Move interface Request) :=
  oneRotation ++
    [.start (.rotate (envAt 7).random {}) (envAt 11), .call 2 .answered (envAt 12), .call 2 .answered (envAt 13),
     .start (.rotate (envAt 1).random {}) (envAt 14), .call 3 .answered (envAt 15), .call 3 .answered (envAt 16)]

/-- The rotation in flight finishes, and its token is rotated. -/
def lateRotation : List (Move interface Request) :=
  [.call 2 .answered (envAt 17), .start (.rotate (envAt 13).random {}) (envAt 18), .call 4 .answered (envAt 19),
   .call 4 .answered (envAt 20), .call 4 .answered (envAt 21)]

set_option maxRecDepth 4000 in
/-- After the family of the first token was revoked and every call has finished, the family has an
    unrevoked token, and a rotation that started later succeeded with a token of it. -/
theorem reuse_leaves_family_open : ∃ (c d : State) (t u : Thread interface Request Response),
    (system (fun _ => true) 1000).Reach (fun _ _ => True) (.initial oneUser) c ∧ c.threads[3]? = some t ∧
      t.request = .rotate (envAt 1).random {} ∧ t.result? = some (.error reuseDetected) ∧ c.threads.length = 4 ∧
      (system (fun _ => true) 1000).Reach (fun _ _ => True) c d ∧ d.Idle ∧ d.shared.liveIn (envAt 1).uuid = 1 ∧
      d.threads[4]? = some u ∧
      exchanged (envAt 13).random u = true ∧
      d.shared.tokens.any (fun r => r.tokenHash = ⟨(envAt 13).random⟩ ∧ r.familyId = (envAt 1).uuid) = true ∧
      c.shared.tokens.any (fun r => r.tokenHash = ⟨(envAt 1).random⟩ ∧ r.familyId = (envAt 1).uuid) = true :=
  ⟨_, _, _, _, System.reach_of_run lateMint rfl, rfl, rfl, rfl, rfl, System.reach_of_run lateRotation rfl, by decide, rfl,
    rfl, rfl, rfl, rfl⟩

end TaskPlatform.Auth

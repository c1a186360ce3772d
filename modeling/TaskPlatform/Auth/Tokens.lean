import TaskPlatform.Auth.RefreshTokenService

/-! What the calls of `RefreshTokenService` do to the token rows. A row keeps its origin, everything
    but `revokedAt`, for good; a revoked row stays revoked. -/

namespace TaskPlatform.Auth
open Effects

/-- Everything of a row but `revokedAt`. -/
def RefreshToken.origin (t : RefreshToken) : RefreshToken := { t with revokedAt := none }

@[simp] theorem RefreshToken.origin_revoke (t : RefreshToken) (now : Date) : (t.revoke now).origin = t.origin := rfl

@[simp] theorem RefreshToken.origin_toRow (n : NewRefreshToken) (id : Uuid) : (n.toRow id).origin = n.toRow id := rfl

@[simp] theorem NewRefreshToken.toRow_tokenHash (n : NewRefreshToken) (id : Uuid) :
    (n.toRow id).tokenHash = n.tokenHash := rfl

@[simp] theorem NewRefreshToken.toRow_familyId (n : NewRefreshToken) (id : Uuid) :
    (n.toRow id).familyId = n.familyId := rfl

theorem RefreshToken.origin_eq {t u : RefreshToken} (h : t.origin = u.origin) :
    t.id = u.id ∧ t.tokenHash = u.tokenHash ∧ t.familyId = u.familyId := by
  simp only [origin, mk.injEq] at h
  exact ⟨h.1, h.2.2.1, h.2.2.2.1⟩

/-- A text of the row is cut only where the column cuts it anyway. -/
@[simp] theorem NewRefreshToken.toRow_rejected (inet : String → Bool) (n : NewRefreshToken) (id : Uuid) :
    (n.toRow id).context.rejected inet = n.context.rejected inet := by
  have hread : ∀ text : Option String, (text.map (varchar 512)).bind readError = text.bind readError := by
    intro text
    cases text <;> simp [readError_varchar]
  have hlength : ∀ text : Option String, (text.map (varchar 512)).bind (lengthError 512) = text.bind (lengthError 512) := by
    intro text
    cases text <;> simp [lengthError_varchar]
  simp only [SessionContext.rejected, RefreshToken.context, toRow, NewRefreshToken.context, hread, hlength]

namespace Tables

def origins (s : Tables) : List RefreshToken := s.tokens.map RefreshToken.origin

/-- Rows differ in id and in hash, and their ids and families were generated before. -/
structure WellFormed (s : Tables) : Prop where
  ids : (s.origins.map RefreshToken.id).Nodup
  hashes : (s.origins.map RefreshToken.tokenHash).Nodup
  issued : ∀ t ∈ s.origins, t.id ∈ s.generated.uuids ∧ t.familyId ∈ s.generated.uuids

variable {inet : String → Bool} {s : Tables} {t r : RefreshToken}

theorem origin_mem (h : r ∈ s.tokens) : r.origin ∈ s.origins := List.mem_map_of_mem h

theorem mem_origins : t ∈ s.origins ↔ ∃ r ∈ s.tokens, r.origin = t := List.mem_map

theorem WellFormed.nodup_ids (wf : s.WellFormed) : (s.tokens.map RefreshToken.id).Nodup := by
  simpa [origins, Function.comp_def, RefreshToken.origin] using wf.ids

theorem WellFormed.nodup_hashes (wf : s.WellFormed) : (s.tokens.map RefreshToken.tokenHash).Nodup := by
  simpa [origins, Function.comp_def, RefreshToken.origin] using wf.hashes

/-! ### Saving a loaded row -/

section Save
variable (h : t.origin ∈ s.origins)
include h

/-- While the row that `t` was loaded from is there, a save replaces it. -/
theorem saveToken_eq : s.saveToken inet t = (.ok t, { s with tokens := Table.replace RefreshToken.id t s.tokens }) := by
  obtain ⟨r, hr, ho⟩ := mem_origins.mp h
  exact if_pos (Table.has_iff.mpr ⟨r, hr, (RefreshToken.origin_eq ho).1⟩)

theorem mem_saveToken : r ∈ (s.saveToken inet t).2.tokens ↔ r = t ∨ r ∈ s.tokens ∧ r.id ≠ t.id := by
  obtain ⟨r₀, hr₀, ho⟩ := mem_origins.mp h
  rw [saveToken_eq h]
  exact Table.mem_replace ⟨r₀, hr₀, (RefreshToken.origin_eq ho).1⟩

theorem saveToken_origins (wf : s.WellFormed) : (s.saveToken inet t).2.origins = s.origins := by
  obtain ⟨r₀, hr₀, ho⟩ := mem_origins.mp h
  rw [saveToken_eq h]
  exact Table.map_replace wf.nodup_ids ⟨r₀, hr₀, (RefreshToken.origin_eq ho).1, ho⟩

end Save

/-! ### Conditional updates -/

theorem revokeWhere_origins (p : RefreshToken → Bool) (now : Date) : (s.revokeWhere p now).origins = s.origins :=
  Table.map_update fun _ => rfl

theorem mem_revokeWhere {p : RefreshToken → Bool} {now : Date} :
    r ∈ (s.revokeWhere p now).tokens ↔ r ∈ s.tokens ∧ (p r && r.revokedAt.isNone) = false ∨
      ∃ q ∈ s.tokens, (p q && q.revokedAt.isNone) = true ∧ r = q.revoke now :=
  Table.mem_update

/-! ### Inserting a row -/

theorem insertToken_cases (inet : String → Bool) (s : Tables) (row : RefreshToken) :
    (s.insertToken inet row = (.ok row, { s with tokens := s.tokens ++ [row] }) ∧
      row.tokenHash ∉ s.tokens.map RefreshToken.tokenHash) ∨
    ∃ e, s.insertToken inet row = (.error (.db e), s) := by
  unfold insertToken
  cases row.context.rejected inet with
  | some e => exact Or.inr ⟨e, rfl⟩
  | none =>
    by_cases hu : Table.has RefreshToken.tokenHash row.tokenHash s.tokens = true
    · exact Or.inr ⟨_, if_pos hu⟩
    · rw [if_neg hu]
      by_cases hf : (!s.users.contains row.userId) = true
      · exact Or.inr ⟨_, if_pos hf⟩
      · rw [if_neg hf]
        refine Or.inl ⟨rfl, fun hm => hu (Table.has_iff.mpr ?_)⟩
        exact List.mem_map.mp hm

end Tables
end TaskPlatform.Auth

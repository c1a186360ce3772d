import TaskPlatform.Workspaces.WorkspacesService

/-! What the calls of the membership operations do to the tables. -/

namespace TaskPlatform.Workspaces
open Effects

namespace Tables
variable {s s' : Tables} {env : Env}

theorem insertMember_ok {row : WorkspaceMember} (h : s.insertMember row = .ok s') :
    s' = { s with members := s.members ++ [row] } ∧ s.member? row.workspaceId row.userId = none := by
  unfold insertMember at h
  split at h
  · cases h
  · next hnone =>
    split at h
    · cases h
    · split at h
      · cases h
      · exact ⟨(Except.ok.inj h).symm, by simpa using hnone⟩

theorem saveMember_ok {m : WorkspaceMember} (h : s.saveMember m = .ok s') :
    ((∃ r ∈ s.members, r.id = m.id) ∧ s' = { s with members := Table.replace WorkspaceMember.id m s.members }) ∨
      ((∀ r ∈ s.members, r.id ≠ m.id) ∧ s' = { s with members := s.members ++ [m] }) := by
  unfold saveMember at h
  split at h
  · next hhas => exact Or.inl ⟨Table.has_iff.mp hhas, (Except.ok.inj h).symm⟩
  · next hhas =>
    refine Or.inr ⟨fun r hr hid => hhas (Table.has_iff.mpr ⟨r, hr, hid⟩), (insertMember_ok h).1⟩

theorem saveMember_error {m : WorkspaceMember} {e : Err} (h : s.saveMember m = .error e) :
    ∀ r ∈ s.members, r.id ≠ m.id := by
  intro r hr hid
  rw [saveMember, if_pos (Table.has_iff.mpr ⟨r, hr, hid⟩)] at h
  cases h

theorem saveInvitation_ok {inv : WorkspaceInvitation} (h : s.saveInvitation inv = .ok s') :
    s' = { s with invitations := s'.invitations } := by
  unfold saveInvitation at h
  split at h
  · cases h
    rfl
  · split at h
    · cases h
    · split at h
      · cases h
      · split at h
        · cases h
        · cases h
          rfl

/-- The transaction of `accept` adds at most the new member. -/
theorem commitAccept_ok {new : Option NewMember} {inv : WorkspaceInvitation} {m : Option WorkspaceMember}
    (h : s.commitAccept env new inv = .ok (m, s')) :
    (new = none ∧ s' = { s with invitations := s'.invitations }) ∨
      ∃ n, new = some n ∧ s' = { s with members := s.members ++ [n.toRow env], invitations := s'.invitations } ∧
        s.member? n.workspaceId n.userId = none := by
  cases new with
  | none =>
    refine Or.inl ⟨rfl, ?_⟩
    cases hs : s.saveInvitation inv with
    | error e => simp [commitAccept, hs, Except.map] at h
    | ok s₁ =>
      simp only [commitAccept, hs, Except.map, Except.ok.injEq, Prod.mk.injEq] at h
      exact h.2 ▸ saveInvitation_ok hs
  | some n =>
    refine Or.inr ⟨n, rfl, ?_⟩
    cases hs : s.insertMember (n.toRow env) with
    | error e => simp [commitAccept, hs, bind, Except.bind] at h
    | ok s₁ =>
      cases hs₂ : s₁.saveInvitation inv with
      | error e => simp [commitAccept, hs, hs₂, bind, Except.bind] at h
      | ok s₂ =>
        simp only [commitAccept, hs, hs₂, bind, Except.bind, pure, Except.pure, Except.ok.injEq, Prod.mk.injEq] at h
        obtain ⟨rfl, hnone⟩ := insertMember_ok hs
        exact ⟨h.2 ▸ saveInvitation_ok hs₂, hnone⟩

theorem commit_cases {α : Type} (s : Tables) (r : Except Err (α × Tables)) :
    (∃ a s', r = .ok (a, s') ∧ s.commit r = (.ok a, s')) ∨ ∃ e, r = .error e ∧ s.commit r = (.error e, s) := by
  cases r with
  | ok x => exact Or.inl ⟨x.1, x.2, rfl, rfl⟩
  | error e => exact Or.inr ⟨e, rfl, rfl⟩

/-- The commit of a write keeps what every write keeps. -/
theorem commit_keeps {α β : Type} {r : Except Err (α × Tables)} (f : Tables → β)
    (h : ∀ a s', r = .ok (a, s') → f s' = f s) : f (s.commit r).2 = f s := by
  rcases commit_cases s r with ⟨a, s', hr, heq⟩ | ⟨e, -, heq⟩
  · rw [heq]
    exact h a s' hr
  · rw [heq]

end Tables

theorem map_ok {α β : Type} {f : α → β} {r : Except Err α} {b : β} (h : r.map f = .ok b) : ∃ a, r = .ok a ∧ f a = b := by
  cases r with
  | ok a => exact ⟨a, rfl, Except.ok.inj h⟩
  | error e => cases h

theorem map_error {α β : Type} {f : α → β} {r : Except Err α} {e : Err} (h : r.map f = .error e) : r = .error e := by
  cases r with
  | ok a => cases h
  | error e' =>
    cases h
    rfl

/-- Only the calls on the cache change a cache. -/
theorem exec_caches {env : Env} {c : Call} {s : Tables} (hset : ∀ key m, c ≠ .cacheSet key m)
    (hdel : ∀ key, c ≠ .cacheDel key) : (exec env c s).2.caches = s.caches := by
  cases c with
  | cacheSet key m => exact absurd rfl (hset key m)
  | cacheDel key => exact absurd rfl (hdel key)
  | saveMember m =>
    refine Tables.commit_keeps Tables.caches fun a s' h => ?_
    obtain ⟨s₁, hs, heq⟩ := map_ok h
    obtain ⟨-, rfl⟩ := Prod.mk.inj heq
    rcases Tables.saveMember_ok hs with ⟨-, hs⟩ | ⟨-, hs⟩ <;> rw [hs]
  | saveInvitation inv =>
    refine Tables.commit_keeps Tables.caches fun a s' h => ?_
    obtain ⟨s₁, hs, heq⟩ := map_ok h
    obtain ⟨-, rfl⟩ := Prod.mk.inj heq
    rw [Tables.saveInvitation_ok hs]
  | commitAccept new inv =>
    refine Tables.commit_keeps Tables.caches fun a s' h => ?_
    rcases Tables.commitAccept_ok h with ⟨-, h⟩ | ⟨n, -, h, -⟩ <;> rw [h]
  | findWorkspace | findMember | removeMember | cacheGet | findInvitation => rfl

/-- No call generates a value by itself. -/
theorem exec_generated {env : Env} {c : Call} {s : Tables} : (exec env c s).2.generated = s.generated := by
  cases c with
  | saveMember m =>
    refine Tables.commit_keeps Tables.generated fun a s' h => ?_
    obtain ⟨s₁, hs, heq⟩ := map_ok h
    obtain ⟨-, rfl⟩ := Prod.mk.inj heq
    rcases Tables.saveMember_ok hs with ⟨-, hs⟩ | ⟨-, hs⟩ <;> rw [hs]
  | saveInvitation inv =>
    refine Tables.commit_keeps Tables.generated fun a s' h => ?_
    obtain ⟨s₁, hs, heq⟩ := map_ok h
    obtain ⟨-, rfl⟩ := Prod.mk.inj heq
    rw [Tables.saveInvitation_ok hs]
  | commitAccept new inv =>
    refine Tables.commit_keeps Tables.generated fun a s' h => ?_
    rcases Tables.commitAccept_ok h with ⟨-, h⟩ | ⟨n, -, h, -⟩ <;> rw [h]
  | findWorkspace | findMember | removeMember | cacheGet | cacheSet | cacheDel | findInvitation => rfl

/-- A row after a call was there before and is not the one the call deletes or overwrites, or it is the
    row the call saved, or the member that an accepted invitation adds. -/
theorem mem_members_exec {env : Env} {c : Call} {s : Tables} {r : WorkspaceMember} (hr : r ∈ (exec env c s).2.members) :
    (r ∈ s.members ∧ ∀ x, c = .removeMember x ∨ c = .saveMember x → r.id ≠ x.id) ∨
      c = .saveMember r ∨
      ∃ n inv, c = .commitAccept (some n) inv ∧ r = n.toRow env ∧ s.member? n.workspaceId n.userId = none := by
  cases c with
  | removeMember x =>
    obtain ⟨hr, hne⟩ := List.mem_filter.mp hr
    refine Or.inl ⟨hr, fun y hy => ?_⟩
    rcases hy with hy | hy
    · cases hy
      simpa using hne
    · cases hy
  | saveMember x =>
    rcases Tables.commit_cases s ((s.saveMember x).map fun s => (x, s)) with ⟨a, s', h, heq⟩ | ⟨e, he, heq⟩
    · have heq : exec env (.saveMember x) s = (.ok a, s') := heq
      rw [heq] at hr
      obtain ⟨s₁, hs, he⟩ := map_ok h
      obtain ⟨-, rfl⟩ := Prod.mk.inj he
      rcases Tables.saveMember_ok hs with ⟨hex, rfl⟩ | ⟨hne, rfl⟩
      · rcases (Table.mem_replace hex).mp hr with rfl | ⟨hr, hid⟩
        · exact Or.inr (Or.inl rfl)
        · refine Or.inl ⟨hr, fun y hy => ?_⟩
          rcases hy with hy | hy <;> cases hy
          exact hid
      · rcases List.mem_append.mp hr with hr | hr
        · refine Or.inl ⟨hr, fun y hy => ?_⟩
          rcases hy with hy | hy <;> cases hy
          exact hne r hr
        · exact Or.inr (Or.inl (List.mem_singleton.mp hr ▸ rfl))
    · have heq : exec env (.saveMember x) s = (.error e, s) := heq
      rw [heq] at hr
      refine Or.inl ⟨hr, fun y hy => ?_⟩
      rcases hy with hy | hy <;> cases hy
      exact Tables.saveMember_error (map_error he) r hr
  | commitAccept new inv =>
    rcases Tables.commit_cases s (s.commitAccept env new inv) with ⟨a, s', h, heq⟩ | ⟨e, -, heq⟩
    · have heq : exec env (.commitAccept new inv) s = (.ok a, s') := heq
      rw [heq] at hr
      rcases Tables.commitAccept_ok h with ⟨-, hs⟩ | ⟨n, rfl, hs, hnone⟩
      · rw [hs] at hr
        exact Or.inl ⟨hr, by simp⟩
      · rw [hs] at hr
        rcases List.mem_append.mp hr with hr | hr
        · exact Or.inl ⟨hr, by simp⟩
        · exact Or.inr (Or.inr ⟨n, inv, rfl, List.mem_singleton.mp hr, hnone⟩)
    · have heq : exec env (.commitAccept new inv) s = (.error e, s) := heq
      rw [heq] at hr
      exact Or.inl ⟨hr, by simp⟩
  | saveInvitation inv =>
    have hkeep : (exec env (.saveInvitation inv) s).2.members = s.members := by
      refine Tables.commit_keeps Tables.members fun a s' h => ?_
      obtain ⟨s₁, hs, heq⟩ := map_ok h
      obtain ⟨-, rfl⟩ := Prod.mk.inj heq
      rw [Tables.saveInvitation_ok hs]
    exact Or.inl ⟨hkeep ▸ hr, by simp⟩
  | findWorkspace | findMember | cacheGet | cacheSet | cacheDel | findInvitation => exact Or.inl ⟨hr, by simp⟩

end TaskPlatform.Workspaces

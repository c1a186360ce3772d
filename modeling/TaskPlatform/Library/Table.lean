import Mathlib.Data.List.Nodup

/-! Tables as lists of rows with a key. The order of the rows carries no meaning: the lemmas speak of
    which rows are in the table. -/

namespace Table
variable {ρ κ : Type} [DecidableEq κ] {key : ρ → κ} {l : List ρ} {x y r : ρ} {k : κ}

/-- The row with the key of `x` becomes `x`. -/
def replace (key : ρ → κ) (x : ρ) (l : List ρ) : List ρ := l.map fun r => if key r = key x then x else r

def has (key : ρ → κ) (k : κ) (l : List ρ) : Bool := l.any (key · = k)

theorem has_iff : has key k l = true ↔ ∃ r ∈ l, key r = k := by
  simp [has]

theorem mem_replace (h : ∃ r ∈ l, key r = key x) : r ∈ replace key x l ↔ r = x ∨ r ∈ l ∧ key r ≠ key x := by
  obtain ⟨r₀, hr₀, hk⟩ := h
  simp only [replace, List.mem_map]
  constructor
  · rintro ⟨q, hq, rfl⟩
    by_cases hid : key q = key x
    · simp [hid]
    · simp [hid, hq]
  · rintro (rfl | ⟨hr, hid⟩)
    · exact ⟨r₀, hr₀, if_pos hk⟩
    · exact ⟨r, hr, if_neg hid⟩

omit [DecidableEq κ] in
theorem eq_of_key (nodup : (l.map key).Nodup) (hx : x ∈ l) (hy : y ∈ l) (h : key x = key y) : x = y :=
  List.inj_on_of_nodup_map nodup hx hy h

omit [DecidableEq κ] in
/-- A lookup that only one row answers finds it. -/
theorem find?_unique {p : ρ → Bool} (hx : x ∈ l) (hp : p x = true) (unique : ∀ y ∈ l, p y = true → y = x) :
    l.find? p = some x := by
  cases hf : l.find? p with
  | none => exact absurd hp (List.find?_eq_none.mp hf x hx)
  | some y => rw [unique y (List.mem_of_find?_eq_some hf) (List.find?_some hf)]

theorem find?_key (nodup : (l.map key).Nodup) (hx : x ∈ l) : l.find? (key · = key x) = some x :=
  find?_unique hx (decide_eq_true rfl) fun _ hy h => eq_of_key nodup hy hx (of_decide_eq_true h)

omit [DecidableEq κ] in
/-- A lookup that at most one row answers depends only on which rows are in the table. -/
theorem find?_congr {l' : List ρ} {p : ρ → Bool} (same : ∀ r, p r = true → (r ∈ l ↔ r ∈ l'))
    (unique : ∀ x ∈ l, ∀ y ∈ l, p x = true → p y = true → x = y) : l.find? p = l'.find? p := by
  cases hf : l.find? p with
  | none =>
    refine (List.find?_eq_none.mpr fun r hr hp => ?_).symm
    exact List.find?_eq_none.mp hf r ((same r hp).mpr hr) hp
  | some x =>
    have hx := List.find?_some hf
    cases hf' : l'.find? p with
    | none => exact absurd hx (List.find?_eq_none.mp hf' x ((same x hx).mp (List.mem_of_find?_eq_some hf)))
    | some y =>
      have hy := List.find?_some hf'
      rw [unique x (List.mem_of_find?_eq_some hf) y ((same y hy).mpr (List.mem_of_find?_eq_some hf')) hx hy]

/-- A row that is in the table replaces itself. -/
theorem replace_self (nodup : (l.map key).Nodup) (hx : x ∈ l) : replace key x l = l := by
  conv_rhs => rw [← List.map_id' l]
  refine List.map_congr_left fun r hr => ?_
  by_cases hk : key r = key x
  · rw [if_pos hk, eq_of_key nodup hr hx hk]
  · rw [if_neg hk]

/-- A projection that the new row shares with the row it replaces is kept. -/
theorem map_replace {β : Type} {f : ρ → β} (nodup : (l.map key).Nodup)
    (h : ∃ r ∈ l, key r = key x ∧ f r = f x) : (replace key x l).map f = l.map f := by
  obtain ⟨r₀, hr₀, hk, hf⟩ := h
  simp only [replace, List.map_map]
  apply List.map_congr_left
  intro r hr
  by_cases hid : key r = key x
  · have := eq_of_key nodup hr hr₀ (hid.trans hk.symm)
    subst this
    simp [hid, hf]
  · simp [hid]

theorem map_key_replace : (replace key x l).map key = l.map key := by
  simp only [replace, List.map_map]
  apply List.map_congr_left
  intro r _
  by_cases hid : key r = key x <;> simp [hid]

/-- In the place of every row there is one with its key. -/
theorem mem_replace_key (key : ρ → κ) (x : ρ) (h : r ∈ l) : ∃ r' ∈ replace key x l, key r' = key r := by
  have hkey : key r ∈ (replace key x l).map key := by
    rw [map_key_replace]
    exact List.mem_map_of_mem h
  obtain ⟨r', hr', heq⟩ := List.mem_map.mp hkey
  exact ⟨r', hr', heq⟩

/-- A filter that the new row and the row it replaces both fail selects the same rows. -/
theorem filter_replace {p : ρ → Bool} (old : ∀ r ∈ l, key r = key x → p r = false) (new : p x = false) :
    (replace key x l).filter p = l.filter p := by
  induction l with
  | nil => rfl
  | cons r l ih =>
    have hrest := ih fun q hq => old q (List.mem_cons_of_mem _ hq)
    simp only [replace, List.map_cons] at hrest ⊢
    by_cases hid : key r = key x
    · rw [if_pos hid, List.filter_cons_of_neg (by simp [new]), hrest,
        List.filter_cons_of_neg (by simp [old r (List.mem_cons_self ..) hid])]
    · rw [if_neg hid, List.filter_cons, List.filter_cons, hrest]

/-- Rows that a conditional update touches change, the others stay. -/
theorem mem_update {p : ρ → Bool} {f : ρ → ρ} :
    r ∈ (l.map fun r => if p r then f r else r) ↔ (r ∈ l ∧ p r = false) ∨ ∃ q ∈ l, p q = true ∧ r = f q := by
  simp only [List.mem_map]
  constructor
  · rintro ⟨q, hq, rfl⟩
    cases hp : p q
    · simp [hp, hq]
    · exact Or.inr ⟨q, hq, hp, by simp⟩
  · rintro (⟨hr, hp⟩ | ⟨q, hq, hp, rfl⟩)
    · exact ⟨r, hr, by simp [hp]⟩
    · exact ⟨q, hq, by simp [hp]⟩

/-- A projection that a conditional update leaves alone is kept. -/
theorem map_update {β : Type} {g : ρ → β} {p : ρ → Bool} {f : ρ → ρ} (h : ∀ r, g (f r) = g r) :
    (l.map fun r => if p r then f r else r).map g = l.map g := by
  rw [List.map_map]
  apply List.map_congr_left
  intro r _
  cases hp : p r <;> simp [hp, h]

/-- Replacing a row changes a count by what the two rows count for. -/
theorem countP_replace {p : ρ → Bool} (nodup : (l.map key).Nodup) (hr : r ∈ l) (hk : key r = key x) :
    (replace key x l).countP p + (if p r then 1 else 0) = l.countP p + (if p x then 1 else 0) := by
  induction l with
  | nil => cases hr
  | cons y l ih =>
    obtain ⟨hy, hl⟩ := List.nodup_cons.mp nodup
    simp only [replace, List.map_cons, List.countP_cons]
    rcases List.mem_cons.mp hr with rfl | hr
    · -- The other rows have other keys and stay.
      have hsame : (l.map fun q => if key q = key x then x else q) = l := by
        rw [List.map_congr_left fun q hq => if_neg fun h => hy (List.mem_map.mpr ⟨q, hq, h.trans hk.symm⟩), List.map_id']
      rw [hsame, if_pos hk]
      omega
    · have hne : key y ≠ key x := fun h => hy (List.mem_map.mpr ⟨r, hr, hk.trans h.symm⟩)
      have := ih hl hr
      rw [if_neg hne]
      simp only [replace] at this
      omega

end Table

import Mathlib.Data.Finset.Card
import Mathlib.Logic.Relation

/-! `WITH RECURSIVE` queries: the seed, the rows that join a row of the seed, the rows that join one of
    those, and so on until a level is empty. The levels are put together with `UNION ALL`, each row with
    its depth. A query whose levels never get empty does not end. -/

namespace Recursive
variable {ρ : Type} (join : ρ → ρ → Bool) (rows : List ρ)

/-- The rows that join a row of the last level. -/
def next (l : List ρ) : List ρ := l.flatMap fun s => rows.filter (join s)

def level (seed : List ρ) : Nat → List ρ
  | 0 => seed
  | n + 1 => next join rows (level seed n)

/-- The levels from this one on, as long as there is fuel. -/
def collect : Nat → List ρ → Nat → Option (List (ρ × Nat))
  | _, [], _ => some []
  | 0, _ :: _, _ => none
  | fuel + 1, x :: l, depth =>
    (collect fuel (next join rows (x :: l)) (depth + 1)).map ((x :: l).map (·, depth) ++ ·)

/-- All levels with their depths. As many levels as there are rows are enough for a query that ends. -/
def query (seed : List ρ) : Option (List (ρ × Nat)) := collect join rows rows.length seed 0

/-- The rows of all levels, whether or not the levels get empty. -/
def reached (seed : List ρ) : List ρ := (List.range rows.length).flatMap (level join rows seed)

variable {join rows} {seed l : List ρ} {r : ρ} {n : Nat}

theorem mem_next : r ∈ next join rows l ↔ r ∈ rows ∧ ∃ s ∈ l, join s r = true := by
  simp only [next, List.mem_flatMap, List.mem_filter]
  exact ⟨fun ⟨s, hs, hr, hj⟩ => ⟨hr, s, hs, hj⟩, fun ⟨hr, s, hs, hj⟩ => ⟨s, hs, hr, hj⟩⟩

theorem level_next (l : List ρ) (n : Nat) : level join rows (next join rows l) n = level join rows l (n + 1) := by
  induction n with
  | zero => rfl
  | succ n ih => exact congrArg (next join rows) ih

theorem level_nil (n : Nat) : level join rows [] n = [] := by
  induction n with
  | zero => rfl
  | succ n ih => rw [level, ih, next, List.flatMap_nil]

/-- After an empty level all levels are empty. -/
theorem level_ne_nil {m : Nat} (h : level join rows seed n ≠ []) (le : m ≤ n) : level join rows seed m ≠ [] := by
  induction le with
  | refl => exact h
  | step _ ih => exact ih fun hnil => h (by rw [level, hnil, next, List.flatMap_nil])

/-! ### What a query returns -/

theorem mem_collect {fuel depth : Nat} {out : List (ρ × Nat)} (h : collect join rows fuel l depth = some out) :
    (r, n) ∈ out ↔ depth ≤ n ∧ r ∈ level join rows l (n - depth) := by
  induction fuel generalizing l depth out with
  | zero =>
    cases l with
    | nil =>
      cases h
      simp [level_nil]
    | cons x l => cases h
  | succ fuel ih =>
    cases l with
    | nil =>
      cases h
      simp [level_nil]
    | cons x l =>
      obtain ⟨rest, hrest, rfl⟩ := Option.map_eq_some_iff.mp h
      rw [List.mem_append, ih hrest, level_next]
      constructor
      · rintro (hr | ⟨hle, hr⟩)
        · obtain ⟨y, hy, heq⟩ := List.mem_map.mp hr
          cases heq
          exact ⟨Nat.le_refl _, by rwa [Nat.sub_self]⟩
        · rw [show n - (depth + 1) + 1 = n - depth by omega] at hr
          exact ⟨by omega, hr⟩
      · rintro ⟨hle, hr⟩
        rcases Nat.eq_or_lt_of_le hle with rfl | hlt
        · rw [Nat.sub_self] at hr
          exact Or.inl (List.mem_map.mpr ⟨r, hr, rfl⟩)
        · rw [show n - depth = n - (depth + 1) + 1 by omega] at hr
          exact Or.inr ⟨hlt, hr⟩

/-- A query that ends returns every row of every level, with its depth. -/
theorem mem_query {out : List (ρ × Nat)} (h : query join rows seed = some out) :
    (r, n) ∈ out ↔ r ∈ level join rows seed n := by
  rw [mem_collect h, Nat.sub_zero]
  exact and_iff_right (Nat.zero_le n)

theorem collect_eq_none {fuel depth : Nat} :
    collect join rows fuel l depth = none ↔ level join rows l fuel ≠ [] := by
  induction fuel generalizing l depth with
  | zero => cases l <;> simp [collect, level]
  | succ fuel ih =>
    cases l with
    | nil => simp [collect, level_nil]
    | cons x l => rw [collect, Option.map_eq_none_iff, ih, level_next]

/-! ### When a query ends -/

/-- Row after row from the seed to a row of the level. -/
theorem exists_path (h : r ∈ level join rows seed n) :
    ∃ f : Nat → ρ, f 0 ∈ seed ∧ f n = r ∧ ∀ i < n, f (i + 1) ∈ rows ∧ join (f i) (f (i + 1)) = true := by
  induction n generalizing r with
  | zero => exact ⟨fun _ => r, h, rfl, nofun⟩
  | succ n ih =>
    obtain ⟨hr, s, hs, hj⟩ := mem_next.mp h
    obtain ⟨f, hseed, hlast, hstep⟩ := ih hs
    refine ⟨fun i => if i ≤ n then f i else r, by simpa using hseed, by simp, fun i hi => ?_⟩
    rcases Nat.lt_succ_iff_lt_or_eq.mp hi with hlt | rfl
    · simpa [Nat.le_of_lt hlt, Nat.succ_le_of_lt hlt] using hstep i hlt
    · simp only [Nat.not_succ_le_self, Nat.le_refl, ↓reduceIte, hlast]
      exact ⟨hr, hj⟩

/-- A path longer than the table comes twice to one row. -/
theorem exists_repeated {f : Nat → ρ} (h : ∀ i ≤ rows.length, f i ∈ rows) :
    ∃ i j, i < j ∧ j ≤ rows.length ∧ f i = f j := by
  classical
  have hcard : rows.toFinset.card < (Finset.range (rows.length + 1)).card := by
    rw [Finset.card_range]
    exact Nat.lt_succ_of_le rows.toFinset_card_le
  have hmaps : ∀ i ∈ Finset.range (rows.length + 1), f i ∈ rows.toFinset := fun i hi =>
    List.mem_toFinset.mpr (h i (Nat.lt_succ_iff.mp (Finset.mem_range.mp hi)))
  obtain ⟨i, hi, j, hj, hne, heq⟩ := Finset.exists_ne_map_eq_of_card_lt_of_maps_to hcard hmaps
  have hi := Nat.lt_succ_iff.mp (Finset.mem_range.mp hi)
  have hj := Nat.lt_succ_iff.mp (Finset.mem_range.mp hj)
  rcases Nat.lt_or_gt_of_ne hne with hlt | hlt
  · exact ⟨i, j, hlt, hj, heq⟩
  · exact ⟨j, i, hlt, hi, heq.symm⟩

/-- Following a path from a row of a level. -/
theorem mem_level_path {f : Nat → ρ} {i m : Nat} (hstep : ∀ i < n, f (i + 1) ∈ rows ∧ join (f i) (f (i + 1)) = true)
    (h : f i ∈ level join rows seed m) (k : Nat) (hk : i + k ≤ n) : f (i + k) ∈ level join rows seed (m + k) := by
  induction k with
  | zero => exact h
  | succ k ih =>
    have hlast := hstep (i + k) (by omega)
    exact mem_next.mpr ⟨hlast.1, f (i + k), ih (by omega), hlast.2⟩

/-- A query that has not ended after as many levels as there are rows goes round in a circle. -/
theorem level_ne_nil_of_length (sub : seed ⊆ rows) (h : level join rows seed rows.length ≠ []) (n : Nat) :
    level join rows seed n ≠ [] := by
  obtain ⟨r, hr⟩ := List.exists_mem_of_ne_nil _ h
  obtain ⟨f, hseed, -, hstep⟩ := exists_path hr
  have hrows : ∀ i ≤ rows.length, f i ∈ rows := fun i hi => by
    cases i with
    | zero => exact sub hseed
    | succ i => exact (hstep i hi).1
  obtain ⟨i, j, hij, hj, heq⟩ := exists_repeated hrows
  have hround : ∀ t, f i ∈ level join rows seed (i + t * (j - i)) := fun t => by
    induction t with
    | zero => simpa using mem_level_path (m := 0) hstep hseed i (by omega)
    | succ t ih =>
      have := mem_level_path hstep ih (j - i) (by omega)
      rw [Nat.add_sub_cancel' (Nat.le_of_lt hij), ← heq] at this
      rwa [Nat.succ_mul, ← Nat.add_assoc]
  refine level_ne_nil (List.ne_nil_of_mem (hround n)) ?_
  have := Nat.le_mul_of_pos_right n (Nat.sub_pos_of_lt hij)
  omega

/-- A row of any level is in one of the first levels: a path that comes twice to one row can be cut
    short. -/
theorem mem_level_lt (sub : seed ⊆ rows) (h : r ∈ level join rows seed n) :
    ∃ m < rows.length, r ∈ level join rows seed m := by
  induction n using Nat.strongRecOn with
  | ind n ih =>
    rcases Nat.lt_or_ge n rows.length with hlt | hge
    · exact ⟨n, hlt, h⟩
    obtain ⟨f, hseed, hlast, hstep⟩ := exists_path h
    have hrows : ∀ i ≤ rows.length, f i ∈ rows := fun i hi => by
      cases i with
      | zero => exact sub hseed
      | succ i => exact (hstep i (by omega)).1
    obtain ⟨i, j, hij, hj, heq⟩ := exists_repeated hrows
    have hi : f i ∈ level join rows seed i := by simpa using mem_level_path (m := 0) hstep hseed i (by omega)
    have hn := mem_level_path hstep (heq ▸ hi : f j ∈ level join rows seed i) (n - j) (by omega)
    rw [show j + (n - j) = n by omega, hlast] at hn
    exact ih (i + (n - j)) (by omega) hn

theorem mem_reached (sub : seed ⊆ rows) : r ∈ reached join rows seed ↔ ∃ n, r ∈ level join rows seed n := by
  simp only [reached, List.mem_flatMap, List.mem_range]
  exact ⟨fun ⟨n, _, hn⟩ => ⟨n, hn⟩, fun ⟨n, hn⟩ => mem_level_lt sub hn⟩

theorem seed_reached (sub : seed ⊆ rows) (h : r ∈ seed) : r ∈ reached join rows seed := (mem_reached sub).mpr ⟨0, h⟩

/-- What joins a row that is reached is reached. -/
theorem reached_join (sub : seed ⊆ rows) {s c : ρ} (hs : s ∈ reached join rows seed) (hc : c ∈ rows)
    (hj : join s c = true) : c ∈ reached join rows seed := by
  obtain ⟨n, hn⟩ := (mem_reached sub).mp hs
  exact (mem_reached sub).mpr ⟨n + 1, mem_next.mpr ⟨hc, s, hn, hj⟩⟩

/-- The rows that are reached are those that a path of joins leads to. -/
theorem mem_reached_iff_path (sub : seed ⊆ rows) :
    r ∈ reached join rows seed ↔
      ∃ a ∈ seed, Relation.ReflTransGen (fun s c => c ∈ rows ∧ join s c = true) a r := by
  constructor
  · intro h
    obtain ⟨n, hn⟩ := (mem_reached sub).mp h
    clear h
    induction n generalizing r with
    | zero => exact ⟨r, hn, .refl⟩
    | succ n ih =>
      obtain ⟨hr, s, hs, hj⟩ := mem_next.mp hn
      obtain ⟨a, ha, hpath⟩ := ih hs
      exact ⟨a, ha, hpath.tail ⟨hr, hj⟩⟩
  · rintro ⟨a, ha, hpath⟩
    induction hpath with
    | refl => exact seed_reached sub ha
    | tail _ hj ih => exact reached_join sub ih hj.1 hj.2

theorem query_eq_none (sub : seed ⊆ rows) : query join rows seed = none ↔ ∀ n, level join rows seed n ≠ [] :=
  collect_eq_none.trans ⟨level_ne_nil_of_length sub, fun h => h _⟩

/-- A query whose joins lead nowhere in a circle ends. -/
theorem query_ends (sub : seed ⊆ rows)
    (acyclic : ∀ r, ¬ Relation.TransGen (fun s c => c ∈ rows ∧ join s c = true) r r) :
    ∃ out, query join rows seed = some out := by
  refine Option.ne_none_iff_exists'.mp fun hnone => ?_
  obtain ⟨r, hr⟩ := List.exists_mem_of_ne_nil _ ((query_eq_none sub).mp hnone rows.length)
  obtain ⟨f, hseed, -, hstep⟩ := exists_path hr
  have hrows : ∀ i ≤ rows.length, f i ∈ rows := fun i hi => by
    cases i with
    | zero => exact sub hseed
    | succ i => exact (hstep i hi).1
  obtain ⟨i, j, hij, hj, heq⟩ := exists_repeated hrows
  have hpath : ∀ k, i + k + 1 ≤ rows.length →
      Relation.TransGen (fun s c => c ∈ rows ∧ join s c = true) (f i) (f (i + k + 1)) := by
    intro k hk
    induction k with
    | zero => exact .single (hstep i hk)
    | succ k ih => exact .tail (ih (by omega)) (hstep (i + k + 1) hk)
  have hround := hpath (j - i - 1) (by omega)
  rw [show i + (j - i - 1) + 1 = j by omega, ← heq] at hround
  exact acyclic _ hround

theorem level_mono {seed' : List ρ} (h : seed ⊆ seed') : level join rows seed n ⊆ level join rows seed' n := by
  induction n with
  | zero => exact h
  | succ n ih =>
    intro r hr
    obtain ⟨hr, s, hs, hj⟩ := mem_next.mp hr
    exact mem_next.mpr ⟨hr, s, ih hs, hj⟩

/-! ### Two tables -/

theorem level_subset (sub : seed ⊆ rows) : level join rows seed n ⊆ rows := by
  cases n with
  | zero => exact sub
  | succ n => exact fun r hr => (mem_next.mp hr).1

section Agree
variable {rows' seed' : List ρ} {W : ρ → Prop}

/-- Tables that agree on `W` have the same levels, if the seed is in `W` and no row outside joins a row
    in `W`. -/
theorem level_agree (hseed : ∀ r, r ∈ seed ↔ r ∈ seed') (hW : ∀ r ∈ seed, W r)
    (hrows : ∀ r, W r → (r ∈ rows ↔ r ∈ rows')) (closed : ∀ s c, W s → (c ∈ rows ∨ c ∈ rows') → join s c = true → W c) :
    (∀ r, r ∈ level join rows seed n ↔ r ∈ level join rows' seed' n) ∧ ∀ r ∈ level join rows seed n, W r := by
  induction n with
  | zero => exact ⟨hseed, hW⟩
  | succ n ih =>
    refine ⟨fun r => ?_, fun r hr => ?_⟩
    · simp only [level, mem_next]
      constructor
      · rintro ⟨hr, s, hs, hj⟩
        exact ⟨(hrows r (closed s r (ih.2 s hs) (Or.inl hr) hj)).mp hr, s, (ih.1 s).mp hs, hj⟩
      · rintro ⟨hr, s, hs, hj⟩
        have hs := (ih.1 s).mpr hs
        exact ⟨(hrows r (closed s r (ih.2 s hs) (Or.inr hr) hj)).mpr hr, s, hs, hj⟩
    · obtain ⟨hr, s, hs, hj⟩ := mem_next.mp hr
      exact closed s r (ih.2 s hs) (Or.inl hr) hj

/-- What is reached is the same then. -/
theorem reached_agree (sub : seed ⊆ rows) (sub' : seed' ⊆ rows') (hseed : ∀ r, r ∈ seed ↔ r ∈ seed')
    (hW : ∀ r ∈ seed, W r) (hrows : ∀ r, W r → (r ∈ rows ↔ r ∈ rows'))
    (closed : ∀ s c, W s → (c ∈ rows ∨ c ∈ rows') → join s c = true → W c) :
    r ∈ reached join rows seed ↔ r ∈ reached join rows' seed' := by
  rw [mem_reached sub, mem_reached sub']
  exact exists_congr fun n => (level_agree hseed hW hrows closed).1 r

/-- Queries with the same levels both do not end, or return the same. -/
theorem query_agree (sub : seed ⊆ rows) (sub' : seed' ⊆ rows')
    (h : ∀ n r, r ∈ level join rows seed n ↔ r ∈ level join rows' seed' n) :
    (query join rows seed = none ∧ query join rows' seed' = none) ∨
    ∃ out out', query join rows seed = some out ∧ query join rows' seed' = some out' ∧ ∀ x, x ∈ out ↔ x ∈ out' := by
  have hnil : ∀ n, level join rows seed n ≠ [] ↔ level join rows' seed' n ≠ [] := fun n => by
    simp only [ne_eq, List.eq_nil_iff_forall_not_mem, h n]
  cases hout : query join rows seed with
  | none => exact Or.inl ⟨rfl, (query_eq_none sub').mpr fun n => (hnil n).mp ((query_eq_none sub).mp hout n)⟩
  | some out =>
    cases hout' : query join rows' seed' with
    | none =>
      have := (query_eq_none sub).mpr fun n => (hnil n).mpr ((query_eq_none sub').mp hout' n)
      rw [this] at hout
      cases hout
    | some out' => exact Or.inr ⟨out, out', rfl, rfl, fun (r, n) => by rw [mem_query hout, mem_query hout', h n r]⟩

end Agree

/-! ### No row twice -/

theorem collect_nodup {fuel depth : Nat} {out : List (ρ × Nat)} (levels : ∀ n, (level join rows l n).Nodup)
    (h : collect join rows fuel l depth = some out) : out.Nodup := by
  induction fuel generalizing l depth out with
  | zero =>
    cases l with
    | nil => cases h; exact List.nodup_nil
    | cons x l => cases h
  | succ fuel ih =>
    cases l with
    | nil => cases h; exact List.nodup_nil
    | cons x l =>
      obtain ⟨rest, hrest, rfl⟩ := Option.map_eq_some_iff.mp h
      refine List.nodup_append'.mpr ⟨?_, ih (fun n => level_next _ n ▸ levels (n + 1)) hrest, fun y hy hy' => ?_⟩
      · exact (levels 0).map fun _ _ heq => congrArg Prod.fst heq
      · obtain ⟨z, -, rfl⟩ := List.mem_map.mp hy
        have := (mem_collect hrest).mp hy'
        omega

/-- A row that joins at most one row is returned at most once. -/
theorem query_nodup (nodup : rows.Nodup) (one : ∀ s ∈ rows, ∀ s' ∈ rows, ∀ c, join s c = true → join s' c = true → s = s')
    (sub : seed ⊆ rows) (hseed : seed.Nodup) {out : List (ρ × Nat)} (h : query join rows seed = some out) : out.Nodup := by
  refine collect_nodup (fun n => ?_) h
  induction n with
  | zero => exact hseed
  | succ n ih =>
    refine List.nodup_flatMap.mpr ⟨fun s _ => nodup.filter _, ih.pairwise_of_forall_ne fun s hs s' hs' hne => ?_⟩
    intro c hc hc'
    exact hne (one s (level_subset sub hs) s' (level_subset sub hs') c (List.mem_filter.mp hc).2 (List.mem_filter.mp hc').2)

/-! ### The greatest depth -/

theorem le_foldl_max {l : List Nat} {a n : Nat} : n ≤ l.foldl Nat.max a ↔ n ≤ a ∨ ∃ x ∈ l, n ≤ x := by
  induction l generalizing a with
  | nil => simp
  | cons y l ih =>
    rw [List.foldl_cons, ih, List.exists_mem_cons_iff, ← or_assoc]
    exact or_congr_left le_max_iff

theorem le_max {l : List Nat} {n : Nat} (h : n ∈ l) : n ≤ l.foldl Nat.max 0 := le_foldl_max.mpr (Or.inr ⟨n, h, Nat.le_refl n⟩)

theorem max_mem {l : List Nat} (h : l ≠ []) : l.foldl Nat.max 0 ∈ l := by
  rcases le_foldl_max.mp (Nat.le_refl (l.foldl Nat.max 0)) with hzero | ⟨n, hn, hle⟩
  · obtain ⟨n, hn⟩ := List.exists_mem_of_ne_nil l h
    have : n = l.foldl Nat.max 0 := Nat.le_antisymm (le_max hn) (Nat.le_trans hzero (Nat.zero_le n))
    exact this ▸ hn
  · exact Nat.le_antisymm (le_max hn) hle ▸ hn

theorem foldl_max_congr {l₁ l₂ : List Nat} (same : ∀ n, n ∈ l₁ ↔ n ∈ l₂) : l₁.foldl Nat.max 0 = l₂.foldl Nat.max 0 :=
  eq_of_forall_le_iff fun n => by simp only [le_foldl_max, same]

end Recursive

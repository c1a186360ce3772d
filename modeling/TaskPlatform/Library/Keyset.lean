import Mathlib.Data.List.Sort

/-! Keyset pagination: rows in descending order of a key, a page at a time. Every page starts below the
    cursor that the page before it left. The cursor need not be the key of the last row: `cut` says what
    becomes of that key on its way through the client. -/

namespace Keyset
variable {ρ κ : Type} [LinearOrder κ] (key : ρ → κ)

/-- `a` comes before `b` in the list. -/
def Desc (a b : ρ) : Prop := key b ≤ key a

instance : DecidableRel (Desc key) := fun a b => inferInstanceAs (Decidable (key b ≤ key a))

instance : Std.Total (Desc key) := ⟨fun a b => le_total (key b) (key a)⟩

instance : IsTrans ρ (Desc key) := ⟨fun _ _ _ hab hbc => le_trans hbc hab⟩

/-- The row comes after the cursor. -/
def below (cursor : Option κ) (r : ρ) : Bool := cursor.all (key r < ·)

/-- The rows after the cursor, in the order of the list. -/
def listing (cursor : Option κ) (rows : List ρ) : List ρ := (rows.filter (below key cursor)).insertionSort (Desc key)

/-- The first `n` of them. -/
def fetch (cursor : Option κ) (n : Nat) (rows : List ρ) : List ρ := (listing key cursor rows).take n

/-- A page of `limit` rows and the cursor of the next one, if there are more. -/
def page (cut : κ → κ) (limit : Nat) (cursor : Option κ) (rows : List ρ) : List ρ × Option κ :=
  let got := fetch key cursor (limit + 1) rows
  if got.length > limit then (got.take limit, (got.take limit).getLast?.map (cut ∘ key)) else (got, none)

/-- The pages from the cursor on, each of the table as it is when the page is read; the last one has no cursor. -/
def walk (cut : κ → κ) (limit : Nat) : List (List ρ) → Option κ → Option (List ρ)
  | [], _ => none
  | rows :: rest, cursor =>
    match (page key cut limit cursor rows).2 with
    | none => if rest.isEmpty then some (page key cut limit cursor rows).1 else none
    | some next => (walk cut limit rest (some next)).map ((page key cut limit cursor rows).1 ++ ·)

variable {key} {cut : κ → κ} {limit : Nat} {cursor : Option κ} {rows : List ρ} {r : ρ}

theorem mem_below : below key cursor r = true ↔ ∀ c ∈ cursor, key r < c := by
  cases cursor <;> simp [below]

theorem mem_listing : r ∈ listing key cursor rows ↔ r ∈ rows ∧ ∀ c ∈ cursor, key r < c := by
  rw [listing, List.mem_insertionSort, List.mem_filter, mem_below]

theorem mem_fetch {n : Nat} (h : r ∈ fetch key cursor n rows) : r ∈ rows ∧ ∀ c ∈ cursor, key r < c :=
  mem_listing.mp (List.mem_of_mem_take h)

/-- Where no two rows have one key, the rows of the list come strictly one below the other. -/
theorem listing_strict (nodup : (rows.map key).Nodup) :
    (listing key cursor rows).Pairwise fun a b => key b < key a := by
  have hkeys : ((listing key cursor rows).map key).Nodup := by
    have hperm := (List.perm_insertionSort (Desc key) (rows.filter (below key cursor))).map key
    exact hperm.nodup_iff.mpr (nodup.sublist (List.filter_sublist.map key))
  exact (List.pairwise_insertionSort (Desc key) _).imp₂ (fun a b hle hne => lt_of_le_of_ne hle hne.symm)
    (List.pairwise_map.mp hkeys)

theorem fetch_strict (n : Nat) (nodup : (rows.map key).Nodup) :
    (fetch key cursor n rows).Pairwise fun a b => key b < key a :=
  (listing_strict nodup).sublist (List.take_sublist ..)

/-- A page depends only on which rows are in the table, if no two have one key. -/
theorem fetch_congr {rows' : List ρ} {n : Nat} (nodup : rows.Nodup) (nodup' : rows'.Nodup)
    (same : ∀ r, r ∈ rows ↔ r ∈ rows') (inj : ∀ x ∈ rows, ∀ y ∈ rows, key x = key y → x = y) :
    fetch key cursor n rows = fetch key cursor n rows' := by
  have hperm : (rows.filter (below key cursor)).Perm (rows'.filter (below key cursor)) :=
    ((List.perm_ext_iff_of_nodup nodup nodup').mpr same).filter _
  have hsorted : listing key cursor rows = listing key cursor rows' := by
    refine List.Perm.eq_of_pairwise (fun x y hx hy hxy hyx => ?_) (List.pairwise_insertionSort ..)
      (List.pairwise_insertionSort ..)
      (((List.perm_insertionSort _ _).trans hperm).trans (List.perm_insertionSort _ _).symm)
    exact inj x (mem_listing.mp hx).1 y ((same y).mpr (mem_listing.mp hy).1) (le_antisymm hyx hxy)
  rw [fetch, fetch, hsorted]

/-- The rows of a page, and where its cursor and the next one lie. -/
theorem page_strict (cut_le : ∀ k, cut k ≤ k) (nodup : (rows.map key).Nodup) {got : List ρ} {next : Option κ}
    (h : page key cut limit cursor rows = (got, next)) :
    (got.Pairwise fun a b => key b < key a) ∧ (∀ r ∈ got, r ∈ rows ∧ ∀ c ∈ cursor, key r < c) ∧
      ∀ c ∈ next, ∀ r ∈ got, c ≤ key r := by
  have hstrict : (fetch key cursor (limit + 1) rows).Pairwise fun a b => key b < key a :=
    fetch_strict (limit + 1) nodup
  rw [page] at h
  split at h
  · obtain ⟨rfl, rfl⟩ := Prod.mk.inj h
    refine ⟨hstrict.sublist (List.take_sublist ..), fun r hr => mem_fetch (List.mem_of_mem_take hr), fun c hc r hr => ?_⟩
    obtain ⟨last, hlast, rfl⟩ := Option.map_eq_some_iff.mp hc
    -- The last row of the page is the least one.
    obtain ⟨front, hfront⟩ := List.getLast?_eq_some_iff.mp hlast
    have hdesc := hstrict.sublist (List.take_sublist limit _)
    rw [hfront] at hr hdesc
    refine le_trans (cut_le _) ?_
    rcases List.mem_append.mp hr with hr | hr
    · exact le_of_lt ((List.pairwise_append.mp hdesc).2.2 r hr last (List.mem_singleton_self last))
    · exact le_of_eq (congrArg key (List.mem_singleton.mp hr).symm)
  · obtain ⟨rfl, rfl⟩ := Prod.mk.inj h
    exact ⟨hstrict, fun r hr => mem_fetch hr, nofun⟩

/-! ### Where the pages end -/

variable (key) in
/-- A page from the cursor on ends at the key: `limit` rows come after the cursor and up to the key, which one of
    them has, and there are more. -/
def EndsAt (limit : Nat) (cursor : Option κ) (rows : List ρ) (k : κ) : Prop :=
  (rows.countP fun r => below key cursor r && decide (k ≤ key r)) = limit ∧
    (∃ r ∈ rows, below key cursor r = true ∧ key r = k) ∧ ∃ r ∈ rows, key r < k

instance (limit : Nat) (rows : List ρ) (k : κ) : Decidable (EndsAt key limit cursor rows k) :=
  inferInstanceAs (Decidable (_ ∧ _ ∧ _))

/-- Down a strictly descending list, the rows up to one of them are those before it and itself. -/
theorem countP_desc {front tail : List ρ} (desc : (front ++ r :: tail).Pairwise fun a b => key b < key a) :
    ((front ++ r :: tail).countP fun x => decide (key r ≤ key x)) = front.length + 1 := by
  obtain ⟨-, htail, hfront⟩ := List.pairwise_append.mp desc
  have hbefore : (front.countP fun x => decide (key r ≤ key x)) = front.length :=
    List.countP_eq_length.mpr fun x hx => by simpa using le_of_lt (hfront x hx r (List.mem_cons_self ..))
  have hafter : (tail.countP fun x => decide (key r ≤ key x)) = 0 :=
    List.countP_eq_zero.mpr fun x hx => by simpa using (List.pairwise_cons.mp htail).1 x hx
  simp [hbefore, hafter]

/-- The page ends at the key of the row in the last place of the page. -/
theorem endsAt_iff (nodup : (rows.map key).Nodup) {k : κ} :
    EndsAt key limit cursor rows k ↔ ∃ front x tail, listing key cursor rows = front ++ x :: tail ∧
      front.length + 1 = limit ∧ tail ≠ [] ∧ key x = k := by
  have hdesc : (listing key cursor rows).Pairwise fun a b => key b < key a := listing_strict nodup
  have hcount (k : κ) : (rows.countP fun r => below key cursor r && decide (k ≤ key r)) =
      (listing key cursor rows).countP fun r => decide (k ≤ key r) := by
    rw [listing, (List.perm_insertionSort ..).countP_eq, List.countP_filter]
    exact List.countP_congr fun r _ => by rw [Bool.and_comm]
  constructor
  · rintro ⟨hlen, ⟨x, hx, hbelow, rfl⟩, r, hr, hlt⟩
    have hafter : ∀ c ∈ cursor, key r < c := fun c hc => hlt.trans (mem_below.mp hbelow c hc)
    obtain ⟨front, tail, heq⟩ := List.append_of_mem (mem_listing.mpr ⟨hx, mem_below.mp hbelow⟩)
    have hr := mem_listing.mpr ⟨hr, hafter⟩
    rw [heq] at hdesc hr
    rw [hcount, heq, countP_desc hdesc] at hlen
    refine ⟨front, x, tail, heq, hlen, ?_, rfl⟩
    rintro rfl
    -- Nothing would come after the row.
    rcases List.mem_append.mp hr with hr | hr
    · exact lt_asymm hlt ((List.pairwise_append.mp hdesc).2.2 r hr x (List.mem_singleton_self x))
    · exact absurd hlt (List.mem_singleton.mp hr ▸ lt_irrefl _)
  · rintro ⟨front, x, tail, heq, hlen, hmore, rfl⟩
    obtain ⟨r, hr⟩ := List.exists_mem_of_ne_nil tail hmore
    have hx : x ∈ listing key cursor rows := by simp [heq]
    have hrest : r ∈ listing key cursor rows := by simp [heq, hr]
    refine ⟨?_, ⟨x, (mem_listing.mp hx).1, mem_below.mpr (mem_listing.mp hx).2, rfl⟩, r, (mem_listing.mp hrest).1, ?_⟩
    · rw [hcount, heq, countP_desc (heq ▸ hdesc), hlen]
    · rw [heq] at hdesc
      exact (List.pairwise_cons.mp (List.pairwise_append.mp hdesc).2.1).1 r hr

/-- A page is the last one, or ends at the row that its cursor is cut from. -/
theorem page_cases (cut : κ → κ) (nodup : (rows.map key).Nodup) (pos : 0 < limit) :
    (page key cut limit cursor rows = (listing key cursor rows, none) ∧ ∀ k, ¬ EndsAt key limit cursor rows k) ∨
    ∃ front x tail, listing key cursor rows = front ++ x :: tail ∧
      page key cut limit cursor rows = (front ++ [x], some (cut (key x))) ∧
      ∀ k, EndsAt key limit cursor rows k ↔ k = key x := by
  by_cases hmore : (listing key cursor rows).length ≤ limit
  · left
    have hfetch : fetch key cursor (limit + 1) rows = listing key cursor rows :=
      List.take_of_length_le (hmore.trans (Nat.le_succ limit))
    refine ⟨by simp [page, hfetch, hmore], fun k hk => ?_⟩
    obtain ⟨front, x, tail, heq, hlen, htail, -⟩ := (endsAt_iff nodup).mp hk
    have := List.length_pos_iff.mpr htail
    simp [heq] at hmore
    omega
  · right
    obtain ⟨x, tail, hdrop⟩ : ∃ x tail, (listing key cursor rows).drop (limit - 1) = x :: tail :=
      List.exists_cons_of_length_pos (by simp; omega)
    obtain ⟨front, hfront⟩ : ∃ front, front = (listing key cursor rows).take (limit - 1) := ⟨_, rfl⟩
    have heq : listing key cursor rows = front ++ x :: tail := by
      rw [hfront, ← hdrop, List.take_append_drop]
    have hlen : front.length + 1 = limit := by
      simp [hfront]
      omega
    refine ⟨front, x, tail, heq, ?_, fun k => ?_⟩
    · have htail : tail ≠ [] := by
        rintro rfl
        simp [heq] at hmore
        omega
      obtain ⟨y, rest, rfl⟩ := List.exists_cons_of_ne_nil htail
      have hfetch : fetch key cursor (limit + 1) rows = front ++ [x, y] := by
        rw [fetch, heq, ← hlen]
        exact List.take_length_add_append 2
      have hpage : (front ++ [x, y]).take limit = front ++ [x] := by
        rw [← hlen]
        exact List.take_length_add_append 1
      have hlong : (front ++ [x, y]).length > limit := by
        simp
        omega
      simp only [page, hfetch, if_pos hlong, hpage, List.getLast?_concat]
      rfl
    · rw [endsAt_iff nodup]
      constructor
      · rintro ⟨front', x', tail', heq', hlen', -, rfl⟩
        have := List.append_inj (heq.symm.trans heq') (by omega)
        rw [(List.cons.inj this.2).1]
      · rintro rfl
        refine ⟨front, x, tail, heq, hlen, ?_, rfl⟩
        rintro rfl
        simp [heq] at hmore
        omega

/-! ### What a walk returns -/

section
variable (key cut limit)

/-- A walk from the cursor on, with a table for each page: its page `n` ends at the key and is not the last one. -/
def Ends : Option κ → (Nat → List ρ) → Nat → κ → Prop
  | cursor, tables, 0, k => EndsAt key limit cursor (tables 0) k
  | cursor, tables, n + 1, k =>
    ∃ e, EndsAt key limit cursor (tables 0) e ∧ Ends (some (cut e)) (fun m => tables (m + 1)) n k

/-- The walk comes to page `n`. -/
def Reads (cursor : Option κ) (tables : Nat → List ρ) : Nat → Prop
  | 0 => True
  | n + 1 => ∃ e, Ends key cut limit cursor tables n e

/-- Of the keys that are in the table at every page of the walk, none comes after the end of a page without coming
    after its cursor. -/
def PassesNone (tables : Nat → List ρ) : Prop :=
  ∀ k, (∀ n, Reads key cut limit none tables n → ∃ r ∈ tables n, key r = k) →
    ∀ n e, Ends key cut limit none tables n e → k < e → k < cut e

end

variable {tables : Nat → List ρ} {n : Nat} {out : List ρ}

/-- A walk is its last page, or a page and the walk from its cursor on. -/
theorem walk_cases (nodup : ((tables 0).map key).Nodup) (pos : 0 < limit)
    (walked : walk key cut limit ((List.range n).map tables) cursor = some out) :
    (n = 1 ∧ out = listing key cursor (tables 0) ∧ ∀ k, ¬ EndsAt key limit cursor (tables 0) k) ∨
    ∃ m front x tail more, n = m + 1 ∧ listing key cursor (tables 0) = front ++ x :: tail ∧
      (∀ k, EndsAt key limit cursor (tables 0) k ↔ k = key x) ∧ out = front ++ x :: more ∧
      walk key cut limit ((List.range m).map fun i => tables (i + 1)) (some (cut (key x))) = some more := by
  cases n with
  | zero => cases walked
  | succ m =>
    rw [List.range_succ_eq_map, List.map_cons, List.map_map, walk] at walked
    rcases page_cases cut nodup pos with ⟨hpage, hends⟩ | ⟨front, x, tail, heq, hpage, hends⟩
    · rw [hpage] at walked
      simp only [Option.ite_none_right_eq_some, List.isEmpty_iff, List.map_eq_nil_iff, List.range_eq_nil,
        Option.some.injEq] at walked
      exact Or.inl ⟨congrArg _ walked.1, walked.2.symm, hends⟩
    · rw [hpage] at walked
      obtain ⟨more, hmore, rfl⟩ := Option.map_eq_some_iff.mp walked
      exact Or.inr ⟨m, front, x, tail, more, rfl, heq, hends, by simp, hmore⟩

theorem ends_succ {e k : κ} (hends : ∀ k, EndsAt key limit cursor (tables 0) k ↔ k = e) :
    Ends key cut limit cursor tables (n + 1) k ↔
      Ends key cut limit (some (cut e)) (fun m => tables (m + 1)) n k := by
  simp [Ends, hends]

/-- A walk of one page passes over nothing. -/
theorem passesNone_of_length_le (h : (tables 0).length ≤ limit) : PassesNone key cut limit tables := by
  have hlast : ∀ k, ¬ EndsAt key limit none (tables 0) k := by
    rintro k ⟨hcount, -, r, hr, hlt⟩
    have hall := List.countP_eq_length.mp (le_antisymm List.countP_le_length (hcount ▸ h)) r hr
    simp [not_le.mpr hlt] at hall
  intro k _ n e hends
  cases n with
  | zero => exact absurd hends (hlast e)
  | succ n =>
    obtain ⟨e', he', -⟩ := hends
    exact absurd he' (hlast e')

/-- The walk comes to the pages that it has. -/
theorem reads_iff (nodup : ∀ m, ((tables m).map key).Nodup) (pos : 0 < limit)
    (walked : walk key cut limit ((List.range n).map tables) cursor = some out) (m : Nat) :
    Reads key cut limit cursor tables m ↔ m < n := by
  induction n generalizing cursor tables out m with
  | zero => cases walked
  | succ n ih =>
    cases m with
    | zero => simp [Reads]
    | succ m =>
      rcases walk_cases (nodup 0) pos walked with ⟨hlast, -, hends⟩ | ⟨_, front, x, tail, more, hn, -, hends, -, hmore⟩
      · cases hlast
        cases m <;> simp [Reads, Ends, hends]
      · cases hn
        rw [Nat.succ_lt_succ_iff, ← ih (fun m => nodup (m + 1)) hmore m]
        cases m with
        | zero => simp [Reads, Ends, hends]
        | succ m => simp [Reads, ends_succ hends]

theorem ends_lt (cut_le : ∀ k, cut k ≤ k) {c k : κ} (h : Ends key cut limit (some c) tables n k) : k < c := by
  induction n generalizing c tables with
  | zero =>
    obtain ⟨-, ⟨r, -, hbelow, rfl⟩, -⟩ := h
    exact mem_below.mp hbelow c rfl
  | succ n ih =>
    obtain ⟨e, ⟨-, ⟨r, -, hbelow, rfl⟩, -⟩, h⟩ := h
    exact ((ih h).trans_le (cut_le _)).trans (mem_below.mp hbelow c rfl)

/-- The rows of a walk are rows of its tables, and come after its cursor. -/
theorem mem_walk (cut_le : ∀ k, cut k ≤ k) (nodup : ∀ m, ((tables m).map key).Nodup) (pos : 0 < limit)
    (walked : walk key cut limit ((List.range n).map tables) cursor = some out) (hr : r ∈ out) :
    (∃ m < n, r ∈ tables m) ∧ ∀ c ∈ cursor, key r < c := by
  induction n generalizing cursor tables out with
  | zero => cases walked
  | succ n ih =>
    have hfirst (h : r ∈ listing key cursor (tables 0)) : (∃ m < n + 1, r ∈ tables m) ∧ ∀ c ∈ cursor, key r < c :=
      ⟨⟨0, Nat.succ_pos n, (mem_listing.mp h).1⟩, (mem_listing.mp h).2⟩
    rcases walk_cases (nodup 0) pos walked with ⟨-, rfl, -⟩ | ⟨_, front, x, tail, more, hn, heq, -, rfl, hmore⟩
    · exact hfirst hr
    · cases hn
      have hx : x ∈ listing key cursor (tables 0) := by simp [heq]
      rcases List.mem_append.mp hr with hr | hr
      · exact hfirst (by simp [heq, hr])
      rcases List.mem_cons.mp hr with rfl | hr
      · exact hfirst hx
      · obtain ⟨⟨m, hm, hmem⟩, hafter⟩ := ih (fun m => nodup (m + 1)) hmore hr
        exact ⟨⟨m + 1, Nat.succ_lt_succ hm, hmem⟩, fun c hc =>
          ((hafter _ rfl).trans_le (cut_le _)).trans ((mem_listing.mp hx).2 c hc)⟩

/-- A key that is there all the time is returned if and only if it comes after the cursor of each page that it comes
    after the end of. The induction is over the pages: until the key is returned or passed over, it comes after the
    cursor. -/
theorem returned_iff (cut_le : ∀ k, cut k ≤ k) (nodup : ∀ m, ((tables m).map key).Nodup) (pos : 0 < limit) {k : κ}
    (present : ∀ m < n, ∃ r ∈ tables m, key r = k) (after : ∀ c ∈ cursor, k < c)
    (walked : walk key cut limit ((List.range n).map tables) cursor = some out) :
    (∃ r ∈ out, key r = k) ↔ ∀ m e, Ends key cut limit cursor tables m e → k < e → k < cut e := by
  induction n generalizing cursor tables out with
  | zero => cases walked
  | succ n ih =>
    obtain ⟨r, hr, rfl⟩ := present 0 (Nat.succ_pos n)
    have hlisted : r ∈ listing key cursor (tables 0) := mem_listing.mpr ⟨hr, after⟩
    have hdesc : (listing key cursor (tables 0)).Pairwise fun a b => key b < key a := listing_strict (nodup 0)
    rcases walk_cases (nodup 0) pos walked with ⟨-, rfl, hends⟩ | ⟨_, front, x, tail, more, hn, heq, hends, rfl, hmore⟩
    · refine iff_of_true ⟨r, hlisted, rfl⟩ fun m e he => ?_
      cases m with
      | zero => exact absurd he (hends e)
      | succ m =>
        obtain ⟨e, he, -⟩ := he
        exact absurd he (hends e)
    · cases hn
      rw [heq] at hlisted hdesc
      obtain ⟨-, htail, hfront⟩ := List.pairwise_append.mp hdesc
      by_cases hle : key x ≤ key r
      · -- The row is on the page: whatever ends later ends below it.
        have hmem : r ∈ front ++ x :: more := by
          rcases List.mem_append.mp hlisted with h | h
          · exact List.mem_append_left _ h
          rcases List.mem_cons.mp h with rfl | h
          · simp
          · exact absurd ((List.pairwise_cons.mp htail).1 r h) (not_lt.mpr hle)
        refine iff_of_true ⟨r, hmem, rfl⟩ fun m e he hlt => ?_
        cases m with
        | zero => exact absurd hlt (not_lt.mpr ((hends e).mp he ▸ hle))
        | succ m =>
          have hbelow := ends_lt cut_le ((ends_succ hends).mp he)
          exact absurd (hlt.trans (hbelow.trans_le (cut_le _))) (not_lt.mpr hle)
      · have hpage : ∀ y ∈ front ++ [x], key r < key y := by
          intro y hy
          rcases List.mem_append.mp hy with hy | hy
          · exact (lt_of_not_ge hle).trans (hfront y hy x (List.mem_cons_self ..))
          · rw [List.mem_singleton.mp hy]
            exact lt_of_not_ge hle
        have hlater : (∃ y ∈ front ++ x :: more, key y = key r) ↔ ∃ y ∈ more, key y = key r := by
          rw [List.append_cons]
          constructor
          · rintro ⟨y, hy, heq⟩
            rcases List.mem_append.mp hy with hy | hy
            · exact absurd heq (hpage y hy).ne'
            · exact ⟨y, hy, heq⟩
          · rintro ⟨y, hy, heq⟩
            exact ⟨y, List.mem_append_right _ hy, heq⟩
        rw [hlater]
        by_cases hcut : key r < cut (key x)
        · rw [ih (fun m => nodup (m + 1)) (fun m hm => present (m + 1) (Nat.succ_lt_succ hm))
            (by rintro _ ⟨⟩; exact hcut) hmore]
          refine ⟨fun h m e he hlt => ?_, fun h m e he => h (m + 1) e ((ends_succ hends).mpr he)⟩
          cases m with
          | zero => rwa [(hends e).mp he]
          | succ m => exact h m e ((ends_succ hends).mp he) hlt
        · -- The cursor passes over the row, and the rest of the walk comes after the cursor.
          refine iff_of_false ?_ fun h => ?_
          · rintro ⟨y, hy, heq⟩
            exact hcut (heq ▸ (mem_walk cut_le (fun m => nodup (m + 1)) pos hmore hy).2 _ rfl)
          · exact hcut (h 0 (key x) ((hends _).mpr rfl) (lt_of_not_ge hle))

/-- A walk returns all keys that are there all the time if and only if none is passed over. -/
theorem walk_whole_iff (cut_le : ∀ k, cut k ≤ k) (nodup : ∀ m, ((tables m).map key).Nodup) (pos : 0 < limit)
    (walked : walk key cut limit ((List.range n).map tables) none = some out) :
    (∀ k, (∀ m < n, ∃ r ∈ tables m, key r = k) → ∃ r ∈ out, key r = k) ↔ PassesNone key cut limit tables := by
  simp only [PassesNone, reads_iff nodup pos walked]
  exact forall_congr' fun k => forall_congr' fun present => returned_iff cut_le nodup pos present (by simp) walked

end Keyset

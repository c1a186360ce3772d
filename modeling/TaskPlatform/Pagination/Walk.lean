import Mathlib.Order.WithBot
import TaskPlatform.Statements

/-! Following `nextCursor` through a list endpoint. The cursor of a row goes through a `Date`: it says the
    time of the row without its microseconds, while the query compares with them. -/

namespace TaskPlatform

/-- When a row was created, and its id. -/
abbrev Stamp := Timestamptz × Uuid

def Stamp.key (x : Stamp) : Key := TaskPlatform.key x.1 x.2

/-- The text of its cursor. -/
def Stamp.text (x : Stamp) : String := encodeCursor x.1 x.2

/-- What the cursor of a row says of it. -/
def Stamp.cut (x : Stamp) : Stamp := (x.1.truncate, x.2)

theorem Stamp.key_injective {x y : Stamp} (h : x.key = y.key) : x = y := by
  obtain ⟨⟨m, hm⟩, i⟩ := x
  obtain ⟨⟨n, hn⟩, j⟩ := y
  have h : m = n ∧ i = j := by simpa [Stamp.key, TaskPlatform.key, Int.natCast_inj] using h
  obtain ⟨rfl, rfl⟩ := h
  rfl

/-- What becomes of a key in a cursor. -/
def cutKey (k : Key) : Key := toLex ((ofLex k).1 / 1000 * 1000, (ofLex k).2)

theorem Stamp.key_cut (x : Stamp) : x.cut.key = cutKey x.key := by
  simp [Stamp.key, Stamp.cut, cutKey, TaskPlatform.key]

@[simp] theorem Stamp.cut_cut (x : Stamp) : x.cut.cut = x.cut := by
  simp [Stamp.cut]

theorem cutKey_le (k : Key) : cutKey k ≤ k := by
  rw [Prod.Lex.le_iff]
  rcases (show (ofLex k).1 / 1000 * 1000 ≤ (ofLex k).1 by omega).lt_or_eq with h | h
  · exact Or.inl h
  · exact Or.inr ⟨h, le_refl _⟩

theorem Stamp.text_ne_empty (x : Stamp) : x.text ≠ "" := by
  intro h
  have hd := decodeCursor_encodeCursor x.1 x.2
  rw [show encodeCursor x.1 x.2 = "" from h] at hd
  cases hd

/-- A cursor that only goes down comes to an end: no row is older than the clock. -/
theorem Stamp.wellFounded : WellFounded fun c c' : Option Stamp => ∃ x, c = some x ∧ ∀ y ∈ c', x.key < y.key := by
  let rank : Option Stamp → WithTop (Nat ×ₗ Uuid) := fun c => c.map fun x => toLex (x.1.micros, x.2)
  refine Subrelation.wf (r := InvImage (· < ·) rank) ?_ (InvImage.wf rank wellFounded_lt)
  rintro _ (_ | y) ⟨x, rfl, h⟩
  · exact WithTop.coe_lt_top _
  · refine WithTop.coe_lt_coe.mpr (Prod.Lex.lt_iff.mpr ?_)
    rcases Prod.Lex.lt_iff.mp (h y rfl) with h | ⟨h, hid⟩
    · exact Or.inl (Int.ofNat_lt.mp h)
    · exact Or.inr ⟨Int.ofNat_inj.mp h, hid⟩

/-- A list endpoint: its pages, the rows they are of, and what it shows of a row. -/
structure ListEndpoint (S ρ α : Type) where
  page : PaginationQuery → S → Except Err (Page α)
  table : S → List ρ
  accepts : ρ → Bool
  stamp : ρ → Stamp
  load : ρ → α
  shown : α → Stamp

namespace ListEndpoint
variable {S ρ α : Type} (l : ListEndpoint S ρ α)

/-- The rows that match the filter. -/
def matching (s : S) : List ρ := (l.table s).filter l.accepts

/-- The endpoint answers at all: a request without a cursor is not refused. -/
def Answers (s : S) : Prop := ∀ limit, ∃ p, l.page { limit } s = .ok p

/-- The pages from a cursor on, one in each of the states; the last one has no next cursor. -/
def walk (limit : Option Nat) : List S → Option String → Option (List α)
  | [], _ => none
  | s :: rest, cursor =>
    match l.page { limit, cursor } s with
    | .error _ => none
    | .ok p =>
      match p.info.nextCursor with
      | none => if rest.isEmpty then some p.data else none
      | some next => (walk limit rest (some next)).map (p.data ++ ·)

/-- The walk, whose pages are read one in each of the states, comes to its end and returns every row that matches in all
    of its states. -/
def LosesNoRow (limit : Option Nat) (states : Nat → S) : Prop :=
  ∃ n out, l.walk limit ((List.range n).map states) none = some out ∧
    ∀ x, (∀ k < n, ∃ r ∈ l.matching (states k), l.stamp r = x) → ∃ a ∈ out, l.shown a = x.cut

/-- No row that matches in all of the states is listed after the row that a page ends at without being before the time
    of that row without its microseconds. The tables say where a page ends: `limit` rows lead from its cursor to its last
    row, and there are more. -/
def PassesNone (limit : Option Nat) (states : Nat → S) : Prop :=
  Keyset.PassesNone (Stamp.key ∘ l.stamp) cutKey (limit.getD 20) fun n => l.matching (states n)

/-- With any limit that a request may have, and whatever the states in which the pages are read: no row is lost if and
    only if none is passed over. -/
def LosesOnlyPassed : Prop :=
  ∀ (limit : Option Nat) (states : Nat → S), 1 ≤ limit.getD 20 → limit.getD 20 ≤ 100 →
    (∀ n, l.Answers (states n) ∧ ((l.matching (states n)).map (l.stamp · |>.2)).Nodup) →
    (l.LosesNoRow limit states ↔ l.PassesNone limit states)

/-- The endpoint answers with the rows that its query selects. -/
structure Serves (pg : Postgres) : Prop where
  shows : ∀ r, l.shown (l.load r) = (l.stamp r).cut
  selects : ∀ {q s}, l.Answers s → ∀ {got},
    select pg (Stamp.key ∘ l.stamp) l.accepts q.decoded (q.limitOr20 + 1) (l.table s) = .ok got →
      l.page q s = .ok (buildPage (got.map l.load) q.limitOr20 (Stamp.text ∘ l.shown))

variable {l} {pg : Postgres} {c : Option Stamp} {limit : Option Nat}

theorem select_text (c : Option Stamp) (limit : Option Nat) {take : Nat} {s : S} :
    select pg (Stamp.key ∘ l.stamp) l.accepts (PaginationQuery.decoded { limit, cursor := c.map Stamp.text }) take
      (l.table s) = .ok (Keyset.fetch (Stamp.key ∘ l.stamp) (c.map (·.cut.key)) take (l.matching s)) := by
  cases c with
  | none => rfl
  | some x =>
    have hd : PaginationQuery.decoded { limit, cursor := some x.text } = some ⟨x.1.toISOString, uuidText x.2⟩ := by
      simp [PaginationQuery.decoded, Stamp.text_ne_empty, Option.filter]
      exact decodeCursor_encodeCursor x.1 x.2
    simp only [Option.map_some, select, hd, Postgres.castCursor_encoded]
    rfl

/-- A page is the page of the keys, and its next cursor comes after its own. -/
theorem page_eq (c : Option Stamp) (limit : Option Nat) (serves : l.Serves pg) {s : S} (answers : l.Answers s) :
    ∃ p rows, ∃ next : Option Stamp, l.page { limit, cursor := c.map Stamp.text } s = .ok p ∧ p.data = rows.map l.load ∧
      p.info.nextCursor = next.map Stamp.text ∧
      Keyset.page (Stamp.key ∘ l.stamp) cutKey (limit.getD 20) (c.map (·.cut.key)) (l.matching s) =
        (rows, next.map (·.cut.key)) ∧ ∀ x ∈ next, ∀ y ∈ c, x.key < y.cut.key := by
  have hpage := serves.selects answers (select_text c limit)
  obtain ⟨got, hgot⟩ : ∃ got, got = Keyset.fetch (Stamp.key ∘ l.stamp) (c.map (·.cut.key)) (limit.getD 20 + 1)
    (l.matching s) := ⟨_, rfl⟩
  simp only [PaginationQuery.limitOr20, ← hgot] at hpage
  rw [Keyset.page, ← hgot]
  by_cases more : got.length > limit.getD 20
  · refine ⟨_, got.take (limit.getD 20), (got.take (limit.getD 20)).getLast?.map fun r => (l.stamp r).cut, hpage,
      by simp [buildPage, more], ?_, ?_, ?_⟩
    · simp only [buildPage, List.length_map, more, decide_true, ↓reduceIte, ← List.map_take, List.getLast?_map,
        Option.map_map]
      exact congrArg (Option.map · _) (funext fun r => congrArg Stamp.text (serves.shows r))
    · simp only [if_pos more, Option.map_map]
      exact congrArg (fun f => (_, Option.map f _)) (funext fun r => by simp [← Stamp.key_cut])
    · intro x hx
      obtain ⟨r, hr, rfl⟩ := Option.map_eq_some_iff.mp hx
      have hr := (Keyset.mem_fetch (hgot ▸ List.mem_of_mem_take (List.mem_of_getLast? hr))).2
      refine fun y hy => lt_of_le_of_lt (Stamp.key_cut (l.stamp r) ▸ cutKey_le _) (hr _ ?_)
      exact Option.mem_map_of_mem (·.cut.key) hy
  · exact ⟨_, got, none, hpage, by simp [buildPage, more], by simp [buildPage, more], if_neg more, by rintro _ ⟨⟩⟩

/-- A walk through the endpoint is a walk over the keys. -/
theorem walk_eq (serves : l.Serves pg) {states : List S}
    (answers : ∀ s ∈ states, l.Answers s) {out : List α} (walked : l.walk limit states (c.map Stamp.text) = some out) :
    ∃ rows, Keyset.walk (Stamp.key ∘ l.stamp) cutKey (limit.getD 20) (states.map l.matching) (c.map (·.cut.key)) =
      some rows ∧ out = rows.map l.load := by
  induction states generalizing c out with
  | nil => cases walked
  | cons s rest ih =>
    obtain ⟨p, rows, next, hpage, hdata, hnext, heq, -⟩ :=
      page_eq c limit serves (answers s (List.mem_cons_self ..))
    simp only [walk, hpage, hnext] at walked
    simp only [List.map_cons, Keyset.walk, heq]
    cases next with
    | none =>
      simp only [Option.map_none, Option.ite_none_right_eq_some, Option.some.injEq] at walked
      exact ⟨rows, by simp [walked.1], walked.2 ▸ hdata⟩
    | some x =>
      obtain ⟨more, hmore, rfl⟩ := Option.map_eq_some_iff.mp walked
      obtain ⟨rows', hrows, rfl⟩ := ih (c := some x) (fun s hs => answers s (List.mem_cons_of_mem _ hs)) hmore
      refine ⟨rows ++ rows', ?_, by rw [hdata, List.map_append]⟩
      simp only [Option.map_some] at hrows ⊢
      rw [hrows, Option.map_some]

/-- A walk comes to its end. The induction is on the cursor, which only goes down. -/
theorem walk_ends (serves : l.Serves pg) (states : Nat → S) (answers : ∀ n, l.Answers (states n)) :
    ∃ n out, l.walk limit ((List.range n).map states) (c.map Stamp.text) = some out := by
  induction c using Stamp.wellFounded.induction generalizing states with
  | _ c ih =>
    obtain ⟨p, _, next, hpage, -, hnext, -, hbelow⟩ := page_eq c limit serves (answers 0)
    cases next with
    | none => exact ⟨1, p.data, by simp [walk, hpage, hnext]⟩
    | some x =>
      have hless : ∀ y ∈ c, x.key < y.key := fun y hy =>
        lt_of_lt_of_le (hbelow x rfl y hy) (Stamp.key_cut y ▸ cutKey_le _)
      obtain ⟨n, out, hrest⟩ := ih (some x) ⟨x, rfl, hless⟩ (fun n => states (n + 1)) fun n => answers (n + 1)
      refine ⟨n + 1, p.data ++ out, ?_⟩
      rw [List.range_succ_eq_map, List.map_cons, List.map_map, walk, hpage]
      simp only [hnext, Option.map_some]
      exact (congrArg (Option.map (p.data ++ ·)) hrest).trans rfl

/-- Rows of one list with different ids have different keys. -/
theorem keys_nodup {rows : List ρ} (h : (rows.map (l.stamp · |>.2)).Nodup) : (rows.map (Stamp.key ∘ l.stamp)).Nodup := by
  rw [← List.map_map]
  refine List.Nodup.map (fun _ _ => Stamp.key_injective) (List.Nodup.of_map Prod.snd ?_)
  rw [List.map_map]
  exact h

/-- What the endpoint shows of a row that matches all the time says which row it is. -/
theorem shown_iff (serves : l.Serves pg) {states : Nat → S} {n : Nat} {rows : List ρ} {x : Stamp}
    (drawn : ∀ r ∈ rows, ∃ k < n, r ∈ l.matching (states k))
    (unique : ∀ k, ((l.matching (states k)).map (l.stamp · |>.2)).Nodup)
    (present : ∀ k < n, ∃ r ∈ l.matching (states k), l.stamp r = x) :
    (∃ a ∈ rows.map l.load, l.shown a = x.cut) ↔ ∃ r ∈ rows, (Stamp.key ∘ l.stamp) r = x.key := by
  simp only [List.mem_map, exists_exists_and_eq_and, serves.shows]
  constructor
  · rintro ⟨r, hr, hcut⟩
    obtain ⟨k, hk, hmem⟩ := drawn r hr
    obtain ⟨r', hmem', rfl⟩ := present k hk
    have hid : (l.stamp r).2 = (l.stamp r').2 := congrArg (·.2) hcut
    exact ⟨r, hr, congrArg (Stamp.key ∘ l.stamp) (List.inj_on_of_nodup_map (unique k) hmem hmem' hid)⟩
  · rintro ⟨r, hr, hkey⟩
    exact ⟨r, hr, congrArg Stamp.cut (Stamp.key_injective hkey)⟩

/-- The endpoint loses the rows that are passed over, and no others. -/
theorem losesOnlyPassed (serves : l.Serves pg) : l.LosesOnlyPassed := by
  intro limit states pos _ hstates
  have answers : ∀ n, l.Answers (states n) := fun n => (hstates n).1
  have unique : ∀ n, ((l.matching (states n)).map (l.stamp · |>.2)).Nodup := fun n => (hstates n).2
  -- A walk returns all that stays if and only if none is passed over.
  have hwhole : ∀ n out, l.walk limit ((List.range n).map states) none = some out →
      ((∀ x, (∀ k < n, ∃ r ∈ l.matching (states k), l.stamp r = x) → ∃ a ∈ out, l.shown a = x.cut) ↔
        l.PassesNone limit states) := by
    intro n out walked
    obtain ⟨rows, hrows, rfl⟩ := walk_eq (c := none) serves (by simpa using fun k _ => answers k) walked
    rw [List.map_map] at hrows
    have hkeys : ∀ k, ((l.matching (states k)).map (Stamp.key ∘ l.stamp)).Nodup := fun k => keys_nodup (unique k)
    have hdrawn : ∀ r ∈ rows, ∃ k < n, r ∈ l.matching (states k) := fun r hr =>
      (Keyset.mem_walk cutKey_le hkeys pos hrows hr).1
    refine Iff.trans ?_ (Keyset.walk_whole_iff cutKey_le hkeys pos hrows)
    constructor
    · intro returned k present
      have hn : 0 < n := Nat.pos_of_ne_zero (by rintro rfl; cases walked)
      obtain ⟨r, -, rfl⟩ := present 0 hn
      have hstamp : ∀ m < n, ∃ r' ∈ l.matching (states m), l.stamp r' = l.stamp r := fun m hm =>
        (present m hm).imp fun r' h => ⟨h.1, Stamp.key_injective h.2⟩
      exact (shown_iff serves hdrawn unique hstamp).mp (returned _ hstamp)
    · intro returned x present
      refine (shown_iff serves hdrawn unique present).mpr (returned _ fun m hm => ?_)
      exact (present m hm).imp fun r' h => ⟨h.1, congrArg Stamp.key h.2⟩
  obtain ⟨n, out, walked⟩ := walk_ends (c := none) serves states answers
  constructor
  · rintro ⟨n, out, walked, returned⟩
    exact (hwhole n out walked).mp returned
  · exact fun none => ⟨n, out, walked, (hwhole n out walked).mpr none⟩

end ListEndpoint
end TaskPlatform

import TaskPlatform.Library.Keyset
import TaskPlatform.Library.Table
import TaskPlatform.Pagination.Cursor

/-! Statements on a table: constraints, inserts and saves, list queries. -/

namespace TaskPlatform

theorem ok_of_bind {ε α β : Type} {x : Except ε α} {f : α → Except ε β} {b : β} (h : x >>= f = .ok b) :
    ∃ a, x = .ok a ∧ f a = .ok b := by
  cases x with
  | error e => cases h
  | ok a => exact ⟨a, rfl, h⟩

theorem ok_of_map {ε α β : Type} {x : Except ε α} {f : α → β} {b : β} (h : x.map f = .ok b) :
    ∃ a, x = .ok a ∧ f a = b := by
  cases x with
  | error e => cases h
  | ok a => exact ⟨a, rfl, Except.ok.inj h⟩

theorem ok_of_toOption {ε α : Type} {x : Except ε α} {a : α} (h : x.toOption = some a) : x = .ok a := by
  cases x with
  | error e => cases h
  | ok b => exact congrArg Except.ok (Option.some.inj h)

/-! ### Constraints -/

/-- A foreign key: a reference that is new must be to a row. -/
def reference (constraint : String) (old new : Option Uuid) (target : List Uuid) : Except DbError Unit :=
  match new with
  | none => .ok ()
  | some id => if old = new || target.contains id then .ok () else .error (.foreignKey constraint)

/-- A `CHECK` constraint. -/
def check (constraint : String) (holds : Bool) : Except DbError Unit :=
  if holds then .ok () else .error (.check constraint)

/-- A primary key: no row has the id yet. -/
def fresh (constraint : String) (id : Uuid) (target : List Uuid) : Except DbError Unit :=
  if target.contains id then .error (.unique constraint) else .ok ()

/-- A text that a statement sends: that of a new row, or one that is not in the row already. -/
def sent (old new : Option String) : Except DbError Unit :=
  if old = new then .ok () else (new.bind readError).elim (.ok ()) .error

/-- The value of a column that is `NOT NULL`. -/
def required {α : Type} (column : String) : Option α → Except DbError α
  | some a => .ok a
  | none => .error (.notNull column)

theorem reference_ok {constraint : String} {old new : Option Uuid} {target : List Uuid}
    (h : reference constraint old new target = .ok ()) : ∀ id ∈ new, old = some id ∨ id ∈ target := by
  rintro id ⟨⟩
  simp only [reference] at h
  split at h
  · next hok => simpa using hok
  · cases h

@[simp] theorem reference_same (constraint : String) (id : Option Uuid) (target : List Uuid) :
    reference constraint id id target = .ok () := by
  cases id <;> simp [reference]

/-- A new row has no old reference. -/
theorem reference_new (constraint : String) (new : Option Uuid) (target : List Uuid) :
    reference constraint none new target =
      if new.all target.contains = true then .ok () else .error (.foreignKey constraint) := by
  cases new with
  | none => rfl
  | some id => simp [reference]

theorem check_ok {constraint : String} {holds : Bool} (h : check constraint holds = .ok ()) : holds = true := by
  cases holds with
  | true => rfl
  | false => cases h

theorem fresh_ok {constraint : String} {id : Uuid} {target : List Uuid} (h : fresh constraint id target = .ok ()) :
    id ∉ target := by
  simp only [fresh] at h
  split at h
  · cases h
  · next hn => simpa using hn

@[simp] theorem sent_same (text : Option String) : sent text text = .ok () := if_pos rfl

theorem sent_ok {old new : Option String} (h : sent old new = .ok ()) :
    ∀ text ∈ new, old = some text ∨ readError text = none := by
  rintro text ⟨⟩
  by_cases hold : old = some text
  · exact Or.inl hold
  · rw [sent, if_neg hold] at h
    cases hread : readError text with
    | none => exact Or.inr rfl
    | some e => simp [hread] at h

/-! ### Saves -/

/-- Replaces the row with the id of `r`, and adds `r` if there is none. -/
def upsert {ρ : Type} (id : ρ → Uuid) (replaced : ρ → ρ) (r : ρ) (rows : List ρ) : List ρ :=
  match rows.find? (id · = id r) with
  | some old => Table.replace id (replaced old) rows
  | none => rows ++ [r]

theorem upsert_cases {ρ : Type} (id : ρ → Uuid) (replaced : ρ → ρ) (r : ρ) (rows : List ρ) :
    (∃ old ∈ rows, id old = id r ∧ rows.find? (id · = id r) = some old ∧
      upsert id replaced r rows = Table.replace id (replaced old) rows) ∨
    (id r ∉ rows.map id ∧ rows.find? (id · = id r) = none ∧ upsert id replaced r rows = rows ++ [r]) := by
  unfold upsert
  cases hf : rows.find? (id · = id r) with
  | some old => exact Or.inl ⟨old, List.mem_of_find?_eq_some hf, by simpa using List.find?_some hf, rfl, rfl⟩
  | none =>
    refine Or.inr ⟨fun h => ?_, rfl, rfl⟩
    obtain ⟨y, hy, heq⟩ := List.mem_map.mp h
    exact List.find?_eq_none.mp hf y hy (by simpa using heq)

/-- What a statement answers, and what it leaves of the state: one that is rejected changes nothing. -/
def commit {σ α : Type} (s : σ) (a : α) : Except DbError σ → Except Err α × σ
  | .ok s' => (.ok a, s')
  | .error e => (.error (.db e), s)

/-! ### Lists -/

/-- `parent = :parentId` where a parent is asked for, else `parent IS NULL` where the top level is. -/
def asksParent (parentId : Option Uuid) (topLevel : Bool) (parent : Option Uuid) : Bool :=
  match parentId with
  | some p => parent = some p
  | none => !topLevel || parent.isNone

/-- `ORDER BY created_at DESC, id DESC LIMIT take`, below the cursor. -/
def select {ρ : Type} (pg : Postgres) (key : ρ → Key) (accepts : ρ → Bool) (cursor : Option Cursor) (take : Nat)
    (rows : List ρ) : Except Err (List ρ) :=
  match cursor with
  | none => .ok (Keyset.fetch key none take (rows.filter accepts))
  | some c =>
    match pg.castCursor c with
    | .ok k => .ok (Keyset.fetch key (some k) take (rows.filter accepts))
    | .error e => .error (.db e)

end TaskPlatform

import Mathlib.Data.List.Basic
import Mathlib.Data.Prod.Lex
import TaskPlatform.Library.Text
import TaskPlatform.Basic

/-! The cursor of the list endpoints: `(createdAt, id)` of the last row of a page, as a base64url text. -/

namespace TaskPlatform
open Text

/-! ### Texts of dates and uuids -/

/-- The characters of `toISOString()` of the `Date` that `pg` hands out. -/
def Timestamptz.isoChars (t : Timestamptz) : List Char :=
  let date := Calendar.civil (t.micros / 86400000000)
  let ms := t.micros / 1000 % 86400000
  padded 10 4 date.year ++ '-' :: padded 10 2 date.month ++ '-' :: padded 10 2 date.day ++ 'T' ::
    padded 10 2 (ms / 3600000) ++ ':' :: padded 10 2 (ms / 60000 % 60) ++ ':' :: padded 10 2 (ms / 1000 % 60) ++ '.' ::
    padded 10 3 (ms % 1000) ++ ['Z']

def Timestamptz.toISOString (t : Timestamptz) : String := String.ofList t.isoChars

/-- The microseconds since 1970 of a date in its fields. -/
def isoMicros? (y m d h n s f : List Char) : Option Nat := do
  let year ← value? 10 y
  let month ← value? 10 m
  let day ← value? 10 d
  let hour ← value? 10 h
  let minute ← value? 10 n
  let second ← value? 10 s
  let milli ← value? 10 f
  let date : Calendar.Civil := ⟨year, month, day⟩
  if date.Valid ∧ hour < 24 ∧ minute < 60 ∧ second < 60 then
    some ((date.days * 86400000 + hour * 3600000 + minute * 60000 + second * 1000 + milli) * 1000)
  else none

/-- Reads a text as `toISOString()` writes it. -/
def parseIso? : List Char → Option Nat
  | [y₁, y₂, y₃, y₄, '-', m₁, m₂, '-', d₁, d₂, 'T', h₁, h₂, ':', n₁, n₂, ':', s₁, s₂, '.', f₁, f₂, f₃, 'Z'] =>
    isoMicros? [y₁, y₂, y₃, y₄] [m₁, m₂] [d₁, d₂] [h₁, h₂] [n₁, n₂] [s₁, s₂] [f₁, f₂, f₃]
  | _ => none

/-- The 32 hexadecimal digits of a uuid, in groups. -/
def grouped (h : List Char) : List Char :=
  h.take 8 ++ '-' :: (h.drop 8).take 4 ++ '-' :: (h.drop 12).take 4 ++ '-' :: (h.drop 16).take 4 ++ '-' :: h.drop 20

def uuidChars (id : Uuid) : List Char := grouped (padded 16 32 id)

def uuidText (id : Uuid) : String := String.ofList (uuidChars id)

/-- Reads a text as Postgres writes a uuid. -/
def parseUuid? (l : List Char) : Option Uuid :=
  (value? 16 (l.filter (· ≠ '-'))).bind fun n =>
    if h : n < 2 ^ 128 then if uuidChars ⟨n, h⟩ = l then some ⟨n, h⟩ else none else none

theorem parseIso?_fields {y m d h n s f : List Char} (hy : y.length = 4) (hm : m.length = 2) (hd : d.length = 2)
    (hh : h.length = 2) (hn : n.length = 2) (hs : s.length = 2) (hf : f.length = 3) :
    parseIso? (y ++ '-' :: m ++ '-' :: d ++ 'T' :: h ++ ':' :: n ++ ':' :: s ++ '.' :: f ++ ['Z']) =
      isoMicros? y m d h n s f := by
  obtain ⟨y₁, y₂, y₃, y₄, rfl⟩ := List.length_eq_four.mp hy
  obtain ⟨m₁, m₂, rfl⟩ := List.length_eq_two.mp hm
  obtain ⟨d₁, d₂, rfl⟩ := List.length_eq_two.mp hd
  obtain ⟨h₁, h₂, rfl⟩ := List.length_eq_two.mp hh
  obtain ⟨n₁, n₂, rfl⟩ := List.length_eq_two.mp hn
  obtain ⟨s₁, s₂, rfl⟩ := List.length_eq_two.mp hs
  obtain ⟨f₁, f₂, f₃, rfl⟩ := List.length_eq_three.mp hf
  rfl

/-- A date reads back as itself, but for its microseconds. -/
theorem parseIso?_isoChars (t : Timestamptz) : parseIso? t.isoChars = some t.truncate.micros := by
  have hvalid := Calendar.civil_valid (t.micros / 86400000000)
  have hdays := Calendar.civil_days (t.micros / 86400000000)
  have hyear : (Calendar.civil (t.micros / 86400000000)).year < 10 ^ 4 := t.inRange
  have hmonth : (Calendar.civil (t.micros / 86400000000)).month < 10 ^ 2 := by have := hvalid.2.2.1; omega
  have hday : (Calendar.civil (t.micros / 86400000000)).day < 10 ^ 2 := by
    have := Calendar.daysInMonth_le (Calendar.civil (t.micros / 86400000000)).year
      (Calendar.civil (t.micros / 86400000000)).month
    have := hvalid.2.2.2.2
    omega
  rw [Timestamptz.isoChars, parseIso?_fields, isoMicros?]
  any_goals exact length_padded ..
  rw [value?_padded (by decide) (by decide) hyear, value?_padded (by decide) (by decide) hmonth,
    value?_padded (by decide) (by decide) hday, value?_padded (by decide) (by decide) (by omega),
    value?_padded (by decide) (by decide) (by omega), value?_padded (by decide) (by decide) (by omega),
    value?_padded (by decide) (by decide) (by omega)]
  have hin : (⟨(Calendar.civil (t.micros / 86400000000)).year, (Calendar.civil (t.micros / 86400000000)).month,
      (Calendar.civil (t.micros / 86400000000)).day⟩ : Calendar.Civil).Valid ∧
      t.micros / 1000 % 86400000 / 3600000 < 24 ∧ t.micros / 1000 % 86400000 / 60000 % 60 < 60 ∧
      t.micros / 1000 % 86400000 / 1000 % 60 < 60 := ⟨hvalid, by omega, by omega, by omega⟩
  simp only [Option.bind_eq_bind, Option.bind_some, if_pos hin, Option.some.injEq, hdays, Timestamptz.truncate_micros]
  omega

/-- Without the hyphens the digits are back. -/
theorem filter_grouped {h : List Char} (plain : ∀ c ∈ h, c ≠ '-') : (grouped h).filter (· ≠ '-') = h := by
  have hdrop : ∀ n, (h.drop n).filter (· ≠ '-') = h.drop n := fun n =>
    List.filter_eq_self.mpr fun c hc => by simpa using plain c (List.mem_of_mem_drop hc)
  have htake : ∀ k n, ((h.drop n).take k).filter (· ≠ '-') = (h.drop n).take k := fun k n =>
    List.filter_eq_self.mpr fun c hc => by simpa using plain c (List.mem_of_mem_drop (List.mem_of_mem_take hc))
  have hjoin : ∀ k n, (h.drop n).take k ++ h.drop (n + k) = h.drop n := fun k n => by
    rw [← List.drop_drop, List.take_append_drop]
  have hfirst : (h.take 8).filter (· ≠ '-') = h.take 8 := htake 8 0
  simp only [grouped, List.filter_append, List.append_assoc, List.cons_append,
    List.filter_cons_of_neg (l := _) (a := '-') (p := (· ≠ '-')) (by decide)]
  rw [hfirst, htake, htake, htake, hdrop, hjoin 4 16, hjoin 4 12, hjoin 4 8, List.take_append_drop]

theorem parseUuid?_uuidChars (id : Uuid) : parseUuid? (uuidChars id) = some id := by
  have hlt : (id : Nat) < 16 ^ 32 := id.isLt
  have hfilter : (uuidChars id).filter (· ≠ '-') = padded 16 32 id :=
    filter_grouped fun c hc => (padded_plain 16 32 id c hc).2.2
  rw [parseUuid?, hfilter, value?_padded (by decide) (by decide) hlt, Option.bind_some, dif_pos id.isLt, if_pos rfl]

/-! ### The cursor -/

/-- What `decodeCursor` finds in a cursor: two texts. -/
structure Cursor where
  createdAt : String
  id : String
  deriving DecidableEq, Repr

def encodeCursor (createdAt : Timestamptz) (id : Uuid) : String :=
  String.ofList (Base64.encode (Text.encode (createdAt.isoChars ++ '|' :: uuidChars id)))

/-- The first two parts of the text between its bars, unless one of them is missing or empty. -/
def decodeCursor (cursor : String) : Option Cursor :=
  let text := Text.decode (Base64.decode cursor.toList)
  let createdAt := text.takeWhile (· ≠ '|')
  let id := ((text.dropWhile (· ≠ '|')).drop 1).takeWhile (· ≠ '|')
  if createdAt = [] ∨ id = [] then none else some ⟨String.ofList createdAt, String.ofList id⟩

theorem forall_mem_append_cons {p : Char → Prop} {l l' : List Char} {c : Char} (h : ∀ x ∈ l, p x) (hc : p c)
    (h' : ∀ x ∈ l', p x) : ∀ x ∈ l ++ c :: l', p x := by
  intro x hx
  rcases List.mem_append.mp hx with hx | hx
  · exact h x hx
  · rcases List.mem_cons.mp hx with rfl | hx
    · exact hc
    · exact h' x hx

/-- A character of ASCII that is no bar. -/
def Plain (c : Char) : Prop := c.toNat < 0x80 ∧ c ≠ '|'

instance (c : Char) : Decidable (Plain c) := inferInstanceAs (Decidable (_ ∧ _))

theorem padded_isPlain (b k n : Nat) : ∀ c ∈ padded b k n, Plain c := fun c hc =>
  ⟨(padded_plain b k n c hc).1, (padded_plain b k n c hc).2.1⟩

theorem isoChars_plain (t : Timestamptz) : ∀ c ∈ t.isoChars, Plain c := by
  simp only [Timestamptz.isoChars, List.append_assoc, List.cons_append]
  have hsep : ∀ c ∈ ['-', 'T', ':', '.'], Plain c := by
    intro c hc
    simp only [List.mem_cons, List.not_mem_nil, or_false] at hc
    rcases hc with rfl | rfl | rfl | rfl <;> decide
  refine forall_mem_append_cons (padded_isPlain _ _ _) (hsep _ (by decide)) ?_
  refine forall_mem_append_cons (padded_isPlain _ _ _) (hsep _ (by decide)) ?_
  refine forall_mem_append_cons (padded_isPlain _ _ _) (hsep _ (by decide)) ?_
  refine forall_mem_append_cons (padded_isPlain _ _ _) (hsep _ (by decide)) ?_
  refine forall_mem_append_cons (padded_isPlain _ _ _) (hsep _ (by decide)) ?_
  refine forall_mem_append_cons (padded_isPlain _ _ _) (hsep _ (by decide)) ?_
  exact forall_mem_append_cons (padded_isPlain _ _ _) (by decide) fun _ hc => nomatch hc

theorem uuidChars_plain (id : Uuid) : ∀ c ∈ uuidChars id, Plain c := by
  have htake : ∀ k n, ∀ c ∈ ((padded 16 32 id).drop n).take k, Plain c := fun k n c hc =>
    padded_isPlain _ _ _ c (List.mem_of_mem_drop (List.mem_of_mem_take hc))
  have hfirst : ∀ c ∈ (padded 16 32 id).take 8, Plain c := htake 8 0
  have hlast : ∀ c ∈ (padded 16 32 id).drop 20, Plain c := fun c hc => padded_isPlain _ _ _ c (List.mem_of_mem_drop hc)
  have hsep : Plain '-' := by decide
  simp only [uuidChars, grouped, List.append_assoc, List.cons_append]
  refine forall_mem_append_cons hfirst hsep (forall_mem_append_cons (htake _ _) hsep ?_)
  exact forall_mem_append_cons (htake _ _) hsep (forall_mem_append_cons (htake _ _) hsep hlast)

theorem isoChars_ne_nil (t : Timestamptz) : t.isoChars ≠ [] := by
  simp [Timestamptz.isoChars]

theorem uuidChars_ne_nil (id : Uuid) : uuidChars id ≠ [] := by
  simp [uuidChars, grouped]

theorem decodeCursor_encodeCursor (t : Timestamptz) (id : Uuid) :
    decodeCursor (encodeCursor t id) = some ⟨t.toISOString, uuidText id⟩ := by
  have hbar : ∀ {l : List Char}, (∀ c ∈ l, Plain c) → ∀ c ∈ l, decide (c ≠ '|') = true := fun h c hc => by
    simpa using (h c hc).2
  have hascii : ∀ c ∈ t.isoChars ++ '|' :: uuidChars id, c.toNat < 0x80 :=
    forall_mem_append_cons (fun c hc => (isoChars_plain t c hc).1) (by decide) fun c hc => (uuidChars_plain id c hc).1
  have hid : (uuidChars id).takeWhile (· ≠ '|') = uuidChars id :=
    List.takeWhile_eq_self_iff.mpr (hbar (uuidChars_plain id))
  simp only [decodeCursor, encodeCursor, String.toList_ofList, Base64.decode_encode, Text.decode_encode hascii]
  rw [List.takeWhile_append_of_pos (hbar (isoChars_plain t)), List.dropWhile_append_of_pos (hbar (isoChars_plain t)),
    List.takeWhile_cons_of_neg (by decide), List.dropWhile_cons_of_neg (by decide), List.append_nil, List.drop_one,
    List.tail_cons, hid, if_neg (by simp [isoChars_ne_nil, uuidChars_ne_nil])]
  rfl

/-! ### Reading the cursor in a query -/

/-- How Postgres reads the texts that `toISOString()` and its own output of a uuid do not write. -/
structure Postgres where
  timestamptz : String → Except DbError Int
  uuid : String → Except DbError Uuid

/-- One that reads no other texts. -/
def Postgres.strict : Postgres := ⟨fun _ => .error (.invalidText "timestamptz"), fun _ => .error (.invalidText "uuid")⟩

/-- `(created_at, id)`, in microseconds since 1970; compared as a pair. -/
abbrev Key := Int ×ₗ Uuid

def key (createdAt : Timestamptz) (id : Uuid) : Key := toLex ((createdAt.micros : Int), id)

namespace Postgres

/-- `CAST(:cc AS timestamptz)`. -/
def castTimestamptz (pg : Postgres) (text : String) : Except DbError Int :=
  match parseIso? text.toList with
  | some micros => .ok micros
  | none => pg.timestamptz text

/-- `CAST(:ci AS uuid)`. -/
def castUuid (pg : Postgres) (text : String) : Except DbError Uuid :=
  match parseUuid? text.toList with
  | some id => .ok id
  | none => pg.uuid text

/-- The row `(CAST(:cc AS timestamptz), CAST(:ci AS uuid))`. -/
def castCursor (pg : Postgres) (c : Cursor) : Except DbError Key := do
  let createdAt ← pg.castTimestamptz c.createdAt
  let id ← pg.castUuid c.id
  return toLex (createdAt, id)

/-- What a cursor says after a round trip: the row's id, and its time without the microseconds. -/
theorem castCursor_encoded (pg : Postgres) (t : Timestamptz) (id : Uuid) :
    pg.castCursor ⟨t.toISOString, uuidText id⟩ = .ok (key t.truncate id) := by
  simp only [castCursor, castTimestamptz, castUuid, Timestamptz.toISOString, uuidText, String.toList_ofList,
    parseIso?_isoChars, parseUuid?_uuidChars]
  rfl

end Postgres

/-! ### Pages -/

structure PageMeta where
  limit : Nat
  count : Nat
  hasMore : Bool
  nextCursor : Option String
  deriving DecidableEq, Repr

structure Page (α : Type) where
  data : List α
  info : PageMeta
  deriving DecidableEq, Repr

/-- What the list endpoints share of their queries. -/
structure PaginationQuery where
  limit : Option Nat := none
  cursor : Option String := none
  deriving DecidableEq

/-- Trims `limit + 1` rows to `limit`; the next cursor is that of the last row returned. -/
def buildPage {α : Type} (rows : List α) (limit : Nat) (toCursor : α → String) : Page α :=
  let hasMore := decide (rows.length > limit)
  let data := if hasMore then rows.take limit else rows
  let nextCursor := if hasMore then data.getLast?.map toCursor else none
  { data, info := { limit, count := data.length, hasMore, nextCursor } }

/-- `query.limit ?? 20`. -/
def PaginationQuery.limitOr20 (q : PaginationQuery) : Nat := q.limit.getD 20

/-- The cursor of a request; an empty text is none. -/
def PaginationQuery.decoded (q : PaginationQuery) : Option Cursor :=
  (q.cursor.filter (· ≠ "")).bind decodeCursor

end TaskPlatform

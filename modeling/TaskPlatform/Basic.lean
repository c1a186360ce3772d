import Mathlib.Algebra.GroupWithZero.Nat
import Mathlib.Order.Fin.Basic
import TaskPlatform.Library.Calendar

/-! Values that the services share: identifiers, times, generated secrets, errors, and what a service
    reads from its process. -/

namespace TaskPlatform

/-- A `uuid`: 128 bits, which Postgres orders as a number. -/
abbrev Uuid := Fin (2 ^ 128)

instance Uuid.neZero : NeZero (2 ^ 128) := ⟨(Nat.two_pow_pos 128).ne'⟩

instance Uuid.lawfulBEq : LawfulBEq Uuid := inferInstance

/-- A uuid as a client writes it: its letters may be upper case. `spelling` says which ones are; none are
    as Postgres writes it. -/
structure UuidText where
  uuid : Uuid
  spelling : Nat
  deriving DecidableEq, Repr

/-- The text that Postgres writes. -/
def Uuid.text (id : Uuid) : UuidText := ⟨id, 0⟩

/-- A JavaScript `Date`: milliseconds since 1970. -/
abbrev Date := Int

/-- A `timestamptz` that `now()` gives: microseconds since 1970, before the year 10000. -/
structure Timestamptz where
  micros : Nat
  inRange : (Calendar.civil (micros / 86400000000)).year < 10000
  deriving DecidableEq

def Timestamptz.epoch : Timestamptz := ⟨0, by decide⟩

/-- What `pg` hands out for a `timestamptz`: a `Date` has no microseconds. -/
def Timestamptz.toDate (t : Timestamptz) : Date := ((t.micros / 1000 : Nat) : Int)

/-- The `timestamptz` that such a `Date` is written back as. -/
def Timestamptz.truncate (t : Timestamptz) : Timestamptz :=
  ⟨t.micros / 1000 * 1000, by
    have : t.micros / 1000 * 1000 / 86400000000 = t.micros / 86400000000 := by omega
    rw [this]
    exact t.inRange⟩

@[simp] theorem Timestamptz.truncate_micros (t : Timestamptz) : t.truncate.micros = t.micros / 1000 * 1000 := rfl

@[simp] theorem Timestamptz.truncate_truncate (t : Timestamptz) : t.truncate.truncate = t.truncate := by
  simp only [truncate, mk.injEq]
  omega

/-- A string that `randomBytes` made, or that a client presents as one. -/
abbrev RawToken := String

/-- A SHA-256 digest. Digests do not collide, so a digest is known by what it is a digest of. -/
structure Sha256 where
  preimage : RawToken
  deriving DecidableEq

inductive WorkspaceRole where
  | ADMIN
  | MEMBER
  deriving DecidableEq, Repr

/-- What a statement is rejected with. -/
inductive DbError where
  | unique (constraint : String)
  | foreignKey (constraint : String)
  | check (constraint : String)
  | notNull (column : String)
  | invalidText (type : String)
  | nulCharacter
  | valueTooLong (length : Nat)
  | statementTimeout
  deriving DecidableEq, Repr

/-! ### Text columns -/

/-- No text with U+0000 is read. -/
def readError (text : String) : Option DbError := if '\x00' ∈ text.toList then some .nulCharacter else none

/-- Beyond the `n` characters of a `varchar(n)` column there is nothing but spaces. -/
def FitsVarchar (n : Nat) (text : String) : Prop := ∀ c ∈ text.toList.drop n, c = ' '

instance (n : Nat) (text : String) : Decidable (FitsVarchar n text) := List.decidableBAll (· = ' ') _

def lengthError (n : Nat) (text : String) : Option DbError := if FitsVarchar n text then none else some (.valueTooLong n)

/-- What a `varchar(n)` column stores of a text that it takes: the spaces beyond its length are cut. -/
def varchar (n : Nat) (text : String) : String :=
  if FitsVarchar n text then String.ofList (text.toList.take n) else text

/-- A text that is cut is as good as the whole text. -/
theorem fitsVarchar_varchar {n : Nat} {text : String} : FitsVarchar n (varchar n text) ↔ FitsVarchar n text := by
  unfold varchar
  split
  · next h =>
    refine iff_of_true ?_ h
    simp [FitsVarchar]
  · rfl

theorem lengthError_varchar (n : Nat) (text : String) : lengthError n (varchar n text) = lengthError n text := by
  simp only [lengthError, fitsVarchar_varchar]

theorem readError_varchar (n : Nat) (text : String) : readError (varchar n text) = readError text := by
  unfold varchar
  split
  · next h =>
    have hcut : '\x00' ∉ text.toList.drop n := fun hmem => absurd (h _ hmem) (by decide)
    have hmem : '\x00' ∈ text.toList ↔ '\x00' ∈ text.toList.take n := by
      conv_lhs => rw [← List.take_append_drop n text.toList, List.mem_append]
      simp [hcut]
    simp only [readError, String.toList_ofList, hmem]
  · rfl

/-- What a service throws: an HTTP exception of NestJS with its message, or what the database rejected
    a statement with. `unavailable` stands for every failure from outside: a lost connection, a dead
    process. -/
inductive Err where
  | badRequest (message : String)
  | unauthorized (message : String)
  | forbidden (message : String)
  | notFound (message : String)
  | conflict (message : String)
  | gone (message : String)
  | db (e : DbError)
  | unavailable
  deriving DecidableEq, Repr

/-- What a step reads from outside: the clock of the process, the clock of the database, and the uuid
    and the random string generated in the step. -/
structure Env where
  now : Date
  dbNow : Timestamptz
  uuid : Uuid
  random : RawToken

/-- The environment of the `n`-th move of a run: values are generated in turn, the clocks stand still. -/
def envAt (n : Nat) : Env :=
  { now := 0, dbNow := .epoch, uuid := Fin.ofNat _ (100 + n), random := String.ofList (List.replicate n 'r') }

/-- The generated values handed out so far. -/
structure Generated where
  uuids : List Uuid
  randoms : List RawToken
  deriving DecidableEq

namespace Generated

/-- Generated values never repeat. -/
def admits (g : Generated) (env : Env) : Bool :=
  !g.uuids.contains env.uuid && !g.randoms.contains env.random

def spend (g : Generated) (env : Env) : Generated :=
  ⟨env.uuid :: g.uuids, env.random :: g.randoms⟩

theorem admits_iff {g : Generated} {env : Env} :
    g.admits env = true ↔ env.uuid ∉ g.uuids ∧ env.random ∉ g.randoms := by
  simp [admits]

end Generated
end TaskPlatform

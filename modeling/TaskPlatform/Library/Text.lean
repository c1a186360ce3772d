import Mathlib.Algebra.Group.Nat.Defs
import TaskPlatform.Library.Base64

/-! Numbers as digits, and texts as UTF-8 bytes. Characters that ASCII has are plain: their byte is their
    code. -/

namespace Text
open Base64 (Byte)

/-! ### Digits -/

/-- The hexadecimal digit; for less than ten the decimal one. -/
def digit (d : Fin 16) : Char := "0123456789abcdef".toList.getD d '0'

def digit? (c : Char) : Option (Fin 16) := (List.finRange 16).find? (digit · = c)

theorem digit?_digit : ∀ d, digit? (digit d) = some d := by
  decide +kernel

/-- The last `k` digits of `n` in base `b`. -/
def digits (b : Nat) : Nat → Nat → List (Fin 16)
  | 0, _ => []
  | k + 1, n => digits b k (n / b) ++ [Fin.ofNat 16 (n % b)]

/-- The number that digits stand for in base `b`. -/
def value (b : Nat) (l : List (Fin 16)) : Nat := l.foldl (fun n (d : Fin 16) => n * b + d.val) 0

theorem value_digits {b : Nat} (pos : 0 < b) (hb : b ≤ 16) (k n : Nat) : value b (digits b k n) = n % b ^ k := by
  induction k generalizing n with
  | zero => simp [digits, value, Nat.mod_one]
  | succ k ih =>
    have hd : n % b < 16 := Nat.lt_of_lt_of_le (Nat.mod_lt _ pos) hb
    have hv : value b (digits b (k + 1) n) = value b (digits b k (n / b)) * b + n % b := by
      simp [digits, value, List.foldl_append, Nat.mod_eq_of_lt hd]
    rw [hv, ih, Nat.pow_succ, Nat.mul_comm (b ^ k) b, Nat.mod_mul, Nat.mul_comm]
    omega

theorem length_digits (b k n : Nat) : (digits b k n).length = k := by
  induction k generalizing n with
  | zero => rfl
  | succ k ih => simp [digits, ih]

theorem digits_lt {b : Nat} (pos : 0 < b) (k n : Nat) : ∀ d ∈ digits b k n, d.val < b := by
  induction k generalizing n with
  | zero => exact nofun
  | succ k ih =>
    intro d hd
    rcases List.mem_append.mp hd with hd | hd
    · exact ih (n / b) d hd
    · obtain rfl := List.mem_singleton.mp hd
      have hlt := Nat.mod_lt n pos
      exact Nat.lt_of_le_of_lt (Nat.mod_le (n % b) 16) hlt

/-- `n` in `k` digits. -/
def padded (b k n : Nat) : List Char := (digits b k n).map digit

theorem length_padded (b k n : Nat) : (padded b k n).length = k := by
  rw [padded, List.length_map, length_digits]

/-- The number that a text of digits stands for. -/
def value? (b : Nat) (l : List Char) : Option Nat :=
  (l.mapM digit?).bind fun ds => if ds.all (·.val < b) then some (value b ds) else none

theorem mapM_digit (l : List (Fin 16)) : (l.map digit).mapM digit? = some l := by
  induction l with
  | nil => rfl
  | cons d l ih => simp [digit?_digit, ih]

theorem value?_padded {b : Nat} (pos : 0 < b) (hb : b ≤ 16) {k n : Nat} (h : n < b ^ k) :
    value? b (padded b k n) = some n := by
  have hall : (digits b k n).all (·.val < b) = true := by simpa using digits_lt pos k n
  rw [value?, padded, mapM_digit, Option.bind_some, if_pos hall, value_digits pos hb, Nat.mod_eq_of_lt h]

/-- Digits are plain characters, and no separators. -/
theorem digit_plain : ∀ d, (digit d).toNat < 0x80 ∧ digit d ≠ '|' ∧ digit d ≠ '-' := by
  decide +kernel

theorem padded_plain (b k n : Nat) : ∀ c ∈ padded b k n, c.toNat < 0x80 ∧ c ≠ '|' ∧ c ≠ '-' := by
  intro c hc
  obtain ⟨d, -, rfl⟩ := List.mem_map.mp hc
  exact digit_plain d

/-! ### UTF-8 -/

/-- A byte of the number `n`. -/
def byte (n : Nat) : Byte := Fin.ofNat 256 n

def encodeChar (c : Char) : List Byte :=
  let n := c.toNat
  if n < 0x80 then [byte n]
  else if n < 0x800 then [byte (0xC0 + n / 64), byte (0x80 + n % 64)]
  else if n < 0x10000 then [byte (0xE0 + n / 4096), byte (0x80 + n / 64 % 64), byte (0x80 + n % 64)]
  else [byte (0xF0 + n / 262144), byte (0x80 + n / 4096 % 64), byte (0x80 + n / 64 % 64), byte (0x80 + n % 64)]

def encode (l : List Char) : List Byte := l.flatMap encodeChar

def replacement : Char := Char.ofNat 0xFFFD

/-- Inside a character: how many bytes are missing, the range of the next one, and the bits so far. -/
structure Partial where
  missing : Nat
  low : Nat
  high : Nat
  bits : Nat

/-- The first byte of a character: it is the character, starts one, or is no first byte. -/
def lead (b : Nat) : Char ⊕ Partial :=
  if b < 0x80 then .inl (Char.ofNat b)
  else if b < 0xC2 then .inl replacement
  else if b < 0xE0 then .inr ⟨0, 0x80, 0xBF, b % 32⟩
  else if b < 0xF0 then .inr ⟨1, if b = 0xE0 then 0xA0 else 0x80, if b = 0xED then 0x9F else 0xBF, b % 16⟩
  else if b < 0xF5 then .inr ⟨2, if b = 0xF0 then 0x90 else 0x80, if b = 0xF4 then 0x8F else 0xBF, b % 8⟩
  else .inl replacement

/-- Reads UTF-8; what is no character is read as U+FFFD. -/
def decodeFrom : Option Partial → List Byte → List Char
  | none, [] => []
  | some _, [] => [replacement]
  | none, b :: rest =>
    match lead b with
    | .inl c => c :: decodeFrom none rest
    | .inr p => decodeFrom (some p) rest
  | some p, b :: rest =>
    if p.low ≤ b ∧ b ≤ p.high then
      match p.missing with
      | 0 => Char.ofNat (p.bits * 64 + b % 64) :: decodeFrom none rest
      | n + 1 => decodeFrom (some ⟨n, 0x80, 0xBF, p.bits * 64 + b % 64⟩) rest
    else
      match lead b with
      | .inl c => replacement :: c :: decodeFrom none rest
      | .inr p => replacement :: decodeFrom (some p) rest

def decode (l : List Byte) : List Char := decodeFrom none l

theorem decode_encode {l : List Char} (h : ∀ c ∈ l, c.toNat < 0x80) : decode (encode l) = l := by
  induction l with
  | nil => rfl
  | cons c l ih =>
    obtain ⟨hc, hl⟩ := List.forall_mem_cons.mp h
    have henc : encode (c :: l) = byte c.toNat :: encode l := by simp [encode, encodeChar, hc]
    have hlead : lead (byte c.toNat) = .inl c := by
      have hb : (byte c.toNat : Nat) = c.toNat := Nat.mod_eq_of_lt (by omega)
      rw [hb, lead, if_pos hc, Char.ofNat_toNat]
    have ih : decodeFrom none (encode l) = l := ih hl
    rw [henc, decode, decodeFrom, hlead]
    exact congrArg (c :: ·) ih

end Text

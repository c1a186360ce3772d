import Mathlib.Data.Fin.Basic
import Mathlib.Data.List.TakeWhile

/-! Base64 in the URL alphabet without padding: three bytes are four sextets. Reading sees the low byte of each UTF-16
    code unit, accepts the standard alphabet as well, passes over every other byte and stops at a padding. -/

namespace Base64

abbrev Byte := Fin 256

abbrev Sextet := Fin 64

def ofBytes : List Byte → List Sextet
  | a :: b :: c :: rest =>
    ⟨a / 4, by omega⟩ :: ⟨a % 4 * 16 + b / 16, by omega⟩ :: ⟨b % 16 * 4 + c / 64, by omega⟩ :: ⟨c % 64, by omega⟩ ::
      ofBytes rest
  | [a, b] => [⟨a / 4, by omega⟩, ⟨a % 4 * 16 + b / 16, by omega⟩, ⟨b % 16 * 4, by omega⟩]
  | [a] => [⟨a / 4, by omega⟩, ⟨a % 4 * 16, by omega⟩]
  | [] => []

/-- A single sextet at the end holds no byte. -/
def toBytes : List Sextet → List Byte
  | w :: x :: y :: z :: rest =>
    ⟨w * 4 + x / 16, by omega⟩ :: ⟨x % 16 * 16 + y / 4, by omega⟩ :: ⟨y % 4 * 64 + z, by omega⟩ :: toBytes rest
  | [w, x, y] => [⟨w * 4 + x / 16, by omega⟩, ⟨x % 16 * 16 + y / 4, by omega⟩]
  | [w, x] => [⟨w * 4 + x / 16, by omega⟩]
  | [_] => []
  | [] => []

theorem toBytes_ofBytes (l : List Byte) : toBytes (ofBytes l) = l := by
  fun_induction ofBytes l with
  | case1 a b c rest ih =>
    simp only [toBytes, ih, List.cons.injEq, and_true, Fin.ext_iff]
    omega
  | case2 a b =>
    simp only [toBytes, List.cons.injEq, and_true, Fin.ext_iff]
    omega
  | case3 a =>
    simp only [toBytes, List.cons.injEq, and_true, Fin.ext_iff]
    omega
  | case4 => rfl

def alphabet : List Char := "ABCDEFGHIJKLMNOPQRSTUVWXYZabcdefghijklmnopqrstuvwxyz0123456789-_".toList

def toChar (s : Sextet) : Char := alphabet.getD s 'A'

def ofChar? (c : Char) : Option Sextet :=
  if c = '+' then some 62
  else if c = '/' then some 63
  else (List.finRange 64).find? (toChar · = c)

theorem ofChar?_toChar : ∀ s, ofChar? (toChar s) = some s := by
  decide +kernel

theorem toChar_ne_padding : ∀ s, toChar s ≠ '=' := by
  decide +kernel

/-! ### Texts -/

/-- The UTF-16 code units of a character: one, or a pair of surrogates. -/
def codeUnits (c : Char) : List Nat :=
  if c.toNat < 0x10000 then [c.toNat]
  else [0xD800 + (c.toNat - 0x10000) / 0x400, 0xDC00 + (c.toNat - 0x10000) % 0x400]

/-- What reading sees of a character. -/
def lowBytes (c : Char) : List Char := (codeUnits c).map fun u => Char.ofNat (u % 256)

theorem lowBytes_toChar : ∀ s, lowBytes (toChar s) = [toChar s] := by
  decide +kernel

def encode (l : List Byte) : List Char := (ofBytes l).map toChar

def decode (l : List Char) : List Byte := toBytes (((l.flatMap lowBytes).takeWhile (· ≠ '=')).filterMap ofChar?)

theorem decode_encode (l : List Byte) : decode (encode l) = l := by
  have hlow : (encode l).flatMap lowBytes = encode l := by
    rw [encode, List.flatMap_map]
    simp only [lowBytes_toChar, List.map_eq_flatMap]
  have hplain : (encode l).takeWhile (· ≠ '=') = encode l := by
    refine List.takeWhile_eq_self_iff.mpr fun c hc => ?_
    obtain ⟨s, -, rfl⟩ := List.mem_map.mp hc
    simpa using toChar_ne_padding s
  have hread : ofChar? ∘ toChar = some := funext ofChar?_toChar
  rw [decode, hlow, hplain, encode, List.filterMap_map, hread, List.filterMap_some, toBytes_ofBytes]

end Base64

import Mathlib.Data.Nat.Init

/-! The civil calendar from 1970 on: days to year, month and day, and back. Both directions walk over
    consecutive lengths, of years and then of months. -/

namespace Calendar

/-! ### Walking over lengths -/

section Walk
variable (len : Nat → Nat)

/-- The sum of `n` consecutive lengths from the `i`-th on. -/
def span (i : Nat) : Nat → Nat
  | 0 => 0
  | n + 1 => span i n + len (i + n)

/-- How many lengths from the `i`-th on fit into `n`, and the rest. -/
def locate : Nat → Nat → Nat → Nat × Nat
  | 0, _, n => (0, n)
  | fuel + 1, i, n => if n < len i then (0, n) else Prod.map (· + 1) id (locate fuel (i + 1) (n - len i))

variable {len}

theorem span_succ (i n : Nat) : span len i (n + 1) = len i + span len (i + 1) n := by
  induction n with
  | zero => simp [span]
  | succ n ih =>
    rw [span, ih, span, show i + (n + 1) = i + 1 + n by omega]
    omega

theorem span_mono (len : Nat → Nat) (i : Nat) {m n : Nat} (h : m ≤ n) : span len i m ≤ span len i n := by
  induction h with
  | refl => exact Nat.le_refl _
  | step _ ih => exact Nat.le_trans ih (Nat.le_add_right _ _)

theorem span_locate (len : Nat → Nat) (fuel i n : Nat) : span len i (locate len fuel i n).1 + (locate len fuel i n).2 = n := by
  induction fuel generalizing i n with
  | zero => simp [locate, span]
  | succ fuel ih =>
    rw [locate]
    split
    · simp [span]
    · next h =>
      have := ih (i + 1) (n - len i)
      simp only [Prod.map_fst, Prod.map_snd, id, span_succ]
      omega

theorem locate_lt (pos : ∀ i, 0 < len i) {fuel i n : Nat} (h : n < fuel) :
    (locate len fuel i n).2 < len (i + (locate len fuel i n).1) := by
  induction fuel generalizing i n with
  | zero => omega
  | succ fuel ih =>
    rw [locate]
    split
    · simpa
    · have := pos i
      have := ih (i := i + 1) (n := n - len i) (by omega)
      simp only [Prod.map_fst, Prod.map_snd, id]
      rwa [Nat.add_right_comm] at this

/-- Less than `k` lengths fit into what is less than `k` lengths. -/
theorem locate_lt_of_span (fuel : Nat) {i n k : Nat} (h : n < span len i k) : (locate len fuel i n).1 < k := by
  refine Nat.lt_of_not_le fun hk => ?_
  have := span_mono len i hk
  have := span_locate len fuel i n
  omega

end Walk

/-! ### Years and months -/

def isLeap (y : Nat) : Bool := y % 4 = 0 && (y % 100 ≠ 0 || y % 400 = 0)

def daysInYear (y : Nat) : Nat := if isLeap y then 366 else 365

def daysInMonth (y : Nat) : Nat → Nat
  | 2 => if isLeap y then 29 else 28
  | 4 | 6 | 9 | 11 => 30
  | _ => 31

theorem daysInYear_pos (y : Nat) : 0 < daysInYear y := by
  unfold daysInYear
  split <;> omega

theorem daysInMonth_pos (y m : Nat) : 0 < daysInMonth y m := by
  unfold daysInMonth
  split
  · split <;> omega
  all_goals omega

theorem daysInMonth_le (y m : Nat) : daysInMonth y m ≤ 31 := by
  unfold daysInMonth
  split
  · split <;> omega
  all_goals omega

theorem span_months (y : Nat) : span (daysInMonth y) 1 12 = daysInYear y := by
  simp only [span, daysInMonth, daysInYear]
  split <;> rfl

structure Civil where
  year : Nat
  month : Nat
  day : Nat
  deriving DecidableEq, Repr

/-- The date that is `days` days after the first of January 1970. -/
def civil (days : Nat) : Civil :=
  let y := locate daysInYear (days + 1) 1970 days
  let m := locate (daysInMonth (1970 + y.1)) (y.2 + 1) 1 y.2
  ⟨1970 + y.1, 1 + m.1, 1 + m.2⟩

/-- A date that exists, from 1970 on. -/
def Civil.Valid (c : Civil) : Prop :=
  1970 ≤ c.year ∧ 1 ≤ c.month ∧ c.month ≤ 12 ∧ 1 ≤ c.day ∧ c.day ≤ daysInMonth c.year c.month

instance (c : Civil) : Decidable c.Valid :=
  inferInstanceAs (Decidable (1970 ≤ c.year ∧ 1 ≤ c.month ∧ c.month ≤ 12 ∧ 1 ≤ c.day ∧ c.day ≤ daysInMonth c.year c.month))

/-- The days from the first of January 1970 to a date. -/
def Civil.days (c : Civil) : Nat :=
  span daysInYear 1970 (c.year - 1970) + span (daysInMonth c.year) 1 (c.month - 1) + (c.day - 1)

theorem civil_days (n : Nat) : (civil n).days = n := by
  have hy := span_locate daysInYear (n + 1) 1970 n
  have hm := span_locate (daysInMonth (1970 + (locate daysInYear (n + 1) 1970 n).1))
    ((locate daysInYear (n + 1) 1970 n).2 + 1) 1 (locate daysInYear (n + 1) 1970 n).2
  simp only [civil, Civil.days, Nat.add_sub_cancel_left]
  omega

theorem civil_valid (n : Nat) : (civil n).Valid := by
  have hrest := locate_lt daysInYear_pos (i := 1970) (Nat.lt_succ_self n)
  have hday := locate_lt (daysInMonth_pos (1970 + (locate daysInYear (n + 1) 1970 n).1)) (i := 1)
    (Nat.lt_succ_self (locate daysInYear (n + 1) 1970 n).2)
  rw [← span_months] at hrest
  have hmonth := locate_lt_of_span ((locate daysInYear (n + 1) 1970 n).2 + 1) hrest
  simp only [Civil.Valid, civil, Nat.succ_eq_add_one] at *
  omega

end Calendar

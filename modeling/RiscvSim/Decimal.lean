import Mathlib.Data.Int.Basic
import Mathlib.Data.List.TakeWhile

/-! Decimal text of integers: the printed form, and the value that a conversion
reads from the front of a text. -/

namespace Decimal

def isSpace (c : Char) : Bool :=
  c == ' ' || c == '\t' || c == '\n' || c == '\x0b' || c == '\x0c' || c == '\r'

/-- The value of the leading digits, if there are any. -/
def digits (cs : List Char) : Option Nat :=
  match cs.takeWhile Char.isDigit with
  | [] => none
  | ds => some (Nat.ofDigitChars 10 ds 0)

/-- White space, an optional sign and digits; what follows is not read. -/
def value (s : String) : Option Int :=
  match s.toList.dropWhile isSpace with
  | '-' :: cs => (digits cs).map fun n => -(n : Int)
  | '+' :: cs => (digits cs).map fun n => (n : Int)
  | cs => (digits cs).map fun n => (n : Int)

theorem takeWhile_toDigits (n : Nat) :
    (Nat.toDigits 10 n).takeWhile Char.isDigit = Nat.toDigits 10 n := by
  rw [List.takeWhile_eq_self_iff]
  intro c hc
  exact Nat.isDigit_of_mem_toDigits (by omega) (by omega) hc

theorem digits_toDigits (n : Nat) : digits (Nat.toDigits 10 n) = some n := by
  rw [digits, takeWhile_toDigits]
  split
  · rename_i h
    exact absurd h Nat.toDigits_ne_nil
  · rw [Nat.ofDigitChars_toDigits (by omega) (by omega)]

/-- A digit is no space and no sign. -/
theorem digit_plain {c : Char} (h : c.isDigit = true) :
    isSpace c = false ∧ c ≠ '-' ∧ c ≠ '+' := by
  refine ⟨?_, ?_, ?_⟩
  · by_contra hspace
    simp only [isSpace, Bool.not_eq_false, Bool.or_eq_true, beq_iff_eq] at hspace
    rcases hspace with ((((rfl | rfl) | rfl) | rfl) | rfl) | rfl <;> exact absurd h (by decide)
  · rintro rfl
    exact absurd h (by decide)
  · rintro rfl
    exact absurd h (by decide)

theorem value_repr (n : Nat) : value (Nat.repr n) = some (n : Int) := by
  have hdigits := digits_toDigits n
  have hall : ∀ c ∈ Nat.toDigits 10 n, c.isDigit = true := fun c hc =>
    Nat.isDigit_of_mem_toDigits (by omega) (by omega) hc
  rw [value, Nat.toList_repr]
  cases hlist : Nat.toDigits 10 n with
  | nil => exact absurd hlist Nat.toDigits_ne_nil
  | cons c cs =>
    rw [hlist] at hdigits hall
    obtain ⟨hspace, hminus, hplus⟩ := digit_plain (hall c List.mem_cons_self)
    rw [List.dropWhile_cons_of_neg (by simp [hspace])]
    split
    · rename_i heq
      injection heq with heq
      exact absurd heq hminus
    · rename_i heq
      injection heq with heq
      exact absurd heq hplus
    · rw [hdigits]
      rfl

theorem toList_negSucc (n : Nat) :
    (toString (Int.negSucc n)).toList = '-' :: Nat.toDigits 10 (n + 1) := by
  change ("-" ++ Nat.repr (n + 1)).toList = _
  rw [String.toList_append, Nat.toList_repr]
  rfl

/-- The printed form of an integer reads as that integer. -/
theorem value_toString (n : Int) : value (toString n) = some n := by
  cases n with
  | ofNat n => exact value_repr n
  | negSucc n =>
    rw [value, toList_negSucc, List.dropWhile_cons_of_neg (by decide)]
    simp only [digits_toDigits]
    rfl

theorem toString_injective {m n : Int} (h : toString m = toString n) : m = n := by
  have hvalue := value_toString m
  rw [h, value_toString] at hvalue
  exact (Option.some.inj hvalue).symm

end Decimal

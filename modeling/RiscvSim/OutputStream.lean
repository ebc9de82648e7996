import Mathlib.Data.List.Basic

/-! Formatted output: a stream collects a text, and its flags say how the next item is written. -/

structure OutputStream where
  text : List Char
  width : Nat
  fill : Char
  leftAdjusted : Bool
  hexadecimal : Bool

namespace OutputStream

/-- A stream on a file that has just been opened. -/
def opened : OutputStream where
  text := []
  width := 0
  fill := ' '
  leftAdjusted := false
  hexadecimal := false

variable (s : OutputStream)

def setw (n : Nat) : OutputStream := { s with width := n }

def setfill (c : Char) : OutputStream := { s with fill := c }

def left : OutputStream := { s with leftAdjusted := true }

def right : OutputStream := { s with leftAdjusted := false }

def hex : OutputStream := { s with hexadecimal := true }

def dec : OutputStream := { s with hexadecimal := false }

/-- An item is padded to the width, which is only for the next item. -/
def put (item : List Char) : OutputStream :=
  { s with
    text := s.text ++
      if s.leftAdjusted then item.rightpad s.width s.fill else item.leftpad s.width s.fill
    width := 0 }

def putString (item : String) : OutputStream := s.put item.toList

def putNat (n : Nat) : OutputStream := s.put (Nat.toDigits (if s.hexadecimal then 16 else 10) n)

/-- The end of a line is not padded. -/
def endl : OutputStream := { s with text := s.text ++ ['\n'] }

/-- The flags of a stream that nothing has been asked of. -/
def printing (text : List Char) : OutputStream := { opened with text }

/-- Without a width nothing is padded. -/
theorem put_of_width {s : OutputStream} (h : s.width = 0) (item : List Char) :
    s.put item = { s with text := s.text ++ item } := by
  rw [put, h]
  simp only [List.leftpad, List.rightpad, Nat.zero_sub, List.replicate_zero, List.append_nil,
    List.nil_append, ite_self]

@[simp] theorem put_printing (text item : List Char) :
    (printing text).put item = printing (text ++ item) :=
  put_of_width rfl item

@[simp] theorem putString_printing (text : List Char) (item : String) :
    (printing text).putString item = printing (text ++ item.toList) :=
  put_printing text item.toList

@[simp] theorem putNat_printing (text : List Char) (n : Nat) :
    (printing text).putNat n = printing (text ++ Nat.toDigits 10 n) :=
  put_printing text _

@[simp] theorem endl_printing (text : List Char) :
    (printing text).endl = printing (text ++ ['\n']) := rfl

theorem hex_putNat (text : List Char) (n : Nat) :
    (printing text).hex.putNat n = (printing (text ++ Nat.toDigits 16 n)).hex :=
  put_of_width rfl _

/-! Texts of lines. -/

theorem newline_notMem_toDigits {b : Nat} (hb : 1 < b) (n : Nat) : '\n' ∉ Nat.toDigits b n := by
  induction n using Nat.strongRecOn with
  | ind n ih =>
    rw [Nat.toDigits_eq_if hb]
    by_cases hn : n < b
    · rw [if_pos hn, List.mem_singleton]
      exact (Nat.digitChar_ne '\n' (by decide)).symm
    · rw [if_neg hn, List.mem_append, List.mem_singleton]
      rintro (h | h)
      · exact ih (n / b) (Nat.div_lt_self (by omega) hb) h
      · exact Nat.digitChar_ne '\n' (by decide) h.symm

/-- A text made of lines is split into them; behind the last line it is empty. -/
theorem splitOn_lines {lines : List (List Char)} (h : ∀ line ∈ lines, '\n' ∉ line) :
    (lines.flatMap fun line => line ++ ['\n']).splitOn '\n' = lines ++ [[]] := by
  induction lines with
  | nil => rfl
  | cons line lines ih =>
    obtain ⟨hline, hlines⟩ := List.forall_mem_cons.mp h
    rw [List.flatMap_cons, List.append_assoc, List.singleton_append,
      List.splitOn_append_cons_self_of_not_mem hline, ih hlines, List.cons_append]

end OutputStream

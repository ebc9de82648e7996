import RiscvSim.Alu

/-! The divisions of the M extension against those of the arithmetic unit. -/

namespace RiscvSim

/-! The M extension at any width. -/

namespace MExtension

variable {w : Nat}

def divS (a b : BitVec w) : BitVec w :=
  if b = 0 then BitVec.allOnes w
  else if a = BitVec.intMin w ∧ b = -1 then a
  else a.sdiv b

def divU (a b : BitVec w) : BitVec w := if b = 0 then BitVec.allOnes w else a / b

def remS (a b : BitVec w) : BitVec w :=
  if b = 0 then a
  else if a = BitVec.intMin w ∧ b = -1 then 0
  else a.srem b

def remU (a b : BitVec w) : BitVec w := if b = 0 then a else a % b

end MExtension

/-- The eight divisions. -/
inductive DivOp where
  | div | divu | rem | remu | divw | divuw | remw | remuw
  deriving DecidableEq, Repr

namespace DivOp

def aluOp : DivOp → AluOp
  | .div => .kDiv
  | .divu => .kDivu
  | .rem => .kRem
  | .remu => .kRemu
  | .divw => .kDivw
  | .divuw => .kDivuw
  | .remw => .kRemw
  | .remuw => .kRemuw

/-- The value that the M extension defines; the W forms extend the sign of a 32-bit one. -/
def value (op : DivOp) (a b : Word) : Word :=
  match op with
  | .div => MExtension.divS a b
  | .divu => MExtension.divU a b
  | .rem => MExtension.remS a b
  | .remu => MExtension.remU a b
  | .divw => (MExtension.divS (a.setWidth 32) (b.setWidth 32)).signExtend 64
  | .divuw => (MExtension.divU (a.setWidth 32) (b.setWidth 32)).signExtend 64
  | .remw => (MExtension.remS (a.setWidth 32) (b.setWidth 32)).signExtend 64
  | .remuw => (MExtension.remU (a.setWidth 32) (b.setWidth 32)).signExtend 64

/-- The operands on which the arithmetic unit computes that value. -/
def Meets (op : DivOp) (a b : Word) : Prop :=
  let a32 : BitVec 32 := a.setWidth 32
  let b32 : BitVec 32 := b.setWidth 32
  match op with
  | .div => b ≠ 0 ∧ ¬ (a = BitVec.intMin 64 ∧ b = -1)
  | .divu => b ≠ 0
  | .rem => (b = 0 → a = 0) ∧ ¬ (a = BitVec.intMin 64 ∧ b = -1)
  | .remu => b = 0 → a = 0
  | .divw => b32 ≠ 0
  | .divuw => b32 ≠ 0 ∧ ¬ (b32 = 1 ∧ 2 ^ 31 ≤ a32.toNat)
  | .remw => (b = 0 ∧ a32 = 0) ∨ (b32 ≠ 0 ∧ ¬ (a32 = BitVec.intMin 32 ∧ b32 = -1))
  | .remuw => (b = 0 ∧ a32 = 0) ∨ (b32 ≠ 0 ∧ ¬ (2 ^ 31 ≤ a32.toNat ∧ a32 < b32))

end DivOp

/-- An unsigned 32-bit result is its own sign extension below `2 ^ 31` only. -/
theorem setWidth_eq_signExtend_iff (x : BitVec 32) :
    x.setWidth 64 = x.signExtend 64 ↔ x.toNat < 2 ^ 31 := by
  have hmsb : x.msb = decide (2 ^ 31 ≤ x.toNat) := BitVec.msb_eq_decide x
  constructor
  · intro h
    by_contra hge
    have hnat := congrArg BitVec.toNat h
    rw [BitVec.toNat_signExtend, hmsb, decide_eq_true (by omega)] at hnat
    simp only [if_true, BitVec.toNat_setWidth] at hnat
    have := x.isLt
    omega
  · intro h
    rw [BitVec.signExtend_eq_setWidth_of_msb_false]
    rw [hmsb, decide_eq_false (by omega)]

theorem signExtend_eq_zero {x : BitVec 32} (h : x.signExtend 64 = 0) : x = 0 := by
  apply BitVec.eq_of_toInt_eq
  rw [← BitVec.toInt_signExtend_of_le (by decide : 32 ≤ 64), h]
  rfl

theorem udiv_lt_iff {a b : BitVec 32} (hb : b ≠ 0) :
    (a / b).toNat < 2 ^ 31 ↔ ¬ (b = 1 ∧ 2 ^ 31 ≤ a.toNat) := by
  have hpos : 0 < b.toNat := by
    apply Nat.pos_of_ne_zero
    exact fun h => hb (BitVec.eq_of_toNat_eq h)
  have ha := a.isLt
  rw [BitVec.toNat_udiv]
  constructor
  · rintro h ⟨rfl, hge⟩
    simp at h
    omega
  · intro h
    by_cases hone : b.toNat = 1
    · have hb1 : b = 1 := BitVec.eq_of_toNat_eq hone
      rw [hone, Nat.div_one]
      by_contra hge
      exact h ⟨hb1, by omega⟩
    · apply Nat.div_lt_of_lt_mul
      have := Nat.mul_le_mul_right (2 ^ 31) (show 2 ≤ b.toNat by omega)
      omega

theorem umod_lt_iff {a b : BitVec 32} (hb : b ≠ 0) :
    (a % b).toNat < 2 ^ 31 ↔ ¬ (2 ^ 31 ≤ a.toNat ∧ a < b) := by
  have hpos : 0 < b.toNat := by
    apply Nat.pos_of_ne_zero
    exact fun h => hb (BitVec.eq_of_toNat_eq h)
  have ha := a.isLt
  rw [BitVec.toNat_umod, BitVec.lt_def]
  by_cases hlt : a.toNat < b.toNat
  · rw [Nat.mod_eq_of_lt hlt]
    omega
  · by_cases hlow : b.toNat ≤ 2 ^ 31
    · have := Nat.mod_lt a.toNat hpos
      omega
    · rw [Nat.mod_eq_sub_mod (by omega), Nat.mod_eq_of_lt (by omega)]
      omega

namespace Alu

/-- The arithmetic unit returns the value that the M extension defines. -/
def Conforms (op : DivOp) (a b : Word) : Prop :=
  ∃ overflow, execute op.aluOp a b = .ok (op.value a b, overflow)

variable {op : DivOp} {a b : Word}

theorem conforms_of_ok (x : Word) (overflow : Bool) (h : execute op.aluOp a b = .ok (x, overflow)) :
    Conforms op a b ↔ x = op.value a b := by
  constructor
  · rintro ⟨overflow', h'⟩
    rw [h] at h'
    exact congrArg Prod.fst (Except.ok.inj h')
  · rintro rfl
    exact ⟨overflow, h⟩

theorem not_conforms_of_error {e : Fault} (h : execute op.aluOp a b = .error e) :
    ¬ Conforms op a b := by
  rintro ⟨overflow, h'⟩
  rw [h] at h'
  cases h'

theorem conforms_div : Conforms .div a b ↔ DivOp.Meets .div a b := by
  by_cases hb : b = 0
  · have hvalue : DivOp.div.value a b = BitVec.allOnes 64 := if_pos hb
    refine Iff.trans (conforms_of_ok 0 false (if_pos hb)) ?_
    rw [hvalue]
    exact iff_of_false (by decide) fun h => h.1 hb
  · by_cases hover : a = BitVec.intMin 64 ∧ b = -1
    · have hvalue : DivOp.div.value a b = a := (if_neg hb).trans (if_pos hover)
      refine Iff.trans (conforms_of_ok (BitVec.intMax 64) true
        ((if_neg hb).trans (if_pos hover))) ?_
      rw [hvalue, hover.1]
      exact iff_of_false (by decide) fun h => h.2 ⟨rfl, hover.2⟩
    · have hvalue : DivOp.div.value a b = a.sdiv b := (if_neg hb).trans (if_neg hover)
      refine Iff.trans (conforms_of_ok (a.sdiv b) false ((if_neg hb).trans (if_neg hover))) ?_
      exact iff_of_true hvalue.symm ⟨hb, hover⟩

theorem conforms_divu : Conforms .divu a b ↔ DivOp.Meets .divu a b := by
  by_cases hb : b = 0
  · have hvalue : DivOp.divu.value a b = BitVec.allOnes 64 := if_pos hb
    refine Iff.trans (conforms_of_ok 0 false (if_pos hb)) ?_
    rw [hvalue]
    exact iff_of_false (by decide) fun h => h hb
  · have hvalue : DivOp.divu.value a b = a / b := if_neg hb
    refine Iff.trans (conforms_of_ok (a / b) false (if_neg hb)) ?_
    exact iff_of_true hvalue.symm hb

theorem conforms_rem : Conforms .rem a b ↔ DivOp.Meets .rem a b := by
  by_cases hb : b = 0
  · have hvalue : DivOp.rem.value a b = a := if_pos hb
    refine Iff.trans (conforms_of_ok 0 false (if_pos hb)) ?_
    rw [hvalue]
    refine ⟨fun h => ⟨fun _ => h.symm, fun hover => ?_⟩, fun h => (h.1 hb).symm⟩
    exact absurd (hb.symm.trans hover.2) (by decide)
  · by_cases hover : a = BitVec.intMin 64 ∧ b = -1
    · have hfault : execute DivOp.rem.aluOp a b = .error .divisionTrap :=
        (if_neg hb).trans (if_pos hover)
      exact iff_of_false (not_conforms_of_error hfault) fun h => h.2 hover
    · have hvalue : DivOp.rem.value a b = a.srem b := (if_neg hb).trans (if_neg hover)
      refine Iff.trans (conforms_of_ok (a.srem b) false ((if_neg hb).trans (if_neg hover))) ?_
      exact iff_of_true hvalue.symm ⟨fun h => absurd h hb, hover⟩

theorem conforms_remu : Conforms .remu a b ↔ DivOp.Meets .remu a b := by
  by_cases hb : b = 0
  · have hvalue : DivOp.remu.value a b = a := if_pos hb
    refine Iff.trans (conforms_of_ok 0 false (if_pos hb)) ?_
    rw [hvalue]
    exact ⟨fun h _ => h.symm, fun h => (h hb).symm⟩
  · have hvalue : DivOp.remu.value a b = a % b := if_neg hb
    refine Iff.trans (conforms_of_ok (a % b) false (if_neg hb)) ?_
    exact iff_of_true hvalue.symm fun h => absurd h hb

theorem conforms_divw : Conforms .divw a b ↔ DivOp.Meets .divw a b := by
  by_cases hb : b.setWidth 32 = (0 : BitVec 32)
  · have hvalue : DivOp.divw.value a b = (BitVec.allOnes 32).signExtend 64 :=
      congrArg (BitVec.signExtend 64) (if_pos hb)
    refine Iff.trans (conforms_of_ok 0 false (if_pos hb)) ?_
    rw [hvalue]
    exact iff_of_false (by decide) fun h => h hb
  · by_cases hover : a.setWidth 32 = BitVec.intMin 32 ∧ b.setWidth 32 = (-1 : BitVec 32)
    · have hvalue : DivOp.divw.value a b = (a.setWidth 32).signExtend 64 :=
        congrArg (BitVec.signExtend 64) ((if_neg hb).trans (if_pos hover))
      refine Iff.trans (conforms_of_ok (ofWord32 (BitVec.intMin 32)) true
        ((if_neg hb).trans (if_pos hover))) ?_
      rw [hvalue, hover.1]
      exact iff_of_true rfl hb
    · have hvalue : DivOp.divw.value a b = ofWord32 ((a.setWidth 32).sdiv (b.setWidth 32)) :=
        congrArg (BitVec.signExtend 64) ((if_neg hb).trans (if_neg hover))
      refine Iff.trans (conforms_of_ok (ofWord32 ((a.setWidth 32).sdiv (b.setWidth 32))) false
        ((if_neg hb).trans (if_neg hover))) ?_
      exact iff_of_true hvalue.symm hb

/-- The guard of the other W forms lets a divisor pass whose low half alone is zero. -/
theorem setWidth_of_eq_zero (hb : b = 0) : b.setWidth 32 = (0 : BitVec 32) := by
  rw [hb]
  rfl

theorem conforms_divuw : Conforms .divuw a b ↔ DivOp.Meets .divuw a b := by
  by_cases hb : b = 0
  · have hvalue : DivOp.divuw.value a b = (BitVec.allOnes 32).signExtend 64 :=
      congrArg (BitVec.signExtend 64) (if_pos (setWidth_of_eq_zero hb))
    refine Iff.trans (conforms_of_ok 0 false (if_pos hb)) ?_
    rw [hvalue]
    exact iff_of_false (by decide) fun h => h.1 (setWidth_of_eq_zero hb)
  · by_cases hb32 : b.setWidth 32 = (0 : BitVec 32)
    · have hfault : execute DivOp.divuw.aluOp a b = .error .divisionTrap :=
        (if_neg hb).trans (if_pos hb32)
      exact iff_of_false (not_conforms_of_error hfault) fun h => h.1 hb32
    · have hvalue : DivOp.divuw.value a b = (a.setWidth 32 / b.setWidth 32).signExtend 64 :=
        congrArg (BitVec.signExtend 64) (if_neg hb32)
      refine Iff.trans (conforms_of_ok ((a.setWidth 32 / b.setWidth 32).setWidth 64) false
        ((if_neg hb).trans (if_neg hb32))) ?_
      rw [hvalue, setWidth_eq_signExtend_iff, udiv_lt_iff hb32]
      exact (and_iff_right hb32).symm

theorem conforms_remw : Conforms .remw a b ↔ DivOp.Meets .remw a b := by
  by_cases hb : b = 0
  · have hb32 := setWidth_of_eq_zero hb
    have hvalue : DivOp.remw.value a b = (a.setWidth 32).signExtend 64 :=
      congrArg (BitVec.signExtend 64) (if_pos hb32)
    refine Iff.trans (conforms_of_ok 0 false (if_pos hb)) ?_
    rw [hvalue]
    constructor
    · exact fun h => .inl ⟨hb, signExtend_eq_zero h.symm⟩
    · rintro (h | h)
      · rw [h.2]
        rfl
      · exact absurd hb32 h.1
  · by_cases htrap : b.setWidth 32 = (0 : BitVec 32) ∨
        a.setWidth 32 = BitVec.intMin 32 ∧ b.setWidth 32 = (-1 : BitVec 32)
    · have hfault : execute DivOp.remw.aluOp a b = .error .divisionTrap :=
        (if_neg hb).trans (if_pos htrap)
      refine iff_of_false (not_conforms_of_error hfault) ?_
      rintro (h | h)
      · exact hb h.1
      · exact htrap.elim h.1 h.2
    · obtain ⟨hb32, hover⟩ := not_or.mp htrap
      have hvalue : DivOp.remw.value a b = ofWord32 ((a.setWidth 32).srem (b.setWidth 32)) :=
        congrArg (BitVec.signExtend 64) ((if_neg hb32).trans (if_neg hover))
      refine Iff.trans (conforms_of_ok (ofWord32 ((a.setWidth 32).srem (b.setWidth 32))) false
        ((if_neg hb).trans (if_neg htrap))) ?_
      exact iff_of_true hvalue.symm (.inr ⟨hb32, hover⟩)

theorem conforms_remuw : Conforms .remuw a b ↔ DivOp.Meets .remuw a b := by
  by_cases hb : b = 0
  · have hb32 := setWidth_of_eq_zero hb
    have hvalue : DivOp.remuw.value a b = (a.setWidth 32).signExtend 64 :=
      congrArg (BitVec.signExtend 64) (if_pos hb32)
    refine Iff.trans (conforms_of_ok 0 false (if_pos hb)) ?_
    rw [hvalue]
    constructor
    · exact fun h => .inl ⟨hb, signExtend_eq_zero h.symm⟩
    · rintro (h | h)
      · rw [h.2]
        rfl
      · exact absurd hb32 h.1
  · by_cases hb32 : b.setWidth 32 = (0 : BitVec 32)
    · have hfault : execute DivOp.remuw.aluOp a b = .error .divisionTrap :=
        (if_neg hb).trans (if_pos hb32)
      refine iff_of_false (not_conforms_of_error hfault) ?_
      rintro (h | h)
      · exact hb h.1
      · exact h.1 hb32
    · have hvalue : DivOp.remuw.value a b = (a.setWidth 32 % b.setWidth 32).signExtend 64 :=
        congrArg (BitVec.signExtend 64) (if_neg hb32)
      refine Iff.trans (conforms_of_ok ((a.setWidth 32 % b.setWidth 32).setWidth 64) false
        ((if_neg hb).trans (if_neg hb32))) ?_
      rw [hvalue, setWidth_eq_signExtend_iff, umod_lt_iff hb32]
      constructor
      · exact fun h => .inr ⟨hb32, h⟩
      · exact fun h => (h.resolve_left fun h' => hb h'.1).2

/-- The arithmetic unit divides as the M extension defines exactly on the operands that
`Meets` describes: the divisor zero and the overflow of DIV are the exceptions, the traps of
the host and the unsigned W forms whose 32-bit result is negative. -/
theorem conforms_iff (op : DivOp) (a b : Word) : Conforms op a b ↔ op.Meets a b := by
  cases op with
  | div => exact conforms_div
  | divu => exact conforms_divu
  | rem => exact conforms_rem
  | remu => exact conforms_remu
  | divw => exact conforms_divw
  | divuw => exact conforms_divuw
  | remw => exact conforms_remw
  | remuw => exact conforms_remuw

theorem not_conforms_div_zero : ¬ ∀ op a b, Conforms op a b := by
  intro h
  obtain ⟨overflow, hdiv⟩ := h .div 7 0
  have hvalue : (0 : Word) = DivOp.div.value 7 0 := congrArg Prod.fst (Except.ok.inj hdiv)
  exact absurd hvalue (by decide)

end Alu

end RiscvSim

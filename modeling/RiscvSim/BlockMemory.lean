import Mathlib
import RiscvSim.Memory

/-! The block structure of the memory and the flat bytes it stands for. -/

namespace RiscvSim

/-- `block_size_`, an `unsigned int` of at least one byte. -/
abbrev BlockSize := { n : BitVec 32 // 0 < n.toNat }

/-- `MemoryBlock::data`. -/
abbrev MemoryBlock (blockSize : BlockSize) := Vector Byte blockSize.1.toNat

structure BlockMemory (blockSize : BlockSize) where
  size : Word
  blocks : Std.HashMap Word (MemoryBlock blockSize)

namespace BlockMemory

/-- A member function: its exceptions leave behind what it has written so far. -/
abbrev Action (blockSize : BlockSize) (α : Type) := EStateM Fault (BlockMemory blockSize) α

variable {blockSize : BlockSize}

def getBlockIndex (blockSize : BlockSize) (address : Word) : Word :=
  address / blockSize.1.setWidth 64

def getBlockOffset (blockSize : BlockSize) (address : Word) : Word :=
  address % blockSize.1.setWidth 64

theorem getBlockOffset_lt (blockSize : BlockSize) (address : Word) :
    (getBlockOffset blockSize address).toNat < blockSize.1.toNat := by
  have h := blockSize.1.isLt
  have hsize : (blockSize.1.setWidth 64).toNat = blockSize.1.toNat := by
    rw [BitVec.toNat_setWidth]
    omega
  rw [getBlockOffset, BitVec.toNat_umod, hsize]
  exact Nat.mod_lt _ blockSize.2

def isBlockPresent (m : BlockMemory blockSize) (blockIndex : Word) : Bool :=
  m.blocks.contains blockIndex

def ensureBlockExists (m : BlockMemory blockSize) (blockIndex : Word) : BlockMemory blockSize :=
  { m with blocks := m.blocks.insertIfNew blockIndex (Vector.replicate _ 0) }

/-- `blocks_[block_index]`, once `ensureBlockExists` has created the block. -/
def blockAt (m : BlockMemory blockSize) (blockIndex : Word) : MemoryBlock blockSize :=
  m.blocks.getD blockIndex (Vector.replicate _ 0)

def read (address : Word) : Action blockSize Byte := do
  let m ← get
  if address ≥ m.size then throw .memoryOutOfRange
  let blockIndex := getBlockIndex blockSize address
  if !m.isBlockPresent blockIndex then return 0
  let m := m.ensureBlockExists blockIndex
  set m
  have hoffset := getBlockOffset_lt blockSize address
  return (m.blockAt blockIndex)[(getBlockOffset blockSize address).toNat]

def write (address : Word) (value : Byte) : Action blockSize Unit := do
  let m ← get
  if address ≥ m.size then throw .memoryOutOfRange
  let blockIndex := getBlockIndex blockSize address
  let m := m.ensureBlockExists blockIndex
  let block := (m.blockAt blockIndex).set _ value (getBlockOffset_lt blockSize address)
  set { m with blocks := m.blocks.insert blockIndex block }

/-- `ReadGeneric<T>` for a `w`-bit `T`, after the first `n` bytes. -/
def readGeneric (address : Word) (w : Nat) : Nat → Action blockSize (BitVec w)
  | 0 => return 0
  | n + 1 => do
    let value ← readGeneric address w n
    let b ← read (address + BitVec.ofNat 64 n)
    return value ||| b.setWidth w <<< (8 * n)

/-- `WriteGeneric<T>` for a `w`-bit `T`, after the first `n` bytes. -/
def writeGeneric {w : Nat} (address : Word) (value : BitVec w) : Nat → Action blockSize Unit
  | 0 => return
  | n + 1 => do
    writeGeneric address value n
    write (address + BitVec.ofNat 64 n) ((value >>> (8 * n)).setWidth 8)

/-- An access that first compares the address with `memory_size_ - last`. -/
def guarded {α : Type} (address : Word) (last : Nat) (access : Action blockSize α) :
    Action blockSize α := do
  if address ≥ (← get).size - BitVec.ofNat 64 last then throw .memoryOutOfRange
  access

def readByte (address : Word) : Action blockSize (BitVec 8) := guarded address 0 (read address)

def readHalfWord (address : Word) : Action blockSize (BitVec 16) :=
  guarded address 1 (readGeneric address 16 2)

def readWord (address : Word) : Action blockSize (BitVec 32) :=
  guarded address 3 (readGeneric address 32 4)

def readDoubleWord (address : Word) : Action blockSize (BitVec 64) :=
  guarded address 7 (readGeneric address 64 8)

def writeByte (address : Word) (value : BitVec 8) : Action blockSize Unit :=
  guarded address 0 (write address value)

def writeHalfWord (address : Word) (value : BitVec 16) : Action blockSize Unit :=
  guarded address 1 (writeGeneric address value 2)

def writeWord (address : Word) (value : BitVec 32) : Action blockSize Unit :=
  guarded address 3 (writeGeneric address value 4)

def writeDoubleWord (address : Word) (value : BitVec 64) : Action blockSize Unit :=
  guarded address 7 (writeGeneric address value 8)

def reset : Action blockSize Unit := modify fun m => { m with blocks := ∅ }

def initial (blockSize : BlockSize) (size : Word) : BlockMemory blockSize := ⟨size, ∅⟩

/-- The flat memory that the blocks stand for. -/
def toMemory (m : BlockMemory blockSize) : Memory where
  size := m.size
  byte address :=
    have hoffset := getBlockOffset_lt blockSize address
    (m.blockAt (getBlockIndex blockSize address))[(getBlockOffset blockSize address).toNat]

@[simp] theorem toMemory_size (m : BlockMemory blockSize) : m.toMemory.size = m.size := rfl

/-- The index and the offset of an address determine it. -/
theorem address_injective {a b : Word} (hindex : getBlockIndex blockSize a = getBlockIndex blockSize b)
    (hoffset : getBlockOffset blockSize a = getBlockOffset blockSize b) : a = b := by
  have hi := congrArg BitVec.toNat hindex
  have ho := congrArg BitVec.toNat hoffset
  simp only [getBlockIndex, getBlockOffset, BitVec.toNat_udiv, BitVec.toNat_umod] at hi ho
  apply BitVec.eq_of_toNat_eq
  rw [← Nat.div_add_mod a.toNat, hi, ho, Nat.div_add_mod]

/-- A block just created holds the zeros that its addresses read as before. -/
theorem ensureBlockExists_blockAt (m : BlockMemory blockSize) (i j : Word) :
    (m.ensureBlockExists i).blockAt j = m.blockAt j := by
  simp only [blockAt, ensureBlockExists, Std.HashMap.getD_eq_getD_getElem?,
    Std.HashMap.getElem?_insertIfNew]
  split
  case isTrue h =>
    obtain ⟨hij, hnew⟩ := h
    rw [beq_iff_eq] at hij
    rw [← hij, Std.HashMap.getElem?_eq_none hnew]
    rfl
  case isFalse => rfl

theorem insert_blockAt (m : BlockMemory blockSize) (i j : Word) (block : MemoryBlock blockSize) :
    (BlockMemory.mk m.size (m.blocks.insert i block)).blockAt j =
      if i = j then block else m.blockAt j := by
  simp only [blockAt, Std.HashMap.getD_insert, beq_iff_eq]

theorem toMemory_ensureBlockExists (m : BlockMemory blockSize) (i : Word) :
    (m.ensureBlockExists i).toMemory = m.toMemory := by
  refine Memory.ext rfl (funext fun a => ?_)
  simp only [toMemory, ensureBlockExists_blockAt]

theorem toMemory_insert (m : BlockMemory blockSize) (a : Word) (value : Byte) :
    (BlockMemory.mk m.size (m.blocks.insert (getBlockIndex blockSize a)
      ((m.blockAt (getBlockIndex blockSize a)).set _ value (getBlockOffset_lt blockSize a)))).toMemory =
      { m.toMemory with byte := Function.update m.toMemory.byte a value } := by
  refine Memory.ext rfl (funext fun b => ?_)
  simp only [toMemory, insert_blockAt, Function.update_apply]
  by_cases hindex : getBlockIndex blockSize a = getBlockIndex blockSize b
  · simp only [if_pos hindex]
    by_cases hab : b = a
    · subst hab
      simp
    · have hoffset : (getBlockOffset blockSize a).toNat ≠ (getBlockOffset blockSize b).toNat :=
        fun h => hab (address_injective hindex (BitVec.eq_of_toNat_eq h)).symm
      rw [if_neg hab, Vector.getElem_set_ne _ _ hoffset]
      simp only [hindex]
  · have hab : b ≠ a := fun h => hindex (h ▸ rfl)
    simp only [if_neg hindex, if_neg hab]

section

variable {ε σ α β : Type} {x : EStateM ε σ α} {f : α → EStateM ε σ β} {s s' : σ}

theorem bind_run {a : α} (h : x s = .ok a s') : (x >>= f) s = f a s' := by
  change EStateM.bind x f s = _
  rw [EStateM.bind, h]

theorem bind_throw {e : ε} (h : x s = .error e s') : (x >>= f) s = .error e s' := by
  change EStateM.bind x f s = _
  rw [EStateM.bind, h]

end

theorem read_run {m : BlockMemory blockSize} {a : Word} (ha : a < m.size) :
    ∃ m', read a m = .ok (m.toMemory.byte a) m' ∧ m'.toMemory = m.toMemory := by
  have hge : ¬ a ≥ m.size := BitVec.not_le.mpr ha
  have hget : (get : Action blockSize (BlockMemory blockSize)) m = .ok m m := rfl
  rw [read, bind_run hget, if_neg hge]
  dsimp only
  cases h : m.isBlockPresent (getBlockIndex blockSize a) with
  | false =>
    refine ⟨m, ?_, rfl⟩
    have hzero : m.toMemory.byte a = 0 := by
      have hmem : getBlockIndex blockSize a ∉ m.blocks := by
        rw [← Std.HashMap.contains_iff_mem]
        exact Bool.eq_false_iff.mp h
      simp [toMemory, blockAt, Std.HashMap.getD_eq_getD_getElem?, Std.HashMap.getElem?_eq_none hmem]
    rw [hzero]
    rfl
  | true =>
    refine ⟨m.ensureBlockExists (getBlockIndex blockSize a), ?_, m.toMemory_ensureBlockExists _⟩
    rw [← m.toMemory_ensureBlockExists (getBlockIndex blockSize a)]
    rfl

theorem write_run {m : BlockMemory blockSize} {a : Word} {value : Byte} (ha : a < m.size) :
    ∃ m', write a value m = .ok () m' ∧
      m'.toMemory = { m.toMemory with byte := Function.update m.toMemory.byte a value } := by
  have hge : ¬ a ≥ m.size := BitVec.not_le.mpr ha
  have hget : (get : Action blockSize (BlockMemory blockSize)) m = .ok m m := rfl
  rw [write, bind_run hget, if_neg hge]
  refine ⟨_, rfl, ?_⟩
  rw [toMemory_insert, toMemory_ensureBlockExists]

theorem readGeneric_run {m : BlockMemory blockSize} {a : Word} {w n : Nat}
    (hin : ∀ i < n, a + BitVec.ofNat 64 i < m.size) :
    ∃ m', readGeneric a w n m = .ok (m.toMemory.load a w n) m' ∧ m'.toMemory = m.toMemory := by
  induction n with
  | zero => exact ⟨m, rfl, rfl⟩
  | succ n ih =>
    obtain ⟨m₁, hfront, hsame₁⟩ := ih fun i hi => hin i (Nat.lt_succ_of_lt hi)
    have hlast : a + BitVec.ofNat 64 n < m₁.size := by
      have hsize : m₁.size = m.size := congrArg Memory.size hsame₁
      rw [hsize]
      exact hin n (Nat.lt_succ_self n)
    obtain ⟨m₂, hread, hsame₂⟩ := read_run hlast
    refine ⟨m₂, ?_, hsame₂.trans hsame₁⟩
    rw [readGeneric, bind_run hfront, bind_run hread, hsame₁]
    rfl

theorem writeGeneric_run {m : BlockMemory blockSize} {a : Word} {w n : Nat} (hn : n < 2 ^ 64)
    (hin : ∀ i < n, a + BitVec.ofNat 64 i < m.size) (value : BitVec w) :
    ∃ m', writeGeneric a value n m = .ok () m' ∧ m'.toMemory = m.toMemory.store a value n := by
  induction n with
  | zero => exact ⟨m, rfl, (Memory.store_zero _ _ _).symm⟩
  | succ n ih =>
    obtain ⟨m₁, hfront, hstore₁⟩ := ih (by omega) fun i hi => hin i (Nat.lt_succ_of_lt hi)
    have hlast : a + BitVec.ofNat 64 n < m₁.size := by
      have hsize : m₁.size = m.size := congrArg Memory.size hstore₁
      rw [hsize]
      exact hin n (Nat.lt_succ_self n)
    obtain ⟨m₂, hwrite, hstore₂⟩ := write_run hlast
    refine ⟨m₂, ?_, ?_⟩
    · rw [writeGeneric, bind_run hfront, hwrite]
    · rw [hstore₂, hstore₁, Memory.store_succ (by omega)]

/-- The comparison that guards an access of `n + 1` bytes fails exactly inside the memory. -/
theorem inRange_iff_guard {m : Memory} {a : Word} {n : Nat} (hsize : n ≤ m.size.toNat) :
    m.InRange a (n + 1) ↔ ¬ a ≥ m.size - BitVec.ofNat 64 n := by
  have hs := m.size.isLt
  have hlast : (m.size - BitVec.ofNat 64 n).toNat = m.size.toNat - n := by
    rw [BitVec.toNat_sub, BitVec.toNat_ofNat]
    omega
  rw [Memory.InRange, ge_iff_le, BitVec.le_def, hlast]
  omega

section

variable {α : Type} {m : BlockMemory blockSize} {a : Word} {n : Nat} {access : Action blockSize α}

theorem guarded_run (hsize : n ≤ m.size.toNat) (h : m.toMemory.InRange a (n + 1)) :
    guarded a n access m = access m := by
  have hget : (get : Action blockSize (BlockMemory blockSize)) m = .ok m m := rfl
  have hlt : ¬ a ≥ m.size - BitVec.ofNat 64 n := (inRange_iff_guard hsize).mp h
  rw [guarded, bind_run hget, if_neg hlt]

theorem guarded_throw (hsize : n ≤ m.size.toNat)
    (h : ¬ m.toMemory.InRange a (n + 1)) : guarded a n access m = .error .memoryOutOfRange m := by
  have hget : (get : Action blockSize (BlockMemory blockSize)) m = .ok m m := rfl
  have hge : a ≥ m.size - BitVec.ofNat 64 n := by
    by_contra hlt
    exact h ((inRange_iff_guard hsize).mpr hlt)
  rw [guarded, bind_run hget, if_pos hge]
  rfl

end

/-! Sequences of accesses. -/

inductive Width where
  | byte | halfWord | word | doubleWord

def Width.bytes : Width → Nat
  | .byte => 1
  | .halfWord => 2
  | .word => 4
  | .doubleWord => 8

inductive Op where
  | read (t : Width) (address : Word)
  | write (t : Width) (address : Word) (value : BitVec (8 * t.bytes))
  | reset

def readAs : (t : Width) → Word → Action blockSize (BitVec (8 * t.bytes))
  | .byte => readByte
  | .halfWord => readHalfWord
  | .word => readWord
  | .doubleWord => readDoubleWord

def writeAs : (t : Width) → Word → BitVec (8 * t.bytes) → Action blockSize Unit
  | .byte => writeByte
  | .halfWord => writeHalfWord
  | .word => writeWord
  | .doubleWord => writeDoubleWord

def Op.exec : Op → Action blockSize Unit
  | .read t address => do let _ ← readAs t address
  | .write t address value => writeAs t address value
  | .reset => BlockMemory.reset

/-- The memory after an operation; one that throws leaves what it had written. -/
def step (m : BlockMemory blockSize) (op : Op) : BlockMemory blockSize :=
  match op.exec m with
  | .ok _ m' | .error _ m' => m'

def run (m : BlockMemory blockSize) (ops : List Op) : BlockMemory blockSize := ops.foldl step m

/-- The byte last written to an address, given the operations from the last to the first. -/
def lastWritten (size address : Word) : List Op → Byte
  | [] => 0
  | .reset :: _ => 0
  | .read _ _ :: ops => lastWritten size address ops
  | .write t base value :: ops =>
    if base.toNat + t.bytes ≤ size.toNat ∧ (address - base).toNat < t.bytes then
      (value >>> (8 * (address - base).toNat)).setWidth 8
    else lastWritten size address ops

/-- The flat byte map after the operations. -/
def flat (size : Word) (ops : List Op) : Memory :=
  ⟨size, fun address => lastWritten size address ops.reverse⟩

variable {m : BlockMemory blockSize} {t : Width} {a : Word}

theorem readAs_run (hsize : 8 ≤ m.size.toNat) (h : m.toMemory.InRange a t.bytes) :
    ∃ m', readAs t a m = .ok (m.toMemory.load a _ t.bytes) m' ∧ m'.toMemory = m.toMemory := by
  have hin := (Memory.inRange_iff (by cases t <;> decide)).mp h
  cases t with
  | byte =>
    have hlt : a < m.size := by simpa using hin 0 (by decide)
    have hload : m.toMemory.load a (8 * Width.byte.bytes) Width.byte.bytes = m.toMemory.byte a :=
      m.toMemory.load_one a
    obtain ⟨m', hread, hsame⟩ := read_run hlt
    refine ⟨m', ?_, hsame⟩
    rw [hload]
    exact (guarded_run (n := 0) (Nat.le_trans (by decide) hsize) h).trans hread
  | halfWord =>
    obtain ⟨m', hread, hsame⟩ := readGeneric_run (m := m) (w := 16) hin
    exact ⟨m', (guarded_run (n := 1) (Nat.le_trans (by decide) hsize) h).trans hread, hsame⟩
  | word =>
    obtain ⟨m', hread, hsame⟩ := readGeneric_run (m := m) (w := 32) hin
    exact ⟨m', (guarded_run (n := 3) (Nat.le_trans (by decide) hsize) h).trans hread, hsame⟩
  | doubleWord =>
    obtain ⟨m', hread, hsame⟩ := readGeneric_run (m := m) (w := 64) hin
    exact ⟨m', (guarded_run (n := 7) (Nat.le_trans (by decide) hsize) h).trans hread, hsame⟩

theorem readAs_throw (hsize : 8 ≤ m.size.toNat) (h : ¬ m.toMemory.InRange a t.bytes) :
    readAs t a m = .error .memoryOutOfRange m := by
  cases t with
  | byte => exact guarded_throw (n := 0) (Nat.le_trans (by decide) hsize) h
  | halfWord => exact guarded_throw (n := 1) (Nat.le_trans (by decide) hsize) h
  | word => exact guarded_throw (n := 3) (Nat.le_trans (by decide) hsize) h
  | doubleWord => exact guarded_throw (n := 7) (Nat.le_trans (by decide) hsize) h

theorem writeAs_run (hsize : t.bytes ≤ m.size.toNat + 1) (h : m.toMemory.InRange a t.bytes)
    (value : BitVec (8 * t.bytes)) :
    ∃ m', writeAs t a value m = .ok () m' ∧ m'.toMemory = m.toMemory.store a value t.bytes := by
  have hin := (Memory.inRange_iff (by cases t <;> decide)).mp h
  cases t with
  | byte =>
    have hlt : a < m.size := by simpa using hin 0 (by decide)
    obtain ⟨m', hwrite, hstore⟩ := write_run hlt
    refine ⟨m', (guarded_run (n := 0) (Nat.zero_le _) h).trans hwrite, ?_⟩
    rw [hstore]
    exact Memory.store_one.symm
  | halfWord =>
    obtain ⟨m', hwrite, hstore⟩ := writeGeneric_run (m := m) (by decide) hin _
    exact ⟨m', (guarded_run (n := 1) (Nat.le_of_succ_le_succ hsize) h).trans hwrite, hstore⟩
  | word =>
    obtain ⟨m', hwrite, hstore⟩ := writeGeneric_run (m := m) (by decide) hin _
    exact ⟨m', (guarded_run (n := 3) (Nat.le_of_succ_le_succ hsize) h).trans hwrite, hstore⟩
  | doubleWord =>
    obtain ⟨m', hwrite, hstore⟩ := writeGeneric_run (m := m) (by decide) hin _
    exact ⟨m', (guarded_run (n := 7) (Nat.le_of_succ_le_succ hsize) h).trans hwrite, hstore⟩

theorem writeAs_throw (hsize : t.bytes ≤ m.size.toNat + 1) (h : ¬ m.toMemory.InRange a t.bytes)
    (value : BitVec (8 * t.bytes)) : writeAs t a value m = .error .memoryOutOfRange m := by
  cases t with
  | byte => exact guarded_throw (n := 0) (Nat.zero_le _) h
  | halfWord => exact guarded_throw (n := 1) (Nat.le_of_succ_le_succ hsize) h
  | word => exact guarded_throw (n := 3) (Nat.le_of_succ_le_succ hsize) h
  | doubleWord => exact guarded_throw (n := 7) (Nat.le_of_succ_le_succ hsize) h

theorem step_write (hsize : 8 ≤ m.size.toNat) (value : BitVec (8 * t.bytes)) :
    (m.step (.write t a value)).toMemory =
      if m.toMemory.InRange a t.bytes then m.toMemory.store a value t.bytes else m.toMemory := by
  have hexec : (Op.write t a value).exec m = writeAs t a value m := rfl
  have hsize : t.bytes ≤ m.size.toNat + 1 := by cases t <;> simp only [Width.bytes] <;> omega
  by_cases h : m.toMemory.InRange a t.bytes
  · obtain ⟨m', hwrite, hstore⟩ := writeAs_run hsize h value
    rw [step, hexec, hwrite, if_pos h]
    exact hstore
  · rw [step, hexec, writeAs_throw hsize h value, if_neg h]

theorem step_read (hsize : 8 ≤ m.size.toNat) : (m.step (.read t a)).toMemory = m.toMemory := by
  by_cases h : m.toMemory.InRange a t.bytes
  · obtain ⟨m', hread, hsame⟩ := readAs_run hsize h
    have hexec : (Op.read t a).exec m = .ok () m' := bind_run hread
    rw [step, hexec]
    exact hsame
  · have hexec : (Op.read t a).exec m = .error .memoryOutOfRange m := by
      change EStateM.bind (readAs t a) _ m = _
      rw [EStateM.bind, readAs_throw hsize h]
    rw [step, hexec]

theorem step_reset : (m.step .reset).toMemory = m.toMemory.reset := by
  refine Memory.ext rfl (funext fun x => ?_)
  simp [step, Op.exec, reset, toMemory, blockAt, Memory.reset, modify, modifyGet,
    MonadStateOf.modifyGet, EStateM.modifyGet]

/-- One more operation on the blocks is one more operation in the history of the bytes. -/
theorem step_flat {size : Word} {ops : List Op} (hsize : 8 ≤ size.toNat)
    (h : m.toMemory = flat size ops) (op : Op) : (m.step op).toMemory = flat size (ops ++ [op]) := by
  have hm : m.size = size := congrArg Memory.size h
  rw [← hm] at hsize
  have hlast : flat size (ops ++ [op]) =
      ⟨size, fun x => lastWritten size x (op :: ops.reverse)⟩ := by
    rw [flat, List.reverse_append]
    rfl
  rw [hlast]
  cases op with
  | read t a => exact (step_read hsize).trans h
  | reset =>
    rw [step_reset, h]
    rfl
  | write t a value =>
    rw [step_write hsize, h]
    by_cases hin : (flat size ops).InRange a t.bytes
    · refine (if_pos hin).trans (Memory.ext rfl (funext fun x => ?_))
      have hrange : a.toNat + t.bytes ≤ size.toNat := hin
      by_cases hx : (x - a).toNat < t.bytes
      · exact (if_pos hx).trans (if_pos ⟨hrange, hx⟩).symm
      · exact (if_neg hx).trans (if_neg fun h => hx h.2).symm
    · refine (if_neg hin).trans (Memory.ext rfl (funext fun x => ?_))
      exact (if_neg fun h => hin h.1).symm

theorem initial_flat (size : Word) : (initial blockSize size).toMemory = flat size [] := by
  refine Memory.ext rfl (funext fun x => ?_)
  simp [initial, toMemory, blockAt, flat, lastWritten]

variable (blockSize) in
theorem run_flat {size : Word} (hsize : 8 ≤ size.toNat) (ops : List Op) :
    ((initial blockSize size).run ops).toMemory = flat size ops := by
  induction ops using List.reverseRecOn with
  | nil => exact initial_flat size
  | append_singleton ops op ih =>
    rw [run, List.foldl_append]
    exact step_flat hsize ih op

/-- What an access returns or throws. -/
def outcome {α : Type} (x : Action blockSize α) (m : BlockMemory blockSize) : Except Fault α :=
  match x m with
  | .ok a _ => .ok a
  | .error e _ => .error e

/-- After any operations on blocks of any size, a read in range returns the little-endian
value of the bytes last written at its addresses and changes none, and one out of range
throws. The size of the blocks cannot be observed. -/
theorem run_refines_flat {size : Word} (hsize : 8 ≤ size.toNat) (ops : List Op) :
    (∀ blockSize, ((initial blockSize size).run ops).toMemory = flat size ops) ∧
    (∀ blockSize t address, (flat size ops).InRange address t.bytes →
      ∃ m', readAs t address ((initial blockSize size).run ops) =
          .ok ((flat size ops).load address _ t.bytes) m' ∧ m'.toMemory = flat size ops) ∧
    (∀ blockSize t address, ¬ (flat size ops).InRange address t.bytes →
      readAs t address ((initial blockSize size).run ops) =
        .error .memoryOutOfRange ((initial blockSize size).run ops)) ∧
    ∀ blockSize blockSize' t address,
      outcome (readAs t address) ((initial blockSize size).run ops) =
        outcome (readAs t address) ((initial blockSize' size).run ops) := by
  have hin : ∀ blockSize t address, (flat size ops).InRange address t.bytes →
      ∃ m', readAs t address ((initial blockSize size).run ops) =
          .ok ((flat size ops).load address _ t.bytes) m' ∧ m'.toMemory = flat size ops := by
    intro blockSize t address h
    have hflat := run_flat blockSize hsize ops
    have hm : ((initial blockSize size).run ops).size = size := congrArg Memory.size hflat
    rw [← hflat] at h ⊢
    exact readAs_run (by rw [hm]; exact hsize) h
  have hout : ∀ blockSize t address, ¬ (flat size ops).InRange address t.bytes →
      readAs t address ((initial blockSize size).run ops) =
        .error .memoryOutOfRange ((initial blockSize size).run ops) := by
    intro blockSize t address h
    have hflat := run_flat blockSize hsize ops
    have hm : ((initial blockSize size).run ops).size = size := congrArg Memory.size hflat
    rw [← hflat] at h
    exact readAs_throw (by rw [hm]; exact hsize) h
  refine ⟨fun _ => run_flat _ hsize ops, hin, hout, fun blockSize blockSize' t address => ?_⟩
  by_cases h : (flat size ops).InRange address t.bytes
  · obtain ⟨m, hm, -⟩ := hin blockSize t address h
    obtain ⟨m', hm', -⟩ := hin blockSize' t address h
    rw [outcome, outcome, hm, hm']
  · rw [outcome, outcome, hout blockSize t address h, hout blockSize' t address h]

/-- A doubleword and a halfword over it, read across blocks of three bytes. -/
theorem run_refines_flat_straddling :
    ∃ m', readAs .word 1 ((initial ⟨3, by decide⟩ 16).run
      [.write .doubleWord 0 0x1122334455667788#64, .read .byte 9, .write .halfWord 2 0xaabb#16]) =
        .ok 0x44aabb77#32 m' := by
  have hsize : 8 ≤ (16 : Word).toNat := by decide
  obtain ⟨m', h, -⟩ := (run_refines_flat hsize
    [.write .doubleWord 0 0x1122334455667788#64, .read .byte 9, .write .halfWord 2 0xaabb#16]).2.1
    ⟨3, by decide⟩ .word 1 (by decide)
  have hvalue : (flat 16 [.write .doubleWord 0 0x1122334455667788#64, .read .byte 9,
      .write .halfWord 2 0xaabb#16]).load 1 _ Width.word.bytes = 0x44aabb77#32 := by decide
  exact ⟨m', hvalue ▸ h⟩

end BlockMemory

end RiscvSim

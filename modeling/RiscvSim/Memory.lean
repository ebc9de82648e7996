import RiscvSim.Word
import RiscvSim.Loop
import Mathlib.Tactic.NormNum

/-! The memory as the virtual machine sees it: a size and a byte at every address.
The simulator allocates the bytes in blocks on their first write; a block that
does not exist reads as zero, so the blocks are not visible here. -/

namespace RiscvSim

@[ext] structure Memory where
  size : Word
  byte : Word → Byte

namespace Memory

def reset (m : Memory) : Memory := { m with byte := fun _ => 0 }

def read (m : Memory) (address : Word) : Except Fault Byte :=
  if address < m.size then .ok (m.byte address) else .error .memoryOutOfRange

def write (m : Memory) (address : Word) (value : Byte) : Except Fault Memory :=
  if address < m.size then .ok { m with byte := Function.update m.byte address value }
  else .error .memoryOutOfRange

/-- `ReadGeneric<T>` for a `w`-bit `T`, after the first `n` bytes. -/
def readGeneric (m : Memory) (address : Word) (w : Nat) : Nat → Except Fault (BitVec w)
  | 0 => .ok 0
  | n + 1 => do
    let value ← m.readGeneric address w n
    let b ← m.read (address + BitVec.ofNat 64 n)
    return value ||| b.setWidth w <<< (8 * n)

/-- `WriteGeneric<T>` for a `w`-bit `T`, after the first `n` bytes. -/
def writeGeneric {w : Nat} (m : Memory) (address : Word) (value : BitVec w) :
    Nat → Except Fault Memory
  | 0 => .ok m
  | n + 1 => do
    let m ← m.writeGeneric address value n
    m.write (address + BitVec.ofNat 64 n) ((value >>> (8 * n)).setWidth 8)

def readByte (m : Memory) (address : Word) : Except Fault Byte :=
  if address ≥ m.size then .error .memoryOutOfRange else m.read address

def readHalfWord (m : Memory) (address : Word) : Except Fault (BitVec 16) :=
  if address ≥ m.size - 1 then .error .memoryOutOfRange else m.readGeneric address 16 2

def readWord (m : Memory) (address : Word) : Except Fault (BitVec 32) :=
  if address ≥ m.size - 3 then .error .memoryOutOfRange else m.readGeneric address 32 4

def readDoubleWord (m : Memory) (address : Word) : Except Fault (BitVec 64) :=
  if address ≥ m.size - 7 then .error .memoryOutOfRange else m.readGeneric address 64 8

def writeByte (m : Memory) (address : Word) (value : Byte) : Except Fault Memory :=
  if address ≥ m.size then .error .memoryOutOfRange else m.write address value

def writeHalfWord (m : Memory) (address : Word) (value : BitVec 16) : Except Fault Memory :=
  if address ≥ m.size - 1 then .error .memoryOutOfRange else m.writeGeneric address value 2

def writeWord (m : Memory) (address : Word) (value : BitVec 32) : Except Fault Memory :=
  if address ≥ m.size - 3 then .error .memoryOutOfRange else m.writeGeneric address value 4

def writeDoubleWord (m : Memory) (address : Word) (value : BitVec 64) : Except Fault Memory :=
  if address ≥ m.size - 7 then .error .memoryOutOfRange else m.writeGeneric address value 8

/-- The bytes at `address`, `address + 1`, ..., each read by `ReadByte`. -/
def readBytes (m : Memory) (address : Word) : Nat → Except Fault (List Byte)
  | 0 => .ok []
  | n + 1 => do
    let bytes ← m.readBytes address n
    let b ← m.readByte (address + BitVec.ofNat 64 n)
    return bytes ++ [b]

/-- `WriteByte(address + i, bytes[i])` for each `i`, `i` starting at `n`. -/
def writeBytes (m : Memory) (address : Word) (n : Nat) : List Byte → Except Fault Memory
  | [] => .ok m
  | b :: bytes => do
    let m ← m.writeByte (address + BitVec.ofNat 64 n) b
    m.writeBytes address (n + 1) bytes

/-- An access of `n` bytes at `address` stays inside the memory. -/
def InRange (m : Memory) (address : Word) (n : Nat) : Prop :=
  address.toNat + n ≤ m.size.toNat

instance (m : Memory) (address : Word) (n : Nat) : Decidable (m.InRange address n) :=
  inferInstanceAs (Decidable (_ ≤ _))

/-- The little-endian value of the first `n` bytes at `address`. -/
def load (m : Memory) (address : Word) (w : Nat) : Nat → BitVec w
  | 0 => 0
  | n + 1 => m.load address w n |||
      (m.byte (address + BitVec.ofNat 64 n)).setWidth w <<< (8 * n)

/-- The memory after the first `n` bytes of `value` have been stored at `address`. -/
def store {w : Nat} (m : Memory) (address : Word) (value : BitVec w) (n : Nat) : Memory :=
  { m with byte := fun x =>
      if (x - address).toNat < n then (value >>> (8 * (x - address).toNat)).setWidth 8
      else m.byte x }

@[simp] theorem store_size {w : Nat} (m : Memory) (address : Word) (value : BitVec w) (n : Nat) :
    (m.store address value n).size = m.size := rfl

theorem store_zero {w : Nat} (m : Memory) (address : Word) (value : BitVec w) :
    m.store address value 0 = m := by
  simp [store]

theorem add_ofNat_toNat {address : Word} {n : Nat} (h : address.toNat + n < 2 ^ 64) :
    (address + BitVec.ofNat 64 n).toNat = address.toNat + n := by
  rw [BitVec.toNat_add, BitVec.toNat_ofNat]
  omega

theorem inRange_iff {m : Memory} {address : Word} {n : Nat} (hn : 0 < n) :
    m.InRange address n ↔ ∀ i < n, address + BitVec.ofNat 64 i < m.size := by
  have ha := address.isLt
  have hs := m.size.isLt
  unfold InRange
  simp only [BitVec.lt_def]
  constructor
  · intro h i hi
    rw [add_ofNat_toNat (by omega)]
    omega
  · intro h
    by_contra hout
    -- the first byte outside is the one at `size`, or the very first
    rcases Nat.lt_or_ge address.toNat m.size.toNat with hlt | hge
    · have := h (m.size.toNat - address.toNat) (by omega)
      rw [add_ofNat_toNat (by omega)] at this
      omega
    · have := h 0 hn
      rw [add_ofNat_toNat (by omega)] at this
      omega

theorem read_eq_ok_iff {m : Memory} {address : Word} {b : Byte} :
    m.read address = .ok b ↔ address < m.size ∧ m.byte address = b := by
  unfold read
  split <;> simp_all

theorem write_eq_ok_iff {m m' : Memory} {address : Word} {b : Byte} :
    m.write address b = .ok m' ↔
      address < m.size ∧ { m with byte := Function.update m.byte address b } = m' := by
  unfold write
  split <;> simp_all

theorem readGeneric_eq_ok_iff {m : Memory} {address : Word} {w n : Nat} {v : BitVec w} :
    m.readGeneric address w n = .ok v ↔
      (∀ i < n, address + BitVec.ofNat 64 i < m.size) ∧ m.load address w n = v := by
  induction n generalizing v with
  | zero => simp [readGeneric, load]
  | succ n ih =>
    constructor
    · intro h
      obtain ⟨u, hu, h⟩ := Loop.bind_eq_ok h
      obtain ⟨b, hb, h⟩ := Loop.bind_eq_ok h
      obtain ⟨hin, rfl⟩ := ih.mp hu
      obtain ⟨hlt, rfl⟩ := read_eq_ok_iff.mp hb
      refine ⟨fun i hi => ?_, Except.ok.inj h⟩
      rcases Nat.lt_succ_iff_lt_or_eq.mp hi with h' | rfl
      · exact hin i h'
      · exact hlt
    · rintro ⟨hin, rfl⟩
      have hu := ih.mpr ⟨fun i hi => hin i (Nat.lt_succ_of_lt hi), rfl⟩
      have hb := read_eq_ok_iff.mpr ⟨hin n (Nat.lt_succ_self n), rfl⟩
      simp only [readGeneric, hu, hb, Loop.bind_ok]
      rfl

theorem store_succ {w : Nat} {m : Memory} {address : Word} {value : BitVec w} {n : Nat}
    (hn : n < 2 ^ 64) :
    { m.store address value n with
      byte := Function.update (m.store address value n).byte (address + BitVec.ofNat 64 n)
        ((value >>> (8 * n)).setWidth 8) } = m.store address value (n + 1) := by
  refine Memory.ext rfl (funext fun x => ?_)
  simp only [store, Function.update_apply]
  by_cases hx : x = address + BitVec.ofNat 64 n
  · have hk : (x - address).toNat = n := by
      rw [hx, BitVec.add_comm, BitVec.add_sub_cancel, BitVec.toNat_ofNat, Nat.mod_eq_of_lt hn]
    rw [if_pos hx, if_pos (by omega), hk]
  · have hk : (x - address).toNat ≠ n := by
      intro hk
      apply hx
      rw [← hk, BitVec.ofNat_toNat, BitVec.setWidth_eq, BitVec.add_comm, BitVec.sub_add_cancel]
    rw [if_neg hx]
    by_cases hlt : (x - address).toNat < n
    · rw [if_pos hlt, if_pos (by omega)]
    · rw [if_neg hlt, if_neg (by omega)]

theorem load_one (m : Memory) (address : Word) : m.load address 8 1 = m.byte address := by
  simp [load]

theorem store_one {m : Memory} {address : Word} {value : Byte} :
    m.store address value 1 = { m with byte := Function.update m.byte address value } := by
  rw [← store_succ (n := 0) (by decide), store_zero]
  simp

theorem writeGeneric_eq_ok_iff {w : Nat} {m m' : Memory} {address : Word} {value : BitVec w}
    {n : Nat} (hn : n < 2 ^ 64) :
    m.writeGeneric address value n = .ok m' ↔
      (∀ i < n, address + BitVec.ofNat 64 i < m.size) ∧ m.store address value n = m' := by
  induction n generalizing m' with
  | zero => simp [writeGeneric, store_zero]
  | succ n ih =>
    constructor
    · intro h
      obtain ⟨u, hu, h⟩ := Loop.bind_eq_ok h
      obtain ⟨hin, rfl⟩ := (ih (by omega)).mp hu
      obtain ⟨hlt, rfl⟩ := write_eq_ok_iff.mp h
      refine ⟨fun i hi => ?_, (store_succ (by omega)).symm⟩
      rcases Nat.lt_succ_iff_lt_or_eq.mp hi with h' | rfl
      · exact hin i h'
      · exact hlt
    · rintro ⟨hin, rfl⟩
      have hu := (ih (by omega)).mpr ⟨fun i hi => hin i (Nat.lt_succ_of_lt hi), rfl⟩
      simp only [writeGeneric, hu, Loop.bind_ok]
      exact write_eq_ok_iff.mpr ⟨hin n (Nat.lt_succ_self n), store_succ (by omega)⟩

/-- The guard of a typed access passes whenever the access stays inside the memory. -/
theorem not_ge_of_inRange {m : Memory} {address : Word} {n : Nat} (h : m.InRange address (n + 1)) :
    ¬ address ≥ m.size - BitVec.ofNat 64 n := by
  have hs := m.size.isLt
  unfold InRange at h
  rw [ge_iff_le, BitVec.le_def, BitVec.toNat_sub, BitVec.toNat_ofNat]
  omega

theorem readByte_eq_ok_iff {m : Memory} {address : Word} {b : Byte} :
    m.readByte address = .ok b ↔ address < m.size ∧ m.byte address = b := by
  rw [← read_eq_ok_iff, readByte]
  split
  case isTrue h => rw [read, if_neg (BitVec.not_lt.mpr h)]
  case isFalse => rfl

theorem writeByte_eq_ok_iff {m m' : Memory} {address : Word} {b : Byte} :
    m.writeByte address b = .ok m' ↔
      address < m.size ∧ { m with byte := Function.update m.byte address b } = m' := by
  rw [← write_eq_ok_iff, writeByte]
  split
  case isTrue h => rw [write, if_neg (BitVec.not_lt.mpr h)]
  case isFalse => rfl

theorem guarded_read_eq_ok_iff {m : Memory} {address : Word} {w n : Nat} {v : BitVec w} :
    (if address ≥ m.size - BitVec.ofNat 64 n then .error .memoryOutOfRange
      else m.readGeneric address w (n + 1)) = .ok v ↔
    m.InRange address (n + 1) ∧ m.load address w (n + 1) = v := by
  rw [inRange_iff (Nat.succ_pos n), ← readGeneric_eq_ok_iff]
  constructor
  · intro h
    split at h
    · exact nomatch h
    · exact h
  · intro h
    have hin := (inRange_iff (Nat.succ_pos n)).mpr (readGeneric_eq_ok_iff.mp h).1
    rw [if_neg (not_ge_of_inRange hin), h]

theorem guarded_write_eq_ok_iff {w : Nat} {m m' : Memory} {address : Word} {v : BitVec w} {n : Nat}
    (hn : n + 1 < 2 ^ 64) :
    (if address ≥ m.size - BitVec.ofNat 64 n then .error .memoryOutOfRange
      else m.writeGeneric address v (n + 1)) = .ok m' ↔
    m.InRange address (n + 1) ∧ m.store address v (n + 1) = m' := by
  rw [inRange_iff (Nat.succ_pos n), ← writeGeneric_eq_ok_iff hn]
  constructor
  · intro h
    split at h
    · exact nomatch h
    · exact h
  · intro h
    have hin := (inRange_iff (Nat.succ_pos n)).mpr ((writeGeneric_eq_ok_iff hn).mp h).1
    rw [if_neg (not_ge_of_inRange hin), h]

theorem readHalfWord_eq_ok_iff {m : Memory} {address : Word} {v : BitVec 16} :
    m.readHalfWord address = .ok v ↔ m.InRange address 2 ∧ m.load address 16 2 = v :=
  guarded_read_eq_ok_iff

theorem readWord_eq_ok_iff {m : Memory} {address : Word} {v : BitVec 32} :
    m.readWord address = .ok v ↔ m.InRange address 4 ∧ m.load address 32 4 = v :=
  guarded_read_eq_ok_iff

theorem readDoubleWord_eq_ok_iff {m : Memory} {address : Word} {v : BitVec 64} :
    m.readDoubleWord address = .ok v ↔ m.InRange address 8 ∧ m.load address 64 8 = v :=
  guarded_read_eq_ok_iff

theorem writeHalfWord_eq_ok_iff {m m' : Memory} {address : Word} {v : BitVec 16} :
    m.writeHalfWord address v = .ok m' ↔ m.InRange address 2 ∧ m.store address v 2 = m' :=
  guarded_write_eq_ok_iff (by norm_num)

theorem writeWord_eq_ok_iff {m m' : Memory} {address : Word} {v : BitVec 32} :
    m.writeWord address v = .ok m' ↔ m.InRange address 4 ∧ m.store address v 4 = m' :=
  guarded_write_eq_ok_iff (by norm_num)

theorem writeDoubleWord_eq_ok_iff {m m' : Memory} {address : Word} {v : BitVec 64} :
    m.writeDoubleWord address v = .ok m' ↔ m.InRange address 8 ∧ m.store address v 8 = m' :=
  guarded_write_eq_ok_iff (by norm_num)

theorem getLsbD_load (m : Memory) (address : Word) (w n j : Nat) :
    (m.load address w n).getLsbD j =
      (decide (j < w) && decide (j < 8 * n) &&
        (m.byte (address + BitVec.ofNat 64 (j / 8))).getLsbD (j % 8)) := by
  induction n with
  | zero => simp [load]
  | succ n ih =>
    rw [load, BitVec.getLsbD_or, ih, BitVec.getLsbD_shiftLeft, BitVec.getLsbD_setWidth]
    rcases Nat.lt_or_ge j (8 * n) with hlow | hlow
    · have hlow' : j < 8 * (n + 1) := by omega
      simp [hlow, hlow']
    · rcases Nat.lt_or_ge j (8 * (n + 1)) with hhigh | hhigh
      · have hdiv : j / 8 = n := by omega
        have hmod : j % 8 = j - 8 * n := by omega
        have hj : j - 8 * n < w ∨ w ≤ j := by omega
        rw [hdiv, hmod]
        rcases Nat.lt_or_ge j w with hw | hw
        · have hw' : j - 8 * n < w := by omega
          simp [hhigh, hw, hw', Nat.not_lt.mpr hlow]
        · simp [Nat.not_lt.mpr hw]
      · have hbyte := BitVec.getLsbD_of_ge (m.byte (address + BitVec.ofNat 64 n)) (j - 8 * n)
          (by omega)
        simp [hbyte, Nat.not_lt.mpr hlow, Nat.not_lt.mpr hhigh]

/-- A little-endian load returns the value whose bytes lie at its addresses. -/
theorem load_eq {m : Memory} {address : Word} {n : Nat} {v : BitVec (8 * n)}
    (h : ∀ j < n, m.byte (address + BitVec.ofNat 64 j) = (v >>> (8 * j)).setWidth 8) :
    m.load address (8 * n) n = v := by
  refine BitVec.eq_of_getLsbD_eq fun j hj => ?_
  have hmod : j % 8 < 8 := Nat.mod_lt j (by omega)
  have hsum : 8 * (j / 8) + j % 8 = j := Nat.div_add_mod j 8
  rw [getLsbD_load, h (j / 8) (by omega), BitVec.getLsbD_setWidth, BitVec.getLsbD_ushiftRight, hsum]
  simp [hj, hmod]

/-- The memory after the doublewords `word 0`, ..., `word (k - 1)` have been stored
one after the other from `base` on. -/
def storeMany (m : Memory) (base : Word) (word : Nat → Word) (k : Nat) : Memory :=
  { m with byte := fun x =>
      if (x - base).toNat < 8 * k then
        (word ((x - base).toNat / 8) >>> (8 * ((x - base).toNat % 8))).setWidth 8
      else m.byte x }

theorem storeMany_zero (m : Memory) (base : Word) (word : Nat → Word) :
    m.storeMany base word 0 = m := by
  simp [storeMany]

theorem store_storeMany {m : Memory} {base : Word} {word : Nat → Word} {k : Nat}
    (hk : 8 * (k + 1) ≤ 2 ^ 64) :
    (m.storeMany base word k).store (base + BitVec.ofNat 64 (8 * k)) (word k) 8 =
      m.storeMany base word (k + 1) := by
  refine Memory.ext rfl (funext fun x => ?_)
  have hd := (x - base).isLt
  have hsub : (x - (base + BitVec.ofNat 64 (8 * k))).toNat =
      (2 ^ 64 - 8 * k + (x - base).toNat) % 2 ^ 64 := by
    rw [← BitVec.sub_sub, BitVec.toNat_sub, BitVec.toNat_ofNat]
    omega
  simp only [store, storeMany, hsub]
  generalize (x - base).toNat = d at hd
  rcases Nat.lt_or_ge d (8 * k) with hlow | hlow
  · rw [if_neg (by omega), if_pos hlow, if_pos (by omega)]
  · rcases Nat.lt_or_ge d (8 * (k + 1)) with hhigh | hhigh
    · have hdiv : d / 8 = k := by omega
      have hmod : (2 ^ 64 - 8 * k + d) % 2 ^ 64 = d % 8 := by omega
      rw [if_pos (by omega), if_pos hhigh, hdiv, hmod]
    · rw [if_neg (by omega), if_neg (by omega), if_neg (by omega)]

theorem load_storeMany {m : Memory} {base : Word} {word : Nat → Word} {k i : Nat}
    (hk : 8 * k ≤ 2 ^ 64) (hi : i < k) :
    (m.storeMany base word k).load (base + BitVec.ofNat 64 (8 * i)) 64 8 = word i := by
  refine load_eq (n := 8) fun j hj => ?_
  have hd : (base + BitVec.ofNat 64 (8 * i) + BitVec.ofNat 64 j - base).toNat = 8 * i + j := by
    rw [BitVec.add_assoc, BitVec.add_comm, BitVec.add_sub_cancel, BitVec.toNat_add,
      BitVec.toNat_ofNat, BitVec.toNat_ofNat]
    omega
  have hdiv : (8 * i + j) / 8 = i := by omega
  have hmod : (8 * i + j) % 8 = j := by omega
  simp only [storeMany, hd, hdiv, hmod]
  rw [if_pos (by omega)]

/-- The bytes outside the stored doublewords are unchanged. -/
theorem storeMany_frame {m : Memory} {base : Word} {word : Nat → Word} {k : Nat} {x : Word}
    (hx : x.toNat < base.toNat ∨ base.toNat + 8 * k ≤ x.toNat) (hk : base.toNat + 8 * k ≤ 2 ^ 64) :
    (m.storeMany base word k).byte x = m.byte x := by
  have hb := base.isLt
  have hx' := x.isLt
  have hd : (x - base).toNat = (2 ^ 64 - base.toNat + x.toNat) % 2 ^ 64 := BitVec.toNat_sub x base
  simp only [storeMany]
  rw [if_neg (by omega)]

/-- The bytes at `address`, `address + 1`, ..., as a list. -/
def bytesAt (m : Memory) (address : Word) (n : Nat) : List Byte :=
  (List.range n).map fun i => m.byte (address + BitVec.ofNat 64 i)

theorem readBytes_eq_ok_iff {m : Memory} {address : Word} {n : Nat} {bytes : List Byte} :
    m.readBytes address n = .ok bytes ↔
      (∀ i < n, address + BitVec.ofNat 64 i < m.size) ∧ m.bytesAt address n = bytes := by
  induction n generalizing bytes with
  | zero => simp [readBytes, bytesAt]
  | succ n ih =>
    have hsucc : m.bytesAt address (n + 1) =
        m.bytesAt address n ++ [m.byte (address + BitVec.ofNat 64 n)] := by
      simp [bytesAt, List.range_succ]
    constructor
    · intro h
      obtain ⟨front, hfront, h⟩ := Loop.bind_eq_ok h
      obtain ⟨b, hb, h⟩ := Loop.bind_eq_ok h
      obtain ⟨hin, rfl⟩ := ih.mp hfront
      obtain ⟨hlt, rfl⟩ := readByte_eq_ok_iff.mp hb
      refine ⟨fun i hi => ?_, hsucc.trans (Except.ok.inj h)⟩
      rcases Nat.lt_succ_iff_lt_or_eq.mp hi with h' | rfl
      · exact hin i h'
      · exact hlt
    · rintro ⟨hin, rfl⟩
      have hfront := ih.mpr ⟨fun i hi => hin i (Nat.lt_succ_of_lt hi), rfl⟩
      have hb := readByte_eq_ok_iff.mpr ⟨hin n (Nat.lt_succ_self n), rfl⟩
      simp only [readBytes, hfront, hb, Loop.bind_ok, hsucc]
      rfl

end Memory

end RiscvSim

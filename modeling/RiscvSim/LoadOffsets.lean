import RiscvSim.Alignment
import RiscvSim.Loop
import RiscvSim.ParsePasses

/-! Where the loader writes the elements of the data buffer. -/

namespace RiscvSim

open RiscvSim.Alignment

def DataItem.alignment : DataItem → BitVec 32
  | .byte _ | .string _ => 1
  | .halfWord _ => 2
  | .word _ | .float _ => 4
  | .doubleWord _ | .double _ => 8

namespace Vm

variable {start : Word} {m : Memory} {c : BitVec 32} {items : List DataItem}

/-- The offset of an element that is loaded when `data_counter` is `c`. -/
def itemOffset (c : BitVec 32) (item : DataItem) : BitVec 32 := alignCounter c item.alignment

/-- `data_counter` after an element. -/
def itemEnd (c : BitVec 32) (item : DataItem) : BitVec 32 :=
  itemOffset c item + BitVec.ofNat 32 item.size

/-- The offsets of the elements of a data buffer. -/
def loadOffsets (c : BitVec 32) : List DataItem → List (BitVec 32)
  | [] => []
  | item :: items => itemOffset c item :: loadOffsets (itemEnd c item) items

def storeBytes (start : Word) (state : Memory × BitVec 32) (bytes : List Byte) :
    Except Fault (Memory × BitVec 32) :=
  bytes.foldlM (fun (m, counter) b => do
    return (← m.writeByte (start + counter.setWidth 64) b, counter + 1)) state

/-- Write one element at an offset. -/
def storeItem (start : Word) (m : Memory) (offset : BitVec 32) : DataItem → Except Fault Memory
  | .byte x => m.writeByte (start + offset.setWidth 64) x
  | .halfWord x => m.writeHalfWord (start + offset.setWidth 64) x
  | .word x | .float x => m.writeWord (start + offset.setWidth 64) x
  | .doubleWord x | .double x => m.writeDoubleWord (start + offset.setWidth 64) x
  | .string bytes => do return (← storeBytes start (m, offset) bytes).1

theorem storeBytes_counter {bytes : List Byte} {state result : Memory × BitVec 32}
    (h : storeBytes start state bytes = .ok result) :
    result.2 = state.2 + BitVec.ofNat 32 bytes.length := by
  induction bytes generalizing state with
  | nil =>
    obtain rfl := Except.ok.inj h
    simp
  | cons b bytes ih =>
    rw [storeBytes, List.foldlM_cons] at h
    obtain ⟨next, hnext, h⟩ := Loop.bind_eq_ok h
    obtain ⟨m, -, hnext⟩ := Loop.bind_eq_ok hnext
    obtain rfl := Except.ok.inj hnext
    rw [ih h, List.length_cons, BitVec.ofNat_add]
    grind

@[simp] theorem alignCounter_one (c : BitVec 32) : alignCounter c 1#32 = c := by
  unfold alignCounter
  rw [if_neg]
  simp [BitVec.umod_one]

theorem loadItem_eq (item : DataItem) :
    loadItem start m c item = do
      return (← storeItem start m (itemOffset c item) item, itemEnd c item) := by
  cases item with
  | byte x => simp only [loadItem, storeItem, itemEnd, itemOffset, DataItem.alignment,
      BitVec.ofNat_eq_ofNat, alignCounter_one]; rfl
  | halfWord x => rfl
  | word x => rfl
  | doubleWord x => rfl
  | float x => rfl
  | double x => rfl
  | string bytes =>
    simp only [loadItem, storeItem, itemEnd, itemOffset, DataItem.alignment,
      BitVec.ofNat_eq_ofNat, alignCounter_one]
    change storeBytes start (m, c) bytes = _
    cases h : storeBytes start (m, c) bytes with
    | error e => rfl
    | ok result =>
      have hcounter := storeBytes_counter h
      simp only [Loop.bind_ok]
      rw [← show result.2 = c + BitVec.ofNat 32 (DataItem.string bytes).size from hcounter]
      rfl

/-- Loading writes every element at its offset, in their order. -/
theorem loadData_stores (items : List DataItem) :
    loadData start m c items =
      ((loadOffsets c items).zip items).foldlM (fun m x => storeItem start m x.1 x.2) m := by
  induction items generalizing m c with
  | nil => rfl
  | cons item items ih =>
    rw [loadData, loadItem_eq, loadOffsets, List.zip_cons_cons, List.foldlM_cons]
    cases storeItem start m (itemOffset c item) item with
    | error e => rfl
    | ok m' => exact ih

/-- `data_counter` after some elements. -/
def loadEnd (c : BitVec 32) (items : List DataItem) : BitVec 32 := items.foldl itemEnd c

theorem loadOffsets_append (c : BitVec 32) (l r : List DataItem) :
    loadOffsets c (l ++ r) = loadOffsets c l ++ loadOffsets (loadEnd c l) r := by
  induction l generalizing c with
  | nil => rfl
  | cons item l ih => simp [loadOffsets, loadEnd, ih]

theorem loadEnd_append (c : BitVec 32) (l r : List DataItem) :
    loadEnd c (l ++ r) = loadEnd (loadEnd c l) r := by
  simp [loadEnd]

@[simp] theorem loadOffsets_length (c : BitVec 32) (items : List DataItem) :
    (loadOffsets c items).length = items.length := by
  induction items generalizing c with
  | nil => rfl
  | cons item items ih => simp [loadOffsets, ih]

end Vm

end RiscvSim

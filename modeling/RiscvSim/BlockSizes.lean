import RiscvSim.BlockMemory

/-! The memory under a configuration that changes. `block_size_` is read once, when the memory is
made, and decides which block and which offset an address has; a new block gets as many bytes as
the configuration says when it is created. -/

namespace RiscvSim

/-- The memory, with `memory_block_size` of the global configuration. -/
structure ConfiguredMemory where
  memoryBlockSize : Word
  blockSize : BlockSize
  memorySize : Word
  blocks : Std.HashMap Word (Array Byte)

namespace ConfiguredMemory

open BlockMemory (Width bind_run bind_throw)

/-- An index outside of a block is the fault `arrayIndex`. -/
abbrev Action (α : Type) := EStateM Fault ConfiguredMemory α

/-- The size of the data of a `MemoryBlock`: an `unsigned int`. -/
def newBlockSize (memoryBlockSize : Word) : Nat := (memoryBlockSize.setWidth 32).toNat

def getBlockIndex (m : ConfiguredMemory) (address : Word) : Word :=
  BlockMemory.getBlockIndex m.blockSize address

def getBlockOffset (m : ConfiguredMemory) (address : Word) : Nat :=
  (BlockMemory.getBlockOffset m.blockSize address).toNat

def ensureBlockExists (m : ConfiguredMemory) (blockIndex : Word) : ConfiguredMemory :=
  { m with
    blocks := m.blocks.insertIfNew blockIndex (Array.replicate (newBlockSize m.memoryBlockSize) 0) }

/-- A byte of a block; a block that does not exist reads as zero. -/
def blockByte : Option (Array Byte) → Nat → Action Byte
  | none, _ => return 0
  | some data, offset => match data[offset]? with
    | some b => return b
    | none => throw .arrayIndex

def read (address : Word) : Action Byte := do
  let m ← get
  if address ≥ m.memorySize then throw .memoryOutOfRange
  blockByte m.blocks[m.getBlockIndex address]? (m.getBlockOffset address)

/-- Write a byte of a block that exists. -/
def setBlockByte (m : ConfiguredMemory) (blockIndex : Word) (offset : Nat) (value : Byte) :
    Action Unit :=
  let data := m.blocks.getD blockIndex #[]
  if h : offset < data.size then
    set { m with blocks := m.blocks.insert blockIndex (data.set offset value h) }
  else throw .arrayIndex

def write (address : Word) (value : Byte) : Action Unit := do
  let m ← get
  if address ≥ m.memorySize then throw .memoryOutOfRange
  (m.ensureBlockExists (m.getBlockIndex address)).setBlockByte (m.getBlockIndex address)
    (m.getBlockOffset address) value

/-- `ReadGeneric<T>` for a `w`-bit `T` of `n` bytes. -/
def readGeneric (address : Word) (w n : Nat) : Action (BitVec w) :=
  (List.range n).foldlM (fun value i => do
    let b ← read (address + BitVec.ofNat 64 i)
    return value ||| b.setWidth w <<< (8 * i)) 0

/-- `WriteGeneric<T>` for a `w`-bit `T` of `n` bytes. -/
def writeGeneric {w : Nat} (address : Word) (value : BitVec w) (n : Nat) : Action Unit :=
  (List.range n).foldlM (fun _ i =>
    write (address + BitVec.ofNat 64 i) ((value >>> (8 * i)).setWidth 8)) ()

/-- An access that first compares the address with `memory_size_ - last`. -/
def guarded {α : Type} (address : Word) (last : Nat) (access : Action α) : Action α := do
  if address ≥ (← get).memorySize - BitVec.ofNat 64 last then throw .memoryOutOfRange
  access

/-- `ReadByte`, `ReadHalfWord`, `ReadWord` and `ReadDoubleWord`. -/
def readAs (t : Width) (address : Word) : Action (BitVec (8 * t.bytes)) :=
  guarded address (t.bytes - 1) (readGeneric address _ t.bytes)

/-- `WriteByte`, `WriteHalfWord`, `WriteWord` and `WriteDoubleWord`. -/
def writeAs (t : Width) (address : Word) (value : BitVec (8 * t.bytes)) : Action Unit :=
  guarded address (t.bytes - 1) (writeGeneric address value t.bytes)

inductive Op where
  | modifyConfig (memoryBlockSize : Word)
  | read (t : Width) (address : Word)
  | write (t : Width) (address : Word) (value : BitVec (8 * t.bytes))

def Op.exec : Op → Action Unit
  | .modifyConfig memoryBlockSize => modify fun m => { m with memoryBlockSize }
  | .read t address => do let _ ← readAs t address
  | .write t address value => writeAs t address value

/-- The memory after an operation, which may have thrown; none after an index outside of a
block. -/
def survivor {α : Type} : EStateM.Result Fault ConfiguredMemory α → Option ConfiguredMemory
  | .ok _ m => some m
  | .error .arrayIndex _ => none
  | .error _ m => some m

def run (m : ConfiguredMemory) (ops : List Op) : Option ConfiguredMemory :=
  ops.foldlM (fun m op => survivor (op.exec m)) m

/-- The memory made under a configuration whose block size is not zero. -/
def initial (config : {c : Word // 0 < (c.setWidth 32).toNat}) (memorySize : Word) :
    ConfiguredMemory :=
  ⟨config.1, ⟨config.1.setWidth 32, config.2⟩, memorySize, ∅⟩

/-! What the operations ask for, byte by byte. -/

inductive Event where
  | configure (memoryBlockSize : Word)
  | read (address : Word)
  | write (address : Word)

/-- The addresses of an access in their order, up to the first that is out of range. -/
def touched (memorySize : Word) (t : Width) (address : Word) : List Word :=
  if address ≥ memorySize - BitVec.ofNat 64 (t.bytes - 1) then []
  else ((List.range t.bytes).map fun i => address + BitVec.ofNat 64 i).takeWhile (· < memorySize)

def Op.events (memorySize : Word) : Op → List Event
  | .modifyConfig memoryBlockSize => [.configure memoryBlockSize]
  | .read t address => (touched memorySize t address).map .read
  | .write t address _ => (touched memorySize t address).map .write

namespace Event

def address : Event → Option Word
  | .configure _ => none
  | .read a | .write a => some a

def writesBlock (blockSize : BlockSize) (blockIndex : Word) : Event → Bool
  | .write a => BlockMemory.getBlockIndex blockSize a == blockIndex
  | _ => false

end Event

/-- The block size configured after some events. -/
def configured (config : Word) (past : List Event) : Word :=
  past.foldl (fun c e => match e with | .configure v => v | _ => c) config

/-- The block size configured at the first write to a block, if there was one. -/
def sizeAtFirstWrite (blockSize : BlockSize) (config : Word) (past : List Event)
    (blockIndex : Word) : Option Nat :=
  if past.any (Event.writesBlock blockSize blockIndex) then
    some (newBlockSize (configured config
      (past.takeWhile fun e => !e.writesBlock blockSize blockIndex)))
  else none

/-- The offset of the accessed byte is below the block size that was configured at the first
write to its block. -/
def FitsAt (blockSize : BlockSize) (config : Word) (past : List Event) (e : Event) : Prop :=
  ∀ a ∈ e.address, ∀ n ∈ sizeAtFirstWrite blockSize config (past ++ [e])
      (BlockMemory.getBlockIndex blockSize a),
    (BlockMemory.getBlockOffset blockSize a).toNat < n

/-- All of some further events do. -/
def Fits (blockSize : BlockSize) (config : Word) : List Event → List Event → Prop
  | _, [] => True
  | past, e :: es => FitsAt blockSize config past e ∧ Fits blockSize config (past ++ [e]) es

section

variable {blockSize : BlockSize} {config size a : Word} {past es : List Event} {e : Event}
  {m : ConfiguredMemory} {α : Type}

theorem sizeAtFirstWrite_append (i : Word) :
    sizeAtFirstWrite blockSize config (past ++ [e]) i =
      (sizeAtFirstWrite blockSize config past i).or
        (if e.writesBlock blockSize i then some (newBlockSize (configured config past)) else none) := by
  unfold sizeAtFirstWrite
  by_cases hpast : past.any (Event.writesBlock blockSize i) = true
  · have htake : (past ++ [e]).takeWhile (fun e => !e.writesBlock blockSize i) =
        past.takeWhile fun e => !e.writesBlock blockSize i := by
      obtain ⟨x, hx, hwrites⟩ := List.any_eq_true.mp hpast
      rw [List.takeWhile_append, if_neg]
      intro hlength
      rw [← (List.takeWhile_prefix _).eq_of_length hlength] at hx
      simpa [hwrites] using List.mem_takeWhile_imp hx
    rw [List.any_append, hpast, htake]
    rfl
  · have hnone : ∀ x ∈ past, (!x.writesBlock blockSize i) = true := by
      intro x hx
      rw [Bool.not_eq_true']
      exact Bool.eq_false_iff.mpr fun h => hpast (List.any_eq_true.mpr ⟨x, hx, h⟩)
    rw [List.any_append, Bool.eq_false_iff.mpr hpast, List.takeWhile_append_of_pos hnone]
    cases he : e.writesBlock blockSize i <;> simp [he]

/-- The configuration and the sizes of the blocks are those that the past accounts for. -/
structure Tracks (blockSize : BlockSize) (config size : Word) (past : List Event)
    (m : ConfiguredMemory) : Prop where
  blockSize_eq : m.blockSize = blockSize
  memorySize_eq : m.memorySize = size
  memoryBlockSize_eq : m.memoryBlockSize = configured config past
  sizes : ∀ i, m.blocks[i]?.map Array.size = sizeAtFirstWrite blockSize config past i

/-- The action accesses the byte at `a`, which is the event `e`. -/
structure Touches (blockSize : BlockSize) (config size a : Word) (e : Event) (access : Action α) :
    Prop where
  out : ∀ m, m.memorySize = size → ¬ a < size → access m = .error .memoryOutOfRange m
  fit : ∀ past m, Tracks blockSize config size past m → a < size → FitsAt blockSize config past e →
    ∃ r m', access m = .ok r m' ∧ Tracks blockSize config size (past ++ [e]) m'
  unfit : ∀ past m, Tracks blockSize config size past m → a < size →
    ¬ FitsAt blockSize config past e → survivor (access m) = none

theorem get_run : (get : Action ConfiguredMemory) m = .ok m m := rfl

theorem not_fitsAt (ha : e.address = some a) (h : ¬ FitsAt blockSize config past e) :
    ∃ n, sizeAtFirstWrite blockSize config (past ++ [e]) (BlockMemory.getBlockIndex blockSize a) =
        some n ∧ n ≤ (BlockMemory.getBlockOffset blockSize a).toNat := by
  by_contra hall
  refine h fun b hb n hn => ?_
  obtain rfl : a = b := Option.some.inj (ha.symm.trans hb)
  by_contra hlt
  exact hall ⟨n, hn, Nat.le_of_not_lt hlt⟩

/-- Reading changes neither the configuration nor a block. -/
theorem Tracks.read (h : Tracks blockSize config size past m) (a : Word) :
    Tracks blockSize config size (past ++ [.read a]) m := by
  refine ⟨h.blockSize_eq, h.memorySize_eq, ?_, fun i => ?_⟩
  · rw [h.memoryBlockSize_eq, configured, configured, List.foldl_append]
    rfl
  · rw [h.sizes, sizeAtFirstWrite_append]
    simp [Event.writesBlock]

theorem read_touches (blockSize : BlockSize) (config size a : Word) :
    Touches blockSize config size a (.read a) (read a) := by
  have hread : ∀ past m, Tracks blockSize config size past m → a < size →
      read a m = blockByte m.blocks[m.getBlockIndex a]? (m.getBlockOffset a) m := by
    intro past m h ha
    rw [read, bind_run get_run, if_neg (by rw [h.memorySize_eq]; exact BitVec.not_le.mpr ha)]
  refine ⟨fun m hm ha => ?_, fun past m h ha hfit => ?_, fun past m h ha hfit => ?_⟩
  · rw [read, bind_run get_run, if_pos (by rw [hm]; exact BitVec.not_lt.mp ha)]
    rfl
  · rw [hread past m h ha]
    have hsize := (h.read a).sizes (m.getBlockIndex a)
    cases hblock : m.blocks[m.getBlockIndex a]? with
    | none => exact ⟨0, m, rfl, h.read a⟩
    | some data =>
      rw [hblock, getBlockIndex, h.blockSize_eq] at hsize
      have hlt : m.getBlockOffset a < data.size := by
        rw [getBlockOffset, h.blockSize_eq]
        exact hfit a rfl data.size hsize.symm
      refine ⟨data[m.getBlockOffset a], m, ?_, h.read a⟩
      simp only [blockByte, Array.getElem?_eq_getElem hlt]
      rfl
  · rw [hread past m h ha]
    obtain ⟨n, hn, hle⟩ := not_fitsAt rfl hfit
    have hsize := (h.read a).sizes (m.getBlockIndex a)
    rw [getBlockIndex, h.blockSize_eq, hn] at hsize
    obtain ⟨data, hblock, rfl⟩ := Option.map_eq_some_iff.mp hsize
    have hout : data[m.getBlockOffset a]? = none := by
      rw [getBlockOffset, h.blockSize_eq]
      exact Array.getElem?_eq_none hle
    rw [getBlockIndex, h.blockSize_eq, hblock]
    simp only [blockByte, hout]
    rfl

/-- The block of a write is there, with the size it was created with. -/
theorem Tracks.ensure (h : Tracks blockSize config size past m) (a : Word) :
    ∃ data, (m.ensureBlockExists (m.getBlockIndex a)).blocks[m.getBlockIndex a]? = some data ∧
      sizeAtFirstWrite blockSize config (past ++ [.write a])
        (BlockMemory.getBlockIndex blockSize a) = some data.size ∧
      ∀ data' : Array Byte, data'.size = data.size →
        Tracks blockSize config size (past ++ [.write a])
          { m with blocks :=
            (m.ensureBlockExists (m.getBlockIndex a)).blocks.insert (m.getBlockIndex a) data' } := by
  have hindex : m.getBlockIndex a = BlockMemory.getBlockIndex blockSize a := by
    rw [getBlockIndex, h.blockSize_eq]
  rw [hindex]
  generalize hi : BlockMemory.getBlockIndex blockSize a = i
  have hwrites : Event.writesBlock blockSize i (.write a) = true := by
    simp [Event.writesBlock, hi]
  have hself := h.sizes i
  have hdata : ∃ data, (m.ensureBlockExists i).blocks[i]? = some data ∧
      sizeAtFirstWrite blockSize config (past ++ [.write a]) i = some data.size := by
    rw [sizeAtFirstWrite_append, ← hself, hwrites, if_pos rfl, ensureBlockExists,
      Std.HashMap.getElem?_insertIfNew]
    cases hblock : m.blocks[i]? with
    | none =>
      refine ⟨Array.replicate (newBlockSize m.memoryBlockSize) 0, ?_, ?_⟩
      · rw [if_pos]
        exact ⟨beq_self_eq_true i, fun hmem => by
          simpa [hblock] using Std.HashMap.mem_iff_isSome_getElem?.mp hmem⟩
      · simp [h.memoryBlockSize_eq]
    | some data =>
      refine ⟨data, ?_, by simp⟩
      rw [if_neg]
      rintro ⟨-, hnew⟩
      exact hnew (Std.HashMap.mem_iff_isSome_getElem?.mpr (by rw [hblock]; rfl))
  obtain ⟨data, hblock, hsize⟩ := hdata
  refine ⟨data, hblock, hsize, fun data' hdata' => ⟨h.blockSize_eq, h.memorySize_eq, ?_, fun j => ?_⟩⟩
  · rw [h.memoryBlockSize_eq, configured, configured, List.foldl_append]
    rfl
  · by_cases hij : i = j
    · subst hij
      rw [hsize, Std.HashMap.getElem?_insert_self, Option.map_some, hdata']
    · have hother : Event.writesBlock blockSize j (.write a) = false := by
        simp [Event.writesBlock, hi, hij]
      rw [sizeAtFirstWrite_append, hother, Std.HashMap.getElem?_insert, if_neg (by simpa using hij),
        ensureBlockExists, Std.HashMap.getElem?_insertIfNew, if_neg (by simp [hij]), h.sizes]
      simp

theorem write_touches (blockSize : BlockSize) (config size a : Word) (b : Byte) :
    Touches blockSize config size a (.write a) (write a b) := by
  refine ⟨fun m hm ha => ?_, fun past m h ha hfit => ?_, fun past m h ha hfit => ?_⟩
  · rw [write, bind_run get_run, if_pos (by rw [hm]; exact BitVec.not_lt.mp ha)]
    rfl
  · obtain ⟨data, hblock, hsize, hnext⟩ := h.ensure a
    have hdata : (m.ensureBlockExists (m.getBlockIndex a)).blocks.getD (m.getBlockIndex a) #[] =
        data := by
      rw [Std.HashMap.getD_eq_getD_getElem?, hblock, Option.getD_some]
    have hlt : m.getBlockOffset a < data.size := by
      rw [getBlockOffset, h.blockSize_eq]
      exact hfit a rfl data.size hsize
    subst hdata
    rw [write, bind_run get_run, if_neg (by rw [h.memorySize_eq]; exact BitVec.not_le.mpr ha)]
    refine ⟨(), _, congrFun (dif_pos hlt) m, ?_⟩
    exact hnext _ (Array.size_set hlt)
  · obtain ⟨data, hblock, hsize, -⟩ := h.ensure a
    obtain ⟨n, hn, hle⟩ := not_fitsAt rfl hfit
    obtain rfl : data.size = n := Option.some.inj (hsize.symm.trans hn)
    have hdata : (m.ensureBlockExists (m.getBlockIndex a)).blocks.getD (m.getBlockIndex a) #[] =
        data := by
      rw [Std.HashMap.getD_eq_getD_getElem?, hblock, Option.getD_some]
    have hge : ¬ m.getBlockOffset a < data.size := by
      rw [getBlockOffset, h.blockSize_eq]
      exact Nat.not_lt.mpr hle
    subst hdata
    rw [write, bind_run get_run, if_neg (by rw [h.memorySize_eq]; exact BitVec.not_le.mpr ha)]
    have hthrow : (m.ensureBlockExists (m.getBlockIndex a)).setBlockByte (m.getBlockIndex a)
        (m.getBlockOffset a) b m = .error .arrayIndex m := congrFun (dif_neg hge) m
    exact congrArg survivor hthrow

theorem fits_append (es fs : List Event) : Fits blockSize config past (es ++ fs) ↔
    Fits blockSize config past es ∧ Fits blockSize config (past ++ es) fs := by
  induction es generalizing past with
  | nil => simp [Fits]
  | cons e es ih => simp [Fits, ih, and_assoc]

theorem survivor_eq_none {r : EStateM.Result Fault ConfiguredMemory α} (h : survivor r = none) :
    ∃ m, r = .error .arrayIndex m := by
  cases r with
  | ok x m => cases h
  | error e m =>
    cases e with
    | arrayIndex => exact ⟨m, rfl⟩
    | memoryOutOfRange | invalidRegister | divisionTrap | exited | blocked | stuck => cases h

/-- The action does not leave its blocks exactly if the events fit, and then they are what it
has done. -/
def Follows (blockSize : BlockSize) (config size : Word) (es : List Event) (access : Action α) :
    Prop :=
  ∀ past m, Tracks blockSize config size past m →
    (Fits blockSize config past es →
      ∃ m', survivor (access m) = some m' ∧ Tracks blockSize config size (past ++ es) m') ∧
    (¬ Fits blockSize config past es → survivor (access m) = none)

/-- A loop over addresses goes on to the first that is out of range. -/
theorem loop_follows {β : Type} {access : β → Nat → Action β} {address : Nat → Word}
    {event : Word → Event}
    (h : ∀ r i, Touches blockSize config size (address i) (event (address i)) (access r i))
    (l : List Nat) (r : β) : Follows blockSize config size
      (((l.map address).takeWhile (· < size)).map event) (l.foldlM access r) := by
  induction l generalizing r with
  | nil =>
    intro past m hm
    refine ⟨fun _ => ⟨m, rfl, by simpa using hm⟩, fun hfit => absurd trivial hfit⟩
  | cons i l ih =>
    intro past m hm
    rw [List.foldlM_cons, List.map_cons]
    by_cases hin : address i < size
    · rw [List.takeWhile_cons_of_pos (by simpa using hin), List.map_cons, Fits]
      by_cases hfit : FitsAt blockSize config past (event (address i))
      · obtain ⟨r', m', hrun, hm'⟩ := (h r i).fit past m hm hin hfit
        rw [bind_run hrun]
        obtain ⟨hrest, hstop⟩ := ih r' _ m' hm'
        rw [List.append_assoc] at hrest
        exact ⟨fun hall => hrest hall.2, fun hall => hstop fun hes => hall ⟨hfit, hes⟩⟩
      · obtain ⟨m', hthrow⟩ := survivor_eq_none ((h r i).unfit past m hm hin hfit)
        rw [bind_throw hthrow]
        exact ⟨fun hall => absurd hall.1 hfit, fun _ => rfl⟩
    · rw [List.takeWhile_cons_of_neg (by simpa using hin), bind_throw ((h r i).out m hm.memorySize_eq hin)]
      refine ⟨fun _ => ⟨m, rfl, by simpa using hm⟩, fun hfit => absurd trivial hfit⟩

/-- An access that only passes on what another one returns. -/
theorem Touches.map {access : Action α} (h : Touches blockSize config size a e access) {β : Type}
    (f : α → β) : Touches blockSize config size a e (access >>= fun r => pure (f r)) := by
  refine ⟨fun m hm ha => bind_throw (h.out m hm ha), fun past m hm ha hfit => ?_,
    fun past m hm ha hfit => ?_⟩
  · obtain ⟨r, m', hrun, hm'⟩ := h.fit past m hm ha hfit
    exact ⟨f r, m', bind_run hrun, hm'⟩
  · obtain ⟨m', hthrow⟩ := survivor_eq_none (h.unfit past m hm ha hfit)
    rw [bind_throw hthrow]
    rfl

theorem survivor_bind_pure {access : Action α} :
    survivor ((access >>= fun _ => (pure () : Action Unit)) m) = survivor (access m) := by
  cases hm : access m with
  | ok r m' => rw [bind_run hm]; rfl
  | error e m' => rw [bind_throw hm]; cases e <;> rfl

theorem guarded_follows {t : Width} {event : Word → Event} {access : Action α}
    (h : Follows blockSize config size ((((List.range t.bytes).map fun i =>
      a + BitVec.ofNat 64 i).takeWhile (· < size)).map event) access) :
    Follows blockSize config size ((touched size t a).map event) (guarded a (t.bytes - 1) access) := by
  intro past m hm
  rw [guarded, bind_run get_run, hm.memorySize_eq, touched]
  by_cases hguard : a ≥ size - BitVec.ofNat 64 (t.bytes - 1)
  · rw [if_pos hguard, if_pos hguard]
    refine ⟨fun _ => ⟨m, rfl, by simpa using hm⟩, fun hfit => absurd trivial hfit⟩
  · rw [if_neg hguard, if_neg hguard]
    exact h past m hm

theorem exec_follows (op : Op) : Follows blockSize config size (op.events size) op.exec := by
  cases op with
  | modifyConfig memoryBlockSize =>
    intro past m hm
    have hfit : Fits blockSize config past (Op.events size (.modifyConfig memoryBlockSize)) := by
      refine ⟨fun a ha => ?_, trivial⟩
      cases ha
    refine ⟨fun _ => ⟨{ m with memoryBlockSize }, rfl, hm.blockSize_eq, hm.memorySize_eq, ?_,
      fun i => ?_⟩, fun h => absurd hfit h⟩
    · rw [configured, Op.events, List.foldl_append]
      rfl
    · rw [Op.events, sizeAtFirstWrite_append]
      simp [Event.writesBlock, hm.sizes i]
  | read t address =>
    intro past m hm
    have hexec : survivor ((Op.read t address).exec m) = survivor (readAs t address m) :=
      survivor_bind_pure
    rw [hexec]
    exact guarded_follows (loop_follows (fun r i => (read_touches _ _ _ _).map _) _ _) past m hm
  | write t address value =>
    exact guarded_follows (loop_follows (fun r i => write_touches _ _ _ _ _) _ _)

theorem run_iff {ops : List Op} (hm : Tracks blockSize config size past m) :
    (m.run ops).isSome ↔ Fits blockSize config past (ops.flatMap (Op.events size)) := by
  induction ops generalizing past m with
  | nil => simp [run, Fits]
  | cons op ops ih =>
    rw [List.flatMap_cons, fits_append]
    obtain ⟨hrun, hstop⟩ := exec_follows op past m hm
    have hcons : m.run (op :: ops) = (survivor (op.exec m)).bind fun m' => m'.run ops := rfl
    by_cases hfit : Fits blockSize config past (op.events size)
    · obtain ⟨m', hsome, hm'⟩ := hrun hfit
      rw [hcons, hsome, Option.bind_some, ih hm']
      simp [hfit]
    · rw [hcons, hstop hfit]
      simp [hfit]

theorem initial_tracks (config : {c : Word // 0 < (c.setWidth 32).toNat}) (memorySize : Word) :
    Tracks ⟨config.1.setWidth 32, config.2⟩ config.1 memorySize [] (initial config memorySize) := by
  refine ⟨rfl, rfl, rfl, fun i => ?_⟩
  simp [initial, sizeAtFirstWrite]

theorem configured_cases (config : Word) (past : List Event) :
    configured config past = config ∨ .configure (configured config past) ∈ past := by
  induction past using List.reverseRecOn with
  | nil => exact .inl rfl
  | append_singleton past e ih =>
    cases e with
    | configure v => exact .inr (by simp [configured])
    | read a | write a => simpa [configured] using ih

/-- Blocks that are never configured smaller than the memory takes them to be. -/
theorem fits_of_large (hconfig : blockSize.1.toNat ≤ newBlockSize config)
    (h : ∀ v, .configure v ∈ past ++ es → blockSize.1.toNat ≤ newBlockSize v) :
    Fits blockSize config past es := by
  induction es generalizing past with
  | nil => trivial
  | cons e es ih =>
    refine ⟨fun a _ n hn => ?_, ih (by simpa using h)⟩
    refine Nat.lt_of_lt_of_le (BlockMemory.getBlockOffset_lt blockSize a) ?_
    unfold sizeAtFirstWrite at hn
    split at hn
    · obtain rfl := Option.some.inj hn
      rcases configured_cases config ((past ++ [e]).takeWhile fun e' =>
        !e'.writesBlock blockSize (BlockMemory.getBlockIndex blockSize a)) with hsame | hmem
      · rw [hsame]
        exact hconfig
      · have hpast := (List.takeWhile_prefix _).subset hmem
        refine h _ ?_
        simp only [List.mem_append, List.mem_cons] at hpast ⊢
        tauto
    · cases hn

end

/-- No access of a run leaves its block exactly if every byte lies, in its block, below the block
size that was configured when the block was first written. -/
theorem run_isSome_iff (config : {c : Word // 0 < (c.setWidth 32).toNat}) (memorySize : Word)
    (ops : List Op) : ((initial config memorySize).run ops).isSome ↔
      Fits ⟨config.1.setWidth 32, config.2⟩ config.1 [] (ops.flatMap (Op.events memorySize)) :=
  run_iff (initial_tracks config memorySize)

/-- A byte in a block that was created after the block size had been lowered. -/
theorem run_isNone_lowered : ((initial ⟨1024, by decide⟩ 0xffffffffffffffff).run
    [.modifyConfig 16, .write .byte 500 1]).isSome = false := by
  rw [← Bool.not_eq_true, run_iff (initial_tracks _ _)]
  rintro ⟨-, h, -⟩
  exact absurd (h 500 rfl 16 rfl) (by decide)

theorem run_isSome_of_large (config : {c : Word // 0 < (c.setWidth 32).toNat}) (memorySize : Word)
    {ops : List Op}
    (h : ∀ v, .modifyConfig v ∈ ops → newBlockSize config.1 ≤ newBlockSize v) :
    ((initial config memorySize).run ops).isSome := by
  rw [run_iff (initial_tracks config memorySize)]
  refine fits_of_large (Nat.le_refl _) fun v hv => ?_
  obtain ⟨op, hop, hevent⟩ := List.mem_flatMap.mp hv
  cases op with
  | modifyConfig u =>
    obtain ⟨rfl⟩ := List.mem_singleton.mp hevent
    exact h v hop
  | read t a => simp [Op.events] at hevent
  | write t a b => simp [Op.events] at hevent

end ConfiguredMemory

end RiscvSim

import RiscvSim.Breakpoints
import RiscvSim.LoadOffsets

/-! Memories in which some bytes have been put at given places, and the memory of a loaded program. -/

namespace RiscvSim

/-- The first `n` bytes of a value, the lowest first. -/
def littleEndian {w : Nat} (value : BitVec w) (n : Nat) : List Byte :=
  (List.range n).map fun i => (value >>> (8 * i)).setWidth 8

@[simp] theorem length_littleEndian {w : Nat} (value : BitVec w) (n : Nat) :
    (littleEndian value n).length = n := by
  simp [littleEndian]

theorem littleEndian_getElem? {w n i : Nat} {value : BitVec w} {b : Byte} :
    (littleEndian value n)[i]? = some b ↔ i < n ∧ (value >>> (8 * i)).setWidth 8 = b := by
  by_cases hi : i < n
  · simp [littleEndian, hi]
  · simp [littleEndian, hi]

/-- Some bytes and the address of the first of them. -/
abbrev Chunk : Type := Nat × List Byte

namespace Chunk

def Covers (p : Chunk) (x : Nat) : Prop := p.1 ≤ x ∧ x < p.1 + p.2.length

instance (p : Chunk) (x : Nat) : Decidable (p.Covers x) := inferInstanceAs (Decidable (_ ∧ _))

end Chunk

namespace Memory

/-- `m'` is `m` but for the pieces, which it holds. -/
structure Image (m m' : Memory) (pieces : List Chunk) : Prop where
  size : m'.size = m.size
  fits : ∀ p ∈ pieces, p.2 ≠ [] → p.1 + p.2.length ≤ m.size.toNat
  inside : ∀ p ∈ pieces, ∀ i b, p.2[i]? = some b → m'.byte (BitVec.ofNat 64 (p.1 + i)) = b
  outside : ∀ x : Word, (∀ p ∈ pieces, ¬ p.Covers x.toNat) → m'.byte x = m.byte x

variable {m m' m'' : Memory}

theorem Image.refl (m : Memory) : m.Image m [] :=
  ⟨rfl, fun _ hp => absurd hp List.not_mem_nil, fun _ hp => absurd hp List.not_mem_nil,
    fun _ _ => rfl⟩

/-- Pieces that are put behind all earlier ones. -/
theorem Image.append {ps qs : List Chunk} {k : Nat} (h : m.Image m' ps) (h' : m'.Image m'' qs)
    (hbelow : ∀ p ∈ ps, p.1 + p.2.length ≤ k) (habove : ∀ q ∈ qs, k ≤ q.1) (hk : k ≤ 2 ^ 64) :
    m.Image m'' (ps ++ qs) := by
  refine ⟨h'.size.trans h.size, fun p hp => ?_, fun p hp i b hi => ?_, fun x hx => ?_⟩
  · rcases List.mem_append.mp hp with hp | hp
    · exact h.fits p hp
    · rw [← h.size]
      exact h'.fits p hp
  · rcases List.mem_append.mp hp with hp | hp
    · have hlen := (List.getElem?_eq_some_iff.mp hi).1
      have hend := hbelow p hp
      rw [h'.outside, h.inside p hp i b hi]
      intro q hq hcovers
      have hq' := habove q hq
      have hlow := hcovers.1
      rw [BitVec.toNat_ofNat, Nat.mod_eq_of_lt (by omega)] at hlow
      omega
    · exact h'.inside p hp i b hi
  · rw [h'.outside x fun q hq => hx q (List.mem_append_right _ hq),
      h.outside x fun p hp => hx p (List.mem_append_left _ hp)]

theorem Image.empty (m : Memory) (a : Nat) : m.Image m [(a, [])] := by
  refine ⟨rfl, fun p hp hne => ?_, fun p hp i b hi => ?_, fun _ _ => rfl⟩
  · obtain rfl := List.mem_singleton.mp hp
    exact absurd rfl hne
  · obtain rfl := List.mem_singleton.mp hp
    cases hi

/-- Two pieces side by side are one. -/
theorem Image.join {a : Nat} {bs cs : List Byte}
    (h : m.Image m' [(a, bs), (a + bs.length, cs)]) : m.Image m' [(a, bs ++ cs)] := by
  refine ⟨h.size, fun p hp hne => ?_, fun p hp i b hi => ?_, fun x hx => h.outside x fun p hp => ?_⟩
  · obtain rfl := List.mem_singleton.mp hp
    by_cases hcs : cs = []
    · rw [hcs, List.append_nil] at hne ⊢
      exact h.fits (a, bs) List.mem_cons_self hne
    · have hend := h.fits (a + bs.length, cs) (by simp) hcs
      rw [List.length_append, ← Nat.add_assoc]
      exact hend
  · obtain rfl := List.mem_singleton.mp hp
    rcases Nat.lt_or_ge i bs.length with hlt | hge
    · rw [List.getElem?_append_left hlt] at hi
      exact h.inside (a, bs) List.mem_cons_self i b hi
    · rw [List.getElem?_append_right hge] at hi
      have hbyte := h.inside (a + bs.length, cs) (by simp) (i - bs.length) b hi
      rwa [show a + bs.length + (i - bs.length) = a + i by omega] at hbyte
  · have hout := hx _ (List.mem_singleton_self _)
    simp only [Chunk.Covers, List.length_append] at hout ⊢
    rcases List.mem_cons.mp hp with rfl | hp
    · dsimp only
      omega
    · obtain rfl := List.mem_singleton.mp hp
      dsimp only
      omega

/-- A store in range puts one piece. -/
theorem image_store {w n : Nat} {address : Word} (value : BitVec w) (h : m.InRange address n) :
    m.Image (m.store address value n) [(address.toNat, littleEndian value n)] := by
  have hs := m.size.isLt
  have ha := address.isLt
  have hrange : address.toNat + n ≤ m.size.toNat := h
  refine ⟨rfl, fun p hp _ => ?_, fun p hp i b hi => ?_, fun x hx => ?_⟩
  · obtain rfl := List.mem_singleton.mp hp
    rw [length_littleEndian]
    exact hrange
  · obtain rfl := List.mem_singleton.mp hp
    obtain ⟨hlt, rfl⟩ := littleEndian_getElem?.mp hi
    have hoffset : (BitVec.ofNat 64 (address.toNat + i) - address).toNat = i := by
      rw [BitVec.toNat_sub, BitVec.toNat_ofNat]
      omega
    show (if (_ - address).toNat < n then _ else _) = _
    rw [hoffset, if_pos hlt]
  · have hout := hx _ (List.mem_singleton_self _)
    have hoffset : (x - address).toNat = (2 ^ 64 - address.toNat + x.toNat) % 2 ^ 64 :=
      BitVec.toNat_sub x address
    have hx' := x.isLt
    simp only [Chunk.Covers, length_littleEndian] at hout
    show (if (x - address).toNat < n then _ else _) = _
    rw [hoffset, if_neg (by omega)]

/-- A value whose bytes are a piece is loaded again. -/
theorem Image.load {n : Nat} {pieces : List Chunk} {address : Word} {value : BitVec (8 * n)}
    (h : m.Image m' pieces) (hmem : (address.toNat, littleEndian value n) ∈ pieces) :
    m'.load address (8 * n) n = value := by
  refine load_eq fun j hj => ?_
  have hbyte := h.inside _ hmem j _ (littleEndian_getElem?.mpr ⟨hj, rfl⟩)
  rw [BitVec.ofNat_add, BitVec.ofNat_toNat, BitVec.setWidth_eq] at hbyte
  exact hbyte

end Memory

/-- The bytes of an element of the data buffer. -/
def DataItem.bytes : DataItem → List Byte
  | .byte x => littleEndian x 1
  | .halfWord x => littleEndian x 2
  | .word x | .float x => littleEndian x 4
  | .doubleWord x | .double x => littleEndian x 8
  | .string bytes => bytes

@[simp] theorem DataItem.length_bytes (item : DataItem) : item.bytes.length = item.size := by
  cases item <;> simp [DataItem.bytes, DataItem.size]

theorem DataItem.alignment_pos (item : DataItem) : 0 < item.alignment.toNat := by
  have hcases : item.alignment = 1 ∨ item.alignment = 2 ∨ item.alignment = 4 ∨
      item.alignment = 8 := by
    cases item <;> simp [DataItem.alignment]
  rcases hcases with h | h | h | h <;> rw [h] <;> decide

/-- The words of a program one after the other. -/
def textImage (a : Nat) : List Instr → List Chunk
  | [] => []
  | w :: text => (a, littleEndian w 4) :: textImage (a + 4) text

/-- The elements of a data buffer, each at the next multiple of its alignment. -/
def dataImage (start c : Nat) : List DataItem → List Chunk
  | [] => []
  | item :: items =>
    let offset := alignUp item.alignment.toNat c
    (start + offset, item.bytes) :: dataImage start (offset + item.size) items

/-- Where the elements end. -/
def dataEnd (c : Nat) : List DataItem → Nat
  | [] => c
  | item :: items => dataEnd (alignUp item.alignment.toNat c + item.size) items

theorem le_dataEnd (c : Nat) (items : List DataItem) : c ≤ dataEnd c items := by
  induction items generalizing c with
  | nil => exact Nat.le_refl c
  | cons item items ih =>
    have hle := Alignment.le_alignUp item.alignment.toNat c
    exact (by omega : c ≤ _ + item.size).trans (ih _)

theorem mem_textImage {a i : Nat} {text : List Instr} {w : Instr} (h : text[i]? = some w) :
    (a + 4 * i, littleEndian w 4) ∈ textImage a text := by
  induction text generalizing a i with
  | nil => cases h
  | cons u text ih =>
    cases i with
    | zero =>
      obtain rfl := Option.some.inj h
      exact List.mem_cons_self
    | succ i =>
      have hi := ih (a := a + 4) h
      rw [show a + 4 + 4 * i = a + 4 * (i + 1) by omega] at hi
      exact List.mem_cons_of_mem _ hi

theorem textImage_bounds {a : Nat} {text : List Instr} {p : Chunk} (h : p ∈ textImage a text) :
    a ≤ p.1 ∧ p.1 + p.2.length ≤ a + 4 * text.length := by
  induction text generalizing a with
  | nil => cases h
  | cons w text ih =>
    rcases List.mem_cons.mp h with rfl | h
    · simp only [length_littleEndian, List.length_cons]
      omega
    · have hp := ih h
      simp only [List.length_cons]
      omega

theorem dataImage_bounds {start c : Nat} {items : List DataItem} {p : Chunk}
    (h : p ∈ dataImage start c items) :
    start + c ≤ p.1 ∧ p.1 + p.2.length ≤ start + dataEnd c items := by
  induction items generalizing c with
  | nil => cases h
  | cons item items ih =>
    have hle := Alignment.le_alignUp item.alignment.toNat c
    have hend := le_dataEnd (alignUp item.alignment.toNat c + item.size) items
    rcases List.mem_cons.mp h with rfl | h
    · simp only [DataItem.length_bytes, dataEnd]
      omega
    · have hp := ih h
      simp only [dataEnd]
      omega

namespace Vm

variable {m m' : Memory} {c c' : BitVec 32} {start : Word}

/-- `WriteWord` of the text. -/
theorem loadText_image {text : List Instr} (h : loadText m c text = .ok (m', c'))
    (hfits : c.toNat + 4 * text.length < 2 ^ 32) : m.Image m' (textImage c.toNat text) := by
  induction text generalizing m c with
  | nil =>
    obtain ⟨rfl, -⟩ := Prod.mk.inj (Except.ok.inj h)
    exact .refl m
  | cons w text ih =>
    simp only [List.length_cons] at hfits
    obtain ⟨m₁, hwrite, h⟩ := Loop.bind_eq_ok h
    obtain ⟨hrange, rfl⟩ := Memory.writeWord_eq_ok_iff.mp hwrite
    have hnext : (c + 4).toNat = c.toNat + 4 := by
      rw [BitVec.toNat_add]
      show (c.toNat + 4) % 2 ^ 32 = _
      omega
    have hcounter : (c.setWidth 64).toNat = c.toNat := by
      rw [BitVec.toNat_setWidth]
      omega
    have hword := Memory.image_store w hrange
    rw [hcounter] at hword
    have hrest := ih h (by omega)
    rw [hnext] at hrest
    refine hword.append (k := c.toNat + 4) hrest (fun p hp => ?_) (fun p hp => ?_) (by omega)
    · obtain rfl := List.mem_singleton.mp hp
      rw [length_littleEndian]
    · exact (textImage_bounds hp).1

theorem storeBytes_image {bytes : List Byte}
    (h : storeBytes start (m, c) bytes = .ok (m', c'))
    (hfits : start.toNat + (c.toNat + bytes.length) ≤ 2 ^ 64)
    (hcounter : c.toNat + bytes.length < 2 ^ 32) :
    m.Image m' [(start.toNat + c.toNat, bytes)] := by
  induction bytes generalizing m c with
  | nil =>
    obtain ⟨rfl, -⟩ := Prod.mk.inj (Except.ok.inj h)
    exact .empty m _
  | cons b bytes ih =>
    simp only [List.length_cons] at hfits hcounter
    rw [storeBytes, List.foldlM_cons] at h
    obtain ⟨next, hnext, h⟩ := Loop.bind_eq_ok h
    obtain ⟨m₁, hwrite, hnext⟩ := Loop.bind_eq_ok hnext
    obtain rfl := Except.ok.inj hnext
    obtain ⟨hlt, rfl⟩ := Memory.writeByte_eq_ok_iff.mp hwrite
    have haddress : (start + c.setWidth 64).toNat = start.toNat + c.toNat := by
      rw [BitVec.toNat_add, BitVec.toNat_setWidth]
      omega
    have hnext : (c + 1).toNat = c.toNat + 1 := by
      rw [BitVec.toNat_add]
      show (c.toNat + 1) % 2 ^ 32 = _
      omega
    have hbyte := Memory.image_store b (show m.InRange (start + c.setWidth 64) 1 from
      BitVec.lt_def.mp hlt)
    rw [Memory.store_one, haddress] at hbyte
    have hb : littleEndian b 1 = [b] := by simp [littleEndian]
    rw [hb] at hbyte
    have hrest := ih h (by omega) (by omega)
    rw [hnext, ← Nat.add_assoc] at hrest
    have hboth := hbyte.append (k := start.toNat + c.toNat + 1) hrest
    refine Memory.Image.join (hboth (fun p hp => ?_) (fun p hp => ?_) (by omega))
    · obtain rfl := List.mem_singleton.mp hp
      exact Nat.le_refl _
    · obtain rfl := List.mem_singleton.mp hp
      exact Nat.le_refl _

/-- One element at an offset that the addition to the start does not wrap. -/
theorem storeItem_image {offset : BitVec 32} {item : DataItem}
    (h : storeItem start m offset item = .ok m')
    (hfits : start.toNat + (offset.toNat + item.size) ≤ 2 ^ 64)
    (hoffset : offset.toNat + item.size < 2 ^ 32) :
    m.Image m' [(start.toNat + offset.toNat, item.bytes)] := by
  have haddress (hsize : 0 < item.size) :
      (start + offset.setWidth 64).toNat = start.toNat + offset.toNat := by
    rw [BitVec.toNat_add, BitVec.toNat_setWidth]
    omega
  have hstore {w : Nat} {value : BitVec w} {n : Nat} (hn : item.size = n) (hpos : 0 < n)
      (hstored : m.InRange (start + offset.setWidth 64) n ∧
        m.store (start + offset.setWidth 64) value n = m') :
      m.Image m' [(start.toNat + offset.toNat, littleEndian value n)] := by
    obtain ⟨hrange, rfl⟩ := hstored
    have himage := Memory.image_store value hrange
    rwa [haddress (by omega)] at himage
  cases item with
  | byte x =>
    obtain ⟨hlt, rfl⟩ := Memory.writeByte_eq_ok_iff.mp h
    refine hstore rfl (by decide) ⟨?_, Memory.store_one⟩
    show _ + 1 ≤ _
    exact BitVec.lt_def.mp hlt
  | halfWord x => exact hstore rfl (by decide) (Memory.writeHalfWord_eq_ok_iff.mp h)
  | word x => exact hstore rfl (by decide) (Memory.writeWord_eq_ok_iff.mp h)
  | float x => exact hstore rfl (by decide) (Memory.writeWord_eq_ok_iff.mp h)
  | doubleWord x => exact hstore rfl (by decide) (Memory.writeDoubleWord_eq_ok_iff.mp h)
  | double x => exact hstore rfl (by decide) (Memory.writeDoubleWord_eq_ok_iff.mp h)
  | string bytes =>
    obtain ⟨r, hbytes, h⟩ := Loop.bind_eq_ok h
    obtain rfl := Except.ok.inj h
    exact storeBytes_image hbytes hfits hoffset

theorem alignCounter_toNat {item : DataItem} :
    (itemOffset c item).toNat = alignUp item.alignment.toNat c.toNat % 2 ^ 32 :=
  Alignment.toNat_roundUp item.alignment_pos c

/-- The elements of the data buffer. -/
theorem loadData_image {items : List DataItem} (h : loadData start m c items = .ok m')
    (hfits : start.toNat + dataEnd c.toNat items ≤ 2 ^ 64)
    (hcounter : dataEnd c.toNat items < 2 ^ 32) :
    m.Image m' (dataImage start.toNat c.toNat items) := by
  induction items generalizing m c with
  | nil =>
    obtain rfl := Except.ok.inj h
    exact .refl m
  | cons item items ih =>
    rw [loadData, loadItem_eq] at h
    obtain ⟨r, hitem, h⟩ := Loop.bind_eq_ok h
    obtain ⟨m₁, hstore, hitem⟩ := Loop.bind_eq_ok hitem
    obtain rfl := Except.ok.inj hitem
    have hend := le_dataEnd (alignUp item.alignment.toNat c.toNat + item.size) items
    simp only [dataEnd] at hfits hcounter
    have hoffset : (itemOffset c item).toNat = alignUp item.alignment.toNat c.toNat := by
      rw [alignCounter_toNat, Nat.mod_eq_of_lt (by omega)]
    have hnext : (itemEnd c item).toNat = alignUp item.alignment.toNat c.toNat + item.size := by
      rw [itemEnd, BitVec.toNat_add, hoffset, BitVec.toNat_ofNat]
      omega
    have hpiece := storeItem_image hstore (by omega) (by omega)
    rw [hoffset] at hpiece
    have hrest := ih h (by rw [hnext]; exact hfits) (by rw [hnext]; exact hcounter)
    rw [hnext] at hrest
    refine hpiece.append (k := start.toNat + (alignUp item.alignment.toNat c.toNat + item.size)) hrest
      (fun p hp => ?_) (fun p hp => (dataImage_bounds hp).1) (by omega)
    obtain rfl := List.mem_singleton.mp hp
    rw [DataItem.length_bytes]
    omega

end Vm

/-- The text from address zero on and the data from `data_section_start` on. -/
def AssembledProgram.image (program : AssembledProgram) (config : Config) : List Chunk :=
  textImage 0 program.textBuffer ++ dataImage config.dataSectionStart.toNat 0 program.dataBuffer

/-- The text lies below the data, and the data below the end of the address space. -/
structure AssembledProgram.Fits (program : AssembledProgram) (config : Config) : Prop where
  text : 4 * program.textBuffer.length < 2 ^ 32
  below : 4 * program.textBuffer.length ≤ config.dataSectionStart.toNat
  counter : dataEnd 0 program.dataBuffer < 2 ^ 32
  data : config.dataSectionStart.toNat + dataEnd 0 program.dataBuffer ≤ 2 ^ 64

namespace Vm

variable {v v' : Vm} {config : Config} {program : AssembledProgram}

theorem loadProgram_holds (h : v.loadProgram config program = .ok v') (hfits : program.Fits config) :
    v.core.memory.Image v'.core.memory (program.image config) ∧
      v'.programSize.toNat = 4 * program.textBuffer.length := by
  obtain ⟨⟨memory, counter⟩, htext, h⟩ := Loop.bind_eq_ok h
  obtain ⟨memory', hdata, h⟩ := Loop.bind_eq_ok h
  obtain rfl := Except.ok.inj h
  have htextFits := hfits.text
  refine ⟨(loadText_image htext (by simpa using htextFits)).append (k := 4 * program.textBuffer.length)
    (loadData_image hdata hfits.data hfits.counter) (fun p hp => ?_) (fun p hp => ?_) (by omega), ?_⟩
  · have hp' := (textImage_bounds hp).2
    rwa [Nat.zero_add] at hp'
  · have hp' := (dataImage_bounds hp).1
    have hbelow := hfits.below
    rw [Nat.add_zero] at hp'
    omega
  · show (counter.setWidth 64).toNat = _
    rw [BitVec.toNat_setWidth, Session.loadText_counter htext, BitVec.toNat_add, BitVec.toNat_ofNat]
    show (0 + _ % 2 ^ 32) % 2 ^ 32 % 2 ^ 64 = _
    omega

theorem loadProgram_readWord (h : v.loadProgram config program = .ok v')
    (hfits : program.Fits config) {i : Nat} {w : Instr} (hi : program.textBuffer[i]? = some w) :
    v'.core.memory.readWord (BitVec.ofNat 64 (4 * i)) = .ok w := by
  obtain ⟨himage, -⟩ := loadProgram_holds h hfits
  have hlen := (List.getElem?_eq_some_iff.mp hi).1
  have htext := hfits.text
  have haddress : (BitVec.ofNat 64 (4 * i)).toNat = 4 * i := by
    rw [BitVec.toNat_ofNat, Nat.mod_eq_of_lt (by omega)]
  have hmem : (4 * i, littleEndian w 4) ∈ program.image config := by
    have hmem := mem_textImage (a := 0) hi
    rw [Nat.zero_add] at hmem
    exact List.mem_append_left _ hmem
  have hrange := himage.fits _ hmem (by simp [littleEndian])
  refine Memory.readWord_eq_ok_iff.mpr ⟨?_, himage.load (n := 4) (haddress.symm ▸ hmem)⟩
  rw [Memory.InRange, haddress, himage.size]
  simpa using hrange

/-- The memory after a reset and the load of a program. -/
theorem loadProgram_image (h : v.reset.loadProgram config program = .ok v')
    (hfits : program.Fits config) :
    v'.programSize.toNat = 4 * program.textBuffer.length ∧
    (∀ (i : Nat) (w : Instr), program.textBuffer[i]? = some w →
      v'.core.memory.readWord (BitVec.ofNat 64 (4 * i)) = .ok w) ∧
    (∀ p ∈ dataImage config.dataSectionStart.toNat 0 program.dataBuffer, ∀ (j : Nat) (b : Byte),
      p.2[j]? = some b → v'.core.memory.readByte (BitVec.ofNat 64 (p.1 + j)) = .ok b) ∧
    ∀ x : Word, (∀ p ∈ program.image config, ¬ p.Covers x.toNat) → v'.core.memory.byte x = 0 := by
  obtain ⟨himage, hsize⟩ := loadProgram_holds h hfits
  refine ⟨hsize, fun i w hi => loadProgram_readWord h hfits hi, fun p hp j b hj => ?_, fun x hx => ?_⟩
  · have hmem : p ∈ program.image config := List.mem_append_right _ hp
    have hlen := (List.getElem?_eq_some_iff.mp hj).1
    have hend := himage.fits p hmem (List.ne_nil_of_length_pos (by omega))
    have hs := v.reset.core.memory.size.isLt
    refine Memory.readByte_eq_ok_iff.mpr ⟨?_, himage.inside p hmem j b hj⟩
    rw [BitVec.lt_def, BitVec.toNat_ofNat, himage.size]
    omega
  · rw [himage.outside x hx]
    rfl

/-- A word behind a byte is loaded at the next multiple of four, over zeros. -/
theorem loadProgram_image_padded : ∃ v',
    (initial 0x1000).reset.loadProgram ⟨0x100, 100⟩ ⟨[0x00100093], [.byte 7, .word 0x01020304]⟩ =
      .ok v' ∧
    v'.core.memory.readWord 0 = .ok 0x00100093 ∧ v'.core.memory.byte 0x101 = 0 ∧
    v'.core.memory.readByte 0x104 = .ok 4 := by
  obtain ⟨v', hload, -⟩ := Loop.exists_of_map (show
    ((initial 0x1000).reset.loadProgram ⟨0x100, 100⟩
      ⟨[0x00100093], [.byte 7, .word 0x01020304]⟩).toOption.map (fun v => v.programSize) = some 4 by
    decide +kernel)
  obtain ⟨-, htext, hdata, hzero⟩ := loadProgram_image hload
    ⟨by decide, by decide, by decide, by decide⟩
  refine ⟨v', hload, htext 0 _ rfl, hzero 0x101 fun p hp => ?_,
    hdata (0x104, littleEndian (0x01020304 : BitVec 32) 4) (by decide) 0 4 (by decide)⟩
  revert p
  decide

end Vm

end RiscvSim

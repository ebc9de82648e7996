import RiscvSim.BlockMemory

/-! What a write that throws has done to the memory. The comparison in front of the loop over
the bytes subtracts from the size of the memory, which wraps if the memory is smaller than the
value. -/

namespace RiscvSim

namespace BlockMemory

variable {blockSize : BlockSize} {m : BlockMemory blockSize} {a : Word} {w n k : Nat}
  {value : BitVec w}

theorem write_throw {b : Byte} (h : ¬ a < m.size) : write a b m = .error .memoryOutOfRange m := by
  have hget : (get : Action blockSize (BlockMemory blockSize)) m = .ok m m := rfl
  rw [write, bind_run hget, if_pos (BitVec.not_lt.mp h)]
  rfl

/-- The loop over the bytes stops at the first address out of range and keeps what it has
written. -/
theorem writeGeneric_throw (hkn : k < n) (hn : n < 2 ^ 64)
    (hin : ∀ i < k, a + BitVec.ofNat 64 i < m.size) (hout : ¬ a + BitVec.ofNat 64 k < m.size) :
    ∃ m', writeGeneric a value n m = .error .memoryOutOfRange m' ∧
      m'.toMemory = m.toMemory.store a value k := by
  induction n with
  | zero => omega
  | succ n ih =>
    by_cases hlast : k = n
    · subst hlast
      obtain ⟨m', hfront, hstore⟩ := writeGeneric_run (by omega) hin value
      have hsize : m'.size = m.size := congrArg Memory.size hstore
      refine ⟨m', ?_, hstore⟩
      rw [writeGeneric, bind_run hfront]
      exact write_throw (hsize ▸ hout)
    · obtain ⟨m', hfront, hstore⟩ := ih (by omega) (by omega)
      refine ⟨m', ?_, hstore⟩
      rw [writeGeneric, bind_throw hfront]

/-- In a memory smaller than the value every write throws, after the bytes up to the end of the
memory. -/
theorem guarded_write_small (hn : n < 8) (hsize : m.size.toNat < n) :
    ∃ m', guarded a n (writeGeneric a value (n + 1)) m = .error .memoryOutOfRange m' ∧
      m'.toMemory = m.toMemory.store a value (m.size.toNat - a.toNat) := by
  have ha := a.isLt
  have hget : (get : Action blockSize (BlockMemory blockSize)) m = .ok m m := rfl
  rw [guarded, bind_run hget]
  by_cases hguard : a ≥ m.size - BitVec.ofNat 64 n
  · refine ⟨m, by rw [if_pos hguard]; rfl, ?_⟩
    have hzero : m.size.toNat - a.toNat = 0 := by
      rw [ge_iff_le, BitVec.le_def, BitVec.toNat_sub, BitVec.toNat_ofNat] at hguard
      omega
    rw [hzero, Memory.store_zero]
  · rw [if_neg hguard]
    refine writeGeneric_throw (by omega) (by omega) (fun i hi => ?_) ?_
    · rw [BitVec.lt_def, Memory.add_ofNat_toNat (by omega)]
      omega
    · rcases Nat.lt_or_ge a.toNat m.size.toNat with hlt | hge
      · rw [BitVec.lt_def, Memory.add_ofNat_toNat (by omega)]
        omega
      · rw [Nat.sub_eq_zero_of_le hge, BitVec.lt_def, Memory.add_ofNat_toNat (by omega)]
        omega

section

variable {t : Width}

theorem writeAs_small (hsize : m.size.toNat + 1 < t.bytes) (value : BitVec (8 * t.bytes)) :
    ∃ m', writeAs t a value m = .error .memoryOutOfRange m' ∧
      m'.toMemory = m.toMemory.store a value (m.size.toNat - a.toNat) := by
  cases t with
  | byte => exact absurd hsize (by simp [Width.bytes])
  | halfWord => exact guarded_write_small (n := 1) (by decide) (Nat.lt_of_succ_lt_succ hsize)
  | word => exact guarded_write_small (n := 3) (by decide) (Nat.lt_of_succ_lt_succ hsize)
  | doubleWord => exact guarded_write_small (n := 7) (by decide) (Nat.lt_of_succ_lt_succ hsize)

/-- Storing bytes that are there already changes nothing. -/
theorem store_eq_self_iff {M : Memory} (value : BitVec w) (hk : a.toNat + k ≤ 2 ^ 64) :
    M.store a value k = M ↔
      ∀ i < k, M.byte (a + BitVec.ofNat 64 i) = (value >>> (8 * i)).setWidth 8 := by
  have ha := a.isLt
  constructor
  · intro h i hi
    have hsub : (a + BitVec.ofNat 64 i - a).toNat = i := by
      rw [BitVec.add_comm, BitVec.add_sub_cancel, BitVec.toNat_ofNat]
      omega
    rw [← h]
    simp only [Memory.store, hsub, if_pos hi]
  · intro h
    refine Memory.ext rfl (funext fun x => ?_)
    by_cases hx : (x - a).toNat < k
    · have hback : a + BitVec.ofNat 64 (x - a).toNat = x := by
        rw [BitVec.ofNat_toNat, BitVec.setWidth_eq, BitVec.add_comm, BitVec.sub_add_cancel]
      have hbyte := h _ hx
      rw [hback] at hbyte
      simp only [Memory.store, if_pos hx, hbyte]
    · simp only [Memory.store, if_neg hx]

/-- A write throws exactly if one of its addresses is not below the size, and then every byte
of the memory is as before. -/
def FailsCleanly (t : Width) (a : Word) (value : BitVec (8 * t.bytes)) (m : BlockMemory blockSize) :
    Prop :=
  ((∃ m', writeAs t a value m = .error .memoryOutOfRange m') ↔
    ∃ i < t.bytes, m.size.toNat ≤ a.toNat + i) ∧
  ∀ e m', writeAs t a value m = .error e m' → m'.toMemory.byte = m.toMemory.byte

theorem not_inRange_iff (ht : 0 < n) {M : Memory} :
    ¬ M.InRange a n ↔ ∃ i < n, M.size.toNat ≤ a.toNat + i := by
  rw [Memory.InRange]
  constructor
  · intro h
    exact ⟨n - 1, by omega, by omega⟩
  · rintro ⟨i, hi, hge⟩
    omega

/-- A write fails cleanly exactly if the memory could hold all bytes of the value but one, or the
address is behind its end, or the bytes up to its end are those of the value already. -/
theorem failsCleanly_iff (t : Width) (a : Word) (value : BitVec (8 * t.bytes))
    (m : BlockMemory blockSize) : FailsCleanly t a value m ↔
      (t.bytes ≤ m.size.toNat + 1 ∨ m.size.toNat ≤ a.toNat ∨
        ∀ i < m.size.toNat - a.toNat,
          m.toMemory.byte (a + BitVec.ofNat 64 i) = (value >>> (8 * i)).setWidth 8) := by
  have hbytes : 0 < t.bytes ∧ t.bytes ≤ 8 := by cases t <;> decide
  have hs := m.size.isLt
  have hrange : ¬ m.toMemory.InRange a t.bytes ↔ ∃ i < t.bytes, m.size.toNat ≤ a.toNat + i :=
    not_inRange_iff hbytes.1
  rw [FailsCleanly, ← hrange]
  rcases Nat.lt_or_ge (m.size.toNat + 1) t.bytes with hsmall | hlarge
  · obtain ⟨m', hthrow, hstore⟩ := writeAs_small (a := a) hsmall value
    have hout : ¬ m.toMemory.InRange a t.bytes := by
      rw [Memory.InRange, toMemory_size]
      omega
    have hself := store_eq_self_iff (M := m.toMemory) (a := a) (k := m.size.toNat - a.toNat) value
      (by have := a.isLt; omega)
    constructor
    · intro h
      have hbyte := h.2 _ _ hthrow
      rw [hstore] at hbyte
      exact .inr (.inr (hself.mp (Memory.ext rfl hbyte)))
    · intro h
      refine ⟨⟨fun _ => hout, fun _ => ⟨m', hthrow⟩⟩, fun e m'' h'' => ?_⟩
      obtain ⟨-, rfl⟩ : _ ∧ m' = m'' := EStateM.Result.error.inj (hthrow.symm.trans h'')
      rw [hstore]
      rcases h with h | h | h
      · omega
      · rw [Nat.sub_eq_zero_of_le h, Memory.store_zero]
      · rw [hself.mpr h]
  · refine ⟨fun _ => .inl hlarge, fun _ => ?_⟩
    by_cases hin : m.toMemory.InRange a t.bytes
    · obtain ⟨m', hrun, -⟩ := writeAs_run hlarge hin value
      refine ⟨⟨?_, fun h => absurd hin h⟩, fun e m'' h'' => ?_⟩
      · rintro ⟨m'', h''⟩
        cases hrun.symm.trans h''
      · cases hrun.symm.trans h''
    · have hthrow := writeAs_throw hlarge hin value
      refine ⟨⟨fun _ => hin, fun _ => ⟨m, hthrow⟩⟩, fun e m'' h'' => ?_⟩
      cases hthrow.symm.trans h''
      rfl

/-- Four bytes of memory: the doubleword is half written before the write throws. -/
theorem not_failsCleanly_small : ¬ FailsCleanly .doubleWord 0 0x1122334455667788#64
    (initial ⟨16, by decide⟩ 4) := by
  intro h
  have hsmall : (initial ⟨16, by decide⟩ 4).size.toNat + 1 < Width.doubleWord.bytes := by decide
  obtain ⟨m', hthrow, hstore⟩ := writeAs_small (a := 0) hsmall 0x1122334455667788#64
  have hbyte := congrFun (h.2 _ _ hthrow) 0
  rw [hstore, initial_flat] at hbyte
  exact absurd hbyte (by decide)

end

end BlockMemory

end RiscvSim

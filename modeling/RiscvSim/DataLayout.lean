import RiscvSim.FirstPass
import RiscvSim.LoadOffsets

/-! The data layout of the parser and that of the loader. Both align every element; the parser
also aligns the labels, for the directive that follows the label. -/

namespace RiscvSim

open RiscvSim.Alignment Vm

theorem DataDirective.alignment_cases (d : DataDirective) :
    d.alignment.toNat = 1 ∨ d.alignment.toNat = 2 ∨ d.alignment.toNat = 4 ∨
      d.alignment.toNat = 8 := by
  cases d <;> simp [alignment]

theorem DataDirective.alignment_pos (d : DataDirective) : 0 < d.alignment.toNat := by
  have := d.alignment_cases
  omega

theorem DataDirective.alignment_dvd (d : DataDirective) : d.alignment.toNat ∣ 2 ^ 32 := by
  rcases d.alignment_cases with h | h | h | h <;> rw [h] <;> decide

theorem alignUp_le_limit (d : DataDirective) {n : Nat} (h : n ≤ 2 ^ 32) :
    alignUp d.alignment.toNat n ≤ 2 ^ 32 :=
  alignUp_le d.alignment_pos h (Nat.mod_eq_zero_of_dvd d.alignment_dvd)

theorem alignCounter_ofNat {a : BitVec 32} {d : DataDirective}
    (ha : a.toNat = d.alignment.toNat) (n : Nat) :
    alignCounter (BitVec.ofNat 32 n) a = BitVec.ofNat 32 (alignUp d.alignment.toNat n) := by
  apply BitVec.eq_of_toNat_eq
  rw [alignCounter, toNat_roundUp (by rw [ha]; exact d.alignment_pos), ha, BitVec.toNat_ofNat,
    BitVec.toNat_ofNat, alignUp_mod d.alignment_dvd]

namespace Parser

variable {cfg : ParserConfig} {p q r : Parser} {s s' : Section} {tokens : List Token}
  {d : DataDirective} {items : List DataItem}

theorem align_toNat (d : DataDirective) (h : p.dataIndex.toNat ≤ 2 ^ 32) :
    (p.align d.alignment).dataIndex.toNat = alignUp d.alignment.toNat p.dataIndex.toNat := by
  have hlimit := alignUp_le_limit d h
  have hindex : (p.align d.alignment).dataIndex =
      if p.dataIndex % d.alignment ≠ 0 then
        p.dataIndex + (d.alignment - p.dataIndex % d.alignment)
      else p.dataIndex := by
    unfold align
    split <;> rfl
  rw [hindex, toNat_roundUp d.alignment_pos, Nat.mod_eq_of_lt (by omega)]

/-- An element stands for one item of the directive's alignment, or for some zero bytes. -/
theorem elementItems_cases {value : String} (h : elementItems cfg d value = .ok (some items)) :
    (∃ item : DataItem, items = [item] ∧ item.alignment.toNat = d.alignment.toNat ∧
      0 < item.size) ∨
    d = .zero ∧ ∃ n, 0 < n ∧ items = List.replicate n (.byte 0) := by
  cases d
  case zero =>
    obtain ⟨num, -, h⟩ := Loop.bind_eq_ok h
    refine .inr ⟨rfl, (BitVec.ofInt 64 num).toNat, ?_⟩
    have h := Except.ok.inj h
    split at h
    · rename_i hnum
      obtain rfl := Option.some.inj h
      refine ⟨Nat.pos_of_ne_zero fun hzero => hnum ?_, rfl⟩
      exact BitVec.eq_of_toNat_eq hzero
    · exact nomatch h
  case string =>
    obtain rfl := Option.some.inj (Except.ok.inj h)
    exact .inl ⟨_, rfl, rfl, by simp [DataItem.size]⟩
  all_goals
    obtain ⟨num, -, h⟩ := Loop.bind_eq_ok h
    obtain rfl := Option.some.inj (Except.ok.inj h)
    exact .inl ⟨_, rfl, rfl, by simp [DataItem.size]⟩

/-- The bytes that some items take up. -/
def sizes (items : List DataItem) : Nat := (items.map DataItem.size).sum

/-- How the loader lays out the items of one element. -/
theorem elementItems_layout {value : String}
    (h : elementItems cfg d value = .ok (some items)) (n : Nat) :
    loadEnd (BitVec.ofNat 32 n) items =
        BitVec.ofNat 32 (alignUp d.alignment.toNat n + sizes items) ∧
      ∀ j < items.length, sizes (items.take j) < sizes items ∧
        (loadOffsets (BitVec.ofNat 32 n) items)[j]? =
          some (BitVec.ofNat 32 (alignUp d.alignment.toNat n + sizes (items.take j))) := by
  rcases elementItems_cases h with ⟨item, rfl, ha, hsize⟩ | ⟨rfl, k, -, rfl⟩
  · refine ⟨?_, fun j hj => ?_⟩
    · simp [loadEnd, itemEnd, itemOffset, alignCounter_ofNat ha, sizes, BitVec.ofNat_add]
    · obtain rfl : j = 0 := by simpa using hj
      simpa [loadOffsets, itemOffset, alignCounter_ofNat ha, sizes] using hsize
  · have hone : alignUp DataDirective.zero.alignment.toNat n = n := alignUp_of_aligned (Nat.mod_one n)
    have hbyte (c : BitVec 32) : itemEnd c (.byte 0) = c + 1 := by
      simp [itemEnd, itemOffset, DataItem.alignment, DataItem.size]
    rw [hone]
    clear h hone
    induction k generalizing n with
    | zero => exact ⟨by simp [loadEnd, sizes], by simp⟩
    | succ k ih =>
      obtain ⟨hend, hoffsets⟩ := ih (n + 1)
      have hnext : itemEnd (BitVec.ofNat 32 n) (.byte 0) = BitVec.ofNat 32 (n + 1) := by
        rw [hbyte, BitVec.ofNat_add]
        rfl
      refine ⟨?_, fun j hj => ?_⟩
      · rw [List.replicate_succ, loadEnd, List.foldl_cons, hnext]
        refine hend.trans ?_
        simp [sizes, DataItem.size, Nat.add_assoc, Nat.add_comm 1]
      · rw [List.replicate_succ]
        cases j with
        | zero =>
          refine ⟨by simp [sizes, DataItem.size], ?_⟩
          simp [loadOffsets, itemOffset, DataItem.alignment, sizes]
        | succ j =>
          obtain ⟨hlt, hget⟩ := hoffsets j (by simpa using hj)
          refine ⟨?_, ?_⟩
          · simp only [sizes, List.take_succ_cons, List.map_cons, List.sum_cons] at hlt ⊢
            omega
          · rw [loadOffsets, hnext, List.getElem?_cons_succ, hget]
            simp [sizes, DataItem.size, Nat.add_assoc, Nat.add_comm 1]

/-- A scan in the section `s` is at an element that it places. -/
structure Places (cfg : ParserConfig) (s : Section) (p : Parser) (d : DataDirective)
    (items : List DataItem) : Prop where
  notEof : p.notEof = true
  at_ : s.at_ p.currentToken = .elements d
  type : p.currentToken.type = d.tokenType
  converts : elementItems cfg d p.currentToken.value = .ok (some items)

/-- A scan in the section `s` is at a data label. -/
structure Labels (s : Section) (p : Parser) : Prop where
  notEof : p.notEof = true
  at_ : s.at_ p.currentToken = .data
  type : p.currentToken.type = .LABEL

@[simp] theorem align_dataBuffer (a : Word) : (p.align a).dataBuffer = p.dataBuffer := by
  obtain ⟨i, hi⟩ := align_eq (p := p) a
  rw [hi]

/-- What one step of the scan does to the data. -/
theorem dataStep (hend : p.notEof = true) (h : scanToken cfg (s.at_ p.currentToken) p = .ok q) :
    (q.dataBuffer = p.dataBuffer ∧ (q.dataIndex = p.dataIndex ∨ ∃ b, Labels s p ∧
      DataDirective.ofName (p.peekToken 1).value = some b ∧
      q.dataIndex = (p.align b.alignment).dataIndex)) ∨
    ∃ d items, Places cfg s p d items ∧ q.dataBuffer = p.dataBuffer ++ items ∧
      q.dataIndex = (p.align d.alignment).dataIndex + BitVec.ofNat 64 (sizes items) := by
  cases scanToken_step h with
  | skip => exact .inl ⟨rfl, .inl rfl⟩
  | failed herrors => exact .inl ⟨rfl, .inl rfl⟩
  | element hs htype hitems =>
    rename_i d items
    refine .inr ⟨d, items, ⟨hend, hs, htype, hitems⟩, ?_, rfl⟩
    exact congrArg (· ++ items) (align_dataBuffer d.alignment)
  | label hs htype =>
    refine .inl ?_
    unfold defineDataLabel
    cases hname : DataDirective.ofName (p.peekToken 1).value with
    | none => exact ⟨rfl, .inl rfl⟩
    | some b => exact ⟨align_dataBuffer b.alignment, .inr ⟨b, ⟨hend, hs, htype⟩, rfl, rfl⟩⟩

theorem defineDataLabel_index {b : DataDirective}
    (hb : DataDirective.ofName (p.peekToken 1).value = some b) :
    p.defineDataLabel.dataIndex = (p.align b.alignment).dataIndex := by
  unfold defineDataLabel
  rw [hb]
  rfl

theorem Scan.one (hscanning : p.scanning = true)
    (h : scanToken cfg (s.at_ p.currentToken) p = .ok q) :
    Scan cfg (s, p) (s.next p.currentToken, q) := by
  refine .step hscanning ?_ (.refl _)
  simp only [scanTurn, h, Loop.bind_ok]
  rfl

theorem Scan.buffer (h : Scan cfg (s, p) (s', q)) : p.dataBuffer <+: q.dataBuffer := by
  refine h.keeps (fun _ u => p.dataBuffer <+: u.dataBuffer) List.prefix_rfl ?_
  intro s u v _ hu hscanning hv
  rcases dataStep (scanning_iff.mp hscanning).1 hv with ⟨hbuffer, -⟩ | ⟨d, items, -, hbuffer, -⟩
  · rw [hbuffer]
    exact hu
  · rw [hbuffer]
    exact hu.trans (List.prefix_append _ _)

/-- An element that a scan places is in the buffer after it. -/
theorem Places.buffer (h : Places cfg s p d items) (hscan : Scan cfg (s, p) (s', q))
    (hstop : q.notEof = false) : p.dataBuffer ++ items <+: q.dataBuffer := by
  cases hscan with
  | refl => rw [h.notEof] at hstop; exact nomatch hstop
  | step hcond hbody rest =>
    rename_i x
    obtain ⟨-, htoken⟩ := scanTurn_eq_ok hbody
    have hx := Scan.buffer (s := x.1) (p := x.2) rest
    rw [h.at_] at htoken
    rcases elementTurn_cases htoken with ⟨-, ⟨items', hitems, heq⟩ | ⟨hnone, -⟩⟩ | ⟨hne, -⟩
    · obtain rfl := Option.some.inj (Except.ok.inj (hitems.symm.trans h.converts))
      rw [heq] at hx
      change (p.align d.alignment).dataBuffer ++ items' <+: _ at hx
      rw [align_dataBuffer] at hx
      exact hx
    · exact nomatch hnone.symm.trans h.converts
    · exact absurd h.type hne

/-- Where the buffer grows there is a next element. -/
theorem Scan.exists_places (h : Scan cfg (s, p) (s', q))
    (hlt : p.dataBuffer.length < q.dataBuffer.length) :
    ∃ t u d items, Scan cfg (s, p) (t, u) ∧ u.dataBuffer = p.dataBuffer ∧
      Places cfg t u d items := by
  generalize hx : (s, p) = x at h
  generalize hy : (s', q) = y at h
  induction h generalizing s p with
  | refl x =>
    obtain ⟨-, rfl⟩ := Prod.mk.inj (hx.trans hy.symm)
    exact absurd hlt (Nat.lt_irrefl _)
  | step hcond hbody _ ih =>
    subst hx hy
    rename_i x _
    obtain ⟨hs, htoken⟩ := scanTurn_eq_ok hbody
    rcases dataStep (scanning_iff.mp hcond).1 htoken with
      ⟨hbuffer, -⟩ | ⟨d, items, hplaces, -⟩
    · obtain ⟨t, u, d, items, hscan, hu, hplaces⟩ :=
        ih (s := x.1) (p := x.2) (by rw [hbuffer]; exact hlt) rfl rfl
      exact ⟨t, u, d, items, .step hcond hbody hscan, hu.trans hbuffer, hplaces⟩
    · exact ⟨s, p, d, items, .refl _, rfl, hplaces⟩

/-- The parser places element `i` of the data buffer when its `data_index_` is `index`. -/
def PlacedAt (cfg : ParserConfig) (tokens : List Token) (i : Nat) (index : Word) : Prop :=
  ∃ s p d items j, Scan cfg (.outer, initial tokens) (s, p) ∧ Places cfg s p d items ∧
    j < items.length ∧ i = p.dataBuffer.length + j ∧
    index = ((p.align d.alignment).place (items.take j)).dataIndex

/-- A data label is entered with an address when `i` elements are in the data buffer. -/
def LabelAt (cfg : ParserConfig) (tokens : List Token) (label : String) (i : Nat)
    (address : Word) : Prop :=
  ∃ s p, Scan cfg (.outer, initial tokens) (s, p) ∧ Labels s p ∧ p.currentToken.value = label ∧
    i = p.dataBuffer.length ∧ address = p.defineDataLabel.dataIndex

/-- The loader writes every element where the parser placed it; the address of a data label, which
is that of one of its definitions, is where the first element after the definition is written. -/
structure LayoutAgrees (cfg : ParserConfig) (tokens : List Token) (q : Parser) : Prop where
  elements : ∀ i index, PlacedAt cfg tokens i index → ∃ o, (loadOffsets 0 q.dataBuffer)[i]? = some o ∧
    cfg.dataSectionStart + o.setWidth 64 = cfg.dataSectionStart + index
  labels : ∀ label i address o, LabelAt cfg tokens label i address →
    (loadOffsets 0 q.dataBuffer)[i]? = some o →
    cfg.dataSectionStart + o.setWidth 64 = cfg.dataSectionStart + address
  symbols : ∀ label symbol, q.symbolTable label = some symbol → symbol.isData = true →
    ∃ i, LabelAt cfg tokens label i symbol.address

/-- The elements lie in the first 4 GiB of the data section. -/
def DataFits (cfg : ParserConfig) (tokens : List Token) : Prop :=
  ∀ s p d items, Scan cfg (.outer, initial tokens) (s, p) → Places cfg s p d items →
    (p.align d.alignment).dataIndex.toNat + sizes items ≤ 2 ^ 32

/-- At every data label, aligning for the directive after it has the same result as aligning for
the first element after it. -/
def LabelsAligned (cfg : ParserConfig) (tokens : List Token) : Prop :=
  ∀ s p b t u d items, Scan cfg (.outer, initial tokens) (s, p) → Labels s p →
    DataDirective.ofName (p.peekToken 1).value = some b →
    Scan cfg (s, p) (t, u) → u.dataBuffer = p.dataBuffer → Places cfg t u d items →
    (p.align b.alignment).dataIndex = (p.align d.alignment).dataIndex

section

variable (hfits : DataFits cfg tokens)
include hfits

theorem place_toNat (hscan : Scan cfg (.outer, initial tokens) (s, p))
    (hplaces : Places cfg s p d items) (hindex : p.dataIndex.toNat ≤ 2 ^ 32) :
    alignUp d.alignment.toNat p.dataIndex.toNat + sizes items ≤ 2 ^ 32 ∧
    ∀ k ≤ sizes items, ((p.align d.alignment).dataIndex + BitVec.ofNat 64 k).toNat =
      alignUp d.alignment.toNat p.dataIndex.toNat + k := by
  have h := hfits s p d items hscan hplaces
  rw [align_toNat d hindex] at h
  refine ⟨h, fun k hk => ?_⟩
  rw [BitVec.toNat_add, BitVec.toNat_ofNat, align_toNat d hindex, Nat.mod_eq_of_lt (by omega),
    Nat.mod_eq_of_lt (by omega)]

theorem Scan.index_le (h : Scan cfg (.outer, initial tokens) (s, p)) :
    p.dataIndex.toNat ≤ 2 ^ 32 := by
  refine h.keeps (fun _ u => u.dataIndex.toNat ≤ 2 ^ 32) (Nat.zero_le _) ?_
  intro s u v hscan hu hscanning hv
  rcases dataStep (scanning_iff.mp hscanning).1 hv with ⟨-, hindex | ⟨b, -, -, hindex⟩⟩ | ⟨d, items, hplaces, -, hindex⟩
  · rw [hindex]
    exact hu
  · rw [hindex, align_toNat b hu]
    exact alignUp_le_limit b hu
  · obtain ⟨hle, hplace⟩ := place_toNat hfits hscan hplaces hu
    rw [hindex, hplace _ (Nat.le_refl _)]
    exact hle

theorem Scan.index_mono (h₀ : Scan cfg (.outer, initial tokens) (s, p))
    (h : Scan cfg (s, p) (s', q)) : p.dataIndex.toNat ≤ q.dataIndex.toNat := by
  refine h.keeps (fun _ u => p.dataIndex.toNat ≤ u.dataIndex.toNat) (Nat.le_refl _) ?_
  intro s u v hscan hu hscanning hv
  have hindex := Scan.index_le hfits (h₀.trans hscan)
  rcases dataStep (scanning_iff.mp hscanning).1 hv with
    ⟨-, hsame | ⟨b, -, -, hlabel⟩⟩ | ⟨d, items, hplaces, -, hplaced⟩
  · rw [hsame]
    exact hu
  · rw [hlabel, align_toNat b hindex]
    exact Nat.le_trans hu (le_alignUp _ _)
  · obtain ⟨-, hplace⟩ := place_toNat hfits (h₀.trans hscan) hplaces hindex
    have := le_alignUp d.alignment.toNat u.dataIndex.toNat
    rw [hplaced, hplace _ (Nat.le_refl _)]
    omega

/-- The next element is aligned alike by the parser and by the loader. -/
def InStep (cfg : ParserConfig) (s : Section) (p : Parser) (n : Nat) : Prop :=
  ∀ t u d items, Scan cfg (s, p) (t, u) → u.dataBuffer = p.dataBuffer → Places cfg t u d items →
    alignUp d.alignment.toNat p.dataIndex.toNat = alignUp d.alignment.toNat n

theorem inStep_of_aligned (haligned : LabelsAligned cfg tokens)
    (h : Scan cfg (.outer, initial tokens) (s, p)) :
    ∃ n ≤ 2 ^ 32, loadEnd 0 p.dataBuffer = BitVec.ofNat 32 n ∧ InStep cfg s p n := by
  refine h.keeps (fun s u => ∃ n ≤ 2 ^ 32, loadEnd 0 u.dataBuffer = BitVec.ofNat 32 n ∧
    InStep cfg s u n) ⟨0, Nat.zero_le _, rfl, fun _ _ _ _ _ _ _ => rfl⟩ ?_
  rintro s u v hscan ⟨n, hn, hload, hstep⟩ hscanning hv
  have hindex := Scan.index_le hfits hscan
  have hone := Scan.one hscanning hv
  rcases dataStep (scanning_iff.mp hscanning).1 hv with
    ⟨hbuffer, hsame | ⟨b, hlabels, hb, hlabel⟩⟩ | ⟨d, items, hplaces, hbuffer, hplaced⟩
  · refine ⟨n, hn, by rw [hbuffer, hload], fun t w d items hw hwbuffer hplaces => ?_⟩
    rw [hsame]
    exact hstep t w d items (hone.trans hw) (hwbuffer.trans hbuffer) hplaces
  · refine ⟨n, hn, by rw [hbuffer, hload], fun t w d items hw hwbuffer hplaces => ?_⟩
    have hnext := hone.trans hw
    have heq := haligned s u b t w d items hscan hlabels hb hnext (hwbuffer.trans hbuffer) hplaces
    rw [hlabel, heq, align_toNat d hindex, alignUp_alignUp d.alignment_pos]
    exact hstep t w d items hnext (hwbuffer.trans hbuffer) hplaces
  · obtain ⟨hle, hplace⟩ := place_toNat hfits hscan hplaces hindex
    have hn' := hstep s u d items (.refl _) rfl hplaces
    refine ⟨alignUp d.alignment.toNat n + sizes items, by omega, ?_, fun t w d' items' _ _ _ => ?_⟩
    · rw [hbuffer, loadEnd_append, hload, (elementItems_layout hplaces.converts n).1]
    · rw [hplaced, hplace _ (Nat.le_refl _), hn']

end

/-- Where the loader writes what a scan places. -/
theorem Places.offset {n j : Nat} {buffer : List DataItem} (hplaces : Places cfg s p d items)
    (hbuffer : p.dataBuffer ++ items <+: buffer)
    (hload : loadEnd 0 p.dataBuffer = BitVec.ofNat 32 n) (hj : j < items.length) :
    (loadOffsets 0 buffer)[p.dataBuffer.length + j]? =
      some (BitVec.ofNat 32 (alignUp d.alignment.toNat n + sizes (items.take j))) := by
  obtain ⟨rest, rfl⟩ := hbuffer
  have hlength : j < (loadOffsets (loadEnd 0 p.dataBuffer) items).length := by simpa using hj
  rw [List.append_assoc, loadOffsets_append, List.getElem?_append_right (by simp),
    loadOffsets_length, Nat.add_sub_cancel_left, loadOffsets_append,
    List.getElem?_append_left hlength, hload]
  exact ((elementItems_layout hplaces.converts n).2 j hj).2

/-- A scan without an error finds a directive after each data label. -/
theorem Labels.directive (h : Labels s p) (hscan : Scan cfg (s, p) (s', q))
    (hstop : q.notEof = false) (hcount : q.errors.count = 0) :
    ∃ b, DataDirective.ofName (p.peekToken 1).value = some b := by
  cases hname : DataDirective.ofName (p.peekToken 1).value with
  | some b => exact ⟨b, rfl⟩
  | none =>
    exfalso
    cases hscan with
    | refl => rw [h.notEof] at hstop; cases hstop
    | step hcond hbody rest =>
      rename_i x
      obtain ⟨-, htoken⟩ := scanTurn_eq_ok hbody
      have hx := Scan.count (s := x.1) (p := x.2) rest
      rw [h.at_, scanToken, if_neg (by simp [h.type])] at htoken
      rcases dataTurn_cases htoken with ⟨-, heq⟩ | ⟨hne, -⟩
      · rcases defineDataLabel_cases (p := p) with ⟨d, hd, -⟩ | ⟨-, herrors⟩
        · rw [hname] at hd
          cases hd
        · rw [heq] at hx
          change p.defineDataLabel.errors.count ≤ _ at hx
          omega
      · exact hne h.type

theorem Scan.to_end {x y z : Section × Parser} (h : Scan cfg x y) (h' : Scan cfg x z)
    (hstop : z.2.notEof = false) : Scan cfg y z :=
  h.compare h' (by simp [scanning, hstop])

/-- The data symbols of a scan are labels that it was at. -/
theorem Scan.symbol_label (h : Scan cfg (.outer, initial tokens) (s, p)) {label : String}
    {symbol : SymbolData} (hsymbol : p.symbolTable label = some symbol) :
    ∃ i, LabelAt cfg tokens label i symbol.address := by
  refine h.keeps (fun _ u => ∀ symbol, u.symbolTable label = some symbol →
    ∃ i, LabelAt cfg tokens label i symbol.address) (fun _ h => absurd h (by simp [initial])) ?_
    symbol hsymbol
  intro s u v hscan hu hscanning hv symbol hsymbol
  rcases (scanToken_step hv).symbols hsymbol with hold | ⟨hs, htype, rfl, rfl⟩
  · exact hu symbol hold
  · exact ⟨_, s, u, hscan, ⟨(scanning_iff.mp hscanning).1, hs, htype⟩, rfl, rfl, rfl⟩

theorem patch_dataBuffer (i : Nat) : (p.patch i).dataBuffer = p.dataBuffer := by
  unfold patch
  split
  · rfl
  · split
    · split
      · split
        · unfold patchOffset
          dsimp only
          split <;> rfl
        · rfl
      · split
        · unfold patchOffset
          dsimp only
          split <;> rfl
        · rfl
    · rfl

theorem patches_dataBuffer (back : List Nat) : (back.foldl patch p).dataBuffer = p.dataBuffer := by
  induction back generalizing p with
  | nil => rfl
  | cons i back ih => exact ih.trans (patch_dataBuffer i)

/-- The second pass places no elements and enters no data labels. -/
theorem Accepted.data (hlexed : LexedTokens tokens) (h : Accepted cfg tokens p r q) :
    q.dataBuffer = p.dataBuffer ∧ ∀ label symbol, q.symbolTable label = some symbol →
      symbol.isData = true → p.symbolTable label = some symbol := by
  have hP : TextInvariant cfg p.restart fun u => u.dataBuffer = p.dataBuffer ∧
      ∀ label symbol, u.symbolTable label = some symbol → symbol.isData = true →
        p.symbolTable label = some symbol :=
    { skip := fun _ _ _ hu _ => hu
      step := fun u v _ hu hstep => by
        cases hstep with
        | label htype hnew =>
          refine ⟨hu.1, fun label symbol hsymbol hdata => ?_⟩
          change (if label = u.currentToken.value then _ else u.symbolTable label) = _ at hsymbol
          split at hsymbol
          · obtain rfl := Option.some.inj hsymbol
            exact nomatch hdata
          · exact hu.2 label symbol hsymbol hdata
        | failed hr herrors => exact hu
        | emitted hr h => exact hu }
  obtain ⟨hbuffer, hsymbols⟩ := h.text hlexed hP ⟨rfl, fun _ _ hsymbol _ => hsymbol⟩
  rw [h.patched, patches_dataBuffer, ← h.patched, (h.code hlexed).2]
  exact ⟨hbuffer, hsymbols⟩

/-- The offset of the first element after a position of the scan. -/
theorem firstOffset {n : Nat} {t : Section} {u : Parser} (hfits : DataFits cfg tokens)
    (hscan : Scan cfg (.outer, initial tokens) (s, p)) (hu : Scan cfg (s, p) (t, u))
    (hbuffer : u.dataBuffer = p.dataBuffer) (hplaces : Places cfg t u d items)
    (hload : loadEnd 0 p.dataBuffer = BitVec.ofNat 32 n) :
    alignUp d.alignment.toNat p.dataIndex.toNat < 2 ^ 32 ∧ 0 < items.length ∧
      ∀ buffer, u.dataBuffer ++ items <+: buffer → (loadOffsets 0 buffer)[p.dataBuffer.length]? =
        some (BitVec.ofNat 32 (alignUp d.alignment.toNat n)) := by
  have huscan := hscan.trans hu
  have hle := (place_toNat hfits huscan hplaces (Scan.index_le hfits huscan)).1
  have hmono := alignUp_mono d.alignment_pos (Scan.index_mono hfits hscan hu)
  have hpos : 0 < items.length := by
    rcases elementItems_cases hplaces.converts with ⟨item, rfl, -, -⟩ | ⟨-, k, hk, rfl⟩
    · exact Nat.zero_lt_one
    · simpa using hk
  have hsize := ((elementItems_layout hplaces.converts 0).2 0 hpos).1
  refine ⟨?_, hpos, fun buffer hprefix => ?_⟩
  · simp only [List.take_zero, sizes, List.map_nil, List.sum_nil] at hsize hle
    omega
  · have hoffset := hplaces.offset hprefix (by rw [hbuffer]; exact hload) hpos
    rw [hbuffer] at hoffset
    simpa [sizes] using hoffset

theorem setWidth_eq {o : BitVec 32} {x : Word} : o.setWidth 64 = x ↔ o.toNat = x.toNat := by
  rw [← BitVec.toNat_inj, BitVec.toNat_setWidth, Nat.mod_eq_of_lt (by omega)]

theorem agrees_iff {start : Word} {n : Nat} {x : Word} :
    start + (BitVec.ofNat 32 n).setWidth 64 = start + x ↔ n % 2 ^ 32 = x.toNat := by
  rw [← BitVec.toNat_ofNat n 32, ← setWidth_eq]
  exact ⟨fun h => BitVec.add_right_inj _ |>.mp h, fun h => h ▸ rfl⟩

section

variable {p' : Parser} (hlexed : LexedTokens tokens) (h : Accepted cfg tokens p r q)
  (hfits : DataFits cfg tokens)
include hlexed h hfits

theorem layoutAgrees_of_aligned (haligned : LabelsAligned cfg tokens) :
    LayoutAgrees cfg tokens q := by
  obtain ⟨sEnd, hend⟩ := h.scan
  obtain ⟨hbuffer, hsymbols⟩ := h.data hlexed
  refine ⟨fun i index hplaced => ?_, fun label i address o hlabel ho => ?_,
    fun label symbol hsymbol hdata => hend.symbol_label (hsymbols label symbol hsymbol hdata)⟩
  · obtain ⟨s, u, d, items, j, hscan, hplaces, hj, rfl, rfl⟩ := hplaced
    obtain ⟨n, hn, hload, hstep⟩ := inStep_of_aligned hfits haligned hscan
    obtain ⟨hle, hplace⟩ := place_toNat hfits hscan hplaces (Scan.index_le hfits hscan)
    have hprefix := hplaces.buffer (Scan.to_end hscan hend h.stop) h.stop
    rw [hbuffer]
    refine ⟨_, hplaces.offset hprefix hload hj, agrees_iff.mpr ?_⟩
    have hlt := ((elementItems_layout hplaces.converts n).2 j hj).1
    have hindex : ((u.align d.alignment).place (items.take j)).dataIndex =
        (u.align d.alignment).dataIndex + BitVec.ofNat 64 (sizes (items.take j)) := rfl
    rw [hindex, hplace _ (Nat.le_of_lt hlt), ← hstep s u d items (.refl _) rfl hplaces,
      Nat.mod_eq_of_lt (by omega)]
  · obtain ⟨s, u, hscan, hlabels, rfl, rfl, rfl⟩ := hlabel
    obtain ⟨n, hn, hload, hstep⟩ := inStep_of_aligned hfits haligned hscan
    have hrest := Scan.to_end hscan hend h.stop
    obtain ⟨hlt, -⟩ := List.getElem?_eq_some_iff.mp ho
    rw [loadOffsets_length, hbuffer] at hlt
    obtain ⟨t, w, d, items, hw, hwbuffer, hplaces⟩ := hrest.exists_places hlt
    obtain ⟨b, hb⟩ := hlabels.directive hrest h.stop h.first
    have hindex := Scan.index_le hfits hscan
    have hfirst := firstOffset hfits hscan hw hwbuffer hplaces hload
    have hstart := hplaces.buffer (hw.to_end hrest h.stop) h.stop
    rw [hbuffer, hfirst.2.2 _ hstart] at ho
    obtain rfl := Option.some.inj ho
    rw [agrees_iff, defineDataLabel_index hb,
      haligned s u b t w d items hscan hlabels hb hw hwbuffer hplaces, align_toNat d hindex,
      hstep t w d items hw hwbuffer hplaces, Nat.mod_eq_of_lt]
    have := hstep t w d items hw hwbuffer hplaces
    omega

/-- Where the layouts agree, the loader is never ahead of the parser. -/
theorem loaded_le (hagrees : LayoutAgrees cfg tokens q)
    (hscan : Scan cfg (.outer, initial tokens) (s, p')) :
    ∃ n ≤ p'.dataIndex.toNat, loadEnd 0 p'.dataBuffer = BitVec.ofNat 32 n := by
  obtain ⟨sEnd, hend⟩ := h.scan
  obtain ⟨hbuffer, -⟩ := h.data hlexed
  refine hscan.keeps (fun _ u => ∃ n ≤ u.dataIndex.toNat,
    loadEnd 0 u.dataBuffer = BitVec.ofNat 32 n) ⟨0, Nat.zero_le _, rfl⟩ ?_
  rintro s u v hscan ⟨n, hn, hload⟩ hscanning hv
  have hindex := Scan.index_le hfits hscan
  rcases dataStep (scanning_iff.mp hscanning).1 hv with
    ⟨hsame, -⟩ | ⟨d, items, hplaces, hnext, hplaced⟩
  · have hmono := Scan.index_mono hfits hscan (Scan.one hscanning hv)
    exact ⟨n, Nat.le_trans hn hmono, by rw [hsame, hload]⟩
  · obtain ⟨-, hplace⟩ := place_toNat hfits hscan hplaces hindex
    obtain ⟨hlt, hpos, hoffset⟩ := firstOffset hfits hscan (.refl _) rfl hplaces hload
    have hprefix := hplaces.buffer (Scan.to_end hscan hend h.stop) h.stop
    obtain ⟨o, ho, hsum⟩ := hagrees.elements _ _ ⟨s, u, d, items, 0, hscan, hplaces, hpos, rfl, rfl⟩
    rw [hbuffer, Nat.add_zero, hoffset _ hprefix] at ho
    obtain rfl := Option.some.inj ho
    have hzero : ((u.align d.alignment).place (items.take 0)).dataIndex =
        (u.align d.alignment).dataIndex + BitVec.ofNat 64 0 := rfl
    have hle := alignUp_mono d.alignment_pos hn
    rw [agrees_iff, hzero, hplace 0 (Nat.zero_le _), Nat.mod_eq_of_lt (by omega)] at hsum
    refine ⟨alignUp d.alignment.toNat n + sizes items, ?_, ?_⟩
    · rw [hplaced, hplace _ (Nat.le_refl _)]
      omega
    · rw [hnext, loadEnd_append, hload, (elementItems_layout hplaces.converts n).1]

theorem aligned_of_layoutAgrees (hagrees : LayoutAgrees cfg tokens q) :
    LabelsAligned cfg tokens := by
  intro s u b t w d items hscan hlabels hb hw hwbuffer hplaces
  obtain ⟨sEnd, hend⟩ := h.scan
  obtain ⟨hbuffer, -⟩ := h.data hlexed
  obtain ⟨n, hn, hload⟩ := loaded_le hlexed h hfits hagrees hscan
  have hindex := Scan.index_le hfits hscan
  obtain ⟨hlt, -, hoffset⟩ := firstOffset hfits hscan hw hwbuffer hplaces hload
  have hprefix := hplaces.buffer (hw.to_end (Scan.to_end hscan hend h.stop) h.stop) h.stop
  have hlabel := hagrees.labels _ _ _ _ ⟨s, u, hscan, hlabels, rfl, rfl, rfl⟩
    (by rw [hbuffer]; exact hoffset _ hprefix)
  have hle := alignUp_mono d.alignment_pos hn
  rw [agrees_iff, defineDataLabel_index hb, align_toNat b hindex,
    Nat.mod_eq_of_lt (by omega)] at hlabel
  apply BitVec.eq_of_toNat_eq
  have hx := le_alignUp b.alignment.toNat u.dataIndex.toNat
  rw [align_toNat b hindex, align_toNat d hindex, ← hlabel]
  exact (alignUp_between d.alignment_pos hn (by omega)).symm

end

/-- What a scan places, for evaluation. -/
def placed (cfg : ParserConfig) (x : Section × Parser) : List (DataDirective × List DataItem) :=
  match x.1.at_ x.2.currentToken with
  | .elements d =>
    if x.2.notEof ∧ x.2.currentToken.type = d.tokenType then
      match elementItems cfg d x.2.currentToken.value with
      | .ok (some items) => [(d, items)]
      | _ => []
    else []
  | _ => []

theorem mem_placed : (d, items) ∈ placed cfg (s, p) ↔ Places cfg s p d items := by
  constructor
  · intro h
    unfold placed at h
    split at h
    · rename_i d' hat
      split at h
      · rename_i htype
        split at h
        · rename_i items' hitems
          obtain ⟨rfl, rfl⟩ := Prod.mk.inj (List.mem_singleton.mp h)
          exact ⟨htype.1, hat, htype.2, hitems⟩
        · exact absurd h List.not_mem_nil
      · exact absurd h List.not_mem_nil
    · exact absurd h List.not_mem_nil
  · intro h
    simp [placed, h.at_, h.notEof, h.type, h.converts]

/-- All positions of a scan of few tokens. -/
def positions (cfg : ParserConfig) (tokens : List Token) : List (Section × Parser) :=
  Loop.trace (fun x => x.2.scanning) (scanTurn cfg) (tokens.length + 2) (.outer, initial tokens)

theorem dataFits_of_positions (hlength : (positions cfg tokens).length ≤ tokens.length + 2)
    (h : ∀ x ∈ positions cfg tokens, ∀ y ∈ placed cfg x,
      (x.2.align y.1.alignment).dataIndex.toNat + sizes y.2 ≤ 2 ^ 32) : DataFits cfg tokens := by
  intro s p d items hscan hplaces
  have hmem : (s, p) ∈ positions cfg tokens := Loop.Steps.mem_trace hscan hlength
  exact h (s, p) hmem (d, items) (mem_placed.mpr hplaces)

/-- The layouts agree if and only if each data label is aligned like the element it is for. -/
theorem layout_agrees_iff (hlexed : LexedTokens tokens) (haccepts : Accepts cfg tokens q)
    (hfits : DataFits cfg tokens) : LayoutAgrees cfg tokens q ↔ LabelsAligned cfg tokens := by
  obtain ⟨p, r, h⟩ := accepted_of_accepts hlexed haccepts
  exact ⟨aligned_of_layoutAgrees hlexed h hfits, layoutAgrees_of_aligned hlexed h hfits⟩

/-- `.data`, `x: .word 1` and `.byte 2` -/
def labelledWord : List Token :=
  [⟨.DIRECTIVE, "data", 1, 1⟩, ⟨.LABEL, "x", 2, 1⟩, ⟨.DIRECTIVE, "word", 2, 4⟩,
   ⟨.NUM, "1", 2, 10⟩, ⟨.DIRECTIVE, "byte", 3, 1⟩, ⟨.NUM, "2", 3, 7⟩, ⟨.EOF_, "", 3, 8⟩]

theorem layout_agrees_iff_labelledWord :
    ∃ q, Accepts ParserConfig.default labelledWord q ∧
      (LayoutAgrees ParserConfig.default labelledWord q ↔
        LabelsAligned ParserConfig.default labelledWord) := by
  have hlexed : LexedTokens labelledWord := by
    intro t ht
    simp only [labelledWord, List.mem_cons, List.not_mem_nil, or_false] at ht
    rcases ht with rfl | rfl | rfl | rfl | rfl | rfl | rfl
    case inr.inr.inr.inl => exact ⟨1, rfl, by decide, by decide⟩
    case inr.inr.inr.inr.inr.inl => exact ⟨2, rfl, by decide, by decide⟩
    all_goals simp [Token.Lexed]
  obtain ⟨q, haccepts⟩ : ∃ q, Accepts ParserConfig.default labelledWord q :=
    accepts_of_parse (n := 8) (by decide +kernel)
  exact ⟨q, haccepts, layout_agrees_iff hlexed haccepts
    (dataFits_of_positions (by decide +kernel) (by decide +kernel))⟩

/-- `.data`, `.byte 1`, `x: .word` and `.byte 2`: the label is aligned for a directive without
elements. -/
def emptyWord : List Token :=
  [⟨.DIRECTIVE, "data", 1, 1⟩, ⟨.DIRECTIVE, "byte", 2, 1⟩, ⟨.NUM, "1", 2, 7⟩,
   ⟨.LABEL, "x", 3, 1⟩, ⟨.DIRECTIVE, "word", 3, 4⟩, ⟨.DIRECTIVE, "byte", 4, 1⟩, ⟨.NUM, "2", 4, 7⟩,
   ⟨.EOF_, "", 4, 8⟩]

theorem emptyWord_lexed : LexedTokens emptyWord := by
  intro t ht
  simp only [emptyWord, List.mem_cons, List.not_mem_nil, or_false] at ht
  rcases ht with rfl | rfl | rfl | rfl | rfl | rfl | rfl | rfl
  case inr.inr.inl => exact ⟨1, rfl, by decide, by decide⟩
  case inr.inr.inr.inr.inr.inr.inl => exact ⟨2, rfl, by decide, by decide⟩
  all_goals simp [Token.Lexed]

theorem emptyWord_accepts : ∃ q, Accepts ParserConfig.default emptyWord q :=
  accepts_of_parse (n := 9) (by decide +kernel)

theorem emptyWord_fits : DataFits ParserConfig.default emptyWord :=
  dataFits_of_positions (by decide +kernel) (by decide +kernel)

theorem emptyWord_misaligned : ∃ x ∈ positions ParserConfig.default emptyWord,
    (x.2.notEof = true ∧ x.1.at_ x.2.currentToken = .data ∧ x.2.currentToken.type = .LABEL) ∧
    ∃ b ∈ (DataDirective.ofName (x.2.peekToken 1).value).toList,
    ∃ y ∈ Loop.trace (fun x => x.2.scanning) (scanTurn ParserConfig.default) 4 x,
    ∃ z ∈ placed ParserConfig.default y, y.2.dataBuffer = x.2.dataBuffer ∧
      (x.2.align b.alignment).dataIndex ≠ (x.2.align z.1.alignment).dataIndex := by
  decide +kernel

theorem layout_disagrees_emptyWord :
    ∃ q, LexedTokens emptyWord ∧ Accepts ParserConfig.default emptyWord q ∧
      DataFits ParserConfig.default emptyWord ∧
      ¬ LayoutAgrees ParserConfig.default emptyWord q := by
  obtain ⟨q, haccepts⟩ := emptyWord_accepts
  refine ⟨q, emptyWord_lexed, haccepts, emptyWord_fits, fun hagrees => ?_⟩
  obtain ⟨p, r, h⟩ := accepted_of_accepts emptyWord_lexed haccepts
  have haligned := aligned_of_layoutAgrees emptyWord_lexed h emptyWord_fits hagrees
  obtain ⟨x, hx, hlabel, b, hb, y, hy, z, hz, hbuffer, hne⟩ := emptyWord_misaligned
  have hscan : Scan ParserConfig.default (.outer, initial emptyWord) x := Loop.steps_of_mem_trace hx
  have hnext : Scan ParserConfig.default x y := Loop.steps_of_mem_trace hy
  exact hne (haligned x.1 x.2 b y.1 y.2 z.1 z.2 hscan ⟨hlabel.1, hlabel.2.1, hlabel.2.2⟩ (Option.mem_toList.mp hb) hnext
    hbuffer (mem_placed.mp hz))

end Parser

end RiscvSim

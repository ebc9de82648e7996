import RiscvSim.LineMaps
import RiscvSim.ProgramParse

/-! The passes of the parser over a program: up to the first error they keep a draft of each operation,
and they record an error exactly where the program cannot be linked. -/

namespace RiscvSim

open InstructionSet

variable {mExtension : Bool} {ops : List Operation} {table : List (String × Nat)} {op : Operation}
  {u : ICUnit} {i : Instruction} {k k' : Nat} {label : String}

theorem distance_eq (hk : 4 * k < 2 ^ 32) (hk' : 4 * k' < 2 ^ 32) :
    (Parser.textAddress k' - Parser.textAddress k).toInt = distance k k' := by
  rw [← ofInt_distance hk hk', BitVec.toInt_ofInt, distance]
  apply Int.bmod_eq_of_le <;> omega

namespace Operation

/-- The immediate of a unit is the offset to the label of its operation. -/
def Placed (table : List (String × Nat)) (k : Nat) (op : Operation) (u : ICUnit) : Prop :=
  ∀ label, op.reference = some label → ∃ k', table.lookup label = some k' ∧
    op.reaches (distance k k') = true ∧ u.imm = toString (distance k k')

theorem Placed.append {table' : List (String × Nat)} (h : op.Placed table k u) :
    op.Placed (table ++ table') k u := by
  intro label hreference
  obtain ⟨k', hlookup, hreach⟩ := h label hreference
  exact ⟨k', by rw [List.lookup_append, hlookup]; rfl, hreach⟩

/-- A unit with all its operands spells the linked instruction. -/
theorem Draft.spells (h : op.Draft u) (henabled : op.enabled mExtension = true)
    (hplaced : op.Placed table k u) :
    ∃ i, op.link mExtension (fun label => table.lookup label) k = some i ∧ u.Spells i := by
  cases h with
  | instruction hspells =>
    exact ⟨_, link_eq_some_iff.mpr ⟨henabled, .inl ⟨rfl, rfl⟩⟩, hspells⟩
  | @branch op rs1 rs2 label _ hop hrs1 hrs2 hlabel =>
    obtain ⟨k', hlookup, hreach, himm⟩ := hplaced label rfl
    refine ⟨_, link_eq_some_iff.mpr ⟨henabled, .inr ⟨label, k', rfl, hlookup, hreach, rfl⟩⟩, ?_⟩
    have hreach : -4096 ≤ distance k k' ∧ distance k k' ≤ 4095 := of_decide_eq_true hreach
    exact .branch op hop hrs1 hrs2 himm hreach.1 hreach.2
  | @jal rd label _ hop hrd hlabel =>
    obtain ⟨k', hlookup, hreach, himm⟩ := hplaced label rfl
    refine ⟨_, link_eq_some_iff.mpr ⟨henabled, .inr ⟨label, k', rfl, hlookup, hreach, rfl⟩⟩, ?_⟩
    have hreach : -1048576 ≤ distance k k' ∧ distance k k' ≤ 1048575 := of_decide_eq_true hreach
    exact .jal hop hrd himm hreach.1 hreach.2

end Operation

/-- No program that begins like this can be linked. -/
def Wrong (mExtension : Bool) (ops : List Operation) (table : List (String × Nat)) : Prop :=
  ¬ (table.map Prod.fst).Nodup ∨ ∃ (k : Nat) (op : Operation), ops[k]? = some op ∧
    (op.enabled mExtension = false ∨ ∃ label k', op.reference = some label ∧
      table.lookup label = some k' ∧ op.reaches (distance k k') = false)

theorem Wrong.append (h : Wrong mExtension ops table) (ops' : List Operation)
    (table' : List (String × Nat)) : Wrong mExtension (ops ++ ops') (table ++ table') := by
  rcases h with hnodup | ⟨k, op, hop, h⟩
  · refine .inl fun h => hnodup ?_
    rw [List.map_append] at h
    exact (List.nodup_append.mp h).1
  · have hlt := (List.getElem?_eq_some_iff.mp hop).1
    refine .inr ⟨k, op, by rw [List.getElem?_append_left hlt, hop], ?_⟩
    rcases h with h | ⟨label, k', hreference, hlookup, hfar⟩
    · exact .inl h
    · exact .inr ⟨label, k', hreference, by rw [List.lookup_append, hlookup]; rfl, hfar⟩

/-- The state of the parser behind some operations and labels, without an error. The units at `back`
wait for their labels. -/
structure Drafts (mExtension : Bool) (ops : List Operation) (table : List (String × Nat))
    (back : List Nat) (p : Parser) : Prop where
  errors : p.errors.count = 0
  index : p.instructionIndex = ops.length
  length : p.intermediateCode.length = ops.length
  nodup : (table.map Prod.fst).Nodup
  bound : ∀ entry ∈ table, entry.2 ≤ ops.length
  symbols : ∀ label, (p.symbolTable label).map (fun s => (s.address, s.isData)) =
    (table.lookup label).map fun k => (Parser.textAddress k, false)
  units : ∀ (k : Nat) (op : Operation), ops[k]? = some op → op.enabled mExtension = true ∧
    ∃ u b, p.intermediateCode[k]? = some (u, b) ∧ op.Draft u ∧ (k ∈ back ∨ op.Placed table k u)
  back : ∀ i ∈ back, ∃ op label, ops[i]? = some op ∧ op.reference = some label
  data : p.dataBuffer = []

/-- The parser on its way through a program. -/
def Pass (mExtension : Bool) (ops : List Operation) (table : List (String × Nat)) (p : Parser) : Prop :=
  Drafts mExtension ops table p.backPatch p ∨ 0 < p.errors.count ∧ Wrong mExtension ops table

namespace Drafts

variable {back : List Nat} {p q : Parser} {address : Word} {line : Nat}

theorem initial (tokens : List Token) : Drafts mExtension [] [] [] (.initial tokens) where
  errors := rfl
  index := rfl
  length := rfl
  nodup := List.nodup_nil
  bound := by simp
  symbols := by simp [Parser.initial]
  units := by simp
  back := by simp
  data := rfl

/-- The symbols are the labels. -/
theorem lookup (h : Drafts mExtension ops table back p)
    (hsymbol : p.symbolTable label = some ⟨address, line, false⟩) :
    ∃ k, table.lookup label = some k ∧ address = Parser.textAddress k ∧ k ≤ ops.length := by
  have hmap := h.symbols label
  rw [hsymbol, Option.map_some, eq_comm, Option.map_eq_some_iff] at hmap
  obtain ⟨k, hk, heq⟩ := hmap
  exact ⟨k, hk, (congrArg Prod.fst heq).symm, h.bound _ (Parser.mem_of_lookup hk)⟩

theorem offset (h : Drafts mExtension ops table back p) (hsmall : 4 * ops.length < 2 ^ 32)
    (hsymbol : p.symbolTable label = some ⟨address, line, false⟩) :
    ∃ k, table.lookup label = some k ∧
      (address - Parser.textAddress p.instructionIndex).toInt = distance ops.length k := by
  obtain ⟨k, hk, rfl, hle⟩ := h.lookup hsymbol
  exact ⟨k, hk, by rw [h.index, distance_eq hsmall (by omega)]⟩

/-- One more unit. -/
theorem after (h : Drafts mExtension ops table p.backPatch p) {r : List Token} {b : Bool}
    {back : List Nat} (henabled : op.enabled mExtension = true) (hdraft : op.Draft u)
    (hback : back = [] ∧ op.Placed table ops.length u ∨
      back = [p.instructionIndex] ∧ ∃ label, op.reference = some label) :
    Drafts mExtension (ops ++ [op]) table (p.after r [(u, b)] back).backPatch
      (p.after r [(u, b)] back) where
  errors := h.errors
  index := by simp [Parser.after, h.index]
  length := by simp [Parser.after, h.length]
  nodup := h.nodup
  bound entry hentry := by
    have hle := h.bound entry hentry
    rw [List.length_append]
    omega
  symbols := h.symbols
  units k op' hop := by
    by_cases hk : k < ops.length
    · rw [List.getElem?_append_left hk] at hop
      obtain ⟨henabled', v, b', hv, hdraft', hplaced⟩ := h.units k op' hop
      refine ⟨henabled', v, b', ?_, hdraft', ?_⟩
      · rw [Parser.after, List.getElem?_append_left (h.length ▸ hk), hv]
      · rcases hplaced with hmem | hplaced
        · exact .inl (List.mem_append_left _ hmem)
        · exact .inr hplaced
    · rw [List.getElem?_append_right (Nat.le_of_not_lt hk), List.getElem?_singleton] at hop
      by_cases hzero : k - ops.length = 0
      · obtain rfl : k = ops.length := by omega
        rw [if_pos hzero] at hop
        obtain rfl := Option.some.inj hop
        refine ⟨henabled, u, b, ?_, hdraft, ?_⟩
        · rw [Parser.after, List.getElem?_append_right (by rw [h.length]), h.length, Nat.sub_self]
          rfl
        · rcases hback with ⟨-, hplaced⟩ | ⟨rfl, -⟩
          · exact .inr hplaced
          · exact .inl (by simp [Parser.after, h.index])
      · rw [if_neg hzero] at hop
        cases hop
  back i hi := by
    rcases List.mem_append.mp hi with hi | hi
    · obtain ⟨op', label, hop, hreference⟩ := h.back i hi
      have hlt := (List.getElem?_eq_some_iff.mp hop).1
      exact ⟨op', label, by rw [List.getElem?_append_left hlt, hop], hreference⟩
    · rcases hback with ⟨rfl, -⟩ | ⟨rfl, label, hreference⟩
      · cases hi
      · obtain rfl := List.mem_singleton.mp hi
        exact ⟨op, label, by simp [h.index], hreference⟩
  data := h.data

/-- One more label. -/
theorem define {name : String} {line : Nat} (h : Drafts mExtension ops table back p)
    (hnew : table.lookup name = none)
    (hq : q = (p.define name ⟨Parser.textAddress p.instructionIndex, line, false⟩).nextToken) :
    Drafts mExtension ops (table ++ [(name, ops.length)]) back q := by
  subst hq
  refine ⟨h.errors, h.index, h.length, ?_, ?_, fun label => ?_, ?_, h.back, h.data⟩
  · rw [List.map_append, List.nodup_append]
    refine ⟨h.nodup, List.nodup_singleton _, ?_⟩
    rintro x hx y hy rfl
    obtain rfl := List.mem_singleton.mp hy
    obtain ⟨entry, hentry, heq⟩ := List.mem_map.mp hx
    simpa [heq] using List.lookup_eq_none_iff.mp hnew entry hentry
  · intro entry hentry
    rcases List.mem_append.mp hentry with hentry | hentry
    · exact h.bound entry hentry
    · obtain rfl := List.mem_singleton.mp hentry
      exact Nat.le_refl _
  · rw [List.lookup_append]
    change (if label = name then some (⟨Parser.textAddress p.instructionIndex, line, false⟩ : SymbolData)
      else p.symbolTable label).map _ = _
    by_cases hname : label = name
    · rw [if_pos hname, hname, hnew, h.index]
      simp
    · have hsymbols := h.symbols label
      rw [if_neg hname, hsymbols]
      cases table.lookup label <;> simp [List.lookup, beq_false_of_ne hname]
  · intro k op hop
    obtain ⟨henabled, u, b, hu, hdraft, hplaced⟩ := h.units k op hop
    refine ⟨henabled, u, b, hu, hdraft, ?_⟩
    rcases hplaced with hmem | hplaced
    · exact .inl hmem
    · exact .inr hplaced.append

end Drafts

namespace Pass

variable {p q : Parser} {r : List Token}

/-- An operation. -/
theorem operation (h : Pass mExtension ops table p) (hsmall : 4 * ops.length < 2 ^ 32)
    (hout : Parser.Outcome mExtension p op r q) :
    Pass mExtension (ops ++ [op]) table q ∧ q.rest = r := by
  have hget : (ops ++ [op])[ops.length]? = some op := by simp
  rcases h with h | ⟨hcount, hwrong⟩
  · cases hout with
    | plain henabled hreference hdraft =>
      refine ⟨.inl (h.after henabled hdraft (.inl ⟨rfl, fun label hlabel => ?_⟩)), rfl⟩
      rw [hreference] at hlabel
      cases hlabel
    | known henabled hreference hsymbol hreach hdraft himm =>
      obtain ⟨k, hk, hoffset⟩ := h.offset hsmall hsymbol
      rw [hoffset] at hreach himm
      refine ⟨.inl (h.after henabled hdraft (.inl ⟨rfl, fun label hlabel => ?_⟩)), rfl⟩
      obtain rfl := Option.some.inj (hreference.symm.trans hlabel)
      exact ⟨k, hk, hreach, himm⟩
    | deferred henabled hreference hsymbol hdraft =>
      exact ⟨.inl (h.after henabled hdraft (.inr ⟨rfl, _, hreference⟩)), rfl⟩
    | disabled hdisabled herrors =>
      exact ⟨.inr ⟨Nat.zero_lt_of_lt herrors, .inr ⟨_, op, hget, .inl hdisabled⟩⟩, rfl⟩
    | far hreference hsymbol hfar herrors =>
      obtain ⟨k, hk, hoffset⟩ := h.offset hsmall hsymbol
      rw [hoffset] at hfar
      exact ⟨.inr ⟨Nat.zero_lt_of_lt herrors,
        .inr ⟨_, op, hget, .inr ⟨_, k, hreference, hk, hfar⟩⟩⟩, rfl⟩
  · have hwrong' : Wrong mExtension (ops ++ [op]) table := by
      have happend := hwrong.append [op] []
      rwa [List.append_nil] at happend
    cases hout with
    | plain henabled hreference hdraft => exact ⟨.inr ⟨hcount, hwrong'⟩, rfl⟩
    | known henabled hreference hsymbol hreach hdraft himm => exact ⟨.inr ⟨hcount, hwrong'⟩, rfl⟩
    | deferred henabled hreference hsymbol hdraft => exact ⟨.inr ⟨hcount, hwrong'⟩, rfl⟩
    | disabled hdisabled herrors => exact ⟨.inr ⟨Nat.zero_lt_of_lt herrors, hwrong'⟩, rfl⟩
    | far hreference hsymbol hfar herrors =>
      exact ⟨.inr ⟨Nat.zero_lt_of_lt herrors, hwrong'⟩, rfl⟩

/-- A label. -/
theorem define (cfg : ParserConfig) {name : String} (h : Pass mExtension ops table p)
    (htype : p.currentToken.type = .LABEL) (hvalue : p.currentToken.value = name) :
    ∃ q, Parser.textTurn cfg p = .ok q ∧ q.rest = p.rest.tail ∧
      Pass mExtension ops (table ++ [(name, ops.length)]) q := by
  refine ⟨p.defineTextLabel.nextToken, by rw [Parser.textTurn, htype]; rfl, ?_⟩
  have hfail (message : String) (kind : ErrorKind) (mainMessage subMessage : String) :
      0 < (p.fail p.currentToken message kind mainMessage subMessage).errors.count :=
    Nat.zero_lt_of_lt (Parser.fail_count _ _ _ _ _)
  cases hsymbol : p.symbolTable name with
  | none =>
    simp only [Parser.defineTextLabel, hvalue, hsymbol]
    refine ⟨rfl, ?_⟩
    rcases h with h | ⟨hcount, hwrong⟩
    · have hnew : table.lookup name = none := by
        have hmap := h.symbols name
        rw [hsymbol, Option.map_none, eq_comm, Option.map_eq_none_iff] at hmap
        exact hmap
      exact .inl (h.define hnew rfl)
    · have hwrong' := hwrong.append [] [(name, ops.length)]
      rw [List.append_nil] at hwrong'
      exact .inr ⟨hcount, hwrong'⟩
  | some symbol =>
    simp only [Parser.defineTextLabel, hvalue, hsymbol]
    refine ⟨rfl, .inr ⟨hfail _ _ _ _, ?_⟩⟩
    rcases h with h | ⟨-, hwrong⟩
    · have hmap := h.symbols name
      rw [hsymbol, Option.map_some, eq_comm, Option.map_eq_some_iff] at hmap
      obtain ⟨k, hk, -⟩ := hmap
      have hmem : name ∈ table.map Prod.fst := List.mem_map.mpr ⟨_, Parser.mem_of_lookup hk, rfl⟩
      refine .inl fun hnodup => ?_
      rw [List.map_append, List.nodup_append] at hnodup
      exact hnodup.2.2 _ hmem _ (by simp) rfl
    · have hwrong' := hwrong.append [] [(name, ops.length)]
      rwa [List.append_nil] at hwrong'

end Pass

namespace Parser.At

variable {cfg : ParserConfig} {p q : Parser} {number : Nat} {x : Terminal} {xs : List Terminal}
  {t : Token} {ts r : List Token} {line : Line}

theorem tail (h : p.At number (x :: xs) (t :: ts) r) (hrest : q.rest = p.rest.tail) :
    q.At number xs ts r where
  rest := by rw [hrest, h.rest]; rfl
  spelled := (List.forall₂_cons.mp h.spelled).2
  line u hu := h.line u (List.mem_cons_of_mem t hu)
  later := h.later

theorem inText (h : p.At number (x :: xs) ts r) (hx : x.type = .LABEL ∨ x.type = .OPCODE) :
    p.inText = true := by
  have htype := h.current.1.type
  rcases hx with hx | hx <;> simp [Parser.inText, Parser.notEof, htype, hx]

/-- A line of a program is taken in some rounds of the loop over a text section. -/
theorem steps (h : p.At number line.terminals ts r)
    (hpass : Pass cfg.mExtensionEnabled ops table p) (hsmall : 4 * ops.length < 2 ^ 32) :
    ∃ q, Loop.Steps Parser.inText (textTurn cfg) p q ∧ q.rest = r ∧
      Pass cfg.mExtensionEnabled (ops ++ line.operation.toList)
        (table ++ line.labels.map fun label => (label, ops.length)) q := by
  obtain ⟨labels, operation⟩ := line
  induction labels generalizing p table ts with
  | nil =>
    cases operation with
    | none =>
      have hts : ts = [] := by
        have hspelled := h.spelled
        simpa [Line.terminals] using hspelled
      exact ⟨p, .refl p, by rw [h.rest, hts, List.nil_append], by simpa using hpass⟩
    | some op =>
      have h : p.At number op.terminals ts r := by simpa [Line.terminals] using h
      obtain ⟨q, hparse, hout⟩ := h.parse cfg
      obtain ⟨hq, hrest⟩ := hpass.operation hsmall hout
      obtain ⟨xs, hterminals⟩ := terminals_head op
      rw [hterminals] at h
      have hturn : textTurn cfg p = .ok q := by
        rw [textTurn, h.current.1.type]
        exact hparse
      exact ⟨q, .step (h.inText (.inr rfl)) hturn (.refl q), hrest, by simpa using hq⟩
  | cons name labels ih =>
    have h : p.At number (.label name :: (Line.mk labels operation).terminals) ts r := h
    obtain ⟨t, ts, rfl⟩ := List.exists_cons_of_length_eq_add_one h.spelled.length_eq.symm
    obtain ⟨m, hturn, hrest, hm⟩ := hpass.define cfg h.current.1.type h.current.1.shows
    obtain ⟨q, hsteps, hqrest, hq⟩ := ih hm (h.tail hrest)
    refine ⟨q, .step (h.inText (.inl rfl)) hturn hsteps, hqrest, ?_⟩
    rw [List.append_assoc] at hq
    exact hq

end Parser.At

end RiscvSim

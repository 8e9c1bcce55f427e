import Mathlib.Data.Nat.Digits.Lemmas
import DebugExpr.Proofs.ShortBranches
import DebugExpr.Proofs.VariableAccesses

/-! Instructions as bytes. The encoded value of an instruction is written high byte first, and then
the operand low byte first: constants and tokens in their own width, indices and displacements in
the width of the field that the instruction declares. Bytes are read back by the table of the
instructions alone. What is read is an operand that the field holds, and every operand that the
field holds is read back. -/
namespace DebugExpr.Code
open DebugExpr.Bound

section Numbers

/-- The bytes of a number from the lowest on, without what goes beyond them. -/
def lowBytes : Nat → Nat → List UInt8
  | 0, _ => []
  | count + 1, n => UInt8.ofNat n :: lowBytes count (n / 256)

/-- The number that the bytes are, the lowest first. -/
def ofBytes (field : List UInt8) : Nat :=
  Nat.ofDigits 256 (field.map UInt8.toNat)

/-- The bytes of a number in two's complement. -/
def signedBytes (count : Nat) (i : Int) : List UInt8 :=
  lowBytes count (i % (256 ^ count : Nat)).toNat

/-- The number that the bytes are in two's complement. -/
def ofSignedBytes (field : List UInt8) : Int :=
  (ofBytes field : Int).bmod (256 ^ field.length)

@[simp]
theorem length_lowBytes (count n : Nat) : (lowBytes count n).length = count := by
  induction count generalizing n with
  | zero => rfl
  | succ count ih => simp [lowBytes, ih]

@[simp]
theorem length_signedBytes (count : Nat) (i : Int) : (signedBytes count i).length = count :=
  length_lowBytes ..

theorem ofBytes_lowBytes (count n : Nat) : ofBytes (lowBytes count n) = n % 256 ^ count := by
  induction count generalizing n with
  | zero => simp [lowBytes, ofBytes, Nat.mod_one]
  | succ count ih =>
    have rest : Nat.ofDigits 256 ((lowBytes count (n / 256)).map UInt8.toNat) =
        n / 256 % 256 ^ count := ih _
    rw [lowBytes, ofBytes, List.map_cons, Nat.ofDigits_cons, rest, pow_succ', Nat.mod_mul,
      UInt8.toNat_ofNat']

theorem ofBytes_lt (field : List UInt8) : ofBytes field < 256 ^ field.length := by
  have digits := Nat.ofDigits_lt_base_pow_length (b := 256) (l := field.map UInt8.toNat)
    (by decide) (by simpa using fun byte _ => byte.toNat_lt)
  rwa [List.length_map] at digits

theorem ofBytes_lowBytes_of_lt {count n : Nat} (small : n < 256 ^ count) :
    ofBytes (lowBytes count n) = n := by
  rw [ofBytes_lowBytes, Nat.mod_eq_of_lt small]

theorem ofBytes_uint8 (x : UInt8) : UInt8.ofNat (ofBytes (lowBytes 1 x.toNat)) = x := by
  rw [ofBytes_lowBytes_of_lt x.toNat_lt, UInt8.ofNat_toNat]

theorem ofBytes_uint32 (x : UInt32) : UInt32.ofNat (ofBytes (lowBytes 4 x.toNat)) = x := by
  rw [ofBytes_lowBytes_of_lt x.toNat_lt, UInt32.ofNat_toNat]

theorem ofBytes_uint64 (x : UInt64) : UInt64.ofNat (ofBytes (lowBytes 8 x.toNat)) = x := by
  rw [ofBytes_lowBytes_of_lt x.toNat_lt, UInt64.ofNat_toNat]

theorem ofSignedBytes_signedBytes {count : Nat} {i : Int}
    (low : -((256 ^ count : Nat) : Int) ≤ i * 2) (high : i * 2 < (256 ^ count : Nat)) :
    ofSignedBytes (signedBytes count i) = i := by
  have positive : (0 : Int) < (256 ^ count : Nat) := by positivity
  have natural := Int.toNat_of_nonneg (Int.emod_nonneg i positive.ne')
  have small := Int.emod_lt_of_pos i positive
  rw [ofSignedBytes, length_signedBytes, signedBytes, ofBytes_lowBytes_of_lt (by omega), natural,
    Int.emod_bmod, Int.bmod_eq_of_le_mul_two low high]

theorem ofSignedBytes_bounds (field : List UInt8) :
    -((256 ^ field.length : Nat) : Int) ≤ ofSignedBytes field * 2 ∧
      ofSignedBytes field * 2 < (256 ^ field.length : Nat) := by
  have positive : 0 < 256 ^ field.length := by positivity
  have low := Int.le_bmod (x := ofBytes field) positive
  have high := Int.bmod_lt (x := ofBytes field) positive
  unfold ofSignedBytes
  omega

end Numbers

/-- The tokens of the strings and of the members that code names. -/
structure TokenTable where
  ofString : String → UInt32
  ofMember : String → UInt32
  string? : UInt32 → Option String
  member? : UInt32 → Option String

/-- The table has the text of the operand, if it is one, under its token. -/
def TokenTable.Names (tokens : TokenTable) : Operand → Prop
  | .string value => tokens.string? (tokens.ofString value) = some value
  | .member text => tokens.member? (tokens.ofMember text) = some text
  | _ => True

/-- The operand that names a variable. -/
def Operand.ofVariable : Variable → Operand
  | .local index => localSlot index
  | .argument index => argumentSlot index

namespace Opcode

/-- The encoded value, high byte first. -/
def codeBytes (op : Opcode) : List UInt8 :=
  (lowBytes (if op.code > 0xFF then 2 else 1) op.code.toNat).reverse

/-- The operand of an index, of the sort of variable that the instruction accesses. -/
def slot? (op : Opcode) : Option (Nat → Operand) :=
  op.access?.map fun access index => .ofVariable (access.2 index)

/-- The operand is a variable of the sort that the instruction accesses, with an index up to the
greatest. -/
def Indexes (op : Opcode) (greatest : Nat) (operand : Operand) : Prop :=
  ∃ slot, op.slot? = some slot ∧ ∃ index ≤ greatest, operand = slot index

/-- The field that the instruction declares holds the operand. A displacement counts from the
instruction that comes next. -/
def Holds (op : Opcode) (next : Nat) (operand : Operand) : Prop :=
  match op.operand with
  | .none => operand = .none
  | .int8 => ∃ value, operand = .int8 value
  | .int32 => ∃ value, operand = .int32 value
  | .int64 => ∃ value, operand = .int64 value
  | .string => ∃ value, operand = .string value
  | .token => ∃ text, operand = .member text
  | .branch8 => ∃ target : Nat, operand = .target target ∧
      -128 ≤ (target : Int) - next ∧ (target : Int) - next ≤ 127
  | .branch32 => ∃ target : Nat, operand = .target target ∧
      -2 ^ 31 ≤ (target : Int) - next ∧ (target : Int) - next < 2 ^ 31
  | .variable8 => op.Indexes 0xFF operand
  | .variable16 => op.Indexes 0xFFFF operand

/-- If the field of the instruction is for a variable, it holds the operand. -/
def HoldsSlot (op : Opcode) (operand : Operand) : Prop :=
  (op.operand = .variable8 → op.Indexes 0xFF operand) ∧
    (op.operand = .variable16 → op.Indexes 0xFFFF operand)

theorem holdsSlot_of_other {op : Opcode} {operand : Operand}
    (other : op.operand ≠ .variable8 ∧ op.operand ≠ .variable16) : op.HoldsSlot operand :=
  ⟨fun kind => absurd kind other.1, fun kind => absurd kind other.2⟩

/-- Of the operands of its kind a field holds all but some variables. -/
theorem holds_iff_of_fits {op : Opcode} {next : Nat} {operand : Operand}
    (fits : operand.fits op.operand = true) : op.Holds next operand ↔ op.HoldsSlot operand := by
  unfold Holds HoldsSlot
  cases kind : op.operand <;> rw [kind] at fits <;> cases operand <;>
    simp [Operand.fits] at fits ⊢

theorem mem_all (op : Opcode) : op ∈ all := by
  cases op <;> decide +kernel

theorem ascending : (all.map code).IsChain (· < ·) := by
  decide +kernel

theorem code_injective {a b : Opcode} (same : a.code = b.code) : a = b := by
  have distinct : (all.map code).Nodup :=
    (List.isChain_iff_pairwise.mp ascending).imp fun less => UInt16.ne_of_lt less
  exact List.inj_on_of_nodup_map distinct a.mem_all b.mem_all same

theorem length_codeBytes (op : Opcode) : op.codeBytes.length + op.operand.size = op.size := by
  simp [codeBytes, size]

theorem ofBytes_codeBytes (op : Opcode) : ofBytes op.codeBytes.reverse = op.code.toNat := by
  rw [codeBytes, List.reverse_reverse]
  apply ofBytes_lowBytes_of_lt
  split
  · exact op.code.toNat_lt
  · rename_i short
    exact Nat.lt_succ_of_le (UInt16.le_iff_toNat_le.mp (UInt16.not_lt.mp short))

theorem length_codeBytes_cases (op : Opcode) :
    op.codeBytes.length = 1 ∨ op.codeBytes.length = 2 := by
  simp only [codeBytes, List.length_reverse, length_lowBytes]
  split
  · exact .inr rfl
  · exact .inl rfl

/-- An encoded value has two bytes just when the first of them is the prefix. -/
theorem prefixed (op : Opcode) : op.codeBytes.head? = some 0xFE ↔ op.codeBytes.length = 2 := by
  have table : ∀ op ∈ all, op.codeBytes.head? = some 0xFE ↔ op.codeBytes.length = 2 := by
    decide +kernel
  exact table op op.mem_all

/-- No encoded value begins with another. -/
theorem eq_of_prefix {a b : Opcode} (begins : a.codeBytes <+: b.codeBytes) : a = b := by
  have head : a.codeBytes.head? = b.codeBytes.head? := by
    obtain ⟨rest, whole⟩ := begins
    obtain ⟨first, others, bytes⟩ := List.exists_cons_of_length_pos (l := a.codeBytes)
      (by have := a.length_codeBytes_cases; omega)
    rw [← whole, bytes]
    rfl
  have length : a.codeBytes.length = b.codeBytes.length := by
    have both : a.codeBytes.length = 2 ↔ b.codeBytes.length = 2 := by
      rw [← a.prefixed, ← b.prefixed, head]
    have := a.length_codeBytes_cases
    have := b.length_codeBytes_cases
    omega
  have same := begins.eq_of_length length
  apply code_injective
  rw [← UInt16.toNat_inj, ← ofBytes_codeBytes, ← ofBytes_codeBytes, same]

theorem slot?_eq {op : Opcode} {slot : Nat → Operand} (sort : op.slot? = some slot) :
    slot = .localSlot ∨ slot = .argumentSlot := by
  cases op <;> cases sort <;> first | exact .inl rfl | exact .inr rfl

end Opcode

/-- The operand as it is written in front of the offset. -/
def Operand.encoding (tokens : TokenTable) (op : Opcode) (next : Nat) : Operand → List UInt8
  | none | label _ => []
  | int8 value => lowBytes 1 value.toUInt8.toNat
  | int32 value => lowBytes 4 value.toUInt32.toNat
  | int64 value => lowBytes 8 value.toUInt64.toNat
  | string value => lowBytes 4 (tokens.ofString value).toNat
  | member text => lowBytes 4 (tokens.ofMember text).toNat
  | localSlot index | argumentSlot index => lowBytes op.operand.size index
  | target offset => signedBytes op.operand.size (offset - next)

/-- The operand that stands in the field of an instruction in front of the offset. -/
def readOperand (tokens : TokenTable) (op : Opcode) (next : Nat) (field : List UInt8) :
    Option Operand :=
  match op.operand with
  | .none => some .none
  | .int8 => some (.int8 (UInt8.ofNat (ofBytes field)).toInt8)
  | .int32 => some (.int32 (UInt32.ofNat (ofBytes field)).toInt32)
  | .int64 => some (.int64 (UInt64.ofNat (ofBytes field)).toInt64)
  | .string => (tokens.string? (UInt32.ofNat (ofBytes field))).map .string
  | .token => (tokens.member? (UInt32.ofNat (ofBytes field))).map .member
  | .branch8 | .branch32 =>
    let target := next + ofSignedBytes field
    if 0 ≤ target then some (.target target.toNat) else none
  | .variable8 | .variable16 => op.slot?.map fun slot => slot (ofBytes field)

section Operands
variable {tokens : TokenTable} {op : Opcode} {next : Nat} {operand : Operand}

theorem Operand.none_iff_of_fits {kind : OperandKind} (fits : operand.fits kind = true) :
    operand = .none ↔ kind = .none := by
  cases operand <;> cases kind <;> simp [Operand.fits] at fits ⊢

theorem Operand.length_encoding_of_fits (fits : operand.fits op.operand = true) :
    (operand.encoding tokens op next).length = op.operand.size := by
  cases kind : op.operand <;> rw [kind] at fits <;> cases operand <;>
    simp [Operand.fits] at fits <;> simp [encoding, kind, OperandKind.size]

theorem encoding_slot {slot : Nat → Operand} (sort : op.slot? = some slot) (index : Nat) :
    (slot index).encoding tokens op next = lowBytes op.operand.size index := by
  obtain rfl | rfl := Opcode.slot?_eq sort <;> rfl

theorem readOperand_target {kind : OperandKind} (isKind : op.operand = kind)
    (branch : kind = .branch8 ∨ kind = .branch32) {target : Nat}
    (low : -((256 ^ kind.size : Nat) : Int) ≤ ((target : Int) - next) * 2)
    (high : ((target : Int) - next) * 2 < (256 ^ kind.size : Nat)) :
    readOperand tokens op next (signedBytes kind.size (target - next)) = some (.target target) := by
  have whole : (next : Int) + ofSignedBytes (signedBytes kind.size (target - next)) = target := by
    rw [ofSignedBytes_signedBytes low high]
    omega
  obtain rfl | rfl := branch <;> simp [readOperand, isKind, whole]

theorem readOperand_slot {kind : OperandKind} (isKind : op.operand = kind)
    (indexed : kind = .variable8 ∨ kind = .variable16) {slot : Nat → Operand}
    (sort : op.slot? = some slot) {index : Nat} (small : index < 256 ^ kind.size) :
    readOperand tokens op next (lowBytes kind.size index) = some (slot index) := by
  obtain rfl | rfl := indexed <;>
    simp [readOperand, isKind, sort, ofBytes_lowBytes_of_lt small]

/-- What the field holds is read back. -/
theorem readOperand_encoding (holds : op.Holds next operand) (named : tokens.Names operand) :
    readOperand tokens op next (operand.encoding tokens op next) = some operand := by
  unfold Opcode.Holds at holds
  cases kind : op.operand <;> simp only [kind] at holds
  case none =>
    subst holds
    simp only [readOperand, kind]
  case int8 =>
    obtain ⟨value, rfl⟩ := holds
    simp only [readOperand, kind, Operand.encoding, ofBytes_uint8, Int8.toInt8_toUInt8]
  case int32 =>
    obtain ⟨value, rfl⟩ := holds
    simp only [readOperand, kind, Operand.encoding, ofBytes_uint32, Int32.toInt32_toUInt32]
  case int64 =>
    obtain ⟨value, rfl⟩ := holds
    simp only [readOperand, kind, Operand.encoding, ofBytes_uint64, Int64.toInt64_toUInt64]
  case string =>
    obtain ⟨value, rfl⟩ := holds
    have token : tokens.string? (tokens.ofString value) = some value := named
    simp only [readOperand, kind, Operand.encoding, ofBytes_uint32, token, Option.map_some]
  case token =>
    obtain ⟨text, rfl⟩ := holds
    have token : tokens.member? (tokens.ofMember text) = some text := named
    simp only [readOperand, kind, Operand.encoding, ofBytes_uint32, token, Option.map_some]
  case branch8 | branch32 =>
    obtain ⟨target, rfl, low, high⟩ := holds
    rw [Operand.encoding, kind]
    refine readOperand_target kind (by simp) ?_ ?_ <;> norm_num [OperandKind.size] <;> omega
  case variable8 | variable16 =>
    obtain ⟨slot, sort, index, small, rfl⟩ := holds
    rw [encoding_slot sort, kind]
    exact readOperand_slot kind (by simp) sort (Nat.lt_succ_of_le small)

/-- The field holds what is read from it. -/
theorem holds_of_readOperand {field : List UInt8} (length : field.length = op.operand.size)
    (read : readOperand tokens op next field = some operand) : op.Holds next operand := by
  have bounds := ofSignedBytes_bounds field
  have small := ofBytes_lt field
  unfold Opcode.Holds
  unfold readOperand at read
  rw [length] at bounds small
  cases kind : op.operand <;>
    simp only [kind, OperandKind.size, Option.some.injEq, Option.map_eq_some_iff]
      at read bounds small ⊢
  case none => exact read.symm
  case int8 | int32 | int64 => exact ⟨_, read.symm⟩
  case string | token =>
    obtain ⟨text, -, rfl⟩ := read
    exact ⟨text, rfl⟩
  case branch8 | branch32 =>
    split at read <;> cases read
    exact ⟨_, rfl, by omega, by omega⟩
  case variable8 | variable16 =>
    obtain ⟨slot, sort, rfl⟩ := read
    exact ⟨slot, sort, _, Nat.le_of_lt_succ small, rfl⟩

end Operands

/-- The opcode that the bytes begin with. -/
def readOpcode (bytes : List UInt8) : Option Opcode :=
  Opcode.all.find? fun op => op.codeBytes.isPrefixOf bytes

theorem readOpcode_append (op : Opcode) (rest : List UInt8) :
    readOpcode (op.codeBytes ++ rest) = some op := by
  -- both values are at the front of the bytes, so one of the two begins with the other
  have begins {other : Opcode} (found : other.codeBytes.isPrefixOf (op.codeBytes ++ rest) = true) :
      other = op := by
    rcases List.prefix_or_prefix_of_prefix (List.isPrefixOf_iff_prefix.mp found)
        (List.prefix_append op.codeBytes rest) with shorter | longer
    · exact Opcode.eq_of_prefix shorter
    · exact (Opcode.eq_of_prefix longer).symm
  cases found : readOpcode (op.codeBytes ++ rest) with
  | none =>
    have misses := List.find?_eq_none.mp found op op.mem_all
    simp at misses
  | some other =>
    have isBegin := List.find?_some (p := fun op' : Opcode => op'.codeBytes.isPrefixOf _) found
    rw [begins isBegin]

namespace Instruction
variable {i : Instruction}

/-- The instruction as it is written at its place. -/
def encoding (tokens : TokenTable) (i : Instruction) : List UInt8 :=
  i.opcode.codeBytes ++ i.operand.encoding tokens i.opcode (i.offset + i.opcode.size)

/-- The instruction has an operand that its field holds. -/
def Holds (i : Instruction) : Prop :=
  i.opcode.Holds (i.offset + i.opcode.size) i.operand

/-- The operand is of the kind that the instruction declares. -/
def OfKind (i : Instruction) : Prop :=
  i.operand.fits i.opcode.operand = true ∨
    (i.opcode.operand = .branch8 ∨ i.opcode.operand = .branch32) ∧
      ∃ offset, i.operand = .target offset

theorem OfKind.none_iff (ofKind : i.OfKind) : i.operand = .none ↔ i.opcode.operand = .none := by
  obtain fits | ⟨branch, offset, target⟩ := ofKind
  · exact Operand.none_iff_of_fits fits
  · rw [target]
    obtain kind | kind := branch <;> simp [kind]

theorem OfKind.length_encoding (ofKind : i.OfKind) (tokens : TokenTable) :
    (i.encoding tokens).length = i.opcode.size := by
  have operand : (i.operand.encoding tokens i.opcode (i.offset + i.opcode.size)).length =
      i.opcode.operand.size := by
    obtain fits | ⟨-, offset, target⟩ := ofKind
    · exact Operand.length_encoding_of_fits fits
    · rw [target]
      exact length_signedBytes ..
  rw [encoding, List.length_append, operand, Opcode.length_codeBytes]

theorem Holds.ofKind (holds : i.Holds) : i.OfKind := by
  unfold Holds Opcode.Holds at holds
  unfold OfKind
  cases kind : i.opcode.operand <;> simp only [kind] at holds
  case none => simp [holds, Operand.fits]
  case int8 | int32 | int64 | string | token =>
    obtain ⟨value, operand⟩ := holds
    simp [operand, Operand.fits]
  case branch8 | branch32 =>
    obtain ⟨target, operand, -⟩ := holds
    simp [operand]
  case variable8 | variable16 =>
    obtain ⟨slot, sort, index, -, operand⟩ := holds
    obtain rfl | rfl := Opcode.slot?_eq sort <;> simp [operand, Operand.fits]

end Instruction

/-- The instruction that the bytes begin with, at the offset. -/
def readInstruction (tokens : TokenTable) (offset : Nat) (bytes : List UInt8) :
    Option Instruction :=
  (readOpcode bytes).bind fun op =>
    if op.size ≤ bytes.length then
      (readOperand tokens op (offset + op.size)
        ((bytes.take op.size).drop op.codeBytes.length)).map fun operand => ⟨offset, op, operand⟩
    else none

/-- The instructions that the bytes are, from the offset on. -/
def readInstructions (tokens : TokenTable) (offset : Nat) (bytes : List UInt8) :
    Option (List Instruction) :=
  if bytes = [] then some []
  else
    match readInstruction tokens offset bytes with
    | none => none
    | some i =>
      (readInstructions tokens (offset + i.opcode.size) (bytes.drop i.opcode.size)).map (i :: ·)
termination_by bytes.length
decreasing_by
  have := i.opcode.size_pos
  have := List.length_pos_iff.mpr ‹bytes ≠ []›
  rw [List.length_drop]
  omega

section Reading
variable {tokens : TokenTable} {i : Instruction} {is : List Instruction} {start : Nat}
  {bytes : List UInt8}

theorem readInstruction_encoding (holds : i.Holds) (named : tokens.Names i.operand)
    (rest : List UInt8) :
    readInstruction tokens i.offset (i.encoding tokens ++ rest) = some i := by
  have length := holds.ofKind.length_encoding tokens
  have enough : i.opcode.size ≤ (i.encoding tokens ++ rest).length := by
    rw [List.length_append, length]
    exact Nat.le_add_right ..
  have field : ((i.encoding tokens ++ rest).take i.opcode.size).drop i.opcode.codeBytes.length =
      i.operand.encoding tokens i.opcode (i.offset + i.opcode.size) := by
    rw [List.take_left' length, Instruction.encoding, List.drop_left]
  have opcode : readOpcode (i.encoding tokens ++ rest) = some i.opcode := by
    rw [Instruction.encoding, List.append_assoc, readOpcode_append]
  rw [readInstruction, opcode, Option.bind_some, if_pos enough, field,
    readOperand_encoding holds named, Option.map_some]

theorem holds_of_readInstruction (read : readInstruction tokens start bytes = some i) :
    i.Holds := by
  simp only [readInstruction, Option.bind_eq_some_iff] at read
  obtain ⟨op, -, read⟩ := read
  split at read
  · rename_i enough
    obtain ⟨operand, found, rfl⟩ := Option.map_eq_some_iff.mp read
    refine holds_of_readOperand (?_ : _ = op.operand.size) found
    have whole := op.length_codeBytes
    rw [List.length_drop, List.length_take]
    omega
  · cases read

/-- The instructions stand one behind the other from the offset on. -/
def InSequence (start : Nat) (is : List Instruction) : Prop :=
  ∀ {k : Nat} {i : Instruction}, is[k]? = some i →
    i.offset = start + Code.bytes ((is.take k).map (·.opcode))

theorem InSequence.head (sequence : InSequence start (i :: is)) : i.offset = start :=
  sequence (k := 0) rfl

theorem InSequence.tail (sequence : InSequence start (i :: is)) :
    InSequence (start + i.opcode.size) is := by
  intro k j found
  have place := sequence (k := k + 1) found
  simpa [Code.bytes, Nat.add_assoc] using place

theorem length_flatMap_encoding (ofKind : ∀ i ∈ is, i.OfKind) :
    (is.flatMap (Instruction.encoding tokens)).length = Code.bytes (is.map (·.opcode)) := by
  have sizes : is.map (List.length ∘ Instruction.encoding tokens) =
      is.map (Opcode.size ∘ (·.opcode)) :=
    List.map_congr_left fun i member => (ofKind i member).length_encoding tokens
  rw [Code.bytes, List.length_flatMap, List.map_map]
  exact congrArg List.sum sizes

/-- Instructions that are held by their fields are read back. -/
theorem readInstructions_encoding (sequence : InSequence start is) (holds : ∀ i ∈ is, i.Holds)
    (named : ∀ i ∈ is, tokens.Names i.operand) :
    readInstructions tokens start (is.flatMap (Instruction.encoding tokens)) = some is := by
  induction is generalizing start with
  | nil => simp [readInstructions]
  | cons i rest ih =>
    rw [List.forall_mem_cons] at holds named
    have length := holds.1.ofKind.length_encoding tokens
    have nonempty : i.encoding tokens ++ rest.flatMap (Instruction.encoding tokens) ≠ [] := by
      have := i.opcode.size_pos
      apply List.ne_nil_of_length_pos
      rw [List.length_append]
      omega
    rw [List.flatMap_cons, readInstructions, if_neg nonempty, ← sequence.head,
      readInstruction_encoding holds.1 named.1]
    simp only [List.drop_left' length, sequence.head]
    rw [ih sequence.tail holds.2 named.2, Option.map_some]

/-- Whatever the bytes are, the instructions that are read from them are held by their fields. -/
theorem holds_of_readInstructions (read : readInstructions tokens start bytes = some is) :
    ∀ i ∈ is, i.Holds := by
  fun_induction readInstructions tokens start bytes generalizing is with
  | case1 => cases read; simp
  | case2 => cases read
  | case3 start bytes nonempty i first ih =>
    obtain ⟨rest, found, rfl⟩ := Option.map_eq_some_iff.mp read
    exact List.forall_mem_cons.mpr ⟨holds_of_readInstruction first, ih found⟩

end Reading

namespace MethodBody

/-- The code of the method. -/
def encoding (tokens : TokenTable) (m : MethodBody) : List UInt8 :=
  m.instructions.flatMap (Instruction.encoding tokens)

end MethodBody

end DebugExpr.Code

import Emu816.Proofs.ListedTargets
import Mathlib.Algebra.GroupWithZero.Nat
import Mathlib.Data.List.Nodup

/-!
# Instructions as they are written

A row shows an instruction as bytes and as an assembler writes it. The name and the operand as written tell all
instructions apart, at any address and whatever widths the listing assumes: an operand without its digits shows which
opcodes of that name it may belong to, and the digits are those of its bytes.

- `Text.blank`: a text with its digits left blank; `blank_operandText`: what that leaves of an operand.
- `prototype_of_form`: modes that leave the same are related; `opcode_of_written`: the opcodes of a name are not.
- `Text.hex_inj`, `operandText_inj`: digits belong to one number, and the operand as written to one list of bytes.
- `listing_unambiguous`: what is written and what is encoded.
-/

namespace Emu816

/-! ## Digits -/

namespace Text

theorem digitsWith_inj {digit : Nat → Char} (hdigit : ∀ a < 16, ∀ b < 16, digit a = digit b → a = b)
    {width m n : Nat} (hm : m < 16 ^ width) (hn : n < 16 ^ width)
    (h : digitsWith digit width m = digitsWith digit width n) : m = n := by
  induction width generalizing m n with
  | zero =>
    rw [pow_zero] at hm hn
    omega
  | succ width ih =>
    rw [pow_succ] at hm hn
    rw [digitsWith, digitsWith] at h
    obtain ⟨hhigh, hlow⟩ := List.append_inj h (by rw [length_digitsWith, length_digitsWith])
    have hlast : m % 16 = n % 16 :=
      hdigit _ (Nat.mod_lt _ (by decide)) _ (Nat.mod_lt _ (by decide)) (List.singleton_inj.1 hlow)
    have hrest : m / 16 = n / 16 := ih (by omega) (by omega) hhigh
    omega

theorem lt_of_hexLength_le {n width : Nat} (h : hexLength n ≤ width) : n < 16 ^ width := by
  have hlog : n.log2 + 1 ≤ 4 * width := by
    rw [hexLength] at h
    omega
  calc n < 2 ^ (n.log2 + 1) := Nat.lt_log2_self
    _ ≤ 2 ^ (4 * width) := Nat.pow_le_pow_right (by decide) hlog
    _ = 16 ^ width := pow_mul 2 4 width

/-- Numbers that fit are written alike only if they are equal. -/
theorem hex_inj {width m n : Nat} (hm : hexLength m ≤ width) (hn : hexLength n ≤ width) :
    hex width m = hex width n ↔ m = n := by
  refine ⟨fun h => ?_, fun h => by rw [h]⟩
  rw [hex, hex, Nat.max_eq_left hm, Nat.max_eq_left hn, String.ofList_inj] at h
  exact digitsWith_inj (by decide) (lt_of_hexLength_le hm) (lt_of_hexLength_le hn) h

theorem hex_byte_inj {a b : UInt8} : hex 2 a.toNat = hex 2 b.toNat ↔ a = b :=
  (hex_inj (hexLength_byte a) (hexLength_byte b)).trans UInt8.toNat_inj

theorem hex_word_inj {a b : UInt16} : hex 4 a.toNat = hex 4 b.toNat ↔ a = b :=
  (hex_inj (hexLength_word a) (hexLength_word b)).trans UInt16.toNat_inj

/-- Two texts in a row can be told apart if the length of the first is known. -/
theorem append_inj {first second first' second' : String} (h : first ++ second = first' ++ second')
    (hlength : first.length = first'.length) : first = first' ∧ second = second' := by
  have hlist := congrArg String.toList h
  rw [String.toList_append, String.toList_append] at hlist
  obtain ⟨hfirst, hsecond⟩ := List.append_inj hlist hlength
  exact ⟨String.toList_inj.1 hfirst, String.toList_inj.1 hsecond⟩

/-- Whether a character is a digit of upper-case hexadecimal text. -/
def isHexDigit (c : Char) : Bool := c.isDigit || ('A' ≤ c && c ≤ 'F')

/-- The text with its digits left blank. -/
def blank (text : String) : List Char := text.toList.map fun c => if isHexDigit c then '_' else c

theorem blank_append (first second : String) : blank (first ++ second) = blank first ++ blank second := by
  rw [blank, String.toList_append, List.map_append]
  rfl

theorem blank_hex {width n : Nat} (h : hexLength n ≤ width) : blank (hex width n) = List.replicate width '_' := by
  have hdigits (width n : Nat) : (digitsWith (fun d => (Nat.digitChar d).toUpper) width n).map
      (fun c => if isHexDigit c then '_' else c) = List.replicate width '_' := by
    induction width generalizing n with
    | zero => rfl
    | succ width ih =>
      have hdigit : ∀ d < 16, isHexDigit (Nat.digitChar d).toUpper = true := by decide
      rw [digitsWith, List.map_append, ih, List.map_singleton, if_pos (hdigit _ (Nat.mod_lt _ (by decide))),
        List.replicate_succ']
  rw [blank, hex, Nat.max_eq_left h, String.toList_ofList, hdigits]

theorem blank_byte (value : UInt8) : blank (hex 2 value.toNat) = ['_', '_'] := blank_hex (hexLength_byte value)

theorem blank_word (value : UInt16) : blank (hex 4 value.toNat) = ['_', '_', '_', '_'] :=
  blank_hex (hexLength_word value)

theorem blank_long (bank : UInt8) (offset : UInt16) :
    blank (hex 6 (Address.ofBank bank offset).toNat) = ['_', '_', '_', '_', '_', '_'] :=
  blank_hex (hexLength_long bank offset)

end Text

/-! ## Forms of operands -/

namespace Mode

/-- An operand as it is written, with its digits left blank. Constants show how many bytes they have. -/
def form (mode : Mode) (size : Nat) : List Char :=
  match mode with
  | .implied => []
  | .accumulator => ['_']
  | .immediate | .immediateIndex => if size = 1 then ['#', '$', '_', '_'] else ['#', '$', '_', '_', '_', '_']
  | .immediate8 => ['#', '$', '_', '_']
  | .relative8 | .relative16 | .absolute => ['$', '_', '_', '_', '_']
  | .direct => ['$', '_', '_']
  | .directX => ['$', '_', '_', ',', 'X']
  | .directY => ['$', '_', '_', ',', 'Y']
  | .directIndirect => ['(', '$', '_', '_', ')']
  | .directIndirectLong => ['[', '$', '_', '_', ']']
  | .directXIndirect => ['(', '$', '_', '_', ',', 'X', ')']
  | .directIndirectY => ['(', '$', '_', '_', ')', ',', 'Y']
  | .directIndirectLongY => ['[', '$', '_', '_', ']', ',', 'Y']
  | .absoluteX => ['$', '_', '_', '_', '_', ',', 'X']
  | .absoluteY => ['$', '_', '_', '_', '_', ',', 'Y']
  | .absoluteLong => ['$', '_', '_', '_', '_', '_', '_']
  | .absoluteLongX => ['$', '_', '_', '_', '_', '_', '_', ',', 'X']
  | .stackRelative => ['$', '_', '_', ',', 'S']
  | .stackRelativeIndirectY => ['(', '$', '_', '_', ',', 'S', ')', ',', 'Y']
  | .absoluteIndirect => ['(', '$', '_', '_', '_', '_', ')']
  | .absoluteIndirectLong => ['[', '$', '_', '_', '_', '_', ']']
  | .absoluteXIndirect => ['(', '$', '_', '_', '_', '_', ',', 'X', ')']
  | .blockMove => ['$', '_', '_', ',', '$', '_', '_']

/-- **The form of an operand** is its text without the digits. -/
theorem blank_operandText (mode : Mode) (addr : UInt32) (operand : List UInt8) :
    Text.blank (mode.operandText addr operand) = mode.form operand.length := by
  cases mode with
  | immediate | immediateIndex =>
    simp only [operandText, form]
    split <;> simp +decide only [Text.blank_append, Text.blank_byte, Text.blank_word]
  | _ =>
    simp +decide only [operandText, form, Text.blank_append, Text.blank_byte, Text.blank_word, Text.blank_long]

/-- The first of the modes that are written like this one: as a constant, or as an address of two bytes. -/
def prototype : Mode → Mode
  | .immediateIndex | .immediate8 => .immediate
  | .relative8 | .relative16 => .absolute
  | mode => mode

/-- The modes that are written in different ways. -/
def prototypes : List Mode :=
  [.implied, .accumulator, .immediate, .direct, .directX, .directY, .directIndirect, .directIndirectLong,
    .directXIndirect, .directIndirectY, .directIndirectLongY, .absolute, .absoluteX, .absoluteY, .absoluteLong,
    .absoluteLongX, .stackRelative, .stackRelativeIndirectY, .absoluteIndirect, .absoluteIndirectLong,
    .absoluteXIndirect, .blockMove]

/-- The prototype that leaves a form. -/
def ofForm (form : List Char) : Option Mode :=
  prototypes.find? fun mode => mode.form 1 = form || mode.form 2 = form

theorem ofForm_form (mode : Mode) (size : Nat) : ofForm (mode.form size) = some mode.prototype := by
  cases mode with
  | immediate | immediateIndex =>
    simp only [form]
    split <;> decide +kernel
  | _ =>
    simp only [form]
    decide +kernel

/-- Modes that leave the same form have the same prototype. -/
theorem prototype_of_form {mode mode' : Mode} {size size' : Nat} (h : mode.form size = mode'.form size') :
    mode.prototype = mode'.prototype := by
  have hfound := mode.ofForm_form size
  rw [h, ofForm_form] at hfound
  exact (Option.some.inj hfound).symm

end Mode

/-! ## Opcodes of a name -/

/-- Whether the numbers are distinct from each other and from those whose bits are set. -/
def distinctFrom : (seen : Nat) → (numbers : List Nat) → Bool
  | _, [] => true
  | seen, n :: rest => !seen.testBit n && distinctFrom (seen ||| 1 <<< n) rest

theorem nodup_of_distinctFrom {seen : Nat} {numbers : List Nat} (h : distinctFrom seen numbers = true) :
    numbers.Nodup ∧ ∀ n ∈ numbers, seen.testBit n = false := by
  induction numbers generalizing seen with
  | nil => exact ⟨List.nodup_nil, List.forall_mem_nil _⟩
  | cons n rest ih =>
    rw [distinctFrom, Bool.and_eq_true, Bool.not_eq_true'] at h
    obtain ⟨hnodup, hunseen⟩ := ih h.2
    have hrest : ∀ m ∈ rest, seen.testBit m = false ∧ m ≠ n := by
      intro m hm
      have hbit := hunseen m hm
      rw [Nat.testBit_or, Bool.or_eq_false_iff] at hbit
      refine ⟨hbit.1, ?_⟩
      rintro rfl
      simp at hbit
    exact ⟨List.nodup_cons.2 ⟨fun hmem => (hrest n hmem).2 rfl, hnodup⟩,
      List.forall_mem_cons.2 ⟨h.1, fun m hm => (hrest m hm).1⟩⟩

/-- A number for a name and a mode. -/
def writtenNumber (name : String) (mode : Mode) : Nat :=
  (name.toList.foldl (fun n c => 32 * n + c.toNat % 32) 0) * 32 + mode.ctorIdx

/-- **The name and the way of writing the operand** belong to one opcode. -/
theorem opcode_of_written {opcode opcode' : UInt8}
    (hname : (Instruction.decode opcode).mnemonic.name = (Instruction.decode opcode').mnemonic.name)
    (hmode : (Instruction.decode opcode).mode.prototype = (Instruction.decode opcode').mode.prototype) :
    opcode = opcode' := by
  let number (opcode : Nat) : Nat :=
    let instruction := Instruction.decode (UInt8.ofNat opcode)
    writtenNumber instruction.mnemonic.name instruction.mode.prototype
  have hdistinct : distinctFrom 0 ((List.range 256).map number) = true := by decide +kernel
  have hnumber : number opcode.toNat = number opcode'.toNat := by
    simp only [number, UInt8.ofNat_toNat, hname, hmode]
  exact UInt8.toNat_inj.1 (List.inj_on_of_nodup_map (nodup_of_distinctFrom hdistinct).1
    (List.mem_range.2 opcode.toNat_lt) (List.mem_range.2 opcode'.toNat_lt) hnumber)

/-! ## Digits of operands -/

namespace Word

theorem ofBytes_inj {low high low' high' : UInt8} :
    ofBytes low high = ofBytes low' high' ↔ low = low' ∧ high = high' := by
  refine ⟨fun h => ?_, fun h => by rw [h.1, h.2]⟩
  have hnumber := congrArg UInt16.toNat h
  have hlow := low.toNat_lt
  have hlow' := low'.toNat_lt
  rw [toNat_ofBytes, toNat_ofBytes] at hnumber
  rw [← UInt8.toNat_inj, ← UInt8.toNat_inj]
  omega

theorem signExtend_inj {a b : UInt8} : signExtend a = signExtend b ↔ a = b := by
  have hlow (value : UInt8) : (signExtend value).toUInt8 = value :=
    forall_byte (P := fun value => (signExtend value).toUInt8 = value) (by decide +kernel) value
  refine ⟨fun h => ?_, fun h => by rw [h]⟩
  rw [← hlow a, ← hlow b, h]

end Word

theorem Text.hex_long_inj {bank bank' : UInt8} {offset offset' : UInt16} :
    hex 6 (Address.ofBank bank offset).toNat = hex 6 (Address.ofBank bank' offset').toNat ↔
      bank = bank' ∧ offset = offset' := by
  rw [hex_inj (hexLength_long bank offset) (hexLength_long bank' offset'), UInt32.toNat_inj]
  refine ⟨fun h => ⟨?_, ?_⟩, fun h => by rw [h.1, h.2]⟩
  · rw [← Address.bank_ofBank bank offset, h, Address.bank_ofBank]
  · rw [← Address.offset_ofBank bank offset, h, Address.offset_ofBank]

namespace Mode

/-- Constants show their bytes. -/
theorem constant_inj {operand operand' : List UInt8} {narrow : Bool} (hsize : operand.length = if narrow then 1 else 2)
    (hsize' : operand'.length = if narrow then 1 else 2)
    (h : Mode.immediate.operandText 0 operand = Mode.immediate.operandText 0 operand') : operand = operand' := by
  cases narrow with
  | true =>
    obtain ⟨byte, rfl⟩ := List.length_eq_one_iff.1 hsize
    obtain ⟨byte', rfl⟩ := List.length_eq_one_iff.1 hsize'
    simpa only [operandText, List.length_singleton, if_true, List.getD_cons_zero, String.append_right_inj,
      Text.hex_byte_inj, List.cons.injEq, and_true] using h
  | false =>
    obtain ⟨low, high, rfl⟩ := List.length_eq_two.1 hsize
    obtain ⟨low', high', rfl⟩ := List.length_eq_two.1 hsize'
    have hwide : ¬[low, high].length = 1 := by simp
    have hwide' : ¬[low', high'].length = 1 := by simp
    simpa only [operandText, if_neg hwide, if_neg hwide', List.getD_cons_zero, List.getD_cons_succ,
      String.append_right_inj, Text.hex_word_inj, Word.ofBytes_inj, List.cons.injEq, and_true] using h

/-- Two operands of one length that are written alike in one mode at one address have the same bytes. -/
theorem operandText_inj {mode : Mode} {addr : UInt32} {operand operand' : List UInt8} {narrowMemory narrowIndex : Bool}
    (hsize : operand.length = mode.operandLength narrowMemory narrowIndex)
    (hsize' : operand'.length = mode.operandLength narrowMemory narrowIndex)
    (h : mode.operandText addr operand = mode.operandText addr operand') : operand = operand' := by
  cases mode with
  | implied | accumulator => rw [List.length_eq_zero_iff.1 hsize, List.length_eq_zero_iff.1 hsize']
  | immediate8 | relative8 | direct | directX | directY | directIndirect | directIndirectLong | directXIndirect
  | directIndirectY | directIndirectLongY | stackRelative | stackRelativeIndirectY =>
    obtain ⟨byte, rfl⟩ := List.length_eq_one_iff.1 hsize
    obtain ⟨byte', rfl⟩ := List.length_eq_one_iff.1 hsize'
    simpa only [operandText, List.getD_cons_zero, String.append_right_inj, String.append_left_inj, Text.hex_byte_inj,
      Text.hex_word_inj, UInt16.add_right_inj, Word.signExtend_inj, List.cons.injEq, and_true] using h
  | relative16 | absolute | absoluteX | absoluteY | absoluteIndirect | absoluteIndirectLong | absoluteXIndirect =>
    obtain ⟨low, high, rfl⟩ := List.length_eq_two.1 hsize
    obtain ⟨low', high', rfl⟩ := List.length_eq_two.1 hsize'
    simpa only [operandText, List.getD_cons_zero, List.getD_cons_succ, String.append_right_inj, String.append_left_inj,
      Text.hex_word_inj, UInt16.add_right_inj, Word.ofBytes_inj, List.cons.injEq, and_true] using h
  | absoluteLong | absoluteLongX =>
    obtain ⟨low, high, bank, rfl⟩ := List.length_eq_three.1 hsize
    obtain ⟨low', high', bank', rfl⟩ := List.length_eq_three.1 hsize'
    simp only [operandText, List.getD_cons_zero, List.getD_cons_succ, String.append_right_inj, String.append_left_inj,
      Text.hex_long_inj, Word.ofBytes_inj] at h
    rw [h.1, h.2.1, h.2.2]
  | immediate | immediateIndex => exact constant_inj hsize hsize' h
  | blockMove =>
    obtain ⟨target, source, rfl⟩ := List.length_eq_two.1 hsize
    obtain ⟨target', source', rfl⟩ := List.length_eq_two.1 hsize'
    simp only [operandText, List.getD_cons_zero, List.getD_cons_succ, String.append_assoc, String.append_right_inj] at h
    have hlength (value : UInt8) : (Text.hex 2 value.toNat).length = 2 := Text.length_hex (Text.hexLength_byte value)
    obtain ⟨hsource, hrest⟩ := Text.append_inj h ((hlength source).trans (hlength source').symm)
    rw [String.append_right_inj, String.append_right_inj] at hrest
    rw [Text.hex_byte_inj.1 hsource, Text.hex_byte_inj.1 hrest]

/-- A width leaves the same form of an operand only if it leaves the same length. -/
theorem operandLength_of_form {mode : Mode} {narrowMemory narrowIndex narrowMemory' narrowIndex' : Bool}
    (h : mode.form (mode.operandLength narrowMemory narrowIndex) =
      mode.form (mode.operandLength narrowMemory' narrowIndex')) :
    mode.operandLength narrowMemory narrowIndex = mode.operandLength narrowMemory' narrowIndex' := by
  cases mode with
  | immediate => cases narrowMemory <;> cases narrowMemory' <;> first | rfl | cases h
  | immediateIndex => cases narrowIndex <;> cases narrowIndex' <;> first | rfl | cases h
  | _ => rfl

end Mode

/-! ## Rows -/

/-- A row is made of an opcode and of as many operand bytes as it takes. -/
theorem Row.exists_decode (peek : UInt32 → UInt8) (addr : UInt32) (widths : ListingWidths) :
    ∃ opcode operand,
      operand.length = (Instruction.decode opcode).mode.operandLength widths.narrowMemory widths.narrowIndex ∧
      Row.decode peek addr widths =
        { addr := Address.wrap addr
          bytes := opcode :: operand
          mnemonic := (Instruction.decode opcode).mnemonic.name
          operands := (Instruction.decode opcode).mode.operandText (Address.wrap addr) operand } :=
  ⟨_, _, (List.length_map _).trans List.length_range, rfl⟩

/-- **What is written tells all instructions apart**: two rows at one address have the same bytes exactly if they have
the same name and the same operand text, whatever memory they are from and whatever widths their listings assume. -/
theorem listing_unambiguous (addr : UInt32) (peek peek' : UInt32 → UInt8) (widths widths' : ListingWidths) :
    let row := Row.decode peek addr widths
    let row' := Row.decode peek' addr widths'
    row.mnemonic = row'.mnemonic ∧ row.operands = row'.operands ↔
      row.bytes = row'.bytes ∧ row.length = row'.length := by
  intro row row'
  obtain ⟨opcode, operand, hsize, hrow⟩ := Row.exists_decode peek addr widths
  obtain ⟨opcode', operand', hsize', hrow'⟩ := Row.exists_decode peek' addr widths'
  simp only [row, row', Row.length, hrow, hrow']
  constructor
  · rintro ⟨hmnemonic, hoperands⟩
    have hform := congrArg Text.blank hoperands
    rw [Mode.blank_operandText, Mode.blank_operandText] at hform
    obtain rfl := opcode_of_written hmnemonic (Mode.prototype_of_form hform)
    -- the opcode is known, so the form shows how many bytes a constant has
    rw [hsize, hsize'] at hform
    rw [← Mode.operandLength_of_form hform] at hsize'
    rw [Mode.operandText_inj hsize hsize' hoperands]
    exact ⟨rfl, rfl⟩
  · rintro ⟨hbytes, -⟩
    obtain ⟨rfl, rfl⟩ := List.cons_eq_cons.1 hbytes
    exact ⟨rfl, rfl⟩

end Emu816

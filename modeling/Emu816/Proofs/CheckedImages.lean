import Emu816.Cartridge.Header
import Emu816.Disassembly
import Emu816.Proofs.CheckedAddresses

/-!
# Checked reading of images and listings

The header of a cartridge, the evidence for it, the block that some dumps carry in front and the rows of a listing, each
taken apart by slices and indices that have no result outside their array. They have a result for every image and for
every program. The room for a listing is asked for before its first row is taken, so that there is no result if the rows
would be more than a block of memory holds.

- `Checked.score`, `Checked.parse`, `Checked.withoutCopierHeader`: of images.
- `Checked.row`, `Checked.rows`, `Checked.window`: of listings; `Checked.window_eq`: which of them have room.
-/

namespace Emu816.Checked

/-! ## Images -/

/-- The word at an index. -/
def word (bytes : Array UInt8) (index : Nat) : Option UInt16 := do
  let low ← bytes[index]?
  let high ← bytes[index + 1]?
  return Word.ofBytes low high

/-- The score of a scheme; zero if the image does not reach as far as the end of the header. -/
def score (image : Image) (scheme : Scheme) : Option Nat := do
  let start ← sub scheme.headerBase 0x10
  match slice image start (scheme.headerBase + Header.size) with
  | none => return 0
  | some window => do
    let header ← slice window 0x10 window.size
    let maker ← window[0]?
    let codeStart ← sub 0x10 0x0E
    let code ← slice window codeStart (codeStart + 4)
    let romSize ← header[0x17]?
    let complement ← word header 0x1C
    let checksum ← word header 0x1E
    return (maker :: code.toList).countP Header.isPrintable + (if 0x08 ≤ romSize && romSize ≤ 0x0D then 2 else 0)
      + (if checksum ^^^ complement == 0xFFFF then 4 else 0)

/-- The header at a scheme's place, if the image reaches that far. -/
def parse (image : Image) (scheme : Scheme) : Option (Option Header) :=
  match slice image scheme.headerBase (scheme.headerBase + Header.size) with
  | none => some none
  | some window => do
    let title ← slice window 0 Header.titleSize
    let mapMode ← window[0x15]?
    let cartridgeType ← window[0x16]?
    let romSize ← window[0x17]?
    let sramSize ← window[0x18]?
    let region ← window[0x19]?
    let version ← window[0x1B]?
    let checksum ← word window 0x1E
    let complement ← word window 0x1C
    return some
      { scheme, title := String.ofList (Header.trimEnd (title.toList.map Header.titleChar)), mapMode, cartridgeType,
        romSize, sramSize, region, version, checksum, complement }

/-- The image without the block in front of it. -/
def withoutCopierHeader (image : Image) : Option Image :=
  if image.size % 1024 = Image.copierHeaderSize then slice image Image.copierHeaderSize image.size else some image

section Images

variable {image : Image} {start stop : Nat}

theorem slice_of_le {α : Type} {array : Array α} (horder : start ≤ stop) (hstop : stop ≤ array.size) :
    slice array start stop = some (array.extract start stop) := if_pos ⟨horder, hstop⟩

theorem slice_of_lt {α : Type} {array : Array α} (hstop : array.size < stop) : slice array start stop = none :=
  if_neg fun h => absurd h.2 (Nat.not_le_of_lt hstop)

/-- A byte of a slice is the byte of the image behind its start. -/
theorem getElem?_extract_image (hstop : stop ≤ image.size) {index : Nat} (hindex : start + index < stop) :
    (image.extract start stop)[index]? = some (image.byteAt (start + index)) := by
  rw [Array.getElem?_extract, if_pos (by omega), Image.getElem?_of_lt (Nat.lt_of_lt_of_le hindex hstop)]

/-- A slice of a slice is a slice of the image. -/
theorem slice_extract_image (hstop : stop ≤ image.size) {lower upper : Nat} (horder : lower ≤ upper)
    (hupper : start + upper ≤ stop) :
    slice (image.extract start stop) lower upper = some (image.extract (start + lower) (start + upper)) := by
  have hsize : upper ≤ (image.extract start stop).size := by
    rw [Array.size_extract]
    omega
  rw [slice_of_le horder hsize, Array.extract_extract, Nat.min_eq_left hupper]

theorem toList_extract_image (hstop : stop ≤ image.size) :
    (image.extract start stop).toList = (List.range (stop - start)).map fun i => image.byteAt (start + i) := by
  refine List.ext_getElem? fun i => ?_
  rw [Array.getElem?_toList, List.getElem?_map]
  by_cases hi : start + i < stop
  · rw [getElem?_extract_image hstop hi, List.getElem?_range (by omega)]
    rfl
  · rw [Array.getElem?_eq_none (by simp; omega), List.getElem?_eq_none (by simp; omega)]
    rfl

theorem word_extract_image (hstop : stop ≤ image.size) {index : Nat} (hindex : start + (index + 1) < stop) :
    word (image.extract start stop) index =
      some (Word.ofBytes (image.byteAt (start + index)) (image.byteAt (start + (index + 1)))) := by
  rw [word, getElem?_extract_image hstop (by omega), getElem?_extract_image hstop hindex]
  rfl

/-- **Every image has a header or is too short for it**; nothing is read beyond its end. -/
theorem parse_eq (image : Image) (scheme : Scheme) : parse image scheme = some (Header.parse image scheme) := by
  by_cases hsize : scheme.headerBase + Header.size ≤ image.size
  · have hbyte {index : Nat} (hindex : index < Header.size) :=
      getElem?_extract_image hsize (Nat.add_lt_add_left hindex scheme.headerBase)
    have hword {index : Nat} (hindex : index + 1 < Header.size) :=
      word_extract_image hsize (Nat.add_lt_add_left hindex scheme.headerBase)
    have htitle := slice_extract_image hsize (show 0 ≤ Header.titleSize by decide)
      (Nat.add_le_add_left (by decide) scheme.headerBase)
    have htext : (image.extract (scheme.headerBase + 0) (scheme.headerBase + Header.titleSize)).toList =
        (List.range Header.titleSize).map fun i => image.byteAt (scheme.headerBase + i) := by
      rw [toList_extract_image (Nat.le_trans (Nat.add_le_add_left (by decide) _) hsize)]
      simp only [Nat.add_zero, Nat.add_sub_cancel_left]
    rw [parse, Header.parse, slice_of_le (Nat.le_add_right _ _) hsize, if_pos hsize]
    simp only [htitle, htext, List.map_map, hbyte (show 0x15 < Header.size by decide),
      hbyte (show 0x16 < Header.size by decide), hbyte (show 0x17 < Header.size by decide),
      hbyte (show 0x18 < Header.size by decide), hbyte (show 0x19 < Header.size by decide),
      hbyte (show 0x1B < Header.size by decide), hword (show 0x1C + 1 < Header.size by decide),
      hword (show 0x1E + 1 < Header.size by decide), Option.bind_eq_bind, Option.bind_some, Option.pure_def]
    rfl
  · rw [parse, Header.parse, slice_of_lt (Nat.lt_of_not_le hsize), if_neg hsize]

/-- **Every image has a score**, the one that the header at the scheme's place deserves. -/
theorem score_eq (image : Image) (scheme : Scheme) : score image scheme = some (scheme.score image) := by
  have hback : 0x10 ≤ scheme.headerBase := by cases scheme <;> decide
  by_cases hsize : scheme.headerBase + Header.size ≤ image.size
  · obtain ⟨start, hstart⟩ : ∃ start, scheme.headerBase = start + 0x10 := ⟨_, (Nat.sub_add_cancel hback).symm⟩
    have hstop : start + 0x30 ≤ image.size := by simpa only [hstart, Header.size, Nat.add_assoc] using hsize
    have hmaker : (image.extract start (start + 0x30))[0]? = some (image.byteAt start) :=
      getElem?_extract_image hstop (Nat.lt_add_of_pos_right (by decide))
    have hheader : slice (image.extract start (start + 0x30)) 0x10 (image.extract start (start + 0x30)).size =
        some (image.extract (start + 0x10) (start + 0x30)) := by
      rw [Array.size_extract, Nat.min_eq_left hstop, Nat.add_sub_cancel_left]
      exact slice_extract_image hstop (by decide) (Nat.le_refl _)
    have hcode : slice (image.extract start (start + 0x30)) 2 (2 + 4) = some (image.extract (start + 2) (start + 6)) :=
      slice_extract_image hstop (by decide) (Nat.add_le_add_left (by decide) _)
    have htext : (image.extract (start + 2) (start + 6)).toList =
        [image.byteAt (start + 2), image.byteAt (start + 3), image.byteAt (start + 4), image.byteAt (start + 5)] := by
      rw [toList_extract_image (Nat.le_trans (Nat.add_le_add_left (by decide) _) hstop), Nat.add_sub_add_left]
      rfl
    have hsizeByte : (image.extract (start + 0x10) (start + 0x30))[0x17]? = some (image.byteAt (start + 0x10 + 0x17)) :=
      getElem?_extract_image hstop (Nat.add_lt_add_left (by decide) start)
    have hword {index : Nat} (hindex : 0x10 + (index + 1) < 0x30) :=
      word_extract_image hstop (show start + 0x10 + (index + 1) < start + 0x30 by omega)
    rw [score, Scheme.score, if_pos hsize, hstart]
    simp only [sub_of_le (Nat.le_add_left 0x10 start), Nat.add_sub_cancel, Option.bind_eq_bind, Option.bind_some]
    rw [show start + 0x10 + Header.size = start + 0x30 from rfl, slice_of_le (Nat.le_add_right _ _) hstop]
    have hback' : sub 0x10 0x0E = some 2 := rfl
    simp only [hheader, hmaker, hback', hcode, htext, hsizeByte, hword (show 0x10 + (0x1C + 1) < 0x30 by decide),
      hword (show 0x10 + (0x1E + 1) < 0x30 by decide), countP_cons_toNat, List.countP_nil, Option.bind_some,
      Option.pure_def]
    refine congrArg some (congrArg (· + _) (congrArg (· + _) ?_))
    show _ = _ + ((Header.isPrintable (image.byteAt (start + 2))).toNat
      + (Header.isPrintable (image.byteAt (start + 3))).toNat + (Header.isPrintable (image.byteAt (start + 4))).toNat
      + (Header.isPrintable (image.byteAt (start + 5))).toNat)
    omega
  · rw [score, sub_of_le hback, Option.bind_eq_bind, Option.bind_some, slice_of_lt (Nat.lt_of_not_le hsize),
      Scheme.score, if_neg hsize]
    rfl

theorem withoutCopierHeader_eq (image : Image) : withoutCopierHeader image = some image.withoutCopierHeader := by
  unfold withoutCopierHeader Image.withoutCopierHeader
  split
  case isTrue hsize =>
    have hprefix : Image.copierHeaderSize ≤ image.size := hsize ▸ Nat.mod_le _ _
    exact slice_of_le hprefix (Nat.le_refl _)
  case isFalse => rfl

end Images

/-! ## Listings -/

/-- The instruction at an address, with bytes from `peek`; its operand is the bytes behind the first one. -/
def row (peek : UInt32 → Option UInt8) (addr : UInt32) (widths : ListingWidths) : Option Row := do
  let addr := Address.wrap addr
  let opcode ← peek addr
  let instruction := Instruction.decode opcode
  let length := instruction.mode.operandLength widths.narrowMemory widths.narrowIndex + 1
  let bytes ← (List.range length).mapM fun i => peek (Address.advance addr (UInt16.ofNat i))
  let operand ← slice bytes.toArray 1 bytes.length
  return { addr, bytes, mnemonic := instruction.mnemonic.name,
           operands := instruction.mode.operandText addr operand.toList }

/-- The given number of instructions from an address on; the first byte of each tells how to go on. -/
def rows (peek : UInt32 → Option UInt8) (addr : UInt32) (widths : ListingWidths) : (count : Nat) → Option (List Row)
  | 0 => some []
  | count + 1 => do
    let row ← row peek addr widths
    let opcode ← row.bytes[0]?
    let widths :=
      match row.bytes[1]? with
      | some mask => widths.after [opcode, mask]
      | none => widths
    let rest ← rows peek (Address.advance row.addr (UInt16.ofNat row.length)) widths count
    return row :: rest

/-- Bytes of a row in a list: a word of 64 bits for its address and length, and three for each of its bytes, its mnemonic
and its operand. -/
def rowBytes : Nat := 8 * (1 + 3 * 3)

/-- Bytes of the largest block of memory: the offsets in it are signed numbers of 64 bits. -/
def maxBlock : Nat := 0x7FFFFFFFFFFFFFFF

/-- Whether a block of memory has room for the rows. -/
def hasRoom (count : Nat) : Bool := count * rowBytes ≤ maxBlock

/-- A listing, in a block of memory that has room for all of its rows. -/
def window (peek : UInt32 → Option UInt8) (addr : UInt32) (widths : ListingWidths) (count : Nat) : Option (List Row) :=
  if hasRoom count then rows peek addr widths count else none

section Listings

theorem advance_zero (addr : UInt32) : Address.advance (Address.wrap addr) 0 = Address.wrap addr := by
  apply UInt32.toNat.inj
  rw [Address.advance, UInt16.add_zero, Address.toNat_ofBank, Address.bank, Address.offset, UInt32.toNat_toUInt8,
    UInt32.toNat_toUInt16, UInt32.toNat_div, Address.toNat_wrap]
  show addr.toNat % 0x1000000 / 0x10000 % 256 * 0x10000 + addr.toNat % 0x1000000 % 65536 = _
  omega

/-- **Every address starts a row**, whatever bytes there are. -/
theorem row_eq (peek : UInt32 → UInt8) (addr : UInt32) (widths : ListingWidths) :
    row (fun addr => some (peek addr)) addr widths = some (Row.decode peek addr widths) := by
  have hbytes (length : Nat) : (List.range (length + 1)).mapM
      (fun i => some (peek (Address.advance (Address.wrap addr) (UInt16.ofNat i)))) =
        some (peek (Address.wrap addr) ::
          (List.range length).map fun i => peek (Address.advance (Address.wrap addr) (UInt16.ofNat (i + 1)))) := by
    refine List.mapM_pure.trans (congrArg some ?_)
    rw [List.range_succ_eq_map, List.map_cons, List.map_map]
    exact congrArg (fun first => peek first :: _) (advance_zero addr)
  have hoperand (opcode : UInt8) (operand : List UInt8) :
      slice (opcode :: operand).toArray 1 (opcode :: operand).length = some operand.toArray := by
    refine (slice_of_le (Nat.le_add_left 1 _) (Nat.le_refl _)).trans (congrArg some ?_)
    rw [List.extract_toArray, List.extract_eq_take_drop]
    exact congrArg List.toArray List.take_length
  simp only [row, hbytes, hoperand, Option.bind_eq_bind, Option.bind_some, Option.pure_def]
  rfl

/-- **Every address starts rows**, as many as are asked for. -/
theorem rows_eq (peek : UInt32 → UInt8) (addr : UInt32) (widths : ListingWidths) (count : Nat) :
    rows (fun addr => some (peek addr)) addr widths count = some (Row.window peek addr widths count) := by
  induction count generalizing addr widths with
  | zero => rfl
  | succ count ih =>
    have hafter : ∀ opcode (operand : List UInt8),
        (match (opcode :: operand)[1]? with
        | some mask => widths.after [opcode, mask]
        | none => widths) = widths.after (opcode :: operand)
      | _, [] | _, _ :: _ => rfl
    simp only [rows, row_eq, ih, Option.bind_eq_bind, Option.bind_some, Option.pure_def]
    exact congrArg (fun widths => some (_ :: Row.window peek _ widths count)) (hafter _ _)

/-- **A listing fails for want of room only.** -/
theorem window_eq (peek : UInt32 → UInt8) (addr : UInt32) (widths : ListingWidths) (count : Nat) :
    window (fun addr => some (peek addr)) addr widths count =
      if hasRoom count then some (Row.window peek addr widths count) else none := by
  rw [window, rows_eq]

example : hasRoom 115292150460684697 = true ∧ hasRoom 115292150460684698 = false := by decide

end Listings

end Emu816.Checked

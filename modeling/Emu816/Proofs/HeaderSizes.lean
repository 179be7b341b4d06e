import Emu816.Proofs.Lines
import Mathlib.Algebra.GroupWithZero.Nat

/-!
# Size bytes

A header gives the size of the cartridge, and that of its battery-backed memory, as the place of the only bit that is
set in the number of KiB. A size beyond 64 bits should count as the largest number, but that is only so where the shift
is as long as the word. A shorter one moves the bit out of the word, and the size is zero.

- `Header.saturatedSize`, `Header.ShiftedOut`: what a byte stands for, and the bytes of which nothing is left.
- `Header.sizeOfExponent_eq`, `Header.sizeOfExponent_div_le_iff`: the sizes, and their order.
- `Report.ShowsSizes`, `Report.showsSizes_header_iff`: the sizes that are read from the end of a line.
- `header_sizes`: sizes in a header and on its line; `shifted_out_size`: one that is lost.
-/

namespace Emu816

namespace Header

/-! ## Sizes -/

/-- The bytes that a size byte stands for, up to the largest number of 64 bits. -/
def saturatedSize (exponent : UInt8) : Nat := min (1024 * 2 ^ exponent.toNat) 0xFFFFFFFFFFFFFFFF

/-- The shift is shorter than the word, and moves the only bit out of it. -/
def ShiftedOut (exponent : UInt8) : Prop := 54 ≤ exponent ∧ exponent < 64

instance (exponent : UInt8) : Decidable (ShiftedOut exponent) := inferInstanceAs (Decidable (_ ∧ _))

section Exponents

variable {exponent exponent' : UInt8}

theorem le_saturatedSize (exponent : UInt8) : 1024 ≤ saturatedSize exponent := by
  have hpos : 0 < 2 ^ exponent.toNat := Nat.two_pow_pos _
  rw [saturatedSize]
  omega

theorem saturatedSize_mono (h : exponent ≤ exponent') : saturatedSize exponent ≤ saturatedSize exponent' := by
  have hpow : 2 ^ exponent.toNat ≤ 2 ^ exponent'.toNat := Nat.pow_le_pow_right (by decide) h
  rw [saturatedSize, saturatedSize]
  omega

/-- **A size is what its byte stands for, or nothing.** -/
theorem sizeOfExponent_eq (exponent : UInt8) :
    sizeOfExponent exponent = if ShiftedOut exponent then 0 else saturatedSize exponent := by
  rw [sizeOfExponent, saturatedSize, Nat.shiftLeft_eq]
  by_cases hsmall : exponent < 54
  case pos =>
    have hpow : 2 ^ exponent.toNat ≤ 2 ^ 53 := Nat.pow_le_pow_right (by decide) (Nat.le_of_lt_succ hsmall)
    rw [if_pos (UInt8.lt_trans hsmall (by decide)), if_neg fun hout => UInt8.not_lt.2 hout.1 hsmall]
    omega
  case neg =>
    have hlarge : 54 ≤ exponent := UInt8.not_lt.1 hsmall
    -- 1024 times this power is a multiple of the word, and not the empty one
    obtain ⟨k, hpow⟩ : 2 ^ 54 ∣ 2 ^ exponent.toNat := Nat.pow_dvd_pow 2 hlarge
    have hpos : 0 < 2 ^ exponent.toNat := Nat.two_pow_pos _
    by_cases hword : exponent < 64
    · rw [if_pos hword, if_pos ⟨hlarge, hword⟩]
      omega
    · rw [if_neg hword, if_neg fun hout => hword hout.2]
      omega

theorem sizeOfExponent_of_shiftedOut (h : ShiftedOut exponent) : sizeOfExponent exponent = 0 := by
  rw [sizeOfExponent_eq, if_pos h]

theorem sizeOfExponent_of_not_shiftedOut (h : ¬ShiftedOut exponent) :
    sizeOfExponent exponent = saturatedSize exponent := by
  rw [sizeOfExponent_eq, if_neg h]

theorem sizeOfExponent_eq_saturatedSize_iff :
    sizeOfExponent exponent = saturatedSize exponent ↔ ¬ShiftedOut exponent := by
  refine ⟨fun heq hout => ?_, sizeOfExponent_of_not_shiftedOut⟩
  have hsome := le_saturatedSize exponent
  rw [← heq, sizeOfExponent_of_shiftedOut hout] at hsome
  exact absurd hsome (by decide)

/-- **A larger byte gives no smaller size, unless it is one of which nothing is left.** So it is in bytes, and in units
of up to a KiB. -/
theorem sizeOfExponent_div_le_iff {unit : Nat} (hpos : 0 < unit) (hunit : unit ≤ 1024) (h : exponent ≤ exponent') :
    sizeOfExponent exponent / unit ≤ sizeOfExponent exponent' / unit ↔
      (ShiftedOut exponent' → ShiftedOut exponent) := by
  by_cases hout : ShiftedOut exponent
  case pos =>
    rw [sizeOfExponent_of_shiftedOut hout, Nat.zero_div]
    exact iff_of_true (Nat.zero_le _) fun _ => hout
  case neg =>
    rw [sizeOfExponent_of_not_shiftedOut hout]
    by_cases hout' : ShiftedOut exponent'
    · have hsome : 0 < saturatedSize exponent / unit := Nat.div_pos (Nat.le_trans hunit (le_saturatedSize _)) hpos
      rw [sizeOfExponent_of_shiftedOut hout', Nat.zero_div]
      exact iff_of_false (Nat.not_le.2 hsome) fun himp => hout (himp hout')
    · rw [sizeOfExponent_of_not_shiftedOut hout']
      exact iff_of_true (Nat.div_le_div_right (saturatedSize_mono h)) fun h => absurd h hout'

end Exponents

variable {header header' : Header}

theorem romBytes_eq_saturatedSize_iff :
    header.romBytes = saturatedSize header.romSize ↔ ¬ShiftedOut header.romSize :=
  sizeOfExponent_eq_saturatedSize_iff

/-- The byte zero stands for no memory, and that is what it gives. -/
theorem sramBytes_eq_saturatedSize_iff :
    header.sramBytes = (if header.sramSize = 0 then 0 else saturatedSize header.sramSize) ↔
      ¬ShiftedOut header.sramSize := by
  rw [sramBytes]
  by_cases hzero : header.sramSize = 0
  · rw [if_pos hzero, if_pos hzero, hzero]
    exact iff_of_true rfl (by decide)
  · rw [if_neg hzero, if_neg hzero, sizeOfExponent_eq_saturatedSize_iff]

theorem sramBytes_of_shiftedOut (h : ShiftedOut header.sramSize) : header.sramBytes = 0 := by
  rw [sramBytes, sizeOfExponent_of_shiftedOut h, ite_self]

theorem romBytes_div_le_iff {unit : Nat} (hpos : 0 < unit) (hunit : unit ≤ 1024)
    (h : header.romSize ≤ header'.romSize) :
    header.romBytes / unit ≤ header'.romBytes / unit ↔
      (ShiftedOut header'.romSize → ShiftedOut header.romSize) :=
  sizeOfExponent_div_le_iff hpos hunit h

/-! ## Places -/

/-- An image has the header of a scheme if it reaches the end of it. -/
theorem parse_eq_some_iff {image : Image} {scheme : Scheme} :
    parse image scheme = some header ↔
      scheme.headerBase + size ≤ image.size ∧ readAt image scheme scheme.headerBase = header :=
  Option.ite_some_none_eq_some

theorem exists_parse_iff {image : Image} {scheme : Scheme} :
    (∃ header, parse image scheme = some header) ↔ scheme.headerBase + size ≤ image.size := by
  refine ⟨?_, fun h => ⟨_, parse_eq_some_iff.2 ⟨h, rfl⟩⟩⟩
  rintro ⟨header, hparse⟩
  exact (parse_eq_some_iff.1 hparse).1

theorem sizes_of_parse {image : Image} {scheme : Scheme} (h : parse image scheme = some header) :
    image[scheme.headerBase + 0x17]? = some header.romSize ∧
      image[scheme.headerBase + 0x18]? = some header.sramSize := by
  obtain ⟨hsize, rfl⟩ := parse_eq_some_iff.1 h
  have hin {offset : Nat} (hoffset : offset < size) : scheme.headerBase + offset < image.size :=
    Nat.lt_of_lt_of_le (Nat.add_lt_add_left hoffset _) hsize
  exact ⟨Image.getElem?_of_lt (hin (by decide)), Image.getElem?_of_lt (hin (by decide))⟩

end Header

/-! ## Sizes on a line -/

namespace Report

/-- The line tells of a cartridge of `rom` KiB with `sram` KiB of memory, behind whatever title. -/
def ShowsSizes (line : String) (rom sram : Nat) : Prop :=
  ∃ front back : String, '=' ∉ back.toList ∧
    line = front ++ " rom=" ++ toString rom ++ "KiB sram=" ++ toString sram ++ "KiB checksum=" ++ back

/-- **A line tells of one size only**, as it can be read from its end. -/
theorem ShowsSizes.unique {line : String} {rom sram rom' sram' : Nat} (h : ShowsSizes line rom sram)
    (h' : ShowsSizes line rom' sram') : rom = rom' ∧ sram = sram' := by
  obtain ⟨front, back, hback, rfl⟩ := h
  obtain ⟨front', back', hback', hline⟩ := h'
  rw [show " rom=" = " rom" ++ "=" from rfl, show "KiB sram=" = "KiB sram" ++ "=" from rfl,
    show "KiB checksum=" = "KiB checksum" ++ "=" from rfl] at hline
  simp only [← String.append_assoc] at hline
  obtain ⟨hline, -⟩ := Text.append_equals_inj hback hback' hline
  obtain ⟨hline, hsram⟩ := Text.append_number_inj ((String.append_left_inj _).1 hline)
  obtain ⟨-, hrom⟩ := Text.append_number_inj ((String.append_left_inj _).1 hline)
  exact ⟨hrom, hsram⟩

theorem showsSizes_header (header : Header) (scheme : Scheme) :
    ShowsSizes (Report.header (some header) scheme) (header.romBytes / 1024) (header.sramBytes / 1024) := by
  refine ⟨s!"cartridge: \"{header.title}\" {scheme.title} map=${Text.hex 2 header.mapMode.toNat}",
    if header.checksumPairValid then "ok" else "bad", ?_, ?_⟩
  · split <;> decide
  · dsimp only [Report.header]
    simp only [Text.toString_eq, String.append_assoc]

/-- **The sizes that a line shows** are those of the header, in whole KiB. -/
theorem showsSizes_header_iff {header : Header} {scheme : Scheme} {rom sram : Nat} :
    ShowsSizes (Report.header (some header) scheme) rom sram ↔
      rom = header.romBytes / 1024 ∧ sram = header.sramBytes / 1024 := by
  refine ⟨fun h => h.unique (showsSizes_header header scheme), ?_⟩
  rintro ⟨rfl, rfl⟩
  exact showsSizes_header header scheme

end Report

/-! ## Sizes of headers -/

/-- The bytes of an image that has one byte for both sizes at each of the two places. -/
def sizedByte (lower upper : UInt8) (offset : Nat) : UInt8 :=
  if offset = 0x7FD7 ∨ offset = 0x7FD8 then lower else if offset = 0xFFD7 ∨ offset = 0xFFD8 then upper else 0x20

/-- An image of 64 KiB, which reaches both places. -/
def sizedImage (lower upper : UInt8) : Image := .ofFn fun i : Fin 0x10000 => sizedByte lower upper i.val

/-- It has both headers, with these size bytes. -/
theorem parse_sizedImage (lower upper : UInt8) :
    ∃ first second : Header,
      Header.parse (sizedImage lower upper) .loRom = some first ∧
      Header.parse (sizedImage lower upper) .hiRom = some second ∧
      first.romSize = lower ∧ first.sramSize = lower ∧ second.romSize = upper ∧ second.sramSize = upper := by
  have hsize : (sizedImage lower upper).size = 0x10000 := Array.size_ofFn
  have hbyte {offset : Nat} (h : offset < 0x10000) :
      (sizedImage lower upper)[offset]? = some (sizedByte lower upper offset) := by
    rw [Image.getElem?_of_lt (by rwa [hsize]), sizedImage, Image.byteAt_ofFn _ h]
  have hheader (scheme : Scheme) : ∃ header, Header.parse (sizedImage lower upper) scheme = some header ∧
      header.romSize = sizedByte lower upper (scheme.headerBase + 0x17) ∧
      header.sramSize = sizedByte lower upper (scheme.headerBase + 0x18) := by
    have hbase : scheme.headerBase + Header.size ≤ 0x10000 := by cases scheme <;> decide
    obtain ⟨header, hparse⟩ := Header.exists_parse_iff.2 (show _ ≤ _ by rwa [hsize])
    obtain ⟨hrom, hsram⟩ := Header.sizes_of_parse hparse
    rw [hbyte (Nat.lt_of_lt_of_le (Nat.add_lt_add_left (by decide) _) hbase)] at hrom hsram
    exact ⟨header, hparse, (Option.some.inj hrom).symm, (Option.some.inj hsram).symm⟩
  obtain ⟨first, hfirst, hrom, hsram⟩ := hheader .loRom
  obtain ⟨second, hsecond, hrom', hsram'⟩ := hheader .hiRom
  exact ⟨first, second, hfirst, hsecond, hrom.trans rfl, hsram.trans rfl, hrom'.trans rfl, hsram'.trans rfl⟩

/-- **The sizes in a header.** An image has a header if and only if it reaches the end of its place, and the size bytes
are the ones that the place says. A size is what its byte stands for, up to the largest number of 64 bits, if and only
if the byte is not one of those that move the bit out of the word; for these it is zero. The line on the cartridge shows
just these sizes, in whole KiB. Of two headers, the one with the larger size byte has no smaller size, in bytes or on a
line, if and only if it is not the only one of which nothing is left. -/
theorem header_sizes (image : Image) (scheme : Scheme) :
    ((∃ header, Header.parse image scheme = some header) ↔ scheme.headerBase + 0x20 ≤ image.size) ∧
    ∀ header, Header.parse image scheme = some header →
      image[scheme.headerBase + 0x17]? = some header.romSize ∧
      image[scheme.headerBase + 0x18]? = some header.sramSize ∧
      (header.romBytes = Header.saturatedSize header.romSize ↔ ¬Header.ShiftedOut header.romSize) ∧
      (Header.ShiftedOut header.romSize → header.romBytes = 0) ∧
      (header.sramBytes = (if header.sramSize = 0 then 0 else Header.saturatedSize header.sramSize) ↔
        ¬Header.ShiftedOut header.sramSize) ∧
      (Header.ShiftedOut header.sramSize → header.sramBytes = 0) ∧
      (∀ shown rom sram, Report.ShowsSizes (Report.header (some header) shown) rom sram ↔
        rom = header.romBytes / 1024 ∧ sram = header.sramBytes / 1024) ∧
      ∀ header' : Header, header.romSize ≤ header'.romSize →
        (header.romBytes ≤ header'.romBytes ↔
          (Header.ShiftedOut header'.romSize → Header.ShiftedOut header.romSize)) ∧
        ∀ shown shown' rom rom' sram sram', Report.ShowsSizes (Report.header (some header) shown) rom sram →
          Report.ShowsSizes (Report.header (some header') shown') rom' sram' →
          (rom ≤ rom' ↔ (Header.ShiftedOut header'.romSize → Header.ShiftedOut header.romSize)) := by
  refine ⟨Header.exists_parse_iff, fun header hparse => ?_⟩
  obtain ⟨hrom, hsram⟩ := Header.sizes_of_parse hparse
  refine ⟨hrom, hsram, Header.romBytes_eq_saturatedSize_iff, Header.sizeOfExponent_of_shiftedOut,
    Header.sramBytes_eq_saturatedSize_iff, Header.sramBytes_of_shiftedOut, fun _ _ _ => Report.showsSizes_header_iff,
    fun header' hle => ⟨?_, ?_⟩⟩
  · have hbytes := Header.romBytes_div_le_iff Nat.one_pos (by decide) hle
    rwa [Nat.div_one, Nat.div_one] at hbytes
  · intro shown shown' rom rom' sram sram' hline hline'
    rw [(Report.showsSizes_header_iff.1 hline).1, (Report.showsSizes_header_iff.1 hline').1]
    exact Header.romBytes_div_le_iff (by decide) (Nat.le_refl _) hle

/-- A byte that moves the bit out of the word at one place, and at the other one that stands for the largest number. -/
theorem header_sizes_edges :
    ∃ lower upper : Header,
      Header.parse (sizedImage 63 255) .loRom = some lower ∧ Header.parse (sizedImage 63 255) .hiRom = some upper ∧
      lower.romSize ≤ upper.romSize ∧
      lower.romBytes = 0 ∧ lower.sramBytes = 0 ∧
      upper.romBytes = 0xFFFFFFFFFFFFFFFF ∧ upper.sramBytes = 0xFFFFFFFFFFFFFFFF ∧
      Report.ShowsSizes (Report.header (some lower) .loRom) 0 0 ∧
      Report.ShowsSizes (Report.header (some upper) .hiRom) 18014398509481983 18014398509481983 ∧
      lower.romBytes ≤ upper.romBytes ∧ 0 ≤ 18014398509481983 := by
  obtain ⟨lower, upper, hlower, hupper, hrom, hsram, hrom', hsram'⟩ := parse_sizedImage 63 255
  have hle : lower.romSize ≤ upper.romSize := by
    rw [hrom, hrom']
    decide
  obtain ⟨-, -, -, hnothing, -, hnoMemory, hline, horder⟩ := (header_sizes _ .loRom).2 lower hlower
  obtain ⟨-, -, hbytes, -, hmemory, -, hline', -⟩ := (header_sizes _ .hiRom).2 upper hupper
  obtain ⟨hsizes, hlines⟩ := horder upper hle
  rw [hrom] at hnothing
  rw [hsram] at hnoMemory
  rw [hrom', Header.saturatedSize] at hbytes
  rw [hsram', if_neg (by decide), Header.saturatedSize] at hmemory
  rw [hrom, hrom'] at hsizes hlines
  have hshows : Report.ShowsSizes (Report.header (some lower) .loRom) 0 0 := by
    rw [hline, hnothing (by decide), hnoMemory (by decide)]
    decide
  have hshows' : Report.ShowsSizes (Report.header (some upper) .hiRom) 18014398509481983 18014398509481983 := by
    rw [hline', hbytes.2 (by decide), hmemory.2 (by decide)]
    decide
  exact ⟨lower, upper, hlower, hupper, hle, hnothing (by decide), hnoMemory (by decide), hbytes.2 (by decide),
    hmemory.2 (by decide), hshows, hshows', hsizes.2 (by decide), (hlines _ _ _ _ _ _ hshows hshows').2 (by decide)⟩

/-- **A size that is lost.** The byte 54 stands for more than 64 bits can count, but its size is zero, in bytes and on the
line; that of the byte 53 is the highest bit of a word. -/
theorem shifted_out_size :
    ∃ lower upper : Header,
      Header.parse (sizedImage 53 54) .loRom = some lower ∧ Header.parse (sizedImage 53 54) .hiRom = some upper ∧
      lower.romSize = 53 ∧ upper.romSize = 54 ∧ upper.sramSize = 54 ∧
      Header.saturatedSize 54 = 0xFFFFFFFFFFFFFFFF ∧ upper.romBytes = 0 ∧ upper.sramBytes = 0 ∧
      lower.romBytes = 0x8000000000000000 ∧
      Report.ShowsSizes (Report.header (some lower) .loRom) 9007199254740992 9007199254740992 ∧
      Report.ShowsSizes (Report.header (some upper) .hiRom) 0 0 := by
  obtain ⟨lower, upper, hlower, hupper, hrom, hsram, hrom', hsram'⟩ := parse_sizedImage 53 54
  have hhalf : Header.sizeOfExponent 53 = 0x8000000000000000 := by decide
  have hnothing : Header.sizeOfExponent 54 = 0 := by decide
  have hbytes : lower.romBytes = 0x8000000000000000 := by rw [Header.romBytes, hrom, hhalf]
  have hmemory : lower.sramBytes = 0x8000000000000000 := by rw [Header.sramBytes, hsram, if_neg (by decide), hhalf]
  have hbytes' : upper.romBytes = 0 := by rw [Header.romBytes, hrom', hnothing]
  have hmemory' : upper.sramBytes = 0 := by rw [Header.sramBytes, hsram', hnothing, ite_self]
  refine ⟨lower, upper, hlower, hupper, hrom, hrom', hsram', by rw [Header.saturatedSize]; decide, hbytes', hmemory',
    hbytes, ?_, ?_⟩
  · rw [Report.showsSizes_header_iff, hbytes, hmemory]
    decide
  · rw [Report.showsSizes_header_iff, hbytes', hmemory']
    decide

end Emu816

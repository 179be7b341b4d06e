import Emu816.Cartridge.Header
import Emu816.Proofs.Words

/-!
# Evidence for a scheme

Of all the bytes of an image, ten at the place of each scheme are looked at when the scheme is chosen, and only if the
image reaches the end of the header there. More evidence for the chosen scheme does not change the choice.

- `Evidence`, `evidence`: the criteria that a header meets, and their order.
- `Scheme.score_eq_points`: a score is the points of the criteria; `Scheme.detect_eq_hiRom_iff`: how they decide.
- `evidence_congr`: images that look alike; `Evidence.points_mono`: more evidence gives more points.
- `detection_by_evidence`: what the choice of a scheme depends on, and how.
-/

namespace Emu816

/-- The criteria that a header meets; none are met where an image ends too early. -/
structure Evidence where
  /-- The byte of the maker code is printable. -/
  maker : Bool := false
  /-- Number of printable bytes of the game code. -/
  gameCode : Nat := 0
  /-- The size byte stands for 256 KiB to 8 MiB. -/
  romSize : Bool := false
  /-- The checksum is the complement with all bits inverted. -/
  checksumPair : Bool := false
  deriving DecidableEq

namespace Evidence

/-- What the criteria count together. -/
def points (e : Evidence) : Nat :=
  (if e.maker then 1 else 0) + e.gameCode + (if e.romSize then 2 else 0) + if e.checksumPair then 4 else 0

/-- The criteria without the checksum. -/
def withoutChecksum (e : Evidence) : Evidence := { e with checksumPair := false }

/-- Each criterion is met by the second header if it is by the first. -/
structure Le (e e' : Evidence) : Prop where
  maker : e.maker = true → e'.maker = true
  gameCode : e.gameCode ≤ e'.gameCode
  romSize : e.romSize = true → e'.romSize = true
  checksumPair : e.checksumPair = true → e'.checksumPair = true

instance : LE Evidence := ⟨Le⟩

/-- **More criteria are more points.** -/
theorem points_mono {e e' : Evidence} (h : e ≤ e') : e.points ≤ e'.points := by
  have hite {p q : Bool} (weight : Nat) (himp : p = true → q = true) :
      (if p = true then weight else 0) ≤ if q = true then weight else 0 := by
    split
    case isTrue hp => exact Nat.le_of_eq (if_pos (himp hp)).symm
    case isFalse => exact Nat.zero_le _
  exact Nat.add_le_add (Nat.add_le_add (Nat.add_le_add (hite 1 h.maker) h.gameCode) (hite 2 h.romSize))
    (hite 4 h.checksumPair)

theorem points_eq_withoutChecksum (e : Evidence) :
    e.points = e.withoutChecksum.points + if e.checksumPair then 4 else 0 := rfl

/-- The criteria that the bytes around a header meet. -/
def ofBytes (byte : Nat → UInt8) (base : Nat) : Evidence where
  maker := Header.isPrintable (byte (base - 0x10))
  gameCode :=
    [base - 0x0E, base - 0x0D, base - 0x0C, base - 0x0B].countP fun offset => Header.isPrintable (byte offset)
  romSize := 0x08 ≤ byte (base + 0x17) && byte (base + 0x17) ≤ 0x0D
  checksumPair :=
    Word.ofBytes (byte (base + 0x1E)) (byte (base + 0x1F)) ==
      ~~~Word.ofBytes (byte (base + 0x1C)) (byte (base + 0x1D))

end Evidence

/-- The offsets of the bytes that are looked at. -/
def Scheme.evidenceOffsets (scheme : Scheme) : List Nat :=
  let base := scheme.headerBase
  [base - 0x10, base - 0x0E, base - 0x0D, base - 0x0C, base - 0x0B, base + 0x17, base + 0x1C, base + 0x1D,
    base + 0x1E, base + 0x1F]

/-- The evidence that an image gives for a scheme. -/
def evidence (image : Image) (scheme : Scheme) : Evidence :=
  if scheme.headerBase + Header.size ≤ image.size then .ofBytes image.byteAt scheme.headerBase else {}

/-! ## Points -/

namespace Scheme

/-- A word and its complement differ in all bits. -/
theorem xor_eq_ones_iff (value other : UInt16) : value ^^^ other = 0xFFFF ↔ value = ~~~other := by
  rw [← UInt16.xor_left_inj other, UInt16.xor_assoc, UInt16.xor_self, UInt16.xor_zero, UInt16.xor_comm 0xFFFF]
  exact iff_of_eq (congrArg (value = ·) UInt16.xor_neg_one)

/-- **A score is the points of the evidence.** -/
theorem score_eq_points (image : Image) (scheme : Scheme) : scheme.score image = (evidence image scheme).points := by
  unfold score evidence
  dsimp only
  split
  case isFalse => rfl
  case isTrue =>
    have hmaker (byte : UInt8) :
        (Header.isPrintable byte).toNat = if Header.isPrintable byte = true then 1 else 0 := by
      cases Header.isPrintable byte <;> rfl
    have hcode (a b c d : Nat) : [a, b, c, d].countP (fun offset => Header.isPrintable (image.byteAt offset)) =
        (Header.isPrintable (image.byteAt a)).toNat + (Header.isPrintable (image.byteAt b)).toNat +
          (Header.isPrintable (image.byteAt c)).toNat + (Header.isPrintable (image.byteAt d)).toNat := by
      simp only [countP_cons_toNat, List.countP_nil]
      omega
    have hpair : (Header.readAt image scheme scheme.headerBase).checksumPairValid =
        (Evidence.ofBytes image.byteAt scheme.headerBase).checksumPair := by
      rw [Bool.eq_iff_iff, Header.checksumPairValid, beq_iff_eq, xor_eq_ones_iff]
      exact beq_iff_eq.symm
    rw [hpair, hmaker, ← hcode]
    rfl

/-- The evidence decides: more points for `hiRom`, or `loRom`. -/
theorem detect_eq_hiRom_iff (image : Image) :
    Scheme.detect image = .hiRom ↔ (evidence image .loRom).points < (evidence image .hiRom).points := by
  rw [detect, score_eq_points, score_eq_points]
  split
  case isTrue h => exact iff_of_true rfl h
  case isFalse h => exact iff_of_false Scheme.noConfusion h

theorem detect_eq_loRom_iff (image : Image) :
    Scheme.detect image = .loRom ↔ (evidence image .hiRom).points ≤ (evidence image .loRom).points := by
  rw [← Nat.not_lt, ← detect_eq_hiRom_iff]
  cases Scheme.detect image <;> decide

end Scheme

/-! ## Images that look alike -/

/-- The bytes that are looked at decide about the evidence. -/
theorem Evidence.ofBytes_congr {byte byte' : Nat → UInt8} {scheme : Scheme}
    (h : ∀ offset ∈ scheme.evidenceOffsets, byte offset = byte' offset) :
    ofBytes byte scheme.headerBase = ofBytes byte' scheme.headerBase := by
  simp only [Scheme.evidenceOffsets, List.forall_mem_cons] at h
  obtain ⟨hmaker, ha, hb, hc, hd, hsize, hlow, hhigh, hlow', hhigh', -⟩ := h
  simp only [ofBytes, hmaker, hsize, hlow, hhigh, hlow', hhigh', List.countP_cons, List.countP_nil, ha, hb, hc, hd]

/-- All of them are before the end of the header. -/
theorem Scheme.evidenceOffsets_lt (scheme : Scheme) :
    ∀ offset ∈ scheme.evidenceOffsets, offset < scheme.headerBase + Header.size := by
  cases scheme <;> decide

/-- **Images give the same evidence** if both reach the end of the header or none does, and if the bytes that are
looked at are the same where both have them. -/
theorem evidence_congr (scheme : Scheme) {a b : Image}
    (hreach : scheme.headerBase + Header.size ≤ a.size ↔ scheme.headerBase + Header.size ≤ b.size)
    (hbytes : ∀ offset ∈ scheme.evidenceOffsets, ∀ (ha : offset < a.size) (hb : offset < b.size),
      a[offset] = b[offset]) :
    evidence a scheme = evidence b scheme := by
  unfold evidence
  by_cases ha : scheme.headerBase + Header.size ≤ a.size
  · have hb := hreach.1 ha
    rw [if_pos ha, if_pos hb]
    refine Evidence.ofBytes_congr fun offset hoffset => ?_
    have hlt := scheme.evidenceOffsets_lt offset hoffset
    have hina := Nat.lt_of_lt_of_le hlt ha
    have hinb := Nat.lt_of_lt_of_le hlt hb
    rw [Image.byteAt, Image.byteAt, Array.getElem?_eq_getElem hina, Array.getElem?_eq_getElem hinb,
      hbytes offset hoffset hina hinb]
  · rw [if_neg ha, if_neg fun hb => ha (hreach.2 hb)]

/-- An image gives no evidence for a scheme whose header it does not reach. -/
theorem evidence_of_lt (scheme : Scheme) {image : Image} (h : image.size < scheme.headerBase + Header.size) :
    evidence image scheme = {} := if_neg (Nat.not_le.2 h)

/-- The evidence of an image that is given byte by byte. -/
theorem evidence_ofFn (scheme : Scheme) (byte : Nat → UInt8) {count : Nat}
    (h : scheme.headerBase + Header.size ≤ count) :
    evidence (.ofFn fun i : Fin count => byte i.val) scheme = .ofBytes byte scheme.headerBase := by
  rw [evidence, if_pos (by rwa [Array.size_ofFn])]
  refine Evidence.ofBytes_congr fun offset hoffset => ?_
  exact Image.byteAt_ofFn byte (Nat.lt_of_lt_of_le (scheme.evidenceOffsets_lt offset hoffset) h)

/-! ## The choice of a scheme -/

/-- **What the choice of a scheme depends on.** An image that does not reach the end of the upper header is taken for
`loRom`. Images of any lengths are taken for the same scheme if they reach the same headers and have the same bytes
where evidence is looked for, so bytes behind the upper header do not matter. A scheme that is chosen is chosen still
if there is more evidence for it, and no more for the other. Where all other criteria count the same, `hiRom` is
chosen if and only if it is the only one whose checksum fits. -/
theorem detection_by_evidence :
    (∀ image : Image, image.size < 0xFFE0 → Scheme.detect image = .loRom) ∧
    (∀ a b : Image, (0x7FE0 ≤ a.size ↔ 0x7FE0 ≤ b.size) → (0xFFE0 ≤ a.size ↔ 0xFFE0 ≤ b.size) →
      (∀ scheme : Scheme, ∀ offset ∈ scheme.evidenceOffsets, ∀ (ha : offset < a.size) (hb : offset < b.size),
        a[offset] = b[offset]) →
      Scheme.detect a = Scheme.detect b) ∧
    (∀ image appended : Image, 0xFFE0 ≤ image.size → Scheme.detect (image ++ appended) = Scheme.detect image) ∧
    (∀ a b : Image, evidence a .hiRom ≤ evidence b .hiRom → evidence b .loRom ≤ evidence a .loRom →
      Scheme.detect a = .hiRom → Scheme.detect b = .hiRom) ∧
    (∀ a b : Image, evidence a .loRom ≤ evidence b .loRom → evidence b .hiRom ≤ evidence a .hiRom →
      Scheme.detect a = .loRom → Scheme.detect b = .loRom) ∧
    (∀ image : Image,
      (evidence image .loRom).withoutChecksum.points = (evidence image .hiRom).withoutChecksum.points →
      (Scheme.detect image = .hiRom ↔
        (evidence image .hiRom).checksumPair = true ∧ (evidence image .loRom).checksumPair = false)) := by
  have hframe (a b : Image) (hlower : 0x7FE0 ≤ a.size ↔ 0x7FE0 ≤ b.size) (hupper : 0xFFE0 ≤ a.size ↔ 0xFFE0 ≤ b.size)
      (hbytes : ∀ scheme : Scheme, ∀ offset ∈ scheme.evidenceOffsets, ∀ (ha : offset < a.size) (hb : offset < b.size),
        a[offset] = b[offset]) : Scheme.detect a = Scheme.detect b := by
    rw [Scheme.detect, Scheme.detect, Scheme.score_eq_points, Scheme.score_eq_points, Scheme.score_eq_points,
      Scheme.score_eq_points, evidence_congr .loRom hlower (hbytes .loRom),
      evidence_congr .hiRom hupper (hbytes .hiRom)]
  refine ⟨fun image h => ?_, hframe, fun image appended h => ?_, fun a b hhi hlo h => ?_, fun a b hlo hhi h => ?_,
    fun image h => ?_⟩
  · rw [Scheme.detect_eq_loRom_iff, evidence_of_lt .hiRom h]
    exact Nat.zero_le _
  · have hsize : (image ++ appended).size = image.size + appended.size := Array.size_append
    refine hframe _ _ (by omega) (by omega) fun scheme offset _ _ hb => ?_
    exact Array.getElem_append_left hb
  · rw [Scheme.detect_eq_hiRom_iff] at h ⊢
    have hhi := Evidence.points_mono hhi
    have hlo := Evidence.points_mono hlo
    omega
  · rw [Scheme.detect_eq_loRom_iff] at h ⊢
    have hhi := Evidence.points_mono hhi
    have hlo := Evidence.points_mono hlo
    omega
  · rw [Scheme.detect_eq_hiRom_iff, (evidence image .loRom).points_eq_withoutChecksum,
      (evidence image .hiRom).points_eq_withoutChecksum, h]
    cases (evidence image .hiRom).checksumPair <;> cases (evidence image .loRom).checksumPair <;> simp

/-- A blank image, and images with a plausible size or a checksum that fits at one of the headers; another byte, bytes
behind the image, and an image that ends one byte too early. -/
theorem detection_by_evidence_blank :
    let image (byte : Nat → UInt8) : Image := .ofFn fun i : Fin 0x10000 => byte i.val
    let blank : Nat → UInt8 := fun _ => 0x20
    let sized : Nat → UInt8 := fun offset => if offset = 0x7FD7 then 0x0A else 0x20
    let summed : Nat → UInt8 := fun offset => if offset = 0xFFDC ∨ offset = 0xFFDD then 0xDF else 0x20
    let both : Nat → UInt8 := fun offset => if offset = 0xFFD7 then 0x0A else summed offset
    let other : Nat → UInt8 := fun offset => if offset = 0 then 0x00 else summed offset
    Scheme.detect (image blank) = .loRom ∧ Scheme.detect (image sized) = .loRom ∧
      Scheme.detect (image summed) = .hiRom ∧ Scheme.detect (image both) = .hiRom ∧
      Scheme.detect (image other) = .hiRom ∧ Scheme.detect (image summed ++ #[1, 2]) = .hiRom ∧
      Scheme.detect (.replicate 0xFFDF 0x20) = .loRom := by
  intro image blank sized summed both other
  obtain ⟨hshort, hframe, happend, hhi, hlo, hpair⟩ := detection_by_evidence
  have hevidence (byte : Nat → UInt8) (scheme : Scheme) :
      evidence (image byte) scheme = .ofBytes byte scheme.headerBase :=
    evidence_ofFn scheme byte (by cases scheme <;> decide)
  have hsize (byte : Nat → UInt8) : (image byte).size = 0x10000 := Array.size_ofFn
  have hblank : Scheme.detect (image blank) = .loRom := by
    have hpair := hpair (image blank) (by rw [hevidence, hevidence]; decide)
    rw [hevidence, hevidence] at hpair
    cases hdetect : Scheme.detect (image blank) with
    | loRom => rfl
    | hiRom => exact absurd (hpair.1 hdetect) (by decide)
  have hsummed : Scheme.detect (image summed) = .hiRom :=
    (hpair (image summed) (by rw [hevidence, hevidence]; decide)).2 (by rw [hevidence, hevidence]; decide)
  have hother : Scheme.detect (image other) = Scheme.detect (image summed) := by
    refine hframe _ _ (by rw [hsize, hsize]) (by rw [hsize, hsize]) fun scheme offset hoffset _ _ => ?_
    have hne : offset ≠ 0 := by
      rintro rfl
      cases scheme <;> exact absurd hoffset (by decide)
    rw [Array.getElem_ofFn, Array.getElem_ofFn]
    exact if_neg hne
  refine ⟨hblank, hlo (image blank) _ ?_ ?_ hblank, hsummed, hhi (image summed) _ ?_ ?_ hsummed, hother.trans hsummed,
    (happend _ _ (by rw [hsize]; decide)).trans hsummed, hshort _ (by rw [Array.size_replicate]; decide)⟩
  all_goals
    rw [hevidence, hevidence]
    constructor <;> decide

end Emu816

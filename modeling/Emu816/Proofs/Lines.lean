import Emu816.Report

/-!
# Lines of text

What is printed as a line has no line break in it, so that the lines of a text are as many as were printed, and can be
read back from it.

- `OneLine`: text without a line break; it is closed under everything that rows are made of.
- `asLines`: the text of some lines; `FirstLine`: the first line of a text with a property, `FirstLine.unique`.
- `Text.append_number_inj`: a number at the end of a line is read in one way.
- `oneLine_row`, `oneLine_step`: the rows of a listing and the lines of a trace.
-/

namespace Emu816

/-- The text has no line break. -/
def OneLine (text : String) : Prop := '\n' ∉ text.toList

instance (text : String) : Decidable (OneLine text) := inferInstanceAs (Decidable ('\n' ∉ text.toList))

/-- The text of some lines. -/
def asLines (lines : List String) : String := String.join (lines.map fun line => line ++ "\n")

@[simp] theorem asLines_nil : asLines [] = "" := rfl

@[simp] theorem asLines_cons (line : String) (lines : List String) :
    asLines (line :: lines) = line ++ "\n" ++ asLines lines := String.join_cons

@[simp] theorem asLines_append (first second : List String) :
    asLines (first ++ second) = asLines first ++ asLines second := by
  rw [asLines, List.map_append, String.join_append]
  rfl

/-! ## Parts of a line -/

section Parts

theorem oneLine_append {first second : String} : OneLine (first ++ second) ↔ OneLine first ∧ OneLine second := by
  rw [OneLine, String.toList_append, List.mem_append]
  exact not_or

theorem oneLine_ofList {chars : List Char} (h : '\n' ∉ chars) : OneLine (String.ofList chars) := by
  rwa [OneLine, String.toList_ofList]

theorem oneLine_intercalate {separator : String} {texts : List String} (hseparator : OneLine separator)
    (htexts : ∀ text ∈ texts, OneLine text) : OneLine (separator.intercalate texts) := by
  induction texts with
  | nil => simp [OneLine]
  | cons text texts ih =>
    have htext := htexts text List.mem_cons_self
    have hrest := ih fun text htext => htexts text (List.mem_cons_of_mem _ htext)
    cases texts with
    | nil => rwa [String.intercalate_singleton]
    | cons other texts =>
      rw [String.intercalate_cons_cons]
      exact oneLine_append.2 ⟨oneLine_append.2 ⟨htext, hseparator⟩, hrest⟩

end Parts

namespace Text

/-- A text is written as it is. -/
theorem toString_eq (text : String) : toString text = text := rfl

theorem not_mem_digitsWith {digit : Nat → Char} {c : Char} (h : ∀ d < 16, digit d ≠ c) (width n : Nat) :
    c ∉ digitsWith digit width n := by
  induction width generalizing n with
  | zero => exact List.not_mem_nil
  | succ width ih =>
    rw [digitsWith, List.mem_append, List.mem_singleton]
    exact not_or.2 ⟨ih (n / 16), (h _ (Nat.mod_lt n (by decide))).symm⟩

theorem oneLine_hex (width n : Nat) : OneLine (hex width n) :=
  oneLine_ofList (not_mem_digitsWith (by decide) _ _)

theorem oneLine_bytesHex (bytes : List UInt8) : OneLine (bytesHex bytes) := by
  refine oneLine_intercalate (by decide) fun text htext => ?_
  obtain ⟨byte, -, rfl⟩ := List.mem_map.1 htext
  exact oneLine_hex 2 _

theorem oneLine_padRight (width : Nat) {text : String} (h : OneLine text) : OneLine (padRight width text) := by
  refine oneLine_append.2 ⟨h, oneLine_ofList ?_⟩
  rw [List.mem_replicate]
  rintro ⟨-, heq⟩
  exact absurd heq (by decide)

end Text

/-- A decimal number has nothing but digits. -/
theorem not_mem_repr {c : Char} (hc : c.isDigit = false) (n : Nat) : c ∉ n.repr.toList := by
  intro h
  rw [Nat.toList_repr] at h
  exact absurd (Nat.isDigit_of_mem_toDigits (by decide) (by decide) h) (Bool.eq_false_iff.1 hc)

theorem oneLine_repr (n : Nat) : OneLine n.repr := not_mem_repr (by decide) n

/-! ## Reading a text -/

namespace Text

/-- The first occurrence of a sign parts a list in one way. -/
theorem cons_append_inj {c : Char} {front front' back back' : List Char} (hfront : c ∉ front) (hfront' : c ∉ front')
    (h : front ++ c :: back = front' ++ c :: back') : front = front' ∧ back = back' := by
  induction front generalizing front' with
  | nil =>
    cases front' with
    | nil => exact ⟨rfl, (List.cons_eq_cons.1 h).2⟩
    | cons d front' =>
      obtain ⟨rfl, -⟩ := List.cons_eq_cons.1 h
      exact absurd List.mem_cons_self hfront'
  | cons d front ih =>
    cases front' with
    | nil =>
      obtain ⟨rfl, -⟩ := List.cons_eq_cons.1 h
      exact absurd List.mem_cons_self hfront
    | cons d' front' =>
      obtain ⟨rfl, hrest⟩ := List.cons_eq_cons.1 h
      obtain ⟨rfl, hback⟩ := ih (List.not_mem_of_not_mem_cons hfront) (List.not_mem_of_not_mem_cons hfront') hrest
      exact ⟨rfl, hback⟩

/-- The first break ends the first line. -/
theorem append_break_inj {line line' rest rest' : String} (hline : OneLine line) (hline' : OneLine line')
    (h : line ++ ("\n" ++ rest) = line' ++ ("\n" ++ rest')) : line = line' ∧ rest = rest' := by
  have hlist : line.toList ++ '\n' :: rest.toList = line'.toList ++ '\n' :: rest'.toList := by
    simpa using congrArg String.toList h
  obtain ⟨hfirst, hrest⟩ := cons_append_inj hline hline' hlist
  exact ⟨String.toList_inj.1 hfirst, String.toList_inj.1 hrest⟩

/-- The last sign of equality parts a text in one way. -/
theorem append_equals_inj {front back front' back' : String} (hback : '=' ∉ back.toList)
    (hback' : '=' ∉ back'.toList) (h : front ++ "=" ++ back = front' ++ "=" ++ back') :
    front = front' ∧ back = back' := by
  have hlist : back.toList.reverse ++ '=' :: front.toList.reverse =
      back'.toList.reverse ++ '=' :: front'.toList.reverse := by
    simpa [String.append_assoc] using congrArg (fun text => text.toList.reverse) h
  obtain ⟨hlast, hrest⟩ := cons_append_inj (by simpa using hback) (by simpa using hback') hlist
  exact ⟨String.toList_inj.1 (List.reverse_inj.1 hrest), String.toList_inj.1 (List.reverse_inj.1 hlast)⟩

/-- A number behind the last sign of equality is read in one way. -/
theorem append_number_inj {front front' : String} {m n : Nat}
    (h : front ++ "=" ++ toString m = front' ++ "=" ++ toString n) : front = front' ∧ m = n := by
  rw [Nat.toString_eq_repr, Nat.toString_eq_repr] at h
  obtain ⟨hfront, hnumber⟩ := append_equals_inj (not_mem_repr (by decide) m) (not_mem_repr (by decide) n) h
  have hdigits : Nat.toDigits 10 m = Nat.toDigits 10 n := by
    rw [← Nat.toList_repr, ← Nat.toList_repr, hnumber]
  refine ⟨hfront, ?_⟩
  rw [← @Nat.ofDigitChars_ten_toDigits m, hdigits, Nat.ofDigitChars_ten_toDigits]

/-- So is a number that stands behind its name. -/
theorem append_named_inj (name : String) {front front' : String} {m n : Nat}
    (h : front ++ (name ++ "=") ++ toString m = front' ++ (name ++ "=") ++ toString n) : front = front' ∧ m = n := by
  rw [← String.append_assoc, ← String.append_assoc] at h
  obtain ⟨hfront, hnumber⟩ := append_number_inj h
  exact ⟨(String.append_left_inj name).1 hfront, hnumber⟩

end Text

/-- The first line of the text with a property, and what stands below it. -/
def FirstLine (p : String → Prop) (text line below : String) : Prop :=
  ∃ above : List String, text = asLines above ++ (line ++ ("\n" ++ below)) ∧
    (∀ other ∈ above, OneLine other ∧ ¬p other) ∧ OneLine line ∧ p line

/-- **A text has one such line** at most. -/
theorem FirstLine.unique {p : String → Prop} {text line line' below below' : String}
    (h : FirstLine p text line below) (h' : FirstLine p text line' below') : line = line' ∧ below = below' := by
  obtain ⟨above, rfl, habove, hline, hp⟩ := h
  obtain ⟨above', htext, habove', hline', hp'⟩ := h'
  induction above generalizing above' with
  | nil =>
    cases above' with
    | nil => exact Text.append_break_inj hline hline' (by simpa using htext)
    | cons other above' =>
      obtain ⟨hother, hnot⟩ := habove' other List.mem_cons_self
      obtain ⟨rfl, -⟩ := Text.append_break_inj hline hother (by simpa [String.append_assoc] using htext)
      exact absurd hp hnot
  | cons other above ih =>
    obtain ⟨hother, hnot⟩ := habove other List.mem_cons_self
    cases above' with
    | nil =>
      obtain ⟨rfl, -⟩ := Text.append_break_inj hother hline' (by simpa [String.append_assoc] using htext)
      exact absurd hp' hnot
    | cons other' above' =>
      obtain ⟨hother', -⟩ := habove' other' List.mem_cons_self
      obtain ⟨-, hrest⟩ := Text.append_break_inj hother hother' (by simpa [String.append_assoc] using htext)
      exact ih (fun other hmem => habove other (List.mem_cons_of_mem _ hmem)) above' hrest
        fun other hmem => habove' other (List.mem_cons_of_mem _ hmem)

/-! ## Rows and trace lines -/

theorem oneLine_mnemonic (mnemonic : Mnemonic) : OneLine mnemonic.name := by
  cases mnemonic <;> decide

theorem oneLine_operandText (mode : Mode) (addr : UInt32) (operand : List UInt8) :
    OneLine (mode.operandText addr operand) := by
  cases mode with
  | immediate | immediateIndex =>
    simp only [Mode.operandText]
    split <;> simp +decide only [oneLine_append, Text.oneLine_hex]
  | _ => simp +decide only [Mode.operandText, oneLine_append, Text.oneLine_hex]

theorem oneLine_row {row : Row} (hmnemonic : OneLine row.mnemonic) (hoperands : OneLine row.operands) :
    OneLine row.text := by
  have hshown : OneLine (if row.operands.isEmpty then "" else " " ++ row.operands) := by
    split
    · decide
    · exact oneLine_append.2 ⟨by decide, hoperands⟩
  have hbytes := Text.oneLine_padRight 11 (Text.oneLine_bytesHex row.bytes)
  simp +decide only [Row.text, oneLine_append, Text.oneLine_hex, hbytes, hmnemonic, hshown]

/-- A row of a listing is one line. -/
theorem oneLine_decode (peek : UInt32 → UInt8) (addr : UInt32) (widths : ListingWidths) :
    OneLine (Row.decode peek addr widths).text :=
  oneLine_row (oneLine_mnemonic _) (oneLine_operandText _ _ _)

/-- What is reported of a step is one line, if its row is. -/
theorem oneLine_step {row : Option Row} {outcome : Outcome} {line : String} (hrow : ∀ r ∈ row, OneLine r.text)
    (hline : Report.step row outcome = some line) : OneLine line := by
  unfold Report.step at hline
  cases hevent : outcome.event with
  | executed pbr pc opcode =>
    rw [hevent] at hline
    obtain ⟨r, hr, rfl⟩ := Option.map_eq_some_iff.1 hline
    have hpadded := Text.oneLine_padRight 32 (hrow r hr)
    simp +decide only [oneLine_append, toString, hpadded, oneLine_repr]
  | interrupt kind vector =>
    rw [hevent] at hline
    obtain rfl := Option.some.inj hline
    have hname : OneLine (Report.interrupt kind) := by cases kind <;> decide
    simp +decide only [oneLine_append, toString, hname, Text.oneLine_hex]
  | waiting | stopped =>
    rw [hevent] at hline
    cases hline

end Emu816

import Emu816.Proofs.FrameCounts

/-!
# Printed counts

What a report prints about its frames, as it can be read from the text alone. The line on the totals is the first one
that begins with the number of frames, and the processor's own count of cycles ends the line below it. All counts stand
behind their names, so a text tells of one account only.

- `Account`: the printed counts; `ShowsTotals`, `ShowsCycles`: the lines that they stand on.
- `ShowsAccount`, `ShowsAccount.unique`: the account that a text tells of.
- `not_startsWith_header`, `not_startsWith_step`: no line above the totals can be taken for it.
- `sessionAccount`, `showsAccount_reportRun`: the account that a report tells of.
-/

namespace Emu816

namespace Runner

/-! ## Accounts -/

/-- The counts that a report shows. -/
@[ext]
structure Account where
  frames : Nat
  steps : Nat
  cycles : Nat
  instructions : Nat
  interrupts : Nat
  /-- Cycles as the processor has counted them. -/
  processor : Nat
  deriving DecidableEq

variable {account account' : Account} {line out : String}

/-- The line shows the counts of an account but for the processor's. -/
def ShowsTotals (line : String) (account : Account) : Prop :=
  line = "frames=" ++ toString account.frames ++ " steps=" ++ toString account.steps ++ " cycles="
    ++ toString account.cycles ++ " instructions=" ++ toString account.instructions ++ " interrupts="
    ++ toString account.interrupts

instance (line : String) (account : Account) : Decidable (ShowsTotals line account) :=
  inferInstanceAs (Decidable (_ = _))

/-- The line ends with a count of cycles. -/
def ShowsCycles (line : String) (cycles : Nat) : Prop := ∃ front : String, line = front ++ " cycles=" ++ toString cycles

/-- The text tells of an account: the first line that begins with the number of frames shows its counts, and the line
below that ends with the processor's. -/
def ShowsAccount (out : String) (account : Account) : Prop :=
  ∃ totals below registers rest : String,
    FirstLine (fun line => line.startsWith "frames=") out totals below ∧
    FirstLine (fun _ => True) below registers rest ∧
    ShowsTotals totals account ∧ ShowsCycles registers account.processor

/-- **A line shows one account** at most, but for the processor's count. -/
theorem ShowsTotals.unique (h : ShowsTotals line account) (h' : ShowsTotals line account') :
    account = { account' with processor := account.processor } := by
  rw [ShowsTotals] at h h'
  subst h
  obtain ⟨h', hinterrupts⟩ := Text.append_named_inj " interrupts" h'
  obtain ⟨h', hinstructions⟩ := Text.append_named_inj " instructions" h'
  obtain ⟨h', hcycles⟩ := Text.append_named_inj " cycles" h'
  obtain ⟨h', hsteps⟩ := Text.append_named_inj " steps" h'
  obtain ⟨-, hframes⟩ := Text.append_number_inj (show "frames" ++ "=" ++ _ = "frames" ++ "=" ++ _ from h')
  rw [← hframes, ← hsteps, ← hcycles, ← hinstructions, ← hinterrupts]

example : ShowsTotals "frames=3 steps=178975 cycles=178977 instructions=1 interrupts=0"
    { frames := 3, steps := 178975, cycles := 178977, instructions := 1, interrupts := 0, processor := 178977 } := by
  decide +kernel

theorem ShowsCycles.unique {cycles cycles' : Nat} (h : ShowsCycles line cycles) (h' : ShowsCycles line cycles') :
    cycles = cycles' := by
  obtain ⟨front, rfl⟩ := h
  obtain ⟨front', hline⟩ := h'
  exact (Text.append_named_inj " cycles" hline).2

/-- **A text tells of one account** at most. -/
theorem ShowsAccount.unique (h : ShowsAccount out account) (h' : ShowsAccount out account') : account = account' := by
  obtain ⟨totals, below, registers, rest, hfirst, hnext, htotals, hcycles⟩ := h
  obtain ⟨totals', below', registers', rest', hfirst', hnext', htotals', hcycles'⟩ := h'
  obtain ⟨rfl, rfl⟩ := hfirst.unique hfirst'
  obtain ⟨rfl, rfl⟩ := hnext.unique hnext'
  rw [htotals.unique htotals', hcycles.unique hcycles']

end Runner

/-! ## Lines above the totals -/

/-- A number begins with a digit, which is no small letter. -/
theorem Text.exists_hex_eq (width n : Nat) : ∃ c digits, (hex width n).toList = c :: digits ∧ c ≠ 'f' := by
  have hcapital (width : Nat) : 'f' ∉ digitsWith (fun d => (Nat.digitChar d).toUpper) width n :=
    not_mem_digitsWith (by decide) width n
  obtain ⟨width', hwidth⟩ : ∃ width', max width (hexLength n) = width' + 1 :=
    Nat.exists_eq_succ_of_ne_zero (Nat.ne_of_gt (Nat.lt_of_lt_of_le (Nat.succ_pos _) (Nat.le_max_right _ _)))
  rw [hex, String.toList_ofList, hwidth]
  cases hdigits : digitsWith (fun d => (Nat.digitChar d).toUpper) (width' + 1) n with
  | nil => exact absurd hdigits (List.append_ne_nil_of_right_ne_nil _ (List.cons_ne_nil _ _))
  | cons c digits => exact ⟨c, digits, rfl, fun h => hcapital (width' + 1) (by simp [hdigits, h])⟩

namespace Header

theorem titleChar_ne_break (byte : UInt8) : titleChar byte ≠ '\n' :=
  forall_byte (P := fun byte => titleChar byte ≠ '\n') (by decide +kernel) byte

/-- The title of a header has no line break, whatever bytes it is read from. -/
theorem oneLine_title {image : Image} {scheme : Scheme} {header : Header} (h : parse image scheme = some header) :
    OneLine header.title := by
  rw [parse] at h
  split at h
  case isTrue =>
    obtain rfl := Option.some.inj h
    refine oneLine_ofList fun hmem => ?_
    rw [trimEnd, List.mem_reverse] at hmem
    obtain ⟨i, -, hbreak⟩ := List.mem_map.1 (List.mem_reverse.1 ((List.dropWhile_sublist _).mem hmem))
    exact titleChar_ne_break _ hbreak
  case isFalse => cases h

end Header

namespace Report

theorem oneLine_header (image : Image) (scheme : Scheme) : OneLine (header (Header.parse image scheme) scheme) := by
  have hscheme : OneLine scheme.title := by cases scheme <;> decide
  cases hparse : Header.parse image scheme with
  | none =>
    dsimp only [header]
    simp +decide only [Text.toString_eq, oneLine_append, hscheme]
  | some parsed =>
    have htitle := Header.oneLine_title hparse
    have hchecksum : OneLine (if parsed.checksumPairValid then "ok" else "bad") := by split <;> decide
    dsimp only [header]
    simp +decide only [Text.toString_eq, Nat.toString_eq_repr, oneLine_append, hscheme, htitle, hchecksum,
      Text.oneLine_hex, oneLine_repr]

theorem oneLine_flags (p : UInt8) : OneLine (flags p) := by
  have hlower : '\n' ∉ flagLetters := by decide
  have hupper : '\n' ∉ flagLetters.map Char.toUpper := by decide
  refine oneLine_ofList fun hmem => ?_
  obtain ⟨i, hi, hbreak⟩ := List.mem_mapIdx.1 hmem
  have hletter : flagLetters[i] ∈ flagLetters := List.getElem_mem hi
  split at hbreak
  · exact hupper (hbreak ▸ List.mem_map_of_mem hletter)
  · exact hlower (hbreak ▸ hletter)

theorem oneLine_registers (cpu : Cpu) : OneLine (registers cpu) := by
  have hstate : OneLine (runState cpu.runState) := by cases cpu.runState <;> decide
  dsimp only [registers]
  simp +decide only [Text.toString_eq, Nat.toString_eq_repr, oneLine_append, Text.oneLine_hex, oneLine_repr,
    oneLine_flags, hstate]

/-- The line on the cartridge does not begin with a number of frames. -/
theorem not_startsWith_header (h : Option Header) (scheme : Scheme) : ¬(header h scheme).startsWith "frames=" := by
  rw [String.startsWith_string_iff]
  cases h with
  | none =>
    dsimp only [header]
    simp [Text.toString_eq]
  | some parsed =>
    dsimp only [header]
    simp [Text.toString_eq]

/-- Nor does a line on a step, which begins with an address or with two dashes. -/
theorem not_startsWith_step {row : Option Row} {outcome : Outcome} {line : String}
    (h : step row outcome = some line) : ¬line.startsWith "frames=" := by
  rw [String.startsWith_string_iff]
  unfold step at h
  cases hevent : outcome.event with
  | executed pbr pc opcode =>
    rw [hevent] at h
    obtain ⟨r, -, rfl⟩ := Option.map_eq_some_iff.1 h
    obtain ⟨c, digits, hhex, hc⟩ := Text.exists_hex_eq 2 (r.addr.toNat / 0x10000)
    dsimp only [Row.text, Text.padRight]
    simp [Text.toString_eq, hhex, Ne.symm hc]
  | interrupt kind vector =>
    rw [hevent] at h
    obtain rfl := Option.some.inj h
    simp [Text.toString_eq]
  | waiting | stopped =>
    rw [hevent] at h
    cases h

end Report

/-! ## Accounts of reports -/

namespace Runner

theorem ShowsTotals.oneLine {account : Account} {line : String} (h : ShowsTotals line account) : OneLine line := by
  rw [ShowsTotals] at h
  subst h
  simp +decide only [oneLine_append, Nat.toString_eq_repr, oneLine_repr]

theorem ShowsTotals.startsWith {account : Account} {line : String} (h : ShowsTotals line account) :
    line.startsWith "frames=" := by
  rw [ShowsTotals] at h
  subst h
  rw [String.startsWith_string_iff]
  simp

/-- What is counted in a session. -/
def sessionAccount (options : Options) (machine : Machine Console Tally) : Account :=
  let run := runFrames false options.deliverNmi options.frames machine {} ""
  let tally := run.2.2.sink.getD {}
  { frames := options.frames, steps := run.1.steps, cycles := run.1.cycles, instructions := tally.instructions,
    interrupts := tally.interrupts, processor := run.2.2.cpu.cycles }

theorem showsTotals_totalsLine (options : Options) (machine : Machine Console Tally) :
    let run := runFrames false options.deliverNmi options.frames machine {} ""
    ShowsTotals (totalsLine options.frames run.1 (run.2.2.sink.getD {})) (sessionAccount options machine) := by
  intro run
  rw [ShowsTotals, show " interrupts=" = " " ++ "interrupts=" from rfl]
  dsimp only [totalsLine, sessionAccount]
  simp only [Text.toString_eq, String.append_assoc]
  rfl

theorem showsCycles_registers (cpu : Cpu) : ShowsCycles (Report.registers cpu) cpu.cycles := by
  rw [ShowsCycles]
  dsimp only [Report.registers]
  simp only [Text.toString_eq, ← String.append_assoc]
  exact ⟨_, rfl⟩

theorem not_startsWith_traceLines {starts : List (Machine Console Tally)} {line : String} (h : line ∈ traceLines starts) :
    ¬line.startsWith "frames=" := by
  obtain ⟨start, -, hline⟩ := List.mem_filterMap.1 h
  exact Report.not_startsWith_step hline

/-- Above the totals stand the line on the cartridge and those on the steps. -/
theorem firstLine_reportRun (options : Options) (machine : Machine Console Tally) :
    let run := runFrames false options.deliverNmi options.frames machine {} ""
    FirstLine (fun line => line.startsWith "frames=") (reportRun options machine).stdout
      (totalsLine options.frames run.1 (run.2.2.sink.getD {})) (finalLines run.2.2) := by
  intro run
  have htotals := showsTotals_totalsLine options machine
  refine ⟨Report.header (Header.parse machine.bus.rom machine.bus.scheme) machine.bus.scheme ::
    if options.trace then frameLines options.deliverNmi options.frames machine else [], ?_, ?_, htotals.oneLine,
    htotals.startsWith⟩
  · rw [reportRun_eq, headerLine, asLines_cons]
    simp only [String.append_assoc, run]
  · intro other hmem
    rcases List.mem_cons.1 hmem with rfl | hmem
    · exact ⟨Report.oneLine_header _ _, Report.not_startsWith_header _ _⟩
    · split at hmem
      · rw [frameLines_eq] at hmem
        exact ⟨oneLine_traceLines hmem, not_startsWith_traceLines hmem⟩
      · cases hmem

theorem firstLine_finalLines (machine : Machine Console Tally) :
    FirstLine (fun _ => True) (finalLines machine) (Report.registers machine.cpu)
      (String.join ((machine.listing listingRows).map fun row => row.text ++ "\n")) := by
  refine ⟨[], ?_, nofun, Report.oneLine_registers _, trivial⟩
  rw [asLines_nil, String.empty_append, finalLines, String.append_assoc]

/-- **A report tells of what was counted**, with or without a trace, and of nothing else. -/
theorem showsAccount_reportRun {options : Options} {machine : Machine Console Tally} {account : Account} :
    ShowsAccount (reportRun options machine).stdout account ↔ account = sessionAccount options machine := by
  have hshows : ShowsAccount (reportRun options machine).stdout (sessionAccount options machine) :=
    ⟨_, _, _, _, firstLine_reportRun options machine, firstLine_finalLines _, showsTotals_totalsLine options machine,
      showsCycles_registers _⟩
  refine ⟨fun h => h.unique hshows, ?_⟩
  rintro rfl
  exact hshows

end Runner

end Emu816

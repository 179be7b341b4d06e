import Emu816.Proofs.EventStream
import Emu816.Proofs.PrintedCounts

/-!
# The accounts of a report

A report shows four counts on the line on the totals, which are kept apart, and the processor's own count of cycles on
the line below. They fit together, and they fit the steps that the frames have taken.

- `Account.ofSteps`: what there is to count of some steps; `sessionAccount_prepare`: a session counts just this.
- `Account.tallied`: instructions and interrupts among the steps.
- `quiet_prepare`: the machine at the start of a session.
- `report_accounts`: the counts that the report on any cartridge shows.
-/

namespace Emu816.Runner

/-! ## Counts of steps -/

section Steps

variable {σ τ : Type} [Observer σ] [TraceSink τ]

/-- What there is to count of the steps of some frames, as far as they are counted. -/
def Account.ofSteps (frames : Nat) (steps : List (Machine σ τ)) : Account :=
  let count (p : StepEvent → Bool) := steps.countP fun start => p start.step.1.event
  { frames, steps := min steps.length RunOutcome.maxSteps, cycles := Machine.cyclesOf steps,
    instructions := count StepEvent.isExecuted, interrupts := count StepEvent.isInterrupt,
    processor := Machine.cyclesOf steps }

/-- A tally counts instructions and interrupts of the steps whose events it takes. -/
theorem tally_steps (steps : List (Machine σ τ)) :
    let tally := (steps.flatMap fun start => start.step.1.events).foldl TraceSink.record ({} : Tally)
    tally.instructions = (steps.countP fun start => start.step.1.event.isExecuted) ∧
      tally.interrupts = steps.countP fun start => start.step.1.event.isInterrupt := by
  have htally := (narrates_iff.2 rfl : Narrates (steps.map fun start => start.step.1) _).tally ({} : Tally)
  simp only [List.flatMap_map, List.countP_map, Nat.zero_add] at htally
  exact htally

/-- What is reported of a step is an instruction or an interrupt. -/
theorem countP_isReported (steps : List (Machine σ τ)) :
    (steps.countP fun start => start.step.1.event.isReported) =
      (steps.countP fun start => start.step.1.event.isExecuted) +
        steps.countP fun start => start.step.1.event.isInterrupt := by
  have hreported (event : StepEvent) :
      event.isReported.toNat = event.isExecuted.toNat + event.isInterrupt.toNat := by
    cases event <;> rfl
  induction steps with
  | nil => rfl
  | cons start steps ih =>
    simp only [countP_cons_toNat, ih, hreported]
    omega

/-- As long as the steps fit into the counter, instructions and interrupts fall short of them by those that rest. -/
theorem Account.tallied {frames : Nat} {steps : List (Machine σ τ)} (hfew : steps.length < RunOutcome.maxSteps) :
    let account := Account.ofSteps frames steps
    account.steps = steps.length ∧ account.instructions + account.interrupts ≤ account.steps ∧
      (account.instructions + account.interrupts = account.steps ↔
        ∀ start ∈ steps, start.step.1.event ≠ .waiting ∧ start.step.1.event ≠ .stopped) := by
  intro account
  have hlength : account.steps = steps.length := Nat.min_eq_left (Nat.le_of_lt hfew)
  have hreported : account.instructions + account.interrupts = _ := (countP_isReported steps).symm
  have hrests (event : StepEvent) : event.isReported = true ↔ event ≠ .waiting ∧ event ≠ .stopped := by
    cases event <;> simp [StepEvent.isReported]
  rw [hlength, hreported]
  refine ⟨rfl, List.countP_le_length, ?_⟩
  rw [List.countP_eq_length]
  simp only [hrests]

end Steps

/-! ## Counts of a session -/

/-- Cycles of a frame of a session. -/
theorem cyclesPerFrame_prepare (options : Options) (cartridge : Image) (console : Console) :
    (prepare options cartridge console).config.cyclesPerFrame = 59659 := rfl

/-- A session starts with a processor that has just been reset. -/
theorem quiet_prepare (options : Options) (cartridge : Image) (console : Console) :
    (prepare options cartridge console).Quiet := ⟨rfl, .inl rfl⟩

/-- **A session counts the steps of its frames**, each count in its own way. -/
theorem sessionAccount_prepare (options : Options) (cartridge : Image) (console : Console) :
    let machine := prepare options cartridge console
    sessionAccount options machine =
      .ofSteps options.frames (Machine.frameSteps options.deliverNmi options.frames machine) := by
  intro machine
  have hempty : ({} : RunOutcome).steps ≤ RunOutcome.maxSteps := Nat.zero_le _
  have htotal := total_runFrames options.deliverNmi options.frames machine hempty ""
  have hprocessor := cycles_runFrames options.deliverNmi options.frames machine {} ""
  have hsink :=
    ((counting_prepare options cartridge console).events_runFrames options.deliverNmi options.frames {} "").sink
  obtain ⟨hinstructions, hinterrupts⟩ :=
    tally_steps (Machine.frameSteps options.deliverNmi options.frames machine)
  exact Account.ext rfl
    ((congrArg RunOutcome.steps htotal).trans (congrArg (min · _) (Nat.zero_add _)))
    ((congrArg RunOutcome.cycles htotal).trans (Nat.zero_add _))
    ((congrArg (fun sink => (sink.getD {}).instructions) hsink).trans hinstructions)
    ((congrArg (fun sink => (sink.getD {}).interrupts) hsink).trans hinterrupts)
    (hprocessor.trans (Nat.zero_add _))

/-! ## Reports -/

/-- **The accounts of a report.** For every command line that asks for frames of a cartridge, the report shows one
account, the one of these frames and their steps: the cycles are those that the processor has counted, and exceed the
budgets by at most eight for each frame; instructions and interrupts are as many as the steps that did not rest; and
there is an interrupt for each frame but the first that begins with a processor that has not stopped, or none if none
are requested. -/
theorem report_accounts {arguments : List String} {options : Options}
    (hcommand : Command.ofArguments arguments = .ok (.run options)) (readFile : String → Except ReadFault Image)
    {file : Image} (hfile : readFile options.path = .ok file) (hcartridge : file.withoutCopierHeader.isEmpty = false) :
    let machine := prepare options file.withoutCopierHeader (startConsole options file)
    let frames := Machine.frameStarts options.deliverNmi options.frames machine
    let steps := Machine.frameSteps options.deliverNmi options.frames machine
    ∃ account : Account,
      (∀ shown, ShowsAccount (respond arguments readFile).stdout shown ↔ shown = account) ∧
      account.frames = options.frames ∧
      account.cycles = account.processor ∧ account.cycles = Machine.cyclesOf steps ∧
      options.frames * 59659 ≤ account.cycles ∧ account.cycles ≤ options.frames * (59659 + 8) ∧
      account.instructions = (steps.countP fun start => start.step.1.event.isExecuted) ∧
      account.interrupts = (steps.countP fun start => start.step.1.event.isInterrupt) ∧
      (steps.length < RunOutcome.maxSteps →
        account.steps = steps.length ∧ account.instructions + account.interrupts ≤ account.steps ∧
        (account.instructions + account.interrupts = account.steps ↔
          ∀ start ∈ steps, start.step.1.event ≠ .waiting ∧ start.step.1.event ≠ .stopped)) ∧
      (options.deliverNmi = true →
        account.interrupts = (frames.tail.countP fun start => start.cpu.runState != .stopped) ∧
        account.interrupts ≤ options.frames - 1 ∧
        ((∀ start ∈ steps, start.step.1.event.executes .stp = false) → account.interrupts = options.frames - 1)) ∧
      (options.deliverNmi = false → account.interrupts = 0) := by
  intro machine frames steps
  have hbudget : machine.config.cyclesPerFrame = 59659 := cyclesPerFrame_prepare ..
  have hsome : machine.config.cyclesPerFrame ≠ 0 := by
    rw [hbudget]
    decide
  have hquiet : machine.Quiet := quiet_prepare ..
  obtain ⟨hleast, hmost⟩ := machine.cyclesOf_frameSteps options.deliverNmi options.frames
  rw [hbudget] at hleast hmost
  refine ⟨.ofSteps options.frames steps, fun shown => ?_, rfl, rfl, rfl, hleast, hmost, rfl, rfl, Account.tallied,
    fun hdeliver => ?_, fun hdeliver => ?_⟩
  · rw [respond_of_cartridge hcommand hfile hcartridge, showsAccount_reportRun, sessionAccount_prepare]
  · simp only [Account.ofSteps, frames, steps, hdeliver]
    exact ⟨Machine.interrupts_frames_tail hquiet hsome _, Machine.interrupts_frames_le hquiet hsome _,
      Machine.interrupts_frames_running hquiet hsome (show RunState.running ≠ .stopped by decide) _⟩
  · simp only [Account.ofSteps, steps, hdeliver]
    exact hquiet.interrupts_frames _

/-! ## A program that stops at once -/

/-- A cartridge of one byte, which stops the processor. -/
def stopProgram : Image := #[0xDB]

/-- The machine that runs it. -/
def stopMachine (options : Options) : Machine Console Tally :=
  prepare options stopProgram.withoutCopierHeader (startConsole options stopProgram)

/-- What is counted of such a run: an instruction of three cycles, and all other cycles one by one. -/
theorem counts_stopMachine (options : Options) {frames : Nat} (hframes : options.frames = frames + 1)
    (hstep : (stopMachine options).step.1 = ⟨.executed 0 0x8000 0xDB, 3⟩)
    (hstops : (stopMachine options).step.2.cpu.runState = .stopped) :
    let steps := Machine.frameSteps options.deliverNmi options.frames (stopMachine options)
    steps.length = (frames + 1) * 59659 - 2 ∧ Machine.cyclesOf steps = (frames + 1) * 59659 ∧
      (steps.countP fun start => start.step.1.event.isExecuted) = 1 ∧
      (steps.countP fun start => start.step.1.event.isInterrupt) = 0 := by
  intro steps
  have hbudget : (stopMachine options).config.cyclesPerFrame = 59659 := cyclesPerFrame_prepare ..
  have houtcomes : (steps.map fun start => start.step.1) =
      ⟨.executed 0 0x8000 0xDB, 3⟩ :: .replicate ((frames + 1) * 59659 - 3) ⟨.stopped, 1⟩ := by
    have hidle := Machine.outcomes_frameSteps_of_stops hstops (by rw [hstep, hbudget]; decide) options.deliverNmi frames
    rw [hstep, hbudget] at hidle
    rw [← hidle, ← hframes]
  obtain ⟨hlength, hcycles, hcount⟩ := Machine.counts_of_stops houtcomes
  have hcycles : Machine.cyclesOf steps = 3 + ((frames + 1) * 59659 - 3) := hcycles
  exact ⟨by omega, by omega, hcount _ rfl, hcount _ rfl⟩

/-- Three frames of it. -/
theorem report_accounts_stop :
    let account : Account :=
      { frames := 3, steps := 178975, cycles := 178977, instructions := 1, interrupts := 0, processor := 178977 }
    ShowsAccount (respond ["demo.sfc", "--frames", "3"] fun _ => .ok stopProgram).stdout account ∧
      3 * 59659 ≤ account.cycles ∧ account.cycles ≤ 3 * (59659 + 8) ∧
      account.instructions + account.interrupts ≤ account.steps ∧ account.interrupts ≤ 2 := by
  intro account
  have hdash : "demo.sfc".startsWith "-" = false := by decide +kernel
  have hnumber : frameCount? "3" = some 3 := by decide +kernel
  have hcommand : Command.ofArguments ["demo.sfc", "--frames", "3"] =
      .ok (.run { path := "demo.sfc", frames := 3 }) := by
    simp [Command.ofArguments, Reading.read, Reading.take, Reading.finish, hdash, hnumber]
    rfl
  obtain ⟨shown, hshows, hframes, hprocessor, hcycles, hleast, hmost, hinstructions, hinterrupts, htallied, hnmi, -⟩ :=
    report_accounts hcommand (fun _ => .ok stopProgram) rfl (by decide)
  obtain ⟨hlength, htime, hexecuted, hnone⟩ :=
    counts_stopMachine { path := "demo.sfc", frames := 3 } rfl (by decide +kernel) (by decide +kernel)
  unfold stopMachine at hlength htime hexecuted hnone
  rw [hlength] at htallied
  rw [htime] at hcycles
  rw [hexecuted] at hinstructions
  rw [hnone] at hinterrupts
  obtain ⟨hsteps, htotal, -⟩ := htallied (by decide)
  have hshown : shown = account :=
    Account.ext hframes hsteps hcycles hinstructions hinterrupts (hprocessor.symm.trans hcycles)
  rw [← hshown]
  exact ⟨(hshows shown).2 rfl, hleast, hmost, htotal, (hnmi rfl).2.1⟩

end Emu816.Runner

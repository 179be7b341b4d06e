import Emu816.Proofs.Lines
import Emu816.Proofs.MachineRuns
import Emu816.Proofs.Window
import Emu816.Runner.Session

/-!
# Traces of a run

The traced run of a frame is the plain run with a text beside it: one line for each step that executed an instruction or
entered a handler, and nothing for the steps that rest.

- `traceLine`: the line on a step; `isSome_traceLine` says which steps have one.
- `traceRemaining_eq`, `runFrames_eq`: what tracing adds to runs and to frames.
- `Counting`: a machine whose sink tallies its steps.
- `Reading.read_trace`: the option for tracing may be put in front of a command line.
- `reportRun_eq`: a report with or without a trace, in terms of the plain run.
-/

namespace Emu816

/-- Whether the step executed an instruction or entered a handler. -/
def StepEvent.isReported : StepEvent → Bool
  | executed _ _ _ | interrupt _ _ => true
  | waiting | stopped => false

namespace Runner

/-! ## Lines of steps -/

section Rows

variable {σ τ : Type} {machine : Machine σ τ}

/-- The row of the next step is the one at the program counter. -/
theorem mem_nextRow {row : Row} (h : row ∈ nextRow machine) : row = machine.cpu.regs.row machine.bus.peek := by
  dsimp only [nextRow] at h
  rw [Machine.listing_eq] at h
  split at h
  · exact (Option.some.inj h).symm
  · cases h

/-- There is a row for every step that executes an instruction. -/
theorem nextRow_of_execute (h : machine.cpu.task = .execute) :
    nextRow machine = some (machine.cpu.regs.row machine.bus.peek) := by
  have hwakes : machine.cpu.runState = .running ∨ machine.cpu.nmiPending ∨ machine.cpu.irqLine := by
    cases hstate : machine.cpu.runState with
    | running => exact .inl rfl
    | waiting =>
      by_contra hquiet
      have hwait := Cpu.task_eq_wait.2 ⟨hstate, by simp_all, by simp_all⟩
      rw [h] at hwait
      cases hwait
    | stopped =>
      have hstop := Cpu.task_eq_stop.2 hstate
      rw [h] at hstop
      cases hstop
  dsimp only [nextRow]
  rw [if_pos hwakes, Machine.listing_eq]
  rfl

end Rows

section Machines

variable {σ τ : Type} [Observer σ] [TraceSink τ]

/-- The line on the next step, if it has one. -/
def traceLine (machine : Machine σ τ) : Option String := Report.step (nextRow machine) machine.step.1

/-- **The steps with a line** are those that execute an instruction or enter a handler. -/
theorem isSome_traceLine (machine : Machine σ τ) :
    (traceLine machine).isSome = machine.step.1.event.isReported := by
  have htask : machine.step.1.event.task = machine.cpu.task := machine.cpu.task_event machine.bus
  unfold traceLine Report.step
  cases hevent : machine.step.1.event with
  | executed pbr pc opcode =>
    rw [hevent] at htask
    rw [nextRow_of_execute htask.symm]
    rfl
  | interrupt kind vector => rfl
  | waiting => rfl
  | stopped => rfl

theorem oneLine_traceLine {machine : Machine σ τ} {line : String} (h : traceLine machine = some line) :
    OneLine line := by
  refine oneLine_step (fun row hrow => ?_) h
  rw [mem_nextRow hrow]
  exact oneLine_decode _ _ _

/-- The lines on some steps. -/
def traceLines (starts : List (Machine σ τ)) : List String := starts.filterMap traceLine

theorem length_traceLines (starts : List (Machine σ τ)) :
    (traceLines starts).length = starts.countP fun start => start.step.1.event.isReported := by
  simp only [traceLines, List.length_filterMap_eq_countP, isSome_traceLine]

theorem oneLine_traceLines {starts : List (Machine σ τ)} {line : String} (h : line ∈ traceLines starts) :
    OneLine line := by
  obtain ⟨start, -, hline⟩ := List.mem_filterMap.1 h
  exact oneLine_traceLine hline

/-! ## Traced runs -/

theorem addLine_eq (out : String) (line : Option String) : addLine out line = out ++ asLines line.toList := by
  cases line with
  | none => exact (String.append_empty).symm
  | some line => simp [addLine, String.append_assoc]

/-- **A traced run is the plain run**, with the lines on its steps added to the text. -/
theorem traceRemaining_eq (machine : Machine σ τ) (remaining : Nat) (passed : RunOutcome) (out : String) :
    traceRemaining machine remaining passed out =
      ((machine.runRemaining remaining passed).1, out ++ asLines (traceLines (machine.runStarts remaining)),
        (machine.runRemaining remaining passed).2) := by
  induction machine, remaining using Machine.stepsFor.induct generalizing passed out with
  | case1 machine =>
    rw [traceRemaining, Machine.runRemaining_zero, Machine.runStarts_zero]
    simp [traceLines]
  | case2 machine budget hbudget ih =>
    have hlines : traceLines (machine :: machine.step.2.runStarts (budget - machine.step.1.cycles)) =
        (traceLine machine).toList ++ traceLines (machine.step.2.runStarts (budget - machine.step.1.cycles)) := by
      unfold traceLines
      cases hline : traceLine machine <;> simp [hline]
    rw [traceRemaining, if_neg hbudget, Machine.runRemaining_of_ne_zero machine hbudget,
      Machine.runStarts_of_ne_zero machine hbudget, hlines, asLines_append, ← String.append_assoc, ← addLine_eq]
    exact ih _ _

theorem traceFrame_eq (machine : Machine σ τ) (deliverNmi : Bool) (out : String) :
    traceFrame machine deliverNmi out =
      ((machine.runFrame deliverNmi).1,
        out ++ asLines (traceLines (machine.runStarts machine.config.cyclesPerFrame)),
        (machine.runFrame deliverNmi).2) := by
  rw [traceFrame, traceRemaining_eq]
  rfl

/-- The lines on the steps of some frames. -/
def frameLines (deliverNmi : Bool) : (frames : Nat) → Machine σ τ → List String
  | 0, _ => []
  | frames + 1, machine =>
    traceLines (machine.runStarts machine.config.cyclesPerFrame) ++
      frameLines deliverNmi frames (machine.runFrame deliverNmi).2

/-- **Frames with and without a trace**: a trace prints the lines on their steps, and nothing else is different. -/
theorem runFrames_eq (trace deliverNmi : Bool) (frames : Nat) (machine : Machine σ τ) (passed : RunOutcome)
    (out : String) :
    runFrames trace deliverNmi frames machine passed out =
      ((runFrames false deliverNmi frames machine passed "").1,
        out ++ asLines (if trace then frameLines deliverNmi frames machine else []),
        (runFrames false deliverNmi frames machine passed "").2.2) := by
  induction frames generalizing machine passed out with
  | zero => cases trace <;> simp [runFrames, frameLines]
  | succ frames ih =>
    cases trace with
    | false => exact ih _ _ _
    | true =>
      rw [if_pos rfl, frameLines, asLines_append, ← String.append_assoc, runFrames, if_pos rfl, traceFrame_eq]
      exact ih _ _ _

end Machines

end Runner

/-! ## The tally -/

namespace Runner

section Tallies

variable {σ : Type} [Observer σ]

/-- The machine counts what is reported of its steps. -/
structure Counting (machine : Machine σ Tally) (tally : Tally) : Prop where
  tracing : machine.config.tracing = true
  sink : machine.sink = some tally

/-- A frame counts what is reported of its steps. -/
theorem Counting.runFrame {machine : Machine σ Tally} {tally : Tally} (h : Counting machine tally) (deliverNmi : Bool) :
    Counting (machine.runFrame deliverNmi).2
      (((machine.runStarts machine.config.cyclesPerFrame).flatMap fun start => start.step.1.events).foldl
        TraceSink.record tally) := by
  have hsink := Machine.sink_afterSteps (machine.stepsFor machine.config.cyclesPerFrame) h.tracing
  have hconfig := Machine.config_afterSteps (machine.stepsFor machine.config.cyclesPerFrame) machine
  rw [h.sink] at hsink
  refine ⟨?_, ?_⟩
  · rw [Machine.runFrame_eq]
    cases deliverNmi <;> exact (congrArg MachineConfig.tracing hconfig).trans h.tracing
  · rw [Machine.runFrame_eq]
    cases deliverNmi <;> exact hsink

end Tallies

/-! ## Sessions -/

/-- The command with the trace switched on. -/
def Command.traced : Command → Command
  | help => help
  | run options => run { options with trace := true }

theorem Reading.take_trace (reading : Reading) (argument : String) :
    ({ reading with trace := true } : Reading).take argument =
      (reading.take argument).map fun reading => { reading with trace := true } := by
  unfold take
  split
  · rfl
  · split <;> rfl

theorem Reading.force_trace (reading : Reading) (scheme : Scheme) :
    ({ reading with trace := true } : Reading).force scheme =
      (reading.force scheme).map fun reading => { reading with trace := true } := by
  obtain ⟨path?, frames, trace, scheme?, deliverNmi, verbose⟩ := reading
  cases scheme? with
  | none => rfl
  | some earlier =>
    dsimp only [force]
    split <;> rfl

/-- Reading goes on from an argument that was read. -/
theorem Reading.bind_trace {argument traced : Except UsageError Reading} {rest : List String}
    (htraced : traced = argument.map fun reading => { reading with trace := true })
    (ih : ∀ reading : Reading,
      ({ reading with trace := true } : Reading).read rest = (reading.read rest).map Command.traced) :
    (traced >>= fun reading => reading.read rest) =
      (argument >>= fun reading => reading.read rest).map Command.traced := by
  subst htraced
  cases argument with
  | error error => rfl
  | ok reading => exact ih reading

/-- Reading goes on as before when the trace is switched on, and leads to the same command with a trace. -/
theorem Reading.read_trace (reading : Reading) (arguments : List String) :
    ({ reading with trace := true } : Reading).read arguments = (reading.read arguments).map Command.traced := by
  induction reading, arguments using Reading.read.induct with
  | case1 reading =>
    simp only [Reading.read, Reading.finish]
    cases reading.path? <;> rfl
  | case2 reading rest | case3 reading rest => rfl
  | case4 reading rest ih => exact ih
  | case5 reading rest ih | case6 reading rest ih | case7 reading rest ih => exact ih
  | case8 reading rest ih => exact bind_trace (reading.force_trace .loRom) ih
  | case9 reading rest ih => exact bind_trace (reading.force_trace .hiRom) ih
  | case10 reading => rfl
  | case11 reading value rest frames hframes ih =>
    simp only [Reading.read, hframes]
    exact ih
  | case12 reading value rest hframes =>
    simp only [Reading.read, hframes]
    rfl
  | case13 reading argument rest _ _ _ _ _ _ _ _ _ _ ih =>
    rw [Reading.read, Reading.read]
    · exact bind_trace (reading.take_trace argument) ih
    all_goals assumption

/-- The first line of a report. -/
def headerLine (machine : Machine Console Tally) : String :=
  Report.header (Header.parse machine.bus.rom machine.bus.scheme) machine.bus.scheme ++ "\n"

/-- What a report says of a machine after the line on the totals. -/
def finalLines (machine : Machine Console Tally) : String :=
  Report.registers machine.cpu ++ "\n" ++
    String.join ((machine.listing listingRows).map fun row => row.text ++ "\n")

/-- A report with or without a trace, in terms of the plain run. -/
theorem reportRun_eq (options : Options) (machine : Machine Console Tally) :
    reportRun options machine =
      let run := runFrames false options.deliverNmi options.frames machine {} ""
      { exitCode := 0
        stdout :=
          headerLine machine ++
            asLines (if options.trace then frameLines options.deliverNmi options.frames machine else []) ++
            (totalsLine options.frames run.1 (run.2.2.sink.getD {}) ++ "\n" ++ finalLines run.2.2)
        stderr := run.2.2.bus.host.messages } := by
  rw [reportRun, runFrames_eq]
  simp only [headerLine, finalLines, String.append_assoc]

/-- A machine that is ready to run counts from zero. -/
theorem counting_prepare (options : Options) (cartridge : Image) (console : Console) :
    Counting (prepare options cartridge console) {} := ⟨rfl, rfl⟩

/-- The console when a cartridge is put in. -/
def startConsole (options : Options) (file : Image) : Console :=
  let console : Console := { verbose := options.verbose }
  let size := file.withoutCopierHeader.size
  if size = file.size then console else console.note (.copierHeaderDropped (file.size - size))

/-- A file with a cartridge is run on a machine that is ready for it. -/
theorem play_of_cartridge (options : Options) {file : Image} (hfile : file.withoutCopierHeader.isEmpty = false) :
    play options file =
      reportRun options (prepare options file.withoutCopierHeader (startConsole options file)) := by
  simp only [play, hfile, Bool.false_eq_true, if_false, startConsole]

/-- The response to a command line that asks for a run of it. -/
theorem respond_of_cartridge {arguments : List String} {options : Options}
    (hcommand : Command.ofArguments arguments = .ok (.run options)) {readFile : String → Except ReadFault Image}
    {file : Image} (hfile : readFile options.path = .ok file) (hcartridge : file.withoutCopierHeader.isEmpty = false) :
    respond arguments readFile =
      reportRun options (prepare options file.withoutCopierHeader (startConsole options file)) := by
  simp only [respond, hcommand, hfile]
  exact play_of_cartridge options hcartridge

theorem play_of_empty {options : Options} {file : Image} (hfile : file.withoutCopierHeader.isEmpty = true)
    (trace : Bool) : play { options with trace } file = play options file := by
  simp only [play, hfile, if_true]

end Runner

end Emu816

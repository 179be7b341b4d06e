import Emu816.Proofs.Accounts

/-!
# What tracing changes

A session with a trace prints what the same session prints without one, and between its first line and the totals one
line for each step that executed an instruction or entered a handler. The account that both reports tell of says how
many lines these are.

- `reportRun_traced`: the report with a trace, from the one without.
- `tracing_transparent`: what tracing changes in a frame and in the output of a session.
-/

namespace Emu816.Runner

/-- **A traced report is the plain one** with the lines on all steps behind its first line. -/
theorem reportRun_traced {options : Options} (htrace : options.trace = false) (machine : Machine Console Tally) :
    let lines := traceLines (Machine.frameSteps options.deliverNmi options.frames machine)
    let plain := reportRun options machine
    let traced := reportRun { options with trace := true } machine
    ∃ rest : String, plain.stdout = headerLine machine ++ rest ∧
      traced.stdout = headerLine machine ++ asLines lines ++ rest ∧
      traced.stderr = plain.stderr ∧ traced.exitCode = plain.exitCode := by
  intro lines plain traced
  have hplain : plain = _ := reportRun_eq options machine
  have htraced : traced = _ := reportRun_eq { options with trace := true } machine
  simp only [htrace, Bool.false_eq_true, if_false, if_true, frameLines_eq] at hplain htraced
  rw [hplain, htraced, asLines_nil, String.append_empty]
  exact ⟨_, rfl, rfl, rfl, rfl⟩

/-- There are as many lines as instructions and interrupts. -/
theorem length_traceLines_eq_account {σ τ : Type} [Observer σ] [TraceSink τ] (frames : Nat)
    (steps : List (Machine σ τ)) :
    let account := Account.ofSteps frames steps
    (traceLines steps).length = account.instructions + account.interrupts := by
  rw [length_traceLines]
  exact countP_isReported steps

/-- **What tracing changes.** The traced run of a frame ends as the plain run does, in the same machine with the same
sink, and prints one line for each step that executed an instruction or entered a handler. Sessions that differ in the
trace alone print the same but for these lines, which stand behind the first line. Both tell of the same account, and of
no other, and the lines are as many as the instructions and interrupts in it. -/
theorem tracing_transparent {σ τ : Type} [Observer σ] [TraceSink τ] :
    (∀ (machine : Machine σ τ) (deliverNmi : Bool) (out : String),
      let starts := machine.runStarts machine.config.cyclesPerFrame
      let lines := starts.filterMap traceLine
      traceFrame machine deliverNmi out =
        ((machine.runFrame deliverNmi).1, out ++ asLines lines, (machine.runFrame deliverNmi).2) ∧
      machine.runCycles machine.config.cyclesPerFrame =
        (Machine.passing {} starts, Machine.afterSteps starts.length machine) ∧
      (∀ k < starts.length, starts[k]? = some (Machine.afterSteps k machine)) ∧
      (∀ start ∈ starts, (traceLine start).isSome = start.step.1.event.isReported) ∧
      ∀ line ∈ lines, OneLine line) ∧
    (∀ (arguments : List String) (options : Options),
      Command.ofArguments arguments = .ok (.run options) → options.trace = false →
      Command.ofArguments ("--trace" :: arguments) = .ok (.run { options with trace := true }) ∧
      ∀ (tracedArguments : List String) (readFile : String → Except ReadFault Image),
      Command.ofArguments tracedArguments = .ok (.run { options with trace := true }) →
      let plain := respond arguments readFile
      let traced := respond tracedArguments readFile
      (∀ fault, readFile options.path = .error fault → traced = plain) ∧
      (∀ file, readFile options.path = .ok file → file.withoutCopierHeader.isEmpty = true → traced = plain) ∧
      (∀ file, readFile options.path = .ok file → file.withoutCopierHeader.isEmpty = false →
        let machine := prepare options file.withoutCopierHeader (startConsole options file)
        let lines := (Machine.frameSteps options.deliverNmi options.frames machine).filterMap traceLine
        ∃ (account : Account) (rest : String),
          plain.stdout = headerLine machine ++ rest ∧ traced.stdout = headerLine machine ++ asLines lines ++ rest ∧
          traced.stderr = plain.stderr ∧ traced.exitCode = plain.exitCode ∧
          (∀ line ∈ lines, OneLine line) ∧
          (∀ shown, ShowsAccount plain.stdout shown ↔ shown = account) ∧
          (∀ shown, ShowsAccount traced.stdout shown ↔ shown = account) ∧
          lines.length = account.instructions + account.interrupts)) := by
  refine ⟨?_, ?_⟩
  · intro machine deliverNmi out starts lines
    have hlength : starts.length = machine.stepsFor machine.config.cyclesPerFrame := Machine.length_starts _ _
    refine ⟨traceFrame_eq machine deliverNmi out, ?_, ?_, fun start _ => isSome_traceLine start,
      fun line => oneLine_traceLines⟩
    · rw [hlength]
      exact Machine.runRemaining_eq machine _ _
    · intro k hk
      exact Machine.getElem?_starts (hlength ▸ hk) machine
  · intro arguments options harguments htrace
    have hread := Reading.read_trace {} arguments
    rw [show Reading.read {} arguments = .ok (.run options) from harguments] at hread
    refine ⟨hread, ?_⟩
    intro tracedArguments readFile hcommand plain traced
    refine ⟨?_, ?_, ?_⟩
    · intro fault hfault
      simp only [plain, traced, respond, harguments, hcommand, hfault]
    · intro file hfile hempty
      simp only [plain, traced, respond, harguments, hcommand, hfile]
      exact play_of_empty hempty true
    · intro file hfile hfull machine lines
      have hplain : plain = reportRun options machine := respond_of_cartridge harguments hfile hfull
      have htraced : traced = reportRun { options with trace := true } machine :=
        respond_of_cartridge hcommand hfile hfull
      have haccount : sessionAccount options machine = .ofSteps options.frames _ :=
        sessionAccount_prepare options file.withoutCopierHeader (startConsole options file)
      obtain ⟨rest, hplainOut, htracedOut, hstderr, hexit⟩ := reportRun_traced htrace machine
      rw [hplain, htraced]
      refine ⟨sessionAccount options machine, rest, hplainOut, htracedOut, hstderr, hexit,
        fun line => oneLine_traceLines, fun shown => showsAccount_reportRun, fun shown => showsAccount_reportRun, ?_⟩
      rw [haccount]
      exact length_traceLines_eq_account options.frames _

/-- Options for a frame of a program that stops at once. -/
def stopOptions : Options := { path := "demo.sfc", deliverNmi := false }

theorem account_stopOptions :
    sessionAccount stopOptions (stopMachine stopOptions) =
      { frames := 1, steps := 59657, cycles := 59659, instructions := 1, interrupts := 0, processor := 59659 } := by
  obtain ⟨hlength, hcycles, hexecuted, hnone⟩ :=
    counts_stopMachine stopOptions rfl (by decide +kernel) (by decide +kernel)
  have hsession : sessionAccount stopOptions (stopMachine stopOptions) = _ := sessionAccount_prepare ..
  unfold stopMachine at hsession hlength hcycles hexecuted hnone ⊢
  rw [hsession]
  exact Account.ext rfl (congrArg (min · _) hlength) hcycles hexecuted hnone hcycles

/-- The line on its first step. -/
theorem traceLines_stopOptions :
    ∃ others, traceLines
      (Machine.frameSteps stopOptions.deliverNmi stopOptions.frames (stopMachine stopOptions)) =
        "00:8000  DB          STP         ; 3" :: others := by
  have hline : traceLine (stopMachine stopOptions) = some "00:8000  DB          STP         ; 3" := by decide +kernel
  have hbudget : (stopMachine stopOptions).config.cyclesPerFrame = 59659 := cyclesPerFrame_prepare ..
  rw [show stopOptions.frames = 1 from rfl, Machine.frameSteps_succ, hbudget,
    Machine.runStarts_of_ne_zero _ (by decide), List.cons_append, traceLines, List.filterMap_cons_some hline]
  exact ⟨_, rfl⟩

/-- Its trace has that line only; the option for the trace may stand in another place. -/
theorem tracing_transparent_byte :
    let plain := (respond ["--no-nmi", "demo.sfc"] fun _ => .ok stopProgram).stdout
    let traced := (respond ["--no-nmi", "demo.sfc", "--trace"] fun _ => .ok stopProgram).stdout
    let account : Account :=
      { frames := 1, steps := 59657, cycles := 59659, instructions := 1, interrupts := 0, processor := 59659 }
    (∃ rest : String, plain = "cartridge: no header LoROM\n" ++ rest ∧
      traced = "cartridge: no header LoROM\n" ++ "00:8000  DB          STP         ; 3\n" ++ rest) ∧
      ShowsAccount plain account ∧ ShowsAccount traced account := by
  intro plain traced account
  have hdash : "demo.sfc".startsWith "-" = false := by decide +kernel
  have hcommand : Command.ofArguments ["--no-nmi", "demo.sfc"] = .ok (.run stopOptions) := by
    simp [Command.ofArguments, Reading.read, Reading.take, Reading.finish, hdash]
    rfl
  have htracedCommand : Command.ofArguments ["--no-nmi", "demo.sfc", "--trace"] =
      .ok (.run { stopOptions with trace := true }) := by
    simp [Command.ofArguments, Reading.read, Reading.take, Reading.finish, hdash]
    rfl
  have hsessions := (@tracing_transparent Console Tally _ _).2 _ _ hcommand rfl
  have hcartridge := (hsessions.2 _ (fun _ => .ok stopProgram) htracedCommand).2.2 stopProgram rfl (by decide)
  obtain ⟨shown, rest, hplain, htraced, -, -, -, hplainShows, htracedShows, hcount⟩ := hcartridge
  have haccount : account = shown := by
    rw [← hplainShows, respond_of_cartridge hcommand rfl (by decide), showsAccount_reportRun]
    exact account_stopOptions.symm
  have hfirst : headerLine (stopMachine stopOptions) = "cartridge: no header LoROM\n" := by decide +kernel
  obtain ⟨others, hlines⟩ := traceLines_stopOptions
  unfold stopMachine traceLines at hlines
  unfold stopMachine at hfirst
  rw [hlines, ← haccount] at hcount
  rw [hfirst] at hplain
  rw [hfirst, hlines, List.eq_nil_of_length_eq_zero (Nat.succ.inj hcount)] at htraced
  exact ⟨⟨rest, hplain, htraced⟩, (hplainShows account).2 haccount, (htracedShows account).2 haccount⟩

end Emu816.Runner

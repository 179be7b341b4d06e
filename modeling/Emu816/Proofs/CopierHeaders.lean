import Emu816.Proofs.CommandLines
import Mathlib.Logic.Function.Basic

/-!
# Dumps with a block in front

Some dumps carry a block of 512 bytes in front of the image. It is dropped before anything else is done with the
image, so a session does not show whether there was one, as long as it does not tell of smaller matters.

- `Image.size_withoutCopierHeader`, `Image.withoutCopierHeader_idem`: nothing is left to drop.
- `Image.withoutCopierHeader_append`: what is dropped is the block.
- `play_withoutCopierHeader`, `respond_withoutCopierHeader`: a session plays the images without their blocks.
- `copier_header_unseen`: sessions with and without a block.
-/

namespace Emu816

/-! ## Images -/

namespace Image

theorem withoutCopierHeader_of_ne {image : Image} (h : image.size % 1024 ≠ 512) : image.withoutCopierHeader = image :=
  if_neg h

/-- The length that is left does not show a block. -/
theorem size_withoutCopierHeader (image : Image) : image.withoutCopierHeader.size % 1024 ≠ 512 := by
  unfold withoutCopierHeader
  split
  case isTrue h =>
    rw [Array.size_extract, copierHeaderSize] at *
    omega
  case isFalse h => exact h

/-- **A block is dropped once**, whatever the length. -/
theorem withoutCopierHeader_idem (image : Image) :
    image.withoutCopierHeader.withoutCopierHeader = image.withoutCopierHeader :=
  withoutCopierHeader_of_ne image.size_withoutCopierHeader

/-- **A block in front of an image is what is dropped.** -/
theorem withoutCopierHeader_append {block image : Image} (hblock : block.size = 512)
    (himage : image.size % 1024 = 0) :
    (block ++ image).withoutCopierHeader = image := by
  have hsize : (block ++ image).size = 512 + image.size := by rw [Array.size_append, hblock]
  have hshows : (block ++ image).size % 1024 = copierHeaderSize := by
    rw [hsize, copierHeaderSize]
    omega
  rw [withoutCopierHeader, if_pos hshows, Array.extract_append, hsize, hblock, copierHeaderSize,
    Array.extract_eq_empty_of_le (by omega), Array.empty_append, Nat.sub_self, Nat.add_sub_cancel_left]
  exact Array.extract_size

end Image

namespace Runner

/-! ## Sessions -/

/-- A console that does not show smaller matters does not show that a block was dropped. -/
theorem Console.note_copierHeaderDropped {console : Console} (h : console.verbose = false) (size : Nat) :
    console.note (.copierHeaderDropped size) = console := by
  have hshows : console.shows (Notice.copierHeaderDropped size).level = false := h
  rw [Console.note, hshows]
  rfl

/-- All that a session uses of a file is the image without a block in front. -/
theorem play_of_quiet {options : Options} (h : options.verbose = false) (file : Image) :
    play options file =
      if file.withoutCopierHeader.isEmpty then (Failure.emptyImage options.path).response ""
      else reportRun options (prepare options file.withoutCopierHeader { verbose := options.verbose }) := by
  unfold play
  dsimp only
  rw [Console.note_copierHeaderDropped h, ite_self]

theorem play_withoutCopierHeader {options : Options} (h : options.verbose = false) (file : Image) :
    play options file.withoutCopierHeader = play options file := by
  rw [play_of_quiet h, play_of_quiet h, Image.withoutCopierHeader_idem]

/-- A command line without a request for smaller matters does not lead to a run that shows them. -/
theorem verbose_of_not_mem {arguments : List String} (h : .verbose ∉ Item.ofArguments arguments) {options : Options}
    (hcommand : Command.ofArguments arguments = .ok (.run options)) : options.verbose = false := by
  obtain ⟨-, hsound, hfinish⟩ := (ofArguments_eq_run_iff arguments options).1 hcommand
  exact Bool.eq_false_iff.2 fun hverbose => h ((hsound.finish_after hfinish).verbose.1 hverbose)

/-- **A session on files is one on the images in them**, without their blocks. -/
theorem respond_withoutCopierHeader {arguments : List String} (h : .verbose ∉ Item.ofArguments arguments)
    (files : String → Except ReadFault Image) :
    (respond arguments fun path => (files path).map Image.withoutCopierHeader) = respond arguments files := by
  unfold respond
  cases hcommand : Command.ofArguments arguments with
  | error error => rfl
  | ok command =>
    cases command with
    | help => rfl
    | run options =>
      dsimp only
      cases files options.path with
      | error fault => rfl
      | ok file => exact play_withoutCopierHeader (verbose_of_not_mem h hcommand) file

/-- A file with a block in front of its image, among others. -/
theorem map_update_append (files : String → Except ReadFault Image) (path : String) {block image : Image}
    (hblock : block.size = 512) (himage : image.size % 1024 = 0) :
    (fun name => (Function.update files path (.ok (block ++ image)) name).map Image.withoutCopierHeader) =
      fun name => (Function.update files path (.ok image) name).map Image.withoutCopierHeader := by
  have hsame : (block ++ image).withoutCopierHeader = image.withoutCopierHeader := by
    rw [Image.withoutCopierHeader_append hblock himage, Image.withoutCopierHeader_of_ne (by omega)]
  funext name
  by_cases hname : name = path
  · subst hname
    rw [Function.update_self, Function.update_self]
    exact congrArg Except.ok hsame
  · rw [Function.update_of_ne hname, Function.update_of_ne hname]

/-- **A block in front of an image is not seen.** A command line that does not ask for smaller matters gives the same
output, the same messages and the same exit code whether or not a file has a block of 512 bytes in front of an image
of whole KiB, be it empty. In general, what it gives is what it gives with all blocks dropped, and there is nothing to
drop twice, whatever the length. -/
theorem copier_header_unseen :
    (∀ arguments : List String, .verbose ∉ Item.ofArguments arguments →
      (∀ (files : String → Except ReadFault Image) (path : String) (block image : Image), block.size = 512 →
        image.size % 1024 = 0 →
        respond arguments (Function.update files path (.ok (block ++ image))) =
          respond arguments (Function.update files path (.ok image))) ∧
      ∀ files : String → Except ReadFault Image,
        (respond arguments fun path => (files path).map Image.withoutCopierHeader) = respond arguments files) ∧
    ∀ image : Image, image.withoutCopierHeader.withoutCopierHeader = image.withoutCopierHeader := by
  refine ⟨fun arguments h => ⟨?_, respond_withoutCopierHeader h⟩, Image.withoutCopierHeader_idem⟩
  intro files path block image hblock himage
  rw [← respond_withoutCopierHeader h, map_update_append files path hblock himage, respond_withoutCopierHeader h]

/-- A traced run of an image behind a block, and a file that holds nothing but a block. -/
theorem copier_header_unseen_empty :
    let block : Image := .replicate 512 0x00
    let image : Image := .replicate 1024 0xEA
    let files : String → Except ReadFault Image := fun _ => .error .missing
    respond ["--trace", "a.smc", "--frames", "2"] (Function.update files "a.smc" (.ok (block ++ image))) =
        respond ["--trace", "a.smc", "--frames", "2"] (Function.update files "a.smc" (.ok image)) ∧
      respond ["a.smc"] (Function.update files "a.smc" (.ok (block ++ #[]))) =
        { exitCode := 1, stderr := "error: a.smc holds no cartridge data\n" } := by
  intro block image files
  have hblock : block.size = 512 := Array.size_replicate
  have himage : image.size % 1024 = 0 := by rw [Array.size_replicate]
  obtain ⟨hsessions, -⟩ := copier_header_unseen
  have htraced := (hsessions ["--trace", "a.smc", "--frames", "2"] (by decide +kernel)).1 files "a.smc" block
  have hempty := (hsessions ["a.smc"] (by decide +kernel)).1 files "a.smc" block #[] hblock rfl
  have hcommand : Command.ofArguments ["a.smc"] = .ok (.run { path := "a.smc" }) := by decide +kernel
  refine ⟨htraced image hblock himage, hempty.trans ?_⟩
  rw [respond, hcommand]
  dsimp only
  rw [Function.update_self]
  rfl

end Runner

end Emu816

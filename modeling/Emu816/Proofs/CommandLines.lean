import Emu816.Runner.Session
import Mathlib.Data.List.Perm.Basic
import Mathlib.Data.Nat.Digits.Defs

/-!
# What a command line asks for

A command line is a list of items: options, some with a value, and paths. What the runner makes of it depends on the
items alone, and on their order only as far as the first item that does not fit, a request for help and the last frame
count go.

- `Item.ofArguments`: the items of a command line; `Reading.read_eq`: it is read item by item.
- `Sound`: items that fit together, in any order; `Item.Fits`: an item that fits behind others.
- `Reading.after`: what has been read, from the items that were read; `Reading.item_after`: one more item.
- `items_eq_help_iff`, `items_eq_run_iff`, `items_eq_error_iff`: the rest of a command line.
- `command_line_grammar`: all of it.
-/

namespace Emu816.Runner

/-! ## Frame counts -/

/-- The text is a decimal number of at most 32 bits, perhaps after a plus sign. -/
def IsFrameCount (text : String) (count : Nat) : Prop :=
  ∃ digits : List Nat, digits ≠ [] ∧ (∀ d ∈ digits, d < 10) ∧
    (text.toList = digits.map Nat.digitChar ∨ text.toList = '+' :: digits.map Nat.digitChar) ∧
    Nat.ofDigits 10 digits.reverse = count ∧ count ≤ 4294967295

theorem digitChar_of_isDigit {c : Char} (h : c.isDigit = true) :
    c.toNat - 48 < 10 ∧ Nat.digitChar (c.toNat - 48) = c := by
  obtain ⟨hleast, hmost⟩ := Char.isDigit_iff_toNat.1 h
  have hlt : c.toNat - 48 < 10 := Nat.sub_lt_left_of_lt_add hleast (Nat.lt_succ_of_le hmost)
  refine ⟨hlt, Char.toNat_inj.1 ?_⟩
  rw [Nat.toNat_digitChar_of_lt_ten hlt]
  exact Nat.add_sub_cancel' hleast

/-- Decimal digits are added up from the left. -/
theorem foldl_digitChar {digits : List Nat} (h : ∀ d ∈ digits, d < 10) (value : Nat) :
    (digits.map Nat.digitChar).foldl (fun n d => 10 * n + (d.toNat - 48)) value =
      digits.foldl (fun n d => d + 10 * n) value := by
  induction digits generalizing value with
  | nil => rfl
  | cons digit digits ih =>
    obtain ⟨hdigit, hdigits⟩ := List.forall_mem_cons.1 h
    rw [List.map_cons, List.foldl_cons, List.foldl_cons, ih hdigits, Nat.toNat_digitChar_sub_48_of_lt_ten hdigit,
      Nat.add_comm]

theorem value_digitChar {digits : List Nat} (h : ∀ d ∈ digits, d < 10) :
    (digits.map Nat.digitChar).foldl (fun n d => 10 * n + (d.toNat - 48)) 0 = Nat.ofDigits 10 digits.reverse := by
  rw [foldl_digitChar h, Nat.ofDigits_eq_foldr, List.foldr_reverse]
  rfl

/-- Characters have a value if they are decimal digits, and at least one. -/
theorem digitsValue?_eq_some_iff {chars : List Char} {value : Nat} :
    digitsValue? chars = some value ↔
      ∃ digits : List Nat, digits ≠ [] ∧ (∀ d ∈ digits, d < 10) ∧ chars = digits.map Nat.digitChar ∧
        Nat.ofDigits 10 digits.reverse = value := by
  have hunfold (hchars : chars ≠ []) : digitsValue? chars =
      if chars.all Char.isDigit then some (chars.foldl (fun n d => 10 * n + (d.toNat - 48)) 0) else none := by
    cases chars with
    | nil => exact absurd rfl hchars
    | cons c chars => rfl
  constructor
  · intro h
    have hsome : chars ≠ [] := by
      rintro rfl
      cases h
    rw [hunfold hsome, Option.ite_none_right_eq_some] at h
    obtain ⟨hall, hvalue⟩ := h
    have hdigit := fun c hc => digitChar_of_isDigit (List.all_eq_true.1 hall c hc)
    have hchars : (chars.map fun c => c.toNat - 48).map Nat.digitChar = chars := by
      rw [List.map_map]
      exact (List.map_congr_left fun c hc => (hdigit c hc).2).trans (List.map_id _)
    have hlt : ∀ d ∈ chars.map fun c => c.toNat - 48, d < 10 := by
      rw [List.forall_mem_map]
      exact fun c hc => (hdigit c hc).1
    refine ⟨_, fun hnil => hsome (List.map_eq_nil_iff.1 hnil), hlt, hchars.symm, ?_⟩
    rw [← value_digitChar hlt, hchars]
    exact Option.some.inj hvalue
  · rintro ⟨digits, hsome, hlt, rfl, rfl⟩
    have hall : (digits.map Nat.digitChar).all Char.isDigit = true := by
      rw [List.all_map, List.all_eq_true]
      exact fun d hd => Nat.isDigit_digitChar.trans (decide_eq_true (hlt d hd))
    rw [hunfold fun hnil => hsome (List.map_eq_nil_iff.1 hnil), if_pos hall, value_digitChar hlt]

/-- **The texts that are read as frame counts.** -/
theorem frameCount?_eq_some_iff {text : String} {count : Nat} :
    frameCount? text = some count ↔ IsFrameCount text count := by
  have hplus {digits : List Nat} (hlt : ∀ d ∈ digits, d < 10) {rest : List Char} :
      digits.map Nat.digitChar ≠ '+' :: rest := by
    intro h
    cases digits with
    | nil => cases h
    | cons d digits =>
      have hdigit := Nat.isDigit_digitChar.trans (decide_eq_true (hlt d List.mem_cons_self))
      rw [(List.cons_eq_cons.1 h).1] at hdigit
      exact absurd hdigit (by decide)
  unfold frameCount?
  rw [Option.filter_eq_some_iff, decide_eq_true_iff, IsFrameCount]
  split <;> rename_i htext
  · rw [digitsValue?_eq_some_iff]
    constructor
    · rintro ⟨⟨digits, hsome, hlt, rfl, hvalue⟩, hle⟩
      exact ⟨digits, hsome, hlt, .inr htext, hvalue, hle⟩
    · rintro ⟨digits, hsome, hlt, hchars | hchars, hvalue, hle⟩
      · exact absurd (hchars.symm.trans htext) (hplus hlt)
      · exact ⟨⟨digits, hsome, hlt, (List.cons_eq_cons.1 (htext.symm.trans hchars)).2, hvalue⟩, hle⟩
  · rw [digitsValue?_eq_some_iff]
    constructor
    · rintro ⟨⟨digits, hsome, hlt, hchars, hvalue⟩, hle⟩
      exact ⟨digits, hsome, hlt, .inl hchars, hvalue, hle⟩
    · rintro ⟨digits, hsome, hlt, hchars | hchars, hvalue, hle⟩
      · exact ⟨⟨digits, hsome, hlt, hchars, hvalue⟩, hle⟩
      · exact (htext _ hchars).elim

/-! ## Items -/

/-- A part of a command line. -/
inductive Item where
  | help
  | trace
  | noNmi
  | verbose
  | scheme (scheme : Scheme)
  /-- The option for the number of frames, with the argument behind it, whatever that is, if there is one. -/
  | frames (value? : Option String)
  | path (path : String)
  /-- Anything else that starts with a dash. -/
  | unknown (option : String)
  deriving DecidableEq

namespace Item

/-- The item of an argument that stands for itself. -/
def ofArgument (argument : String) : Item :=
  match argument with
  | "-h" | "--help" => .help
  | "--trace" => .trace
  | "--no-nmi" => .noNmi
  | "-v" | "--verbose" => .verbose
  | "--lorom" => .scheme .loRom
  | "--hirom" => .scheme .hiRom
  | argument => if argument.startsWith "-" then .unknown argument else .path argument

/-- The items of a command line, from left to right. -/
def ofArguments : List String → List Item
  | [] => []
  | ["--frames"] => [.frames none]
  | "--frames" :: value :: rest => .frames (some value) :: ofArguments rest
  | argument :: rest => ofArgument argument :: ofArguments rest

/-- The path that the item names. -/
def path? : Item → Option String
  | .path text => some text
  | _ => none

/-- Whether the item is the option for the number of frames. -/
def isFrames : Item → Bool
  | .frames _ => true
  | _ => false

/-- The number of frames that the item asks for. -/
def count? : Item → Option Nat
  | .frames (some value) => frameCount? value
  | _ => none

/-- The fault of an item that does not fit. -/
def fault? : Item → Option UsageError
  | .scheme _ => some .conflictingSchemes
  | .frames none => some .missingFrames
  | .frames (some value) => some (.invalidFrames value)
  | .path _ => some .multiplePaths
  | .unknown option => some (.unknownOption option)
  | .help | .trace | .noNmi | .verbose => none

end Item

namespace Reading

/-- Reads an item. -/
def item (reading : Reading) : Item → Except UsageError Reading
  | .help => .ok reading
  | .trace => .ok { reading with trace := true }
  | .noNmi => .ok { reading with deliverNmi := false }
  | .verbose => .ok { reading with verbose := true }
  | .scheme scheme => reading.force scheme
  | .frames none => .error .missingFrames
  | .frames (some value) =>
    match frameCount? value with
    | some frames => .ok { reading with frames }
    | none => .error (.invalidFrames value)
  | .path path => if reading.path?.isSome then .error .multiplePaths else .ok { reading with path? := some path }
  | .unknown option => .error (.unknownOption option)

/-- Reads the rest of the items; a request for help ends this. -/
def items (reading : Reading) : List Item → Except UsageError Command
  | [] => reading.finish
  | .help :: _ => .ok .help
  | item :: rest => (reading.item item).bind fun reading => reading.items rest

theorem items_of_ne_help (reading : Reading) {item : Item} (h : item ≠ .help) (rest : List Item) :
    reading.items (item :: rest) = (reading.item item).bind fun reading => reading.items rest := by
  cases item with
  | help => exact absurd rfl h
  | _ => rfl

/-- Reading goes on from what was read. -/
theorem bind_read (first : Except UsageError Reading) {rest : List String}
    (ih : ∀ reading : Reading, reading.read rest = reading.items (Item.ofArguments rest)) :
    (first >>= fun reading => reading.read rest) = first.bind fun reading => reading.items (Item.ofArguments rest) := by
  cases first with
  | error error => rfl
  | ok reading => exact ih reading

/-- **A command line is read item by item.** -/
theorem read_eq (reading : Reading) (arguments : List String) :
    reading.read arguments = reading.items (Item.ofArguments arguments) := by
  induction reading, arguments using read.induct with
  | case1 reading => rfl
  | case2 reading rest | case3 reading rest => rfl
  | case4 reading rest ih | case5 reading rest ih | case6 reading rest ih | case7 reading rest ih => exact ih
  | case8 reading rest ih =>
    rw [read, Item.ofArguments]
    · exact bind_read (reading.force .loRom) ih
    all_goals simp
  | case9 reading rest ih =>
    rw [read, Item.ofArguments]
    · exact bind_read (reading.force .hiRom) ih
    all_goals simp
  | case10 reading => rfl
  | case11 reading value rest frames hframes ih =>
    simp only [read, hframes]
    rw [ih]
    simp only [Item.ofArguments, items, item, hframes]
    rfl
  | case12 reading value rest hframes =>
    simp only [read, Item.ofArguments, items, item, hframes]
    rfl
  | case13 reading argument rest h1 h2 h3 h4 h5 h6 h7 h8 h9 h10 ih =>
    have hargument : Item.ofArgument argument =
        if argument.startsWith "-" then .unknown argument else .path argument := by
      rw [Item.ofArgument] <;> assumption
    have htake : reading.take argument = reading.item (Item.ofArgument argument) := by
      rw [hargument, take]
      split <;> rfl
    have hhelp : Item.ofArgument argument ≠ .help := by
      rw [hargument]
      split <;> simp
    rw [read, Item.ofArguments, items_of_ne_help _ hhelp, ← htake]
    · exact bind_read (reading.take argument) ih
    all_goals assumption

end Reading

/-! ## Items that fit together -/

/-- The items fit together: there is one path at most, not both schemes, and no option that cannot be read. -/
structure Sound (items : List Item) : Prop where
  path : (items.filterMap Item.path?).length ≤ 1
  scheme : ¬(.scheme .loRom ∈ items ∧ .scheme .hiRom ∈ items)
  frames : ∀ value?, .frames value? ∈ items → ∃ value count, value? = some value ∧ IsFrameCount value count
  options : ∀ option, .unknown option ∉ items

theorem sound_nil : Sound [] := ⟨Nat.zero_le 1, by simp, by simp, by simp⟩

/-- In which order the items stand does not matter for that. -/
theorem Sound.perm {items items' : List Item} (h : Sound items) (hperm : items'.Perm items) : Sound items' where
  path := (hperm.filterMap Item.path?).length_eq ▸ h.path
  scheme hboth := h.scheme ⟨hperm.mem_iff.1 hboth.1, hperm.mem_iff.1 hboth.2⟩
  frames value? hmem := h.frames value? (hperm.mem_iff.1 hmem)
  options option hmem := h.options option (hperm.mem_iff.1 hmem)

theorem Sound.left {items items' : List Item} (h : Sound (items ++ items')) : Sound items where
  path := by
    have hpath := h.path
    rw [List.filterMap_append, List.length_append] at hpath
    omega
  scheme hboth := h.scheme ⟨List.mem_append_left _ hboth.1, List.mem_append_left _ hboth.2⟩
  frames value? hmem := h.frames value? (List.mem_append_left _ hmem)
  options option hmem := h.options option (List.mem_append_left _ hmem)

theorem Sound.first {earlier rest : List Item} {item : Item} (h : Sound (earlier ++ item :: rest)) :
    Sound (earlier ++ [item]) := by
  rw [List.append_cons] at h
  exact h.left

/-- The item fits behind the items before it. -/
def Item.Fits (earlier : List Item) : Item → Prop
  | .path _ => earlier.filterMap Item.path? = []
  | .scheme forced => ∀ other, .scheme other ∈ earlier → other = forced
  | .frames value? => ∃ value count, value? = some value ∧ IsFrameCount value count
  | .unknown _ => False
  | .help | .trace | .noNmi | .verbose => True

/-- One more item keeps items sound if it fits behind them. -/
theorem sound_concat {earlier : List Item} {item : Item} (h : Sound earlier) :
    Sound (earlier ++ [item]) ↔ item.Fits earlier := by
  have hlast {other : Item} (hmem : other ∈ earlier ++ [item]) : other ∈ earlier ∨ other = item := by
    rwa [List.mem_append, List.mem_singleton] at hmem
  constructor
  · intro hsound
    cases item with
    | help | trace | noNmi | verbose => trivial
    | scheme forced =>
      intro other hother
      by_contra hne
      refine hsound.scheme ?_
      cases other <;> cases forced <;> simp_all
    | frames value? => exact hsound.frames value? (List.mem_append_right _ List.mem_cons_self)
    | path text =>
      have hpath := hsound.path
      rw [List.filterMap_append, List.length_append] at hpath
      exact List.eq_nil_of_length_eq_zero (Nat.le_zero.1 (Nat.le_of_succ_le_succ hpath))
    | unknown option => exact hsound.options option (List.mem_append_right _ List.mem_cons_self)
  · intro hfits
    refine ⟨?_, ?_, ?_, ?_⟩
    · rw [List.filterMap_append, List.length_append]
      cases item with
      | path text => exact Nat.le_of_eq (by rw [show earlier.filterMap Item.path? = [] from hfits]; rfl)
      | _ => exact h.path
    · rintro ⟨hlo, hhi⟩
      rcases hlast hlo with hfirst | rfl
      · rcases hlast hhi with hsecond | rfl
        · exact h.scheme ⟨hfirst, hsecond⟩
        · exact absurd (hfits .loRom hfirst) (by decide)
      · rcases hlast hhi with hsecond | hsecond
        · exact absurd (hfits .hiRom hsecond) (by decide)
        · cases hsecond
    · intro value? hmem
      rcases hlast hmem with hmem | rfl
      · exact h.frames value? hmem
      · exact hfits
    · intro option hmem
      rcases hlast hmem with hmem | rfl
      · exact h.options option hmem
      · exact hfits

namespace Reading

/-- What has been read after some items. -/
def after (items : List Item) : Reading where
  path? := (items.filterMap Item.path?).head?
  frames := ((items.filter Item.isFrames).getLast?.bind Item.count?).getD 1
  trace := .trace ∈ items
  scheme? := if .scheme .loRom ∈ items then some .loRom else if .scheme .hiRom ∈ items then some .hiRom else none
  deliverNmi := .noNmi ∉ items
  verbose := .verbose ∈ items

theorem scheme?_after {items : List Item} (h : Sound items) {scheme : Scheme} :
    (after items).scheme? = some scheme ↔ .scheme scheme ∈ items := by
  have hboth := h.scheme
  cases scheme <;> simp only [after] <;> split_ifs <;> simp_all

/-- **One more item** is read if it fits behind the items that were read, and its fault is reported if not. -/
theorem item_after {earlier : List Item} (h : Sound earlier) (item : Item) :
    (item.Fits earlier → (after earlier).item item = .ok (after (earlier ++ [item]))) ∧
      (¬item.Fits earlier → ∃ error, item.fault? = some error ∧ (after earlier).item item = .error error) := by
  cases item with
  | help | trace | noNmi | verbose =>
    refine ⟨fun _ => ?_, fun hfits => (hfits trivial).elim⟩
    simp [Reading.item, after, Item.path?, Item.isFrames]
  | scheme forced =>
    constructor
    · intro hfits
      have hscheme := (scheme?_after ((sound_concat h).2 hfits)).2 (List.mem_append_right _ List.mem_cons_self)
      have hafter : { after earlier with scheme? := some forced } = after (earlier ++ [.scheme forced]) := by
        rw [← hscheme]
        simp [after, Item.path?, Item.isFrames]
      rw [Reading.item, force, ← hafter]
      cases hother : (after earlier).scheme? with
      | none => rfl
      | some other =>
        obtain rfl := hfits other ((scheme?_after h).1 hother)
        have hsame : { after earlier with scheme? := some other } = after earlier := by rw [← hother]
        exact (if_pos rfl).trans (congrArg Except.ok hsame.symm)
    · intro hfits
      obtain ⟨other, hmem, hne⟩ : ∃ other, .scheme other ∈ earlier ∧ other ≠ forced := by
        simpa [Item.Fits] using hfits
      refine ⟨_, rfl, ?_⟩
      simp only [Reading.item, force, (scheme?_after h).2 hmem]
      exact if_neg hne
  | frames value? =>
    constructor
    · rintro ⟨value, count, rfl, hcount⟩
      simp [Reading.item, after, Item.path?, Item.isFrames, Item.count?, frameCount?_eq_some_iff.2 hcount]
    · intro hfits
      cases value? with
      | none => exact ⟨_, rfl, rfl⟩
      | some value =>
        have hnone : frameCount? value = none := by
          rw [Option.eq_none_iff_forall_ne_some]
          exact fun count hcount => hfits ⟨value, count, rfl, frameCount?_eq_some_iff.1 hcount⟩
        exact ⟨_, rfl, by simp [Reading.item, hnone]⟩
  | path text =>
    constructor
    · intro hfits
      have hnone : earlier.filterMap Item.path? = [] := hfits
      simp [Reading.item, after, Item.path?, Item.isFrames, hnone]
    · intro hfits
      refine ⟨_, rfl, ?_⟩
      cases hpaths : earlier.filterMap Item.path? with
      | nil => exact (hfits hpaths).elim
      | cons first rest => simp [Reading.item, after, hpaths]
  | unknown option => exact ⟨fun hfits => hfits.elim, fun _ => ⟨_, rfl, rfl⟩⟩

/-- A list is cut at its first element or behind it. -/
theorem exists_split_cons {α : Type} {a : α} {rest : List α} {P : List α → α → Prop} :
    (∃ first item last, a :: rest = first ++ item :: last ∧ P first item) ↔
      P [] a ∨ ∃ first item last, rest = first ++ item :: last ∧ P (a :: first) item := by
  constructor
  · rintro ⟨first, item, last, hsplit, h⟩
    cases first with
    | nil =>
      obtain ⟨rfl, rfl⟩ := List.cons_eq_cons.1 hsplit
      exact .inl h
    | cons b first =>
      obtain ⟨rfl, rfl⟩ := List.cons_eq_cons.1 hsplit
      exact .inr ⟨first, item, last, rfl, h⟩
  · rintro (h | ⟨first, item, last, rfl, h⟩)
    · exact ⟨[], a, rest, rfl, h⟩
    · exact ⟨a :: first, item, last, rfl, h⟩

/-- The first of the remaining items is read if it fits, and its fault is reported if not. -/
theorem items_after {earlier : List Item} (h : Sound earlier) {item : Item} (hitem : item ≠ .help) (rest : List Item) :
    (Sound (earlier ++ [item]) ∧
        (after earlier).items (item :: rest) = (after (earlier ++ [item])).items rest) ∨
      ¬Sound (earlier ++ [item]) ∧ ∃ error, item.fault? = some error ∧
        (after earlier).items (item :: rest) = .error error := by
  obtain ⟨hreads, hfails⟩ := item_after h item
  rw [items_of_ne_help _ hitem, sound_concat h]
  by_cases hfits : item.Fits earlier
  · exact .inl ⟨hfits, by rw [hreads hfits]; rfl⟩
  · obtain ⟨error, hfault, herror⟩ := hfails hfits
    exact .inr ⟨hfits, error, hfault, by rw [herror]; rfl⟩

theorem finish_ne_help (reading : Reading) : reading.finish ≠ .ok .help := by
  unfold finish
  split <;> simp

/-- A request for help is heard if the items before it fit together. -/
theorem items_eq_help_iff {earlier : List Item} (h : Sound earlier) (rest : List Item) :
    (after earlier).items rest = .ok .help ↔
      ∃ first item last, rest = first ++ item :: last ∧ item = .help ∧ Sound (earlier ++ first) := by
  -- what was read so far stands for the items before the rest, and is sound as long as reading goes on
  induction rest generalizing earlier with
  | nil => simp [items, finish_ne_help]
  | cons item rest ih =>
    rw [exists_split_cons, List.append_nil]
    by_cases hitem : item = .help
    · subst hitem
      exact ⟨fun _ => .inl ⟨rfl, h⟩, fun _ => rfl⟩
    · rcases items_after h hitem rest with ⟨hsound, hitems⟩ | ⟨hunsound, error, -, hitems⟩
      · rw [hitems, ih hsound]
        simp [hitem]
      · have hnone (first : List Item) : ¬Sound (earlier ++ item :: first) := fun hsound => hunsound hsound.first
        simp [hitems, hitem, hnone]

/-- A run is asked for if all items fit together, none asks for help and a path is named. -/
theorem items_eq_run_iff {earlier : List Item} (h : Sound earlier) (rest : List Item) (options : Options) :
    (after earlier).items rest = .ok (.run options) ↔
      .help ∉ rest ∧ Sound (earlier ++ rest) ∧ (after (earlier ++ rest)).finish = .ok (.run options) := by
  induction rest generalizing earlier with
  | nil => simp [items, h]
  | cons item rest ih =>
    by_cases hitem : item = .help
    · subst hitem
      simp [items]
    · rcases items_after h hitem rest with ⟨hsound, hitems⟩ | ⟨hunsound, error, -, hitems⟩
      · rw [hitems, ih hsound, ← List.append_cons]
        simp [Ne.symm hitem]
      · have hnone : ¬Sound (earlier ++ item :: rest) := fun hsound => hunsound hsound.first
        simp [hitems, hnone]

/-- The fault is that of the first item that does not fit, or that of the whole if all of them do. -/
theorem items_eq_error_iff {earlier : List Item} (h : Sound earlier) (rest : List Item) (error : UsageError) :
    (after earlier).items rest = .error error ↔
      (∃ first item last, rest = first ++ item :: last ∧ .help ∉ first ∧ Sound (earlier ++ first) ∧
        ¬Sound (earlier ++ first ++ [item]) ∧ item.fault? = some error) ∨
      .help ∉ rest ∧ Sound (earlier ++ rest) ∧ (after (earlier ++ rest)).finish = .error error := by
  induction rest generalizing earlier with
  | nil => simp [items, h]
  | cons item rest ih =>
    rw [exists_split_cons, List.append_nil]
    by_cases hitem : item = .help
    · subst hitem
      simp [items, Item.fault?]
    · rcases items_after h hitem rest with ⟨hsound, hitems⟩ | ⟨hunsound, fault, hfault, hitems⟩
      · rw [hitems, ih hsound]
        simp [Ne.symm hitem, hsound]
      · have hnone (first : List Item) : ¬Sound (earlier ++ item :: first) := fun hsound => hunsound hsound.first
        simp [hitems, hnone, h, hfault]

/-- In which order sound items were read does not matter, but for the last frame count. -/
theorem after_perm {items items' : List Item} (h : Sound items) (hperm : items'.Perm items)
    (hlast : (items'.filter Item.isFrames).getLast? = (items.filter Item.isFrames).getLast?) :
    after items' = after items := by
  have hpaths : items'.filterMap Item.path? = items.filterMap Item.path? := by
    have hperm := hperm.filterMap Item.path?
    have hfew := h.path
    cases hitems : items.filterMap Item.path? with
    | nil => exact (hitems ▸ hperm).eq_nil
    | cons first rest =>
      rw [hitems] at hperm hfew
      obtain rfl := List.eq_nil_of_length_eq_zero (Nat.le_zero.1 (Nat.le_of_succ_le_succ hfew))
      exact hperm.eq_singleton
  simp only [after, hpaths, hlast, hperm.mem_iff]

end Reading

/-! ## Command lines -/

/-- What items that fit together ask for. -/
structure Options.Of (items : List Item) (options : Options) : Prop where
  path : items.filterMap Item.path? = [options.path]
  /-- The last frame count is the one that is meant. -/
  frames : ∀ value?, (items.filter Item.isFrames).getLast? = some (.frames value?) →
    ∃ value, value? = some value ∧ IsFrameCount value options.frames
  /-- One frame is meant if there is no frame count. -/
  oneFrame : (∀ value?, .frames value? ∉ items) → options.frames = 1
  trace : options.trace = true ↔ .trace ∈ items
  noNmi : options.deliverNmi = false ↔ .noNmi ∈ items
  verbose : options.verbose = true ↔ .verbose ∈ items
  scheme : ∀ scheme, options.scheme? = some scheme ↔ .scheme scheme ∈ items

/-- The path that is read is the only one. -/
theorem Sound.path?_after {items : List Item} (h : Sound items) {path : String} :
    (Reading.after items).path? = some path ↔ items.filterMap Item.path? = [path] := by
  have hfew := h.path
  simp only [Reading.after]
  cases hpaths : items.filterMap Item.path? with
  | nil => simp
  | cons first rest =>
    rw [hpaths] at hfew
    obtain rfl := List.eq_nil_of_length_eq_zero (Nat.le_zero.1 (Nat.le_of_succ_le_succ hfew))
    simp

/-- The last frame count is read. -/
theorem Sound.frames_after {items : List Item} (h : Sound items) {value? : Option String}
    (hlast : (items.filter Item.isFrames).getLast? = some (.frames value?)) :
    ∃ value, value? = some value ∧ IsFrameCount value (Reading.after items).frames := by
  have hmem := (List.mem_filter.1 (List.mem_of_getLast? hlast)).1
  obtain ⟨value, count, rfl, hcount⟩ := h.frames value? hmem
  refine ⟨value, rfl, ?_⟩
  rw [Reading.after, hlast]
  simp only [Option.bind_some, Item.count?, frameCount?_eq_some_iff.2 hcount, Option.getD_some]
  exact hcount

theorem oneFrame_after {items : List Item} (h : ∀ value?, .frames value? ∉ items) :
    (Reading.after items).frames = 1 := by
  have hnone : items.filter Item.isFrames = [] := by
    rw [List.filter_eq_nil_iff]
    intro item hmem
    cases item with
    | frames value? => exact absurd hmem (h value?)
    | _ => simp [Item.isFrames]
  rw [Reading.after, hnone]
  rfl

/-- What is read of items that fit together is what they ask for. -/
theorem Sound.finish_after {items : List Item} (h : Sound items) {options : Options}
    (hrun : (Reading.after items).finish = .ok (.run options)) : options.Of items := by
  unfold Reading.finish at hrun
  split at hrun
  · rename_i path hpath
    cases hrun
    exact {
      path := h.path?_after.1 hpath
      frames := fun value? hlast => h.frames_after hlast
      oneFrame := oneFrame_after
      trace := by simp [Reading.after]
      noNmi := by simp [Reading.after]
      verbose := by simp [Reading.after]
      scheme := fun scheme => Reading.scheme?_after h }
  · cases hrun

/-- A run needs a path, and this is all that may be missing in the end. -/
theorem Sound.finish_cases {items : List Item} (h : Sound items) :
    ((∃ path, items.filterMap Item.path? = [path]) ∧
        ∃ options, (Reading.after items).finish = .ok (.run options)) ∨
      items.filterMap Item.path? = [] ∧ (Reading.after items).finish = .error .missingPath := by
  cases hpath : (Reading.after items).path? with
  | none =>
    refine .inr ⟨?_, by rw [Reading.finish, hpath]⟩
    simpa [Reading.after] using hpath
  | some path =>
    refine .inl ⟨⟨path, h.path?_after.1 hpath⟩, ?_⟩
    rw [Reading.finish, hpath]
    exact ⟨_, rfl⟩

/-- A command line is read from its first item on. -/
theorem ofArguments_eq (arguments : List String) :
    Command.ofArguments arguments = (Reading.after []).items (Item.ofArguments arguments) :=
  Reading.read_eq {} arguments

theorem ofArguments_eq_help_iff (arguments : List String) :
    Command.ofArguments arguments = .ok .help ↔
      ∃ earlier later, Item.ofArguments arguments = earlier ++ .help :: later ∧ Sound earlier := by
  rw [ofArguments_eq, Reading.items_eq_help_iff sound_nil]
  simp

theorem ofArguments_eq_run_iff (arguments : List String) (options : Options) :
    Command.ofArguments arguments = .ok (.run options) ↔
      .help ∉ Item.ofArguments arguments ∧ Sound (Item.ofArguments arguments) ∧
        (Reading.after (Item.ofArguments arguments)).finish = .ok (.run options) := by
  rw [ofArguments_eq, Reading.items_eq_run_iff sound_nil, List.nil_append]

/-- Items that fit together and name a path lead to a run, unless they ask for help. -/
theorem exists_run_of_sound {arguments : List String} (hhelp : Command.ofArguments arguments ≠ .ok .help)
    (hsound : Sound (Item.ofArguments arguments)) {path : String}
    (hpath : (Item.ofArguments arguments).filterMap Item.path? = [path]) :
    ∃ options, Command.ofArguments arguments = .ok (.run options) := by
  have hnone : .help ∉ Item.ofArguments arguments := by
    intro hmem
    obtain ⟨earlier, later, hsplit⟩ := List.append_of_mem hmem
    exact hhelp ((ofArguments_eq_help_iff arguments).2 ⟨earlier, later, hsplit, Sound.left (hsplit ▸ hsound)⟩)
  rcases hsound.finish_cases with ⟨-, options, hfinish⟩ | ⟨hempty, -⟩
  · exact ⟨options, (ofArguments_eq_run_iff arguments options).2 ⟨hnone, hsound, hfinish⟩⟩
  · cases hpath.symm.trans hempty

/-- A fault is that of the first item that does not fit, or the lack of a path. -/
theorem fault_of_ofArguments {arguments : List String} {error : UsageError}
    (h : Command.ofArguments arguments = .error error) :
    let items := Item.ofArguments arguments
    (∃ earlier item later, items = earlier ++ item :: later ∧ .help ∉ earlier ∧ Sound earlier ∧
        ¬Sound (earlier ++ [item]) ∧ item.fault? = some error) ∨
      .help ∉ items ∧ Sound items ∧ items.filterMap Item.path? = [] ∧ error = .missingPath := by
  rw [ofArguments_eq, Reading.items_eq_error_iff sound_nil] at h
  simp only [List.nil_append] at h
  rcases h with hfirst | ⟨hnone, hsound, hfinish⟩
  · exact .inl hfirst
  · refine .inr ⟨hnone, hsound, ?_⟩
    rcases hsound.finish_cases with ⟨-, options, hoptions⟩ | ⟨hempty, hmissing⟩
    · cases hfinish.symm.trans hoptions
    · exact ⟨hempty, Except.error.inj (hfinish.symm.trans hmissing)⟩

/-- **What a command line asks for.** Its items decide: help is shown if it is asked for behind items that fit together.
Otherwise there is a run if there is just one path, not both schemes, a number in 32 bits with each option for the number
of frames and no unknown option; the run is what the items ask for, in whatever order they stand, if the last frame
count is the same. In all other cases the session fails with the fault of the first item that does not fit behind those
before it, or for want of a path if all of them fit. -/
theorem command_line_grammar (arguments : List String) (readFile : String → Except ReadFault Image) :
    let items := Item.ofArguments arguments
    let command := Command.ofArguments arguments
    (command = .ok .help ↔ ∃ earlier later, items = earlier ++ .help :: later ∧ Sound earlier) ∧
    (command ≠ .ok .help →
      ((∃ options, command = .ok (.run options)) ↔
        (∃ path, items.filterMap Item.path? = [path]) ∧
        ¬(.scheme .loRom ∈ items ∧ .scheme .hiRom ∈ items) ∧
        (∀ value?, .frames value? ∈ items → ∃ value count, value? = some value ∧ IsFrameCount value count) ∧
        ∀ option, .unknown option ∉ items)) ∧
    (∀ options, command = .ok (.run options) →
      options.Of items ∧
      ∀ reordered, (Item.ofArguments reordered).Perm items →
        ((Item.ofArguments reordered).filter Item.isFrames).getLast? = (items.filter Item.isFrames).getLast? →
        Command.ofArguments reordered = .ok (.run options)) ∧
    (command ≠ .ok .help → (∀ options, command ≠ .ok (.run options)) →
      ∃ error, command = .error error ∧
        respond arguments readFile = (Failure.usage error).response "" ∧ (respond arguments readFile).exitCode = 2 ∧
        ((∃ earlier item later, items = earlier ++ item :: later ∧ .help ∉ earlier ∧ Sound earlier ∧
            ¬Sound (earlier ++ [item]) ∧ item.fault? = some error) ∨
          .help ∉ items ∧ Sound items ∧ items.filterMap Item.path? = [] ∧ error = .missingPath)) := by
  intro items command
  refine ⟨ofArguments_eq_help_iff arguments, fun hhelp => ⟨?_, ?_⟩, ?_, ?_⟩
  · rintro ⟨options, hcommand⟩
    obtain ⟨-, hsound, hfinish⟩ := (ofArguments_eq_run_iff arguments options).1 hcommand
    exact ⟨⟨_, (hsound.finish_after hfinish).path⟩, hsound.scheme, hsound.frames, hsound.options⟩
  · rintro ⟨⟨path, hpath⟩, hscheme, hframes, hoptions⟩
    have hone : (items.filterMap Item.path?).length ≤ 1 := Nat.le_of_eq (congrArg List.length hpath)
    exact exists_run_of_sound hhelp ⟨hone, hscheme, hframes, hoptions⟩ hpath
  · intro options hcommand
    obtain ⟨hnone, hsound, hfinish⟩ := (ofArguments_eq_run_iff arguments options).1 hcommand
    refine ⟨hsound.finish_after hfinish, fun reordered hperm hlast => ?_⟩
    rw [ofArguments_eq_run_iff, Reading.after_perm hsound hperm hlast]
    exact ⟨fun hmem => hnone (hperm.mem_iff.1 hmem), hsound.perm hperm, hfinish⟩
  · intro hhelp hnorun
    cases hcommand : command with
    | ok asked =>
      cases asked with
      | help => exact absurd hcommand hhelp
      | run options => exact absurd hcommand (hnorun options)
    | error error =>
      have hresponse : respond arguments readFile = (Failure.usage error).response "" := by
        rw [respond, show Command.ofArguments arguments = .error error from hcommand]
      refine ⟨error, rfl, hresponse, ?_, fault_of_ofArguments hcommand⟩
      rw [hresponse]
      rfl

/-- A command line with two frame counts in two orders, and one where the option for the number of frames takes what
looks like a request for help. -/
theorem command_line_grammar_frames :
    let options : Options := { path := "a.sfc", frames := 2, scheme? := some .hiRom, verbose := true }
    options.Of (Item.ofArguments ["--hirom", "a.sfc", "--frames", "+007", "-v", "--hirom", "--frames", "2"]) ∧
      Command.ofArguments ["--frames", "+007", "--verbose", "--hirom", "--frames", "2", "--hirom", "a.sfc"] =
        .ok (.run options) ∧
      (respond ["--frames", "--help"] fun _ => .error .missing).exitCode = 2 := by
  intro options
  have hcommand :
      Command.ofArguments ["--hirom", "a.sfc", "--frames", "+007", "-v", "--hirom", "--frames", "2"] =
        .ok (.run { path := "a.sfc", frames := 2, scheme? := some .hiRom, verbose := true }) := by decide +kernel
  have hfault : Command.ofArguments ["--frames", "--help"] = .error (.invalidFrames "--help") := by decide +kernel
  obtain ⟨-, -, hrun, -⟩ := command_line_grammar
    ["--hirom", "a.sfc", "--frames", "+007", "-v", "--hirom", "--frames", "2"] fun _ => .error .missing
  obtain ⟨-, -, -, hfails⟩ := command_line_grammar ["--frames", "--help"] fun _ => .error .missing
  obtain ⟨hof, hreordered⟩ := hrun options hcommand
  refine ⟨hof, hreordered _ (by decide +kernel) (by decide +kernel), ?_⟩
  obtain ⟨error, -, -, hexit, -⟩ := hfails (by rw [hfault]; nofun) (by rw [hfault]; simp)
  exact hexit

end Emu816.Runner

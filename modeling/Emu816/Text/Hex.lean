/-!
# Hexadecimal and padded text

Numbers are written with a least number of digits and never cut: a value that needs more digits gets them.

- `hex`: upper-case digits, `hexLower`: lower-case digits.
- `bytesHex`: the bytes of an instruction, two digits each, separated by one blank.
- `padRight`: blanks up to a width counted in characters.
-/

namespace Emu816.Text

/-- The lowest `width` base-16 digits of `n`, most significant first, each written by `digit`. -/
def digitsWith (digit : Nat → Char) : (width : Nat) → (n : Nat) → List Char
  | 0, _ => []
  | width + 1, n => digitsWith digit width (n / 16) ++ [digit (n % 16)]

/-- Number of base-16 digits of `n`; zero has one. -/
def hexLength (n : Nat) : Nat := n.log2 / 4 + 1

/-- Upper-case hexadecimal text of `n` with at least `width` digits. -/
def hex (width n : Nat) : String :=
  String.ofList (digitsWith (fun d => (Nat.digitChar d).toUpper) (max width (hexLength n)) n)

/-- Lower-case hexadecimal text of `n` with at least `width` digits. -/
def hexLower (width n : Nat) : String :=
  String.ofList (digitsWith Nat.digitChar (max width (hexLength n)) n)

/-- Two-digit upper-case hexadecimal bytes, separated by one blank. -/
def bytesHex (bytes : List UInt8) : String :=
  " ".intercalate (bytes.map fun b => hex 2 b.toNat)

/-- The text followed by blanks up to `width` characters; longer text is kept whole. -/
def padRight (width : Nat) (text : String) : String :=
  text ++ String.ofList (List.replicate (width - text.length) ' ')

end Emu816.Text

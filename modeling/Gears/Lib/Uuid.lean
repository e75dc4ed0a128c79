import Mathlib.Data.Nat.Digits.Defs

/-!
# Identifiers

* `Uuid` : 128-bit identifiers with their bytes (`Uuid.bytes`) and their text (`Uuid.text`).
-/

namespace Gears

/-- A 128-bit identifier, ordered by its big-endian bytes. -/
abbrev Uuid := BitVec 128

namespace Uuid

instance : LawfulBEq Uuid := inferInstance

/-- The nil identifier. -/
def nil : Uuid := 0

/-- The `i`-th byte, most significant first. -/
def byte (u : Uuid) (i : ℕ) : UInt8 := UInt8.ofNat (u.toNat / 256 ^ (15 - i))

/-- The sixteen bytes, most significant first. -/
def bytes (u : Uuid) : List UInt8 := (List.range 16).map u.byte

/-- The hyphenated lower-case hexadecimal text. -/
def text (u : Uuid) : String :=
  let hex (k n : ℕ) : String := String.join ((List.range n).map fun i =>
    let b := (u.byte (k + i)).toNat
    String.ofList [(b / 16).digitChar, (b % 16).digitChar])
  hex 0 4 ++ "-" ++ hex 4 2 ++ "-" ++ hex 6 2 ++ "-" ++ hex 8 2 ++ "-" ++ hex 10 6

end Uuid

end Gears

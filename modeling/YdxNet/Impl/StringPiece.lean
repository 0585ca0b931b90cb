import YdxNet.Framework.Bytes

/-!
# `string_piece.h`

A pointer to characters is the memory that begins where it points to.
-/

namespace Ydx

/-- `class StringPiece`: the memory pointed to and the length, an `int`. -/
structure StringPiece where
  ptr_ : List Byte
  length_ : Int32
  deriving DecidableEq, Repr

/-- `strlen(str)`, where a NUL lies at `str`, or behind it. -/
def strlen (str : List Byte) : Nat := (str.takeWhile (· ≠ 0)).length

end Ydx

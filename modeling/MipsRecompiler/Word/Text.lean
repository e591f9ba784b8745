/-!
# Written numbers

Numbers in listings are lower case hexadecimal, with or without the `0x` mark, and columns are
padded with blanks.
-/

set_option autoImplicit false

namespace MipsRecompiler.Text

/-- Pads on the left with `fill` up to `width` characters. -/
def padLeft (width : Nat) (fill : Char) (text : String) : String :=
  String.ofList (List.replicate (width - text.length) fill) ++ text

def padRight (width : Nat) (text : String) : String :=
  text ++ String.ofList (List.replicate (width - text.length) ' ')

def hexDigits (n : Nat) : String :=
  String.ofList (Nat.toDigits 16 n)

/-- Hexadecimal digits, padded with zeros to `width`. -/
def hexPadded (width n : Nat) : String :=
  padLeft width '0' (hexDigits n)

def hex (n : Nat) : String :=
  "0x" ++ hexDigits n

/-- A 32 bit word with its mark and all eight digits. -/
def hexWord (n : Nat) : String :=
  "0x" ++ hexPadded 8 n

/-- A signed number in hexadecimal: the sign, then the magnitude with its mark. -/
def signedHex (n : Int) : String :=
  if n < 0 then "-" ++ hex n.natAbs else hex n.natAbs

def bool (value : Bool) : String :=
  if value then "true" else "false"

/-- The lines of a text: cut at each newline, a last newline makes no empty line. -/
def lines (text : String) : List String :=
  let pieces := text.splitOn "\n"
  match pieces.reverse with
  | "" :: rest => rest.reverse
  | _ => pieces

end MipsRecompiler.Text

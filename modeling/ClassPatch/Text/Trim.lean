/-!
Cutting texts apart.
-/

namespace ClassPatch

/-- White space, as Unicode has it. -/
def isSpace (c : Char) : Bool :=
  let n := c.toNat
  (0x09 ≤ n && n ≤ 0x0D) || n == 0x20 || n == 0x85 || n == 0xA0 || n == 0x1680
    || (0x2000 ≤ n && n ≤ 0x200A) || n == 0x2028 || n == 0x2029 || n == 0x202F || n == 0x205F
    || n == 0x3000

namespace Text

def trimStart (text : List Char) : List Char := text.dropWhile isSpace

def trimEnd (text : List Char) : List Char := (text.reverse.dropWhile isSpace).reverse

def trim (text : List Char) : List Char := trimStart (trimEnd text)

/-- What stands before and after the first separator, if there is one. -/
def splitFirst (isSeparator : Char → Bool) (text : List Char) : Option (List Char × List Char) :=
  match text.dropWhile (!isSeparator ·) with
  | [] => none
  | _ :: rest => some (text.takeWhile (!isSeparator ·), rest)

end Text

end ClassPatch

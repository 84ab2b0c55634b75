import Stabilizer.Text.CodeRange
/-!
# White space

The Unicode property White_Space: 25 characters, with the ASCII blanks, the no-break spaces and the
ideographic space among them, and without the zero-width ones.  `trim` takes them off both ends of a
text.
-/

namespace Stabilizer.Text

def whiteSpace : List CodeRange := [
    (0x9, 0xd), (0x20, 0x20), (0x85, 0x85), (0xa0, 0xa0), (0x1680, 0x1680), (0x2000, 0x200a),
    (0x2028, 0x2029), (0x202f, 0x202f), (0x205f, 0x205f), (0x3000, 0x3000)]

def isBlank (c : Char) : Bool := CodeRange.covers whiteSpace c

def trimStart (text : List Char) : List Char := text.dropWhile isBlank

def trimEnd (text : List Char) : List Char := (text.reverse.dropWhile isBlank).reverse

def trim (text : List Char) : List Char := trimEnd (trimStart text)

end Stabilizer.Text

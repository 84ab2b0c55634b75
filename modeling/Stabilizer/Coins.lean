/-!
# Coins

Randomness comes in as a tape of 32-bit words.  A coin is the top bit of the next word; how many
words were drawn is counted.
-/

namespace Stabilizer

/-- An endless tape of words: word `j` is the one that the draw after `j` others takes. -/
abbrev Tape := Nat → UInt32

/-- The given words, then zeros. -/
def Tape.ofWords (words : Array UInt32) : Tape := fun j => (words[j]?).getD 0

/-- The low 32 bits of an arithmetic progression. -/
def Tape.progression (first step : Nat) : Tape := fun j => UInt32.ofNat (first + step * j)

/-- The coin that a word shows: its top bit (`measure`, measure 91). -/
def coinOf (word : UInt32) : Bool := 0x80000000 ≤ word

/-- A tape with the number of words drawn from it. -/
structure Coins where
  tape : Tape
  drawn : Nat

namespace Coins

def fresh (tape : Tape) : Coins := ⟨tape, 0⟩

def next (c : Coins) : Bool := coinOf (c.tape c.drawn)

def advance (c : Coins) : Coins := { c with drawn := c.drawn + 1 }

end Coins

end Stabilizer

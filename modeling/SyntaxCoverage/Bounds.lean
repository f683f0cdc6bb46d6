/-! The largest numbers that are read from outside. -/

namespace SyntaxCoverage

/-- The largest offset, line, column and id. -/
def maxIndex : Nat := Nat.pow 2 32 - 1

def maxCount : Nat := Nat.pow 2 64 - 1

end SyntaxCoverage

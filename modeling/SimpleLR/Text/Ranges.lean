/-!
# Ranges of code points
-/
namespace SimpleLR.Text

/-- Whether a code point lies in one of the closed ranges of an ascending list. -/
def inRanges (n : Nat) : List (Nat × Nat) → Bool
  | [] => false
  | (low, high) :: rest => low ≤ n && (n ≤ high || inRanges n rest)

end SimpleLR.Text

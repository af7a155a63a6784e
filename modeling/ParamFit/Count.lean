/-!
Counts are kept in words of sixty-four bits. What needs a count that does not fit a word cannot be
done.
-/
namespace ParamFit.Count

def limit : Nat := Nat.pow 2 64

def fits (n : Nat) : Bool := n < limit

theorem fitsBelow {m n : Nat} (less : m ≤ n) (fit : fits n) : fits m :=
  decide_eq_true (Nat.lt_of_le_of_lt less (of_decide_eq_true fit))

end ParamFit.Count

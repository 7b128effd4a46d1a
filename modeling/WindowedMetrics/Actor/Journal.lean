import WindowedMetrics.Actor.Basic

/-!
# A journal kept by an actor

The state is a list of lines.  An entry has a number and further entries: running it writes the number
and submits its further entries in order.  A further entry for which no slot is free is not submitted;
that it overflowed is written instead.
-/

namespace WindowedMetrics.Journal

/-- A number to write and the entries to submit afterwards. -/
inductive Entry where
  | mk (value : Int) (children : List Entry)

namespace Entry

def value : Entry → Int
  | .mk v _ => v

def children : Entry → List Entry
  | .mk _ cs => cs

end Entry

/-- The lines written so far. -/
abbrev Lines := List String

def write (line : String) (lines : Lines) : Lines := lines ++ [line]

/-- Submit entries, or write down that they overflowed. -/
def post : List Entry → Script Lines Entry
  | [] => .done
  | e :: es =>
    .acquire fun overflow =>
      if overflow then .discard 0 (.edit (write ("overflow " ++ toString e.value)) (post es))
      else .submit 0 e (post es)

instance : Action Lines Entry where
  blank := .mk 0 []
  script e := .edit (write (toString e.value)) (post e.children)
  spent e := .mk e.value []

end WindowedMetrics.Journal

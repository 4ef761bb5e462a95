import Mustache.Value

/-!
# Options

How a template is compiled and rendered, and how options are read from data: from a map with the
keys `trim-output`, `max-partials` and `max-depth`, others ignored, or from a list with the three
settings in this order.  What is not said keeps its default.
-/

namespace Mustache

structure Options where
  /-- rendered text loses the blanks at its ends -/
  trimOutput : Bool := true
  /-- how many partials a template may need -/
  maxPartials : Nat := 256
  /-- how deep inclusions may be nested -/
  maxDepth : Nat := 50
  deriving DecidableEq, Repr

namespace Options

def standard : Options := {}

def flag? : Value → Option Bool
  | .bool b => some b
  | _ => none

/-- a count is an integer that fits a machine word -/
def count? : Value → Option Nat
  | .number (.int (.ofNat n)) => if n < Text.wordSize then some n else none
  | _ => none

/-- a setting that may be missing -/
def setting {α : Type} (read : Value → Option α) (default : α) : Option Value → Option α
  | none => some default
  | some v => read v

def ofSettings (trim partials depth : Option Value) : Option Options := do
  let trimOutput ← setting flag? standard.trimOutput trim
  let maxPartials ← setting count? standard.maxPartials partials
  let maxDepth ← setting count? standard.maxDepth depth
  some ⟨trimOutput, maxPartials, maxDepth⟩

def ofValue? : Value → Option Options
  | .map es =>
    ofSettings (es.lookup "trim-output".toList) (es.lookup "max-partials".toList)
      (es.lookup "max-depth".toList)
  | .list vs => if vs.length ≤ 3 then ofSettings vs[0]? vs[1]? vs[2]? else none
  | _ => none

/-- the options as one line of text -/
def describe (o : Options) : Text :=
  "MustacheOptions \x7b trim_output: ".toList ++
    (if o.trimOutput then "true" else "false").toList ++
    ", max_partials: ".toList ++ Text.ofNat o.maxPartials ++
    ", max_depth: ".toList ++ Text.ofNat o.maxDepth ++ " \x7d".toList

end Options
end Mustache

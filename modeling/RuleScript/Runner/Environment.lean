/-
# Settings from variables

An embedding may leave settings to named variables of its surroundings: the
greatest number of active calls, the loop limit, and whether the evaluation
trace is kept. A variable that is empty counts as one that is not there.

Key definitions: `Settings.ofVariables`.
-/
import RuleScript.Machine
import RuleScript.Number.Numeral

namespace RuleScript.Settings

/-- The variable of the greatest number of active calls. -/
def depthVariable : String := "QUILL_MAX_DEPTH"

/-- The variable of the loop limit. -/
def loopVariable : String := "QUILL_MAX_LOOP_ITERS"

/-- The variable of the evaluation trace. -/
def traceVariable : String := "QUILL_DEBUG"

/-- The settings that variables give; a depth given outright wins over the
variable. A depth that is no integer is refused with a message. -/
def ofVariables (lookup : String → Option String) (maxDepth : Option Int) :
    Except String Settings := do
  let text (name : String) : String := (lookup name).getD ""
  let fromText : Option Int ←
    if text depthVariable = "" then pure none
    else
      match Number.readInteger 10 (text depthVariable) with
      | .ok n => pure (some n)
      | .error e => if maxDepth.isSome then pure none else throw (e.message 10 (text depthVariable))
  return ⟨maxDepth.or fromText, text loopVariable, text traceVariable ≠ "", .usual⟩

end RuleScript.Settings

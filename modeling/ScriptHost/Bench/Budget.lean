import ScriptHost.Answer
import ScriptHost.Budget

set_option autoImplicit false

/-!
Steps on a conversion budget.
-/

namespace ScriptHost

inductive BudgetStep where
  | enter
  | leave
  | charge (bytes : Nat)

namespace BudgetStep

def ofCharge (r : Except ConversionError Unit) : Answer :=
  .ofResult (r.mapError Error.conversion)

def run (b : Budget) : BudgetStep -> Answer × Budget
  | enter => (ofCharge b.enter.1, b.enter.2)
  | leave => (.ok, b.leave)
  | charge bytes => (ofCharge (b.charge bytes).1, (b.charge bytes).2)

def runAll : Budget -> List BudgetStep -> List Answer
  | _, [] => []
  | b, first :: rest =>
      let (answer, b) := run b first
      answer :: runAll b rest

end BudgetStep

end ScriptHost

import SnlFront.Diagnostic
import SnlFront.Scope.Run

/-!
# Reporting diagnostics

The analysis of types, expressions and statements looks at a scope and reports diagnostics; only
declarations change the scope.

## Main definitions

* `Checked`: what such an analysis comes to.
* `Analysis`: an analysis that may change the scope.
* `report`, `require`: report a diagnostic, always or if a condition fails.
-/

namespace SnlFront

/-- Reported diagnostics and a value. -/
abbrev Checked := Logged (Located Diagnostic)

/-- An analysis that may change the scope. -/
abbrev Analysis := ScopeM (Located Diagnostic)

/-- Report a diagnostic at a position. -/
def report (p : Position) (d : Diagnostic) : Checked Unit := Logged.note ⟨p, d⟩

/-- Report a diagnostic at a position if a condition fails. -/
def require (condition : Bool) (p : Position) (d : Diagnostic) : Checked Unit :=
  Logged.demand condition ⟨p, d⟩

end SnlFront

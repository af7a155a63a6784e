import ParamFit.Report.Parameter
import ParamFit.Minimum.Basic

/-!
The fixed-width report of the result of a search.
-/
namespace ParamFit
open Decimal (scientific)
open Report

def Minimum.verdict (m : Minimum Double) : String :=
  if m.isValid then "minimization converged\n"
  else
    "WARNING: minimization did not converge\n"
      ++ (if m.callLimit then "  call limit reached\n" else "")
      ++ (if m.aboveMaxEdm then "  edm above the requested tolerance\n" else "")

def Minimum.render (m : Minimum Double) : String :=
  let state := m.state
  "\n" ++ m.verdict ++ "\n"
    ++ s!"# of function calls: {m.calls}\n"
    ++ s!"minimum function value: {scientific m.value 10}\n"
    ++ s!"minimum edm: {scientific m.edm 5}\n"
    ++ s!"minimum internal state vector: {row m.last.point.x.toList}"
    ++ (if m.last.error.isValid then
        s!"minimum internal covariance matrix:\n{m.last.error.covariance.render}"
      else "")
    ++ state.space.render
    ++ (if m.last.hasCovariance then state.covariance.render ++ state.correlation.render else "")

end ParamFit

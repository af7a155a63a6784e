import ParamFit.Double
import ParamFit.Parabola
import ParamFit.Config.Notation
import ParamFit.Fit
import ParamFit.Profile.Contour
import ParamFit.Report.Minimum
import ParamFit.Report.Profile
import ParamFit.Proofs.Budget
import ParamFit.Proofs.Convergence
import ParamFit.Proofs.Bowl
import ParamFit.Proofs.Overstep
import ParamFit.Proofs.InPlace
import ParamFit.Proofs.Covering
import ParamFit.Proofs.Valid
import ParamFit.Proofs.Minors
import ParamFit.Proofs.Transport
import ParamFit.Proofs.Parabolic
import ParamFit.Proofs.Conditioning
import ParamFit.Proofs.Spending
import ParamFit.Proofs.Quadratic
import ParamFit.Proofs.Trials
import ParamFit.Proofs.Repaired
import ParamFit.Proofs.Stopping
import ParamFit.Proofs.Dividing
import ParamFit.Proofs.Usable
import ParamFit.Proofs.Differences
import ParamFit.Proofs.Settling
import ParamFit.Proofs.Supplying
import ParamFit.Proofs.Reordering
import ParamFit.Proofs.Passing
import ParamFit.Proofs.Guessing
import ParamFit.Proofs.Balancing
import ParamFit.Proofs.Quotient
import ParamFit.Proofs.Tally
import ParamFit.Proofs.Ahead
import ParamFit.Proofs.Meeting
import ParamFit.Proofs.Agreeing
import ParamFit.Proofs.Regression
import ParamFit.Proofs.Drawing
import ParamFit.Proofs.Axes
import ParamFit.Proofs.Confining
import ParamFit.Proofs.Holding
import ParamFit.Proofs.Correlating
import ParamFit.Proofs.Building
import ParamFit.Proofs.Parting
import ParamFit.Proofs.Bracketing
import ParamFit.Proofs.Rereading
import ParamFit.Proofs.Aiming
import ParamFit.Proofs.Interpolating
import ParamFit.Proofs.Packing

import Curves.Catalogue.Number
import Curves.Configuration
import Curves.Curve.Solve
import Curves.Trace
import Curves.Proofs.Curve.Assembly
import Curves.Proofs.Catalogue.Loading
import Curves.Proofs.Catalogue.Reordering
import Curves.Proofs.Catalogue.Repetition
import Curves.Proofs.Curve.Continuity
import Curves.Proofs.Curve.Nesting
import Curves.Proofs.Curve.Slope
import Curves.Proofs.Polynomial.OddDegree
import Curves.Proofs.Spline.Integral
import Curves.Proofs.Spline.Level
import Curves.Proofs.Curve.Shift
import Curves.Proofs.Oscillator.Rest
import Curves.Proofs.Oscillator.Restart
import Curves.Proofs.Polynomial.Listing
import Curves.Proofs.Curve.Definedness
import Curves.Proofs.Spline.Neighbours
import Curves.Proofs.Spline.Transformation
import Curves.Proofs.Spline.Extrema
import Curves.Proofs.Spline.Rearrangement
import Curves.Proofs.Spline.Quadratic
import Curves.Proofs.Catalogue.Attempts
import Curves.Proofs.Trace.Counters
import Curves.Proofs.Spline.ControlValues
import Curves.Proofs.Spline.Duplicates

import LifetimeEfficiency.Configuration.Basic
import LifetimeEfficiency.Decimal.Text
import LifetimeEfficiency.Document.DecayBasis
import LifetimeEfficiency.Json.Reader
import LifetimeEfficiency.Numeric.Double
import LifetimeEfficiency.Parameter.Handles
import LifetimeEfficiency.Parameter.Text
import LifetimeEfficiency.Resolution.Words
import LifetimeEfficiency.Proofs.Spline.Smoothing
import LifetimeEfficiency.Proofs.Spline.HistogramFit
import LifetimeEfficiency.Proofs.Spline.Reproduction
import LifetimeEfficiency.Proofs.Spline.Smoothness
import LifetimeEfficiency.Proofs.Efficiency.Bounds
import LifetimeEfficiency.Proofs.Efficiency.Convolution
import LifetimeEfficiency.Proofs.Efficiency.Thresholds
import LifetimeEfficiency.Proofs.Resolution.Additivity
import LifetimeEfficiency.Proofs.Configuration.WellFormed
import LifetimeEfficiency.Proofs.Configuration.Sharing
import LifetimeEfficiency.Proofs.Parameter.Aliasing
import LifetimeEfficiency.Proofs.Resolution.Generation
import LifetimeEfficiency.Proofs.Resolution.Acceptance
import LifetimeEfficiency.Proofs.Smearing.Conjugation
import LifetimeEfficiency.Proofs.Resolution.Parity
import LifetimeEfficiency.Proofs.Efficiency.Constants
import LifetimeEfficiency.Proofs.Spline.Reflection
import LifetimeEfficiency.Proofs.Banded.Factors
import LifetimeEfficiency.Proofs.Banded.Symmetric
import LifetimeEfficiency.Proofs.Spline.UndefinedErrors
import LifetimeEfficiency.Proofs.Spline.Definiteness
import LifetimeEfficiency.Proofs.Spline.StraightLines
import LifetimeEfficiency.Proofs.Spline.BSpline
import LifetimeEfficiency.Proofs.Spline.Areas
import LifetimeEfficiency.Proofs.Spline.BasisIntegrals
import LifetimeEfficiency.Proofs.Smearing.Reflection
import LifetimeEfficiency.Proofs.Spline.HistogramSafety
import LifetimeEfficiency.Proofs.Smearing.Monomials
import LifetimeEfficiency.Proofs.Smearing.Segments
import LifetimeEfficiency.Proofs.Efficiency.Cutting
import LifetimeEfficiency.Proofs.Efficiency.RunningMaxima
import LifetimeEfficiency.Proofs.Resolution.Cancellation
import LifetimeEfficiency.Proofs.Spline.Locating
import LifetimeEfficiency.Proofs.Flaws

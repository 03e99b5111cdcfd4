import PulseNoise.Exchange.Sources
import PulseNoise.Processor
import PulseNoise.Proofs.Accumulation
import PulseNoise.Proofs.Additions
import PulseNoise.Proofs.Adjoint
import PulseNoise.Proofs.Amplitude
import PulseNoise.Proofs.Bounds
import PulseNoise.Proofs.Broadcast
import PulseNoise.Proofs.Collapse
import PulseNoise.Proofs.Construction
import PulseNoise.Proofs.Dephasing
import PulseNoise.Proofs.DescriptionText
import PulseNoise.Proofs.Draws
import PulseNoise.Proofs.Ending
import PulseNoise.Proofs.Formula
import PulseNoise.Proofs.Hull
import PulseNoise.Proofs.Independence
import PulseNoise.Proofs.Placement
import PulseNoise.Proofs.Replacement
import PulseNoise.Proofs.Resonance
import PulseNoise.Proofs.Shorthand
import PulseNoise.Proofs.Spacing
import PulseNoise.Proofs.Staging
import PulseNoise.Proofs.Stream
import PulseNoise.Proofs.TimeAxis
import PulseNoise.Proofs.WorkList

import Binaural.Arrays.JsonText
import Binaural.Arrays.RustSource
import Binaural.Arrays.Table
import Binaural.Arrays.Values
import Binaural.Artifact
import Binaural.Closeness
import Binaural.Command.Arguments
import Binaural.Command.Run
import Binaural.Compile
import Binaural.Complex
import Binaural.Config
import Binaural.Dataset
import Binaural.Decibel
import Binaural.Decimal.Binary
import Binaural.Decimal.Notation
import Binaural.Decimal.Numeral
import Binaural.Decimal.Shortest
import Binaural.Elevation
import Binaural.Emphasis
import Binaural.Equalizer
import Binaural.Failure
import Binaural.Files.NativePath
import Binaural.Files.Path
import Binaural.Files.Tree
import Binaural.Filter.Butterworth
import Binaural.Filter.Cascade
import Binaural.Filter.Section
import Binaural.Grid
import Binaural.Impulse
import Binaural.ImpulseTable
import Binaural.LeastFactor
import Binaural.Main
import Binaural.Primes
import Binaural.Proofs.Elevations
import Binaural.Recording.FileName
import Binaural.Recording.Load
import Binaural.SampleRate
import Binaural.Scalar
import Binaural.Settings
import Binaural.Spectrum
import Binaural.Text.DecimalDigit
import Binaural.Text.UpperCase
import Binaural.Transform.Fourier
import Binaural.Transform.MinimumPhase
import Binaural.Violation
import Binaural.Wave
import Binaural.Window
import Binaural.Yaml.Cursor
import Binaural.Yaml.Node
import Binaural.Yaml.Scalar
import Binaural.Yaml.Tag
import Binaural.Yaml.Token
import Binaural.Proofs.Reader
import Binaural.Proofs.Ascending
import Binaural.Proofs.Pipeline
import Binaural.Proofs.Lengths
import Binaural.Proofs.Streaming
import Binaural.Proofs.Refinement
import Binaural.Proofs.Demands
import Binaural.Proofs.Guarded
import Binaural.Proofs.NoPanic
import Binaural.Proofs.Binary64
import Binaural.Proofs.Designs
import Binaural.Proofs.Measurements
import Binaural.Proofs.Sinks
import Binaural.Proofs.NumeralText
import Binaural.Proofs.Capitals
import Binaural.Proofs.Statics
import Binaural.Proofs.Narrowing
import Binaural.Proofs.FiniteImpulses
import Binaural.Proofs.Representable
import Binaural.Proofs.Readback
import Binaural.Proofs.SourceReader
import Binaural.Proofs.JsonReader
import Binaural.Proofs.ObjectReader
import Binaural.Proofs.Placement
import Binaural.Proofs.Exact
import Binaural.Proofs.DiscreteFourier
import Binaural.Proofs.Delay
import Binaural.Proofs.FrequencyResponse
import Binaural.Proofs.Butterworth
import Binaural.Proofs.LeastOrder
import Binaural.Proofs.TransferFunction
import Binaural.Proofs.Stability
import Binaural.Proofs.Mirrored
import Binaural.Proofs.Inversion
import Binaural.Proofs.Reconstruction
import Binaural.Proofs.TransformPair
import Binaural.Proofs.HilbertTransform
import Binaural.Proofs.Cepstrum
import Binaural.Proofs.CircularConvolution
import Binaural.Proofs.KeptMagnitudes
import Binaural.Proofs.FileTree
import Binaural.Proofs.AllOrNothing
import Binaural.Proofs.IntegerSamples
import Binaural.Proofs.Listing
import Binaural.Proofs.Discovery
import Binaural.Proofs.Loading
import Binaural.Proofs.Bins
import Binaural.Proofs.Elementary
import Binaural.Proofs.Refusals
import Binaural.Proofs.FlatPower
import Binaural.Proofs.PreservedBins
import Binaural.Proofs.Remapping
import Binaural.Proofs.Rejections
import Binaural.Proofs.Ranks
import Binaural.Proofs.NativePaths
import Binaural.Proofs.RecordingNames
import Binaural.Proofs.EmphasisCurve
import Binaural.Proofs.Tapering
import Binaural.Proofs.PrimeTable
import Binaural.Proofs.PriorContents
import Binaural.Proofs.Progressions

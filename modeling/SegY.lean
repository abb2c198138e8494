import SegY.Main
import SegY.Reader
import SegY.Writer
import SegY.Proofs.Layout
import SegY.Proofs.Results
import SegY.Proofs.TraceCodec
import SegY.Proofs.FileCodec
import SegY.Proofs.BinaryRoundTrip
import SegY.Proofs.ScanTrail
import SegY.Proofs.ScanTiling
import SegY.Proofs.OpenedFiles
import SegY.Proofs.ReadRanges
import SegY.Proofs.ReadAgreement
import SegY.Proofs.WriterSteps
import SegY.Proofs.ReachableSettings
import SegY.Proofs.SettingCalls
import SegY.Proofs.ContainedCodec
import SegY.Proofs.ScanOutcome
import SegY.Proofs.MalformedFiles
import SegY.Proofs.ScaledHeaders
import SegY.Proofs.WriterRuns
import SegY.Proofs.WriterBookkeeping
import SegY.Proofs.SampleReading
import SegY.Proofs.StridedReading
import SegY.Proofs.SampleRanges
import SegY.Proofs.WrittenFiles
import SegY.Proofs.FailedAppends
import SegY.Proofs.FieldCodec
import SegY.Proofs.TraceBijection
import SegY.Proofs.RelocatedGeometry
import SegY.Proofs.ImposedGeometry
import SegY.Proofs.NearestFloat
import SegY.Proofs.Conversion
import SegY.Proofs.CoordinateCodec
import SegY.Proofs.LosslessSamples
import SegY.Proofs.CopiedFiles
import SegY.Proofs.TruncatedFiles
import SegY.Proofs.ScanModes
import SegY.Proofs.GrowingFiles
import SegY.Proofs.RefusedTraces
import SegY.Proofs.IntegerConversion
import SegY.Proofs.RoundedValues
import SegY.Proofs.HexadecimalFloats
import SegY.Proofs.UnreadableCoordinates
import SegY.Proofs.CreatedFiles
import SegY.Proofs.LosslessTable
import SegY.Proofs.ExactSamples
import SegY.Proofs.ReadableTraces
import SegY.Proofs.LabelRoundTrip
import SegY.Proofs.FieldExtremes
import SegY.Proofs.LineLookup
import SegY.Proofs.SettingFrames
import SegY.Proofs.IntegerScaling
import SegY.Proofs.ByteLoops
import SegY.Proofs.ReciprocalMultipliers
import SegY.Proofs.SampleOrder
import SegY.Proofs.CleanFailures
import SegY.Proofs.Numerals
import SegY.Proofs.BytePositions

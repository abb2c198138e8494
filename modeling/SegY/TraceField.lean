import SegY.FieldKind
import SegY.Settings

/-!
# The fields of a trace header

Most fields have a fixed place, and any bytes spell a value (`TraceField`).  The fourteen coordinates
(`Coordinate`) are stored in the coordinate format of the settings, and two of them lie where the settings
put them.  `TraceField.all` and `Coordinate.all` list them in the order of the standard header.
-/

namespace SegY

/-- A field of fixed place and fixed storage. -/
inductive TraceField where
  | sequenceInLine
  | sequenceInFile
  | fieldRecord
  | numberInFieldRecord
  | sourcePoint
  | ensemble
  | numberInEnsemble
  | traceId
  | summedTraces
  | stackedTraces
  | dataUse
  | elevationScalar
  | coordinateScalar
  | coordinateUnits
  | weatheringVelocity
  | subweatheringVelocity
  | sourceUphole
  | groupUphole
  | sourceStatic
  | groupStatic
  | totalStatic
  | lagA
  | lagB
  | delay
  | muteStart
  | muteEnd
  | samples
  | sampleInterval
  | gainType
  | gainConstant
  | initialGain
  | correlated
  | sweepFrequencyStart
  | sweepFrequencyEnd
  | sweepLength
  | sweepType
  | sweepTaperStart
  | sweepTaperEnd
  | taperType
  | aliasFilterFrequency
  | aliasFilterSlope
  | notchFilterFrequency
  | notchFilterSlope
  | lowCutFrequency
  | highCutFrequency
  | lowCutSlope
  | highCutSlope
  | year
  | dayOfYear
  | hour
  | minute
  | second
  | timeBasis
  | weightingFactor
  | geophoneGroupRoll
  | geophoneGroupFirst
  | geophoneGroupLast
  | gapSize
  | overTravel
  | shotPoint
  | shotPointScalar
  | valueUnit
  | transductionMantissa
  | transductionExponent
  | transductionUnit
  | deviceId
  | timeScalar
  | sourceType
  | sourceDirectionVertical
  | sourceDirectionCrossline
  | sourceDirectionInline
  | sourceMeasureMantissa
  | sourceMeasureExponent
  | sourceMeasureUnit
  deriving DecidableEq, Repr

/-- A coordinate. -/
inductive Coordinate where
  /-- The distance from the source to the receiver group. -/
  | distance
  | receiverElevation
  | sourceElevation
  | sourceDepth
  | receiverDatum
  | sourceDatum
  | sourceWaterDepth
  | groupWaterDepth
  | sourceX
  | sourceY
  | groupX
  | groupY
  /-- The ensemble's x, a geometry field. -/
  | cdpX
  /-- The ensemble's y, a geometry field. -/
  | cdpY
  deriving DecidableEq, Repr

namespace TraceField

/-- All fields, by position. -/
def all : List TraceField :=
  [sequenceInLine, sequenceInFile, fieldRecord, numberInFieldRecord, sourcePoint, ensemble,
    numberInEnsemble, traceId, summedTraces, stackedTraces, dataUse, elevationScalar,
    coordinateScalar, coordinateUnits, weatheringVelocity, subweatheringVelocity, sourceUphole,
    groupUphole, sourceStatic, groupStatic, totalStatic, lagA, lagB, delay, muteStart, muteEnd,
    samples, sampleInterval, gainType, gainConstant, initialGain, correlated, sweepFrequencyStart,
    sweepFrequencyEnd, sweepLength, sweepType, sweepTaperStart, sweepTaperEnd, taperType,
    aliasFilterFrequency, aliasFilterSlope, notchFilterFrequency, notchFilterSlope,
    lowCutFrequency, highCutFrequency, lowCutSlope, highCutSlope, year, dayOfYear, hour, minute,
    second, timeBasis, weightingFactor, geophoneGroupRoll, geophoneGroupFirst, geophoneGroupLast,
    gapSize, overTravel, shotPoint, shotPointScalar, valueUnit, transductionMantissa,
    transductionExponent, transductionUnit, deviceId, timeScalar, sourceType,
    sourceDirectionVertical, sourceDirectionCrossline, sourceDirectionInline,
    sourceMeasureMantissa, sourceMeasureExponent, sourceMeasureUnit]

/-- Where a field is, and what it holds. -/
def place : TraceField → FieldPlace
  | sequenceInLine => ⟨0, .int32⟩
  | sequenceInFile => ⟨4, .int32⟩
  | fieldRecord => ⟨8, .int32⟩
  | numberInFieldRecord => ⟨12, .int32⟩
  | sourcePoint => ⟨16, .int32⟩
  | ensemble => ⟨20, .int32⟩
  | numberInEnsemble => ⟨24, .int32⟩
  | traceId => ⟨28, .code .traceId⟩
  | summedTraces => ⟨30, .uint16⟩
  | stackedTraces => ⟨32, .uint16⟩
  | dataUse => ⟨34, .code .dataUse⟩
  | elevationScalar => ⟨68, .int16⟩
  | coordinateScalar => ⟨70, .int16⟩
  | coordinateUnits => ⟨88, .code .coordinateUnits⟩
  | weatheringVelocity => ⟨90, .uint16⟩
  | subweatheringVelocity => ⟨92, .uint16⟩
  | sourceUphole => ⟨94, .uint16⟩
  | groupUphole => ⟨96, .uint16⟩
  | sourceStatic => ⟨98, .uint16⟩
  | groupStatic => ⟨100, .uint16⟩
  | totalStatic => ⟨102, .uint16⟩
  | lagA => ⟨104, .uint16⟩
  | lagB => ⟨106, .uint16⟩
  | delay => ⟨108, .uint16⟩
  | muteStart => ⟨110, .uint16⟩
  | muteEnd => ⟨112, .uint16⟩
  | samples => ⟨114, .uint16⟩
  | sampleInterval => ⟨116, .uint16⟩
  | gainType => ⟨118, .code .gainType⟩
  | gainConstant => ⟨120, .uint16⟩
  | initialGain => ⟨122, .uint16⟩
  | correlated => ⟨124, .code .correlated⟩
  | sweepFrequencyStart => ⟨126, .uint16⟩
  | sweepFrequencyEnd => ⟨128, .uint16⟩
  | sweepLength => ⟨130, .uint16⟩
  | sweepType => ⟨132, .code .sweepType⟩
  | sweepTaperStart => ⟨134, .uint16⟩
  | sweepTaperEnd => ⟨136, .uint16⟩
  | taperType => ⟨138, .code .taperType⟩
  | aliasFilterFrequency => ⟨140, .uint16⟩
  | aliasFilterSlope => ⟨142, .uint16⟩
  | notchFilterFrequency => ⟨144, .uint16⟩
  | notchFilterSlope => ⟨146, .uint16⟩
  | lowCutFrequency => ⟨148, .uint16⟩
  | highCutFrequency => ⟨150, .uint16⟩
  | lowCutSlope => ⟨152, .uint16⟩
  | highCutSlope => ⟨154, .uint16⟩
  | year => ⟨156, .uint16⟩
  | dayOfYear => ⟨158, .uint16⟩
  | hour => ⟨160, .uint16⟩
  | minute => ⟨162, .uint16⟩
  | second => ⟨164, .uint16⟩
  | timeBasis => ⟨166, .code .timeBasis⟩
  | weightingFactor => ⟨168, .uint16⟩
  | geophoneGroupRoll => ⟨170, .uint16⟩
  | geophoneGroupFirst => ⟨172, .uint16⟩
  | geophoneGroupLast => ⟨174, .uint16⟩
  | gapSize => ⟨176, .uint16⟩
  | overTravel => ⟨178, .code .overTravel⟩
  | shotPoint => ⟨196, .int32⟩
  | shotPointScalar => ⟨200, .uint16⟩
  | valueUnit => ⟨202, .code .valueUnit⟩
  | transductionMantissa => ⟨204, .int32⟩
  | transductionExponent => ⟨208, .uint16⟩
  | transductionUnit => ⟨210, .code .valueUnit⟩
  | deviceId => ⟨212, .uint16⟩
  | timeScalar => ⟨214, .uint16⟩
  | sourceType => ⟨216, .code .sourceType⟩
  | sourceDirectionVertical => ⟨218, .uint16⟩
  | sourceDirectionCrossline => ⟨220, .uint16⟩
  | sourceDirectionInline => ⟨222, .uint16⟩
  | sourceMeasureMantissa => ⟨224, .int32⟩
  | sourceMeasureExponent => ⟨228, .uint16⟩
  | sourceMeasureUnit => ⟨230, .code .sourceUnit⟩

/-- The position of the first byte. -/
def start (f : TraceField) : Nat := f.place.start

/-- What the bytes hold. -/
def kind (f : TraceField) : FieldKind := f.place.kind

/-- The values of a field. -/
abbrev Value (f : TraceField) : Type := f.kind.Value

theorem mem_all (f : TraceField) : f ∈ all := by
  cases f <;> decide

end TraceField

namespace Coordinate

/-- All fourteen coordinates, by position in the standard header. -/
def all : List Coordinate :=
  [distance, receiverElevation, sourceElevation, sourceDepth, receiverDatum, sourceDatum,
    sourceWaterDepth, groupWaterDepth, sourceX, sourceY, groupX, groupY, cdpX, cdpY]

/-- The position of the first byte. -/
def start (s : Settings) : Coordinate → Nat
  | distance => 36
  | receiverElevation => 40
  | sourceElevation => 44
  | sourceDepth => 48
  | receiverDatum => 52
  | sourceDatum => 56
  | sourceWaterDepth => 60
  | groupWaterDepth => 64
  | sourceX => 72
  | sourceY => 76
  | groupX => 80
  | groupY => 84
  | cdpX => s.byte .cdpX
  | cdpY => s.byte .cdpY

theorem mem_all (c : Coordinate) : c ∈ all := by
  cases c <;> decide

end Coordinate

end SegY

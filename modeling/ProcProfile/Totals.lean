import ProcProfile.Fault
import ProcProfile.Procedure

/-!
# Call statistics

For each procedure the number of its calls, the calls that ended with an error, and the sum, least and
greatest of their times are kept, together with the sum of the squared deviations from the mean.  The
latter is brought up to date with each call, so no times are kept.

Main definitions: `deviationStep`, `CallStats`, `CallStats.record`, `UnitSummary`.
-/

namespace ProcProfile

/-- The sum of squared deviations after the `n`-th value `x`, from that before it and the sum of all
`n` values. -/
def deviationStep {α : Type} [Add α] [Sub α] [Mul α] [Div α] [OfNat α 1] (sumSq n x total : α) : α :=
  sumSq + (x * n - total) * (x * n - total) / (n * (n - 1))

/-- Whether the bits of a double stand for no number. -/
def isNaNBits (bits : UInt64) : Bool := 0x7ff0000000000000 < bits &&& 0x7fffffffffffffff

/-- `deviationStep` on doubles, from and to the bits of the sum.  A sum that is no number stays what it
is, except that it is marked as quiet. -/
def deviationBits (sumSqBits n x total : UInt64) : UInt64 :=
  if isNaNBits sumSqBits then sumSqBits ||| 0x0008000000000000
  else (deviationStep (Float.ofBits sumSqBits) n.toFloat x.toFloat total.toFloat).toBits

/-- The call statistics of one procedure as they are stored. -/
structure CallStats where
  execCount : Counter
  errorCount : Counter
  totalTime : Counter
  /-- The sum of squared deviations, as the bits of a double. -/
  sumSqBits : UInt64
  minTime : Counter
  maxTime : Counter
  deriving DecidableEq, Repr, Inhabited

namespace CallStats

/-- The statistics of a procedure without calls. -/
def zero : CallStats := ⟨0, 0, 0, 0, 0, 0⟩

/-- Counts a call. -/
def record (s : CallStats) (elapsed : Counter) (isError : Bool) : Except Fault CallStats := do
  let execCount ← Counter.add s.execCount 1
  let totalTime ← Counter.add s.totalTime elapsed
  let errorCount ← if isError then Counter.add s.errorCount 1 else pure s.errorCount
  if 1 < execCount then
    return { execCount := execCount
             errorCount := errorCount
             totalTime := totalTime
             sumSqBits := deviationBits s.sumSqBits execCount elapsed totalTime
             minTime := min s.minTime elapsed
             maxTime := max s.maxTime elapsed }
  else
    return { execCount := execCount
             errorCount := errorCount
             totalTime := totalTime
             sumSqBits := 0
             minTime := elapsed
             maxTime := elapsed }

/-- The mean time of a call. -/
def mean (s : CallStats) : Float :=
  if s.execCount = 0 then 0.0 else s.totalTime.toFloat / s.execCount.toFloat

/-- The standard deviation of the time of a call. -/
def stddev (s : CallStats) : Float :=
  if s.execCount = 0 then 0.0 else (Float.ofBits s.sumSqBits / s.execCount.toFloat).sqrt

end CallStats

/-- The call statistics of one procedure as they are reported. -/
structure UnitSummary where
  unitId : UInt32
  ownerDb : UInt32
  execCount : Counter
  errorCount : Counter
  totalTime : Counter
  meanTime : Float
  stddevTime : Float
  minTime : Counter
  maxTime : Counter

/-- The report of stored statistics. -/
def CallStats.summary (s : CallStats) (key : UnitKey) : UnitSummary where
  unitId := key.unitId
  ownerDb := key.ownerDb
  execCount := s.execCount
  errorCount := s.errorCount
  totalTime := s.totalTime
  meanTime := s.mean
  stddevTime := s.stddev
  minTime := s.minTime
  maxTime := s.maxTime

end ProcProfile

import Udk.Runs
import Udk.Variable.Services

/-!
# The driver as a transition system

The driver changes the non-volatile store in three ways: by an update, by recording
an error flag, and by a reclaim.  Between these steps the rest of the machine may
change, and at any time the power may be cut: the driver then starts again from a
flash image that some store write has left.

Every entry point of the driver is a run of such steps.  An update that flushes HOB
variables is the update itself followed by one update for each of them.
-/

namespace Udk
namespace Variable

/-- One step of the driver. -/
inductive Op where
  /-- `UpdateVariable` up to its last action, for the track `FindVariable` returns. -/
  | update (req : UpdateRequest) (ignoreRtCheck : Bool)
  | recordVarErrorFlag (flag : UInt8)
  | reclaim
  /-- HOB, volatile store, phase of the boot or outcome of later calls change. -/
  | environment
  /-- The power is cut, and the driver starts from an image left in flash. -/
  | restart

/-- The non-volatile store and its two totals agree. -/
structure SameStore (d d' : Driver) : Prop where
  flash : d'.flash = d.flash
  cache : d'.mNvVariableCache = d.mNvVariableCache
  last : d'.nonVolatileLastVariableOffset = d.nonVolatileLastVariableOffset
  common : d'.commonVariableTotalSize = d.commonVariableTotalSize
  hwErr : d'.hwErrVariableTotalSize = d.hwErrVariableTotalSize
  history : d'.history = d.history

/-- The track an update works with. -/
def trackOf (P : Platform) (d : Driver) (req : UpdateRequest) (ignoreRtCheck : Bool) :
    PointerTrack :=
  findVariable P d req.variableName req.vendorGuid ignoreRtCheck

/-- The steps. -/
inductive Step (P : Platform) : Driver → Op → Driver → Prop
  | update (d : Driver) (req : UpdateRequest) (ignoreRtCheck : Bool) :
      Step P d (.update req ignoreRtCheck)
        (updateVariableBody P d req (trackOf P d req ignoreRtCheck)).driver
  | recordVarErrorFlag (d : Driver) (flag : UInt8) :
      Step P d (.recordVarErrorFlag flag) (recordVarErrorFlag P d flag)
  | reclaim (d : Driver) : Step P d .reclaim (reclaim P d false none none none).2
  | environment (d d' : Driver) (h : SameStore d d') : Step P d .environment d'
  | restart (d : Driver) (image volatileStore : Bytes) (hob : Option Bytes) (faults : Faults)
      (h : image ∈ d.flash :: d.history) (hlen : image.length = d.flash.length) :
      Step P d .restart (powerOn P image volatileStore hob faults)

/-- Runs of the driver. -/
abbrev DriverRun (P : Platform) : Driver → List (Driver × Op) → Driver → Prop :=
  Run (Step P)

section Services

variable (P : Platform)

end Services

end Variable
end Udk

import RegionPool.Raw.Ledger
import RegionPool.Raw.Request

/-!
# What can be observed from outside

Everything a pool does to the world around it is an event, and events keep their order: requests to
a raw allocator and buffers given back, cleanup actions as they run, files closed and removed, and
entries of the log. A log entry is a constructor (`LogEntry`); its level, message and fields are
derived from it.
-/

namespace RegionPool

/-! ### The log -/

/-- How detailed a log entry is; `error` is the least detailed. -/
inductive LogLevel where
  | error
  | debug
  | trace
  deriving Repr, DecidableEq

/-- Whether entries of this level are shown when `shown` is the most detailed level asked for. -/
def LogLevel.isWithin : LogLevel → LogLevel → Bool
  | .error, _ => true
  | .debug, shown => shown != .error
  | .trace, shown => shown == .trace

/-- The value of a field of a log entry. -/
inductive FieldValue where
  | number (n : Nat)
  | flag (b : Bool)
  | text (s : String)
  deriving Repr, DecidableEq

/-- An entry of the log. Entries of a pool start with its label. -/
inductive LogEntry where
  | rawAllocate (operation : String) (id : BufferId) (size align : Nat)
  | rawAllocationFailed (operation : String) (size align : Nat) (reason : String)
  | rawFree (id : BufferId) (size : Nat)
  | createPool (label id : String) (size max : Nat)
  | growBlockChain (label : String) (blocks current request : Nat)
  | largeAllocation (label : String) (id : BufferId) (size : Nat)
  | freeLarge (label : String) (id : BufferId)
  | addCleanup (label : String) (index dataSize : Nat)
  | resetPool (label : String) (generation : Nat)
  | destroyPool (label id : String)
  | runCleanup (label : String)
  | freeBlock (label : String) (unused : Nat)
  | arrayRelocated (source target : Nat)
  | arrayDestroyed (reclaimed : Nat)
  | listPartAppended (parts : Nat)
  | fileCleanup (descriptor : Nat) (path : String) (delete : Bool)
  | deleteFailed (descriptor : Nat) (path reason : String)
  deriving Repr, DecidableEq

namespace LogEntry

/-- Refusals and failed deletions are errors; what a pool does as a whole is for debugging; single
allocations and what containers do is for tracing. -/
def level : LogEntry → LogLevel
  | rawAllocationFailed .. | deleteFailed .. => .error
  | rawAllocate .. | rawFree .. | largeAllocation .. | arrayRelocated .. | arrayDestroyed ..
  | listPartAppended .. => .trace
  | _ => .debug

/-- The wording of an entry. -/
def message : LogEntry → String
  | rawAllocate .. => "raw allocate"
  | rawAllocationFailed .. => "raw allocation failed"
  | rawFree .. => "raw free"
  | createPool .. => "create pool"
  | growBlockChain .. => "grow block chain"
  | largeAllocation .. => "large allocation"
  | freeLarge .. => "free large"
  | addCleanup .. => "add cleanup"
  | resetPool .. => "reset pool"
  | destroyPool .. => "destroy pool"
  | runCleanup .. => "run cleanup"
  | freeBlock .. => "free block"
  | arrayRelocated .. => "array relocated"
  | arrayDestroyed .. => "array destroyed"
  | listPartAppended .. => "list part appended"
  | fileCleanup .. => "file cleanup"
  | deleteFailed .. => "delete failed"

/-- The named values of an entry. -/
def fields : LogEntry → List (String × FieldValue)
  | rawAllocate operation id size align =>
    [("op", .text operation), ("id", .text id.text), ("size", .number size),
      ("align", .number align)]
  | rawAllocationFailed operation size align reason =>
    [("op", .text operation), ("size", .number size), ("align", .number align),
      ("err", .text reason)]
  | rawFree id size => [("id", .text id.text), ("size", .number size)]
  | createPool label id size max =>
    [("pool", .text label), ("id", .text id), ("size", .number size), ("max", .number max)]
  | growBlockChain label blocks current request =>
    [("pool", .text label), ("blocks", .number blocks), ("current", .number current),
      ("request", .number request)]
  | largeAllocation label id size =>
    [("pool", .text label), ("id", .text id.text), ("size", .number size)]
  | freeLarge label id => [("pool", .text label), ("id", .text id.text)]
  | addCleanup label index dataSize =>
    [("pool", .text label), ("index", .number index), ("data_size", .number dataSize)]
  | resetPool label generation => [("pool", .text label), ("generation", .number generation)]
  | destroyPool label id => [("pool", .text label), ("id", .text id)]
  | runCleanup label => [("pool", .text label)]
  | freeBlock label unused => [("pool", .text label), ("unused", .number unused)]
  | arrayRelocated source target => [("from", .number source), ("to", .number target)]
  | arrayDestroyed reclaimed => [("reclaimed", .number reclaimed)]
  | listPartAppended parts => [("parts", .number parts)]
  | fileCleanup descriptor path delete =>
    [("fd", .number descriptor), ("path", .text path), ("delete", .flag delete)]
  | deleteFailed descriptor path reason =>
    [("fd", .number descriptor), ("path", .text path), ("err", .text reason)]

end LogEntry

/-! ### Events -/

/-- An event. -/
inductive Event where
  /-- A request to a raw allocator, and the buffer it granted, if it did. -/
  | requested (request : Request) (granted : Option BufferId)
  /-- A buffer is given back to a raw allocator. -/
  | freed (id : BufferId)
  /-- A cleanup action of the caller's runs. -/
  | ranCustom (tag : String)
  /-- A cleanup action of the caller's runs and is given these bytes. -/
  | ranWithData (tag : String) (data : Bytes)
  /-- A descriptor is closed. -/
  | closed (descriptor : Nat)
  /-- A path is removed. -/
  | removed (path : String)
  /-- An entry of the log. -/
  | logged (entry : LogEntry)
  deriving Repr, DecidableEq

namespace Event

/-- Whether the event is a request to a raw allocator or gives a buffer back to one. -/
def isRawCall : Event → Bool
  | .requested .. | .freed .. => true
  | _ => false

end Event

end RegionPool

/-!
# Kinds of Items

Each item has one of a fixed number of kinds, and an encoding accepts items of
one kind. Some items are codes: single bytes whose meaning is listed in a
table. A code outside its table is kept and called unknown.

## Main definitions

* `CodeTable`: The tables of named codes.
* `Kind`: The kinds of items.
* `Kind.typeName`: The name under which a kind is reported.
-/

namespace KlvMetadata

/-- The tables of named codes. -/
inductive CodeTable where
  | icingDetected
  | sensorFovName
  | operationalMode
  | platformStatus
  | sensorControlMode
  deriving DecidableEq, Repr

namespace CodeTable

/-- Name of the table. -/
def name : CodeTable → String
  | icingDetected => "IcingDetected"
  | sensorFovName => "SensorFovName"
  | operationalMode => "OperationalMode"
  | platformStatus => "PlatformStatus"
  | sensorControlMode => "SensorControlMode"

/-- Identifier and text of each code, starting with code zero. -/
def entries : CodeTable → List (String × String)
  | icingDetected =>
    [("DetectorOff", "Detector Off"),
     ("NoIcingDetected", "No Icing Detected"),
     ("IcingDetected", "Icing Detected")]
  | sensorFovName =>
    [("Ultranarrow", "Ultranarrow"),
     ("Narrow", "Narrow"),
     ("Medium", "Medium"),
     ("Wide", "Wide"),
     ("Ultrawide", "Ultrawide"),
     ("NarrowMedium", "Narrow Medium"),
     ("Ultranarrow2x", "2x Ultranarrow"),
     ("Ultranarrow4x", "4x Ultranarrow"),
     ("ContinuousZoom", "Continuous Zoom")]
  | operationalMode =>
    [("Other", "Other"),
     ("Operational", "Operational"),
     ("Training", "Training"),
     ("Exercise", "Exercise"),
     ("Maintenance", "Maintenance"),
     ("Test", "Test")]
  | platformStatus =>
    [("Active", "Active"),
     ("Preflight", "Preflight"),
     ("PreflightTaxiing", "Preflight - Taxiing"),
     ("RunUp", "Run-up"),
     ("TakeOff", "Take-off"),
     ("Ingress", "Ingress"),
     ("ManualOperation", "Manual Operation"),
     ("AutomatedOrbit", "Automated Orbit"),
     ("Transitioning", "Transitioning"),
     ("Egress", "Egress"),
     ("Landing", "Landing"),
     ("LandingTaxiing", "Landing - Taxiing"),
     ("LandedParked", "Landed - Parked")]
  | sensorControlMode =>
    [("Off", "Off"),
     ("HomePosition", "Home Position"),
     ("Uncontrolled", "Uncontrolled"),
     ("ManualControl", "Manual Control"),
     ("Calibrating", "Calibrating"),
     ("AutoHoldingPosition", "Auto - Holding Position"),
     ("AutoTracking", "Auto - Tracking")]

/-- Text of every code that has no entry. -/
def unknownText : CodeTable → String
  | icingDetected => "Unknown Icing Detection Status"
  | sensorFovName => "Unknown Sensor FOV Name"
  | operationalMode => "Unknown Operational Mode"
  | platformStatus => "Unknown Platform Status"
  | sensorControlMode => "Unknown Sensor Control Mode"

/-- Text of a code. -/
def text (table : CodeTable) (code : UInt8) : String :=
  match table.entries[code.toNat]? with
  | some (_, text) => text
  | none => table.unknownText

/-- Identifier of a code; one without an entry shows its number. -/
def identifier (table : CodeTable) (code : UInt8) : String :=
  match table.entries[code.toNat]? with
  | some (identifier, _) => identifier
  | none => s!"Unknown({code})"

/-- The code for a number; numbers past a byte share the last one. -/
def codeOf (n : UInt64) : UInt8 := if n < 256 then n.toUInt8 else 255

/-- Place of the table among the tables. -/
def rank : CodeTable → Nat
  | icingDetected => 0
  | sensorFovName => 1
  | operationalMode => 2
  | platformStatus => 3
  | sensorControlMode => 4

end CodeTable

/-- The kinds of items. -/
inductive Kind where
  | u8
  | u16
  | u32
  | u64
  | i8
  | i16
  | i32
  | i64
  | bool
  | text
  | f64
  | f32
  | blob
  | key
  | command
  | frameRate
  | code (table : CodeTable)
  | localSet
  | universalSet
  | packet
  deriving DecidableEq, Repr

namespace Kind

/-- Place of the kind in the order of values. -/
def rank : Kind → Nat
  | u8 => 0
  | u16 => 1
  | u32 => 2
  | u64 => 3
  | i8 => 4
  | i16 => 5
  | i32 => 6
  | i64 => 7
  | bool => 8
  | text => 9
  | f64 => 10
  | f32 => 11
  | blob => 12
  | key => 13
  | command => 14
  | frameRate => 15
  | localSet => 16
  | universalSet => 17
  | packet => 18
  | code table => 19 + table.rank

/-- The name under which the kind is reported. -/
def typeName : Kind → String
  | u8 => "u8"
  | u16 => "u16"
  | u32 => "u32"
  | u64 => "u64"
  | i8 => "i8"
  | i16 => "i16"
  | i32 => "i32"
  | i64 => "i64"
  | bool => "bool"
  | text => "alloc::string::String"
  | f64 => "f64"
  | f32 => "f32"
  | blob => "klv::core::blob::Blob"
  | key => "klv::core::key::UdsKey"
  | command => "klv::st0601::command::ControlCommand"
  | frameRate => "klv::st0601::frame_rate::FrameRate"
  | code table => "klv::st0601::enums::" ++ table.name
  | localSet => "klv::set::klv_set::KlvSet<u64>"
  | universalSet => "klv::set::klv_set::KlvSet<klv::core::key::UdsKey>"
  | packet => "klv::set::packet::Packet"

/-- The reported name of what a value holds; an empty value has its own. -/
def nameOf : Option Kind → String
  | some kind => kind.typeName
  | none => "(empty)"

end Kind

end KlvMetadata

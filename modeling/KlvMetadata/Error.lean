import KlvMetadata.Floating.Decimal
import KlvMetadata.Standard
import KlvMetadata.Value.Kind

/-!
# Errors

An error is a cause with the numbers a reader of the message wants to see.
Causes fall into families, because callers treat families alike: bytes that
cannot be parsed and packets that break a framing rule are faults of the data,
while a value of the wrong kind, a value out of range or a buffer too small is
a fault of the caller. The wording of every cause stands in one place.

## Main definitions

* `ParseFault`: Bytes that spell nothing.
* `FramingFault`: Packets that break a rule of their standard.
* `ValueFault`: Values that an encoding cannot hold.
* `Error`: All families.
* `Error.message`: The wording.
* `Error.isDataError`: Whether the data is to blame.
-/

namespace KlvMetadata

/-- Bytes that spell nothing. -/
inductive ParseFault where
  | underflow (needed available : Nat)
  | emptyInteger
  | unsignedOverflow (length : Nat)
  | signedOverflow (length : Nat)
  | berMissing
  | berIndefinite
  | berTruncated (declared available : Nat)
  | berOidOverflow
  | berOidTruncated
  | floatLength (length : Nat)
  | invalidText (fault : Utf8.Fault)
  | keyText (text : String) (fault : UniversalKey.TextFault)
  | fieldLength (encoding : String) (required given : Nat)
  | unreadBytes (encoding : String) (left length : Nat)
  | imapLength (length : Nat)
  | entryOverrun (key : String) (declared remaining : Nat)
  | commandId (id : UInt64)
  | commandText
  | frameRateTerm (term : UInt64)
  deriving DecidableEq, Repr

/-- Packets that break a rule of their standard. -/
inductive FramingFault where
  | commandTimestamp (left : Nat)
  | setWithoutTimestamp
  | timestampMissing
  | timestampNotFirst
  | checksumMissing
  | checksumHeaderMissing
  | standardWithoutKey (standard : Standard)
  | standardWithoutFormat (standard : Standard)
  | packetWithoutSet
  | packetWithoutTimestamp
  deriving DecidableEq, Repr

/-- Values that an encoding cannot hold, and schemas that contradict
    themselves. -/
inductive ValueFault where
  | unsignedWidth (value : UInt64) (length : Nat)
  | signedWidth (value : Int64) (length : Nat)
  | floatLength (length : Nat)
  | outsideRange (encoding : String) (value minimum maximum : Binary64)
  | duplicateTag (tag : UInt64)
  | duplicateKey (key : UniversalKey)
  deriving DecidableEq, Repr

/-- Everything that can go wrong. -/
inductive Error where
  | parse (fault : ParseFault)
  | framing (fault : FramingFault)
  | value (fault : ValueFault)
  | bufferOverflow (needed available : Nat)
  | checksumMismatch (expected computed : UInt16)
  | typeMismatch (expected : Kind) (actual : Option Kind)
  /-- A file that cannot be read or written, and why. -/
  | file (reason : String)
  deriving DecidableEq, Repr

def ParseFault.message : ParseFault → String
  | underflow needed available => s!"read of {needed} bytes overruns buffer of {available} bytes"
  | emptyInteger => "integer of zero length"
  | unsignedOverflow length => s!"{length}-byte unsigned integer overflows 64 bits"
  | signedOverflow length => s!"{length}-byte signed integer overflows 64 bits"
  | berMissing => "BER field missing"
  | berIndefinite => "indefinite BER length is not supported"
  | berTruncated declared available =>
    s!"BER long form declares {declared} bytes, {available} available"
  | berOidOverflow => "BER-OID value overflows 64 bits"
  | berOidTruncated => "BER-OID value truncated"
  | floatLength length => s!"float must be 4 or 8 bytes, not {length}"
  | invalidText fault => s!"invalid UTF-8 in string: {fault.message}"
  | keyText text (.digits reason) => s!"bad key '{text}': {reason}"
  | keyText text .length => s!"key '{text}' is not 16 bytes"
  | fieldLength encoding required given => s!"{encoding} requires {required} bytes, given {given}"
  | unreadBytes encoding left length => s!"{encoding} left {left} of {length} bytes unread"
  | imapLength length => s!"IMAP length must be 1 to 8 bytes, not {length}"
  | entryOverrun key declared remaining =>
    s!"entry {key} declares {declared} bytes, {remaining} remain in set"
  | commandId id => s!"control command id {id} exceeds 16 bits"
  | commandText => "control command string overruns item"
  | frameRateTerm term => s!"frame rate term {term} exceeds 32 bits"

def FramingFault.message : FramingFault → String
  | commandTimestamp left =>
    s!"{left} bytes left over for control command timestamp; expected 0 or 8"
  | setWithoutTimestamp => "ST 0601 set has no precision timestamp"
  | timestampMissing => "packet too small; timestamp is not present"
  | timestampNotFirst => "timestamp not present at beginning of packet"
  | checksumMissing => "packet too small; checksum is not present"
  | checksumHeaderMissing => "checksum header not present"
  | standardWithoutKey standard => s!"cannot encode packet of {standard.name}"
  | standardWithoutFormat standard => s!"no format registered for {standard.name}"
  | packetWithoutSet => "ST 0601 packet holds no local set"
  | packetWithoutTimestamp => "ST 0601 packet has no precision timestamp"

def ValueFault.message : ValueFault → String
  | unsignedWidth value length => s!"unsigned integer {value} does not fit in {length} bytes"
  | signedWidth value length => s!"signed integer {value} does not fit in {length} bytes"
  | floatLength length => s!"float must be 4 or 8 bytes, not {length}"
  | outsideRange encoding value minimum maximum =>
    let bounds := minimum.plainText ++ ", " ++ maximum.plainText
    s!"{value.plainText} outside {encoding} range [{bounds}]"
  | duplicateTag tag => s!"duplicate tag {tag} in schema"
  | duplicateKey key => s!"duplicate universal key {key.text Hex.codec} in schema"

namespace Error

/-- A sixteen-bit number as four lower-case digits after `0x`. -/
def shortHex (n : UInt16) : String :=
  let digits := Nat.toDigits 16 n.toNat
  "0x" ++ String.ofList (List.replicate (4 - digits.length) '0' ++ digits)

def message : Error → String
  | parse fault => "Parse error: " ++ fault.message
  | framing fault => "Format error: " ++ fault.message
  | value fault => "Invalid value: " ++ fault.message
  | bufferOverflow needed available =>
    s!"Buffer overflow: {needed} bytes required, {available} available"
  | checksumMismatch expected computed =>
    s!"Checksum mismatch: packet carries {shortHex expected}, computed {shortHex computed}"
  | typeMismatch expected actual =>
    s!"Type mismatch: expected {expected.typeName}, got {Kind.nameOf actual}"
  | file reason => "I/O error: " ++ reason

/-- True if the data is to blame rather than the caller. -/
def isDataError : Error → Bool
  | parse _ | framing _ | checksumMismatch _ _ => true
  | value _ | bufferOverflow _ _ | typeMismatch _ _ | file _ => false

/-- There is no such file. -/
def missingFile : Error := .file "No such file or directory (os error 2)"

end Error

end KlvMetadata

import KlvMetadata.UniversalKey

/-!
# Standards

The standard of a packet is known from its key. One standard is understood;
packets with any other key are of the unknown one.

## Main definitions

* `Standard`: The standards.
* `Standard.ofKey`, `Standard.key?`: The standard of a key, and its key.
-/

namespace KlvMetadata

/-- The standards a packet can belong to. -/
inductive Standard where
  | unknown
  /-- The UAS datalink local set. -/
  | st0601
  deriving DecidableEq, Repr

namespace Standard

/-- Key of the UAS datalink local set. -/
def st0601Key : UniversalKey := .ofHalves 0x060E2B34020B0101 0x0E01030101000000

/-- The standard whose packets carry this key. -/
def ofKey (key : UniversalKey) : Standard :=
  if key = st0601Key then .st0601 else .unknown

/-- The key of the standard's packets, if it has one. -/
def key? : Standard → Option UniversalKey
  | .unknown => none
  | .st0601 => some st0601Key

def name : Standard → String
  | .unknown => "Unknown Standard"
  | .st0601 => "MISB ST 0601"

/-- Place of the standard when tracks are listed. -/
def rank : Standard → Nat
  | .unknown => 0
  | .st0601 => 1

end Standard

end KlvMetadata

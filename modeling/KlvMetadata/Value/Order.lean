import KlvMetadata.Value.Item

/-!
# Order of Values

Values are ordered so that collections of them can be sorted and compared:
nothing first, then by kind, then by contents. The order of the entries in a
set does not count. Sets are compared as if both were sorted, at every depth.

Comparing values directly would sort again at each level. Instead a value is
turned into its sort key, a tree of numbers in which the entries of every set
are already in order, and all comparison is comparison of trees. Two values
are equal when their keys are.

## Main definitions

* `SortKey`: Trees of numbers, compared from the left.
* `Value.sortKey`: The key of a value.
* `Value.compare`: The order of values.
* `Value.sorted`: A stable sort.
-/

namespace KlvMetadata

/-- Trees of numbers. -/
inductive SortKey where
  | number (n : Int)
  | sequence (keys : List SortKey)

namespace SortKey

mutual

/-- Numbers before sequences, and sequences from the left. -/
def compare : SortKey → SortKey → Ordering
  | .number m, .number n => Ord.compare m n
  | .number _, .sequence _ => .lt
  | .sequence _, .number _ => .gt
  | .sequence xs, .sequence ys => compareAll xs ys

/-- The first difference decides; a sequence comes before its continuations. -/
def compareAll : List SortKey → List SortKey → Ordering
  | [], [] => .eq
  | [], _ :: _ => .lt
  | _ :: _, [] => .gt
  | x :: xs, y :: ys => (compare x y).then (compareAll xs ys)

end

/-- True unless `y` comes first. -/
def precedes (x y : SortKey) : Bool := compare x y != .gt

/-- The key of a whole number. -/
def ofNat (n : Nat) : SortKey := .number n

/-- The key of a byte string. -/
def ofBytes (bytes : Bytes) : SortKey := .sequence (bytes.map fun b => ofNat b.toNat)

/-- The key of a text, which is the key of its bytes. -/
def ofText (s : String) : SortKey := ofBytes (Utf8.encode s)

/-- The key of a collection whose order does not count. -/
def ofUnordered (keys : List SortKey) : SortKey := .sequence (keys.mergeSort precedes)

end SortKey

/-- An absent time comes before any time. -/
def ControlCommand.sortKey (c : ControlCommand) : SortKey :=
  .sequence [.ofNat c.id.toNat, .ofText c.body,
    .sequence (c.timestamp.toList.map fun t => .ofNat t.toNat)]

def FrameRate.sortKey (r : FrameRate) : SortKey :=
  .sequence [.ofNat r.numerator.toNat, .ofNat r.denominator.toNat]

def Packet.sortKey (p : Packet) : SortKey :=
  .sequence [.ofBytes p.key.bytes, .ofBytes p.lengthField, .ofBytes p.payload]

mutual

/-- The key of a value; the hint is left out. -/
def Value.sortKey : Value → SortKey
  | ⟨none, _⟩ => .sequence []
  | ⟨some item, _⟩ => .sequence [.ofNat item.kind.rank, item.sortKey]

/-- The key of an item among those of its kind. -/
def Item.sortKey : Item → SortKey
  | .u8 n => .ofNat n.toNat
  | .u16 n => .ofNat n.toNat
  | .u32 n => .ofNat n.toNat
  | .u64 n => .ofNat n.toNat
  | .i8 n => .number n.toInt
  | .i16 n => .number n.toInt
  | .i32 n => .number n.toInt
  | .i64 n => .number n.toInt
  | .bool b => .ofNat b.toNat
  | .text s => .ofText s
  | .f64 x => .number x.totalRank
  | .f32 x => .number x.totalRank
  | .blob bytes => .ofBytes bytes
  | .key k => .ofBytes k.bytes
  | .command c => c.sortKey
  | .frameRate r => r.sortKey
  | .code _ code => .ofNat code.toNat
  | .localSet entries => .ofUnordered (localSortKeys entries)
  | .universalSet entries => .ofUnordered (universalSortKeys entries)
  | .packet p => p.sortKey

/-- The keys of a local set's entries. -/
def localSortKeys : List (UInt64 × Value) → List SortKey
  | [] => []
  | (tag, v) :: entries => .sequence [.ofNat tag.toNat, v.sortKey] :: localSortKeys entries

/-- The keys of a universal set's entries. -/
def universalSortKeys : List (UniversalKey × Value) → List SortKey
  | [] => []
  | (key, v) :: entries => .sequence [.ofBytes key.bytes, v.sortKey] :: universalSortKeys entries

end

namespace Value

/-- The order of values. -/
def compare (v w : Value) : Ordering := v.sortKey.compare w.sortKey

instance : Ord Value := ⟨compare⟩

instance : BEq Value := ⟨fun v w => v.compare w == .eq⟩

/-- The values in order; equal ones stay as they were. -/
def sorted (values : List Value) : List Value :=
  values.mergeSort fun v w => v.sortKey.precedes w.sortKey

/-- One value for each run of equal ones, the first. -/
def withoutRepeats : List Value → List Value
  | [] => []
  | v :: values =>
    match withoutRepeats values with
    | [] => [v]
    | w :: rest => if v == w then v :: rest else v :: w :: rest

end Value

end KlvMetadata

import Mathlib.Data.Finset.Card
import KlvMetadata.Proofs.Value.Unordered

/-!
# Comparing Values by Their Contents

The order of values is defined by itself. Sets are sorted before they are compared, and
what they are sorted by is the order of entries, whose values may be sets again. Here it
is put down in this way, by recursion on the size of values, and for any order of kinds,
since which kind comes first is nobody's concern.

To sort by an order that is still to be shown to be one is not as circular as it seems.
Kinds are finitely many, so an order of kinds is one of places, and with the places as
numbers every value has a sort key. Comparing values is comparing their keys: for smaller
values this is known by induction, and for sets it is then a matter of keys alone. Keys
are ordered linearly, and all laws follow.

A key has neither hints nor places of entries in it. So changing these at any depth leaves
the key as it is, and with it every comparison to any other value.

## Main definitions

* `Kind.placeIn`: The place of a kind in an order of kinds.
* `compareEntry`, `compareSets`: Comparing sets by an order of values.
* `Value.compareBy`: Comparing values by an order of kinds.
* `Value.sortKeyBy`: The sort key for places of kinds.
* `Value.Rearranged`: Values that differ in hints and in places of entries.
* `Value.OrderLaws`: What is asked of an order of values.

## Theorems

* `Kind.compare_placeIn`: Any order of kinds is that of places.
* `compareUnordered_entries_eq_iff`: Sets are equal if their entries match.
* `Value.compareBy_eq_compare`: Comparing values is comparing their keys.
* `Value.compareBy_localSet`, `compareBy_universalSet`: How sets are compared.
* `Value.Rearranged.sortKeyBy_eq`: Keys do not show how a value is arranged.
* `Value.orderLaws_compareBy`: An order of kinds makes an order of values.
* `Value.order_sees_contents_only`: The same of the order that runs.
-/

namespace KlvMetadata

namespace Kind

/-- All kinds. -/
def all : List Kind :=
  [u8, u16, u32, u64, i8, i16, i32, i64, bool, text, f64, f32, blob, key, command, frameRate,
    code .icingDetected, code .sensorFovName, code .operationalMode, code .platformStatus,
    code .sensorControlMode, localSet, universalSet, packet]

theorem mem_all (kind : Kind) : kind ∈ all := by
  cases kind with
  | code table => cases table <;> decide
  | _ => decide

/-- How many kinds come before a kind in some order. -/
def placeIn (kinds : Kind → Kind → Ordering) (kind : Kind) : Nat :=
  (all.toFinset.filter fun other => kinds other kind = .lt).card

instance : Std.LawfulEqCmp (compareOn rank) where
  compare_self := Std.ReflCmp.compare_self
  eq_of_compare {a b} h := by
    have hranks : ∀ a ∈ all, ∀ b ∈ all, a.rank = b.rank → a = b := by decide
    exact hranks a (mem_all a) b (mem_all b) (Nat.compare_eq_eq.mp h)

variable {kinds : Kind → Kind → Ordering} [Std.TransCmp kinds] [Std.LawfulEqCmp kinds]

theorem placeIn_lt {a b : Kind} (h : kinds a b = .lt) : placeIn kinds a < placeIn kinds b := by
  have hself : kinds a a = .eq := Std.ReflCmp.compare_self
  -- What comes before the one comes before the other, and so does the one itself.
  refine Finset.card_lt_card ((Finset.ssubset_iff_of_subset ?_).mpr ⟨a, ?_, ?_⟩)
  · intro other hother
    rw [Finset.mem_filter] at hother ⊢
    exact ⟨hother.1, Std.TransCmp.lt_trans hother.2 h⟩
  · exact Finset.mem_filter.mpr ⟨List.mem_toFinset.mpr (mem_all a), h⟩
  · simp [hself]

/-- Any order of kinds is that of the places in it. -/
theorem compare_placeIn (a b : Kind) :
    Ord.compare (placeIn kinds a) (placeIn kinds b) = kinds a b := by
  cases hab : kinds a b with
  | lt => exact Nat.compare_eq_lt.mpr (placeIn_lt hab)
  | eq => rw [Std.LawfulEqCmp.eq_of_compare hab, Nat.compare_eq_eq]
  | gt => exact Nat.compare_eq_gt.mpr (placeIn_lt (Std.OrientedCmp.lt_of_gt hab))

end Kind

namespace SortKey

theorem compare_ofNat (m n : Nat) : (ofNat m).compare (ofNat n) = Ord.compare m n := by
  rw [ofNat, ofNat, compare]
  cases hmn : Ord.compare m n with
  | lt => exact Int.compare_eq_lt.mpr (Int.ofNat_lt.mpr (Nat.compare_eq_lt.mp hmn))
  | eq => exact Int.compare_eq_eq.mpr (congrArg Int.ofNat (Nat.compare_eq_eq.mp hmn))
  | gt => exact Int.compare_eq_gt.mpr (Int.ofNat_lt.mpr (Nat.compare_eq_gt.mp hmn))

/-- Pairs of keys are compared from the left. -/
theorem compare_pair (x x' y y' : SortKey) :
    (sequence [x, y]).compare (sequence [x', y']) = (x.compare x').then (y.compare y') := by
  simp [compare, compareAll]

theorem ofNat_injective : Function.Injective ofNat := by
  intro m n h
  exact Int.ofNat.inj (number.inj h)

theorem ofBytes_injective : Function.Injective ofBytes := by
  intro b b' h
  have hnumber : Function.Injective fun b : UInt8 => ofNat b.toNat :=
    fun _ _ hb => UInt8.toNat_inj.mp (ofNat_injective hb)
  exact hnumber.list_map (sequence.inj h)

theorem compare_pair_same (x y y' : SortKey) :
    (sequence [x, y]).compare (sequence [x, y']) = y.compare y' := by
  rw [compare_pair, (compare_eq_iff x x).mpr rfl, Ordering.eq_then]

end SortKey

section Entries

variable {κ : Type}

/-- Entries are compared by their keys first and by their values then. -/
def compareEntry (place : κ → SortKey) (cmp : Value → Value → Ordering) (a b : κ × Value) :
    Ordering :=
  ((place a.1).compare (place b.1)).then (cmp a.2 b.2)

/-- The key of an entry. -/
def entryKey (place : κ → SortKey) (key : Value → SortKey) (e : κ × Value) : SortKey :=
  .sequence [place e.1, key e.2]

/-- Sets that are compared by keys are equal if and only if the entries of one can be put
    in an order in which they match those of the other, one by one. -/
theorem compareUnordered_entries_eq_iff {place : κ → SortKey} (hplace : Function.Injective place)
    {cmp : Value → Value → Ordering} (key : Value → SortKey)
    (hcmp : ∀ v w, cmp v w = (key v).compare (key w)) {xs ys : List (κ × Value)} :
    compareUnordered (compareEntry place cmp) xs ys = .eq ↔
      ∃ zs, xs.Perm zs ∧ List.Forall₂ (fun a b => a.1 = b.1 ∧ cmp a.2 b.2 = .eq) zs ys := by
  have hentry : compareEntry place cmp =
      fun a b => (entryKey place key a).compare (entryKey place key b) := by
    funext a b
    rw [compareEntry, entryKey, entryKey, SortKey.compare_pair, hcmp]
  have hmatch (a b : κ × Value) : (entryKey place key a).compare (entryKey place key b) = .eq ↔
      a.1 = b.1 ∧ cmp a.2 b.2 = .eq := by
    rw [entryKey, entryKey, SortKey.compare_pair, Ordering.then_eq_eq, SortKey.compare_eq_iff,
      hplace.eq_iff, hcmp]
  rw [hentry, compareUnordered_eq_iff]
  simp only [hmatch]

variable [SizeOf κ]

theorem sizeOf_snd_lt {entries : List (κ × Value)} {e : κ × Value} (h : e ∈ entries) :
    sizeOf e.2 < sizeOf entries := by
  have hmem := List.sizeOf_lt_of_mem h
  rcases e with ⟨key, v⟩
  rw [Prod.mk.sizeOf_spec] at hmem
  change sizeOf v < sizeOf entries
  omega

/-- The entries of a set, as entries with values smaller than a bound. -/
def entriesBelow (entries : List (κ × Value)) {bound : Nat} (h : sizeOf entries ≤ bound) :
    List { e : κ × Value // sizeOf e.2 < bound } :=
  entries.attachWith _ fun _ he => Nat.lt_of_lt_of_le (sizeOf_snd_lt he) h

theorem map_val_entriesBelow {entries : List (κ × Value)} {bound : Nat}
    (h : sizeOf entries ≤ bound) : (entriesBelow entries h).map Subtype.val = entries :=
  List.attachWith_map_subtype_val _

/-- Compare sets as collections of entries, and entries by their keys first and by their
    values then. Values are compared by a function that is known for values smaller than the
    sets. -/
def compareSets (place : κ → SortKey) (xs ys : List (κ × Value))
    (cmp : (v w : Value) → sizeOf v < max (sizeOf xs) (sizeOf ys) →
      sizeOf w < max (sizeOf xs) (sizeOf ys) → Ordering) : Ordering :=
  compareUnordered
    (fun a b : { e : κ × Value // sizeOf e.2 < max (sizeOf xs) (sizeOf ys) } =>
      ((place a.1.1).compare (place b.1.1)).then (cmp a.1.2 b.1.2 a.2 b.2))
    (entriesBelow xs (Nat.le_max_left _ _)) (entriesBelow ys (Nat.le_max_right _ _))

/-- The bound on the sizes is not needed to say what is compared. -/
theorem compareSets_eq (place : κ → SortKey) (xs ys : List (κ × Value))
    (cmp : Value → Value → Ordering) :
    compareSets place xs ys (fun v w _ _ => cmp v w) =
      compareUnordered (compareEntry place cmp) xs ys := by
  have hmap := @compareUnordered_map _ _ (compareEntry place cmp) Subtype.val
    (entriesBelow xs (Nat.le_max_left _ (sizeOf ys)))
    (entriesBelow ys (Nat.le_max_right (sizeOf xs) _))
  rw [map_val_entriesBelow, map_val_entriesBelow] at hmap
  exact hmap.symm

/-- If smaller values are compared by their keys, sets are compared by the keys of their
    entries. -/
theorem compareSets_eq_compare (place : κ → SortKey) (key : Value → SortKey)
    {xs ys : List (κ × Value)}
    {cmp : (v w : Value) → sizeOf v < max (sizeOf xs) (sizeOf ys) →
      sizeOf w < max (sizeOf xs) (sizeOf ys) → Ordering}
    (h : ∀ v w hv hw, cmp v w hv hw = (key v).compare (key w)) :
    compareSets place xs ys cmp =
      (SortKey.ofUnordered (xs.map (entryKey place key))).compare
        (SortKey.ofUnordered (ys.map (entryKey place key))) := by
  have hkeys {entries : List (κ × Value)} (hle : sizeOf entries ≤ max (sizeOf xs) (sizeOf ys)) :
      entries.map (entryKey place key) =
        (entriesBelow entries hle).map fun e => entryKey place key e.1 := by
    conv_lhs => rw [← map_val_entriesBelow hle, List.map_map]
    rfl
  rw [SortKey.compare_ofUnordered, hkeys (Nat.le_max_left _ _), hkeys (Nat.le_max_right _ _),
    compareUnordered_map, compareSets]
  congr 1
  funext a b
  rw [entryKey, entryKey, SortKey.compare_pair, h]

end Entries

namespace Value

/-- Compare values, given an order of kinds: nothing comes before anything, then the kinds
    decide. Sets of one kind are compared as sets, by this order itself, and other items by
    the order they have among themselves. -/
def compareBy (kinds : Kind → Kind → Ordering) : Value → Value → Ordering
  | ⟨none, _⟩, ⟨none, _⟩ => .eq
  | ⟨none, _⟩, ⟨some _, _⟩ => .lt
  | ⟨some _, _⟩, ⟨none, _⟩ => .gt
  | ⟨some (.localSet xs), _⟩, ⟨some (.localSet ys), _⟩ =>
    compareSets (fun tag => .ofNat tag.toNat) xs ys fun v w _ _ => compareBy kinds v w
  | ⟨some (.universalSet xs), _⟩, ⟨some (.universalSet ys), _⟩ =>
    compareSets (fun key => .ofBytes key.bytes) xs ys fun v w _ _ => compareBy kinds v w
  | ⟨some i, _⟩, ⟨some j, _⟩ => (kinds i.kind j.kind).then (i.sortKey.compare j.sortKey)
termination_by v w => max (sizeOf v) (sizeOf w)
decreasing_by
  all_goals
    simp only [Value.mk.sizeOf_spec, Option.some.sizeOf_spec, Item.localSet.sizeOf_spec,
      Item.universalSet.sizeOf_spec]
    omega

end Value

mutual

/-- The sort key of a value, given the places of kinds. -/
def Value.sortKeyBy (place : Kind → Nat) : Value → SortKey
  | ⟨none, _⟩ => .sequence []
  | ⟨some item, _⟩ => .sequence [.ofNat (place item.kind), item.sortKeyBy place]

/-- The key of an item among those of its kind. -/
def Item.sortKeyBy (place : Kind → Nat) : Item → SortKey
  | .localSet entries => .ofUnordered (localSortKeysBy place entries)
  | .universalSet entries => .ofUnordered (universalSortKeysBy place entries)
  | item => item.sortKey

/-- The keys of a local set's entries. -/
def localSortKeysBy (place : Kind → Nat) : List (UInt64 × Value) → List SortKey
  | [] => []
  | (tag, v) :: entries =>
    .sequence [.ofNat tag.toNat, v.sortKeyBy place] :: localSortKeysBy place entries

/-- The keys of a universal set's entries. -/
def universalSortKeysBy (place : Kind → Nat) : List (UniversalKey × Value) → List SortKey
  | [] => []
  | (key, v) :: entries =>
    .sequence [.ofBytes key.bytes, v.sortKeyBy place] :: universalSortKeysBy place entries

end

section Keys

variable (place : Kind → Nat)

theorem localSortKeysBy_eq_map (entries : List (UInt64 × Value)) :
    localSortKeysBy place entries =
      entries.map (entryKey (fun tag => .ofNat tag.toNat) (Value.sortKeyBy place)) := by
  induction entries with
  | nil => simp [localSortKeysBy]
  | cons e entries ih => simp [localSortKeysBy, entryKey, ih]

theorem universalSortKeysBy_eq_map (entries : List (UniversalKey × Value)) :
    universalSortKeysBy place entries =
      entries.map (entryKey (fun key => .ofBytes key.bytes) (Value.sortKeyBy place)) := by
  induction entries with
  | nil => simp [universalSortKeysBy]
  | cons e entries ih => simp [universalSortKeysBy, entryKey, ih]

end Keys

/-- Only sets have keys in which the places of kinds matter. -/
theorem Item.sortKeyBy_of_plain (place : Kind → Nat) {i : Item} (hlocal : i.kind ≠ .localSet)
    (huniversal : i.kind ≠ .universalSet) : i.sortKeyBy place = i.sortKey := by
  cases i with
  | localSet entries => exact absurd rfl hlocal
  | universalSet entries => exact absurd rfl huniversal
  | _ => rw [Item.sortKeyBy] <;> exact nofun

theorem Item.exists_localSet {i : Item} (h : i.kind = .localSet) :
    ∃ entries, i = .localSet entries := by
  cases i with
  | localSet entries => exact ⟨entries, rfl⟩
  | _ => contradiction

theorem Item.exists_universalSet {i : Item} (h : i.kind = .universalSet) :
    ∃ entries, i = .universalSet entries := by
  cases i with
  | universalSet entries => exact ⟨entries, rfl⟩
  | _ => contradiction

mutual

/-- The sort key that runs is that of the ranks of kinds. -/
theorem Value.sortKeyBy_rank : (v : Value) → v.sortKeyBy Kind.rank = v.sortKey
  | ⟨none, _⟩ => by simp only [Value.sortKeyBy, Value.sortKey]
  | ⟨some item, _⟩ => by simp only [Value.sortKeyBy, Value.sortKey, Item.sortKeyBy_rank item]

theorem Item.sortKeyBy_rank : (item : Item) → item.sortKeyBy Kind.rank = item.sortKey
  | .localSet entries => by
      simp only [Item.sortKeyBy, Item.sortKey, localSortKeysBy_rank entries]
  | .universalSet entries => by
      simp only [Item.sortKeyBy, Item.sortKey, universalSortKeysBy_rank entries]
  | .u8 _ | .u16 _ | .u32 _ | .u64 _ | .i8 _ | .i16 _ | .i32 _ | .i64 _ | .bool _ | .text _
  | .f64 _ | .f32 _ | .blob _ | .key _ | .command _ | .frameRate _ | .code _ _ | .packet _ => by
      simp only [Item.sortKeyBy]

theorem localSortKeysBy_rank : (entries : List (UInt64 × Value)) →
    localSortKeysBy Kind.rank entries = localSortKeys entries
  | [] => by simp only [localSortKeysBy, localSortKeys]
  | (tag, v) :: entries => by
      simp only [localSortKeysBy, localSortKeys, Value.sortKeyBy_rank v,
        localSortKeysBy_rank entries]

theorem universalSortKeysBy_rank : (entries : List (UniversalKey × Value)) →
    universalSortKeysBy Kind.rank entries = universalSortKeys entries
  | [] => by simp only [universalSortKeysBy, universalSortKeys]
  | (key, v) :: entries => by
      simp only [universalSortKeysBy, universalSortKeys, Value.sortKeyBy_rank v,
        universalSortKeysBy_rank entries]

end

namespace Value

/-- Comparing values by an order of kinds is comparing their keys for the places in it. -/
theorem compareBy_eq_compare {kinds : Kind → Kind → Ordering} [Std.LawfulEqCmp kinds]
    {place : Kind → Nat} (hplace : ∀ a b, kinds a b = Ord.compare (place a) (place b))
    (v w : Value) : compareBy kinds v w = (v.sortKeyBy place).compare (w.sortKeyBy place) := by
  induction v, w using compareBy.induct with
  | case1 hint hint' => simp [compareBy, sortKeyBy, SortKey.compare, SortKey.compareAll]
  | case2 hint item hint' => simp [compareBy, sortKeyBy, SortKey.compare, SortKey.compareAll]
  | case3 item hint hint' => simp [compareBy, sortKeyBy, SortKey.compare, SortKey.compareAll]
  | case4 xs hint ys hint' ih =>
      rw [compareBy, compareSets_eq_compare _ (sortKeyBy place) ih, sortKeyBy, sortKeyBy,
        Item.kind, Item.kind, SortKey.compare_pair_same, Item.sortKeyBy, Item.sortKeyBy,
        localSortKeysBy_eq_map, localSortKeysBy_eq_map]
  | case5 xs hint ys hint' ih =>
      rw [compareBy, compareSets_eq_compare _ (sortKeyBy place) ih, sortKeyBy, sortKeyBy,
        Item.kind, Item.kind, SortKey.compare_pair_same, Item.sortKeyBy, Item.sortKeyBy,
        universalSortKeysBy_eq_map, universalSortKeysBy_eq_map]
  | case6 i hint j hint' hlocal huniversal =>
      rw [compareBy.eq_6 _ _ _ _ _ hlocal huniversal, sortKeyBy, sortKeyBy, SortKey.compare_pair,
        SortKey.compare_ofNat, ← hplace]
      cases hkinds : kinds i.kind j.kind with
      | lt | gt => rfl
      | eq =>
          -- Of one kind, and they are not two sets.
          have hkind := Std.LawfulEqCmp.eq_of_compare hkinds
          have hplain : i.kind ≠ .localSet ∧ i.kind ≠ .universalSet := by
            refine ⟨fun hi => ?_, fun hi => ?_⟩
            · rcases Item.exists_localSet hi with ⟨xs, rfl⟩
              rcases Item.exists_localSet (hkind.symm.trans hi) with ⟨ys, rfl⟩
              exact hlocal xs ys rfl rfl
            · rcases Item.exists_universalSet hi with ⟨xs, rfl⟩
              rcases Item.exists_universalSet (hkind.symm.trans hi) with ⟨ys, rfl⟩
              exact huniversal xs ys rfl rfl
          rw [Item.sortKeyBy_of_plain place hplain.1 hplain.2,
            Item.sortKeyBy_of_plain place (hkind ▸ hplain.1) (hkind ▸ hplain.2)]

/-- Local sets are compared as collections of entries, by the order itself. -/
theorem compareBy_localSet (kinds : Kind → Kind → Ordering) (xs ys : List (UInt64 × Value))
    (hint hint' : Nat) :
    compareBy kinds ⟨some (.localSet xs), hint⟩ ⟨some (.localSet ys), hint'⟩ =
      compareUnordered (compareEntry (fun tag => .ofNat tag.toNat) (compareBy kinds)) xs ys := by
  rw [compareBy, compareSets_eq]

/-- And so are universal sets. -/
theorem compareBy_universalSet (kinds : Kind → Kind → Ordering)
    (xs ys : List (UniversalKey × Value)) (hint hint' : Nat) :
    compareBy kinds ⟨some (.universalSet xs), hint⟩ ⟨some (.universalSet ys), hint'⟩ =
      compareUnordered (compareEntry (fun key => .ofBytes key.bytes) (compareBy kinds)) xs ys := by
  rw [compareBy, compareSets_eq]

/-- Values that differ in hints and in the places of entries, at any depth. -/
inductive Rearranged : Value → Value → Prop
  | hint (item : Option Item) (h h' : Nat) : Rearranged ⟨item, h⟩ ⟨item, h'⟩
  | localSet {xs ys : List (UInt64 × Value)} (h : Nat) :
      xs.Perm ys → Rearranged ⟨some (.localSet xs), h⟩ ⟨some (.localSet ys), h⟩
  | universalSet {xs ys : List (UniversalKey × Value)} (h : Nat) :
      xs.Perm ys → Rearranged ⟨some (.universalSet xs), h⟩ ⟨some (.universalSet ys), h⟩
  | inLocalSet (before after : List (UInt64 × Value)) (tag : UInt64) {v w : Value} (h : Nat) :
      Rearranged v w → Rearranged ⟨some (.localSet (before ++ (tag, v) :: after)), h⟩
        ⟨some (.localSet (before ++ (tag, w) :: after)), h⟩
  | inUniversalSet (before after : List (UniversalKey × Value)) (key : UniversalKey) {v w : Value}
      (h : Nat) :
      Rearranged v w → Rearranged ⟨some (.universalSet (before ++ (key, v) :: after)), h⟩
        ⟨some (.universalSet (before ++ (key, w) :: after)), h⟩
  | trans {u v w : Value} : Rearranged u v → Rearranged v w → Rearranged u w

/-- Keys see neither. -/
theorem Rearranged.sortKeyBy_eq (place : Kind → Nat) {v w : Value} (h : Rearranged v w) :
    v.sortKeyBy place = w.sortKeyBy place := by
  induction h with
  | hint item h h' => cases item <;> simp only [sortKeyBy]
  | localSet h hperm =>
      simp only [sortKeyBy, Item.kind, Item.sortKeyBy, localSortKeysBy_eq_map]
      rw [SortKey.ofUnordered_perm (hperm.map _)]
  | universalSet h hperm =>
      simp only [sortKeyBy, Item.kind, Item.sortKeyBy, universalSortKeysBy_eq_map]
      rw [SortKey.ofUnordered_perm (hperm.map _)]
  | inLocalSet before after tag h _ ih =>
      simp only [sortKeyBy, Item.kind, Item.sortKeyBy, localSortKeysBy_eq_map, List.map_append,
        List.map_cons, entryKey, ih]
  | inUniversalSet before after key h _ ih =>
      simp only [sortKeyBy, Item.kind, Item.sortKeyBy, universalSortKeysBy_eq_map,
        List.map_append, List.map_cons, entryKey, ih]
  | trans _ _ ih ih' => exact ih.trans ih'

/-- The laws of an order of values that sees neither hints nor the places of entries. -/
structure OrderLaws (cmp : Value → Value → Ordering) : Prop where
  refl : ∀ v, cmp v v = .eq
  swap : ∀ v w, (cmp v w).swap = cmp w v
  antisymm : ∀ v w, (cmp v w).isLE → (cmp w v).isLE → cmp v w = .eq
  trans : ∀ u v w, (cmp u v).isLE → (cmp v w).isLE → (cmp u w).isLE
  total : ∀ v w, (cmp v w).isLE ∨ (cmp w v).isLE
  equivalence : Equivalence fun v w => cmp v w = .eq
  empty_le : ∀ v, (cmp .empty v).isLE
  eq_empty_iff : ∀ v, cmp .empty v = .eq ↔ v.item = none
  rearranged : ∀ v v', Rearranged v v' →
    cmp v v' = .eq ∧ ∀ w, cmp v w = cmp v' w ∧ cmp w v = cmp w v'
  localSet : ∀ xs ys hint hint',
    cmp ⟨some (.localSet xs), hint⟩ ⟨some (.localSet ys), hint'⟩ = .eq ↔
      ∃ zs, xs.Perm zs ∧ List.Forall₂ (fun a b => a.1 = b.1 ∧ cmp a.2 b.2 = .eq) zs ys
  universalSet : ∀ xs ys hint hint',
    cmp ⟨some (.universalSet xs), hint⟩ ⟨some (.universalSet ys), hint'⟩ = .eq ↔
      ∃ zs, xs.Perm zs ∧ List.Forall₂ (fun a b => a.1 = b.1 ∧ cmp a.2 b.2 = .eq) zs ys

/-- An order of kinds makes an order of values. -/
theorem orderLaws_compareBy (kinds : Kind → Kind → Ordering) [Std.TransCmp kinds]
    [Std.LawfulEqCmp kinds] : OrderLaws (compareBy kinds) := by
  -- All laws are those of keys, which are ordered linearly.
  let key := sortKeyBy (Kind.placeIn kinds)
  have hcmp (v w : Value) : compareBy kinds v w = (key v).compare (key w) :=
    compareBy_eq_compare (fun a b => (Kind.compare_placeIn a b).symm) v w
  have hswap (v w : Value) : (compareBy kinds v w).swap = compareBy kinds w v := by
    rw [hcmp, hcmp, SortKey.compare_swap]
  have heq (v w : Value) : compareBy kinds v w = .eq ↔ key v = key w := by
    rw [hcmp, SortKey.compare_eq_iff]
  refine {
    refl := fun v => (heq v v).mpr rfl
    swap := hswap
    antisymm := fun v w hvw hwv => ?_
    trans := fun u v w huv hvw => ?_
    total := fun v w => ?_
    equivalence := ⟨fun v => (heq v v).mpr rfl, fun h => ?_, fun h h' => ?_⟩
    empty_le := fun v => ?_
    eq_empty_iff := fun v => ?_
    rearranged := fun v v' h => ?_
    localSet := fun xs ys hint hint' => ?_
    universalSet := fun xs ys hint hint' => ?_ }
  · rw [hcmp, ← SortKey.precedes_eq_isLE] at hvw hwv
    exact (heq v w).mpr (SortKey.precedes_antisymm hvw hwv)
  · rw [hcmp] at huv hvw ⊢
    exact Std.TransCmp.isLE_trans huv hvw
  · rw [hcmp, hcmp, ← SortKey.precedes_eq_isLE, ← SortKey.precedes_eq_isLE, ← Bool.or_eq_true]
    exact SortKey.precedes_total (key v) (key w)
  · rw [heq] at h ⊢
    exact h.symm
  · rw [heq] at h h' ⊢
    exact h.trans h'
  · rcases v with ⟨_ | item, hint⟩ <;> simp [empty, compareBy]
  · rcases v with ⟨_ | item, hint⟩ <;> simp [empty, compareBy]
  · have hkey : key v = key v' := h.sortKeyBy_eq _
    exact ⟨(heq v v').mpr hkey, fun w => by simp only [hcmp, hkey, and_self]⟩
  · rw [compareBy_localSet]
    exact compareUnordered_entries_eq_iff
      (fun _ _ h => UInt64.toNat_inj.mp (SortKey.ofNat_injective h)) key hcmp
  · rw [compareBy_universalSet]
    refine compareUnordered_entries_eq_iff (fun a b h => ?_) key hcmp
    have hbytes := SortKey.ofBytes_injective h
    rwa [← UniversalKey.mk.injEq a.bytes a.length_bytes b.bytes b.length_bytes] at hbytes

/-- The order that runs is made by the ranks of kinds. -/
theorem compare_eq_compareBy : compare = compareBy (compareOn Kind.rank) := by
  funext v w
  have hcmp : compareBy (compareOn Kind.rank) v w =
      (v.sortKeyBy Kind.rank).compare (w.sortKeyBy Kind.rank) :=
    @compareBy_eq_compare (compareOn Kind.rank) _ Kind.rank (fun _ _ => rfl) v w
  rw [hcmp, sortKeyBy_rank, sortKeyBy_rank, compare]

/-- Whatever order the kinds have, comparing values by it is a total order up to equality,
    in which nothing comes first. Equality and order see neither hints nor the places of
    entries, at any depth, and sets are equal if and only if the entries of one can be put
    in an order in which they match those of the other, one by one, with equal keys and
    equal values. The order that runs is one of these. -/
theorem order_sees_contents_only :
    (∀ (kinds : Kind → Kind → Ordering) [Std.TransCmp kinds] [Std.LawfulEqCmp kinds],
      OrderLaws (compareBy kinds)) ∧
    compare = compareBy (compareOn Kind.rank) ∧ OrderLaws compare ∧
    ∀ v w : Value, (v == w) = true ↔ compare v w = .eq := by
  refine ⟨fun kinds => orderLaws_compareBy kinds, compare_eq_compareBy, ?_, fun v w => ?_⟩
  · rw [compare_eq_compareBy]
    exact orderLaws_compareBy _
  · change (compare v w == .eq) = true ↔ _
    rw [beq_iff_eq]

/-- Two entries of a set change places, and so do two entries of a set inside of it, one of
    which also has another hint. The outcome is equal to the set as it was, for the order that
    runs and for the one with all kinds the other way round. A set that has one entry less is
    not. -/
theorem order_sees_contents_only_nested :
    let inner : Value := ⟨some (.localSet [(1, ⟨some (.u64 7), 8⟩), (2, .empty)]), 14⟩
    let inner' : Value := ⟨some (.localSet [(2, .empty), (1, ⟨some (.u64 7), 3⟩)]), 0⟩
    let v : Value := .ofItem (.localSet [(9, inner), (9, .empty)])
    let w : Value := .ofItem (.localSet [(9, .empty), (9, inner')])
    let reversed : Kind → Kind → Ordering := fun a b => compareOn Kind.rank b a
    (v == w) = true ∧ compareBy reversed v w = .eq ∧
      (∀ third, compare v third = compare w third) ∧
      ¬ (v == .ofItem (.localSet [(9, inner)])) = true := by
  intro inner inner' v w reversed
  have hinner : Rearranged inner inner' :=
    .trans (.inLocalSet [] [(2, .empty)] 1 14 (.hint (some (.u64 7)) 8 3))
      (.trans (.localSet 14 (List.Perm.swap _ _ [])) (.hint _ 14 0))
  have houter : Rearranged v w :=
    .trans (.inLocalSet [] [(9, .empty)] 9 0 hinner) (.localSet 0 (List.Perm.swap _ _ []))
  rcases order_sees_contents_only with ⟨hkinds, _, hrun, hbeq⟩
  have : Std.TransCmp reversed := Std.TransCmp.opposite
  have : Std.LawfulEqCmp reversed := Std.LawfulEqCmp.opposite
  refine ⟨(hbeq v w).mpr (hrun.rearranged v w houter).1,
    ((hkinds reversed).rearranged v w houter).1,
    fun third => ((hrun.rearranged v w houter).2 third).1, fun hless => ?_⟩
  rcases (hrun.localSet _ _ _ _).mp ((hbeq _ _).mp hless) with ⟨zs, hperm, hmatch⟩
  have hlength : 2 = 1 := hperm.length_eq.trans hmatch.length_eq
  contradiction

end Value

end KlvMetadata

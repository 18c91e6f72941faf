import Pgcpp.Access.IndexPages
import Pgcpp.Access.NbtScan

/-!
# Integer keys

Several access methods have integer keys only and compare them as numbers.
-/

namespace Pgcpp.Access

open Storage Transaction List

theorem btCompareKeys_int32_eq_iff (left right : List UInt8) :
    btCompareKeys .int32 left right = .eq ↔ int32Key left = int32Key right := by
  constructor
  · intro same
    have integers : signedKey 32 left = signedKey 32 right := Std.LawfulEqCmp.eq_of_compare
        (show compare (signedKey 32 left) (signedKey 32 right) = .eq from same)
    exact BitVec.eq_of_toInt_eq integers
  intro same
  have integers : signedKey 32 left = signedKey 32 right := congrArg BitVec.toInt same
  show compare (signedKey 32 left) (signedKey 32 right) = .eq
  rw [integers]
  exact Std.ReflCmp.compare_self

/-- `gist_entry_matches` and `spgist_entry_matches`, which are the same. -/
def int32EntryMatches (entryKey : BitVec 32) (scanKey : BTScanKeyData) : Bool :=
  if scanKey.strategy = .all then true
  else
    match scanKey.key with
    | none => true
    | some key =>
      let scanVal := int32Key key
      match scanKey.strategy with
      | .equal => entryKey = scanVal
      | .less => entryKey.toInt < scanVal.toInt
      | .lessEqual => entryKey.toInt ≤ scanVal.toInt
      | .greater => entryKey.toInt > scanVal.toInt
      | .greaterEqual => entryKey.toInt ≥ scanVal.toInt
      | .all => true

theorem int32EntryMatches_iff :
    int32EntryMatches (int32Key key) scanKey ↔ Satisfies .int32 scanKey key := by
  obtain ⟨_ | search, strategy⟩ := scanKey
  · cases strategy <;> simp [int32EntryMatches, Satisfies]
  have equal := btCompareKeys_int32_eq_iff key search
  have less : btCompareKeys .int32 key search = .lt ↔
      (int32Key key).toInt < (int32Key search).toInt := compare_lt_iff_lt
  have lessEqual : btCompareKeys .int32 key search ≠ .gt ↔
      (int32Key key).toInt ≤ (int32Key search).toInt := compare_le_iff_le
  have greater : btCompareKeys .int32 key search = .gt ↔
      (int32Key key).toInt > (int32Key search).toInt := compare_gt_iff_gt
  have greaterEqual : btCompareKeys .int32 key search ≠ .lt ↔
      (int32Key key).toInt ≥ (int32Key search).toInt := compare_ge_iff_ge
  cases strategy with
  | all => simp [int32EntryMatches, Satisfies]
  | equal => simp [int32EntryMatches, Satisfies, equal]
  | less => simp [int32EntryMatches, Satisfies, less]
  | lessEqual => simp [int32EntryMatches, Satisfies, lessEqual]
  | greater => simp [int32EntryMatches, Satisfies, greater]
  | greaterEqual => simp [int32EntryMatches, Satisfies, greaterEqual]

def int32Item (entry : IndexEntry) : List UInt8 := btBuildItem .int32 entry.1 entry.2

/-- `gist_leaf_get_key` and `spgist_leaf_get_key`. -/
def int32LeafGetKey (item : List UInt8) : BitVec 32 := int32Key (btItemGetKey item)

theorem int32LeafGetKey_item (valid : KeyValid .int32 entry.1) :
    int32LeafGetKey (int32Item entry) = int32Key entry.1 := by
  rw [int32LeafGetKey, int32Item, btItemGetKey_buildItem valid]

theorem itemCost_int32Item (valid : KeyValid .int32 entry.1) : itemCost (int32Item entry) = 16 := by
  have length : (int32Item entry).length = 10 := by
    rw [int32Item, btBuildItem, storedKey_of_valid valid, length_append, valid]
    rfl
  show maxAlignUp (int32Item entry).length + kItemIdSize = 16
  rw [length]
  rfl

theorem pageCost_of_forall (same : ∀ item ∈ items, itemCost item = cost) :
    pageCost items = cost * items.length := by
  induction items with
  | nil => rfl
  | cons item rest ih =>
    have later := ih fun other mem => same other (mem_cons_of_mem _ mem)
    have split : pageCost (item :: rest) = itemCost item + pageCost rest := by simp [pageCost]
    rw [split, later, same item mem_cons_self, length_cons, Nat.mul_succ, add_comm]

theorem pageCost_int32Items {entries : List IndexEntry} (valid : KeysValid .int32 entries) :
    pageCost (entries.map int32Item) = 16 * entries.length := by
  rw [← length_map (f := int32Item)]
  apply pageCost_of_forall
  intro _ mem
  obtain ⟨entry, isEntry, rfl⟩ := mem_map.1 mem
  exact itemCost_int32Item (valid entry isEntry)

def int32ItemMatches (scanKey : BTScanKeyData) (item : List UInt8) : Bool :=
  int32EntryMatches (int32LeafGetKey item) scanKey

theorem filter_int32Items {entries : List IndexEntry} (valid : KeysValid .int32 entries) :
    ((entries.map int32Item).filter (int32ItemMatches scanKey)).map btItemTid =
      (entries.filter fun entry => Satisfies .int32 scanKey entry.1).map Prod.snd := by
  have same : (entries.filter (int32ItemMatches scanKey ∘ int32Item)) = entries.filter fun entry =>
        decide (Satisfies .int32 scanKey entry.1) := by
    apply filter_congr
    intro entry mem
    rw [Function.comp_apply, int32ItemMatches, int32LeafGetKey_item (valid entry mem),
      Bool.eq_iff_iff, int32EntryMatches_iff, decide_eq_true_iff]
  rw [filter_map, map_map, same]
  apply map_congr_left
  intro entry _
  exact btItemTid_buildItem .int32 entry.1 entry.2

/-- Integer keys have four bytes. -/
def InsertionValid (insertion : IndexInsertion) : Prop :=
  insertion.kind = .int32 → KeyValid .int32 insertion.key

/-- The keys and tuple identifiers of the insertions that returned true. -/
def acceptedEntries (insertions : List IndexInsertion) (results : List Bool) : List IndexEntry :=
  ((insertions.zip results).filter Prod.snd).map fun pair => (pair.1.key, pair.1.tid)

theorem acceptedEntries_cons : acceptedEntries (insertion :: insertions) (result :: results) =
      acceptedEntries [insertion] [result] ++ acceptedEntries insertions results := by
  cases result with
  | false => rfl
  | true => rfl

theorem length_acceptedEntries_le (insertions : List IndexInsertion) (results : List Bool) :
    (acceptedEntries insertions results).length ≤ insertions.length := by
  rw [acceptedEntries, length_map]
  apply Nat.le_trans (length_filter_le ..)
  rw [length_zip]
  exact Nat.min_le_left ..

/-- The keys and tuple identifiers of the insertions of integers. -/
def attemptedEntries (insertions : List IndexInsertion) : List IndexEntry :=
  (insertions.filter fun insertion => insertion.kind == .int32).map
    fun insertion => (insertion.key, insertion.tid)

theorem attemptedEntries_cons : attemptedEntries (insertion :: insertions) =
      attemptedEntries [insertion] ++ attemptedEntries insertions := by
  rw [attemptedEntries, attemptedEntries, attemptedEntries, ← map_append,
    ← filter_append, singleton_append]

end Pgcpp.Access

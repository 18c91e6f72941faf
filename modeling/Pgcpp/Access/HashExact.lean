import Pgcpp.Access.ChainScan
import Pgcpp.Access.Hash

/-!
# Scans of a hash index

The chain of a bucket holds the items of the keys that belong to the bucket.  An
equality scan therefore finds every tuple of its key, and a scan of all buckets
finds every tuple once.
-/

namespace Pgcpp.Access

open Lib Storage Transaction IndexFile Std.LawfulEqCmp
open List hiding after all chains count head ranges

theorem hashcalc_congr (same : btCompareKeys kind left right = .eq) :
    hashcalc kind left nbuckets = hashcalc kind right nbuckets := by
  cases kind with
  | int32 =>
    have integers : signedKey 32 left = signedKey 32 right := eq_of_compare
        (show compare (signedKey 32 left) (signedKey 32 right) = .eq from same)
    have numbers := BitVec.eq_of_toInt_eq integers
    simp [hashcalc, numbers]
  | int64 =>
    have integers : signedKey 64 left = signedKey 64 right := eq_of_compare
        (show compare (signedKey 64 left) (signedKey 64 right) = .eq from same)
    have numbers := BitVec.eq_of_toInt_eq integers
    simp [hashcalc, numbers]
  | text =>
    have lexicographic : List.compareLex compare left right = .eq := by
      rw [← btCompareText_eq]
      exact same
    rw [eq_of_compare lexicographic]

def hashHeads : List Nat := (List.range kHashDefaultBuckets).map hashBucketToBlock

variable (kind : BTKeyKind)

def bucketEntries (entries : List IndexEntry) (bucket : Nat) : List IndexEntry :=
  entries.filter fun entry => hashcalc kind entry.1 kHashDefaultBuckets = bucket

def hashItem (entry : IndexEntry) : List UInt8 := btBuildItem kind entry.1 entry.2

/-- The index has the entries, each in the chain of its bucket. -/
structure HashHolds (kind : BTKeyKind) (index : HashIndex)
    (items : Nat → List (List UInt8)) (chains : Nat → List Nat)
    (entries : List IndexEntry) : Prop where
  buckets : index.metaPage.nbuckets = kHashDefaultBuckets
  formed : index.Chains items hashHeads chains
  held : ∀ bucket < kHashDefaultBuckets,
    (contents items (chains (hashBucketToBlock bucket))).Perm
      ((bucketEntries kind entries bucket).map (hashItem kind))
  blocks : index.nblocks ≤ kHashDefaultBuckets + 1 + entries.length

theorem hashBucketToBlock_mem (small : bucket < kHashDefaultBuckets) :
    hashBucketToBlock bucket ∈ hashHeads :=
  mem_map.2 ⟨bucket, mem_range.2 small, rfl⟩

theorem hashcalc_lt (key : List UInt8) :
    hashcalc kind key kHashDefaultBuckets < kHashDefaultBuckets :=
  Nat.mod_lt _ (Nat.succ_pos 15)

theorem holds_hashPage (flags : BitVec 32) (bucket : Nat) : Holds (hashPage flags bucket).page [] :=
  holds_init flags 0

theorem hashHolds_build : HashHolds kind hashbuild (fun _ => []) (fun head => [head]) [] := by
  constructor
  case buckets => rfl
  case formed =>
    constructor
    · intro head isHead
      obtain ⟨bucket, inRange, rfl⟩ := mem_map.1 isHead
      have small := mem_range.1 inRange
      refine ⟨?_, ?_, ?_⟩
      · apply ChainFrom.cons
        exact .nil
      · intro block _
        exact holds_hashPage kHashBucket (block - 1)
      intro block mem
      rw [mem_singleton.1 mem]
      exact Nat.succ_lt_succ small
    · intro _ _ _ _ ne block inLeft inRight
      apply ne
      rw [← mem_singleton.1 inLeft, ← mem_singleton.1 inRight]
  case held =>
    intro bucket _
    exact List.Perm.nil
  case blocks => exact le_rfl

section

variable {kind : BTKeyKind} {index : HashIndex} {items : Nat → List (List UInt8)}
  {chains : Nat → List Nat} {entries : List IndexEntry}

theorem hasSpace_hashPage (valid : KeyValid kind key) (tid : ItemPointerData)
    (flags : BitVec 32) (bucket : Nat) :
    hasSpace (hashPage flags bucket) (btBuildItem kind key tid) := by
  apply (hasSpace_iff (holds_hashPage flags bucket)).2
  have short := (length_buildItem valid tid).2
  have aligned := maxAlignUp_lt (btBuildItem kind key tid).length
  have capacity : pageCapacity = 8152 := rfl
  have nothing : pageCost [] = 0 := rfl
  have cost : itemCost (btBuildItem kind key tid) =
      maxAlignUp (btBuildItem kind key tid).length + 4 := rfl
  omega

section

variable (holds : HashHolds kind index items chains entries)

include holds

theorem HashHolds.insert {entry : IndexEntry} (valid : KeyValid kind entry.1)
    (ran : hashinsert fuel kind index entry.1 entry.2 = some after) :
    ∃ itemsAfter chainsAfter, HashHolds kind after itemsAfter chainsAfter (entries ++ [entry]) := by
  rw [hashinsert, holds.buckets] at ran
  generalize isBucket : hashcalc kind entry.1 kHashDefaultBuckets = bucket at ran
  have small : bucket < kHashDefaultBuckets := by
    rw [← isBucket]
    exact hashcalc_lt kind entry.1
  have isHead := hashBucketToBlock_mem small
  have chain := holds.formed.chain _ isHead
  have space := hasSpace_hashPage valid entry.2 kHashOverflow bucket
  have added := added_of_addToChain space chain.linked chain.below ran
  obtain ⟨itemsAfter, chainsAfter, chainsAre, _, metaAfter⟩ :=
    holds.formed.added isHead (holds_hashPage kHashOverflow bucket) rfl space added
  refine ⟨itemsAfter, chainsAfter, ?_, chainsAre.kept, ?_, ?_⟩
  · rcases metaAfter with same | same
    · rw [same, holds.buckets]
    · rw [same]
      exact holds.buckets
  · intro other otherSmall
    rw [bucketEntries, filter_append, ← bucketEntries]
    by_cases here : bucket = other
    · subst here
      rw [filter_cons_of_pos (by simpa using isBucket), filter_nil, map_append]
      apply chainsAre.added.trans
      apply List.Perm.trans (List.Perm.cons _ (holds.held bucket small))
      exact (perm_append_singleton ..).symm
    · rw [filter_cons_of_neg (by simpa [isBucket] using here), filter_nil, append_nil,
        chainsAre.others _ (hashBucketToBlock_mem otherSmall)
          fun same => here (Nat.succ.inj same).symm]
      exact holds.held other otherSmall
  · have larger := chainsAre.larger.2
    have before := holds.blocks
    rw [length_append, length_singleton]
    omega

theorem HashHolds.insertAll (valid : KeysValid kind added)
    (ran : added.foldlM (fun index entry => hashinsert fuel kind index entry.1 entry.2) index =
        some after) :
    ∃ itemsAfter chainsAfter, HashHolds kind after itemsAfter chainsAfter (entries ++ added) := by
  induction added generalizing index items chains entries with
  | nil =>
    cases ran
    rw [append_nil]
    exact ⟨items, chains, holds⟩
  | cons entry _ ih =>
    rw [foldlM_cons, Option.bind_eq_bind, Option.bind_eq_some_iff] at ran
    obtain ⟨_, first, later⟩ := ran
    obtain ⟨_, _, holdsBetween⟩ := holds.insert (valid entry mem_cons_self) first
    have all := ih holdsBetween (fun other mem => valid other (mem_cons_of_mem _ mem)) later
    rwa [append_assoc] at all

theorem HashHolds.isSome_insertAll (valid : KeysValid kind added)
    (room : kHashDefaultBuckets + 1 + (entries ++ added).length ≤ kInvalidBlockNumber)
    (enough : kHashDefaultBuckets + 1 + (entries ++ added).length ≤ fuel) :
    (added.foldlM (fun index entry =>
      hashinsert fuel kind index entry.1 entry.2) index).isSome := by
  induction added generalizing index items chains entries with
  | nil => rfl
  | cons entry _ ih =>
    have validFirst := valid entry mem_cons_self
    have blocks := holds.blocks
    have isHead := hashBucketToBlock_mem (hashcalc_lt kind entry.1)
    have chain := holds.formed.chain _ isHead
    have short := chain.length_le
    rw [length_append, length_cons] at room enough
    have returns : (hashinsert fuel kind index entry.1 entry.2).isSome := by
      rw [hashinsert, holds.buckets]
      apply isSome_addToChain (hasSpace_hashPage validFirst entry.2 ..) chain.linked chain.below
      · omega
      · omega
    obtain ⟨_, first⟩ := Option.isSome_iff_exists.1 returns
    obtain ⟨_, _, holdsBetween⟩ := holds.insert validFirst first
    rw [foldlM_cons, first]
    apply ih holdsBetween
    · intro other mem
      exact valid other (mem_cons_of_mem _ mem)
    · rw [append_assoc, length_append]
      exact room
    · rw [append_assoc, length_append]
      exact enough

end

theorem hashLaterBuckets_follow (split : hashLaterBuckets index scanKey bucket =
      front ++ (other, head) :: later) : hashLaterBuckets index scanKey other = later := by
  rw [hashLaterBuckets] at split ⊢
  split_ifs at split ⊢ with isEqual
  · simp at split
  obtain ⟨_, _, whole, -, isRest⟩ := map_eq_append_iff.1 split
  obtain ⟨first, _, rfl, isFirst, isLater⟩ := map_eq_cons_iff.1 isRest
  obtain ⟨_, _, -, isTail⟩ := range'_eq_append_iff.1 whole
  obtain ⟨_, _, isMore⟩ := range'_eq_cons_iff.1 isTail.symm
  obtain rfl : first = other := congrArg Prod.fst isFirst
  rw [← isLater, isMore]
  congr 2
  omega

structure HashRemaining (kind : BTKeyKind) (index : HashIndex)
    (items : Nat → List (List UInt8)) (chains : Nat → List Nat) (fuel : Nat)
    (scan : HashScanDesc) (tuples : List ItemPointerData) : Prop where
  inited : scan.inited
  position : ∃ block left, scan.currbuf = some block ∧
    index.ScanAt items (hashAccepts kind scan.scanKey) fuel chains block
      scan.curroff (hashLaterBuckets index scan.scanKey scan.bucket) left ∧
    tuples = left.map btItemTid

theorem delivers_hashgettuple :
    Delivers (hashgettuple fuel kind index) (HashRemaining kind index items chains fuel) := by
  apply Delivers.of_cases
  intro scan tuples remaining
  obtain ⟨block, left, pinned, scanAt, rfl⟩ := remaining.position
  simp only [hashgettuple, remaining.inited, pinned, if_true]
  rcases scanChains_spec scanAt with
    ⟨ended, rfl⟩ | ⟨item, bucket, place, offset, later, more, found, rfl, scanAtAfter, follows⟩
  · rw [ended]
    exact .inl ⟨rfl, _, rfl⟩
  rw [found]
  have laterAre : hashLaterBuckets index scan.scanKey bucket = later := by
    rcases follows with ⟨rfl, rfl⟩ | ⟨_, _, split⟩
    · rfl
    · exact hashLaterBuckets_follow split
  rw [← laterAre] at scanAtAfter
  exact .inr ⟨_, _, rfl, _, rfl, rfl, place, more, rfl, scanAtAfter, rfl⟩

/-- The items of the chains that a scan reads. -/
def hashScanned (index : HashIndex) (items : Nat → List (List UInt8))
    (chains : Nat → List Nat) (scanKey : BTScanKeyData) (bucket : Nat) : List (List UInt8) :=
  contents items (chains (hashBucketToBlock bucket)) ++
    (hashLaterBuckets index scanKey bucket).flatMap fun chain => contents items (chains chain.2)

theorem HashHolds.getbitmap (holds : HashHolds kind index items chains entries)
    (scanKey : BTScanKeyData) {calls : Nat} (pages : index.nblocks ≤ fuel)
    (enough : (hashScanned index items chains scanKey
      (hashStartBucket kind index scanKey)).length < calls) :
    hashgetbitmap fuel calls kind index scanKey = some (((hashScanned index items chains scanKey
        (hashStartBucket kind index scanKey)).filter
          (hashAccepts kind scanKey)).map btItemTid) := by
  have chainOf {bucket : Nat} (small : bucket < kHashDefaultBuckets) :
      index.Chain items (hashBucketToBlock bucket) (chains (hashBucketToBlock bucket)) ∧
        (chains (hashBucketToBlock bucket)).length ≤ fuel := by
    have chain := holds.formed.chain _ (hashBucketToBlock_mem small)
    exact ⟨chain, Nat.le_trans chain.length_le pages⟩
  generalize isBucket : hashStartBucket kind index scanKey = bucket at enough ⊢
  have small : bucket < kHashDefaultBuckets := by
    rw [← isBucket, hashStartBucket, holds.buckets]
    cases equalKey scanKey with
    | none => exact Nat.succ_pos 15
    | some key => exact hashcalc_lt kind key
  have laterAre : ∀ chain ∈ hashLaterBuckets index scanKey bucket,
      index.Chain items chain.2 (chains chain.2) ∧ (chains chain.2).length ≤ fuel := by
    intro chain mem
    rw [hashLaterBuckets] at mem
    split_ifs at mem
    · contradiction
    obtain ⟨_, inRange, rfl⟩ := mem_map.1 mem
    apply chainOf
    have bounds := mem_range'_1.1 inRange
    rw [holds.buckets] at bounds
    omega
  let started : HashScanDesc :=
    { scanKey := scanKey, bucket := bucket, currbuf := some (hashBucketToBlock bucket), curroff := 1
      inited := true }
  have first : hashgettuple fuel kind index (hashbeginscan scanKey) =
      hashgettuple fuel kind index started := by
    dsimp only [started]
    rw [← isBucket]
    rfl
  obtain ⟨chain, short⟩ := chainOf small
  have remaining : HashRemaining kind index items chains fuel started
      (((hashScanned index items chains scanKey bucket).filter
        (hashAccepts kind scanKey)).map btItemTid) := by
    refine ⟨rfl, _, _, rfl, scanAt_head chain short laterAre, ?_⟩
    rw [hashScanned, filter_append]
  rw [hashgetbitmap, drain_congr first]
  apply delivers_hashgettuple.drain remaining
  rw [length_map]
  exact Nat.lt_of_le_of_lt (length_filter_le ..) enough

theorem filter_bucketEntries (valid : KeysValid kind entries) (key : List UInt8) :
    (((bucketEntries kind entries (hashcalc kind key kHashDefaultBuckets)).map
        (hashItem kind)).filter fun item =>
          btCompareKeys kind (btItemGetKey item) key = .eq).map btItemTid =
    (entries.filter fun entry => btCompareKeys kind entry.1 key = .eq).map Prod.snd := by
  rw [filter_map, bucketEntries, filter_filter, map_map]
  have same : (entries.filter fun entry =>
      ((fun item => decide (btCompareKeys kind (btItemGetKey item) key = .eq)) ∘
        hashItem kind) entry &&
        hashcalc kind entry.1 kHashDefaultBuckets =
          hashcalc kind key kHashDefaultBuckets) =
      entries.filter fun entry => decide (btCompareKeys kind entry.1 key = .eq) := by
    apply filter_congr
    intro entry mem
    rw [Function.comp_apply, hashItem, btItemGetKey_buildItem (valid entry mem)]
    by_cases equal : btCompareKeys kind entry.1 key = .eq
    · simp [hashcalc_congr equal]
    · simp [equal]
  rw [same]
  apply map_congr_left
  intro entry _
  exact btItemTid_buildItem kind entry.1 entry.2

theorem HashHolds.equalScan (holds : HashHolds kind index items chains entries)
    (valid : KeysValid kind entries) (key : List UInt8)
    (pages : index.nblocks ≤ fuel) (enough : entries.length < calls) :
    ∃ tids, hashgetbitmap fuel calls kind index ⟨some key, .equal⟩ = some tids ∧
      tids.Perm ((entries.filter fun entry =>
        btCompareKeys kind entry.1 key = .eq).map Prod.snd) := by
  generalize isKey : (⟨some key, .equal⟩ : BTScanKeyData) = scanKey
  have start : hashStartBucket kind index scanKey = hashcalc kind key kHashDefaultBuckets := by
    rw [← isKey, ← holds.buckets]
    rfl
  have scanned : hashScanned index items chains scanKey (hashStartBucket kind index scanKey) =
      contents items (chains (hashBucketToBlock (hashcalc kind key kHashDefaultBuckets))) := by
    rw [start, ← isKey]
    exact append_nil _
  have held := holds.held _ (hashcalc_lt kind key)
  have shorter : (bucketEntries kind entries
      (hashcalc kind key kHashDefaultBuckets)).length ≤ entries.length :=
    length_filter_le ..
  have ran := @HashHolds.getbitmap kind index items chains entries fuel holds
    scanKey calls pages (by
      rw [scanned, held.length_eq, length_map]
      exact shorter.trans_lt enough)
  refine ⟨_, ran, ?_⟩
  rw [scanned, ← filter_bucketEntries valid key, ← isKey]
  exact (held.filter _).map btItemTid

theorem flatMap_filter_range_perm (number : α → Nat) (list : List α) (count : Nat) :
    ((List.range count).flatMap fun bucket => list.filter fun value => number value = bucket).Perm
      (list.filter fun value => number value < count) := by
  induction count with
  | zero => simp
  | succ count ih =>
    rw [range_succ, flatMap_append, flatMap_singleton]
    apply List.Perm.trans (List.Perm.append_right _ ih)
    have split := filter_append_perm (fun value => number value < count)
      (list.filter fun value => number value < count + 1)
    rw [filter_filter, filter_filter] at split
    have below : (list.filter fun value =>
        number value < count && number value < count + 1) =
        list.filter fun value => decide (number value < count) := by
      apply filter_congr
      intro value _
      rw [Bool.eq_iff_iff, Bool.and_eq_true, decide_eq_true_iff, decide_eq_true_iff]
      omega
    have exactly : (list.filter fun value =>
        !decide (number value < count) && number value < count + 1) =
        list.filter fun value => decide (number value = count) := by
      apply filter_congr
      intro value _
      rw [Bool.eq_iff_iff, Bool.and_eq_true, Bool.not_eq_true',
        decide_eq_false_iff_not, decide_eq_true_iff, decide_eq_true_iff]
      omega
    rw [below, exactly] at split
    exact split

theorem HashHolds.fullScan (holds : HashHolds kind index items chains entries)
    (full : scanKey.strategy ≠ .equal)
    (pages : index.nblocks ≤ fuel) (enough : entries.length < calls) :
    ∃ tids, hashgetbitmap fuel calls kind index scanKey = some tids ∧
      tids.Perm (entries.map Prod.snd) := by
  have noKey : equalKey scanKey = none := if_neg full
  have start : hashStartBucket kind index scanKey = 0 := by rw [hashStartBucket, noKey]
  have scanned : hashScanned index items chains scanKey (hashStartBucket kind index scanKey) =
      (List.range kHashDefaultBuckets).flatMap fun bucket =>
        contents items (chains (hashBucketToBlock bucket)) := by
    have ranges : List.range kHashDefaultBuckets =
        0 :: List.range' (0 + 1) (kHashDefaultBuckets - (0 + 1)) := rfl
    rw [start, hashScanned, hashLaterBuckets, if_neg full, holds.buckets,
      flatMap_map, ranges, flatMap_cons]
  have all : (hashScanned index items chains scanKey (hashStartBucket kind index scanKey)).Perm
      (entries.map (hashItem kind)) := by
    rw [scanned]
    apply List.Perm.trans (List.Perm.flatMap_left _ fun bucket inRange =>
      holds.held bucket (mem_range.1 inRange))
    rw [← map_flatMap]
    apply List.Perm.map
    have whole := flatMap_filter_range_perm (fun entry : IndexEntry =>
      hashcalc kind entry.1 kHashDefaultBuckets) entries kHashDefaultBuckets
    have small : (entries.filter fun entry =>
        hashcalc kind entry.1 kHashDefaultBuckets < kHashDefaultBuckets) = entries := by
      apply filter_eq_self.2
      intro entry _
      exact decide_eq_true (hashcalc_lt kind entry.1)
    rw [small] at whole
    exact whole
  have accepted : hashAccepts kind scanKey = fun _ => true := by
    funext item
    rw [hashAccepts, noKey]
  have ran := @HashHolds.getbitmap kind index items chains entries fuel holds
    scanKey calls pages (by
      rw [all.length_eq, length_map]
      exact enough)
  refine ⟨_, ran, ?_⟩
  rw [accepted, filter_true]
  have tids : entries.map Prod.snd = (entries.map (hashItem kind)).map btItemTid := by
    rw [map_map]
    apply map_congr_left
    intro entry _
    exact (btItemTid_buildItem kind entry.1 entry.2).symm
  rw [tids]
  exact all.map btItemTid

end

end Pgcpp.Access

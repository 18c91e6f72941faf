import Mathlib.Algebra.Order.BigOperators.Group.List
import Pgcpp.Access.NbtPage
import Pgcpp.Lib.RoutedChain
import Pgcpp.Storage.PageRepair

/-!
# What a B-tree page holds

`Holds page items` reads a page as a list of items in line-pointer order.
Adding an item to a page with room adds it to the list, whatever bytes move.
Room is counted in bytes: an item takes its aligned length and a line pointer.
-/

namespace Pgcpp.Access

open Lib Storage List Function

def alignedTotal (items : List (List UInt8)) : Nat :=
  (items.map fun item => maxAlignUp item.length).sum

/-- The bytes an item takes with its line pointer. -/
def itemCost (item : List UInt8) : Nat := maxAlignUp item.length + kItemIdSize

def pageCost (items : List (List UInt8)) : Nat := (items.map itemCost).sum

/-- The bytes of a page between its header and its special area. -/
def pageCapacity : Nat := kBlckSz - kBTPageOpaqueSize - kPageHeaderSize

/-- The page consists of the given items. -/
structure Holds (page : PageData) (items : List (List UInt8)) : Prop where
  special : page.pdSpecial = kBlckSz - kBTPageOpaqueSize
  lower : page.pdLower = kPageHeaderSize + items.length * kItemIdSize
  upper : page.pdUpper + alignedTotal items = page.pdSpecial
  room : page.pdLower ≤ page.pdUpper
  slots : ∀ position item, items[position]? = some item → ∃ start, page.linp (position + 1) =
        { liOff := start, liFlags := .normal, liLen := item.length } ∧
      page.pdUpper ≤ start ∧
      page.bytes.slice start item.length = item

theorem pageCost_eq : pageCost items = alignedTotal items + items.length * kItemIdSize := by
  unfold pageCost alignedTotal
  induction items with
  | nil => rfl
  | cons _ _ ih =>
    simp only [map_cons, sum_cons, length_cons, ih, itemCost]
    ring

theorem pageCost_append (left right : List (List UInt8)) :
    pageCost (left ++ right) = pageCost left + pageCost right := by
  simp [pageCost]

theorem holds_init (flags : BitVec 32) (level : Nat) : Holds (btInitPage flags level).page [] := by
  constructor
  case special => rfl
  case lower => rfl
  case upper => rfl
  case room => exact (by decide : kPageHeaderSize ≤ kBlckSz - kBTPageOpaqueSize)
  case slots => simp

namespace Holds

section

variable (holds : Holds page items)

include holds

theorem maxOffsetNumber : page.maxOffsetNumber = items.length := by
  unfold PageData.maxOffsetNumber
  rw [holds.lower, Nat.add_sub_cancel_left]
  exact Nat.mul_div_cancel _ (by decide)

theorem item_eq (found : items[pos]? = some item) : page.item (pos + 1) = item := by
  obtain ⟨_, line, _, bytes⟩ := holds.slots pos item found
  rw [PageData.item, line]
  exact bytes

theorem normal (present : pos < items.length) : (page.linp (pos + 1)).liFlags = .normal := by
  obtain ⟨_, line, _⟩ := holds.slots pos _ (getElem?_eq_getElem present)
  rw [line]

theorem normalOffsets : page.normalOffsets = List.range' 1 items.length := by
  unfold PageData.normalOffsets
  rw [holds.maxOffsetNumber]
  apply filter_eq_self.2
  intro offset listed
  have bounds := mem_range'_1.1 listed
  have used := holds.normal (show offset - 1 < items.length by omega)
  rw [Nat.sub_add_cancel bounds.1] at used
  simp [used]

theorem readAllItems : btReadAllItems page = items := by
  unfold btReadAllItems
  rw [holds.normalOffsets]
  apply ext_getElem
  · simp
  intro _ _ present
  simp only [getElem_map, getElem_range', one_mul]
  rw [add_comm]
  exact holds.item_eq (getElem?_eq_getElem present)

theorem free : page.pdUpper + pageCost items = page.pdLower + pageCapacity := by
  have upper := holds.upper
  rw [holds.special] at upper
  rw [pageCost_eq, holds.lower]
  unfold pageCapacity kBlckSz kBTPageOpaqueSize kPageHeaderSize at *
  omega

theorem cost_le : pageCost items ≤ pageCapacity := by
  have := holds.free
  have := holds.room
  omega

theorem fits_iff : page.Fits item ↔ pageCost items + itemCost item ≤ pageCapacity := by
  have free := holds.free
  have lower := holds.lower
  unfold PageData.Fits itemCost
  rw [holds.maxOffsetNumber]
  unfold kItemIdSize at *
  omega

theorem slots_of_write (below : newUpper + block.length ≤ page.pdUpper)
    (found : items[pos]? = some other) :
    ∃ start, page.linp (pos + 1) = { liOff := start, liFlags := .normal, liLen := other.length } ∧
      newUpper ≤ start ∧
      (page.bytes.store newUpper block).slice start other.length = other := by
  obtain ⟨start, line, _, bytes⟩ := holds.slots pos other found
  refine ⟨start, line, by omega, ?_⟩
  rw [ByteMem.slice_store_of_disjoint]
  · exact bytes
  · omega

end

end Holds

/-- The page after `_bt_page_insert_item` found room. -/
def inserted (page : PageData) (item : List UInt8) (insertOffset : Nat) : PageData :=
  { page with
    bytes := page.bytes.store (page.pdUpper - maxAlignUp item.length) item, linp := update
      (fun offset =>
        if insertOffset < offset ∧ offset ≤ page.maxOffsetNumber + 1 then page.linp (offset - 1)
        else page.linp offset)
      insertOffset
      { liOff := page.pdUpper - maxAlignUp item.length, liFlags := .normal, liLen := item.length }
    pdLower := page.pdLower + kItemIdSize, pdUpper := page.pdUpper - maxAlignUp item.length }

theorem Holds.appended_eq (holds : Holds page items) :
    page.appended item = inserted page item (items.length + 1) := by
  have lines : (fun offset =>
      if items.length + 1 < offset ∧ offset ≤ page.maxOffsetNumber + 1 then page.linp (offset - 1)
      else page.linp offset) = page.linp := by
    funext offset
    rw [holds.maxOffsetNumber, if_neg (by omega)]
  unfold PageData.appended inserted
  rw [lines, holds.maxOffsetNumber, holds.lower]
  congr 1
  ring

theorem Holds.inserted (holds : Holds page items) (inside : pos ≤ items.length)
    (room : pageCost items + itemCost item ≤ pageCapacity) :
    Holds (inserted page item (pos + 1)) (items.insertIdx pos item) := by
  have aligned := le_maxAlignUp item.length
  have count := holds.maxOffsetNumber
  have free := holds.free
  have cost : itemCost item = maxAlignUp item.length + kItemIdSize := rfl
  have below : page.pdUpper - maxAlignUp item.length + item.length ≤ page.pdUpper := by omega
  constructor
  case special => exact holds.special
  case lower =>
    simp only [Access.inserted, length_insertIdx_of_le_length inside, holds.lower]
    ring
  case upper =>
    have total : alignedTotal (items.insertIdx pos item) =
        alignedTotal items + maxAlignUp item.length := by
      unfold alignedTotal
      rw [((perm_insertIdx item items inside).map _).sum_eq]
      simp [add_comm]
    have upper := holds.upper
    simp only [Access.inserted]
    omega
  case room =>
    simp only [Access.inserted]
    omega
  case slots =>
    intro index other found
    rcases Nat.lt_trichotomy index pos with before | rfl | after
    · rw [getElem?_insertIdx_of_lt before] at found
      obtain ⟨start, line, above, bytes⟩ := holds.slots_of_write below found
      refine ⟨start, ?_, above, bytes⟩
      rw [← line]
      simp only [Access.inserted]
      rw [update_of_ne (by omega), if_neg (by omega)]
    · rw [getElem?_insertIdx_self, if_pos inside] at found
      obtain rfl : item = other := by simpa using found
      refine ⟨page.pdUpper - maxAlignUp item.length, ?_, le_refl _, ?_⟩
      · simp [Access.inserted]
      · exact ByteMem.slice_store_self ..
    rw [getElem?_insertIdx_of_gt after] at found
    have present := (List.getElem?_eq_some_iff.1 found).1
    obtain ⟨start, line, above, bytes⟩ := holds.slots_of_write below found
    refine ⟨start, ?_, above, bytes⟩
    rw [← line]
    simp only [Access.inserted]
    rw [update_of_ne (by omega), if_pos (by omega)]
    congr 1
    omega

/-- A page takes an item when a spare line pointer is left over. -/
def hasRoom (items : List (List UInt8)) (item : List UInt8) : Bool :=
  pageCost items + itemCost item + kItemIdSize ≤ pageCapacity

theorem maxAlignUp_mod (size : Nat) : maxAlignUp size % 4 = 0 := by
  unfold maxAlignUp kItemIdSize
  omega

section

variable (holds : Holds page items)

include holds

theorem Holds.insertItem_of_room (room : hasRoom items item) (insertOffset : Nat) :
    btPageInsertItem page item insertOffset =
      (Access.inserted page item insertOffset, insertOffset) := by
  have free := holds.free
  have alignedMod := maxAlignUp_mod item.length
  have enough := of_decide_eq_true room
  have cost : itemCost item = maxAlignUp item.length + kItemIdSize := rfl
  have spacious : ¬page.heapFreeSpace < maxAlignUp item.length + kItemIdSize := by
    unfold PageData.heapFreeSpace maxAlignDown
    unfold kItemIdSize at *
    omega
  simp [btPageInsertItem, spacious, Access.inserted]

theorem Holds.insertItem_of_full (full : hasRoom items item = false) (insertOffset : Nat) :
    btPageInsertItem page item insertOffset = (page, kInvalidOffsetNumber) := by
  have free := holds.free
  have tooMuch := of_decide_eq_false full
  have cost : itemCost item = maxAlignUp item.length + kItemIdSize := rfl
  have cramped : page.heapFreeSpace < maxAlignUp item.length + kItemIdSize := by
    unfold PageData.heapFreeSpace maxAlignDown
    unfold kItemIdSize at *
    omega
  simp [btPageInsertItem, cramped]

theorem Holds.addItems (room : pageCost items + pageCost added ≤ pageCapacity) :
    Holds (btAddItems page added).1 (items ++ added) ∧
      ∀ result ∈ (btAddItems page added).2, result ≠ kInvalidOffsetNumber := by
  induction added generalizing page items with
  | nil => simpa [btAddItems] using holds
  | cons item rest ih =>
    have split : pageCost (item :: rest) = itemCost item + pageCost rest := by simp [pageCost]
    have fits : page.Fits item := by
      rw [holds.fits_iff]
      omega
    have next : Holds (page.appended item) (items ++ [item]) := by
      rw [holds.appended_eq]
      have placed := holds.inserted (le_refl items.length) (holds.fits_iff.1 fits)
      rwa [insertIdx_length_self] at placed
    have roomNext : pageCost (items ++ [item]) + pageCost rest ≤ pageCapacity := by
      have single : pageCost [item] = itemCost item := by simp [pageCost]
      rw [pageCost_append]
      omega
    obtain ⟨later, results⟩ := ih next roomNext
    simp only [btAddItems, PageData.addItem_of_fits fits]
    constructor
    · rwa [append_assoc] at later
    exact forall_mem_cons.2 ⟨Nat.succ_ne_zero _, results⟩

/-! ## Splitting in the middle -/

end

theorem pageCost_bounds (sized : ∀ entry ∈ entries,
      kBTItemSize ≤ entry.length ∧ entry.length ≤ 256) :
    entries.length * 12 ≤ pageCost entries ∧ pageCost entries ≤ entries.length * 260 := by
  unfold pageCost
  induction entries with
  | nil => simp
  | cons entry _ ih =>
    obtain ⟨_, _⟩ := sized entry (by simp)
    have later := ih fun other mem => sized other (by simp [mem])
    have cost : itemCost entry = (entry.length + 3) / 4 * 4 + 4 := rfl
    have size : kBTItemSize = 6 := rfl
    rw [map_cons, sum_cons, length_cons]
    omega

/-- Half of the items fit on a page: if one half were too large it would count
at least 32 items, and the other half would then take too much of the rest. -/
theorem halves_fit (sized : ∀ entry ∈ entries, kBTItemSize ≤ entry.length ∧ entry.length ≤ 256)
    (total : pageCost entries ≤ pageCapacity + 260) :
    pageCost (entries.take (entries.length / 2)) ≤ pageCapacity ∧
      pageCost (entries.drop (entries.length / 2)) ≤ pageCapacity := by
  have left := pageCost_bounds (show ∀ entry ∈ entries.take (entries.length / 2), _ from
    fun entry mem => sized entry (mem_of_mem_take mem))
  have right := pageCost_bounds (show ∀ entry ∈ entries.drop (entries.length / 2), _ from
    fun entry mem => sized entry (mem_of_mem_drop mem))
  have whole := pageCost_append (entries.take (entries.length / 2))
    (entries.drop (entries.length / 2))
  rw [take_append_drop] at whole
  rw [length_take] at left
  rw [length_drop] at right
  have capacity : pageCapacity = 8152 := rfl
  omega

/-! ## Searching a page -/

theorem find?_range'_eq_findIdx {entries : List α}
    (same : ∀ pos entry, entries[pos]? = some entry → test (start + pos) = accept entry) :
    ((List.range' start entries.length).find? test).getD (start + entries.length) =
      start + entries.findIdx accept := by
  induction entries generalizing start with
  | nil => rfl
  | cons entry rest ih =>
    have here : test start = accept entry := same 0 entry rfl
    rw [length_cons, range'_succ, find?_cons, here, findIdx_cons]
    cases accept entry with
    | true => rfl
    | false =>
      have stepped : ∀ pos other, rest[pos]? = some other →
          test (start + 1 + pos) = accept other := by
        intro pos other found
        rw [add_assoc, add_comm 1]
        exact same (pos + 1) other (by simpa using found)
      have later := ih stepped
      simp only [cond_false]
      rw [show start + (rest.length + 1) = start + 1 + rest.length by omega]
      omega

theorem Holds.findPos (holds : Holds page items) :
    btFindPos page kind key = items.findIdx (fun item =>
        (btCompareKeys kind key (btItemGetKey item)).isLE) + 1 := by
  unfold btFindPos
  rw [holds.maxOffsetNumber, add_comm items.length, add_comm (items.findIdx _)]
  apply find?_range'_eq_findIdx
  intro _ item found
  have present := (List.getElem?_eq_some_iff.1 found).1
  rw [add_comm, holds.item_eq found, holds.normal present]
  simp

/-! ## The internal root -/

/-- The entries of an internal root: the leftmost child without key, then the
routes. -/
def rootEntries (first : Nat) (routes : List (Nat × List UInt8)) : List (List UInt8) :=
  btInternalEntry first [] :: routes.map fun entry => btInternalEntry entry.1 entry.2

theorem btEntryChild_internalEntry (small : child < 2 ^ 32) :
    btEntryChild (btInternalEntry child key) = child := by
  unfold btEntryChild btInternalEntry field
  rw [drop_zero, take_left' (by rw [toBytes_length])]
  rw [ofBytes_toBytes]
  exact Nat.mod_eq_of_lt small

theorem btEntryKey_internalEntry : btEntryKey (btInternalEntry child key) = key := by
  exact drop_left' (by rw [toBytes_length])

theorem length_internalEntry :
    (btInternalEntry child key).length = kBlockNumberSize + key.length := by
  simp [btInternalEntry]

theorem btDescend_eq_route (behind : 2 ≤ start) (small : ∀ entry ∈ routes, entry.1 < 2 ^ 32)
    (lines : ∀ pos entry, routes[pos]? = some entry → (page.linp (start + pos)).liFlags = .normal ∧
        page.item (start + pos) = btInternalEntry entry.1 entry.2) (child : Nat) :
    btDescend page kind key child (List.range' start routes.length) =
      route (btCompareKeys kind) key child routes := by
  induction routes generalizing start child with
  | nil => rfl
  | cons entry _ ih =>
    obtain ⟨block, separator⟩ := entry
    obtain ⟨normal, bytes⟩ := lines 0 (block, separator) rfl
    rw [add_zero] at normal bytes
    have later := fun next => ih (show 2 ≤ start + 1 by omega)
      (fun entry mem => small entry (by simp [mem]))
      (fun pos other found => by
        rw [add_assoc, add_comm 1]
        exact lines (pos + 1) other (by simpa using found)) next
    have long : ¬(btInternalEntry block separator).length < kBlockNumberSize := by
      rw [length_internalEntry]
      omega
    have blockSmall : block < 2 ^ 32 := small (block, separator) (by simp)
    rw [length_cons, range'_succ, btDescend, route]
    simp only [normal, bytes, long, if_false, ne_eq, not_true_eq_false, show start ≠ 1 by omega,
      btEntryKey_internalEntry, btEntryChild_internalEntry blockSmall, later]

section

variable {first : Nat} {routes : List (Nat × List UInt8)}
  (holds : Holds page (rootEntries first routes))

include holds

theorem Holds.root_maxOffsetNumber : page.maxOffsetNumber = routes.length + 1 := by
  rw [holds.maxOffsetNumber]
  simp [rootEntries]

theorem Holds.root_first (small : first < 2 ^ 32) : btEntryChild (page.item 1) = first := by
  have listed : (rootEntries first routes)[0]? = some (btInternalEntry first []) := rfl
  rw [holds.item_eq listed, btEntryChild_internalEntry small]

theorem Holds.root_line (found : routes[pos]? = some entry) :
    (page.linp (2 + pos)).liFlags = .normal ∧
      page.item (2 + pos) = btInternalEntry entry.1 entry.2 := by
  have listed : (rootEntries first routes)[pos + 1]? = some (btInternalEntry entry.1 entry.2) := by
    simp [rootEntries, found]
  rw [add_comm]
  exact ⟨holds.normal (List.getElem?_eq_some_iff.1 listed).1, holds.item_eq listed⟩

theorem Holds.descend (firstSmall : first < 2 ^ 32) (small : ∀ entry ∈ routes, entry.1 < 2 ^ 32)
    (kind : BTKeyKind) (key : List UInt8) (rootBlock : Nat) :
    btDescend page kind key rootBlock (List.range' 1 page.maxOffsetNumber) =
      route (btCompareKeys kind) key first routes := by
  have listed : (rootEntries first routes)[0]? = some (btInternalEntry first []) := rfl
  have bytes := holds.item_eq listed
  have normal := holds.normal (List.getElem?_eq_some_iff.1 listed).1
  have long : ¬(btInternalEntry first []).length < kBlockNumberSize := by
    rw [length_internalEntry]
    omega
  rw [holds.root_maxOffsetNumber, range'_succ, btDescend]
  simp only [normal, bytes, btEntryChild_internalEntry firstSmall]
  exact btDescend_eq_route (le_refl 2) small (fun _ entry found => holds.root_line found) first

theorem Holds.findRootPos : btFindRootPos page kind key =
      routes.findIdx (fun entry => (btCompareKeys kind key entry.2).isLE) + 2 := by
  unfold btFindRootPos
  rw [holds.root_maxOffsetNumber, show routes.length + 1 + 1 = 2 + routes.length by omega,
    add_comm (routes.findIdx _)]
  apply find?_range'_eq_findIdx
  intro _ entry found
  obtain ⟨normal, bytes⟩ := holds.root_line found
  simp [normal, bytes, length_internalEntry, btEntryKey_internalEntry]

end

theorem rootEntries_insertIdx : (rootEntries first routes).insertIdx (routes.findIdx (fun entry =>
          (btCompareKeys kind key entry.2).isLE) + 1) (btInternalEntry child key) =
      rootEntries first (insertRoute (btCompareKeys kind) (child, key) routes) := by
  have ordered : routes.insertIdx
      (routes.findIdx fun entry => (btCompareKeys kind key entry.2).isLE)
      (child, key) = insertSorted (btCompareKeys kind) Prod.snd (child, key) routes :=
    insertIdx_findIdx_eq_insertSorted
  unfold rootEntries insertRoute
  rw [← ordered, insertIdx_succ_cons, map_insertIdx]

theorem Holds.insertSeparator (holds : Holds page (rootEntries first routes))
    (kind : BTKeyKind) (child : Nat) (key : List UInt8) :
    Holds (btPageInsertItem page (btInternalEntry child key) (btFindRootPos page kind key)).1
      (rootEntries first (if !decide ((btPageInsertItem page (btInternalEntry child key)
            (btFindRootPos page kind key)).2 = kInvalidOffsetNumber) then
          insertRoute (btCompareKeys kind) (child, key) routes else routes)) := by
  cases room : hasRoom (rootEntries first routes) (btInternalEntry child key) with
  | false =>
    rw [holds.insertItem_of_full room]
    simpa using holds
  | true =>
    have used : routes.findIdx (fun entry =>
        (btCompareKeys kind key entry.2).isLE) + 2 ≠
        kInvalidOffsetNumber := Nat.succ_ne_zero _
    rw [holds.insertItem_of_room room, holds.findRootPos]
    simp only [used, decide_false, Bool.not_false, if_true]
    rw [← rootEntries_insertIdx]
    have enough := of_decide_eq_true room
    apply holds.inserted
    · simp [rootEntries, findIdx_le_length]
    · omega

end Pgcpp.Access

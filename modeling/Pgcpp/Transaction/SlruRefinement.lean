import Pgcpp.Lib.Simulation
import Pgcpp.Transaction.Slru

/-!
# The cache is transparent

Loading, eviction and flushing do not change what the cache stands for, a write
changes the bytes it writes, and a read returns the bytes that are there.  The
order list has the cached pages in the order of their last use.
-/

namespace Pgcpp.Transaction

open Lib Function List SlruCtl

namespace SlruCtl

variable {ctl : SlruCtl}

theorem contents_of_find (found : findPage ctl.pages pageno = some page) :
    ctl.contents pageno = page.data := by
  rw [contents, found]

theorem contents_of_absent (absent : findPage ctl.pages pageno = none) :
    ctl.contents pageno = ctl.readPageFromDisk pageno := by
  rw [contents, absent]

namespace Consistent

/-- What eviction of the front of the order list leaves. -/
structure Evicted (ctl after : SlruCtl) : Prop where
  consistent : after.Consistent
  capacity : after.capacity = ctl.capacity
  contents : after.contents = ctl.contents
  order : after.lruOrder = ctl.lruOrder.tail
  keys : ∀ pageno, findPage ctl.pages pageno = none → findPage after.pages pageno = none

section

variable (consistent : ctl.Consistent)

include consistent

theorem evict (order : ctl.lruOrder = victim :: rest)
    (found : findPage ctl.pages victim = some page) {disk : Int → Option ByteMem}
    (others : ∀ pageno, pageno ≠ victim → disk pageno = ctl.disk pageno)
    (here : (disk victim).getD zeroPage = page.data) : Evicted ctl { ctl with
        disk := disk, lruOrder := rest, pages := erasePage ctl.pages victim } := by
  have keys : ((erasePage ctl.pages victim).map SlruPage.pageno).Nodup :=
    consistent.keys.sublist (filter_sublist.map _)
  have listed := consistent.order
  rw [order] at listed
  have erased : (erasePage ctl.pages victim).map SlruPage.pageno =
      (ctl.pages.map SlruPage.pageno).erase victim := by
    rw [consistent.keys.erase_eq_filter, filter_map]
    congr 1
    apply filter_congr
    intro other _
    rw [Bool.eq_iff_iff]
    simp
  have remaining : rest.Perm ((erasePage ctl.pages victim).map SlruPage.pageno) := by
    rw [erased]
    have both := listed.erase victim
    rwa [erase_cons_head] at both
  constructor
  · refine ⟨consistent.persistent, consistent.positive, keys, remaining, ?_, ?_⟩
    · exact (length_filter_le ..).trans consistent.size
    intro other mem clean
    obtain ⟨isCached, notVictim⟩ := mem_filter.1 mem
    have stays := others other.pageno (of_decide_eq_true notVictim)
    have before := consistent.clean other isCached clean
    rw [readPageFromDisk, ← stays] at before
    exact before
  · rfl
  · funext pageno
    by_cases isVictim : pageno = victim
    · rw [isVictim, contents_of_absent findPage_erase_self, contents_of_find found]
      exact here
    · simp [contents, findPage_erase_other isVictim, readPageFromDisk, others pageno isVictim]
  · rw [order]
    rfl
  intro pageno absent
  by_cases isVictim : pageno = victim
  · rw [isVictim]
    exact findPage_erase_self
  · exact (findPage_erase_other isVictim).trans absent

theorem evictOnePage (cached : ctl.pages ≠ []) :
    Evicted ctl ctl.evictOnePage ∧ ctl.evictOnePage.pages.length < ctl.capacity := by
  cases order : ctl.lruOrder with
  | nil =>
    have none := consistent.order
    rw [order] at none
    have empty := map_eq_nil_iff.1 none.nil_eq.symm
    exact absurd empty cached
  | cons victim _ =>
    have listed : victim ∈ ctl.pages.map SlruPage.pageno := by
      apply consistent.order.mem_iff.1
      rw [order]
      exact mem_cons_self
    cases found : findPage ctl.pages victim with
    | none => exact absurd listed (findPage_eq_none_iff.1 found)
    | some page =>
      have isPage := pageno_of_findPage found
      have mem := mem_of_findPage found
      have fewer : (erasePage ctl.pages victim).length < ctl.capacity := by
        apply lt_of_lt_of_le _ consistent.size
        apply length_filter_lt_length_iff_exists.2
        exact ⟨page, mem, by simp [isPage]⟩
      rw [SlruCtl.evictOnePage, order]
      simp only [found]
      split_ifs with dirty
      · refine ⟨consistent.evict order found ?_ ?_, fewer⟩
        · intro pageno ne
          rw [← isPage] at ne
          exact update_of_ne ne ..
        rw [← isPage]
        dsimp only [writePageToDisk]
        rw [update_self]
        rfl
      · refine ⟨consistent.evict order found (fun _ _ => rfl) ?_, fewer⟩
        have clean : page.status ≠ .dirty := fun isDirty => dirty ⟨isDirty, consistent.persistent⟩
        have same := consistent.clean page mem clean
        rw [isPage] at same
        exact same

theorem insert (absent : findPage ctl.pages page.pageno = none)
    (room : ctl.pages.length < ctl.capacity) (read : page.data = ctl.readPageFromDisk page.pageno) :
    Consistent { ctl with
        pages := ctl.pages ++ [page], lruOrder := ctl.lruOrder ++ [page.pageno] } := by
  have fresh := findPage_eq_none_iff.1 absent
  refine ⟨consistent.persistent, consistent.positive, ?_, ?_, ?_, ?_⟩
  · rw [map_append, map_singleton, ← concat_eq_append]
    exact consistent.keys.concat fresh
  · rw [map_append]
    exact consistent.order.append_right _
  · rw [length_append]
    exact room
  intro other mem clean
  rcases mem_append.1 mem with before | isNew
  · exact consistent.clean other before clean
  · rw [mem_singleton.1 isNew]
    exact read.symm

theorem miss (absent : findPage ctl.pages pageno = none) (room : ctl.pages.length < ctl.capacity) :
    let page : SlruPage :=
      { pageno := pageno, status := .valid, data := ctl.readPageFromDisk pageno }
    let after : SlruCtl :=
      { ctl with
        pages := ctl.pages ++ [page], lruOrder := ctl.lruOrder ++ [pageno] }
    after.Consistent ∧ after.contents = ctl.contents ∧ findPage after.pages pageno = some page := by
  intro page after
  have found : findPage after.pages pageno = some page := @findPage_append_self _ page absent
  refine ⟨@insert _ consistent page absent room rfl, ?_, found⟩
  funext other
  by_cases same : other = pageno
  · rw [same, contents_of_find found, contents_of_absent absent]
  have elsewhere : findPage after.pages other = findPage ctl.pages other :=
    findPage_append_other same
  rw [contents, elsewhere]
  rfl

end

/-- What `LoadPage` does. -/
structure Loaded (ctl : SlruCtl) (pageno : Int) (result : SlruCtl × SlruPage) : Prop where
  consistent : result.1.Consistent
  capacity : result.1.capacity = ctl.capacity
  contents : result.1.contents = ctl.contents
  found : findPage result.1.pages pageno = some result.2
  order : result.1.lruOrder <:+ ctl.lruOrder.erase pageno ++ [pageno]

theorem loadPage (consistent : ctl.Consistent) (pageno : Int) :
    Loaded ctl pageno (ctl.loadPage pageno) := by
  rw [SlruCtl.loadPage]
  cases found : findPage ctl.pages pageno with
  | some _ =>
    have listed : pageno ∈ ctl.lruOrder := by
      apply consistent.order.mem_iff.2
      rw [← pageno_of_findPage found]
      exact mem_map_of_mem (mem_of_findPage found)
    refine ⟨⟨consistent.persistent, consistent.positive, consistent.keys,
      ?_, consistent.size, consistent.clean⟩, rfl, rfl, found, suffix_rfl⟩
    apply (perm_append_singleton ..).trans
    exact (perm_cons_erase listed).symm.trans consistent.order
  | none =>
    have notListed : pageno ∉ ctl.lruOrder := by
      rw [consistent.order.mem_iff]
      exact findPage_eq_none_iff.1 found
    have kept : ctl.lruOrder.erase pageno = ctl.lruOrder := erase_of_not_mem notListed
    by_cases full : ctl.capacity ≤ ctl.pages.length
    · have cached : ctl.pages ≠ [] := by
        intro empty
        rw [empty] at full
        exact absurd (consistent.positive.trans full) (by decide)
      obtain ⟨evicted, room⟩ := consistent.evictOnePage cached
      rw [← evicted.capacity] at room
      obtain ⟨loaded, contents, isFound⟩ := evicted.consistent.miss (evicted.keys pageno found) room
      simp only [if_pos full, if_pos evicted.consistent.persistent]
      refine ⟨loaded, evicted.capacity, contents.trans evicted.contents, isFound, ?_⟩
      rw [evicted.order, kept]
      obtain ⟨front, split⟩ := ctl.lruOrder.tail_suffix
      exact ⟨front, by rw [← append_assoc, split]⟩
    · obtain ⟨loaded, contents, isFound⟩ := consistent.miss found (not_le.1 full)
      simp only [if_neg full, if_pos consistent.persistent]
      refine ⟨loaded, rfl, contents, isFound, ?_⟩
      simp [kept]

end Consistent

/-! ## Reads, writes and flushes -/

/-- What an operation leaves of the cache. -/
structure Keeps (ctl after : SlruCtl) (contents : Int → ByteMem) : Prop where
  consistent : after.Consistent
  capacity : after.capacity = ctl.capacity
  contents : after.contents = contents

namespace Consistent

section

variable (consistent : ctl.Consistent)

include consistent

theorem simpleLruRead (pageno : Int) (offset len : Nat) :
    Keeps ctl (ctl.simpleLruRead pageno offset len).1 ctl.contents ∧
      (ctl.simpleLruRead pageno offset len).2 = (ctl.contents pageno).slice offset len := by
  have loaded := consistent.loadPage pageno
  refine ⟨⟨loaded.consistent, loaded.capacity, loaded.contents⟩, ?_⟩
  rw [← loaded.contents, contents_of_find loaded.found]
  rfl

theorem setPage (dirty : page.status = .dirty) :
    Consistent { ctl with pages := Transaction.setPage ctl.pages page } := by
  have keeps (other : SlruPage) : (if other.pageno = page.pageno then page else other).pageno =
        other.pageno := by
    split_ifs with same
    · exact same.symm
    · rfl
  have numbers : (Transaction.setPage ctl.pages page).map SlruPage.pageno =
      ctl.pages.map SlruPage.pageno := map_pageno_map keeps
  refine ⟨consistent.persistent, consistent.positive, ?_, ?_, ?_, ?_⟩
  · rw [numbers]
    exact consistent.keys
  · rw [numbers]
    exact consistent.order
  · rw [Transaction.setPage, length_map]
    exact consistent.size
  intro other mem clean
  obtain ⟨before, isCached, rfl⟩ := mem_map.1 mem
  split_ifs at clean ⊢ with same
  · exact absurd dirty clean
  · exact consistent.clean before isCached clean

theorem simpleLruWrite (pageno : Int) (offset : Nat) (src : List UInt8) :
    Keeps ctl (ctl.simpleLruWrite pageno offset src) (update ctl.contents pageno
        ((ctl.contents pageno).store offset src)) := by
  have loaded := consistent.loadPage pageno
  have number := pageno_of_findPage loaded.found
  refine ⟨loaded.consistent.setPage rfl, loaded.capacity, ?_⟩
  have keeps (page other : SlruPage) : (if other.pageno = page.pageno then page else other).pageno =
        other.pageno := by
    split_ifs with same
    · exact same.symm
    · rfl
  rw [← loaded.contents]
  funext other
  rw [SlruCtl.contents, SlruCtl.simpleLruWrite]
  dsimp only
  rw [Transaction.setPage, findPage_map (keeps _)]
  by_cases same : other = pageno
  · rw [same, loaded.found, contents_of_find loaded.found]
    simp
  rw [update_of_ne same, contents]
  cases found : findPage (ctl.loadPage pageno).1.pages other with
  | none => rfl
  | some page =>
    have ne : page.pageno ≠ (ctl.loadPage pageno).2.pageno := by
      rw [pageno_of_findPage found, number]
      exact same
    simp [ne]

end

theorem foldl_flushedFile {pages : List SlruPage} (keys : (pages.map SlruPage.pageno).Nodup)
    (disk : Int → Option ByteMem) : pages.foldl flushedFile disk pageno =
      match findPage pages pageno with
      | some page => if page.status = .dirty then some page.data else disk pageno
      | none => disk pageno := by
  induction pages generalizing disk with
  | nil => rfl
  | cons page rest ih =>
    obtain ⟨fresh, keysRest⟩ := nodup_cons.1 keys
    rw [foldl_cons, ih keysRest]
    by_cases same : page.pageno = pageno
    · have absent : findPage rest pageno = none := by
        rw [findPage_eq_none_iff, ← same]
        exact fresh
      have here : findPage (page :: rest) pageno = some page := by simp [findPage, same]
      rw [absent, here]
      dsimp only
      rw [flushedFile]
      split_ifs
      · rw [same, update_self]
      · rfl
    · have later : findPage (page :: rest) pageno = findPage rest pageno := by simp [findPage, same]
      have untouched : flushedFile disk page pageno = disk pageno := by
        rw [flushedFile]
        split_ifs
        · exact update_of_ne (Ne.symm same) ..
        · rfl
      rw [later, untouched]

def flushed (page : SlruPage) : SlruPage :=
  if page.status = .dirty then { page with status := .valid } else page

theorem flushed_pageno (page : SlruPage) : (flushed page).pageno = page.pageno := by
  rw [flushed]
  split_ifs <;> rfl

theorem flushed_data (page : SlruPage) : (flushed page).data = page.data := by
  rw [flushed]
  split_ifs <;> rfl

theorem simpleLruFlush (consistent : ctl.Consistent) :
    Keeps ctl ctl.simpleLruFlush ctl.contents := by
  have result : ctl.simpleLruFlush = { ctl with
        disk := ctl.pages.foldl flushedFile ctl.disk, pages := ctl.pages.map flushed } :=
    if_pos consistent.persistent
  have numbers : (ctl.pages.map flushed).map SlruPage.pageno =
      ctl.pages.map SlruPage.pageno := map_pageno_map flushed_pageno
  rw [result]
  refine ⟨⟨consistent.persistent, consistent.positive, ?_, ?_, ?_, ?_⟩, rfl, ?_⟩
  · rw [numbers]
    exact consistent.keys
  · rw [numbers]
    exact consistent.order
  · rw [length_map]
    exact consistent.size
  · intro _ mem _
    obtain ⟨page, isCached, rfl⟩ := mem_map.1 mem
    rw [flushed_pageno, flushed_data, readPageFromDisk]
    dsimp only
    rw [foldl_flushedFile consistent.keys, findPage_of_mem consistent.keys isCached]
    dsimp only
    split_ifs with dirty
    · rfl
    · exact consistent.clean page isCached dirty
  · funext pageno
    rw [contents, contents, findPage_map flushed_pageno]
    cases found : findPage ctl.pages pageno with
    | some page => exact flushed_data page
    | none =>
      simp [readPageFromDisk, foldl_flushedFile consistent.keys, found]

end Consistent

end SlruCtl

inductive SlruAction where
  | read (pageno : Int) (offset len : Nat)
  | write (pageno : Int) (offset : Nat) (src : List UInt8)
  | flush
  deriving DecidableEq

namespace SlruAction

/-- Reads and writes stay within their page. -/
def withinPage : SlruAction → Bool
  | .read _ offset len => offset + len ≤ kSlruPageSize
  | .write _ offset src => offset + src.length ≤ kSlruPageSize
  | .flush => true

def uses : SlruAction → List Int
  | .read pageno _ _ => [pageno]
  | .write pageno _ _ => [pageno]
  | .flush => []

/-- The cache afterwards and the bytes that are returned; none for an access
outside a page. -/
def step (ctl : SlruCtl) (action : SlruAction) : Option (SlruCtl × List UInt8) :=
  if action.withinPage then
    some (match action with
      | .read pageno offset len => ctl.simpleLruRead pageno offset len
      | .write pageno offset src => (ctl.simpleLruWrite pageno offset src, [])
      | .flush => (ctl.simpleLruFlush, []))
  else none

/-- The same on a map from positions to bytes. -/
def flatStep (flat : Int → ByteMem) (action : SlruAction) : Option ((Int → ByteMem) × List UInt8) :=
  if action.withinPage then
    some (match action with
      | .read pageno offset len => (flat, (flat pageno).slice offset len)
      | .write pageno offset src => (update flat pageno ((flat pageno).store offset src), [])
      | .flush => (flat, []))
  else none

end SlruAction

theorem dedup_concat (uses : List Int) (pageno : Int) :
    (uses ++ [pageno]).dedup = uses.dedup.erase pageno ++ [pageno] := by
  induction uses with
  | nil => simp
  | cons first rest ih =>
    rw [cons_append]
    by_cases later : first ∈ rest
    · rw [dedup_cons_of_mem (mem_append_left _ later), dedup_cons_of_mem later, ih]
    rw [dedup_cons_of_notMem later]
    by_cases same : first = pageno
    · have again : first ∈ rest ++ [pageno] := by simp [same]
      have gone : pageno ∉ rest.dedup := by
        rw [mem_dedup, ← same]
        exact later
      rw [dedup_cons_of_mem again, ih, same, erase_cons_head, erase_of_not_mem gone]
    · have absent : first ∉ rest ++ [pageno] := by simp [later, same]
      rw [dedup_cons_of_notMem absent, ih, erase_cons_tail (by simpa using same), cons_append]

theorem suffix_dedup_concat (recent : order <:+ uses.dedup) (pageno : Int) :
    order.erase pageno ++ [pageno] <:+ (uses ++ [pageno]).dedup := by
  have distinct := nodup_dedup uses
  have kept : order.erase pageno <:+ uses.dedup.erase pageno := by
    rw [distinct.erase_eq_filter, (distinct.sublist recent.sublist).erase_eq_filter]
    exact recent.filter _
  obtain ⟨front, split⟩ := kept
  rw [dedup_concat]
  exact ⟨front, by rw [← append_assoc, split]⟩

/-- The invariant of a run, with the pages that were used. -/
structure SlruCtl.InUse (ctl : SlruCtl) (uses : List Int) : Prop where
  consistent : ctl.Consistent
  recent : ctl.lruOrder <:+ uses.dedup

theorem SlruCtl.InUse.step {action : SlruAction} (inUse : ctl.InUse uses)
    (within : action.withinPage) : ∃ after output, action.step ctl = some (after, output) ∧
      action.flatStep ctl.contents = some (after.contents, output) ∧
      after.InUse (uses ++ action.uses) ∧ after.capacity = ctl.capacity := by
  have consistent := inUse.consistent
  have used (pageno : Int) : (ctl.loadPage pageno).1.lruOrder <:+ (uses ++ [pageno]).dedup :=
    (consistent.loadPage pageno).order.trans (suffix_dedup_concat inUse.recent pageno)
  rw [SlruAction.step.eq_def, SlruAction.flatStep.eq_def, if_pos within, if_pos within]
  refine ⟨_, _, rfl, ?_⟩
  cases action with
  | read pageno offset len =>
    obtain ⟨keeps, output⟩ := consistent.simpleLruRead pageno offset len
    refine ⟨?_, ⟨keeps.consistent, used pageno⟩, keeps.capacity⟩
    rw [keeps.contents, output]
  | write pageno offset src =>
    have keeps := consistent.simpleLruWrite pageno offset src
    refine ⟨?_, ⟨keeps.consistent, used pageno⟩, keeps.capacity⟩
    rw [keeps.contents]
  | flush =>
    have keeps := consistent.simpleLruFlush
    refine ⟨by rw [keeps.contents], ⟨keeps.consistent, ?_⟩, keeps.capacity⟩
    have order : ctl.simpleLruFlush.lruOrder = ctl.lruOrder := by
      rw [simpleLruFlush]
      split_ifs <;> rfl
    rw [SlruAction.uses, append_nil]
    exact order ▸ inUse.recent

theorem SlruCtl.InUse.run (inUse : ctl.InUse uses)
    (within : ∀ action ∈ actions, action.withinPage) :
    ∃ last flat outputs, runCalls SlruAction.step ctl actions = some (last, outputs) ∧
      runCalls SlruAction.flatStep ctl.contents actions = some (flat, outputs) ∧
      last.InUse (uses ++ actions.flatMap SlruAction.uses) ∧ last.capacity = ctl.capacity := by
  induction actions generalizing ctl uses with
  | nil =>
    rw [flatMap_nil, append_nil]
    exact ⟨_, _, _, rfl, rfl, inUse, rfl⟩
  | cons action _ ih =>
    obtain ⟨first, rest⟩ := forall_mem_cons.1 within
    obtain ⟨_, _, stepped, flatStepped, inUseAfter, capacity⟩ := inUse.step first
    obtain ⟨last, flat, _, ran, flatRan, inUseLast, lastCapacity⟩ := ih inUseAfter rest
    rw [append_assoc] at inUseLast
    exact ⟨last, flat, _, runCalls_cons stepped ran, runCalls_cons flatStepped flatRan, inUseLast,
      lastCapacity.trans capacity⟩

/-- A cache with a directory against a flat map of bytes: every read returns
what the map has, no more pages are cached than the capacity allows, and the
order list has exactly the cached pages, in the order of their last use. -/
theorem simpleLru_refines_bytes {capacity : Nat} (positive : 1 ≤ capacity)
    (disk : Int → Option ByteMem) (actions : List SlruAction)
    (within : ∀ action ∈ actions, action.withinPage) : ∃ ctl flat outputs,
      runCalls SlruAction.step (simpleLruInit capacity true disk) actions = some (ctl, outputs) ∧
      runCalls SlruAction.flatStep (fun pageno => (disk pageno).getD zeroPage) actions =
        some (flat, outputs) ∧ ctl.pages.length ≤ capacity ∧ ctl.lruOrder.Nodup ∧
      ctl.lruOrder.Perm (ctl.pages.map SlruPage.pageno) ∧
      ctl.lruOrder <:+ (actions.flatMap SlruAction.uses).dedup := by
  have start : (simpleLruInit capacity true disk).InUse [] := by
    refine ⟨⟨rfl, positive, nodup_nil, .refl _, Nat.zero_le _, ?_⟩, nil_suffix⟩
    intro _ _
    contradiction
  obtain ⟨ctl, flat, outputs, ran, flatRan, ⟨consistent, recent⟩, same⟩ := start.run within
  refine ⟨ctl, flat, outputs, ran, flatRan, ?_, ?_, consistent.order, recent⟩
  · exact consistent.size.trans same.le
  · exact consistent.order.nodup_iff.2 consistent.keys

/-- One page fits, so every change of the page evicts the other one. -/
def alternatingUse : List SlruAction :=
  [.write 3 0 [1, 2], .read 4 8190 2, .write 4 1 [7], .flush, .read 3 0 3, .read 4 0 2]

theorem simpleLru_refines_bytes_alternatingUse : ∃ ctl flat outputs,
    runCalls SlruAction.step (simpleLruInit 1 true fun _ => none) alternatingUse =
        some (ctl, outputs) ∧
      runCalls SlruAction.flatStep (fun _ => (none : Option ByteMem).getD zeroPage)
        alternatingUse = some (flat, outputs) ∧ ctl.pages.length ≤ 1 ∧ ctl.lruOrder.Nodup ∧
      ctl.lruOrder.Perm (ctl.pages.map SlruPage.pageno) ∧
      ctl.lruOrder <:+ (alternatingUse.flatMap SlruAction.uses).dedup :=
  simpleLru_refines_bytes le_rfl (fun _ => none) alternatingUse (by decide)

example : (runCalls SlruAction.step (simpleLruInit 1 true fun _ => none) alternatingUse).map
    Prod.snd = some [[], [0, 0], [], [], [1, 2, 0], [0, 7]] := by
  decide +kernel

end Pgcpp.Transaction

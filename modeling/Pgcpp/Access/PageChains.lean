import Pgcpp.Access.IndexPages
import Pgcpp.Access.NbtLayout
import Pgcpp.Lib.LinkedChain

/-!
# What chains of index pages hold

Chains that share no page, each with the items of its pages.  An insertion adds
its item to one chain and leaves the others alone; a scan returns the items of
the chains it visits.
-/

namespace Pgcpp.Access

open Lib Storage Function Nat
open List hiding after chains count head

namespace IndexFile

variable {Meta : Type} {file after : IndexFile Meta}

/-- The block that follows in the chain. -/
def next (file : IndexFile Meta) (block : Nat) : Option Nat :=
  if (file.pages block).special.btpoNext = 0 then none else some (file.pages block).special.btpoNext

theorem next_congr (same : (after.pages block).special.btpoNext =
      (file.pages block).special.btpoNext) : after.next block = file.next block := by
  simp [next, same]

theorem next_eq_none (isLast : (file.pages block).special.btpoNext = 0) : file.next block = none :=
  if_pos isLast

theorem next_eq_some (linked : (file.pages block).special.btpoNext = other)
    (pos : other ≠ 0) : file.next block = some other := by
  simp only [next, linked, pos, if_false]

/-- The pages from a block on, with their items. -/
structure Chain (file : IndexFile Meta) (items : Nat → List (List UInt8))
    (head : Nat) (blocks : List Nat) : Prop where
  linked : ChainFrom file.next (some head) blocks
  held : ∀ block ∈ blocks, Holds (file.pages block).page (items block)
  below : ∀ block ∈ blocks, block < file.nblocks

theorem Chain.eq_cons (chain : file.Chain items head blocks) : ∃ rest, blocks = head :: rest := by
  cases chain.linked with
  | cons _ => exact ⟨_, rfl⟩

theorem Chain.length_le (chain : file.Chain items head blocks) : blocks.length ≤ file.nblocks := by
  have inside : blocks ⊆ List.range file.nblocks := by
    intro block mem
    exact mem_range.2 (chain.below block mem)
  have shorter := (chain.linked.nodup.subperm inside).length_le
  rwa [length_range] at shorter

/-! ## One page -/

theorem hasSpace_iff (holds : Holds page.page items) :
    hasSpace page item ↔ pageCost items + itemCost item ≤ pageCapacity := by
  rw [← holds.fits_iff, hasSpace, decide_eq_true_iff]
  constructor
  · intro found
    by_contra full
    exact found (congrArg Prod.snd (PageData.addItem_of_not_fits full))
  · intro fits
    rw [PageData.addItem_of_fits fits]
    exact succ_ne_zero _

theorem holds_addTo (holds : Holds page.page items) (space : hasSpace page item) :
    Holds (addTo page item).page (items ++ [item]) := by
  have room := (hasSpace_iff holds).1 space
  have single : pageCost [item] = itemCost item := by simp [pageCost]
  have added := holds.addItems (show pageCost items + pageCost [item] ≤
    pageCapacity by rw [single]; exact room)
  exact added.1

theorem holds_foldl_addTo (holds : Holds page.page items)
    (room : pageCost items + pageCost added ≤ pageCapacity) :
    Holds (added.foldl addTo page).page (items ++ added) ∧
      (added.foldl addTo page).special = page.special := by
  induction added generalizing page items with
  | nil =>
    rw [append_nil]
    exact ⟨holds, rfl⟩
  | cons item rest ih =>
    have split : pageCost (item :: rest) = itemCost item + pageCost rest := by simp [pageCost]
    have single : pageCost [item] = itemCost item := by simp [pageCost]
    have space : hasSpace page item := by
      apply (hasSpace_iff holds).2
      omega
    have later := ih (holds_addTo holds space) (by
      rw [pageCost_append]
      omega)
    rw [append_assoc] at later
    exact later

theorem find?_offsets (holds : Holds page items) (count pos : Nat)
    (isEnd : pos + count = items.length) : ((List.range' (pos + 1) count).find? fun offset =>
      (page.linp offset).liFlags = .normal && accept (page.item offset)) =
      ((items.drop pos).findIdx? accept).map (· + (pos + 1)) := by
  induction count generalizing pos with
  | zero =>
    rw [add_zero] at isEnd
    rw [drop_eq_nil_of_le (le_of_eq isEnd.symm)]
    rfl
  | succ count ih =>
    have bound : pos < items.length := by omega
    have found : items[pos]? = some items[pos] := getElem?_eq_getElem bound
    have later := ih (pos + 1) (by omega)
    rw [range'_succ, find?_cons, holds.normal bound, holds.item_eq found,
      drop_eq_getElem_cons bound, findIdx?_cons, decide_eq_true rfl, Bool.true_and]
    cases accept items[pos] with
    | true => rw [if_pos rfl, Option.map_some, zero_add]
    | false =>
      have shifted : (· + (pos + 1 + 1)) = (· + (pos + 1)) ∘ (· + 1) := by
        funext index
        rw [comp_apply]
        omega
      rw [if_neg Bool.false_ne_true, Option.map_map, ← shifted]
      exact later

theorem find?_offset (holds : Holds page items) (accept : List UInt8 → Bool) :
    ((List.range' 1 page.maxOffsetNumber).find? fun offset =>
      (page.linp offset).liFlags = .normal && accept (page.item offset)) =
      (items.findIdx? accept).map (· + 1) := by
  rw [holds.maxOffsetNumber]
  exact find?_offsets holds items.length 0 (zero_add _)

section

variable {countBlocks : Meta → Nat → Meta}

/-- What the loop of an insertion does to a chain. -/
inductive Added (file : IndexFile Meta) (countBlocks : Meta → Nat → Meta)
    (newPage : BTPage) (item : List UInt8) (blocks : List Nat) : IndexFile Meta → Prop where
  | placed (member : block ∈ blocks) (space : hasSpace (file.pages block) item) :
      Added file countBlocks newPage item blocks
        (file.setPage block (addTo (file.pages block) item))
  | extended (isLast : blocks = front ++ [last]) (room : file.nblocks < kInvalidBlockNumber) :
      Added file countBlocks newPage item blocks
        { metaPage := countBlocks file.metaPage (file.nblocks + 1), pages := update
            (update file.pages last (linkTo (file.pages last) file.nblocks))
            file.nblocks (addTo newPage item)
          nblocks := file.nblocks + 1 }

theorem Added.cons (added : Added file countBlocks newPage item blocks after) (block : Nat) :
    Added file countBlocks newPage item (block :: blocks) after := by
  cases added with
  | placed mem space => exact .placed (mem_cons_of_mem _ mem) space
  | @extended front last isLast room =>
    have longer : block :: blocks = (block :: front) ++ [last] := by rw [isLast, cons_append]
    exact .extended longer room

theorem addToChain_of_space (space : hasSpace (file.pages block) item) :
    addToChain countBlocks newPage item (fuel + 1) file block =
      some (file.setPage block (addTo (file.pages block) item)) := by
  exact if_pos space

section

variable (space : hasSpace newPage item)

include space

theorem addToChain_of_last (below : block < file.nblocks)
    (full : ¬hasSpace (file.pages block) item)
    (isLast : (file.pages block).special.btpoNext = 0) (room : file.nblocks < kInvalidBlockNumber) :
    addToChain countBlocks newPage item (fuel + 2) file block = some
        { metaPage := countBlocks file.metaPage (file.nblocks + 1), pages := update
            (update file.pages block (linkTo (file.pages block) file.nblocks))
            file.nblocks (addTo newPage item), nblocks := file.nblocks + 1 } := by
  let grown : IndexFile Meta :=
    { metaPage := countBlocks file.metaPage (file.nblocks + 1), pages := update
        (update file.pages file.nblocks newPage) block
        (linkTo (file.pages block) file.nblocks)
      nblocks := file.nblocks + 1 }
  have ne : file.nblocks ≠ block := below.ne'
  have isNew : grown.pages file.nblocks = newPage := by
    dsimp only [grown]
    rw [update_of_ne ne, update_self]
  have added : addToChain countBlocks newPage item (fuel + 1) grown file.nblocks =
      some (grown.setPage file.nblocks (addTo newPage item)) := by
    rw [addToChain_of_space (by rw [isNew]; exact space), isNew]
  have sameFile : grown.setPage file.nblocks (addTo newPage item) =
      { metaPage := countBlocks file.metaPage (file.nblocks + 1), pages := update
          (update file.pages block (linkTo (file.pages block) file.nblocks))
          file.nblocks (addTo newPage item)
        nblocks := file.nblocks + 1 } := by
    dsimp only [setPage]
    rw [update_comm ne.symm, update_idem, update_comm ne]
  rw [← sameFile, ← added, addToChain]
  rw [if_neg full, if_pos isLast, extend, if_pos room]
  rfl

section

variable (linked : ChainFrom file.next (some head) blocks)
  (below : ∀ block ∈ blocks, block < file.nblocks)

include linked below

theorem added_of_addToChain
    (ran : addToChain countBlocks newPage item fuel file head = some after) :
    Added file countBlocks newPage item blocks after := by
  induction fuel generalizing head blocks with
  | zero => contradiction
  | succ fuel ih =>
    cases linked with
    | @cons _ rest later =>
      by_cases found : hasSpace (file.pages head) item
      · rw [addToChain_of_space found] at ran
        cases ran
        exact .placed mem_cons_self found
      by_cases isLast : (file.pages head).special.btpoNext = 0
      · have nothing : rest = [] := by
          rw [next, if_pos isLast] at later
          cases later
          rfl
        subst nothing
        by_cases room : file.nblocks < kInvalidBlockNumber
        · cases fuel with
          | zero =>
            rw [addToChain] at ran
            rw [if_neg found, if_pos isLast, extend, if_pos room] at ran
            contradiction
          | succ fuel =>
            rw [addToChain_of_last space (below head mem_cons_self) found isLast room] at ran
            cases ran
            exact .extended (nil_append [head]).symm room
        · rw [addToChain] at ran
          rw [if_neg found, if_pos isLast, extend, if_neg room] at ran
          contradiction
      · rw [addToChain] at ran
        rw [if_neg found, if_neg isLast] at ran
        rw [next, if_neg isLast] at later
        apply Added.cons
        apply ih later _ ran
        intro block mem
        exact below block (mem_cons_of_mem _ mem)

theorem isSome_addToChain (room : file.nblocks < kInvalidBlockNumber)
    (enough : blocks.length < fuel) :
    (addToChain countBlocks newPage item fuel file head).isSome := by
  induction blocks generalizing head fuel with
  | nil => cases linked
  | cons block _ ih =>
    cases linked with
    | cons later =>
      obtain ⟨fuel, rfl⟩ : ∃ more, fuel = more + 2 :=
        ⟨fuel - 2, by rw [length_cons] at enough; omega⟩
      by_cases found : hasSpace (file.pages block) item
      · rw [addToChain_of_space found]
        rfl
      by_cases isLast : (file.pages block).special.btpoNext = 0
      · rw [addToChain_of_last space (below block mem_cons_self) found isLast room]
        rfl
      rw [addToChain]
      rw [if_neg found, if_neg isLast]
      rw [next, if_neg isLast] at later
      apply ih later
      · intro other mem
        exact below other (mem_cons_of_mem _ mem)
      · exact lt_of_succ_lt_succ enough

end

end

end

/-! ## Several chains -/

def contents (items : Nat → List (List UInt8)) (blocks : List Nat) : List (List UInt8) :=
  blocks.flatMap items

/-- Chains that share no page. -/
structure Chains (file : IndexFile Meta) (items : Nat → List (List UInt8))
    (heads : List Nat) (chains : Nat → List Nat) : Prop where
  chain : ∀ head ∈ heads, file.Chain items head (chains head)
  apart : ∀ left ∈ heads, ∀ right ∈ heads, left ≠ right →
    ∀ block ∈ chains left, block ∉ chains right

theorem Chain.frame (chain : file.Chain items head blocks)
    (samePages : ∀ block ∈ blocks, after.pages block = file.pages block)
    (sameItems : ∀ block ∈ blocks, itemsAfter block = items block)
    (larger : file.nblocks ≤ after.nblocks) : after.Chain itemsAfter head blocks := by
  refine ⟨chain.linked.congr ?_, ?_, ?_⟩
  · intro block mem
    apply next_congr
    rw [samePages block mem]
  · intro block mem
    rw [samePages block mem, sameItems block mem]
    exact chain.held block mem
  · intro block mem
    exact lt_of_lt_of_le (chain.below block mem) larger

theorem Chains.frame (formed : file.Chains items heads chains)
    (same : ∀ head ∈ heads, ∀ block ∈ chains head, after.pages block = file.pages block)
    (larger : file.nblocks ≤ after.nblocks) : after.Chains items heads chains := by
  refine ⟨?_, formed.apart⟩
  intro head isHead
  exact (formed.chain head isHead).frame (same head isHead) (fun _ _ => rfl) larger

theorem Chains.newHead (formed : file.Chains items heads chains)
    (fresh : ∀ head ∈ heads, ∀ block ∈ chains head, block ≠ new)
    (single : (file.pages new).special.btpoNext = 0)
    (holds : Holds (file.pages new).page held) (below : new < file.nblocks) :
    file.Chains (update items new held) (heads ++ [new]) (update chains new [new]) := by
  have notHead : ∀ head ∈ heads, head ≠ new := by
    intro head isHead
    obtain ⟨_, isChain⟩ := (formed.chain head isHead).eq_cons
    apply fresh head isHead
    rw [isChain]
    exact mem_cons_self
  have old {head : Nat} (isHead : head ∈ heads) : update chains new [new] head = chains head :=
    update_of_ne (notHead head isHead) ..
  have cases {head : Nat} (isHead : head ∈ heads ++ [new]) : head ∈ heads ∨ head = new := by
    rcases mem_append.1 isHead with there | isNew
    · exact .inl there
    · exact .inr (mem_singleton.1 isNew)
  constructor
  · intro head isHead
    rcases cases isHead with there | rfl
    · rw [old there]
      apply (formed.chain head there).frame (fun _ _ => rfl) _ le_rfl
      intro block mem
      exact update_of_ne (fresh head there block mem) ..
    rw [update_self]
    refine ⟨?_, ?_, ?_⟩
    · apply ChainFrom.cons
      rw [next_eq_none single]
      exact .nil
    · intro block mem
      rw [mem_singleton.1 mem, update_self]
      exact holds
    · intro block mem
      rw [mem_singleton.1 mem]
      exact below
  · intro left isLeft right isRight ne block inLeft inRight
    rcases cases isLeft with leftThere | rfl
    · rw [old leftThere] at inLeft
      rcases cases isRight with rightThere | rfl
      · rw [old rightThere] at inRight
        exact formed.apart left leftThere right rightThere ne block inLeft inRight
      · rw [update_self] at inRight
        exact fresh left leftThere block inLeft (mem_singleton.1 inRight)
    · rw [update_self] at inLeft
      rcases cases isRight with rightThere | rfl
      · rw [old rightThere] at inRight
        exact fresh right rightThere block inRight (mem_singleton.1 inLeft)
      · exact ne rfl

theorem contents_congr (same : ∀ block ∈ blocks, other block = items block) :
    contents other blocks = contents items blocks :=
  flatMap_congr same

theorem contents_update_perm (distinct : blocks.Nodup) (mem : block ∈ blocks) :
    (contents (update items block (items block ++ [item]))
      blocks).Perm (item :: contents items blocks) := by
  obtain ⟨before, behind, rfl⟩ := append_of_mem mem
  have separate := nodup_middle.1 distinct
  obtain ⟨absent, -⟩ := nodup_cons.1 separate
  rw [mem_append, not_or] at absent
  have same (blocks : List Nat) (notThere : block ∉ blocks) :
      contents (update items block (items block ++ [item])) blocks = contents items blocks := by
    apply contents_congr
    intro _ there
    apply update_of_ne
    intro isBlock
    exact notThere (isBlock ▸ there)
  have split (items : Nat → List (List UInt8)) : contents items (before ++ block :: behind) =
        contents items before ++ (items block ++ contents items behind) := by
    rw [contents, flatMap_append, flatMap_cons, contents, contents]
  rw [split, split, same before absent.1, same behind absent.2, update_self, append_assoc]
  apply List.Perm.trans (List.Perm.append_left _ (perm_middle (a := item)))
  exact perm_middle

/-- What an insertion leaves of the chains. -/
structure ChainsAfter (file : IndexFile Meta) (items : Nat → List (List UInt8)) (heads : List Nat)
    (chains : Nat → List Nat) (head : Nat) (item : List UInt8)
    (after : IndexFile Meta) (itemsAfter : Nat → List (List UInt8))
    (chainsAfter : Nat → List Nat) : Prop where
  kept : after.Chains itemsAfter heads chainsAfter
  added : (contents itemsAfter (chainsAfter head)).Perm (item :: contents items (chains head))
  others : ∀ other ∈ heads, other ≠ head →
    contents itemsAfter (chainsAfter other) = contents items (chains other)
  blocks : ∀ other ∈ heads, ∀ block ∈ chainsAfter other, block ∈ chains other ∨ block = file.nblocks
  pages : ∀ block < file.nblocks, block ∉ chains head → after.pages block = file.pages block
  larger : file.nblocks ≤ after.nblocks ∧ after.nblocks ≤ file.nblocks + 1

section

variable {items : Nat → List (List UInt8)} {chains : Nat → List Nat}

section

variable (formed : file.Chains items heads chains)

include formed

theorem Chains.placed (isHead : head ∈ heads) (mem : block ∈ chains head)
    (space : hasSpace (file.pages block) item) : ChainsAfter file items heads chains head item
      (file.setPage block (addTo (file.pages block) item))
      (update items block (items block ++ [item])) chains := by
  have chain := formed.chain head isHead
  have sameNext (other : Nat) : (file.setPage block (addTo (file.pages block) item)).next other =
        file.next other := by
    apply next_congr
    rw [setPage]
    dsimp only
    by_cases same : other = block
    · rw [same, update_self, addTo]
    · rw [update_of_ne same]
  have otherChain (other : Nat) (isOther : other ∈ heads)
      (ne : other ≠ head) : block ∉ chains other := by
    exact formed.apart head isHead other isOther ne.symm block mem
  constructor
  case kept =>
    refine ⟨?_, formed.apart⟩
    intro other isOther
    have before := formed.chain other isOther
    refine ⟨before.linked.congr fun node _ => sameNext node, ?_, before.below⟩
    intro place there
    rw [setPage]
    dsimp only
    by_cases same : place = block
    · rw [same, update_self, update_self]
      exact holds_addTo (chain.held block mem) space
    · rw [update_of_ne same, update_of_ne same]
      exact before.held place there
  case added => exact contents_update_perm chain.linked.nodup mem
  case others =>
    intro other isOther ne
    apply contents_congr
    intro place there
    apply update_of_ne
    intro same
    exact otherChain other isOther ne (same ▸ there)
  case blocks =>
    intro other _ place there
    exact .inl there
  case pages =>
    intro place _ absent
    apply update_of_ne
    intro same
    exact absent (same ▸ mem)
  case larger => exact ⟨le_rfl, le_succ _⟩

theorem Chains.extended (isHead : head ∈ heads) {front : List Nat} {last : Nat}
    (isLast : chains head = front ++ [last]) {newPage : BTPage}
    (empty : Holds newPage.page []) (single : newPage.special.btpoNext = 0)
    (space : hasSpace newPage item) (metaAfter : Meta) :
    ChainsAfter file items heads chains head item
      { metaPage := metaAfter, pages := update
          (update file.pages last (linkTo (file.pages last) file.nblocks))
          file.nblocks (addTo newPage item), nblocks := file.nblocks + 1 }
      (update items file.nblocks [item]) (update chains head (chains head ++ [file.nblocks])) := by
  have chain := formed.chain head isHead
  have lastThere : last ∈ chains head := by
    rw [isLast]
    exact mem_append_right _ mem_cons_self
  have notNew (other : Nat) (isOther : other ∈ heads) :
      ∀ block ∈ chains other, block ≠ file.nblocks := by
    intro block there
    exact Nat.ne_of_lt ((formed.chain other isOther).below block there)
  have lastDifferent : file.nblocks ≠ last := (notNew head isHead last lastThere).symm
  generalize isAfter : ({
      metaPage := metaAfter, pages := update
        (update file.pages last (linkTo (file.pages last) file.nblocks))
        file.nblocks (addTo newPage item)
      nblocks := file.nblocks + 1 } : IndexFile Meta) = after
  have pageNew : after.pages file.nblocks = addTo newPage item := by
    rw [← isAfter]
    exact update_self ..
  have pageLast : after.pages last = linkTo (file.pages last) file.nblocks := by
    rw [← isAfter]
    dsimp only
    rw [update_of_ne lastDifferent.symm, update_self]
  have pageOther (block : Nat) (notNew : block ≠ file.nblocks)
      (notLast : block ≠ last) : after.pages block = file.pages block := by
    rw [← isAfter]
    dsimp only
    rw [update_of_ne notNew, update_of_ne notLast]
  have blocksAfter : after.nblocks = file.nblocks + 1 := by rw [← isAfter]
  have sameItems (other : Nat) (isOther : other ∈ heads) :
      contents (update items file.nblocks [item]) (chains other) =
        contents items (chains other) := by
    apply contents_congr
    intro block there
    exact update_of_ne (notNew other isOther block there) ..
  have grown (other : Nat) (block : Nat) (there : block ∈ update chains head
        (chains head ++ [file.nblocks]) other) :
      block ∈ chains other ∨ block = file.nblocks ∧ other = head := by
    by_cases same : other = head
    · subst same
      rw [update_self] at there
      rcases mem_append.1 there with old | isNew
      · exact .inl old
      · exact .inr ⟨mem_singleton.1 isNew, rfl⟩
    · rw [update_of_ne same] at there
      exact .inl there
  constructor
  case kept =>
    constructor
    · intro other isOther
      by_cases same : other = head
      · subst same
        rw [update_self]
        constructor
        · have distinct := chain.linked.nodup
          have linked := chain.linked
          rw [isLast] at distinct linked
          rw [isLast, append_assoc]
          apply linked.concat
          · apply next_eq_some
            · rw [pageLast, linkTo]
            · exact ne_of_gt (zero_lt_of_lt (chain.below last lastThere))
          · apply next_eq_none
            rw [pageNew]
            exact single
          intro node there
          have inChain : node ∈ chains other := by
            rw [isLast]
            exact mem_append_left _ there
          apply next_congr
          rw [pageOther node (notNew other isHead node inChain)]
          intro isLastNode
          subst isLastNode
          exact (nodup_append.1 distinct).2.2 node there node mem_cons_self rfl
        · intro block there
          rcases mem_append.1 there with old | isNew
          · rw [update_of_ne (notNew other isHead block old)]
            by_cases lastBlock : block = last
            · rw [lastBlock, pageLast]
              exact chain.held last lastThere
            · rw [pageOther block (notNew other isHead block old) lastBlock]
              exact chain.held block old
          · rw [mem_singleton.1 isNew, pageNew, update_self]
            exact holds_addTo empty space
        · intro block there
          rw [blocksAfter]
          rcases mem_append.1 there with old | isNew
          · exact lt_succ_of_lt (chain.below block old)
          · rw [mem_singleton.1 isNew]
            exact lt_add_one _
      · rw [update_of_ne same]
        apply (formed.chain other isOther).frame
        · intro block there
          apply pageOther block (notNew other isOther block there)
          rintro rfl
          exact formed.apart head isHead other isOther (Ne.symm same) block lastThere there
        · intro block there
          exact update_of_ne (notNew other isOther block there) ..
        · rw [blocksAfter]
          exact le_succ _
    · intro left isLeft right isRight ne block inLeft inRight
      rcases grown left block inLeft with oldLeft | ⟨newLeft, leftHead⟩
      · rcases grown right block inRight with oldRight | ⟨newRight, -⟩
        · exact formed.apart left isLeft right isRight ne block oldLeft oldRight
        · exact notNew left isLeft block oldLeft newRight
      · rcases grown right block inRight with oldRight | ⟨-, rightHead⟩
        · exact notNew right isRight block oldRight newLeft
        · exact ne (leftHead.trans rightHead.symm)
  case added =>
    rw [update_self, contents, flatMap_append, ← contents,
      sameItems head isHead, flatMap_singleton, update_self]
    exact perm_append_singleton ..
  case others =>
    intro other isOther ne
    rw [update_of_ne ne, sameItems other isOther]
  case blocks =>
    intro other _ block there
    exact (grown other block there).imp_right And.left
  case pages =>
    intro block below absent
    apply pageOther block below.ne
    intro lastBlock
    exact absent (lastBlock ▸ lastThere)
  case larger =>
    rw [blocksAfter]
    exact ⟨le_succ _, le_rfl⟩

theorem Chains.added (isHead : head ∈ heads) (empty : Holds newPage.page [])
    (single : newPage.special.btpoNext = 0) (space : hasSpace newPage item)
    (added : Added file countBlocks newPage item (chains head) after) : ∃ itemsAfter chainsAfter,
      ChainsAfter file items heads chains head item after itemsAfter chainsAfter ∧
      ∃ countedBlocks, after.metaPage = file.metaPage ∨
        after.metaPage = countBlocks file.metaPage countedBlocks := by
  cases added with
  | placed mem found => exact ⟨_, _, formed.placed isHead mem found, 0, .inl rfl⟩
  | extended isLast _ =>
    exact ⟨_, _, formed.extended isHead isLast empty single space _, _, .inr rfl⟩

end

end

end IndexFile

end Pgcpp.Access

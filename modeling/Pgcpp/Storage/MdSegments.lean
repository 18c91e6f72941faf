import Pgcpp.Lib.Blocks
import Pgcpp.Lib.Simulation
import Pgcpp.Storage.BufInternals
import Pgcpp.Storage.BufPage

/-!
# Segment files of a relation

The storage manager with the bytes of the files and the descriptors that the
process has for them.  A fork is cut into segments of `kRelSegSize` blocks; a
segment has a file of its own, which is opened when a block of it is used.
-/

namespace Pgcpp.Storage

open Function List

def kNumForks : Nat := 4

/-- An index of `md_fd`. -/
abbrev MdFork := Fin kNumForks

def mainFork : MdFork := ⟨0, Nat.succ_pos 3⟩

abbrev BlockNumber := BitVec 32

structure MdBlock where
  bytes : List UInt8
  size : bytes.length = kBlckSz
  deriving DecidableEq

/-- The errors that are raised: `could not open file`, `could not read block:
unexpected end of file` and `relation file already exists`. -/
inductive MdError where
  | couldNotOpen (fork : MdFork) (segno : Nat)
  | unexpectedEndOfFile
  | alreadyExists (fork : MdFork)
  deriving DecidableEq

/-- The files of a relation, by fork and segment, and the entries of `md_fd`,
which say whether a segment is open.  A file is not unlinked while it is open. -/
@[ext]
structure SmgrRelationData where
  files : MdFork → Nat → Option (List UInt8)
  mdFd : MdFork → List Bool
  opened : ∀ fork segno, (mdFd fork)[segno]? = some true → (files fork segno).isSome

namespace SmgrRelationData

variable (rel : SmgrRelationData) (fork : MdFork) (segno : Nat)

/-- The bytes behind a descriptor. -/
def content : List UInt8 := (rel.files fork segno).getD []

/-! ## The file system -/

def setContent (bytes : List UInt8) : SmgrRelationData :=
  { files := update rel.files fork (update (rel.files fork) segno (some bytes))
    mdFd := rel.mdFd, opened := by
      intro other place isOpen
      by_cases sameFork : other = fork
      · subst sameFork
        rw [update_self]
        by_cases samePlace : place = segno
        · rw [samePlace, update_self]
          rfl
        · rw [update_of_ne samePlace]
          exact rel.opened other place isOpen
      · rw [update_of_ne sameFork]
        exact rel.opened other place isOpen }

theorem files_setContent : (rel.setContent fork segno bytes).files other place =
      if other = fork ∧ place = segno then some bytes else rel.files other place := by
  rw [setContent]
  dsimp only
  by_cases sameFork : other = fork
  · subst sameFork
    rw [update_self, update_apply]
    simp
  · rw [update_of_ne sameFork, if_neg (fun both => sameFork both.1)]

/-- A segment is opened; its file is there. -/
def setOpen (exists_ : (rel.files fork segno).isSome) : SmgrRelationData :=
  { files := rel.files, mdFd := update rel.mdFd fork ((rel.mdFd fork).set segno true), opened := by
      intro other place isOpen
      by_cases sameFork : other = fork
      · subst sameFork
        rw [update_self] at isOpen
        by_cases samePlace : segno = place
        · rw [← samePlace]
          exact exists_
        · rw [getElem?_set_ne samePlace] at isOpen
          exact rel.opened other place isOpen
      · rw [update_of_ne sameFork] at isOpen
        exact rel.opened other place isOpen }

/-- A segment is closed and its file unlinked, if it is there. -/
def unlinkSegment : SmgrRelationData :=
  { files := update rel.files fork (update (rel.files fork) segno none)
    mdFd := update rel.mdFd fork ((rel.mdFd fork).set segno false), opened := by
      intro other place isOpen
      by_cases sameFork : other = fork
      · subst sameFork
        rw [update_self] at isOpen ⊢
        by_cases samePlace : segno = place
        · rw [samePlace, getElem?_set_self'] at isOpen
          cases entry : (rel.mdFd other)[place]? with
          | none => rw [entry] at isOpen; cases isOpen
          | some _ => rw [entry] at isOpen; cases isOpen
        · rw [getElem?_set_ne samePlace] at isOpen
          rw [update_of_ne (Ne.symm samePlace)]
          exact rel.opened other place isOpen
      · rw [update_of_ne sameFork] at isOpen ⊢
        exact rel.opened other place isOpen }

theorem files_unlinkSegment : (rel.unlinkSegment fork segno).files other place =
      if other = fork ∧ place = segno then none else rel.files other place := by
  rw [unlinkSegment]
  dsimp only
  by_cases sameFork : other = fork
  · subst sameFork
    rw [update_self, update_apply]
    simp
  · rw [update_of_ne sameFork, if_neg (fun both => sameFork both.1)]

/-- The bytes of a file after `write` at an offset; a gap is filled with
zeros. -/
def writeAt (file : List UInt8) (offset : Nat) (buffer : List UInt8) : List UInt8 :=
  (file ++ replicate (offset - file.length) 0).take offset ++
    (buffer ++ file.drop (offset + buffer.length))

/-- The bytes of a file after `ftruncate`. -/
def truncateAt (file : List UInt8) (length : Nat) : List UInt8 :=
  (file ++ replicate (length - file.length) 0).take length

/-! ## The manager -/

/-- The entries for the segments up to the given one are there. -/
def mdEnsureSegments : SmgrRelationData :=
  { files := rel.files, mdFd := update rel.mdFd fork (rel.mdFd fork ++
      replicate (segno + 1 - (rel.mdFd fork).length) false)
    opened := by
      intro other place isOpen
      by_cases sameFork : other = fork
      · subst sameFork
        rw [update_self, getElem?_append] at isOpen
        split at isOpen
        · exact rel.opened other place isOpen
        · have closed := eq_of_mem_replicate (mem_of_getElem? isOpen)
          contradiction
      · rw [update_of_ne sameFork] at isOpen
        exact rel.opened other place isOpen }

/-- The loop of `mdtruncate` over the entries, from the last one down. -/
def removeSegments (lastSeg : Nat) : Nat → SmgrRelationData → SmgrRelationData
  | 0, rel => rel
  | segno + 1, rel =>
    if lastSeg < segno then removeSegments lastSeg segno (rel.unlinkSegment fork segno) else rel

/-- The loop of `mdnblocks`, from a segment on. -/
def countBlocks : Nat → List Bool → BlockNumber → BlockNumber
  | _, [], total => total
  | segno, isOpen :: rest, total =>
    match rel.files fork segno with
    | none => if isOpen then countBlocks (segno + 1) rest total else total
    | some file => countBlocks (segno + 1) rest (total + BitVec.ofNat 32 (file.length / kBlckSz))

end SmgrRelationData

/-- A call that may raise an error.  What it changed before stays. -/
abbrev MdM (α : Type) := EStateM MdError SmgrRelationData α

namespace SmgrRelationData

section

variable (fork : MdFork)

def mdGetFd (segno : Nat) (create : Bool) : MdM Unit :=
  fun rel =>
    let rel := rel.mdEnsureSegments fork segno
    if (rel.mdFd fork)[segno]? = some true then .ok () rel
    else if found : (rel.files fork segno).isSome = true then .ok () (rel.setOpen fork segno found)
    else if create then
      .ok () ((rel.setContent fork segno []).setOpen fork segno (by
        rw [files_setContent, if_pos ⟨rfl, rfl⟩]
        rfl))
    else .error (.couldNotOpen fork segno) rel

def fileReadBlock (segno offset : Nat) : MdM MdBlock :=
  fun rel =>
    let bytes := ((rel.content fork segno).drop offset).take kBlckSz
    if whole : bytes.length = kBlckSz then .ok ⟨bytes, whole⟩ rel
    else .error .unexpectedEndOfFile rel

def fileWriteBlock (segno offset : Nat) (buffer : MdBlock) : MdM Unit :=
  fun rel => .ok () (rel.setContent fork segno
    (writeAt (rel.content fork segno) offset buffer.bytes))

def mdcreate : MdM Unit :=
  fun rel =>
    if (rel.files fork 0).isSome then .error (.alreadyExists fork) rel
    else .ok () ((rel.setContent fork 0 []).mdEnsureSegments fork 0)

/-- The entries of a fork are closed and forgotten. -/
def closeFork (rel : SmgrRelationData) (fork : MdFork) : SmgrRelationData :=
  { files := rel.files, mdFd := update rel.mdFd fork [], opened := by
      intro other place isOpen
      by_cases sameFork : other = fork
      · rw [sameFork, update_self] at isOpen
        contradiction
      · rw [update_of_ne sameFork] at isOpen
        exact rel.opened other place isOpen }

def mdclose : MdM Unit := fun rel => .ok () (rel.closeFork fork)

def mdread (blockNum : BlockNumber) : MdM MdBlock := do
  let segno := blockNum.toNat / kRelSegSize
  let blockInSeg := blockNum.toNat % kRelSegSize
  mdGetFd fork segno false
  fileReadBlock fork segno (blockInSeg * kBlckSz)

def mdwrite (blockNum : BlockNumber) (buffer : MdBlock) : MdM Unit := do
  let segno := blockNum.toNat / kRelSegSize
  let blockInSeg := blockNum.toNat % kRelSegSize
  mdGetFd fork segno false
  fileWriteBlock fork segno (blockInSeg * kBlckSz) buffer

def mdextend (blockNum : BlockNumber) (buffer : MdBlock) : MdM Unit := do
  let segno := blockNum.toNat / kRelSegSize
  let blockInSeg := blockNum.toNat % kRelSegSize
  mdGetFd fork segno true
  fileWriteBlock fork segno (blockInSeg * kBlckSz) buffer

def mdnblocks : MdM BlockNumber := fun rel =>
  .ok (if (rel.mdFd fork).isEmpty then match rel.files fork 0 with
      | none => 0
      | some file => BitVec.ofNat 32 (file.length / kBlckSz)
    else rel.countBlocks fork 0 (rel.mdFd fork) 0) rel

/-- The first part of `mdtruncate`: the segment in which the relation ends is
cut, unless the end is the beginning of a segment. -/
def cutSegment (segno blocks : Nat) : MdM Unit :=
  if 0 < blocks then do
    mdGetFd fork segno false
    modify fun rel => rel.setContent fork segno
      (truncateAt (rel.content fork segno) (blocks * kBlckSz))
  else pure ()

def mdtruncate (nblocks : BlockNumber) : MdM Unit := do
  let lastSeg := nblocks.toNat / kRelSegSize
  let blocksInLast := nblocks.toNat % kRelSegSize
  cutSegment fork lastSeg blocksInLast
  modify fun rel => removeSegments fork lastSeg (rel.mdFd fork).length rel
  modify fun rel => if blocksInLast = 0 ∧ lastSeg = 0 then rel.unlinkSegment fork 0 else rel

end

def mdrelease : MdM Unit := (finRange kNumForks).forM mdclose

end SmgrRelationData

inductive MdCall where
  | extend (fork : MdFork) (blockNum : BlockNumber) (buffer : MdBlock)
  | write (fork : MdFork) (blockNum : BlockNumber) (buffer : MdBlock)
  | read (fork : MdFork) (blockNum : BlockNumber)
  | nblocks (fork : MdFork)
  | truncate (fork : MdFork) (blocks : BlockNumber)
  | close (fork : MdFork)
  | release

inductive MdResult where
  | done
  | block (buffer : MdBlock)
  | count (blocks : Nat)
  | failed (error : MdError)

/-- The state after a call, and what it returned or raised. -/
def MdM.outcome {α : Type} (call : MdM α) (result : α → MdResult)
    (rel : SmgrRelationData) : SmgrRelationData × MdResult :=
  match call rel with
  | .ok value after => (after, result value)
  | .error error after => (after, .failed error)

def MdCall.run (rel : SmgrRelationData) : MdCall → Option (SmgrRelationData × MdResult)
  | .extend fork blockNum buffer =>
    some ((SmgrRelationData.mdextend fork blockNum buffer).outcome (fun _ => .done) rel)
  | .write fork blockNum buffer =>
    some ((SmgrRelationData.mdwrite fork blockNum buffer).outcome (fun _ => .done) rel)
  | .read fork blockNum => some ((SmgrRelationData.mdread fork blockNum).outcome .block rel)
  | .nblocks fork =>
    some ((SmgrRelationData.mdnblocks fork).outcome (fun total => .count total.toNat) rel)
  | .truncate fork blocks =>
    some ((SmgrRelationData.mdtruncate fork blocks).outcome (fun _ => .done) rel)
  | .close fork => some ((SmgrRelationData.mdclose fork).outcome (fun _ => .done) rel)
  | .release => some (SmgrRelationData.mdrelease.outcome (fun _ => .done) rel)

/-- A relation for which `mdcreate` was called for some forks. -/
def SmgrRelationData.initial (created : MdFork → Bool) : SmgrRelationData :=
  { files := fun fork segno => if created fork ∧ segno = 0 then some [] else none
    mdFd := fun fork => if created fork then [false] else [], opened := by
      intro fork segno isOpen
      split at isOpen
      · have closed := mem_singleton.1 (mem_of_getElem? isOpen)
        contradiction
      · contradiction }

/-! ## Arrays of blocks -/

/-- What the relation is for: an array of blocks for each fork. -/
abbrev MdArrays := MdFork → List MdBlock

/-- A call on the arrays; there is none for a block that does not exist. -/
def MdCall.onArrays (arrays : MdArrays) : MdCall → Option (MdArrays × MdResult)
  | .extend fork blockNum buffer =>
    if blockNum.toNat = (arrays fork).length then
      some (update arrays fork (arrays fork ++ [buffer]), .done)
    else none
  | .write fork blockNum buffer =>
    if blockNum.toNat < (arrays fork).length then
      some (update arrays fork ((arrays fork).set blockNum.toNat buffer), .done)
    else none
  | .read fork blockNum => (arrays fork)[blockNum.toNat]?.map fun buffer => (arrays, .block buffer)
  | .nblocks fork => some (arrays, .count (arrays fork).length)
  | .truncate fork blocks =>
    if blocks.toNat ≤ (arrays fork).length then
      some (update arrays fork ((arrays fork).take blocks.toNat), .done)
    else none
  | .close _ => some (arrays, .done)
  | .release => some (arrays, .done)

/-- Calls after which the manager still finds every segment: a relation of more
than one segment is not closed, and a relation is not cut at the beginning of a
segment. -/
def MdCall.KeepsSegments (arrays : MdArrays) : MdCall → Prop
  | .extend _ blockNum _ => blockNum.toNat ≠ kInvalidBlockNumber
  | .truncate fork blocks =>
    blocks.toNat % kRelSegSize ≠ 0 ∨ blocks.toNat = 0 ∨ blocks.toNat = (arrays fork).length
  | .close fork => (arrays fork).length ≤ kRelSegSize
  | .release => ∀ fork, (arrays fork).length ≤ kRelSegSize
  | .write _ _ _ | .read _ _ | .nblocks _ => True

instance (arrays : MdArrays) (call : MdCall) : Decidable (call.KeepsSegments arrays) := by
  cases call <;> dsimp only [MdCall.KeepsSegments] <;> infer_instance

end Pgcpp.Storage

import Mathlib.Logic.Function.Basic

/-!
# The disk storage manager

Relation forks are files of blocks, cut into segments.  The path of a file is
built from database and relation only, so relations that differ in their
tablespace share it.  Pages are values of any type with a zeroed page.
-/

namespace Pgcpp.Storage

inductive ForkNumber where
  | invalid
  | main
  | fsm
  | visibilityMap
  | init
  deriving DecidableEq

structure RelFileNode where
  spcNode : Nat
  dbNode : Nat
  relNode : Nat
  deriving DecidableEq

def kRelSegSize : Nat := 131072

structure ForkFile where
  dbNode : Nat
  relNode : Nat
  forkNum : ForkNumber
  deriving DecidableEq

/-- `relpathbackend`; there is no path for an invalid fork number. -/
def relpathbackend (rnode : RelFileNode) (forkNum : ForkNumber) : Option ForkFile :=
  if forkNum = .invalid then none
  else some { dbNode := rnode.dbNode, relNode := rnode.relNode, forkNum := forkNum }

/-- The segment files that exist and the blocks in them. -/
structure MdStorage (P : Type) where
  segments : ForkFile → Nat → Bool
  blocks : ForkFile → Nat → Option P

variable {P : Type}

/-- `mdread`; `none` is an error: no such file, or the block is beyond its
end. -/
def mdread (disk : MdStorage P) (rnode : RelFileNode) (forkNum : ForkNumber)
    (blockNum : Nat) : Option P :=
  match relpathbackend rnode forkNum with
  | none => none
  | some path =>
    if disk.segments path (blockNum / kRelSegSize) then disk.blocks path blockNum else none

/-- The blocks of a file after a write; a write beyond the end of a segment
leaves zeroed blocks before it. -/
def writeBlock [Zero P] (blocks : Nat → Option P) (blockNum : Nat) (page : P) :
    Nat → Option P := fun other =>
  if other = blockNum then some page
  else if other / kRelSegSize = blockNum / kRelSegSize ∧ other < blockNum then
    some ((blocks other).getD 0)
  else blocks other

/-- `mdwrite`; `none` is an error: no such file. -/
def mdwrite [Zero P] (disk : MdStorage P) (rnode : RelFileNode)
    (forkNum : ForkNumber) (blockNum : Nat) (page : P) : Option (MdStorage P) :=
  match relpathbackend rnode forkNum with
  | none => none
  | some path =>
    if disk.segments path (blockNum / kRelSegSize) then
      some { disk with
        blocks := Function.update disk.blocks path (writeBlock (disk.blocks path) blockNum page) }
    else none

theorem eq_of_relpathbackend (opened : relpathbackend rnode forkNum = some path) :
    path = { dbNode := rnode.dbNode, relNode := rnode.relNode, forkNum := forkNum } := by
  unfold relpathbackend at opened
  split at opened
  · simp at opened
  · exact (Option.some.inj opened).symm

/-- A block before and after a write: a block that did not exist counts as
zeroed, since a write may extend the file over it. -/
theorem mdread_of_mdwrite [Zero P] {page : P}
    (written : mdwrite disk rnode forkNum blockNum page = some after) :
    (mdread after other otherFork otherBlock).getD 0 =
      if relpathbackend other otherFork = relpathbackend rnode forkNum ∧
          otherBlock = blockNum then page else (mdread disk other otherFork otherBlock).getD 0 := by
  unfold mdwrite at written
  cases path : relpathbackend rnode forkNum with
  | none => simp [path] at written
  | some file =>
    simp only [path, Option.ite_none_right_eq_some, Option.some.injEq] at written
    obtain ⟨opened, rfl⟩ := written
    unfold mdread
    cases otherPath : relpathbackend other otherFork with
    | none => simp
    | some otherFile =>
      by_cases sameFile : otherFile = file
      · subst sameFile
        by_cases sameBlock : otherBlock = blockNum
        · subst sameBlock
          simp [opened, writeBlock]
        simp only [Function.update_self, writeBlock, sameBlock, if_false]
        split
        · split <;> simp
        · rfl
      · simp [sameFile]

end Pgcpp.Storage

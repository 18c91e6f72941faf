import Pgcpp.Lib.BitFlags
import Pgcpp.Transaction.Transam

/-!
# Heap tuple headers

The header fields that decide visibility, and the hint bits packed in
`t_infomask`.  The constants are the source's own; `kHeapXminFrozen` and
`kHeapXmaxCommitted` are the same bit there.
-/

namespace Pgcpp.Transaction

open Lib BitFlags

/-- A tuple identifier: block number and 1-based line pointer. -/
structure ItemPointerData where
  ipBlkid : BitVec 32
  ipPosid : BitVec 16
  deriving DecidableEq

/-- `HeapTupleHeaderData` without the trailing null bitmap. -/
structure HeapTupleHeaderData where
  tXmin : TransactionId
  tXmax : TransactionId
  tCid : CommandId
  tCtid : ItemPointerData
  tInfomask2 : BitVec 16
  tInfomask : BitVec 16
  tHoff : BitVec 8
  deriving DecidableEq

def kHeapXminCommitted : BitVec 16 := 0x0100#16

def kHeapXminInvalid : BitVec 16 := 0x0200#16

def kHeapXminFrozen : BitVec 16 := 0x0400#16

def kHeapXmaxLocked : BitVec 16 := 0x0080#16

def kHeapXmaxCommitted : BitVec 16 := 0x0400#16

def kHeapXmaxInvalid : BitVec 16 := 0x0800#16

def kHeapHasNull : BitVec 16 := 0x0001#16

def kHeapHasVarWidth : BitVec 16 := 0x0002#16

def kHeapUpdated : BitVec 16 := 0x2000#16

/-- The four bits that record a known outcome of `t_xmin` or `t_xmax`. -/
def kHeapHintMask : BitVec 16 :=
  kHeapXminCommitted ||| kHeapXminInvalid ||| kHeapXmaxCommitted ||| kHeapXmaxInvalid

/-- `XactStatus`: what the hint bits say about one of the two XIDs. -/
inductive XactStatus where
  | inProgress
  | committed
  | aborted
  | frozen
  deriving DecidableEq

namespace HeapTupleHeaderData

def getXminStatus (tup : HeapTupleHeaderData) : XactStatus :=
  if hasFlag tup.tInfomask kHeapXminCommitted then .committed
  else if hasFlag tup.tInfomask kHeapXminInvalid then .aborted
  else if hasFlag tup.tInfomask kHeapXminFrozen then .frozen else .inProgress

def getXmaxStatus (tup : HeapTupleHeaderData) : XactStatus :=
  if hasFlag tup.tInfomask kHeapXmaxCommitted then .committed
  else if hasFlag tup.tInfomask kHeapXmaxInvalid then .aborted else .inProgress

theorem getXmaxStatus_eq_inProgress_iff {tup : HeapTupleHeaderData} :
    tup.getXmaxStatus = .inProgress ↔ hasFlag tup.tInfomask kHeapXmaxCommitted = false ∧
        hasFlag tup.tInfomask kHeapXmaxInvalid = false := by
  unfold getXmaxStatus
  cases hasFlag tup.tInfomask kHeapXmaxCommitted <;>
    cases hasFlag tup.tInfomask kHeapXmaxInvalid <;> simp

section

variable (tup : HeapTupleHeaderData)

/-- The shape shared by the four hint setters: one bit goes up, the opposite
one goes down. -/
def setHint (up down : BitVec 16) : HeapTupleHeaderData :=
  { tup with tInfomask := (tup.tInfomask ||| up) &&& ~~~down }

def setXminCommitted : HeapTupleHeaderData :=
  tup.setHint kHeapXminCommitted kHeapXminInvalid

def setXminInvalid : HeapTupleHeaderData :=
  tup.setHint kHeapXminInvalid kHeapXminCommitted

def setXmaxCommitted : HeapTupleHeaderData :=
  tup.setHint kHeapXmaxCommitted kHeapXmaxInvalid

def setXmaxInvalid : HeapTupleHeaderData :=
  tup.setHint kHeapXmaxInvalid kHeapXmaxCommitted

/-- The same header with every hint bit cleared. -/
def clearHints : HeapTupleHeaderData :=
  { tup with tInfomask := tup.tInfomask &&& ~~~kHeapHintMask }

end

section

variable (tup : HeapTupleHeaderData)

include tup

@[simp] theorem setXminCommitted_tXmax : tup.setXminCommitted.tXmax = tup.tXmax := rfl

@[simp] theorem setXminInvalid_tXmax : tup.setXminInvalid.tXmax = tup.tXmax := rfl

theorem hasFlag_setHint_of_disjoint
    (upDisjoint : hasFlag up flag = false) (downDisjoint : down &&& flag = 0) :
    hasFlag (tup.setHint up down).tInfomask flag = hasFlag tup.tInfomask flag := by
  rw [setHint, hasFlag_clear_of_disjoint downDisjoint, hasFlag_or, upDisjoint, Bool.or_false]

theorem hasFlag_setHint_up (upSet : hasFlag up up) (disjoint : down &&& up = 0) :
    hasFlag (tup.setHint up down).tInfomask up := by
  rw [setHint, hasFlag_clear_of_disjoint disjoint, hasFlag_or, upSet, Bool.or_true]

theorem hasFlag_setHint_down : hasFlag (tup.setHint up down).tInfomask down = false := by
  rw [setHint, hasFlag_clear_of_covered]
  simp

theorem setHint_getXmaxStatus (upCommitted : hasFlag up kHeapXmaxCommitted = false)
    (upInvalid : hasFlag up kHeapXmaxInvalid = false)
    (downCommitted : down &&& kHeapXmaxCommitted = 0)
    (downInvalid : down &&& kHeapXmaxInvalid = 0) :
    (tup.setHint up down).getXmaxStatus = tup.getXmaxStatus := by
  rw [getXmaxStatus, getXmaxStatus, tup.hasFlag_setHint_of_disjoint upCommitted downCommitted,
    tup.hasFlag_setHint_of_disjoint upInvalid downInvalid]

@[simp] theorem setXminCommitted_getXmaxStatus :
    tup.setXminCommitted.getXmaxStatus = tup.getXmaxStatus :=
  tup.setHint_getXmaxStatus (by decide) (by decide) (by decide) (by decide)

@[simp] theorem setXminInvalid_getXmaxStatus :
    tup.setXminInvalid.getXmaxStatus = tup.getXmaxStatus :=
  tup.setHint_getXmaxStatus (by decide) (by decide) (by decide) (by decide)

@[simp] theorem setXminCommitted_locked : hasFlag tup.setXminCommitted.tInfomask kHeapXmaxLocked =
      hasFlag tup.tInfomask kHeapXmaxLocked :=
  tup.hasFlag_setHint_of_disjoint (by decide) (by decide)

@[simp] theorem setXminInvalid_locked :
    hasFlag tup.setXminInvalid.tInfomask kHeapXmaxLocked = hasFlag tup.tInfomask kHeapXmaxLocked :=
  tup.hasFlag_setHint_of_disjoint (by decide) (by decide)

theorem clearHints_hint (flag : BitVec 16) (covered : ~~~kHeapHintMask &&& flag = 0) :
    hasFlag tup.clearHints.tInfomask flag = false :=
  hasFlag_clear_of_covered covered

theorem clearHints_other (disjoint : kHeapHintMask &&& flag = 0) :
    hasFlag tup.clearHints.tInfomask flag = hasFlag tup.tInfomask flag :=
  hasFlag_clear_of_disjoint disjoint

@[simp] theorem clearHints_getXminStatus : tup.clearHints.getXminStatus = .inProgress := by
  simp [getXminStatus, clearHints_hint tup kHeapXminCommitted (by decide),
    clearHints_hint tup kHeapXminInvalid (by decide),
    clearHints_hint tup kHeapXminFrozen (by decide)]

@[simp] theorem clearHints_getXmaxStatus : tup.clearHints.getXmaxStatus = .inProgress := by
  simp [getXmaxStatus, clearHints_hint tup kHeapXmaxCommitted (by decide),
    clearHints_hint tup kHeapXmaxInvalid (by decide)]

@[simp] theorem clearHints_locked :
    hasFlag tup.clearHints.tInfomask kHeapXmaxLocked = hasFlag tup.tInfomask kHeapXmaxLocked :=
  clearHints_other tup (by decide)

@[simp] theorem clearHints_updated :
    hasFlag tup.clearHints.tInfomask kHeapUpdated = hasFlag tup.tInfomask kHeapUpdated :=
  clearHints_other tup (by decide)

end

end HeapTupleHeaderData

/-- The hint bits agree with what the commit log records. -/
structure HintsTruthful (log : CommitLog) (tup : HeapTupleHeaderData) : Prop where
  xminCommitted : hasFlag tup.tInfomask kHeapXminCommitted →
    logStatus log tup.tXmin = .committed
  xminInvalid : hasFlag tup.tInfomask kHeapXminInvalid → logStatus log tup.tXmin = .aborted
  xmaxCommitted : hasFlag tup.tInfomask kHeapXmaxCommitted →
    logStatus log tup.tXmax = .committed
  xmaxInvalid : hasFlag tup.tInfomask kHeapXmaxInvalid → logStatus log tup.tXmax = .aborted

end Pgcpp.Transaction

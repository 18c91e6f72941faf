import Pgcpp.Storage.BufInternals
import Pgcpp.Transaction.Transam

/-!
# Serializable snapshot isolation

Predicate locks, the rw-conflict edges between serializable transactions and
the search for dangerous structures.  A function that may raise a
serialization failure returns the state it leaves behind together with whether
it succeeded.
-/

namespace Pgcpp.Transaction

open Storage (RelFileNode kInvalidBlockNumber)

structure PredicateLockTargetTag where
  rnode : RelFileNode
  blockNum : Nat
  offsetNum : Nat
  deriving DecidableEq

structure PredicateLock where
  tag : PredicateLockTargetTag
  xid : TransactionId
  deriving DecidableEq

section

variable (locks : List PredicateLock)

/-- `Acquire`; a lock that is held already is not added again. -/
def acquirePredicateLock (tag : PredicateLockTargetTag) (xid : TransactionId) :
    List PredicateLock :=
  let lock := { tag := tag, xid := xid }
  if lock ∈ locks then locks else locks ++ [lock]

def predicateLockTuple (rnode : RelFileNode) (blockNum offsetNum : Nat) (xid : TransactionId) :
    List PredicateLock :=
  acquirePredicateLock locks { rnode := rnode, blockNum := blockNum, offsetNum := offsetNum } xid

def predicateLockPage (rnode : RelFileNode) (blockNum : Nat) (xid : TransactionId) :
    List PredicateLock :=
  acquirePredicateLock locks { rnode := rnode, blockNum := blockNum, offsetNum := 0 } xid

def predicateLockRelation (rnode : RelFileNode) (xid : TransactionId) : List PredicateLock :=
  acquirePredicateLock locks { rnode := rnode, blockNum := kInvalidBlockNumber, offsetNum := 0 } xid

def predicateLockRelease (xid : TransactionId) : List PredicateLock :=
  locks.filter fun lock => lock.xid ≠ xid

end

/-- Whether a lock covers a tuple: a lock on the relation, on the page or on
the tuple. -/
def PredicateLockTargetTag.covers (tag : PredicateLockTargetTag)
    (rnode : RelFileNode) (blockNum offsetNum : Nat) : Bool :=
  tag.rnode = rnode && (tag.blockNum = kInvalidBlockNumber ||
      (tag.blockNum = blockNum && tag.offsetNum = 0) ||
      (tag.blockNum = blockNum && tag.offsetNum = offsetNum))

/-- A directed edge: the reader read what the writer wrote. -/
structure RWConflict where
  reader : TransactionId
  writer : TransactionId
  deriving DecidableEq

structure SerializableXact where
  xid : TransactionId
  finished : Bool
  committed : Bool
  readOnly : Bool
  dangerous : Bool
  outConflicts : List RWConflict
  inConflicts : List RWConflict
  deriving DecidableEq

def SerializableXact.registered (xid : TransactionId) (readOnly : Bool) : SerializableXact :=
  { xid := xid, finished := false, committed := false, readOnly := readOnly
    dangerous := false, outConflicts := [], inConflicts := [] }

def findXact (xacts : List SerializableXact) (xid : TransactionId) : Option SerializableXact :=
  xacts.find? fun sx => sx.xid = xid

/-- Writes to the record `FindXact` returns. -/
def updateXact (xid : TransactionId) (change : SerializableXact → SerializableXact) :
    List SerializableXact → List SerializableXact
  | [] => []
  | sx :: rest => if sx.xid = xid then change sx :: rest else sx :: updateXact xid change rest

def SerializableXact.addOut (conflict : RWConflict) (sx : SerializableXact) : SerializableXact :=
  { sx with outConflicts := sx.outConflicts ++ [conflict] }

def SerializableXact.addIn (conflict : RWConflict) (sx : SerializableXact) : SerializableXact :=
  { sx with inConflicts := sx.inConflicts ++ [conflict] }

/-- The flag a dangerous structure leaves. -/
def SerializableXact.flagged (sx : SerializableXact) : SerializableXact :=
  { sx with dangerous := true }

def SerializableXact.finish (committed : Bool) (sx : SerializableXact) : SerializableXact :=
  { sx with finished := true, committed := committed }

def addRWConflict (xacts : List SerializableXact)
    (reader writer : TransactionId) : List SerializableXact :=
  if reader = writer then xacts
  else
    match findXact xacts reader, findXact xacts writer with
    | some r, some _ =>
      if r.outConflicts.any fun conflict => conflict.writer = writer
      then xacts
      else
        updateXact writer (.addIn { reader := reader, writer := writer })
          (updateXact reader (.addOut { reader := reader, writer := writer }) xacts)
    | _, _ => xacts

def markDangerous (xacts : List SerializableXact)
    (t1 t2 t3 : TransactionId) : List SerializableXact :=
  updateXact t3 .flagged (updateXact t2 .flagged (updateXact t1 .flagged xacts))

/-- The three transactions of a dangerous structure. -/
structure DangerousStructure where
  t1 : TransactionId
  t2 : TransactionId
  t3 : TransactionId
  deriving DecidableEq

section

variable (xacts : List SerializableXact) (sx : SerializableXact)

/-- Case A of `CheckForDangerousStructure`: the transaction is in the
middle. -/
def findMiddle : Option DangerousStructure :=
  sx.inConflicts.findSome? fun inConflict =>
    match findXact xacts inConflict.reader with
    | none => none
    | some t1 =>
      sx.outConflicts.findSome? fun outConflict =>
        match findXact xacts outConflict.writer with
        | none => none
        | some t3 => if t1.finished then some { t1 := t1.xid, t2 := sx.xid, t3 := t3.xid } else none

/-- Case B: the transaction is on the right. -/
def findRight : Option DangerousStructure :=
  sx.inConflicts.findSome? fun inConflict =>
    match findXact xacts inConflict.reader with
    | none => none
    | some t2 =>
      if t2.finished then
        t2.inConflicts.findSome? fun conflict =>
          match findXact xacts conflict.reader with
          | none => none
          | some t1 =>
            if t1.finished then some { t1 := t1.xid, t2 := t2.xid, t3 := sx.xid } else none
      else none

/-- Case C: the transaction is on the left. -/
def findLeft : Option DangerousStructure :=
  sx.outConflicts.findSome? fun outConflict =>
    match findXact xacts outConflict.writer with
    | none => none
    | some t2 =>
      if t2.finished then
        t2.outConflicts.findSome? fun conflict =>
          match findXact xacts conflict.writer with
          | none => none
          | some t3 => some { t1 := sx.xid, t2 := t2.xid, t3 := t3.xid }
      else none

/-- The structure `CheckForDangerousStructure` finds.  Case C is skipped as
long as the transaction is not finished, which it is not yet when it
commits. -/
def findDangerousStructure : Option DangerousStructure :=
  match findMiddle xacts sx with
  | some found => some found
  | none =>
    match findRight xacts sx with
    | some found => some found
    | none => if sx.finished then findLeft xacts sx else none

end

section

variable (xacts : List SerializableXact) (xid : TransactionId)

/-- `CheckForDangerousStructure`; no caller looks at its result. -/
def checkForDangerousStructure : List SerializableXact :=
  match findXact xacts xid with
  | none => xacts
  | some sx =>
    match findDangerousStructure xacts sx with
    | none => xacts
    | some found => markDangerous xacts found.t1 found.t2 found.t3

/-- `OnConflict_CheckForSerializationFailure`; `true` is the error. -/
def serializationFailure : Bool :=
  match findXact xacts xid with
  | none => false
  | some sx => sx.dangerous

structure SsiState where
  xacts : List SerializableXact
  locks : List PredicateLock

def registerSerializableTransaction (readOnly : Bool) : List SerializableXact :=
  match findXact xacts xid with
  | some _ => xacts
  | none => xacts ++ [.registered xid readOnly]

end

/-- `ReleaseSerializableTransaction`; a commit that fails leaves the
transaction unfinished. -/
def releaseSerializableTransaction (state : SsiState) (xid : TransactionId)
    (committed : Bool) : SsiState × Bool :=
  match findXact state.xacts xid with
  | none => (state, true)
  | some sx =>
    let xacts :=
      if committed && !sx.finished then checkForDangerousStructure state.xacts xid else state.xacts
    if (committed && !sx.finished) && serializationFailure xacts xid then
      ({ state with xacts := xacts }, false)
    else
      ({ xacts := updateXact xid (.finish committed) xacts
         locks :=
          if committed then state.locks else predicateLockRelease state.locks xid }, true)

/-- The loop of `CheckForSerializableConflict` over the predicate locks. -/
def conflictLoop (writer : TransactionId) (rnode : RelFileNode) (blockNum offsetNum : Nat) :
    List PredicateLock → List SerializableXact → List SerializableXact × Bool
  | [], xacts => (xacts, true)
  | lock :: rest, xacts =>
    if lock.xid = writer then conflictLoop writer rnode blockNum offsetNum rest xacts
    else
      match findXact xacts lock.xid with
      | none => conflictLoop writer rnode blockNum offsetNum rest xacts
      | some reader =>
        -- the reads of an aborted transaction did not happen
        if reader.finished && !reader.committed then
          conflictLoop writer rnode blockNum offsetNum rest xacts
        else if lock.tag.covers rnode blockNum offsetNum then
          let xacts := checkForDangerousStructure (addRWConflict xacts lock.xid writer) writer
          if serializationFailure xacts writer then (xacts, false)
          else conflictLoop writer rnode blockNum offsetNum rest xacts
        else conflictLoop writer rnode blockNum offsetNum rest xacts

def checkForSerializableConflict (state : SsiState) (writer : TransactionId)
    (rnode : RelFileNode) (blockNum offsetNum : Nat) : SsiState × Bool :=
  match findXact state.xacts writer with
  | none => (state, true)
  | some sx =>
    if sx.finished || sx.readOnly then (state, true)
    else
      let (xacts, succeeded) := conflictLoop writer rnode blockNum offsetNum state.locks state.xacts
      ({ state with xacts := xacts }, succeeded)

theorem xid_of_findXact (found : findXact xacts xid = some sx) : sx.xid = xid := by
  simpa using List.find?_some found

theorem findXact_append : findXact (xacts ++ [sx]) xid =
      (findXact xacts xid).or (if sx.xid = xid then some sx else none) := by
  unfold findXact
  rw [List.find?_append, List.find?_singleton]
  simp

theorem findXact_updateXact (change : SerializableXact → SerializableXact)
    (sameXid : ∀ sx, (change sx).xid = sx.xid)
    (xacts : List SerializableXact) (xid other : TransactionId) :
    findXact (updateXact xid change xacts) other =
      if other = xid then (findXact xacts xid).map change else findXact xacts other := by
  induction xacts with
  | nil => simp [updateXact, findXact]
  | cons sx _ ih =>
    simp only [findXact] at ih
    by_cases isXid : sx.xid = xid
    · by_cases isOther : other = xid
      · simp [updateXact, findXact, isXid, isOther, sameXid]
      · have apart : ¬ xid = other := fun same => isOther same.symm
        simp [updateXact, findXact, isXid, isOther, sameXid, apart]
    simp only [updateXact, isXid, if_false, findXact, List.find?_cons]
    rw [ih]
    by_cases isOther : other = xid
    · subst isOther
      simp [isXid]
    · simp [isOther]

end Pgcpp.Transaction

import Pgcpp.Transaction.RowLock
import Pgcpp.Transaction.SlruRefinement

/-!
# MultiXacts

A MultiXactId stands for a list of members.  The offsets cache has for every id
the byte position of its first member, and the members cache has the members of
all ids one after the other.  The length of a list is not stored: it ends where
the list of the next id starts.
-/

namespace Pgcpp.Transaction

open Lib

abbrev MultiXactOffset := BitVec 32

def kMultiXactOffsetSize : Nat := 4

def kMultiXactOffsetsPerPage : Nat := kSlruPageSize / kMultiXactOffsetSize

def kMultiXactMemberStride : Nat := 8

/-- The two caches and the two counters. -/
structure MultiXactStore where
  offsets : SlruCtl
  members : SlruCtl
  nextMultiXactId : MultiXactId
  nextMemberOffset : MultiXactOffset

/-- `InitializeMultiXact` with directories that have no control file. -/
def initializeMultiXact (offsetsDisk membersDisk : Int → Option ByteMem) : MultiXactStore :=
  { offsets := simpleLruInit 16 true offsetsDisk, members := simpleLruInit 16 true membersDisk
    nextMultiXactId := kFirstMultiXactId, nextMemberOffset := 0 }

namespace MultiXactStore

variable (store : MultiXactStore)

def readOffset (multi : MultiXactId) : MultiXactStore × MultiXactOffset :=
  let pageno : Int := (multi.toNat / kMultiXactOffsetsPerPage : Nat)
  let entry := multi.toNat % kMultiXactOffsetsPerPage
  let (offsets, off) := store.offsets.simpleLruRead pageno
    (entry * kMultiXactOffsetSize) kMultiXactOffsetSize
  ({ store with offsets := offsets }, BitVec.ofNat 32 (ofBytes off))

def writeOffset (multi : MultiXactId) (off : MultiXactOffset) : MultiXactStore :=
  let pageno : Int := (multi.toNat / kMultiXactOffsetsPerPage : Nat)
  let entry := multi.toNat % kMultiXactOffsetsPerPage
  { store with
    offsets := store.offsets.simpleLruWrite pageno
      (entry * kMultiXactOffsetSize)
      (toBytes kMultiXactOffsetSize off.toNat) }

/-- The bytes of a member: the XID, the status and padding. -/
def memberBytes (member : MultiXactMember) : List UInt8 :=
  toBytes 4 member.xid.toNat ++ [UInt8.ofBitVec member.status, 0, 0, 0]

def memberOfBytes (buf : List UInt8) : MultiXactMember :=
  { xid := BitVec.ofNat 32 (field buf 0 4), status := (buf.getD 4 0).toBitVec }

def writeMember (memberByteOff : MultiXactOffset) (member : MultiXactMember) : MultiXactStore :=
  let pageno : Int := (memberByteOff.toNat / kSlruPageSize : Nat)
  let offset := memberByteOff.toNat % kSlruPageSize
  { store with
    members := store.members.simpleLruWrite pageno offset (memberBytes member) }

def readMember (memberByteOff : MultiXactOffset) : MultiXactStore × MultiXactMember :=
  let pageno : Int := (memberByteOff.toNat / kSlruPageSize : Nat)
  let offset := memberByteOff.toNat % kSlruPageSize
  let (members, buf) := store.members.simpleLruRead pageno offset kMultiXactMemberStride
  ({ store with members := members }, memberOfBytes buf)

/-- One pass of the loop of `MultiXactIdCreate`. -/
def appendMember (member : MultiXactMember) : MultiXactStore :=
  let store := store.writeMember store.nextMemberOffset member
  { store with
    nextMemberOffset := store.nextMemberOffset + BitVec.ofNat 32 kMultiXactMemberStride }

def multiXactIdCreate (members : List MultiXactMember) : MultiXactStore × MultiXactId :=
  let multi := store.nextMultiXactId
  let store := { store with nextMultiXactId := multi + 1 }
  let store := store.writeOffset multi store.nextMemberOffset
  (members.foldl appendMember store, multi)

def multiXactIdIsValid (multi : MultiXactId) : Bool :=
  multi ≠ kInvalidMultiXactId ∧ multi < store.nextMultiXactId

/-- The loop of `MultiXactIdGetMembers`, which adds to a 32-bit offset.  Without
fuel it has not returned yet. -/
def readMembers : Nat → MultiXactStore → MultiXactOffset → MultiXactOffset →
    Option (MultiXactStore × List MultiXactMember)
  | 0, _, _, _ => none
  | fuel + 1, store, off, last =>
    if off + BitVec.ofNat 32 kMultiXactMemberStride ≤ last then
      let (store, member) := store.readMember off
      match readMembers fuel store (off + BitVec.ofNat 32 kMultiXactMemberStride) last with
      | none => none
      | some (store, rest) => some (store, member :: rest)
    else some (store, [])

def multiXactIdGetMembers (fuel : Nat) (multi : MultiXactId) :
    Option (MultiXactStore × List MultiXactMember) :=
  if store.multiXactIdIsValid multi = false then some (store, [])
  else
    let (store, start) := store.readOffset multi
    if multi + 1 = store.nextMultiXactId then readMembers fuel store start store.nextMemberOffset
    else
      let (store, last) := store.readOffset (multi + 1)
      readMembers fuel store start last

def multiXactIdExpand (fuel : Nat) (multi : MultiXactId) (xid : TransactionId) (status : BitVec 8) :
    Option (MultiXactStore × MultiXactId) :=
  if store.multiXactIdIsValid multi = false then some (store, multi)
  else
    match store.multiXactIdGetMembers fuel multi with
    | none => none
    | some (store, members) =>
      if members.any fun member => member.xid = xid then some (store, multi)
      else some (store.multiXactIdCreate (members ++ [{ xid := xid, status := status }]))

end MultiXactStore

inductive MultiXactCall where
  | create (members : List MultiXactMember)
  | expand (multi : MultiXactId) (xid : TransactionId) (status : BitVec 8)
  | getMembers (multi : MultiXactId)
  deriving DecidableEq

inductive MultiXactResult where
  | id (multi : MultiXactId)
  | members (list : List MultiXactMember)
  deriving DecidableEq

/-- The store after a call and what is returned. -/
def MultiXactCall.run (fuel : Nat) (store : MultiXactStore) :
    MultiXactCall → Option (MultiXactStore × MultiXactResult)
  | .create members =>
    some ((store.multiXactIdCreate members).1, .id (store.multiXactIdCreate members).2)
  | .expand multi xid status =>
    (store.multiXactIdExpand fuel multi xid status).map (Prod.map id .id)
  | .getMembers multi => (store.multiXactIdGetMembers fuel multi).map (Prod.map id .members)

/-- The member lists of the ids that exist, in the order of the ids. -/
abbrev MultiXactLists := List (List MultiXactMember)

namespace MultiXactLists

def idOf (index : Nat) : MultiXactId := BitVec.ofNat 32 (index + 1)

def membersOf (lists : MultiXactLists) (multi : MultiXactId) : Option (List MultiXactMember) :=
  if multi = kInvalidMultiXactId then none else lists[multi.toNat - 1]?

/-- A call, if ids never ran out. -/
def call (lists : MultiXactLists) : MultiXactCall → MultiXactLists × MultiXactResult
  | .create members => (lists ++ [members], .id (idOf lists.length))
  | .expand multi xid status =>
    match lists.membersOf multi with
    | none => (lists, .id multi)
    | some members =>
      if members.any fun member => member.xid = xid then (lists, .id multi)
      else (lists ++ [members ++ [{ xid := xid, status := status }]], .id (idOf lists.length))
  | .getMembers multi => (lists, .members ((lists.membersOf multi).getD []))

def step (lists : MultiXactLists) (first : MultiXactCall) :
    Option (MultiXactLists × MultiXactResult) := some (lists.call first)

/-- There are ids and offsets for all of them. -/
structure WithinLimits (lists : MultiXactLists) : Prop where
  ids : lists.length + 1 < 2 ^ 32
  members : lists.flatten.length + 1 < 2 ^ 29

end MultiXactLists

end Pgcpp.Transaction

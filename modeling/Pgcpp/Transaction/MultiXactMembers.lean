import Pgcpp.Transaction.MultiXact

/-!
# Membership is permanent

The bytes of both caches determine the member list of every id, and no later
call changes those bytes.
-/

namespace Pgcpp.Transaction

open Lib MultiXactLists MultiXactStore
open List hiding after all count

/-! ## A cache as one sequence of bytes -/

namespace SlruCtl

variable {ctl : SlruCtl}

/-- The pages one after the other. -/
def flat (ctl : SlruCtl) : ByteMem := fun position =>
  ctl.contents (position / kSlruPageSize : Nat) (position % kSlruPageSize)

theorem Consistent.read_flat (consistent : ctl.Consistent)
    (within : pos % kSlruPageSize + len ≤ kSlruPageSize) :
    (ctl.simpleLruRead (pos / kSlruPageSize : Nat)
        (pos % kSlruPageSize) len).2 = ctl.flat.slice pos len := by
  rw [(consistent.simpleLruRead ..).2]
  apply ByteMem.slice_congr
  intro index _
  rw [kSlruPageSize] at within
  have page : (pos + index) / kSlruPageSize = pos / kSlruPageSize := by
    rw [kSlruPageSize]
    omega
  have offset : (pos + index) % kSlruPageSize = pos % kSlruPageSize + index := by
    rw [kSlruPageSize]
    omega
  rw [flat, page, offset]

theorem Consistent.write_flat (consistent : ctl.Consistent)
    (within : position % kSlruPageSize + src.length ≤ kSlruPageSize) :
    (ctl.simpleLruWrite (position / kSlruPageSize : Nat) (position % kSlruPageSize) src).flat =
      ctl.flat.store position src := by
  have keeps := consistent.simpleLruWrite (position / kSlruPageSize : Nat)
    (position % kSlruPageSize) src
  funext address
  rw [flat, keeps.contents]
  rw [kSlruPageSize] at within ⊢
  by_cases same : address / 8192 = position / 8192
  · rw [same, Function.update_self, ByteMem.store, ByteMem.store]
    have iff : (position % 8192 ≤ address % 8192 ∧ address % 8192 < position % 8192 + src.length) ↔
          (position ≤ address ∧ address < position + src.length) := by
      omega
    have shift : position ≤ address → address % 8192 - position % 8192 = address - position := by
      omega
    by_cases inside : position ≤ address ∧ address < position + src.length
    · rw [if_pos (iff.2 inside), if_pos inside, shift inside.1]
    · rw [if_neg (mt iff.1 inside), if_neg inside, flat, kSlruPageSize, same]
  · have ne : ((address / 8192 : Nat) : Int) ≠ ((position / 8192 : Nat) : Int) :=
      fun equal => same (Int.ofNat.inj equal)
    have outside : ¬(position ≤ address ∧ address < position + src.length) := by omega
    rw [Function.update_of_ne ne, ByteMem.store, if_neg outside, flat, kSlruPageSize]

theorem flat_congr {after : SlruCtl}
    (same : after.contents = ctl.contents) : after.flat = ctl.flat := by
  funext address
  rw [flat, flat, same]

end SlruCtl

/-! ## Members and offsets as bytes -/

namespace MultiXactStore

theorem length_memberBytes : (memberBytes mem).length = 8 := by
  simp [memberBytes]

theorem memberOfBytes_memberBytes : memberOfBytes (memberBytes member) = member := by
  have small : member.xid.toNat < 256 ^ 4 := member.xid.isLt
  have number : field (memberBytes member) 0 4 = member.xid.toNat := by
    have stored := field_append_toBytes []
      [UInt8.ofBitVec member.status, 0, 0, 0] 4 member.xid.toNat
    rwa [Nat.mod_eq_of_lt small] at stored
  have status : (memberBytes member).getD 4 0 = UInt8.ofBitVec member.status := by
    simp [memberBytes]
  rw [memberOfBytes, number, status]
  simp

/-- The caches have the same bytes and the counters are the same. -/
structure Unchanged (store after : MultiXactStore) : Prop where
  offsetsOk : after.offsets.Consistent
  membersOk : after.members.Consistent
  offsets : after.offsets.flat = store.offsets.flat
  members : after.members.flat = store.members.flat
  nextId : after.nextMultiXactId = store.nextMultiXactId
  nextOffset : after.nextMemberOffset = store.nextMemberOffset

theorem Unchanged.trans (first : Unchanged store between) (second : Unchanged between after) :
    Unchanged store after :=
  ⟨second.offsetsOk, second.membersOk, second.offsets.trans first.offsets,
    second.members.trans first.members, second.nextId.trans first.nextId,
    second.nextOffset.trans first.nextOffset⟩

/-- The member lists of the ids, as the caches have them. -/
structure Records (store : MultiXactStore) (lists : MultiXactLists) : Prop where
  offsetsOk : store.offsets.Consistent
  membersOk : store.members.Consistent
  nextId : store.nextMultiXactId = BitVec.ofNat 32 (lists.length + 1)
  nextOffset : store.nextMemberOffset = BitVec.ofNat 32 (8 * lists.flatten.length)
  starts : ∀ index < lists.length,
    store.offsets.flat.slice (4 * (index + 1)) 4 = toBytes 4 (8 * (lists.take index).flatten.length)
  listed : ∀ index member, lists.flatten[index]? = some member →
    store.members.flat.slice (8 * index) 8 = memberBytes member

variable {store : MultiXactStore} {lists : MultiXactLists}

theorem records_initial (offsetsDisk membersDisk : Int → Option ByteMem) :
    (initializeMultiXact offsetsDisk membersDisk).Records [] := by
  have ready (disk : Int → Option ByteMem) : (simpleLruInit 16 true disk).Consistent := by
    refine ⟨rfl, Nat.succ_pos 15, nodup_nil, .refl _, Nat.zero_le _, ?_⟩
    intro _ mem
    contradiction
  refine ⟨ready _, ready _, rfl, rfl, ?_, ?_⟩
  · intro index _
    contradiction
  · intro index mem _
    contradiction

theorem offset_place : multi / kMultiXactOffsetsPerPage = 4 * multi / kSlruPageSize ∧
      multi % kMultiXactOffsetsPerPage * kMultiXactOffsetSize = 4 * multi % kSlruPageSize := by
  have perPage : kMultiXactOffsetsPerPage = 2048 := rfl
  rw [perPage, kSlruPageSize, kMultiXactOffsetSize]
  omega

theorem add_stride_le_iff (small : place + 8 < 2 ^ 32) (lastSmall : last < 2 ^ 32) :
    BitVec.ofNat 32 place + BitVec.ofNat 32 kMultiXactMemberStride ≤
        BitVec.ofNat 32 last ↔ place + 8 ≤ last := by
  rw [kMultiXactMemberStride, ← BitVec.ofNat_add, BitVec.le_def, BitVec.toNat_ofNat,
    BitVec.toNat_ofNat, Nat.mod_eq_of_lt small, Nat.mod_eq_of_lt lastSmall]

section

variable (records : store.Records lists)

include records

theorem Unchanged.refl : Unchanged store store :=
  ⟨records.offsetsOk, records.membersOk, rfl, rfl, rfl, rfl⟩

theorem Records.of_unchanged (unchanged : Unchanged store after) : after.Records lists := by
  refine ⟨unchanged.offsetsOk, unchanged.membersOk, ?_, ?_, ?_, ?_⟩
  · rw [unchanged.nextId]
    exact records.nextId
  · rw [unchanged.nextOffset]
    exact records.nextOffset
  · rw [unchanged.offsets]
    exact records.starts
  · rw [unchanged.members]
    exact records.listed

theorem Records.readOffset (multi : MultiXactId) :
    Unchanged store (store.readOffset multi).1 ∧ (store.readOffset multi).2 =
        BitVec.ofNat 32 (ofBytes (store.offsets.flat.slice (4 * multi.toNat) 4)) := by
  obtain ⟨page, place⟩ := offset_place
  have consistent := records.offsetsOk
  have within : 4 * multi.toNat % kSlruPageSize + 4 ≤ kSlruPageSize := by
    rw [kSlruPageSize]
    omega
  rw [MultiXactStore.readOffset, page, place, kMultiXactOffsetSize]
  have read := consistent.simpleLruRead
    (4 * multi.toNat / kSlruPageSize : Nat) (4 * multi.toNat % kSlruPageSize)
    4
  constructor
  · exact ⟨read.1.consistent, records.membersOk, SlruCtl.flat_congr read.1.contents, rfl, rfl, rfl⟩
  · dsimp only
    rw [consistent.read_flat within]

theorem Records.readMember (found : lists.flatten[index]? = some member)
    (isPlace : off.toNat = 8 * index) :
    Unchanged store (store.readMember off).1 ∧ (store.readMember off).2 = member := by
  have consistent := records.membersOk
  have within : off.toNat % kSlruPageSize + 8 ≤ kSlruPageSize := by
    rw [kSlruPageSize]
    omega
  rw [MultiXactStore.readMember, kMultiXactMemberStride]
  have read := consistent.simpleLruRead (off.toNat / kSlruPageSize : Nat)
    (off.toNat % kSlruPageSize) 8
  constructor
  · exact ⟨records.offsetsOk, read.1.consistent, rfl, SlruCtl.flat_congr read.1.contents, rfl, rfl⟩
  dsimp only
  rw [consistent.read_flat within, isPlace, records.listed index member
    found, memberOfBytes_memberBytes]

theorem Records.readMembers {fuel first count : Nat} (enough : count < fuel)
    (stored : first + count ≤ lists.flatten.length) (bounded : lists.flatten.length + 1 < 2 ^ 29) :
    ∃ later, readMembers fuel store (BitVec.ofNat 32 (8 * first))
          (BitVec.ofNat 32 (8 * (first + count))) =
        some (later, (lists.flatten.drop first).take count) ∧ Unchanged store later := by
  induction count generalizing store first fuel with
  | zero =>
    obtain ⟨fuel, rfl⟩ := Nat.exists_eq_succ_of_ne_zero (enough.ne')
    have ends : ¬BitVec.ofNat 32 (8 * first) + BitVec.ofNat 32 kMultiXactMemberStride ≤
          BitVec.ofNat 32 (8 * (first + 0)) := by
      rw [add_stride_le_iff (by omega) (by omega)]
      omega
    rw [readMembers, if_neg ends]
    exact ⟨store, rfl, .refl records⟩
  | succ count ih =>
    obtain ⟨fuel, rfl⟩ := Nat.exists_eq_succ_of_ne_zero (Nat.ne_of_gt (Nat.zero_lt_of_lt enough))
    have goes : BitVec.ofNat 32 (8 * first) + BitVec.ofNat 32 kMultiXactMemberStride ≤
          BitVec.ofNat 32 (8 * (first + (count + 1))) := by
      rw [add_stride_le_iff (by omega) (by omega)]
      omega
    have inside : first < lists.flatten.length := by omega
    have place : (BitVec.ofNat 32 (8 * first)).toNat = 8 * first := by
      apply Nat.mod_eq_of_lt
      omega
    obtain ⟨unchanged, isMember⟩ := records.readMember (getElem?_eq_getElem inside) place
    have next : BitVec.ofNat 32 (8 * first) + BitVec.ofNat 32 kMultiXactMemberStride =
          BitVec.ofNat 32 (8 * (first + 1)) := by
      rw [← BitVec.ofNat_add]
      rfl
    have shifted : first + 1 + count = first + (count + 1) := by omega
    obtain ⟨later, read, unchangedLater⟩ :=
      ih (records.of_unchanged unchanged) (Nat.lt_of_succ_lt_succ enough) (shifted ▸ stored)
    rw [shifted] at read
    refine ⟨later, ?_, unchanged.trans unchangedLater⟩
    rw [readMembers, if_pos goes, next]
    dsimp only
    rw [read, isMember, drop_eq_getElem_cons inside, take_succ_cons]

end

theorem take_drop_flatten {members : List MultiXactMember} (found : lists[index]? = some members) :
    (lists.flatten.drop (lists.take index).flatten.length).take members.length = members ∧
      (lists.take index).flatten.length + members.length =
        (lists.take (index + 1)).flatten.length := by
  obtain ⟨inside, isMembers⟩ := List.getElem?_eq_some_iff.1 found
  have split : lists.flatten = (lists.take index).flatten ++
      (members ++ (lists.drop (index + 1)).flatten) := by
    conv_lhs => rw [← take_append_drop index lists]
    rw [flatten_append, drop_eq_getElem_cons inside, isMembers, flatten_cons]
  constructor
  · rw [split, drop_left, take_left]
  · rw [take_succ_eq_append_getElem inside, isMembers]
    simp

theorem length_flatten_take_le (lists : MultiXactLists) (index : Nat) :
    (lists.take index).flatten.length ≤ lists.flatten.length := by
  have split := congrArg List.length (congrArg List.flatten (take_append_drop index lists))
  rw [flatten_append, length_append] at split
  omega

/-! ## The members of an id -/

theorem toNat_idOf (limits : lists.WithinLimits) (bound : index ≤ lists.length) :
    (idOf index).toNat = index + 1 := by
  have ids := limits.ids
  apply Nat.mod_eq_of_lt
  omega

section

variable (records : store.Records lists)

include records

section

variable (limits : lists.WithinLimits)

include limits

theorem Records.isValid_iff :
    store.multiXactIdIsValid multi ↔ ∃ index < lists.length, multi = idOf index := by
  have ids := limits.ids
  have next : (BitVec.ofNat 32 (lists.length + 1)).toNat = lists.length + 1 := by
    exact Nat.mod_eq_of_lt ids
  rw [multiXactIdIsValid, decide_eq_true_eq, records.nextId, BitVec.lt_def, kInvalidMultiXactId]
  constructor
  · rintro ⟨valid, _⟩
    have pos : multi.toNat ≠ 0 := by
      intro zero
      exact valid (BitVec.eq_of_toNat_eq zero)
    refine ⟨multi.toNat - 1, by omega, ?_⟩
    apply BitVec.eq_of_toNat_eq
    rw [toNat_idOf limits (by omega)]
    omega
  · rintro ⟨index, bound, rfl⟩
    have value := toNat_idOf limits bound.le
    constructor
    · intro zero
      rw [zero] at value
      cases value
    · omega

theorem Records.startOf (bound : index < lists.length) :
    Unchanged store (store.readOffset (idOf index)).1 ∧ (store.readOffset (idOf index)).2 =
        BitVec.ofNat 32 (8 * (lists.take index).flatten.length) := by
  obtain ⟨unchanged, value⟩ := records.readOffset (idOf index)
  refine ⟨unchanged, value.trans ?_⟩
  have small := length_flatten_take_le lists index
  have members := limits.members
  rw [toNat_idOf limits bound.le, records.starts index bound, ofBytes_toBytes]
  congr 1
  omega

theorem Records.getMembers (enough : 2 ^ 29 ≤ fuel) {members : List MultiXactMember}
    (found : lists[index]? = some members) :
    ∃ later, store.multiXactIdGetMembers fuel (idOf index) = some (later, members) ∧
      Unchanged store later := by
  obtain ⟨bound, -⟩ := List.getElem?_eq_some_iff.1 found
  obtain ⟨block, stops⟩ := take_drop_flatten found
  obtain ⟨unchanged, start⟩ := records.startOf limits bound
  have recordsAfter := records.of_unchanged unchanged
  have valid : store.multiXactIdIsValid (idOf index) :=
    (records.isValid_iff limits).2 ⟨index, bound, rfl⟩
  have next : idOf index + 1 = idOf (index + 1) := by
    rw [idOf, idOf, BitVec.ofNat_add (index + 1)]
    rfl
  have fewer := length_flatten_take_le lists (index + 1)
  have total := limits.members
  have read {between : MultiXactStore} (recordsBetween : between.Records lists) :
      ∃ later, MultiXactStore.readMembers fuel between
          (BitVec.ofNat 32 (8 * (lists.take index).flatten.length))
          (BitVec.ofNat 32 (8 * (lists.take (index + 1)).flatten.length)) =
          some (later, members) ∧ Unchanged between later := by
    rw [← stops]
    have loop := @Records.readMembers between lists recordsBetween fuel
      (lists.take index).flatten.length members.length (by omega) (by omega)
      total
    rwa [block] at loop
  rw [multiXactIdGetMembers, if_neg (by rw [valid]; exact Bool.noConfusion)]
  dsimp only
  rw [start, next, unchanged.nextId, records.nextId]
  by_cases last : index + 1 = lists.length
  · have isNext : idOf (index + 1) = BitVec.ofNat 32 (lists.length + 1) := by rw [idOf, last]
    obtain ⟨later, result, unchangedLater⟩ := read recordsAfter
    rw [if_pos isNext, unchanged.nextOffset, records.nextOffset]
    rw [last, take_length] at result
    exact ⟨later, result, unchanged.trans unchangedLater⟩
  have notNext : idOf (index + 1) ≠ BitVec.ofNat 32 (lists.length + 1) := by
    intro same
    have value := congrArg BitVec.toNat same
    have ids := limits.ids
    rw [toNat_idOf limits bound, BitVec.toNat_ofNat, Nat.mod_eq_of_lt ids] at value
    omega
  have nextBound : index + 1 < lists.length := by omega
  obtain ⟨unchangedNext, stop⟩ := recordsAfter.startOf limits nextBound
  obtain ⟨later, result, unchangedLater⟩ := read (recordsAfter.of_unchanged unchangedNext)
  rw [if_neg notNext, stop]
  exact ⟨later, result, unchanged.trans (unchangedNext.trans unchangedLater)⟩

end

end

/-- The members written so far. -/
structure Holding (store : MultiXactStore) (all : List MultiXactMember) : Prop where
  membersOk : store.members.Consistent
  nextOffset : store.nextMemberOffset = BitVec.ofNat 32 (8 * all.length)
  listed : ∀ index member, all[index]? = some member →
    store.members.flat.slice (8 * index) 8 = memberBytes member

theorem Holding.appendMember (holding : store.Holding all)
    (small : all.length < 2 ^ 29) (mem : MultiXactMember) :
    (store.appendMember mem).Holding (all ++ [mem]) := by
  have consistent := holding.membersOk
  have place : store.nextMemberOffset.toNat = 8 * all.length := by
    rw [holding.nextOffset]
    apply Nat.mod_eq_of_lt
    omega
  have within : 8 * all.length % kSlruPageSize + (memberBytes mem).length ≤ kSlruPageSize := by
    rw [length_memberBytes, kSlruPageSize]
    omega
  have written : (store.appendMember mem).members =
      store.members.simpleLruWrite (8 * all.length / kSlruPageSize : Nat)
        (8 * all.length % kSlruPageSize) (memberBytes mem) := by
    rw [MultiXactStore.appendMember, writeMember, place]
  have flat : (store.appendMember mem).members.flat =
      store.members.flat.store (8 * all.length) (memberBytes mem) := by
    rw [written, consistent.write_flat within]
  refine ⟨?_, ?_, ?_⟩
  · exact (consistent.simpleLruWrite ..).consistent
  · have moved : (store.appendMember mem).nextMemberOffset =
        store.nextMemberOffset + BitVec.ofNat 32 kMultiXactMemberStride :=
      rfl
    rw [moved, holding.nextOffset, length_append, Nat.mul_add, BitVec.ofNat_add]
    rfl
  intro index other found
  rw [flat]
  rcases Nat.lt_trichotomy index all.length with before | rfl | beyond
  · rw [getElem?_append_left before] at found
    rw [ByteMem.slice_store_of_disjoint (.inl (by omega))]
    exact holding.listed index other found
  · rw [getElem?_concat_length] at found
    rw [← Option.some.inj found]
    have self := ByteMem.slice_store_self store.members.flat (8 * all.length) (memberBytes mem)
    rwa [length_memberBytes] at self
  have outside : (all ++ [mem])[index]? = none := by
    apply getElem?_eq_none
    rw [length_append]
    exact beyond
  rw [outside] at found
  contradiction

theorem Holding.foldl_appendMember {all members : List MultiXactMember}
    (holding : store.Holding all) (small : all.length + members.length < 2 ^ 29) :
    (members.foldl MultiXactStore.appendMember store).Holding (all ++ members) ∧
      (members.foldl MultiXactStore.appendMember store).offsets = store.offsets ∧
      (members.foldl MultiXactStore.appendMember store).nextMultiXactId =
        store.nextMultiXactId := by
  induction members generalizing store all with
  | nil =>
    rw [append_nil]
    exact ⟨holding, rfl, rfl⟩
  | cons mem _ ih =>
    rw [length_cons] at small
    have appended := holding.appendMember (by omega) mem
    obtain ⟨later, offsets, nextId⟩ := ih appended (by
      rw [length_append, length_singleton]
      omega)
    rw [append_assoc] at later
    exact ⟨later, offsets, nextId⟩

theorem Records.create (records : store.Records lists) {members : List MultiXactMember}
    (ids : lists.length + 1 < 2 ^ 32) (total : lists.flatten.length + members.length < 2 ^ 29) :
    (store.multiXactIdCreate members).1.Records (lists ++ [members]) ∧
      (store.multiXactIdCreate members).2 = idOf lists.length := by
  have consistent := records.offsetsOk
  obtain ⟨page, place⟩ := offset_place
  have number : (BitVec.ofNat 32 (lists.length + 1)).toNat = lists.length + 1 := by
    exact Nat.mod_eq_of_lt ids
  have start : (BitVec.ofNat 32 (8 * lists.flatten.length)).toNat = 8 * lists.flatten.length := by
    apply Nat.mod_eq_of_lt
    omega
  let named : MultiXactStore := { store with nextMultiXactId := store.nextMultiXactId + 1 }
  let opened := named.writeOffset store.nextMultiXactId store.nextMemberOffset
  have holding : opened.Holding lists.flatten :=
    ⟨records.membersOk, records.nextOffset, records.listed⟩
  obtain ⟨filled, offsets, nextId⟩ :=
    @Holding.foldl_appendMember opened lists.flatten members holding total
  have written : opened.offsets = store.offsets.simpleLruWrite
        (4 * (lists.length + 1) / kSlruPageSize : Nat)
        (4 * (lists.length + 1) % kSlruPageSize)
        (toBytes 4 (8 * lists.flatten.length)) := by
    rw [← page, ← place, ← number, ← start, ← records.nextId, ← records.nextOffset]
    rfl
  have within : 4 * (lists.length + 1) % kSlruPageSize +
      (toBytes 4 (8 * lists.flatten.length)).length ≤ kSlruPageSize := by
    rw [toBytes_length, kSlruPageSize]
    omega
  have flat : opened.offsets.flat = store.offsets.flat.store
      (4 * (lists.length + 1)) (toBytes 4 (8 * lists.flatten.length)) := by
    rw [written, consistent.write_flat within]
  refine ⟨⟨?_, filled.membersOk, ?_, ?_, ?_, ?_⟩, records.nextId⟩
  · rw [multiXactIdCreate]
    rw [offsets, written]
    exact (consistent.simpleLruWrite ..).consistent
  · rw [length_append, length_singleton]
    apply nextId.trans
    have bumped : opened.nextMultiXactId = store.nextMultiXactId + 1 := rfl
    rw [bumped, records.nextId, BitVec.ofNat_add (lists.length + 1)]
    rfl
  · rw [flatten_append, flatten_singleton]
    exact filled.nextOffset
  · intro index bound
    rw [length_append, length_singleton] at bound
    have kept : (store.multiXactIdCreate members).1.offsets = opened.offsets := offsets
    rw [kept, flat]
    by_cases last : index = lists.length
    · rw [last, take_left]
      have self := ByteMem.slice_store_self store.offsets.flat
        (4 * (lists.length + 1)) (toBytes 4 (8 * lists.flatten.length))
      rwa [toBytes_length] at self
    · have before : index < lists.length := by omega
      rw [ByteMem.slice_store_of_disjoint (.inl (by omega)), take_append_of_le_length before.le]
      exact records.starts index before
  · rw [flatten_append, flatten_singleton]
    exact filled.listed

end MultiXactStore

end Pgcpp.Transaction

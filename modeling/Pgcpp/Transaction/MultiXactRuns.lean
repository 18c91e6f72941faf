import Pgcpp.Transaction.MultiXactMembers

/-!
# Runs of the multixact store

A run of calls returns what it returns over the lists of the members, as long as
the ids and the offsets suffice.
-/

namespace Pgcpp.Transaction

open Lib MultiXactStore MultiXactCall List MultiXactResult MultiXactLists

namespace MultiXactLists

variable {lists more : MultiXactLists}

theorem WithinLimits.of_prefix (limits : more.WithinLimits)
    (front : lists <+: more) : lists.WithinLimits := by
  have ids := limits.ids
  have members := limits.members
  obtain ⟨_, rfl⟩ := front
  rw [length_append] at ids
  rw [flatten_append, length_append] at members
  exact ⟨by omega, by omega⟩

theorem prefix_call (lists : MultiXactLists) (first : MultiXactCall) :
    lists <+: (lists.call first).1 := by
  cases first with
  | create members => exact prefix_append _ _
  | expand multi _ _ =>
    rw [call]
    cases lists.membersOf multi with
    | none => exact prefix_rfl
    | some members =>
      dsimp only
      split_ifs
      · exact prefix_rfl
      · exact prefix_append ..
  | getMembers multi => exact prefix_rfl

theorem step_eq (taken : lists.step first = some (later, result)) :
    later = (lists.call first).1 ∧ result = (lists.call first).2 := by
  rw [Option.some.inj taken]
  exact ⟨rfl, rfl⟩

theorem prefix_of_runCalls (ran : runCalls step lists list = some (more, results)) :
    lists <+: more := by
  induction list generalizing lists results with
  | nil =>
    cases ran
    exact prefix_rfl
  | cons first _ ih =>
    obtain ⟨_, _, _, taken, ranRest, -⟩ := runCalls_cons_inv ran
    obtain ⟨rfl, -⟩ := step_eq taken
    exact (lists.prefix_call first).trans (ih ranRest)

theorem membersOf_idOf (limits : lists.WithinLimits) (bound : index < lists.length) :
    lists.membersOf (idOf index) = lists[index]? := by
  have value := toNat_idOf limits bound.le
  have valid : idOf index ≠ kInvalidMultiXactId := by
    intro zero
    rw [zero] at value
    exact absurd value (by simp [kInvalidMultiXactId])
  rw [membersOf, if_neg valid, value, Nat.add_sub_cancel]

end MultiXactLists

namespace MultiXactStore

variable {store : MultiXactStore} {lists : MultiXactLists} {fuel : Nat}

section

variable (records : store.Records lists)

include records

section

variable (limits : lists.WithinLimits)

include limits

theorem Records.membersOf_of_invalid (invalid : store.multiXactIdIsValid multi = false) :
    lists.membersOf multi = none := by
  rw [membersOf]
  split_ifs with zero
  · rfl
  apply getElem?_eq_none
  by_contra inside
  have pos : multi.toNat ≠ 0 := fun isZero => zero (BitVec.eq_of_toNat_eq isZero)
  have valid : store.multiXactIdIsValid multi := by
    apply (records.isValid_iff limits).2
    refine ⟨multi.toNat - 1, Nat.lt_of_not_le inside, ?_⟩
    apply BitVec.eq_of_toNat_eq
    rw [toNat_idOf limits (by omega)]
    omega
  rw [valid] at invalid
  contradiction

theorem Records.isValid_eq (multi : MultiXactId) :
    store.multiXactIdIsValid multi = (lists.membersOf multi).isSome := by
  cases valid : store.multiXactIdIsValid multi with
  | false => rw [records.membersOf_of_invalid limits valid]; rfl
  | true =>
    obtain ⟨_, bound, rfl⟩ := (records.isValid_iff limits).1 valid
    rw [membersOf_idOf limits bound, getElem?_eq_getElem bound]
    rfl

theorem Records.getMembers_eq (enough : 2 ^ 29 ≤ fuel) (multi : MultiXactId) :
    ∃ later, store.multiXactIdGetMembers fuel multi =
        some (later, (lists.membersOf multi).getD []) ∧ later.Records lists := by
  cases valid : store.multiXactIdIsValid multi with
  | false =>
    rw [records.membersOf_of_invalid limits valid, multiXactIdGetMembers, if_pos valid]
    exact ⟨store, rfl, records⟩
  | true =>
    obtain ⟨_, bound, rfl⟩ := (records.isValid_iff limits).1 valid
    have found := getElem?_eq_getElem bound
    obtain ⟨later, read, unchanged⟩ := records.getMembers limits enough found
    rw [membersOf_idOf limits bound, found]
    exact ⟨later, read, records.of_unchanged unchanged⟩

end

section

variable (enough : 2 ^ 29 ≤ fuel)

include enough

theorem Records.expand (limits : (lists.call (.expand multi xid status)).1.WithinLimits) :
    ∃ later result, store.multiXactIdExpand fuel multi xid status = some (later, result) ∧
      (lists.call (.expand multi xid status)).2 = .id result ∧
      later.Records (lists.call (.expand multi xid status)).1 := by
  have before := limits.of_prefix (lists.prefix_call _)
  have valid := records.isValid_eq before multi
  obtain ⟨later, read, after⟩ := records.getMembers_eq before enough multi
  rw [MultiXactLists.call] at limits ⊢
  rw [multiXactIdExpand]
  cases found : lists.membersOf multi with
  | none =>
    rw [found, Option.isSome_none] at valid
    rw [if_pos valid]
    exact ⟨store, multi, rfl, rfl, records⟩
  | some members =>
    rw [found] at valid read limits
    rw [if_neg (by rw [valid]; exact Bool.noConfusion), read]
    dsimp only [Option.getD_some] at limits ⊢
    split_ifs at limits ⊢ with present
    · exact ⟨later, multi, rfl, rfl, after⟩
    have total := limits.members
    rw [flatten_append, length_append, flatten_singleton] at total
    obtain ⟨created, isId⟩ := @Records.create later lists after
      (members ++ [{ xid := xid, status := status }]) before.ids
      (by omega)
    exact ⟨_, _, rfl, congrArg _ isId.symm, created⟩

theorem Records.call (limits : (lists.call first).1.WithinLimits) :
    ∃ later, first.run fuel store = some (later, (lists.call first).2) ∧
      later.Records (lists.call first).1 := by
  have before := limits.of_prefix (lists.prefix_call first)
  cases first with
  | create members =>
    have total := limits.members
    simp only [MultiXactLists.call, flatten_append, length_append, flatten_singleton] at total
    obtain ⟨created, isId⟩ := @Records.create store lists records members before.ids (by omega)
    rw [run, isId]
    exact ⟨_, rfl, created⟩
  | getMembers multi =>
    obtain ⟨later, read, after⟩ := records.getMembers_eq before enough multi
    rw [run, read]
    exact ⟨later, rfl, after⟩
  | expand multi _ _ =>
    obtain ⟨later, _, ran, isResult, after⟩ := records.expand enough limits
    rw [run, ran, isResult]
    exact ⟨later, rfl, after⟩

theorem Records.calls (listed : runCalls step lists list = some (more, results))
    (limits : more.WithinLimits) :
    ∃ later, runCalls (run fuel) store list = some (later, results) ∧ later.Records more := by
  induction list generalizing store lists results with
  | nil =>
    cases listed
    exact ⟨store, rfl, records⟩
  | cons first rest ih =>
    obtain ⟨_, _, _, taken, listedRest, rfl⟩ := runCalls_cons_inv listed
    obtain ⟨rfl, rfl⟩ := step_eq taken
    obtain ⟨_, ran, recordsBetween⟩ := records.call enough
      (limits.of_prefix (prefix_of_runCalls listedRest))
    obtain ⟨later, ranRest, recordsLater⟩ := ih recordsBetween listedRest
    exact ⟨later, runCalls_cons ran ranRest, recordsLater⟩

end

end

end MultiXactStore

/-- The results of a run are those over the lists, every id stands for its
members ever after, and an expanded id stands for the members of the old one and
the new one. -/
theorem multiXactMembers_permanent {fuel : Nat} (enough : 2 ^ 29 ≤ fuel)
    (offsetsDisk membersDisk : Int → Option ByteMem) {lists : MultiXactLists}
    (listed : runCalls step [] list = some (lists, results)) (limits : lists.WithinLimits) :
    ∃ store, runCalls (run fuel) (initializeMultiXact offsetsDisk membersDisk) list =
        some (store, results) ∧
      ∀ (index : Nat) (members : List MultiXactMember), lists[index]? = some members →
        (∃ later, store.multiXactIdGetMembers fuel (idOf index) = some (later, members)) ∧
        ∀ (xid : TransactionId) (status : BitVec 8), MultiXactLists.WithinLimits
            (lists ++ [members ++ [{ xid := xid, status := status }]]) →
          ∃ expanded multi later all, store.multiXactIdExpand fuel (idOf index) xid status =
              some (expanded, multi) ∧
            expanded.multiXactIdGetMembers fuel multi = some (later, all) ∧
            ((∃ member ∈ members, member.xid = xid) → multi = idOf index ∧ all = members) ∧
            ((¬∃ member ∈ members, member.xid = xid) →
              all = members ++ [{ xid := xid, status := status }]) := by
  have initially := records_initial offsetsDisk membersDisk
  obtain ⟨store, ran, records⟩ := initially.calls enough listed limits
  refine ⟨store, ran, ?_⟩
  intro index members found
  obtain ⟨bound, -⟩ := List.getElem?_eq_some_iff.1 found
  have isList := membersOf_idOf limits bound
  rw [found] at isList
  constructor
  · obtain ⟨later, read, -⟩ := records.getMembers limits enough found
    exact ⟨later, read⟩
  intro xid status room
  let more := lists.call (.expand (idOf index) xid status)
  have eq : more =
      if members.any fun member => member.xid = xid then (lists, .id (idOf index))
      else
        (lists ++ [members ++ [{ xid := xid, status := status }]], .id (idOf lists.length)) := by
    dsimp only [more, MultiXactLists.call]
    rw [isList]
  have roomAfter : more.1.WithinLimits := by
    rw [eq]
    split_ifs
    · exact limits
    · exact room
  obtain ⟨expanded, multi, ranExpand, isId, after⟩ := records.expand enough roomAfter
  obtain ⟨later, read, -⟩ := after.getMembers_eq roomAfter enough multi
  change more.2 = .id multi at isId
  have any : (members.any fun member => member.xid = xid) ↔
      ∃ member ∈ members, member.xid = xid := by
    simp
  refine ⟨expanded, multi, later, _, ranExpand, read, ?_, ?_⟩
  · intro present
    rw [if_pos (any.2 present)] at eq
    rw [eq] at isId
    have same := id.inj isId
    refine ⟨same.symm, ?_⟩
    change (more.1.membersOf multi).getD [] = members
    rw [eq, ← same]
    rw [isList]
    rfl
  · intro absent
    rw [if_neg (absent ∘ any.1)] at eq
    rw [eq] at isId
    have same := id.inj isId
    change (more.1.membersOf multi).getD [] = _
    rw [eq, ← same]
    rw [membersOf_idOf room (by simp), getElem?_concat_length]
    rfl

def expandingCalls : List MultiXactCall :=
  [.create [{ xid := 5, status := 0 }, { xid := 6, status := 3 }], .create [], .expand 1 7 2,
    .getMembers 3]

theorem multiXactMembers_permanent_expanded : ∃ store,
    runCalls (run (2 ^ 29)) (initializeMultiXact (fun _ => none) fun _ => none) expandingCalls =
      some (store, [.id 1, .id 2, .id 3,
        .members [{ xid := 5, status := 0 }, { xid := 6, status := 3 },
          { xid := 7, status := 2 }]]) := by
  have listed : runCalls step [] expandingCalls = some (_, _) := rfl
  obtain ⟨store, ran, -⟩ := multiXactMembers_permanent (Nat.le_refl (2 ^ 29))
    (fun _ => none) (fun _ => none) listed ⟨by decide, by decide⟩
  exact ⟨store, ran⟩

/-! ## Where the members are not those of the id -/

namespace MultiXactStore

/-- With an end at the last multiple of the stride the offset wraps around
before it passes the end, and the loop of `MultiXactIdGetMembers` goes on. -/
theorem readMembers_wraps (store : MultiXactStore) (aligned : off.toNat % 8 = 0) :
    readMembers fuel store off (BitVec.ofNat 32 (8 * (2 ^ 29 - 1))) = none := by
  induction fuel generalizing store off with
  | zero => rfl
  | succ fuel ih =>
    have next : (off + BitVec.ofNat 32 kMultiXactMemberStride).toNat = (off.toNat + 8) % 2 ^ 32 :=
      BitVec.toNat_add ..
    have below : off + BitVec.ofNat 32 kMultiXactMemberStride ≤
        BitVec.ofNat 32 (8 * (2 ^ 29 - 1)) := by
      rw [BitVec.le_def]
      simp only [BitVec.toNat_ofNat]
      omega
    rw [readMembers, if_pos below]
    dsimp only
    rw [ih _ (by omega)]

theorem nextMultiXactId_emptyCreates (fuel count : Nat) (store : MultiXactStore) :
    ∃ after results, runCalls (run fuel) store (List.replicate count (.create [])) =
        some (after, results) ∧
      after.nextMultiXactId = store.nextMultiXactId + BitVec.ofNat 32 count := by
  induction count generalizing store with
  | zero => exact ⟨store, [], rfl, (BitVec.add_zero _).symm⟩
  | succ count ih =>
    obtain ⟨after, results, ran, counted⟩ := ih (store.multiXactIdCreate []).1
    refine ⟨after, .id (store.multiXactIdCreate []).2 :: results, ?_, ?_⟩
    · rw [replicate_succ]
      exact runCalls_cons rfl ran
    rw [counted]
    change store.nextMultiXactId + 1 + _ = _
    rw [BitVec.add_assoc, add_comm count 1, BitVec.ofNat_add]
    rfl

theorem getMembers_afterLastId (fuel count : Nat) (members : List MultiXactMember)
    (store : MultiXactStore) (last : (store.multiXactIdCreate members).1.nextMultiXactId +
      BitVec.ofNat 32 count = 0) : ∃ after results, runCalls (run fuel) store
          (.create members :: List.replicate count (.create [])) =
        some (after, .id store.nextMultiXactId :: results) ∧
      after.multiXactIdGetMembers fuel multi = some (after, []) := by
  obtain ⟨after, results, ran, counted⟩ := nextMultiXactId_emptyCreates fuel count
      (store.multiXactIdCreate members).1
  refine ⟨after, results, ?_, ?_⟩
  · exact runCalls_cons rfl ran
  · have invalid : after.multiXactIdIsValid multi = false := by
      rw [multiXactIdIsValid, counted, last]
      exact decide_eq_false fun valid => BitVec.not_lt_zero valid.2
    rw [multiXactIdGetMembers, if_pos invalid]

/-- The only id of a store with as many members as there are offsets is never
read to its end. -/
theorem getMembers_lastOffset {members : List MultiXactMember} (records : store.Records [])
    (all : members.length = 2 ^ 29 - 1) :
    runCalls (run fuel) store [.create members, .getMembers 1] = none := by
  obtain ⟨records, -⟩ := @Records.create store [] records members (by decide) (by rw [all]; decide)
  rw [runCalls, run]
  dsimp only
  generalize (store.multiXactIdCreate members).1 = created at records ⊢
  have nextId : created.nextMultiXactId = 1 + 1 := records.nextId
  have nextOffset := records.nextOffset
  rw [nil_append, flatten_singleton, all] at nextOffset
  have valid : created.multiXactIdIsValid 1 := by
    rw [multiXactIdIsValid, nextId]
    rfl
  obtain ⟨unchanged, start⟩ := records.readOffset 1
  have first := records.starts 0 Nat.one_pos
  have aligned : (created.readOffset 1).2.toNat % 8 = 0 := by
    rw [start]
    change (BitVec.ofNat 32 (ofBytes (created.offsets.flat.slice (4 * (0 + 1)) 4))).toNat % 8 = 0
    rw [first, ofBytes_toBytes]
    rfl
  have lost : created.multiXactIdGetMembers fuel 1 = none := by
    rw [multiXactIdGetMembers, if_neg (by rw [valid]; exact Bool.noConfusion)]
    dsimp only
    rw [unchanged.nextId, nextId, unchanged.nextOffset, nextOffset]
    exact readMembers_wraps _ aligned
  rw [runCalls, run, lost]
  rfl

end MultiXactStore

/-- A member keeps its old status, an id that does not exist stays as it is, the
last offset is never reached, and after the last id none is valid. -/
theorem multiXactMembers_not_permanent : (∃ store, runCalls (run (2 ^ 29))
          (initializeMultiXact (fun _ => none) fun _ => none)
          [.create [{ xid := 5, status := 0 }], .expand 1 5 3, .getMembers 1] =
        some (store, [.id 1, .id 1, .members [{ xid := 5, status := 0 }]])) ∧
    (∃ store, runCalls (run (2 ^ 29)) (initializeMultiXact (fun _ => none) fun _ => none)
          [.expand 7 5 3, .getMembers 7] = some (store, [.id 7, .members []])) ∧
    (∀ fuel, runCalls (run fuel) (initializeMultiXact (fun _ => none) fun _ => none)
          [.create (List.replicate (2 ^ 29 - 1) { xid := 5, status := 0 }), .getMembers 1] = none) ∧
    (∀ fuel, ∃ store results, runCalls (run fuel)
          (initializeMultiXact (fun _ => none) fun _ => none)
          (.create [{ xid := 5, status := 0 }] :: List.replicate (2 ^ 32 - 2) (.create [])) =
        some (store, .id 1 :: results) ∧
      store.multiXactIdGetMembers fuel 1 = some (store, [])) := by
  have initially := records_initial (fun _ => none) fun _ => none
  refine ⟨?_, ?_, ?_, ?_⟩
  · have listed : runCalls step [] [.create [{ xid := 5, status := 0 }], .expand 1 5 3,
        .getMembers 1] = some (_, _) := rfl
    obtain ⟨store, ran, -⟩ := initially.calls (Nat.le_refl (2 ^ 29)) listed
      ⟨by decide, by decide⟩
    exact ⟨store, ran⟩
  · have listed : runCalls step [] [.expand 7 5 3, .getMembers 7] = some (_, _) := rfl
    obtain ⟨store, ran, -⟩ := initially.calls (Nat.le_refl (2 ^ 29)) listed
      ⟨by decide, by decide⟩
    exact ⟨store, ran⟩
  · intro fuel
    exact getMembers_lastOffset initially length_replicate
  · intro fuel
    exact getMembers_afterLastId fuel (2 ^ 32 - 2) [{ xid := 5, status := 0 }] _ (by rfl)

end Pgcpp.Transaction

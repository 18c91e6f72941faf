import Mathlib.Data.Finset.Option
import Mathlib.Data.Fintype.Basic

/-!
# Partition pruning

Steps of comparisons select the partitions a query has to read.  A key is
routed by its bound, or else to the default partition; the comparisons of a
list or range table look at the bounds only, and at the low half of a datum.
-/

namespace Pgcpp.Partitioning

open List

abbrev KeyDatum := BitVec 64

/-- What `CompareDatum` compares. -/
def asInt32 (datum : KeyDatum) : Int := (datum.setWidth 32).toInt

/-- The type of a key; `Int32GetDatum` leaves the high half of an int4 zero. -/
inductive KeyType where
  | int4
  | int8

def KeyType.value : KeyType → KeyDatum → Int
  | .int4, datum => asInt32 datum
  | .int8, datum => datum.toInt

inductive PartitionStrategy where
  | list
  | range
  | hash
  deriving DecidableEq

/-- Bounds of `nparts` partitions, as `partition_bounds_create` makes them: the
default partition has none, and a range partition has one pair. -/
structure PartitionBoundInfo (nparts : Nat) where
  strategy : PartitionStrategy
  /-- Bounds of list values and of ranges, with the partition of each. -/
  entries : List (List KeyDatum × Fin nparts)
  /-- The partition of each remainder, for as many as the greatest modulus. -/
  slots : List (Option (Fin nparts))
  nullIndex : Option (Fin nparts)
  defaultIndex : Option (Fin nparts)
  unbounded : ∀ entry ∈ entries, defaultIndex ≠ some entry.2
  single : strategy = .range → (entries.map Prod.snd).Nodup

inductive PruneOp where
  | less
  | lessEqual
  | equal
  | greaterEqual
  | greater
  deriving DecidableEq

def PruneOp.compare (op : PruneOp) (lhs rhs : Int) : Bool :=
  match op with
  | .less => lhs < rhs
  | .lessEqual => lhs ≤ rhs
  | .equal => lhs = rhs
  | .greaterEqual => lhs ≥ rhs
  | .greater => lhs > rhs

def opHolds (op : PruneOp) (lhs rhs : KeyDatum) : Bool := op.compare (asInt32 lhs) (asInt32 rhs)

structure PruneStepOp where
  op : PruneOp
  value : KeyDatum
  isNull : Bool

inductive PruneCombineOp where
  | and
  | or

inductive PruneStep where
  | opStep (step : PruneStepOp)
  | combineStep (op : PruneCombineOp) (subSteps : List PruneStep)
  | noop

section

variable {β γ : Type*}

mutual

/-- A tree of steps from the values of its comparisons. -/
def PruneStep.fold (leaf : PruneStepOp → β)
    (combine : PruneCombineOp → List β → β) (noop : β) : PruneStep → β
  | .opStep step => leaf step
  | .combineStep op subSteps => combine op (foldAll leaf combine noop subSteps)
  | .noop => noop

def PruneStep.foldAll (leaf : PruneStepOp → β) (combine : PruneCombineOp → List β → β) (noop : β) :
    List PruneStep → List β
  | [] => []
  | step :: steps => step.fold leaf combine noop :: foldAll leaf combine noop steps

end

variable (Related : β → γ → Prop) {leaf : PruneStepOp → β}
  {leaf₂ : PruneStepOp → γ} {combine : PruneCombineOp → List β → β}
  {combine₂ : PruneCombineOp → List γ → γ} {noop : β} {noop₂ : γ}

mutual

theorem PruneStep.fold_related (leaves : ∀ op, Related (leaf op) (leaf₂ op))
    (combines : ∀ op values values₂, List.Forall₂ Related values values₂ →
      Related (combine op values) (combine₂ op values₂))
    (noops : Related noop noop₂) (step : PruneStep) :
    Related (step.fold leaf combine noop) (step.fold leaf₂ combine₂ noop₂) := by
  cases step with
  | opStep step => exact leaves step
  | combineStep op subSteps =>
    apply combines
    exact foldAll_related leaves combines noops subSteps
  | noop => exact noops

theorem PruneStep.foldAll_related (leaves : ∀ op, Related (leaf op) (leaf₂ op))
    (combines : ∀ op values values₂, List.Forall₂ Related values values₂ →
      Related (combine op values) (combine₂ op values₂))
    (noops : Related noop noop₂) (steps : List PruneStep) :
    List.Forall₂ Related (foldAll leaf combine noop steps)
      (foldAll leaf₂ combine₂ noop₂ steps) := by
  cases steps with
  | nil => exact .nil
  | cons step steps =>
    apply List.Forall₂.cons
    · exact fold_related leaves combines noops step
    · exact foldAll_related leaves combines noops steps

end

end

section

variable {nparts : Nat} (bounds : PartitionBoundInfo nparts)

/-- The Knuth-style hash of a key, reduced to a remainder. -/
def partitionHashIdentity (modulus : Nat) (value : KeyDatum) : Nat :=
  let x := (value ^^^ (value >>> 33)) * 0xff51afd7ed558ccd#64
  let x := (x ^^^ (x >>> 33)) * 0xc4ceb9fe1a85ec53#64
  (x ^^^ (x >>> 33)).toNat % modulus

def inRange (value : KeyDatum) : List KeyDatum → Bool
  | lower :: upper :: _ => asInt32 lower ≤ asInt32 value ∧ asInt32 value < asInt32 upper
  | _ => false

/-- The partition whose own bound accepts a value. -/
def boundPartition (value : KeyDatum) : Option (Fin nparts) :=
  match bounds.strategy with
  | .list =>
      (bounds.entries.find? (·.1.head?.any (asInt32 · = asInt32 value))).map Prod.snd
  | .range => (bounds.entries.find? (inRange value ·.1)).map Prod.snd
  | .hash =>
      if bounds.slots = [] then none
      else bounds.slots[partitionHashIdentity bounds.slots.length value]?.join

def partitionBoundAccepts : Option KeyDatum → Option (Fin nparts)
  | none => bounds.nullIndex <|> bounds.defaultIndex
  | some value => boundPartition bounds value <|> bounds.defaultIndex

def listPartitionMatchesOp (part : Fin nparts) (step : PruneStepOp) : Bool :=
  bounds.entries.any fun entry => entry.2 = part ∧ entry.1.head?.any (opHolds step.op · step.value)

def rangePartitionMatchesOp (lower upper : KeyDatum) (step : PruneStepOp) : Bool :=
  let value := asInt32 step.value
  match step.op with
  | .equal => asInt32 lower ≤ value ∧ value < asInt32 upper
  | .less => asInt32 lower < value
  | .lessEqual => asInt32 lower ≤ value
  | .greaterEqual => asInt32 upper > value
  | .greater => asInt32 upper > value ∧ asInt32 upper - 1 > value

def findRangeBounds (part : Fin nparts) : Option (KeyDatum × KeyDatum) :=
  bounds.entries.findSome? fun entry =>
    match entry with
    | (lower :: upper :: _, index) => if index = part then some (lower, upper) else none
    | _ => none

def evaluateOpStep (step : PruneStepOp) : Finset (Fin nparts) :=
  if step.isNull then (bounds.nullIndex <|> bounds.defaultIndex).toFinset
  else
    match bounds.strategy with
    | .hash =>
        if step.op = .equal then (partitionBoundAccepts bounds (some step.value)).toFinset
        else .univ
    | .list => .filter (listPartitionMatchesOp bounds · step) .univ
    | .range => .filter (fun part => (findRangeBounds bounds part).any
        fun (lower, upper) => rangePartitionMatchesOp lower upper step) .univ

/-- The first result, with `Intersect` or `Union` of the others. -/
def combineResults (op : PruneCombineOp) : List (Finset (Fin nparts)) → Finset (Fin nparts)
  | [] =>
      match op with
      | .and => .univ
      | .or => ∅
  | first :: rest =>
      match op with
      | .and => rest.foldl (· ∩ ·) first
      | .or => rest.foldl (· ∪ ·) first

def evaluateStep (step : PruneStep) : Finset (Fin nparts) :=
  step.fold (evaluateOpStep bounds) combineResults .univ

/-- The partitions that a conjunction of steps leaves. -/
def partprunePartitions (steps : List PruneStep) : Finset (Fin nparts) :=
  combineResults .and (steps.map (evaluateStep bounds))

end

/-- A tree of steps read as a condition. -/
def PruneStep.holds (leaf : PruneStepOp → Bool) (step : PruneStep) : Bool :=
  step.fold leaf
    (fun op values =>
      match op with
      | .and => values.all id
      | .or => values.any id)
    true

/-- A key satisfies a comparison; a step for NULL is satisfied by NULL. -/
def PruneStepOp.satisfied (type : KeyType) (key : Option KeyDatum) (step : PruneStepOp) : Bool :=
  match key with
  | none => step.isNull
  | some value => !step.isNull && step.op.compare (type.value value) (type.value step.value)

/-- The bound of the partition lists the number or has it in its range. -/
def Covers (bounds : PartitionBoundInfo nparts) (part : Fin nparts) (number : Int) : Prop :=
  ∃ entry ∈ bounds.entries, entry.2 = part ∧
    match bounds.strategy, entry.1 with
    | .list, value :: _ => asInt32 value = number
    | .range, lower :: upper :: _ => asInt32 lower ≤ number ∧ number < asInt32 upper
    | _, _ => False

/-- The partition may have keys that satisfy the comparison, by its bound: a number
that it covers, against the low half of the value.  Nothing is covered by the
default partition.  In a hash table only equality says something. -/
def MayHold (bounds : PartitionBoundInfo nparts) (part : Fin nparts) (step : PruneStepOp) : Prop :=
  if step.isNull then partitionBoundAccepts bounds none = some part
  else if bounds.strategy = .hash then
    step.op = .equal → partitionBoundAccepts bounds (some step.value) = some part
  else ∃ number, Covers bounds part number ∧ step.op.compare number (asInt32 step.value)

section

variable {nparts : Nat} {part : Fin nparts}

theorem mem_foldl_inter (first : Finset (Fin nparts)) :
    part ∈ rest.foldl (· ∩ ·) first ↔ ∀ set ∈ first :: rest, part ∈ set := by
  induction rest generalizing first with
  | nil => simp
  | cons set rest ih => simp [ih, and_assoc]

theorem mem_foldl_union (first : Finset (Fin nparts)) :
    part ∈ rest.foldl (· ∪ ·) first ↔ ∃ set ∈ first :: rest, part ∈ set := by
  induction rest generalizing first with
  | nil => simp
  | cons set rest ih => simp [ih, or_assoc]

/-- A partition stays exactly when the tree holds of its comparisons. -/
theorem mem_evaluateStep (step : PruneStep) :
    part ∈ evaluateStep bounds step ↔ step.holds fun op => part ∈ evaluateOpStep bounds op := by
  apply PruneStep.fold_related fun set (holds : Bool) => part ∈ set ↔ holds
  · exact fun _ => (decide_eq_true_iff ..).symm
  · intro op sets values related
    cases op with
    | and =>
      have each : (∀ set ∈ sets, part ∈ set) ↔ values.all id := by
        induction related with
        | nil => simp
        | cons head _ ih => simp [head, ← ih]
      rw [← each]
      cases sets with
      | nil => simp [combineResults]
      | cons first rest => exact mem_foldl_inter first
    | or =>
      have any : (∃ set ∈ sets, part ∈ set) ↔ values.any id := by
        induction related with
        | nil => simp
        | cons head _ ih => simp [head, ← ih]
      rw [← any]
      cases sets with
      | nil => simp [combineResults]
      | cons first rest => exact mem_foldl_union first
  · simp

theorem mem_partprunePartitions : part ∈ partprunePartitions bounds steps ↔
      ∀ step ∈ steps, step.holds fun op => part ∈ evaluateOpStep bounds op := by
  cases steps with
  | nil => simp [partprunePartitions, combineResults]
  | cons step steps =>
    refine (mem_foldl_inter ..).trans ?_
    simp [mem_evaluateStep]

end

theorem PruneStep.holds_mono (weaker : ∀ op, leaf op → leaf₂ op) {step : PruneStep} :
    step.holds leaf → step.holds leaf₂ := by
  apply fold_related (fun holds holds₂ : Bool => holds → holds₂) weaker
  · intro op _ _ related holds
    cases op with
    | and =>
      induction related with
      | nil => rfl
      | cons head _ ih => simp_all
    | or =>
      induction related with
      | nil => exact holds
      | cons head _ ih =>
        simp only [any_cons, Bool.or_eq_true] at holds ⊢
        exact holds.imp head ih
  · exact id

section

variable {nparts : Nat} {bounds : PartitionBoundInfo nparts}
  {part : Fin nparts} {step : PruneStepOp} {value : KeyDatum}

theorem findSome?_of_nodup {entries : List (List KeyDatum × Fin nparts)}
    (single : (entries.map Prod.snd).Nodup) (mem : (lower :: upper :: rest, part) ∈ entries) :
    (entries.findSome? fun entry =>
      match entry with
      | (lower :: upper :: _, index) => if index = part then some (lower, upper) else none
      | _ => none) = some (lower, upper) := by
  induction entries with
  | nil => nomatch mem
  | cons entry entries ih =>
    rw [map_cons, nodup_cons] at single
    rcases mem_cons.1 mem with rfl | later
    · simp
    have other : entry.2 ≠ part := by
      rintro rfl
      exact single.1 (mem_map.2 ⟨_, later, rfl⟩)
    obtain ⟨_ | ⟨_, _ | ⟨_, _⟩⟩, index⟩ := entry <;>
      simpa [other] using ih single.2 later

section

variable (routed : partitionBoundAccepts bounds (some value) = some part)

include routed

theorem range_nonempty (range : bounds.strategy = .range)
    (pair : findRangeBounds bounds part = some (lower, upper)) : asInt32 lower < asInt32 upper := by
  cases bound : boundPartition bounds value with
  | some own =>
    have own : own = part := by simpa [partitionBoundAccepts, bound] using routed
    rw [boundPartition, range, Option.map_eq_some_iff] at bound
    obtain ⟨⟨_ | ⟨low, _ | ⟨high, _⟩⟩, index⟩, found, rfl⟩ := bound
    · simpa [inRange] using find?_some found
    · simpa [inRange] using find?_some found
    subst own
    have inside := find?_some found
    simp only [inRange, decide_eq_true_eq] at inside
    have own_pair : findRangeBounds bounds index = some (low, high) :=
      findSome?_of_nodup (bounds.single range) (mem_of_find?_eq_some found)
    cases pair.symm.trans own_pair
    omega
  | none =>
    have isDefault : bounds.defaultIndex = some part := by
      simpa [partitionBoundAccepts, bound] using routed
    obtain ⟨entry, mem, found⟩ := exists_of_findSome?_eq_some pair
    obtain ⟨_ | ⟨_, _ | ⟨_, _⟩⟩, index⟩ := entry
    · nomatch found
    · nomatch found
    have own : index = part := (Option.ite_none_right_eq_some.1 found).1
    exact absurd (own ▸ isDefault) (bounds.unbounded _ mem)

theorem rangePartitionMatchesOp_iff_covers (range : bounds.strategy = .range) :
    (findRangeBounds bounds part).any (fun (lower, upper) =>
        rangePartitionMatchesOp lower upper step) ↔
      ∃ number, Covers bounds part number ∧ step.op.compare number (asInt32 step.value) := by
  constructor
  · intro found
    obtain ⟨⟨lower, upper⟩, pair, kept⟩ := (Option.any_eq_true ..).1 found
    have nonempty := range_nonempty routed range pair
    obtain ⟨entry, mem, same⟩ := exists_of_findSome?_eq_some pair
    obtain ⟨_ | ⟨_, _ | ⟨_, _⟩⟩, index⟩ := entry
    · nomatch same
    · nomatch same
    obtain ⟨own, ends⟩ := Option.ite_none_right_eq_some.1 same
    cases ends
    subst own
    have covers (number : Int) (inside : asInt32 lower ≤ number ∧ number < asInt32 upper) :
        Covers bounds index number := by
      refine ⟨_, mem, rfl, ?_⟩
      rw [range]
      exact inside
    cases op : step.op <;>
      simp only [rangePartitionMatchesOp, op, decide_eq_true_eq] at kept
    case less => exact ⟨_, covers (asInt32 lower) (by omega), decide_eq_true kept⟩
    case lessEqual => exact ⟨_, covers (asInt32 lower) (by omega), decide_eq_true kept⟩
    case equal => exact ⟨_, covers _ kept, decide_eq_true rfl⟩
    case greaterEqual =>
      exact ⟨_, covers (asInt32 upper - 1) (by omega), decide_eq_true (by omega)⟩
    case greater => exact ⟨_, covers (asInt32 upper - 1) (by omega), decide_eq_true kept.2⟩
  rintro ⟨number, ⟨⟨datums, index⟩, mem, rfl, inside⟩, holds⟩
  rw [range] at inside
  obtain _ | ⟨lower, _ | ⟨upper, _⟩⟩ := datums
  · nomatch inside
  · nomatch inside
  have pair : findRangeBounds bounds index = some (lower, upper) :=
    findSome?_of_nodup (bounds.single range) mem
  rw [pair]
  change rangePartitionMatchesOp lower upper step
  cases op : step.op <;>
    simp only [PruneOp.compare, rangePartitionMatchesOp, op, decide_eq_true_eq]
      at holds inside ⊢ <;>
    omega

theorem mem_evaluateOpStep_iff : part ∈ evaluateOpStep bounds step ↔ MayHold bounds part step := by
  rw [evaluateOpStep, MayHold]
  split
  · rw [Option.mem_toFinset]
    rfl
  cases strategy : bounds.strategy with
  | hash => by_cases equal : step.op = .equal <;> simp [equal]
  | list =>
    simp only [reduceCtorEq, if_false, Finset.mem_filter, listPartitionMatchesOp, any_eq_true]
    constructor
    · rintro ⟨_, ⟨datums, index⟩, mem, same⟩
      obtain ⟨rfl, holds⟩ := of_decide_eq_true same
      obtain ⟨value, head, holds⟩ := (Option.any_eq_true ..).1 holds
      obtain _ | ⟨_, _⟩ := datums <;> cases head
      refine ⟨_, ⟨_, mem, rfl, ?_⟩, holds⟩
      rw [strategy]
    · rintro ⟨number, ⟨⟨datums, index⟩, mem, rfl, same⟩, holds⟩
      rw [strategy] at same
      obtain _ | ⟨value, _⟩ := datums <;> cases same
      exact ⟨Finset.mem_univ _, _, mem, decide_eq_true ⟨rfl, holds⟩⟩
  | range =>
    simp only [reduceCtorEq, if_false, Finset.mem_filter, Finset.mem_univ, true_and]
    exact rangePartitionMatchesOp_iff_covers routed strategy

end

end

-- The low half of 2^33 is 0: the partition of the bound 5 is dropped.
example : @partprunePartitions 1 ⟨.list, [([5], 0)], [], none, none, by simp, by simp⟩
    [.opStep ⟨.less, 2 ^ 33, false⟩] = ∅ := by decide

end Pgcpp.Partitioning

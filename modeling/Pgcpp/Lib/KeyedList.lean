import Mathlib.Data.List.Sort

/-!
# Lists ordered by key

Items are compared through a key and a three-way comparison.  Insertion puts an
item before the first one whose key is not smaller, and a scan collects the
items that match until one rules out all later ones.
-/

namespace Pgcpp.Lib

open List

variable {α κ : Type}

section

variable (cmp : κ → κ → Ordering) (keyOf : α → κ)

def KeyLe (left right : α) : Prop := (cmp (keyOf left) (keyOf right)).isLE

instance : DecidableRel (KeyLe cmp keyOf) := fun _ _ => inferInstanceAs (Decidable (_ = true))

def insertSorted (item : α) (items : List α) : List α := items.orderedInsert (KeyLe cmp keyOf) item

/-- The first match and the items behind it, unless a miss ends the scan
before. -/
def firstHit (hit stop : α → Bool) : List α → Option (α × List α)
  | [] => none
  | item :: rest =>
    if hit item then some (item, rest) else if stop item then none else firstHit hit stop rest

/-- The items that match, up to the first miss that ends the scan. -/
def collect (hit stop : α → Bool) : List α → List α
  | [] => []
  | item :: rest =>
    if hit item then item :: collect hit stop rest
    else if stop item then [] else collect hit stop rest

end

section

variable {cmp : κ → κ → Ordering} {keyOf : α → κ}

theorem isLE_of_lt (less : cmp left right = .lt) : (cmp left right).isLE := by
  rw [less]
  rfl

theorem lt_of_isLE_of_ne (le : (cmp left right).isLE) (apart : cmp left right ≠ .eq) :
    cmp left right = .lt := by
  cases order : cmp left right with
  | lt => rfl
  | eq => exact absurd order apart
  | gt => simp [order] at le

theorem insertSorted_perm : (insertSorted cmp keyOf item items).Perm (item :: items) :=
  perm_orderedInsert ..

theorem mem_insertSorted :
    other ∈ insertSorted cmp keyOf item items ↔ other = item ∨ other ∈ items :=
  mem_orderedInsert _

theorem insertIdx_findIdx_eq_insertSorted : items.insertIdx (items.findIdx fun other =>
      (cmp (keyOf item) (keyOf other)).isLE) item = insertSorted cmp keyOf item items := by
  unfold insertSorted
  induction items with
  | nil => rfl
  | cons other _ ih =>
    by_cases le : KeyLe cmp keyOf item other
    · rw [orderedInsert_cons_of_le _ _ le, findIdx_cons]
      have front : (cmp (keyOf item) (keyOf other)).isLE := le
      simp [front]
    · rw [orderedInsert_of_not_le _ _ le, findIdx_cons, ← ih]
      have behind : (cmp (keyOf item) (keyOf other)).isLE = false := by simpa [KeyLe] using le
      simp [behind]

theorem collect_eq_of_firstHit (items : List α) : collect hit stop items =
      match firstHit hit stop items with
      | none => []
      | some (item, later) => item :: collect hit stop later := by
  induction items with
  | nil => rfl
  | cons item _ ih =>
    rw [collect, firstHit]
    split
    · rfl
    split
    · rfl
    · exact ih

theorem collect_sublist : (collect hit stop items).Sublist items := by
  induction items with
  | nil => exact List.Sublist.slnil
  | cons item _ ih =>
    unfold collect
    split
    · exact ih.cons_cons item
    split
    · exact nil_sublist _
    · exact ih.cons item

theorem length_lt_of_firstHit (found : firstHit hit stop items = some (item, later)) :
    later.length < items.length := by
  induction items with
  | nil => simp [firstHit] at found
  | cons other rest ih =>
    unfold firstHit at found
    split at found
    · obtain ⟨_, rfl⟩ : other = item ∧ rest = later := by simpa using found
      simp
    split at found
    · simp at found
    · exact (ih found).trans (Nat.lt_succ_self _)

/-- A scan of sorted items finds every match, when a miss that ends the scan
rules out all greater keys. -/
theorem collect_eq_filter (sorted : items.Pairwise (KeyLe cmp keyOf))
    (final : ∀ item later, KeyLe cmp keyOf item later → hit item = false →
      stop item → hit later = false) : collect hit stop items = items.filter hit := by
  induction items with
  | nil => rfl
  | cons item rest ih =>
    obtain ⟨least, sortedRest⟩ := pairwise_cons.1 sorted
    have later := ih sortedRest
    unfold collect
    cases found : hit item with
    | true => simp [found, later]
    | false =>
      cases ends : stop item with
      | false => simp [found, later]
      | true =>
        have none : rest.filter hit = [] := by
          rw [filter_eq_nil_iff]
          intro other mem
          simp [final item other (least other mem) found ends]
        simp [found, none]

variable [Std.TransCmp cmp]

theorem lt_of_not_isLE (greater : (cmp left right).isLE ≠ true) : cmp right left = .lt := by
  rw [← Std.OrientedCmp.gt_iff_lt]
  cases order : cmp left right with
  | gt => rfl
  | _ => simp [order] at greater

theorem isLE_of_not_lt (notLess : cmp left right ≠ .lt) : (cmp right left).isLE := by
  by_contra greater
  exact notLess (lt_of_not_isLE greater)

variable (cmp keyOf) in
theorem exists_smaller (key : κ) (items : List α) :
    ∃ passed rest, items = passed ++ rest ∧ passed.length = items.findIdx (fun item =>
        (cmp key (keyOf item)).isLE) ∧ ∀ item ∈ passed, cmp (keyOf item) key = .lt := by
  induction items with
  | nil => exact ⟨[], [], rfl, rfl, by simp⟩
  | cons item rest ih =>
    rw [findIdx_cons]
    cases le : (cmp key (keyOf item)).isLE with
    | true => exact ⟨[], item :: rest, rfl, rfl, by simp⟩
    | false =>
      obtain ⟨passed, later, rfl, count, smaller⟩ := ih
      refine ⟨item :: passed, later, rfl, ?_, ?_⟩
      · simp [count]
      · have here : cmp (keyOf item) key = .lt := lt_of_not_isLE (by simp [le])
        exact forall_mem_cons.2 ⟨here, smaller⟩

instance : Std.Total (KeyLe cmp keyOf) := by
  constructor
  intro left right
  by_cases le : KeyLe cmp keyOf left right
  · exact .inl le
  · exact .inr (isLE_of_lt (lt_of_not_isLE le))

instance : IsTrans α (KeyLe cmp keyOf) := ⟨fun _ _ _ => Std.TransCmp.isLE_trans⟩

theorem insertSorted_pairwise (sorted : items.Pairwise (KeyLe cmp keyOf)) (item : α) :
    (insertSorted cmp keyOf item items).Pairwise (KeyLe cmp keyOf) :=
  sorted.orderedInsert item _

end

theorem mergeSort_eq_of_perm {number : α → Nat} {items scan : List α}
    (ordered : items.Pairwise fun left right => number left < number right)
    (perm : scan.Perm items) :
    scan.mergeSort (fun left right => number left ≤ number right) = items := by
  have distinct : (items.map number).Nodup := by
    apply pairwise_map.2
    exact ordered.imp Nat.ne_of_lt
  have sorted := (mergeSort_perm scan (fun left right => number left ≤ number right)).trans perm
  apply @List.Perm.eq_of_pairwise α fun left right => decide (number left ≤ number right)
  · intro left right leftMember rightMember forward backward
    apply inj_on_of_nodup_map distinct (sorted.mem_iff.1 leftMember) rightMember
    simp only [decide_eq_true_eq] at forward backward
    exact Nat.le_antisymm forward backward
  · apply pairwise_mergeSort
    · simp only [decide_eq_true_eq]
      intro left _ right
      exact Nat.le_trans
    · intro left right
      simpa using Nat.le_total (number left) (number right)
  · apply ordered.imp
    intro left right less
    simpa using less.le
  · exact sorted

end Pgcpp.Lib

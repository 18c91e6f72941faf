import Pgcpp.Access.Toast
import Pgcpp.Lib.KeyedList

/-!
# Values in the TOAST table

`toast_save_datum` appends the chunks of a value under a chunk id of its own,
and a reader who sees these rows in any order puts the value together again.
A call that cannot get a TOAST table fails and adds no rows.
-/

namespace Pgcpp.Access

open Lib Function VarattExternal

def ToastState.rows (state : ToastState) (relid : Oid) : List ChunkRow :=
  (state.files relid).getD []

/-- The relation has a TOAST table, or gets one. -/
def ToastState.AcceptsChunks (state : ToastState) : Prop :=
  ∃ relation, state.relation = some relation ∧ relation.relkind ≠ .toastValue ∧
    ((relation.reltoastrelid ≠ kInvalidOid ∧ (state.files relation.reltoastrelid).isSome) ∨
      (relation.reltoastrelid = kInvalidOid ∧
        relation.attlens.any (fun attlen => attlen == -1) ∧
        state.nextOid ≠ kInvalidOid ∧ state.files state.nextOid = none))

theorem chunkId_of_mem_chunkRows :
    ∀ row ∈ chunkRows chunkId chunkSeq stored, row.chunkId = chunkId := by
  fun_induction chunkRows chunkId chunkSeq stored with
  | case1 => simp
  | case2 chunkSeq stored _ ih => exact List.forall_mem_cons.2 ⟨rfl, ih⟩

theorem chunkSeq_le_of_mem_chunkRows :
    ∀ row ∈ chunkRows chunkId chunkSeq stored, chunkSeq ≤ row.chunkSeq := by
  fun_induction chunkRows chunkId chunkSeq stored with
  | case1 => simp
  | case2 chunkSeq stored _ ih =>
    intro row mem
    rcases List.mem_cons.1 mem with rfl | later
    · exact le_rfl
    · exact Nat.le_of_succ_le (ih row later)

theorem pairwise_chunkRows : (chunkRows chunkId chunkSeq stored).Pairwise fun left right =>
      left.chunkSeq < right.chunkSeq := by
  fun_induction chunkRows chunkId chunkSeq stored with
  | case1 => exact .nil
  | case2 chunkSeq stored _ ih =>
    refine .cons ?_ ih
    intro row mem
    exact chunkSeq_le_of_mem_chunkRows row mem

theorem flatMap_chunkRows :
    ((chunkRows chunkId chunkSeq stored).map chunkOf).flatMap Prod.snd = stored := by
  fun_induction chunkRows chunkId chunkSeq stored with
  | case1 chunkSeq stored empty =>
    rw [List.eq_nil_of_length_eq_zero empty]
    rfl
  | case2 chunkSeq stored _ ih =>
    have small : 4 + (stored.take kToastMaxChunkSize).length < 2 ^ 30 := by
      rw [List.length_take, kToastMaxChunkSize]
      omega
    rw [List.map_cons, List.flatMap_cons, ih]
    simp [chunkOf, vardata4B_plain small]

theorem toastGetDatum_of_perm {scan : List ChunkRow}
    {stored : List UInt8} (small : stored.length < 2 ^ 31)
    (shown : (scan.filter fun row => row.chunkId = chunkId).Perm (chunkRows chunkId 0 stored)) :
    toastGetDatum scan
        { rawsize := BitVec.ofInt 32 (-stored.length), valueid := chunkId, toastrelid := relid } =
      some (plainVarlena stored) := by
  have rawsize : (BitVec.ofInt 32 (-stored.length)).toInt = -stored.length := by
    rw [BitVec.toInt_ofInt, Int.bmod_eq_of_le] <;> omega
  have sorted := @mergeSort_eq_of_perm _ Prod.fst _ _
    (List.pairwise_map.2 pairwise_chunkRows)
    (shown.map chunkOf)
  have notCompressed : ¬(0 : Int) < -stored.length := by omega
  simp only [toastGetDatum, rawsize, if_neg notCompressed, sorted, flatMap_chunkRows]

/-- `count` OIDs were handed out, and rows with such an OID were added. -/
structure Extends (before after : ToastState) (count : Nat) : Prop where
  nextOid : after.nextOid = before.nextOid + BitVec.ofNat 32 count
  rows : ∀ relid, ∃ added, after.rows relid = before.rows relid ++ added ∧
    ∀ row ∈ added, ∃ index < count, row.chunkId = before.nextOid + BitVec.ofNat 32 index

namespace Extends

theorem refl (state : ToastState) : Extends state state 0 := by
  constructor
  · simp
  · intro _
    exact ⟨[], by simp, by simp⟩

theorem trans (front : Extends before middle first) (back : Extends middle after second) :
    Extends before after (first + second) := by
  constructor
  · rw [back.nextOid, front.nextOid, BitVec.add_assoc, BitVec.ofNat_add]
  intro relid
  obtain ⟨early, frontRows, frontIds⟩ := front.rows relid
  obtain ⟨late, backRows, backIds⟩ := back.rows relid
  refine ⟨early ++ late, ?_, ?_⟩
  · rw [backRows, frontRows, List.append_assoc]
  intro row mem
  rcases List.mem_append.1 mem with mem | mem
  · obtain ⟨index, below, id⟩ := frontIds row mem
    exact ⟨index, by omega, id⟩
  obtain ⟨index, below, id⟩ := backIds row mem
  refine ⟨first + index, by omega, ?_⟩
  rw [id, front.nextOid, BitVec.add_assoc, BitVec.ofNat_add]

end Extends

/-- The value is in the TOAST table `relid` under `chunkId`. -/
structure Stores (before after : ToastState) (relid chunkId : Oid)
    (stored : List UInt8) : Prop where
  allocated : ∃ index < 2, chunkId = before.nextOid + BitVec.ofNat 32 index ∧
    after.nextOid = before.nextOid + BitVec.ofNat 32 (index + 1)
  rows : ∀ other, after.rows other = before.rows other ++
    if other = relid then chunkRows chunkId 0 stored else []
  accepts : after.AcceptsChunks

theorem Stores.extends (stores : Stores before after relid chunkId stored) :
    ∃ count ≤ 2, Extends before after count := by
  obtain ⟨index, below, id, next⟩ := stores.allocated
  refine ⟨index + 1, below, next, ?_⟩
  intro other
  refine ⟨_, stores.rows other, ?_⟩
  intro row mem
  split at mem
  · exact ⟨index, lt_add_one _, (chunkId_of_mem_chunkRows row mem).trans id⟩
  · simp at mem

theorem rows_update (state : ToastState) (file : state.rows relid = rows)
    (added : List ChunkRow) (other : Oid) : ToastState.rows { state with
        files := update state.files relid (some (rows ++ added)) } other =
      state.rows other ++ if other = relid then added else [] := by
  by_cases same : other = relid
  · subst same
    simp [ToastState.rows, ← file]
  · simp [ToastState.rows, same]

theorem toastSaveDatum_of_table (raw : compress = true → pglzCompress data = none)
    (table : toastGetOrCreateTable state = (prepared, some relid))
    (valid : relid ≠ kInvalidOid) (file : prepared.files relid = some rows) :
    toastSaveDatum state data compress = ({ prepared with
          nextOid := prepared.nextOid + 1, files := update prepared.files relid
            (some (rows ++ chunkRows prepared.nextOid 0 data)) }, some (bytes
          { rawsize := BitVec.ofInt 32 (-data.length)
            valueid := prepared.nextOid, toastrelid := relid })) := by
  have notCompressed : (if (compress && 32 < data.length) = true then
        pglzCompress data else none) = none := by
    split
    · next both =>
        rw [Bool.and_eq_true] at both
        exact raw both.1
    · rfl
  simp only [toastSaveDatum, table, if_neg valid, allocateOid, file, notCompressed]
  simp

theorem accepts_of_table {state : ToastState} {relation : ToastRelation} {rows : List ChunkRow}
    (present : state.relation = some relation) (ordinary : relation.relkind ≠ .toastValue)
    (valid : relation.reltoastrelid ≠ kInvalidOid)
    (file : state.files relation.reltoastrelid = some rows) : state.AcceptsChunks :=
  ⟨relation, present, ordinary, .inl ⟨valid, by simp [file]⟩⟩

/-- What a call of `toast_save_datum` does with data that it stores as they
are. -/
def SaveSpec (state : ToastState) (data : List UInt8)
    (result : ToastState × Option (List UInt8)) : Prop :=
  (state.AcceptsChunks ∧ ∃ after relid chunkId, result = (after, some (bytes
      { rawsize := BitVec.ofInt 32 (-data.length), valueid := chunkId, toastrelid := relid })) ∧
    Stores state after relid chunkId data) ∨
  (¬state.AcceptsChunks ∧ ∃ after count, result = (after, none) ∧
    count ≤ 2 ∧ Extends state after count)

theorem saveSpec_invalid (refused : ¬state.AcceptsChunks)
    (table : toastGetOrCreateTable state = (state, some kInvalidOid)) :
    SaveSpec state data (toastSaveDatum state data compress) := by
  refine Or.inr ⟨refused, state, 0, ?_, by omega, .refl state⟩
  simp [toastSaveDatum, table]

section

variable (raw : compress = true → pglzCompress data = none)

include raw

theorem saveSpec_existing (present : state.relation = some relation)
    (ordinary : relation.relkind ≠ .toastValue) (valid : relation.reltoastrelid ≠ kInvalidOid) :
    SaveSpec state data (toastSaveDatum state data compress) := by
  have table : toastGetOrCreateTable state = (state, some relation.reltoastrelid) := by
    simp [toastGetOrCreateTable, present, ordinary, valid]
  cases file : state.files relation.reltoastrelid with
  | none =>
    refine Or.inr ⟨?_, { state with nextOid := state.nextOid + 1 }, 1, ?_, by omega, rfl, ?_⟩
    · simp [ToastState.AcceptsChunks, present, valid, file]
    · simp [toastSaveDatum, table, valid, allocateOid, file]
    · intro _
      exact ⟨[], by simp [ToastState.rows], by simp⟩
  | some rows =>
    refine Or.inl ⟨accepts_of_table present ordinary valid file, _, _, _,
      toastSaveDatum_of_table raw table valid file, ?_⟩
    constructor
    · exact ⟨0, by omega, by simp, by simp⟩
    · exact rows_update { state with nextOid := state.nextOid + 1 }
        (by simp [ToastState.rows, file]) _
    · exact accepts_of_table present ordinary valid (update_self ..)

theorem saveSpec_created (present : state.relation = some relation)
    (ordinary : relation.relkind ≠ .toastValue) (missing : relation.reltoastrelid = kInvalidOid)
    (varlena : relation.attlens.any (fun attlen => attlen == -1)) :
    SaveSpec state data (toastSaveDatum state data compress) := by
  have table : toastGetOrCreateTable state = createToastTable state relation := by
    simp [toastGetOrCreateTable, present, ordinary, missing, varlena]
  cases file : state.files state.nextOid with
  | some rows =>
    refine Or.inr ⟨?_, { state with nextOid := state.nextOid + 1 }, 1, ?_, by omega, rfl, ?_⟩
    · simp [ToastState.AcceptsChunks, present, missing, file]
    · simp [toastSaveDatum, table, createToastTable, allocateOid, file]
    · intro relid
      exact ⟨[], by simp [ToastState.rows], by simp⟩
  | none =>
    let created : ToastState :=
      { nextOid := state.nextOid + 1
        relation := some { relation with reltoastrelid := state.nextOid }
        files := update state.files state.nextOid (some []) }
    have creates : toastGetOrCreateTable state = (created, some state.nextOid) := by
      simp [table, createToastTable, allocateOid, file, created]
    have sameRows : ∀ relid, created.rows relid = state.rows relid := by
      intro relid
      have unchanged := rows_update state
        (show state.rows state.nextOid = [] by simp [ToastState.rows, file])
        [] relid
      simpa [ToastState.rows] using unchanged
    by_cases valid : state.nextOid = kInvalidOid
    · refine Or.inr ⟨?_, created, 1, ?_, by omega, rfl, ?_⟩
      · simp [ToastState.AcceptsChunks, present, missing, valid]
      · simp [toastSaveDatum, creates, valid]
      · intro relid
        exact ⟨[], by simp [sameRows], by simp⟩
    have accepts : state.AcceptsChunks := ⟨relation, present, ordinary,
        Or.inr ⟨missing, varlena, valid, file⟩⟩
    have opened : created.files state.nextOid = some [] := update_self ..
    refine Or.inl ⟨accepts, _, _, _, toastSaveDatum_of_table raw creates valid opened, ?_⟩
    constructor
    · refine ⟨1, by omega, rfl, ?_⟩
      rw [BitVec.ofNat_add, ← BitVec.add_assoc]
      rfl
    · intro other
      rw [← sameRows]
      exact rows_update
        { created with nextOid := created.nextOid + 1 }
        (by simp [ToastState.rows, opened]) _ other
    · exact @accepts_of_table _
        { relation with reltoastrelid := state.nextOid } _ rfl ordinary
        valid (update_self ..)

end

theorem toastSaveDatum_spec (state : ToastState)
    (raw : compress = true → pglzCompress data = none) :
    SaveSpec state data (toastSaveDatum state data compress) := by
  cases present : state.relation with
  | none =>
    apply saveSpec_invalid
    · simp [ToastState.AcceptsChunks, present]
    · simp [toastGetOrCreateTable, present]
  | some relation =>
    by_cases toast : relation.relkind = .toastValue
    · apply saveSpec_invalid
      · simp [ToastState.AcceptsChunks, present, toast]
      · simp [toastGetOrCreateTable, present, toast]
    by_cases missing : relation.reltoastrelid = kInvalidOid
    · cases varlena : relation.attlens.any (fun attlen => attlen == -1) with
      | true => exact saveSpec_created raw present toast missing varlena
      | false =>
        apply saveSpec_invalid
        · rintro ⟨_, found, -, choice⟩
          cases present.symm.trans found
          simp [missing, varlena] at choice
        · simp [toastGetOrCreateTable, present, missing, varlena]
    · exact saveSpec_existing raw present toast missing

end Pgcpp.Access

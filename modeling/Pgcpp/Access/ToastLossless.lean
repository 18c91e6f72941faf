import Pgcpp.Access.PglzSize
import Pgcpp.Access.ToastChunks

/-!
# What TOAST gives back

A value that `toast_insert_or_update` rewrites is read back as it was, except
where it was compressed and then moved to the TOAST table: the pointer says that
the chunks are not compressed, and the reader gets the compressed bytes.
-/

namespace Pgcpp.Access

open Option Prod

def newRows (before after : ToastState) (relid : Oid) : List ChunkRow :=
  (after.rows relid).drop (before.rows relid).length

/-- The reader sees the chunk rows written: for every chunk id, those rows and
no others, in any order. -/
def ShowsChunks (before after : ToastState) (scans : Oid → List ChunkRow) : Prop :=
  ∀ relid, ∀ row ∈ newRows before after relid,
    ((scans relid).filter fun other => other.chunkId = row.chunkId).Perm
      ((newRows before after relid).filter fun other => other.chunkId = row.chunkId)

/-- The columns of a tuple; their number is an `int`. -/
structure ToastTuple where
  columns : List ToastColumn
  natts : columns.length < 2 ^ 31

/-- Every datum that the call rewrites is read back as it was. -/
def Lossless (state : ToastState) (tuple : ToastTuple) : Prop :=
  let result := toastInsertOrUpdate state tuple.columns
  ∀ (index : Nat) (column : ToastColumn) (value : List UInt8), tuple.columns[index]? = some column →
    result.2[index]? = some value → value ≠ column.value →
    ∀ scans, ShowsChunks state result.1 scans → detoastAttr scans value = some column.value

def ToastColumn.data (column : ToastColumn) : List UInt8 :=
  vardata4B column.value (varsizeAny column.value - 4)

/-- The value is compressed, and still too large to stay in the tuple. -/
def ToastColumn.MovedCompressed (column : ToastColumn) : Prop :=
  column.isnull = false ∧ column.attlen = -1 ∧
    (column.attstorage = .extended ∨ column.attstorage = .main) ∧
    kToastThreshold < column.data.length ∧
    ∃ compressed, pglzCompress column.data = some compressed ∧
      kToastThreshold < 4 + 4 + compressed.length

section

variable {column : ToastColumn}

theorem ToastColumn.data_spec (nonnull : column.isnull = false) (varlena : column.attlen = -1) :
    column.value = plainVarlena column.data ∧ 4 + column.data.length < 2 ^ 30 ∧
      varsizeAny column.value - 4 = column.data.length := by
  obtain ⟨data, plain, small⟩ := column.nonToasted nonnull varlena
  have same : column.data = data := by rw [ToastColumn.data, plain, vardata4B_plain small]
  refine ⟨?_, ?_, ?_⟩
  · rw [same, plain]
  · rwa [same]
  · rw [same, plain, varsizeAny_plain small, Nat.add_sub_cancel_left]

theorem toastColumn_large (nonnull : column.isnull = false) (varlena : column.attlen = -1)
    (notPlain : column.attstorage ≠ .plain) (large : kToastThreshold < column.data.length) :
    toastColumn state column = match
        if column.attstorage = .extended ∨ column.attstorage = .main then pglzCompress column.data
        else none with
      | some compressed =>
        if column.attstorage = .main ∧ 4 + 4 + compressed.length ≤ kToastThreshold then
          (state, some (compressedVarlena column.data.length compressed))
        else if column.attstorage = .extended ∧ 4 + 4 + compressed.length ≤ kToastThreshold then
          (state, some (compressedVarlena column.data.length compressed))
        else toastSaveDatum state compressed false
      | none =>
        if column.attstorage = .extended ∨ column.attstorage = .external then
          toastSaveDatum state column.data (decide (column.attstorage = .extended))
        else (state, some column.value) := by
  have dataLen := (ToastColumn.data_spec nonnull varlena).2.2
  have sameData : vardata4B column.value column.data.length = column.data :=
    congrArg _ dataLen.symm
  simp only [toastColumn, nonnull, varlena, notPlain, dataLen, sameData, not_le.2 large, if_false,
    Bool.false_eq_true, ne_eq, not_true_eq_false] <;> rfl

theorem toastColumn_of_movedCompressed (moved : column.MovedCompressed) :
    ∃ compressed, pglzCompress column.data = some compressed ∧
      ∀ state, toastColumn state column = toastSaveDatum state compressed false := by
  obtain ⟨nonnull, varlena, storage, large, compressed, shorter, still⟩ := moved
  refine ⟨compressed, shorter, ?_⟩
  intro state
  have notPlain : column.attstorage ≠ .plain := by
    rcases storage with same | same
    · simp [same]
    · simp [same]
  rw [toastColumn_large nonnull varlena notPlain large, if_pos storage]
  simp only [shorter, not_le.2 still, and_false, if_false]

/-- Every other value is left as it is, compressed in place, or stored in the
TOAST table as it is. -/
theorem toastColumn_cases (kept : ¬column.MovedCompressed) :
    toastColumn state column = (state, some column.value) ∨
    (column.isnull = false ∧ column.attlen = -1 ∧ kToastThreshold < column.data.length ∧
      ((∃ compressed, pglzCompress column.data = some compressed ∧
          4 + 4 + compressed.length ≤ kToastThreshold ∧ toastColumn state column =
            (state, some (compressedVarlena column.data.length compressed))) ∨
        ∃ compress, (compress = true → pglzCompress column.data = none) ∧
          toastColumn state column = toastSaveDatum state column.data compress)) := by
  cases nonnull : column.isnull with
  | true =>
    apply Or.inl
    simp [toastColumn, nonnull]
  | false =>
    by_cases varlena : column.attlen = -1
    · have dataLen := (ToastColumn.data_spec nonnull varlena).2.2
      by_cases plain : column.attstorage = .plain
      · apply Or.inl
        simp [toastColumn, nonnull, varlena, plain]
      by_cases large : kToastThreshold < column.data.length
      · rw [toastColumn_large nonnull varlena plain large]
        cases outcome : (if column.attstorage = .extended ∨
                column.attstorage = .main then pglzCompress column.data else none) with
        | some compressed =>
          obtain ⟨storage, shorter⟩ := ite_none_right_eq_some.1 outcome
          have fits : 4 + 4 + compressed.length ≤ kToastThreshold := by
            by_contra still
            exact kept ⟨nonnull, varlena, storage, large, compressed, shorter, not_le.1 still⟩
          refine Or.inr ⟨rfl, varlena, large, .inl ⟨compressed, shorter, fits, ?_⟩⟩
          rcases storage with same | same <;> simp [same, fits]
        | none =>
          by_cases stored : column.attstorage = .extended ∨ column.attstorage = .external
          · refine Or.inr ⟨rfl, varlena, large, .inr ⟨_, ?_, if_pos stored⟩⟩
            intro extended
            rwa [if_pos (.inl (of_decide_eq_true extended))] at outcome
          · exact .inl (if_neg stored)
      · have fits := not_lt.1 large
        simp [toastColumn, nonnull, varlena, plain, dataLen, fits]
    · apply Or.inl
      simp [toastColumn, nonnull, varlena]

theorem toastColumn_step : (∃ value, toastColumn state column = (state, some value)) ∨
      ∃ stored, SaveSpec state stored (toastColumn state column) := by
  by_cases moved : column.MovedCompressed
  · obtain ⟨compressed, _, saves⟩ := toastColumn_of_movedCompressed moved
    refine Or.inr ⟨compressed, ?_⟩
    rw [saves]
    exact toastSaveDatum_spec state (by simp)
  rcases toastColumn_cases moved with
    untouched | ⟨_, _, _, ⟨compressed, _, _, inline⟩ | ⟨compress, raw, saves⟩⟩
  · exact .inl ⟨_, untouched⟩
  · exact .inl ⟨_, inline⟩
  refine Or.inr ⟨column.data, ?_⟩
  rw [saves]
  exact toastSaveDatum_spec state raw

theorem toastColumn_extends (column : ToastColumn) :
    ∃ count ≤ 2, Extends state (toastColumn state column).1 count := by
  rcases toastColumn_step with
    ⟨value, result⟩ | ⟨stored, ⟨_, after, relid, chunkId, result, stores⟩ |
      ⟨_, after, count, result, few, grown⟩⟩
  · rw [result]
    exact ⟨0, by omega, .refl state⟩
  · rw [result]
    exact stores.extends
  · rw [result]
    exact ⟨count, few, grown⟩

theorem toastColumn_accepts (accepts : state.AcceptsChunks) :
    ∃ after value, toastColumn state column = (after, some value) ∧ after.AcceptsChunks := by
  rcases toastColumn_step with
    ⟨value, result⟩ | ⟨stored, ⟨_, after, relid, chunkId, result, stores⟩ | ⟨refused, _⟩⟩
  · exact ⟨state, value, result, accepts⟩
  · exact ⟨after, _, result, stores.accepts⟩
  · exact absurd accepts refused

theorem accepts_of_toastColumn (result : toastColumn state column = (after, some value))
    (accepts : after.AcceptsChunks) : state.AcceptsChunks := by
  rcases toastColumn_step with
    ⟨_, same⟩ | ⟨stored, ⟨already, _⟩ | ⟨_, _, _, failed, _⟩⟩
  · rw [result, mk.injEq] at same
    rwa [← same.1]
  · exact already
  · rw [result, mk.injEq] at failed
    exact absurd failed.2 (by simp)

end

theorem toastColumns_extends (state : ToastState) :
    ∃ count ≤ 2 * columns.length, Extends state (toastColumns state columns).1 count := by
  induction columns generalizing state with
  | nil => exact ⟨0, by omega, .refl state⟩
  | cons column columns ih =>
    obtain ⟨count, _, front⟩ := toastColumn_extends column
    rw [toastColumns]
    cases outcome : toastColumn state column with
    | mk after result =>
      rw [outcome] at front
      cases result with
      | none =>
        refine ⟨count, ?_, front⟩
        rw [List.length_cons]
        omega
      | some _ =>
        obtain ⟨later, _, back⟩ := ih after
        refine ⟨count + later, ?_, front.trans back⟩
        rw [List.length_cons]
        omega

/-- The loop comes to the column in state `middle` and leaves it with `value`,
on its way from `state` to `final`. -/
inductive ReachesColumn (state final : ToastState) (natts : Nat)
    (column : ToastColumn) (value : List UInt8) (middle : ToastState) : Prop where
  | intro (before : Extends state middle first)
      (step : toastColumn middle column = (next, some value)) (after : Extends next final last)
      (few : first + last + 2 ≤ 2 * natts)

variable {state : ToastState} {natts : Nat}

theorem ReachesColumn.cons {head column : ToastColumn} {other : List UInt8}
    (step : toastColumn state head = (next, some other))
    (reaches : ReachesColumn next final natts column value middle) :
    ReachesColumn state final (natts + 1) column value middle := by
  obtain ⟨before, here, after, _⟩ := reaches
  obtain ⟨_, _, front⟩ := toastColumn_extends head
  rw [step] at front
  exact ⟨front.trans before, here, after, by omega⟩

theorem reachesColumn_head (step : toastColumn state column = (next, some value)) :
    ReachesColumn state (toastColumns next columns).1 (columns.length + 1) column value state := by
  obtain ⟨_, _, back⟩ := toastColumns_extends next
  exact ⟨.refl state, step, back, by omega⟩

theorem exists_reachesColumn_of_changed {index : Nat} (shown : columns[index]? = some column)
    (result : (toastColumns state columns).2[index]? = some value)
    (changed : value ≠ column.value) :
    ∃ middle, ReachesColumn state (toastColumns state columns).1 columns.length
        column value middle ∧ (middle.AcceptsChunks → state.AcceptsChunks) := by
  induction columns generalizing state index with
  | nil => simp at shown
  | cons head columns ih =>
    rw [toastColumns] at result ⊢
    obtain ⟨next, outcome, step⟩ : ∃ next outcome, toastColumn state head = (next, outcome) :=
      ⟨_, _, rfl⟩
    rw [step] at result ⊢
    cases outcome with
    | none =>
      simp only [List.getElem?_map, shown, map_some, some.injEq] at result
      exact absurd result.symm changed
    | some _ =>
      cases index with
      | zero =>
        simp only [List.getElem?_cons_zero, some.injEq] at shown result
        subst shown result
        exact ⟨state, reachesColumn_head step, id⟩
      | succ index =>
        obtain ⟨middle, reaches, accepts⟩ := ih shown result
        refine ⟨middle, reaches.cons step, ?_⟩
        intro accepting
        exact accepts_of_toastColumn step (accepts accepting)

theorem exists_reachesColumn_of_accepts {index : Nat}
    (accepts : state.AcceptsChunks) (shown : columns[index]? = some column) :
    ∃ middle value, ReachesColumn state (toastColumns state columns).1
        columns.length column value middle ∧ middle.AcceptsChunks ∧
      (toastColumns state columns).2[index]? = some value := by
  induction columns generalizing state index with
  | nil => simp at shown
  | cons head columns ih =>
    obtain ⟨_, other, step, accepting⟩ := toastColumn_accepts accepts
    rw [toastColumns, step]
    cases index with
    | zero =>
      rw [List.getElem?_cons_zero, some.injEq] at shown
      subst shown
      exact ⟨state, other, reachesColumn_head step, accepts, rfl⟩
    | succ index =>
      obtain ⟨middle, value, reaches, acceptsThere, result⟩ := ih accepting shown
      exact ⟨middle, value, reaches.cons step, acceptsThere, result⟩

/-! ## Reading back -/

theorem add_ofNat_ne (less : left < right) (small : right < 2 ^ 32) :
    base + BitVec.ofNat 32 left ≠ base + BitVec.ofNat 32 right := by
  intro same
  have words := congrArg BitVec.toNat (add_left_cancel same)
  simp only [BitVec.toNat_ofNat] at words
  omega

theorem chunkRows_ne_nil (nonempty : 0 < stored.length) : chunkRows chunkId 0 stored ≠ [] := by
  rw [chunkRows, if_neg (nonempty.ne')]
  exact List.cons_ne_nil _ _

section

variable (before : Extends state middle first) (stores : Stores middle next relid chunkId stored)
  (after : Extends next final last) (few : first + last + 2 ≤ 2 ^ 32)

include before stores after few

theorem filter_newRows : (newRows state final relid).filter (fun row => row.chunkId = chunkId) =
      chunkRows chunkId 0 stored := by
  obtain ⟨early, earlyRows, earlyIds⟩ := before.rows relid
  obtain ⟨late, lateRows, lateIds⟩ := after.rows relid
  obtain ⟨_, _, id, nextOid⟩ := stores.allocated
  have rows : newRows state final relid = early ++ (chunkRows chunkId 0 stored ++ late) := by
    rw [newRows, lateRows, stores.rows, if_pos rfl, earlyRows,
      List.append_assoc, List.append_assoc, List.drop_left]
  rw [before.nextOid, BitVec.add_assoc, ← BitVec.ofNat_add] at id nextOid
  have noneEarly : early.filter (fun row => row.chunkId = chunkId) = [] := by
    apply List.filter_eq_nil_iff.2
    intro row mem
    obtain ⟨pos, less, rowId⟩ := earlyIds row mem
    rw [decide_eq_true_eq, rowId, id]
    exact add_ofNat_ne (by omega) (by omega)
  have noneLate : late.filter (fun row => row.chunkId = chunkId) = [] := by
    apply List.filter_eq_nil_iff.2
    intro row mem
    obtain ⟨pos, less, rowId⟩ := lateIds row mem
    rw [decide_eq_true_eq, rowId, id, nextOid, BitVec.add_assoc, ← BitVec.ofNat_add]
    exact (add_ofNat_ne (by omega) (by omega)).symm
  have own : (chunkRows chunkId 0 stored).filter
      (fun row => row.chunkId = chunkId) = chunkRows chunkId 0 stored := by
    apply List.filter_eq_self.2
    intro row mem
    exact decide_eq_true (chunkId_of_mem_chunkRows row mem)
  rw [rows, List.filter_append, List.filter_append, noneEarly, noneLate, own,
    List.nil_append, List.append_nil]

theorem detoastAttr_of_stores (nonempty : 0 < stored.length) (small : stored.length < 2 ^ 31)
    (shown : ShowsChunks state final scans) : detoastAttr scans (VarattExternal.bytes
        { rawsize := BitVec.ofInt 32 (-stored.length), valueid := chunkId, toastrelid := relid }) =
      some (plainVarlena stored) := by
  have written := filter_newRows before stores after few
  obtain ⟨row, mem⟩ := List.exists_mem_of_ne_nil _ (chunkRows_ne_nil nonempty)
  have chunk := chunkId_of_mem_chunkRows row mem
  rw [← written] at mem
  have perm := shown relid row (List.mem_of_mem_filter mem)
  rw [chunk, written] at perm
  rw [detoastAttr, varattIsExternal_bytes, if_pos rfl, vardataExternal_bytes]
  exact toastGetDatum_of_perm small perm

end

theorem detoastAttr_compressedVarlena (shorter : pglzCompress data = some compressed)
    (small : 4 + data.length < 2 ^ 30) (fits : 4 + 4 + compressed.length ≤ kToastThreshold) :
    detoastAttr scans (compressedVarlena data.length compressed) = some (plainVarlena data) := by
  have inside : 4 + 4 + compressed.length < 2 ^ 30 := fits.trans_lt (by decide)
  have rawSize := @varattRawSize_compressed data.length compressed (by omega)
  simp only [detoastAttr, varattIsExternal_compressed, varattIsCompressed_compressed,
    varsizeCompressedData_compressed inside, vardataCompressed_compressed, rawSize,
    pglzDecompress_of_pglzCompress shorter (by omega), if_true, Bool.false_eq_true, if_false]

theorem bytes_ne_plainVarlena (pointer : VarattExternal) : pointer.bytes ≠ plainVarlena data := by
  intro same
  have external := varattIsExternal_bytes pointer
  rw [same, varattIsExternal_plain] at external
  exact nomatch external

theorem plainVarlena_injective (same : plainVarlena left = plainVarlena right) : left = right := by
  have header (data : List UInt8) : (setVarsize4B (4 + data.length)).length = 4 := by
    simp [setVarsize4B]
  exact (List.append_inj same ((header left).trans (header right).symm)).2

theorem not_lossless_of_movedCompressed (accepts : state.AcceptsChunks)
    (mem : column ∈ tuple.columns) (moved : column.MovedCompressed) : ¬Lossless state tuple := by
  intro lossless
  obtain ⟨index, shown⟩ := List.mem_iff_getElem?.1 mem
  obtain ⟨middle, _, reaches, accepting, result⟩ := exists_reachesColumn_of_accepts accepts shown
  obtain ⟨before, step, after, _⟩ := reaches
  obtain ⟨compressed, shorter, saves⟩ := toastColumn_of_movedCompressed moved
  obtain ⟨plain, _, _⟩ := ToastColumn.data_spec moved.1 moved.2.1
  have atBest := length_le_of_pglzCompress shorter
  have less := length_lt_of_pglzCompress shorter
  have natts := tuple.natts
  rcases @toastSaveDatum_spec false compressed middle (by simp) with
    ⟨_, saved, relid, chunkId, success, stores⟩ | ⟨refused, _⟩
  · rw [saves, success, mk.injEq, some.injEq] at step
    obtain ⟨rfl, rfl⟩ := step
    have shows : ShowsChunks state (toastColumns state tuple.columns).1
        (newRows state (toastColumns state tuple.columns).1) :=
      fun _ _ _ => .refl _
    have read := detoastAttr_of_stores before stores after (by omega) (by omega) (by omega) shows
    obtain ⟨_, present, ordinary, _⟩ := accepts
    simp only [Lossless, toastInsertOrUpdate, present, if_neg ordinary] at lossless
    have original := lossless index column _ shown result
      (by rw [plain]; exact bytes_ne_plainVarlena _) _ shows
    rw [read, plain, some.injEq] at original
    have same := congrArg List.length (plainVarlena_injective original)
    omega
  · exact refused accepting

section

variable (reaches : ReachesColumn state final natts column value middle)

include reaches

theorem detoastAttr_of_reachesColumn (few : natts < 2 ^ 31) (kept : ¬column.MovedCompressed)
    (changed : value ≠ column.value) (shown : ShowsChunks state final scans) :
    detoastAttr scans value = some column.value := by
  obtain ⟨before, step, after, _⟩ := reaches
  rcases toastColumn_cases kept with
    untouched | ⟨nonnull, varlena, large, stored⟩
  · rw [untouched, mk.injEq, some.injEq] at step
    exact absurd step.2.symm changed
  obtain ⟨plain, small, _⟩ := ToastColumn.data_spec nonnull varlena
  rcases stored with ⟨_, shorter, fits, inline⟩ | ⟨_, raw, saves⟩
  · rw [inline, mk.injEq, some.injEq] at step
    obtain ⟨_, rfl⟩ := step
    rw [plain]
    exact detoastAttr_compressedVarlena shorter small fits
  rw [saves] at step
  rcases toastSaveDatum_spec middle raw with
    ⟨_, saved, relid, chunkId, success, stores⟩ | ⟨_, failed, _, failure, _⟩
  · rw [success, mk.injEq, some.injEq] at step
    obtain ⟨rfl, rfl⟩ := step
    rw [plain]
    exact detoastAttr_of_stores before stores after (by omega) (by omega) (by omega) shown
  · rw [failure, mk.injEq] at step
    exact absurd step.2 (by simp)

theorem ReachesColumn.accepts (moved : column.MovedCompressed) : middle.AcceptsChunks := by
  obtain ⟨_, step, _, _⟩ := reaches
  obtain ⟨compressed, _, saves⟩ := toastColumn_of_movedCompressed moved
  rw [saves] at step
  rcases @toastSaveDatum_spec false compressed middle (by simp) with
    ⟨accepts, _⟩ | ⟨_, _, _, failure, _⟩
  · exact accepts
  · rw [failure, mk.injEq] at step
    exact absurd step.2 (by simp)

end

/-- TOAST gives back what it rewrites exactly where it does not compress a
value and then move it to the TOAST table. -/
theorem toastInsertOrUpdate_lossless_iff (state : ToastState) (tuple : ToastTuple) :
    Lossless state tuple ↔ (state.AcceptsChunks →
        ∀ column ∈ tuple.columns, ¬column.MovedCompressed) := by
  constructor
  · intro lossless accepts column member moved
    exact not_lossless_of_movedCompressed accepts member moved lossless
  intro kept index column value shown written changed _ visible
  have unchanged : (tuple.columns.map ToastColumn.value)[index]? ≠ some value := by
    rw [List.getElem?_map, shown]
    simpa using changed.symm
  rw [toastInsertOrUpdate] at written visible
  cases present : state.relation with
  | none =>
    rw [present] at written
    exact absurd written unchanged
  | some relation =>
    simp only [present] at written visible
    by_cases toast : relation.relkind = .toastValue
    · rw [if_pos toast] at written
      exact absurd written unchanged
    rw [if_neg toast] at written visible
    obtain ⟨_, reaches, accepts⟩ := exists_reachesColumn_of_changed shown written changed
    have notMoved : ¬column.MovedCompressed := by
      intro moved
      exact kept (accepts (reaches.accepts moved)) column (List.mem_of_getElem? shown) moved
    exact detoastAttr_of_reachesColumn reaches tuple.natts notMoved changed visible

/-! ## Runs of zero bytes -/

/-- A run of zero bytes in a column with extended storage. -/
def zeroRun (n : Nat) (small : 4 + n < 2 ^ 30) : ToastColumn :=
  { attlen := -1, attstorage := .extended, isnull := false
    value := plainVarlena (List.replicate n 0), nonToasted := fun _ _ =>
      ⟨_, rfl, by rwa [List.length_replicate]⟩ }

/-- A relation with one column and no TOAST table yet. -/
def freshToast : ToastState :=
  { nextOid := 16384, relation := some { relkind := .relation, reltoastrelid := 0, attlens := [-1] }
    files := fun _ => none }

/-- Even the shortest compression of a long run is too large to stay in the
tuple. -/
theorem zeroRun_movedCompressed (small : 4 + n < 2 ^ 30)
    (long : 18000 ≤ n) : (zeroRun n small).MovedCompressed := by
  have data : (zeroRun n small).data = List.replicate n 0 :=
    vardata4B_plain (by rwa [List.length_replicate])
  obtain ⟨compressed, shorter⟩ := exists_pglzCompress_zeros n (by omega)
  have atBest := length_le_of_pglzCompress shorter
  rw [List.length_replicate] at atBest
  refine ⟨rfl, rfl, .inl rfl, ?_, compressed, ?_, ?_⟩
  · rw [data, List.length_replicate, kToastThreshold]
    omega
  · rw [data, shorter]
  · rw [kToastThreshold]
    omega

/-- The run is stored compressed, and its reader gets the compressed bytes. -/
theorem zeroRun_notReadBack : ¬Lossless freshToast
      { columns := [zeroRun 18000 (by omega)], natts := by simp } := by
  have accepts : freshToast.AcceptsChunks :=
    ⟨_, rfl, by decide, .inr ⟨rfl, by decide, by decide, rfl⟩⟩
  exact not_lossless_of_movedCompressed accepts (List.mem_singleton.2 rfl)
    (zeroRun_movedCompressed (by omega) (le_rfl))

end Pgcpp.Access

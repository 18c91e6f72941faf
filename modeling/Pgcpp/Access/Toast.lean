import Pgcpp.Access.Pglz
import Pgcpp.Access.Varlena

/-!
# TOAST

Large values of a tuple are compressed in place or moved to the TOAST table of
the relation, which holds them in chunks.  The state is what the functions read
and write: the OID counter of the catalog, the relation, and the rows of the
relation files.  A reader is given by the rows its scans return.
-/

namespace Pgcpp.Access

def kInvalidOid : Oid := 0

def kToastThreshold : Nat := 2000

def kToastMaxChunkSize : Nat := 1996

inductive AttStorage where
  | plain
  | external
  | extended
  | main
  deriving DecidableEq

inductive RelKind where
  | relation
  | index
  | sequence
  | toastValue
  | view
  | materializedView
  | compositeType
  | foreignTable
  | partitionedTable
  deriving DecidableEq

structure ChunkRow where
  chunkId : Oid
  chunkSeq : Nat
  chunkData : List UInt8
  deriving DecidableEq

/-- What TOAST reads of a relation: its kind, its TOAST table and the lengths
of its attributes. -/
structure ToastRelation where
  relkind : RelKind
  reltoastrelid : Oid
  attlens : List Int
  deriving DecidableEq

/-- `none` in place of the relation is a null pointer. -/
structure ToastState where
  nextOid : Oid
  relation : Option ToastRelation
  files : Oid → Option (List ChunkRow)

section

variable (state : ToastState)

def allocateOid : ToastState × Oid :=
  ({ state with nextOid := state.nextOid + 1 }, state.nextOid)

/-- `create_toast_table`; `none` is the error of a file that exists. -/
def createToastTable (parent : ToastRelation) : ToastState × Option Oid :=
  let (state, toastOid) := allocateOid state
  match state.files toastOid with
  | some _ => (state, none)
  | none =>
    ({ state with
        files := Function.update state.files toastOid (some [])
        relation := some { parent with reltoastrelid := toastOid } }, some toastOid)

def toastGetOrCreateTable : ToastState × Option Oid :=
  match state.relation with
  | none => (state, some kInvalidOid)
  | some relation =>
    if relation.relkind = .toastValue then (state, some kInvalidOid)
    else if relation.reltoastrelid ≠ kInvalidOid then (state, some relation.reltoastrelid)
    else if relation.attlens.any (fun attlen => attlen == -1) then createToastTable state relation
    else (state, some kInvalidOid)

/-- The rows of the loop in `toast_save_datum` that cuts a value into
chunks. -/
def chunkRows (chunkId : Oid) (chunkSeq : Nat) (stored : List UInt8) : List ChunkRow :=
  if stored.length = 0 then []
  else
    { chunkId := chunkId, chunkSeq := chunkSeq
      chunkData := plainVarlena (stored.take kToastMaxChunkSize) } ::
      chunkRows chunkId (chunkSeq + 1) (stored.drop kToastMaxChunkSize)
termination_by stored.length
decreasing_by
  simp only [List.length_drop, kToastMaxChunkSize]
  omega

/-- `toast_save_datum`; `none` is an error. -/
def toastSaveDatum (data : List UInt8) (compress : Bool) : ToastState × Option (List UInt8) :=
  match toastGetOrCreateTable state with
  | (state, none) => (state, none)
  | (state, some toastRelid) =>
    if toastRelid = kInvalidOid then (state, none)
    else
      let (state, chunkId) := allocateOid state
      let compressed :=
        if compress && decide (32 < data.length) then pglzCompress data else none
      match state.files toastRelid with
      | none => (state, none)
      | some rows =>
        ({ state with
            files := Function.update state.files toastRelid
              (some (rows ++ chunkRows chunkId 0 (compressed.getD data))) },
          some (VarattExternal.bytes
            { rawsize := BitVec.ofInt 32 (if compressed.isSome then data.length else -data.length)
              valueid := chunkId, toastrelid := toastRelid }))

/-- What `toast_get_datum` takes from a chunk row. -/
def chunkOf (row : ChunkRow) : Nat × List UInt8 :=
  (row.chunkSeq, vardata4B row.chunkData (varsizeAny row.chunkData - 4))

/-- `toast_get_datum` for a reader whose scan of the TOAST table returns
`scan`; `none` is an error. -/
def toastGetDatum (scan : List ChunkRow) (pointer : VarattExternal) : Option (List UInt8) :=
  let rawsize := pointer.rawsize.toInt
  let chunks := (scan.filter fun row => row.chunkId = pointer.valueid).map chunkOf
  let sorted := chunks.mergeSort fun left right => left.1 ≤ right.1
  let storedData := sorted.flatMap Prod.snd
  if 0 < rawsize then
    match pglzDecompress storedData rawsize with
    | .error _ => none
    | .ok result => if (result.length : Int) = rawsize then some (plainVarlena result) else none
  else some (plainVarlena storedData)

/-- A column of a tuple with its datum: for a column of variable length, the
bytes of a plain varlena. -/
structure ToastColumn where
  attlen : Int
  attstorage : AttStorage
  isnull : Bool
  value : List UInt8
  nonToasted : isnull = false → attlen = -1 →
    ∃ data, value = plainVarlena data ∧ 4 + data.length < 2 ^ 30

/-- The body of the loop of `toast_insert_or_update`: the new datum of a
column, `none` for an error. -/
def toastColumn (column : ToastColumn) : ToastState × Option (List UInt8) :=
  let storage := column.attstorage
  let dataLen := varsizeAny column.value - 4
  let data := vardata4B column.value dataLen
  if column.isnull then (state, some column.value)
  else if column.attlen ≠ -1 then (state, some column.value)
  else if storage = .plain then (state, some column.value)
  else if dataLen ≤ kToastThreshold then (state, some column.value)
  else
    match
      if storage = .extended ∨ storage = .main then pglzCompress data else none with
    | some compressed =>
      let compVarlenaSize := 4 + 4 + compressed.length
      if storage = .main ∧ compVarlenaSize ≤ kToastThreshold then
        (state, some (compressedVarlena dataLen compressed))
      else if storage = .extended ∧ compVarlenaSize ≤ kToastThreshold then
        (state, some (compressedVarlena dataLen compressed))
      else toastSaveDatum state compressed false
    | none =>
      if storage = .extended ∨ storage = .external then
        toastSaveDatum state data (decide (storage = .extended))
      else (state, some column.value)

/-- The loop of `toast_insert_or_update`; an error leaves the remaining data
as they are. -/
def toastColumns : ToastState → List ToastColumn → ToastState × List (List UInt8)
  | state, [] => (state, [])
  | state, column :: rest =>
    match toastColumn state column with
    | (state, none) => (state, (column :: rest).map ToastColumn.value)
    | (state, some value) =>
      let (state, values) := toastColumns state rest
      (state, value :: values)

/-- `toast_insert_or_update`: the state and the data of the tuple behind the
call. -/
def toastInsertOrUpdate (columns : List ToastColumn) : ToastState × List (List UInt8) :=
  match state.relation with
  | none => (state, columns.map ToastColumn.value)
  | some relation =>
    if relation.relkind = .toastValue then (state, columns.map ToastColumn.value)
    else toastColumns state columns

end

/-- `detoast_attr` for a reader given by its scans; `none` is an error. -/
def detoastAttr (scans : Oid → List ChunkRow) (value : List UInt8) : Option (List UInt8) :=
  if varattIsExternal value then
    let pointer := vardataExternal value
    toastGetDatum (scans pointer.toastrelid) pointer
  else if varattIsCompressed value then
    let rawSize := varattRawSize value
    match pglzDecompress (vardataCompressed value (varsizeCompressedData value)) rawSize with
    | .error _ => none
    | .ok result => if (result.length : Int) = rawSize then some (plainVarlena result) else none
  else some value

end Pgcpp.Access

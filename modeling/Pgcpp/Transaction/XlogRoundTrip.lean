import Mathlib.Algebra.Order.BigOperators.Group.List
import Pgcpp.Transaction.Xlog

/-!
# WAL records round trip

What the reader returns for a record is compared with what was registered for
it.  The two differ for a record whose length does not fit into 32 bits, whose
pages do not fit into the count byte, or whose info byte claims pages that the
record does not have.
-/

namespace Pgcpp.Transaction

open Lib DecodedRecord
open BackupBlock hiding blockId pageData
open List hiding after count length tail

/-! ## Registered contents -/

/-- The calls between `XLogBeginInsert` and `XLogInsert`. -/
inductive RegisterCall where
  | data (bytes : List UInt8)
  | buffer (blockId : UInt8) (pageData : List UInt8) (isFpw : Bool)
  deriving DecidableEq

def register (assembly : Assembly) : RegisterCall → Assembly
  | .data bytes => xlogRegisterData assembly bytes
  | .buffer blockId pageData isFpw => xlogRegisterBuffer assembly blockId pageData isFpw

/-- A record from `XLogBeginInsert` to `XLogInsert`. -/
structure InsertCall where
  calls : List RegisterCall
  xid : TransactionId
  rmid : UInt8
  info : UInt8
  deriving DecidableEq

def InsertCall.assembly (insert : InsertCall) : Assembly :=
  insert.calls.foldl register xlogBeginInsert

structure WalContent where
  rmid : UInt8
  info : UInt8
  blocks : List BackupBlock
  mainData : List UInt8
  deriving DecidableEq

def RegisterCall.mainData : RegisterCall → List UInt8
  | .data bytes => bytes
  | .buffer .. => []

/-- The page of a call; one without bytes is none. -/
def RegisterCall.page : RegisterCall → Option RegisteredBlock
  | .data _ => none
  | .buffer blockId pageData isFpw =>
    if pageData = [] then none
    else some { blockId := blockId, pageData := pageData, isFpw := isFpw }

/-- The page a block id was registered with last. -/
def lastPage (pages : List RegisteredBlock) (blockId : UInt8) : Option RegisteredBlock :=
  pages.reverse.find? fun page => page.blockId = blockId

/-- The block ids in the order of their first registration. -/
def blockIds (pages : List RegisteredBlock) : List UInt8 :=
  (pages.reverse.map RegisteredBlock.blockId).dedup.reverse

/-- Each block once, as it was registered last. -/
def latestBlocks (pages : List RegisteredBlock) : List RegisteredBlock :=
  (blockIds pages).filterMap (lastPage pages)

def InsertCall.content (insert : InsertCall) : WalContent :=
  { rmid := insert.rmid, info := insert.info &&& ~~~kXlrBkpBlockImage
    blocks :=
      ((latestBlocks (insert.calls.filterMap RegisterCall.page)).filter
        RegisteredBlock.isFpw).map fun page =>
          { blockId := page.blockId, pageData := page.pageData }
    mainData := insert.calls.flatMap RegisterCall.mainData }

def DecodedRecord.content (decoded : DecodedRecord) : WalContent :=
  { rmid := decoded.record.xlRmid, info := decoded.record.xlInfo &&& ~~~kXlrBkpBlockImage
    blocks := decoded.backupBlocks, mainData := decoded.mainData }

theorem registerBlock_eq (distinct : (blocks.map RegisteredBlock.blockId).Nodup) :
    registerBlock block blocks = if block.blockId ∈ blocks.map RegisteredBlock.blockId then
        blocks.map fun other => if other.blockId = block.blockId then block else other
      else blocks ++ [block] := by
  induction blocks with
  | nil => rfl
  | cons first rest ih =>
    rw [map_cons, nodup_cons] at distinct
    have later := ih distinct.2
    by_cases same : first.blockId = block.blockId
    · have untouched : (rest.map fun other =>
          if other.blockId = block.blockId then block else other) =
            rest := by
        refine (map_congr_left (g := id) ?_).trans (map_id _)
        intro other mem
        rw [if_neg]
        · rfl
        intro equal
        apply distinct.1
        rw [same, ← equal]
        exact mem_map_of_mem mem
      simp only [registerBlock, same, if_true, map_cons, mem_cons, true_or, untouched]
    · simp only [registerBlock, same, if_false, later, map_cons, mem_cons, Ne.symm same, false_or]
      split <;> rfl

theorem exists_lastPage (mem : blockId ∈ blockIds pages) :
    ∃ page, lastPage pages blockId = some page ∧ page.blockId = blockId := by
  have registered : ∃ page ∈ pages, page.blockId = blockId := by simpa [blockIds] using mem
  obtain ⟨page, isPage, same⟩ := registered
  have found : (lastPage pages blockId).isSome := by
    rw [lastPage, find?_isSome]
    exact ⟨page, mem_reverse.2 isPage, by simpa using same⟩
  obtain ⟨last, isLast⟩ := Option.isSome_iff_exists.1 found
  refine ⟨last, isLast, ?_⟩
  simpa using find?_some isLast

section

variable (pages : List RegisteredBlock)

include pages

theorem latestBlocks_ids : (latestBlocks pages).map RegisteredBlock.blockId = blockIds pages := by
  rw [latestBlocks, map_filterMap]
  refine (filterMap_congr (g := some) ?_).trans filterMap_some
  intro blockId mem
  obtain ⟨_, isLast, same⟩ := exists_lastPage mem
  rw [isLast, Option.map_some, same]

theorem lastPage_append : lastPage (pages ++ [page]) blockId =
      if page.blockId = blockId then some page else lastPage pages blockId := by
  unfold lastPage
  rw [reverse_append, reverse_singleton, singleton_append, find?_cons]
  split
  next same => rw [if_pos (by simpa using same)]
  next other => rw [if_neg (by simpa using other)]

theorem blockIds_append : blockIds (pages ++ [page]) =
      if page.blockId ∈ blockIds pages then blockIds pages
      else blockIds pages ++ [page.blockId] := by
  have members : page.blockId ∈ blockIds pages ↔
      page.blockId ∈ pages.reverse.map RegisteredBlock.blockId := by
    rw [blockIds, mem_reverse, mem_dedup]
  unfold blockIds at members ⊢
  rw [reverse_append, reverse_singleton, singleton_append, map_cons]
  by_cases again : page.blockId ∈ pages.reverse.map RegisteredBlock.blockId
  · rw [dedup_cons_of_mem again, if_pos (members.2 again)]
  · rw [dedup_cons_of_notMem again, if_neg (members.not.2 again), reverse_cons]

theorem registerBlock_latestBlocks :
    registerBlock page (latestBlocks pages) = latestBlocks (pages ++ [page]) := by
  have distinct : ((latestBlocks pages).map RegisteredBlock.blockId).Nodup := by
    rw [latestBlocks_ids]
    exact nodup_reverse.2 (nodup_dedup _)
  rw [registerBlock_eq distinct, latestBlocks_ids, latestBlocks, latestBlocks, blockIds_append]
  split
  next again =>
    rw [map_filterMap]
    apply filterMap_congr
    intro blockId mem
    obtain ⟨_, isLast, same⟩ := exists_lastPage mem
    rw [lastPage_append, isLast, Option.map_some, same]
    by_cases isPage : page.blockId = blockId
    · rw [if_pos isPage.symm, if_pos isPage]
    · rw [if_neg (Ne.symm isPage), if_neg isPage]
  next fresh =>
    rw [filterMap_append, filterMap_cons, lastPage_append, if_pos rfl]
    congr 1
    apply filterMap_congr
    intro blockId mem
    rw [lastPage_append, if_neg]
    rintro rfl
    exact fresh mem

theorem foldl_registerBlock :
    pages.foldl (fun blocks page => registerBlock page blocks) [] = latestBlocks pages := by
  induction pages using List.reverseRecOn with
  | nil => rfl
  | append_singleton pages page ih =>
    rw [foldl_append, ih]
    exact registerBlock_latestBlocks pages

end

theorem foldl_register (calls : List RegisterCall) : calls.foldl register assembly =
      { data := assembly.data ++ calls.flatMap RegisterCall.mainData
        blocks := (calls.filterMap RegisterCall.page).foldl
          (fun blocks page => registerBlock page blocks) assembly.blocks } := by
  induction calls generalizing assembly with
  | nil => simp
  | cons call _ ih =>
    rw [foldl_cons, ih]
    cases call with
    | data _ =>
      simp [register, xlogRegisterData, RegisterCall.mainData, RegisterCall.page, filterMap_cons]
    | buffer _ pageData _ =>
      by_cases empty : pageData = []
      all_goals simp [register, xlogRegisterBuffer, RegisterCall.mainData, RegisterCall.page, empty]

theorem InsertCall.content_eq (insert : InsertCall) : insert.content =
      { rmid := insert.rmid, info := insert.info &&& ~~~kXlrBkpBlockImage
        blocks := insert.assembly.backupBlocks, mainData := insert.assembly.data } := by
  rw [InsertCall.assembly, foldl_register, xlogBeginInsert, foldl_registerBlock]
  rfl

/-! ## The bytes of a record -/

theorem XLogRecord.length_crcBytes (record : XLogRecord) : record.crcBytes.length = 20 := by
  simp [XLogRecord.crcBytes]

theorem XLogRecord.length_bytes (record : XLogRecord) :
    record.bytes.length = kSizeofXlogRecord := by
  simp [XLogRecord.bytes, record.length_crcBytes, kSizeofXlogRecord]

theorem XLogRecord.ofBytes_bytes (record : XLogRecord) :
    XLogRecord.ofBytes record.bytes = record := by
  have shape : record.bytes = toBytes 4 record.xlTotLen.toNat ++
      (toBytes 4 record.xlXid.toNat ++ (toBytes 8 record.xlPrev.toNat ++
        ([record.xlInfo, record.xlRmid, 0, 0] ++ toBytes 4 record.xlCrc.toNat))) := by
    simp [XLogRecord.bytes, XLogRecord.crcBytes]
  have totLen : field record.bytes 0 4 = record.xlTotLen.toNat := by
    exact (field_append_toBytes [] _ 4 _).trans (Nat.mod_eq_of_lt record.xlTotLen.isLt)
  have xid : field record.bytes 4 4 = record.xlXid.toNat := by
    refine (field_append_toBytes (toBytes 4 _) _ 4 _).trans ?_
    exact Nat.mod_eq_of_lt record.xlXid.isLt
  have prev : field record.bytes 8 8 = record.xlPrev.toNat := by
    refine (field_append_toBytes (toBytes 4 _ ++ toBytes 4 _) _ 8 _).trans ?_
    exact Nat.mod_eq_of_lt record.xlPrev.isLt
  have crc : field record.bytes 20 4 = record.xlCrc.toNat := by
    rw [XLogRecord.bytes, ← append_nil (toBytes 4 _),
      ← record.length_crcBytes, field_append_toBytes]
    exact Nat.mod_eq_of_lt record.xlCrc.isLt
  have info : record.bytes.getD 16 0 = record.xlInfo := by
    rw [shape]
    simp
  have rmid : record.bytes.getD 17 0 = record.xlRmid := by
    rw [shape]
    simp
  rw [XLogRecord.ofBytes, totLen, xid, prev, crc, info, rmid]
  simp

theorem BackupBlock.length_bytes (block : BackupBlock) : block.bytes.length = block.size := by
  simp [bytes, size]
  omega

theorem Assembly.length_bkpBytes (assembly : Assembly) :
    assembly.bkpBytes.length = assembly.bkpTotal := by
  unfold Assembly.bkpBytes Assembly.bkpTotal
  split
  · rfl
  · simp only [length_cons, length_flatMap, length_bytes]
    exact add_comm ..

def Assembly.payload (assembly : Assembly) : List UInt8 := assembly.bkpBytes ++ assembly.data

section

variable (insert : InsertCall) (prevRecordLsn : Nat)

def InsertCall.header : XLogRecord :=
  xlogHeader prevRecordLsn insert.xid insert.assembly insert.rmid insert.info

/-- The bytes that `XLogInsert` appends. -/
def InsertCall.bytes : List UInt8 :=
  (insert.header prevRecordLsn).bytes ++ insert.assembly.payload

theorem InsertCall.header_totLen : (insert.header prevRecordLsn).xlTotLen.toNat =
      (insert.bytes prevRecordLsn).length % 2 ^ 32 := by
  simp [InsertCall.bytes, Assembly.payload, XLogRecord.length_bytes, Assembly.length_bkpBytes,
    InsertCall.header, xlogHeader, add_assoc]

theorem InsertCall.verify :
    verifyRecordCrc (insert.header prevRecordLsn).bytes insert.assembly.payload := by
  have front : (insert.header prevRecordLsn).bytes.take 20 =
      (insert.header prevRecordLsn).crcBytes := by
    rw [XLogRecord.bytes, take_left' (XLogRecord.length_crcBytes _)]
  rw [verifyRecordCrc, front, XLogRecord.ofBytes_bytes, Assembly.payload, crc32CUpdate,
    foldl_append]
  exact beq_self_eq_true _

theorem access_inside (inside : pos + len ≤ memory.length) :
    access memory pos len = .ok ((memory.drop pos).take len) := if_pos inside

theorem getD_take_one_drop (bytes : List UInt8) (offset : Nat) :
    ((bytes.drop offset).take 1).getD 0 0 = bytes.getD offset 0 := by simp

theorem parseBlocks_succ (payload : List UInt8) (count offset : Nat) :
    let pageLen := field payload (offset + 1) 4
    parseBlocks payload (count + 1) offset =
      if payload.length < offset + 1 + 4 + pageLen then .error .crcMismatch
      else (parseBlocks payload count (offset + 1 + 4 + pageLen)).map fun parsed =>
        (⟨payload.getD offset 0, (payload.drop (offset + 1 + 4)).take pageLen⟩ :: parsed.1,
          parsed.2) := by
  intro pageLen
  rw [parseBlocks]
  by_cases short : payload.length < offset + 1 + 4
  · rw [if_pos short, if_pos (by omega)]
  rw [if_neg short, access_inside (by omega), access_inside (by omega)]
  by_cases cut : payload.length < offset + 1 + 4 + pageLen
  · exact (if_pos cut).trans (if_pos cut).symm
  refine (if_neg cut).trans ?_
  rw [if_neg cut, ← field, access_inside (by omega), getD_take_one_drop]
  cases parseBlocks payload count _ with
  | error => rfl
  | ok => rfl

theorem parseBackupBlocks_eq (payload : List UInt8) : parseBackupBlocks payload =
    if payload.length < 1 then .error .crcMismatch
    else parseBlocks payload (payload.getD 0 0).toNat 1 := by
  rw [parseBackupBlocks]
  split
  case isTrue => rfl
  case isFalse =>
    rw [access_inside (by omega), ← getD_take_one_drop]
    rfl

theorem parseBlocks_bytes (before after : List UInt8)
    (small : ∀ block ∈ blocks, block.pageData.length < 2 ^ 32) :
    parseBlocks (before ++ (blocks.flatMap bytes ++ after)) blocks.length before.length =
      .ok (blocks, before.length + (blocks.flatMap bytes).length) := by
  induction blocks generalizing before with
  | nil => simp [parseBlocks]
  | cons block rest ih =>
    have later := ih (before ++ block.bytes) (by
      intro other mem
      exact small other (mem_cons_of_mem _ mem))
    rw [length_append, block.length_bytes, size] at later
    have shape : before ++ ((block :: rest).flatMap bytes ++
        after) = before ++ block.bytes ++ (rest.flatMap bytes ++ after) := by
      simp
    have plen : field (before ++ block.bytes ++
        (rest.flatMap bytes ++ after)) (before.length + 1) 4 =
          block.pageData.length := by
      have read := field_append_toBytes (before ++ [block.blockId])
        (block.pageData ++ (rest.flatMap bytes ++ after)) 4
        block.pageData.length
      have digits : block.pageData.length < 256 ^ 4 := small block mem_cons_self
      rw [Nat.mod_eq_of_lt digits] at read
      simpa [bytes] using read
    have blockId : (before ++ block.bytes ++ (rest.flatMap bytes ++ after)).getD before.length 0 =
          block.blockId := by
      simp [bytes]
    have pageData : ((before ++ block.bytes ++ (rest.flatMap bytes ++ after)).drop
          (before.length + 1 + 4)).take block.pageData.length =
            block.pageData := by
      have front : before ++ block.bytes ++ (rest.flatMap bytes ++ after) =
            (before ++ [block.blockId] ++ toBytes 4 block.pageData.length) ++
            (block.pageData ++ (rest.flatMap bytes ++ after)) := by
        simp [bytes]
      rw [front, drop_left' (by simp), take_left]
    have total : (before ++ block.bytes ++ (rest.flatMap bytes ++ after)).length =
          before.length + 1 + 4 + block.pageData.length +
            (rest.flatMap bytes ++ after).length := by
      rw [length_append, length_append, block.length_bytes, size]
      omega
    have next : before.length + 1 + 4 + block.pageData.length =
        before.length + (1 + 4 + block.pageData.length) := by
      omega
    rw [length_cons, parseBlocks_succ, shape, plen, if_neg (by omega), next, later, blockId,
      pageData, Except.map, flatMap_cons, length_append, block.length_bytes, size,
      add_assoc before.length]

theorem parseBlocks_size (parsed : parseBlocks payload count offset = .ok (blocks, mainOffset))
    (inside : offset ≤ payload.length) : blocks.length = count ∧ mainOffset ≤ payload.length ∧
      mainOffset = offset + (blocks.map size).sum := by
  induction count generalizing offset blocks with
  | zero =>
    obtain ⟨rfl, rfl⟩ := parsed
    exact ⟨rfl, inside, rfl⟩
  | succ count ih =>
    rw [parseBlocks_succ] at parsed
    split at parsed
    · cases parsed
    cases found : parseBlocks payload count (offset + 1 + 4 + field payload (offset + 1) 4) with
    | error =>
      rw [found] at parsed
      cases parsed
    | ok later =>
      rw [found] at parsed
      obtain ⟨rfl, rfl⟩ := parsed
      obtain ⟨counted, bounded, placed⟩ := ih found (by omega)
      refine ⟨by simp [counted], bounded, ?_⟩
      rw [map_cons, sum_cons, size, length_take, length_drop]
      omega

theorem parseBackupBlocks_size (parsed : parseBackupBlocks payload = .ok (blocks, mainOffset)) :
    blocks.length < 2 ^ 8 ∧ payload.length = 1 + (blocks.map size).sum +
        (payload.drop mainOffset).length := by
  rw [parseBackupBlocks_eq] at parsed
  split at parsed
  · cases parsed
  next notEmpty =>
    obtain ⟨counted, _, _⟩ := parseBlocks_size parsed (Nat.le_of_not_lt notEmpty)
    refine ⟨?_, ?_⟩
    · rw [counted]
      exact UInt8.toNat_lt _
    · rw [length_drop]
      omega

theorem parseBackupBlocks_payload {assembly : Assembly} (some : assembly.backupBlocks ≠ [])
    (few : assembly.backupBlocks.length < 2 ^ 8) (small : assembly.payload.length < 2 ^ 32) :
    parseBackupBlocks assembly.payload = .ok (assembly.backupBlocks, assembly.bkpBytes.length) := by
  have shape : assembly.payload = [UInt8.ofNat assembly.backupBlocks.length] ++
        (assembly.backupBlocks.flatMap bytes ++ assembly.data) := by
    simp [Assembly.payload, Assembly.bkpBytes, some]
  have total : assembly.bkpBytes.length =
      1 + (assembly.backupBlocks.flatMap bytes).length := by
    simp [Assembly.bkpBytes, some, add_comm]
  have pages : ∀ block ∈ assembly.backupBlocks, block.pageData.length < 2 ^ 32 := by
    intro block mem
    have inside : block.bytes.length ≤
        (assembly.backupBlocks.flatMap bytes).length := by
      rw [length_flatMap]
      exact le_sum_of_mem (mem_map_of_mem mem)
    rw [block.length_bytes, size] at inside
    rw [Assembly.payload, length_append] at small
    omega
  have count : (UInt8.ofNat assembly.backupBlocks.length).toNat = assembly.backupBlocks.length := by
    rw [UInt8.toNat_ofNat', Nat.mod_eq_of_lt few]
  have parsed := parseBlocks_bytes
    [UInt8.ofNat assembly.backupBlocks.length] assembly.data pages
  rw [parseBackupBlocks_eq, total, shape]
  simpa [count] using parsed

/-! ## One record -/

theorem backupFlag_set : (info ||| kXlrBkpBlockImage) &&& kXlrBkpBlockImage ≠ 0 := by
  intro clear
  have bit := congrArg (fun byte : UInt8 => byte.toBitVec.getLsbD 2) clear
  simp [kXlrBkpBlockImage] at bit

theorem backupFlag_clear :
    (info ||| kXlrBkpBlockImage) &&& ~~~kXlrBkpBlockImage = info &&& ~~~kXlrBkpBlockImage := by
  apply UInt8.eq_of_toBitVec_eq
  simp only [UInt8.toBitVec_and, UInt8.toBitVec_or, UInt8.toBitVec_not]
  ext index
  simp only [BitVec.getElem_and, BitVec.getElem_or, BitVec.getElem_not]
  cases kXlrBkpBlockImage.toBitVec[index] <;> simp

theorem InsertCall.header_info : (insert.header prevRecordLsn).xlInfo =
      if insert.assembly.backupBlocks = [] then insert.info
      else insert.info ||| kXlrBkpBlockImage := by
  simp only [InsertCall.header, xlogHeader]
  by_cases none : insert.assembly.backupBlocks = []
  · simp
  · simp

end

theorem Assembly.payload_of_no_blocks {assembly : Assembly} (none : assembly.backupBlocks = []) :
    assembly.payload = assembly.data := by
  simp [Assembly.payload, Assembly.bkpBytes, none]

/-- The condition on a record: its length fits into `xl_tot_len`, the number of
its pages into the count byte, and the caller's info byte claims no pages in
front of main data. -/
@[mk_iff]
structure InsertCall.Readable (insert : InsertCall) : Prop where
  length : kSizeofXlogRecord + insert.assembly.payload.length < 2 ^ 32
  count : insert.assembly.backupBlocks.length < 2 ^ 8
  flag : insert.assembly.backupBlocks = [] → insert.assembly.data ≠ [] →
    insert.info &&& kXlrBkpBlockImage = 0

instance (insert : InsertCall) : Decidable insert.Readable :=
  decidable_of_iff _ insert.readable_iff.symm

/-- What a successful read has seen. -/
structure ReadAs (buffer : List UInt8) (lsn : Nat) (record : XLogRecord)
    (payload : List UInt8) : Prop where
  header : XLogRecord.ofBytes (xlogReadRaw buffer lsn kSizeofXlogRecord) = record
  behind : xlogReadRaw buffer (lsn + kSizeofXlogRecord)
    (record.xlTotLen.toNat - kSizeofXlogRecord) = payload
  whole : record.xlTotLen.toNat = kSizeofXlogRecord + payload.length

theorem readAndDecodeRecord_ok (read : readAndDecodeRecord buffer lsn = .ok decoded) :
    ∃ payload, ReadAs buffer lsn decoded.record payload ∧
      (decoded.record.xlInfo &&& kXlrBkpBlockImage ≠ 0 ∧ payload ≠ [] ∧ (∃ mainOffset,
            parseBackupBlocks payload = .ok (decoded.backupBlocks, mainOffset) ∧
              decoded.mainData = payload.drop mainOffset) ∨
        ¬ (decoded.record.xlInfo &&& kXlrBkpBlockImage ≠ 0 ∧ payload ≠ []) ∧
          decoded.backupBlocks = [] ∧ decoded.mainData = payload) := by
  unfold readAndDecodeRecord at read
  simp only at read
  generalize isHeader : xlogReadRaw buffer lsn kSizeofXlogRecord = header at read
  generalize isRecord : XLogRecord.ofBytes header = record at read
  generalize isPayload : xlogReadRaw buffer (lsn + kSizeofXlogRecord)
    (record.xlTotLen.toNat - kSizeofXlogRecord) = payload at read
  have atMost : payload.length ≤ record.xlTotLen.toNat - kSizeofXlogRecord := by
    rw [← isPayload, xlogReadRaw, length_take]
    exact Nat.min_le_left ..
  split at read
  · cases read
  next headerRead =>
    split at read
    · cases read
    next payloadRead =>
      have seen : ReadAs buffer lsn record payload := by
        refine ⟨by rw [isHeader, isRecord], isPayload, ?_⟩
        omega
      have dataLen : record.xlTotLen.toNat - kSizeofXlogRecord = payload.length := by omega
      simp only [dataLen, length_pos_iff] at read
      refine ⟨payload, ?_⟩
      split at read
      · cases read
      split at read
      next flagged =>
        split at read
        · cases read
        next blocks mainOffset parsed =>
          cases read
          exact ⟨seen, .inl ⟨flagged.1, flagged.2, mainOffset, parsed, rfl⟩⟩
      next unflagged =>
        cases read
        exact ⟨seen, .inr ⟨unflagged, rfl, rfl⟩⟩

section

variable {buffer rest : List UInt8} {lsn prevRecordLsn : Nat}
  {insert : InsertCall}
  (stands : buffer.drop lsn = insert.bytes prevRecordLsn ++ rest)

include stands

theorem header_there :
    xlogReadRaw buffer lsn kSizeofXlogRecord = (insert.header prevRecordLsn).bytes := by
  rw [xlogReadRaw, stands, InsertCall.bytes, append_assoc, take_left' (XLogRecord.length_bytes _)]

theorem payload_there : xlogReadRaw buffer (lsn + kSizeofXlogRecord) len =
      (insert.assembly.payload ++ rest).take len := by
  rw [xlogReadRaw, ← drop_drop, stands, InsertCall.bytes,
    append_assoc, drop_left' (XLogRecord.length_bytes _)]

theorem xlogReadRecord_of_readable (readable : insert.Readable) :
    ∃ decoded, decoded.content = insert.content ∧ xlogReadRecord buffer lsn = .frame decoded
        (lsn + (insert.bytes prevRecordLsn).length) := by
  have size : (insert.bytes prevRecordLsn).length =
      kSizeofXlogRecord + insert.assembly.payload.length := by
    rw [InsertCall.bytes, length_append, XLogRecord.length_bytes]
  have totLen : (insert.header prevRecordLsn).xlTotLen.toNat =
      kSizeofXlogRecord + insert.assembly.payload.length := by
    rw [InsertCall.header_totLen, size, Nat.mod_eq_of_lt readable.length]
  have payload : xlogReadRaw buffer (lsn + kSizeofXlogRecord)
      insert.assembly.payload.length = insert.assembly.payload := by
    rw [payload_there stands, take_left]
  let decoded : DecodedRecord :=
    { currentLsn := lsn, record := insert.header prevRecordLsn
      backupBlocks := insert.assembly.backupBlocks, mainData := insert.assembly.data }
  have content : decoded.content = insert.content := by
    rw [insert.content_eq]
    simp only [decoded, content, insert.header_info]
    split
    · rfl
    · rw [backupFlag_clear]
      rfl
  have decodes : readAndDecodeRecord buffer lsn = .ok decoded := by
    simp only [readAndDecodeRecord, header_there stands, XLogRecord.ofBytes_bytes,
      XLogRecord.length_bytes, totLen, Nat.add_sub_cancel_left, payload,
      insert.verify prevRecordLsn, insert.header_info]
    rw [if_neg (by omega), if_neg (by omega)]
    by_cases none : insert.assembly.backupBlocks = []
    · have isData := Assembly.payload_of_no_blocks none
      have unflagged : ¬ (insert.info &&& kXlrBkpBlockImage ≠ 0 ∧
          0 < insert.assembly.payload.length) := by
        rw [isData, length_pos_iff]
        rintro ⟨flagged, notEmpty⟩
        exact flagged (readable.flag none notEmpty)
      simp only [none, if_true]
      rw [if_neg unflagged, isData]
      simp [decoded, none]
    have small : insert.assembly.payload.length < 2 ^ 32 := by omega
    have flagged : (insert.info ||| kXlrBkpBlockImage) &&&
        kXlrBkpBlockImage ≠ 0 ∧ 0 < insert.assembly.payload.length := by
      refine ⟨backupFlag_set, ?_⟩
      simp [Assembly.payload, Assembly.bkpBytes, none]
    simp only [none, if_false]
    rw [if_pos flagged, parseBackupBlocks_payload none readable.count small]
    simp only [Assembly.payload, drop_left]
    rfl
  refine ⟨decoded, content, ?_⟩
  have notEmpty : xlogReadRaw buffer lsn kSizeofXlogRecord ≠ [] := by
    rw [header_there stands]
    exact ne_nil_of_length_pos (by
      rw [XLogRecord.length_bytes]
      decide)
  rw [xlogReadRecord, if_neg notEmpty, decodes]
  simp [decoded, totLen, size]

theorem readable_of_xlogReadRecord {next : Nat}
    (read : xlogReadRecord buffer lsn = .frame decoded next)
    (same : decoded.content = insert.content) : insert.Readable := by
  have decodes : readAndDecodeRecord buffer lsn = .ok decoded := by
    unfold xlogReadRecord at read
    split at read
    · cases read
    split at read
    · cases read
    next found =>
      rw [found]
      simp only [Scanned.frame.injEq] at read
      rw [read.1]
  obtain ⟨payload, seen, outcome⟩ := readAndDecodeRecord_ok decodes
  have isHeader : decoded.record = insert.header prevRecordLsn := by
    rw [← seen.header, header_there stands, XLogRecord.ofBytes_bytes]
  have totLen := insert.header_totLen prevRecordLsn
  rw [← isHeader, seen.whole, InsertCall.bytes, length_append, XLogRecord.length_bytes] at totLen
  have atMost : payload.length ≤ insert.assembly.payload.length := by omega
  have fits : payload.length = insert.assembly.payload.length →
      kSizeofXlogRecord + insert.assembly.payload.length < 2 ^ 32 := by
    intro whole
    omega
  rw [insert.content_eq] at same
  have sameBlocks : decoded.backupBlocks = insert.assembly.backupBlocks :=
    congrArg WalContent.blocks same
  have sameData : decoded.mainData = insert.assembly.data := congrArg WalContent.mainData same
  rcases outcome with ⟨flagged, notEmpty, _, parsed, isMain⟩ | ⟨unflagged, noBlocks, isMain⟩
  · obtain ⟨few, length⟩ := parseBackupBlocks_size parsed
    rw [sameBlocks] at few length
    rw [← isMain, sameData] at length
    by_cases none : insert.assembly.backupBlocks = []
    · rw [Assembly.payload_of_no_blocks none] at atMost
      omega
    have whole : payload.length = insert.assembly.payload.length := by
      rw [length, Assembly.payload, length_append,
        Assembly.length_bkpBytes, Assembly.bkpTotal, if_neg none]
    exact ⟨fits whole, few, fun isNone => absurd isNone none⟩
  · rw [noBlocks] at sameBlocks
    have isData := Assembly.payload_of_no_blocks sameBlocks.symm
    have whole : payload = insert.assembly.payload := by rw [isData, ← sameData, isMain]
    refine ⟨fits (by rw [whole]), by rw [← sameBlocks]; decide, ?_⟩
    intro none notEmpty
    by_contra flagged
    apply unflagged
    rw [isHeader, insert.header_info, if_pos none, whole, isData]
    exact ⟨flagged, notEmpty⟩

end

/-! ## Sequences of records -/

/-- `XLogBeginInsert` to `XLogInsert` of one record. -/
def Wal.insert (wal : Wal) (insert : InsertCall) : Wal :=
  (wal.xlogInsert insert.xid insert.assembly insert.rmid insert.info).1

def Wal.insertAll (wal : Wal) (inserts : List InsertCall) : Wal := inserts.foldl Wal.insert wal

section

variable (wal : Wal)

include wal

variable (insert : InsertCall)

theorem Wal.insert_eq : wal.insert insert =
    ⟨wal.buffer ++ insert.bytes wal.prevRecordLsn, wal.buffer.length⟩ := by
  simp [Wal.insert, Wal.xlogInsert, Wal.xlogWriteRaw, InsertCall.bytes,
    InsertCall.header, Assembly.payload]

theorem Wal.insert_buffer :
    (wal.insert insert).buffer = wal.buffer ++ insert.bytes wal.prevRecordLsn := by
  rw [Wal.insert_eq]

theorem Wal.insertAll_buffer : ∃ tail, (wal.insertAll inserts).buffer = wal.buffer ++ tail := by
  induction inserts generalizing wal with
  | nil => exact ⟨[], (append_nil _).symm⟩
  | cons insert _ ih =>
    obtain ⟨tail, appended⟩ := ih (wal.insert insert)
    refine ⟨insert.bytes wal.prevRecordLsn ++ tail, ?_⟩
    rw [← append_assoc, ← Wal.insert_buffer, ← appended]
    rfl

theorem Wal.insertAll_cons_stands :
    ∃ tail, (wal.insertAll (insert :: rest)).buffer.drop wal.buffer.length =
      insert.bytes wal.prevRecordLsn ++ tail := by
  obtain ⟨tail, appended⟩ := (wal.insert insert).insertAll_buffer
  refine ⟨tail, ?_⟩
  have whole : (wal.insertAll (insert :: rest)).buffer =
      wal.buffer ++ (insert.bytes wal.prevRecordLsn ++ tail) := by
    rw [← append_assoc, ← Wal.insert_buffer, ← appended]
    rfl
  rw [whole, drop_left]

theorem Wal.insert_length : (wal.insert insert).buffer.length =
      wal.buffer.length + (insert.bytes wal.prevRecordLsn).length := by
  rw [Wal.insert_buffer, length_append]

theorem frameChain_of_readable (readable : ∀ insert ∈ inserts, insert.Readable) :
    ∃ decoded, decoded.map content = inserts.map InsertCall.content ∧
      FrameChain (xlogReadRecord (wal.insertAll inserts).buffer)
        wal.buffer.length decoded (wal.insertAll inserts).buffer.length := by
  induction inserts generalizing wal with
  | nil => exact ⟨[], rfl, .nil _⟩
  | cons insert rest ih =>
    obtain ⟨_, stands⟩ := wal.insertAll_cons_stands insert
    obtain ⟨first, sameFirst, read⟩ :=
      xlogReadRecord_of_readable stands (readable insert mem_cons_self)
    obtain ⟨later, sameLater, chain⟩ := ih (wal.insert insert)
      fun other mem => readable other (mem_cons_of_mem _ mem)
    refine ⟨first :: later, ?_, ?_⟩
    · rw [map_cons, map_cons, sameFirst, sameLater]
    · rw [Wal.insert_length] at chain
      exact .cons read chain

theorem readable_of_frameChain (chain : FrameChain (xlogReadRecord (wal.insertAll inserts).buffer)
      wal.buffer.length decoded finish)
    (same : decoded.map content = inserts.map InsertCall.content) :
    ∀ insert ∈ inserts, insert.Readable := by
  induction inserts generalizing wal decoded with
  | nil =>
    intro insert mem
    exact absurd mem not_mem_nil
  | cons insert rest ih =>
    cases chain with
    | nil => simp at same
    | @cons _ _ next _ _ read chain =>
      simp only [map_cons, List.cons.injEq] at same
      obtain ⟨_, stands⟩ := wal.insertAll_cons_stands insert
      have isReadable := readable_of_xlogReadRecord stands read same.1
      obtain ⟨_, _, again⟩ := xlogReadRecord_of_readable stands isReadable
      rw [read] at again
      simp only [Scanned.frame.injEq] at again
      have next : next = (wal.insert insert).buffer.length := by rw [again.2, Wal.insert_length]
      subst next
      exact forall_mem_cons.2 ⟨isReadable, ih (wal.insert insert) chain same.2⟩

end

theorem xlogReadRecord_forward {next : Nat}
    (read : xlogReadRecord buffer lsn = .frame decoded next) :
    lsn < next ∧ lsn < buffer.length := by
  unfold xlogReadRecord at read
  split at read
  · cases read
  next notEmpty =>
    split at read
    · cases read
    next found =>
      obtain ⟨rfl, rfl⟩ := read
      obtain ⟨_, seen, _⟩ := readAndDecodeRecord_ok found
      have whole := seen.whole
      refine ⟨?_, ?_⟩
      · simp only [kSizeofXlogRecord] at whole
        omega
      by_contra outside
      apply notEmpty
      rw [xlogReadRaw, drop_of_length_le (Nat.le_of_not_lt outside), take_nil]

theorem xlogReadRecord_end : xlogReadRecord buffer buffer.length = .stop .endOfWal := by
  simp [xlogReadRecord, xlogReadRaw]

/-- Reading the WAL from the first LSN returns what was registered, and then
the end of the WAL. -/
def ReadsBack (inserts : List InsertCall) : Prop :=
  let result := readWal (Wal.initial.insertAll inserts).buffer kSizeofXlogRecord
  result.1.map content = inserts.map InsertCall.content ∧ result.2 = some .endOfWal

instance (inserts : List InsertCall) : Decidable (ReadsBack inserts) :=
  inferInstanceAs (Decidable (_ ∧ _))

/-- A sequence of records round-trips exactly if each is within the limits. -/
theorem readsBack_iff (inserts : List InsertCall) :
    ReadsBack inserts ↔ ∀ insert ∈ inserts, insert.Readable := by
  have first : Wal.initial.buffer.length = kSizeofXlogRecord := length_replicate
  constructor
  · rintro ⟨same, ended⟩
    obtain ⟨_, chain, _⟩ := exists_frameChain_of_scan (Prod.ext rfl ended)
    exact readable_of_frameChain Wal.initial chain same
  intro readable
  obtain ⟨_, same, chain⟩ := frameChain_of_readable Wal.initial readable
  have short := chain.length_le fun _ _ _ read => (xlogReadRecord_forward read).1
  rw [first] at chain
  have scanned := chain.scan_eq (xlogReadRecord_end)
    (Nat.lt_succ_of_le (Nat.le_of_add_left_le short))
  unfold ReadsBack readWal
  rw [scanned]
  exact ⟨same, rfl⟩

/-- An info byte with the bit of the backup blocks, and main data only. -/
theorem flaggedMainData_lost : ¬ ReadsBack
      [{ calls := [.data [1]], xid := 3, rmid := 8, info := 0x04 }] := by
  decide +kernel

end Pgcpp.Transaction

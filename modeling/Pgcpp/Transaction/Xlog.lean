import Pgcpp.Lib.ByteMem
import Pgcpp.Lib.FrameScan
import Pgcpp.Transaction.Transam

/-!
# The write-ahead log

Records are assembled from registered data and pages, appended to the WAL
buffer, and read back one after another.  An LSN is a position in the buffer,
whose first 24 bytes are reserved.
-/

namespace Pgcpp.Transaction

open Lib

def kCastagnoliPolyReflected : BitVec 32 := 0x82F63B78#32

/-- One of the eight rounds that compute a table entry. -/
def crc32CRound (crc : BitVec 32) : BitVec 32 :=
  if crc.getLsbD 0 then (crc >>> 1) ^^^ kCastagnoliPolyReflected else crc >>> 1

/-- An entry of `kCrc32CTable`. -/
def crc32CEntry (index : BitVec 32) : BitVec 32 := crc32CRound^[8] index

/-- `Crc32CUpdateSoftware`. -/
def crc32CUpdate (crc : BitVec 32) (data : List UInt8) : BitVec 32 :=
  data.foldl
    (fun crc byte => crc32CEntry ((crc ^^^ BitVec.ofNat 32 byte.toNat) &&& 0xFF#32) ^^^ (crc >>> 8))
    crc

def crc32CInit : BitVec 32 := 0xFFFFFFFF#32

def crc32CFinalize (crc : BitVec 32) : BitVec 32 := crc ^^^ 0xFFFFFFFF#32

def kSizeofXlogRecord : Nat := 24

def kXlrBkpBlockImage : UInt8 := 0x04

structure XLogRecord where
  xlTotLen : BitVec 32
  xlXid : TransactionId
  xlPrev : BitVec 64
  xlInfo : UInt8
  xlRmid : UInt8
  xlCrc : BitVec 32
  deriving DecidableEq

/-- The bytes of the header in front of `xl_crc`, with two of padding. -/
def XLogRecord.crcBytes (record : XLogRecord) : List UInt8 :=
  toBytes 4 record.xlTotLen.toNat ++ toBytes 4 record.xlXid.toNat ++
    toBytes 8 record.xlPrev.toNat ++ [record.xlInfo, record.xlRmid, 0, 0]

def XLogRecord.bytes (record : XLogRecord) : List UInt8 :=
  record.crcBytes ++ toBytes 4 record.xlCrc.toNat

/-- The header that starts with the given bytes. -/
def XLogRecord.ofBytes (bytes : List UInt8) : XLogRecord :=
  { xlTotLen := BitVec.ofNat 32 (field bytes 0 4), xlXid := BitVec.ofNat 32 (field bytes 4 4)
    xlPrev := BitVec.ofNat 64 (field bytes 8 8), xlInfo := bytes.getD 16 0
    xlRmid := bytes.getD 17 0
    xlCrc := BitVec.ofNat 32 (field bytes 20 4) }

structure RegisteredBlock where
  blockId : UInt8
  pageData : List UInt8
  isFpw : Bool
  deriving DecidableEq

structure BackupBlock where
  blockId : UInt8
  pageData : List UInt8
  deriving DecidableEq

/-- `RegisteredData` and `RegisteredBlocks`. -/
structure Assembly where
  data : List UInt8
  blocks : List RegisteredBlock
  deriving DecidableEq

def xlogBeginInsert : Assembly := { data := [], blocks := [] }

variable (assembly : Assembly)

def xlogRegisterData (data : List UInt8) : Assembly :=
  { assembly with data := assembly.data ++ data }

/-- A block with the same id is replaced. -/
def registerBlock (block : RegisteredBlock) : List RegisteredBlock → List RegisteredBlock
  | [] => [block]
  | registered :: rest =>
    if registered.blockId = block.blockId then block :: rest
    else registered :: registerBlock block rest

/-- A page without bytes is not registered. -/
def xlogRegisterBuffer (blockId : UInt8) (pageData : List UInt8) (isFpw : Bool) : Assembly :=
  if pageData = [] then assembly
  else
    { assembly with
      blocks := registerBlock
        { blockId := blockId, pageData := pageData, isFpw := isFpw }
        assembly.blocks }

/-- The pages that go into the record. -/
def Assembly.backupBlocks : List BackupBlock :=
  (assembly.blocks.filter RegisteredBlock.isFpw).map fun block =>
    { blockId := block.blockId, pageData := block.pageData }

def BackupBlock.size (block : BackupBlock) : Nat := 1 + 4 + block.pageData.length

def BackupBlock.bytes (block : BackupBlock) : List UInt8 :=
  block.blockId :: (toBytes 4 block.pageData.length ++ block.pageData)

def Assembly.bkpTotal : Nat :=
  if assembly.backupBlocks = [] then 0 else 1 + (assembly.backupBlocks.map BackupBlock.size).sum

/-- `bkp_bytes`: the number of blocks in one byte, and the blocks. -/
def Assembly.bkpBytes : List UInt8 :=
  if assembly.backupBlocks = [] then []
  else UInt8.ofNat assembly.backupBlocks.length :: assembly.backupBlocks.flatMap BackupBlock.bytes

/-- `WalBuffer` and `PrevRecordLsn`; `InsertPtr` is the size of the buffer. -/
structure Wal where
  buffer : List UInt8
  prevRecordLsn : Nat
  deriving DecidableEq

/-- The state after `InitializeWal` without a file. -/
def Wal.initial : Wal := { buffer := List.replicate kSizeofXlogRecord 0, prevRecordLsn := 0 }

def Wal.xlogWriteRaw (wal : Wal) (data : List UInt8) : Wal :=
  { wal with buffer := wal.buffer ++ data }

/-- The header `XLogInsert` builds. -/
def xlogHeader (prevRecordLsn : Nat) (xid : TransactionId)
    (assembly : Assembly) (rmid info : UInt8) : XLogRecord :=
  let hasFpw := !assembly.backupBlocks.isEmpty
  let record : XLogRecord :=
    { xlTotLen := BitVec.ofNat 32 (kSizeofXlogRecord + assembly.bkpTotal + assembly.data.length)
      xlXid :=
        if xid ≠ kInvalidTransactionId then xid else kBootstrapTransactionId
      xlPrev := BitVec.ofNat 64 prevRecordLsn
      xlInfo := if hasFpw then info ||| kXlrBkpBlockImage else info, xlRmid := rmid, xlCrc := 0 }
  { record with
    xlCrc := crc32CFinalize
      (crc32CUpdate (crc32CUpdate (crc32CUpdate crc32CInit record.crcBytes) assembly.bkpBytes)
        assembly.data) }

/-- `XLogInsert`, with the XID that `GetCurrentTransactionIdIfAny` returns. -/
def Wal.xlogInsert (wal : Wal) (xid : TransactionId) (assembly : Assembly)
    (rmid info : UInt8) : Wal × Nat :=
  let startLsn := wal.buffer.length
  let header := xlogHeader wal.prevRecordLsn xid assembly rmid info
  let wal := wal.xlogWriteRaw header.bytes
  let wal := wal.xlogWriteRaw assembly.bkpBytes
  let wal := wal.xlogWriteRaw assembly.data
  ({ wal with prevRecordLsn := startLsn }, startLsn)

variable (buffer : List UInt8)

/-- The bytes `XLogReadRaw` copies. -/
def xlogReadRaw (lsn len : Nat) : List UInt8 := (buffer.drop lsn).take len

def verifyRecordCrc (header payload : List UInt8) : Bool :=
  crc32CFinalize (crc32CUpdate (crc32CUpdate crc32CInit (header.take 20)) payload) ==
    (XLogRecord.ofBytes header).xlCrc

/-- Why there is no record: the buffer ends here, or inside the record, or the
record does not pass the check.  `outside` stands for an access outside the
memory, which the source does not check. -/
inductive ReadFailure where
  | endOfWal
  | truncated
  | crcMismatch
  | outside
  deriving DecidableEq

def access (memory : List UInt8) (pos len : Nat) : Except ReadFailure (List UInt8) :=
  if pos + len ≤ memory.length then .ok ((memory.drop pos).take len) else .error .outside

/-- The loop of `ParseBackupBlocks`, with the number of blocks left and the
offset. -/
def parseBlocks (payload : List UInt8) : Nat → Nat → Except ReadFailure (List BackupBlock × Nat)
  | 0, offset => .ok ([], offset)
  | count + 1, offset =>
    if payload.length < offset + 1 + 4 then .error .crcMismatch
    else do
      let blockId ← access payload offset 1
      let pageLen := ofBytes (← access payload (offset + 1) 4)
      if payload.length < offset + 1 + 4 + pageLen then .error .crcMismatch
      else
        let pageData ← access payload (offset + 1 + 4) pageLen
        let (blocks, mainOffset) ← parseBlocks payload count (offset + 1 + 4 + pageLen)
        .ok ({ blockId := blockId.getD 0 0, pageData := pageData } :: blocks, mainOffset)

/-- `ParseBackupBlocks`: the blocks and the offset of the main data. -/
def parseBackupBlocks (payload : List UInt8) : Except ReadFailure (List BackupBlock × Nat) :=
  if payload.length < 1 then .error .crcMismatch
  else do
    let count ← access payload 0 1
    parseBlocks payload (count.getD 0 0).toNat 1

/-- What the reader state holds after a successful read. -/
structure DecodedRecord where
  currentLsn : Nat
  record : XLogRecord
  backupBlocks : List BackupBlock
  mainData : List UInt8
  deriving DecidableEq

def readAndDecodeRecord (lsn : Nat) : Except ReadFailure DecodedRecord :=
  let header := xlogReadRaw buffer lsn kSizeofXlogRecord
  let record := XLogRecord.ofBytes header
  if header.length < kSizeofXlogRecord ∨ record.xlTotLen.toNat < kSizeofXlogRecord then
    .error .truncated
  else
    let dataLen := record.xlTotLen.toNat - kSizeofXlogRecord
    let payload := xlogReadRaw buffer (lsn + kSizeofXlogRecord) dataLen
    if payload.length < dataLen then .error .truncated
    else if !verifyRecordCrc header payload then .error .crcMismatch
    else if record.xlInfo &&& kXlrBkpBlockImage ≠ 0 ∧ 0 < dataLen then
      match parseBackupBlocks payload with
      | .error failure => .error failure
      | .ok (blocks, mainOffset) =>
        .ok { currentLsn := lsn, record := record, backupBlocks := blocks
              mainData := payload.drop mainOffset }
    else .ok { currentLsn := lsn, record := record, backupBlocks := [], mainData := payload }

/-- `XLogReadRecord` at an LSN, with the LSN of the next record. -/
def xlogReadRecord (lsn : Nat) : Scanned DecodedRecord ReadFailure :=
  if xlogReadRaw buffer lsn kSizeofXlogRecord = [] then .stop .endOfWal
  else
    match readAndDecodeRecord buffer lsn with
    | .error failure => .stop failure
    | .ok decoded => .frame decoded (lsn + decoded.record.xlTotLen.toNat)

/-- The loop `while (XLogReadRecord(reader, &lsn))`. -/
def readWal (start : Nat) : List DecodedRecord × Option ReadFailure :=
  scan (xlogReadRecord buffer) (buffer.length + 1) start

structure RecoveryStats where
  recordsReplayed : Nat
  recordsSkipped : Nat
  lastRmid : UInt8
  lastLsn : Nat
  deriving DecidableEq

/-- The arguments of a redo function. -/
structure RedoCall where
  record : XLogRecord
  mainData : List UInt8
  lsn : Nat
  deriving DecidableEq

def DecodedRecord.redoCall (decoded : DecodedRecord) : RedoCall :=
  { record := decoded.record, mainData := decoded.mainData, lsn := decoded.currentLsn }

variable (registered : UInt8 → Bool)

/-- One round of the loop in `PerformCrashRecoveryFrom`.  `registered` tells
which resource managers have a redo function. -/
def redoRecord (progress : RecoveryStats × List RedoCall) (decoded : DecodedRecord) :
    RecoveryStats × List RedoCall :=
  let (stats, calls) := progress
  if registered decoded.record.xlRmid then
    ({ stats with
        recordsReplayed := stats.recordsReplayed + 1, lastRmid := decoded.record.xlRmid
        lastLsn := decoded.currentLsn }, calls ++ [decoded.redoCall])
  else ({ stats with recordsSkipped := stats.recordsSkipped + 1 }, calls)

def performCrashRecoveryFrom (buffer : List UInt8) (startLsn : Nat) :
    RecoveryStats × List RedoCall :=
  (readWal buffer startLsn).1.foldl (redoRecord registered)
    ({ recordsReplayed := 0, recordsSkipped := 0, lastRmid := 0
       lastLsn := 0 }, [])

def performCrashRecovery (buffer : List UInt8) : RecoveryStats × List RedoCall :=
  performCrashRecoveryFrom registered buffer kSizeofXlogRecord

end Pgcpp.Transaction

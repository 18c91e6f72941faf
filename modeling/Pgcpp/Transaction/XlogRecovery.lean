import Pgcpp.Transaction.XlogCrash

/-!
# Recovery of arbitrary bytes

`PerformCrashRecoveryFrom` on a buffer that no writer is known to have written:
every access of the reader is inside its memory, the reader moves forward, and
recovery processes the valid records up to the first place without one.
-/

namespace Pgcpp.Transaction

open List Lib DecodedRecord

variable (buffer : List UInt8)

/-- The block headers and page images that the loop of `ParseBackupBlocks`
expects from `offset` on are inside the payload. -/
def ValidBlocks (payload : List UInt8) : Nat → Nat → Prop
  | 0, _ => True
  | count + 1, offset =>
    let next := offset + 1 + 4 + field payload (offset + 1) 4
    next ≤ payload.length ∧ ValidBlocks payload count next

/-- The record at `lsn` is inside the buffer and has a valid length, CRC and
backup-block section. -/
def ValidRecord (lsn : Nat) : Prop :=
  let record := recordAt buffer lsn
  let payload := xlogReadRaw buffer (lsn + kSizeofXlogRecord)
    (record.xlTotLen.toNat - kSizeofXlogRecord)
  kSizeofXlogRecord ≤ record.xlTotLen.toNat ∧ lsn + record.xlTotLen.toNat ≤ buffer.length ∧
    verifyRecordCrc (xlogReadRaw buffer lsn kSizeofXlogRecord) payload ∧
    (record.xlInfo &&& kXlrBkpBlockImage ≠ 0 → payload ≠ [] →
      ValidBlocks payload (payload.getD 0 0).toNat 1)

/-- Valid records one behind the other, with their positions. -/
inductive ValidRun (buffer : List UInt8) : Nat → List Nat → Nat → Prop where
  | nil : ValidRun buffer lsn [] lsn
  | cons (valid : ValidRecord buffer lsn)
      (later : ValidRun buffer (lsn + (recordAt buffer lsn).xlTotLen.toNat) starts finish) :
      ValidRun buffer lsn (lsn :: starts) finish

theorem parseBlocks_valid (payload : List UInt8) (count offset : Nat) :
    match parseBlocks payload count offset with
    | .ok _ => ValidBlocks payload count offset
    | .error failure => failure = .crcMismatch ∧ ¬ValidBlocks payload count offset := by
  induction count generalizing offset with
  | zero => exact trivial
  | succ count ih =>
    have later := ih (offset + 1 + 4 + field payload (offset + 1) 4)
    rw [parseBlocks_succ, ValidBlocks]
    by_cases cut : payload.length < offset + 1 + 4 + field payload (offset + 1) 4
    · rw [if_pos cut]
      exact ⟨rfl, fun valid => absurd valid.1 (by omega)⟩
    rw [if_neg cut]
    cases parsed : parseBlocks payload count (offset + 1 + 4 + field payload (offset + 1) 4) with
    | error _ =>
      rw [parsed] at later
      exact ⟨later.1, fun valid => later.2 valid.2⟩
    | ok _ =>
      rw [parsed] at later
      exact ⟨Nat.le_of_not_lt cut, later⟩

theorem length_xlogReadRaw (lsn len : Nat) :
    (xlogReadRaw buffer lsn len).length = min len (buffer.length - lsn) := by
  rw [xlogReadRaw, length_take, length_drop]

theorem xlogReadRecord_valid (lsn : Nat) : match xlogReadRecord buffer lsn with
    | .frame decoded next => ValidRecord buffer lsn ∧ decoded.currentLsn = lsn ∧
        decoded.record = recordAt buffer lsn ∧ next = lsn + (recordAt buffer lsn).xlTotLen.toNat
    | .stop failure => failure ≠ .outside ∧ ¬ValidRecord buffer lsn := by
  have headerLength := length_xlogReadRaw buffer lsn kSizeofXlogRecord
  simp only [xlogReadRecord, readAndDecodeRecord, ValidRecord, recordAt, parseBackupBlocks_eq]
  generalize xlogReadRaw buffer lsn kSizeofXlogRecord = header at headerLength ⊢
  generalize XLogRecord.ofBytes header = record
  have payloadLength := length_xlogReadRaw buffer (lsn + kSizeofXlogRecord)
    (record.xlTotLen.toNat - kSizeofXlogRecord)
  generalize xlogReadRaw buffer (lsn + kSizeofXlogRecord)
    (record.xlTotLen.toNat - kSizeofXlogRecord) = payload at payloadLength ⊢
  have size : kSizeofXlogRecord = 24 := rfl
  by_cases noHeader : header = []
  · rw [if_pos noHeader]
    rw [noHeader, length_nil] at headerLength
    exact ⟨by decide, fun valid => by omega⟩
  rw [if_neg noHeader]
  by_cases short : header.length < kSizeofXlogRecord ∨ record.xlTotLen.toNat < kSizeofXlogRecord
  · rw [if_pos short]
    exact ⟨by decide, fun valid => by omega⟩
  rw [if_neg short]
  by_cases cut : payload.length < record.xlTotLen.toNat - kSizeofXlogRecord
  · rw [if_pos cut]
    exact ⟨by decide, fun valid => by omega⟩
  rw [if_neg cut]
  have long : kSizeofXlogRecord ≤ record.xlTotLen.toNat := by omega
  have inside : lsn + record.xlTotLen.toNat ≤ buffer.length := by omega
  cases crc : verifyRecordCrc header payload with
  | false => exact ⟨by decide, fun valid => Bool.false_ne_true valid.2.2.1⟩
  | true =>
    by_cases backup : record.xlInfo &&& kXlrBkpBlockImage ≠ 0 ∧
      0 < record.xlTotLen.toNat - kSizeofXlogRecord
    · have blocks := parseBlocks_valid payload (payload.getD 0 0).toNat 1
      have some : payload ≠ [] := ne_nil_of_length_pos (by omega)
      simp only [if_pos backup, if_neg (show ¬payload.length < 1 by omega)]
      cases parsed : parseBlocks payload (payload.getD 0 0).toNat 1 with
      | error failure =>
        rw [parsed] at blocks
        exact ⟨by simp [blocks.1], fun valid => blocks.2 (valid.2.2.2 backup.1 some)⟩
      | ok found =>
        rw [parsed] at blocks
        exact ⟨⟨long, inside, trivial, fun _ _ => blocks⟩, rfl, rfl, rfl⟩
    · rw [if_neg backup]
      refine ⟨⟨long, inside, rfl, fun flagged some => absurd ⟨flagged, ?_⟩ backup⟩, rfl, rfl, rfl⟩
      have := length_pos_of_ne_nil some
      omega

theorem scan_validRun (buffer : List UInt8) (lsn : Nat) (some : 0 < fuel)
    (enough : buffer.length < lsn + fuel) : let result := scan (xlogReadRecord buffer) fuel lsn
    result.2 ≠ none ∧ (∀ decoded ∈ result.1, decoded.record = recordAt buffer decoded.currentLsn) ∧
      ∃ finish, ValidRun buffer lsn (result.1.map currentLsn) finish ∧
        ¬ValidRecord buffer finish := by
  induction fuel generalizing lsn with
  | zero => cases some
  | succ fuel ih =>
    have read := xlogReadRecord_valid buffer lsn
    rw [scan]
    cases outcome : xlogReadRecord buffer lsn with
    | stop _ =>
      rw [outcome] at read
      exact ⟨Option.some_ne_none _, forall_mem_nil _, lsn, .nil, read.2⟩
    | frame decoded next =>
      rw [outcome] at read
      obtain ⟨valid, rfl, isRecord, rfl⟩ := read
      have long : 24 ≤ (recordAt buffer decoded.currentLsn).xlTotLen.toNat := valid.1
      have inside := valid.2.1
      obtain ⟨stopped, records, finish, later, last⟩ := ih
        (decoded.currentLsn + (recordAt buffer decoded.currentLsn).xlTotLen.toNat)
        (by omega) (by omega)
      exact ⟨stopped, forall_mem_cons.2 ⟨isRecord, records⟩, finish, .cons valid later, last⟩

theorem foldl_redoRecord_count (records : List DecodedRecord)
    (progress : RecoveryStats × List RedoCall) :
    (records.foldl (redoRecord registered) progress).1.recordsReplayed +
        (records.foldl (redoRecord registered) progress).1.recordsSkipped =
      progress.1.recordsReplayed + progress.1.recordsSkipped + records.length := by
  induction records generalizing progress with
  | nil => rfl
  | cons decoded records ih =>
    rw [foldl_cons, ih, redoRecord, length_cons]
    split <;> simp only <;> omega

/-- Recovery from any position of any bytes stops, reads inside the buffer only
and moves forward; it processes the valid records up to the first place without
one, and redoes those of a registered resource manager. -/
theorem performCrashRecoveryFrom_validRun (registered : UInt8 → Bool) (buffer : List UInt8)
    (start : Nat) : let records := (readWal buffer start).1
      let recovery := performCrashRecoveryFrom registered buffer start
      (readWal buffer start).2 ≠ none ∧
      (∃ starts finish, ValidRun buffer start starts finish ∧ ¬ValidRecord buffer finish ∧
        records.map currentLsn = starts ∧
        (∀ decoded ∈ records, decoded.record = recordAt buffer decoded.currentLsn) ∧
        recovery.1.recordsReplayed + recovery.1.recordsSkipped = starts.length) ∧
      recovery.2 = (records.filter (registered ·.record.xlRmid)).map redoCall ∧
      (∀ lsn, ValidRecord buffer lsn → lsn < lsn + (recordAt buffer lsn).xlTotLen.toNat) ∧
      (∀ lsn len, lsn ≤ buffer.length → lsn + (xlogReadRaw buffer lsn len).length ≤ buffer.length) ∧
      ∀ lsn, xlogReadRecord buffer lsn ≠ .stop .outside := by
  obtain ⟨stopped, records, finish, run, last⟩ := scan_validRun buffer start
    (Nat.succ_pos buffer.length) (by omega)
  refine ⟨stopped, ⟨_, finish, run, last, rfl, records, ?_⟩, foldl_redoRecord .., ?_, ?_, ?_⟩
  · rw [length_map]
    exact (foldl_redoRecord_count ..).trans (Nat.zero_add _)
  · intro lsn valid
    have long : 24 ≤ (recordAt buffer lsn).xlTotLen.toNat := valid.1
    omega
  · intro lsn len _
    rw [length_xlogReadRaw]
    omega
  · intro lsn outside
    have read := xlogReadRecord_valid buffer lsn
    rw [outside] at read
    exact read.1 rfl

end Pgcpp.Transaction

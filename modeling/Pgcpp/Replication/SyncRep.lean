import Pgcpp.Lib.TextLines

/-!
# Synchronous replication

`SyncRepCountAcked` counts the entries of the configuration for which some
standby has flushed, and not the standbys.  One standby may stand for several
entries, and several standbys for one entry.
-/

namespace Pgcpp.Replication

open List Lib

inductive SyncRepSyncMethod where
  | priority
  | quorum
  deriving DecidableEq

structure SyncRepConfig where
  standbyNames : List Text
  numSync : Int
  method : SyncRepSyncMethod
  deriving DecidableEq

structure WalSnd where
  applicationName : Text
  flushPtr : Nat

def trim (text : Text) : Text :=
  ((text.dropWhile isSpace).reverse.dropWhile isSpace).reverse

/-- `Split` at the commas; parts without text are left out. -/
def split (text : Text) : List Text :=
  ((text.splitOn ',').map trim).filter (· ≠ [])

/-- `std::stoi`, `none` where it throws. -/
def stoi (text : Text) : Option Int :=
  let text := text.dropWhile isSpace
  let unsigned := if text.head? = some '-' ∨ text.head? = some '+' then text.tail else text
  let digits := unsigned.takeWhile Char.isDigit
  let value : Int := Nat.ofDigitChars 10 digits 0
  let value := if text.head? = some '-' then -value else value
  if digits = [] ∨ value < -2147483648 ∨ 2147483647 < value then none else some value

/-- The number from `start` to the first parenthesis, and the text in the
parentheses, which is all that follows if the first `)` comes before. -/
def countAndNames (text : Text) (start : Nat) : Option (Int × Text) := do
  let paren ← text.findIdx? (· = '(')
  let close ← text.findIdx? (· = ')')
  let count ← stoi (trim ((text.drop start).take (paren - start)))
  let behind := text.drop (paren + 1)
  return (count, if close < paren then behind else behind.take (close - paren - 1))

def syncRepConfigUpdate (standbyNames : List Text) (numSync : Int)
    (method : SyncRepSyncMethod) : Option SyncRepConfig :=
  if numSync < 0 ∨ standbyNames.length < numSync then none
  else some { standbyNames, numSync, method }

def syncRepConfigParse (text : Text) : Option SyncRepConfig :=
  let text := trim text
  let withNames (method : SyncRepSyncMethod) (parsed : Int × Text) :=
    if (split parsed.2).length < parsed.1 then none
    else syncRepConfigUpdate (split parsed.2) parsed.1 method
  if text = [] then syncRepConfigUpdate [] 0 .priority
  else if text.take 4 = "ANY ".toList ∨ text.take 4 = "any ".toList then
    (countAndNames text 4).bind (withNames .quorum)
  else if '(' ∈ text then (countAndNames text 0).bind (withNames .priority)
  else withNames .priority (1, text)

/-- The configuration entry stands for the walsender. -/
def matchesName (name : Text) (sender : WalSnd) : Bool :=
  name = ['*'] ∨ sender.applicationName = name

variable (config : SyncRepConfig) (walsenders : List WalSnd) (lsn : Nat)

def syncRepCountAcked : Nat :=
  if config.standbyNames = [] ∨ config.numSync = 0 then 0
  else config.standbyNames.countP fun name =>
    walsenders.any fun sender => matchesName name sender && lsn ≤ sender.flushPtr

def syncRepIsSatisfied : Bool :=
  config.numSync = 0 ∨ config.numSync ≤ syncRepCountAcked config walsenders lsn

/-- The walsenders in the list that have flushed up to `lsn`. -/
def standbysAcked : Nat :=
  walsenders.countP fun sender =>
    config.standbyNames.any (matchesName · sender) && lsn ≤ sender.flushPtr

variable {config} {text : Text}

theorem numSync_bounds (accepted : syncRepConfigParse text = some config) :
    0 ≤ config.numSync ∧ config.numSync ≤ config.standbyNames.length := by
  have updated {names numSync method} (update : syncRepConfigUpdate names numSync method =
      some config) : 0 ≤ config.numSync ∧ config.numSync ≤ config.standbyNames.length := by
    rw [syncRepConfigUpdate] at update
    split at update
    · cases update
    · cases update
      simp only
      omega
  have named {parsed : Int × Text} {method} (found : (if (split parsed.2).length < parsed.1
      then none else syncRepConfigUpdate (split parsed.2) parsed.1 method) = some config) :
      0 ≤ config.numSync ∧ config.numSync ≤ config.standbyNames.length := by
    split at found
    · cases found
    · exact updated found
  rw [syncRepConfigParse] at accepted
  split at accepted
  case isTrue => exact updated accepted
  case isFalse =>
    split at accepted
    case isTrue =>
      obtain ⟨_, -, found⟩ := Option.bind_eq_some_iff.1 accepted
      exact named found
    case isFalse =>
      split at accepted
      case isTrue =>
        obtain ⟨_, -, found⟩ := Option.bind_eq_some_iff.1 accepted
        exact named found
      case isFalse => exact named accepted

theorem countP_mem_comm {left right : List Text} (leftNodup : left.Nodup)
    (rightNodup : right.Nodup) : left.countP (· ∈ right) = right.countP (· ∈ left) := by
  rw [countP_eq_length_filter, countP_eq_length_filter]
  refine ((perm_ext_iff_of_nodup (leftNodup.filter _) (rightNodup.filter _)).2 ?_).length_eq
  intro name
  simp [and_comm]

theorem syncRepCountAcked_eq (names : config.standbyNames.Nodup)
    (plain : ['*'] ∉ config.standbyNames)
    (senders : (walsenders.map WalSnd.applicationName).Nodup) (on : config.numSync ≠ 0) :
    syncRepCountAcked config walsenders lsn = standbysAcked config walsenders lsn := by
  have flushed : ((walsenders.filter (lsn ≤ ·.flushPtr)).map WalSnd.applicationName).Nodup :=
    senders.sublist (filter_sublist.map _)
  have listed (name) (mem : name ∈ config.standbyNames) (sender) :
      matchesName name sender = (sender.applicationName = name) := by
    have notAny : name ≠ ['*'] := fun any => plain (any ▸ mem)
    simp [matchesName, notAny]
  rw [syncRepCountAcked, standbysAcked]
  split
  case isTrue none => simp [none.resolve_right on]
  case isFalse =>
    refine .trans (countP_congr fun name mem => ?_) ((countP_mem_comm names flushed).trans ?_)
    · simp [listed name mem, and_assoc, and_comm]
    · rw [countP_map, countP_filter]
      refine countP_congr fun sender _ => ?_
      have any : config.standbyNames.any (matchesName · sender) =
          (sender.applicationName ∈ config.standbyNames) := by
        simp only [any_eq_true, eq_iff_iff]
        exact ⟨fun ⟨name, mem, same⟩ => (listed name mem sender).mp same ▸ mem,
          fun mem => ⟨_, mem, (listed _ mem sender).mpr rfl⟩⟩
      simp [any]

/-- The answer is about distinct standbys for all walsenders and positions
exactly if at most one standby is asked for; it is so for any number if no name
is repeated. -/
theorem satisfied_iff_standbysAcked (accepted : syncRepConfigParse text = some config) :
    let Right := fun walsenders lsn => syncRepIsSatisfied config walsenders lsn ↔
      config.numSync = 0 ∨ config.numSync ≤ standbysAcked config walsenders lsn
    ((∀ walsenders lsn, Right walsenders lsn) ↔ config.numSync ≤ 1) ∧
      ∀ walsenders lsn, config.standbyNames.Nodup → ['*'] ∉ config.standbyNames →
        (walsenders.map WalSnd.applicationName).Nodup → Right walsenders lsn := by
  obtain ⟨atLeast, atMost⟩ := numSync_bounds accepted
  refine ⟨⟨?_, ?_⟩, ?_⟩
  · intro exact
    by_contra many
    obtain ⟨name, names, isNames⟩ : ∃ name names, config.standbyNames = name :: names :=
      exists_cons_of_length_pos (by omega)
    have nonzero : config.numSync ≠ 0 := by omega
    -- any number of walsenders with one name acknowledge the same entries
    have sameName (number : Nat) (some : number ≠ 0) : config.numSync ≤
          config.standbyNames.countP (matchesName · ⟨name, 0⟩) ↔ config.numSync ≤ number := by
      have listed : matchesName name ⟨name, 0⟩ := by simp [matchesName]
      have asked := exact (replicate number ⟨name, 0⟩) 0
      simpa [syncRepIsSatisfied, syncRepCountAcked, standbysAcked, nonzero, some, isNames,
        countP_replicate, listed] using asked
    have one := sameName 1 (by decide)
    have all := sameName config.numSync.toNat (by omega)
    omega
  · intro few walsenders lsn
    by_cases off : config.numSync = 0
    · simp [syncRepIsSatisfied, off]
    have one : config.numSync = 1 := by omega
    have names : config.standbyNames ≠ [] := ne_nil_of_length_pos (by omega)
    have positive (count : Nat) : (1 : Int) ≤ count ↔ 0 < count := by omega
    simp only [syncRepIsSatisfied, syncRepCountAcked, standbysAcked, one, positive, names]
    simp [countP_pos_iff]
    grind
  · intro walsenders lsn names plain senders
    by_cases off : config.numSync = 0
    · simp [syncRepIsSatisfied, off]
    · rw [syncRepIsSatisfied, decide_eq_true_eq, syncRepCountAcked_eq _ _ names plain senders off]

theorem satisfied_iff_standbysAcked_one :
    syncRepConfigParse ['a'] = some ⟨[['a']], 1, .priority⟩ ∧ ∀ walsenders lsn,
      syncRepIsSatisfied ⟨[['a']], 1, .priority⟩ walsenders lsn ↔
        (1 : Int) = 0 ∨ 1 ≤ (standbysAcked ⟨[['a']], 1, .priority⟩ walsenders lsn : Int) := by
  have parsed : syncRepConfigParse ['a'] = some ⟨[['a']], 1, .priority⟩ := by decide +kernel
  exact ⟨parsed, (satisfied_iff_standbysAcked parsed).1.2 (by decide)⟩

/-- One standby stands for both entries. -/
theorem satisfied_by_one_standby : ∃ config, syncRepConfigParse "2 (*, *)".toList = some config ∧
    syncRepIsSatisfied config [⟨['a'], 1⟩] 1 ∧ config.numSync = 2 ∧
    standbysAcked config [⟨['a'], 1⟩] 1 = 1 :=
  ⟨⟨[['*'], ['*']], 2, .priority⟩, by decide +kernel, by decide, rfl, by decide⟩

end Pgcpp.Replication

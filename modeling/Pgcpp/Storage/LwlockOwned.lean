import Pgcpp.Storage.LwlockWord

/-!
# What a backend owns

What a backend has in its list of held locks is the number of its acquisitions,
except while it is between the change of a word and the change of the list.  A
step of a backend keeps this, and changes the word of a lock only when the
backend takes the lock or gives up the last of its acquisitions.
-/

namespace Pgcpp.Storage

open Function

variable {Λ : Type} [DecidableEq Λ]

/-! ## Lists of held locks -/

section

variable {held : List (HeldCount Λ)}

theorem map_lock_setHeldCount :
    (setHeldCount lock count held).map HeldCount.lock = held.map HeldCount.lock := by
  induction held with
  | nil => rfl
  | cons first _ ih =>
    by_cases same : first.lock = lock
    · simp [setHeldCount, same]
    · simp only [setHeldCount, same, if_false, List.map_cons, ih]

theorem findHeldCount_erase_self (distinct : (held.map HeldCount.lock).Nodup) :
    findHeldCount (eraseHeldCount held lock) lock = none := by
  induction held with
  | nil => rfl
  | cons first _ ih =>
    obtain ⟨notLater, distinctRest⟩ := List.nodup_cons.1 distinct
    by_cases same : first.lock = lock
    · simp only [findHeldCount, eraseHeldCount, List.eraseP_cons, same, List.find?_eq_none,
        decide_eq_true_eq]
      intro _ mem isLock
      apply notLater
      rw [same, ← isLock]
      exact List.mem_map_of_mem mem
    · simp only [findHeldCount, eraseHeldCount, List.eraseP_cons, same,
        decide_false, cond_false, List.find?_cons]
      exact ih distinctRest

theorem distinct_append (distinct : (held.map HeldCount.lock).Nodup)
    (free : findHeldCount held entry.lock = none) :
    ((held ++ [entry]).map HeldCount.lock).Nodup := by
  rw [List.map_append, List.map_singleton, ← List.concat_eq_append]
  apply distinct.concat
  intro mem
  obtain ⟨present, isMember, isLock⟩ := List.mem_map.1 mem
  have absent := List.find?_eq_none.1 free present isMember
  exact absent (by simpa using isLock)

end

/-! ## What a backend owns -/

/-- What a phase means for one lock. -/
inductive LwTouch where
  | off
  | push (mode : LWLockMode)
  | leave (mode : LWLockMode)
  | erase
  deriving DecidableEq

def LwPhase.touch (phase : LwPhase Λ) (lock : Λ) : LwTouch :=
  match phase with
  | .push target mode => if target = lock then .push mode else .off
  | .leave target mode => if target = lock then .leave mode else .off
  | .erase target => if target = lock then .erase else .off
  | _ => .off

theorem LwPhase.eq_push_of_touch {phase : LwPhase Λ} (touched : phase.touch lock = .push mode) :
    phase = .push lock mode := by
  cases phase <;> grind [touch]

theorem LwPhase.eq_erase_of_touch {phase : LwPhase Λ}
    (touched : phase.touch lock = .erase) : phase = .erase lock := by
  cases phase <;> grind [touch]

/-- The phase changes neither a word nor the list. -/
def LwPhase.Quiet (phase : LwPhase Λ) : Prop := ∀ lock, phase.touch lock = .off

/-- The phase, the entry in the list and the acquisitions not yet released. -/
inductive Owned : LwTouch → Option (HeldCount Λ) → List LWLockMode → Prop where
  | free : Owned .off none []
  | entering (mode : LWLockMode) : Owned (.push mode) none [mode]
  | held (entry : HeldCount Λ) (depth : Nat) (positive : 0 < depth) (bounded : depth < 2 ^ 31)
      (counted : entry.count = BitVec.ofNat 32 depth) :
      Owned .off (some entry) (List.replicate depth entry.mode)
  | leaving (entry : HeldCount Λ) : Owned (.leave entry.mode) (some entry) [entry.mode]
  | left (entry : HeldCount Λ) : Owned .erase (some entry) []

/-- A backend that looks for a shared lock does not hold it in that mode. -/
def LwPhase.wantsShared : LwPhase Λ → Option Λ
  | .loadState lock _ => some lock
  | .tryShared lock _ _ => some lock
  | _ => none

structure LocalOk (view : LwView Λ) : Prop where
  distinct : (view.held.map HeldCount.lock).Nodup
  owned : ∀ lock, Owned (view.phase.touch lock) (findHeldCount view.held lock) (view.pending lock)
  wanting : ∀ lock ∈ view.phase.wantsShared, .shared ∉ view.pending lock

namespace Owned

omit [DecidableEq Λ]

theorem eq_of_mem (owned : Owned touch entry pending) {left right : LWLockMode}
    (first : left ∈ pending) (second : right ∈ pending) : left = right := by
  cases owned with
  | free => contradiction
  | held entry _ _ _ _ => rw [List.eq_of_mem_replicate first, List.eq_of_mem_replicate second]
  | left entry => contradiction
  | _ => rw [List.mem_singleton.1 first, List.mem_singleton.1 second]

theorem none_of_nil (owned : Owned .off entry []) : entry = none := by
  generalize isNil : ([] : List LWLockMode) = pending at owned
  cases owned with
  | free => rfl
  | held entry _ pos _ _ =>
    have zero := congrArg List.length isNil
    rw [List.length_replicate] at zero
    exact absurd pos (by simp [← zero])

theorem of_push (owned : Owned (.push mode) found pending) : found = none ∧ pending = [mode] := by
  cases owned with
  | entering => exact ⟨rfl, rfl⟩

theorem of_leave (owned : Owned (.leave mode) found pending) :
    ∃ entry, found = some entry ∧ pending = [mode] := by
  cases owned with
  | leaving entry => exact ⟨entry, rfl, rfl⟩

theorem of_erase (owned : Owned .erase found pending) : pending = [] := by
  cases owned with
  | left _ => rfl

theorem mode_mem (owned : Owned .off (some found) pending) : found.mode ∈ pending := by
  cases owned with
  | held _ _ pos _ _ => exact List.mem_replicate.2 ⟨pos.ne', rfl⟩

theorem countUp (owned : Owned .off (some found) pending) (room : pending.length + 1 < 2 ^ 31) :
    Owned .off (some { found with count := found.count + 1 }) (found.mode :: pending) := by
  cases owned with
  | held _ depth _ _ counted =>
    rw [List.length_replicate] at room
    apply Owned.held { found with count := found.count + 1 } (depth + 1) (Nat.succ_pos depth) room
    rw [counted, BitVec.ofNat_add]
    rfl

theorem count_sub_one (counted : count = BitVec.ofNat 32 (less + 1)) :
    count - 1 = BitVec.ofNat 32 less := by
  apply BitVec.sub_eq_iff_eq_add.2
  rw [counted, BitVec.ofNat_add]
  rfl

theorem countDown (owned : Owned .off (some found) pending) (more : 0 < (found.count - 1).toInt) :
    Owned .off (some { found with count := found.count - 1 }) pending.tail ∧
      ∀ mode, mode ∈ pending.tail ↔ mode ∈ pending := by
  cases owned with
  | held _ _ pos _ counted =>
    obtain ⟨less, rfl⟩ := Nat.exists_eq_add_of_lt pos
    rw [Nat.zero_add] at *
    have lower := count_sub_one counted
    have notZero : less ≠ 0 := by
      rintro rfl
      rw [lower] at more
      contradiction
    constructor
    · apply Owned.held { found with count := found.count - 1 } less
        (Nat.pos_of_ne_zero notZero) (by omega)
      exact lower
    · intro mode
      simp [notZero]

theorem last {found : HeldCount Λ} (owned : Owned .off (some found) pending)
    (noMore : ¬0 < (found.count - 1).toInt) : pending = [found.mode] := by
  cases owned with
  | held _ _ pos _ counted =>
    obtain ⟨less, rfl⟩ := Nat.exists_eq_add_of_lt pos
    rw [Nat.zero_add] at *
    have lower := count_sub_one counted
    have small : (BitVec.ofNat 32 less).toInt = less := by
      have toNat : (BitVec.ofNat 32 less).toNat = less := by exact Nat.mod_eq_of_lt (by omega)
      rw [BitVec.toInt_eq_toNat_of_lt (by omega), toNat]
    rw [lower] at noMore
    have zero : less = 0 := by omega
    rw [zero]
    rfl

end Owned

/-! ## What one step does -/

/-- The word before and after an acquisition. -/
def Wins (mode : LWLockMode) (old new : BitVec 32) : Prop :=
  match mode with
  | .exclusive => old = 0 ∧ new = kExclusiveBit
  | .shared => old &&& kExclusiveBit = 0 ∧ new = old + 1

/-- What a step of a backend means for the others. -/
inductive LwEffect (view next : LwView Λ) : Prop where
  | steady (state : next.state = view.state)
      (pending : ∀ lock mode, mode ∈ next.pending lock ↔ mode ∈ view.pending lock)
  | won (lock : Λ) (mode : LWLockMode) (word : BitVec 32) (free : view.pending lock = [])
      (pending : next.pending = update view.pending lock [mode])
      (state : next.state = update view.state lock word) (wins : Wins mode (view.state lock) word)
  | gone (lock : Λ) (mode : LWLockMode) (last : view.pending lock = [mode])
      (pending : next.pending = update view.pending lock [])
      (state : next.state = update view.state lock (LwView.releasedState mode (view.state lock)))

/-- What the words promise to a backend. -/
structure WordHonest (view : LwView Λ) (lock : Λ) : Prop where
  zero : view.state lock = 0 → view.pending lock = []
  clear : view.state lock &&& kExclusiveBit = 0 → .exclusive ∉ view.pending lock

/-- The step keeps the backend's own state in order. -/
structure GoodStep (view next : LwView Λ) : Prop where
  ok : LocalOk next
  effect : LwEffect view next

namespace LocalOk

variable {view : LwView Λ}

section

variable (ok : LocalOk view)

include ok

theorem nil_of_absent (quiet : view.phase.touch lock = .off)
    (absent : findHeldCount view.held lock = none) : view.pending lock = [] := by
  have owned := ok.owned lock
  rw [quiet, absent] at owned
  generalize view.pending lock = pending at owned
  cases owned with
  | free => rfl

theorem withPhase (isPhase : view.phase = before) (quiet : before.Quiet) (after : phase.Quiet)
    (wanting : ∀ lock ∈ phase.wantsShared, .shared ∉ view.pending lock) :
    GoodStep view { view with phase := phase } := by
  refine ⟨⟨ok.distinct, ?_, wanting⟩, .steady rfl fun _ _ => Iff.rfl⟩
  intro lock
  rw [after lock, ← quiet lock, ← isPhase]
  exact ok.owned lock

theorem changed (lock : Λ) (distinct : (next.held.map HeldCount.lock).Nodup)
    (phase : ∀ other, other ≠ lock → next.phase.touch other = view.phase.touch other)
    (held : ∀ other, other ≠ lock → findHeldCount next.held other = findHeldCount view.held other)
    (pending : ∀ other, other ≠ lock → next.pending other = view.pending other)
    (owned : Owned (next.phase.touch lock) (findHeldCount next.held lock) (next.pending lock))
    (wanting : next.phase.wantsShared = none) : LocalOk next := by
  refine ⟨distinct, ?_, ?_⟩
  · intro other
    by_cases same : other = lock
    · rw [same]
      exact owned
    · rw [phase other same, held other same, pending other same]
      exact ok.owned other
  · intro other wants
    rw [wanting] at wants
    contradiction

section

variable (idle : view.phase = .idle)

include idle

theorem countUp (found : findHeldCount view.held lock = some entry)
    (room : (view.pending lock).length + 1 < 2 ^ 31) : GoodStep view (view.countUp entry) := by
  obtain rfl : entry.lock = lock := by simpa using List.find?_some found
  have quiet : view.phase.touch entry.lock = .off := by
    rw [idle]
    rfl
  have owned := ok.owned entry.lock
  rw [quiet, found] at owned
  constructor
  · apply ok.changed entry.lock
    · rw [LwView.countUp, map_lock_setHeldCount]
      exact ok.distinct
    · intro other _
      rfl
    · intro other ne
      exact findHeldCount_set_other ne
    · intro other ne
      exact update_of_ne ne ..
    · rw [LwView.countUp]
      dsimp only
      rw [quiet, findHeldCount_set_self _ found, update_self]
      exact owned.countUp room
    · rw [LwView.countUp, idle]
      rfl
  · refine .steady rfl ?_
    intro other _
    by_cases same : other = entry.lock
    · rw [LwView.countUp, same]
      dsimp only
      rw [update_self, List.mem_cons, or_iff_right_iff_imp]
      rintro rfl
      exact owned.mode_mem
    · rw [LwView.countUp]
      dsimp only
      rw [update_of_ne same]

theorem lwLockAcquire (room : (view.pending lock).length + 1 < 2 ^ 31) :
    GoodStep view (view.lwLockAcquire lock mode) := by
  have quiet : view.phase.touch lock = .off := by
    rw [idle]
    rfl
  have unchanged : GoodStep view view := ⟨ok, .steady rfl fun _ _ => Iff.rfl⟩
  rw [LwView.lwLockAcquire.eq_def]
  cases found : findHeldCount view.held lock with
  | some _ =>
    dsimp only
    split_ifs with sameMode
    · exact ok.countUp idle found room
    · exact unchanged
  | none =>
    have free := ok.nil_of_absent quiet found
    cases mode with
    | exclusive =>
      apply ok.withPhase idle (fun _ => rfl) (fun _ => rfl)
      intro wanted wants
      contradiction
    | shared =>
      apply ok.withPhase idle (fun _ => rfl) (fun _ => rfl)
      intro wanted wants
      obtain rfl := Option.mem_some_iff.1 wants
      rw [free]
      exact List.not_mem_nil

theorem lwLockConditionalAcquire (room : (view.pending lock).length + 1 < 2 ^ 31) :
    GoodStep view (view.lwLockConditionalAcquire lock mode) := by
  have quiet : view.phase.touch lock = .off := by
    rw [idle]
    rfl
  have attempt (notHeld : mode ∉ view.pending lock) :
      GoodStep view (view.conditionalAttempt lock mode) := by
    cases mode with
    | exclusive =>
      apply ok.withPhase idle (fun _ => rfl) (fun _ => rfl)
      intro wanted wants
      contradiction
    | shared =>
      apply ok.withPhase idle (fun _ => rfl) (fun _ => rfl)
      intro wanted wants
      obtain rfl := Option.mem_some_iff.1 wants
      exact notHeld
  rw [LwView.lwLockConditionalAcquire]
  cases found : findHeldCount view.held lock with
  | some _ =>
    dsimp only
    split_ifs with sameMode
    · exact ok.countUp idle found room
    apply attempt
    intro holds
    have owned := ok.owned lock
    rw [quiet, found] at owned
    exact sameMode (owned.eq_of_mem owned.mode_mem holds)
  | none =>
    apply attempt
    rw [ok.nil_of_absent quiet found]
    exact List.not_mem_nil

theorem lwLockRelease : GoodStep view (view.lwLockRelease lock) := by
  have quiet : view.phase.touch lock = .off := by
    rw [idle]
    rfl
  rw [LwView.lwLockRelease]
  cases found : findHeldCount view.held lock with
  | none => exact ⟨ok, .steady rfl fun _ _ => Iff.rfl⟩
  | some entry =>
    have owned := ok.owned lock
    rw [quiet, found] at owned
    have distinct : ((setHeldCount lock (entry.count - 1) view.held).map HeldCount.lock).Nodup := by
      rw [map_lock_setHeldCount]
      exact ok.distinct
    have counted := findHeldCount_set_self (entry.count - 1) found
    dsimp only
    split_ifs with more
    · obtain ⟨fewer, sameModes⟩ := owned.countDown more
      constructor
      · apply ok.changed lock distinct
        · intro other _
          rfl
        · intro other ne
          exact findHeldCount_set_other ne
        · intro other ne
          exact update_of_ne ne ..
        · dsimp only
          rw [quiet, counted, update_self]
          exact fewer
        · rw [idle]
          rfl
      · refine .steady rfl ?_
        intro other mode
        dsimp only
        by_cases same : other = lock
        · rw [same, update_self]
          exact sameModes mode
        · rw [update_of_ne same]
    · have last := owned.last more
      constructor
      · apply ok.changed lock distinct
        · intro other ne
          rw [idle]
          exact if_neg ne.symm
        · intro other ne
          exact findHeldCount_set_other ne
        · intro other _
          rfl
        · rw [counted, last, LwPhase.touch, if_pos rfl]
          exact Owned.leaving { entry with count := entry.count - 1 }
        · rfl
      · exact .steady rfl fun _ _ => Iff.rfl

end

theorem win (isPhase : view.phase = before) (quiet : before.Quiet)
    (free : view.pending lock = []) (wins : Wins mode (view.state lock) word) :
    GoodStep view (view.win lock mode word) := by
  have only : mode :: view.pending lock = [mode] := by rw [free]
  have owned := ok.owned lock
  rw [isPhase, quiet lock, free] at owned
  rw [LwView.win, only]
  constructor
  · apply ok.changed lock
    · exact ok.distinct
    · intro other ne
      rw [isPhase, quiet other]
      exact if_neg ne.symm
    · intro other _
      rfl
    · intro other ne
      exact update_of_ne ne ..
    · dsimp only
      rw [owned.none_of_nil, update_self, LwPhase.touch, if_pos rfl]
      exact Owned.entering mode
    · rfl
  · exact .won lock mode word free rfl rfl wins

theorem push (pushing : view.phase = .push lock mode) : GoodStep view { view with
      phase := .idle, held := view.held ++ [{ lock := lock, mode := mode, count := 1 }] } := by
  have touched : view.phase.touch lock = .push mode := by
    rw [pushing]
    exact if_pos rfl
  have owned := ok.owned lock
  rw [touched] at owned
  obtain ⟨absent, only⟩ := owned.of_push
  refine ⟨?_, .steady rfl fun _ _ => Iff.rfl⟩
  apply ok.changed lock (distinct_append ok.distinct absent)
  · intro other ne
    rw [pushing]
    exact (if_neg ne.symm).symm
  · intro other ne
    simp [findHeldCount, ne.symm]
  · intro other _
    rfl
  · rw [findHeldCount_append_self absent rfl, only]
    exact Owned.held _ 1 Nat.one_pos (by decide) rfl
  · rfl

theorem leave (leaving : view.phase = .leave lock mode) : GoodStep view { view with
      state := update view.state lock (LwView.releasedState mode (view.state lock))
      phase := .erase lock, pending := update view.pending lock (view.pending lock).tail } := by
  have touched : view.phase.touch lock = .leave mode := by
    rw [leaving]
    exact if_pos rfl
  have owned := ok.owned lock
  rw [touched] at owned
  obtain ⟨entry, found, only⟩ := owned.of_leave
  have tail : (view.pending lock).tail = [] := by
    rw [only]
    rfl
  rw [tail]
  constructor
  · apply ok.changed lock
    · exact ok.distinct
    · intro other ne
      rw [leaving]
      exact (if_neg ne.symm).trans (if_neg ne.symm).symm
    · intro other _
      rfl
    · intro other ne
      exact update_of_ne ne ..
    · dsimp only
      rw [found, update_self, LwPhase.touch, if_pos rfl]
      exact Owned.left entry
    · rfl
  · exact .gone lock mode only rfl rfl

theorem erase (erasing : view.phase = .erase lock) : GoodStep view { view with
      phase := .idle, held := eraseHeldCount view.held lock } := by
  have touched : view.phase.touch lock = .erase := by
    rw [erasing]
    exact if_pos rfl
  have owned := ok.owned lock
  rw [touched] at owned
  have free := owned.of_erase
  refine ⟨?_, .steady rfl fun _ _ => Iff.rfl⟩
  apply ok.changed lock
  · apply List.Nodup.sublist _ ok.distinct
    exact List.eraseP_sublist.map HeldCount.lock
  · intro other ne
    rw [erasing]
    exact (if_neg ne.symm).symm
  · intro other ne
    exact findHeldCount_erase_other ne
  · intro other _
    rfl
  · rw [findHeldCount_erase_self ok.distinct, free]
    exact Owned.free
  · rfl

theorem proceed (honest : ∀ lock, WordHonest view lock)
    (acted : view.proceed spurious = some next) : GoodStep view next := by
  rw [LwView.proceed.eq_def] at acted
  have wanting := ok.wanting
  cases phase : view.phase <;> rw [phase] at acted wanting
  case idle => contradiction
  all_goals cases acted
  case spinExclusive lock =>
    split_ifs with winning
    · exact ok.win phase (fun _ => rfl) ((honest lock).zero winning.1) ⟨winning.1, rfl⟩
    · exact ⟨ok, .steady rfl fun _ _ => Iff.rfl⟩
  case tryExclusive lock =>
    split_ifs with winning
    · exact ok.win phase (fun _ => rfl) ((honest lock).zero winning) ⟨winning, rfl⟩
    apply ok.withPhase phase (fun _ => rfl) (fun _ => rfl)
    intro wanted wants
    contradiction
  case loadState => exact ok.withPhase phase (fun _ => rfl) (fun _ => rfl) wanting
  case tryShared lock conditional _ =>
    split_ifs with busy isConditional winning
    · apply ok.withPhase phase (fun _ => rfl) (fun _ => rfl)
      intro wanted wants
      contradiction
    · exact ok.withPhase phase (fun _ => rfl) (fun _ => rfl) wanting
    · obtain ⟨rfl, -⟩ := winning
      have clear := not_not.1 busy
      have free : view.pending lock = [] := by
        apply List.eq_nil_iff_forall_not_mem.2
        intro mode
        cases mode with
        | exclusive => exact (honest lock).clear clear
        | shared => exact wanting lock rfl
      exact ok.win phase (fun _ => rfl) free ⟨clear, rfl⟩
    · exact ok.withPhase phase (fun _ => rfl) (fun _ => rfl) wanting
  case push => exact ok.push phase
  case leave => exact ok.leave phase
  case erase => exact ok.erase phase

end

end LocalOk

end Pgcpp.Storage

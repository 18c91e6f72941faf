import Pgcpp.Storage.MdSegments

/-!
# Segment files as arrays of blocks

The files of a relation hold the blocks of its arrays, and the entries for the
descriptors reach as far as the segments.  Every call that does not lose sight
of a segment keeps this and returns what it returns on the arrays.
-/

namespace Pgcpp.Storage

open Lib Function MdM MdCall
open List hiding after all count length

variable (blocks : List MdBlock)

/-- The bytes of the blocks that belong to a segment. -/
def segmentBytes (segno : Nat) : List UInt8 :=
  ((segment kRelSegSize blocks segno).map MdBlock.bytes).flatten

theorem sized_bytes : ∀ bytes ∈ blocks.map MdBlock.bytes, bytes.length = kBlckSz := by
  intro bytes mem
  obtain ⟨block, -, rfl⟩ := mem_map.1 mem
  exact block.size

theorem kRelSegSize_pos : 0 < kRelSegSize := Nat.succ_pos 131071

theorem kBlckSz_pos : 0 < kBlckSz := Nat.succ_pos 8191

theorem length_segmentBytes (segno : Nat) : (segmentBytes blocks segno).length =
      min kRelSegSize (blocks.length - segno * kRelSegSize) * kBlckSz := by
  rw [segmentBytes, length_flatten_of_sized (sized_bytes _), length_map, length_segment]

namespace SmgrRelationData

/-- The files have the blocks of the arrays.  Beyond the first segment only the
segments that the process has entries for are found. -/
structure Represents (rel : SmgrRelationData) (arrays : MdArrays) : Prop where
  stored : ∀ fork segno, rel.content fork segno = segmentBytes (arrays fork) segno
  known : ∀ fork, (arrays fork).length ≤ max (rel.mdFd fork).length 1 * kRelSegSize
  small : ∀ fork, (arrays fork).length < 2 ^ 32

variable {rel after : SmgrRelationData} {arrays : MdArrays} {fork : MdFork}

theorem represents_initial (created : MdFork → Bool) :
    (initial created).Represents fun _ => [] := by
  refine ⟨?_, fun fork => Nat.zero_le _, fun fork => Nat.two_pow_pos 32⟩
  intro fork segno
  have nothing : segmentBytes [] segno = [] := by
    rw [segmentBytes, segment_eq_nil (Nat.zero_le _)]
    rfl
  rw [nothing, content, initial]
  dsimp only
  split <;> rfl

/-! ## Opening a segment -/

/-- An entry is opened; the bytes are the same. -/
structure Opens (rel : SmgrRelationData) (fork : MdFork) (segno : Nat)
    (after : SmgrRelationData) : Prop where
  content : ∀ other place, after.content other place = rel.content other place
  others : ∀ other, other ≠ fork → after.mdFd other = rel.mdFd other
  entries : (after.mdFd fork).length = max (rel.mdFd fork).length (segno + 1)

theorem length_mdEnsureSegments : ((rel.mdEnsureSegments fork segno).mdFd fork).length =
      max (rel.mdFd fork).length (segno + 1) := by
  rw [mdEnsureSegments]
  dsimp only
  rw [update_self, length_append, length_replicate]
  omega

theorem opens_mdEnsureSegments : rel.Opens fork segno (rel.mdEnsureSegments fork segno) := by
  refine ⟨fun _ _ => rfl, ?_, length_mdEnsureSegments⟩
  intro _ ne
  exact update_of_ne ne ..

theorem Opens.setOpen (opens : rel.Opens fork segno after)
    (found : (after.files fork segno).isSome) :
    rel.Opens fork segno (after.setOpen fork segno found) := by
  refine ⟨opens.content, ?_, ?_⟩
  · intro other ne
    rw [← opens.others other ne]
    exact update_of_ne ne ..
  · rw [← opens.entries, SmgrRelationData.setOpen]
    dsimp only
    rw [update_self, length_set]

theorem content_setContent : (rel.setContent fork segno bytes).content other place =
      if other = fork ∧ place = segno then bytes else rel.content other place := by
  rw [content, files_setContent]
  split_ifs <;> rfl

theorem opens_mdGetFd {create : Bool} (found : create ∨ (rel.files fork segno).isSome) :
    ∃ after, mdGetFd fork segno create rel = .ok () after ∧ rel.Opens fork segno after := by
  have ensured := @opens_mdEnsureSegments rel fork segno
  rw [mdGetFd]
  split_ifs with isOpen isThere mayCreate
  · exact ⟨_, rfl, ensured⟩
  · exact ⟨_, rfl, ensured.setOpen isThere⟩
  · have created : rel.Opens fork segno
        ((rel.mdEnsureSegments fork segno).setContent fork segno []) := by
      refine ⟨?_, ensured.others, ensured.entries⟩
      intro other place
      rw [content_setContent]
      split_ifs with here
      · obtain ⟨rfl, rfl⟩ := here
        have absent : rel.files other place = none := Option.not_isSome_iff_eq_none.1 isThere
        rw [content, absent]
        rfl
      · rfl
    exact ⟨_, rfl, created.setOpen _⟩
  · rcases found with may | exists_
    · exact absurd may mayCreate
    · exact absurd exists_ isThere

theorem Represents.of_opens (represents : rel.Represents arrays)
    (opens : rel.Opens fork segno after) : after.Represents arrays := by
  refine ⟨?_, ?_, represents.small⟩
  · intro other _
    rw [opens.content, represents.stored]
  intro other
  apply Nat.le_trans (represents.known other)
  apply Nat.mul_le_mul_right
  by_cases same : other = fork
  · rw [same, opens.entries]
    omega
  · rw [opens.others other same]

theorem Represents.isSome_files (represents : rel.Represents arrays)
    (inside : segno * kRelSegSize < (arrays fork).length) : (rel.files fork segno).isSome := by
  have length := length_segmentBytes (arrays fork) segno
  rw [← represents.stored fork segno, content] at length
  cases found : rel.files fork segno with
  | some _ => rfl
  | none =>
    rw [found] at length
    have pos : 0 < min kRelSegSize ((arrays fork).length - segno * kRelSegSize) * kBlckSz :=
      Nat.mul_pos (Nat.lt_min.2 ⟨kRelSegSize_pos, by omega⟩) kBlckSz_pos
    rw [← length] at pos
    exact absurd pos (Nat.lt_irrefl 0)

variable {blocks : List MdBlock}

theorem Represents.setContent (represents : rel.Represents arrays)
    (here : bytes = segmentBytes blocks segno) (elsewhere : ∀ place, place ≠ segno →
      segmentBytes blocks place = segmentBytes (arrays fork) place)
    (known : blocks.length ≤ max (rel.mdFd fork).length 1 * kRelSegSize)
    (small : blocks.length < 2 ^ 32) :
    (rel.setContent fork segno bytes).Represents (update arrays fork blocks) := by
  constructor
  · intro other place
    rw [content_setContent]
    by_cases sameFork : other = fork
    · subst sameFork
      rw [update_self]
      by_cases samePlace : place = segno
      · rw [if_pos ⟨rfl, samePlace⟩, samePlace, here]
      · rw [if_neg (fun both => samePlace both.2), elsewhere place samePlace, represents.stored]
    · rw [if_neg (fun both => sameFork both.1), update_of_ne sameFork, represents.stored]
  · exact (forall_update_iff arrays fun other blocks =>
      blocks.length ≤ max (rel.mdFd other).length 1 * kRelSegSize).2
        ⟨known, fun other _ => represents.known other⟩
  · exact (forall_update_iff arrays fun _ blocks => blocks.length < 2 ^ 32).2
      ⟨small, fun other _ => represents.small other⟩

theorem writeAt_of_le (inside : offset ≤ file.length) : writeAt file offset buffer =
      file.take offset ++ (buffer ++ file.drop (offset + buffer.length)) := by
  rw [writeAt, Nat.sub_eq_zero_of_le inside, replicate_zero, append_nil]

theorem truncateAt_of_le (inside : length ≤ file.length) :
    truncateAt file length = file.take length := by
  rw [truncateAt, Nat.sub_eq_zero_of_le inside, replicate_zero, append_nil]

theorem fileReadBlock_ok
    (slice : ((rel.content fork segno).drop offset).take kBlckSz = block.bytes) :
    fileReadBlock fork segno offset rel = .ok block rel := by
  obtain ⟨bytes, size⟩ := block
  subst slice
  exact dif_pos size

theorem bind_ok {next : α → MdM β}
    (ok : call rel = .ok value after) : (call >>= next) rel = next value after := by
  change EStateM.bind call next rel = _
  rw [EStateM.bind, ok]

variable {blockNum : BlockNumber}

section

variable (represents : rel.Represents arrays)

include represents

theorem Represents.opened (bound : place < (arrays fork).length) :
    ∃ after, mdGetFd fork (place / kRelSegSize) false rel = .ok () after ∧
      after.Represents arrays := by
  have inside := Nat.lt_of_le_of_lt (Nat.div_mul_le_self place kRelSegSize) bound
  obtain ⟨after, opened, opens⟩ := @opens_mdGetFd rel fork (place / kRelSegSize) false
    (.inr (represents.isSome_files inside))
  exact ⟨after, opened, represents.of_opens opens⟩

theorem Represents.mdread (found : (arrays fork)[blockNum.toNat]? = some block) :
    ∃ after, mdread fork blockNum rel = .ok block after ∧ after.Represents arrays := by
  obtain ⟨bound, -⟩ := List.getElem?_eq_some_iff.1 found
  obtain ⟨after, opened, representsAfter⟩ := represents.opened bound
  refine ⟨after, ?_, representsAfter⟩
  rw [SmgrRelationData.mdread, bind_ok opened]
  apply fileReadBlock_ok
  rw [representsAfter.stored]
  apply slice_flatten_of_sized (sized_bytes _)
  rw [getElem?_map, getElem?_segment_div kRelSegSize_pos, found]
  rfl

theorem Represents.mdwrite (bound : blockNum.toNat < (arrays fork).length) (block : MdBlock) :
    ∃ after, mdwrite fork blockNum block rel = .ok () after ∧ after.Represents (update arrays fork
        ((arrays fork).set blockNum.toNat block)) := by
  obtain ⟨after, opened, representsAfter⟩ := represents.opened bound
  rw [SmgrRelationData.mdwrite, bind_ok opened]
  refine ⟨_, rfl, ?_⟩
  have place : blockNum.toNat % kRelSegSize < (segment kRelSegSize (arrays fork)
        (blockNum.toNat / kRelSegSize)).length := by
    apply (List.getElem?_eq_some_iff.1 _).1
    · exact (arrays fork)[blockNum.toNat]
    · rw [getElem?_segment_div kRelSegSize_pos]
      exact getElem?_eq_getElem bound
  apply representsAfter.setContent
  · rw [representsAfter.stored, writeAt_of_le, block.size, segmentBytes,
      flatten_set_of_sized (sized_bytes _), segmentBytes, segment_set_self, map_set]
    · rw [length_map]
      exact place
    · rw [segmentBytes, length_flatten_of_sized (sized_bytes _), length_map]
      exact Nat.mul_le_mul_right _ place.le
  · intro _ ne
    rw [segmentBytes, segment_set_of_ne kRelSegSize_pos (Ne.symm ne), segmentBytes]
  · rw [length_set]
    exact representsAfter.known fork
  · rw [length_set]
    exact representsAfter.small fork

theorem Represents.mdextend (isEnd : blockNum.toNat = (arrays fork).length)
    (valid : blockNum.toNat ≠ kInvalidBlockNumber) (block : MdBlock) :
    ∃ after, mdextend fork blockNum block rel = .ok () after ∧
      after.Represents (update arrays fork (arrays fork ++ [block])) := by
  obtain ⟨after, opened, opens⟩ := @opens_mdGetFd rel fork
    (blockNum.toNat / kRelSegSize) true (.inl rfl)
  have representsAfter := represents.of_opens opens
  rw [SmgrRelationData.mdextend, bind_ok opened]
  refine ⟨_, rfl, ?_⟩
  rw [isEnd] at opens valid ⊢
  have remainder : (arrays fork).length - (arrays fork).length / kRelSegSize * kRelSegSize =
      (arrays fork).length % kRelSegSize := by
    rw [mul_comm]
    exact (Nat.mod_eq_sub_mul_div).symm
  have length : (segmentBytes (arrays fork) ((arrays fork).length / kRelSegSize)).length =
      (arrays fork).length % kRelSegSize * kBlckSz := by
    rw [length_segmentBytes, remainder, min_eq_right]
    exact Nat.le_of_lt (Nat.mod_lt _ kRelSegSize_pos)
  apply representsAfter.setContent
  · rw [representsAfter.stored, writeAt_of_le (Nat.le_of_eq length.symm),
      take_of_length_le (Nat.le_of_eq length), drop_eq_nil_of_le, append_nil]
    · rw [segmentBytes, segmentBytes, segment_concat_self kRelSegSize_pos, map_append,
        flatten_append, map_singleton, flatten_singleton]
    · rw [length]
      exact Nat.le_add_right ..
  · intro _ ne
    rw [segmentBytes, segment_concat_of_ne kRelSegSize_pos _ (Ne.symm ne), segmentBytes]
  · rw [length_append, length_singleton, opens.entries]
    rw [kRelSegSize]
    omega
  rw [length_append, length_singleton]
  rw [kInvalidBlockNumber] at valid
  omega

/-! ## The number of blocks -/

end

theorem eq_nil_of_files_none (stored : rel.content fork segno = segmentBytes blocks segno)
    (absent : rel.files fork segno = none) : blocks.length ≤ segno * kRelSegSize := by
  have length := length_segmentBytes blocks segno
  rw [← stored, content, absent] at length
  simp only [Option.getD_none, length_nil, kRelSegSize, kBlckSz] at length ⊢
  omega

section

variable (stored : ∀ segno, rel.content fork segno = segmentBytes blocks segno)

include stored

theorem countBlocks_eq (entries : List Bool) (segno : Nat) :
    rel.countBlocks fork segno entries (BitVec.ofNat 32 (min blocks.length (segno * kRelSegSize))) =
      BitVec.ofNat 32 (min blocks.length ((segno + entries.length) * kRelSegSize)) := by
  induction entries generalizing segno with
  | nil => rfl
  | cons _ _ ih =>
    have later := ih (segno + 1)
    rw [add_assoc, add_comm 1] at later
    rw [countBlocks, length_cons]
    cases found : rel.files fork segno with
    | none =>
      -- The segments that follow have no blocks either.
      have all := eq_nil_of_files_none (stored segno) found
      have whole (count : Nat) : min blocks.length
          ((segno + count) * kRelSegSize) = blocks.length := by
        apply min_eq_left
        apply Nat.le_trans all
        exact Nat.mul_le_mul_right _ (Nat.le_add_right ..)
      rw [whole 1, whole] at later
      rw [whole, min_eq_left all]
      split_ifs
      · exact later
      · rfl
    | some file =>
      have length := length_segmentBytes blocks segno
      rw [← stored, content, found, Option.getD_some] at length
      have total : min blocks.length (segno * kRelSegSize) + file.length / kBlckSz =
          min blocks.length ((segno + 1) * kRelSegSize) := by
        rw [length, Nat.mul_div_cancel _ kBlckSz_pos, Nat.add_mul, one_mul]
        omega
      dsimp only
      rw [← BitVec.ofNat_add, total, later]

theorem mdnblocks_eq : mdnblocks fork rel = .ok (BitVec.ofNat 32 (min blocks.length
        (max (rel.mdFd fork).length 1 * kRelSegSize))) rel := by
  have counted := countBlocks_eq stored (rel.mdFd fork) 0
  rw [zero_mul, Nat.min_zero, zero_add] at counted
  rw [mdnblocks]
  congr 1
  cases entries : rel.mdFd fork with
  | nil =>
    have first := countBlocks_eq stored [true] 0
    rw [zero_mul, Nat.min_zero, countBlocks] at first
    cases found : rel.files fork 0 with
    | none =>
      rw [found] at first
      exact first
    | some _ =>
      rw [found] at first
      dsimp only [countBlocks] at first
      rw [BitVec.zero_add] at first
      exact first
  | cons _ rest =>
    rw [entries] at counted
    rw [Nat.max_eq_left]
    · exact counted
    · exact Nat.succ_pos rest.length

end

section

variable (represents : rel.Represents arrays)

include represents

theorem Represents.mdnblocks (fork : MdFork) :
    mdnblocks fork rel = .ok (BitVec.ofNat 32 (arrays fork).length) rel := by
  rw [mdnblocks_eq (represents.stored fork), min_eq_left (represents.known fork)]

theorem Represents.closeFork (single : (arrays fork).length ≤ kRelSegSize) :
    (rel.closeFork fork).Represents arrays := by
  refine ⟨represents.stored, ?_, represents.small⟩
  intro other
  rw [SmgrRelationData.closeFork]
  dsimp only
  by_cases same : other = fork
  · rw [same, update_self]
    exact single.trans_eq (one_mul kRelSegSize).symm
  · rw [update_of_ne same]
    exact represents.known other

theorem Represents.mdrelease (single : ∀ fork, (arrays fork).length ≤ kRelSegSize) :
    ∃ after, mdrelease rel = .ok () after ∧ after.Represents arrays := by
  have closes (forks : List MdFork) (rel : SmgrRelationData) (represents : rel.Represents arrays) :
      ∃ after, forks.forM mdclose rel = .ok () after ∧ after.Represents arrays := by
    induction forks generalizing rel with
    | nil => exact ⟨rel, rfl, represents⟩
    | cons fork _ ih =>
      obtain ⟨after, closed, kept⟩ := ih _ (represents.closeFork (single fork))
      exact ⟨after, closed, kept⟩
  exact closes _ rel represents

end

theorem length_unlinkSegment :
    ((rel.unlinkSegment fork segno).mdFd other).length = (rel.mdFd other).length := by
  rw [unlinkSegment]
  dsimp only
  by_cases same : other = fork
  · rw [same, update_self, length_set]
  · rw [update_of_ne same]

theorem content_removeSegments : (removeSegments fork lastSeg count rel).content other place =
      if other = fork ∧ lastSeg < place ∧ place < count then [] else rel.content other place := by
  induction count generalizing rel with
  | zero =>
    rw [if_neg (fun all => Nat.not_lt_zero _ all.2.2)]
    rfl
  | succ segno ih =>
    rw [removeSegments]
    by_cases beyond : lastSeg < segno
    · rw [if_pos beyond, ih, content, files_unlinkSegment]
      by_cases here : other = fork ∧ place = segno
      · obtain ⟨rfl, rfl⟩ := here
        rw [if_neg (fun all => Nat.lt_irrefl _ all.2.2), if_pos ⟨rfl, rfl⟩,
          if_pos ⟨rfl, beyond, Nat.lt_succ_self place⟩]
        rfl
      rw [if_neg here]
      apply if_congr _ rfl rfl
      constructor
      · intro ⟨same, after, before⟩
        exact ⟨same, after, Nat.lt_succ_of_lt before⟩
      intro ⟨same, after, before⟩
      refine ⟨same, after, Nat.lt_of_le_of_ne (Nat.le_of_lt_succ before) ?_⟩
      exact fun isLast => here ⟨same, isLast⟩
    · rw [if_neg beyond, if_neg]
      intro ⟨_, after, before⟩
      omega

theorem length_removeSegments :
    ((removeSegments fork lastSeg count rel).mdFd other).length = (rel.mdFd other).length := by
  induction count generalizing rel with
  | zero => rfl
  | succ _ ih =>
    rw [removeSegments]
    split_ifs
    · rw [ih, length_unlinkSegment]
    · rfl

theorem Represents.truncated (represents : rel.Represents arrays)
    (lengths : ∀ other, (after.mdFd other).length = (rel.mdFd other).length)
    (others : ∀ other place, other ≠ fork → after.content other place = rel.content other place)
    (here : ∀ place, after.content fork place = segmentBytes ((arrays fork).take count) place) :
    after.Represents (update arrays fork ((arrays fork).take count)) := by
  have shorter (other : MdFork) : (update arrays fork ((arrays fork).take count) other).length ≤
        (arrays other).length := by
    by_cases same : other = fork
    · rw [same, update_self]
      exact length_take_le' _ _
    · rw [update_of_ne same]
  refine ⟨?_, ?_, ?_⟩
  · intro other place
    by_cases same : other = fork
    · rw [same, update_self, here]
    · rw [update_of_ne same, others other place same, represents.stored]
  · intro other
    rw [lengths]
    exact Nat.le_trans (shorter other) (represents.known other)
  · intro other
    exact Nat.lt_of_le_of_lt (shorter other) (represents.small other)

theorem segmentBytes_take :
    segmentBytes (blocks.take count) place = (segmentBytes blocks place).take
        ((count - place * kRelSegSize) * kBlckSz) := by
  rw [segmentBytes, segmentBytes, take_flatten_of_sized (sized_bytes _), segment_take, map_take]

theorem segmentBytes_take_of_le (whole : (place + 1) * kRelSegSize ≤ count) :
    segmentBytes (blocks.take count) place = segmentBytes blocks place := by
  rw [segmentBytes_take, take_of_length_le]
  rw [length_segmentBytes]
  apply Nat.mul_le_mul_right
  rw [Nat.add_mul] at whole
  omega

theorem segmentBytes_take_of_ge (none : count ≤ place * kRelSegSize) :
    segmentBytes (blocks.take count) place = [] := by
  rw [segmentBytes_take, Nat.sub_eq_zero_of_le none, zero_mul, take_zero]

section

variable (represents : rel.Represents arrays)

include represents

theorem Represents.content_eq_nil (pos : 0 < place) (unknown : (rel.mdFd fork).length ≤ place) :
    rel.content fork place = [] := by
  have known := represents.known fork
  rw [represents.stored, segmentBytes, segment_eq_nil]
  · rfl
  apply Nat.le_trans known
  apply Nat.mul_le_mul_right
  omega

theorem Represents.mdtruncate_inside {blocks : BlockNumber}
    (shorter : blocks.toNat ≤ (arrays fork).length) (inside : blocks.toNat % kRelSegSize ≠ 0) :
    ∃ after, mdtruncate fork blocks rel = .ok () after ∧
      after.Represents (update arrays fork ((arrays fork).take blocks.toNat)) := by
  generalize count : blocks.toNat = n at shorter inside ⊢
  have parts := Nat.div_add_mod' n kRelSegSize
  have small := Nat.mod_lt n kRelSegSize_pos
  have rest : n - n / kRelSegSize * kRelSegSize = n % kRelSegSize := by omega
  obtain ⟨opened, isOpened, opens⟩ := @opens_mdGetFd rel fork (n / kRelSegSize) false
    (.inr (represents.isSome_files (by omega)))
  have representsOpened := represents.of_opens opens
  have cut : cutSegment fork (n / kRelSegSize) (n % kRelSegSize) rel =
      .ok () (opened.setContent fork (n / kRelSegSize)
        (truncateAt (opened.content fork (n / kRelSegSize)) (n % kRelSegSize * kBlckSz))) := by
    rw [cutSegment, if_pos (Nat.pos_of_ne_zero inside), bind_ok isOpened]
    rfl
  rw [mdtruncate, count, bind_ok cut]
  refine ⟨_, rfl, ?_⟩
  dsimp only
  rw [if_neg (fun both => inside both.1)]
  apply representsOpened.truncated
  · intro other
    exact length_removeSegments
  · intro other place ne
    rw [content_removeSegments, if_neg (fun all => ne all.1),
      content_setContent, if_neg (fun both => ne both.1)]
  intro place
  rw [content_removeSegments]
  rcases Nat.lt_trichotomy place (n / kRelSegSize) with before | same | after
  · rw [if_neg (by omega), content_setContent, if_neg (by omega),
      representsOpened.stored, segmentBytes_take_of_le]
    exact Nat.le_trans (Nat.mul_le_mul_right kRelSegSize before) (Nat.div_mul_le_self n kRelSegSize)
  · rw [if_neg (by omega), content_setContent, if_pos ⟨rfl, same⟩, truncateAt_of_le,
      representsOpened.stored, segmentBytes_take, same, rest]
    rw [representsOpened.stored, length_segmentBytes]
    apply Nat.mul_le_mul_right
    omega
  have pos : 0 < place := Nat.zero_lt_of_lt after
  have beyond := Nat.mul_le_mul_right kRelSegSize after
  rw [Nat.succ_mul] at beyond
  rw [segmentBytes_take_of_ge (by omega)]
  split_ifs with known
  · rfl
  rw [content_setContent, if_neg (by omega)]
  apply representsOpened.content_eq_nil pos
  by_contra short
  exact known ⟨rfl, after, Nat.lt_of_not_le short⟩

theorem Represents.mdtruncate_start {blocks : BlockNumber} (start : blocks.toNat % kRelSegSize = 0)
    (pos : blocks.toNat ≠ 0) :
    ∃ after, mdtruncate fork blocks rel = .ok () after ∧ after.Represents (update arrays fork
        ((arrays fork).take (blocks.toNat + kRelSegSize))) := by
  generalize count : blocks.toNat = n at start pos ⊢
  have parts := Nat.div_add_mod' n kRelSegSize
  have cut : cutSegment fork (n / kRelSegSize) (n % kRelSegSize) rel = .ok () rel := by
    rw [cutSegment, if_neg (by omega)]
    rfl
  rw [mdtruncate, count, bind_ok cut]
  refine ⟨_, rfl, ?_⟩
  have notFirst : n / kRelSegSize ≠ 0 := by
    intro first
    rw [first] at parts
    omega
  dsimp only
  rw [if_neg (fun both => notFirst both.2)]
  apply represents.truncated
  · intro other
    exact length_removeSegments
  · intro other place ne
    rw [content_removeSegments, if_neg (fun all => ne all.1)]
  intro place
  rw [content_removeSegments]
  by_cases after : n / kRelSegSize < place
  · have pos : 0 < place := Nat.zero_lt_of_lt after
    have beyond := Nat.mul_le_mul_right kRelSegSize after
    rw [Nat.succ_mul] at beyond
    rw [segmentBytes_take_of_ge (by omega)]
    split_ifs with known
    · rfl
    apply represents.content_eq_nil pos
    by_contra short
    exact known ⟨rfl, after, Nat.lt_of_not_le short⟩
  · have whole := Nat.mul_le_mul_right kRelSegSize (Nat.le_of_not_lt after)
    rw [if_neg (fun all => after all.2.1), represents.stored, segmentBytes_take_of_le]
    rw [Nat.add_mul]
    omega

theorem Represents.mdtruncate_zero {blocks : BlockNumber} (zero : blocks.toNat = 0) :
    ∃ after, mdtruncate fork blocks rel = .ok () after ∧
      after.Represents (update arrays fork ((arrays fork).take 0)) := by
  rw [mdtruncate, zero]
  refine ⟨_, rfl, ?_⟩
  dsimp only
  rw [if_pos ⟨rfl, rfl⟩]
  apply represents.truncated
  · intro other
    rw [length_unlinkSegment, length_removeSegments]
  · intro other place ne
    rw [content, files_unlinkSegment, if_neg (fun both => ne both.1),
      ← content, content_removeSegments, if_neg (fun all => ne all.1)]
  intro place
  rw [segmentBytes_take_of_ge (Nat.zero_le _), content, files_unlinkSegment]
  split_ifs with first
  · rfl
  have pos : 0 < place := Nat.pos_of_ne_zero fun isFirst => first ⟨rfl, isFirst⟩
  rw [← content, content_removeSegments]
  split_ifs with known
  · rfl
  apply represents.content_eq_nil pos
  by_contra short
  exact known ⟨rfl, pos, Nat.lt_of_not_le short⟩

end

end SmgrRelationData

open SmgrRelationData

theorem MdM.outcome_ok {call : MdM α}
    (ok : ∃ after, call rel = .ok value after ∧ after.Represents arrays) :
    ∃ after, some (call.outcome result rel) = some (after, result value) ∧
      after.Represents arrays := by
  obtain ⟨after, ok, represents⟩ := ok
  exact ⟨after, by rw [outcome, ok], represents⟩

theorem simulates_onArrays : Simulates run onArrays MdCall.KeepsSegments Represents := by
  intro rel arrays call _ _ represents keeps onArrays
  cases call with
  | extend fork blockNum buffer =>
    rw [MdCall.onArrays, Option.ite_none_right_eq_some] at onArrays
    obtain ⟨isEnd, taken⟩ := onArrays
    cases taken
    exact outcome_ok (represents.mdextend isEnd keeps buffer)
  | write fork blockNum buffer =>
    rw [MdCall.onArrays, Option.ite_none_right_eq_some] at onArrays
    obtain ⟨bound, taken⟩ := onArrays
    cases taken
    exact outcome_ok (represents.mdwrite bound buffer)
  | read fork blockNum =>
    obtain ⟨buffer, found, taken⟩ := Option.map_eq_some_iff.1 onArrays
    cases taken
    exact outcome_ok (represents.mdread found)
  | nblocks fork =>
    cases onArrays
    have small : (BitVec.ofNat 32 (arrays fork).length).toNat = (arrays fork).length := by
      exact Nat.mod_eq_of_lt (represents.small fork)
    rw [← small]
    exact outcome_ok ⟨rel, represents.mdnblocks fork, represents⟩
  | truncate fork blocks =>
    rw [MdCall.onArrays, Option.ite_none_right_eq_some] at onArrays
    obtain ⟨shorter, taken⟩ := onArrays
    cases taken
    apply outcome_ok
    by_cases zero : blocks.toNat = 0
    · rw [zero]
      exact represents.mdtruncate_zero zero
    by_cases inside : blocks.toNat % kRelSegSize = 0
    · rcases keeps with absurdly | absurdly | whole
      · exact absurd inside absurdly
      · exact absurd absurdly zero
      have all := @Represents.mdtruncate_start rel arrays fork represents blocks inside zero
      rw [whole, take_of_length_le (Nat.le_add_right ..)] at all
      rw [whole, take_length]
      exact all
    · exact represents.mdtruncate_inside shorter inside
  | close fork =>
    cases onArrays
    exact ⟨rel.closeFork fork, rfl, represents.closeFork keeps⟩
  | release =>
    cases onArrays
    exact outcome_ok (represents.mdrelease keeps)

/-- In runs that keep sight of the segments every call returns what it returns
on the arrays, and afterwards the number of blocks and every block are those of
the arrays. -/
theorem md_refines_arrays (created : MdFork → Bool) {calls : List MdCall}
    {arrays : MdArrays} {results : List MdResult}
    (executed : runCalls onArrays (fun _ => []) calls = some (arrays, results))
    (keeps : AllCalls onArrays MdCall.KeepsSegments (fun _ => []) calls) :
    ∃ rel, runCalls run (initial created) calls = some (rel, results) ∧ ∀ fork,
        mdnblocks fork rel = .ok (BitVec.ofNat 32 (arrays fork).length) rel ∧
        (arrays fork).length < 2 ^ 32 ∧ ∀ (blockNum : BlockNumber) (buffer : MdBlock),
          (arrays fork)[blockNum.toNat]? = some buffer →
          ∃ after, SmgrRelationData.mdread fork blockNum rel = .ok buffer after := by
  obtain ⟨rel, ran, represents⟩ := simulates_onArrays.runCalls
    (represents_initial created) keeps executed
  refine ⟨rel, ran, ?_⟩
  intro fork
  refine ⟨represents.mdnblocks fork, represents.small fork, ?_⟩
  intro blockNum buffer found
  obtain ⟨after, ok, -⟩ := represents.mdread found
  exact ⟨after, ok⟩

def zeroBlock : MdBlock := ⟨List.replicate kBlckSz 0, length_replicate⟩

/-- A relation that is extended, closed, opened again and cut. -/
theorem md_refines_arrays_reopened : let calls : List MdCall :=
      [.extend mainFork 0 zeroBlock, .extend mainFork 1 zeroBlock,
        .close mainFork, .nblocks mainFork, .write mainFork 1 zeroBlock,
        .truncate mainFork 1, .release, .nblocks mainFork, .read mainFork 0]
    ∃ rel, runCalls run (initial fun _ => true) calls =
      some (rel, [.done, .done, .done, .count 2, .done, .done, .done,
        .count 1, .block zeroBlock]) := by
  intro calls
  have executed : runCalls onArrays (fun _ => []) calls =
      some (_, [.done, .done, .done, .count 2, .done, .done, .done, .count 1,
        .block zeroBlock]) := rfl
  have keeps : AllCalls onArrays MdCall.KeepsSegments (fun _ => [])
      calls := by
    decide
  obtain ⟨rel, ran, -⟩ := md_refines_arrays (fun _ => true) executed keeps
  exact ⟨rel, ran⟩

/-! ## Segments that are lost -/

/-- Extensions of a fork by the same block. -/
def extensions (fork : MdFork) (block : MdBlock) (start count : Nat) : List MdCall :=
  (List.range' start count).map fun blockNum => .extend fork (BitVec.ofNat 32 blockNum) block

theorem extensions_onArrays {fork : MdFork} {block : MdBlock} {start count : Nat}
    {arrays : MdArrays} (isEnd : (arrays fork).length = start) (small : start + count < 2 ^ 32) :
    runCalls onArrays arrays (extensions fork block start count) =
        some (update arrays fork (arrays fork ++ List.replicate count block),
          List.replicate count .done) ∧
      AllCalls onArrays MdCall.KeepsSegments arrays (extensions fork block start count) := by
  induction count generalizing start arrays with
  | zero =>
    rw [replicate_zero, append_nil, update_eq_self]
    exact ⟨rfl, trivial⟩
  | succ count ih =>
    have number : (BitVec.ofNat 32 start).toNat = start := by
      apply Nat.mod_eq_of_lt
      omega
    have taken : onArrays arrays (.extend fork (BitVec.ofNat 32 start) block) =
        some (update arrays fork (arrays fork ++ [block]), .done) := by
      rw [onArrays, if_pos (number.trans isEnd.symm)]
    obtain ⟨ran, keeps⟩ := @ih (start + 1) (update arrays fork (arrays fork ++ [block]))
      (by rw [update_self, length_append, isEnd, length_singleton]) (by omega)
    rw [update_self, update_idem, append_assoc] at ran
    constructor
    · exact runCalls_cons taken ran
    refine ⟨?_, ?_⟩
    · change (BitVec.ofNat 32 start).toNat ≠ kInvalidBlockNumber
      rw [kInvalidBlockNumber]
      omega
    · rw [taken]
      exact keeps

/-- A relation of one segment and one block: after it was closed only the first
segment is counted, and a truncation to the first segment changes nothing. -/
theorem md_loses_segments : ∃ rel arrays results, runCalls onArrays (fun _ => [])
          (extensions mainFork zeroBlock 0 131073) = some (arrays, results) ∧
      runCalls run (initial fun _ => true) (extensions mainFork zeroBlock 0 131073) =
        some (rel, results) ∧ (arrays mainFork).length = 131073 ∧
      (∃ closed, mdclose mainFork rel = .ok () closed ∧
        mdnblocks mainFork closed = .ok 131072#32 closed) ∧
      ∃ cut, mdtruncate mainFork 131072#32 rel = .ok () cut ∧
        mdnblocks mainFork cut = .ok 131073#32 cut := by
  obtain ⟨onArrays, keeps⟩ := @extensions_onArrays mainFork zeroBlock 0 131073
    (fun _ => []) rfl (by decide)
  obtain ⟨rel, ran, represents⟩ := simulates_onArrays.runCalls
    (represents_initial fun _ => true) keeps onArrays
  generalize isList : update (fun _ => []) mainFork
    ([] ++ List.replicate 131073 zeroBlock) = arrays at onArrays represents
  have length : (arrays mainFork).length = 131073 := by
    rw [← isList, update_self, nil_append, length_replicate]
  refine ⟨rel, arrays, _, onArrays, ran, length, ⟨_, rfl, ?_⟩, ?_⟩
  · have counted := @mdnblocks_eq (rel.closeFork mainFork) mainFork
      (arrays mainFork) (represents.stored mainFork)
    have entries : ((rel.closeFork mainFork).mdFd mainFork).length = 0 := by
      rw [SmgrRelationData.closeFork]
      dsimp only
      rw [update_self, length_nil]
    have first : min 131073 (max 0 1 * kRelSegSize) = 131072 := by decide
    rw [length, entries] at counted
    exact counted
  · obtain ⟨cut, ok, representsCut⟩ := @Represents.mdtruncate_start rel arrays
      mainFork represents 131072#32 (by decide) (by decide)
    refine ⟨cut, ok, ?_⟩
    have counted := representsCut.mdnblocks mainFork
    rw [update_self, take_of_length_le, length] at counted
    · exact counted
    · rw [length]
      decide

/-! ## The storage of the buffer manager -/

namespace SmgrRelationData

instance : Zero MdBlock := ⟨zeroBlock⟩

def forkNumber : MdFork → ForkNumber := [.main, .fsm, .visibilityMap, .init].get

/-- The storage with the given blocks in its files. -/
def storage (files : ForkFile → List MdBlock) : MdStorage MdBlock where
  segments path segno := segno * kRelSegSize < (files path).length
  blocks path blockNum := (files path)[blockNum]?

variable {files : ForkFile → List MdBlock} {rnode : RelFileNode} {fork : MdFork}
  {rel : SmgrRelationData} {blockNum : BlockNumber}

def forkFile (rnode : RelFileNode) (fork : MdFork) : ForkFile :=
  ⟨rnode.dbNode, rnode.relNode, forkNumber fork⟩

theorem relpathbackend_forkNumber :
    relpathbackend rnode (forkNumber fork) = some (forkFile rnode fork) :=
  if_neg (by revert fork; decide)

/-- Segment files with the blocks of the storage return what the storage does. -/
theorem mdread_storage (represents : rel.Represents (files ∘ forkFile rnode))
    (found : Storage.mdread (storage files) rnode (forkNumber fork) blockNum.toNat = some block) :
    ∃ after, mdread fork blockNum rel = .ok block after := by
  rw [Storage.mdread, relpathbackend_forkNumber] at found
  obtain ⟨-, isBlock⟩ := Option.ite_none_right_eq_some.1 found
  obtain ⟨after, read, -⟩ := represents.mdread isBlock
  exact ⟨after, read⟩

theorem mdwrite_storage (represents : rel.Represents (files ∘ forkFile rnode))
    (bound : blockNum.toNat < (files (forkFile rnode fork)).length) (block : MdBlock) :
    ∃ after written, mdwrite fork blockNum block rel = .ok () after ∧
      Storage.mdwrite (storage files) rnode (forkNumber fork) blockNum.toNat block =
        some (storage written) ∧ after.Represents (written ∘ forkFile rnode) := by
  obtain ⟨after, wrote, representsAfter⟩ := represents.mdwrite bound block
  refine ⟨after, update files (forkFile rnode fork)
    ((files (forkFile rnode fork)).set blockNum.toNat block), wrote, ?_, ?_⟩
  · have opened : (storage files).segments (forkFile rnode fork)
        (blockNum.toNat / kRelSegSize) :=
      decide_eq_true (Nat.lt_of_le_of_lt (Nat.div_mul_le_self ..) bound)
    rw [Storage.mdwrite, relpathbackend_forkNumber]
    simp only [opened, if_true]
    simp only [storage, Option.some.injEq, MdStorage.mk.injEq]
    refine ⟨funext₂ fun path segno => ?_, funext₂ fun path place => ?_⟩
    · by_cases same : path = forkFile rnode fork
      · rw [same, update_self, length_set]
      · rw [update_of_ne same]
    by_cases same : path = forkFile rnode fork
    · rw [same, update_self, update_self, writeBlock, getElem?_set]
      split_ifs with here before
      all_goals grind
    · rw [update_of_ne same, update_of_ne same]
  · convert representsAfter using 1
    have numbers : Injective forkNumber := by unfold Injective; decide
    exact update_comp_eq_of_injective _ (fun _ _ same => numbers (congrArg (·.forkNum) same)) ..

end SmgrRelationData

end Pgcpp.Storage

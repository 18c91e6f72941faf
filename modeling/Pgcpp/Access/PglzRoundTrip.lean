import Pgcpp.Access.Pglz

/-!
# The pglz round trip

The items of a compressed text spell the text, and decompression follows the
items.  `Emits` relates the loops of the compression to the list of their
items, `Packed` relates the items to the bytes of the output.
-/

namespace Pgcpp.Access

open Lib LzToken Nat UInt8
open List hiding after length span tail

/-- The item fits into its bytes. -/
def Encodable : LzToken UInt8 → Prop
  | .literal _ => True
  | .copy distance mlen =>
    0 < distance ∧ distance ≤ kMaxOffset ∧ kMinMatch ≤ mlen ∧ mlen ≤ kMaxMatch

/-- The positions in the hash table have been passed. -/
def TableBelow (table : PglzTable) (pos : Nat) : Prop :=
  ∀ hash prev, table hash = some prev → prev < pos

theorem findMatchLoop_spec (prevPos pos left len : Nat) :
    findMatchLoop source prevPos pos left len ≤ len + left ∧ ∀ index, len ≤ index →
        index < findMatchLoop source prevPos pos left len →
        source.getD (prevPos + index) 0 = source.getD (pos + index) 0 := by
  induction left generalizing len with
  | zero =>
    refine ⟨le_rfl, ?_⟩
    intro index above below
    simp only [findMatchLoop] at below
    omega
  | succ left ih =>
    rw [findMatchLoop]
    split
    · next same =>
        obtain ⟨_, equal⟩ := ih (len + 1)
        refine ⟨by omega, ?_⟩
        intro index above below
        rcases eq_or_lt_of_le above with first | later
        · rw [← first]
          exact same
        · exact equal index later below
    · refine ⟨by omega, ?_⟩
      intro index above below
      omega

theorem findMatchLen_spec : findMatchLen source prevPos pos ≤ kMaxMatch ∧
      findMatchLen source prevPos pos ≤ source.length - pos ∧
      ∀ index < findMatchLen source prevPos pos,
        source.getD (prevPos + index) 0 = source.getD (pos + index) 0 := by
  obtain ⟨short, equal⟩ := findMatchLoop_spec prevPos pos
    (min kMaxMatch (source.length - pos)) 0
  refine ⟨?_, ?_, ?_⟩
  · exact short.trans (by omega)
  · exact short.trans (by omega)
  · intro index below
    exact equal index (zero_le _) below

theorem matchAt_eq_some {prev : Nat} (found : matchAt source entry pos = some (prev, mlen)) :
    entry = some prev ∧ pos - prev ≤ kMaxOffset ∧ kMinMatch ≤ mlen ∧
      mlen = findMatchLen source prev pos := by
  cases entry with
  | none => simp [matchAt] at found
  | some _ =>
    simp only [matchAt, Option.ite_none_right_eq_some] at found
    obtain ⟨near, long, rfl, rfl⟩ := found
    exact ⟨rfl, near, long, rfl⟩

theorem tableBelow_empty (pos : Nat) : TableBelow (fun _ => none) pos := by
  intro _ _ entry
  simp at entry

theorem TableBelow.mono (below : TableBelow table pos) (le : pos ≤ later) :
    TableBelow table later := by
  intro hash prev entry
  exact (below hash prev entry).trans_le le

theorem TableBelow.hashPosition (below : TableBelow table pos) (passed : entered < pos) :
    TableBelow (hashPosition source table entered) pos := by
  intro hash prev entry
  unfold Access.hashPosition at entry
  by_cases same : hash = hash3 source entered
  · rw [same, Function.update_self] at entry
    cases entry
    exact passed
  · rw [Function.update_of_ne same] at entry
    exact below hash prev entry

theorem TableBelow.hashSkipped (below : TableBelow table (pos + mlen)) :
    TableBelow (hashSkipped source table pos mlen) (pos + mlen) := by
  apply List.foldlRecOn (motive := fun table => TableBelow table (pos + mlen))
  · exact below
  intro table entered _ mem
  have bounds := mem_range'_1.1 ((takeWhile_sublist _).subset mem)
  apply entered.hashPosition
  omega

theorem compressItem_spec {source : List UInt8} (below : TableBelow table pos)
    (inside : pos < source.length)
    {next : PglzTable} (emitted : compressItem source table pos = (item, next, nextPos)) :
    Describes source pos item ∧ Encodable item ∧
      nextPos = pos + item.span ∧ TableBelow next nextPos := by
  have byte : Describes source pos (.literal (source.getD pos 0)) := by simp [Describes, inside]
  have later : TableBelow table (pos + 1) := below.mono (le_succ _)
  unfold compressItem at emitted
  split at emitted
  · cases found : matchAt source (table (hash3 source pos)) pos with
    | none =>
      simp only [found] at emitted
      cases emitted
      exact ⟨byte, trivial, rfl, later.hashPosition (lt_succ_self _)⟩
    | some located =>
      obtain ⟨prev, mlen⟩ := located
      simp only [found] at emitted
      cases emitted
      obtain ⟨entry, near, long, length⟩ := matchAt_eq_some found
      obtain ⟨short, fits, equal⟩ := findMatchLen_spec
      rw [← length] at short fits equal
      have earlier := below _ prev entry
      have positive : 0 < mlen := lt_of_lt_of_le (by decide) long
      refine ⟨?_, ?_, rfl, ?_⟩
      · refine ⟨by omega, by omega, positive, by omega, ?_⟩
        intro index covered
        have same := equal index covered
        have back : pos + index - (pos - prev) = prev + index := by omega
        rw [getD_eq_getElem _ _ (by omega), getD_eq_getElem _ _ (by omega)] at same
        rw [back, getElem?_eq_getElem (by omega), getElem?_eq_getElem (by omega), same]
      · exact ⟨by omega, near, long, short⟩
      apply TableBelow.hashSkipped
      apply TableBelow.hashPosition
      · exact below.mono (Nat.le_add_right ..)
      · omega
  · obtain ⟨rfl, rfl, rfl⟩ := emitted
    exact ⟨byte, trivial, rfl, later⟩

/-! ## The items of a compression -/

/-- The compression emits the items between two of its states. -/
inductive Emits (source : List UInt8) :
    PglzTable → Nat → List (LzToken UInt8) → PglzTable → Nat → Prop where
  | nil : Emits source table pos [] table pos
  | cons {next : PglzTable} (inside : pos < source.length)
      (emitted : compressItem source table pos = (item, next, nextPos))
      (rest : Emits source next nextPos items last lastPos) :
      Emits source table pos (item :: items) last lastPos

namespace Emits

theorem append (front : Emits source table pos items middle middlePos)
    (back : Emits source middle middlePos more last lastPos) :
    Emits source table pos (items ++ more) last lastPos := by
  induction front with
  | nil => exact back
  | cons inside emitted _ ih => exact .cons inside emitted (ih back)

theorem spells (emits : Emits source table pos items last lastPos) (below : TableBelow table pos) :
    Spells source pos items lastPos ∧ (∀ item ∈ items, Encodable item) ∧
      TableBelow last lastPos := by
  induction emits with
  | nil => exact ⟨.nil, by simp, below⟩
  | cons inside emitted _ ih =>
    obtain ⟨described, encodable, rfl, kept⟩ := compressItem_spec below inside emitted
    obtain ⟨spelled, others, final⟩ := ih kept
    refine ⟨.cons described spelled, ?_, final⟩
    exact forall_mem_cons.2 ⟨encodable, others⟩

end Emits

/-- The items are packed into groups of eight; only the last group may be
shorter. -/
inductive Packed : List (LzToken UInt8) → List UInt8 → Prop where
  | nil : Packed [] []
  | group (nonempty : items ≠ []) (short : items.length ≤ 8)
      (full : items.length = 8 ∨ rest = []) (packed : Packed rest bytes) :
      Packed (items ++ rest)
        (ofNat (flagWord 8 (items.map isCopy)) :: (items.flatMap itemBytes ++ bytes))

theorem compressGroup_emits (left : Nat) (group : PglzGroup) :
    ∃ items, Emits source group.table group.pos items (compressGroup source left group).table
        (compressGroup source left group).pos ∧ items.length ≤ left ∧
      (items.length = left ∨ source.length ≤ (compressGroup source left group).pos) ∧
      (group.pos < source.length → 0 < left → items ≠ []) ∧
      (compressGroup source left group).items = group.items ++ items.flatMap itemBytes ∧
      (compressGroup source left group).ctrl = group.ctrl ||| flagWord left (items.map isCopy) := by
  induction left generalizing group with
  | zero =>
    refine ⟨[], .nil, le_rfl, .inl rfl, ?_, ?_, ?_⟩
    · intro _ positive
      exact absurd positive (lt_irrefl _)
    · simp [compressGroup]
    · simp [compressGroup, flagWord]
  | succ left ih =>
    by_cases inside : group.pos < source.length
    · obtain ⟨item, table, pos, emitted⟩ :
          ∃ item table pos, compressItem source group.table group.pos = (item, table, pos) :=
        ⟨_, _, _, rfl⟩
      have step : compressGroup source (left + 1) group = compressGroup source left
            { ctrl := if item.isCopy then group.ctrl ||| (1 <<< left) else group.ctrl
              items := group.items ++ itemBytes item, table := table, pos := pos } := by
        rw [compressGroup, if_pos inside, emitted]
      obtain ⟨items, emits, short, ended, _, bytes, flags⟩ := ih
        { ctrl := if item.isCopy then group.ctrl ||| (1 <<< left) else group.ctrl
          items := group.items ++ itemBytes item, table := table, pos := pos }
      rw [step]
      refine ⟨item :: items, .cons inside emitted emits, ?_, ?_, ?_, ?_, ?_⟩
      · exact succ_le_succ short
      · rcases ended with full | past
        · exact .inl (congrArg (· + 1) full)
        · exact .inr past
      · intro _ _
        exact cons_ne_nil _ _
      · rw [bytes, flatMap_cons, append_assoc]
      rw [flags, map_cons, flagWord, ← lor_assoc]
      cases item.isCopy with
      | false => simp
      | true => simp
    · rw [compressGroup, if_neg inside]
      refine ⟨[], .nil, zero_le _, .inr (not_lt.1 inside), ?_, ?_, ?_⟩
      · intro within
        exact absurd within inside
      · simp
      · simp [flagWord]

theorem compressLoop_packed {source : List UInt8} {fuel : Nat} (output : List UInt8)
    {table : PglzTable} {pos : Nat} (below : TableBelow table pos) (within : pos ≤ source.length)
    (enough : source.length ≤ pos + fuel) :
    ∃ items bytes last, Emits source table pos items last source.length ∧ Packed items bytes ∧
      compressLoop source fuel output table pos = output ++ bytes := by
  induction fuel generalizing output table pos with
  | zero =>
    obtain rfl : pos = source.length := by omega
    exact ⟨[], [], table, .nil, .nil, by simp [compressLoop]⟩
  | succ fuel ih =>
    by_cases inside : pos < source.length
    · obtain ⟨items, emits, short, ended, nonempty, bytes, flags⟩ := compressGroup_emits 8
          { ctrl := 0, items := [], table := table, pos := pos }
      have some := nonempty inside (by decide)
      obtain ⟨spelled, _, kept⟩ := emits.spells below
      have passed := spelled.add_length_le
      have stop := spelled.stop_le within
      obtain ⟨rest, _, last, restEmits, packed, result⟩ :=
        ih (output ++ ofNat (flagWord 8 (items.map isCopy)) ::
            items.flatMap itemBytes) kept stop (by simp only at passed; omega)
      refine ⟨items ++ rest, _, last, emits.append restEmits, .group some short ?_ packed, ?_⟩
      · apply ended.imp_right
        intro _
        have done := (restEmits.spells kept).1.add_length_le
        apply eq_nil_of_length_eq_zero
        omega
      · rw [compressLoop, if_pos inside]
        simp only [bytes, flags, nil_append, zero_or]
        rw [result]
        simp
    · obtain rfl : pos = source.length := by omega
      refine ⟨[], [], table, .nil, .nil, ?_⟩
      rw [compressLoop, if_neg inside, append_nil]

theorem exists_items_of_pglzCompress (compressed : pglzCompress source = some bytes) :
    ∃ items, (∃ last, Emits source (fun _ => none) 0 items last source.length) ∧
      Spells source 0 items source.length ∧
      (∀ item ∈ items, Encodable item) ∧ Packed items bytes := by
  have below := tableBelow_empty 0
  obtain ⟨items, _, last, emits, packed, result⟩ :=
    @compressLoop_packed source source.length [] _ _ below (zero_le _) (by omega)
  obtain ⟨spelled, encodable, _⟩ := emits.spells below
  simp only [pglzCompress, result, Option.ite_none_left_eq_some, Option.some.injEq] at compressed
  obtain ⟨_, rfl⟩ := compressed
  exact ⟨items, ⟨last, emits⟩, spelled, encodable, packed⟩

theorem length_lt_of_pglzCompress (compressed : pglzCompress source = some bytes) :
    bytes.length < source.length := by
  simp only [pglzCompress, Option.ite_none_left_eq_some, Option.some.injEq] at compressed
  obtain ⟨shorter, rfl⟩ := compressed
  exact not_le.1 shorter

theorem intAdd_of_lt (small : left + right < 2 ^ 31) : intAdd left right = left + right :=
  Int.bmod_eq_of_le (by omega) (by omega)

theorem readByte_append : readByte (before ++ byte :: after) before.length = .ok byte := by
  simp [readByte]

theorem writeByte_take {text : List UInt8} (shown : text[pos]? = some byte) :
    writeByte text.length (text.take pos) byte = .ok (text.take (pos + 1)) := by
  obtain ⟨_, rfl⟩ := List.getElem?_eq_some_iff.1 shown
  have room : ((text.take pos).length : Int) < text.length := by
    rw [length_take]
    omega
  rw [writeByte, if_pos room, take_append_getElem]

theorem copyMatch_take {text : List UInt8} (back : 0 < distance) (reach : distance ≤ pos)
    (inside : pos + length ≤ text.length)
    (same : ∀ index < length, text[pos + index]? = text[pos + index - distance]?) :
    copyMatch text.length distance length (text.take pos) = .ok (text.take (pos + length)) := by
  induction length generalizing pos with
  | zero => rfl
  | succ length ih =>
    have shown := getElem?_eq_getElem (show pos < text.length by omega)
    have read : readByte (text.take pos) ((text.take pos).length - distance) = .ok text[pos] := by
      have taken : (text.take pos).length = pos := by
        rw [length_take]
        omega
      have first : text[pos]? = text[pos - distance]? := same 0 (succ_pos _)
      rw [taken, readByte, getElem?_take_of_lt (by omega), ← first, shown]
    have rest := @ih (pos + 1) (by omega) (by omega) (by
      intro index covered
      have later := same (index + 1) (succ_lt_succ covered)
      rwa [← add_assoc, add_right_comm] at later)
    simp only [copyMatch, read, writeByte_take shown, bind, Except.bind]
    rw [rest, add_right_comm, add_assoc]

theorem matchBytes_decode (short : nibble < 16) (near : offset < 4096) :
    let b1 := ofNat ((nibble <<< 4) ||| ((offset >>> 8) &&& 0x0F))
    let b2 := ofNat (offset &&& 0xFF)
    b1.toNat >>> 4 = nibble ∧ (((b1.toNat &&& 0x0F) <<< 8) ||| b2.toNat) = offset := by
  have high : (offset >>> 8) &&& 0x0F = offset / 256 := by
    rw [and_two_pow_sub_one_eq_mod _ 4]
    omega
  have low : offset &&& 0xFF = offset % 256 := and_two_pow_sub_one_eq_mod _ 8
  have joined : (nibble <<< 4) ||| (offset / 256) = 16 * nibble + offset / 256 := by
    rw [shiftLeft_eq, mul_comm]
    exact (two_pow_add_eq_or_of_lt (i := 4) (by omega) nibble).symm
  have first : (ofNat (16 * nibble + offset / 256)).toNat = 16 * nibble + offset / 256 := by
    rw [toNat_ofNat']
    omega
  have second : (ofNat (offset % 256)).toNat = offset % 256 := by
    rw [toNat_ofNat']
    omega
  have tail : (16 * nibble + offset / 256) &&& 0x0F = offset / 256 := by
    rw [and_two_pow_sub_one_eq_mod _ 4]
    omega
  simp only [high, low, joined, first]
  constructor
  · omega
  · rw [shiftLeft_eq, mul_comm, ← two_pow_add_eq_or_of_lt (i := 8) (by omega)]
    omega

theorem itemBytes_ne_nil (item : LzToken UInt8) : itemBytes item ≠ [] := by
  cases item with
  | literal _ => exact cons_ne_nil _ _
  | copy _ _ => exact cons_ne_nil _ _

section

variable {text : List UInt8} (small : text.length < 2 ^ 31)

include small

theorem decompressItem_take {before after : List UInt8} {pos : Nat} {item : LzToken UInt8}
    (described : Describes text pos item) (encodable : Encodable item)
    (source : (before ++ (itemBytes item ++ after)).length < 2 ^ 31) :
    decompressItem (before ++ (itemBytes item ++ after)) text.length
        item.isCopy before.length (text.take pos) =
      .ok (before.length + (itemBytes item).length, text.take (pos + item.span)) := by
  have taken : (text.take pos).length = pos := by
    have fits := described.end_le
    rw [length_take]
    omega
  cases item with
  | literal _ =>
    have room : ¬(text.length : Int) ≤ (text.take pos).length := by
      have fits := described.end_le
      simp only [span] at fits
      omega
    simp only [decompressItem, if_neg room, itemBytes, cons_append, readByte_append,
      writeByte_take described, bind, Except.bind, pure, Except.pure]
    rfl
  | copy distance mlen =>
    obtain ⟨back, reach, _, inside, same⟩ := described
    obtain ⟨_, near, long, short⟩ := encodable
    simp only [kMaxOffset, kMaxMatch] at near long short
    obtain ⟨b1, b2, bytes, length, offset⟩ : ∃ b1 b2 : UInt8,
        itemBytes (.copy distance mlen) = [b1, b2] ∧
        b1.toNat >>> 4 = mlen - kMinMatch ∧
        (((b1.toNat &&& 0x0F) <<< 8) ||| b2.toNat) = distance - 1 := by
      refine ⟨_, _, rfl, ?_⟩
      apply matchBytes_decode
      · simp only [kMinMatch]
        omega
      · omega
    have second : readByte (before ++ b1 :: b2 :: after) (before.length + 1) = .ok b2 := by
      simp [readByte]
    have mlenEq : mlen - kMinMatch + kMinMatch = mlen := Nat.sub_add_cancel long
    have distanceEq : distance - 1 + 1 = distance := Nat.sub_add_cancel back
    have complete : ¬(before ++ b1 :: b2 :: after).length < intAdd before.length 2 := by
      simp only [bytes, cons_append, nil_append, length_append, length_cons] at source
      rw [intAdd_of_lt (by omega), length_append, length_cons, length_cons]
      omega
    have holds : ¬text.length < intAdd pos mlen := by
      rw [intAdd_of_lt (by omega)]
      omega
    simp only [decompressItem, bytes, cons_append, nil_append, if_neg complete, readByte_append,
      second, length, offset, mlenEq, distanceEq, taken, if_neg (not_lt.2 reach),
      if_neg holds, copyMatch_take back reach inside same, bind, Except.bind]
    rfl

/-- The items of a group are decoded in order; a group of fewer items than
bits ends at the end of the text. -/
theorem decompressGroup_take {after : List UInt8} {ctrl : UInt8} {stop : Nat}
    (items : List (LzToken UInt8)) {left pos : Nat} {before : List UInt8}
    (spelled : Spells text pos items stop) (encodable : ∀ item ∈ items, Encodable item)
    (flags : ∀ bit < left, ctrl.toNat.testBit bit = (items.map isCopy).getD (left - 1 - bit) false)
    (short : items.length ≤ left) (ended : items.length = left ∨ stop = text.length)
    (source : (before ++ (items.flatMap itemBytes ++ after)).length < 2 ^ 31) :
    decompressGroup (before ++ (items.flatMap itemBytes ++ after))
        text.length ctrl left before.length (text.take pos) =
      .ok (before.length + (items.flatMap itemBytes).length, text.take stop) := by
  induction items generalizing left pos before with
  | nil =>
    cases spelled
    cases left with
    | zero => rfl
    | succ left =>
      have full : text.length ≤ stop := by
        rcases ended with none | rfl
        · simp at none
        · exact le_rfl
      rw [decompressGroup, if_neg]
      · rfl
      · rw [take_of_length_le full]
        exact fun room => Int.lt_irrefl _ room.2
  | cons item items ih =>
    cases spelled with
    | cons described rest =>
      cases left with
      | zero => simp at short
      | succ left =>
        have guard : before.length < (before ++ ((item :: items).flatMap itemBytes ++
                after)).length ∧
            ((text.take pos).length : Int) < text.length := by
          have some := length_pos_iff.2 (itemBytes_ne_nil item)
          have fits := described.end_le
          have advanced := described.span_pos
          simp only [length_append, flatMap_cons, length_take]
          omega
        have bit : ctrl.toNat.testBit left = item.isCopy := by
          simpa using flags left (lt_succ_self _)
        rw [flatMap_cons, append_assoc] at source
        have decoded := decompressItem_take small described (encodable item mem_cons_self) source
        have others := @ih left (pos + item.span) (before ++ itemBytes item) rest
          (fun later mem => encodable later (mem_cons_of_mem _ mem))
          (by
            intro bit below
            have flag := flags bit (lt_succ_of_lt below)
            have index : left + 1 - 1 - bit = left - 1 - bit + 1 := by omega
            rwa [index, map_cons, getD_cons_succ] at flag)
          (le_of_succ_le_succ short)
          (ended.imp_left succ.inj)
          (by rwa [append_assoc])
        rw [decompressGroup, if_pos guard, bit]
        simp only [flatMap_cons, append_assoc, length_append] at decoded others ⊢
        simp only [decoded, bind, Except.bind, others, add_assoc]

theorem decompressLoop_group {after before : List UInt8} {items : List (LzToken UInt8)}
    (nonempty : items ≠ []) (spelled : Spells text pos items stop)
    (encodable : ∀ item ∈ items, Encodable item) (short : items.length ≤ 8)
    (ended : items.length = 8 ∨ stop = text.length) :
    let ctrl := ofNat (flagWord 8 (items.map isCopy))
    let source := before ++ ctrl :: (items.flatMap itemBytes ++ after)
    source.length < 2 ^ 31 →
      decompressLoop source text.length (fuel + 1) before.length (text.take pos) =
        decompressLoop source text.length fuel
          (before.length + (1 + (items.flatMap itemBytes).length)) (text.take stop) := by
  intro ctrl source limit
  have inside : pos < text.length := by
    cases spelled with
    | nil => exact absurd rfl nonempty
    | cons described _ =>
      exact (Nat.lt_add_of_pos_right described.span_pos).trans_le described.end_le
  have flags : ∀ bit < 8, ctrl.toNat.testBit bit =
        (items.map isCopy).getD (8 - 1 - bit) false := by
    intro bit below
    rw [toNat_ofNat', testBit_mod_two_pow, testBit_flagWord]
    simp [below]
  have guard : before.length < source.length ∧ ((text.take pos).length : Int) < text.length := by
    simp only [source, length_append, length_cons, length_take]
    omega
  have decoded := @decompressGroup_take _ small after ctrl stop items 8 pos (before ++ [ctrl])
    spelled encodable flags short ended (by simpa [source] using limit)
  rw [decompressLoop, if_pos guard, readByte_append]
  simp only [append_assoc, cons_append, nil_append, length_append, length_cons,
    length_nil] at decoded
  simp only [source, bind, Except.bind, decoded]
  rw [add_assoc, zero_add]

theorem decompressLoop_packed {items : List (LzToken UInt8)}
    {bytes : List UInt8} (packed : Packed items bytes) {fuel pos : Nat} {before : List UInt8}
    (spelled : Spells text pos items text.length) (encodable : ∀ item ∈ items, Encodable item)
    (enough : bytes.length ≤ fuel) (source : (before ++ bytes).length < 2 ^ 31) :
    decompressLoop (before ++ bytes) text.length fuel before.length (text.take pos) = .ok text := by
  induction packed generalizing fuel pos before with
  | nil =>
    cases spelled
    have stops : ¬(before.length < (before ++ []).length ∧
        ((text.take text.length).length : Int) < text.length) := by
      simp
    cases fuel with
    | zero => rw [decompressLoop, if_neg stops, take_length]
    | succ fuel => rw [decompressLoop, if_neg stops, take_length]
  | @group items _ bytes nonempty short full _ ih =>
    obtain ⟨stop, front, back⟩ := spelled.of_append
    cases fuel with
    | zero => simp at enough
    | succ fuel =>
      have ended : items.length = 8 ∨ stop = text.length := by
        apply full.imp_right
        intro last
        subst last
        cases back
        rfl
      rw [decompressLoop_group small nonempty front
        (fun item mem => encodable item (mem_append_left _ mem)) short ended source]
      generalize ofNat (flagWord 8 (items.map isCopy)) = ctrl at source ⊢
      have others := @ih fuel stop (before ++ ctrl :: items.flatMap itemBytes) back
        (fun item mem => encodable item (mem_append_right _ mem))
        (by
          simp only [length_cons, length_append] at enough
          omega)
        (by simpa using source)
      simp only [append_assoc, cons_append, length_append, length_cons] at others
      rwa [add_comm 1]

end

theorem pglzDecompress_of_pglzCompress (compressed : pglzCompress source = some bytes)
    (small : source.length < 2 ^ 31) : pglzDecompress bytes source.length = .ok source := by
  obtain ⟨items, _, spelled, encodable, packed⟩ := exists_items_of_pglzCompress compressed
  exact @decompressLoop_packed source small items bytes packed bytes.length 0 []
    spelled encodable le_rfl ((length_lt_of_pglzCompress compressed).trans small)

example :
    let text := [97, 98, 99, 97, 98, 99, 97, 98, 99, 97, 98, 99]
    pglzCompress text = some [16, 97, 98, 99, 96, 2] ∧
      pglzDecompress [16, 97, 98, 99, 96, 2] 12 = .ok text := by
  decide +kernel

end Pgcpp.Access

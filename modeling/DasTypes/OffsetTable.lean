import DasTypes.Buffer

/-!
# The offset table shared by tables and dynamic vectors

`serializeTable` lays out a total-length word, one start offset per item and the items
themselves. `verifyAndExtractOffsets` reads such a header back: it checks the total length
against the buffer, derives the item count from the first offset alone, and returns the
item starts followed by the total length as a sentinel.

Both directions are exact. An accepted buffer is the canonical layout of the slices between
its boundaries, and a laid-out list of items is accepted with its prefix sums as boundaries
whenever its total fits a word and the arity check admits its count. Every read the check
makes stays inside the buffer, so it never fails with a `RangeError`.
-/

namespace DasTypes

/-- The loop `for (let i = 0; i < itemCount; i++) offsets.push(view.getUint32(4 + i * 4, true))`,
reading `count` words from `start` on. -/
def readOffsets (view : Buffer) (start : Nat) : Nat → Except CodecError (List Nat)
  | 0 => pure []
  | count + 1 => do
    let offset ← getUint32 view start
    let rest ← readOffsets view (start + 4) count
    pure (offset :: rest)

/-- The loop `for (let i = 0; i < offsets.length - 1; i++)`, which throws at the first offset
larger than its successor. -/
def checkOffsetOrder (index : Nat) : List Nat → Except CodecError Unit
  | offset :: next :: rest =>
    if offset > next then throw (.offsetOrder index offset next)
    else checkOffsetOrder (index + 1) (next :: rest)
  | _ => pure ()

/-- `verifyAndExtractOffsets(view, expectedFieldCount, compatible)`. The first offset is checked
to be a multiple of four before `firstOffset / 4 - 1` is taken, so the JavaScript division is
exact and `itemCount` is a natural number. -/
def verifyAndExtractOffsets (view : Buffer) (expectedFieldCount : Nat) (compatible : Bool) :
    Except CodecError (List Nat) := do
  if view.length < 4 then throw (.lengthBelow view.length ">4")
  let requiredByteLength ← getUint32 view 0
  assertDataLength view.length requiredByteLength
  if requiredByteLength = 4 then return [requiredByteLength]
  if requiredByteLength < 8 then throw (.lengthBelow view.length ">8")
  let firstOffset ← getUint32 view 4
  if firstOffset % 4 ≠ 0 ∨ firstOffset < 8 then throw (.invalidFirstOffset firstOffset)
  let itemCount := firstOffset / 4 - 1
  if itemCount < expectedFieldCount then
    throw (.itemCountNotEnough expectedFieldCount itemCount)
  else if !compatible && itemCount > expectedFieldCount then
    throw (.itemCountTooMany expectedFieldCount itemCount)
  if requiredByteLength < firstOffset then throw (.firstOffsetTooLarge firstOffset)
  let offsets ← readOffsets view 4 itemCount
  let offsets := offsets ++ [requiredByteLength]
  checkOffsetOrder 0 offsets
  return offsets

/-- The start of every item: `totalSize` before each item is added on in `serializeTable`. -/
def itemOffsets (start : Nat) : List Buffer → List Nat
  | [] => []
  | buffer :: rest => start :: itemOffsets (start + buffer.length) rest

/-- `serializeTable(buffers)`. The source fills a zeroed buffer of `totalSize` bytes with the
total at 0, offset `i` at `4 + i * 4` and item `i` at its offset; those ranges tile the buffer,
so it is their concatenation. -/
def serializeTable (buffers : List Buffer) : Buffer :=
  let headerSize := 4 * (buffers.length + 1)
  let totalSize := headerSize + (buffers.map List.length).sum
  u32Bytes totalSize ++ ((itemOffsets headerSize buffers).map u32Bytes).flatten ++ buffers.flatten

/-- The slices `buffer.slice(offsets[i], offsets[i + 1])` for `i < offsets.length - 1`: the
items a dynamic vector's `validate` checks. -/
def itemSlices (view : Buffer) : List Nat → List Buffer
  | offset :: next :: rest => slice view (some offset) (some next) :: itemSlices view (next :: rest)
  | _ => []

/-- The boundaries `verifyAndExtractOffsets` returns for `serializeTable buffers` when they are
started at the header size: every item's start, then the end of the last item. -/
def prefixBoundaries (start : Nat) : List Buffer → List Nat
  | [] => [start]
  | buffer :: rest => start :: prefixBoundaries (start + buffer.length) rest

/-- The words from `start` on, read without bounds checks; what `readOffsets` returns when
every read is inside the view. -/
def wordsFrom (view : Buffer) (start : Nat) : Nat → List Nat
  | 0 => []
  | count + 1 => le32 (view.drop start) :: wordsFrom view (start + 4) count

/-- The errors `verifyAndExtractOffsets` throws itself, as opposed to those of the accessors
it calls. -/
def CodecError.ThrownByOffsetCheck : CodecError → Prop
  | .lengthBelow .. | .lengthMismatch .. | .invalidFirstOffset _ | .itemCountNotEnough ..
  | .itemCountTooMany .. | .firstOffsetTooLarge _ | .offsetOrder .. => True
  | .invalidByteOffset .. | .notArrayBuffer | .rangeError => False

/-- An accepted non-empty header: a first offset giving `count ≥ 1` items, a total length that
is the buffer's, and item starts that never decrease up to the sentinel. -/
structure Layout (view : Buffer) (count : Nat) (offsets : List Nat) : Prop where
  count_pos : 1 ≤ count
  total : le32 view = view.length
  first : le32 (view.drop 4) = 4 * (count + 1)
  header_fits : 4 * (count + 1) ≤ view.length
  offsets_eq : offsets = wordsFrom view 4 count ++ [view.length]
  monotone : offsets.Chain' (· ≤ ·)

/-- In bounds, the offset loop reads exactly the words. -/
theorem readOffsets_of_le {view : Buffer} {start count : Nat}
    (inside : start + 4 * count ≤ view.length) :
    readOffsets view start count = .ok (wordsFrom view start count) := by
  induction count generalizing start with
  | zero => rfl
  | succ count inductionHypothesis =>
    rw [readOffsets, getUint32_of_le (by omega), inductionHypothesis (by omega)]
    rfl

/-- The order loop passes exactly on a non-decreasing list. -/
theorem checkOffsetOrder_eq_ok {index : Nat} {offsets : List Nat} :
    checkOffsetOrder index offsets = .ok () ↔ offsets.Chain' (· ≤ ·) := by
  induction offsets generalizing index with
  | nil => simp [checkOffsetOrder, pure, Except.pure, List.chain'_nil]
  | cons offset rest inductionHypothesis =>
    match rest with
    | [] => simp [checkOffsetOrder, pure, Except.pure, List.chain'_singleton]
    | next :: rest =>
      by_cases larger : offset > next
      · simp [checkOffsetOrder, larger, throw, throwThe, MonadExceptOf.throw, List.chain'_cons]
      · simp [checkOffsetOrder, larger, inductionHypothesis, List.chain'_cons]
        omega

/-- The order check fails only with its own message. -/
theorem checkOffsetOrder_thrown {index : Nat} {offsets : List Nat} {error : CodecError}
    (failed : checkOffsetOrder index offsets = .error error) : error.ThrownByOffsetCheck := by
  induction offsets generalizing index with
  | nil => cases failed
  | cons offset rest inductionHypothesis =>
    match rest with
    | [] => cases failed
    | next :: rest =>
      unfold checkOffsetOrder at failed
      split at failed
      · cases failed; trivial
      · exact inductionHypothesis failed

/-- Everything `verifyAndExtractOffsets` can return: the empty table's single boundary, a
`Layout` whose count the arity check admits, or one of its own errors. -/
def OffsetsOutcome (view : Buffer) (expectedFieldCount : Nat) (compatible : Bool) :
    Except CodecError (List Nat) → Prop
  | .ok offsets => (view = u32Bytes 4 ∧ offsets = [4]) ∨
      ∃ count, expectedFieldCount ≤ count ∧ (compatible = true ∨ count ≤ expectedFieldCount) ∧
        Layout view count offsets
  | .error error => error.ThrownByOffsetCheck

/-- The one unfolding of `verifyAndExtractOffsets`. Each guard is passed in source order; the
words are read only after the first offset is known to lie inside the buffer, which is what
keeps every read in bounds. -/
theorem verifyAndExtractOffsets_outcome (view : Buffer) (expectedFieldCount : Nat) (compatible : Bool) :
    OffsetsOutcome view expectedFieldCount compatible
      (verifyAndExtractOffsets view expectedFieldCount compatible) := by
  unfold verifyAndExtractOffsets
  simp only [bind, Except.bind, pure, Except.pure, assertDataLength, throw, throwThe, MonadExceptOf.throw]
  by_cases short : view.length < 4
  · simp only [short, if_true]; trivial
  rw [if_neg short, getUint32_of_le (by omega)]
  simp only [List.drop_zero]
  by_cases total : view.length = le32 view
  swap
  · simp only [total, if_false]; trivial
  simp only [total, if_true]
  by_cases empty : le32 view = 4
  · simp only [empty, if_true, OffsetsOutcome]
    left
    refine ⟨?_, trivial⟩
    rw [← empty, u32Bytes_le32 view (by omega), List.take_of_length_le (by omega)]
  simp only [empty, if_false]
  by_cases tiny : le32 view < 8
  · simp only [tiny, if_true]; trivial
  rw [if_neg tiny, getUint32_of_le (by omega)]
  simp only
  generalize firstIs : le32 (view.drop 4) = first
  by_cases misaligned : first % 4 ≠ 0 ∨ first < 8
  · simp only [misaligned, if_true]; trivial
  rw [if_neg misaligned]
  by_cases few : first / 4 - 1 < expectedFieldCount
  · simp only [few, if_true]; trivial
  rw [if_neg few]
  by_cases many : (!compatible && decide (first / 4 - 1 > expectedFieldCount)) = true
  · simp only [many, if_true]; trivial
  rw [if_neg many]
  by_cases over : le32 view < first
  · simp only [over, if_true]; trivial
  rw [if_neg over, readOffsets_of_le (by omega)]
  simp only
  cases ordered : checkOffsetOrder 0 (wordsFrom view 4 (first / 4 - 1) ++ [le32 view]) with
  | error error => exact checkOffsetOrder_thrown ordered
  | ok _ =>
    right
    refine ⟨first / 4 - 1, by omega, ?_, ?_⟩
    · cases compatible <;> simp_all
    · exact ⟨by omega, total.symm, by omega, by omega, by rw [total], checkOffsetOrder_eq_ok.mp ordered⟩

/-- An accepted layout passes the offset check for every field count it has enough items for,
in either mode when the count is exact and in the compatible mode otherwise. -/
theorem verifyAndExtractOffsets_of_layout {view : Buffer} {count : Nat} {offsets : List Nat}
    {expectedFieldCount : Nat} {compatible : Bool} (enough : expectedFieldCount ≤ count)
    (admitted : compatible = true ∨ count ≤ expectedFieldCount) (layout : Layout view count offsets) :
    verifyAndExtractOffsets view expectedFieldCount compatible = .ok offsets := by
  obtain ⟨positive, total, first, fits, rfl, monotone⟩ := layout
  have aligned : ¬(le32 (view.drop 4) % 4 ≠ 0 ∨ le32 (view.drop 4) < 8) := by omega
  have counted : le32 (view.drop 4) / 4 - 1 = count := by omega
  have strictOk : ¬((!compatible && decide (count > expectedFieldCount)) = true) := by
    cases compatible <;> simp_all
  unfold verifyAndExtractOffsets
  simp only [bind, Except.bind, pure, Except.pure, assertDataLength, throw, throwThe, MonadExceptOf.throw,
    if_neg (show ¬view.length < 4 by omega), getUint32_of_le (show 0 + 4 ≤ view.length by omega),
    getUint32_of_le (show 4 + 4 ≤ view.length by omega), List.drop_zero, total, if_true,
    if_neg (show ¬view.length = 4 by omega), if_neg (show ¬view.length < 8 by omega),
    if_neg aligned, counted, if_neg (show ¬count < expectedFieldCount by omega), if_neg strictOk,
    if_neg (show ¬view.length < le32 (view.drop 4) by omega), readOffsets_of_le (show 4 + 4 * count ≤ view.length by omega),
    checkOffsetOrder_eq_ok.mpr monotone]

/-- The boundaries start at the start given. -/
theorem prefixBoundaries_eq_cons (start : Nat) (buffers : List Buffer) :
    prefixBoundaries start buffers = start :: (prefixBoundaries start buffers).tail := by
  cases buffers <;> rfl

/-- The boundaries are the item starts followed by the end of the last item. -/
theorem prefixBoundaries_eq_append (start : Nat) (buffers : List Buffer) :
    prefixBoundaries start buffers = itemOffsets start buffers ++ [start + (buffers.map List.length).sum] := by
  induction buffers generalizing start with
  | nil => rfl
  | cons buffer rest inductionHypothesis =>
    simp only [prefixBoundaries, itemOffsets, inductionHypothesis, List.map_cons, List.sum_cons,
      List.cons_append, Nat.add_assoc]

/-- The boundaries never decrease. -/
theorem prefixBoundaries_chain (start : Nat) (buffers : List Buffer) :
    (prefixBoundaries start buffers).Chain' (· ≤ ·) := by
  induction buffers generalizing start with
  | nil => exact List.chain'_singleton _
  | cons buffer rest inductionHypothesis =>
    rw [prefixBoundaries, prefixBoundaries_eq_cons, List.chain'_cons, ← prefixBoundaries_eq_cons]
    exact ⟨by omega, inductionHypothesis _⟩

/-- Concatenated items sliced at their own boundaries give the items back, whatever surrounds
them. -/
theorem itemSlices_prefixBoundaries (front back : Buffer) (buffers : List Buffer) :
    itemSlices (front ++ buffers.flatten ++ back) (prefixBoundaries front.length buffers) = buffers := by
  induction buffers generalizing front with
  | nil => rfl
  | cons buffer rest inductionHypothesis =>
    rw [prefixBoundaries, prefixBoundaries_eq_cons, itemSlices, ← prefixBoundaries_eq_cons]
    have regroup : front ++ (buffer :: rest).flatten ++ back = front ++ buffer ++ (rest.flatten ++ back) := by
      simp
    have again : front ++ (buffer :: rest).flatten ++ back = front ++ buffer ++ rest.flatten ++ back := by
      simp
    rw [regroup, slice_middle, ← regroup, again, ← List.length_append, inductionHypothesis]

/-- There is one item start per item. -/
theorem length_itemOffsets (start : Nat) (buffers : List Buffer) :
    (itemOffsets start buffers).length = buffers.length := by
  induction buffers generalizing start <;> simp_all [itemOffsets]

/-- Stored words take four bytes each. -/
theorem length_flatten_u32Bytes (words : List Nat) : ((words.map u32Bytes).flatten).length = 4 * words.length := by
  induction words <;> simp_all [Nat.mul_succ]; omega

/-- `serializeTable` writes the header of `4 * (N + 1)` bytes and then every item. -/
theorem length_serializeTable (buffers : List Buffer) :
    (serializeTable buffers).length = 4 * (buffers.length + 1) + (buffers.map List.length).sum := by
  simp only [serializeTable, List.length_append, length_u32Bytes]
  rw [length_flatten_u32Bytes, length_itemOffsets, List.length_flatten]
  omega

/-- Stored words are read back modulo 2^32, whatever surrounds them. -/
theorem wordsFrom_u32Bytes (front back : Buffer) (words : List Nat) :
    wordsFrom (front ++ (words.map u32Bytes).flatten ++ back) front.length words.length =
      words.map (· % 4294967296) := by
  induction words generalizing front with
  | nil => rfl
  | cons word rest inductionHypothesis =>
    have regroup : front ++ ((word :: rest).map u32Bytes).flatten ++ back =
        front ++ u32Bytes word ++ (rest.map u32Bytes).flatten ++ back := by simp
    rw [List.length_cons, wordsFrom, regroup, List.append_assoc front, List.append_assoc,
      List.drop_left, List.append_assoc, le32_u32Bytes, ← List.append_assoc, ← List.append_assoc,
      ← length_u32Bytes word, ← List.length_append, inductionHypothesis]
    rfl

/-- Item starts below 2^32 are stored without wrapping. -/
theorem itemOffsets_mod {start : Nat} {buffers : List Buffer}
    (fits : start + (buffers.map List.length).sum < 4294967296) :
    (itemOffsets start buffers).map (· % 4294967296) = itemOffsets start buffers := by
  induction buffers generalizing start with
  | nil => rfl
  | cons buffer rest inductionHypothesis =>
    simp only [List.map_cons, List.sum_cons] at fits
    simp only [itemOffsets, List.map_cons, Nat.mod_eq_of_lt (show start < 4294967296 by omega),
      inductionHypothesis (show start + buffer.length + (rest.map List.length).sum < 4294967296 by omega)]

/-- A table of at least one item whose encoding fits in 2^32 bytes is an accepted layout of
its item count, with the prefix-sum boundaries. -/
theorem serializeTable_layout {buffers : List Buffer} (nonempty : buffers ≠ [])
    (fits : 4 * (buffers.length + 1) + (buffers.map List.length).sum < 4294967296) :
    Layout (serializeTable buffers) buffers.length (prefixBoundaries (4 * (buffers.length + 1)) buffers) := by
  have length := length_serializeTable buffers
  have words : wordsFrom (serializeTable buffers) 4 buffers.length = itemOffsets (4 * (buffers.length + 1)) buffers := by
    have := wordsFrom_u32Bytes (u32Bytes (4 * (buffers.length + 1) + (buffers.map List.length).sum))
      buffers.flatten (itemOffsets (4 * (buffers.length + 1)) buffers)
    rw [length_u32Bytes, length_itemOffsets, itemOffsets_mod (by omega)] at this
    simpa [serializeTable] using this
  obtain ⟨first, rest, rfl⟩ := List.exists_cons_of_ne_nil nonempty
  refine ⟨by simp, ?_, ?_, by omega, ?_, prefixBoundaries_chain _ _⟩
  · rw [length, serializeTable, List.append_assoc, le32_u32Bytes_of_lt fits]
  · have heads := congrArg List.head? words
    simpa [wordsFrom, itemOffsets] using heads
  · rw [words, prefixBoundaries_eq_append, length]

/-- Non-decreasing boundaries inside the view are the prefix sums of the slices between them. -/
theorem prefixBoundaries_itemSlices (view : Buffer) (start : Nat) (rest : List Nat)
    (monotone : (start :: rest).Chain' (· ≤ ·)) (bounded : ∀ offset ∈ start :: rest, offset ≤ view.length) :
    prefixBoundaries start (itemSlices view (start :: rest)) = start :: rest := by
  induction rest generalizing start with
  | nil => rfl
  | cons next rest inductionHypothesis =>
    rw [List.chain'_cons] at monotone
    have nextBound := bounded next (by simp)
    rw [itemSlices, prefixBoundaries, length_slice, Nat.min_eq_left nextBound,
      Nat.add_sub_cancel' monotone.1,
      inductionHypothesis next monotone.2 (fun offset mem => bounded offset (List.mem_cons_of_mem _ mem))]

/-- The first of non-decreasing boundaries is at most the last. -/
theorem head_le_getLast {start : Nat} {rest : List Nat} (monotone : (start :: rest).Chain' (· ≤ ·)) :
    start ≤ (start :: rest).getLast (List.cons_ne_nil _ _) := by
  have ordered := List.pairwise_cons.mp (List.chain'_iff_pairwise.mp monotone)
  rcases List.mem_cons.mp (List.getLast_mem (List.cons_ne_nil start rest)) with same | later
  · exact same.symm ▸ le_refl _
  · exact ordered.1 _ later

/-- The slices between non-decreasing boundaries join into the slice from the first to the
last. -/
theorem flatten_itemSlices (view : Buffer) (start : Nat) (rest : List Nat)
    (monotone : (start :: rest).Chain' (· ≤ ·)) :
    (itemSlices view (start :: rest)).flatten = slice view (some start) (start :: rest).getLast? := by
  rw [List.getLast?_eq_getLast _ (List.cons_ne_nil _ _)]
  induction rest generalizing start with
  | nil => exact (List.drop_eq_nil_of_le (by simp only [List.length_take]; exact Nat.min_le_left _ _)).symm
  | cons next rest inductionHypothesis =>
    rw [List.chain'_cons] at monotone
    rw [itemSlices, List.flatten_cons, inductionHypothesis next monotone.2,
      List.getLast_cons (List.cons_ne_nil _ _)]
    exact slice_append_slice view monotone.1 (head_le_getLast monotone.2)

/-- Words read inside the view and stored again are the bytes they were read from. -/
theorem flatten_wordsFrom {view : Buffer} {start count : Nat} (inside : start + 4 * count ≤ view.length) :
    ((wordsFrom view start count).map u32Bytes).flatten = slice view (some start) (some (start + 4 * count)) := by
  induction count generalizing start with
  | zero => exact (List.drop_eq_nil_of_le (by simp only [List.length_take]; exact Nat.min_le_left _ _)).symm
  | succ count inductionHypothesis =>
    have word : u32Bytes (le32 (view.drop start)) = slice view (some start) (some (start + 4)) := by
      rw [u32Bytes_le32 _ (by simp; omega), slice, Option.getD_some, Option.getD_some, List.drop_take,
        Nat.add_sub_cancel_left]
    rw [wordsFrom, List.map_cons, List.flatten_cons, word, inductionHypothesis (by omega),
      slice_append_slice view (by omega) (by omega)]
    congr 2
    omega

/-- `count` words are read. -/
@[simp] theorem length_wordsFrom (view : Buffer) (start count : Nat) :
    (wordsFrom view start count).length = count := by
  induction count generalizing start <;> simp_all [wordsFrom]

/-- Every one of non-decreasing boundaries is at most the last. -/
theorem le_getLast_of_chain {offsets : List Nat} (monotone : offsets.Chain' (· ≤ ·)) (nonempty : offsets ≠ [])
    {offset : Nat} (mem : offset ∈ offsets) : offset ≤ offsets.getLast nonempty := by
  have ordered := List.chain'_iff_pairwise.mp monotone
  induction offsets with
  | nil => cases mem
  | cons head rest inductionHypothesis =>
    rcases List.mem_cons.mp mem with rfl | later
    · exact head_le_getLast monotone
    · have restNonempty : rest ≠ [] := List.ne_nil_of_mem later
      rw [List.getLast_cons restNonempty]
      exact inductionHypothesis monotone.tail restNonempty later (List.pairwise_cons.mp ordered).2

/-- Every boundary of an accepted layout lies inside the buffer. -/
theorem Layout.le_length {view : Buffer} {count : Nat} {offsets : List Nat} (layout : Layout view count offsets)
    {offset : Nat} (mem : offset ∈ offsets) : offset ≤ view.length := by
  obtain ⟨-, -, -, -, rfl, monotone⟩ := layout
  have bound := le_getLast_of_chain monotone (by simp) mem
  rwa [List.getLast_append_singleton] at bound

/-- An accepted non-empty layout is the table of its own slices. -/
theorem serializeTable_itemSlices {view : Buffer} {count : Nat} {offsets : List Nat}
    (layout : Layout view count offsets) : serializeTable (itemSlices view offsets) = view := by
  have bounded : ∀ offset ∈ offsets, offset ≤ view.length := fun _ => layout.le_length
  obtain ⟨positive, total, first, fits, rfl, monotone⟩ := layout
  obtain ⟨later, rfl⟩ : ∃ later, count = later + 1 := ⟨count - 1, by omega⟩
  have opening : wordsFrom view 4 (later + 1) ++ [view.length] =
      4 * (later + 1 + 1) :: (wordsFrom view 8 later ++ [view.length]) := by
    rw [wordsFrom, first]; rfl
  have rebuilt := prefixBoundaries_itemSlices view _ _ (opening ▸ monotone) (opening ▸ bounded)
  rw [← opening, prefixBoundaries_eq_append] at rebuilt
  obtain ⟨offsetsSame, totalSame⟩ := List.append_inj' rebuilt rfl
  have itemCount : (itemSlices view (wordsFrom view 4 (later + 1) ++ [view.length])).length = later + 1 := by
    rw [← length_itemOffsets (4 * (later + 1 + 1)), offsetsSame, length_wordsFrom]
  have items := flatten_itemSlices view _ _ (opening ▸ monotone)
  rw [← opening, List.getLast?_append, List.getLast?_singleton, Option.or_some] at items
  simp only [List.cons.injEq, and_true] at totalSame
  rw [serializeTable, itemCount, offsetsSame, totalSame, items, ← total, u32Bytes_le32 view (by omega),
    flatten_wordsFrom (by omega), total,
    show view.take 4 = slice view (some 0) (some 4) by simp [slice],
    slice_append_slice view (by omega) (by omega), show 4 + 4 * (later + 1) = 4 * (later + 1 + 1) by omega,
    slice_append_slice view (by omega) fits]
  simp [slice]

/-- Word `index` is read at `start + 4 * index`. -/
theorem getElem?_wordsFrom (view : Buffer) {start count index : Nat} (inside : index < count) :
    (wordsFrom view start count)[index]? = some (le32 (view.drop (start + 4 * index))) := by
  induction count generalizing start index with
  | zero => omega
  | succ count inductionHypothesis =>
    cases index with
    | zero => simp [wordsFrom]
    | succ index =>
      rw [wordsFrom, List.getElem?_cons_succ, inductionHypothesis (by omega)]
      congr 3
      omega

namespace Layout

variable {view : Buffer} {count : Nat} {offsets : List Nat}

/-- An accepted layout of `count` items has `count + 1` boundaries. -/
theorem length_offsets (layout : Layout view count offsets) : offsets.length = count + 1 := by
  simp [layout.offsets_eq]

/-- Boundary `index` of an accepted layout is the header word at `4 + 4 * index`. -/
theorem getElem?_offsets (layout : Layout view count offsets) (index : Nat) (inside : index < count) :
    offsets[index]? = some (le32 (view.drop (4 + 4 * index))) := by
  rw [layout.offsets_eq, List.getElem?_append_left (by simpa using inside), getElem?_wordsFrom view inside]

/-- The last boundary of an accepted layout is the buffer's length. -/
theorem getElem?_count (layout : Layout view count offsets) : offsets[count]? = some view.length := by
  rw [layout.offsets_eq, List.getElem?_append_right (by simp)]
  simp

end Layout

/-- The offset check never over-reads, and what it returns is the header it read. Every failure
is one of its own messages, never a `RangeError`. The 4-byte buffer holding 4 is accepted with
`[4]` for every field count and mode, and `[4]` is returned for no other buffer. Any other
accepted buffer has a positive item count `first_offset / 4 - 1`, and one boundary more than
that: the header words in order, then the buffer's length. The boundaries never decrease, and
all lie between the end of the header and the end of the buffer. -/
theorem verifyAndExtractOffsets_in_bounds (view : Buffer) (expectedFieldCount : Nat) (compatible : Bool) :
    verifyAndExtractOffsets (u32Bytes 4) expectedFieldCount compatible = .ok [4] ∧
    (∀ error, verifyAndExtractOffsets view expectedFieldCount compatible = .error error →
      error.ThrownByOffsetCheck) ∧
    ∀ offsets, verifyAndExtractOffsets view expectedFieldCount compatible = .ok offsets →
      (offsets = [4] ↔ view = u32Bytes 4) ∧
      (view ≠ u32Bytes 4 →
        let count := le32 (view.drop 4) / 4 - 1
        1 ≤ count ∧ offsets.length = count + 1 ∧ offsets[0]? = some (4 * (count + 1)) ∧
        (∀ index < count, offsets[index]? = some (le32 (view.drop (4 + 4 * index)))) ∧
        offsets[count]? = some view.length ∧ offsets.Chain' (· ≤ ·) ∧
        ∀ offset ∈ offsets, 4 * (count + 1) ≤ offset ∧ offset ≤ view.length) := by
  have outcome := verifyAndExtractOffsets_outcome view expectedFieldCount compatible
  refine ⟨rfl, fun error failed => by rwa [failed] at outcome, fun offsets accepted => ?_⟩
  rw [accepted] at outcome
  rcases outcome with ⟨rfl, rfl⟩ | ⟨count, -, -, layout⟩
  · exact ⟨by simp, fun different => absurd rfl different⟩
  have bounded : ∀ offset ∈ offsets, offset ≤ view.length := fun _ => layout.le_length
  have words := layout.getElem?_offsets
  obtain ⟨positive, total, first, fits, rfl, monotone⟩ := layout
  have notEmpty : view ≠ u32Bytes 4 := fun same => by
    have := congrArg List.length same
    simp at this; omega
  have counted : le32 (view.drop 4) / 4 - 1 = count := by omega
  refine ⟨⟨fun same => absurd (congrArg List.length same) (by simp; omega), fun same => absurd same notEmpty⟩,
    fun _ => ?_⟩
  simp only [counted]
  refine ⟨positive, by simp, ?_, words, by simp, monotone, fun offset mem => ⟨?_, bounded offset mem⟩⟩
  · rw [words 0 positive, Nat.mul_zero, Nat.add_zero, first]
  · obtain ⟨later, rfl⟩ : ∃ later, count = later + 1 := ⟨count - 1, by omega⟩
    rw [wordsFrom, first, List.cons_append] at mem monotone
    rcases List.mem_cons.mp mem with rfl | later
    · exact le_refl _
    · exact (List.pairwise_cons.mp (List.chain'_iff_pairwise.mp monotone)).1 _ later

/-- The encoding of a discount of 7, a one-field table: one item, boundaries `[8, 12]`. -/
theorem verifyAndExtractOffsets_in_bounds_discount :
    verifyAndExtractOffsets [12, 0, 0, 0, 8, 0, 0, 0, 7, 0, 0, 0] 1 false = .ok [8, 12] ∧
      ([8, 12] = [4] ↔ [12, 0, 0, 0, 8, 0, 0, 0, 7, 0, 0, 0] = u32Bytes 4) ∧
      ([12, 0, 0, 0, 8, 0, 0, 0, 7, 0, 0, 0] ≠ u32Bytes 4 →
        1 ≤ 1 ∧ [8, 12].length = 1 + 1 ∧ [8, 12][0]? = some (4 * (1 + 1)) ∧
        (∀ index < 1, [8, 12][index]? = some (le32 ([12, 0, 0, 0, 8, 0, 0, 0, 7, 0, 0, 0].drop (4 + 4 * index)))) ∧
        [8, 12][1]? = some 12 ∧ [8, 12].Chain' (· ≤ ·) ∧ ∀ offset ∈ [8, 12], 4 * (1 + 1) ≤ offset ∧ offset ≤ 12) :=
  have accepted : verifyAndExtractOffsets [12, 0, 0, 0, 8, 0, 0, 0, 7, 0, 0, 0] 1 false = .ok [8, 12] := rfl
  ⟨accepted, (verifyAndExtractOffsets_in_bounds _ 1 false).2.2 _ accepted⟩

/-- `serializeTable` output passes the offset check, for a field count it meets, with the
prefix-sum boundaries. -/
theorem verifyAndExtractOffsets_serializeTable {buffers : List Buffer} {expectedFieldCount : Nat}
    {compatible : Bool} (fits : 4 * (buffers.length + 1) + (buffers.map List.length).sum < 4294967296)
    (admitted : buffers = [] ∨
      (expectedFieldCount ≤ buffers.length ∧ (compatible = false → expectedFieldCount = buffers.length))) :
    verifyAndExtractOffsets (serializeTable buffers) expectedFieldCount compatible =
      .ok (prefixBoundaries (4 * (buffers.length + 1)) buffers) := by
  rcases admitted with rfl | ⟨enough, strict⟩
  · rfl
  by_cases empty : buffers = []
  · subst empty; rfl
  refine verifyAndExtractOffsets_of_layout enough ?_ (serializeTable_layout empty fits)
  cases compatible <;> simp_all

/-- `serializeTable` output sliced at its prefix-sum boundaries gives the items back. -/
theorem itemSlices_serializeTable (buffers : List Buffer) :
    itemSlices (serializeTable buffers) (prefixBoundaries (4 * (buffers.length + 1)) buffers) = buffers := by
  have header : (u32Bytes (4 * (buffers.length + 1) + (buffers.map List.length).sum) ++
      ((itemOffsets (4 * (buffers.length + 1)) buffers).map u32Bytes).flatten).length =
        4 * (buffers.length + 1) := by
    rw [List.length_append, length_u32Bytes, length_flatten_u32Bytes, length_itemOffsets]; omega
  have := itemSlices_prefixBoundaries (u32Bytes (4 * (buffers.length + 1) + (buffers.map List.length).sum) ++
      ((itemOffsets (4 * (buffers.length + 1)) buffers).map u32Bytes).flatten) [] buffers
  rwa [header, List.append_nil] at this

/-- Every buffer the offset check accepts is the table of its own slices. -/
theorem serializeTable_itemSlices_of_ok {view : Buffer} {expectedFieldCount : Nat} {compatible : Bool}
    {offsets : List Nat} (accepted : verifyAndExtractOffsets view expectedFieldCount compatible = .ok offsets) :
    view = serializeTable (itemSlices view offsets) := by
  have outcome := verifyAndExtractOffsets_outcome view expectedFieldCount compatible
  rw [accepted] at outcome
  rcases outcome with ⟨rfl, rfl⟩ | ⟨count, -, -, layout⟩
  · rfl
  · exact (serializeTable_itemSlices layout).symm

end DasTypes

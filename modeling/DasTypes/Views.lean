import DasTypes.Cell

/-!
# Accessors over an accepted offset table

A getter or `indexAt(i)` re-reads the header words that `verifyAndExtractOffsets` already read,
and slices to the next word or to the end of the buffer. Over an accepted layout those reads
are in bounds and name the boundaries the check returned, with one difference: a table's last
declared getter always ends at `view.byteLength`, which is the sentinel boundary only when the
table has exactly its declared number of fields.

The vector accessors therefore agree with vector validation on every accepted buffer. The
fixed vector of device keys checks no item, yet each item is a slice of the key's size, and a
slice of a fixed-size kind's size always passes that kind's check. A `Bytes` buffer that passes
its check is the encoding of the bytes after its length word.
-/

namespace DasTypes

/-- A list of boundaries bounds one slice fewer than it has boundaries. -/
@[simp] theorem length_itemSlices (view : Buffer) (offsets : List Nat) :
    (itemSlices view offsets).length = offsets.length - 1 := by
  induction offsets with
  | nil => rfl
  | cons offset rest inductionHypothesis =>
    match rest with
    | [] => rfl
    | next :: rest => simp_all [itemSlices]

/-- The item `validate` checks at `index`. -/
theorem getElem?_itemSlices (view : Buffer) {offsets : List Nat} {index : Nat}
    (inside : index + 1 < offsets.length) :
    (itemSlices view offsets)[index]? = some (slice view offsets[index]? offsets[index + 1]?) := by
  induction offsets generalizing index with
  | nil => simp at inside
  | cons offset rest inductionHypothesis =>
    match rest, index with
    | [], _ => simp at inside
    | next :: rest, 0 => simp [itemSlices]
    | next :: rest, index + 1 =>
      simpa [itemSlices] using @inductionHypothesis index (by simp only [List.length_cons] at inside ⊢; omega)

/-- Slice `index` runs from boundary `index` to boundary `index + 1`. -/
theorem getElem_itemSlices (view : Buffer) {offsets : List Nat} {index : Nat}
    (inside : index < (itemSlices view offsets).length) :
    (itemSlices view offsets)[index] = slice view offsets[index]? offsets[index + 1]? := by
  have item := getElem?_itemSlices view (show index + 1 < offsets.length by simp at inside; omega)
  rwa [List.getElem?_eq_getElem inside, Option.some.injEq] at item

namespace Layout

variable {view : Buffer} {count : Nat} {offsets : List Nat}

/-- Every header word of an accepted layout is read inside the view. -/
theorem getUint32_offset (layout : Layout view count offsets) (index : Nat) (inside : index < count) :
    getUint32 view (4 + 4 * index) = .ok (le32 (view.drop (4 + 4 * index))) :=
  getUint32_of_le (by have := layout.header_fits; omega)

/-- A table getter over an accepted layout: it starts at the field's boundary and ends at the next
one, except that the last declared field ends at the buffer's end. -/
theorem getField_eq (layout : Layout view count offsets) {index fieldCount : Nat} (inside : index < count)
    (within : fieldCount ≤ count) :
    getField view index fieldCount =
      .ok (slice view offsets[index]? (if index + 1 < fieldCount then offsets[index + 1]? else some view.length)) := by
  simp only [getField, fieldBounds]
  rw [layout.getUint32_offset index inside, layout.getElem?_offsets index inside]
  by_cases next : index + 1 < fieldCount
  · have word := layout.getUint32_offset (index + 1) (by omega)
    have nextOffset := layout.getElem?_offsets (index + 1) (by omega)
    rw [show 4 + 4 * (index + 1) = 4 + 4 * index + 4 by omega] at word nextOffset
    simp [next, word, nextOffset]
  · simp [next]

/-- A getter of a table with exactly its declared number of fields returns the item `validate`
checked for the field. -/
theorem getField_full (layout : Layout view count offsets) {index : Nat}
    (inside : index < (itemSlices view offsets).length) :
    getField view index count = .ok (itemSlices view offsets)[index] := by
  have counted : index < count := by simpa [layout.length_offsets] using inside
  rw [layout.getField_eq counted (le_refl _), getElem_itemSlices view inside]
  by_cases next : index + 1 < count
  · simp [next]
  · simp [next, show index + 1 = count by omega, layout.getElem?_count]

/-- `length()` of an accepted non-empty vector is its item count. -/
theorem dynVecLength_eq (layout : Layout view count offsets) : dynVecLength view = count := by
  have positive := layout.count_pos
  have fits := layout.header_fits
  rw [dynVecLength, if_neg (by omega), layout.first]
  push_cast
  ring

/-- `indexAt(i)` of an accepted vector is the slice `validate` checked: the last item's end,
`view.byteLength`, is the sentinel boundary. -/
theorem dynVecIndexAt_eq (layout : Layout view count offsets) (index : Nat) (inside : index < count) :
    dynVecIndexAt view index = .ok (slice view offsets[index]? offsets[index + 1]?) := by
  have start : 4 + index * 4 = 4 + 4 * index := by omega
  simp only [dynVecIndexAt, layout.dynVecLength_eq, Nat.cast_lt, start,
    layout.getUint32_offset index inside, layout.getElem?_offsets index inside, except_ok_bind]
  by_cases next : index + 1 < count
  · have word := layout.getUint32_offset (index + 1) next
    have nextOffset := layout.getElem?_offsets (index + 1) next
    rw [show 4 + 4 * (index + 1) = 4 + 4 * index + 4 by omega] at word nextOffset
    simp [next, word, nextOffset]
  · have last : index + 1 = count := by omega
    simp [next, last, layout.getElem?_count]

end Layout

mutual
/-- A fixed-size kind accepts every buffer of its size: a struct's members are fixed-size
slices of it. -/
theorem validate_fixedSize : ∀ (schema : Schema) (view : Buffer) (compatible : Bool),
    schema.fixedSize = true → view.length = schema.size → validate schema view compatible = .ok ()
  | .fixed size, view, _, _, length => by simp [validate, assertDataLength, length, Schema.size]
  | .struct members, view, compatible, fixedSize, length => by
    have fits : 0 + Schema.membersSize members ≤ view.length := by simp [length, Schema.size]
    simp only [validate, assertDataLength, show view.length = Schema.membersSize members from length,
      if_true, except_pure, except_ok_bind]
    exact validateMembers_fixedSize members view 0 compatible fixedSize fits
  | .fixVec _, _, _, fixedSize, _ | .bytes, _, _, fixedSize, _ | .dynVec _, _, _, fixedSize, _
  | .table _, _, _, fixedSize, _ | .option _, _, _, fixedSize, _ => by cases fixedSize

/-- Fixed-size members that fit inside the view from `offset` on pass their checks. -/
theorem validateMembers_fixedSize : ∀ (members : List Schema) (view : Buffer) (offset : Nat)
    (compatible : Bool), Schema.membersFixedSize members = true →
    offset + Schema.membersSize members ≤ view.length →
    validateMembers members view offset compatible = .ok ()
  | [], _, _, _, _, _ => rfl
  | member :: rest, view, offset, compatible, fixedSize, fits => by
    simp only [Schema.membersFixedSize, Bool.and_eq_true] at fixedSize
    simp only [Schema.membersSize] at fits
    have memberLength : (slice view (some offset) (some (offset + member.size))).length = member.size := by
      simp; omega
    simp only [validateMembers, validate_fixedSize member _ compatible fixedSize.1 memberLength, except_ok_bind]
    exact validateMembers_fixedSize rest view (offset + member.size) compatible fixedSize.2 (by omega)
end

/-- A fixed vector that passes its check has a count word whose items fill the rest of it. -/
theorem validate_fixVec_of_ok {item : Schema} {view : Buffer} {compatible : Bool}
    (accepted : validate (.fixVec item) view compatible = .ok ()) :
    fixVecLength view = .ok (le32 view) ∧ view.length = le32 view * item.size + 4 := by
  have long : ¬view.length < 4 := fun short => by simp [validate, short] at accepted
  have countWord : fixVecLength view = .ok (le32 view) := by
    rw [fixVecLength, getUint32_of_le (by omega), List.drop_zero]
  exact ⟨countWord, by simpa [validate, long, countWord, assertDataLength] using accepted⟩

/-- A buffer that passes the `Bytes` check is the encoding of the bytes after its length word. -/
theorem validate_bytes_of_ok {view : Buffer} {compatible : Bool} (accepted : validate .bytes view compatible = .ok ()) :
    (view.drop 4).length = le32 view ∧ serialize .bytes (.bytes (view.drop 4)) = .ok view := by
  have long : ¬view.length < 4 := fun short => by simp [validate, short] at accepted
  have length : view.length = le32 view + 4 := by
    simpa [validate, long, getUint32_of_le (show 0 + 4 ≤ view.length by omega), assertDataLength] using accepted
  have payload : (view.drop 4).length = le32 view := by simp only [List.length_drop]; omega
  have encoded : serialize .bytes (.bytes (view.drop 4)) = .ok (u32Bytes (view.drop 4).length ++ view.drop 4) := rfl
  rw [encoded, payload, u32Bytes_le32 view (by omega), List.take_append_drop]
  exact ⟨rfl, rfl⟩

/-- A loop of checks passes exactly when every check does. -/
theorem forM_eq_ok {α : Type} {items : List α} {check : α → Except CodecError Unit} :
    items.forM check = .ok () ↔ ∀ item ∈ items, check item = .ok () := by
  induction items with
  | nil => simp
  | cons item rest inductionHypothesis =>
    rw [List.forM_cons', except_bind_eq_ok, List.forall_mem_cons, ← inductionHypothesis]
    constructor
    · rintro ⟨⟨⟩, first, later⟩
      exact ⟨first, later⟩
    · rintro ⟨first, later⟩
      exact ⟨(), first, later⟩

/-- The 4-byte empty vector has `length()` 0. -/
@[simp] theorem dynVecLength_empty : dynVecLength (u32Bytes 4) = 0 := by simp [dynVecLength]

/-- The accessors of a dynamic vector whose offsets were accepted: `length()` counts the slices
`validate` checks, and `indexAt(i)` is slice `i`. -/
theorem dynVecAccessors_of_verified {view : Buffer} {offsets : List Nat}
    (verified : verifyAndExtractOffsets view 0 true = .ok offsets) :
    dynVecLength view = (itemSlices view offsets).length ∧
      ∀ index (inside : index < (itemSlices view offsets).length),
        dynVecIndexAt view index = .ok (itemSlices view offsets)[index] := by
  have outcome := verifyAndExtractOffsets_outcome view 0 true
  rw [verified] at outcome
  rcases outcome with ⟨rfl, rfl⟩ | ⟨count, -, -, layout⟩
  · exact ⟨by simp [itemSlices], fun _ inside => by simp [itemSlices] at inside⟩
  · have slices : (itemSlices view offsets).length = count := by simp [layout.length_offsets]
    refine ⟨by rw [layout.dynVecLength_eq, slices], fun index inside => ?_⟩
    rw [layout.dynVecIndexAt_eq index (by omega), getElem_itemSlices view inside]

/-- Vector accessors agree with vector validation. For every dynamic vector, an accepted buffer has
`length()` equal to the number of items `validate` checked, and `indexAt(i)` returns exactly the
slice checked for item `i`, which passes the item type's check. For `DeviceKeyList`, an accepted
buffer holds `length()` keys of 22 bytes, and each `indexAt(i)` passes `DeviceKey.validate`, though
the vector's own loop checks none. -/
theorem vector_accessors_agree :
    (∀ (item : Schema) (view : Buffer) (compatible : Bool),
      validate (.dynVec item) view compatible = .ok () →
      ∃ offsets, verifyAndExtractOffsets view 0 true = .ok offsets ∧
        dynVecLength view = ((offsets.length - 1 : Nat) : ℚ) ∧
        ∀ index, index < offsets.length - 1 →
          dynVecIndexAt view index = .ok (slice view offsets[index]? offsets[index + 1]?) ∧
          validate item (slice view offsets[index]? offsets[index + 1]?) false = .ok ()) ∧
    (∀ (view : Buffer) (compatible : Bool), validate DeviceKeyList view compatible = .ok () →
      ∃ count, fixVecLength view = .ok count ∧ view.length = 4 + 22 * count ∧
        ∀ index, index < count →
          (fixVecIndexAt DeviceKey.size view index).length = 22 ∧
          ∀ compatible', validate DeviceKey (fixVecIndexAt DeviceKey.size view index) compatible' = .ok ()) := by
  refine ⟨fun item view compatible accepted => ?_, fun view compatible accepted => ?_⟩
  · obtain ⟨offsets, verified, items⟩ := except_bind_eq_ok.mp accepted
    obtain ⟨length, indexAt⟩ := dynVecAccessors_of_verified verified
    refine ⟨offsets, verified, by rw [length, length_itemSlices], fun index inside => ?_⟩
    have slot : index < (itemSlices view offsets).length := by simpa using inside
    rw [← getElem_itemSlices view slot]
    exact ⟨indexAt index slot, forM_eq_ok.mp items _ (List.getElem_mem slot)⟩
  · have keySize : DeviceKey.size = 22 := rfl
    obtain ⟨countWord, length⟩ := validate_fixVec_of_ok accepted
    refine ⟨le32 view, countWord, by rw [length, keySize]; omega, fun index inside => ?_⟩
    have itemLength : (fixVecIndexAt DeviceKey.size view index).length = 22 := by
      simp only [fixVecIndexAt, keySize, length_slice]
      rw [Nat.min_eq_left (by rw [keySize] at length; omega)]
      omega
    exact ⟨itemLength, fun compatible' => validate_fixedSize DeviceKey _ compatible' rfl (keySize ▸ itemLength)⟩

/-- A `BytesVec` holding the payload `[7]`, and a `DeviceKeyList` of one zero key. -/
theorem vector_accessors_agree_bytesVec_keys :
    validate BytesVec (serializeTable [[1, 0, 0, 0, 7]]) false = .ok () ∧
      (∃ offsets, verifyAndExtractOffsets (serializeTable [[1, 0, 0, 0, 7]]) 0 true = .ok offsets ∧
        dynVecLength (serializeTable [[1, 0, 0, 0, 7]]) = ((offsets.length - 1 : Nat) : ℚ) ∧
        ∀ index, index < offsets.length - 1 →
          dynVecIndexAt (serializeTable [[1, 0, 0, 0, 7]]) index =
              .ok (slice (serializeTable [[1, 0, 0, 0, 7]]) offsets[index]? offsets[index + 1]?) ∧
            validate Bytes (slice (serializeTable [[1, 0, 0, 0, 7]]) offsets[index]? offsets[index + 1]?) false =
              .ok ()) ∧
      validate DeviceKeyList (u32Bytes 1 ++ List.replicate 22 0) false = .ok () ∧
      ∃ count, fixVecLength (u32Bytes 1 ++ List.replicate 22 0) = .ok count ∧
        (u32Bytes 1 ++ List.replicate 22 0).length = 4 + 22 * count ∧
        ∀ index, index < count →
          (fixVecIndexAt DeviceKey.size (u32Bytes 1 ++ List.replicate 22 0) index).length = 22 ∧
          ∀ compatible', validate DeviceKey (fixVecIndexAt DeviceKey.size (u32Bytes 1 ++ List.replicate 22 0) index)
            compatible' = .ok () :=
  have vector : validate BytesVec (serializeTable [[1, 0, 0, 0, 7]]) false = .ok () := by decide
  have keys : validate DeviceKeyList (u32Bytes 1 ++ List.replicate 22 0) false = .ok () := by decide
  ⟨vector, vector_accessors_agree.1 Bytes _ false vector, keys, vector_accessors_agree.2 _ false keys⟩

end DasTypes

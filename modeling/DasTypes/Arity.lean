import DasTypes.RoundTrip

/-!
# Table arity

`verifyAndExtractOffsets` can check an item count against a declared field count: it fails
below the count and, unless `compatible` is set, above it. Every generated table and dynamic
vector calls it with the literal arguments `0` and `true`, so neither check runs. A table's
`validate` therefore accepts fewer or more items than the table declares, in either mode, and
the `compatible` flag it takes reaches no check at all.

The getters assume the declared count. A getter of a field past the item count reads an offset
word outside the header, and the last declared getter ends at `view.byteLength`, so over a
table with extra fields it returns the last field followed by every extra one.
-/

namespace DasTypes

mutual
/-- `validate` gives the same outcome in both modes: tables and vectors pass the literal
`true`, and structs and options only hand the flag on. -/
theorem validate_compatible_eq : ∀ (schema : Schema) (view : Buffer) (compatible : Bool),
    validate schema view compatible = validate schema view false
  | .fixed _, _, _ | .fixVec _, _, _ | .bytes, _, _ | .dynVec _, _, _ | .table _, _, _ => rfl
  | .struct members, view, compatible => by
    simp only [validate, validateMembers_compatible_eq members view 0 compatible]
  | .option inner, view, compatible => by
    simp only [validate, validate_compatible_eq inner view compatible]

/-- A struct's member checks ignore the mode, as `validate` does. -/
theorem validateMembers_compatible_eq : ∀ (members : List Schema) (view : Buffer) (offset : Nat)
    (compatible : Bool), validateMembers members view offset compatible = validateMembers members view offset false
  | [], _, _, _ => rfl
  | member :: rest, view, offset, compatible => by
    simp only [validateMembers, validate_compatible_eq member _ compatible,
      validateMembers_compatible_eq rest view _ compatible]
end

/-- Table accessors and table validation disagree in both directions. A 12-byte buffer with two
items passes `Data.validate`, whose table declares three fields, and `getNew` then reads its
offset word past the end of the buffer. And `AccountCellDataV2`, reading the encoding of an
`AccountCellData` value with empty records, accepts it, yet its last getter returns the records
followed by the two newer fields, which fails `Records.validate`; the newer class's own getter
returns the records alone. -/
theorem table_getters_disagree :
    (validate Data [12, 0, 0, 0, 12, 0, 0, 0, 12, 0, 0, 0] false = .ok () ∧
      verifyAndExtractOffsets [12, 0, 0, 0, 12, 0, 0, 0, 12, 0, 0, 0] 0 true = .ok [12, 12, 12] ∧
      getField [12, 0, 0, 0, 12, 0, 0, 0, 12, 0, 0, 0] 2 3 = .error .rangeError) ∧
    ∃ buffer, serialize AccountCellData (.list [.bytes (List.replicate 20 0), .list [],
        .bytes (List.replicate 8 0), .bytes (List.replicate 8 0), .bytes (List.replicate 8 0),
        .bytes (List.replicate 8 0), .bytes [0], .list [], .bytes [0], .bytes (List.replicate 8 0)]) = .ok buffer ∧
      validate AccountCellDataV2 buffer false = .ok () ∧
      getField buffer 7 8 = .ok [4, 0, 0, 0, 0, 0, 0, 0, 0, 0, 0, 0, 0] ∧
      validate Records [4, 0, 0, 0, 0, 0, 0, 0, 0, 0, 0, 0, 0] false = .error (.lengthMismatch 13 4) ∧
      getField buffer 7 10 = .ok [4, 0, 0, 0] :=
  ⟨⟨by decide, by decide, by decide⟩, _, rfl, by decide, by decide, by decide, by decide⟩

/-- Every encoding `SerializeDiscountConfig` writes is a one-item table of a 4-byte word, 12
bytes long. Every other shape of value is refused by the serializer. -/
theorem length_serialize_discountConfig {value : Value} {buffer : Buffer}
    (serialized : serialize DiscountConfig value = .ok buffer) : buffer.length = 12 := by
  rcases value with _ | _ | _ | _ | _ <;> try cases serialized
  rename_i values
  rcases values with _ | ⟨_ | _ | _ | _ | _, rest⟩ <;> try cases serialized
  rename_i data
  simp only [DiscountConfig, Uint32, serialize, serializeFields, assertDataLength] at serialized
  by_cases four : data.length = 4
  · simp only [four, if_true, except_pure, except_ok_bind, Except.ok.injEq] at serialized
    rw [← serialized, length_serializeTable]
    simp [four]
  · simp [four] at serialized

/-- Strict validation accepts a buffer that is no encoding. A `DiscountConfig` buffer whose header
declares two items passes `validate(false)`; it is not the serialization of any value, and the
value its getter reads serializes to a different buffer that strict validation accepts too. -/
theorem strict_validation_not_canonical :
    validate DiscountConfig [16, 0, 0, 0, 12, 0, 0, 0, 16, 0, 0, 0, 7, 0, 0, 0] false = .ok () ∧
    (∀ value, serialize DiscountConfig value ≠ .ok [16, 0, 0, 0, 12, 0, 0, 0, 16, 0, 0, 0, 7, 0, 0, 0]) ∧
    read DiscountConfig [16, 0, 0, 0, 12, 0, 0, 0, 16, 0, 0, 0, 7, 0, 0, 0] = .ok (.list [.bytes [7, 0, 0, 0]]) ∧
    serialize DiscountConfig (.list [.bytes [7, 0, 0, 0]]) = .ok [12, 0, 0, 0, 8, 0, 0, 0, 7, 0, 0, 0] ∧
    validate DiscountConfig [12, 0, 0, 0, 8, 0, 0, 0, 7, 0, 0, 0] false = .ok () :=
  ⟨by decide, fun _ serialized => absurd (length_serialize_discountConfig serialized) (by decide), rfl, by decide,
    by decide⟩

/-- The slices after boundary `index` are the slices of the boundaries from `index` on. -/
theorem itemSlices_drop (view : Buffer) : ∀ (index : Nat) (offsets : List Nat),
    itemSlices view (offsets.drop index) = (itemSlices view offsets).drop index
  | 0, _ => rfl
  | _ + 1, [] | _ + 1, [_] => by simp [itemSlices]
  | index + 1, _ :: next :: rest => by
    rw [List.drop_succ_cons, itemSlices_drop view index (next :: rest), itemSlices, List.drop_succ_cons]

/-- Over an accepted layout, the bytes from boundary `index` to the end of the buffer are the
items from `index` on. -/
theorem Layout.slice_to_end {view : Buffer} {count : Nat} {offsets : List Nat} (layout : Layout view count offsets)
    (index : Nat) (inside : index < count) :
    slice view offsets[index]? (some view.length) = ((itemSlices view offsets).drop index).flatten := by
  have bound : index < offsets.length := by rw [layout.length_offsets]; omega
  have suffix := flatten_itemSlices view offsets[index] (offsets.drop (index + 1))
    (List.drop_eq_getElem_cons bound ▸ layout.monotone.drop index)
  have last : (offsets[index] :: offsets.drop (index + 1)).getLast? = some view.length := by
    rw [← List.drop_eq_getElem_cons bound, layout.offsets_eq,
      List.drop_append_of_le_length (by simp only [length_wordsFrom]; omega), List.getLast?_append,
      List.getLast?_singleton, Option.or_some]
  rw [last, ← List.drop_eq_getElem_cons bound, itemSlices_drop] at suffix
  rw [List.getElem?_eq_getElem bound, suffix]

/-- A table's field checks pass on a prefix of its fields whenever they pass on all of them. -/
theorem validateFields_append_left : ∀ (fields extra : List (Field Schema)) (view : Buffer) (offsets : List Nat)
    (index : Nat), validateFields (fields ++ extra) view offsets index = .ok () →
    validateFields fields view offsets index = .ok ()
  | [], _, _, _, _, _ => rfl
  | .typed schema :: rest, extra, view, offsets, index, accepted => by
    obtain ⟨⟨⟩, first, later⟩ := except_bind_eq_ok.mp accepted
    simp only [validateFields, first, except_ok_bind]
    exact validateFields_append_left rest extra view offsets _ later
  | .byte name :: rest, extra, view, offsets, index, accepted => by
    obtain ⟨placed, later⟩ := except_check_bind_eq_ok.mp accepted
    exact except_check_bind_eq_ok.mpr ⟨placed, validateFields_append_left rest extra view offsets _ later⟩

/-- An older table reading the encoding of an extension of it. For every admitted value of a
table whose fields extend an older table's, the older `validate` accepts the encoding in either
mode and every older getter but the last returns its own field unchanged, while the last one
returns its field followed by all the newer fields' bytes, since it ends at `view.byteLength`. -/
theorem older_table_reads_newer_encoding (fields extra : List (Field Schema)) (values : List Value)
    (buffer : Buffer) (wellFormed : Schema.wellFormed (.table (fields ++ extra)))
    (admitted : Admits (.table (fields ++ extra)) (.list values))
    (serialized : serialize (.table (fields ++ extra)) (.list values) = .ok buffer) (nonempty : fields ≠ []) :
    (∀ compatible, validate (.table fields) buffer compatible = .ok ()) ∧
    ∃ parts, serializeFields (fields ++ extra) values = .ok parts ∧
      (∀ index, index + 1 < fields.length →
        ∃ part, parts[index]? = some part ∧ getField buffer index fields.length = .ok part) ∧
      getField buffer (fields.length - 1) fields.length = .ok (parts.drop (fields.length - 1)).flatten := by
  obtain ⟨admittedFields, below⟩ := admitted
  obtain ⟨parts, serializedFields, count, fieldsOk⟩ :=
    serializeFields_validate_read (fields ++ extra) values wellFormed admittedFields
  have encoded : serialize (.table (fields ++ extra)) (.list values) = .ok (serializeTable parts) := by
    simp [serialize, serializedFields]
  have fits := below _ encoded
  rw [length_serializeTable] at fits
  rw [encoded, Except.ok.injEq] at serialized
  subst serialized
  have longer : fields.length ≤ parts.length := by simp [count]
  have positive : 0 < fields.length := List.length_pos.mpr nonempty
  have layout := serializeTable_layout (List.ne_nil_of_length_pos (by omega)) fits
  have valid := (fieldsOk _ _ parts.length 0 (presents_serializeTable fits)).1 false
  refine ⟨fun _ => ?_, parts, serializedFields, fun index inside => ?_, ?_⟩
  · simp only [validate, verifyAndExtractOffsets_serializeTable_loose fits, except_ok_bind]
    exact validateFields_append_left fields extra _ _ 0 (validateFields_of_countedValidate _ _ _ 0 false valid)
  · have item := getElem?_itemSlices (serializeTable parts)
      (show index + 1 < _ by rw [layout.length_offsets]; omega)
    rw [itemSlices_serializeTable] at item
    refine ⟨_, item, ?_⟩
    rw [layout.getField_eq (by omega) longer, if_pos inside]
  · rw [layout.getField_eq (by omega) longer, if_neg (by omega), layout.slice_to_end _ (by omega),
      itemSlices_serializeTable]

/-- `AccountCellDataV2` reading the encoding of an `AccountCellData` value with empty records. -/
theorem older_table_reads_newer_encoding_account :
    Schema.wellFormed AccountCellData ∧
    Admits AccountCellData (.list [.bytes (List.replicate 20 0), .list [], .bytes (List.replicate 8 0),
      .bytes (List.replicate 8 0), .bytes (List.replicate 8 0), .bytes (List.replicate 8 0), .bytes [0], .list [],
      .bytes [0], .bytes (List.replicate 8 0)]) ∧
    ∃ buffer, serialize AccountCellData (.list [.bytes (List.replicate 20 0), .list [], .bytes (List.replicate 8 0),
        .bytes (List.replicate 8 0), .bytes (List.replicate 8 0), .bytes (List.replicate 8 0), .bytes [0], .list [],
        .bytes [0], .bytes (List.replicate 8 0)]) = .ok buffer ∧
      (∀ compatible, validate AccountCellDataV2 buffer compatible = .ok ()) ∧
      ∃ parts, serializeFields [AccountId, AccountChars, Uint64, Uint64, Uint64, Uint64, Uint8, Records, Uint8, Uint64]
          [.bytes (List.replicate 20 0), .list [], .bytes (List.replicate 8 0), .bytes (List.replicate 8 0),
            .bytes (List.replicate 8 0), .bytes (List.replicate 8 0), .bytes [0], .list [], .bytes [0],
            .bytes (List.replicate 8 0)] = .ok parts ∧
        (∀ index, index + 1 < 8 → ∃ part, parts[index]? = some part ∧ getField buffer index 8 = .ok part) ∧
        getField buffer 7 8 = .ok (parts.drop 7).flatten :=
  have wellFormed : Schema.wellFormed AccountCellData := rfl
  have admitted : Admits AccountCellData (.list [.bytes (List.replicate 20 0), .list [], .bytes (List.replicate 8 0),
      .bytes (List.replicate 8 0), .bytes (List.replicate 8 0), .bytes (List.replicate 8 0), .bytes [0], .list [],
      .bytes [0], .bytes (List.replicate 8 0)]) :=
    ⟨⟨rfl, ⟨nofun, encodesBelow_of_eq rfl (by decide)⟩, rfl, rfl, rfl, rfl, rfl,
      ⟨nofun, encodesBelow_of_eq rfl (by decide)⟩, rfl, rfl, trivial⟩, encodesBelow_of_eq rfl (by decide)⟩
  ⟨wellFormed, admitted, _, rfl,
    older_table_reads_newer_encoding [AccountId, AccountChars, Uint64, Uint64, Uint64, Uint64, Uint8, Records]
      [Uint8, Uint64] _ _ wellFormed admitted rfl (List.cons_ne_nil _ _)⟩

/-- The field checks of two field lists laid end to end pass exactly when each list's checks pass,
the second from the boundary where the first ends. -/
theorem validateFields_append_eq_ok : ∀ (fields extra : List (Field Schema)) (view : Buffer) (offsets : List Nat)
    (index : Nat), validateFields (fields ++ extra) view offsets index = .ok () ↔
      validateFields fields view offsets index = .ok () ∧
        validateFields extra view offsets (index + fields.length) = .ok ()
  | [], extra, view, offsets, index => by simp [validateFields]
  | .typed schema :: rest, extra, view, offsets, index => by
    simp only [List.cons_append, List.append_eq, validateFields, List.length_cons, except_seq_eq_ok,
      validateFields_append_eq_ok rest extra view offsets (index + 1), and_assoc,
      show index + 1 + rest.length = index + (rest.length + 1) by omega]
  | .byte name :: rest, extra, view, offsets, index => by
    simp only [List.cons_append, List.append_eq, validateFields, List.length_cons, except_check_bind_eq_ok,
      validateFields_append_eq_ok rest extra view offsets (index + 1), and_assoc,
      show index + 1 + rest.length = index + (rest.length + 1) by omega]

/-- Past the last boundary every offset is `undefined`, and `slice(undefined, undefined)` copies
the whole buffer: a typed field there is checked over the whole view, and a raw byte field never
passes. -/
theorem validateFields_beyond : ∀ (fields : List (Field Schema)) (view : Buffer) (offsets : List Nat)
    (index : Nat), offsets.length ≤ index →
      (validateFields fields view offsets index = .ok () ↔
        ∀ field ∈ fields, ∃ schema, field = .typed schema ∧ validate schema view false = .ok ())
  | [], _, _, _, _ => by simp [validateFields]
  | .typed schema :: rest, view, offsets, index, beyond => by
    have whole : slice view offsets[index]? offsets[index + 1]? = view := by
      rw [List.getElem?_eq_none_iff.mpr beyond, List.getElem?_eq_none_iff.mpr (by omega)]
      simp [slice]
    simp [validateFields, whole, except_seq_eq_ok, validateFields_beyond rest view offsets (index + 1) (by omega)]
  | .byte name :: rest, view, offsets, index, beyond => by
    simp [validateFields, List.getElem?_eq_none_iff.mpr beyond, byteFieldMisplaced]

/-- At the last boundary, whose next offset is `undefined`, a typed field is checked over the empty
slice from `byteLength` to the end, and every later field over the whole view. -/
theorem validateFields_at_end (added : Field Schema) (extra : List (Field Schema)) (view : Buffer)
    (offsets : List Nat) (index : Nat) (last : offsets.length = index + 1)
    (total : offsets[index]? = some view.length) :
    validateFields (added :: extra) view offsets index = .ok () ↔
      (∃ schema, added = .typed schema ∧ validate schema [] false = .ok ()) ∧
        ∀ field ∈ extra, ∃ schema, field = .typed schema ∧ validate schema view false = .ok () := by
  have past : offsets[index + 1]? = none := List.getElem?_eq_none_iff.mpr (by omega)
  cases added with
  | typed schema =>
    have empty : slice view offsets[index]? offsets[index + 1]? = [] := by simp [total, past, slice]
    simp [validateFields, empty, except_seq_eq_ok, validateFields_beyond extra view offsets (index + 1) (by omega)]
  | byte name => simp [validateFields, past, byteFieldMisplaced]

/-- A newer table reading the encoding of an older one. For every admitted value of a table whose
field list a newer table extends, the newer `validate` accepts the older encoding, in either mode,
exactly when its first added field accepts an empty buffer and every later added field accepts the
whole older encoding. Past the older table's last offset the offsets are `undefined`: the first
added field is sliced from `byteLength` to the end, every later one is the whole buffer, and an
added raw byte field never passes. -/
theorem newer_table_reads_older_encoding (fields : List (Field Schema)) (added : Field Schema)
    (extra : List (Field Schema)) (values : List Value) (buffer : Buffer) (compatible : Bool)
    (wellFormed : Schema.wellFormed (.table fields)) (admitted : Admits (.table fields) (.list values))
    (serialized : serialize (.table fields) (.list values) = .ok buffer) :
    validate (.table (fields ++ added :: extra)) buffer compatible = .ok () ↔
      (∃ schema, added = .typed schema ∧ validate schema [] false = .ok ()) ∧
        ∀ field ∈ extra, ∃ schema, field = .typed schema ∧ validate schema buffer false = .ok () := by
  obtain ⟨admittedFields, below⟩ := admitted
  obtain ⟨parts, serializedFields, count, fieldsOk⟩ :=
    serializeFields_validate_read fields values wellFormed admittedFields
  have encoded : serialize (.table fields) (.list values) = .ok (serializeTable parts) := by
    simp [serialize, serializedFields]
  have fits := below _ encoded
  rw [length_serializeTable] at fits
  rw [encoded, Except.ok.injEq] at serialized
  subst serialized
  have older := validateFields_of_countedValidate _ _ _ 0 false
    ((fieldsOk _ _ parts.length 0 (presents_serializeTable fits)).1 false)
  have boundaries := prefixBoundaries_eq_append (4 * (parts.length + 1)) parts
  simp only [validate, verifyAndExtractOffsets_serializeTable_loose fits, except_ok_bind,
    validateFields_append_eq_ok, older, true_and, Nat.zero_add]
  refine validateFields_at_end added extra _ _ fields.length ?_ ?_
  · rw [boundaries]
    simp [length_itemOffsets, count]
  · rw [boundaries]
    simp [length_itemOffsets, count, length_serializeTable, List.getElem?_append_right]

/-- `AccountCellData` reading the encoding of an `AccountCellDataV2` value with empty records: its
added `enable_sub_account` byte is checked over an empty slice, and its `renew_sub_account_price`
over the whole buffer. -/
theorem newer_table_reads_older_encoding_account :
    Schema.wellFormed AccountCellDataV2 ∧
    Admits AccountCellDataV2 (.list [.bytes (List.replicate 20 0), .list [], .bytes (List.replicate 8 0),
      .bytes (List.replicate 8 0), .bytes (List.replicate 8 0), .bytes (List.replicate 8 0), .bytes [0], .list []]) ∧
    ∃ buffer, serialize AccountCellDataV2 (.list [.bytes (List.replicate 20 0), .list [],
        .bytes (List.replicate 8 0), .bytes (List.replicate 8 0), .bytes (List.replicate 8 0),
        .bytes (List.replicate 8 0), .bytes [0], .list []]) = .ok buffer ∧
      (validate (.table (([AccountId, AccountChars, Uint64, Uint64, Uint64, Uint64, Uint8, Records] :
          List (Field Schema)) ++ Field.typed Uint8 :: [Field.typed Uint64])) buffer false = .ok () ↔
        (∃ schema, Field.typed Uint8 = .typed schema ∧ validate schema [] false = .ok ()) ∧
          ∀ field ∈ [Field.typed Uint64], ∃ schema, field = .typed schema ∧ validate schema buffer false = .ok ()) :=
  have wellFormed : Schema.wellFormed AccountCellDataV2 := rfl
  have admitted : Admits AccountCellDataV2 (.list [.bytes (List.replicate 20 0), .list [],
      .bytes (List.replicate 8 0), .bytes (List.replicate 8 0), .bytes (List.replicate 8 0),
      .bytes (List.replicate 8 0), .bytes [0], .list []]) :=
    ⟨⟨rfl, ⟨nofun, encodesBelow_of_eq rfl (by decide)⟩, rfl, rfl, rfl, rfl, rfl,
      ⟨nofun, encodesBelow_of_eq rfl (by decide)⟩, trivial⟩, encodesBelow_of_eq rfl (by decide)⟩
  ⟨wellFormed, admitted, _, rfl,
    newer_table_reads_older_encoding [AccountId, AccountChars, Uint64, Uint64, Uint64, Uint64, Uint8, Records]
      (.typed Uint8) [.typed Uint64] _ _ false wellFormed admitted rfl⟩

end DasTypes

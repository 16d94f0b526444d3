import DasTypes.RoundTrip

/-!
# Canonical encodings under the counted strict check

A buffer that passes the counted strict check, the generated check with each table's field count
passed, reads back as a value whose serialization is the buffer itself, for every class `cell.js`
exports. Together with the round trip, that check accepts exactly the encodings. The generated
check lacks only the arity arguments of the tables, and it accepts other buffers.

Two facts carry the proof beyond the offset table. A fixed-size kind reads any buffer of its
size as a value that serializes back to it, so a fixed vector's unchecked items are canonical
too. And the offset check returns the empty table's single boundary before it counts items, so
a table with fields is canonical only if its fields refuse the 4-byte empty table; every
generated table does.
-/

namespace DasTypes

mutual
/-- Every table inside the schema with at least one field refuses the 4-byte empty table, which
the offset check accepts before its arity check. -/
def Schema.refusesEmptyTable : Schema → Bool
  | .dynVec item => item.refusesEmptyTable
  | .table fields => (fields.isEmpty || !decide (countedValidate (.table fields) (u32Bytes 4) false = .ok ())) &&
      Schema.fieldsRefuseEmptyTable fields
  | .option inner => inner.refusesEmptyTable
  | _ => true

/-- Every typed field refuses the empty table wherever it holds a table. -/
def Schema.fieldsRefuseEmptyTable : List (Field Schema) → Bool
  | [] => true
  | .byte _ :: rest => Schema.fieldsRefuseEmptyTable rest
  | .typed schema :: rest => schema.refusesEmptyTable && Schema.fieldsRefuseEmptyTable rest
end

/-- Every exported class refuses the 4-byte empty table wherever it holds a table with fields. -/
theorem exportedSchemas_refuseEmptyTable : ∀ schema ∈ exportedSchemas, schema.refusesEmptyTable := by
  decide

mutual
/-- A fixed-size kind reads every buffer of its size as a value that serializes back to it. -/
theorem read_serialize_fixedSize : ∀ (schema : Schema) (view : Buffer), schema.fixedSize →
    view.length = schema.size → ∃ value, read schema view = .ok value ∧ serialize schema value = .ok view
  | .fixed size, view, _, length => ⟨.bytes view, rfl, by simp [serialize, assertDataLength, length, Schema.size]⟩
  | .struct members, view, fixed, length => by
    obtain ⟨values, readBack, serialized⟩ :=
      readMembers_serialize_fixedSize members view 0 fixed (by simp [length, Schema.size])
    refine ⟨.list values, by simp [read, readBack], ?_⟩
    rw [serialize, serialized, Nat.zero_add, ← show view.length = Schema.membersSize members from length]
    simp [slice]
  | .fixVec _, _, fixed, _ | .bytes, _, fixed, _ | .dynVec _, _, fixed, _ | .table _, _, fixed, _
  | .option _, _, fixed, _ => by cases fixed

/-- Fixed-size members read from `offset` serialize back to their range of the view. -/
theorem readMembers_serialize_fixedSize : ∀ (members : List Schema) (view : Buffer) (offset : Nat),
    Schema.membersFixedSize members → offset + Schema.membersSize members ≤ view.length →
    ∃ values, readMembers members view offset = .ok values ∧
      serializeMembers members values = .ok (slice view (some offset) (some (offset + Schema.membersSize members)))
  | [], view, offset, _, _ => ⟨[], rfl, by simp [serializeMembers, slice, Schema.membersSize]⟩
  | member :: rest, view, offset, fixed, fits => by
    simp only [Schema.membersFixedSize, Bool.and_eq_true] at fixed
    simp only [Schema.membersSize] at fits
    obtain ⟨value, readFirst, serializedFirst⟩ :=
      read_serialize_fixedSize member (slice view (some offset) (some (offset + member.size))) fixed.1
        (by simp only [length_slice]; omega)
    obtain ⟨values, readRest, serializedRest⟩ :=
      readMembers_serialize_fixedSize rest view (offset + member.size) fixed.2 (by omega)
    refine ⟨value :: values, by simp [readMembers, readFirst, readRest], ?_⟩
    simp only [serializeMembers, serializedFirst, serializedRest, except_ok_bind, except_pure, Schema.membersSize,
      ← Nat.add_assoc, slice_append_slice view (Nat.le_add_right offset member.size) (Nat.le_add_right _ _)]
end

/-- The items of a fixed vector laid end to end are the bytes after its count word. -/
theorem flatten_fixVecIndexAt (size : Nat) (view : Buffer) : ∀ count : Nat,
    ((List.range count).map (fixVecIndexAt size view)).flatten = slice view (some 4) (some (4 + count * size))
  | 0 => by simp [slice]
  | count + 1 => by
    rw [List.range_succ, List.map_append, List.flatten_append, flatten_fixVecIndexAt size view count]
    simp only [List.map_cons, List.map_nil, List.flatten_cons, List.flatten_nil, List.append_nil, fixVecIndexAt]
    exact slice_append_slice view (by omega) (by simp only [Nat.add_mul, Nat.one_mul]; omega)

/-- A `mapM` that maps each value to its related result returns those results. -/
theorem mapM_eq_ok_of_forall₂ {α β : Type} {f : α → Except CodecError β} :
    ∀ {results : List β} {values : List α},
      List.Forall₂ (fun result value => f value = .ok result) results values → values.mapM f = .ok results
  | _, _, .nil => rfl
  | _, _, .cons first rest => by rw [List.mapM_cons, first, mapM_eq_ok_of_forall₂ rest]; rfl

/-- Storing a byte's number gives the byte back. -/
theorem uint8_ofNat_toNat (byte : UInt8) : UInt8.ofNat byte.toNat = byte :=
  UInt8.toNat.inj (by simp [show (UInt8.ofNat byte.toNat).toNat = byte.toNat % 256 from rfl,
    Nat.mod_eq_of_lt (show byte.toNat < 256 from byte.toNat_lt_size)])

mutual
/-- A buffer that passes the counted strict check reads back as a value that serializes to it. -/
theorem read_serialize_of_countedValidate : ∀ (schema : Schema) (view : Buffer), schema.wellFormed →
    schema.refusesEmptyTable → countedValidate schema view false = .ok () →
    ∃ value, read schema view = .ok value ∧ serialize schema value = .ok view
  | .fixed size, view, _, _, accepted => by
    have length : view.length = size := by simpa [countedValidate, assertDataLength] using accepted
    exact read_serialize_fixedSize (.fixed size) view rfl length
  | .struct members, view, wellFormed, _, accepted => by
    obtain ⟨⟨⟩, sized, -⟩ := except_bind_eq_ok.mp accepted
    have length : view.length = Schema.membersSize members := by simpa [assertDataLength] using sized
    exact read_serialize_fixedSize (.struct members) view wellFormed length
  | .fixVec item, view, wellFormed, _, accepted => by
    simp only [Schema.wellFormed, Bool.and_eq_true, decide_eq_true_eq] at wellFormed
    obtain ⟨countWord, length⟩ := @validate_fixVec_of_ok item view false accepted
    obtain ⟨values, readItems, related⟩ := @mapM_eq_ok_of_forall _ _
      (fun index => read item (fixVecIndexAt item.size view index))
      (fun index value => serialize item value = .ok (fixVecIndexAt item.size view index)) (List.range (le32 view))
      (fun index mem => by
        have fits := Nat.mul_le_mul_right item.size (show index + 1 ≤ le32 view from List.mem_range.mp mem)
        simp only [Nat.add_mul, Nat.one_mul] at fits
        exact read_serialize_fixedSize item _ wellFormed.1
          (by simp only [fixVecIndexAt, length_slice, Nat.add_mul, Nat.one_mul]; omega))
    refine ⟨.list values, by simp only [read, countWord, except_ok_bind, readItems]; rfl, ?_⟩
    have count : values.length = le32 view := by rw [← related.length_eq, List.length_range]
    simp only [serialize, mapM_eq_ok_of_forall₂ (List.forall₂_map_left_iff.mpr related), except_ok_bind,
      except_pure, count, flatten_fixVecIndexAt, u32Bytes_le32 view (by omega),
      show 4 + le32 view * item.size = view.length by omega]
    simp [slice]
  | .bytes, view, _, _, accepted =>
    ⟨.bytes (view.drop 4), by simp [read, slice], (@validate_bytes_of_ok view false accepted).2⟩
  | .dynVec item, view, wellFormed, refuses, accepted => by
    obtain ⟨offsets, verified, checked⟩ := except_bind_eq_ok.mp accepted
    obtain ⟨values, -, related⟩ := @mapM_eq_ok_of_forall _ _ (read item)
      (fun itemView value => read item itemView = .ok value ∧ serialize item value = .ok itemView)
      (itemSlices view offsets) (fun itemView mem => by
        obtain ⟨value, readBack, serialized⟩ :=
          read_serialize_of_countedValidate item itemView wellFormed refuses (forM_eq_ok.mp checked itemView mem)
        exact ⟨value, readBack, readBack, serialized⟩)
    refine ⟨.list values, read_dynVec_of_verified verified (related.imp fun _ _ both => both.1), ?_⟩
    simp only [serialize, mapM_eq_ok_of_forall₂ (related.imp (fun _ _ both => both.2)), except_ok_bind,
      except_pure, ← serializeTable_itemSlices_of_ok verified]
  | .table fields, view, wellFormed, refuses, accepted => by
    simp only [Schema.refusesEmptyTable, Bool.and_eq_true] at refuses
    obtain ⟨offsets, verified, checked⟩ := except_bind_eq_ok.mp accepted
    have outcome := verifyAndExtractOffsets_outcome view fields.length false
    rw [verified] at outcome
    rcases outcome with ⟨rfl, rfl⟩ | ⟨count, enough, strict, layout⟩
    · cases fields with
      | nil => exact ⟨.list [], rfl, rfl⟩
      | cons field rest => simp [accepted] at refuses
    · have counted : count = fields.length := by simp at strict; omega
      obtain ⟨values, readBack, serialized⟩ :=
        readFields_serialize_of_countedValidate fields view count offsets 0 wellFormed refuses.2 layout
          (by omega) checked
      refine ⟨.list values, by simp [read, ← counted, readBack], ?_⟩
      simp [serialize, serialized, serializeTable_itemSlices layout]
  | .option inner, view, wellFormed, refuses, accepted => by
    simp only [Schema.wellFormed, Bool.and_eq_true] at wellFormed
    by_cases present : view.length > 0
    · simp only [countedValidate, present, if_true] at accepted
      obtain ⟨value, readBack, serialized⟩ := read_serialize_of_countedValidate inner view wellFormed.2 refuses accepted
      exact ⟨.present value, by simp [read, present, readBack], serialized⟩
    · obtain rfl : view = [] := List.eq_nil_of_length_eq_zero (by omega)
      exact ⟨.absent, rfl, rfl⟩

/-- The fields of a table with exactly its declared count, checked strictly from field `index`
on, read back as values that serialize to the slices between their boundaries. -/
theorem readFields_serialize_of_countedValidate : ∀ (fields : List (Field Schema)) (view : Buffer) (count : Nat)
    (offsets : List Nat) (index : Nat), Schema.fieldsWellFormed fields → Schema.fieldsRefuseEmptyTable fields →
    Layout view count offsets → index + fields.length = count →
    countedValidateFields fields view offsets index false = .ok () →
    ∃ values, readFields fields view index count = .ok values ∧
      serializeFields fields values = .ok ((itemSlices view offsets).drop index)
  | [], view, count, offsets, index, _, _, layout, counted, _ => ⟨[], rfl, by
      simp only [List.length_nil, Nat.add_zero] at counted
      rw [List.drop_eq_nil_of_le (by simp [layout.length_offsets]; omega)]; rfl⟩
  | .typed schema :: rest, view, count, offsets, index, wellFormed, refuses, layout, counted, accepted => by
    simp only [Schema.fieldsWellFormed, Schema.fieldsRefuseEmptyTable, Bool.and_eq_true] at wellFormed refuses
    simp only [List.length_cons] at counted
    obtain ⟨⟨⟩, first, later⟩ := except_bind_eq_ok.mp accepted
    have inside : index < (itemSlices view offsets).length := by simp [layout.length_offsets]; omega
    rw [← getElem_itemSlices view inside] at first
    obtain ⟨value, readFirst, serializedFirst⟩ :=
      read_serialize_of_countedValidate schema _ wellFormed.1 refuses.1 first
    obtain ⟨values, readRest, serializedRest⟩ := readFields_serialize_of_countedValidate rest view count offsets
      (index + 1) wellFormed.2 refuses.2 layout (by omega) later
    refine ⟨value :: values, ?_, ?_⟩
    · simp only [readFields, layout.getField_full inside, readFirst, readRest, except_ok_bind, except_pure]
    · rw [List.drop_eq_getElem_cons inside]
      simp only [serializeFields, serializedFirst, serializedRest, except_ok_bind, except_pure]
  | .byte name :: rest, view, count, offsets, index, wellFormed, refuses, layout, counted, accepted => by
    simp only [List.length_cons] at counted
    obtain ⟨placed, later⟩ := except_check_bind_eq_ok.mp accepted
    obtain ⟨values, readRest, serializedRest⟩ := readFields_serialize_of_countedValidate rest view count offsets
      (index + 1) wellFormed refuses layout (by omega) later
    have inside : index < (itemSlices view offsets).length := by simp [layout.length_offsets]; omega
    have bound : index + 1 < offsets.length := by rw [layout.length_offsets]; omega
    have bounded := layout.le_length (List.getElem_mem bound)
    simp only [byteFieldMisplaced, List.getElem?_eq_getElem bound, List.getElem?_eq_getElem (Nat.lt_of_succ_lt bound),
      decide_eq_false_iff_not, not_not] at placed
    have single : (itemSlices view offsets)[index].length = 1 := by
      rw [getElem_itemSlices view inside, List.getElem?_eq_getElem bound,
        List.getElem?_eq_getElem (Nat.lt_of_succ_lt bound), length_slice]
      omega
    obtain ⟨byte, isByte⟩ := List.length_eq_one.mp single
    refine ⟨.byte byte.toNat :: values, ?_, ?_⟩
    · simp [readFields, getByteField, layout.getField_full inside, isByte, getUint8, readRest]
    · rw [List.drop_eq_getElem_cons inside, isByte]
      simp only [serializeFields, serializedRest, uint8_ofNat_toNat, except_ok_bind, except_pure]
end

/-- With each table's field count passed, strict validation accepts only encodings, for every
class `cell.js` exports: a buffer that passes the counted strict check reads back as a value that
serializes to the buffer itself, so no two strictly accepted buffers read back as the same value. -/
theorem strict_counted_validation_canonical :
    (∀ schema ∈ exportedSchemas, ∀ view, countedValidate schema view false = .ok () →
      ∃ value, read schema view = .ok value ∧ serialize schema value = .ok view) ∧
    (∀ schema ∈ exportedSchemas, ∀ view view' value, countedValidate schema view false = .ok () →
      countedValidate schema view' false = .ok () → read schema view = .ok value → read schema view' = .ok value →
      view = view') := by
  have canonical : ∀ schema ∈ exportedSchemas, ∀ view, countedValidate schema view false = .ok () →
      ∃ value, read schema view = .ok value ∧ serialize schema value = .ok view :=
    fun schema exported view accepted => read_serialize_of_countedValidate schema view
      (exportedSchemas_wellFormed schema exported).1 (exportedSchemas_refuseEmptyTable schema exported) accepted
  refine ⟨canonical, fun schema exported view view' value accepted accepted' readBack readBack' => ?_⟩
  obtain ⟨_, read₁, serialized₁⟩ := canonical schema exported view accepted
  obtain ⟨_, read₂, serialized₂⟩ := canonical schema exported view' accepted'
  cases read₁.symm.trans readBack
  cases read₂.symm.trans readBack'
  exact Except.ok.inj (serialized₁.symm.trans serialized₂)

end DasTypes

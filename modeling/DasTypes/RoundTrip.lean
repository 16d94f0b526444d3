import DasTypes.CountedValidate

/-!
# The round trip through serialize, validate and the accessors

A value of a schema's shape is serialized, the buffer is checked by the schema's `validate`,
and the value is read back through the accessors. For every schema of the generated code the
three agree: serialization succeeds, the buffer passes the check whatever `compatible` says,
and the accessors return the value itself.

The conditions on a value are those the generated serializers need and cannot check: every
fixed-size leaf has its declared length, every raw byte field is below 256, and every nested
vector, `Bytes` or table encoding is shorter than 2^32 bytes, so that its length words are
written exactly. The conditions on a schema are what the exported classes satisfy: structs and
fixed vectors hold fixed-size kinds, fixed vectors hold items of positive size, and an option
never wraps a kind whose encoding can be empty. An absent option then encodes to no bytes, and
no other value of an exported schema does.
-/

namespace DasTypes

/-- A kind whose encodings are never empty: every kind but an option and a zero-size
fixed-size kind. -/
def Schema.neverEmpty : Schema → Bool
  | .fixed size => 0 < size
  | .struct members => 0 < Schema.membersSize members
  | .option _ => false
  | _ => true

mutual
/-- The schemas the generator produces: a struct or a fixed vector holds fixed-size kinds, a
fixed vector's items have a positive size, and an option's encoding is never empty when
present. -/
def Schema.wellFormed : Schema → Bool
  | .fixed _ => true
  | .struct members => Schema.membersFixedSize members
  | .fixVec item => item.fixedSize && 0 < item.size
  | .bytes => true
  | .dynVec item => item.wellFormed
  | .table fields => Schema.fieldsWellFormed fields
  | .option inner => inner.neverEmpty && inner.wellFormed

/-- Every typed field of a table is well formed. -/
def Schema.fieldsWellFormed : List (Field Schema) → Bool
  | [] => true
  | .byte _ :: rest => Schema.fieldsWellFormed rest
  | .typed schema :: rest => schema.wellFormed && Schema.fieldsWellFormed rest
end

/-- An empty encoding of the schema can only be that of an absent option. -/
def Schema.emptyOnlyWhenAbsent : Schema → Bool
  | .option inner => inner.neverEmpty
  | schema => schema.neverEmpty

/-- Every exported class is well formed, and its empty encoding can only be an absent option. -/
theorem exportedSchemas_wellFormed :
    ∀ schema ∈ exportedSchemas, schema.wellFormed ∧ schema.emptyOnlyWhenAbsent := by
  decide

/-- Whatever `serialize` writes for the value is shorter than 2^32 bytes. -/
def EncodesBelow (schema : Schema) (value : Value) : Prop :=
  ∀ buffer, serialize schema value = .ok buffer → buffer.length < 4294967296

/-- A value whose encoding is short enough encodes below 2^32 bytes. -/
theorem encodesBelow_of_eq {schema : Schema} {value : Value} {buffer : Buffer}
    (serialized : serialize schema value = .ok buffer) (short : buffer.length < 4294967296) :
    EncodesBelow schema value := fun other serializedOther => by
  rw [serialized, Except.ok.injEq] at serializedOther
  exact serializedOther ▸ short

mutual
/-- A value of the schema's shape: leaves of their declared length, raw bytes below 256, and
every nested vector, `Bytes` or table encoding shorter than 2^32 bytes. -/
def Admits : Schema → Value → Prop
  | .fixed size, .bytes data => data.length = size
  | .struct members, .list values => AdmitsMembers members values
  | .fixVec item, .list values =>
    (∀ value ∈ values, Admits item value) ∧ EncodesBelow (.fixVec item) (.list values)
  | .bytes, .bytes data => EncodesBelow .bytes (.bytes data)
  | .dynVec item, .list values =>
    (∀ value ∈ values, Admits item value) ∧ EncodesBelow (.dynVec item) (.list values)
  | .table fields, .list values => AdmitsFields fields values ∧ EncodesBelow (.table fields) (.list values)
  | .option _, .absent => True
  | .option inner, .present value => Admits inner value
  | _, _ => False

/-- One admitted value per struct member, in order. -/
def AdmitsMembers : List Schema → List Value → Prop
  | [], [] => True
  | member :: rest, value :: values => Admits member value ∧ AdmitsMembers rest values
  | _, _ => False

/-- One admitted value per table field, in order: a number below 256 for a raw byte. -/
def AdmitsFields : List (Field Schema) → List Value → Prop
  | [], [] => True
  | .typed schema :: rest, value :: values => Admits schema value ∧ AdmitsFields rest values
  | .byte _ :: rest, .byte value :: values => value < 256 ∧ AdmitsFields rest values
  | _, _ => False
end

/-- A fixed-size kind is well formed. -/
theorem wellFormed_of_fixedSize : ∀ schema : Schema, schema.fixedSize → schema.wellFormed
  | .fixed _, _ => rfl
  | .struct _, fixed => fixed
  | .fixVec _, fixed | .bytes, fixed | .dynVec _, fixed | .table _, fixed | .option _, fixed => by cases fixed

/-! ## Loops over lists of parts -/

/-- A `mapM` whose every step succeeds returns one related result per input. -/
theorem mapM_eq_ok_of_forall {α β : Type} {f : α → Except CodecError β} (P : α → β → Prop) :
    ∀ values : List α, (∀ value ∈ values, ∃ result, f value = .ok result ∧ P value result) →
      ∃ results, values.mapM f = .ok results ∧ List.Forall₂ P values results
  | [], _ => ⟨[], rfl, .nil⟩
  | value :: rest, each => by
    obtain ⟨result, first, holds⟩ := each value (List.mem_cons_self _ _)
    obtain ⟨results, later, hold⟩ :=
      mapM_eq_ok_of_forall P rest (fun other mem => each other (List.mem_cons_of_mem _ mem))
    exact ⟨result :: results, by rw [List.mapM_cons, first, later]; rfl, .cons holds hold⟩

/-- Running `f` over the positions from `start` returns the values it gives at each of them. -/
theorem mapM_range'_eq_ok {α : Type} {f : Nat → Except CodecError α} :
    ∀ (start : Nat) (values : List α),
      (∀ index (inside : index < values.length), f (start + index) = .ok values[index]) →
      (List.range' start values.length).mapM f = .ok values
  | _, [], _ => rfl
  | start, value :: rest, each => by
    have first := each 0 (by simp)
    have later := mapM_range'_eq_ok (start + 1) rest (fun index inside => by
      simpa [Nat.add_assoc, Nat.add_comm 1] using each (index + 1) (by simpa using inside))
    simp only [List.length_cons, List.range'_succ, List.mapM_cons]
    simp_all

/-- An accessor loop `for (let i = 0; i < values.length; i++)` that reads item `i` as the
`i`-th value returns the values. -/
theorem mapM_range_eq_ok {α : Type} {f : Nat → Except CodecError α} (values : List α)
    (each : ∀ index (inside : index < values.length), f index = .ok values[index]) :
    (List.range values.length).mapM f = .ok values := by
  rw [List.range_eq_range']
  exact mapM_range'_eq_ok 0 values (fun index inside => by simpa using each index inside)

/-- Two lists related pointwise are related at every common position. -/
theorem forall₂_getElem {α β : Type} {P : α → β → Prop} {as : List α} {bs : List β}
    (related : List.Forall₂ P as bs) (index : Nat) (left : index < as.length) (right : index < bs.length) :
    P as[index] bs[index] := by
  simpa using related.get left right

/-- Items of one size join into that size times their number. -/
theorem length_flatten_of_sized {size : Nat} :
    ∀ items : List Buffer, (∀ item ∈ items, item.length = size) → items.flatten.length = items.length * size
  | [], _ => by simp
  | item :: rest, sized => by
    rw [List.flatten_cons, List.length_append, sized item (List.mem_cons_self _ _),
      length_flatten_of_sized rest (fun other mem => sized other (List.mem_cons_of_mem _ mem))]
    simp [Nat.succ_mul, Nat.add_comm]

/-! ## The encodings `serialize` writes, as the accessors see them -/

/-- `indexAt(i)` of a fixed vector: equal-size items laid end to end after a header are read
back one by one. -/
theorem slice_flatten_chunk {size : Nat} : ∀ (front : Buffer) (items : List Buffer),
    (∀ item ∈ items, item.length = size) → ∀ index (inside : index < items.length),
      slice (front ++ items.flatten) (some (front.length + index * size))
        (some (front.length + (index + 1) * size)) = items[index]
  | _, [], _, _, inside => by simp at inside
  | front, item :: rest, sized, 0, _ => by
    have itemLength := sized item (List.mem_cons_self _ _)
    simpa [← List.append_assoc, itemLength] using slice_middle front item rest.flatten
  | front, item :: rest, sized, index + 1, inside => by
    have itemLength := sized item (List.mem_cons_self _ _)
    have later := slice_flatten_chunk (front ++ item) rest
      (fun other mem => sized other (List.mem_cons_of_mem _ mem)) index (by simpa using inside)
    simp only [List.length_append, itemLength, List.append_assoc] at later
    simp only [List.flatten_cons, List.getElem_cons_succ]
    rw [← later]
    congr 2 <;> ring_nf

/-- `serializeTable` output is never empty: it holds at least its total-length word. -/
theorem serializeTable_ne_nil (buffers : List Buffer) : serializeTable buffers ≠ [] := by
  intro empty
  have := congrArg List.length empty
  rw [length_serializeTable] at this
  simp at this

/-- Tables and dynamic vectors check their own encodings with the arguments `0` and `true`. -/
theorem verifyAndExtractOffsets_serializeTable_loose {buffers : List Buffer}
    (fits : 4 * (buffers.length + 1) + (buffers.map List.length).sum < 4294967296) :
    verifyAndExtractOffsets (serializeTable buffers) 0 true =
      .ok (prefixBoundaries (4 * (buffers.length + 1)) buffers) :=
  verifyAndExtractOffsets_serializeTable fits (.inr ⟨Nat.zero_le _, nofun⟩)

/-- `read` of a dynamic vector whose offsets were accepted reads one value from each slice
`validate` checked. -/
theorem read_dynVec_of_verified {item : Schema} {view : Buffer} {offsets : List Nat} {values : List Value}
    (verified : verifyAndExtractOffsets view 0 true = .ok offsets)
    (related : List.Forall₂ (fun itemView value => read item itemView = .ok value) (itemSlices view offsets) values) :
    read (.dynVec item) view = .ok (.list values) := by
  obtain ⟨length, indexAt⟩ := dynVecAccessors_of_verified verified
  have count := related.length_eq
  simp only [read, length, count, Int.ceil_natCast, Int.toNat_natCast]
  rw [mapM_range_eq_ok values (fun index inside => by
    rw [indexAt index (by omega), except_ok_bind]
    exact forall₂_getElem related index (by omega) inside)]
  rfl

/-- From field `index` on, each buffer stands between its two boundaries and is what the
field's getter returns. This is what a table's field checks and getters need of its view. -/
def Presents (view : Buffer) (offsets : List Nat) (fieldCount : Nat) : Nat → List Buffer → Prop
  | _, [] => True
  | index, buffer :: rest =>
    (∃ start, offsets[index]? = some start ∧ offsets[index + 1]? = some (start + buffer.length) ∧
      slice view offsets[index]? offsets[index + 1]? = buffer ∧ getField view index fieldCount = .ok buffer) ∧
    Presents view offsets fieldCount (index + 1) rest

/-- Consecutive prefix-sum boundaries are one item apart. -/
theorem getElem?_prefixBoundaries_succ : ∀ (start : Nat) (buffers : List Buffer) (index : Nat)
    (inside : index < buffers.length) (boundary : Nat),
    (prefixBoundaries start buffers)[index]? = some boundary →
      (prefixBoundaries start buffers)[index + 1]? = some (boundary + buffers[index].length)
  | _, [], _, inside, _, _ => by simp at inside
  | start, buffer :: rest, 0, _, boundary, first => by
    rw [prefixBoundaries, prefixBoundaries_eq_cons] at first ⊢
    simp only [List.getElem?_cons_zero, Option.some.injEq] at first
    simp [first]
  | start, buffer :: rest, index + 1, inside, boundary, atIndex => by
    rw [prefixBoundaries, List.getElem?_cons_succ] at atIndex ⊢
    exact getElem?_prefixBoundaries_succ _ rest index (by simpa using inside) boundary atIndex

/-- The buffers stand between their boundaries from `index` on when each of them does. -/
theorem presents_of_forall {view : Buffer} {offsets : List Nat} {fieldCount : Nat} :
    ∀ (index : Nat) (buffers : List Buffer),
      (∀ j (inside : j < buffers.length), ∃ start, offsets[index + j]? = some start ∧
        offsets[index + j + 1]? = some (start + buffers[j].length) ∧
        slice view offsets[index + j]? offsets[index + j + 1]? = buffers[j] ∧
        getField view (index + j) fieldCount = .ok buffers[j]) →
      Presents view offsets fieldCount index buffers
  | _, [], _ => trivial
  | index, buffer :: rest, each => ⟨by simpa using each 0 (by simp),
      presents_of_forall (index + 1) rest (fun j inside => by
        simpa [Nat.add_assoc, Nat.add_comm 1] using each (j + 1) (by simpa using inside))⟩

/-- Every field of a serialized table stands between its boundaries, and its getter returns it. -/
theorem presents_serializeTable {buffers : List Buffer}
    (fits : 4 * (buffers.length + 1) + (buffers.map List.length).sum < 4294967296) :
    Presents (serializeTable buffers) (prefixBoundaries (4 * (buffers.length + 1)) buffers)
      buffers.length 0 buffers := by
  by_cases empty : buffers = []
  · subst empty; trivial
  have layout := serializeTable_layout empty fits
  refine presents_of_forall 0 buffers (fun j inside => ?_)
  rw [Nat.zero_add]
  have bound : j < (prefixBoundaries (4 * (buffers.length + 1)) buffers).length := by
    rw [layout.length_offsets]; omega
  have slot : j < (itemSlices (serializeTable buffers) (prefixBoundaries (4 * (buffers.length + 1)) buffers)).length := by
    rwa [itemSlices_serializeTable]
  have item := getElem_itemSlices _ slot
  have getter := layout.getField_full slot
  simp only [itemSlices_serializeTable] at item getter
  exact ⟨_, List.getElem?_eq_getElem bound,
    getElem?_prefixBoundaries_succ _ _ j inside _ (List.getElem?_eq_getElem bound), item.symm, getter⟩

/-! ## The round trip -/

mutual
/-- Serializing an admitted value of a well-formed schema succeeds; the buffer passes the
schema's check in either mode, reads back as the value, has the schema's size when the kind
is fixed-size, and is not empty when the kind's encodings never are. -/
theorem serialize_validate_read : ∀ (schema : Schema) (value : Value), schema.wellFormed →
    Admits schema value →
    ∃ buffer, serialize schema value = .ok buffer ∧
      (∀ compatible, countedValidate schema buffer compatible = .ok ()) ∧
      read schema buffer = .ok value ∧ (schema.fixedSize → buffer.length = schema.size) ∧
      (schema.neverEmpty → buffer ≠ [])
  | .fixed size, value, _, admitted => by
    cases value with
    | bytes data =>
      have length : data.length = size := admitted
      refine ⟨data, by simp [serialize, assertDataLength, length], fun _ => by simp [countedValidate, assertDataLength, length],
        rfl, fun _ => length, fun nonEmpty => ?_⟩
      simp only [Schema.neverEmpty, decide_eq_true_eq] at nonEmpty
      exact List.ne_nil_of_length_pos (by omega)
    | _ => exact admitted.elim
  | .struct members, value, wellFormed, admitted => by
    cases value with
    | list values =>
      obtain ⟨buffer, serialized, length, membersOk⟩ :=
        serializeMembers_validate_read members values wellFormed admitted
      have atStart := fun compatible => membersOk [] [] compatible
      simp only [List.nil_append, List.append_nil, List.length_nil] at atStart
      refine ⟨buffer, serialized, fun compatible => ?_, ?_, fun _ => length, fun nonEmpty => ?_⟩
      · simp [countedValidate, assertDataLength, length, (atStart compatible).1]
      · simp [read, (atStart false).2]
      · simp only [Schema.neverEmpty, decide_eq_true_eq] at nonEmpty
        exact List.ne_nil_of_length_pos (by omega)
    | _ => exact admitted.elim
  | .fixVec item, value, wellFormed, admitted => by
    cases value with
    | list values =>
      obtain ⟨admittedItems, below⟩ := admitted
      simp only [Schema.wellFormed, Bool.and_eq_true, decide_eq_true_eq] at wellFormed
      obtain ⟨fixed, positive⟩ := wellFormed
      obtain ⟨items, serializedItems, related⟩ :=
        mapM_eq_ok_of_forall (fun value buffer => buffer.length = item.size ∧ read item buffer = .ok value) values
          (fun value mem => by
            obtain ⟨buffer, serialized, -, readBack, length, -⟩ :=
              serialize_validate_read item value (wellFormed_of_fixedSize item fixed) (admittedItems value mem)
            exact ⟨buffer, serialized, length fixed, readBack⟩)
      have count := related.length_eq
      have sized : ∀ buffer ∈ items, buffer.length = item.size := fun buffer mem => by
        obtain ⟨index, inside, rfl⟩ := List.getElem_of_mem mem
        exact (forall₂_getElem related index (by omega) inside).1
      have length : (u32Bytes values.length ++ items.flatten).length = 4 + values.length * item.size := by
        rw [List.length_append, length_u32Bytes, length_flatten_of_sized items sized, count]
      have encoded : serialize (.fixVec item) (.list values) = .ok (u32Bytes values.length ++ items.flatten) := by
        simp only [serialize, serializedItems]; rfl
      have fits : values.length < 4294967296 := by
        have := below _ encoded
        rw [length] at this
        have := Nat.le_mul_of_pos_right values.length positive
        omega
      have countWord : fixVecLength (u32Bytes values.length ++ items.flatten) = .ok values.length := by
        rw [fixVecLength, getUint32_of_le (by omega), List.drop_zero, le32_u32Bytes_of_lt fits]
      refine ⟨_, encoded, fun _ => ?_, ?_, nofun, fun _ => List.ne_nil_of_length_pos (by omega)⟩
      · simp [countedValidate, countWord, assertDataLength, length, Nat.add_comm]
      · have slots := slice_flatten_chunk (u32Bytes values.length) items sized
        simp only [length_u32Bytes] at slots
        simp only [read, countWord, except_ok_bind]
        rw [mapM_range_eq_ok values (fun index inside => by
          rw [fixVecIndexAt, slots index (by omega)]
          exact (forall₂_getElem related index inside (by omega)).2)]
        rfl
    | _ => exact admitted.elim
  | .bytes, value, _, admitted => by
    cases value with
    | bytes data =>
      have encoded : serialize .bytes (.bytes data) = .ok (u32Bytes data.length ++ data) := rfl
      have fits := admitted _ encoded
      simp only [List.length_append, length_u32Bytes] at fits
      refine ⟨_, encoded, fun _ => ?_, ?_, nofun, fun _ => by simp [u32Bytes]⟩
      · simp [countedValidate, getUint32_of_le, le32_u32Bytes_of_lt (show data.length < 4294967296 by omega),
          assertDataLength, Nat.add_comm]
      · simp only [read, slice, Option.getD_none, Option.getD_some, List.take_length,
          List.drop_left' (length_u32Bytes _), except_pure]
    | _ => exact admitted.elim
  | .dynVec item, value, wellFormed, admitted => by
    cases value with
    | list values =>
      obtain ⟨admittedItems, below⟩ := admitted
      obtain ⟨items, serializedItems, related⟩ :=
        mapM_eq_ok_of_forall (fun value buffer => (∀ compatible, countedValidate item buffer compatible = .ok ()) ∧
          read item buffer = .ok value) values
          (fun value mem => by
            obtain ⟨buffer, serialized, valid, readBack, -, -⟩ :=
              serialize_validate_read item value wellFormed (admittedItems value mem)
            exact ⟨buffer, serialized, valid, readBack⟩)
      have count := related.length_eq
      have encoded : serialize (.dynVec item) (.list values) = .ok (serializeTable items) := by
        simp only [serialize, serializedItems]; rfl
      have fits := below _ encoded
      rw [length_serializeTable] at fits
      refine ⟨_, encoded, fun _ => ?_, ?_, nofun, fun _ => serializeTable_ne_nil items⟩
      · simp only [countedValidate, verifyAndExtractOffsets_serializeTable_loose fits, except_ok_bind,
          itemSlices_serializeTable]
        refine forM_eq_ok.mpr (fun buffer mem => ?_)
        obtain ⟨index, inside, rfl⟩ := List.getElem_of_mem mem
        exact (forall₂_getElem related index (by omega) inside).1 _
      · refine read_dynVec_of_verified (verifyAndExtractOffsets_serializeTable_loose fits) ?_
        rw [itemSlices_serializeTable]
        exact (related.imp fun _ _ both => both.2).flip
    | _ => exact admitted.elim
  | .table fields, value, wellFormed, admitted => by
    cases value with
    | list values =>
      obtain ⟨admittedFields, below⟩ := admitted
      obtain ⟨buffers, serialized, count, fieldsOk⟩ :=
        serializeFields_validate_read fields values wellFormed admittedFields
      have encoded : serialize (.table fields) (.list values) = .ok (serializeTable buffers) := by
        simp [serialize, serialized]
      have fits := below _ encoded
      rw [length_serializeTable] at fits
      obtain ⟨valid, readBack⟩ := fieldsOk _ _ buffers.length 0 (presents_serializeTable fits)
      refine ⟨_, encoded, fun compatible => ?_, ?_, nofun, fun _ => serializeTable_ne_nil buffers⟩
      · have offsets := @verifyAndExtractOffsets_serializeTable buffers fields.length compatible fits
          (.inr ⟨count.ge, fun _ => count.symm⟩)
        simp [countedValidate, offsets, valid]
      · simp [read, ← count, readBack]
    | _ => exact admitted.elim
  | .option inner, value, wellFormed, admitted => by
    cases value with
    | absent => exact ⟨[], rfl, fun _ => rfl, rfl, nofun, nofun⟩
    | present value =>
      simp only [Schema.wellFormed, Bool.and_eq_true] at wellFormed
      obtain ⟨buffer, serialized, valid, readBack, -, nonEmpty⟩ :=
        serialize_validate_read inner value wellFormed.2 admitted
      have positive : buffer.length > 0 := List.length_pos.mpr (nonEmpty wellFormed.1)
      exact ⟨buffer, serialized, fun compatible => by simp [countedValidate, positive, valid],
        by simp [read, positive, readBack], nofun, nofun⟩
    | _ => exact admitted.elim

/-- The members of a struct, serialized and placed anywhere in a larger view, pass their
checks and read back from their offset. -/
theorem serializeMembers_validate_read : ∀ (members : List Schema) (values : List Value),
    Schema.membersFixedSize members → AdmitsMembers members values →
    ∃ buffer, serializeMembers members values = .ok buffer ∧ buffer.length = Schema.membersSize members ∧
      ∀ (front back : Buffer) (compatible : Bool),
        countedValidateMembers members (front ++ buffer ++ back) front.length compatible = .ok () ∧
        readMembers members (front ++ buffer ++ back) front.length = .ok values
  | [], [], _, _ => ⟨[], rfl, rfl, fun _ _ _ => ⟨rfl, rfl⟩⟩
  | member :: rest, value :: values, fixed, ⟨first, later⟩ => by
    simp only [Schema.membersFixedSize, Bool.and_eq_true] at fixed
    obtain ⟨head, headSerialized, headValid, headRead, headLength, -⟩ :=
      serialize_validate_read member value (wellFormed_of_fixedSize member fixed.1) first
    have headSize := headLength fixed.1
    obtain ⟨tail, tailSerialized, tailLength, tailOk⟩ := serializeMembers_validate_read rest values fixed.2 later
    refine ⟨head ++ tail, by simp [serializeMembers, headSerialized, tailSerialized],
      by simp [Schema.membersSize, headSize, tailLength], fun front back compatible => ?_⟩
    have slot : slice (front ++ (head ++ tail) ++ back) (some front.length)
        (some (front.length + member.size)) = head := by
      rw [← headSize, show front ++ (head ++ tail) ++ back = front ++ head ++ (tail ++ back) by simp]
      exact slice_middle _ _ _
    have restOk := tailOk (front ++ head) back compatible
    rw [List.length_append, headSize, show front ++ head ++ tail ++ back = front ++ (head ++ tail) ++ back by simp]
      at restOk
    simp only [countedValidateMembers, readMembers, slot, headValid, headRead, restOk, except_ok_bind, except_pure,
      and_self]
  | [], _ :: _, _, admitted | _ :: _, [], _, admitted => admitted.elim

/-- The fields of a table, serialized, pass their checks and read back through their getters
from any view where each stands between its boundaries. -/
theorem serializeFields_validate_read : ∀ (fields : List (Field Schema)) (values : List Value),
    Schema.fieldsWellFormed fields → AdmitsFields fields values →
    ∃ buffers, serializeFields fields values = .ok buffers ∧ buffers.length = fields.length ∧
      ∀ (view : Buffer) (offsets : List Nat) (fieldCount index : Nat),
        Presents view offsets fieldCount index buffers →
        (∀ compatible, countedValidateFields fields view offsets index compatible = .ok ()) ∧
          readFields fields view index fieldCount = .ok values
  | [], [], _, _ => ⟨[], rfl, rfl, fun _ _ _ _ _ => ⟨fun _ => rfl, rfl⟩⟩
  | .typed schema :: rest, value :: values, wellFormed, ⟨first, later⟩ => by
    simp only [Schema.fieldsWellFormed, Bool.and_eq_true] at wellFormed
    obtain ⟨head, headSerialized, headValid, headRead, -, -⟩ :=
      serialize_validate_read schema value wellFormed.1 first
    obtain ⟨tail, tailSerialized, tailLength, tailOk⟩ := serializeFields_validate_read rest values wellFormed.2 later
    refine ⟨head :: tail, by simp [serializeFields, headSerialized, tailSerialized], by simp [tailLength],
      fun view offsets fieldCount index presents => ?_⟩
    obtain ⟨⟨_, -, -, slot, getter⟩, laterPresent⟩ := presents
    obtain ⟨restValid, restRead⟩ := tailOk view offsets fieldCount (index + 1) laterPresent
    exact ⟨fun compatible => by simp [countedValidateFields, slot, headValid, restValid],
      by simp [readFields, getter, headRead, restRead]⟩
  | .byte name :: rest, value :: values, wellFormed, admitted => by
    cases value with
    | byte value =>
      obtain ⟨small, later⟩ := admitted
      obtain ⟨tail, tailSerialized, tailLength, tailOk⟩ := serializeFields_validate_read rest values wellFormed later
      refine ⟨[UInt8.ofNat value] :: tail, by simp [serializeFields, tailSerialized], by simp [tailLength],
        fun view offsets fieldCount index presents => ?_⟩
      obtain ⟨⟨start, here, next, -, getter⟩, laterPresent⟩ := presents
      obtain ⟨restValid, restRead⟩ := tailOk view offsets fieldCount (index + 1) laterPresent
      have byte : getUint8 [UInt8.ofNat value] 0 = .ok value := by
        simp [getUint8, show (UInt8.ofNat value).toNat = value % 256 from rfl, Nat.mod_eq_of_lt small]
      exact ⟨fun compatible => by simp [countedValidateFields, here, next, byteFieldMisplaced, restValid],
        by simp [readFields, getByteField, getter, byte, restRead]⟩
    | _ => exact admitted.elim
  | [], _ :: _, _, admitted | .typed _ :: _, [], _, admitted | .byte _ :: _, [], _, admitted => admitted.elim
end

/-- An admitted value's encoding is empty exactly when it is an absent option, for every schema
whose empty encodings are only those. -/
theorem serialize_eq_nil_iff {schema : Schema} {value : Value} {buffer : Buffer}
    (wellFormed : schema.wellFormed) (visible : schema.emptyOnlyWhenAbsent) (admitted : Admits schema value)
    (serialized : serialize schema value = .ok buffer) : buffer = [] ↔ value = .absent := by
  cases schema with
  | option inner =>
    cases value with
    | absent => simpa [serialize] using serialized.symm
    | present value =>
      simp only [Schema.wellFormed, Bool.and_eq_true] at wellFormed
      obtain ⟨encoded, serializedInner, -, -, -, nonEmpty⟩ :=
        serialize_validate_read inner value wellFormed.2 admitted
      rw [serialize, serializedInner, Except.ok.injEq] at serialized
      simpa [← serialized] using nonEmpty visible
    | _ => exact admitted.elim
  | _ =>
    obtain ⟨encoded, serializedAgain, -, -, -, nonEmpty⟩ := serialize_validate_read _ value wellFormed admitted
    rw [serializedAgain, Except.ok.injEq] at serialized
    have present : value ≠ .absent := by rintro rfl; exact admitted
    simp [← serialized, nonEmpty visible, present]

/-- The whole-schema round trip for every class `cell.js` exports: an admitted value serializes,
the buffer passes `validate` in either mode, the accessors read the value back, and the buffer
is empty exactly for an absent option. -/
theorem exported_round_trip :
    ∀ schema ∈ exportedSchemas, ∀ value, Admits schema value →
      ∃ buffer, serialize schema value = .ok buffer ∧ (∀ compatible, validate schema buffer compatible = .ok ()) ∧
        read schema buffer = .ok value ∧ (buffer = [] ↔ value = .absent) := by
  intro schema exported value admitted
  obtain ⟨wellFormed, visible⟩ := exportedSchemas_wellFormed schema exported
  obtain ⟨buffer, serialized, valid, readBack, -, -⟩ := serialize_validate_read schema value wellFormed admitted
  exact ⟨buffer, serialized, validate_of_countedValidate schema buffer false (valid false), readBack,
    serialize_eq_nil_iff wellFormed visible admitted serialized⟩

/-- A present script with a zero code hash, hash type 1 and one argument byte. -/
theorem exported_round_trip_script :
    ScriptOpt ∈ exportedSchemas ∧
      Admits ScriptOpt (.present (.list [.bytes (List.replicate 32 0), .byte 1, .bytes [7]])) ∧
      ∃ buffer, serialize ScriptOpt (.present (.list [.bytes (List.replicate 32 0), .byte 1, .bytes [7]])) =
          .ok buffer ∧
        (∀ compatible, validate ScriptOpt buffer compatible = .ok ()) ∧
        read ScriptOpt buffer = .ok (.present (.list [.bytes (List.replicate 32 0), .byte 1, .bytes [7]])) ∧
        (buffer = [] ↔ Value.present (.list [.bytes (List.replicate 32 0), .byte 1, .bytes [7]]) = .absent) :=
  have exported : ScriptOpt ∈ exportedSchemas := by simp [exportedSchemas]
  have admitted : Admits ScriptOpt (.present (.list [.bytes (List.replicate 32 0), .byte 1, .bytes [7]])) :=
    ⟨⟨rfl, by decide, encodesBelow_of_eq rfl (by decide), trivial⟩, encodesBelow_of_eq rfl (by decide)⟩
  ⟨exported, admitted, exported_round_trip ScriptOpt exported _ admitted⟩

/-- The counted check refuses no encoding: every admitted value of a well-formed schema serializes
to a buffer that passes the generated check with each table's field count passed, in both modes. -/
theorem encodings_pass_counted_validation (schema : Schema) (value : Value) (wellFormed : schema.wellFormed)
    (admitted : Admits schema value) :
    ∃ buffer, serialize schema value = .ok buffer ∧ ∀ compatible, countedValidate schema buffer compatible = .ok () := by
  obtain ⟨buffer, serialized, valid, -⟩ := serialize_validate_read schema value wellFormed admitted
  exact ⟨buffer, serialized, valid⟩

/-- A discount of 7 as a `DiscountConfig`. -/
theorem encodings_pass_counted_validation_discount :
    Schema.wellFormed DiscountConfig ∧ Admits DiscountConfig (.list [.bytes [7, 0, 0, 0]]) ∧
      ∃ buffer, serialize DiscountConfig (.list [.bytes [7, 0, 0, 0]]) = .ok buffer ∧
        ∀ compatible, countedValidate DiscountConfig buffer compatible = .ok () :=
  have wellFormed : Schema.wellFormed DiscountConfig := rfl
  have admitted : Admits DiscountConfig (.list [.bytes [7, 0, 0, 0]]) :=
    ⟨⟨rfl, trivial⟩, encodesBelow_of_eq rfl (by decide)⟩
  ⟨wellFormed, admitted, encodings_pass_counted_validation _ _ wellFormed admitted⟩

end DasTypes

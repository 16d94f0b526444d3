import DasTypes.Arity
import DasTypes.Canonical

/-!
# Navigating views: the trust path of the accessors

A caller validates a buffer once, in the constructor, and then navigates it. Every struct
getter, table getter, `indexAt(i)` and `value()` builds its child with `{ validate: false }`,
trusting that the parent's `validate` already checked the child's bytes. An `Accessor` step is
one such call, and a run is any sequence of them.

Over the generated code that trust is sound exactly where the parent's checks and its getters
agree on the child's bytes. Every view reached from a buffer that passed `validate` passes its
own `validate`, and every accessor a caller may call on it returns instead of throwing, as long
as each table passed through holds exactly its declared number of items, the arity check the
generated `validate` skips. Under the counted strict check, the generated check with each table's
field count passed, that arity holds at every table a run reaches, so every run from a strictly
accepted buffer of an exported class is safe.

Both checks keep a child valid for the same reasons: each passes a struct only at its size, a
fixed-size kind at its size, a vector's items and a table's fields over the slices of its
boundaries, and a present option's inner value. `CheckLaws` states these once, and one step
lemma over any check that obeys them serves both.
-/

namespace DasTypes

/-- A view of a generated class: the schema of its class and the buffer its `DataView` wraps. -/
structure View where
  schema : Schema
  buffer : Buffer

/-- One accessor call that returns a child view built with `{ validate: false }`: a struct getter,
`indexAt(i)` of a vector below its `length()`, a typed table getter, and `value()` of an option
that `hasValue()`. -/
inductive Accessor : View → View → Prop
  | member {members : List Schema} {view : Buffer} {index : Nat} {member : Schema}
      (found : members[index]? = some member) :
      Accessor ⟨.struct members, view⟩
        ⟨member, slice view (some (memberStart members index)) (some (memberStart members index + member.size))⟩
  | fixVecItem {item : Schema} {view : Buffer} {count index : Nat}
      (counted : fixVecLength view = .ok count) (inside : index < count) :
      Accessor ⟨.fixVec item, view⟩ ⟨item, fixVecIndexAt item.size view index⟩
  | dynVecItem {item : Schema} {view itemView : Buffer} {index : Nat}
      (inside : (index : ℚ) < dynVecLength view) (indexed : dynVecIndexAt view index = .ok itemView) :
      Accessor ⟨.dynVec item, view⟩ ⟨item, itemView⟩
  | field {fields : List (Field Schema)} {view fieldView : Buffer} {index : Nat} {schema : Schema}
      (typed : fields[index]? = some (.typed schema)) (got : getField view index fields.length = .ok fieldView) :
      Accessor ⟨.table fields, view⟩ ⟨schema, fieldView⟩
  | value {inner : Schema} {view : Buffer} (present : view.length > 0) :
      Accessor ⟨.option inner, view⟩ ⟨inner, view⟩

/-- A table holds exactly its declared number of items: the offsets its `validate` extracts bound
`fields.length` items. This is the arity check the generated `validate` skips; other kinds have
no arity. -/
def View.arityHolds : View → Bool
  | ⟨.table fields, view⟩ =>
    match verifyAndExtractOffsets view 0 true with
    | .ok offsets => offsets.length == fields.length + 1
    | .error _ => false
  | _ => true

/-- An accessor call made on a view that holds its declared arity: the steps over which the
generated check is kept. -/
structure ArityStep (here next : View) : Prop where
  step : Accessor here next
  arity : here.arityHolds

/-- Every accessor call a caller may make on the view returns instead of throwing: `indexAt(i)` of
a byte array below its size, `length()` of `Bytes` and `indexAt(i)` below it, `length()` of a
fixed vector, `indexAt(i)` of a dynamic vector below `length()`, and every getter of a table,
typed or raw. Struct getters, a fixed vector's `indexAt(i)` and `value()` only slice. -/
def View.AccessorsReturn : View → Prop
  | ⟨.fixed size, view⟩ => ∀ index < size, ∃ byte, fixedIndexAt view index = .ok byte
  | ⟨.bytes, view⟩ => ∃ length, bytesLength view = .ok length ∧
      ∀ index < length, ∃ byte, bytesIndexAt view index = .ok byte
  | ⟨.fixVec _, view⟩ => ∃ count, fixVecLength view = .ok count
  | ⟨.dynVec _, view⟩ => ∀ index : Nat, (index : ℚ) < dynVecLength view →
      ∃ itemView, dynVecIndexAt view index = .ok itemView
  | ⟨.table fields, view⟩ =>
      (∀ index schema, fields[index]? = some (.typed schema) →
        ∃ fieldView, getField view index fields.length = .ok fieldView) ∧
      ∀ index name, fields[index]? = some (.byte name) →
        ∃ byte, getByteField view index fields.length = .ok byte
  | ⟨.struct _, _⟩ | ⟨.option _, _⟩ => True

/-! ## The parts a getter selects -/

/-- A struct getter's slice lies inside the struct. -/
theorem memberStart_add_size_le : ∀ {members : List Schema} {index : Nat} {member : Schema},
    members[index]? = some member → memberStart members index + member.size ≤ Schema.membersSize members
  | [], _, _, found => by simp at found
  | first :: rest, 0, member, found => by
    simp only [List.getElem?_cons_zero, Option.some.injEq] at found
    subst found
    simp [memberStart, Schema.membersSize]
  | first :: rest, index + 1, member, found => by
    have later := @memberStart_add_size_le rest index member (by simpa using found)
    simp only [memberStart, List.take_succ_cons, Schema.membersSize] at later ⊢
    omega

/-- Every member of a struct of fixed-size kinds is of a fixed-size kind. -/
theorem fixedSize_of_mem_members : ∀ {members : List Schema} {member : Schema},
    Schema.membersFixedSize members → member ∈ members → member.fixedSize
  | [], _, _, mem => absurd mem (List.not_mem_nil _)
  | first :: rest, member, fixed, mem => by
    simp only [Schema.membersFixedSize, Bool.and_eq_true] at fixed
    rcases List.mem_cons.mp mem with rfl | later
    · exact fixed.1
    · exact fixedSize_of_mem_members fixed.2 later

/-- A property of a table's field list that skips raw byte fields and holds of a typed field and
the rest exactly when both hold, holds of every typed field of the list. -/
theorem holds_of_mem_fields {holds : Schema → Bool} {fieldsHold : List (Field Schema) → Bool}
    (byteStep : ∀ name rest, fieldsHold (.byte name :: rest) = fieldsHold rest)
    (typedStep : ∀ schema rest, fieldsHold (.typed schema :: rest) = (holds schema && fieldsHold rest)) :
    ∀ {fields : List (Field Schema)} {schema : Schema}, fieldsHold fields → .typed schema ∈ fields → holds schema
  | [], _, _, mem => absurd mem (List.not_mem_nil _)
  | .byte name :: rest, _, held, mem => by
    rw [byteStep] at held
    rcases List.mem_cons.mp mem with same | later
    · cases same
    · exact holds_of_mem_fields byteStep typedStep held later
  | .typed first :: rest, _, held, mem => by
    rw [typedStep, Bool.and_eq_true] at held
    rcases List.mem_cons.mp mem with same | later
    · cases same
      exact held.1
    · exact holds_of_mem_fields byteStep typedStep held.2 later

/-- Every typed field of a well-formed table is well formed. -/
theorem wellFormed_of_mem_fields {fields : List (Field Schema)} {schema : Schema} :
    Schema.fieldsWellFormed fields → .typed schema ∈ fields → schema.wellFormed :=
  @holds_of_mem_fields Schema.wellFormed Schema.fieldsWellFormed (fun _ _ => rfl) (fun _ _ => rfl) fields schema

/-- Every typed field of a table whose fields refuse the empty table refuses it too. -/
theorem refusesEmptyTable_of_mem_fields {fields : List (Field Schema)} {schema : Schema} :
    Schema.fieldsRefuseEmptyTable fields → .typed schema ∈ fields → schema.refusesEmptyTable :=
  @holds_of_mem_fields Schema.refusesEmptyTable Schema.fieldsRefuseEmptyTable (fun _ _ => rfl) (fun _ _ => rfl)
    fields schema

/-- A fixed-size kind holds no table, so it refuses the empty table vacuously. -/
theorem refusesEmptyTable_of_fixedSize : ∀ {schema : Schema}, schema.fixedSize → schema.refusesEmptyTable
  | .fixed _, _ | .struct _, _ => rfl
  | .fixVec _, fixed | .bytes, fixed | .dynVec _, fixed | .table _, fixed | .option _, fixed => by cases fixed

/-- An item of a fixed vector below its count is a slice of the item size. -/
theorem length_fixVecIndexAt {size count index : Nat} {view : Buffer} (length : view.length = count * size + 4)
    (inside : index < count) : (fixVecIndexAt size view index).length = size := by
  have fits := Nat.mul_le_mul_right size (show index + 1 ≤ count from inside)
  simp only [Nat.add_mul, Nat.one_mul] at fits
  simp only [fixVecIndexAt, length_slice, Nat.add_mul, Nat.one_mul]
  omega

/-- `indexAt(i)` below `length()` of a vector whose offsets were accepted returns one of the slices
`validate` checked. -/
theorem mem_itemSlices_of_dynVecIndexAt {view itemView : Buffer} {offsets : List Nat} {index : Nat}
    (verified : verifyAndExtractOffsets view 0 true = .ok offsets) (inside : (index : ℚ) < dynVecLength view)
    (indexed : dynVecIndexAt view index = .ok itemView) : itemView ∈ itemSlices view offsets := by
  obtain ⟨length, indexAt⟩ := dynVecAccessors_of_verified verified
  rw [length, Nat.cast_lt] at inside
  rw [indexAt index inside, Except.ok.injEq] at indexed
  exact indexed ▸ List.getElem_mem inside

/-- Offsets that bound exactly `fieldCount ≥ 1` items are an accepted layout of that count. -/
theorem layout_of_arity {view : Buffer} {offsets : List Nat} {fieldCount : Nat}
    (verified : verifyAndExtractOffsets view 0 true = .ok offsets) (exact : offsets.length = fieldCount + 1)
    (positive : 0 < fieldCount) : Layout view fieldCount offsets := by
  have outcome := verifyAndExtractOffsets_outcome view 0 true
  rw [verified] at outcome
  rcases outcome with ⟨-, rfl⟩ | ⟨count, -, -, layout⟩
  · simp only [List.length_singleton] at exact
    omega
  · have counted : count = fieldCount := by have := layout.length_offsets; omega
    exact counted ▸ layout

/-- At a table holding exactly its declared number of items, every getter returns the slice
`validate` checked for its field. -/
theorem getField_of_arity {view : Buffer} {offsets : List Nat} {fieldCount index : Nat}
    (verified : verifyAndExtractOffsets view 0 true = .ok offsets) (exact : offsets.length = fieldCount + 1)
    (inside : index < fieldCount) :
    getField view index fieldCount = .ok (slice view offsets[index]? offsets[index + 1]?) := by
  have layout := layout_of_arity verified exact (by omega)
  have slot : index < (itemSlices view offsets).length := by simp [layout.length_offsets]; omega
  rw [layout.getField_full slot, getElem_itemSlices view slot]

/-- A table whose strict offset check passed and one of whose getters returned holds exactly its
declared number of items: the 4-byte empty table, which the check returns before it counts, has
no getter that returns. -/
theorem length_offsets_of_strict {view fieldView : Buffer} {offsets : List Nat} {fieldCount index : Nat}
    (verified : verifyAndExtractOffsets view fieldCount false = .ok offsets)
    (got : getField view index fieldCount = .ok fieldView) : offsets.length = fieldCount + 1 := by
  have outcome := verifyAndExtractOffsets_outcome view fieldCount false
  rw [verified] at outcome
  rcases outcome with ⟨rfl, -⟩ | ⟨count, enough, strict, layout⟩
  · have over : getUint32 (u32Bytes 4) (4 + 4 * index) = .error .rangeError := by
      rw [getUint32, if_neg (by simp)]
    simp only [getField, fieldBounds, over, except_error_bind] at got
    cases got
  · simp only [Bool.false_eq_true, false_or] at strict
    rw [layout.length_offsets]
    omega

/-- A raw byte field whose check passed at an accepted layout is one byte long. -/
theorem Layout.length_slice_of_placed {view : Buffer} {count : Nat} {offsets : List Nat}
    (layout : Layout view count offsets) {index : Nat} (inside : index < count)
    (placed : byteFieldMisplaced offsets[index]? offsets[index + 1]? = false) :
    (slice view offsets[index]? offsets[index + 1]?).length = 1 := by
  have bound : index + 1 < offsets.length := by rw [layout.length_offsets]; omega
  have bounded := layout.le_length (List.getElem_mem bound)
  rw [List.getElem?_eq_getElem bound, List.getElem?_eq_getElem (Nat.lt_of_succ_lt bound)] at placed ⊢
  simp only [byteFieldMisplaced, decide_eq_false_iff_not, not_not] at placed
  rw [length_slice]
  omega

/-! ## The field loop over any check -/

/-- A table's field loop with `check` run on each typed field: the loop `validateFields` and
`countedValidateFields` both are, for their own check. -/
def checkFields (check : Schema → Buffer → Except CodecError Unit) :
    List (Field Schema) → Buffer → List Nat → Nat → Except CodecError Unit
  | [], _, _, _ => pure ()
  | .typed schema :: rest, view, offsets, index => do
    check schema (slice view offsets[index]? offsets[index + 1]?)
    checkFields check rest view offsets (index + 1)
  | .byte name :: rest, view, offsets, index => do
    if byteFieldMisplaced offsets[index]? offsets[index + 1]? then
      throw (.invalidByteOffset name offsets[index]? offsets[index + 1]?)
    checkFields check rest view offsets (index + 1)

/-- The generated field loop is the field loop over the generated check. -/
theorem validateFields_eq_checkFields : ∀ (fields : List (Field Schema)) (view : Buffer) (offsets : List Nat)
    (index : Nat), validateFields fields view offsets index =
      checkFields (fun schema itemView => validate schema itemView false) fields view offsets index
  | [], _, _, _ => rfl
  | .typed _ :: rest, view, offsets, index | .byte _ :: rest, view, offsets, index => by
    rw [validateFields, checkFields, validateFields_eq_checkFields rest]

/-- The counted field loop is the field loop over the counted check in the same mode. -/
theorem countedValidateFields_eq_checkFields (compatible : Bool) : ∀ (fields : List (Field Schema)) (view : Buffer)
    (offsets : List Nat) (index : Nat), countedValidateFields fields view offsets index compatible =
      checkFields (fun schema itemView => countedValidate schema itemView compatible) fields view offsets index
  | [], _, _, _ => rfl
  | .typed _ :: rest, view, offsets, index | .byte _ :: rest, view, offsets, index => by
    rw [countedValidateFields, checkFields, countedValidateFields_eq_checkFields compatible rest]

/-- What a table's field loop establishes of field `index`: a typed field passes `check` over its
slice, and a raw byte's boundaries are one byte apart. -/
def FieldChecked (check : Schema → Buffer → Except CodecError Unit) (view : Buffer) (offsets : List Nat)
    (index : Nat) : Field Schema → Prop
  | .typed schema => check schema (slice view offsets[index]? offsets[index + 1]?) = .ok ()
  | .byte _ => byteFieldMisplaced offsets[index]? offsets[index + 1]? = false

/-- A field loop that passed from `start` checked each field at its own position. -/
theorem checkFields_getElem? {check : Schema → Buffer → Except CodecError Unit} :
    ∀ {fields : List (Field Schema)} {view : Buffer} {offsets : List Nat} {start : Nat},
      checkFields check fields view offsets start = .ok () → ∀ {index : Nat} {field : Field Schema},
        fields[index]? = some field → FieldChecked check view offsets (start + index) field
  | [], _, _, _, _, _, _, found => by simp at found
  | field :: rest, view, offsets, start, accepted, index, found, same => by
    have first : FieldChecked check view offsets start field ∧
        checkFields check rest view offsets (start + 1) = .ok () := by
      cases field with
      | typed schema => exact except_seq_eq_ok.mp accepted
      | byte name => exact except_check_bind_eq_ok.mp accepted
    cases index with
    | zero =>
      simp only [List.getElem?_cons_zero, Option.some.injEq] at same
      exact same ▸ first.1
    | succ index =>
      rw [show start + (index + 1) = start + 1 + index by omega]
      exact checkFields_getElem? first.2 (by simpa using same)

mutual
/-- On fixed-size kinds the counted check and the generated one are the same function. -/
theorem countedValidate_eq_validate_of_fixedSize : ∀ (schema : Schema) (view : Buffer) (compatible : Bool),
    schema.fixedSize → countedValidate schema view compatible = validate schema view compatible
  | .fixed _, _, _, _ => rfl
  | .struct members, view, compatible, fixed => by
    simp only [countedValidate, validate, countedValidateMembers_eq_validateMembers members view 0 compatible fixed]
  | .fixVec _, _, _, fixed | .bytes, _, _, fixed | .dynVec _, _, _, fixed | .table _, _, _, fixed
  | .option _, _, _, fixed => by cases fixed

/-- On fixed-size members the counted member checks and the generated ones are the same function. -/
theorem countedValidateMembers_eq_validateMembers : ∀ (members : List Schema) (view : Buffer) (offset : Nat)
    (compatible : Bool), Schema.membersFixedSize members →
    countedValidateMembers members view offset compatible = validateMembers members view offset compatible
  | [], _, _, _, _ => rfl
  | member :: rest, view, offset, compatible, fixed => by
    simp only [Schema.membersFixedSize, Bool.and_eq_true] at fixed
    simp only [countedValidateMembers, validateMembers,
      countedValidate_eq_validate_of_fixedSize member _ compatible fixed.1,
      countedValidateMembers_eq_validateMembers rest view _ compatible fixed.2]
end

/-! ## One accessor call -/

/-- What a check establishes of the parts the accessors select: a struct passes only at its size,
a fixed-size kind at its size, a fixed vector only when its count word sizes it, a dynamic
vector's items and a table's fields over the slices of boundaries the lenient offset check
accepts, and a present option's inner value. -/
structure CheckLaws (check : Schema → Buffer → Except CodecError Unit) : Prop where
  struct_length : ∀ {members : List Schema} {view : Buffer}, check (.struct members) view = .ok () →
    view.length = Schema.membersSize members
  of_fixedSize : ∀ {schema : Schema} {view : Buffer}, schema.fixedSize → view.length = schema.size →
    check schema view = .ok ()
  fixVec_length : ∀ {item : Schema} {view : Buffer}, check (.fixVec item) view = .ok () →
    ∃ count, fixVecLength view = .ok count ∧ view.length = count * item.size + 4
  dynVec_items : ∀ {item : Schema} {view : Buffer}, check (.dynVec item) view = .ok () →
    ∃ offsets, verifyAndExtractOffsets view 0 true = .ok offsets ∧
      ∀ itemView ∈ itemSlices view offsets, check item itemView = .ok ()
  table_fields : ∀ {fields : List (Field Schema)} {view : Buffer}, check (.table fields) view = .ok () →
    ∃ offsets, verifyAndExtractOffsets view 0 true = .ok offsets ∧ checkFields check fields view offsets 0 = .ok ()
  option_inner : ∀ {inner : Schema} {view : Buffer}, check (.option inner) view = .ok () → view.length > 0 →
    check inner view = .ok ()

/-- The generated check obeys the laws. -/
theorem validate_laws : CheckLaws fun schema view => validate schema view false where
  struct_length accepted := by
    obtain ⟨⟨⟩, sized, -⟩ := except_bind_eq_ok.mp accepted
    simpa [assertDataLength] using sized
  of_fixedSize fixed length := validate_fixedSize _ _ false fixed length
  fixVec_length accepted := ⟨_, validate_fixVec_of_ok accepted⟩
  dynVec_items accepted := by
    obtain ⟨offsets, verified, items⟩ := except_bind_eq_ok.mp accepted
    exact ⟨offsets, verified, forM_eq_ok.mp items⟩
  table_fields accepted := by
    obtain ⟨offsets, verified, checked⟩ := except_bind_eq_ok.mp accepted
    exact ⟨offsets, verified, validateFields_eq_checkFields .. ▸ checked⟩
  option_inner accepted present := by simpa [validate, present] using accepted

/-- The counted strict check obeys the laws: it differs from the generated one only in the
arguments of a table's offset check and in the mode its parts receive. -/
theorem countedValidate_laws : CheckLaws fun schema view => countedValidate schema view false where
  struct_length accepted := validate_laws.struct_length (validate_of_countedValidate _ _ _ accepted false)
  of_fixedSize fixed length := by
    rw [countedValidate_eq_validate_of_fixedSize _ _ _ fixed]
    exact validate_fixedSize _ _ false fixed length
  fixVec_length accepted := validate_laws.fixVec_length accepted
  dynVec_items accepted := by
    obtain ⟨offsets, verified, items⟩ := except_bind_eq_ok.mp accepted
    exact ⟨offsets, verified, forM_eq_ok.mp items⟩
  table_fields accepted := by
    obtain ⟨offsets, verified, checked⟩ := except_bind_eq_ok.mp accepted
    exact ⟨offsets, verifyAndExtractOffsets_loose_of_ok verified, countedValidateFields_eq_checkFields .. ▸ checked⟩
  option_inner accepted present := by simpa [countedValidate, present] using accepted

/-- One accessor call keeps any check that obeys the laws: the child of a well-formed view that
passed the check is well formed and passes it too, provided a table parent holds exactly its
declared number of items. -/
theorem Accessor.check_child {check : Schema → Buffer → Except CodecError Unit} (laws : CheckLaws check)
    {here next : View} (step : Accessor here next) (wellFormed : here.schema.wellFormed)
    (accepted : check here.schema here.buffer = .ok ()) (arity : here.arityHolds) :
    next.schema.wellFormed ∧ check next.schema next.buffer = .ok () := by
  cases step with
  | @member members view index member found =>
    have fixed := fixedSize_of_mem_members wellFormed (List.getElem?_mem found)
    have length : view.length = Schema.membersSize members := laws.struct_length accepted
    have within := memberStart_add_size_le found
    exact ⟨wellFormed_of_fixedSize _ fixed, laws.of_fixedSize fixed (by simp only [length_slice]; omega)⟩
  | @fixVecItem item view count index counted inside =>
    simp only [Schema.wellFormed, Bool.and_eq_true] at wellFormed
    obtain ⟨_, countWord, length⟩ := laws.fixVec_length accepted
    cases countWord.symm.trans counted
    exact ⟨wellFormed_of_fixedSize _ wellFormed.1, laws.of_fixedSize wellFormed.1 (length_fixVecIndexAt length inside)⟩
  | @dynVecItem item view itemView index inside indexed =>
    obtain ⟨offsets, verified, items⟩ := laws.dynVec_items accepted
    exact ⟨wellFormed, items itemView (mem_itemSlices_of_dynVecIndexAt verified inside indexed)⟩
  | @field fields view fieldView index schema typed got =>
    obtain ⟨offsets, verified, checked⟩ := laws.table_fields accepted
    have exact : offsets.length = fields.length + 1 := by simpa [View.arityHolds, verified] using arity
    cases (getField_of_arity verified exact (List.getElem?_eq_some_iff.mp typed).1).symm.trans got
    have fieldValid := checkFields_getElem? checked typed
    rw [Nat.zero_add] at fieldValid
    exact ⟨wellFormed_of_mem_fields wellFormed (List.getElem?_mem typed), fieldValid⟩
  | @value inner view present =>
    simp only [Schema.wellFormed, Bool.and_eq_true] at wellFormed
    exact ⟨wellFormed.2, laws.option_inner accepted present⟩

/-- A table that passed the counted strict check and has a getter that returns holds exactly its
declared number of items, so every accessor call from a strictly accepted view starts from a view
that holds its arity. -/
theorem Accessor.arityHolds_of_countedValidate {here next : View} (step : Accessor here next)
    (accepted : countedValidate here.schema here.buffer false = .ok ()) : here.arityHolds := by
  cases step with
  | @field fields view fieldView index schema typed got =>
    obtain ⟨offsets, verified, -⟩ := except_bind_eq_ok.mp accepted
    simpa [View.arityHolds, verifyAndExtractOffsets_loose_of_ok verified] using length_offsets_of_strict verified got
  | member | fixVecItem | dynVecItem | value => rfl

/-- A child of a well-formed view whose tables refuse the 4-byte empty table has the same property. -/
theorem Accessor.refusesEmptyTable_child {here next : View} (step : Accessor here next)
    (wellFormed : here.schema.wellFormed) (refuses : here.schema.refusesEmptyTable) :
    next.schema.refusesEmptyTable := by
  cases step with
  | member found => exact refusesEmptyTable_of_fixedSize (fixedSize_of_mem_members wellFormed (List.getElem?_mem found))
  | fixVecItem =>
    simp only [Schema.wellFormed, Bool.and_eq_true] at wellFormed
    exact refusesEmptyTable_of_fixedSize wellFormed.1
  | dynVecItem => exact refuses
  | field typed =>
    simp only [Schema.refusesEmptyTable, Bool.and_eq_true] at refuses
    exact refusesEmptyTable_of_mem_fields refuses.2 (List.getElem?_mem typed)
  | value => exact refuses

/-- Every accessor call a caller may make on a view that passed `validate` returns, provided a
table holds exactly its declared number of items. -/
theorem View.accessorsReturn_of_validate {here : View} (accepted : validate here.schema here.buffer false = .ok ())
    (arity : here.arityHolds) : here.AccessorsReturn := by
  rcases here with ⟨schema, view⟩
  dsimp only at accepted
  cases schema with
  | fixed size =>
    have length : view.length = size := by simpa [validate, assertDataLength] using accepted
    exact fun index inside => ⟨_, getUint8_of_lt (by omega)⟩
  | struct members => trivial
  | fixVec item => exact ⟨_, (validate_fixVec_of_ok accepted).1⟩
  | bytes =>
    have long : ¬view.length < 4 := fun short => by simp [validate, short] at accepted
    obtain ⟨payload, -⟩ := validate_bytes_of_ok accepted
    simp only [List.length_drop] at payload
    refine ⟨le32 view, by rw [bytesLength, getUint32_of_le (by omega), List.drop_zero],
      fun index inside => ⟨_, getUint8_of_lt ?_⟩⟩
    omega
  | dynVec item =>
    obtain ⟨offsets, verified, -⟩ := except_bind_eq_ok.mp accepted
    obtain ⟨length, indexAt⟩ := dynVecAccessors_of_verified verified
    intro index inside
    rw [length, Nat.cast_lt] at inside
    exact ⟨_, indexAt index inside⟩
  | table fields =>
    obtain ⟨offsets, verified, checked⟩ := except_bind_eq_ok.mp accepted
    have exact : offsets.length = fields.length + 1 := by simpa [View.arityHolds, verified] using arity
    refine ⟨fun index schema typed => ⟨_, getField_of_arity verified exact (List.getElem?_eq_some_iff.mp typed).1⟩,
      fun index name raw => ?_⟩
    have inside := (List.getElem?_eq_some_iff.mp raw).1
    have placed := checkFields_getElem? (validateFields_eq_checkFields .. ▸ checked) raw
    rw [Nat.zero_add] at placed
    have single := (layout_of_arity verified exact (by omega)).length_slice_of_placed inside placed
    simp only [getByteField, getField_of_arity verified exact inside, except_ok_bind]
    refine ⟨_, getUint8_of_lt ?_⟩
    omega
  | option inner => trivial

/-- A table that passed the counted strict check holds exactly its declared number of items when
it refuses the 4-byte empty table, which the offset check returns before it counts. -/
theorem View.arityHolds_of_countedValidate {here : View} (refuses : here.schema.refusesEmptyTable)
    (accepted : countedValidate here.schema here.buffer false = .ok ()) : here.arityHolds := by
  rcases here with ⟨schema, view⟩
  dsimp only at refuses accepted
  cases schema
  case table fields =>
    obtain ⟨offsets, verified, -⟩ := except_bind_eq_ok.mp accepted
    simp only [View.arityHolds, verifyAndExtractOffsets_loose_of_ok verified, beq_iff_eq]
    have outcome := verifyAndExtractOffsets_outcome view fields.length false
    rw [verified] at outcome
    rcases outcome with ⟨rfl, rfl⟩ | ⟨count, enough, strict, layout⟩
    · cases fields with
      | nil => rfl
      | cons field rest => simp [Schema.refusesEmptyTable, accepted] at refuses
    · simp only [Bool.false_eq_true, false_or] at strict
      rw [layout.length_offsets]
      omega
  all_goals rfl

/-! ## Runs of accessor calls -/

/-- A run of accessor calls from a view that passed `validate` reaches only views that pass their
own `validate`, as long as every table it passes through holds exactly its declared number of
items. -/
theorem validate_of_run {start reached : View} (wellFormed : start.schema.wellFormed)
    (accepted : validate start.schema start.buffer false = .ok ())
    (run : Relation.ReflTransGen ArityStep start reached) :
    reached.schema.wellFormed ∧ validate reached.schema reached.buffer false = .ok () := by
  induction run with
  | refl => exact ⟨wellFormed, accepted⟩
  | tail _ step reachedValid => exact step.step.check_child validate_laws reachedValid.1 reachedValid.2 step.arity

/-- Any run of accessor calls from a view that passed the counted strict check reaches only views
that pass it too. -/
theorem countedValidate_of_run {start reached : View} (wellFormed : start.schema.wellFormed)
    (refuses : start.schema.refusesEmptyTable) (accepted : countedValidate start.schema start.buffer false = .ok ())
    (run : Relation.ReflTransGen Accessor start reached) :
    reached.schema.wellFormed ∧ reached.schema.refusesEmptyTable ∧
      countedValidate reached.schema reached.buffer false = .ok () := by
  induction run with
  | refl => exact ⟨wellFormed, refuses, accepted⟩
  | tail _ step reachedValid =>
    obtain ⟨reachedFormed, reachedRefuses, reachedAccepted⟩ := reachedValid
    obtain ⟨childFormed, childAccepted⟩ :=
      step.check_child countedValidate_laws reachedFormed reachedAccepted (step.arityHolds_of_countedValidate reachedAccepted)
    exact ⟨childFormed, step.refusesEmptyTable_child reachedFormed reachedRefuses, childAccepted⟩

/-- The getters' trust path is sound wherever the arity holds. From a view of a well-formed schema
that passed `validate`, every run of accessor calls that passes only through tables holding
exactly their declared number of items reaches views that pass their own `validate` in either
mode, and on such a view every accessor a caller may call returns instead of throwing. -/
theorem accessor_runs_keep_validation {start reached : View} (wellFormed : start.schema.wellFormed)
    (compatible : Bool) (accepted : validate start.schema start.buffer compatible = .ok ())
    (run : Relation.ReflTransGen ArityStep start reached) :
    (∀ compatible', validate reached.schema reached.buffer compatible' = .ok ()) ∧
      (reached.arityHolds → reached.AccessorsReturn) := by
  rw [validate_compatible_eq] at accepted
  have reachedValid := (validate_of_run wellFormed accepted run).2
  exact ⟨fun compatible' => by rw [validate_compatible_eq]; exact reachedValid,
    View.accessorsReturn_of_validate reachedValid⟩

/-- `ScriptOpt` of a present script with a zero code hash, hash type 1 and one argument byte,
navigated through `value()` and then `getArgs()`. -/
theorem accessor_runs_keep_validation_script_args :
    Schema.wellFormed ScriptOpt ∧
    validate ScriptOpt (serializeTable [List.replicate 32 0, [1], [1, 0, 0, 0, 7]]) false = .ok () ∧
    Relation.ReflTransGen ArityStep
      ⟨ScriptOpt, serializeTable [List.replicate 32 0, [1], [1, 0, 0, 0, 7]]⟩ ⟨Bytes, [1, 0, 0, 0, 7]⟩ ∧
    (∀ compatible', validate Bytes [1, 0, 0, 0, 7] compatible' = .ok ()) ∧
      (View.arityHolds ⟨Bytes, [1, 0, 0, 0, 7]⟩ → View.AccessorsReturn ⟨Bytes, [1, 0, 0, 0, 7]⟩) :=
  have wellFormed : Schema.wellFormed ScriptOpt := rfl
  have accepted : validate ScriptOpt (serializeTable [List.replicate 32 0, [1], [1, 0, 0, 0, 7]]) false = .ok () := by
    decide
  have run : Relation.ReflTransGen ArityStep
      ⟨ScriptOpt, serializeTable [List.replicate 32 0, [1], [1, 0, 0, 0, 7]]⟩ ⟨Bytes, [1, 0, 0, 0, 7]⟩ :=
    .tail (.single ⟨Accessor.value (by decide), rfl⟩) ⟨@Accessor.field _ _ _ 2 _ rfl (by decide), by decide⟩
  ⟨wellFormed, accepted, run, accessor_runs_keep_validation wellFormed false accepted run⟩

/-- With each table's field count passed, every run is safe. From a buffer of any class `cell.js`
exports that passes the counted strict check, every run of accessor calls reaches views that pass
that check and the generated one in either mode, whose tables hold exactly their declared number
of items, and on which every accessor a caller may call returns instead of throwing. -/
theorem strict_accessor_runs_are_safe {start reached : View} (exported : start.schema ∈ exportedSchemas)
    (accepted : countedValidate start.schema start.buffer false = .ok ())
    (run : Relation.ReflTransGen Accessor start reached) :
    countedValidate reached.schema reached.buffer false = .ok () ∧
      (∀ compatible, validate reached.schema reached.buffer compatible = .ok ()) ∧
      reached.arityHolds ∧ reached.AccessorsReturn := by
  obtain ⟨-, refuses, reachedAccepted⟩ := countedValidate_of_run (exportedSchemas_wellFormed _ exported).1
    (exportedSchemas_refuseEmptyTable _ exported) accepted run
  have arity := View.arityHolds_of_countedValidate refuses reachedAccepted
  have reachedValid := validate_of_countedValidate _ _ false reachedAccepted
  exact ⟨reachedAccepted, reachedValid, arity, View.accessorsReturn_of_validate (reachedValid false) arity⟩

/-- The same run from a strictly accepted `ScriptOpt`: `value()`, then `getArgs()`. -/
theorem strict_accessor_runs_are_safe_script_args :
    ScriptOpt ∈ exportedSchemas ∧
    countedValidate ScriptOpt (serializeTable [List.replicate 32 0, [1], [1, 0, 0, 0, 7]]) false = .ok () ∧
    Relation.ReflTransGen Accessor ⟨ScriptOpt, serializeTable [List.replicate 32 0, [1], [1, 0, 0, 0, 7]]⟩
      ⟨Bytes, [1, 0, 0, 0, 7]⟩ ∧
    countedValidate Bytes [1, 0, 0, 0, 7] false = .ok () ∧ (∀ compatible, validate Bytes [1, 0, 0, 0, 7] compatible = .ok ()) ∧
      View.arityHolds ⟨Bytes, [1, 0, 0, 0, 7]⟩ ∧ View.AccessorsReturn ⟨Bytes, [1, 0, 0, 0, 7]⟩ :=
  have exported : ScriptOpt ∈ exportedSchemas := by simp [exportedSchemas]
  have accepted : countedValidate ScriptOpt (serializeTable [List.replicate 32 0, [1], [1, 0, 0, 0, 7]]) false = .ok () := by
    decide
  have run : Relation.ReflTransGen Accessor ⟨ScriptOpt, serializeTable [List.replicate 32 0, [1], [1, 0, 0, 0, 7]]⟩
      ⟨Bytes, [1, 0, 0, 0, 7]⟩ :=
    .tail (.single (Accessor.value (by decide))) (@Accessor.field _ _ _ 2 _ rfl (by decide))
  ⟨exported, accepted, run, strict_accessor_runs_are_safe exported accepted run⟩

/-! ## The strict check as the generated check plus arity -/

/-- Every slice a dynamic vector's `validate` checked is `indexAt(i)` of some `i` below `length()`. -/
theorem accessor_of_mem_itemSlices {item : Schema} {view itemView : Buffer} {offsets : List Nat}
    (verified : verifyAndExtractOffsets view 0 true = .ok offsets) (mem : itemView ∈ itemSlices view offsets) :
    Accessor ⟨.dynVec item, view⟩ ⟨item, itemView⟩ := by
  obtain ⟨length, indexAt⟩ := dynVecAccessors_of_verified verified
  obtain ⟨index, inside, rfl⟩ := List.getElem_of_mem mem
  exact .dynVecItem (by rw [length]; exact_mod_cast inside) (indexAt index inside)

/-- Offsets that bound exactly `fieldCount` items pass the strict offset check for that count. -/
theorem verifyAndExtractOffsets_strict_of_arity {view : Buffer} {offsets : List Nat} {fieldCount : Nat}
    (verified : verifyAndExtractOffsets view 0 true = .ok offsets) (exact : offsets.length = fieldCount + 1) :
    verifyAndExtractOffsets view fieldCount false = .ok offsets := by
  rcases Nat.eq_zero_or_pos fieldCount with rfl | positive
  · have outcome := verifyAndExtractOffsets_outcome view 0 true
    rw [verified] at outcome
    rcases outcome with ⟨rfl, rfl⟩ | ⟨count, -, -, layout⟩
    · rfl
    · have := layout.length_offsets
      have := layout.count_pos
      omega
  · exact verifyAndExtractOffsets_of_layout (le_refl _) (.inr (le_refl _)) (layout_of_arity verified exact positive)

mutual
/-- A view that passes the generated check, and every view a run from it reaches holds its arity,
passes the counted strict check. -/
theorem countedValidate_of_arity : ∀ (schema : Schema) (view : Buffer), schema.wellFormed →
    validate schema view false = .ok () →
    (∀ reached, Relation.ReflTransGen ArityStep ⟨schema, view⟩ reached → reached.arityHolds) →
    countedValidate schema view false = .ok ()
  | .fixed _, _, _, accepted, _ | .fixVec _, _, _, accepted, _ | .bytes, _, _, accepted, _ => accepted
  | .struct members, view, wellFormed, accepted, _ => by
    rwa [countedValidate_eq_validate_of_fixedSize _ _ _ (show Schema.fixedSize (.struct members) from wellFormed)]
  | .dynVec item, view, wellFormed, accepted, arity => by
    obtain ⟨offsets, verified, items⟩ := except_bind_eq_ok.mp accepted
    refine except_bind_eq_ok.mpr ⟨offsets, verified, forM_eq_ok.mpr fun itemView mem => ?_⟩
    exact countedValidate_of_arity item itemView wellFormed (forM_eq_ok.mp items itemView mem)
      fun reached run => arity reached (.head ⟨accessor_of_mem_itemSlices verified mem, rfl⟩ run)
  | .table fields, view, wellFormed, accepted, arity => by
    obtain ⟨offsets, verified, checked⟩ := except_bind_eq_ok.mp accepted
    have tableArity := arity _ .refl
    have exact : offsets.length = fields.length + 1 := by simpa [View.arityHolds, verified] using tableArity
    refine except_bind_eq_ok.mpr ⟨offsets, verifyAndExtractOffsets_strict_of_arity verified exact, ?_⟩
    refine countedValidateFields_of_arity fields view offsets 0 wellFormed checked fun index schema typed reached run => ?_
    rw [Nat.zero_add] at run
    have got := getField_of_arity verified exact (List.getElem?_eq_some_iff.mp typed).1
    exact arity reached (.head ⟨.field typed got, tableArity⟩ run)
  | .option inner, view, wellFormed, accepted, arity => by
    simp only [Schema.wellFormed, Bool.and_eq_true] at wellFormed
    by_cases present : view.length > 0
    · simp only [validate, present, if_true] at accepted
      simp only [countedValidate, present, if_true]
      exact countedValidate_of_arity inner view wellFormed.2 accepted
        fun reached run => arity reached (.head ⟨.value present, rfl⟩ run)
    · simp [countedValidate, present]

/-- The fields from `index` on pass the counted strict checks when they pass the generated ones and
every run from each typed field's slice reaches only views that hold their arity. -/
theorem countedValidateFields_of_arity : ∀ (fields : List (Field Schema)) (view : Buffer) (offsets : List Nat)
    (index : Nat), Schema.fieldsWellFormed fields → validateFields fields view offsets index = .ok () →
    (∀ j schema, fields[j]? = some (.typed schema) → ∀ reached,
      Relation.ReflTransGen ArityStep ⟨schema, slice view offsets[index + j]? offsets[index + j + 1]?⟩ reached →
        reached.arityHolds) →
    countedValidateFields fields view offsets index false = .ok ()
  | [], _, _, _, _, _, _ => rfl
  | .typed schema :: rest, view, offsets, index, wellFormed, accepted, arity => by
    simp only [Schema.fieldsWellFormed, Bool.and_eq_true] at wellFormed
    obtain ⟨⟨⟩, first, later⟩ := except_bind_eq_ok.mp accepted
    refine except_bind_eq_ok.mpr ⟨(), countedValidate_of_arity schema _ wellFormed.1 first (arity 0 schema (List.getElem?_cons_zero ..)), ?_⟩
    refine countedValidateFields_of_arity rest view offsets (index + 1) wellFormed.2 later fun j field found => ?_
    rw [show index + 1 + j = index + (j + 1) by omega]
    exact arity (j + 1) field (by rwa [List.getElem?_cons_succ])
  | .byte name :: rest, view, offsets, index, wellFormed, accepted, arity => by
    obtain ⟨placed, later⟩ := except_check_bind_eq_ok.mp accepted
    refine except_check_bind_eq_ok.mpr ⟨placed, countedValidateFields_of_arity rest view offsets (index + 1) wellFormed
      later fun j field found => ?_⟩
    rw [show index + 1 + j = index + (j + 1) by omega]
    exact arity (j + 1) field (by rwa [List.getElem?_cons_succ])
end

/-- Passing each table's field count adds exactly the arity check the generated code skips. For
every class `cell.js` exports, a buffer passes the counted strict check exactly when it passes the
generated `validate(false)` and every table a caller can reach through the accessors, passing
only through tables that hold their arity, holds exactly its declared number of items. -/
theorem strict_check_is_generated_check_with_arity (schema : Schema) (view : Buffer)
    (exported : schema ∈ exportedSchemas) :
    countedValidate schema view false = .ok () ↔
      validate schema view false = .ok () ∧
        ∀ reached, Relation.ReflTransGen ArityStep ⟨schema, view⟩ reached → reached.arityHolds := by
  have wellFormed := (exportedSchemas_wellFormed schema exported).1
  constructor
  · intro accepted
    refine ⟨validate_of_countedValidate _ _ false accepted false, fun reached run => ?_⟩
    obtain ⟨-, refuses, reachedAccepted⟩ := countedValidate_of_run wellFormed (exportedSchemas_refuseEmptyTable _ exported)
      accepted (run.mono fun _ _ step => step.step)
    exact View.arityHolds_of_countedValidate refuses reachedAccepted
  · rintro ⟨accepted, arity⟩
    exact countedValidate_of_arity schema view wellFormed accepted arity

/-- A `DiscountConfig` buffer whose header declares two items for its one field. -/
theorem strict_check_is_generated_check_with_arity_discount :
    DiscountConfig ∈ exportedSchemas ∧
      (countedValidate DiscountConfig [16, 0, 0, 0, 12, 0, 0, 0, 16, 0, 0, 0, 7, 0, 0, 0] false = .ok () ↔
        validate DiscountConfig [16, 0, 0, 0, 12, 0, 0, 0, 16, 0, 0, 0, 7, 0, 0, 0] false = .ok () ∧
          ∀ reached, Relation.ReflTransGen ArityStep ⟨DiscountConfig, [16, 0, 0, 0, 12, 0, 0, 0, 16, 0, 0, 0, 7, 0, 0, 0]⟩
            reached → reached.arityHolds) :=
  have exported : DiscountConfig ∈ exportedSchemas := by simp [exportedSchemas]
  ⟨exported, strict_check_is_generated_check_with_arity _ _ exported⟩

end DasTypes

import DasTypes.Views

/-!
# The generated check with each table's field count passed

Every generated table calls `verifyAndExtractOffsets(this.view, 0, true)` whatever `compatible`
its `validate(compatible = false)` was given, and validates its parts with no argument. The
counted check is that code with the two arguments its signature suggests: a table's offsets are
read against its declared field count in the caller's mode, and the mode is handed on to every
part. Vectors keep the count 0 and the lenient flag, and the field loop is the generated one,
slices past the boundary list included. The offset check still returns the 4-byte empty table
before it counts, but a table then checks each declared field over the slice the generated loop
takes, so `DiscountConfig` refuses `[4, 0, 0, 0]` through its `Uint32` field.

The generated `validate` accepts every buffer the counted check accepts, in either mode: it runs
the same checks with the arity checks left out.
-/

namespace DasTypes

mutual
/-- `validate(compatible)` of the generated classes with a table's offsets read against its
declared field count in the caller's mode, and the mode handed on to every part. -/
def countedValidate : Schema → Buffer → Bool → Except CodecError Unit
  | .fixed size, view, _ => assertDataLength view.length size
  | .struct members, view, compatible => do
    assertDataLength view.length (Schema.membersSize members)
    countedValidateMembers members view 0 compatible
  | .fixVec item, view, _ => do
    if view.length < 4 then throw (.lengthBelow view.length ">4")
    let count ← fixVecLength view
    assertDataLength view.length (count * item.size + 4)
  | .bytes, view, _ => do
    if view.length < 4 then throw (.lengthBelow view.length ">4")
    let count ← getUint32 view 0
    assertDataLength view.length (count + 4)
  | .dynVec item, view, compatible => do
    let offsets ← verifyAndExtractOffsets view 0 true
    (itemSlices view offsets).forM fun itemView => countedValidate item itemView compatible
  | .table fields, view, compatible => do
    let offsets ← verifyAndExtractOffsets view fields.length compatible
    countedValidateFields fields view offsets 0 compatible
  | .option inner, view, compatible =>
    if view.length > 0 then countedValidate inner view compatible else pure ()

/-- A struct's member checks from `offset` on, in the caller's mode. -/
def countedValidateMembers : List Schema → Buffer → Nat → Bool → Except CodecError Unit
  | [], _, _, _ => pure ()
  | member :: rest, view, offset, compatible => do
    countedValidate member (slice view (some offset) (some (offset + member.size))) compatible
    countedValidateMembers rest view (offset + member.size) compatible

/-- A table's field checks from field `index` on, in the caller's mode. -/
def countedValidateFields : List (Field Schema) → Buffer → List Nat → Nat → Bool → Except CodecError Unit
  | [], _, _, _, _ => pure ()
  | .typed schema :: rest, view, offsets, index, compatible => do
    countedValidate schema (slice view offsets[index]? offsets[index + 1]?) compatible
    countedValidateFields rest view offsets (index + 1) compatible
  | .byte name :: rest, view, offsets, index, compatible => do
    if byteFieldMisplaced offsets[index]? offsets[index + 1]? then
      throw (.invalidByteOffset name offsets[index]? offsets[index + 1]?)
    countedValidateFields rest view offsets (index + 1) compatible
end

/-- Whatever a check with a field count and a mode accepts, the lenient check accepts with the
same boundaries. -/
theorem verifyAndExtractOffsets_loose_of_ok {view : Buffer} {expectedFieldCount : Nat} {compatible : Bool}
    {offsets : List Nat} (accepted : verifyAndExtractOffsets view expectedFieldCount compatible = .ok offsets) :
    verifyAndExtractOffsets view 0 true = .ok offsets := by
  have outcome := verifyAndExtractOffsets_outcome view expectedFieldCount compatible
  rw [accepted] at outcome
  rcases outcome with ⟨rfl, rfl⟩ | ⟨count, -, -, layout⟩
  · rfl
  · exact verifyAndExtractOffsets_of_layout (Nat.zero_le _) (.inl rfl) layout

mutual
/-- A buffer the counted check accepts in some mode passes the generated check in every mode. -/
theorem validate_of_countedValidate : ∀ (schema : Schema) (view : Buffer) (compatible : Bool),
    countedValidate schema view compatible = .ok () → ∀ compatible', validate schema view compatible' = .ok ()
  | .fixed _, _, _, accepted, _ | .fixVec _, _, _, accepted, _ | .bytes, _, _, accepted, _ => accepted
  | .struct members, view, compatible, accepted, compatible' => by
    obtain ⟨⟨⟩, sized, membersAccepted⟩ := except_bind_eq_ok.mp accepted
    simp only [validate, sized, except_ok_bind]
    exact validateMembers_of_countedValidate members view 0 compatible membersAccepted compatible'
  | .dynVec item, view, compatible, accepted, _ => by
    obtain ⟨offsets, verified, items⟩ := except_bind_eq_ok.mp accepted
    simp only [validate, verified, except_ok_bind]
    exact forM_eq_ok.mpr fun itemView mem =>
      validate_of_countedValidate item itemView compatible (forM_eq_ok.mp items itemView mem) false
  | .table fields, view, compatible, accepted, _ => by
    obtain ⟨offsets, verified, fieldsAccepted⟩ := except_bind_eq_ok.mp accepted
    simp only [validate, verifyAndExtractOffsets_loose_of_ok verified, except_ok_bind]
    exact validateFields_of_countedValidate fields view offsets 0 compatible fieldsAccepted
  | .option inner, view, compatible, accepted, compatible' => by
    by_cases present : view.length > 0
    · simp only [countedValidate, present, if_true] at accepted
      simp only [validate, present, if_true]
      exact validate_of_countedValidate inner view compatible accepted compatible'
    · simp [validate, present]

/-- Members the counted check accepts pass the generated member checks in every mode. -/
theorem validateMembers_of_countedValidate : ∀ (members : List Schema) (view : Buffer) (offset : Nat)
    (compatible : Bool), countedValidateMembers members view offset compatible = .ok () →
    ∀ compatible', validateMembers members view offset compatible' = .ok ()
  | [], _, _, _, _, _ => rfl
  | member :: rest, view, offset, compatible, accepted, compatible' => by
    obtain ⟨⟨⟩, first, later⟩ := except_bind_eq_ok.mp accepted
    simp only [validateMembers, validate_of_countedValidate member _ compatible first compatible', except_ok_bind]
    exact validateMembers_of_countedValidate rest view _ compatible later compatible'

/-- Fields the counted check accepts pass the generated field checks. -/
theorem validateFields_of_countedValidate : ∀ (fields : List (Field Schema)) (view : Buffer) (offsets : List Nat)
    (index : Nat) (compatible : Bool), countedValidateFields fields view offsets index compatible = .ok () →
    validateFields fields view offsets index = .ok ()
  | [], _, _, _, _, _ => rfl
  | .typed schema :: rest, view, offsets, index, compatible, accepted => by
    obtain ⟨⟨⟩, first, later⟩ := except_bind_eq_ok.mp accepted
    simp only [validateFields, validate_of_countedValidate schema _ compatible first false, except_ok_bind]
    exact validateFields_of_countedValidate rest view offsets _ compatible later
  | .byte name :: rest, view, offsets, index, compatible, accepted => by
    obtain ⟨placed, later⟩ := except_check_bind_eq_ok.mp accepted
    exact except_check_bind_eq_ok.mpr ⟨placed, validateFields_of_countedValidate rest view offsets _ compatible later⟩
end

/-- Passing each table's field count and the caller's mode only tightens the generated check:
every buffer the counted check accepts in some mode passes the generated `validate` in both
modes. The converse fails, as the generated tables never check their arity. -/
theorem code_validation_accepts_counted_validation (schema : Schema) (view : Buffer) (compatible compatible' : Bool)
    (accepted : countedValidate schema view compatible = .ok ()) : validate schema view compatible' = .ok () :=
  validate_of_countedValidate schema view compatible accepted compatible'

/-- The encoding of a discount of 7 passes the counted strict check and the generated lenient one. -/
theorem code_validation_accepts_counted_validation_discount :
    countedValidate DiscountConfig [12, 0, 0, 0, 8, 0, 0, 0, 7, 0, 0, 0] false = .ok () ∧
      validate DiscountConfig [12, 0, 0, 0, 8, 0, 0, 0, 7, 0, 0, 0] true = .ok () :=
  have accepted : countedValidate DiscountConfig [12, 0, 0, 0, 8, 0, 0, 0, 7, 0, 0, 0] false = .ok () := by decide
  ⟨accepted, code_validation_accepts_counted_validation _ _ false true accepted⟩

/-- A `DiscountConfig` header declaring two items fails the counted strict check with the error
the generated check never raises, and passes the lenient one; the 4-byte empty table fails its
`Uint32` field check. -/
example : countedValidate DiscountConfig [16, 0, 0, 0, 12, 0, 0, 0, 16, 0, 0, 0, 7, 0, 0, 0] false =
      .error (.itemCountTooMany 1 2) ∧
    countedValidate DiscountConfig [16, 0, 0, 0, 12, 0, 0, 0, 16, 0, 0, 0, 7, 0, 0, 0] true = .ok () ∧
    countedValidate DiscountConfig [4, 0, 0, 0] false = .error (.lengthMismatch 0 4) := by
  decide

end DasTypes

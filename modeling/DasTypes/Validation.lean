import DasTypes.Views

/-!
# What validation throws

Every read a `validate` makes is guarded: the fixed vector and `Bytes` checks read their count
word only after the length check, the offset check reads its words only inside the first offset,
and every part is checked over a slice, which never fails. So `validate` fails only with an
error one of the checks throws itself, and never with the `RangeError` of an over-read, for
every schema, every buffer and either mode.
-/

namespace DasTypes

/-- The errors the checks throw themselves: the offset check's errors, which include the length
checks, and the misplaced raw byte of a table. -/
def CodecError.ThrownByCheck : CodecError → Prop
  | .invalidByteOffset .. => True
  | error => error.ThrownByOffsetCheck

/-- A sequenced computation fails exactly when its first step does, or the rest does from the
first step's result. -/
theorem except_bind_eq_error {ε α β : Type} {x : Except ε α} {f : α → Except ε β} {error : ε} :
    x >>= f = .error error ↔ x = .error error ∨ ∃ a, x = .ok a ∧ f a = .error error := by
  cases x <;> simp

/-- A length check fails only with its own message. -/
theorem assertDataLength_eq_error {actual required : Nat} {error : CodecError}
    (failed : assertDataLength actual required = .error error) : error.ThrownByCheck := by
  unfold assertDataLength at failed
  split at failed
  · cases failed
  · cases failed; trivial

/-- A loop of checks fails with the error of one of its checks. -/
theorem forM_eq_error {α : Type} {items : List α} {check : α → Except CodecError Unit} {error : CodecError}
    (failed : items.forM check = .error error) : ∃ item ∈ items, check item = .error error := by
  induction items with
  | nil => cases failed
  | cons item rest inductionHypothesis =>
    rw [List.forM_cons', except_bind_eq_error] at failed
    rcases failed with first | ⟨⟨⟩, -, later⟩
    · exact ⟨item, List.mem_cons_self _ _, first⟩
    · obtain ⟨other, mem, failing⟩ := inductionHypothesis later
      exact ⟨other, List.mem_cons_of_mem _ mem, failing⟩

/-- The offset check fails only with one of its own messages. -/
theorem verifyAndExtractOffsets_eq_error {view : Buffer} {expectedFieldCount : Nat} {compatible : Bool}
    {error : CodecError} (failed : verifyAndExtractOffsets view expectedFieldCount compatible = .error error) :
    error.ThrownByCheck := by
  have outcome := verifyAndExtractOffsets_outcome view expectedFieldCount compatible
  rw [failed] at outcome
  cases error
  case invalidByteOffset => trivial
  all_goals exact outcome

/-- The length-and-count check of a fixed vector or `Bytes`: the count word is read only once
the buffer holds it. -/
theorem countedCheck_eq_error {view : Buffer} (required : Nat → Nat) {error : CodecError}
    (failed : (do
      if view.length < 4 then throw (.lengthBelow view.length ">4")
      let count ← getUint32 view 0
      assertDataLength view.length (required count) : Except CodecError Unit) = .error error) :
    error.ThrownByCheck := by
  by_cases short : view.length < 4
  · simp only [short, if_true, except_throw, except_error_bind] at failed
    cases failed; trivial
  · simp only [short, if_false, except_pure, except_ok_bind, getUint32_of_le (show 0 + 4 ≤ view.length by omega)]
      at failed
    exact assertDataLength_eq_error failed

mutual
/-- `validate` fails only with a message one of its own checks throws, for every schema, buffer
and mode. -/
theorem validate_thrownByCheck : ∀ (schema : Schema) (view : Buffer) (compatible : Bool) (error : CodecError),
    validate schema view compatible = .error error → error.ThrownByCheck
  | .fixed _, _, _, _, failed => assertDataLength_eq_error failed
  | .struct members, view, compatible, error, failed => by
    rcases except_bind_eq_error.mp failed with sized | ⟨⟨⟩, -, later⟩
    · exact assertDataLength_eq_error sized
    · exact validateMembers_thrownByCheck members view 0 compatible error later
  | .fixVec item, view, _, _, failed => countedCheck_eq_error (fun count => count * item.size + 4) failed
  | .bytes, view, _, _, failed => countedCheck_eq_error (fun count => count + 4) failed
  | .dynVec item, view, _, error, failed => by
    rcases except_bind_eq_error.mp failed with verified | ⟨offsets, -, items⟩
    · exact verifyAndExtractOffsets_eq_error verified
    · obtain ⟨itemView, -, failing⟩ := forM_eq_error items
      exact validate_thrownByCheck item itemView false error failing
  | .table fields, view, _, error, failed => by
    rcases except_bind_eq_error.mp failed with verified | ⟨offsets, -, later⟩
    · exact verifyAndExtractOffsets_eq_error verified
    · exact validateFields_thrownByCheck fields view offsets 0 error later
  | .option inner, view, compatible, error, failed => by
    by_cases present : view.length > 0
    · simp only [validate, present, if_true] at failed
      exact validate_thrownByCheck inner view compatible error failed
    · simp [validate, present] at failed

/-- A struct's member checks fail only with a message of their own checks. -/
theorem validateMembers_thrownByCheck : ∀ (members : List Schema) (view : Buffer) (offset : Nat)
    (compatible : Bool) (error : CodecError),
    validateMembers members view offset compatible = .error error → error.ThrownByCheck
  | [], _, _, _, _, failed => by cases failed
  | member :: rest, view, offset, compatible, error, failed => by
    rcases except_bind_eq_error.mp failed with first | ⟨⟨⟩, -, later⟩
    · exact validate_thrownByCheck member _ compatible error first
    · exact validateMembers_thrownByCheck rest view _ compatible error later

/-- A table's field checks fail only with a message of their own checks. -/
theorem validateFields_thrownByCheck : ∀ (fields : List (Field Schema)) (view : Buffer) (offsets : List Nat)
    (index : Nat) (error : CodecError), validateFields fields view offsets index = .error error → error.ThrownByCheck
  | [], _, _, _, _, failed => by cases failed
  | .typed schema :: rest, view, offsets, index, error, failed => by
    rcases except_bind_eq_error.mp failed with first | ⟨⟨⟩, -, later⟩
    · exact validate_thrownByCheck schema _ false error first
    · exact validateFields_thrownByCheck rest view offsets _ error later
  | .byte name :: rest, view, offsets, index, error, failed => by
    by_cases misplaced : byteFieldMisplaced offsets[index]? offsets[index + 1]? = true
    · simp only [validateFields, misplaced, if_true, except_throw, except_error_bind] at failed
      cases failed; trivial
    · simp only [validateFields, misplaced, Bool.false_eq_true, if_false, except_pure, except_ok_bind] at failed
      exact validateFields_thrownByCheck rest view offsets _ error failed
end

/-- Validation never over-reads. For every schema, every buffer and either mode, `validate` fails
only with an error one of its checks throws, never with a `RangeError`. -/
theorem validate_never_over_reads (schema : Schema) (view : Buffer) (compatible : Bool) (error : CodecError)
    (failed : validate schema view compatible = .error error) : error.ThrownByCheck ∧ error ≠ .rangeError :=
  ⟨validate_thrownByCheck schema view compatible error failed, by
    rintro rfl
    exact validate_thrownByCheck schema view compatible .rangeError failed⟩

/-- A fixed vector of three bytes is refused by its length check before its count word is read. -/
theorem validate_never_over_reads_short_keys :
    validate DeviceKeyList [1, 0, 0] false = .error (.lengthBelow 3 ">4") ∧
      (CodecError.lengthBelow 3 ">4").ThrownByCheck ∧ CodecError.lengthBelow 3 ">4" ≠ .rangeError :=
  have failed : validate DeviceKeyList [1, 0, 0] false = .error (.lengthBelow 3 ">4") := by decide
  ⟨failed, validate_never_over_reads _ _ _ _ failed⟩

/-- `Bytes.validate` accepts exactly what `SerializeBytes` writes for a payload shorter than
2^32 bytes: a length word followed by that many bytes. -/
theorem bytes_validate_iff (view : Buffer) (compatible : Bool) :
    validate Bytes view compatible = .ok () ↔
      ∃ data : Buffer, data.length < 4294967296 ∧ serialize Bytes (.bytes data) = .ok view := by
  constructor
  · intro accepted
    obtain ⟨payload, serialized⟩ := validate_bytes_of_ok accepted
    exact ⟨view.drop 4, payload ▸ le32_lt view, serialized⟩
  · rintro ⟨data, fits, ⟨⟩⟩
    simp [Bytes, validate, getUint32_of_le, le32_u32Bytes_of_lt fits, assertDataLength, Nat.add_comm]

end DasTypes

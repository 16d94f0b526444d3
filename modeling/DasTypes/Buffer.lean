import Mathlib

/-!
# Buffers and the DataView accessors of the generated classes

Every class in `cell.js` wraps one `ArrayBuffer` in a `DataView` and reads it with
`getUint32(offset, true)`, `getUint8(offset)` and `buffer.slice(start, end)`; every serializer
writes little-endian words with `setUint32`. A buffer is the list of its bytes. A read outside
the view is the `RangeError` a `DataView` throws, so an over-read is an observable outcome
rather than an assumption.

`slice` is modelled at the arguments the generated code passes: non-negative integers read
from the buffer, or `undefined` when a table reads past the end of its offsets array.
-/

namespace DasTypes

/-- The contents of an `ArrayBuffer`. A view owns its bytes: every accessor slices a fresh
buffer, so no view shares storage with its parent. -/
abbrev Buffer := List UInt8

/-- What the generated code throws, one constructor per message. -/
inductive CodecError where
  /-- `assertDataLength`: `Invalid data length! Required: ${required}, actual: ${actual}`. -/
  | lengthMismatch (actual required : Nat)
  /-- `dataLengthError(actual, ">4")` and `dataLengthError(actual, ">8")`: the same message
  with the textual bound as its `required`. -/
  | lengthBelow (actual : Nat) (required : String)
  /-- `Invalid first offset: ${firstOffset}`. -/
  | invalidFirstOffset (firstOffset : Nat)
  /-- `Item count not enough! Required: ${expectedFieldCount}, actual: ${itemCount}`. -/
  | itemCountNotEnough (required actual : Nat)
  /-- `Item count is more than required! Required: ${expectedFieldCount}, actual: ${itemCount}`. -/
  | itemCountTooMany (required actual : Nat)
  /-- `First offset is larger than byte length: ${firstOffset}`. -/
  | firstOffsetTooLarge (firstOffset : Nat)
  /-- `Offset index ${i}: ${offsets[i]} is larger than offset index ${i + 1}: ${offsets[i + 1]}`. -/
  | offsetOrder (index offset next : Nat)
  /-- `Invalid offset for ${field}: ${start} - ${end}`, a table's check of a raw one-byte
  field. An offset past the end of the offsets array is `undefined`. -/
  | invalidByteOffset (field : String) (start stop : Option Nat)
  /-- `Provided value must be an ArrayBuffer or can be transformed into ArrayBuffer!`, which
  a serializer throws when a value lacks the member it reads. -/
  | notArrayBuffer
  /-- The `RangeError` of a `DataView` read past the end of its buffer. -/
  | rangeError
  deriving DecidableEq, Repr

/-- Results are compared by value, so that a run on a fixed buffer can be decided. -/
instance instDecidableEqExcept {ε α : Type} [DecidableEq ε] [DecidableEq α] :
    DecidableEq (Except ε α)
  | .ok a, .ok b => if same : a = b then isTrue (same ▸ rfl) else isFalse (by rintro ⟨⟩; exact same rfl)
  | .error a, .error b => if same : a = b then isTrue (same ▸ rfl) else isFalse (by rintro ⟨⟩; exact same rfl)
  | .ok _, .error _ => isFalse (by rintro ⟨⟩)
  | .error _, .ok _ => isFalse (by rintro ⟨⟩)

/-- `pure` in `Except` is a success. -/
@[simp] theorem except_pure {ε α : Type} (a : α) : (pure a : Except ε α) = .ok a := rfl

/-- `throw` in `Except` is a failure. -/
@[simp] theorem except_throw {ε α : Type} (error : ε) : (throw error : Except ε α) = .error error := rfl

/-- A success hands its result to the rest of the computation. -/
@[simp] theorem except_ok_bind {ε α β : Type} (a : α) (f : α → Except ε β) :
    (Except.ok a >>= f) = f a := rfl

/-- A failure skips the rest of the computation. -/
@[simp] theorem except_error_bind {ε α β : Type} (error : ε) (f : α → Except ε β) :
    (Except.error error >>= f) = .error error := rfl

/-- A sequenced computation succeeds exactly when its first step does and the rest succeeds
from that step's result. -/
theorem except_bind_eq_ok {ε α β : Type} {x : Except ε α} {f : α → Except ε β} {b : β} :
    x >>= f = .ok b ↔ ∃ a, x = .ok a ∧ f a = .ok b := by
  cases x <;> simp

/-- A check followed by more work succeeds exactly when the check passes and the work succeeds. -/
theorem except_seq_eq_ok {ε β : Type} {x : Except ε Unit} {f : Unit → Except ε β} {b : β} :
    x >>= f = .ok b ↔ x = .ok () ∧ f () = .ok b := by
  rcases x with _ | ⟨⟨⟩⟩ <;> simp

/-- A check `if (condition) throw error` followed by more work succeeds exactly when the
condition is false and the work succeeds. -/
theorem except_check_bind_eq_ok {ε α : Type} {condition : Bool} {error : ε} {rest : Except ε α} {a : α} :
    (do if condition then throw error
        rest : Except ε α) = .ok a ↔ condition = false ∧ rest = .ok a := by
  cases condition <;> simp

/-- The bytes `setUint32(offset, value, true)` stores: `ToUint32(value)`, least significant
byte first. The reduction modulo 2^32 is each byte's own reduction modulo 256. -/
def u32Bytes (value : Nat) : Buffer :=
  [UInt8.ofNat value, UInt8.ofNat (value / 256), UInt8.ofNat (value / 65536),
    UInt8.ofNat (value / 16777216)]

/-- The little-endian word in a buffer's first four bytes. -/
def le32 : Buffer → Nat
  | b0 :: b1 :: b2 :: b3 :: _ =>
    b0.toNat + 256 * b1.toNat + 65536 * b2.toNat + 16777216 * b3.toNat
  | _ => 0

/-- `view.getUint32(byteOffset, true)`. -/
def getUint32 (view : Buffer) (byteOffset : Nat) : Except CodecError Nat :=
  if byteOffset + 4 ≤ view.length then .ok (le32 (view.drop byteOffset)) else .error .rangeError

/-- `view.getUint8(byteOffset)`. -/
def getUint8 (view : Buffer) (byteOffset : Nat) : Except CodecError Nat :=
  match view[byteOffset]? with
  | some byte => .ok byte.toNat
  | none => .error .rangeError

/-- The number a run of bytes holds, least significant byte first. -/
def leNat : Buffer → Nat
  | [] => 0
  | byte :: rest => byte.toNat + 256 * leNat rest

/-- `view.getUint32(byteOffset, littleEndian)` for `width = 4` and
`view.getBigUint64(byteOffset, littleEndian)` for `width = 8`: the `width` bytes at the offset as
an unsigned number, least significant byte first when `littleEndian`. -/
def getWord (width : Nat) (view : Buffer) (byteOffset : Nat) (littleEndian : Bool) :
    Except CodecError Nat :=
  if byteOffset + width ≤ view.length then
    let word := (view.drop byteOffset).take width
    .ok (leNat (if littleEndian then word else word.reverse))
  else .error .rangeError

/-- `buffer.slice(start, end)`. An undefined start counts from 0 and an undefined end is the
length; both clamp to the buffer, and an end before the start gives no bytes. -/
def slice (buffer : Buffer) (start stop : Option Nat) : Buffer :=
  (buffer.take (stop.getD buffer.length)).drop (start.getD 0)

/-- `assertDataLength(actual, required)`. -/
def assertDataLength (actual required : Nat) : Except CodecError Unit :=
  if actual = required then pure () else throw (.lengthMismatch actual required)

/-- A stored word takes four bytes. -/
@[simp] theorem length_u32Bytes (value : Nat) : (u32Bytes value).length = 4 := rfl

/-- Reading back a stored word gives the value modulo 2^32, whatever follows it. -/
@[simp] theorem le32_u32Bytes (value : Nat) (rest : Buffer) :
    le32 (u32Bytes value ++ rest) = value % 4294967296 := by
  have byte : ∀ n : Nat, (UInt8.ofNat n).toNat = n % 256 := fun _ => rfl
  simp only [u32Bytes, List.cons_append, le32, byte]
  omega

/-- Four bytes are the word they hold: storing a read word rewrites the same bytes. -/
theorem u32Bytes_le32 (buffer : Buffer) (long : 4 ≤ buffer.length) :
    u32Bytes (le32 buffer) = buffer.take 4 := by
  match buffer, long with
  | b0 :: b1 :: b2 :: b3 :: rest, _ =>
    have digit : ∀ (byte : UInt8) (n : Nat), n % 256 = byte.toNat → UInt8.ofNat n = byte :=
      fun byte n same => UInt8.toNat.inj (same ▸ rfl)
    have h0 := b0.toNat_lt_size
    have h1 := b1.toNat_lt_size
    have h2 := b2.toNat_lt_size
    have h3 := b3.toNat_lt_size
    simp only [UInt8.size] at h0 h1 h2 h3
    simp only [le32, u32Bytes, List.take_succ_cons, List.take_zero]
    refine congrArg₂ _ (digit _ _ ?_) (congrArg₂ _ (digit _ _ ?_)
      (congrArg₂ _ (digit _ _ ?_) (congrArg₂ _ (digit _ _ ?_) rfl))) <;> omega

/-- A word that fits is read back exactly. -/
theorem le32_u32Bytes_of_lt {value : Nat} (fits : value < 4294967296) (rest : Buffer) :
    le32 (u32Bytes value ++ rest) = value := by
  rw [le32_u32Bytes, Nat.mod_eq_of_lt fits]

/-- A word read from four bytes is below 2^32. -/
theorem le32_lt (buffer : Buffer) : le32 buffer < 4294967296 := by
  match buffer with
  | b0 :: b1 :: b2 :: b3 :: _ =>
    have h0 := b0.toNat_lt_size
    have h1 := b1.toNat_lt_size
    have h2 := b2.toNat_lt_size
    have h3 := b3.toNat_lt_size
    simp only [UInt8.size] at h0 h1 h2 h3
    simp only [le32]
    omega
  | [] | [_] | [_, _] | [_, _, _] => simp [le32]

/-- A word read inside the view returns the little-endian word at its offset. -/
theorem getUint32_of_le {view : Buffer} {byteOffset : Nat} (inside : byteOffset + 4 ≤ view.length) :
    getUint32 view byteOffset = .ok (le32 (view.drop byteOffset)) := by
  simp [getUint32, inside]

/-- A byte read inside the view returns that byte. -/
theorem getUint8_of_lt {view : Buffer} {byteOffset : Nat} (inside : byteOffset < view.length) :
    getUint8 view byteOffset = .ok view[byteOffset].toNat := by
  simp [getUint8, List.getElem?_eq_getElem inside]

/-- A slice between two positions is as long as the part of the buffer they enclose. -/
@[simp] theorem length_slice (buffer : Buffer) (start stop : Nat) :
    (slice buffer (some start) (some stop)).length = min stop buffer.length - start := by
  simp [slice]

/-- The middle of three concatenated buffers, sliced at its own boundaries. -/
theorem slice_middle (front part back : Buffer) :
    slice (front ++ part ++ back) (some front.length) (some (front.length + part.length)) = part := by
  simp [slice, List.take_append_eq_append_take, List.drop_append_eq_append_drop]

/-- Adjacent slices of one buffer join into the slice over both. -/
theorem slice_append_slice (buffer : Buffer) {start middle stop : Nat}
    (ordered : start ≤ middle) (onward : middle ≤ stop) :
    slice buffer (some start) (some middle) ++ slice buffer (some middle) (some stop) =
      slice buffer (some start) (some stop) := by
  simp only [slice, Option.getD_some, List.drop_take]
  have widths : stop - start = (middle - start) + (stop - middle) := by omega
  rw [widths, List.take_add, List.drop_drop, Nat.add_sub_cancel' ordered]

end DasTypes

import DasTypes.OffsetTable

/-!
# Schemas, structured values and the generic codec

Every exported class of `cell.js` is generated from one of six molecule kinds, and its
methods are the same code up to the class's own field list and element type: a fixed-size
byte array, a struct of fixed-size members, a fixed vector, `Bytes`, a dynamic vector, a table
and an option. A `Schema` names the kind and those parameters, so the generated code becomes one
function per method. Tables also hold raw one-byte fields, which the generated code reads
through a bare `DataView` and checks by the distance between two offsets.

`validate`, `serialize` and the accessors follow the generated bodies. `read` is what a caller
recovers through the accessors alone: `raw()`, the getters, `length()` with `indexAt(i)`, and
`hasValue()` with `value()`. It is the decoding against which the round trip is stated.
-/

namespace DasTypes

/-- A table field: a raw one-byte field, named for the message its check throws, or a field
of a schema type. -/
inductive Field (α : Type) where
  | byte (name : String)
  | typed (schema : α)
  deriving Repr

/-- The molecule kind of a generated class, with the parameters its code reads. -/
inductive Schema where
  /-- A byte array of a fixed size: `Uint8`, `Uint32`, `Uint64`, `Byte10`, `Hash`, `AccountId`. -/
  | fixed (size : Nat)
  /-- Fixed-size members laid end to end: `OutPoint`, `DeviceKey`. -/
  | struct (members : List Schema)
  /-- Fixed-size items behind an item-count word: `DeviceKeyList`. -/
  | fixVec (item : Schema)
  /-- `Bytes`: a payload behind its length word. -/
  | bytes
  /-- Items behind an offset table. -/
  | dynVec (item : Schema)
  /-- Fields behind an offset table, in declaration order. -/
  | table (fields : List (Field Schema))
  /-- An optional value, absent exactly when its buffer is empty. -/
  | option (inner : Schema)
  deriving Repr

/-- A schema written where a table field is expected is a typed field. -/
instance : Coe Schema (Field Schema) := ⟨Field.typed⟩

mutual
/-- `T.size()` of a fixed-size class: a struct's size is the sum of its members' sizes. Only
fixed-size classes have the method; other kinds never reach it and count 0. -/
def Schema.size : Schema → Nat
  | .fixed size => size
  | .struct members => Schema.membersSize members
  | _ => 0

/-- The summed sizes of struct members. -/
def Schema.membersSize : List Schema → Nat
  | [] => 0
  | member :: rest => member.size + Schema.membersSize rest
end

mutual
/-- A fixed-size kind: a byte array, or a struct of fixed-size kinds. These are the classes that
have `size()`, and the only kinds a struct or a fixed vector may hold. -/
def Schema.fixedSize : Schema → Bool
  | .fixed _ => true
  | .struct members => Schema.membersFixedSize members
  | _ => false

/-- Every member is of a fixed-size kind. -/
def Schema.membersFixedSize : List Schema → Bool
  | [] => true
  | member :: rest => member.fixedSize && Schema.membersFixedSize rest
end

/-- A structured value: what a serializer takes and what the accessors read back. -/
inductive Value where
  /-- The bytes of a fixed-size leaf, or a `Bytes` payload. -/
  | bytes (data : Buffer)
  /-- The number held by a raw one-byte field. -/
  | byte (value : Nat)
  /-- Struct members, table fields or vector items, in order. -/
  | list (items : List Value)
  /-- An absent option: `null` or `undefined`. -/
  | absent
  /-- A present option. -/
  | present (inner : Value)
  deriving Repr

/-- The two words a table getter reads: the field's offset at `start = 4 + 4 * index`, and the
next offset word, or `view.byteLength` for the last declared field. -/
def fieldBounds (view : Buffer) (index fieldCount : Nat) : Except CodecError (Nat × Nat) := do
  let start := 4 + 4 * index
  let offset ← getUint32 view start
  let offsetEnd ← if index + 1 < fieldCount then getUint32 view (start + 4) else pure view.length
  pure (offset, offsetEnd)

/-- The getter of a typed field: `new T(this.view.buffer.slice(offset, offset_end), { validate: false })`. -/
def getField (view : Buffer) (index fieldCount : Nat) : Except CodecError Buffer := do
  let (offset, offsetEnd) ← fieldBounds view index fieldCount
  pure (slice view (some offset) (some offsetEnd))

/-- The getter of a raw one-byte field:
`new DataView(this.view.buffer.slice(offset, offset_end)).getUint8(0)`. -/
def getByteField (view : Buffer) (index fieldCount : Nat) : Except CodecError Nat := do
  let field ← getField view index fieldCount
  getUint8 field 0

/-- `length()` of a dynamic vector: `this.view.getUint32(4, true) / 4 - 1` as a JavaScript
number, and 0 below eight bytes. On a buffer that was never validated it need not be an
integer. -/
def dynVecLength (view : Buffer) : ℚ :=
  if view.length < 8 then 0 else (le32 (view.drop 4) : ℚ) / 4 - 1

/-- `indexAt(i)` of a dynamic vector: the item ends at the next offset word, or at
`view.byteLength` for the last item. -/
def dynVecIndexAt (view : Buffer) (index : Nat) : Except CodecError Buffer := do
  let start := 4 + index * 4
  let offset ← getUint32 view start
  let offsetEnd ← if ((index + 1 : Nat) : ℚ) < dynVecLength view then getUint32 view (start + 4)
    else pure view.length
  pure (slice view (some offset) (some offsetEnd))

/-- `length()` of a fixed vector: its item-count word. -/
def fixVecLength (view : Buffer) : Except CodecError Nat :=
  getUint32 view 0

/-- `indexAt(i)` of a fixed vector of `size`-byte items. -/
def fixVecIndexAt (size : Nat) (view : Buffer) (index : Nat) : Buffer :=
  slice view (some (4 + index * size)) (some (4 + (index + 1) * size))

/-- The start of a struct getter's slice: the generated code sums the sizes of the members
before it, `0 + A.size() + B.size()`, and ends the slice one `T.size()` later. -/
def memberStart (members : List Schema) (index : Nat) : Nat :=
  Schema.membersSize (members.take index)

/-- `indexAt(i)` of a fixed-size byte array: `this.view.getUint8(i)`, with no check of `i`. -/
def fixedIndexAt (view : Buffer) (index : Nat) : Except CodecError Nat :=
  getUint8 view index

/-- `length()` of `Bytes`: its length word. -/
def bytesLength (view : Buffer) : Except CodecError Nat :=
  getUint32 view 0

/-- `indexAt(i)` of `Bytes`: `this.view.getUint8(4 + i)`, with no check against `length()`. -/
def bytesIndexAt (view : Buffer) (index : Nat) : Except CodecError Nat :=
  getUint8 view (4 + index)

/-- `Uint32.toLittleEndianUint32()`: `this.view.getUint32(0, true)`. -/
def toLittleEndianUint32 (view : Buffer) : Except CodecError Nat :=
  getUint32 view 0

/-- `Uint32.toBigEndianUint32()`: `this.view.getUint32(0, false)`. -/
def toBigEndianUint32 (view : Buffer) : Except CodecError Nat :=
  getWord 4 view 0 false

/-- `Uint64.toLittleEndianBigUint64()`: `this.view.getBigUint64(0, true)`. -/
def toLittleEndianBigUint64 (view : Buffer) : Except CodecError Nat :=
  getWord 8 view 0 true

/-- `Uint64.toBigEndianBigUint64()`: `this.view.getBigUint64(0, false)`. -/
def toBigEndianBigUint64 (view : Buffer) : Except CodecError Nat :=
  getWord 8 view 0 false

/-- `offsets[i + 1] - offsets[i] !== 1` in JavaScript arithmetic: an offset past the end of the
array is `undefined`, the difference is then `NaN`, and `NaN` differs from 1. -/
def byteFieldMisplaced : Option Nat → Option Nat → Bool
  | some start, some stop => (stop : Int) - start ≠ 1
  | _, _ => true

mutual
/-- `validate(compatible)` of a class of schema `T`. Tables and dynamic vectors pass the literal
arguments `0` and `true` to `verifyAndExtractOffsets` and validate their parts with the default
`compatible = false`; structs and options pass `compatible` on. The per-item loop of a fixed
vector is `for (let i = 0; i < 0; i++)`, which checks no item. -/
def validate : Schema → Buffer → Bool → Except CodecError Unit
  | .fixed size, view, _ => assertDataLength view.length size
  | .struct members, view, compatible => do
    assertDataLength view.length (Schema.membersSize members)
    validateMembers members view 0 compatible
  | .fixVec item, view, _ => do
    if view.length < 4 then throw (.lengthBelow view.length ">4")
    let count ← fixVecLength view
    assertDataLength view.length (count * item.size + 4)
  | .bytes, view, _ => do
    if view.length < 4 then throw (.lengthBelow view.length ">4")
    let count ← getUint32 view 0
    assertDataLength view.length (count + 4)
  | .dynVec item, view, _ => do
    let offsets ← verifyAndExtractOffsets view 0 true
    (itemSlices view offsets).forM fun itemView => validate item itemView false
  | .table fields, view, _ => do
    let offsets ← verifyAndExtractOffsets view 0 true
    validateFields fields view offsets 0
  | .option inner, view, compatible =>
    if view.length > 0 then validate inner view compatible else pure ()

/-- A struct's member checks, `this.getMember().validate(compatible)` in declaration order,
each over the member's range from `offset`. -/
def validateMembers : List Schema → Buffer → Nat → Bool → Except CodecError Unit
  | [], _, _, _ => pure ()
  | member :: rest, view, offset, compatible => do
    validate member (slice view (some offset) (some (offset + member.size))) compatible
    validateMembers rest view (offset + member.size) compatible

/-- A table's field checks from field `index` on:
`new T(this.view.buffer.slice(offsets[i], offsets[i + 1]), { validate: false }).validate()` for
a typed field and the distance check for a raw byte. -/
def validateFields : List (Field Schema) → Buffer → List Nat → Nat → Except CodecError Unit
  | [], _, _, _ => pure ()
  | .typed schema :: rest, view, offsets, index => do
    validate schema (slice view offsets[index]? offsets[index + 1]?) false
    validateFields rest view offsets (index + 1)
  | .byte name :: rest, view, offsets, index => do
    if byteFieldMisplaced offsets[index]? offsets[index + 1]? then
      throw (.invalidByteOffset name offsets[index]? offsets[index + 1]?)
    validateFields rest view offsets (index + 1)
end

mutual
/-- `SerializeT(value)` of a class of schema `T`. A fixed vector or a struct is written into a
zeroed buffer at each part's offset; every part is exactly its declared size, so that is the
concatenation of the parts. A raw byte is written by `setUint8`, which reduces it modulo 256. -/
def serialize : Schema → Value → Except CodecError Buffer
  | .fixed size, .bytes data => do
    assertDataLength data.length size
    pure data
  | .struct members, .list values => serializeMembers members values
  | .fixVec item, .list values => do
    let items ← values.mapM (serialize item)
    pure (u32Bytes values.length ++ items.flatten)
  | .bytes, .bytes data => pure (u32Bytes data.length ++ data)
  | .dynVec item, .list values => do
    let items ← values.mapM (serialize item)
    pure (serializeTable items)
  | .table fields, .list values => do
    let buffers ← serializeFields fields values
    pure (serializeTable buffers)
  | .option _, .absent => pure []
  | .option inner, .present value => serialize inner value
  | _, _ => throw .notArrayBuffer

/-- A struct's members serialized in declaration order. -/
def serializeMembers : List Schema → List Value → Except CodecError Buffer
  | [], _ => pure []
  | member :: rest, value :: values => do
    let head ← serialize member value
    let tail ← serializeMembers rest values
    pure (head ++ tail)
  | _ :: _, [] => throw .notArrayBuffer

/-- A table's fields serialized in declaration order, as the `buffers.push` lines do. -/
def serializeFields : List (Field Schema) → List Value → Except CodecError (List Buffer)
  | [], _ => pure []
  | .typed schema :: rest, value :: values => do
    let head ← serialize schema value
    let tail ← serializeFields rest values
    pure (head :: tail)
  | .byte _ :: rest, .byte value :: values => do
    let tail ← serializeFields rest values
    pure ([UInt8.ofNat value] :: tail)
  | _, _ => throw .notArrayBuffer
end

mutual
/-- The value a caller reads from a view through the accessors of a class of schema `T`. A
vector's items are `indexAt(i)` for every `i < length()`. -/
def read : Schema → Buffer → Except CodecError Value
  | .fixed _, view => pure (.bytes view)
  | .struct members, view => do
    let values ← readMembers members view 0
    pure (.list values)
  | .fixVec item, view => do
    let count ← fixVecLength view
    let items ← (List.range count).mapM fun index => read item (fixVecIndexAt item.size view index)
    pure (.list items)
  | .bytes, view => pure (.bytes (slice view (some 4) none))
  | .dynVec item, view => do
    let items ← (List.range ⌈dynVecLength view⌉.toNat).mapM fun index => do
      let itemView ← dynVecIndexAt view index
      read item itemView
    pure (.list items)
  | .table fields, view => do
    let values ← readFields fields view 0 fields.length
    pure (.list values)
  | .option inner, view =>
    if view.length > 0 then do
      let value ← read inner view
      pure (.present value)
    else pure .absent

/-- A struct's member getters from `offset` on. -/
def readMembers : List Schema → Buffer → Nat → Except CodecError (List Value)
  | [], _, _ => pure []
  | member :: rest, view, offset => do
    let head ← read member (slice view (some offset) (some (offset + member.size)))
    let tail ← readMembers rest view (offset + member.size)
    pure (head :: tail)

/-- A table's getters from field `index` on, in a table of `fieldCount` declared fields. -/
def readFields : List (Field Schema) → Buffer → Nat → Nat → Except CodecError (List Value)
  | [], _, _, _ => pure []
  | .typed schema :: rest, view, index, fieldCount => do
    let fieldView ← getField view index fieldCount
    let head ← read schema fieldView
    let tail ← readFields rest view (index + 1) fieldCount
    pure (head :: tail)
  | .byte _ :: rest, view, index, fieldCount => do
    let head ← getByteField view index fieldCount
    let tail ← readFields rest view (index + 1) fieldCount
    pure (.byte head :: tail)
end

end DasTypes

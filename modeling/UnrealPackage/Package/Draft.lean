import UnrealPackage.Package.Relocation
/-!
# New packages

A draft collects names, imports and exports with their payloads. Its image holds the header, the
payloads in the order of their exports, and the three tables, without gaps.
-/

namespace UnrealPackage

/-- A package that is being put together. -/
structure Draft where
  version : UInt16
  licensee : UInt16
  flags : UInt32
  guid : Guid
  /-- If empty, the package gets one generation with its final counts. -/
  generations : List Generation
  names : List NameEntry := []
  imports : List ImportEntry := []
  exports : List (ExportEntry × List UInt8) := []

namespace Draft

/-- Adds a name, unless there is an entry for it, and gives its index. -/
def addName (d : Draft) (e : NameEntry) : Draft × NameIndex :=
  match d.names.findIdx? e.sameAs with
  | some i => (d, Int32.ofNat i)
  | none => ({ d with names := d.names ++ [e] }, Int32.ofNat d.names.length)

/-- Adds an import and gives the reference to it. -/
def addImport (d : Draft) (e : ImportEntry) : Draft × ObjectRef :=
  ({ d with imports := d.imports ++ [e] }, .ofImport d.imports.length)

/-- Adds an export with its payload and gives the reference to it. Size and position of the payload
are filled in when the image is made. -/
def addExport (d : Draft) (e : ExportEntry) (data : List UInt8) : Draft × ObjectRef :=
  ({ d with exports := d.exports ++ [(e, data)] }, .ofExport d.exports.length)

/-- The exports with their payloads placed one after the other from `position` on, which has to fit
31 bits. -/
def placeExports : Nat → List (ExportEntry × List UInt8) → Except Error (List ExportEntry)
  | _, [] => pure []
  | position, (e, data) :: rest => do
    if 0x80000000 ≤ position then throw .packageTooLarge
    let placed := { e with offset := Int32.ofNat position, size := Int32.ofNat data.length }
    let exports ← placeExports (position + data.length) rest
    pure (placed :: exports)

/-- The header of the draft, without the places of its tables. -/
def header (d : Draft) : Header where
  version := d.version
  licensee := d.licensee
  flags := d.flags
  names := ⟨0, 0⟩
  exports := ⟨0, 0⟩
  imports := ⟨0, 0⟩
  guid := d.guid
  generations :=
    if d.generations.isEmpty then
      [⟨UInt32.ofNat d.exports.length, UInt32.ofNat d.names.length⟩]
    else d.generations

/-- The image of the package. -/
def image (d : Draft) (cs : Charset) : Except Error (List UInt8) := do
  let start := d.header.encodedLength
  let exports ← placeExports start d.exports
  let payload := d.exports.flatMap Prod.snd
  let t : Tables := ⟨"", d.names, d.imports, exports⟩
  let block := TableBlock.ofTables cs t (start + payload.length)
  pure ((block.place t d.header).encode ++ payload ++ block.bytes)

/-- Writes the image over stored bytes and cuts off what they were longer. -/
def store (d : Draft) (cs : Charset) (storage : List UInt8) : Except Error (List UInt8) := do
  let image ← d.image cs
  pure (resize (writeAt storage 0 image) image.length)

end Draft

end UnrealPackage

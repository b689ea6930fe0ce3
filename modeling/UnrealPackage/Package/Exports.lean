import UnrealPackage.Package.Imports
/-!
# Changes to exports

An export is added by its dotted name, under package exports for all parts but the last. Its payload
can be replaced: one that is no longer than the old one stays in its place, a longer one moves
behind all others and the tables follow it.
-/

namespace UnrealPackage

/-- An export that is wanted, by full names. -/
structure ExportRequest where
  name : String
  /-- Full name of the class, empty for none. -/
  type : String
  /-- Full name of the super, empty for none. -/
  super : String
  data : List UInt8
  flags : UInt32

/-- An export's place among others: what two exports may not have in common. -/
structure ExportKey where
  type : ObjectRef
  outer : ObjectRef
  objectName : NameIndex
deriving DecidableEq, Repr

/-- The place of an entry. -/
def ExportEntry.key (e : ExportEntry) : ExportKey :=
  ⟨e.type, e.outer, e.objectName⟩

/-- An entry for a place whose payload is still to be stored. -/
def ExportKey.entry (k : ExportKey) (super : ObjectRef) (flags : UInt32) : ExportEntry :=
  ⟨k.type, super, k.outer, k.objectName, flags, 0, 0⟩

/-- Exports together with the payloads that are still to be stored for some of them. -/
structure ExportDraft where
  exports : List ExportEntry
  payloads : List PendingPayload

namespace ExportDraft

/-- The index of the first export in a place. -/
def find? (d : ExportDraft) (k : ExportKey) : Option Nat :=
  d.exports.findIdx? (·.key == k)

/-- Adds an export with its payload. -/
def push (d : ExportDraft) (e : ExportEntry) (data : List UInt8) : ExportDraft :=
  ⟨d.exports ++ [e], d.payloads ++ [⟨d.exports.length, data⟩]⟩

/-- The draft with the packages of a path added to it where they are missing, each with the payload
`data`, and the reference to the innermost one. -/
def addPackages (t : Tables) (type : ObjectRef) (data : List UInt8) :
    ExportDraft → ObjectRef → List String → Except Error (ExportDraft × ObjectRef)
  | d, outer, [] => pure (d, outer)
  | d, outer, part :: path => do
    let objectName ← t.nameIndex part
    let key : ExportKey := { type, outer, objectName }
    match d.find? key with
    | some i => addPackages t type data d (.ofExport i) path
    | none =>
      addPackages t type data (d.push (key.entry .none implicitFlags) data)
        (.ofExport d.exports.length) path

end ExportDraft

namespace Change

/-- Adds the names and classes that an export needs, and gives the references to its class, its
super and the class of the packages around it. -/
def prepareExport (r : ExportRequest) : Change (ObjectRef × ObjectRef × ObjectRef) := do
  let path := segments r.name
  ensureNames (noneName :: packageClassNames ++ path)
  let type ← classReference r.type
  let super ← classReference r.super
  let packageType ← if path.length > 1 then classReference "Core.Package" else pure .none
  pure (type, super, packageType)

/-- Adds an export, whose names and classes are there, with the packages around it, and gives its
index. -/
def insertExport (r : ExportRequest) (type super packageType : ObjectRef) : Change Nat := do
  let path := segments r.name
  let t ← gets fun p => pure p.tables
  let emptyList ← liftM (t.nameIndex noneName)
  let (draft, outer) ← liftM
    (ExportDraft.addPackages t packageType (Encode.compact emptyList) ⟨t.exports, []⟩ .none
      path.dropLast)
  let objectName ← liftM (t.nameIndex (path.getLastD ""))
  let key : ExportKey := { type, outer, objectName }
  match draft.find? key with
  | some i => pure i
  | none =>
    let draft := draft.push (key.entry super r.flags) r.data
    relocate { t with exports := draft.exports } draft.payloads
    pure (draft.exports.length - 1)

/-- Adds an export with the names, classes and packages that it needs, and gives its index. If
there is one in its place, that one's index is given and its payload stays. -/
def addExport (r : ExportRequest) : Change Nat := do
  let (type, super, packageType) ← prepareExport r
  insertExport r type super packageType

/-- Writes the export table over the old one and cuts the image behind it if no other table stands
there. -/
def storeExports (exports : List ExportEntry) : Change Unit := do
  update fun p =>
    let position := p.header.exports.offset.toNat
    let table := Encode.exportTable exports
    let image := writeAt p.image position table
    let isLast := p.header.names.offset ≤ p.header.exports.offset &&
      p.header.imports.offset ≤ p.header.exports.offset
    { p with image := if isLast then resize image (position + table.length) else image }
  reload

/-- Replaces the payload of an export. -/
def setExportData (index : Nat) (data : List UInt8) : Change Unit := do
  ensureWritable
  let e ← gets fun p => p.tables.exportAt index
  if max e.size.toInt 0 < data.length then
    let t ← gets fun p => pure p.tables
    relocate t [⟨index, data⟩]
  else
    if !data.isEmpty then overwrite e.offset.toUInt32.toNat data
    let size := Int32.ofNat data.length
    if size ≠ e.size then
      let exports ← gets fun p => pure p.tables.exports
      storeExports (exports.modify index fun e => { e with size })

end Change

end UnrealPackage

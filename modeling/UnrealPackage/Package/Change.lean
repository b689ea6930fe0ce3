import UnrealPackage.Package.Basic
/-!
# Changes to a package

A change either gives a value or fails, and in both cases leaves a package behind: what a change
did before it failed stays done. Every change asks first whether the package may be written.

The setters of the header write one field in its place and keep the tables as they are. `reload`
reads header and tables again; if that fails, those in memory stay.
-/

namespace UnrealPackage

/-- A computation on a package that may fail half-way. -/
abbrev Change := ExceptT Error (StateM Package)

namespace Change

/-- A value of the package as it stands. -/
def gets (f : Package → Except Error α) : Change α := fun p => (f p, p)

/-- Replaces the package. -/
def update (f : Package → Package) : Change Unit := fun p => (.ok (), f p)

/-- Fails for a package that was opened for reading only. -/
def ensureWritable : Change Unit :=
  gets fun p => if p.options.writable then pure () else throw .readOnly

/-- Writes bytes into the image. -/
def overwrite (position : Nat) (data : List UInt8) : Change Unit :=
  update fun p => { p with image := writeAt p.image position data }

/-- Reads header and tables from the image again. -/
def reload : Change Unit := do
  let (header, tables) ← gets fun p => readImage p.tables.package p.options.charset p.image
  update fun p => { p with header, tables }

/-- Writes bytes into the image; header and tables in memory stay as they are. -/
def writeBytes (position : Nat) (data : List UInt8) : Change Unit := do
  ensureWritable
  overwrite position data

/-! ## The header -/

/-- Writes one field of the header, in the image and in memory. -/
def setField (position : Nat) (data : List UInt8) (set : Header → Header) : Change Unit := do
  ensureWritable
  overwrite position data
  update fun p => { p with header := set p.header }

/-- Sets the version of the format. -/
def setVersion (version : UInt16) : Change Unit :=
  setField Header.Position.version (Encode.u16 version) fun h => { h with version }

/-- Sets the version of the licensee. -/
def setLicensee (licensee : UInt16) : Change Unit :=
  setField Header.Position.licensee (Encode.u16 licensee) fun h => { h with licensee }

/-- Sets the flags of the package. -/
def setFlags (flags : UInt32) : Change Unit :=
  setField Header.Position.flags (Encode.u32 flags) fun h => { h with flags }

/-- Sets the identifier of the package. -/
def setGuid (guid : Guid) : Change Unit :=
  setField Header.Position.guid (Encode.guid guid) fun h => { h with guid }

/-- Sets the generations; their number is fixed by what follows the header. -/
def setGenerations (generations : List Generation) : Change Unit := do
  ensureWritable
  gets fun p =>
    let expected := p.header.generations.length
    if generations.length = expected then pure ()
    else throw (.generationCountFixed expected generations.length)
  setField Header.Position.generations (Encode.generations generations)
    fun h => { h with generations }

end Change

end UnrealPackage

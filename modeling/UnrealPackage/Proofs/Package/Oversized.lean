import UnrealPackage.Proofs.Package.Relocation
import UnrealPackage.Proofs.Tables.Known
/-!
# Names that are too long

The length of a name stands in front of it as a number of 32 bits. A name of `2 ^ 31 - 1` characters
is too long for that by one, its zero included: its length begins again at the lowest number, and
the reader asks for 4 GiB of units behind it. Nothing refuses such a name before it is stored, so
the guard `StorableText` on the names of a change is needed.

`Change.relocate_truncated` says what becomes of a package without it: the image is written, it is
not read again by this call or any other, and header and tables in memory are those of before.
-/

namespace UnrealPackage

open Decode

/-- Whether the name of an entry is too long by one for its length, and held by the charset. -/
structure NameEntry.Oversized (cs : Charset) (e : NameEntry) : Prop where
  isSingleByte : cs.isSingleByte = true
  held : (cs.encode? e.name).isSome
  length_eq : e.name.length = 0x7FFFFFFF

/-- An entry whose name is so many letters. -/
def NameEntry.ofLetters (n : Nat) (flags : UInt32) : NameEntry :=
  ⟨letters n, flags⟩

/-- So many letters make a name that is too long, in every charset with a byte for each character.
-/
theorem NameEntry.oversized_ofLetters {cs : Charset} (hcs : cs.isSingleByte = true) {n : Nat}
    (hn : n = 0x7FFFFFFF) (flags : UInt32) : (ofLetters n flags).Oversized cs where
  isSingleByte := hcs
  held := by
    rw [ofLetters, Charset.encode?_letters hcs]
    rfl
  length_eq := (length_letters n).trans hn

/-- So many letters are one part of a dotted name. -/
theorem segments_letters (n : Nat) : segments (letters n) = [letters n] :=
  segments_of_not_mem fun h => absurd (eq_of_mem_letters h) (by decide)

/-- Such an entry takes little more than 2 GiB. -/
theorem NameEntry.Oversized.length_le {cs : Charset} {e : NameEntry} (h : e.Oversized cs) :
    (Encode.nameEntry cs e).length ≤ 0x80000009 := by
  obtain ⟨stored, hstored⟩ := Option.isSome_iff_exists.1 h.held
  have hlength := length_text_le h.isSingleByte hstored
  have heq := h.length_eq
  rw [Encode.nameEntry, List.length_append, Encode.length_u32]
  omega

/-- An image whose header stands in front of names that cannot be read cannot be read. -/
theorem readImage_of_names_error {name : String} {cs : Charset} {h : Header}
    {body stored : List UInt8} {count : Nat} {e : Error}
    (hg : h.generations.length ≤ Header.generationLimit)
    (hnames : h.names.Places count (h.encodedLength + body.length))
    (herror : times (nameEntry cs) count stored = .error e) :
    readImage name cs (h.encode ++ (body ++ stored)) = .error e := by
  have hheader : Header.decode (h.encode ++ (body ++ stored)) = .ok (h, body ++ stored) :=
    Header.decode_eq_ok.2 ⟨hg, rfl⟩
  have hdrop : (h.encode ++ (body ++ stored)).drop (h.encodedLength + body.length) = stored := by
    rw [← Header.length_encode, ← List.length_append, ← List.append_assoc, List.drop_left]
  have htable : readTable (h.encode ++ (body ++ stored)) h.names (nameEntry cs) = .error e := by
    rw [readTable, hnames.1, hnames.2, hdrop, herror]
    rfl
  rw [readImage, hheader]
  show (readTable (h.encode ++ (body ++ stored)) h.names (nameEntry cs) >>= fun _ => _) = _
  rw [htable]
  rfl

section

variable {p : Package} {t : Tables} {payloads : List PendingPayload} {position : Nat}
  {tail : List UInt8}

namespace Package

/-- A relocated image is as long as what stood in front of the payloads, the payloads and the
tables. -/
theorem length_image_relocated (himage : p.image = p.header.encode ++ tail)
    (hpos : p.header.encodedLength ≤ position) :
    (p.relocated t payloads position).image.length =
      position + (payloads.flatMap PendingPayload.data).length +
        ((Encode.nameTable p.options.charset t.names).length +
          (Encode.importTable t.imports).length + (Encode.exportTable t.exports).length) := by
  have hheader : (p.relocated t payloads position).header.encodedLength =
      p.header.encodedLength := rfl
  rw [image_relocated himage hpos, relocatedBlock, TableBlock.ofTables, TableBlock.bytes]
  simp only [List.length_append, Header.length_encode, length_resize]
  omega

/-- The names of a relocated package lie behind the payloads. -/
theorem places_relocated (himage : p.image = p.header.encode ++ tail)
    (hpos : p.header.encodedLength ≤ position)
    (hsize : (p.relocated t payloads position).image.length < 0x100000000) :
    (p.relocated t payloads position).header.names.Places t.names.length
      (position + (payloads.flatMap PendingPayload.data).length) := by
  rw [length_image_relocated himage hpos] at hsize
  have hcount := Encode.four_mul_length_le_nameTable p.options.charset t.names
  have hplace : position + (payloads.flatMap PendingPayload.data).length < 0x100000000 := by omega
  exact TableExtent.places_at (by omega) hplace

/-- A package that was relocated with a name that is too long is not read again. -/
theorem readImage_relocated (himage : p.image = p.header.encode ++ tail)
    (hg : p.header.generations.length ≤ Header.generationLimit)
    (hpos : p.header.encodedLength ≤ position) {front back : List NameEntry} {e : NameEntry}
    (hnames : t.names = front ++ e :: back) (hs : ∀ x ∈ front, StorableText x.name)
    (he : e.Oversized p.options.charset)
    (hsize : (p.relocated t payloads position).image.length < 0x100000000) (name : String) :
    readImage name p.options.charset (p.relocated t payloads position).image =
      .error .truncated := by
  obtain ⟨stored, hstored⟩ := Option.isSome_iff_exists.1 he.held
  have hplaces := places_relocated himage hpos hsize
  have hheader : (p.relocated t payloads position).header.encodedLength =
      p.header.encodedLength := rfl
  rw [length_image_relocated himage hpos] at hsize
  rw [image_relocated himage hpos, relocatedBlock, TableBlock.ofTables, TableBlock.bytes]
  dsimp only
  rw [List.append_assoc (Encode.nameTable _ _)]
  have herror : times (nameEntry p.options.charset) t.names.length
      (Encode.nameTable p.options.charset t.names ++
        (Encode.importTable t.imports ++ Encode.exportTable t.exports)) = .error .truncated := by
    rw [hnames] at hsize ⊢
    refine nameTable_truncated hs he.isSingleByte hstored he.length_eq ?_
    simp only [List.length_append] at hsize ⊢
    omega
  refine readImage_of_names_error hg ?_ herror
  rwa [List.length_append, length_resize, ← Nat.add_assoc, hheader, Nat.add_sub_cancel' hpos]

end Package

/-- A relocation with a name that is too long is written, but not read back. -/
theorem Change.relocate_truncated (hw : p.options.writable = true) (hd : p.dataEnd = .ok position)
    (himage : p.image = p.header.encode ++ tail)
    (hg : p.header.generations.length ≤ Header.generationLimit)
    (hpos : p.header.encodedLength ≤ position) {front back : List NameEntry} {e : NameEntry}
    (hnames : t.names = front ++ e :: back) (hs : ∀ x ∈ front, StorableText x.name)
    (he : e.Oversized p.options.charset)
    (hsize : (relocate t payloads p).2.image.length < 0x100000000) :
    relocate t payloads p = (.error .truncated, { p with image :=
        (p.relocated (placedTables t position payloads) payloads position).image }) ∧
      ∀ name, Package.load name p.options (relocate t payloads p).2.image =
        .error .truncated := by
  rw [image_relocate hw hd] at hsize
  have hread := Package.readImage_relocated (t := placedTables t position payloads) himage hg hpos
    hnames hs he hsize
  refine ⟨?_, fun name => ?_⟩
  · rw [relocate, bind_ok (ensureWritable_ok hw), bind_ok (gets_ok hd), bind_update, reload,
      bind_error (gets_error (hread _))]
    rfl
  · rw [image_relocate hw hd, Package.load, hread name]
    rfl

end

/-! ## Packages with room for such a name -/

/-- A package that was opened for writing, has its last payload behind its header and leaves room
for 2 GiB behind its tables. -/
structure Package.Roomy (p : Package) (position : Nat) : Prop where
  load : ∃ name, Package.load name p.options p.image = .ok p
  writable : p.options.writable = true
  isSingleByte : p.options.charset.isSingleByte = true
  dataEnd : p.dataEnd = .ok position
  behind : p.header.encodedLength ≤ position
  storable : ∀ e ∈ p.tables.names, StorableText e.name
  room : position + ((Encode.nameTable p.options.charset p.tables.names).length +
    (Encode.importTable p.tables.imports).length + (Encode.exportTable p.tables.exports).length) ≤
      0x7FFFFFF6

namespace Package.Roomy

variable {p : Package} {position n : Nat}

/-- A name that is too long is put behind the others: that fails, but its image is there. -/
theorem relocate (h : p.Roomy position) (hn : n = 0x7FFFFFFF) (flags : UInt32) :
    ∃ image,
      Change.relocate { p.tables with names := p.tables.names ++ [.ofLetters n flags] } [] p =
        (.error .truncated, { p with image }) ∧ image.length < 0x100000000 ∧
      ∀ name, Package.load name p.options image = .error .truncated := by
  obtain ⟨_, hload⟩ := h.load
  obtain ⟨hread, -⟩ := Package.load_eq_ok.1 hload
  obtain ⟨⟨tail, hheader⟩, -⟩ := readImage_eq_ok.1 hread
  obtain ⟨hg, himage⟩ := Header.decode_eq_ok.1 hheader
  have he := NameEntry.oversized_ofLetters h.isSingleByte hn flags
  have hadded : (Encode.nameTable p.options.charset
      (p.tables.names ++ [.ofLetters n flags])).length =
        (Encode.nameTable p.options.charset p.tables.names).length +
          (Encode.nameEntry p.options.charset (.ofLetters n flags)).length := by
    simp only [Encode.nameTable, List.flatMap_append, List.flatMap_singleton, List.length_append]
  have hroom := h.room
  have hentry := he.length_le
  have hsize : (Change.relocate { p.tables with names := p.tables.names ++ [.ofLetters n flags] } []
      p).2.image.length < 0x100000000 := by
    rw [Change.image_relocate h.writable h.dataEnd, length_image_relocated himage h.behind]
    simp only [Change.placedTables, placePayloads, List.flatMap_nil, List.length_nil, hadded]
    omega
  obtain ⟨hrun, hload⟩ := Change.relocate_truncated h.writable h.dataEnd himage hg h.behind rfl
    h.storable he hsize
  exact ⟨_, hrun, by rwa [hrun] at hsize, by rwa [hrun] at hload⟩

theorem not_knows (h : p.Roomy position) (hn : n = 0x7FFFFFFF) : ¬p.tables.Knows (letters n) := by
  rintro ⟨e, he, hsame⟩
  have hlength := h.storable e he
  rw [StorableText, length_eq_of_sameName hsame, length_letters] at hlength
  omega

/-- So it goes wherever such a name is needed among others that are known. -/
theorem ensureNames (h : p.Roomy position) (hn : n = 0x7FFFFFFF) {front back : List String}
    (hfront : ∀ x ∈ front, p.tables.Knows x) (hback : ∀ x ∈ back, p.tables.Knows x) :
    ∃ image, Change.ensureNames (front ++ letters n :: back) p =
        (.error .truncated, { p with image }) ∧ image.length < 0x100000000 ∧
      ∀ name, Package.load name p.options image = .error .truncated := by
  obtain ⟨image, hrun, hread⟩ := h.relocate hn implicitFlags
  refine ⟨image, ?_, hread⟩
  have hmissing : (front ++ letters n :: back).filter
      (fun x => (p.tables.nameIndex? x).isNone) = [letters n] := by
    have hnone := Tables.not_knows_iff.1 (h.not_knows hn)
    rw [List.filter_append, Tables.filter_isNone_of_knows hfront, List.nil_append,
      List.filter_cons, if_pos hnone, Tables.filter_isNone_of_knows hback]
  have hadded : addMissing p.tables.names ⟨letters n, implicitFlags⟩ =
      p.tables.names ++ [.ofLetters n implicitFlags] := by
    refine if_neg fun hany => h.not_knows hn ?_
    obtain ⟨e, he, hsame⟩ := List.any_eq_true.1 hany
    exact ⟨e, he, (sameName_comm _ _).trans hsame⟩
  have hnames : Change.addNames [⟨letters n, implicitFlags⟩] p =
      (.error .truncated, { p with image }) := by
    rw [Change.addNames, Change.bind_look]
    simp only [List.foldl_cons, List.foldl_nil, hadded, List.length_append, List.length_singleton,
      Nat.add_sub_cancel_left, Nat.zero_lt_one, if_true]
    refine Change.bind_error ?_
    rw [Change.updateNames, Change.relocateTables_eq, hrun]
  rw [Change.ensureNames, Change.bind_look, hmissing]
  exact Change.bind_error hnames

end Package.Roomy

end UnrealPackage

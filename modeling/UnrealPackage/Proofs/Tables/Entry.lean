import UnrealPackage.Tables.Entry
import UnrealPackage.Proofs.Binary.Text
/-!
# Tables read back

The records of the three tables are read back from what they are written as, and so is a whole table
by the number of its records. Import and export records hold any numbers whatsoever; a name has to
be `StorableText`, which every name of a table that was read from less than 4 GiB is.

Where a name table ends does not depend on the charset it is read in, though the names do.
-/

namespace UnrealPackage.Decode

variable {cs : Charset} {input rest : List UInt8}

/-! ## Records -/

theorem reads_compactRef (r : ObjectRef) : Reads compactRef (Encode.compactRef r) r :=
  (reads_compact r.value).map ObjectRef.mk

theorem framed_compactRef : Framed compactRef :=
  framed_compact.map _

theorem reads_wideRef (r : ObjectRef) : Reads wideRef (Encode.i32 r.value) r :=
  (reads_i32 r.value).map ObjectRef.mk

/-- A record of the name table is read back if its text is. -/
theorem reads_nameEntry {e : NameEntry} (hs : StorableText e.name)
    (hsize : (Encode.nameEntry cs e).length < 0x100000000) :
    Reads (nameEntry cs) (Encode.nameEntry cs e) e := by
  have htext : (Encode.text cs e.name).length < 0x100000000 := by
    rw [Encode.nameEntry, List.length_append] at hsize
    omega
  exact (reads_text hs htext).bind ((reads_u32 e.flags).bindPure (NameEntry.mk e.name))

/-- A record of the import table is read back. -/
theorem reads_importEntry (e : ImportEntry) : Reads importEntry (Encode.importEntry e) e := by
  have h : Reads importEntry (Encode.compact e.classPackage ++ (Encode.compact e.className ++
      (Encode.i32 e.outer.value ++ Encode.compact e.objectName))) e :=
    (reads_compact _).bind <| (reads_compact _).bind <| (reads_wideRef _).bind <|
      (reads_compact _).bindPure _
  simpa only [Encode.importEntry, List.append_assoc] using h

/-- A record of the export table is read back. -/
theorem reads_exportEntry (e : ExportEntry) : Reads exportEntry (Encode.exportEntry e) e := by
  have h : Reads exportEntry (Encode.compactRef e.type ++ (Encode.compactRef e.super ++
      (Encode.i32 e.outer.value ++ (Encode.compact e.objectName ++ (Encode.u32 e.flags ++
      (Encode.compact e.size ++ Encode.compact e.offset)))))) e :=
    (reads_compactRef _).bind <| (reads_compactRef _).bind <| (reads_wideRef _).bind <|
      (reads_compact _).bind <| (reads_u32 _).bind <| (reads_compact _).bind <|
      (reads_compact _).bindPure _
  simpa only [Encode.exportEntry, List.append_assoc] using h

theorem framed_nameEntry (cs : Charset) : Framed (nameEntry cs) :=
  (framed_text cs).bind fun _ => framed_u32.bind fun _ => .pure _

theorem framed_wideRef : Framed wideRef :=
  framed_i32.map _

theorem framed_importEntry : Framed importEntry :=
  framed_compact.bind fun _ => framed_compact.bind fun _ => framed_wideRef.bind fun _ =>
    framed_compact.bind fun _ => .pure _

theorem framed_exportEntry : Framed exportEntry :=
  framed_compactRef.bind fun _ => framed_compactRef.bind fun _ => framed_wideRef.bind fun _ =>
    framed_compact.bind fun _ => framed_u32.bind fun _ => framed_compact.bind fun _ =>
      framed_compact.bind fun _ => .pure _

/-! ## Whole tables -/

/-- A table of names is read back if all of them can be stored. -/
theorem reads_nameTable {names : List NameEntry} (hs : ∀ e ∈ names, StorableText e.name)
    (hsize : (Encode.nameTable cs names).length < 0x100000000) :
    Reads (times (nameEntry cs) names.length) (Encode.nameTable cs names) names := by
  refine .times fun e he => reads_nameEntry (hs e he) ?_
  have hle : (Encode.nameEntry cs e).length ≤ (Encode.nameTable cs names).length :=
    (List.sublist_flatten_of_mem (List.mem_map_of_mem he)).length_le
  omega

/-- A name table with a name of `2 ^ 31 - 1` characters in it is written, but not read. -/
theorem nameTable_truncated {stored : List UInt8} {front back : List NameEntry} {e : NameEntry}
    (hs : ∀ x ∈ front, StorableText x.name) (hcs : cs.isSingleByte = true)
    (h : cs.encode? e.name = some stored) (hlength : e.name.length = 0x7FFFFFFF)
    (hsize : (Encode.nameTable cs (front ++ e :: back) ++ rest).length < 0x100000000) :
    times (nameEntry cs) (front ++ e :: back).length
      (Encode.nameTable cs (front ++ e :: back) ++ rest) = .error .truncated := by
  induction front with
  | nil =>
    rw [List.nil_append, Encode.nameTable, List.flatMap_cons, Encode.nameEntry, List.append_assoc,
      List.append_assoc] at hsize ⊢
    show ((text cs (Encode.text cs e.name ++ _) >>= fun q => _) >>= fun q => _) = _
    rw [text_truncated hcs h hlength hsize]
    rfl
  | cons x front ih =>
    obtain ⟨hx, hs⟩ := List.forall_mem_cons.1 hs
    rw [List.cons_append, Encode.nameTable, List.flatMap_cons, List.append_assoc] at hsize ⊢
    rw [List.length_append] at hsize
    have hrest := ih hs (Nat.lt_of_le_of_lt (Nat.le_add_left _ _) hsize)
    rw [Encode.nameTable] at hrest
    show (nameEntry cs (Encode.nameEntry cs x ++ _) >>= fun q => _) = _
    rw [reads_nameEntry hx (by omega)]
    show (times (nameEntry cs) (front ++ e :: back).length _ >>= fun q => _) = _
    rw [hrest]
    rfl

theorem reads_importTable (imports : List ImportEntry) :
    Reads (times importEntry imports.length) (Encode.importTable imports) imports :=
  .times fun e _ => reads_importEntry e

theorem reads_exportTable (exports : List ExportEntry) :
    Reads (times exportEntry exports.length) (Encode.exportTable exports) exports :=
  .times fun e _ => reads_exportEntry e

/-- How far a record of the name table reaches does not depend on the charset. -/
theorem rest_of_nameEntry {cs' : Charset} {e e' : NameEntry} {rest' : List UInt8}
    (h : nameEntry cs input = .ok (e, rest)) (h' : nameEntry cs' input = .ok (e', rest')) :
    rest = rest' := by
  obtain ⟨_, middle, htext, hflags⟩ := bind_eq_ok.1 h
  obtain ⟨_, middle', htext', hflags'⟩ := bind_eq_ok.1 h'
  obtain rfl := rest_of_text htext htext'
  obtain ⟨_, _, hu, hp⟩ := bind_eq_ok.1 hflags
  obtain ⟨_, _, hu', hp'⟩ := bind_eq_ok.1 hflags'
  obtain ⟨-, rfl⟩ := pure_eq_ok.1 hp
  obtain ⟨-, rfl⟩ := pure_eq_ok.1 hp'
  cases hu.symm.trans hu'
  rfl

/-- How far a name table reaches does not depend on the charset. -/
theorem rest_of_nameTable {cs' : Charset} {n : Nat} {names names' : List NameEntry}
    {rest' : List UInt8} (h : times (nameEntry cs) n input = .ok (names, rest))
    (h' : times (nameEntry cs') n input = .ok (names', rest')) : rest = rest' := by
  induction n generalizing input names names' with
  | zero =>
    obtain ⟨-, rfl⟩ := pure_eq_ok.1 h
    obtain ⟨-, rfl⟩ := pure_eq_ok.1 h'
    rfl
  | succ n ih =>
    obtain ⟨_, middle, he, hrest⟩ := bind_eq_ok.1 h
    obtain ⟨_, middle', he', hrest'⟩ := bind_eq_ok.1 h'
    obtain rfl := rest_of_nameEntry he he'
    obtain ⟨_, _, ht, hp⟩ := bind_eq_ok.1 hrest
    obtain ⟨_, _, ht', hp'⟩ := bind_eq_ok.1 hrest'
    obtain ⟨-, rfl⟩ := pure_eq_ok.1 hp
    obtain ⟨-, rfl⟩ := pure_eq_ok.1 hp'
    exact ih ht ht'

/-- The names that were read from less than 4 GiB can be stored again. -/
theorem storable_of_nameTable {n : Nat} {names : List NameEntry}
    (h : times (nameEntry cs) n input = .ok (names, rest)) (hsize : input.length < 0x100000000)
    {e : NameEntry} (he : e ∈ names) : StorableText e.name := by
  induction n generalizing input names with
  | zero =>
    obtain ⟨rfl, -⟩ := pure_eq_ok.1 h
    cases he
  | succ n ih =>
    obtain ⟨first, middle, hfirst, hrest⟩ := bind_eq_ok.1 h
    obtain ⟨others, _, hothers, hp⟩ := bind_eq_ok.1 hrest
    obtain ⟨rfl, rfl⟩ := pure_eq_ok.1 hp
    rcases List.mem_cons.1 he with rfl | he
    · obtain ⟨_, _, htext, hflags⟩ := bind_eq_ok.1 hfirst
      obtain ⟨_, _, -, hp⟩ := bind_eq_ok.1 hflags
      obtain ⟨rfl, -⟩ := pure_eq_ok.1 hp
      exact storable_of_text htext hsize
    · obtain ⟨front, rfl, -⟩ := framed_nameEntry cs hfirst
      rw [List.length_append] at hsize
      have hmiddle : middle.length < 0x100000000 := by omega
      exact ih hothers hmiddle he

end UnrealPackage.Decode

namespace UnrealPackage

/-- Where all names can be stored, they still can if one is replaced by one that can. -/
theorem storable_set {names : List NameEntry} (h : ∀ x ∈ names, StorableText x.name) {index : Nat}
    {e : NameEntry} (hs : StorableText e.name) :
    ∀ x ∈ names.set index e, StorableText x.name := by
  intro x hx
  rcases List.mem_or_eq_of_mem_set hx with hx | rfl
  · exact h x hx
  · exact hs

end UnrealPackage

namespace UnrealPackage.Encode

/-! ## Lengths -/

/-- Records that take at least `k` bytes each make a table of `k` times as many bytes or more. -/
theorem mul_length_le_flatMap {α : Type} {encode : α → List UInt8} {k : Nat}
    (h : ∀ a, k ≤ (encode a).length) (as : List α) :
    k * as.length ≤ (as.flatMap encode).length := by
  induction as with
  | nil => exact Nat.zero_le _
  | cons a as ih =>
    have ha := h a
    rw [List.flatMap_cons, List.length_append, List.length_cons, Nat.mul_succ]
    omega

theorem four_mul_length_le_nameTable (cs : Charset) (names : List NameEntry) :
    4 * names.length ≤ (nameTable cs names).length :=
  mul_length_le_flatMap (fun e => by simp [nameEntry]) names

theorem four_mul_length_le_importTable (imports : List ImportEntry) :
    4 * imports.length ≤ (importTable imports).length :=
  mul_length_le_flatMap (fun e => by simp [importEntry]; omega) imports

theorem four_mul_length_le_exportTable (exports : List ExportEntry) :
    4 * exports.length ≤ (exportTable exports).length :=
  mul_length_le_flatMap (fun e => by simp [exportEntry]; omega) exports

/-- Names that were read took at least as many bytes as their flags. -/
theorem four_mul_length_le_of_nameTable {cs : Charset} {n : Nat} {names : List NameEntry}
    {input rest : List UInt8}
    (h : Decode.times (Decode.nameEntry cs) n input = .ok (names, rest)) :
    4 * names.length + rest.length ≤ input.length := by
  have hentry : ∀ {input : List UInt8} {e : NameEntry} {rest : List UInt8},
      Decode.nameEntry cs input = .ok (e, rest) →
      (u32 e.flags).length + rest.length ≤ input.length := by
    intro input e rest he
    obtain ⟨_, middle, htext, he⟩ := Decode.bind_eq_ok.1 he
    obtain ⟨flags, _, hu, hp⟩ := Decode.bind_eq_ok.1 he
    obtain ⟨rfl, rfl⟩ := Decode.pure_eq_ok.1 hp
    obtain ⟨front, rfl, -⟩ := Decode.framed_text cs htext
    rw [Decode.u32_eq_ok.1 hu, List.length_append, List.length_append]
    exact Nat.le_add_left _ _
  have hread := Decode.length_flatMap_le_of_times hentry h
  have hflags := mul_length_le_flatMap (fun e : NameEntry => Nat.le_of_eq (length_u32 e.flags).symm)
    names
  omega

end UnrealPackage.Encode

/-! ## Tables that are written over those that were read -/

namespace UnrealPackage

variable {input rest : List UInt8}

theorem Decode.length_compactRef_le {r : ObjectRef} (h : compactRef input = .ok (r, rest)) :
    (Encode.compactRef r).length + rest.length ≤ input.length := by
  obtain ⟨v, hv, rfl⟩ := map_eq_ok.1 h
  exact length_compact_le hv

theorem Decode.length_wideRef {r : ObjectRef} (h : wideRef input = .ok (r, rest)) :
    4 + rest.length = input.length := by
  obtain ⟨v, hv, rfl⟩ := map_eq_ok.1 h
  rw [i32_eq_ok.1 hv, List.length_append, Encode.length_i32]

/-- A record of the export table is written in no more bytes than it was read from. -/
theorem Decode.length_exportEntry_le {e : ExportEntry} (h : exportEntry input = .ok (e, rest)) :
    (Encode.exportEntry e).length + rest.length ≤ input.length := by
  obtain ⟨type, _, htype, h⟩ := bind_eq_ok.1 h
  obtain ⟨super, _, hsuper, h⟩ := bind_eq_ok.1 h
  obtain ⟨outer, _, houter, h⟩ := bind_eq_ok.1 h
  obtain ⟨objectName, _, hname, h⟩ := bind_eq_ok.1 h
  obtain ⟨flags, _, hflags, h⟩ := bind_eq_ok.1 h
  obtain ⟨size, _, hsize, h⟩ := bind_eq_ok.1 h
  obtain ⟨offset, _, hoffset, h⟩ := bind_eq_ok.1 h
  obtain ⟨rfl, rfl⟩ := pure_eq_ok.1 h
  have htype := length_compactRef_le htype
  have hsuper := length_compactRef_le hsuper
  have houter := length_wideRef houter
  have hname := length_compact_le hname
  have hflags := congrArg List.length (u32_eq_ok.1 hflags)
  have hsize := length_compact_le hsize
  have hoffset := length_compact_le hoffset
  simp only [Encode.exportEntry, List.length_append, Encode.length_i32, Encode.length_u32]
    at hflags ⊢
  omega

/-- Records of which one is written shorter make a table that is no longer. -/
theorem Encode.length_exportTable_modify {f : ExportEntry → ExportEntry}
    (exports : List ExportEntry) (index : Nat) (hf : ∀ e, exports[index]? = some e →
      (exportEntry (f e)).length ≤ (exportEntry e).length) :
    (exportTable (exports.modify index f)).length ≤ (exportTable exports).length := by
  rw [exportTable, exportTable]
  induction exports generalizing index with
  | nil => exact Nat.le_of_eq (by rw [List.modify_nil])
  | cons e exports ih =>
    cases index with
    | zero =>
      rw [List.modify_zero_cons, List.flatMap_cons, List.flatMap_cons, List.length_append,
        List.length_append]
      exact Nat.add_le_add_right (hf e rfl) _
    | succ index =>
      rw [List.modify_succ_cons, List.flatMap_cons, List.flatMap_cons, List.length_append,
        List.length_append]
      exact Nat.add_le_add_left (ih index hf) _

/-- An entry with a size of smaller magnitude is written in no more bytes. -/
theorem Encode.length_exportEntry_size {e : ExportEntry} {size : Int32}
    (h : size.toInt.natAbs ≤ e.size.toInt.natAbs) :
    (exportEntry { e with size }).length ≤ (exportEntry e).length := by
  have hsize := length_compact_mono h
  simp only [exportEntry, List.length_append]
  omega

end UnrealPackage

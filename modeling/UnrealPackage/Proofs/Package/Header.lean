import UnrealPackage.Package.Header
import UnrealPackage.Proofs.Binary.Cursor
/-!
# Headers read back

`Header.decode_eq_ok`: a header is read from an image exactly when the image begins with its
encoding and it has a plausible number of generations. A header has thus one form only, so what was
read from an image is also what stands there.

`Header.Patched` relates two headers of which one is the other with some bytes replaced, as it is
when one field of a header is written in its place.
-/

namespace UnrealPackage

namespace Decode

variable {input rest : List UInt8}

/-- Whatever identifier is read is what is written for it. -/
theorem guid_eq_ok {g : Guid} : guid input = .ok (g, rest) ↔ input = Encode.guid g ++ rest := by
  simp only [guid, bind_eq_ok, u32_eq_ok, pure_eq_ok, Encode.guid, List.append_assoc]
  constructor
  · rintro ⟨a, _, rfl, b, _, rfl, c, _, rfl, d, _, rfl, rfl, rfl⟩
    rfl
  · rintro rfl
    exact ⟨_, _, rfl, _, _, rfl, _, _, rfl, _, _, rfl, rfl, rfl⟩

/-- Whatever place of a table is read is what is written for it. -/
theorem tableExtent_eq_ok {e : TableExtent} :
    tableExtent input = .ok (e, rest) ↔ input = Encode.tableExtent e ++ rest := by
  simp only [tableExtent, bind_eq_ok, u32_eq_ok, pure_eq_ok, Encode.tableExtent, List.append_assoc]
  constructor
  · rintro ⟨count, _, rfl, offset, _, rfl, rfl, rfl⟩
    rfl
  · rintro rfl
    exact ⟨_, _, rfl, _, _, rfl, rfl, rfl⟩

/-- A generation is read exactly where its two numbers stand. -/
theorem generation_eq_ok {g : Generation} : generation input = .ok (g, rest) ↔
    input = Encode.u32 g.exportCount ++ Encode.u32 g.nameCount ++ rest := by
  simp only [generation, bind_eq_ok, u32_eq_ok, pure_eq_ok, List.append_assoc]
  constructor
  · rintro ⟨a, _, rfl, b, _, rfl, rfl, rfl⟩
    rfl
  · rintro rfl
    exact ⟨_, _, rfl, _, _, rfl, rfl, rfl⟩

/-- A row of items that each have one form only has one form only. -/
theorem times_eq_ok {α : Type} {item : Decode α} {encode : α → List UInt8}
    (h : ∀ {input a rest}, item input = .ok (a, rest) ↔ input = encode a ++ rest) {n : Nat}
    {as : List α} :
    times item n input = .ok (as, rest) ↔ as.length = n ∧ input = as.flatMap encode ++ rest := by
  constructor
  · intro hd
    refine ⟨length_of_times hd, ?_⟩
    induction n generalizing input as with
    | zero =>
      obtain ⟨rfl, rfl⟩ := pure_eq_ok.1 hd
      rfl
    | succ n ih =>
      obtain ⟨a, middle, ha, hrest⟩ := bind_eq_ok.1 hd
      obtain ⟨others, _, hothers, hp⟩ := bind_eq_ok.1 hrest
      obtain ⟨rfl, rfl⟩ := pure_eq_ok.1 hp
      rw [h.1 ha, ih hothers, List.flatMap_cons, List.append_assoc]
  · rintro ⟨rfl, rfl⟩
    exact Reads.times (fun a _ rest => h.2 rfl) rest

end Decode

open Decode

namespace Header

variable {h : Header} {input rest : List UInt8}

/-- The bytes of a generation. -/
theorem length_generations (gs : List Generation) :
    (Encode.generations gs).length = 4 + 8 * gs.length := by
  simp only [Encode.generations, List.length_append, Encode.length_u32, List.length_flatMap,
    List.map_const', List.sum_replicate_nat]
  omega

theorem length_guid (g : Guid) : (Encode.guid g).length = 16 := by
  simp [Encode.guid]

theorem length_encode (h : Header) : h.encode.length = h.encodedLength := by
  simp only [encode, encodedLength, Position.generations, List.length_append, Encode.length_u32,
    Encode.length_u16, Encode.tableExtent, length_guid, length_generations]
  omega

/-- A header is read exactly where its encoding stands. -/
theorem decode_eq_ok : decode input = .ok (h, rest) ↔
    h.generations.length ≤ generationLimit ∧ input = h.encode ++ rest := by
  simp only [decode, bind_eq_ok, refuse_eq_ok, u32_eq_ok, u16_eq_ok, tableExtent_eq_ok, guid_eq_ok,
    times_eq_ok generation_eq_ok, pure_eq_ok, encode, Encode.generations, List.append_assoc]
  constructor
  · rintro ⟨found, _, rfl, hmagic, version, _, rfl, licensee, _, rfl, flags, _, rfl, names, _, rfl,
      exports, _, rfl, imports, _, rfl, guid, _, rfl, count, _, rfl, hcount, generations, _,
      ⟨hlength, rfl⟩, rfl, rfl⟩
    obtain rfl := Decidable.not_not.1 hmagic
    refine ⟨Nat.le_of_not_lt (hlength ▸ hcount), ?_⟩
    rw [hlength, UInt32.ofNat_toNat]
  · rintro ⟨hlimit, rfl⟩
    have hcount : (UInt32.ofNat h.generations.length).toNat = h.generations.length := by
      simp only [generationLimit] at hlimit
      exact UInt32.toNat_ofNat_of_lt' (by simp only [UInt32.size]; omega)
    exact ⟨_, _, rfl, by simp, _, _, rfl, _, _, rfl, _, _, rfl, _, _, rfl, _, _, rfl, _, _, rfl,
      _, _, rfl, _, _, rfl, by omega, h.generations, _, ⟨hcount.symm, rfl⟩, rfl, rfl⟩

/-! ## Fields in their places -/

/-- `h'` is encoded as `h` is, but for `data` in the place of the bytes at `position`. -/
def Patched (h h' : Header) (position : Nat) (data : List UInt8) : Prop :=
  ∃ front old back, front.length = position ∧ data.length = old.length ∧
    h.encode = front ++ (old ++ back) ∧ h'.encode = front ++ (data ++ back)

/-- Writing the bytes of a field gives the header with the field. -/
theorem Patched.writeAt {h h' : Header} {position : Nat} {data : List UInt8}
    (hp : h.Patched h' position data) (tail : List UInt8) :
    writeAt (h.encode ++ tail) position data = h'.encode ++ tail := by
  obtain ⟨front, old, back, rfl, hlength, hencode, hencode'⟩ := hp
  rw [hencode, hencode', List.append_assoc, List.append_assoc, writeAt_replace hlength,
    List.append_assoc, List.append_assoc]

/-- What stands behind the flags. -/
def afterFlags (h : Header) : List UInt8 :=
  Encode.tableExtent h.names ++ (Encode.tableExtent h.exports ++ (Encode.tableExtent h.imports ++
    (Encode.guid h.guid ++ Encode.generations h.generations)))

/-- The version has its place in the header. -/
theorem patched_version (h : Header) (version : UInt16) :
    h.Patched { h with version } Position.version (Encode.u16 version) := by
  refine ⟨Encode.u32 magic, Encode.u16 h.version,
    Encode.u16 h.licensee ++ (Encode.u32 h.flags ++ h.afterFlags), rfl, rfl, ?_, ?_⟩
  · simp only [encode, afterFlags, List.append_assoc]
  · simp only [encode, afterFlags, List.append_assoc]

/-- The version of the licensee has its place in the header. -/
theorem patched_licensee (h : Header) (licensee : UInt16) :
    h.Patched { h with licensee } Position.licensee (Encode.u16 licensee) := by
  refine ⟨Encode.u32 magic ++ Encode.u16 h.version, Encode.u16 h.licensee,
    Encode.u32 h.flags ++ h.afterFlags, rfl, rfl, ?_, ?_⟩
  · simp only [encode, afterFlags, List.append_assoc]
  · simp only [encode, afterFlags, List.append_assoc]

/-- The flags have their place in the header. -/
theorem patched_flags (h : Header) (flags : UInt32) :
    h.Patched { h with flags } Position.flags (Encode.u32 flags) := by
  refine ⟨Encode.u32 magic ++ (Encode.u16 h.version ++ Encode.u16 h.licensee),
    Encode.u32 h.flags, h.afterFlags, rfl, rfl, ?_, ?_⟩
  · simp only [encode, afterFlags, List.append_assoc]
  · simp only [encode, afterFlags, List.append_assoc]

/-- What stands before the identifier. -/
def beforeGuid (h : Header) : List UInt8 :=
  Encode.u32 magic ++ (Encode.u16 h.version ++ (Encode.u16 h.licensee ++ (Encode.u32 h.flags ++
    (Encode.tableExtent h.names ++ (Encode.tableExtent h.exports ++
      Encode.tableExtent h.imports)))))

theorem patched_guid (h : Header) (guid : Guid) :
    h.Patched { h with guid } Position.guid (Encode.guid guid) := by
  refine ⟨h.beforeGuid, Encode.guid h.guid, Encode.generations h.generations, rfl, rfl, ?_, ?_⟩
  · simp only [encode, beforeGuid, List.append_assoc]
  · simp only [encode, beforeGuid, List.append_assoc]

/-- The generations are the last field, and as many bytes as there are if their number is kept. -/
theorem patched_generations (h : Header) {generations : List Generation}
    (hl : generations.length = h.generations.length) :
    h.Patched { h with generations } Position.generations (Encode.generations generations) := by
  refine ⟨h.beforeGuid ++ Encode.guid h.guid, Encode.generations h.generations, [], rfl, ?_, ?_, ?_⟩
  · rw [length_generations, length_generations, hl]
  · simp only [encode, beforeGuid, List.append_assoc, List.append_nil]
  · simp only [encode, beforeGuid, List.append_assoc, List.append_nil]

/-- A header that was written has a plausible number of generations if anything is read back. -/
theorem generations_le_of_decode {h' : Header} {tail : List UInt8}
    (hd : decode (h.encode ++ tail) = .ok (h', rest))
    (hsize : (h.encode ++ tail).length < 0x100000000) : h.generations.length ≤ generationLimit := by
  obtain ⟨hlimit, heq⟩ := decode_eq_ok.1 hd
  have hencode : ∀ h : Header, h.encode =
      (h.beforeGuid ++ Encode.guid h.guid) ++ Encode.generations h.generations := fun h => by
    simp only [encode, beforeGuid, List.append_assoc]
  have hcount : ∀ h : Header, h.generations.length < 0x100000000 →
      (UInt32.ofNat h.generations.length).toNat = h.generations.length :=
    fun _ => UInt32.toNat_ofNat_of_lt'
  rw [List.length_append, length_encode, encodedLength] at hsize
  rw [hencode, hencode, List.append_assoc _ _ tail, List.append_assoc _ _ rest] at heq
  have hgenerations := (List.append_inj heq rfl).2
  rw [Encode.generations, Encode.generations, List.append_assoc, List.append_assoc] at hgenerations
  have hread := (Decode.reads_u32 _ _).symm.trans (Decode.u32_eq_ok.2 hgenerations)
  have hsame := congrArg UInt32.toNat (Prod.mk.inj (Except.ok.inj hread)).1
  simp only [generationLimit] at hlimit ⊢
  rw [hcount h (by omega), hcount h' (by omega)] at hsame
  omega

end Header

end UnrealPackage

import UnrealPackage.Binary.Cursor
import UnrealPackage.Proofs.Binary.Reads
/-!
# What cutting and writing do to bytes

Each operation is described twice: by the stretches that it keeps (`resize_append`,
`writeAt_append`, `writeAt_replace`) and byte by byte (`getElem?_resize`, `getElem?_writeAt`). The
first form serves where the image is known as a row of parts, the second where only a single payload
in it matters.

`StandsAt image position data` says that `data` is found at `position`; it is all that reading a
payload depends on.
-/

namespace UnrealPackage

variable {image front old back data more : List UInt8} {position n i : Nat}

/-! ## Cutting -/

@[simp] theorem length_resize (image : List UInt8) (n : Nat) : (resize image n).length = n := by
  simp only [resize, List.length_append, List.length_take, List.length_replicate]
  omega

/-- Below the new length each byte is what it was, or zero behind the old end. -/
theorem getElem?_resize (image : List UInt8) (n i : Nat) :
    (resize image n)[i]? = if i < n then some (image[i]?.getD 0) else none := by
  split
  · next hi =>
    simp only [resize, List.getElem?_append, List.length_take]
    split
    · next himage =>
      rw [List.getElem?_take_of_lt hi, List.getElem?_eq_getElem (by omega)]
      rfl
    · next himage =>
      rw [List.getElem?_eq_none (l := image) (by omega), List.getElem?_replicate,
        if_pos (by omega)]
      rfl
  · exact List.getElem?_eq_none (by rw [length_resize]; omega)

/-- Cutting behind a part keeps the part. -/
theorem resize_append (h : front.length ≤ n) (tail : List UInt8) :
    resize (front ++ tail) n = front ++ resize tail (n - front.length) := by
  rw [resize, resize, List.take_append, List.take_of_length_le h, List.append_assoc,
    List.length_append, Nat.sub_add_eq]

@[simp] theorem resize_zero (image : List UInt8) : resize image 0 = [] := by
  simp [resize]

theorem resize_length_append (front tail : List UInt8) :
    resize (front ++ tail) front.length = front := by
  rw [resize_append (Nat.le_refl _), Nat.sub_self, resize_zero, List.append_nil]

/-! ## Writing -/

@[simp] theorem length_writeAt (image : List UInt8) (position : Nat) (data : List UInt8) :
    (writeAt image position data).length = max (position + data.length) image.length := by
  simp only [writeAt, List.length_append, length_resize, List.length_drop]
  omega

/-- What is written takes the place of what stood there, and nothing else changes. -/
theorem getElem?_writeAt (image : List UInt8) (position : Nat) (data : List UInt8) (i : Nat) :
    (writeAt image position data)[i]? =
      if i < position then some (image[i]?.getD 0)
      else if i < position + data.length then data[i - position]? else image[i]? := by
  rw [writeAt, List.append_assoc, List.getElem?_append, length_resize]
  split
  · next hi => rw [getElem?_resize, if_pos hi]
  · next hi =>
    rw [List.getElem?_append]
    by_cases hdata : i < position + data.length
    · rw [if_pos (by omega), if_pos hdata]
    · rw [if_neg (by omega), if_neg hdata, List.getElem?_drop]
      congr 1
      omega

/-- Writing behind a part keeps the part. -/
theorem writeAt_append (front tail data : List UInt8) :
    writeAt (front ++ tail) front.length data = front ++ data ++ tail.drop data.length := by
  rw [writeAt, resize_length_append, List.drop_append, List.drop_eq_nil_of_le (by omega),
    Nat.add_sub_cancel_left, List.nil_append]

/-- Writing over a part of the same length replaces just that part. -/
theorem writeAt_replace (h : data.length = old.length) :
    writeAt (front ++ (old ++ back)) front.length data = front ++ (data ++ back) := by
  rw [writeAt_append, h, List.drop_left, List.append_assoc]

/-- Writing behind a part is writing into the rest. -/
theorem writeAt_append_right (front back : List UInt8) (n : Nat) (data : List UInt8) :
    writeAt (front ++ back) (front.length + n) data = front ++ writeAt back n data := by
  rw [writeAt, writeAt, resize_append (Nat.le_add_right _ _), Nat.add_sub_cancel_left,
    Nat.add_assoc, List.drop_length_add_append]
  simp only [List.append_assoc]

/-- Writing inside a part leaves what follows it. -/
theorem writeAt_append_left (h : position + data.length ≤ front.length) (back : List UInt8) :
    writeAt (front ++ back) position data = writeAt front position data ++ back := by
  have hresize : resize (front ++ back) position = resize front position := by
    rw [resize, resize, List.length_append, List.take_append_of_le_length (by omega),
      Nat.sub_eq_zero_of_le (by omega), Nat.sub_eq_zero_of_le (by omega)]
  rw [writeAt, writeAt, hresize, List.drop_append_of_le_length h, List.append_assoc,
    List.append_assoc, List.append_assoc]

/-- What is written and cut behind it follows what was kept. -/
theorem resize_writeAt (image : List UInt8) (position : Nat) (data : List UInt8) :
    resize (writeAt image position data) (position + data.length) =
      resize image position ++ data := by
  have h := resize_length_append (resize image position ++ data)
    (image.drop (position + data.length))
  rwa [List.length_append, length_resize] at h

/-- Writing on where a first write ended is one write. -/
theorem writeAt_writeAt (image : List UInt8) (position : Nat) (data more : List UInt8) :
    writeAt (writeAt image position data) (position + data.length) more =
      writeAt image position (data ++ more) := by
  have hdrop : (writeAt image position data).drop (position + data.length + more.length) =
      image.drop (position + (data ++ more).length) := by
    have hfront : (resize image position ++ data).length = position + data.length := by
      rw [List.length_append, length_resize]
    rw [writeAt, ← hfront, List.drop_length_add_append, hfront, List.drop_drop, List.length_append,
      Nat.add_assoc]
  rw [writeAt, resize_writeAt, hdrop, writeAt, List.append_assoc (resize image position)]

/-! ## Finding bytes -/

/-- The bytes `data` stand in `image` from `position` on. -/
def StandsAt (image : List UInt8) (position : Nat) (data : List UInt8) : Prop :=
  ∀ i < data.length, image[position + i]? = data[i]?

theorem standsAt_nil (image : List UInt8) (position : Nat) : StandsAt image position [] :=
  nofun

theorem standsAt_append (front data back : List UInt8) :
    StandsAt (front ++ (data ++ back)) front.length data := by
  intro i hi
  rw [List.getElem?_append_right (by omega), Nat.add_sub_cancel_left, List.getElem?_append_left hi]

/-- Bytes are read at a position exactly if they stand there. -/
theorem standsAt_iff : StandsAt image position data ↔
    ∃ rest, Decode.bytes data.length (image.drop position) = .ok (data, rest) := by
  simp only [Decode.bytes_eq_ok, and_true]
  constructor
  · intro h
    refine ⟨image.drop (position + data.length), ?_⟩
    apply List.ext_getElem?
    intro i
    rw [List.getElem?_drop, List.getElem?_append]
    split
    · next hi => exact h i hi
    · next hi =>
      rw [List.getElem?_drop]
      congr 1
      omega
  · rintro ⟨rest, h⟩ i hi
    rw [← List.getElem?_drop, h, List.getElem?_append_left hi]

/-- Data that stands behind other data makes one stretch with it. -/
theorem StandsAt.append (h : StandsAt image position data)
    (h' : StandsAt image (position + data.length) more) :
    StandsAt image position (data ++ more) := by
  intro i hi
  rw [List.getElem?_append]
  split
  · next hdata => exact h i hdata
  · next hdata =>
    rw [List.length_append] at hi
    rw [← h' (i - data.length) (by omega)]
    congr 1
    omega

/-- A stretch stands where its front does and the rest does behind it. -/
theorem standsAt_append_iff : StandsAt image position (data ++ more) ↔
    StandsAt image position data ∧ StandsAt image (position + data.length) more := by
  refine ⟨fun h => ⟨fun i hi => ?_, fun i hi => ?_⟩, fun h => h.1.append h.2⟩
  · rw [h i (by rw [List.length_append]; omega), List.getElem?_append_left hi]
  · have := h (data.length + i) (by rw [List.length_append]; omega)
    rw [List.getElem?_append_right (by omega), Nat.add_sub_cancel_left] at this
    rw [← this, Nat.add_assoc]

/-- Where bytes stand depends on nothing but their place. -/
theorem StandsAt.congr {image' : List UInt8} (h : StandsAt image position data)
    (heq : ∀ i, position ≤ i → i < position + data.length → image'[i]? = image[i]?) :
    StandsAt image' position data := by
  intro i hi
  rw [heq _ (by omega) (by omega), h i hi]

end UnrealPackage

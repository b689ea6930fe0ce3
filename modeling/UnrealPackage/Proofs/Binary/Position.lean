import UnrealPackage.Proofs.Binary.Reads
/-!
# Reading at a position

A decoder that tells where it stands has to know the length of the payload, for all it sees is what
is left of it. So it comes as a family over this length. `ReadsAt d position front a` says of such a
family what `Reads` says of one decoder, wherever the payload that has `front` at `position` ends;
`FramedAt` corresponds to `Framed` in the same way.

What reads a whole payload reads no shorter beginning of it (`ReadsAt.exists_error`).
-/

namespace UnrealPackage.Decode

variable {α β : Type} {d : Nat → Decode α} {f : α → Nat → Decode β} {a : α} {b : β}
  {position : Nat} {front more : List UInt8}

/-- At `position` of a payload, `d` takes exactly `front`, whatever follows, and gives `a`. -/
def ReadsAt (d : Nat → Decode α) (position : Nat) (front : List UInt8) (a : α) : Prop :=
  ∀ rest, d (position + (front ++ rest).length) (front ++ rest) = .ok (a, rest)

/-- A success of `d` at a position depends on nothing but the bytes that `d` took. -/
def FramedAt (d : Nat → Decode α) : Prop :=
  ∀ ⦃position input a rest⦄, d (position + input.length) input = .ok (a, rest) →
    ∃ front, input = front ++ rest ∧ ReadsAt d position front a

theorem Reads.at {d : Decode α} (h : Reads d front a) (position : Nat) :
    ReadsAt (fun _ => d) position front a :=
  h

/-- The same bytes and the same value, written in another way. -/
theorem ReadsAt.congr {front' : List UInt8} {a' : α} (h : ReadsAt d position front a)
    (hfront : front = front') (ha : a = a') : ReadsAt d position front' a' :=
  hfront ▸ ha ▸ h

/-- Readers that know their positions read one after the other, the second behind the bytes of the
first. -/
theorem ReadsAt.bind (h : ReadsAt d position front a)
    (h' : ReadsAt (f a) (position + front.length) more b) :
    ReadsAt (fun length => d length >>= fun a => f a length) position (front ++ more) b := by
  intro rest
  have hlength : position + (front ++ more ++ rest).length =
      position + front.length + (more ++ rest).length := by
    simp only [List.length_append]
    omega
  refine bind_eq_ok.2 ⟨a, more ++ rest, ?_, ?_⟩
  · rw [List.append_assoc]
    exact h (more ++ rest)
  · rw [hlength]
    exact h' rest

theorem ReadsAt.map (h : ReadsAt d position front a) (g : α → β) :
    ReadsAt (fun length => g <$> d length) position front (g a) :=
  fun rest => map_eq_ok.2 ⟨a, h rest, rfl⟩

theorem ReadsAt.bindPure (h : ReadsAt d position front a) (g : α → β) :
    ReadsAt (fun length => d length >>= fun a => pure (g a)) position front (g a) :=
  fun rest => bind_eq_ok.2 ⟨a, rest, h rest, rfl⟩

theorem Framed.at {d : Decode α} (h : Framed d) : FramedAt fun _ => d := by
  intro position input a rest hread
  obtain ⟨front, hinput, hreads⟩ := h hread
  exact ⟨front, hinput, hreads.at position⟩

/-- A reader made of framed ones is framed, wherever it stands. -/
theorem FramedAt.bind (hd : FramedAt d) (hf : ∀ a, FramedAt (f a)) :
    FramedAt fun length => d length >>= fun a => f a length := by
  intro position input b rest h
  obtain ⟨a, middle, ha, hb⟩ := bind_eq_ok.1 h
  obtain ⟨front, rfl, hreads⟩ := hd ha
  rw [List.length_append, ← Nat.add_assoc] at hb
  obtain ⟨more, rfl, hreads'⟩ := hf a hb
  exact ⟨front ++ more, (List.append_assoc _ _ _).symm, hreads.bind hreads'⟩

theorem FramedAt.map (hd : FramedAt d) (g : α → β) : FramedAt fun length => g <$> d length := by
  intro position input b rest h
  obtain ⟨a, ha, rfl⟩ := map_eq_ok.1 h
  obtain ⟨front, rfl, hreads⟩ := hd ha
  exact ⟨front, rfl, hreads.map g⟩

/-- What reads a payload to its end fails on every shorter beginning of it. -/
theorem ReadsAt.exists_error (h : ReadsAt d 0 front a) (hd : FramedAt d)
    (hmore : more <+: front) (hne : more ≠ front) : ∃ e, d more.length more = .error e := by
  cases hread : d more.length more with
  | error e => exact ⟨e, rfl⟩
  | ok result =>
    obtain ⟨b, rest⟩ := result
    obtain ⟨behind, rfl⟩ := hmore
    obtain ⟨taken, rfl, hreads⟩ := @hd 0 _ _ _ (by rwa [Nat.zero_add])
    have hfull := hreads (rest ++ behind)
    have hexact := h []
    rw [List.append_nil, List.append_assoc] at hexact
    have hrest := congrArg Prod.snd (Except.ok.inj (hfull.symm.trans hexact))
    obtain ⟨-, rfl⟩ := List.append_eq_nil_iff.1 hrest
    exact absurd (List.append_nil _).symm hne

end UnrealPackage.Decode

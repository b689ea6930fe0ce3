import UnrealPackage.Binary.Decode
/-!
# What a decoder takes off its input

Two predicates carry everything that is said about decoders. `Decode.Reads d front a` says that `d`
takes exactly the bytes `front` and gives `a`, whatever follows them; it is how a round trip is
stated, and it composes along `do` blocks. `Decode.Framed d` says that whenever `d` succeeds, it
does so because of the bytes that it took: what stood behind them did not matter.

Fixed-width numbers are exact as well: the bytes that were taken are those the encoder writes.
-/

namespace UnrealPackage

/-- A sequence of steps that may fail succeeds exactly when both of them do. -/
theorem except_bind_eq_ok {α β : Type} {x : Except Error α} {f : α → Except Error β} {b : β} :
    x >>= f = .ok b ↔ ∃ a, x = .ok a ∧ f a = .ok b := by
  cases x with
  | error e => exact ⟨nofun, nofun⟩
  | ok a => exact ⟨fun h => ⟨a, rfl, h⟩, fun ⟨_, ha, h⟩ => by cases ha; exact h⟩

/-- A sequence of steps fails exactly when one of them does. -/
theorem except_bind_eq_error {α β : Type} {x : Except Error α} {f : α → Except Error β}
    {e : Error} : x >>= f = .error e ↔ x = .error e ∨ ∃ a, x = .ok a ∧ f a = .error e := by
  cases x with
  | error e' =>
    constructor
    · intro h
      cases h
      exact .inl rfl
    · rintro (h | ⟨_, ha, -⟩)
      · cases h
        rfl
      · cases ha
  | ok a =>
    constructor
    · exact fun h => .inr ⟨a, rfl, h⟩
    · rintro (h | ⟨_, ha, h⟩)
      · cases h
      · cases ha
        exact h

/-- A step that is known to succeed is gone on from. -/
theorem except_ok_bind {α β : Type} (a : α) (f : α → Except Error β) :
    ((.ok a : Except Error α) >>= f) = f a :=
  rfl

/-- What comes after a refusal runs only if nothing was refused. -/
theorem except_refuse_eq_ok {β : Type} {c : Prop} [Decidable c] {e : Error}
    {k : PUnit → Except Error β} {b : β} :
    (if c then throw e >>= k else k ⟨⟩) = .ok b ↔ ¬c ∧ k ⟨⟩ = .ok b := by
  split
  · next hc => exact ⟨nofun, fun h => absurd hc h.1⟩
  · next hc => exact ⟨fun h => ⟨hc, h⟩, fun h => h.2⟩

/-- What is looked up in a list is there. -/
theorem mem_of_lookup {α β : Type} [BEq α] [LawfulBEq α] {entries : List (α × β)} {key : α}
    {value : β} (h : entries.lookup key = some value) : (key, value) ∈ entries := by
  obtain ⟨front, back, rfl, -⟩ := List.lookup_eq_some_iff.1 h
  exact List.mem_append_right _ List.mem_cons_self

/-! ## Readers over any state -/

section

variable {σ α β : Type} {d : StateT σ (Except Error) α} {f : α → StateT σ (Except Error) β}
  {a a' : α} {b : β} {s s' : σ}

/-- A sequence succeeds exactly when both of its steps do. -/
theorem stateT_bind_eq_ok : (d >>= f) s = .ok (b, s') ↔
    ∃ a middle, d s = .ok (a, middle) ∧ f a middle = .ok (b, s') := by
  show (d s >>= fun p => f p.1 p.2) = _ ↔ _
  simp only [except_bind_eq_ok, Prod.exists]

/-- A mapped reader succeeds exactly when the reader does. -/
theorem stateT_map_eq_ok {g : α → β} : (g <$> d) s = .ok (b, s') ↔
    ∃ a, d s = .ok (a, s') ∧ g a = b := by
  show (d s >>= fun p => pure (g p.1, p.2)) = _ ↔ _
  rw [except_bind_eq_ok]
  constructor
  · rintro ⟨⟨a, middle⟩, hd, hg⟩
    cases hg
    exact ⟨a, hd, rfl⟩
  · rintro ⟨a, hd, rfl⟩
    exact ⟨(a, s'), hd, rfl⟩

theorem stateT_pure_eq_ok :
    (pure a : StateT σ (Except Error) α) s = .ok (a', s') ↔ a = a' ∧ s = s' := by
  show Except.ok (a, s) = _ ↔ _
  simp

/-- What comes after a refusal runs only if nothing was refused. -/
theorem stateT_refuse_eq_ok {c : Prop} [Decidable c] {e : Error}
    {k : PUnit → StateT σ (Except Error) β} :
    (if c then throw e >>= k else k ⟨⟩) s = .ok (b, s') ↔ ¬c ∧ k ⟨⟩ s = .ok (b, s') := by
  split
  · next hc =>
    constructor
    · intro h
      obtain ⟨_, _, hthrow, -⟩ := stateT_bind_eq_ok.1 h
      cases hthrow
    · exact fun h => absurd hc h.1
  · next hc => exact ⟨fun h => ⟨hc, h⟩, fun h => h.2⟩

/-- What comes after a step without state runs only if that step succeeds. -/
theorem stateT_lift_bind_eq_ok {x : Except Error α} :
    ((liftM x : StateT σ (Except Error) α) >>= f) s = .ok (b, s') ↔
      ∃ a, x = .ok a ∧ f a s = .ok (b, s') := by
  cases x with
  | error e => exact ⟨nofun, nofun⟩
  | ok a => exact ⟨fun h => ⟨a, rfl, h⟩, fun ⟨_, ha, h⟩ => by cases ha; exact h⟩

end

end UnrealPackage

namespace UnrealPackage.Decode

variable {α β : Type} {d : Decode α} {f : α → Decode β} {a : α} {b : β}
  {input front more rest : List UInt8}

/-- `d` takes exactly `front` off its input, whatever follows, and gives `a`. -/
def Reads (d : Decode α) (front : List UInt8) (a : α) : Prop :=
  ∀ rest, d (front ++ rest) = .ok (a, rest)

/-- A success of `d` depends on nothing but the bytes that `d` took. -/
def Framed (d : Decode α) : Prop :=
  ∀ ⦃input a rest⦄, d input = .ok (a, rest) → ∃ front, input = front ++ rest ∧ Reads d front a

/-! ## Sequencing -/

theorem bind_eq_ok : (d >>= f) input = .ok (b, rest) ↔
    ∃ a middle, d input = .ok (a, middle) ∧ f a middle = .ok (b, rest) :=
  stateT_bind_eq_ok

theorem map_eq_ok {g : α → β} : (g <$> d) input = .ok (b, rest) ↔
    ∃ a, d input = .ok (a, rest) ∧ g a = b :=
  stateT_map_eq_ok

theorem pure_eq_ok {a' : α} :
    (Pure.pure a : Decode α) input = .ok (a', rest) ↔ a = a' ∧ input = rest :=
  stateT_pure_eq_ok

/-- The same bytes, written in another way. -/
theorem Reads.congr {front' : List UInt8} (h : Reads d front a) (hfront : front = front') :
    Reads d front' a :=
  hfront ▸ h

/-- What fails where nothing is left takes a byte at least. -/
theorem Reads.ne_nil {e : Error} (h : Reads d front a) (hempty : d [] = .error e) :
    front ≠ [] := by
  rintro rfl
  cases hempty.symm.trans (h [])

theorem Reads.pure (a : α) : Reads (Pure.pure a) [] a :=
  fun _ => rfl

/-- A step that takes nothing off the input. -/
theorem Reads.lift {x : Except Error α} (h : x = .ok a) : Reads (liftM x) [] a := by
  subst h
  exact fun _ => rfl

theorem Reads.bind (h : Reads d front a) (h' : Reads (f a) more b) :
    Reads (d >>= f) (front ++ more) b := by
  intro rest
  rw [List.append_assoc]
  exact bind_eq_ok.2 ⟨a, more ++ rest, h _, h' rest⟩

theorem Reads.map (h : Reads d front a) (g : α → β) : Reads (g <$> d) front (g a) :=
  fun rest => map_eq_ok.2 ⟨a, h rest, rfl⟩

/-- The last step of a sequence that gives a value made of those read before. -/
theorem Reads.bindPure (h : Reads d front a) (g : α → β) :
    Reads (d >>= fun a => Pure.pure (g a)) front (g a) :=
  fun rest => bind_eq_ok.2 ⟨a, rest, h rest, rfl⟩

theorem Framed.pure (a : α) : Framed (Pure.pure a : Decode α) := by
  intro input b rest h
  obtain ⟨rfl, rfl⟩ := pure_eq_ok.1 h
  exact ⟨[], rfl, .pure a⟩

theorem Framed.throw (e : Error) : Framed (MonadExcept.throw e : Decode α) := by
  intro input a rest h
  cases h

/-- A step that takes nothing off the input. -/
theorem Framed.lift (x : Except Error α) : Framed (liftM x : Decode α) := by
  intro input a rest h
  cases x with
  | error e => cases h
  | ok a' =>
    cases h
    exact ⟨[], rfl, .lift rfl⟩

/-- A reader made of framed ones is framed. -/
theorem Framed.bind (hd : Framed d) (hf : ∀ a, Framed (f a)) : Framed (d >>= f) := by
  intro input b rest h
  obtain ⟨a, middle, hd', hf'⟩ := bind_eq_ok.1 h
  obtain ⟨front, rfl, hr⟩ := hd hd'
  obtain ⟨more, rfl, hr'⟩ := hf a hf'
  exact ⟨front ++ more, by simp, hr.bind hr'⟩

theorem Framed.map (hd : Framed d) (g : α → β) : Framed (g <$> d) := by
  intro input b rest h
  obtain ⟨a, hd', rfl⟩ := map_eq_ok.1 h
  obtain ⟨front, rfl, hr⟩ := hd hd'
  exact ⟨front, rfl, hr.map g⟩

theorem Framed.ite {c : Prop} [Decidable c] {d' : Decode α} (h : Framed d) (h' : Framed d') :
    Framed (if c then d else d') := by
  split
  · exact h
  · exact h'

theorem refuse_eq_ok {c : Prop} [Decidable c] {e : Error} {k : PUnit → Decode β} :
    (if c then MonadExcept.throw e >>= k else k ⟨⟩) input = .ok (b, rest) ↔
      ¬c ∧ k ⟨⟩ input = .ok (b, rest) :=
  stateT_refuse_eq_ok

/-! ## Counted sequences -/

/-- Records that are each read back are read back in a row. -/
theorem Reads.times {item : Decode α} {encode : α → List UInt8} {as : List α}
    (h : ∀ a ∈ as, Reads item (encode a) a) :
    Reads (times item as.length) (as.flatMap encode) as := by
  induction as with
  | nil => exact .pure []
  | cons a as ih =>
    have hrest := ih fun x hx => h x (List.mem_cons_of_mem a hx)
    exact (h a List.mem_cons_self).bind (hrest.bindPure (a :: ·))

theorem Framed.times {item : Decode α} (h : Framed item) (n : Nat) : Framed (times item n) := by
  induction n with
  | zero => exact .pure []
  | succ n ih => exact h.bind fun a => ih.bind fun as => .pure (a :: as)

/-- Items that are each written in no more bytes than they were read from are so in a row. -/
theorem length_flatMap_le_of_times {item : Decode α} {encode : α → List UInt8}
    (h : ∀ {input a rest}, item input = .ok (a, rest) →
      (encode a).length + rest.length ≤ input.length) {n : Nat} {as : List α}
    (ht : Decode.times item n input = .ok (as, rest)) :
    (as.flatMap encode).length + rest.length ≤ input.length := by
  induction n generalizing input as with
  | zero =>
    obtain ⟨rfl, rfl⟩ := pure_eq_ok.1 ht
    exact Nat.le_of_eq (Nat.zero_add _)
  | succ n ih =>
    obtain ⟨a, middle, ha, ht⟩ := bind_eq_ok.1 ht
    obtain ⟨others, middle', hothers, ht⟩ := bind_eq_ok.1 ht
    obtain ⟨rfl, rfl⟩ := pure_eq_ok.1 ht
    have hfirst := h ha
    have hrest := ih hothers
    rw [List.flatMap_cons, List.length_append]
    omega

/-- A counted sequence has as many items as the count says. -/
theorem length_of_times {item : Decode α} {n : Nat} {as : List α}
    (h : Decode.times item n input = .ok (as, rest)) : as.length = n := by
  induction n generalizing input as with
  | zero =>
    obtain ⟨rfl, -⟩ := pure_eq_ok.1 h
    rfl
  | succ n ih =>
    obtain ⟨a, middle, -, h⟩ := bind_eq_ok.1 h
    obtain ⟨as', middle', h', h⟩ := bind_eq_ok.1 h
    obtain ⟨rfl, rfl⟩ := pure_eq_ok.1 h
    rw [List.length_cons, ih h']

/-! ## Numbers of a fixed width -/

theorem reads_u8 (v : UInt8) : Reads u8 [v] v :=
  fun _ => rfl

theorem u8_eq_ok {v : UInt8} : u8 input = .ok (v, rest) ↔ input = v :: rest := by
  cases input <;> simp [u8]

theorem framed_u8 : Framed u8 := by
  intro input v rest h
  exact ⟨[v], u8_eq_ok.1 h, reads_u8 v⟩

/-- A number that fits `n` bytes is read from those it is written in. -/
theorem reads_littleEndian {n v : Nat} (h : v < Nat.pow 256 n) :
    Reads (littleEndian n) (Encode.littleEndian n v) v := by
  induction n generalizing v with
  | zero =>
    have hv : v = 0 := by simpa using h
    subst hv
    exact .pure 0
  | succ n ih =>
    have hhigh : v / 256 < Nat.pow 256 n := by
      have h : v < Nat.pow 256 n * 256 := h
      omega
    have hsum : (v % 256).toUInt8.toNat + 256 * (v / 256) = v := by
      simp only [Nat.toUInt8_eq, UInt8.toNat_ofNat']
      omega
    have h : Reads (littleEndian (n + 1)) (Encode.littleEndian (n + 1) v)
        ((v % 256).toUInt8.toNat + 256 * (v / 256)) :=
      (reads_u8 _).bind ((ih hhigh).bindPure _)
    rwa [hsum] at h

/-- The bytes taken for a number are those that the number is written with. -/
theorem littleEndian_eq_ok {n v : Nat} (h : littleEndian n input = .ok (v, rest)) :
    v < Nat.pow 256 n ∧ input = Encode.littleEndian n v ++ rest := by
  induction n generalizing input v with
  | zero =>
    obtain ⟨rfl, rfl⟩ := pure_eq_ok.1 h
    exact ⟨by decide, rfl⟩
  | succ n ih =>
    obtain ⟨b, middle, hb, h⟩ := bind_eq_ok.1 h
    obtain ⟨high, middle', hh, h⟩ := bind_eq_ok.1 h
    obtain ⟨rfl, rfl⟩ := pure_eq_ok.1 h
    obtain rfl := u8_eq_ok.1 hb
    obtain ⟨hlt, rfl⟩ := ih hh
    have hb := b.toNat_lt
    have hmod : (b.toNat + 256 * high) % 256 = b.toNat := by omega
    have hdiv : (b.toNat + 256 * high) / 256 = high := by omega
    have hlt' : b.toNat + 256 * high < Nat.pow 256 n * 256 := by omega
    refine ⟨hlt', ?_⟩
    rw [Encode.littleEndian, hmod, hdiv]
    simp

theorem framed_littleEndian (n : Nat) : Framed (littleEndian n) := by
  intro input v rest h
  obtain ⟨hv, rfl⟩ := littleEndian_eq_ok h
  exact ⟨_, rfl, reads_littleEndian hv⟩

theorem reads_u16 (v : UInt16) : Reads u16 (Encode.u16 v) v := by
  have h := (reads_littleEndian (n := 2) v.toNat_lt).map UInt16.ofNat
  rwa [UInt16.ofNat_toNat] at h

theorem reads_u32 (v : UInt32) : Reads u32 (Encode.u32 v) v := by
  have h := (reads_littleEndian (n := 4) v.toNat_lt).map UInt32.ofNat
  rwa [UInt32.ofNat_toNat] at h

theorem reads_i32 (v : Int32) : Reads i32 (Encode.i32 v) v := by
  have h := (reads_u32 v.toUInt32).map UInt32.toInt32
  rwa [Int32.toInt32_toUInt32] at h

theorem reads_single (v : Single) : Reads single (Encode.single v) v :=
  (reads_u32 v.bits).map Single.mk

/-- Whatever 16 bits are read are what is written for them. -/
theorem u16_eq_ok {v : UInt16} : u16 input = .ok (v, rest) ↔ input = Encode.u16 v ++ rest := by
  constructor
  · intro h
    obtain ⟨n, hn, rfl⟩ := map_eq_ok.1 h
    obtain ⟨hlt, rfl⟩ := littleEndian_eq_ok hn
    rw [Encode.u16, UInt16.toNat_ofNat_of_lt' hlt]
  · rintro rfl
    exact reads_u16 v rest

/-- Whatever 32 bits are read are what is written for them. -/
theorem u32_eq_ok {v : UInt32} : u32 input = .ok (v, rest) ↔ input = Encode.u32 v ++ rest := by
  constructor
  · intro h
    obtain ⟨n, hn, rfl⟩ := map_eq_ok.1 h
    obtain ⟨hlt, rfl⟩ := littleEndian_eq_ok hn
    rw [Encode.u32, UInt32.toNat_ofNat_of_lt' hlt]
  · rintro rfl
    exact reads_u32 v rest

/-- A number and its two's complement are written with the same bytes. -/
theorem i32_eq_ok {v : Int32} : i32 input = .ok (v, rest) ↔ input = Encode.i32 v ++ rest := by
  constructor
  · intro h
    obtain ⟨n, hn, rfl⟩ := map_eq_ok.1 h
    rw [Encode.i32, UInt32.toUInt32_toInt32]
    exact u32_eq_ok.1 hn
  · rintro rfl
    exact reads_i32 v rest

/-- Whatever floating-point number is read is written again bit for bit. -/
theorem single_eq_ok {v : Single} :
    single input = .ok (v, rest) ↔ input = Encode.single v ++ rest := by
  constructor
  · intro h
    obtain ⟨n, hn, rfl⟩ := map_eq_ok.1 h
    exact u32_eq_ok.1 hn
  · rintro rfl
    exact reads_single v rest

theorem framed_u16 : Framed u16 :=
  (framed_littleEndian 2).map _

theorem framed_u32 : Framed u32 :=
  (framed_littleEndian 4).map _

theorem framed_u64 : Framed u64 :=
  (framed_littleEndian 8).map _

theorem framed_i32 : Framed i32 :=
  framed_u32.map _

/-! ## Byte strings -/

theorem reads_bytes (front : List UInt8) : Reads (bytes front.length) front front := by
  intro rest
  simp [bytes]

/-- A number of bytes is taken if so many are there, and they are what is taken. -/
theorem bytes_eq_ok {n : Nat} {taken : List UInt8} :
    bytes n input = .ok (taken, rest) ↔ input = taken ++ rest ∧ taken.length = n := by
  constructor
  · intro h
    unfold bytes at h
    simp only at h
    split at h
    · cases h
    · cases h
      refine ⟨(List.take_append_drop n input).symm, ?_⟩
      have := List.length_take_le n input
      omega
  · rintro ⟨rfl, rfl⟩
    exact reads_bytes taken rest

/-- Fewer bytes than are asked for are not read. -/
theorem bytes_truncated {n : Nat} (h : input.length < n) : bytes n input = .error .truncated := by
  have hlength := List.length_take_le' n input
  exact if_pos (Nat.lt_of_le_of_lt hlength h)

theorem framed_bytes (n : Nat) : Framed (bytes n) := by
  intro input taken rest h
  obtain ⟨rfl, rfl⟩ := bytes_eq_ok.1 h
  exact ⟨taken, rfl, reads_bytes taken⟩

/-- Bytes none of which is zero are read up to the zero behind them. -/
theorem reads_untilZero (h : ∀ x ∈ front, x ≠ 0) : Reads untilZero (front ++ [0]) front := by
  intro rest
  have hd : ((front ++ [0]) ++ rest).dropWhile (· != 0) = 0 :: rest := by
    rw [List.append_assoc, List.dropWhile_append_of_pos (by simpa using h)]
    simp
  have ht : ((front ++ [0]) ++ rest).takeWhile (· != 0) = front := by
    rw [List.append_assoc, List.takeWhile_append_of_pos (by simpa using h)]
    simp
  simp only [untilZero, hd, ht]

/-- The bytes that are read up to a zero hold none, and the zero stands behind them. -/
theorem untilZero_eq_ok {stored : List UInt8} :
    untilZero input = .ok (stored, rest) ↔ 0 ∉ stored ∧ input = stored ++ [0] ++ rest := by
  constructor
  · intro h
    unfold untilZero at h
    split at h
    · cases h
    · next b more hdrop =>
      cases h
      have hsplit := List.takeWhile_append_dropWhile (p := (· != 0)) (l := input)
      have hb : b = 0 := by
        have hhead := List.head?_dropWhile_not (· != (0 : UInt8)) input
        rw [hdrop] at hhead
        simpa using hhead
      refine ⟨fun hzero => ?_, ?_⟩
      · have hall := List.all_eq_true.1 (List.all_takeWhile (p := (· != (0 : UInt8)))) 0 hzero
        simp at hall
      · rw [hdrop, hb] at hsplit
        rw [List.append_assoc]
        exact hsplit.symm
  · rintro ⟨hzero, rfl⟩
    exact reads_untilZero (fun x hx h0 => hzero (h0 ▸ hx)) rest

/-! ## What is left behind -/

/-- What `d` leaves behind when it succeeds is the end of its input. -/
def Leaves (d : Decode α) : Prop :=
  ∀ ⦃input a rest⦄, d input = .ok (a, rest) → rest <:+ input

theorem Framed.leaves (hd : Framed d) : Leaves d := by
  intro input a rest h
  obtain ⟨front, rfl, -⟩ := hd h
  exact List.suffix_append front rest

/-- The step behind one that was passed over begins somewhere in the same input. -/
theorem Leaves.step (hd : Leaves d) (h : (d >>= f) input = .ok (b, rest)) :
    ∃ a middle, middle <:+ input ∧ f a middle = .ok (b, rest) := by
  obtain ⟨a, middle, hd', hf⟩ := bind_eq_ok.1 h
  exact ⟨a, middle, hd hd', hf⟩

end UnrealPackage.Decode

namespace UnrealPackage.Encode

/-! ## Lengths -/

@[simp] theorem length_littleEndian (n v : Nat) : (littleEndian n v).length = n := by
  induction n generalizing v with
  | zero => rfl
  | succ n ih => simp [littleEndian, ih]

@[simp] theorem length_u16 (v : UInt16) : (u16 v).length = 2 :=
  length_littleEndian 2 _

@[simp] theorem length_u32 (v : UInt32) : (u32 v).length = 4 :=
  length_littleEndian 4 _

@[simp] theorem length_i32 (v : Int32) : (i32 v).length = 4 :=
  length_u32 _

@[simp] theorem length_single (v : Single) : (single v).length = 4 :=
  length_u32 _

end UnrealPackage.Encode

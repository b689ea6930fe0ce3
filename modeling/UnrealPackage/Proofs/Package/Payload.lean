import UnrealPackage.Proofs.Package.Layout
/-!
# Payloads and their places

`payload_eq_ok` reduces the reading of a payload to `StandsAt`. `Placed image low high exports
stored` says that each export holds its payload from `stored` between two positions, and that no two
of them share a byte. It survives everything that keeps the bytes below `high`
(`Placed.congr`), a payload placed behind all others (`Placed.place`), and one written over a longer
one (`Placed.shrink`).
-/

namespace UnrealPackage

variable {image image' : List UInt8} {e e' : ExportEntry} {data : List UInt8} {low high : Nat}
  {exports : List ExportEntry} {stored : List (List UInt8)} {position index : Nat}

/-! ## One payload -/

namespace ExportEntry

/-- The position of the payload, if there is one. -/
def start (e : ExportEntry) : Nat :=
  e.offset.toUInt32.toNat

/-- Only an export with a size has a range, from where it begins on. -/
theorem dataRange?_eq_some {range : Nat × Nat} : e.dataRange? = some range ↔
    0 < e.size.toInt ∧ range = (e.start, e.start + e.size.toInt.toNat) := by
  simp only [dataRange?, start]
  split
  · next h => simp only [Option.some.injEq, h, true_and]; exact eq_comm
  · next h => simp [h]

/-- The payload is `data`, which lies between two positions. -/
structure Holds (e : ExportEntry) (image : List UInt8) (low high : Nat) (data : List UInt8) :
    Prop where
  size : e.size.toInt = data.length
  range : data ≠ [] → low ≤ e.start ∧ e.start + data.length ≤ high
  stands : StandsAt image e.start data

theorem Holds.mono (h : e.Holds image low high data) {low' high' : Nat} (hlow : low' ≤ low)
    (hhigh : high ≤ high') : e.Holds image low' high' data :=
  ⟨h.size, fun hne => ⟨Nat.le_trans hlow (h.range hne).1, Nat.le_trans (h.range hne).2 hhigh⟩,
    h.stands⟩

/-- A payload that there is lies between the positions. -/
theorem Holds.between (h : e.Holds image low high data) (hpos : 0 < e.size.toInt) :
    low ≤ e.start ∧ e.start + e.size.toInt.toNat ≤ high := by
  have hsize := h.size
  have hrange := h.range fun hnil => by
    rw [hnil, List.length_nil] at hsize
    omega
  omega

/-- Nothing but the bytes of the payload matters. -/
theorem Holds.congr (h : e.Holds image low high data)
    (heq : 0 < e.size.toInt → ∀ i, e.start ≤ i → i < e.start + e.size.toInt.toNat →
      image'[i]? = image[i]?) : e.Holds image' low high data := by
  have hsize := h.size
  refine ⟨h.size, h.range, h.stands.congr fun i hi hi' => ?_⟩
  exact heq (by omega) i hi (by omega)

/-- An export whose payload is placed at `position` holds it there. -/
theorem holds_at (e : ExportEntry) (hpos : position < 0x100000000)
    (hdata : data.length < 0x80000000) (hs : StandsAt image position data) :
    ({ e with offset := Int32.ofNat position, size := Int32.ofNat data.length } :
      ExportEntry).Holds image position (position + data.length) data := by
  have hstart : (Int32.ofNat position).toUInt32.toNat = position := by
    rw [Int32.toUInt32_ofNat', UInt32.toNat_ofNat_of_lt' hpos]
  refine ⟨Int32.toInt_ofNat_of_lt hdata, fun _ => ?_, ?_⟩
  · simp only [start, hstart]
    omega
  · simpa only [start, hstart] using hs

/-- No byte belongs to the payloads of both. -/
def Apart (e e' : ExportEntry) : Prop :=
  ∀ range ∈ e.dataRange?, ∀ range' ∈ e'.dataRange?, range.2 ≤ range'.1 ∨ range'.2 ≤ range.1

theorem Apart.symm (h : e.Apart e') : e'.Apart e :=
  fun range hr range' hr' => (h range' hr' range hr).symm

/-- An export without a payload shares no byte with another. -/
theorem apart_of_size (h : e.size.toInt ≤ 0) : e.Apart e' := by
  intro range hr
  have := (dataRange?_eq_some.1 hr).1
  omega

/-- Payloads in different stretches share no byte. -/
theorem Holds.apart {data' : List UInt8} {middle middle' : Nat}
    (h : e.Holds image low middle data) (h' : e'.Holds image middle' high data')
    (hle : middle ≤ middle') : e.Apart e' := by
  intro range hr range' hr'
  obtain ⟨hpos, rfl⟩ := dataRange?_eq_some.1 hr
  obtain ⟨hpos', rfl⟩ := dataRange?_eq_some.1 hr'
  exact .inl (Nat.le_trans (h.between hpos).2 (Nat.le_trans hle (h'.between hpos').1))

/-- A payload that gets shorter stays apart from others. -/
theorem Apart.shrink (h : e.Apart e') {size : Int32} (hle : size.toInt ≤ e.size.toInt) :
    ({ e with size } : ExportEntry).Apart e' := by
  intro range hr range' hr'
  obtain ⟨hpos, rfl⟩ := dataRange?_eq_some.1 hr
  obtain ⟨hpos', rfl⟩ := dataRange?_eq_some.1 hr'
  have hapart := h _ (dataRange?_eq_some.2 ⟨Int.lt_of_lt_of_le hpos hle, rfl⟩) _
    (dataRange?_eq_some.2 ⟨hpos', rfl⟩)
  simp only [start] at hapart hpos ⊢
  omega

/-- Payloads lie apart if one ends before the other begins. -/
theorem apart_iff (hs : 0 < e.size.toInt) (hs' : 0 < e'.size.toInt) : e.Apart e' ↔
    e.start + e.size.toInt.toNat ≤ e'.start ∨ e'.start + e'.size.toInt.toNat ≤ e.start := by
  constructor
  · intro h
    exact h _ (dataRange?_eq_some.2 ⟨hs, rfl⟩) _ (dataRange?_eq_some.2 ⟨hs', rfl⟩)
  · intro h range hr range' hr'
    obtain ⟨-, rfl⟩ := dataRange?_eq_some.1 hr
    obtain ⟨-, rfl⟩ := dataRange?_eq_some.1 hr'
    exact h

end ExportEntry

open ExportEntry

/-- A payload is read if it stands where the export says. -/
theorem Package.payload_eq_ok {p : Package} : p.payload e = .ok data ↔
    data.length = e.size.toInt.toNat ∧ StandsAt p.image e.start data := by
  rw [Package.payload]
  cases hr : e.dataRange? with
  | none =>
    have hsize : ¬0 < e.size.toInt := by
      intro h
      rw [dataRange?_eq_some.2 ⟨h, rfl⟩] at hr
      cases hr
    have hzero : e.size.toInt.toNat = 0 := by omega
    simp only [hzero]
    constructor
    · rintro h
      cases h
      exact ⟨rfl, standsAt_nil _ _⟩
    · rintro ⟨h, -⟩
      rw [List.eq_nil_of_length_eq_zero h]
      rfl
  | some range =>
    obtain ⟨hpos, rfl⟩ := dataRange?_eq_some.1 hr
    simp only [except_bind_eq_ok, Prod.exists, Nat.add_sub_cancel_left]
    constructor
    · rintro ⟨taken, rest, hb, hp⟩
      cases hp
      have hl := (Decode.bytes_eq_ok.1 hb).2
      rw [← hl] at hb
      exact ⟨hl, standsAt_iff.2 ⟨rest, hb⟩⟩
    · rintro ⟨hl, hs⟩
      obtain ⟨rest, hb⟩ := standsAt_iff.1 hs
      rw [hl] at hb
      exact ⟨data, rest, hb, rfl⟩

theorem ExportEntry.Holds.payload {p : Package} (h : e.Holds p.image low high data) :
    p.payload e = .ok data :=
  Package.payload_eq_ok.2 ⟨by have := h.size; omega, h.stands⟩

/-! ## All payloads -/

/-- Each export holds its payload between two positions, apart from all others. -/
structure Placed (image : List UInt8) (low high : Nat) (exports : List ExportEntry)
    (stored : List (List UInt8)) : Prop where
  length : stored.length = exports.length
  holds : ∀ ⦃i : Nat⦄ ⦃e : ExportEntry⦄ ⦃data : List UInt8⦄, exports[i]? = some e →
    stored[i]? = some data → e.Holds image low high data
  apart : ∀ ⦃i j : Nat⦄ ⦃e e' : ExportEntry⦄, i ≠ j → exports[i]? = some e →
    exports[j]? = some e' → e.Apart e'

namespace Placed

/-- The payload that goes with an export. -/
theorem exists_stored (h : Placed image low high exports stored) {i : Nat}
    (he : exports[i]? = some e) : ∃ data, stored[i]? = some data ∧ e.Holds image low high data := by
  have hi : i < stored.length := by
    rw [h.length]
    exact (List.getElem?_eq_some_iff.1 he).1
  exact ⟨stored[i], List.getElem?_eq_getElem hi, h.holds he (List.getElem?_eq_getElem hi)⟩

/-- Nothing but the bytes between the two positions matters. -/
theorem congr (h : Placed image low high exports stored) {high' : Nat} (hle : high ≤ high')
    (heq : ∀ i, low ≤ i → i < high → image'[i]? = image[i]?) :
    Placed image' low high' exports stored := by
  refine ⟨h.length, fun i e data he hd => ?_, h.apart⟩
  have hholds := h.holds he hd
  refine (hholds.mono (Nat.le_refl _) hle).congr fun hpos j hj hj' => ?_
  have hrange := hholds.between hpos
  exact heq j (by omega) (by omega)

/-- An export goes in front of others if its payload does. -/
theorem cons (he : e.Holds image low position data)
    (h : Placed image position high exports stored) (hlow : low ≤ position)
    (hhigh : position ≤ high) : Placed image low high (e :: exports) (data :: stored) := by
  have hapart : ∀ {i : Nat} {x : ExportEntry}, exports[i]? = some x → e.Apart x := by
    intro i x hx
    obtain ⟨_, -, hholds⟩ := h.exists_stored hx
    exact he.apart hholds (Nat.le_refl _)
  constructor
  · rw [List.length_cons, List.length_cons, h.length]
  · intro i x d hx hd
    cases i with
    | zero =>
      cases hx
      cases hd
      exact he.mono (Nat.le_refl _) hhigh
    | succ i => exact (h.holds hx hd).mono hlow (Nat.le_refl _)
  · intro i j x y hij hx hy
    cases i with
    | zero =>
      cases hx
      cases j with
      | zero => exact absurd rfl hij
      | succ j => exact hapart hy
    | succ i =>
      cases j with
      | zero =>
        cases hy
        exact (hapart hx).symm
      | succ j => exact h.apart (fun h => hij (congrArg Nat.succ h)) hx hy

/-- An export without a payload is added. -/
theorem push (h : Placed image low high exports stored) (he : e.size.toInt = 0) :
    Placed image low high (exports ++ [e]) (stored ++ [[]]) := by
  have hlast : ∀ {i : Nat} {x : ExportEntry}, (exports ++ [e])[i]? = some x →
      exports[i]? = some x ∨ i = exports.length ∧ x = e := by
    intro i x hx
    rw [List.getElem?_append] at hx
    split at hx
    · exact .inl hx
    · next hi =>
      obtain ⟨hzero, rfl⟩ := List.getElem?_eq_some_iff.1 hx
      rw [List.length_singleton] at hzero
      exact .inr ⟨by omega, List.getElem_singleton _⟩
  constructor
  · rw [List.length_append, List.length_append, h.length]
    rfl
  · intro i x data hx hd
    rcases hlast hx with hx | ⟨rfl, rfl⟩
    · have hi : i < stored.length := by
        rw [h.length]
        exact (List.getElem?_eq_some_iff.1 hx).1
      rw [List.getElem?_append_left hi] at hd
      exact h.holds hx hd
    · rw [← h.length, List.getElem?_concat_length] at hd
      cases hd
      exact ⟨he, fun h => absurd rfl h, standsAt_nil _ _⟩
  · intro i j x y hij hx hy
    rcases hlast hx with hx | ⟨rfl, rfl⟩
    · rcases hlast hy with hy | ⟨rfl, rfl⟩
      · exact h.apart hij hx hy
      · exact (apart_of_size (by omega)).symm
    · exact apart_of_size (by omega)

/-- One export gets another payload: what holds for it and the others then holds for all. -/
theorem modify {f : ExportEntry → ExportEntry} (hlength : stored.length = exports.length)
    (hothers : ∀ ⦃i : Nat⦄ ⦃e : ExportEntry⦄ ⦃data : List UInt8⦄, i ≠ index →
      exports[i]? = some e → stored[i]? = some data → e.Holds image low high data)
    (hapart : ∀ ⦃i j : Nat⦄ ⦃e e' : ExportEntry⦄, i ≠ j → exports[i]? = some e →
      exports[j]? = some e' → e.Apart e')
    (hself : ∀ ⦃e : ExportEntry⦄, exports[index]? = some e → (f e).Holds image low high data)
    (haway : ∀ ⦃i : Nat⦄ ⦃e e' : ExportEntry⦄, i ≠ index → exports[index]? = some e →
      exports[i]? = some e' → (f e).Apart e') :
    Placed image low high (exports.modify index f) (stored.set index data) := by
  constructor
  · rw [List.length_set, List.length_modify, hlength]
  · intro i e data' he hd
    by_cases hi : i = index
    · subst hi
      rw [List.getElem?_modify_eq, Option.map_eq_map, Option.map_eq_some_iff] at he
      obtain ⟨e, he, rfl⟩ := he
      have hlt : i < stored.length := by
        rw [hlength]
        exact (List.getElem?_eq_some_iff.1 he).1
      rw [List.getElem?_set_self hlt] at hd
      cases hd
      exact hself he
    · rw [List.getElem?_modify_ne _ _ (Ne.symm hi)] at he
      rw [List.getElem?_set_ne (Ne.symm hi)] at hd
      exact hothers hi he hd
  · intro i j e e' hij he he'
    by_cases hi : i = index
    · subst hi
      rw [List.getElem?_modify_eq, Option.map_eq_map, Option.map_eq_some_iff] at he
      obtain ⟨e, he, rfl⟩ := he
      rw [List.getElem?_modify_ne _ _ hij] at he'
      exact haway hij.symm he he'
    · rw [List.getElem?_modify_ne _ _ (Ne.symm hi)] at he
      by_cases hj : j = index
      · subst hj
        rw [List.getElem?_modify_eq, Option.map_eq_map, Option.map_eq_some_iff] at he'
        obtain ⟨e', he', rfl⟩ := he'
        exact (haway hij he' he).symm
      · rw [List.getElem?_modify_ne _ _ (Ne.symm hj)] at he'
        exact hapart hij he he'

/-- A payload is placed behind all others. -/
theorem place (h : Placed image low high exports stored) (index : Nat) (hlow : low ≤ position)
    (hhigh : high ≤ position) (hpos : position < 0x100000000) (hdata : data.length < 0x80000000)
    (hs : StandsAt image position data) :
    Placed image low (position + data.length) (placePayload exports position ⟨index, data⟩)
      (stored.set index data) := by
  have hh : Placed image low (position + data.length) exports stored :=
    h.congr (by omega) fun _ _ _ => rfl
  refine modify h.length (fun i e d _ he hd => hh.holds he hd) h.apart ?_ ?_
  · exact fun e _ => (holds_at e hpos hdata hs).mono hlow (Nat.le_refl _)
  · intro i e e' _ _ he'
    obtain ⟨_, -, hholds⟩ := h.exists_stored he'
    exact (hholds.apart (holds_at e hpos hdata hs) hhigh).symm

/-- Payloads are placed one after the other behind all others. -/
theorem placeAll (h : Placed image low high exports stored) (hlow : low ≤ position)
    (hhigh : high ≤ position) {payloads : List PendingPayload}
    (hpos : position + (payloads.flatMap PendingPayload.data).length < 0x100000000)
    (hdata : ∀ x ∈ payloads, x.data.length < 0x80000000)
    (hs : StandsAt image position (payloads.flatMap PendingPayload.data)) :
    Placed image low (position + (payloads.flatMap PendingPayload.data).length)
      (placePayloads exports position payloads)
      (payloads.foldl (fun stored x => stored.set x.index x.data) stored) := by
  induction payloads generalizing exports stored position high with
  | nil => exact h.congr hhigh fun _ _ _ => rfl
  | cons x payloads ih =>
    rw [List.flatMap_cons, List.length_append] at hpos ⊢
    rw [List.flatMap_cons, standsAt_append_iff] at hs
    have hx := hdata x List.mem_cons_self
    have hplaced := h.place x.index hlow hhigh (by omega) hx hs.1
    rw [← Nat.add_assoc]
    exact ih hplaced (by omega) (Nat.le_refl _) (by omega)
      (fun y hy => hdata y (List.mem_cons_of_mem x hy)) hs.2

/-- A payload is written over a longer one. -/
theorem shrink (h : Placed image low high exports stored) (he : exports[index]? = some e)
    (hle : data.length ≤ e.size.toInt.toNat)
    (heq : ∀ i, low ≤ i → i < high → (i < e.start ∨ e.start + data.length ≤ i) →
      image'[i]? = image[i]?)
    (hs : StandsAt image' e.start data) :
    Placed image' low high
      (exports.modify index fun e => { e with size := Int32.ofNat data.length })
      (stored.set index data) := by
  obtain ⟨old, hold, hholds⟩ := h.exists_stored he
  have hlength := hholds.size
  have hbound := e.size.toInt_lt
  have hsize : (Int32.ofNat data.length).toInt = data.length :=
    Int32.toInt_ofNat_of_lt (by omega)
  refine modify h.length ?_ h.apart ?_ ?_
  · intro i e' data' hi he' hd'
    have hholds' := h.holds he' hd'
    refine hholds'.congr fun hpos' j hj hj' => ?_
    have hrange' := hholds'.between hpos'
    refine heq j (by omega) (by omega) ?_
    by_cases hzero : data.length = 0
    · omega
    rcases (apart_iff hpos' (by omega)).1 (h.apart hi he' he) with hapart | hapart <;> omega
  · intro e' he'
    cases he.symm.trans he'
    refine ⟨hsize, fun hnil => ?_, hs⟩
    have hpos := List.length_pos_iff.2 hnil
    have hrange := hholds.between (by omega)
    simp only [start] at hrange ⊢
    omega
  · intro i e₁ e₂ hi he₁ he₂
    cases he.symm.trans he₁
    exact (h.apart (Ne.symm hi) he he₂).shrink (by omega)

end Placed

/-! ## The end of the payloads -/

/-- The end of the payloads is the last one's. -/
theorem Package.dataEnd_eq_ok {p : Package} {stop : Nat} : p.dataEnd = .ok stop ↔
    (∃ e ∈ p.tables.exports, 0 < e.size.toInt ∧ e.start + e.size.toInt.toNat = stop) ∧
    ∀ e ∈ p.tables.exports, 0 < e.size.toInt → e.start + e.size.toInt.toNat ≤ stop := by
  have hmax : p.dataEnd = .ok stop ↔ (p.dataRanges.map Prod.snd).max? = some stop := by
    rw [dataEnd]
    cases (p.dataRanges.map Prod.snd).max? with
    | none => exact ⟨nofun, nofun⟩
    | some position =>
      show Except.ok position = Except.ok stop ↔ _
      rw [Except.ok.injEq, Option.some.injEq]
  simp only [hmax, List.max?_eq_some_iff, dataRanges, List.mem_map, List.mem_filterMap,
    dataRange?_eq_some]
  constructor
  · rintro ⟨⟨_, ⟨e, he, hpos, rfl⟩, hstop⟩, hle⟩
    exact ⟨⟨e, he, hpos, hstop⟩, fun e he hpos => hle _ ⟨_, ⟨e, he, hpos, rfl⟩, rfl⟩⟩
  · rintro ⟨⟨e, he, hpos, rfl⟩, hle⟩
    refine ⟨⟨_, ⟨e, he, hpos, rfl⟩, rfl⟩, ?_⟩
    rintro _ ⟨_, ⟨e', he', hpos', rfl⟩, rfl⟩
    exact hle e' he' hpos'

/-- All payloads lie in front of their end, whatever there is behind it. -/
theorem Placed.dataEnd {p : Package} {stop : Nat}
    (h : Placed p.image low high p.tables.exports stored) (hd : p.dataEnd = .ok stop) :
    low ≤ stop ∧ stop ≤ high ∧ Placed p.image low stop p.tables.exports stored := by
  obtain ⟨⟨last, hlast, hpos, rfl⟩, hle⟩ := Package.dataEnd_eq_ok.1 hd
  obtain ⟨i, hi⟩ := List.getElem?_of_mem hlast
  obtain ⟨data, -, hholds⟩ := h.exists_stored hi
  have hrange := hholds.between hpos
  refine ⟨by omega, by omega, h.length, fun i e data he hd => ?_, h.apart⟩
  have hholds' := h.holds he hd
  refine ⟨hholds'.size, fun hnil => ?_, hholds'.stands⟩
  have hsize' := hholds'.size
  have hpos' := List.length_pos_iff.2 hnil
  have hstop := hle e (List.mem_of_getElem? he) (by omega)
  have hrange' := hholds'.range hnil
  omega

end UnrealPackage

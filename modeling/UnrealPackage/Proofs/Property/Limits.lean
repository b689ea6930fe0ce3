import UnrealPackage.Proofs.Binary.Bounds
import UnrealPackage.Proofs.Property.SetValues
/-!
# What an untrusted property list can cost

A property list says itself how long its payloads are, how many elements its arrays have and how
deeply all of that nests. What is read of it is bounded by the bytes that are there and by
`propertyNestingLimit`, whatever it says.

* The loop over the records has a run without any bound on its turns wherever it begins, and it is
  the one of the reader (`repeats_iff`): a record takes a byte.
* An array element takes a byte as well, so it does not matter how many more of them are announced
  than bytes are left (`exists_times_eq_error`).
* `SameOrTooDeep` compares readers that go down by different numbers of levels: the one with fewer
  levels reads the same, or refuses the list for its nesting (`sameOrTooDeep_ofLevels`).
-/

namespace UnrealPackage

open Decode PropertyValue

/-! ## The loop over records -/

namespace PropertyReaders

/-- A turn of the loop over the records: the list is over, or one more record is stored. -/
def recordTurn (ctx : PropertyContext) (below : PropertyReaders) (scope : String)
    (done : List Property) : Decode (ForInStep (List Property)) := do
  match ← propertyRecord ctx.tables with
  | none => pure (.done done)
  | some r => .yield <$> liftM (store ctx below scope done r)

section

variable {ctx : PropertyContext} {below : PropertyReaders} {scope : String} {levels : Nat}
  {input : List UInt8} {result : Except Error (List Property × List UInt8)}

/-- Records are read turn by turn. -/
theorem unrolls_readRecords (ctx : PropertyContext) (below : PropertyReaders) (scope : String) :
    Unrolls (recordTurn ctx below scope) (readRecords ctx below scope) := by
  intro bound done
  rw [readRecords, recordTurn, bind_assoc]
  refine bind_congr fun record? => ?_
  cases record? with
  | none => rfl
  | some r =>
    rw [bind_map_left]
    rfl

/-- A turn behind which the loop goes on takes a byte. -/
theorem lowers_recordTurn (ctx : PropertyContext) (below : PropertyReaders) (scope : String) :
    Lowers List.length (recordTurn ctx below scope) := by
  intro done done' input rest h
  obtain ⟨record?, middle, hrecord, h⟩ := bind_eq_ok.1 h
  cases record? with
  | none => cases h
  | some r =>
    obtain ⟨stored, hstore, -⟩ := map_eq_ok.1 h
    have hle := ((Framed.lift _).leaves hstore).length_le
    obtain ⟨f, -, rfl⟩ := FramedRecord.exists_framedRecord hrecord
    have hpos := List.length_pos_iff.2 f.bytes_ne_nil
    rw [List.length_append]
    omega

/-- The loop without a bound ends wherever it begins, and reads what the reader of lists reads. -/
theorem repeats_iff :
    Repeats (recordTurn ctx (ofLevels ctx levels) scope) [] input result ↔
      (ofLevels ctx (levels + 1)).list scope input = result :=
  (unrolls_readRecords ctx _ scope).repeats_iff (lowers_recordTurn ctx _ scope)

end

/-! ## Announced elements -/

/-- More items than bytes are left fail, all numbers of them alike. -/
theorem exists_times_eq_error {α : Type} {item : Decode α}
    (hitem : ∀ {input a rest}, item input = .ok (a, rest) → rest.length < input.length)
    (input : List UInt8) :
    ∃ e, ∀ count, input.length < count → times item count input = .error e := by
  induction hlength : input.length using Nat.strongRecOn generalizing input with
  | ind length ih =>
    cases hfirst : item input with
    | error e =>
      refine ⟨e, fun count hcount => ?_⟩
      obtain ⟨count, rfl⟩ := Nat.exists_eq_add_one_of_ne_zero (Nat.ne_zero_of_lt hcount)
      show (item input >>= fun q => _) = _
      rw [hfirst, except_error_bind]
    | ok read =>
      obtain ⟨a, middle⟩ := read
      have hlt := hitem hfirst
      obtain ⟨e, he⟩ := ih middle.length (hlength ▸ hlt) middle rfl
      refine ⟨e, fun count hcount => ?_⟩
      obtain ⟨count, rfl⟩ := Nat.exists_eq_add_one_of_ne_zero (Nat.ne_zero_of_lt hcount)
      show (item input >>= fun q => _) = _
      rw [hfirst, except_ok_bind]
      show (times item count middle >>= fun q => _) = _
      rw [he count (by omega), except_error_bind]

/-- An array element takes a byte at least. -/
theorem length_lt_of_element {ctx : PropertyContext} {levels : Nat} {kind : PropertyKind}
    {input rest : List UInt8} {v : PropertyValue}
    (h : (ofLevels ctx levels).element kind input = .ok (v, rest)) :
    rest.length < input.length := by
  obtain ⟨front, rfl, hpaid⟩ := (pays_ofLevels ctx levels 0).element kind h
  have hpos := length_placed_pos v 0
  have hle := hpaid.length_le
  rw [List.length_append]
  omega

end PropertyReaders

/-! ## Fewer levels -/

/-- Whether the error says that property lists or array elements are nested too deep. -/
inductive Error.TooDeep : Error → Prop
  | properties (scope : String) : TooDeep (.propertiesTooDeep scope)
  | elements : TooDeep .elementsTooDeep

/-- Whether two decoders do the same on every input, unless the first one refuses it because
something nests too deep. -/
abbrev Decode.SameOrTooDeep {α : Type} (d d' : Decode α) : Prop :=
  SameReads Error.TooDeep d d'

theorem Decode.SameOrTooDeep.times {α : Type} {d d' : Decode α} (h : d.SameOrTooDeep d')
    (n : Nat) : (Decode.times d n).SameOrTooDeep (Decode.times d' n) := by
  induction n with
  | zero => exact .refl _
  | succ n ih => exact h.bind fun _ => ih.bind fun _ => .refl _

namespace PropertyReaders

/-- Whether readers read the same as others, unless something nests too deep for them. -/
structure SameOrTooDeep (low high : PropertyReaders) : Prop where
  list : ∀ scope, (low.list scope).SameOrTooDeep (high.list scope)
  element : ∀ kind, (low.element kind).SameOrTooDeep (high.element kind)

section

variable {ctx : PropertyContext} {cs : Charset} {scope : String} {low high : PropertyReaders}

theorem sameOrTooDeep_elements (h : low.SameOrTooDeep high) (inner : PropertyKind) :
    (low.elements inner).SameOrTooDeep (high.elements inner) :=
  SameReads.bind (.refl _) fun _ => ((h.element inner).times _).map _

/-- With more levels, an element is read the same unless it was nested too deep. -/
theorem sameOrTooDeep_readElement (h : low.SameOrTooDeep high) (kind : PropertyKind) :
    (readElement cs low kind).SameOrTooDeep (readElement cs high kind) := by
  cases kind with
  | array _ inner _ => exact sameOrTooDeep_elements h inner
  | struct structName =>
    simp only [readElement]
    split
    · exact .refl _
    · exact (h.list structName).map _
  | _ => exact .refl _

/-- With more levels, a payload is read the same unless it was nested too deep. -/
theorem sameOrTooDeep_readPayload (h : low.SameOrTooDeep high) (r : PropertyRecord)
    (kind : PropertyKind) (mismatch : Error) :
    (readPayload cs low r kind mismatch).SameOrTooDeep (readPayload cs high r kind mismatch) := by
  unfold readPayload
  split
  case h_9 =>
    split
    · exact sameOrTooDeep_elements h _
    · exact .refl _
  case h_10 =>
    split
    · exact .refl _
    · split
      · exact (h.list _).map _
      · exact .refl _
  all_goals exact .refl _

/-- With more levels, a property is filled in the same unless it was nested too deep. -/
theorem sameOrTooDeep_fill (h : low.SameOrTooDeep high) (r : PropertyRecord) (p : Property) :
    SameUnless Error.TooDeep (fill cs low scope r p) (fill cs high scope r p) := by
  refine .bind (.refl _) fun expected => ?_
  split
  · exact .refl _
  · split
    · exact .refl _
    · exact (sameOrTooDeep_readPayload h r _ _ _).bind fun _ => .refl _

/-- With more levels, a record is stored the same unless it was nested too deep. -/
theorem sameOrTooDeep_store (h : low.SameOrTooDeep high) (done : List Property)
    (r : PropertyRecord) :
    SameUnless Error.TooDeep (store ctx low scope done r) (store ctx high scope done r) := by
  refine .bind (.refl _) fun (i, done) => ?_
  dsimp only
  cases done[i]? with
  | none => exact .refl _
  | some p => exact (sameOrTooDeep_fill h r p).bind fun _ => .refl _

/-- With more levels, records are read the same unless one was nested too deep. -/
theorem sameOrTooDeep_readRecords (h : low.SameOrTooDeep high) (bound : Nat)
    (done : List Property) :
    (readRecords ctx low scope bound done).SameOrTooDeep
      (readRecords ctx high scope bound done) := by
  induction bound generalizing done with
  | zero => exact .refl _
  | succ bound ih =>
    refine SameReads.bind (.refl _) fun record? => ?_
    cases record? with
    | none => exact .refl _
    | some r =>
      intro input
      simp only [lift_bind_run]
      exact (sameOrTooDeep_store h done r).bind fun done' => ih done' input

/-- A reader with more levels reads the same, unless something nests too deep for the one with
fewer. -/
theorem sameOrTooDeep_ofLevels (ctx : PropertyContext) (levels more : Nat) :
    (ofLevels ctx levels).SameOrTooDeep (ofLevels ctx (levels + more)) := by
  induction levels with
  | zero =>
    constructor
    · exact fun scope _ => .inr ⟨_, .properties scope, rfl⟩
    · exact fun _ _ => .inr ⟨_, .elements, rfl⟩
  | succ levels ih =>
    rw [Nat.succ_add]
    exact ⟨fun scope input => sameOrTooDeep_readRecords ih _ [] input,
      sameOrTooDeep_readElement ih⟩

end

end PropertyReaders

open PropertyReaders

/-! ## Lists -/

section

variable {ctx : PropertyContext} {scope : String} {input rest : List UInt8} {ps : List Property}

/-- What holds of a property list that was read, whatever it says of itself. -/
structure PropertyLimits (ctx : PropertyContext) (scope : String) (input : List UInt8)
    (ps : List Property) (rest : List UInt8) : Prop where
  /-- Records in a row and the first name that ends lists are consumed, and read the same whatever
  stands behind that name. -/
  consumed : ∃ (rs : List (FramedRecord ctx.tables)) (ending : List UInt8),
    EndsList ctx.tables ending ∧ input = rs.flatMap FramedRecord.bytes ++ (ending ++ rest) ∧
    ∀ behind, readProperties ctx scope (rs.flatMap FramedRecord.bytes ++ (ending ++ behind)) =
      .ok (ps, behind)
  /-- Fewer values are set, nested ones included, than bytes were consumed. -/
  length_lt : (placedFields 0 ps).length < input.length - rest.length
  /-- None of them lies inside more arrays and property lists of structs than the limit. -/
  depth_le : ∀ x ∈ placedFields 0 ps, x.depth ≤ propertyNestingLimit

/-- Every list that is read stays within the limits. -/
theorem propertyLimits_of_readProperties (h : readProperties ctx scope input = .ok (ps, rest)) :
    PropertyLimits ctx scope input ps rest := by
  obtain ⟨rs, ending, hending, hinput, hrun⟩ := list_eq_ok_iff.1 h
  obtain ⟨front, hfront, bytes, hlt, hpaid⟩ := (pays_ofLevels ctx _ 0).list h
  have hlength : input.length - rest.length = front.length := by
    rw [hfront, List.length_append, Nat.add_sub_cancel]
  refine ⟨⟨rs, ending, hending, hinput, fun behind => ?_⟩, ?_, fun x hx => ?_⟩
  · exact list_eq_ok_iff.2 ⟨rs, ending, hending, rfl, hrun⟩
  · rw [hlength]
    exact Nat.lt_of_le_of_lt hpaid.length_le hlt
  · have hdepth := hpaid.depth_lt x hx
    rw [Nat.zero_add] at hdepth
    exact Nat.le_of_lt_succ hdepth

/-- A list is refused if a reader with more levels finds a value in it that lies too deep. -/
theorem exists_tooDeep {more : Nat}
    (h : (ofLevels ctx (propertyNestingLimit + 1 + more)).list scope input = .ok (ps, rest))
    (hdeep : ∃ x ∈ placedFields 0 ps, propertyNestingLimit < x.depth) :
    ∃ e : Error, e.TooDeep ∧ readProperties ctx scope input = .error e := by
  rcases (sameOrTooDeep_ofLevels ctx (propertyNestingLimit + 1) more).list scope input with
    hsame | hrefused
  · obtain ⟨x, hx, hlt⟩ := hdeep
    have hle := (propertyLimits_of_readProperties (hsame.trans h)).depth_le x hx
    exact absurd hlt (Nat.not_lt.2 hle)
  · exact hrefused

end

/-! ## The limit is sharp -/

/-- The kind of the elements of so many arrays inside one another. -/
def nestedKind : Nat → PropertyKind
  | 0 => .byte
  | n + 1 => .array "" (nestedKind n) 1

/-- So many arrays around an empty one. -/
def nestedArrays : Nat → PropertyValue
  | 0 => .array []
  | n + 1 => .array [nestedArrays n]

/-- The bytes of so many arrays around an empty one. -/
def nestedPayload (n : Nat) : List UInt8 :=
  List.replicate n 1 ++ [0]

/-- The field of such arrays. -/
def nestedTemplate (n : Nat) : FieldTemplate :=
  ⟨"Lists", nestedKind (n + 1), 1⟩

/-- A reader for a struct of that field alone. -/
def PropertyContext.nested (n : Nat) : PropertyContext where
  tables := ⟨"P", [⟨"None", 0⟩, ⟨"Lists", 0⟩], [], []⟩
  schema := fun _ => .ok [nestedTemplate n]
  charset := .windows1252

/-- The field with its one slot set. -/
def nestedList (n : Nat) : List Property :=
  [⟨"Lists", nestedTemplate n, [some (nestedArrays n)]⟩]

/-- The bytes of the record that sets the slot. -/
def nestedRecord (n : Nat) : List UInt8 :=
  [1, 0x79] ++ (Encode.i32 (Int32.ofNat (n + 1)) ++ nestedPayload n)

section

variable {ctx : PropertyContext} {n levels : Nat}

/-- An array in arrays, `n` of them, has a record. -/
theorem exists_framed_nestedRecord (h : n + 1 < 0x80000000) :
    ∃ f : FramedRecord (PropertyContext.nested n).tables, f.bytes = nestedRecord n ∧
      f.record = ⟨"Lists", .array, false, none, 0, nestedPayload n⟩ := by
  have htag : PropertyTag.ofCode 0x79 = .array := by decide
  have hlength : (nestedPayload n).length = n + 1 := by simp [nestedPayload]
  have hsize : Reads (Decode.payloadSize 7) (Encode.i32 (Int32.ofNat (n + 1)))
      (nestedPayload n).length := by
    have hread := (reads_i32 (Int32.ofNat (n + 1))).map (·.toInt.toNat)
    rw [Int32.toInt_ofNat_of_lt h, Int.toNat_natCast] at hread
    rw [hlength]
    exact hread
  refine ⟨{
    nameBytes := [1]
    nameIndex := 1
    name := "Lists"
    info := 0x79
    structBytes := []
    structName := none
    sizeBytes := Encode.i32 (Int32.ofNat (n + 1))
    slotBytes := []
    slot := 0
    payload := nestedPayload n
    reads_name := reads_compact 1
    name_eq := rfl
    ne_none := by decide
    reads_struct := .pure none
    reads_size := hsize
    reads_slot := .pure 0 }, rfl, ?_⟩
  simp [FramedRecord.record, htag]

/-- Arrays in arrays are read if there are as many levels. -/
theorem reads_nestedArrays (h : n ≤ levels) :
    Reads ((ofLevels ctx levels).elements (nestedKind n)) (nestedPayload n) (nestedArrays n) := by
  induction n generalizing levels with
  | zero => exact (reads_compact 0).bind ((Reads.pure []).map PropertyValue.array)
  | succ n ih =>
    obtain ⟨levels, rfl⟩ := Nat.exists_eq_add_one_of_ne_zero (Nat.ne_zero_of_lt h)
    have helement : Reads ((ofLevels ctx (levels + 1)).element (nestedKind (n + 1)))
        (nestedPayload n) (nestedArrays n) := ih (Nat.le_of_succ_le_succ h)
    have helements : Reads (times ((ofLevels ctx (levels + 1)).element (nestedKind (n + 1))) 1)
        ([nestedArrays n].flatMap fun _ => nestedPayload n) [nestedArrays n] :=
      .times (List.forall_mem_singleton.2 helement)
    exact ((reads_compact 1).bind (helements.map PropertyValue.array)).congr
      (congrArg (1 :: ·) (List.append_nil _))

/-- The innermost array lies inside all others. -/
theorem mem_placed_nestedArrays (n depth : Nat) :
    ⟨.array [], depth + n⟩ ∈ (nestedArrays n).placed depth := by
  induction n generalizing depth with
  | zero => exact List.mem_cons_self
  | succ n ih =>
    have hmem := ih (depth + 1)
    rw [Nat.add_right_comm, Nat.add_assoc] at hmem
    exact List.mem_cons_of_mem _ (List.mem_append_left _ hmem)

theorem endsList_nested (n : Nat) : EndsList (PropertyContext.nested n).tables [0] :=
  ⟨0, "None", reads_compact 0, rfl, by decide⟩

/-- A record of arrays in arrays sets them if there are as many levels. -/
theorem sets_nestedArrays (hlevels : n ≤ levels) (scope : String) :
    Sets (.nested n) (ofLevels (.nested n) levels) scope
      ⟨"Lists", .array, false, none, 0, nestedPayload n⟩ (nestedTemplate n) (nestedArrays n) := by
  have hread : (ofLevels (.nested n) levels).elements (nestedKind n) (nestedPayload n ++ []) =
      .ok (nestedArrays n, []) := reads_nestedArrays hlevels []
  rw [List.append_nil] at hread
  exact {
    field := ⟨_, rfl, List.find?_cons_of_pos (beq_self_eq_true _)⟩
    tag := ⟨.array, rfl, rfl⟩
    nonneg := Int.le_refl _
    slot_lt := Int.zero_lt_one
    value := ⟨[], hread⟩ }

/-- Arrays around an empty one are read by as many levels. -/
theorem reads_nestedList (h : n + 1 < 0x80000000) (hlevels : n ≤ levels) (scope : String) :
    Reads ((ofLevels (.nested n) (levels + 1)).list scope) (nestedRecord n ++ [0])
      (nestedList n) := by
  intro rest
  obtain ⟨f, hbytes, hrecord⟩ := exists_framed_nestedRecord h
  refine list_eq_ok_iff.2 ⟨[f], [0], endsList_nested n, ?_, ?_⟩
  · rw [List.flatMap_singleton, hbytes, List.append_assoc]
  · have hstore := gathered_nil.store_eq_ok_iff.2
      ⟨nestedTemplate n, nestedArrays n, sets_nestedArrays hlevels scope, rfl⟩
    rw [List.map_singleton, List.foldlM_cons, hrecord, hstore]
    rfl

/-- Arrays around an empty one are read if they are no more than the limit, and refused
otherwise. -/
theorem readProperties_nestedList (h : n + 1 < 0x80000000) (scope : String) (rest : List UInt8) :
    if n ≤ propertyNestingLimit then
      readProperties (.nested n) scope (nestedRecord n ++ [0] ++ rest) = .ok (nestedList n, rest)
    else ∃ e : Error, e.TooDeep ∧
      readProperties (.nested n) scope (nestedRecord n ++ [0] ++ rest) = .error e := by
  split
  · next hle => exact reads_nestedList h hle scope rest
  · next hgt =>
    have hlevels : n ≤ propertyNestingLimit + n := Nat.le_add_left _ _
    have hread := reads_nestedList h hlevels scope rest
    rw [Nat.add_right_comm] at hread
    have hmem := mem_placed_nestedArrays n 0
    rw [Nat.zero_add] at hmem
    exact exists_tooDeep hread ⟨_, List.mem_append_left _ (List.mem_append_left _ hmem),
      Nat.lt_of_not_le hgt⟩

end

/-! ## Untrusted property lists -/

/-- Property lists of any content are bounded.

The reader ends: at every level of nesting its loop over records has a run without any bound on its
turns, and it is the run that the reader with a bound makes; and as an array element takes a byte,
an array that announces more elements than bytes are left fails as if it announced one more. A list
that is read is within its limits. What stands behind the name that ends a list plays no part,
whether the list is read or refused. A list is refused whenever a reader with more levels finds a
value in it that lies too deep. -/
theorem readProperties_bounded (ctx : PropertyContext) (scope : String) (input : List UInt8) :
    (∀ result, Repeats (recordTurn ctx (ofLevels ctx propertyNestingLimit) scope) [] input result ↔
        readProperties ctx scope input = result) ∧
      (∀ levels owner payload result,
        Repeats (recordTurn ctx (ofLevels ctx levels) owner) [] payload result ↔
          (ofLevels ctx (levels + 1)).list owner payload = result) ∧
      (∀ levels kind payload, ∃ e, ∀ count, payload.length < count →
        times ((ofLevels ctx levels).element kind) count payload = .error e) ∧
      (∀ ps rest, readProperties ctx scope input = .ok (ps, rest) →
        PropertyLimits ctx scope input ps rest) ∧
      (∀ levels owner (rs : List (FramedRecord ctx.tables)) ending, EndsList ctx.tables ending →
        ∃ outcome : Except Error (List Property), ∀ behind,
          (ofLevels ctx (levels + 1)).list owner
              (rs.flatMap FramedRecord.bytes ++ (ending ++ behind)) =
            outcome.map (·, behind)) ∧
      (∀ more ps rest,
        (ofLevels ctx (propertyNestingLimit + 1 + more)).list scope input = .ok (ps, rest) →
        (∃ x ∈ placedFields 0 ps, propertyNestingLimit < x.depth) →
        ∃ e : Error, e.TooDeep ∧ readProperties ctx scope input = .error e) ∧
      propertyNestingLimit = 64 := by
  refine ⟨fun _ => repeats_iff, fun _ _ _ _ => repeats_iff, fun _ _ payload => ?_,
    fun _ _ => propertyLimits_of_readProperties, fun levels owner rs ending hending => ?_,
    fun _ _ _ => exists_tooDeep, rfl⟩
  · exact exists_times_eq_error length_lt_of_element payload
  · refine ⟨(rs.map FramedRecord.record).foldlM ((ofLevels ctx levels).store ctx owner) [],
      fun behind => ?_⟩
    rw [list_flatMap levels rs hending behind]
    cases (rs.map FramedRecord.record).foldlM ((ofLevels ctx levels).store ctx owner) [] <;> rfl

/-- As many arrays around an empty one as the limit allows, with more behind them, and one array
more. -/
theorem readProperties_bounded_nested :
    readProperties (.nested 64) "Thing" (nestedRecord 64 ++ [0] ++ [9]) =
        .ok (nestedList 64, [9]) ∧
      PropertyLimits (.nested 64) "Thing" (nestedRecord 64 ++ [0] ++ [9]) (nestedList 64) [9] ∧
      (∃ e, ∀ count, 3 < count →
        times ((ofLevels (.nested 64) 3).element (nestedKind 2)) count [1, 0, 0] = .error e) ∧
      (∃ outcome : Except Error (List Property), ∀ behind,
        (ofLevels (.nested 64) 8).list "Thing" (nestedRecord 64 ++ ([0] ++ behind)) =
          outcome.map (·, behind)) ∧
      (ofLevels (.nested 65) (propertyNestingLimit + 1 + 1)).list "Thing"
        (nestedRecord 65 ++ [0]) = .ok (nestedList 65, []) ∧
      ∃ e : Error, e.TooDeep ∧
        readProperties (.nested 65) "Thing" (nestedRecord 65 ++ [0]) = .error e := by
  have hread := reads_nestedList (by decide) (Nat.le_refl 64) "Thing" [9]
  have hdeep := reads_nestedList (by decide) (Nat.le_refl 65) "Thing" []
  rw [List.append_nil] at hdeep
  obtain ⟨-, -, helements, hlimits, hbehind, -⟩ := readProperties_bounded (.nested 64) "Thing"
    (nestedRecord 64 ++ [0] ++ [9])
  obtain ⟨-, -, -, -, -, hrefused, -⟩ := readProperties_bounded (.nested 65) "Thing"
    (nestedRecord 65 ++ [0])
  obtain ⟨f, hbytes, -⟩ : ∃ f : FramedRecord (PropertyContext.nested 64).tables,
    f.bytes = nestedRecord 64 ∧ _ := exists_framed_nestedRecord (by decide)
  have hmem : ⟨.array [], 65⟩ ∈ placedFields 0 (nestedList 65) :=
    List.mem_append_left _ (List.mem_append_left _ (mem_placed_nestedArrays 65 0))
  refine ⟨hread, hlimits _ _ hread, helements 3 (nestedKind 2) [1, 0, 0], ?_, hdeep,
    hrefused 1 _ _ hdeep ⟨_, hmem, Nat.lt_succ_self 64⟩⟩
  rw [← hbytes, ← List.flatMap_singleton FramedRecord.bytes f]
  exact hbehind 7 "Thing" [f] [0] (endsList_nested 64)

end UnrealPackage

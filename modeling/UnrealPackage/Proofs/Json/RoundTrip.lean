import UnrealPackage.Json.Parser
import UnrealPackage.Proofs.Text.Utf16
/-!
# Reading back JSON

`parse?_pretty`: the text of a value with one item on a line is read as that value. It is said of
the values in which every number is a natural one and nothing is ill-formed (`Readable`).

What is read from the front of a text depends on what stands behind it only at a number, which must
end there (`EndsNumber`). `Spells` says of a text that it is read so, and that it begins with a
token; of an array or object it follows from that of the items (`more?_flatMap`).
-/

namespace UnrealPackage.Json

/-! ## Numbers -/

/-- Whether a number that stands before these characters ends there. -/
def EndsNumber (rest : List Char) : Prop :=
  ∀ c cs, rest = c :: cs → c.isDigit = false ∧ c ≠ '.' ∧ c ≠ 'e' ∧ c ≠ 'E'

theorem endsNumber_nil : EndsNumber [] :=
  nofun

theorem endsNumber_cons {c : Char} {cs : List Char} (hdigit : c.isDigit = false) (hpoint : c ≠ '.')
    (hlower : c ≠ 'e') (hupper : c ≠ 'E') : EndsNumber (c :: cs) := by
  intro c' cs' h
  cases h
  exact ⟨hdigit, hpoint, hlower, hupper⟩

/-- The digits in front of something that goes on no number are read to the last. -/
theorem digits?_append {ds rest : List Char} (hds : ∀ c ∈ ds, c.isDigit = true) (hne : ds ≠ [])
    (hrest : EndsNumber rest) : digits? (ds ++ rest) = some (ds, rest) := by
  have hends : rest.takeWhile Char.isDigit = [] ∧ rest.dropWhile Char.isDigit = rest := by
    cases rest with
    | nil => exact ⟨rfl, rfl⟩
    | cons c cs =>
      have hc : ¬ c.isDigit = true := by
        rw [(hrest c cs rfl).1]
        exact nofun
      exact ⟨List.takeWhile_cons_of_neg hc, List.dropWhile_cons_of_neg hc⟩
  rw [digits?, List.takeWhile_append_of_pos hds, List.dropWhile_append_of_pos hds, hends.1, hends.2,
    List.append_nil, if_neg (by simpa using hne)]

/-- There is no fraction where a number ends. -/
theorem fraction?_of_endsNumber {rest : List Char} (hrest : EndsNumber rest) :
    fraction? rest = some ([], rest) := by
  unfold fraction?
  split
  · exact absurd rfl (hrest _ _ rfl).2.1
  · rfl

/-- There is no exponent where a number ends. -/
theorem exponent?_of_endsNumber {rest : List Char} (hrest : EndsNumber rest) :
    exponent? rest = some ([], rest) := by
  unfold exponent?
  split
  · exact absurd rfl (hrest _ _ rfl).2.2.1
  · exact absurd rfl (hrest _ _ rfl).2.2.2
  · rfl

theorem isDigit_of_mem_toDigits {n : Nat} {c : Char} (h : c ∈ Nat.toDigits 10 n) :
    c.isDigit = true :=
  Nat.isDigit_of_mem_toDigits (by omega) (by omega) h

theorem digitChar_ne_zero : ∀ n < 10, n ≠ 0 → n.digitChar ≠ '0' := by decide

/-- No number but zero is written with a zero in front. -/
theorem exists_toDigits_eq_cons {n : Nat} (h : n ≠ 0) :
    ∃ c cs, Nat.toDigits 10 n = c :: cs ∧ c ≠ '0' := by
  induction n using Nat.strongRecOn with
  | ind n ih =>
    rcases Nat.lt_or_ge n 10 with hlt | hge
    · exact ⟨n.digitChar, [], Nat.toDigits_of_lt_base hlt, digitChar_ne_zero n hlt h⟩
    · obtain ⟨c, cs, hfront, hc⟩ := ih (n / 10) (by omega) (by omega)
      rw [Nat.toDigits_of_base_le (by omega) hge, hfront]
      exact ⟨c, _, rfl, hc⟩

/-- A number in decimal digits is read as a whole number to its last digit. -/
theorem whole?_toDigits (n : Nat) {rest : List Char} (hrest : EndsNumber rest) :
    whole? (Nat.toDigits 10 n ++ rest) = some (Nat.toDigits 10 n, rest) := by
  by_cases hn : n = 0
  · subst hn
    rfl
  rw [← digits?_append (fun _ => isDigit_of_mem_toDigits) Nat.toDigits_ne_nil hrest]
  obtain ⟨c, cs, hfront, hc⟩ := exists_toDigits_eq_cons hn
  rw [hfront, List.cons_append, whole?]
  intro _ h
  exact hc (List.cons.inj h).1

/-- A natural number is read as it is written. -/
theorem number?_nat (n : Nat) {rest : List Char} (hrest : EndsNumber rest) :
    number? ((toString n).toList ++ rest) = some (nat n, rest) := by
  have hunsigned : unsigned? (Nat.toDigits 10 n ++ rest) = some (Nat.toDigits 10 n, rest) := by
    rw [unsigned?, whole?_toDigits n hrest]
    simp only [Option.bind_eq_bind, Option.bind_some, fraction?_of_endsNumber hrest,
      exponent?_of_endsNumber hrest, List.append_nil, Option.pure_def]
  obtain ⟨c, cs, hfront⟩ := List.exists_cons_of_ne_nil (Nat.toDigits_ne_nil (n := n) (b := 10))
  have hdigit : c.isDigit = true := isDigit_of_mem_toDigits (hfront ▸ List.mem_cons_self)
  rw [nat, Nat.toString_eq_ofList_toDigits, String.toList_ofList, number?.eq_2, hunsigned]
  · rfl
  · intro _ h
    rw [hfront] at h
    rw [(List.cons.inj h).1] at hdigit
    exact absurd hdigit (by decide)

/-! ## Strings -/

/-- The digits of an escaped control character stand for it. -/
theorem exists_hexPadded_eq : ∀ n : Fin 0x20, ∃ a b : Fin 16,
    (hexPadded 4 n).toList = ['0', '0', a.val.digitChar, b.val.digitChar] ∧
      hexUnit? '0' '0' a.val.digitChar b.val.digitChar = some n.val.toUInt16 := by
  decide +kernel

/-- An escape of two characters gives the unit of the character that it stands for. -/
theorem stringUnits?_shortEscape {c e : Char} (he : shortEscape? e = some c) (cs : List Char) :
    stringUnits? ('\\' :: e :: cs) =
      (stringUnits? cs).map fun (us, rest) => (Utf16.encodeChar c ++ us, rest) := by
  rw [stringUnits?.eq_4, he]
  · cases stringUnits? cs <;> rfl
  · rintro _ _ _ _ _ rfl _
    cases he

/-- A character in a string is read as it is written. -/
theorem stringUnits?_escapeChar (c : Char) (cs : List Char) :
    stringUnits? ((escapeChar c).toList ++ cs) =
      (stringUnits? cs).map fun (us, rest) => (Utf16.encodeChar c ++ us, rest) := by
  unfold escapeChar
  iterate 7
    split
    · next h => exact h ▸ stringUnits?_shortEscape rfl cs
  split
  · next h =>
    have hlt : c.toNat < 0x20 := h
    obtain ⟨a, b, htext, hunit⟩ := exists_hexPadded_eq ⟨c.toNat, hlt⟩
    have hchar : Utf16.encodeChar c = [c.toNat.toUInt16] := if_pos (by omega)
    rw [String.toList_append, htext, hchar]
    refine (stringUnits?.eq_3 _ _ _ _ cs).trans ?_
    rw [hunit]
    cases stringUnits? cs <;> rfl
  · next hquote hback _ _ _ _ _ hplain =>
    have hchar : c.toString.toList = [c] := String.toList_singleton c
    rw [hchar, List.singleton_append, stringUnits?.eq_5 _ _ hquote
      (fun _ _ _ _ _ h _ => hback h) (fun _ _ h _ => hback h), if_neg hplain]
    cases stringUnits? cs <;> rfl

/-- Escaped characters up to the closing quote give the units of these characters. -/
theorem stringUnits?_flatMap (cs rest : List Char) :
    stringUnits? (cs.flatMap (fun c => (escapeChar c).toList) ++ '"' :: rest) =
      some (Utf16.encode cs, rest) := by
  induction cs with
  | nil => rfl
  | cons c cs ih =>
    rw [List.flatMap_cons, List.append_assoc, stringUnits?_escapeChar, ih]
    rfl

theorem toList_literal (s : String) :
    (literal s).toList = '"' :: (s.toList.flatMap (fun c => (escapeChar c).toList) ++ ['"']) := by
  rw [literal, String.toList_append, String.toList_append, String.toList_join, List.flatMap_map]
  rfl

theorem textOfUnits?_encode (s : String) : textOfUnits? (Utf16.encode s.toList) = some s := by
  have hchars : (s.toList.map some).mapM id = some s.toList := by
    rw [List.mapM_map]
    exact List.mapM_pure.trans (congrArg some (List.map_id _))
  rw [textOfUnits?, Utf16.decode_encode, hchars, Option.map_some, String.ofList_toList]

/-- Members whose keys are all there make an object. -/
theorem objectOf_map (members : List (String × Json)) :
    objectOf (members.map fun m => (some m.1, m.2)) = object members := by
  have hkeys : (members.map fun m => (some m.1, m.2)).mapM
      (fun m => m.1.map fun key => (key, m.2)) = some members := by
    rw [List.mapM_map]
    exact List.mapM_pure.trans (congrArg some (List.map_id _))
  rw [objectOf, hkeys]

/-! ## Items -/

/-- Whether a text is read as a value, whatever stands behind it, and begins with a token. -/
structure Spells {α : Type} (read : List Char → Option (α × List Char)) (text : List Char)
    (a : α) : Prop where
  begins : ∃ c cs, text = c :: cs ∧ isBlank c = false ∧ c ≠ ']' ∧ c ≠ '\x7d'
  reads : ∀ rest, EndsNumber rest → read (text ++ rest) = some (a, rest)

/-- A new line, indented. -/
def margin (indent : Nat) : List Char :=
  '\n' :: List.replicate (2 * indent) ' '

/-- Items up to a closing character, behind a first one. -/
def more? {α : Type} (closing : Char) (item : List Char → Option (α × List Char)) :
    Nat → List Char → Option (List α × List Char)
  | 0, _ => none
  | bound + 1, cs => match skipBlank cs with
    | [] => none
    | c :: rest =>
      if c = closing then some ([], rest)
      else if c = ',' then do
        let (a, rest) ← item (skipBlank rest)
        let (as, rest) ← more? closing item bound rest
        pure (a :: as, rest)
      else none

/-- Elements of an array are read by the general loop, with its closing bracket. -/
theorem moreElements?_eq (value : List Char → Option (Json × List Char)) (bound : Nat)
    (cs : List Char) : moreElements? value bound cs = more? ']' value bound cs := by
  induction bound generalizing cs with
  | zero => rfl
  | succ bound ih =>
    rw [moreElements?, more?]
    cases skipBlank cs with
    | nil => rfl
    | cons c rest =>
      by_cases hclosing : c = ']'
      · subst hclosing
        rfl
      by_cases hcomma : c = ','
      · subst hcomma
        simp [ih]
      · simp [hclosing, hcomma]

/-- Members of an object are read by the general loop, with its closing brace. -/
theorem moreMembers?_eq (value : List Char → Option (Json × List Char)) (bound : Nat)
    (cs : List Char) : moreMembers? value bound cs = more? '\x7d' (member? value) bound cs := by
  induction bound generalizing cs with
  | zero => rfl
  | succ bound ih =>
    rw [moreMembers?, more?]
    cases skipBlank cs with
    | nil => rfl
    | cons c rest =>
      by_cases hclosing : c = '\x7d'
      · subst hclosing
        rfl
      by_cases hcomma : c = ','
      · subst hcomma
        simp [ih]
      · simp [hclosing, hcomma]

/-- The margin of a line is blank. -/
theorem skipBlank_margin (indent : Nat) (cs : List Char) :
    skipBlank (margin indent ++ cs) = skipBlank cs :=
  List.dropWhile_append_of_pos fun c hc => by
    rcases List.mem_cons.1 hc with rfl | hc
    · rfl
    · rw [List.eq_of_mem_replicate hc]
      rfl

theorem skipBlank_cons {c : Char} (h : isBlank c = false) (cs : List Char) :
    skipBlank (c :: cs) = c :: cs :=
  List.dropWhile_cons_of_neg (by rw [h]; exact nofun)

variable {α β : Type}

theorem Spells.skipBlank {read : List Char → Option (α × List Char)} {text : List Char} {a : α}
    (h : Spells read text a) (rest : List Char) : skipBlank (text ++ rest) = text ++ rest := by
  obtain ⟨c, cs, rfl, hc, -⟩ := h.begins
  exact skipBlank_cons hc _

/-- What stands behind the first item of a block: the others, each on a line of its own, the
closing character, and the rest. -/
def behind (indent : Nat) (closing : Char) (texts : List (List Char)) (rest : List Char) :
    List Char :=
  texts.flatMap (fun text => ',' :: (margin (indent + 1) ++ text)) ++
    (margin indent ++ closing :: rest)

theorem behind_cons (indent : Nat) (closing : Char) (text : List Char) (texts : List (List Char))
    (rest : List Char) : behind indent closing (text :: texts) rest =
      ',' :: (margin (indent + 1) ++ (text ++ behind indent closing texts rest)) := by
  simp only [behind, List.flatMap_cons, List.cons_append, List.append_assoc]

theorem behind_append (indent : Nat) (closing : Char) (texts : List (List Char))
    (rest : List Char) :
    behind indent closing texts [] ++ rest = behind indent closing texts rest := by
  simp only [behind, List.append_assoc, List.cons_append, List.nil_append]

theorem endsNumber_behind (indent : Nat) (closing : Char) (texts : List (List Char))
    (rest : List Char) : EndsNumber (behind indent closing texts rest) := by
  cases texts with
  | nil => exact endsNumber_cons rfl (by decide) (by decide) (by decide)
  | cons text texts => exact endsNumber_cons rfl (by decide) (by decide) (by decide)

/-- Each text takes a character at least. -/
theorem length_le_length_behind (indent : Nat) (closing : Char) (texts : List (List Char))
    (rest : List Char) : texts.length ≤ (behind indent closing texts rest).length := by
  induction texts with
  | nil => exact Nat.zero_le _
  | cons text texts ih =>
    rw [behind_cons]
    simp only [List.length_cons, List.length_append]
    omega

/-- Items behind a first one are read up to the closing character. -/
theorem more?_behind {closing : Char} {item : List Char → Option (α × List Char)} {items : List β}
    {text : β → List Char} {value : β → α} (hblank : isBlank closing = false)
    (hcomma : closing ≠ ',') (h : ∀ b ∈ items, Spells item (text b) (value b)) (indent : Nat)
    {bound : Nat} (hbound : items.length < bound) (rest : List Char) :
    more? closing item bound (behind indent closing (items.map text) rest) =
      some (items.map value, rest) := by
  induction items generalizing bound with
  | nil =>
    obtain ⟨bound, rfl⟩ := Nat.exists_eq_succ_of_ne_zero (Nat.ne_of_gt hbound)
    rw [List.map_nil, behind, List.flatMap_nil, List.nil_append, more?, skipBlank_margin,
      skipBlank_cons hblank]
    exact if_pos rfl
  | cons b items ih =>
    obtain ⟨bound, rfl⟩ := Nat.exists_eq_succ_of_ne_zero (Nat.ne_of_gt (Nat.zero_lt_of_lt hbound))
    rw [List.forall_mem_cons] at h
    rw [List.map_cons, behind_cons, more?, skipBlank_cons rfl]
    simp only [Ne.symm hcomma, if_false, if_true, skipBlank_margin, h.1.skipBlank,
      h.1.reads _ (endsNumber_behind _ _ _ _), Option.bind_eq_bind, Option.bind_some,
      ih h.2 (Nat.lt_of_succ_lt_succ hbound), List.map_cons, Option.pure_def]

/-- As many items are read as there are characters, and there are no more than that. -/
theorem more?_length_behind (closing : Char) {item : List Char → Option (α × List Char)}
    {items : List β} {text : β → List Char} {value : β → α} (hblank : isBlank closing = false)
    (hcomma : closing ≠ ',') (h : ∀ b ∈ items, Spells item (text b) (value b)) (indent : Nat)
    (rest : List Char) :
    more? closing item ((behind indent closing (items.map text) rest).length + 1)
      (behind indent closing (items.map text) rest) = some (items.map value, rest) := by
  have hlength := length_le_length_behind indent closing (items.map text) rest
  rw [List.length_map] at hlength
  exact more?_behind hblank hcomma h indent (Nat.lt_succ_of_le hlength) rest

/-! ## Blocks -/

/-- Texts with a separator between them are the first one and each other behind a separator. -/
theorem toList_intercalate_cons (separator first : String) (items : List String) :
    (separator.intercalate (first :: items)).toList =
      first.toList ++ items.flatMap fun item => separator.toList ++ item.toList := by
  induction items generalizing first with
  | nil => rw [String.intercalate_singleton, List.flatMap_nil, List.append_nil]
  | cons second items ih =>
    rw [String.intercalate_cons_cons, String.toList_append, ih, String.toList_append,
      List.flatMap_cons, List.append_assoc, List.append_assoc]

section

variable {opening closing : String} {first last : Char}

theorem toList_block_nil (hopening : opening.toList = [first]) (hclosing : closing.toList = [last])
    (indent : Nat) : (block opening closing indent []).toList = [first, last] := by
  have hempty : block opening closing indent [] = opening ++ closing := rfl
  rw [hempty, String.toList_append, hopening, hclosing, List.singleton_append]

/-- A block that is not empty is its first item behind a margin, and the others behind it. -/
theorem toList_block_cons (hopening : opening.toList = [first]) (hclosing : closing.toList = [last])
    (indent : Nat) (item : String) (items : List String) :
    (block opening closing indent (item :: items)).toList =
      first :: (margin (indent + 1) ++ (item.toList ++
        behind indent last (items.map String.toList) [])) := by
  have hmargin : ∀ n, ("\n" ++ String.ofList (List.replicate (2 * n) ' ')).toList = margin n := by
    intro n
    rw [String.toList_append, String.toList_ofList (l := List.replicate _ _)]
    rfl
  have hcomma : ",".toList = [','] := rfl
  rw [block, if_neg (by simp), behind, List.flatMap_map]
  simp only [String.toList_append, toList_intercalate_cons, hmargin, hcomma, hopening, hclosing,
    List.append_assoc, List.cons_append, List.nil_append]

end

/-! ## Values -/

/-- Whether a value is read as it is written: it is made of natural numbers and of anything else
that is well-formed. -/
inductive Readable : Json → Prop
  | null : Readable null
  | bool (b : Bool) : Readable (bool b)
  | nat (n : Nat) : Readable (nat n)
  | string (s : String) : Readable (string s)
  | array {elements : List Json} (h : ∀ j ∈ elements, Readable j) : Readable (array elements)
  | object {members : List (String × Json)} (h : ∀ m ∈ members, Readable m.2) :
    Readable (object members)

theorem prettyElements_eq (indent : Nat) (elements : List Json) :
    prettyElements indent elements = elements.map (prettyAt indent) := by
  induction elements with
  | nil => rw [prettyElements, List.map_nil]
  | cons j js ih => rw [prettyElements, ih, List.map_cons]

/-- Each member of an object is its key and its value. -/
theorem prettyMembers_eq (indent : Nat) (members : List (String × Json)) :
    prettyMembers indent members =
      members.map fun m => literal m.1 ++ ": " ++ prettyAt indent m.2 := by
  induction members with
  | nil => rw [prettyMembers, List.map_nil]
  | cons m ms ih => rw [prettyMembers, ih, List.map_cons]

theorem depthElements_le_iff {elements : List Json} {n : Nat} :
    depthElements elements ≤ n ↔ ∀ j ∈ elements, depth j ≤ n := by
  induction elements with
  | nil => simp [depthElements]
  | cons j js ih => rw [depthElements, Nat.max_le, ih, List.forall_mem_cons]

theorem depthMembers_le_iff {members : List (String × Json)} {n : Nat} :
    depthMembers members ≤ n ↔ ∀ m ∈ members, depth m.2 ≤ n := by
  induction members with
  | nil => simp [depthMembers]
  | cons m ms ih => rw [depthMembers, Nat.max_le, ih, List.forall_mem_cons]

/-- A number spells itself. -/
theorem spells_nat (levels n : Nat) :
    Spells (value? (levels + 1)) (toString n).toList (nat n) := by
  have htext : (toString n).toList = Nat.toDigits 10 n := Nat.toList_repr
  obtain ⟨c, cs, hfront⟩ := List.exists_cons_of_ne_nil (Nat.toDigits_ne_nil (n := n) (b := 10))
  have hdigit : c.isDigit = true := isDigit_of_mem_toDigits (hfront ▸ List.mem_cons_self)
  -- no digit begins anything but a number
  have hother : ∀ c' : Char, c'.isDigit = false → c ≠ c' := by
    rintro _ hc' rfl
    exact absurd hdigit (by rw [hc']; exact nofun)
  have hblank : isBlank c = false := by
    simp only [isBlank, Bool.or_eq_false_iff, decide_eq_false_iff_not]
    exact ⟨⟨⟨hother _ rfl, hother _ rfl⟩, hother _ rfl⟩, hother _ rfl⟩
  refine ⟨⟨c, cs, htext.trans hfront, hblank, hother _ rfl, hother _ rfl⟩, fun rest hrest => ?_⟩
  have hfirst : ∀ c' cs', (toString n).toList ++ rest = c' :: cs' → c = c' := by
    rw [htext, hfront]
    intro c' cs' h
    exact (List.cons.inj h).1
  rw [value?.eq_8, number?_nat n hrest]
  all_goals
    intro rest' h
    exact absurd (hfirst _ _ h) (hother _ rfl)

/-- A text spells itself, in quotes. -/
theorem spells_string (levels : Nat) (s : String) :
    Spells (value? (levels + 1)) (literal s).toList (string s) := by
  rw [toList_literal]
  refine ⟨⟨_, _, rfl, rfl, by decide, by decide⟩, fun rest _ => ?_⟩
  rw [List.cons_append, value?.eq_5, List.append_assoc, List.singleton_append,
    stringUnits?_flatMap]
  simp [textOfUnits?_encode]

/-- A key and its value with a colon and a space between them spell a member. -/
theorem spells_member {value : List Char → Option (Json × List Char)} {text : List Char} {j : Json}
    (key : String) (h : Spells value text j) :
    Spells (member? value) ((literal key).toList ++ (':' :: ' ' :: text)) (some key, j) := by
  rw [toList_literal]
  refine ⟨⟨_, _, rfl, rfl, by decide, by decide⟩, fun rest hrest => ?_⟩
  have hcolon : skipBlank (':' :: ' ' :: (text ++ rest)) = ':' :: ' ' :: (text ++ rest) :=
    skipBlank_cons rfl _
  have hspace : skipBlank (' ' :: (text ++ rest)) = text ++ rest :=
    (List.dropWhile_cons_of_pos rfl).trans (h.skipBlank rest)
  simp only [List.cons_append, List.append_assoc, List.nil_append, member?,
    stringUnits?_flatMap, Option.bind_eq_bind, Option.bind_some, hcolon, hspace,
    h.reads rest hrest, textOfUnits?_encode, Option.pure_def]

/-- An array is spelled by its elements if each of them is, one level below. -/
theorem spells_array {levels indent : Nat} {elements : List Json}
    (h : ∀ j ∈ elements, Spells (value? levels) (prettyAt (indent + 1) j).toList j) :
    Spells (value? (levels + 1)) (prettyAt indent (array elements)).toList (array elements) := by
  have hopening : "[".toList = ['['] := rfl
  have hclosing : "]".toList = [']'] := rfl
  rw [prettyAt, prettyElements_eq]
  cases elements with
  | nil =>
    rw [List.map_nil, toList_block_nil hopening hclosing]
    exact ⟨⟨'[', _, rfl, rfl, by decide, by decide⟩, fun rest _ => rfl⟩
  | cons j js =>
    rw [List.forall_mem_cons] at h
    obtain ⟨hfirst, hmore⟩ := h
    rw [List.map_cons, toList_block_cons hopening hclosing, List.map_map]
    refine ⟨⟨'[', _, rfl, rfl, by decide, by decide⟩, fun rest _ => ?_⟩
    have hread := more?_length_behind ']' rfl (by decide) hmore indent rest
    simp only [List.cons_append, List.append_assoc, behind_append]
    rw [value?.eq_6, skipBlank_margin, hfirst.skipBlank]
    split
    · next h =>
      obtain ⟨c, cs, hbegins, -, hc, -⟩ := hfirst.begins
      rw [hbegins] at h
      exact absurd (List.cons.inj h).1 hc
    · rw [hfirst.reads _ (endsNumber_behind _ _ _ _)]
      simp only [Option.bind_eq_bind, Option.bind_some, moreElements?_eq, Function.comp_def, hread,
        List.map_id_fun', id_eq, Option.pure_def]

/-- An object is spelled by its members if the value of each is, one level below. -/
theorem spells_object {levels indent : Nat} {members : List (String × Json)}
    (h : ∀ m ∈ members, Spells (value? levels) (prettyAt (indent + 1) m.2).toList m.2) :
    Spells (value? (levels + 1)) (prettyAt indent (object members)).toList (object members) := by
  have hopening : "\x7b".toList = ['\x7b'] := rfl
  have hclosing : "\x7d".toList = ['\x7d'] := rfl
  have htext : ∀ m : String × Json, (literal m.1 ++ ": " ++ prettyAt (indent + 1) m.2).toList =
      (literal m.1).toList ++ (':' :: ' ' :: (prettyAt (indent + 1) m.2).toList) := by
    intro m
    rw [String.toList_append, String.toList_append, List.append_assoc]
    rfl
  rw [prettyAt, prettyMembers_eq]
  cases members with
  | nil =>
    rw [List.map_nil, toList_block_nil hopening hclosing]
    exact ⟨⟨'\x7b', _, rfl, rfl, by decide, by decide⟩, fun rest _ => rfl⟩
  | cons m ms =>
    have hmember := fun m hm => spells_member m.1 (h m hm)
    rw [List.forall_mem_cons] at hmember
    obtain ⟨hfirst, hmore⟩ := hmember
    rw [List.map_cons, toList_block_cons hopening hclosing, List.map_map]
    refine ⟨⟨'\x7b', _, rfl, rfl, by decide, by decide⟩, fun rest _ => ?_⟩
    have hread := more?_length_behind '\x7d' rfl (by decide) hmore indent rest
    simp only [List.cons_append, List.append_assoc, behind_append, Function.comp_def]
    simp only [htext]
    rw [value?.eq_7, skipBlank_margin, hfirst.skipBlank]
    split
    · next h =>
      obtain ⟨c, cs, hbegins, -, -, hc⟩ := hfirst.begins
      rw [hbegins] at h
      exact absurd (List.cons.inj h).1 hc
    · rw [hfirst.reads _ (endsNumber_behind _ _ _ _)]
      have hobject := objectOf_map (m :: ms)
      rw [List.map_cons] at hobject
      simp only [Option.bind_eq_bind, Option.bind_some, moreMembers?_eq, hread, Option.pure_def,
        hobject]

/-- A value is read as it is written. -/
theorem Readable.spells {j : Json} (h : Readable j) {levels : Nat} (hdepth : j.depth ≤ levels)
    (indent : Nat) : Spells (value? (levels + 1)) (prettyAt indent j).toList j := by
  induction h generalizing levels indent with
  | null =>
    rw [prettyAt]
    exact ⟨⟨'n', _, rfl, rfl, by decide, by decide⟩, fun rest _ => rfl⟩
  | bool b =>
    rw [prettyAt]
    cases b with
    | true => exact ⟨⟨'t', _, rfl, rfl, by decide, by decide⟩, fun rest _ => rfl⟩
    | false => exact ⟨⟨'f', _, rfl, rfl, by decide, by decide⟩, fun rest _ => rfl⟩
  | nat n =>
    rw [Json.nat, prettyAt]
    exact spells_nat levels n
  | string s =>
    rw [prettyAt]
    exact spells_string levels s
  | array _ ih =>
    rw [depth] at hdepth
    obtain ⟨levels, rfl⟩ := Nat.exists_eq_add_of_le' hdepth
    have helements := depthElements_le_iff.1 (Nat.le_of_add_le_add_right hdepth)
    exact spells_array fun j hj => ih j hj (helements j hj) (indent + 1)
  | object _ ih =>
    rw [depth] at hdepth
    obtain ⟨levels, rfl⟩ := Nat.exists_eq_add_of_le' hdepth
    have hmembers := depthMembers_le_iff.1 (Nat.le_of_add_le_add_right hdepth)
    exact spells_object fun m hm => ih m hm (hmembers m hm) (indent + 1)

/-! ## Whole texts -/

/-- A text among others is no longer than all of them with what stands between them. -/
theorem length_le_of_mem_behind {texts : List (List Char)} {text : List Char} (h : text ∈ texts)
    (indent : Nat) (closing : Char) (rest : List Char) :
    text.length ≤ (behind indent closing texts rest).length := by
  induction texts with
  | nil => cases h
  | cons first texts ih =>
    rw [behind_cons]
    simp only [List.length_cons, List.length_append]
    rcases List.mem_cons.1 h with rfl | h
    · omega
    · have hle := ih h
      omega

/-- A block is longer than each of its items. -/
theorem exists_length_block {opening closing : String} {first last : Char}
    (hopening : opening.toList = [first]) (hclosing : closing.toList = [last]) (indent : Nat)
    (items : List String) : ∃ n, (block opening closing indent items).toList.length = n + 1 ∧
      ∀ item ∈ items, item.toList.length ≤ n := by
  cases items with
  | nil =>
    rw [toList_block_nil hopening hclosing]
    exact ⟨1, rfl, nofun⟩
  | cons item items =>
    rw [toList_block_cons hopening hclosing]
    refine ⟨_, rfl, fun item' hitem => ?_⟩
    simp only [List.length_append]
    rcases List.mem_cons.1 hitem with rfl | hitem
    · omega
    · have hmem : item'.toList ∈ items.map String.toList := List.mem_map_of_mem hitem
      have hle := length_le_of_mem_behind hmem indent last []
      omega

/-- The text of a value has a character at least for each level. -/
theorem Readable.depth_le {j : Json} (h : Readable j) (indent : Nat) :
    j.depth ≤ (prettyAt indent j).toList.length := by
  induction h generalizing indent with
  | null | bool | nat | string => exact Nat.zero_le _
  | @array elements _ ih =>
    rw [depth, prettyAt, prettyElements_eq]
    obtain ⟨n, hlength, hitems⟩ := exists_length_block (show "[".toList = ['['] from rfl)
      (show "]".toList = [']'] from rfl) indent (elements.map (prettyAt (indent + 1)))
    rw [hlength, Nat.add_le_add_iff_right, depthElements_le_iff]
    exact fun j hj => Nat.le_trans (ih j hj (indent + 1)) (hitems _ (List.mem_map_of_mem hj))
  | @object members _ ih =>
    rw [depth, prettyAt, prettyMembers_eq]
    obtain ⟨n, hlength, hitems⟩ := exists_length_block (show "\x7b".toList = ['\x7b'] from rfl)
      (show "\x7d".toList = ['\x7d'] from rfl) indent
      (members.map fun m => literal m.1 ++ ": " ++ prettyAt (indent + 1) m.2)
    rw [hlength, Nat.add_le_add_iff_right, depthMembers_le_iff]
    intro m hm
    have hitem := hitems _ (List.mem_map.2 ⟨m, hm, rfl⟩)
    rw [String.toList_append, List.length_append] at hitem
    exact Nat.le_trans (ih m hm (indent + 1)) (Nat.le_trans (Nat.le_add_left _ _) hitem)

/-- A text with one item on a line is read as the value it was made of. -/
theorem parse?_pretty {j : Json} (h : Readable j) : parse? (pretty j) = some j := by
  have hspells := h.spells (h.depth_le 0) 0
  have hblank := hspells.skipBlank []
  have hread := hspells.reads [] endsNumber_nil
  rw [List.append_nil] at hblank hread
  rw [parse?, pretty, hblank, hread]
  rfl

end UnrealPackage.Json

import Telemetry.Proofs.Json.Numerals

/-!
# Reading written JSON

What is written of a value is read back as that value, with whatever stands behind it left over
(`Json.ReadsBack`). A string ends at the first quote that is not escaped, and no character is written so that
it would be one (`Json.stringBody?_escape`). A number ends where its numeral does, so that what stands behind
it must not go on with it (`Json.Closes`); inside an array or an object that is a comma or the closing bracket.
Numbers that are not finite have no numeral: null is written for them, and so they are read as null
(`Json.parse?_render`). Whatever is written stands on one line (`Json.newline_not_mem_render`).
-/

namespace Telemetry

namespace Json

/-! ## Strings -/

section Strings

variable {c : Char} {rest : List Char}

/-- A character in front of what a string goes on with, if it does. -/
def inFront (c : Char) : Option (List Char × List Char) → Option (List Char × List Char) :=
  Option.map fun p => (c :: p.1, p.2)

theorem stringBody?_letter {letter : Char} (other : letter ≠ 'u') (stands : unescape? letter = some c) :
    stringBody? ('\\' :: letter :: rest) = inFront c (stringBody? rest) := by
  rw [stringBody?, stands]
  · cases stringBody? rest <;> rfl
  · intro _ _ _ _ _ same
    exact absurd same other

theorem stringBody?_control {n : Nat} (control : n < 0x20) (rest : List Char) :
    stringBody? ('\\' :: 'u' :: '0' :: '0' :: Text.lowerByte (UInt8.ofNat n) ++ rest) =
      inFront (Char.ofNat n) (stringBody? rest) := by
  have all : ∀ n < 0x20, fourDigits? '0' '0' (Text.lowerDigit ((UInt8.ofNat n).toNat / 16))
      (Text.lowerDigit ((UInt8.ofNat n).toNat % 16)) = some n := by decide
  unfold Text.lowerByte
  simp only [List.cons_append, List.nil_append]
  rw [stringBody?, all n control]
  dsimp only
  rw [if_neg (by omega), if_neg (by omega)]
  cases stringBody? rest <;> rfl

theorem stringBody?_plain (quote : c ≠ '\"') (backslash : c ≠ '\\') (shown : 0x20 ≤ c.toNat) :
    stringBody? (c :: rest) = inFront c (stringBody? rest) := by
  rw [stringBody?, if_neg (not_or.mpr ⟨backslash, Nat.not_lt.mpr shown⟩)]
  · cases stringBody? rest <;> rfl
  · exact quote
  · intro _ _ _ _ _ same
    exact absurd same backslash
  · intro _ _ same
    exact absurd same backslash

/-- A character is written as a letter behind a backslash, by its number or as itself. -/
theorem escape_cases (c : Char) :
    (∃ letter, letter ≠ 'u' ∧ unescape? letter = some c ∧ escape c = ['\\', letter]) ∨
    (c.toNat < 0x20 ∧ escape c = '\\' :: 'u' :: '0' :: '0' :: Text.lowerByte (UInt8.ofNat c.toNat)) ∨
    (c ≠ '\"' ∧ c ≠ '\\' ∧ 0x20 ≤ c.toNat ∧ escape c = [c]) := by
  unfold escape
  split
  · rename_i same
    rcases same with rfl | rfl <;> exact .inl ⟨_, by decide, rfl, rfl⟩
  · rename_i marks
    obtain ⟨quote, backslash⟩ := not_or.mp marks
    iterate 5
      split
      · rename_i same
        subst same
        exact .inl ⟨_, by decide, rfl, rfl⟩
    split
    · rename_i control
      exact .inr (.inl ⟨control, rfl⟩)
    · rename_i shown
      exact .inr (.inr ⟨quote, backslash, Nat.not_lt.mp shown, rfl⟩)

/-- **Whatever a character is written as, it is read back**, and the string goes on behind it. -/
theorem stringBody?_escape (c : Char) (rest : List Char) :
    stringBody? (escape c ++ rest) = inFront c (stringBody? rest) := by
  obtain ⟨letter, other, stands, written⟩ | ⟨control, written⟩ | ⟨quote, backslash, shown, written⟩ :=
    escape_cases c
  · rw [written]
    exact stringBody?_letter other stands
  · have read := stringBody?_control control rest
    rw [Char.ofNat_toNat] at read
    rw [written]
    exact read
  · rw [written]
    exact stringBody?_plain quote backslash shown

/-- A string is read back up to its closing quote. -/
theorem stringBody?_quoted (characters rest : List Char) :
    stringBody? (characters.flatMap escape ++ '\"' :: rest) = some (characters, rest) := by
  induction characters with
  | nil => rfl
  | cons c characters ih =>
    rw [List.flatMap_cons, List.append_assoc, stringBody?_escape, ih]
    rfl

end Strings

/-! ## Values -/

/-- A value without numbers that are not finite. -/
inductive AllFinite : Json → Prop where
  | null : AllFinite .null
  | bool (value : Bool) : AllFinite (.bool value)
  | integer (value : Int) : AllFinite (.integer value)
  | number {value : Binary64} (finite : value.isFinite = true) : AllFinite (.number value)
  | string (value : String) : AllFinite (.string value)
  | array {items : List Json} (each : ∀ item ∈ items, AllFinite item) : AllFinite (.array items)
  | object {members : List (String × Json)} (each : ∀ member ∈ members, AllFinite member.2) :
    AllFinite (.object members)

/-- What is written of a value is read back as it, in front of anything that does not go on with a numeral. -/
def ReadsBack (value : Json) : Prop :=
  ∀ (fuel : Nat) (rest : List Char), value.text.length ≤ fuel → Closes rest →
    value? fuel (value.text ++ rest) = some (value, rest)

/-- What is read as a number begins with a digit or a minus sign. -/
theorem exists_cons_of_number? {text : List Char} {read : Json × List Char} (h : number? text = some read) :
    ∃ c rest, text = c :: rest ∧ (c.isDigit = true ∨ c = '-') := by
  cases text with
  | nil => cases h
  | cons c rest =>
    refine ⟨c, rest, rfl, ?_⟩
    by_contra other
    obtain ⟨figure, minus⟩ := not_or.mp other
    have none : digitRun (c :: rest) = ([], c :: rest) := by
      rw [digitRun, List.takeWhile_cons_of_neg figure, List.dropWhile_cons_of_neg figure]
    unfold number? at h
    split at h
    rename_i found unsigned same
    split at same
    · rename_i sign
      cases sign
      exact minus rfl
    · cases same
      rw [none] at h
      cases h

/-- What is written of a value begins with neither a blank nor the bracket that closes an array. -/
theorem AllFinite.exists_cons {value : Json} (finite : value.AllFinite) :
    ∃ c rest, value.text = c :: rest ∧ isBlank c = false ∧ c ≠ ']' := by
  have numeral {text : List Char} {read : Json × List Char} (h : number? (text ++ []) = some read) :
      ∃ c rest, text = c :: rest ∧ isBlank c = false ∧ c ≠ ']' := by
    rw [List.append_nil] at h
    obtain ⟨c, rest, written, first⟩ := exists_cons_of_number? h
    refine ⟨c, rest, written, ?_⟩
    rcases first with digit | rfl
    · have other (d : Char) (none : d.isDigit = false) : c ≠ d := by
        rintro rfl
        cases digit.symm.trans none
      exact ⟨by simp [isBlank, other], other _ (by decide)⟩
    · exact ⟨by decide, by decide⟩
  cases finite with
  | null => exact ⟨_, _, rfl, by decide, by decide⟩
  | bool value => cases value <;> exact ⟨_, _, rfl, by decide, by decide⟩
  | integer value => exact numeral (number?_integerText value closes_nil)
  | @number value finite =>
    rw [text, if_pos finite]
    exact numeral (number?_render finite closes_nil)
  | string value => exact ⟨_, _, by rw [text]; rfl, by decide, by decide⟩
  | @array items each => cases items <;> rw [text] <;> exact ⟨_, _, rfl, by decide, by decide⟩
  | @object members each => cases members <;> rw [text] <;> exact ⟨_, _, rfl, by decide, by decide⟩

theorem skipBlanks_cons {c : Char} (rest : List Char) (shown : isBlank c = false) :
    skipBlanks (c :: rest) = c :: rest :=
  List.dropWhile_cons_of_neg (by simp [shown])

theorem value?_of_number? {fuel : Nat} {text : List Char} {read : Json × List Char}
    (h : number? text = some read) : value? (fuel + 1) text = some read := by
  obtain ⟨c, rest, rfl, first⟩ := exists_cons_of_number? h
  rw [value?, h]
  all_goals
    rintro after same
    obtain ⟨rfl, -⟩ := List.cons.inj same
    rcases first with digit | minus
    · cases digit
    · cases minus

/-- Nothing is skipped in front of what is written of a value. -/
theorem AllFinite.skipBlanks_text {value : Json} (finite : value.AllFinite) (rest : List Char) :
    skipBlanks (value.text ++ rest) = value.text ++ rest := by
  obtain ⟨c, behind, written, shown, -⟩ := finite.exists_cons
  rw [written]
  exact skipBlanks_cons _ shown

theorem skipBlanks_quoted (name : String) (rest : List Char) :
    skipBlanks (quoted name ++ rest) = quoted name ++ rest :=
  skipBlanks_cons _ (by decide)

section Parts

variable {fuel : Nat} {item value : Json} {items : List Json} {name : String}
  {members : List (String × Json)} {rest : List Char}

/-- The items after one that is read back. -/
theorem items?_of_item (back : item.ReadsBack) (enough : item.text.length ≤ fuel) :
    items? (fuel + 1) (text item ++ ',' :: rest) =
        (items? fuel (skipBlanks rest)).map (fun p => (item :: p.1, p.2)) ∧
      items? (fuel + 1) (text item ++ ']' :: rest) = some ([item], rest) := by
  constructor
  · rw [items?, back fuel _ enough (closes_cons _ (by decide))]
    simp only [Option.bind_eq_bind, Option.bind_some, skipBlanks_cons _ (by decide : isBlank ',' = false)]
    cases items? fuel (skipBlanks rest) <;> rfl
  · rw [items?, back fuel _ enough (closes_cons _ (by decide))]
    rfl

/-- The members after one whose value is read back. -/
theorem members?_of_member (finite : value.AllFinite) (back : value.ReadsBack)
    (enough : value.text.length ≤ fuel) :
    members? (fuel + 1) (quoted name ++ ':' :: (text value ++ ',' :: rest)) =
        (members? fuel (skipBlanks rest)).map (fun p => ((name, value) :: p.1, p.2)) ∧
      members? (fuel + 1) (quoted name ++ ':' :: (text value ++ '\x7d' :: rest)) =
        some ([(name, value)], rest) := by
  simp only [quoted, List.append_assoc, List.cons_append, List.nil_append]
  constructor
  · have read := back fuel (',' :: rest) enough (closes_cons rest (by decide))
    rw [members?, stringBody?_quoted]
    simp only [Option.bind_eq_bind, Option.bind_some, skipBlanks_cons _ (by decide : isBlank ':' = false),
      finite.skipBlanks_text, read, skipBlanks_cons _ (by decide : isBlank ',' = false),
      String.ofList_toList]
    cases members? fuel (skipBlanks rest) <;> rfl
  · have read := back fuel ('\x7d' :: rest) enough (closes_cons rest (by decide))
    rw [members?, stringBody?_quoted]
    simp only [Option.bind_eq_bind, Option.bind_some, skipBlanks_cons _ (by decide : isBlank ':' = false),
      finite.skipBlanks_text, read, skipBlanks_cons _ (by decide : isBlank '\x7d' = false),
      String.ofList_toList]
    rfl

theorem items?_text (each : ∀ x ∈ item :: items, x.AllFinite ∧ x.ReadsBack)
    (enough : (text item ++ textItems items).length < fuel) (rest : List Char) :
    items? fuel (text item ++ (textItems items ++ ']' :: rest)) = some (item :: items, rest) := by
  induction items generalizing item fuel with
  | nil =>
    obtain ⟨fuel, rfl⟩ : ∃ n, fuel = n + 1 := Nat.exists_eq_succ_of_ne_zero (by omega)
    rw [textItems, List.append_nil] at enough
    exact (items?_of_item (each item List.mem_cons_self).2 (by omega)).2
  | cons next items ih =>
    obtain ⟨fuel, rfl⟩ : ∃ n, fuel = n + 1 := Nat.exists_eq_succ_of_ne_zero (by omega)
    obtain ⟨finite, -⟩ := each next (List.mem_cons_of_mem _ List.mem_cons_self)
    simp only [textItems, List.length_append, List.length_singleton] at enough
    have less : (text next ++ textItems items).length < fuel := by
      rw [List.length_append]
      omega
    have read := ih (fun x inside => each x (List.mem_cons_of_mem _ inside)) less
    simp only [textItems, List.append_assoc, List.cons_append, List.nil_append]
    rw [(items?_of_item (each item List.mem_cons_self).2 (by omega)).1, finite.skipBlanks_text, read]
    rfl

theorem members?_text (each : ∀ x ∈ (name, value) :: members, x.2.AllFinite ∧ x.2.ReadsBack)
    (enough : (text value ++ textMembers members).length < fuel) (rest : List Char) :
    members? fuel (quoted name ++ ':' :: (text value ++ (textMembers members ++ '\x7d' :: rest))) =
      some ((name, value) :: members, rest) := by
  induction members generalizing name value fuel with
  | nil =>
    obtain ⟨fuel, rfl⟩ : ∃ n, fuel = n + 1 := Nat.exists_eq_succ_of_ne_zero (by omega)
    have member := each (name, value) List.mem_cons_self
    rw [textMembers, List.append_nil] at enough
    exact (members?_of_member member.1 member.2 (Nat.le_of_lt_succ enough)).2
  | cons next members ih =>
    obtain ⟨fuel, rfl⟩ : ∃ n, fuel = n + 1 := Nat.exists_eq_succ_of_ne_zero (by omega)
    obtain ⟨name', value'⟩ := next
    have member := each (name, value) List.mem_cons_self
    simp only [textMembers, List.length_append, List.length_singleton] at enough
    have less : (text value' ++ textMembers members).length < fuel := by
      rw [List.length_append]
      omega
    have read := ih (fun x inside => each x (List.mem_cons_of_mem _ inside)) less
    have short : value.text.length ≤ fuel := by omega
    simp only [textMembers, List.append_assoc, List.cons_append, List.nil_append]
    rw [(members?_of_member member.1 member.2 short).1, skipBlanks_quoted, read]
    rfl

end Parts

theorem AllFinite.readsBack_of_succ {value : Json} (finite : value.AllFinite)
    (reads : ∀ (fuel : Nat) (rest : List Char), value.text.length ≤ fuel + 1 → Closes rest →
      value? (fuel + 1) (value.text ++ rest) = some (value, rest)) : value.ReadsBack := by
  intro fuel rest enough closes
  cases fuel with
  | zero =>
    obtain ⟨c, behind, written, -⟩ := finite.exists_cons
    rw [written] at enough
    cases enough
  | succ fuel => exact reads fuel rest enough closes

/-- **What is written of a value is read back.** The parts of an array and of an object have fewer characters
than the whole, so that as much fuel as there are characters is enough for them. -/
theorem AllFinite.readsBack {value : Json} (finite : value.AllFinite) : value.ReadsBack := by
  induction finite with
  | null =>
    refine AllFinite.null.readsBack_of_succ fun fuel rest _ _ => ?_
    rw [text]
    rfl
  | bool value =>
    refine (AllFinite.bool value).readsBack_of_succ fun fuel rest _ _ => ?_
    cases value <;> rw [text] <;> rfl
  | integer value =>
    refine (AllFinite.integer value).readsBack_of_succ fun fuel rest _ closes => ?_
    rw [text]
    exact value?_of_number? (number?_integerText value closes)
  | @number value finite =>
    refine (AllFinite.number finite).readsBack_of_succ fun fuel rest _ closes => ?_
    rw [text, if_pos finite]
    exact value?_of_number? (number?_render finite closes)
  | string value =>
    refine (AllFinite.string value).readsBack_of_succ fun fuel rest _ _ => ?_
    simp only [text, quoted, List.append_assoc, List.cons_append, List.nil_append]
    rw [value?, stringBody?_quoted, Option.map_some]
    dsimp only
    rw [String.ofList_toList]
  | @array items each ih =>
    refine (AllFinite.array each).readsBack_of_succ fun fuel rest enough _ => ?_
    cases items with
    | nil =>
      rw [text]
      rfl
    | cons item items =>
      have finite := each item List.mem_cons_self
      obtain ⟨c, behind, written, -, other⟩ := finite.exists_cons
      simp only [text, List.length_append, List.length_singleton] at enough
      have less : (text item ++ textItems items).length < fuel := by
        rw [List.length_append]
        omega
      have read := items?_text (fun x inside => ⟨each x inside, ih x inside⟩) less rest
      simp only [text, List.append_assoc, List.cons_append, List.nil_append]
      rw [value?, finite.skipBlanks_text]
      split
      · rename_i after same
        rw [written, List.cons_append] at same
        exact absurd (List.cons.inj same).1 other
      · rw [read]
        rfl
  | @object members each ih =>
    refine (AllFinite.object each).readsBack_of_succ fun fuel rest enough _ => ?_
    cases members with
    | nil =>
      rw [text]
      rfl
    | cons member members =>
      obtain ⟨name, value⟩ := member
      simp only [text, List.length_append, List.length_singleton] at enough
      have less : (text value ++ textMembers members).length < fuel := by
        rw [List.length_append]
        omega
      have read := members?_text (fun x inside => ⟨each x inside, ih x inside⟩) less rest
      simp only [text, List.append_assoc, List.cons_append, List.nil_append]
      rw [value?, skipBlanks_quoted]
      split
      · rename_i after same
        cases same
      · rw [read]
        rfl

theorem AllFinite.parse?_render {value : Json} (finite : value.AllFinite) :
    parse? value.render = some value := by
  have read := finite.readsBack (value.text.length + 1) [] (Nat.le_succ _) closes_nil
  have front := finite.skipBlanks_text []
  rw [List.append_nil] at read front
  rw [parse?, render, String.toList_ofList, front, read]
  rfl

/-! ## Numbers that are not finite -/

mutual

/-- A value as its text tells it, with null for numbers that are not finite. -/
def shown : Json → Json
  | .number value => if value.isFinite then .number value else .null
  | .array items => .array (shownItems items)
  | .object members => .object (shownMembers members)
  | value => value

def shownItems : List Json → List Json
  | [] => []
  | item :: items => shown item :: shownItems items

def shownMembers : List (String × Json) → List (String × Json)
  | [] => []
  | (name, value) :: members => (name, shown value) :: shownMembers members

end

mutual

/-- Of a value and of what is shown of it the same is written. -/
theorem text_shown : ∀ value : Json, text (shown value) = text value
  | .null | .bool _ | .integer _ | .string _ => rfl
  | .number value => by
    rw [shown]
    split
    · rfl
    · rename_i infinite
      rw [text, text, if_neg infinite]
  | .array [] => rfl
  | .array (item :: items) => by
    rw [shown, shownItems, text, text, text_shown item, textItems_shownItems items]
  | .object [] => rfl
  | .object ((name, value) :: members) => by
    rw [shown, shownMembers, text, text, text_shown value, textMembers_shownMembers members]

theorem textItems_shownItems : ∀ items : List Json, textItems (shownItems items) = textItems items
  | [] => rfl
  | item :: items => by
    rw [shownItems, textItems, textItems, text_shown item, textItems_shownItems items]

theorem textMembers_shownMembers :
    ∀ members : List (String × Json), textMembers (shownMembers members) = textMembers members
  | [] => rfl
  | (name, value) :: members => by
    rw [shownMembers, textMembers, textMembers, text_shown value, textMembers_shownMembers members]

end

mutual

theorem allFinite_shown : ∀ value : Json, (shown value).AllFinite
  | .null => .null
  | .bool value => .bool value
  | .integer value => .integer value
  | .string value => .string value
  | .number value => by
    rw [shown]
    split
    · rename_i finite
      exact .number finite
    · exact .null
  | .array items => .array (allFinite_shownItems items)
  | .object members => .object (allFinite_shownMembers members)

theorem allFinite_shownItems : ∀ items : List Json, ∀ item ∈ shownItems items, item.AllFinite
  | [] => fun _ none => by cases none
  | item :: items => List.forall_mem_cons.mpr ⟨allFinite_shown item, allFinite_shownItems items⟩

theorem allFinite_shownMembers :
    ∀ members : List (String × Json), ∀ member ∈ shownMembers members, member.2.AllFinite
  | [] => fun _ none => by cases none
  | (_, value) :: members =>
    List.forall_mem_cons.mpr ⟨allFinite_shown value, allFinite_shownMembers members⟩

end

/-- **The text of a value is read as what it shows of the value.** -/
theorem parse?_render (value : Json) : parse? value.render = some value.shown := by
  have same : value.shown.render = value.render := congrArg String.ofList (text_shown value)
  rw [← same]
  exact (allFinite_shown value).parse?_render

/-! ## One line -/

theorem newline_not_mem_escape (c : Char) : '\n' ∉ escape c := by
  obtain ⟨letter, -, stands, written⟩ | ⟨control, written⟩ | ⟨-, -, shown, written⟩ := escape_cases c
  · have other : letter ≠ '\n' := by
      rintro rfl
      cases stands
    rw [written]
    simp [other.symm]
  · have all : ∀ n < 0x20, '\n' ∉ '\\' :: 'u' :: '0' :: '0' :: Text.lowerByte (UInt8.ofNat n) := by decide
    rw [written]
    exact all c.toNat control
  · rw [written, List.mem_singleton]
    rintro rfl
    exact absurd shown (by decide)

theorem newline_not_mem_quoted (text : String) : '\n' ∉ quoted text := by
  have body : '\n' ∉ text.toList.flatMap escape := by
    rw [List.mem_flatMap]
    rintro ⟨c, -, inside⟩
    exact newline_not_mem_escape c inside
  simp [quoted, body]

mutual

/-- What is written of a value stands on one line. -/
theorem newline_not_mem_text : ∀ value : Json, '\n' ∉ text value
  | .null | .bool true | .bool false | .array [] | .object [] => by
    rw [text]
    decide
  | .integer value => fun inside => (isFigure_of_mem_integerText value _ inside).ne_newline rfl
  | .string value => newline_not_mem_quoted value
  | .number value => by
    rw [text]
    split
    · rename_i finite
      exact fun inside => (isFigure_of_mem_render finite _ inside).ne_newline rfl
    · decide
  | .array (item :: items) => by
    have first := newline_not_mem_text item
    have others := newline_not_mem_textItems items
    simp [text, first, others]
  | .object ((name, value) :: members) => by
    have first := newline_not_mem_text value
    have others := newline_not_mem_textMembers members
    simp [text, newline_not_mem_quoted, first, others]

theorem newline_not_mem_textItems : ∀ items : List Json, '\n' ∉ textItems items
  | [] => List.not_mem_nil
  | item :: items => by
    have first := newline_not_mem_text item
    have others := newline_not_mem_textItems items
    simp [textItems, first, others]

theorem newline_not_mem_textMembers : ∀ members : List (String × Json), '\n' ∉ textMembers members
  | [] => List.not_mem_nil
  | (name, value) :: members => by
    have first := newline_not_mem_text value
    have others := newline_not_mem_textMembers members
    simp [textMembers, newline_not_mem_quoted, first, others]

end

theorem newline_not_mem_render (value : Json) : '\n' ∉ value.render.toList := by
  rw [render, String.toList_ofList]
  exact newline_not_mem_text value

end Json

end Telemetry

import Telemetry.Json.Reader
import Telemetry.Proofs.Decimal.Shortest

/-!
# Reading written numbers

A numeral ends where its digits do, so that what stands behind it must not go on with it (`Json.Closes`). An
integer is written as its digits. Any other number is written as its shortest decimal, with a point or an
exponent: the digits with zeros and `.0` behind them, with the point among them, behind zeros, or all but the
first behind the point and then the exponent. Each of these layouts is read as a decimal of the same value
(`Json.number?_layout`), and that is rounded to the number again (`Json.number?_render`).
-/

namespace Telemetry

namespace Text

variable {c : Char} {digits : List Char}

theorem digit?_of_isDigit (digit : c.isDigit = true) : digit? c = some (c.toNat - '0'.toNat) := by
  refine if_pos ?_
  simpa [Char.isDigit, Char.le_def] using digit

/-- A run of digits is read as the number it spells. -/
theorem decimalValue?_of_digits (all : ∀ c ∈ digits, c.isDigit = true) :
    decimalValue? digits = some (Nat.ofDigitChars 10 digits 0) := by
  have run : ∀ start, digits.foldl
      (fun value? c => value?.bind fun value => (digit? c).map (10 * value + ·)) (some start) =
        some (Nat.ofDigitChars 10 digits start) := by
    induction digits with
    | nil => intro start; rfl
    | cons c rest ih =>
      intro start
      rw [List.foldl_cons, Option.bind_some, digit?_of_isDigit (all c List.mem_cons_self), Option.map_some,
        ih fun c inside => all c (List.mem_cons_of_mem _ inside), Nat.ofDigitChars_cons]
  exact run 0

theorem isDigit_of_mem_toDigits {n : Nat} : ∀ c ∈ Nat.toDigits 10 n, c.isDigit = true :=
  fun _ inside => Nat.isDigit_of_mem_toDigits (by decide) (by decide) inside

/-- Only zero is written with a zero in front. -/
theorem head?_toDigits {n : Nat} (pos : 0 < n) : (Nat.toDigits 10 n).head? ≠ some '0' := by
  induction n using Nat.strongRecOn with
  | _ n ih =>
    rcases Nat.lt_or_ge n 10 with small | large
    · have all : ∀ n < 10, 0 < n → [Nat.digitChar n].head? ≠ some '0' := by decide
      rw [Nat.toDigits_of_lt_base small]
      exact all n small pos
    · rw [Nat.toDigits_of_base_le (by decide) large, List.head?_append_of_ne_nil _ Nat.toDigits_ne_nil]
      exact ih (n / 10) (by omega) (by omega)

end Text

namespace Json

/-! ## Parts of a numeral -/

/-- What stands behind a numeral does not go on with it. -/
def Closes (rest : List Char) : Prop :=
  ∀ c ∈ rest.head?, c.isDigit = false ∧ c ≠ '.' ∧ c ≠ 'e' ∧ c ≠ 'E'

theorem closes_nil : Closes [] := by
  intro c none
  cases none

theorem closes_cons {c : Char} (rest : List Char)
    (other : c.isDigit = false ∧ c ≠ '.' ∧ c ≠ 'e' ∧ c ≠ 'E') : Closes (c :: rest) := by
  intro d same
  cases same
  exact other

section Parts

variable {digits rest : List Char}

theorem digitRun_append (all : ∀ c ∈ digits, c.isDigit = true) (stops : ∀ c ∈ rest.head?, c.isDigit = false) :
    digitRun (digits ++ rest) = (digits, rest) := by
  have none : rest.takeWhile Char.isDigit = [] ∧ rest.dropWhile Char.isDigit = rest := by
    cases rest with
    | nil => exact ⟨rfl, rfl⟩
    | cons c rest =>
      have other := stops c rfl
      exact ⟨List.takeWhile_cons_of_neg (by simp [other]), List.dropWhile_cons_of_neg (by simp [other])⟩
  rw [digitRun, List.takeWhile_append_of_pos all, List.dropWhile_append_of_pos all, none.1, none.2,
    List.append_nil]

theorem fraction?_of_closes (closes : Closes rest) : fraction? rest = some ([], rest) := by
  cases rest with
  | nil => rfl
  | cons c rest =>
    obtain ⟨-, point, -⟩ := closes c rfl
    unfold fraction?
    split
    · rename_i same
      cases same
      exact absurd rfl point
    · rfl

theorem fraction?_point (nonempty : digits ≠ []) (all : ∀ c ∈ digits, c.isDigit = true)
    (stops : ∀ c ∈ rest.head?, c.isDigit = false) :
    fraction? ('.' :: (digits ++ rest)) = some (digits, rest) := by
  rw [fraction?, digitRun_append all stops]
  exact if_neg (by simpa using nonempty)

theorem exponent?_of_closes (closes : Closes rest) : exponent? rest = some (none, rest) := by
  cases rest with
  | nil => rfl
  | cons c rest =>
    obtain ⟨-, -, small, capital⟩ := closes c rfl
    exact if_neg (not_or.mpr ⟨small, capital⟩)

theorem exponent?_signed (exponent : Int) (closes : Closes rest) :
    exponent? ('e' :: (if exponent < 0 then '-' else '+') :: (Nat.toDigits 10 exponent.natAbs ++ rest)) =
      some (some exponent, rest) := by
  have all : ∀ c ∈ Nat.toDigits 10 exponent.natAbs, c.isDigit = true := Text.isDigit_of_mem_toDigits
  have run := digitRun_append all fun c first => (closes c first).1
  have spelled := Text.decimalValue?_of_digits all
  rw [Nat.ofDigitChars_ten_toDigits] at spelled
  by_cases below : exponent < 0
  · simp [exponent?, below, run, spelled, abs_of_neg below]
  · simp [exponent?, below, run, spelled, Int.not_lt.mp below]

/-- **What a numeral is read as.** It is an integer without point and exponent, unless it is a negative zero,
and a decimal otherwise. -/
theorem number?_of_parts (negative : Bool) {whole fraction behind after : List Char} {exponent : Option Int}
    (nonempty : whole ≠ []) (front : whole.head? = some '0' → whole.length = 1)
    (all : ∀ c ∈ whole ++ fraction, c.isDigit = true) (stops : ∀ c ∈ behind.head?, c.isDigit = false)
    (point : fraction? behind = some (fraction, after)) (power : exponent? after = some (exponent, rest)) :
    let value := Nat.ofDigitChars 10 (whole ++ fraction) 0
    number? ((if negative then ['-'] else []) ++ (whole ++ behind)) =
      if fraction.isEmpty ∧ exponent.isNone ∧ ¬ (negative ∧ value = 0) then
        some (.integer (if negative then -(value : Int) else value), rest)
      else some (.number (nearestDecimal negative value (exponent.getD 0 - fraction.length)), rest) := by
  intro value
  have run := digitRun_append (fun c inside => all c (List.mem_append_left _ inside)) stops
  have spelled := Text.decimalValue?_of_digits all
  have front : ¬ (whole.isEmpty ∨ (whole.head? = some '0' ∧ whole.length ≠ 1)) := by
    rintro (none | ⟨zero, long⟩)
    · exact nonempty (List.isEmpty_iff.mp none)
    · exact long (front zero)
  cases negative with
  | true =>
    show number? ('-' :: (whole ++ behind)) = _
    unfold number?
    simp only [run, if_neg front, point, power, spelled, Option.bind_eq_bind, Option.bind_some]
    split <;> rfl
  | false =>
    obtain ⟨first, more, rfl⟩ := List.exists_cons_of_ne_nil nonempty
    have digit := all first List.mem_cons_self
    show number? (first :: (more ++ behind)) = _
    rw [List.cons_append] at run
    unfold number?
    split
    rename_i found unsigned same
    split at same
    · rename_i minus
      cases minus
      cases digit
    · cases same
      simp only [run, if_neg front, point, power, spelled, Option.bind_eq_bind, Option.bind_some]
      split <;> rfl

/-! ## Integers -/

theorem front_toDigits (n : Nat) :
    (Nat.toDigits 10 n).head? = some '0' → (Nat.toDigits 10 n).length = 1 := by
  intro zero
  rcases Nat.eq_zero_or_pos n with rfl | pos
  · rfl
  · exact absurd zero (Text.head?_toDigits pos)

/-- An integer is read back up to where its digits end. -/
theorem number?_integerText (value : Int) (closes : Closes rest) :
    number? (integerText value ++ rest) = some (.integer value, rest) := by
  have read := number?_of_parts (decide (value < 0)) Nat.toDigits_ne_nil (front_toDigits value.natAbs)
    (by rw [List.append_nil]; exact Text.isDigit_of_mem_toDigits) (fun c first => (closes c first).1)
    (fraction?_of_closes closes) (exponent?_of_closes closes)
  have back : (if value < 0 then -(value.natAbs : Int) else value.natAbs) = value := by
    split <;> omega
  have whole : ¬ (value < 0 ∧ value.natAbs = 0) := by omega
  simp only [List.append_nil, Nat.ofDigitChars_ten_toDigits, decide_eq_true_iff, back, whole, List.isEmpty_nil,
    Option.isNone_none, not_false_eq_true, and_self, if_true] at read
  rw [integerText, List.append_assoc]
  exact read

/-! ## Other numbers -/

/-- A numeral with a point is read as a decimal. -/
theorem number?_pointed (negative : Bool) {whole fraction after : List Char} {exponent : Option Int}
    (nonempty : whole ≠ []) (front : whole.head? = some '0' → whole.length = 1) (some : fraction ≠ [])
    (all : ∀ c ∈ whole ++ fraction, c.isDigit = true) (stops : ∀ c ∈ after.head?, c.isDigit = false)
    (power : exponent? after = .some (exponent, rest)) :
    number? ((if negative then ['-'] else []) ++ (whole ++ '.' :: (fraction ++ after))) =
      .some (.number (nearestDecimal negative (Nat.ofDigitChars 10 (whole ++ fraction) 0)
        (exponent.getD 0 - fraction.length)), rest) := by
  have pointed : ∀ c ∈ ('.' :: (fraction ++ after)).head?, c.isDigit = false := by
    rintro c ⟨⟩
    rfl
  have point := fraction?_point some (fun c inside => all c (List.mem_append_right _ inside)) stops
  rw [number?_of_parts negative nonempty front all pointed point power, if_neg]
  rintro ⟨none, -⟩
  exact some (List.isEmpty_iff.mp none)

theorem isDigit_of_mem_zeros (n : Nat) : ∀ c ∈ List.replicate n '0', c.isDigit = true := by
  intro c inside
  rw [List.eq_of_mem_replicate inside]
  rfl

/-- The text is a numeral with a point and without an exponent, and of this value. -/
def IsPointed (text : List Char) (value : ℚ) : Prop :=
  ∃ whole fraction, text = whole ++ '.' :: fraction ∧ whole ≠ [] ∧
    (whole.head? = some '0' → whole.length = 1) ∧ fraction ≠ [] ∧ (∀ c ∈ whole ++ fraction, c.isDigit = true) ∧
    (Nat.ofDigitChars 10 (whole ++ fraction) 0 : ℚ) * 10 ^ (-fraction.length : Int) = value

section Layout

variable (all : ∀ c ∈ digits, c.isDigit = true) (nonempty : digits ≠ []) (front : digits.head? ≠ some '0')

include all

include front in
theorem isPointed_among {n : Nat} (pos : 0 < n) (inside : n < digits.length) :
    IsPointed (digits.take (digits.length - n) ++ ['.'] ++ digits.drop (digits.length - n))
      (Nat.ofDigitChars 10 digits 0 * 10 ^ (-n : Int)) := by
  refine ⟨digits.take (digits.length - n), digits.drop (digits.length - n), ?_, ?_, ?_, ?_, ?_, ?_⟩
  · rw [List.append_assoc]
    rfl
  · rw [← List.length_pos_iff, List.length_take]
    omega
  · rw [List.head?_take, if_neg (by omega)]
    exact fun zero => absurd zero front
  · rw [← List.length_pos_iff, List.length_drop]
    omega
  · rwa [List.take_append_drop]
  · rw [List.take_append_drop, List.length_drop, Nat.sub_sub_self inside.le]

include nonempty

theorem isPointed_front {n : Nat} (beyond : digits.length ≤ n) :
    IsPointed (['0', '.'] ++ List.replicate (n - digits.length) '0' ++ digits)
      (Nat.ofDigitChars 10 digits 0 * 10 ^ (-n : Int)) := by
  refine ⟨['0'], List.replicate (n - digits.length) '0' ++ digits, rfl, by decide, fun _ => rfl, ?_, ?_, ?_⟩
  · simp [nonempty]
  · intro c inside
    rcases List.mem_append.mp inside with first | inside
    · exact isDigit_of_mem_zeros 1 c first
    · exact (List.mem_append.mp inside).elim (isDigit_of_mem_zeros _ c) (all c)
  · have first (rest : List Char) : Nat.ofDigitChars 10 (['0'] ++ rest) 0 = Nat.ofDigitChars 10 rest 0 := rfl
    rw [first, Nat.ofDigitChars_append, Nat.ofDigitChars_replicate_zero, Nat.mul_zero, List.length_append,
      List.length_replicate, Nat.sub_add_cancel beyond]

include front

theorem isPointed_behind (n : Nat) :
    IsPointed (digits ++ List.replicate n '0' ++ ['.', '0']) (Nat.ofDigitChars 10 digits 0 * 10 ^ n) := by
  refine ⟨digits ++ List.replicate n '0', ['0'], rfl, by simp [nonempty], ?_, by decide, ?_, ?_⟩
  · rw [List.head?_append_of_ne_nil _ nonempty]
    exact fun zero => absurd zero front
  · intro c inside
    rcases List.mem_append.mp inside with inside | last
    · exact (List.mem_append.mp inside).elim (all c) (isDigit_of_mem_zeros n c)
    · exact isDigit_of_mem_zeros 1 c last
  · have last (value : Nat) : Nat.ofDigitChars 10 ['0'] value = 10 * value := rfl
    rw [Nat.ofDigitChars_append, Nat.ofDigitChars_append, Nat.ofDigitChars_replicate_zero, last,
      List.length_singleton, Nat.cast_one, zpow_neg_one]
    push_cast
    ring

/-- Laid out positionally, digits have a point behind, among or in front of them. -/
theorem isPointed_positionalText (places : Int) :
    IsPointed (NumberStyle.positionalText true digits places) (Nat.ofDigitChars 10 digits 0 * 10 ^ places) := by
  unfold NumberStyle.positionalText
  by_cases whole : 0 ≤ places
  · obtain ⟨n, rfl⟩ := Int.eq_ofNat_of_zero_le whole
    rw [if_pos whole, if_pos rfl, zpow_natCast]
    exact isPointed_behind all nonempty front n
  · obtain ⟨n, rfl⟩ : ∃ n : Nat, places = -n := ⟨(-places).toNat, by omega⟩
    rw [if_neg whole, neg_neg, Int.toNat_natCast]
    dsimp only
    split
    · rename_i inside
      exact isPointed_among all front (by omega) inside
    · rename_i beyond
      exact isPointed_front all nonempty (Nat.not_lt.mp beyond)

/-- One digit, the others behind the point and the exponent are read as they count by the exponent. -/
theorem number?_scientificText (negative : Bool) (leading : Int) (closes : Closes rest) :
    number? ((if negative then ['-'] else []) ++ (NumberStyle.scientificText digits leading ++ rest)) =
      some (.number (nearestDecimal negative (Nat.ofDigitChars 10 digits 0)
        (leading - (digits.length - 1 : Nat))), rest) := by
  obtain ⟨first, tail, rfl⟩ := List.exists_cons_of_ne_nil nonempty
  have power := exponent?_signed leading closes
  have lettered : ∀ c ∈ ('e' :: (if leading < 0 then '-' else '+') ::
      (Nat.toDigits 10 leading.natAbs ++ rest)).head?, c.isDigit = false := by
    rintro c ⟨⟩
    rfl
  cases tail with
  | nil =>
    have read := number?_of_parts negative nonempty (fun _ => rfl) (by rwa [List.append_nil]) lettered rfl power
    simpa [NumberStyle.scientificText] using read
  | cons second more =>
    have read := number?_pointed negative (List.cons_ne_nil first []) (fun _ => rfl) (List.cons_ne_nil second more)
      all lettered power
    simpa [NumberStyle.scientificText] using read

end Layout

theorem layout_cases (d : Decimal) :
    let digits := Nat.toDigits 10 d.digits
    NumberStyle.exchange.layout d = NumberStyle.positionalText true digits d.exponent ∨
      NumberStyle.exchange.layout d =
        NumberStyle.scientificText digits (d.exponent + (digits.length : Int) - 1) := by
  intro digits
  exact ite_eq_or_eq _ _ _

/-- **A decimal that is written is read as one of its value.** -/
theorem number?_layout (negative : Bool) {d : Decimal} (pos : 0 < d.digits) (closes : Closes rest) :
    ∃ (value : Nat) (exponent : Int),
      number? ((if negative then ['-'] else []) ++ (NumberStyle.exchange.layout d ++ rest)) =
        some (.number (nearestDecimal negative value exponent), rest) ∧
      (value : ℚ) * 10 ^ exponent = d.toRat := by
  have all : ∀ c ∈ Nat.toDigits 10 d.digits, c.isDigit = true := Text.isDigit_of_mem_toDigits
  have nonempty : Nat.toDigits 10 d.digits ≠ [] := Nat.toDigits_ne_nil
  have front := Text.head?_toDigits pos
  have spelled : Nat.ofDigitChars 10 (Nat.toDigits 10 d.digits) 0 = d.digits := Nat.ofDigitChars_ten_toDigits
  rw [Decimal.toRat_eq]
  rcases layout_cases d with positional | scientific
  · obtain ⟨whole, fraction, laid, some, single, behind, digits, value⟩ :=
      isPointed_positionalText all nonempty front d.exponent
    have read := number?_pointed negative some single behind digits (fun c first => (closes c first).1)
      (exponent?_of_closes closes)
    rw [positional, laid, List.append_assoc, List.cons_append]
    exact ⟨_, _, read, by rw [Option.getD_none, zero_sub, value, spelled]⟩
  · have some : 0 < (Nat.toDigits 10 d.digits).length := Nat.length_toDigits_pos
    rw [scientific]
    refine ⟨_, _, number?_scientificText all nonempty front negative _ closes, ?_⟩
    rw [spelled]
    congr 2
    omega

/-- **A number that is written is read back.** -/
theorem number?_render {x : Binary64} (finite : x.isFinite = true) (closes : Closes rest) :
    number? ((NumberStyle.exchange.render x).toList ++ rest) = some (.number x, rest) := by
  obtain ⟨m, e, datum, -⟩ := (Binary64.denotes_of_isFinite finite).datum
  unfold NumberStyle.render
  rw [datum]
  dsimp only
  rw [String.toList_ofList, List.append_assoc]
  by_cases zero : m = 0
  · subst zero
    have read := number?_pointed x.isNegative (List.cons_ne_nil '0' []) (fun _ => rfl) (List.cons_ne_nil '0' [])
      (isDigit_of_mem_zeros 2) (fun c first => (closes c first).1) (exponent?_of_closes closes)
    rw [if_pos rfl]
    refine read.trans (congrArg (fun y => some (Json.number y, rest)) ?_)
    exact (Binary64.eq_zero_of_datum datum).symm
  · have pos := Nat.pos_of_ne_zero zero
    obtain ⟨value, exponent, read, same⟩ := number?_layout x.isNegative
      (Decimal.digits_shortest_pos NumberStyle.exchange.tie pos e) closes
    have inside := Decimal.contains_shortest NumberStyle.exchange.tie pos e
    rw [← same] at inside
    rw [if_neg zero, read, nearestDecimal_of_contains datum pos inside]

end Parts

/-! ## Characters of a numeral -/

/-- The characters that numerals are written with. -/
def IsFigure (c : Char) : Prop :=
  c.isDigit = true ∨ c ∈ ['-', '+', '.', 'e']

theorem IsFigure.ne_newline {c : Char} (figure : IsFigure c) : c ≠ '\n' := by
  rintro rfl
  rcases figure with digit | mark
  · cases digit
  · exact absurd mark (by decide)

theorem isFigure_of_mem_toDigits (n : Nat) : ∀ c ∈ Nat.toDigits 10 n, IsFigure c :=
  fun c inside => .inl (Text.isDigit_of_mem_toDigits c inside)

theorem isFigure_of_mem_sign (negative : Prop) [Decidable negative] :
    ∀ c ∈ (if negative then ['-'] else []), IsFigure c := by
  split
  · exact List.forall_mem_singleton.mpr (.inr (by decide))
  · exact List.forall_mem_nil _

theorem isFigure_of_mem_integerText (value : Int) : ∀ c ∈ integerText value, IsFigure c :=
  List.forall_mem_append.mpr ⟨isFigure_of_mem_sign _, isFigure_of_mem_toDigits _⟩

theorem isFigure_of_mem_pointed {whole fraction : List Char} (all : ∀ c ∈ whole ++ fraction, c.isDigit = true) :
    ∀ c ∈ whole ++ '.' :: fraction, IsFigure c := by
  obtain ⟨front, behind⟩ := List.forall_mem_append.mp all
  refine List.forall_mem_append.mpr ⟨fun c inside => .inl (front c inside), ?_⟩
  exact List.forall_mem_cons.mpr ⟨.inr (by decide), fun c inside => .inl (behind c inside)⟩

theorem isFigure_of_mem_scientificText {digits : List Char} (all : ∀ c ∈ digits, c.isDigit = true)
    (leading : Int) : ∀ c ∈ NumberStyle.scientificText digits leading, IsFigure c := by
  have tail : ∀ c ∈ (if (digits.drop 1).isEmpty then [] else '.' :: digits.drop 1), IsFigure c := by
    split
    · exact List.forall_mem_nil _
    · exact List.forall_mem_cons.mpr
        ⟨.inr (by decide), fun c inside => .inl (all c (List.mem_of_mem_drop inside))⟩
  have sign : IsFigure (if leading < 0 then '-' else '+') := by
    split <;> exact .inr (by decide)
  simp only [NumberStyle.scientificText, List.forall_mem_append, List.forall_mem_singleton]
  exact ⟨⟨⟨⟨fun c inside => .inl (all c (List.mem_of_mem_take inside)), tail⟩, .inr (by decide)⟩, sign⟩,
    isFigure_of_mem_toDigits _⟩

theorem isFigure_of_mem_layout {d : Decimal} (pos : 0 < d.digits) :
    ∀ c ∈ NumberStyle.exchange.layout d, IsFigure c := by
  have all : ∀ c ∈ Nat.toDigits 10 d.digits, c.isDigit = true := Text.isDigit_of_mem_toDigits
  rcases layout_cases d with positional | scientific
  · obtain ⟨whole, fraction, laid, -, -, -, digits, -⟩ :=
      isPointed_positionalText all Nat.toDigits_ne_nil (Text.head?_toDigits pos) d.exponent
    rw [positional, laid]
    exact isFigure_of_mem_pointed digits
  · rw [scientific]
    exact isFigure_of_mem_scientificText all _

theorem isFigure_of_mem_render {x : Binary64} (finite : x.isFinite = true) :
    ∀ c ∈ (NumberStyle.exchange.render x).toList, IsFigure c := by
  obtain ⟨m, e, datum, -⟩ := (Binary64.denotes_of_isFinite finite).datum
  unfold NumberStyle.render
  rw [datum]
  dsimp only
  rw [String.toList_ofList]
  refine List.forall_mem_append.mpr ⟨isFigure_of_mem_sign _, ?_⟩
  split
  · exact isFigure_of_mem_pointed (isDigit_of_mem_zeros 2)
  · rename_i some
    exact isFigure_of_mem_layout (Decimal.digits_shortest_pos _ (Nat.pos_of_ne_zero some) e)

end Json

end Telemetry

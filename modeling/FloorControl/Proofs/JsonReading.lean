import FloorControl.JsonText

/-!
# Reading what was written

The compact text of every value is read back by the grammar as one and the same written form, and
that form has the value it was made of, as long as the value can be held: its numbers are in range,
no object names a member twice, and it is not nested too deep. What makes reading unambiguous is
that no value can go on where another one ends, so each reader is shown to stop in front of any
text that does not look like more of it.
-/

namespace FloorControl

namespace JsonText

def digitsOf (n : Nat) : List Nat := (Nat.toDigits 10 n).map digitValue

end JsonText

def NumberText.ofNumber : JsonNumber → NumberText
  | .whole (.ofNat n) => ⟨false, JsonText.digitsOf n, [], none⟩
  | .whole (.negSucc n) => ⟨true, JsonText.digitsOf (n + 1), [], none⟩
  | .decimal negative significand exponent =>
    ⟨negative, JsonText.digitsOf significand, [], some exponent⟩

/-- A character as it is written inside quotes: control characters without a letter of their own
are given by number. -/
def StringPiece.ofChar (c : Char) : StringPiece :=
  if c.toNat < 32 ∧ c ∉ ['\n', '\r', '\t', '\x08', '\x0c'] then .unit c.toNat else .char c

namespace JsonText

def piecesOf (s : String) : List StringPiece := s.toList.map .ofChar

mutual

def ofJson : Json → JsonText
  | .null => .null
  | .bool b => .bool b
  | .number n => .number (.ofNumber n)
  | .string s => .string (piecesOf s)
  | .array items => .array (ofItems items)
  | .object members => .object (ofMembers members)

def ofItems : List Json → List JsonText
  | [] => []
  | item :: rest => ofJson item :: ofItems rest

def ofMembers : List (String × Json) → List (List StringPiece × JsonText)
  | [] => []
  | (name, value) :: rest => (piecesOf name, ofJson value) :: ofMembers rest

end

theorem digitValue_digitChar {d : Nat} (h : d < 10) : digitValue d.digitChar = d := by
  simp only [digitValue, Nat.toNat_digitChar_of_lt_ten h]
  simp

theorem ofDigits_digitsOf (n : Nat) : ofDigits (digitsOf n) = n := by
  calc ofDigits (digitsOf n)
      = Nat.ofDigitChars 10 (Nat.toDigits 10 n) 0 := by
        simp [ofDigits, digitsOf, digitValue, Nat.ofDigitChars_eq_foldl, List.foldl_map,
          Nat.mul_comm]
    _ = n := by simp [Nat.ofDigitChars_ten_toDigits]

theorem isDigit_of_mem_toDigits {n : Nat} {c : Char} (h : c ∈ Nat.toDigits 10 n) :
    c.isDigit = true :=
  Nat.isDigit_of_mem_toDigits (by decide) (by decide) h

/-- A number begins with a digit, which is a zero for the number zero only. -/
theorem toDigits_eq_cons (n : Nat) :
    ∃ c rest, Nat.toDigits 10 n = c :: rest ∧ c.isDigit = true ∧ (c = '0' → n = 0) := by
  induction n using Nat.strongRecOn with
  | ind n ih =>
    rw [Nat.toDigits_eq_if (by decide)]
    split
    · next small =>
      refine ⟨n.digitChar, [], rfl, by simpa [Nat.isDigit_digitChar] using small, fun zero => ?_⟩
      simpa [zero, digitValue] using (digitValue_digitChar small).symm
    · next large =>
      obtain ⟨c, rest, written, digit, only_zero⟩ := ih (n / 10) (by omega)
      refine ⟨c, rest ++ [(n % 10).digitChar], by simp [written], digit, fun zero => ?_⟩
      have := only_zero zero
      omega

def NoDigit (cs : List Char) : Prop := ∀ c ∈ cs.head?, c.isDigit = false

theorem readDigits_append {ds cs : List Char} (digits : ∀ c ∈ ds, c.isDigit = true)
    (stop : NoDigit cs) : readDigits (ds ++ cs) = (ds.map digitValue, cs) := by
  have taken : cs.takeWhile Char.isDigit = [] := by
    cases cs with
    | nil => rfl
    | cons c rest => simp [stop c rfl]
  have dropped : cs.dropWhile Char.isDigit = cs := by
    cases cs with
    | nil => rfl
    | cons c rest => simp [stop c rfl]
  simp [readDigits, List.takeWhile_append_of_pos digits, List.dropWhile_append_of_pos digits,
    taken, dropped]

theorem readDigits1_toDigits (n : Nat) {cs : List Char} (stop : NoDigit cs) :
    readDigits1 (Nat.toDigits 10 n ++ cs) = some (digitsOf n, cs) := by
  have read := readDigits_append (fun c => isDigit_of_mem_toDigits (n := n) (c := c)) stop
  have some_digit : (Nat.toDigits 10 n).map digitValue ≠ [] := by simp [Nat.toDigits_ne_nil]
  simp only [readDigits1, read, digitsOf]
  split
  · simp_all
  · rfl

/-- What a number does not go on with. -/
def EndsNumber (cs : List Char) : Prop :=
  NoDigit cs ∧ ∀ c ∈ cs.head?, c ≠ '.' ∧ c ≠ 'e' ∧ c ≠ 'E'

theorem readWhole_toDigits (n : Nat) {cs : List Char} (stop : NoDigit cs) :
    readWhole (Nat.toDigits 10 n ++ cs) = some (digitsOf n, cs) := by
  have read := readDigits1_toDigits n stop
  obtain ⟨c, rest, written, -, only_zero⟩ := toDigits_eq_cons n
  by_cases zero : c = '0'
  · have : n = 0 := only_zero zero
    subst this
    rfl
  · simp only [written, List.cons_append] at read ⊢
    simpa [readWhole, zero] using read

theorem readFraction_eq_nil {cs : List Char} (stop : ∀ c ∈ cs.head?, c ≠ '.') :
    readFraction cs = some ([], cs) := by
  unfold readFraction
  split
  · simp at stop
  · rfl

theorem readSignedExponent_renderInt (e : Int) {cs : List Char} (stop : NoDigit cs) :
    readSignedExponent (Json.renderInt e ++ cs) = some (e, cs) := by
  cases e with
  | negSucc n =>
    simp [Json.renderInt, readSignedExponent, readDigits1_toDigits _ stop, ofDigits_digitsOf,
      Int.negSucc_eq]
  | ofNat n =>
    have read := readDigits1_toDigits n stop
    obtain ⟨c, rest, written, digit, -⟩ := toDigits_eq_cons n
    have unsigned : c ≠ '-' ∧ c ≠ '+' := by
      constructor <;> rintro rfl <;> exact absurd digit (by decide)
    simp only [Json.renderInt, written, List.cons_append] at read ⊢
    simp [readSignedExponent, unsigned, read, ofDigits_digitsOf]

theorem readExponent_eq_none {cs : List Char} (stop : ∀ c ∈ cs.head?, c ≠ 'e' ∧ c ≠ 'E') :
    readExponent cs = some (none, cs) := by
  unfold readExponent
  split
  · simp at stop
  · simp at stop
  · rfl

theorem readUnsigned_toDigits (negative : Bool) (n : Nat) {cs : List Char} (stop : EndsNumber cs) :
    readUnsigned negative (Nat.toDigits 10 n ++ cs) =
      some (⟨negative, digitsOf n, [], none⟩, cs) := by
  simp [readUnsigned, readWhole_toDigits n stop.1, readFraction_eq_nil fun c hc => (stop.2 c hc).1,
    readExponent_eq_none fun c hc => (stop.2 c hc).2]

theorem readUnsigned_toDigits_exponent (negative : Bool) (n : Nat) (e : Int) {cs : List Char}
    (stop : EndsNumber cs) :
    readUnsigned negative (Nat.toDigits 10 n ++ 'e' :: (Json.renderInt e ++ cs)) =
      some (⟨negative, digitsOf n, [], some e⟩, cs) := by
  have letter : NoDigit ('e' :: (Json.renderInt e ++ cs)) := by simp [NoDigit]
  simp [readUnsigned, readWhole_toDigits n letter, readFraction, readExponent,
    readSignedExponent_renderInt e stop.1]

theorem readNumber_toDigits (n : Nat) (cs : List Char) :
    readNumber (Nat.toDigits 10 n ++ cs) = readUnsigned false (Nat.toDigits 10 n ++ cs) := by
  obtain ⟨c, rest, written, digit, -⟩ := toDigits_eq_cons n
  have unsigned : c ≠ '-' := by rintro rfl; exact absurd digit (by decide)
  simp [written, readNumber, unsigned]

theorem readNumber_renderNumber (n : JsonNumber) {cs : List Char} (stop : EndsNumber cs) :
    readNumber (Json.renderNumber n ++ cs) = some (.ofNumber n, cs) := by
  cases n with
  | whole i =>
    cases i with
    | ofNat n =>
      simp [Json.renderNumber, Json.renderInt, NumberText.ofNumber, readNumber_toDigits,
        readUnsigned_toDigits false n stop]
    | negSucc n =>
      simp [Json.renderNumber, Json.renderInt, NumberText.ofNumber, readNumber,
        readUnsigned_toDigits true (n + 1) stop]
  | decimal negative significand exponent =>
    have read := readUnsigned_toDigits_exponent negative significand exponent stop
    cases negative with
    | false => simpa [Json.renderNumber, NumberText.ofNumber, readNumber_toDigits] using read
    | true => simpa [Json.renderNumber, NumberText.ofNumber, readNumber] using read

/-- A control character is read back from the four digits of its number. -/
theorem hex4?_hexDigit {n : Nat} (h : n < 32) :
    hex4? '0' '0' (Json.hexDigit (n / 16)) (Json.hexDigit (n % 16)) = some n := by
  have each : ∀ k < 32,
      hex4? '0' '0' (Json.hexDigit (k / 16)) (Json.hexDigit (k % 16)) = some k := by
    decide
  exact each n h

theorem readString_escapeChar (c : Char) (cs : List Char) :
    readString (Json.escapeChar c ++ cs) = (do
      let (pieces, rest) ← readString cs
      return (.ofChar c :: pieces, rest)) := by
  unfold Json.escapeChar
  split
  case h_8 _ quote backslash newline carriage tab backspace feed =>
    split
    · next control =>
      have piece : StringPiece.ofChar c = .unit c.toNat := by simp_all [StringPiece.ofChar]
      simp [readString, hex4?_hexDigit control, piece]
    · next visible =>
      have piece : StringPiece.ofChar c = .char c := by simp [StringPiece.ofChar, visible]
      rw [List.singleton_append, readString.eq_def]
      split <;> grind
  all_goals simp [readString, escaped?, StringPiece.ofChar]

theorem readString_flatMap (s cs : List Char) :
    readString (s.flatMap Json.escapeChar ++ '"' :: cs) = some (s.map .ofChar, cs) := by
  induction s with
  | nil => simp [readString]
  | cons c rest ih => simp [readString_escapeChar, ih]

theorem readString_quote (s : String) (cs : List Char) :
    Json.quote s ++ cs = '"' :: (s.toList.flatMap Json.escapeChar ++ '"' :: cs) ∧
      readString (s.toList.flatMap Json.escapeChar ++ '"' :: cs) = some (piecesOf s, cs) :=
  ⟨by simp [Json.quote], readString_flatMap s.toList cs⟩

theorem readItems_last {α : Type} {item : Reader α} {close : Char} {most : Nat} {a : α}
    {cs rest : List Char} (read : item cs = some (a, close :: rest))
    (visible : isBlank close = false) :
    readItems item close (most + 1) cs = some ([a], rest) := by
  simp [readItems, read, skipBlanks, visible]

theorem readItems_next {α : Type} {item : Reader α} {close : Char} {most : Nat} {a : α}
    {cs rest : List Char} (read : item cs = some (a, ',' :: rest)) (other : ',' ≠ close) :
    readItems item close (most + 1) cs = (do
      let (more, rest) ← readItems item close most rest
      return (a :: more, rest)) := by
  simp [readItems, read, skipBlanks, isBlank, other]

theorem readMember_quote {value : Reader JsonText} {v : JsonText} {cs rest : List Char}
    (name : String) (read : value cs = some (v, rest)) :
    readMember value (Json.quote name ++ ':' :: cs) = some ((piecesOf name, v), rest) := by
  obtain ⟨written, quoted⟩ := readString_quote name (':' :: cs)
  simp [readMember, written, quoted, read, skipBlanks, isBlank]

/-- A number begins with a sign or a digit. -/
theorem renderNumber_eq_cons (n : JsonNumber) :
    ∃ c rest, Json.renderNumber n = c :: rest ∧ (c = '-' ∨ c.isDigit = true) := by
  have unsigned (n : Nat) (cs : List Char) :
      ∃ c rest, Nat.toDigits 10 n ++ cs = c :: rest ∧ (c = '-' ∨ c.isDigit = true) := by
    obtain ⟨c, rest, written, digit, -⟩ := toDigits_eq_cons n
    exact ⟨c, rest ++ cs, by simp [written], .inr digit⟩
  cases n with
  | whole i =>
    cases i with
    | ofNat n => simpa [Json.renderNumber, Json.renderInt] using unsigned n []
    | negSucc n => exact ⟨'-', _, rfl, .inl rfl⟩
  | decimal negative significand exponent =>
    cases negative with
    | false => exact unsigned significand _
    | true => exact ⟨'-', _, rfl, .inl rfl⟩

theorem isBlank_eq_false_of_isDigit {c : Char} (digit : c.isDigit = true) : isBlank c = false := by
  simp only [isBlank, Bool.or_eq_false_iff, decide_eq_false_iff_not]
  refine ⟨⟨⟨?_, ?_⟩, ?_⟩, ?_⟩ <;> rintro rfl <;> exact absurd digit (by decide)

theorem readValue_renderNumber (n : JsonNumber) (depth : Nat) {cs : List Char}
    (stop : EndsNumber cs) :
    readValue (depth + 1) (Json.renderNumber n ++ cs) = some (.number (.ofNumber n), cs) := by
  have read := readNumber_renderNumber n stop
  obtain ⟨c, rest, written, front⟩ := renderNumber_eq_cons n
  have visible : isBlank c = false := by
    rcases front with rfl | digit
    · rfl
    · exact isBlank_eq_false_of_isDigit digit
  have plain : c ≠ 'n' ∧ c ≠ 't' ∧ c ≠ 'f' ∧ c ≠ '"' ∧ c ≠ '[' ∧ c ≠ '\x7b' := by
    refine ⟨?_, ?_, ?_, ?_, ?_, ?_⟩ <;> rintro rfl <;> exact absurd front (by decide)
  simp only [written, List.cons_append] at read ⊢
  simp [readValue, skipBlanks, visible, plain, read]

/-- A value begins with something that neither is a blank nor closes an array. -/
theorem render_eq_cons (j : Json) :
    ∃ c rest, j.render = c :: rest ∧ isBlank c = false ∧ c ≠ ']' := by
  cases j with
  | null => exact ⟨_, _, rfl, by decide⟩
  | bool b => cases b <;> exact ⟨_, _, rfl, by decide⟩
  | number n =>
    obtain ⟨c, rest, written, rfl | digit⟩ := renderNumber_eq_cons n
    · exact ⟨'-', rest, by simp [Json.render, written], by decide⟩
    · refine ⟨c, rest, by simp [Json.render, written], isBlank_eq_false_of_isDigit digit, ?_⟩
      rintro rfl
      exact absurd digit (by decide)
  | string s => exact ⟨_, _, rfl, by decide⟩
  | array items => cases items <;> exact ⟨_, _, rfl, by decide⟩
  | object members => cases members <;> exact ⟨_, _, rfl, by decide⟩

theorem readSequence_cons {α : Type} (item : Reader α) {close c : Char} (rest : List Char)
    (visible : isBlank c = false) (opened : c ≠ close) :
    readSequence item close (c :: rest) = readItems item close (rest.length + 1) (c :: rest) := by
  simp [readSequence, skipBlanks, visible, opened]

/-- What follows an item of an array or a member of an object does not go on with a number. -/
theorem endsNumber_renderItems (items : List Json) (cs : List Char) :
    EndsNumber (Json.renderItems items ++ cs) := by
  cases items <;> simp [Json.renderItems, EndsNumber, NoDigit]

theorem endsNumber_renderMembers (members : List (String × Json)) (cs : List Char) :
    EndsNumber (Json.renderMembers members ++ cs) := by
  cases members with
  | nil => simp [Json.renderMembers, EndsNumber, NoDigit]
  | cons m rest => simp [Json.renderMembers, EndsNumber, NoDigit]

mutual

theorem readValue_render (j : Json) {depth : Nat} {cs : List Char} (stop : EndsNumber cs)
    (deep : j.render.length ≤ depth) : readValue depth (j.render ++ cs) = some (ofJson j, cs) := by
  match depth, j with
  | 0, j =>
    obtain ⟨c, rest, written, -⟩ := render_eq_cons j
    simp [written] at deep
  | depth + 1, .null => simp [Json.render, readValue, skipBlanks, isBlank, ofJson]
  | depth + 1, .bool b =>
    cases b <;> simp [Json.render, readValue, skipBlanks, isBlank, ofJson]
  | depth + 1, .number n => exact readValue_renderNumber n depth stop
  | depth + 1, .string s =>
    obtain ⟨written, quoted⟩ := readString_quote s cs
    simp [Json.render, written, readValue, skipBlanks, isBlank, quoted, ofJson]
  | depth + 1, .array [] =>
    simp [Json.render, readValue, readSequence, skipBlanks, isBlank, ofJson, ofItems]
  | depth + 1, .array (item :: rest) =>
    simp only [Json.render, List.length_append, List.length_cons] at deep
    obtain ⟨c, front, written, visible, opened⟩ := render_eq_cons item
    have read {most : Nat} (many : (Json.renderItems rest).length ≤ most) :
        readItems (readValue depth) ']' most (item.render ++ (Json.renderItems rest ++ cs)) =
          some (ofJson item :: ofItems rest, cs) :=
      readItems_render item rest cs (by omega) many
    simp only [written, List.cons_append] at read
    simpa [Json.render, readValue, skipBlanks, isBlank, ofJson, ofItems, written,
      readSequence_cons _ _ visible opened] using read (by omega)
  | depth + 1, .object [] =>
    simp [Json.render, readValue, readSequence, skipBlanks, isBlank, ofJson, ofMembers]
  | depth + 1, .object ((name, value) :: rest) =>
    simp only [Json.render, List.length_append, List.length_cons] at deep
    have read {most : Nat} (many : (Json.renderMembers rest).length ≤ most) :
        readItems (readMember (readValue depth)) '\x7d' most
            (Json.quote name ++ ':' :: (value.render ++ (Json.renderMembers rest ++ cs))) =
          some ((piecesOf name, ofJson value) :: ofMembers rest, cs) :=
      readMembers_render name value rest cs (by omega) many
    simp only [Json.quote, List.cons_append, List.append_assoc, List.nil_append] at read
    simpa [Json.render, Json.quote, readValue, skipBlanks, isBlank, ofJson, ofMembers,
      readSequence_cons] using read (by omega)
termination_by sizeOf j

theorem readItems_render (item : Json) (rest : List Json) {depth most : Nat} (tail : List Char)
    (deep : item.render.length + (Json.renderItems rest).length ≤ depth)
    (many : (Json.renderItems rest).length ≤ most) :
    readItems (readValue depth) ']' most (item.render ++ (Json.renderItems rest ++ tail)) =
      some (ofJson item :: ofItems rest, tail) := by
  have read := readValue_render item (endsNumber_renderItems rest tail)
    (Nat.le_trans (Nat.le_add_right ..) deep)
  match most, rest with
  | 0, [] => simp [Json.renderItems] at many
  | 0, next :: more => simp [Json.renderItems] at many
  | most + 1, [] => exact readItems_last read (by decide)
  | most + 1, next :: more =>
    simp only [Json.renderItems, List.length_append, List.length_cons] at deep many
    have others : readItems (readValue depth) ']' most
        (next.render ++ (Json.renderItems more ++ tail)) =
          some (ofJson next :: ofItems more, tail) :=
      readItems_render next more tail (by omega) (by omega)
    simp only [Json.renderItems, List.cons_append, List.append_assoc] at read
    have comma : ',' ≠ ']' := by decide
    simp [Json.renderItems, readItems_next read comma, others, ofItems]
termination_by sizeOf item + sizeOf rest + 1

theorem readMembers_render (name : String) (value : Json) (rest : List (String × Json))
    {depth most : Nat} (tail : List Char)
    (deep : value.render.length + (Json.renderMembers rest).length ≤ depth)
    (many : (Json.renderMembers rest).length ≤ most) :
    readItems (readMember (readValue depth)) '\x7d' most
        (Json.quote name ++ ':' :: (value.render ++ (Json.renderMembers rest ++ tail))) =
      some ((piecesOf name, ofJson value) :: ofMembers rest, tail) := by
  have read := readMember_quote name <| readValue_render value
    (endsNumber_renderMembers rest tail) (Nat.le_trans (Nat.le_add_right ..) deep)
  match most, rest with
  | 0, [] => simp [Json.renderMembers] at many
  | 0, next :: more => simp [Json.renderMembers] at many
  | most + 1, [] => exact readItems_last read (by decide)
  | most + 1, (other, next) :: more =>
    simp only [Json.renderMembers, List.length_append, List.length_cons] at deep many
    have others : readItems (readMember (readValue depth)) '\x7d' most
        (Json.quote other ++ ':' :: (next.render ++ (Json.renderMembers more ++ tail))) =
          some ((piecesOf other, ofJson next) :: ofMembers more, tail) :=
      readMembers_render other next more tail (by omega) (by omega)
    simp only [Json.renderMembers, List.cons_append, List.append_assoc] at read
    have comma : ',' ≠ '\x7d' := by decide
    simp [Json.renderMembers, readItems_next read comma, others, ofMembers]
termination_by sizeOf value + sizeOf rest + 1

end

/-- The text of a value is read as its written form. -/
theorem parse?_text (j : Json) : parse? j.text = some (ofJson j) := by
  have ends : EndsNumber [] := by simp [EndsNumber, NoDigit]
  have read := readValue_render j ends (Nat.le_succ j.render.length)
  simp only [List.append_nil] at read
  simp [parse?, Json.text, read, skipBlanks]

end JsonText

def JsonNumber.InRange : JsonNumber → Prop
  | .whole i => -Int.ofNat (Nat.pow 2 63) ≤ i ∧ i < Int.ofNat UInt64.size
  | .decimal _ significand exponent =>
    DoubleRange.holdsDecimal (JsonText.digitsOf significand) [] exponent = true

/-- A value that reading gives back: nested at most so deep, with numbers in range, and no name
twice in an object. -/
inductive Json.Fits : (depth : Nat) → Json → Prop
  | null {depth} : Fits depth .null
  | bool {depth} (b : Bool) : Fits depth (.bool b)
  | number {depth} {n : JsonNumber} (inRange : n.InRange) : Fits depth (.number n)
  | string {depth} (s : String) : Fits depth (.string s)
  | array {depth} {items : List Json} (fit : ∀ item ∈ items, Fits depth item) :
      Fits (depth + 1) (.array items)
  | object {depth} {members : List (String × Json)} (distinct : (members.map Prod.fst).Nodup)
      (fit : ∀ m ∈ members, Fits depth m.2) : Fits (depth + 1) (.object members)

theorem NumberText.value?_ofNumber {n : JsonNumber} (inRange : n.InRange) :
    (NumberText.ofNumber n).value? = some n := by
  match n with
  | .whole (.ofNat n) =>
    have small : n < UInt64.size := Int.ofNat_lt.mp inRange.2
    simp [ofNumber, value?, JsonText.ofDigits_digitsOf, small]
  | .whole (.negSucc n) =>
    have small : n + 1 ≤ Nat.pow 2 63 := by
      have lower : -Int.ofNat (Nat.pow 2 63) ≤ Int.negSucc n := inRange.1
      simp only [Int.ofNat_eq_natCast, Nat.pow_eq] at lower ⊢
      omega
    simp [ofNumber, value?, JsonText.ofDigits_digitsOf, small, Int.negSucc_eq]
  | .decimal negative significand exponent =>
    have holds : DoubleRange.holdsDecimal (JsonText.digitsOf significand) [] exponent := inRange
    simp [ofNumber, value?, JsonText.ofDigits_digitsOf, holds]

namespace JsonText

/-- A control character given by number is no surrogate. -/
theorem joinPieces?_ofChar (c : Char) (rest : List StringPiece) :
    joinPieces? (.ofChar c :: rest) = (joinPieces? rest).map (c :: ·) := by
  unfold StringPiece.ofChar
  split
  · next control =>
    have low : ¬ 0xD800 ≤ c.toNat := by omega
    have high : ¬ 0xDC00 ≤ c.toNat := by omega
    have back : Char.ofNat c.toNat = c := Char.ofNat_toNat c
    rcases rest with _ | ⟨_ | unit, rest⟩
    · simp [joinPieces?, low, back]
    · simp [joinPieces?, low, back]
    · simp [joinPieces?, low, high, back]
  · rfl

theorem string?_piecesOf (s : String) : string? (piecesOf s) = some s := by
  have joined (cs : List Char) : joinPieces? (cs.map .ofChar) = some cs := by
    induction cs with
    | nil => rfl
    | cons c rest ih => simp [joinPieces?_ofChar, ih]
  simp [string?, piecesOf, joined]

theorem valueItems?_ofItems {items : List Json} {depth : Nat}
    (values : ∀ item ∈ items, value? (ofJson item) depth = some item) :
    valueItems? (ofItems items) depth = some items := by
  induction items with
  | nil => rfl
  | cons item rest ih =>
    simp_all [ofItems, valueItems?]

theorem valueMembers?_ofMembers {members : List (String × Json)} {depth : Nat}
    (values : ∀ m ∈ members, value? (ofJson m.2) depth = some m.2) :
    valueMembers? (ofMembers members) depth = some members := by
  induction members with
  | nil => rfl
  | cons m rest ih =>
    simp_all [ofMembers, valueMembers?, string?_piecesOf]

end JsonText

namespace Json

theorem setMember_of_not_mem {name : String} {members : List (String × Json)}
    (new : name ∉ members.map Prod.fst) (value : Json) :
    setMember name value members = members ++ [(name, value)] := by
  induction members with
  | nil => rfl
  | cons m rest ih =>
    simp only [List.map_cons, List.mem_cons, not_or] at new
    simp [setMember, Ne.symm new.1, ih new.2]

theorem foldl_setMember {members kept : List (String × Json)}
    (distinct : ((kept ++ members).map Prod.fst).Nodup) :
    members.foldl (fun kept m => setMember m.1 m.2 kept) kept = kept ++ members := by
  induction members generalizing kept with
  | nil => simp
  | cons m rest ih =>
    have new : m.1 ∉ kept.map Prod.fst := by
      intro mem
      simp only [List.map_append, List.map_cons] at distinct
      exact (List.nodup_append.mp distinct).2.2 _ mem _ (List.mem_cons_self ..) rfl
    rw [List.foldl_cons, setMember_of_not_mem new, ih (by simpa using distinct)]
    simp

end Json

namespace JsonText

/-- The written form of a value that fits has that value. -/
theorem value?_ofJson {depth : Nat} {j : Json} (fits : j.Fits depth) :
    value? (ofJson j) depth = some j := by
  induction fits with
  | null => rfl
  | bool b => rfl
  | number inRange => simp [ofJson, value?, NumberText.value?_ofNumber inRange]
  | string s => simp [ofJson, value?, string?_piecesOf]
  | array fit values => simp [ofJson, value?, valueItems?_ofItems values]
  | @object _ members distinct fit values =>
    have keeps : (([] ++ members).map Prod.fst).Nodup := distinct
    simp [ofJson, value?, valueMembers?_ofMembers values, Json.foldl_setMember keeps]

end JsonText

/-- A value that fits is what its text is parsed to. -/
theorem Json.parse?_text {j : Json} (fits : j.Fits JsonText.depthLimit) :
    Json.parse? j.text = some j := by
  simp [Json.parse?, parseKept?, JsonText.parse?_text, JsonText.kept?, JsonText.value?_ofJson fits]

end FloorControl

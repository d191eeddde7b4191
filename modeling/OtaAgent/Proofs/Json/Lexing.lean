import OtaAgent.Json.Printer
import OtaAgent.Json.Token

set_option autoImplicit false

namespace OtaAgent.Json

/-- The text `cs` is made of the tokens `ts`. -/
def Lexes (cs : List Char) (ts : List Token) : Prop :=
  ∀ fuel done, cs.length ≤ fuel → lexLoop? fuel done cs = some (done.reverse ++ ts)

section Lexes

variable {cs rest : List Char} {ts : List Token} {c : Char}

theorem lexes_nil : Lexes [] [] := by
  intro fuel done _
  simp [lexLoop?]

theorem Lexes.space (blank : isSpace c = true) (after : Lexes cs ts) : Lexes (c :: cs) ts := by
  intro fuel done enough
  obtain ⟨fuel, rfl⟩ : ∃ fewer, fuel = fewer + 1 := ⟨fuel - 1, by simp at enough; omega⟩
  rw [lexLoop?, if_pos blank]
  exact after fuel done (by simpa using enough)

theorem Lexes.spaces (n : Nat) (after : Lexes cs ts) : Lexes (List.replicate n ' ' ++ cs) ts := by
  induction n with
  | zero => simpa using after
  | succ n ih => exact ih.space rfl

theorem Lexes.token {token : Token} (dense : isSpace c = false)
    (lexed : lexToken? (c :: cs) = some (token, rest)) (shorter : rest.length ≤ cs.length)
    (after : Lexes rest ts) : Lexes (c :: cs) (token :: ts) := by
  intro fuel done enough
  obtain ⟨fuel, rfl⟩ : ∃ fewer, fuel = fewer + 1 := ⟨fuel - 1, by simp at enough; omega⟩
  rw [lexLoop?, dense, if_neg Bool.false_ne_true, lexed]
  simp only
  rw [after fuel (token :: done) (by simp at enough; omega)]
  simp

theorem Lexes.word (after : Lexes cs ts) :
    Lexes ('n' :: 'u' :: 'l' :: 'l' :: cs) (.null :: ts) ∧
      Lexes ('t' :: 'r' :: 'u' :: 'e' :: cs) (.bool true :: ts) ∧
      Lexes ('f' :: 'a' :: 'l' :: 's' :: 'e' :: cs) (.bool false :: ts) :=
  ⟨after.token rfl rfl (by simp; omega), after.token rfl rfl (by simp; omega),
    after.token rfl rfl (by simp; omega)⟩

theorem Lexes.newLine (indent : Nat) (after : Lexes cs ts) : Lexes (newLine indent ++ cs) ts :=
  (after.spaces (2 * indent)).space rfl

theorem Lexes.beginObject (after : Lexes cs ts) : Lexes ('\x7b' :: cs) (.beginObject :: ts) :=
  after.token rfl rfl (Nat.le_refl _)

theorem Lexes.endObject (after : Lexes cs ts) : Lexes ('\x7d' :: cs) (.endObject :: ts) :=
  after.token rfl rfl (Nat.le_refl _)

theorem Lexes.beginArray (after : Lexes cs ts) : Lexes ('[' :: cs) (.beginArray :: ts) :=
  after.token rfl rfl (Nat.le_refl _)

theorem Lexes.endArray (after : Lexes cs ts) : Lexes (']' :: cs) (.endArray :: ts) :=
  after.token rfl rfl (Nat.le_refl _)

theorem Lexes.colon (after : Lexes cs ts) : Lexes (':' :: cs) (.colon :: ts) :=
  after.token rfl rfl (Nat.le_refl _)

theorem Lexes.comma (after : Lexes cs ts) : Lexes (',' :: cs) (.comma :: ts) :=
  after.token rfl rfl (Nat.le_refl _)

end Lexes

section Strings

theorem digit?_hexDigit {n : Nat} (small : n < 16) : Text.digit? 16 (Text.hexDigit n) = some n := by
  revert n
  decide

theorem lexCodePoint?_control {n : Nat} (control : n < 32) (rest : List Char) :
    lexCodePoint? ('0' :: '0' :: Text.hexDigit (n / 16) :: Text.hexDigit (n % 16) :: rest) =
      some (some (Char.ofNat n), rest) := by
  have high : Text.digit? 16 (Text.hexDigit (n / 16)) = some (n / 16) := digit?_hexDigit (by omega)
  have low : Text.digit? 16 (Text.hexDigit (n % 16)) = some (n % 16) := digit?_hexDigit (by omega)
  have zero : Text.digit? 16 '0' = some 0 := rfl
  have value : Text.ofDigits 16 [0, 0, n / 16, n % 16] = n := by
    simp only [Text.ofDigits, List.foldl]
    omega
  simp only [lexCodePoint?, lexUnit?, List.mapM_cons, List.mapM_nil, high, low, zero,
    Option.bind_eq_bind, Option.bind_some, Option.pure_def, value]
  rw [if_neg (by omega), if_neg (by omega)]

theorem lexString?_plain (fuel : Nat) (text : Bool) (done : List Char) {c : Char}
    (rest : List Char) (notQuote : c ≠ '"') (notBackslash : c ≠ '\\') (printable : ¬ c.toNat < 32) :
    lexString? (fuel + 1) text done (c :: rest) = lexString? fuel text (c :: done) rest := by
  rw [lexString?, if_neg (by simpa [notBackslash] using printable)]
  all_goals simp [notQuote, notBackslash]

theorem lexString?_escapeChar (fuel : Nat) (text : Bool) (done : List Char) (c : Char)
    (rest : List Char) :
    lexString? (fuel + 1) text done (escapeChar c ++ rest) =
      lexString? fuel text (c :: done) rest := by
  by_cases simple : c ∈ ['"', '\\', '\n', '\r', '\t', '\x08', '\x0c']
  · simp only [List.mem_cons, List.not_mem_nil, or_false] at simple
    rcases simple with rfl | rfl | rfl | rfl | rfl | rfl | rfl <;> rfl
  · simp only [List.mem_cons, List.not_mem_nil, or_false, not_or] at simple
    obtain ⟨notQuote, notBackslash, notNewLine, notReturn, notTab, notBack, notFeed⟩ := simple
    simp only [escapeChar, notQuote, notBackslash, notNewLine, notReturn, notTab, notBack, notFeed,
      if_false]
    split
    · rename_i control
      simp only [List.cons_append, List.nil_append, lexString?, lexCodePoint?_control control,
        Char.ofNat_toNat]
    · rename_i printable
      exact lexString?_plain fuel text done rest notQuote notBackslash printable

theorem lexString?_flatMap (cs done rest : List Char) {fuel : Nat} (enough : cs.length < fuel) :
    lexString? fuel true done (cs.flatMap escapeChar ++ '"' :: rest) =
      some (some (String.ofList (done.reverse ++ cs)), rest) := by
  induction cs generalizing fuel done with
  | nil =>
    obtain ⟨fuel, rfl⟩ : ∃ fewer, fuel = fewer + 1 := ⟨fuel - 1, by simp at enough; omega⟩
    simp [lexString?]
  | cons c cs ih =>
    obtain ⟨fuel, rfl⟩ : ∃ fewer, fuel = fewer + 1 := ⟨fuel - 1, by omega⟩
    rw [List.flatMap_cons, List.append_assoc, lexString?_escapeChar,
      ih (c :: done) (by simpa using enough)]
    simp

theorem length_le_flatMap (cs : List Char) : cs.length ≤ (cs.flatMap escapeChar).length := by
  induction cs with
  | nil => exact Nat.le_refl 0
  | cons c cs ih =>
    have full : 0 < (escapeChar c).length := by
      unfold escapeChar
      repeat' split
      all_goals simp
    rw [List.flatMap_cons, List.length_append, List.length_cons]
    omega

theorem Lexes.quote {cs : List Char} {ts : List Token} (s : String) (after : Lexes cs ts) :
    Lexes (quote s ++ cs) (.string (some s) :: ts) := by
  have shape : Json.quote s ++ cs = '"' :: (s.toList.flatMap escapeChar ++ '"' :: cs) := by
    simp [Json.quote]
  rw [shape]
  refine after.token rfl ?_ ?_
  · have enough : s.toList.length < (s.toList.flatMap escapeChar ++ '"' :: cs).length + 1 := by
      have := length_le_flatMap s.toList
      simp only [List.length_append, List.length_cons]
      omega
    simp only [lexToken?, lexString?_flatMap s.toList [] cs enough, Option.map_some]
    simp
  · simp only [List.length_append, List.length_cons]
    omega

end Strings

section Numbers

def digitValues (cs : List Char) : List Nat := cs.map fun c => c.toNat - 48

/-- The digits that `n` is printed with, of which `places` stand after the point. -/
def printedDigits (n places : Nat) : List Char :=
  if places = 0 then Nat.toDigits 10 n else Text.padded (places + 1) n

def wholeDigits (n places : Nat) : List Char :=
  (printedDigits n places).take ((printedDigits n places).length - places)

def fractionDigits (n places : Nat) : List Char :=
  (printedDigits n places).drop ((printedDigits n places).length - places)

def numeral (mantissa : Int) (places : Nat) : Numeral where
  negative := decide (mantissa < 0)
  whole := digitValues (wholeDigits mantissa.natAbs places)
  fraction :=
    if places = 0 then none else some (digitValues (fractionDigits mantissa.natAbs places))
  exponent := none

/-- No number goes on with `cs`. -/
def Ended (cs : List Char) : Prop :=
  ∀ c, cs.head? = some c → isDigit c = false ∧ c ≠ '.' ∧ c ≠ 'e' ∧ c ≠ 'E'

variable {digits rest : List Char}

theorem isDigit_of_mem_toDigits {n : Nat} {c : Char} (inside : c ∈ Nat.toDigits 10 n) :
    isDigit c = true := by
  have digit := Nat.isDigit_of_mem_toDigits (by decide) (Nat.le_refl 10) inside
  simpa [isDigit, Char.isDigit, Char.le_def] using digit

theorem spanDigits_append (all : ∀ c ∈ digits, isDigit c = true)
    (ended : ∀ c, rest.head? = some c → isDigit c = false) :
    spanDigits (digits ++ rest) = (digitValues digits, rest) := by
  have stops : rest.takeWhile isDigit = [] ∧ rest.dropWhile isDigit = rest := by
    cases rest with
    | nil => exact ⟨rfl, rfl⟩
    | cons c cs => simp [ended c rfl]
  rw [spanDigits, List.takeWhile_append_of_pos all, List.dropWhile_append_of_pos all, stops.1,
    stops.2, List.append_nil, digitValues]

/-- The first digit of a number is no zero unless it is the only one. -/
theorem head?_toDigits {n : Nat} (zero : (Nat.toDigits 10 n).head? = some '0') :
    Nat.toDigits 10 n = ['0'] := by
  induction n using Nat.strongRecOn with
  | _ n ih =>
    by_cases small : n < 10
    · rw [Nat.toDigits_of_lt_base small] at zero ⊢
      simpa using zero
    · rw [Nat.toDigits_of_base_le (by decide) (by omega)] at zero
      obtain ⟨c, cs, shape⟩ :=
        List.exists_cons_of_ne_nil (Nat.toDigits_ne_nil (n := n / 10) (b := 10))
      rw [shape] at zero
      have value := congrArg (Nat.ofDigitChars 10 · 0) (ih (n / 10) (by omega) (by rwa [shape]))
      simp only [Nat.ofDigitChars_ten_toDigits] at value
      have tooSmall : n / 10 = 0 := value
      omega

theorem lexWhole (all : ∀ c ∈ digits, isDigit c = true) (full : digits ≠ [])
    (leading : digits.head? = some '0' → digits = ['0'])
    (ended : ∀ c, rest.head? = some c → isDigit c = false) (negative : Bool) :
    lexUnsigned? negative (digits ++ rest) = (do
      let (fraction, rest) ← lexFraction? rest
      let (exponent, rest) ← lexExponent? rest
      return ({ negative, whole := digitValues digits, fraction, exponent }, rest)) := by
  have spanned := spanDigits_append all ended
  obtain ⟨c, cs, rfl⟩ := List.exists_cons_of_ne_nil full
  by_cases zero : c = '0'
  · obtain ⟨-, rfl⟩ := List.cons.inj (leading (congrArg some zero))
    subst zero
    rfl
  · rw [lexUnsigned?, spanned]
    · rfl
    · simp [zero]

theorem lexFraction?_of_ended (ended : Ended rest) : lexFraction? rest = some (none, rest) := by
  cases rest with
  | nil => rfl
  | cons c cs =>
    have notPoint := (ended c rfl).2.1
    rw [lexFraction?]
    simpa using notPoint

theorem lexExponent?_of_ended (ended : Ended rest) : lexExponent? rest = some (none, rest) := by
  cases rest with
  | nil => rfl
  | cons c cs =>
    obtain ⟨-, -, notLower, notUpper⟩ := ended c rfl
    rw [lexExponent?]
    · simpa using notLower
    · simpa using notUpper

theorem isDigit_of_mem_printedDigits {n places : Nat} {c : Char}
    (inside : c ∈ printedDigits n places) : isDigit c = true := by
  unfold printedDigits at inside
  split at inside
  · exact isDigit_of_mem_toDigits inside
  · rcases List.mem_append.mp inside with zero | digit
    · rw [List.eq_of_mem_replicate zero]
      rfl
    · exact isDigit_of_mem_toDigits digit

theorem lt_length_printedDigits (n places : Nat) : places < (printedDigits n places).length := by
  unfold printedDigits Text.padded
  split
  · rename_i zero
    rw [zero]
    exact Nat.length_toDigits_pos
  · simp only [List.length_append, List.length_replicate]
    omega

theorem wholeDigits_ne_nil (n places : Nat) : wholeDigits n places ≠ [] := by
  have more := lt_length_printedDigits n places
  intro none_
  have length := congrArg List.length none_
  rw [wholeDigits, List.length_take, List.length_nil] at length
  omega

theorem head?_wholeDigits {n places : Nat} (zero : (wholeDigits n places).head? = some '0') :
    wholeDigits n places = ['0'] := by
  by_cases none_ : places = 0
  · subst none_
    have all : wholeDigits n 0 = Nat.toDigits 10 n := List.take_length
    rw [all] at zero ⊢
    exact head?_toDigits zero
  · have shape : printedDigits n places =
        List.replicate (places + 1 - (Nat.toDigits 10 n).length) '0' ++ Nat.toDigits 10 n :=
      if_neg none_
    by_cases long : places + 1 ≤ (Nat.toDigits 10 n).length
    · rw [Nat.sub_eq_zero_of_le long, List.replicate_zero, List.nil_append] at shape
      have head : (Nat.toDigits 10 n).head? = some '0' := by
        rwa [wholeDigits, shape, List.head?_take, if_neg (by omega)] at zero
      rw [head?_toDigits head, List.length_singleton] at long
      omega
    · obtain ⟨k, pad⟩ : ∃ k, places + 1 - (Nat.toDigits 10 n).length = k + 1 :=
        ⟨places - (Nat.toDigits 10 n).length, by omega⟩
      have one : (printedDigits n places).length - places = 1 := by
        rw [shape, List.length_append, List.length_replicate]
        omega
      rw [wholeDigits, one, shape, pad]
      rfl

theorem lexUnsigned?_printed (negative : Bool) (n places : Nat) (ended : Ended rest) :
    lexUnsigned? negative (wholeDigits n places ++
      ((if places = 0 then [] else '.' :: fractionDigits n places) ++ rest)) =
      some (⟨negative, digitValues (wholeDigits n places),
        if places = 0 then none else some (digitValues (fractionDigits n places)), none⟩,
        rest) := by
  have wholeAll (c : Char) (inside : c ∈ wholeDigits n places) :=
    isDigit_of_mem_printedDigits (List.mem_of_mem_take inside)
  have fractionAll (c : Char) (inside : c ∈ fractionDigits n places) :=
    isDigit_of_mem_printedDigits (List.mem_of_mem_drop inside)
  by_cases none_ : places = 0
  · simp only [none_, if_true, List.nil_append] at wholeAll ⊢
    rw [lexWhole wholeAll (wholeDigits_ne_nil n 0) head?_wholeDigits
      fun c there => (ended c there).1]
    simp only [lexFraction?_of_ended ended, Option.bind_eq_bind, Option.bind_some,
      lexExponent?_of_ended ended, Option.pure_def]
  · simp only [none_, if_false]
    rw [List.cons_append, lexWhole wholeAll (wholeDigits_ne_nil n places) head?_wholeDigits
      fun c there => by cases there; rfl]
    have spanned := spanDigits_append fractionAll fun c there => (ended c there).1
    have full : fractionDigits n places ≠ [] := by
      have more := lt_length_printedDigits n places
      intro nothing
      have length := congrArg List.length nothing
      rw [fractionDigits, List.length_drop, List.length_nil] at length
      omega
    obtain ⟨c, cs, shape⟩ := List.exists_cons_of_ne_nil full
    have lexed : lexFraction? ('.' :: (fractionDigits n places ++ rest)) =
        some (some (digitValues (fractionDigits n places)), rest) := by
      rw [lexFraction?, spanned, shape]
      rfl
    simp only [lexed, Option.bind_eq_bind, Option.bind_some, lexExponent?_of_ended ended,
      Option.pure_def]

theorem numberText_eq (mantissa : Int) (places : Nat) :
    numberText mantissa places = (if mantissa < 0 then ['-'] else []) ++
      (wholeDigits mantissa.natAbs places ++
        (if places = 0 then [] else '.' :: fractionDigits mantissa.natAbs places)) := by
  by_cases none_ : places = 0
  · subst none_
    simp [numberText, wholeDigits, printedDigits]
  · simp [numberText, wholeDigits, fractionDigits, printedDigits, none_]

theorem lexNumber?_numberText (mantissa : Int) (places : Nat) (ended : Ended rest) :
    lexNumber? (numberText mantissa places ++ rest) = some (numeral mantissa places, rest) := by
  have lexed := fun negative =>
    lexUnsigned?_printed negative mantissa.natAbs places ended
  rw [numberText_eq, List.append_assoc, List.append_assoc]
  by_cases negative : mantissa < 0
  · simp only [negative, if_true, List.singleton_append, lexNumber?, lexed, numeral, decide_true]
  · simp only [negative, if_false, List.nil_append]
    obtain ⟨c, cs, shape⟩ := List.exists_cons_of_ne_nil (wholeDigits_ne_nil mantissa.natAbs places)
    have digit : isDigit c = true := isDigit_of_mem_printedDigits
      (List.mem_of_mem_take (shape ▸ List.mem_cons_self : c ∈ wholeDigits mantissa.natAbs places))
    have lexed := lexed false
    rw [shape] at lexed ⊢
    rw [lexNumber?]
    · rw [lexed]
      simp [numeral, negative, shape]
    · intro _ same
      cases same
      cases digit

theorem exists_numberText (mantissa : Int) (places : Nat) :
    ∃ c cs, numberText mantissa places = c :: cs ∧ (c = '-' ∨ isDigit c = true) := by
  obtain ⟨c, cs, shape⟩ := List.exists_cons_of_ne_nil (wholeDigits_ne_nil mantissa.natAbs places)
  have digit : isDigit c = true := isDigit_of_mem_printedDigits
    (List.mem_of_mem_take (shape ▸ List.mem_cons_self : c ∈ wholeDigits mantissa.natAbs places))
  rw [numberText_eq, shape]
  by_cases negative : mantissa < 0
  · rw [if_pos negative]
    exact ⟨'-', _, rfl, .inl rfl⟩
  · rw [if_neg negative]
    exact ⟨c, _, rfl, .inr digit⟩

theorem lexToken?_number {c : Char} {cs : List Char} (start : c = '-' ∨ isDigit c = true) :
    lexToken? (c :: cs) = (lexNumber? (c :: cs)).map fun (n, rest) => (.number n, rest) := by
  rw [lexToken?]
  all_goals
    intro _ same
    cases same
    rcases start with same | digit
    · cases same
    · cases digit

theorem isSpace_of_isDigit {c : Char} (digit : isDigit c = true) : isSpace c = false := by
  by_cases blank : isSpace c = true
  · simp only [isSpace, Bool.or_eq_true, beq_iff_eq] at blank
    rcases blank with ((rfl | rfl) | rfl) | rfl <;> cases digit
  · simpa using blank

theorem Lexes.number {cs : List Char} {ts : List Token} (mantissa : Int) (places : Nat)
    (ended : Ended cs) (after : Lexes cs ts) :
    Lexes (numberText mantissa places ++ cs) (.number (numeral mantissa places) :: ts) := by
  have lexed := lexNumber?_numberText mantissa places ended
  obtain ⟨c, digits, shape, start⟩ := exists_numberText mantissa places
  rw [shape, List.cons_append] at lexed ⊢
  refine after.token ?_ ?_ ?_
  · rcases start with rfl | digit
    · rfl
    · exact isSpace_of_isDigit digit
  · rw [lexToken?_number start, lexed]
    rfl
  · rw [List.length_append]
    omega

end Numbers

mutual

def tokens : Json → List Token
  | .null => [.null]
  | .bool b => [.bool b]
  | .number mantissa places => [.number (numeral mantissa places)]
  | .string s => [.string (some s)]
  | .array items => .beginArray :: (itemTokens items ++ [.endArray])
  | .object members => .beginObject :: (memberTokens members ++ [.endObject])

def itemTokens : List Json → List Token
  | [] => []
  | [v] => tokens v
  | v :: w :: items => tokens v ++ .comma :: itemTokens (w :: items)

def memberTokens : List (String × Json) → List Token
  | [] => []
  | [(key, v)] => .string (some key) :: .colon :: tokens v
  | (key, v) :: m :: members =>
    .string (some key) :: .colon :: (tokens v ++ .comma :: memberTokens (m :: members))

end

theorem ended_newLine (indent : Nat) (cs : List Char) : Ended (newLine indent ++ cs) := by
  intro c same
  cases same
  decide

theorem ended_cons {c : Char} (cs : List Char)
    (stops : isDigit c = false ∧ c ≠ '.' ∧ c ≠ 'e' ∧ c ≠ 'E') : Ended (c :: cs) := by
  intro _ same
  cases same
  exact stops

mutual

/-- What is printed over several lines is read back token by token. -/
theorem lexes_prettyChars (indent : Nat) (v : Json) {cs : List Char} {ts : List Token}
    (ended : Ended cs) (after : Lexes cs ts) :
    Lexes (prettyChars indent v ++ cs) (tokens v ++ ts) := by
  match v with
  | .null => exact after.word.1
  | .bool true => exact after.word.2.1
  | .bool false => exact after.word.2.2
  | .number mantissa places => exact after.number mantissa places ended
  | .string s => exact after.quote s
  | .array [] => exact after.endArray.beginArray
  | .array (v :: items) =>
    have inner := lexes_prettyItems (indent + 1) (v :: items) (ended_newLine indent _)
      (after.endArray.newLine indent)
    simpa [prettyChars, tokens] using (inner.newLine (indent + 1)).beginArray
  | .object [] => exact after.endObject.beginObject
  | .object (m :: members) =>
    have inner := lexes_prettyMembers (indent + 1) (m :: members) (ended_newLine indent _)
      (after.endObject.newLine indent)
    simpa [prettyChars, tokens] using (inner.newLine (indent + 1)).beginObject

theorem lexes_prettyItems (indent : Nat) (items : List Json) {cs : List Char} {ts : List Token}
    (ended : Ended cs) (after : Lexes cs ts) :
    Lexes (prettyItems indent items ++ cs) (itemTokens items ++ ts) := by
  match items with
  | [] => exact after
  | [v] => exact lexes_prettyChars indent v ended after
  | v :: w :: items =>
    have rest := lexes_prettyItems indent (w :: items) ended after
    have first := lexes_prettyChars indent v (ended_cons _ (by decide)) (rest.newLine indent).comma
    simpa [prettyItems, itemTokens] using first

theorem lexes_prettyMembers (indent : Nat) (members : List (String × Json)) {cs : List Char}
    {ts : List Token} (ended : Ended cs) (after : Lexes cs ts) :
    Lexes (prettyMembers indent members ++ cs) (memberTokens members ++ ts) := by
  match members with
  | [] => exact after
  | [(key, v)] =>
    have value := lexes_prettyChars indent v ended after
    simpa [prettyMembers, memberTokens] using ((value.space (c := ' ') rfl).colon).quote key
  | (key, v) :: m :: members =>
    have rest := lexes_prettyMembers indent (m :: members) ended after
    have value := lexes_prettyChars indent v (ended_cons _ (by decide)) (rest.newLine indent).comma
    simpa [prettyMembers, memberTokens] using ((value.space (c := ' ') rfl).colon).quote key

end

mutual

/-- What is printed on one line is read back token by token. -/
theorem lexes_compactChars (v : Json) {cs : List Char} {ts : List Token} (ended : Ended cs)
    (after : Lexes cs ts) : Lexes (compactChars v ++ cs) (tokens v ++ ts) := by
  match v with
  | .null => exact after.word.1
  | .bool true => exact after.word.2.1
  | .bool false => exact after.word.2.2
  | .number mantissa places => exact after.number mantissa places ended
  | .string s => exact after.quote s
  | .array items =>
    have inner := lexes_compactItems items (ended_cons _ (by decide)) after.endArray
    simpa [compactChars, tokens] using inner.beginArray
  | .object members =>
    have inner := lexes_compactMembers members (ended_cons _ (by decide)) after.endObject
    simpa [compactChars, tokens] using inner.beginObject

theorem lexes_compactItems (items : List Json) {cs : List Char} {ts : List Token}
    (ended : Ended cs) (after : Lexes cs ts) :
    Lexes (compactItems items ++ cs) (itemTokens items ++ ts) := by
  match items with
  | [] => exact after
  | [v] => exact lexes_compactChars v ended after
  | v :: w :: items =>
    have rest := lexes_compactItems (w :: items) ended after
    have first := lexes_compactChars v (ended_cons _ (by decide)) rest.comma
    simpa [compactItems, itemTokens] using first

theorem lexes_compactMembers (members : List (String × Json)) {cs : List Char} {ts : List Token}
    (ended : Ended cs) (after : Lexes cs ts) :
    Lexes (compactMembers members ++ cs) (memberTokens members ++ ts) := by
  match members with
  | [] => exact after
  | [(key, v)] =>
    have value := lexes_compactChars v ended after
    simpa [compactMembers, memberTokens] using value.colon.quote key
  | (key, v) :: m :: members =>
    have rest := lexes_compactMembers (m :: members) ended after
    have value := lexes_compactChars v (ended_cons _ (by decide)) rest.comma
    simpa [compactMembers, memberTokens] using value.colon.quote key

end

theorem ended_nil : Ended [] := nofun

theorem lex?_of_lexes {cs : List Char} {ts : List Token} (lexes : Lexes cs ts) :
    lex? cs = some ts :=
  lexes cs.length [] (Nat.le_refl _)

theorem lex?_pretty (v : Json) : lex? v.pretty.toList = some (tokens v) := by
  have lexes := lexes_prettyChars 0 v ended_nil lexes_nil
  rw [List.append_nil, List.append_nil] at lexes
  rw [pretty, String.toList_ofList]
  exact lex?_of_lexes lexes

theorem lex?_compact (v : Json) : lex? v.compact.toList = some (tokens v) := by
  have lexes := lexes_compactChars v ended_nil lexes_nil
  rw [List.append_nil, List.append_nil] at lexes
  rw [compact, String.toList_ofList]
  exact lex?_of_lexes lexes

end OtaAgent.Json

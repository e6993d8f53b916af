/-
Compact JSON texts, whose numbers are natural numbers, and a parser that reads them back.
Nothing here names the repository.
-/
import Mathlib

namespace CheckPo

inductive JsonValue where
  | null
  | bool (value : Bool)
  | number (value : Nat)
  | string (text : String)
  | array (items : List JsonValue)
  | object (members : List (String × JsonValue))

namespace JsonValue

/-! Printing. -/

/-- Quotes, backslashes and control characters are escaped. -/
def escape (character : Char) : List Char :=
  if character = '"' then ['\\', '"']
  else if character = '\\' then ['\\', '\\']
  else if character.toNat = 8 then ['\\', 'b']
  else if character.toNat = 9 then ['\\', 't']
  else if character.toNat = 10 then ['\\', 'n']
  else if character.toNat = 12 then ['\\', 'f']
  else if character.toNat = 13 then ['\\', 'r']
  else if character.toNat < 32 then
    ['\\', 'u', '0', '0', Nat.digitChar (character.toNat / 16),
      Nat.digitChar (character.toNat % 16)]
  else [character]

def quoted (text : List Char) : List Char := '"' :: (text.flatMap escape ++ ['"'])

def decimal (value : Nat) : List Char :=
  if value = 0 then ['0'] else ((Nat.digits 10 value).map Nat.digitChar).reverse

mutual

def compact : JsonValue → List Char
  | null => ['n', 'u', 'l', 'l']
  | bool true => ['t', 'r', 'u', 'e']
  | bool false => ['f', 'a', 'l', 's', 'e']
  | number value => decimal value
  | string text => quoted text.toList
  | array [] => ['[', ']']
  | array (item :: items) => '[' :: (compact item ++ compactItems items)
  | object [] => ['{', '}']
  | object ((name, value) :: members) =>
      '{' :: (quoted name.toList ++ ':' :: (compact value ++ compactMembers members))

def compactItems : List JsonValue → List Char
  | [] => [']']
  | item :: items => ',' :: (compact item ++ compactItems items)

def compactMembers : List (String × JsonValue) → List Char
  | [] => ['}']
  | (name, value) :: members =>
      ',' :: (quoted name.toList ++ ':' :: (compact value ++ compactMembers members))

end

/-! Parsing. -/

/-- The digit of a hexadecimal escape. -/
def hexDigit (character : Char) : Option Nat :=
  if '0' ≤ character ∧ character ≤ '9' then some (character.toNat - 48)
  else if 'a' ≤ character ∧ character ≤ 'f' then some (character.toNat - 87)
  else none

/-- One character of a string, escaped or not; `none` at the closing quote. -/
def parseCharacter : List Char → Option (Char × List Char)
  | '\\' :: '"' :: rest => some ('"', rest)
  | '\\' :: '\\' :: rest => some ('\\', rest)
  | '\\' :: '/' :: rest => some ('/', rest)
  | '\\' :: 'b' :: rest => some (Char.ofNat 8, rest)
  | '\\' :: 't' :: rest => some (Char.ofNat 9, rest)
  | '\\' :: 'n' :: rest => some (Char.ofNat 10, rest)
  | '\\' :: 'f' :: rest => some (Char.ofNat 12, rest)
  | '\\' :: 'r' :: rest => some (Char.ofNat 13, rest)
  | '\\' :: 'u' :: first :: second :: third :: fourth :: rest => do
      let first ← hexDigit first
      let second ← hexDigit second
      let third ← hexDigit third
      let fourth ← hexDigit fourth
      return (Char.ofNat (((first * 16 + second) * 16 + third) * 16 + fourth), rest)
  | '\\' :: _ => none
  | '"' :: _ => none
  | character :: rest => some (character, rest)
  | [] => none

/-- The characters up to the closing quote; a text is longer than any of its strings. -/
def parseQuoted : Nat → List Char → Option (List Char × List Char)
  | 0, _ => none
  | fuel + 1, chars =>
      if chars.head? = some '"' then some ([], chars.tail)
      else do
        let (character, rest) ← parseCharacter chars
        let (text, rest) ← parseQuoted fuel rest
        return (character :: text, rest)

def parseDecimal (chars : List Char) : Option (Nat × List Char) :=
  let digits := chars.takeWhile Char.isDigit
  if digits = [] then none
  else some (Nat.ofDigits 10 (digits.reverse.map fun digit => digit.toNat - 48),
    chars.dropWhile Char.isDigit)

mutual

def parseValue : Nat → List Char → Option (JsonValue × List Char)
  | 0, _ => none
  | fuel + 1, chars => match chars with
      | 'n' :: 'u' :: 'l' :: 'l' :: rest => some (null, rest)
      | 't' :: 'r' :: 'u' :: 'e' :: rest => some (bool true, rest)
      | 'f' :: 'a' :: 'l' :: 's' :: 'e' :: rest => some (bool false, rest)
      | '"' :: rest => do
          let (text, rest) ← parseQuoted rest.length rest
          return (string (String.ofList text), rest)
      | '[' :: rest =>
          if rest.head? = some ']' then some (array [], rest.tail)
          else do
            let (item, rest) ← parseValue fuel rest
            let (items, rest) ← parseItems fuel rest
            return (array (item :: items), rest)
      | '{' :: rest =>
          if rest.head? = some '}' then some (object [], rest.tail)
          else do
            let (member, rest) ← parseMember fuel rest
            let (members, rest) ← parseMembers fuel rest
            return (object (member :: members), rest)
      | chars => do
          let (value, rest) ← parseDecimal chars
          return (number value, rest)

def parseItems : Nat → List Char → Option (List JsonValue × List Char)
  | 0, _ => none
  | fuel + 1, chars => match chars with
      | ']' :: rest => some ([], rest)
      | ',' :: rest => do
          let (item, rest) ← parseValue fuel rest
          let (items, rest) ← parseItems fuel rest
          return (item :: items, rest)
      | _ => none

def parseMember : Nat → List Char → Option ((String × JsonValue) × List Char)
  | 0, _ => none
  | fuel + 1, chars => match chars with
      | '"' :: rest => do
          let (name, rest) ← parseQuoted rest.length rest
          match rest with
          | ':' :: rest => do
              let (value, rest) ← parseValue fuel rest
              return ((String.ofList name, value), rest)
          | _ => none
      | _ => none

def parseMembers : Nat → List Char → Option (List (String × JsonValue) × List Char)
  | 0, _ => none
  | fuel + 1, chars => match chars with
      | '}' :: rest => some ([], rest)
      | ',' :: rest => do
          let (member, rest) ← parseMember fuel rest
          let (members, rest) ← parseMembers fuel rest
          return (member :: members, rest)
      | _ => none

end

/-- The value that a whole text denotes. -/
def parse (text : List Char) : Option JsonValue :=
  match parseValue text.length text with
  | some (value, []) => some value
  | _ => none

/-! Strings. -/

theorem hexDigit_digitChar {value : Nat} (h : value < 16) :
    hexDigit (Nat.digitChar value) = some value := by
  revert value
  decide

theorem ofNat_mul_add (character : Char) :
    Char.ofNat (character.toNat / 16 * 16 + character.toNat % 16) = character := by
  rw [Nat.div_add_mod', Char.ofNat_toNat]

theorem parseCharacter_escape (character : Char) (rest : List Char) :
    parseCharacter (escape character ++ rest) = some (character, rest) := by
  rw [escape]
  split
  · next h => rw [h]; rfl
  split
  · next h => rw [h]; rfl
  split
  · next h => rw [← Char.ofNat_toNat character, h]; rfl
  split
  · next h => rw [← Char.ofNat_toNat character, h]; rfl
  split
  · next h => rw [← Char.ofNat_toNat character, h]; rfl
  split
  · next h => rw [← Char.ofNat_toNat character, h]; rfl
  split
  · next h => rw [← Char.ofNat_toNat character, h]; rfl
  split
  · next h =>
      have hhigh := hexDigit_digitChar (show character.toNat / 16 < 16 by omega)
      have hlow := hexDigit_digitChar (Nat.mod_lt character.toNat (show 0 < 16 by decide))
      have hzero : hexDigit '0' = some 0 := rfl
      simp only [List.cons_append, List.nil_append, parseCharacter, hzero, hhigh, hlow,
        Option.bind_eq_bind, Option.bind_some, Option.pure_def, Nat.zero_mul, Nat.zero_add,
        ofNat_mul_add]
  · next hquote hbackslash _ _ _ _ _ _ =>
      rw [List.singleton_append, parseCharacter.eq_def]
      split <;> simp_all

theorem escape_head (character : Char) :
    ∃ head tail, escape character = head :: tail ∧ head ≠ '"' := by
  rw [escape]
  split_ifs with hquote
  case neg => exact ⟨character, [], rfl, hquote⟩
  all_goals exact ⟨'\\', _, rfl, by decide⟩

theorem parseQuoted_flatMap (text rest : List Char) {fuel : Nat} (h : text.length < fuel) :
    parseQuoted fuel (text.flatMap escape ++ '"' :: rest) = some (text, rest) := by
  induction text generalizing fuel with
  | nil =>
      rcases fuel with _ | fuel
      · exact absurd h (Nat.not_lt_zero _)
      · rfl
  | cons character text ih =>
      rcases fuel with _ | fuel
      · exact absurd h (Nat.not_lt_zero _)
      rcases escape_head character with ⟨head, tail, hescape, hhead⟩
      have hcharacter := parseCharacter_escape character (text.flatMap escape ++ '"' :: rest)
      have hne : (escape character ++ (text.flatMap escape ++ '"' :: rest)).head? ≠ some '"' := by
        rw [hescape, List.cons_append, List.head?_cons, Ne, Option.some.injEq]
        exact hhead
      rw [List.flatMap_cons, List.append_assoc, parseQuoted, if_neg hne, hcharacter]
      simp only [Option.bind_eq_bind, Option.bind_some, ih (Nat.lt_of_succ_lt_succ h),
        Option.pure_def]

theorem length_le_flatMap_escape (text : List Char) :
    text.length ≤ (text.flatMap escape).length := by
  induction text with
  | nil => exact le_refl _
  | cons character text ih =>
      rcases escape_head character with ⟨head, tail, hescape, -⟩
      rw [List.flatMap_cons, hescape, List.length_append, List.length_cons, List.length_cons]
      omega

theorem parseQuoted_quoted (text rest : List Char) :
    parseQuoted (text.flatMap escape ++ '"' :: rest).length
      (text.flatMap escape ++ '"' :: rest) = some (text, rest) := by
  apply parseQuoted_flatMap
  have hle := length_le_flatMap_escape text
  rw [List.length_append, List.length_cons]
  omega

/-! Numbers. -/

/-- The text after a number does not go on with a digit. -/
def StopsNumber (rest : List Char) : Prop := rest.takeWhile Char.isDigit = []

theorem isDigit_digitChar {value : Nat} (h : value < 10) :
    (Nat.digitChar value).isDigit = true ∧ (Nat.digitChar value).toNat - 48 = value := by
  revert value
  decide

theorem isDigit_of_mem_decimal {value : Nat} {digit : Char} (h : digit ∈ decimal value) :
    digit.isDigit = true := by
  rw [decimal] at h
  split at h
  · rw [List.mem_singleton.mp h]
    rfl
  · rw [List.mem_reverse, List.mem_map] at h
    rcases h with ⟨number, hnumber, rfl⟩
    exact (isDigit_digitChar (Nat.digits_lt_base (by decide) hnumber)).1

theorem decimal_ne_nil (value : Nat) : decimal value ≠ [] := by
  rw [decimal]
  split
  · exact List.cons_ne_nil _ _
  · next h => simpa [Nat.digits_eq_nil_iff_eq_zero] using h

theorem ofDigits_decimal (value : Nat) :
    Nat.ofDigits 10 ((decimal value).reverse.map fun digit => digit.toNat - 48) = value := by
  rw [decimal]
  split
  · next h => rw [h]; rfl
  · have hdigits : (Nat.digits 10 value).map ((fun digit : Char => digit.toNat - 48) ∘
        Nat.digitChar) = Nat.digits 10 value := by
      conv_rhs => rw [← List.map_id (Nat.digits 10 value)]
      apply List.map_congr_left
      intro number hnumber
      exact (isDigit_digitChar (Nat.digits_lt_base (by decide) hnumber)).2
    rw [List.reverse_reverse, List.map_map, hdigits, Nat.ofDigits_digits]

theorem parseDecimal_decimal (value : Nat) {rest : List Char} (h : StopsNumber rest) :
    parseDecimal (decimal value ++ rest) = some (value, rest) := by
  have hdrop : rest.dropWhile Char.isDigit = rest := by
    have hsplit := List.takeWhile_append_dropWhile (p := Char.isDigit) (l := rest)
    rwa [h, List.nil_append] at hsplit
  rw [parseDecimal, List.takeWhile_append_of_pos fun _ hdigit => isDigit_of_mem_decimal hdigit,
    List.dropWhile_append_of_pos fun _ hdigit => isDigit_of_mem_decimal hdigit, h, hdrop,
    List.append_nil, if_neg (decimal_ne_nil value), ofDigits_decimal]

/-! Values. -/

theorem stopsNumber_cons {head : Char} (tail : List Char) (h : head.isDigit = false) :
    StopsNumber (head :: tail) :=
  List.takeWhile_cons_of_neg (by rw [h]; exact Bool.false_ne_true)

/-- No value begins like the end of a list. -/
theorem compact_head (value : JsonValue) :
    ∃ head tail, compact value = head :: tail ∧ head ≠ ']' := by
  cases value with
  | null => exact ⟨_, _, rfl, by decide⟩
  | bool value => cases value <;> exact ⟨_, _, rfl, by decide⟩
  | number value =>
      rcases hdecimal : decimal value with _ | ⟨head, tail⟩
      · exact absurd hdecimal (decimal_ne_nil value)
      · refine ⟨head, tail, hdecimal, ?_⟩
        rintro rfl
        have hdigit : ']' ∈ decimal value := hdecimal ▸ List.mem_cons_self
        exact absurd (isDigit_of_mem_decimal hdigit) (by decide)
  | string text => exact ⟨_, _, rfl, by decide⟩
  | array items => cases items <;> exact ⟨_, _, rfl, by decide⟩
  | object members => cases members <;> exact ⟨_, _, rfl, by decide⟩

theorem head_compact_ne (value : JsonValue) (rest : List Char) :
    (compact value ++ rest).head? ≠ some ']' := by
  rcases compact_head value with ⟨head, tail, hvalue, hne⟩
  rw [hvalue, List.cons_append, List.head?_cons, Ne, Option.some.injEq]
  exact hne

theorem stopsNumber_compactItems (items : List JsonValue) (rest : List Char) :
    StopsNumber (compactItems items ++ rest) := by
  cases items <;> exact stopsNumber_cons _ rfl

theorem stopsNumber_compactMembers (members : List (String × JsonValue)) (rest : List Char) :
    StopsNumber (compactMembers members ++ rest) := by
  rcases members with _ | ⟨⟨name, value⟩, members⟩ <;> exact stopsNumber_cons _ rfl

theorem parseValue_decimal (fuel value : Nat) {rest : List Char} (h : StopsNumber rest) :
    parseValue (fuel + 1) (decimal value ++ rest) = some (number value, rest) := by
  rcases hdecimal : decimal value with _ | ⟨head, tail⟩
  · exact absurd hdecimal (decimal_ne_nil value)
  · have hdigit : head.isDigit = true :=
      @isDigit_of_mem_decimal value head (hdecimal ▸ List.mem_cons_self)
    have hparse := parseDecimal_decimal value h
    rw [hdecimal, List.cons_append] at hparse
    rw [List.cons_append, parseValue, hparse]
    · rfl
    -- no other value begins with a digit
    all_goals
      intro other heq
      rw [(List.cons.inj heq).1] at hdigit
      exact absurd hdigit (by decide)

/-- What each parser reads back, of texts no longer than its fuel. -/
structure ReadsBack (fuel : Nat) : Prop where
  value : ∀ value rest, (compact value).length ≤ fuel → StopsNumber rest →
    parseValue fuel (compact value ++ rest) = some (value, rest)
  items : ∀ items rest, (compactItems items).length ≤ fuel →
    parseItems fuel (compactItems items ++ rest) = some (items, rest)
  member : ∀ name value rest,
    (quoted name.toList ++ ':' :: compact value).length ≤ fuel → StopsNumber rest →
    parseMember fuel (quoted name.toList ++ ':' :: (compact value ++ rest)) =
      some ((name, value), rest)
  members : ∀ members rest, (compactMembers members).length ≤ fuel →
    parseMembers fuel (compactMembers members ++ rest) = some (members, rest)

theorem readsBack (fuel : Nat) : ReadsBack fuel := by
  induction fuel with
  | zero =>
      constructor
      · intro value rest h
        rcases compact_head value with ⟨head, tail, hvalue, -⟩
        rw [hvalue] at h
        exact absurd h (by simp)
      · intro items rest h
        cases items <;> exact absurd h (by simp [compactItems])
      · intro name value rest h
        exact absurd h (by simp [quoted])
      · intro members rest h
        rcases members with _ | ⟨⟨name, value⟩, members⟩ <;>
          exact absurd h (by simp [compactMembers])
  | succ fuel ih =>
      constructor
      · intro value rest h hstop
        cases value with
        | null => rfl
        | bool value => cases value <;> rfl
        | number value => exact parseValue_decimal fuel value hstop
        | string text =>
            simp only [compact, quoted, List.cons_append, List.append_assoc, List.nil_append,
              parseValue, parseQuoted_quoted, Option.bind_eq_bind, Option.bind_some,
              Option.pure_def, String.ofList_toList]
        | array items =>
            rcases items with _ | ⟨item, items⟩
            · rfl
            · simp only [compact, List.length_cons, List.length_append] at h
              have hitem := ih.value item (compactItems items ++ rest) (by omega)
                (stopsNumber_compactItems items rest)
              have hitems := ih.items items rest (by omega)
              rw [compact, List.cons_append, List.append_assoc, parseValue,
                if_neg (head_compact_ne item _), hitem]
              simp only [hitems, Option.bind_eq_bind, Option.bind_some, Option.pure_def]
        | object members =>
            rcases members with _ | ⟨⟨name, value⟩, members⟩
            · rfl
            · simp only [compact, List.length_cons, List.length_append] at h
              have hmember := ih.member name value (compactMembers members ++ rest)
                (by simp only [List.length_append, List.length_cons]; omega)
                (stopsNumber_compactMembers members rest)
              have hmembers := ih.members members rest (by omega)
              have hhead : (quoted name.toList ++ ':' :: (compact value ++
                  (compactMembers members ++ rest))).head? ≠ some '}' := by
                rw [quoted, List.cons_append, List.head?_cons]
                decide
              rw [compact, List.cons_append, List.append_assoc, List.cons_append,
                List.append_assoc, parseValue, if_neg hhead, hmember]
              simp only [hmembers, Option.bind_eq_bind, Option.bind_some, Option.pure_def]
      · intro items rest h
        rcases items with _ | ⟨item, items⟩
        · rfl
        · simp only [compactItems, List.length_cons, List.length_append] at h
          have hitem := ih.value item (compactItems items ++ rest) (by omega)
            (stopsNumber_compactItems items rest)
          have hitems := ih.items items rest (by omega)
          rw [compactItems, List.cons_append, List.append_assoc, parseItems, hitem]
          simp only [hitems, Option.bind_eq_bind, Option.bind_some, Option.pure_def]
      · intro name value rest h hstop
        simp only [quoted, List.length_cons, List.length_append] at h
        have hvalue := ih.value value rest (by omega) hstop
        simp only [quoted, List.cons_append, List.append_assoc, List.nil_append, parseMember,
          parseQuoted_quoted, hvalue, Option.bind_eq_bind, Option.bind_some, Option.pure_def,
          String.ofList_toList]
      · intro members rest h
        rcases members with _ | ⟨⟨name, value⟩, members⟩
        · rfl
        · simp only [compactMembers, List.length_cons, List.length_append] at h
          have hmember := ih.member name value (compactMembers members ++ rest)
            (by simp only [List.length_append, List.length_cons]; omega)
            (stopsNumber_compactMembers members rest)
          have hmembers := ih.members members rest (by omega)
          rw [compactMembers, List.cons_append, List.append_assoc, List.cons_append,
            List.append_assoc, parseMembers, hmember]
          simp only [hmembers, Option.bind_eq_bind, Option.bind_some, Option.pure_def]

/-- A compact text is read back. -/
theorem parse_compact (value : JsonValue) : parse (compact value) = some value := by
  have hread := (readsBack (compact value).length).value value [] (le_refl _) rfl
  rw [List.append_nil] at hread
  rw [parse, hread]

end JsonValue

end CheckPo

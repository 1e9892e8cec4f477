import BisimPlay.Json.Reader
import BisimPlay.Json.Writer
import Mathlib.Data.List.Basic

/-!
# Reading back what was written

A value whose strings all spell something and whose numbers are all natural is read back from
its text as it was, with whatever stands behind it in the text left over. A string, an array and
an object end with a character of their own and a word of JSON is taken by its length, so
nothing behind them matters. The reader of numbers is greedy, and so what stands behind a number
must not go on with it.

The bounds of the readers count characters, as the length of a text does: a value is read within
any bound above its own length, and so are its parts (`value?_characters`).
-/

namespace BisimPlay

namespace Json

theorem hexValue?_hexDigit {n : Nat} (h : n < 16) : hexValue? (hexDigit n) = some n := by
  have hall : ∀ n < 16, hexValue? (hexDigit n) = some n := by decide
  exact hall n h

theorem escape_cases (c : Char) :
    (∃ letter, escape c = ['\\', letter] ∧ letter ≠ 'u' ∧ simpleEscape? letter = some c) ∨
    (escape c = ['\\', 'u', '0', '0', hexDigit (c.toNat / 16), hexDigit (c.toNat % 16)] ∧
      c.toNat < 32) ∨
    (escape c = [c] ∧ c ≠ '"' ∧ c ≠ '\\' ∧ ¬ c.toNat < 32) := by
  have hcode {n : Nat} (h : c.toNat = n) : c = Char.ofNat n := by
    rw [← h, Char.ofNat_toNat]
  unfold escape
  split
  · next heq => exact .inl ⟨'"', rfl, by decide, by rw [heq]; rfl⟩
  split
  · next heq => exact .inl ⟨'\\', rfl, by decide, by rw [heq]; rfl⟩
  split
  · next heq => exact .inl ⟨'n', rfl, by decide, heq ▸ rfl⟩
  split
  · next heq => exact .inl ⟨'r', rfl, by decide, heq ▸ rfl⟩
  split
  · next heq => exact .inl ⟨'t', rfl, by decide, heq ▸ rfl⟩
  split
  · next heq => exact .inl ⟨'b', rfl, by decide, hcode heq ▸ rfl⟩
  split
  · next heq => exact .inl ⟨'f', rfl, by decide, hcode heq ▸ rfl⟩
  split
  · next hlt => exact .inr (.inl ⟨rfl, hlt⟩)
  · next hquote hslash _ _ _ _ _ hge => exact .inr (.inr ⟨rfl, hquote, hslash, hge⟩)

theorem exists_unit_of_escape (c : Char) :
    ∃ u : Unit16, (∀ units, spell (u :: units) = (spell units).map (c :: ·)) ∧
      ∀ n rest, units? (n + 1) (escape c ++ rest) =
        (units? n rest).map fun read => (u :: read.1, read.2) := by
  rcases escape_cases c with ⟨letter, hescape, hletter, hsimple⟩ | ⟨hescape, hlt⟩ |
    ⟨hescape, hquote, hslash, hge⟩
  · refine ⟨.char c, fun units => rfl, fun n rest => ?_⟩
    rw [hescape]
    cases h : units? n rest <;> simp [units?, hletter, hsimple, h]
  · refine ⟨.code c.toNat, fun units => ?_, fun n rest => ?_⟩
    · have hhigh : isHighHalf c.toNat = false := by simp [isHighHalf]; omega
      have hlow : isLowHalf c.toNat = false := by simp [isLowHalf]; omega
      rw [spell.eq_def]
      simp [hhigh, hlow, Char.ofNat_toNat]
    · have hupper := hexValue?_hexDigit (show c.toNat / 16 < 16 by omega)
      have hlower := hexValue?_hexDigit (show c.toNat % 16 < 16 by omega)
      have hzero : hexValue? '0' = some 0 := by decide
      have hcode : c.toNat / 16 * 16 + c.toNat % 16 = c.toNat := Nat.div_add_mod' _ _
      rw [hescape]
      cases h : units? n rest <;>
        simp [units?, hex4?, hzero, hupper, hlower, hcode, h]
  · refine ⟨.char c, fun units => rfl, fun n rest => ?_⟩
    rw [hescape]
    cases h : units? n rest <;> simp [units?, hquote, hslash, hge, h]

theorem exists_units_of_flatMap_escape (text rest : List Char) {n : Nat} (h : text.length < n) :
    ∃ units, spell units = some text ∧
      units? n (text.flatMap escape ++ '"' :: rest) = some (units, rest) := by
  induction text generalizing n with
  | nil =>
      cases n with
      | zero => exact absurd h (Nat.not_lt_zero _)
      | succ n => exact ⟨[], rfl, by simp [units?]⟩
  | cons c text ih =>
      cases n with
      | zero => exact absurd h (Nat.not_lt_zero _)
      | succ n =>
          obtain ⟨u, hspell, hread⟩ := exists_unit_of_escape c
          obtain ⟨units, hunits, hrest⟩ := ih (Nat.lt_of_succ_lt_succ h)
          refine ⟨u :: units, by rw [hspell, hunits]; rfl, ?_⟩
          rw [List.flatMap_cons, List.append_assoc, hread, hrest]
          rfl

theorem length_le_flatMap_escape (text : List Char) :
    text.length ≤ (text.flatMap escape).length := by
  induction text with
  | nil => exact Nat.le_refl _
  | cons c text ih =>
      have hpos : 1 ≤ (escape c).length := by
        rcases escape_cases c with ⟨letter, hescape, _⟩ | ⟨hescape, _⟩ | ⟨hescape, _⟩ <;>
          simp [hescape]
      rw [List.flatMap_cons, List.length_append, List.length_cons]
      omega

theorem string?_quote (text rest : List Char) :
    string? (text.flatMap escape ++ '"' :: rest) = some (some text, rest) := by
  have hle := length_le_flatMap_escape text
  have hbound : text.length < (text.flatMap escape ++ '"' :: rest).length + 1 := by
    rw [List.length_append]
    omega
  obtain ⟨units, hspell, hunits⟩ := exists_units_of_flatMap_escape text rest hbound
  rw [string?, hunits, Option.bind_eq_bind, Option.bind_some, ← hspell]
  rfl

def EndsNumber (rest : List Char) : Prop :=
  ∀ c ∈ rest.head?, c.isDigit = false ∧ c ≠ '.' ∧ c ≠ 'e' ∧ c ≠ 'E'

@[simp] theorem endsNumber_nil : EndsNumber [] := by simp [EndsNumber]

theorem endsNumber_cons {c : Char} {rest : List Char} :
    EndsNumber (c :: rest) ↔ c.isDigit = false ∧ c ≠ '.' ∧ c ≠ 'e' ∧ c ≠ 'E' := by
  simp [EndsNumber]

theorem head?_digits_ne_zero {n : Nat} (h : 0 < n) : (Decimal.digits n).head? ≠ some '0' := by
  induction n using Nat.strongRecOn with
  | ind n ih =>
      rw [Decimal.digits, Nat.toDigits_eq_if (by decide)]
      split
      · next hlt =>
          have hall : ∀ n < 10, 0 < n → Nat.digitChar n ≠ '0' := by decide
          simpa using hall n hlt h
      · next hge =>
          have hquotient := ih (n / 10) (Nat.div_lt_self h (by decide))
            (Nat.div_pos (Nat.le_of_not_lt hge) (by decide))
          rwa [List.head?_append_of_ne_nil (Nat.toDigits 10 (n / 10))
            (Decimal.digits_ne_nil _)]

theorem digits_append {ds rest : List Char} (hdigits : ∀ c ∈ ds, c.isDigit = true)
    (hrest : EndsNumber rest) : digits (ds ++ rest) = (ds, rest) := by
  rw [digits, List.takeWhile_append_of_pos hdigits, List.dropWhile_append_of_pos hdigits]
  cases rest with
  | nil => simp
  | cons c rest => simp [(endsNumber_cons.1 hrest).1]

theorem unsigned?_digits (n : Nat) {rest : List Char} (hrest : EndsNumber rest) :
    unsigned? (Decimal.digits n ++ rest) = some (.natural n, rest) := by
  have hplain : ¬ (Decimal.digits n = [] ∨
      ((Decimal.digits n).head? = some '0' ∧ (Decimal.digits n).length ≠ 1)) := by
    rintro (hnil | ⟨hzero, hlength⟩)
    · exact Decimal.digits_ne_nil n hnil
    · rcases Nat.eq_zero_or_pos n with rfl | hpos
      · exact hlength rfl
      · exact head?_digits_ne_zero hpos hzero
  have hfraction : fraction? rest = some (false, rest) := by
    unfold fraction?
    split
    · exact absurd rfl (endsNumber_cons.1 hrest).2.1
    · rfl
  have hexponent : exponent? rest = some (false, rest) := by
    cases rest with
    | nil => rfl
    | cons c rest =>
        obtain ⟨_, _, he, hE⟩ := endsNumber_cons.1 hrest
        simp [exponent?, he, hE]
  simp [unsigned?, digits_append (fun c => Decimal.isDigit_of_mem_digits) hrest, if_neg hplain,
    hfraction, hexponent]

/-- A value whose strings all spell something and whose numbers are all natural. -/
inductive IsExact : Json → Prop
  | null : IsExact .null
  | bool (b : Bool) : IsExact (.bool b)
  | natural (n : Nat) : IsExact (.natural n)
  | string (text : List Char) : IsExact (.string (some text))
  | array {items : List Json} (h : ∀ item ∈ items, IsExact item) : IsExact (.array items)
  | object {members : List (Spelling × Json)} (hkeys : ∀ member ∈ members, member.1.isSome = true)
      (h : ∀ member ∈ members, IsExact member.2) : IsExact (.object members)

theorem skipSpaces_cons {c : Char} (h : isSpace c = false) (text : List Char) :
    skipSpaces (c :: text) = c :: text := by
  simp [skipSpaces, h]

/-- A value is read back from its characters, within any bound above their number. -/
def IsReadBack (value : Json) : Prop :=
  ∀ n rest, value.characters.length < n → EndsNumber rest →
    value? n (value.characters ++ rest) = some (value, rest)

theorem exists_characters_eq_cons {value : Json} (h : value.IsExact) :
    ∃ c text, value.characters = c :: text ∧ isSpace c = false ∧ c ≠ ']' := by
  cases h with
  | null => exact ⟨'n', _, by rw [characters], by decide, by decide⟩
  | bool b =>
      cases b
      · exact ⟨'f', _, by rw [characters], by decide, by decide⟩
      · exact ⟨'t', _, by rw [characters], by decide, by decide⟩
  | natural n =>
      obtain ⟨c, text, hdigits⟩ := List.exists_cons_of_ne_nil (Decimal.digits_ne_nil n)
      have hc : c.isDigit = true :=
        Decimal.isDigit_of_mem_digits (hdigits ▸ List.mem_cons_self)
      refine ⟨c, text, by rw [characters, hdigits], ?_, ?_⟩
      · by_contra hspace
        simp only [isSpace, Bool.not_eq_false, Bool.or_eq_true, decide_eq_true_eq] at hspace
        rcases hspace with ((rfl | rfl) | rfl) | rfl <;> exact absurd hc (by decide)
      · rintro rfl
        exact absurd hc (by decide)
  | string text => exact ⟨'"', _, by rw [characters, quote], by decide, by decide⟩
  | array h => exact ⟨'[', _, by rw [characters], by decide, by decide⟩
  | object hkeys h => exact ⟨'{', _, by rw [characters], by decide, by decide⟩

theorem value?_of_isDigit {c : Char} (hc : c.isDigit = true) (n : Nat) (text : List Char) :
    value? (n + 1) (c :: text) = unsigned? (c :: text) := by
  have hother (d : Char) (hd : d.isDigit = false) : c ≠ d := by
    rintro rfl
    exact absurd (hc.symm.trans hd) (by simp)
  have hspace : isSpace c = false := by
    simp [isSpace, hother ' ' rfl, hother '\t' rfl, hother '\n' rfl, hother '\r' rfl]
  have hnumber : number? (c :: text) = unsigned? (c :: text) := by
    simp [number?, hother '-' rfl]
  simp [value?, skipSpaces_cons hspace, hnumber, hother 'n' rfl, hother 't' rfl, hother 'f' rfl,
    hother '"' rfl, hother '[' rfl, hother '\x7b' rfl]

theorem isReadBack_natural (k : Nat) : IsReadBack (.natural k) := by
  intro n rest hn hrest
  cases n with
  | zero => exact absurd hn (Nat.not_lt_zero _)
  | succ n =>
      have hread := unsigned?_digits k hrest
      obtain ⟨c, text, hdigits⟩ := List.exists_cons_of_ne_nil (Decimal.digits_ne_nil k)
      have hc : c.isDigit = true :=
        Decimal.isDigit_of_mem_digits (hdigits ▸ List.mem_cons_self)
      rw [hdigits, List.cons_append] at hread
      rw [characters, hdigits, List.cons_append, value?_of_isDigit hc, hread]

theorem isReadBack_string (text : List Char) : IsReadBack (.string (some text)) := by
  intro n rest hn hrest
  cases n with
  | zero => exact absurd hn (Nat.not_lt_zero _)
  | succ n =>
      have hread := string?_quote text rest
      have hskip := skipSpaces_cons (c := '"') (by decide)
      simp [characters, quote, value?, hskip, hread]

theorem items?_commaSeparated {items : List Json} (hne : items ≠ [])
    (h : ∀ item ∈ items, item.IsReadBack) (rest : List Char) {n : Nat}
    (hn : (commaSeparated (items.map characters)).length + 1 < n) :
    items? n (commaSeparated (items.map characters) ++ ']' :: rest) = some (items, rest) := by
  induction items generalizing n with
  | nil => exact absurd rfl hne
  | cons item others ih =>
      cases n with
      | zero => exact absurd hn (Nat.not_lt_zero _)
      | succ n =>
          have hitem := h item List.mem_cons_self n
          cases others with
          | nil =>
              have hread := hitem (']' :: rest) (Nat.lt_of_succ_lt_succ hn)
                (endsNumber_cons.2 (by decide))
              simp [commaSeparated, items?, hread, skipSpaces_cons (c := ']') (by decide)]
          | cons next others =>
              simp only [List.map_cons, commaSeparated, List.length_append,
                List.length_cons] at hn ih ⊢
              have hread := hitem (',' :: (commaSeparated ((next :: others).map characters) ++
                ']' :: rest)) (by omega) (endsNumber_cons.2 (by decide))
              have hlater := ih (by simp) (fun item hmem => h item (List.mem_cons_of_mem _ hmem))
                (show _ < n by omega)
              rw [List.map_cons] at hread
              simp [items?, hread, skipSpaces_cons (c := ',') (by decide), hlater]

theorem members?_commaSeparated {members : List (Spelling × Json)} (hne : members ≠ [])
    (hkeys : ∀ member ∈ members, member.1.isSome = true)
    (h : ∀ member ∈ members, member.2.IsReadBack) (rest : List Char) {n : Nat}
    (hn : (commaSeparated (memberCharacters members)).length + 1 < n) :
    members? n (commaSeparated (memberCharacters members) ++ '\x7d' :: rest) =
      some (members, rest) := by
  induction members generalizing n with
  | nil => exact absurd rfl hne
  | cons member others ih =>
      cases n with
      | zero => exact absurd hn (Nat.not_lt_zero _)
      | succ n =>
          obtain ⟨key, value⟩ := member
          obtain ⟨text, rfl⟩ := Option.isSome_iff_exists.1 (hkeys (key, value) List.mem_cons_self)
          have hvalue : IsReadBack value := h (some text, value) List.mem_cons_self
          have hkey := string?_quote text
          have hquote := skipSpaces_cons (c := '"') (by decide)
          have hcolon := skipSpaces_cons (c := ':') (by decide)
          cases others with
          | nil =>
              simp only [memberCharacters, commaSeparated, Option.getD_some,
                List.length_append, List.length_cons] at hn ⊢
              have hread := hvalue n ('\x7d' :: rest) (by omega) (endsNumber_cons.2 (by decide))
              simp [quote, members?, hkey, hcolon, hquote, hread,
                skipSpaces_cons (c := '\x7d') (by decide)]
          | cons next others =>
              simp only [memberCharacters, commaSeparated, Option.getD_some,
                List.length_append, List.length_cons] at hn ih ⊢
              have hread := fun after => hvalue n (',' :: after) (by omega)
                (endsNumber_cons.2 (by decide))
              have hlater := ih (by simp)
                (fun member hmem => hkeys member (List.mem_cons_of_mem _ hmem))
                (fun member hmem => h member (List.mem_cons_of_mem _ hmem)) (show _ < n by omega)
              simp only [quote, List.cons_append, List.append_assoc, List.nil_append] at hlater ⊢
              simp [members?, hkey, hcolon, hquote, hread, skipSpaces_cons (c := ',') (by decide),
                hlater]

theorem isReadBack_array {items : List Json} (hexact : ∀ item ∈ items, item.IsExact)
    (h : ∀ item ∈ items, item.IsReadBack) : IsReadBack (.array items) := by
  intro n rest hn _
  rw [characters, itemCharacters_eq_map] at hn ⊢
  simp only [List.length_cons, List.length_append, List.cons_append, List.append_assoc,
    List.nil_append] at hn ⊢
  cases n with
  | zero => exact absurd hn (Nat.not_lt_zero _)
  | succ n =>
      have hopen := skipSpaces_cons (c := '[') (by decide)
      cases items with
      | nil => simp [value?, hopen, skipSpaces_cons (c := ']') (by decide)]
      | cons item others =>
          have hitems := items?_commaSeparated (List.cons_ne_nil item others) h rest
            (show _ < n from Nat.lt_of_succ_lt_succ hn)
          obtain ⟨c, text, hbegins, hspace, hclose⟩ :=
            exists_characters_eq_cons (hexact item List.mem_cons_self)
          obtain ⟨after, hafter⟩ : ∃ after,
              commaSeparated ((item :: others).map characters) ++ ']' :: rest = c :: after := by
            cases others <;> simp [commaSeparated, hbegins]
          rw [hafter] at hitems ⊢
          simp [value?, hopen, skipSpaces_cons hspace, hclose, hitems]

theorem isReadBack_object {members : List (Spelling × Json)}
    (hkeys : ∀ member ∈ members, member.1.isSome = true)
    (h : ∀ member ∈ members, member.2.IsReadBack) : IsReadBack (.object members) := by
  intro n rest hn _
  rw [characters] at hn ⊢
  simp only [List.length_cons, List.length_append, List.cons_append, List.append_assoc,
    List.nil_append] at hn ⊢
  cases n with
  | zero => exact absurd hn (Nat.not_lt_zero _)
  | succ n =>
      have hopen := skipSpaces_cons (c := '\x7b') (by decide)
      cases members with
      | nil => simp [memberCharacters, value?, hopen, skipSpaces_cons (c := '\x7d') (by decide)]
      | cons member others =>
          have hmembers := members?_commaSeparated (List.cons_ne_nil member others) hkeys h rest
            (show _ < n from Nat.lt_of_succ_lt_succ hn)
          obtain ⟨after, hafter⟩ : ∃ after,
              commaSeparated (memberCharacters (member :: others)) ++ '\x7d' :: rest =
                '"' :: after := by
            cases others <;> simp [memberCharacters, commaSeparated, quote]
          rw [hafter] at hmembers ⊢
          simp [value?, hopen, skipSpaces_cons (c := '"') (by decide), hmembers]

theorem value?_characters {value : Json} (h : value.IsExact) : value.IsReadBack := by
  induction h with
  | null =>
      intro n rest hn _
      cases n with
      | zero => exact absurd hn (Nat.not_lt_zero _)
      | succ n => simp [characters, value?, skipSpaces_cons (c := 'n') (by decide), expect?]
  | bool b =>
      intro n rest hn _
      cases n with
      | zero => exact absurd hn (Nat.not_lt_zero _)
      | succ n =>
          cases b
          · simp [characters, value?, skipSpaces_cons (c := 'f') (by decide), expect?]
          · simp [characters, value?, skipSpaces_cons (c := 't') (by decide), expect?]
  | natural k => exact isReadBack_natural k
  | string text => exact isReadBack_string text
  | @array items hexact ih => exact isReadBack_array hexact ih
  | @object members hkeys hexact ih => exact isReadBack_object hkeys ih

/-- The text of a value stands for this value. -/
theorem read?_write {value : Json} (h : value.IsExact) : read? value.write = some value := by
  have hread := value?_characters h _ [] (Nat.lt_succ_self _) endsNumber_nil
  rw [List.append_nil] at hread
  simp [read?, write, hread]

end Json

end BisimPlay

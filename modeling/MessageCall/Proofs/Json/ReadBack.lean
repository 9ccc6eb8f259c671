import MessageCall.Json.Reader
import MessageCall.Json.Writer
import MessageCall.Proofs.Text.Numerals

/-!
# Documents are read back from their texts

A document is **plain** if its numbers are natural and its strings are texts. Reading the text of a
plain document gives the document (`Json.Plain.read?_render`). Strings come back because everything
that is escaped has an escape that is read as the same character, and because nothing that is left
as it is could be taken for a quote or an escape (`Json.readString_writeChar`). Numbers come back if
what follows does not go on with the number, and inside of a document a comma or a bracket follows.

The reader's budget is compared with the length of the text that is to be read: two for every
character are enough, because each call takes a character before it asks for another one.
-/

namespace MessageCall.Json

/-- A document whose numbers are natural and whose strings are texts. -/
inductive Plain : Json → Prop
  | null : Plain .null
  | bool (b : Bool) : Plain (.bool b)
  | natural (n : Nat) : Plain (.natural n)
  | text (s : String) : Plain (.text s)
  | array {items : List Json} (h : ∀ j ∈ items, Plain j) : Plain (.array items)
  | object {members : List (List Piece × Json)} (hkeys : ∀ m ∈ members, ∃ s, m.1 = piecesOf s)
    (h : ∀ m ∈ members, Plain m.2) : Plain (.object members)

/-! ### Strings -/

theorem value?_unitDigits {code : Nat} (hcode : code < 65536) :
    Numeral.value? 16 (unitDigits code) = some code := by
  have hdigit : ∀ n, Numeral.digit? 16 (Nat.digitChar (n % 16)) = some (n % 16) := fun n =>
    Numeral.digit?_digitChar (Nat.le_refl 16) (Nat.mod_lt n (by decide))
  simp only [unitDigits, Numeral.value?, Numeral.valueFrom?, hdigit, Option.bind_some]
  exact congrArg some (by omega)

/-- A backslash and a letter that spell a character. -/
theorem readString_escape {letter c : Char} (hletter : letter ≠ 'u')
    (h : escape? letter = some c) (text : List Char) :
    readString ('\\' :: letter :: text) =
      (readString text).map fun r => (.char c :: r.1, r.2) := by
  rw [readString, h]
  · cases readString text <;> rfl
  · rintro a b c' d rest rfl
    exact absurd rfl hletter

/-- **A character is read back**, whether it was escaped or not. -/
theorem readString_writeChar (c : Char) (text : List Char) :
    readString (writeChar c ++ text) =
      (readString text).map fun r => (.char c :: r.1, r.2) := by
  have hchar : ∀ {n : Nat}, c.toNat = n → Char.ofNat n = c := fun h => by
    rw [← h, Char.ofNat_toNat]
  have hescape : ∀ {n : Nat} {letter : Char}, c.toNat = n → letter ≠ 'u' →
      escape? letter = some (Char.ofNat n) → readString ('\\' :: letter :: text) =
        (readString text).map fun r => (.char c :: r.1, r.2) := fun h hletter hspells =>
    readString_escape hletter (hspells.trans (congrArg some (hchar h))) text
  -- The cases are those of the writer, in their order.
  unfold writeChar
  split
  · -- The quote and the backslash are escaped by themselves.
    next h =>
    rw [h]
    exact readString_escape (by decide) (by decide) text
  split
  · next h =>
    rw [h]
    exact readString_escape (by decide) (by decide) text
  split
  · -- The five control characters that have letters.
    next h => exact hescape h (by decide) (by decide)
  split
  · next h => exact hescape h (by decide) (by decide)
  split
  · next h => exact hescape h (by decide) (by decide)
  split
  · next h => exact hescape h (by decide) (by decide)
  split
  · next h => exact hescape h (by decide) (by decide)
  split
  · -- Every other control character is written as a unit of four digits.
    next h =>
    have hunit : ∀ pieces, consUnit c.toNat pieces = .char c :: pieces := fun pieces => by
      unfold consUnit
      rw [if_pos (.inl (by omega)), hchar rfl]
    have hvalue : Numeral.value? 16 (unitDigits c.toNat) = some c.toNat :=
      value?_unitDigits (by omega)
    simp only [unitDigits, List.cons_append, List.nil_append] at hvalue ⊢
    rw [readString, hvalue]
    cases readString text with
    | none => rfl
    | some r => simp only [Option.map_some, hunit]
  · -- A character that is not escaped is read as it is.
    next hquote hbackslash _ _ _ _ _ hcontrol =>
    have hspace : ¬ c < ' ' := hcontrol
    rw [List.singleton_append, readString]
    · cases readString text with
      | none => rfl
      | some r => simp only [Option.map_some, if_neg hspace]
    · exact hquote
    · exact fun _ _ _ _ _ h _ => hbackslash h
    · exact fun _ _ h _ => hbackslash h

/-- A string is read back. -/
theorem readString_writeString (s : String) (text : List Char) :
    readString ((piecesOf s).flatMap Piece.write ++ '"' :: text) = some (piecesOf s, text) := by
  unfold piecesOf
  induction s.toList with
  | nil => rfl
  | cons c cs ih =>
    simp only [List.map_cons, List.flatMap_cons, List.append_assoc, Piece.write] at ih ⊢
    rw [readString_writeChar, ih]
    rfl

/-! ### Numbers -/

/-- What does not go on with a number. -/
def StopsNumber (text : List Char) : Prop :=
  ∀ c, text.head? = some c → c.isDigit = false ∧ c ≠ '.' ∧ c ≠ 'e' ∧ c ≠ 'E'

theorem stopsNumber_nil : StopsNumber [] := nofun

theorem StopsNumber.cons {c : Char} (hc : c = ',' ∨ c = ']' ∨ c = '\x7d') (text : List Char) :
    StopsNumber (c :: text) := by
  intro c' h
  cases h
  rcases hc with rfl | rfl | rfl <;> decide

/-- **A number is read back.** -/
theorem readNumber_render (n : Nat) {text : List Char} (h : StopsNumber text) :
    readNumber (Numeral.render 10 n ++ text) = some (Numeral.render 10 n, text) := by
  have hdigits : ∀ c ∈ Numeral.render 10 n, c.isDigit = true := fun c hc =>
    Nat.isDigit_of_mem_toDigits (by decide) (Nat.le_refl 10) hc
  have hne := Numeral.render_ne_nil 10 n
  -- No numeral has a zero in front of other digits.
  have hzero : (Numeral.render 10 n).head? = some '0' → (Numeral.render 10 n).length = 1 := by
    intro hhead
    rw [Numeral.head?_render hhead]
    rfl
  generalize Numeral.render 10 n = digits at hdigits hne hzero
  -- Behind the numeral there is no further digit.
  have htake : text.takeWhile Char.isDigit = [] ∧ text.dropWhile Char.isDigit = text := by
    cases text with
    | nil => exact ⟨rfl, rfl⟩
    | cons c text =>
      obtain ⟨hdigit, -⟩ := h c rfl
      simp [hdigit]
  -- The whole part is all of the numeral, and no more.
  have hread : readDigits (digits ++ text) = some (digits, text) := by
    rw [readDigits, List.takeWhile_append_of_pos hdigits, List.dropWhile_append_of_pos hdigits,
      htake.1, htake.2, List.append_nil, if_neg (by simpa using hne)]
  have hwhole : readWhole (digits ++ text) = some (digits, text) := by
    simp only [readWhole, hread, Option.bind_eq_bind, Option.bind_some]
    exact if_neg fun hnot => hnot.2 (hzero hnot.1)
  -- What may follow a number starts neither a fraction nor an exponent.
  have hfraction : readFraction text = some ([], text) := by
    unfold readFraction
    split
    · exact absurd rfl (h '.' rfl).2.1
    · rfl
  have hexponent : readExponent text = some ([], text) := by
    cases text with
    | nil => rfl
    | cons c text =>
      obtain ⟨-, -, he, hE⟩ := h c rfl
      exact if_neg fun hnot => hnot.elim he hE
  -- A numeral has no sign.
  have hsign : ∀ rest, digits ++ text ≠ '-' :: rest := by
    intro rest hminus
    obtain ⟨c, cs, rfl⟩ := List.exists_cons_of_ne_nil hne
    cases hminus
    exact absurd (hdigits '-' List.mem_cons_self) (by decide)
  unfold readNumber
  split
  next minus rest heq =>
  split at heq
  · next hminus => exact absurd hminus (hsign _)
  · cases heq
    simp only [hwhole, hfraction, hexponent, Option.bind_eq_bind, Option.bind_some,
      List.nil_append, List.append_nil]

/-! ### Values -/

theorem skipBlanks_cons {c : Char} (hc : isBlank c = false) (text : List Char) :
    skipBlanks (c :: text) = c :: text :=
  List.dropWhile_cons_of_neg (by rw [hc]; exact Bool.false_ne_true)

/-- A digit starts nothing but a number. -/
theorem ne_of_isDigit {c c' : Char} (hc : c.isDigit = true) (hc' : c'.isDigit = false) :
    c ≠ c' := by
  rintro rfl
  rw [hc] at hc'
  cases hc'

theorem isBlank_of_isDigit {c : Char} (hc : c.isDigit = true) : isBlank c = false := by
  have hne (blank : Char) (hblank : blank.isDigit = false) : c ≠ blank := ne_of_isDigit hc hblank
  simp [isBlank, hne ' ' rfl, hne '\t' rfl, hne '\n' rfl, hne '\r' rfl]

theorem exists_digit_render (n : Nat) :
    ∃ c text, Numeral.render 10 n = c :: text ∧ c.isDigit = true := by
  obtain ⟨c, text, htext⟩ := List.exists_cons_of_ne_nil (Numeral.render_ne_nil 10 n)
  refine ⟨c, text, htext, Nat.isDigit_of_mem_toDigits (b := 10) (n := n) (by decide)
    (Nat.le_refl 10) ?_⟩
  rw [← Numeral.render, htext]
  exact List.mem_cons_self

/-- A text of a plain document starts with a character of its own, and could not be taken for the
end of an array. -/
theorem Plain.write_eq_cons {j : Json} (h : Plain j) :
    ∃ c text, write j = c :: text ∧ isBlank c = false ∧ c ≠ ']' := by
  -- By the kind of the value: the first character is known for each of them.
  cases h with
  | null => exact ⟨'n', _, rfl, rfl, by decide⟩
  | bool b =>
    cases b with
    | true => exact ⟨'t', _, rfl, rfl, by decide⟩
    | false => exact ⟨'f', _, rfl, rfl, by decide⟩
  | natural n =>
    obtain ⟨c, text, htext, hc⟩ := exists_digit_render n
    exact ⟨c, text, htext, isBlank_of_isDigit hc, ne_of_isDigit hc rfl⟩
  | text s => exact ⟨'"', _, rfl, rfl, by decide⟩
  | @array items _ =>
    cases items with
    | nil => exact ⟨'[', _, rfl, rfl, by decide⟩
    | cons item items => exact ⟨'[', _, rfl, rfl, by decide⟩
  | @object members _ _ =>
    cases members with
    | nil => exact ⟨'\x7b', _, rfl, rfl, by decide⟩
    | cons m members => exact ⟨'\x7b', _, rfl, rfl, by decide⟩

/-- A number is read as a value. -/
theorem readValue_render (budget n : Nat) {text : List Char} (h : StopsNumber text) :
    readValue (budget + 1) (Numeral.render 10 n ++ text) = some (natural n, text) := by
  have hread := readNumber_render n h
  obtain ⟨c, cs, hcs, hc⟩ := exists_digit_render n
  rw [natural]
  rw [hcs] at hread ⊢
  -- The value starts with a digit, so none of the other readers takes it.
  rw [readValue, List.cons_append, skipBlanks_cons (isBlank_of_isDigit hc)]
  rw [List.cons_append] at hread
  have hdigit : ∀ {c' : Char} {rest : List Char}, c :: (cs ++ text) = c' :: rest →
      c'.isDigit = true := by
    intro c' rest heq
    cases heq
    exact hc
  -- All other values start with something else than a digit.
  split
  · next heq => exact absurd (hdigit heq) (by decide)
  · next heq => exact absurd (hdigit heq) (by decide)
  · next heq => exact absurd (hdigit heq) (by decide)
  · next heq => exact absurd (hdigit heq) (by decide)
  · next heq => exact absurd (hdigit heq) (by decide)
  · next heq => exact absurd (hdigit heq) (by decide)
  · rw [hread]
    rfl

theorem writeString_append (s : String) (text : List Char) :
    writeString (piecesOf s) ++ text =
      '"' :: ((piecesOf s).flatMap Piece.write ++ '"' :: text) := by
  rw [writeString, List.cons_append, List.cons_append, List.append_assoc, List.singleton_append]

/-- A string is read as a value. -/
theorem readValue_writeString (budget : Nat) (s : String) (text : List Char) :
    readValue (budget + 1) (writeString (piecesOf s) ++ text) = some (.text s, text) := by
  rw [writeString_append, readValue, skipBlanks_cons rfl]
  simp only [readString_writeString]
  rfl

/-- A document that is read back from its text, if the budget is twice the length of it. -/
def ReadsBack (j : Json) : Prop :=
  ∀ budget text, 2 * (write j).length ≤ budget → StopsNumber text →
    readValue budget (write j ++ text) = some (j, text)

/-- A text has at least one character, and so there is a budget. -/
theorem ReadsBack.of_succ {j : Json} (hj : j.Plain)
    (h : ∀ budget text, 2 * (write j).length ≤ budget + 1 → StopsNumber text →
      readValue (budget + 1) (write j ++ text) = some (j, text)) : ReadsBack j := by
  intro budget text hbudget htext
  obtain ⟨c, cs, hcs, -⟩ := hj.write_eq_cons
  cases budget with
  | zero =>
    rw [hcs, List.length_cons] at hbudget
    omega
  | succ budget => exact h budget text hbudget htext

/-- Items are read back if each of them is. -/
theorem readItems_writeItems {item : Json} {items : List Json}
    (hitems : ∀ j ∈ item :: items, ReadsBack j) {budget : Nat}
    (hbudget : 2 * ((write item).length + (writeItems items).length) ≤ budget)
    (text : List Char) :
    readItems budget (write item ++ (writeItems items ++ text)) = some (item :: items, text) := by
  induction items generalizing item budget with
  | nil =>
    -- The last item is followed by the closing bracket.
    rw [writeItems, List.length_singleton] at hbudget
    cases budget with
    | zero => omega
    | succ budget =>
      have hread := hitems item List.mem_cons_self budget (']' :: text) (by omega)
        (.cons (.inr (.inl rfl)) _)
      rw [writeItems, List.singleton_append, readItems, hread]
      simp only [Option.bind_eq_bind, Option.bind_some, skipBlanks_cons (c := ']') rfl]
  | cons next items ih =>
    -- Another item follows behind a comma, with a smaller budget.
    rw [writeItems, List.length_append, List.length_cons] at hbudget
    cases budget with
    | zero => omega
    | succ budget =>
      have hread := hitems item List.mem_cons_self budget
        (',' :: (write next ++ (writeItems items ++ text))) (by omega) (.cons (.inl rfl) _)
      have hrest : readItems budget (write next ++ (writeItems items ++ text)) =
          some (next :: items, text) :=
        ih (fun j hj => hitems j (List.mem_cons_of_mem _ hj)) (by omega)
      rw [writeItems, List.append_assoc, List.cons_append, readItems, hread]
      simp only [Option.bind_eq_bind, Option.bind_some, skipBlanks_cons (c := ',') rfl, hrest]

/-- Members are read back if their names are texts and each of their values is read back. -/
theorem readMembers_writeMembers {key : List Piece} {value : Json}
    {members : List (List Piece × Json)}
    (hkeys : ∀ m ∈ (key, value) :: members, ∃ s, m.1 = piecesOf s)
    (hvalues : ∀ m ∈ (key, value) :: members, ReadsBack m.2) {budget : Nat}
    (hbudget : 2 * ((writeString key).length + 1 + (write value).length +
      (writeMembers members).length) ≤ budget) (text : List Char) :
    readMembers budget
        (writeString key ++ (':' :: (write value ++ (writeMembers members ++ text)))) =
      some ((key, value) :: members, text) := by
  -- By the members after the first, each of which takes some of the budget.
  induction members generalizing key value budget with
  | nil =>
    -- The last member is followed by the closing brace.
    obtain ⟨s, rfl⟩ := hkeys _ List.mem_cons_self
    have hvalue : ReadsBack value := hvalues _ List.mem_cons_self
    rw [writeMembers, List.length_singleton] at hbudget
    cases budget with
    | zero => omega
    | succ budget =>
      have hread := hvalue budget ('\x7d' :: text) (by omega) (.cons (.inr (.inr rfl)) _)
      rw [writeMembers, List.singleton_append, writeString_append, readMembers,
        skipBlanks_cons (c := '"') rfl]
      simp only [readString_writeString, Option.bind_eq_bind, Option.bind_some,
        skipBlanks_cons (c := ':') rfl, hread, skipBlanks_cons (c := '\x7d') rfl]
  | cons next members ih =>
    obtain ⟨s, rfl⟩ := hkeys _ List.mem_cons_self
    have hvalue : ReadsBack value := hvalues _ List.mem_cons_self
    obtain ⟨nextKey, nextValue⟩ := next
    simp only [writeMembers, List.length_append, List.length_cons] at hbudget
    cases budget with
    | zero => omega
    | succ budget =>
      -- The value of this member ends at the comma.
      have hread := hvalue budget (',' :: (writeString nextKey ++
        (':' :: (write nextValue ++ (writeMembers members ++ text))))) (by omega)
        (.cons (.inl rfl) _)
      -- Behind the comma the next member is read, by hypothesis up to the end.
      have hrest : readMembers budget (writeString nextKey ++
          (':' :: (write nextValue ++ (writeMembers members ++ text)))) =
          some ((nextKey, nextValue) :: members, text) :=
        ih (fun m hm => hkeys m (List.mem_cons_of_mem _ hm))
          (fun m hm => hvalues m (List.mem_cons_of_mem _ hm)) (by omega)
      -- Key, colon, value and comma are read off in turn.
      rw [writeMembers, writeString_append, readMembers, skipBlanks_cons (c := '"') rfl]
      simp only [List.append_assoc, List.cons_append] at hread ⊢
      simp only [readString_writeString, Option.bind_eq_bind, Option.bind_some,
        skipBlanks_cons (c := ':') rfl, hread, skipBlanks_cons (c := ',') rfl, hrest]

/-- An array is read back if its items are. -/
theorem readValue_array {budget : Nat} {item : Json} {items : List Json} (hitem : item.Plain)
    {rest text : List Char}
    (h : readItems budget (write item ++ rest) = some (item :: items, text)) :
    readValue (budget + 1) ('[' :: (write item ++ rest)) = some (.array (item :: items), text) := by
  obtain ⟨c, cs, hcs, hblank, hc⟩ := hitem.write_eq_cons
  rw [hcs, List.cons_append] at h ⊢
  rw [readValue, skipBlanks_cons (c := '[') rfl]
  simp only [skipBlanks_cons hblank]
  -- Since it does not end at once, the array has an item.
  split
  · next heq =>
    cases heq
    exact absurd rfl hc
  · rw [h]
    rfl

/-- An object is read back if its members are. -/
theorem readValue_object {budget : Nat} {s : String} {members : List (List Piece × Json)}
    {rest text : List Char}
    (h : readMembers budget (writeString (piecesOf s) ++ rest) = some (members, text)) :
    readValue (budget + 1) ('\x7b' :: (writeString (piecesOf s) ++ rest)) =
      some (.object members, text) := by
  rw [writeString_append] at h ⊢
  rw [readValue, skipBlanks_cons (c := '\x7b') rfl]
  simp only [skipBlanks_cons (c := '"') rfl]
  split
  · next heq => cases heq
  · rw [h]
    rfl

/-- **Values are read back**, by induction on the document. -/
theorem Plain.readsBack {j : Json} (h : Plain j) : ReadsBack j := by
  induction h with
  -- What is not composed of other values is read in one step.
  | null => exact .of_succ .null fun _ _ _ _ => rfl
  | bool b => exact .of_succ (.bool b) fun _ _ _ _ => by cases b <;> rfl
  | natural n => exact .of_succ (.natural n) fun budget _ _ htext => readValue_render budget n htext
  | text s => exact .of_succ (.text s) fun budget text _ _ => readValue_writeString budget s text
  -- An array that is not empty leaves the budget for its items.
  | @array items h ih =>
    refine .of_succ (.array h) fun budget text hbudget _ => ?_
    cases items with
    | nil => rfl
    | cons item items =>
      simp only [write, List.length_append, List.length_cons] at hbudget
      have hread : readItems budget (write item ++ (writeItems items ++ text)) =
          some (item :: items, text) := readItems_writeItems ih (by omega) text
      rw [write, List.cons_append, List.cons_append, List.append_assoc]
      exact readValue_array (h item List.mem_cons_self) hread
  -- Likewise for the members of an object.
  | @object members hkeys h ih =>
    refine .of_succ (.object hkeys h) fun budget text hbudget _ => ?_
    cases members with
    | nil => rfl
    | cons m members =>
      obtain ⟨key, value⟩ := m
      obtain ⟨s, rfl⟩ := hkeys _ List.mem_cons_self
      simp only [write, List.length_append, List.length_cons] at hbudget
      have hread : readMembers budget (writeString (piecesOf s) ++
          (':' :: (write value ++ (writeMembers members ++ text)))) =
          some ((piecesOf s, value) :: members, text) :=
        readMembers_writeMembers hkeys ih (by omega) text
      simp only [write, List.cons_append, List.append_assoc]
      exact readValue_object hread

/-- **A plain document is read back from its text.** -/
theorem Plain.read?_render {j : Json} (h : Plain j) : read? j.render = some j := by
  have hread := h.readsBack (2 * (write j).length + 2) [] (by omega) stopsNumber_nil
  rw [List.append_nil] at hread
  rw [read?, render, String.toList_ofList, readText, hread]
  rfl

end MessageCall.Json

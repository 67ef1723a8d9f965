import SdkBindings.Json.Printer
import SdkBindings.Proofs.Document.Reader
import SdkBindings.Proofs.Formula.Numbers

/-!
# What is written is read

A value that is written with any indentation is read back, whatever follows it, unless that continues
a number (`isRead`).  The proof follows the printer: one lemma for texts, where a character
is a short escape, itself, a unit or two surrogates; one for numbers; and one for each of the printer's
recursions, where the line breaks are blanks and the bound on the reader's steps is the length of what
was written.
-/

namespace SdkBindings.Json

open Text

/-! ## Texts -/

/-- A character is put together from its units. -/
theorem characters?_utf16 (c : Char) (units : List Nat) :
    characters? (Module.utf16 c ++ units) = (characters? units).map (c :: ·) := by
  have hscalar : c.toNat < 0xD800 ∨ 0xE000 ≤ c.toNat := by
    rcases c.valid with h | h
    · exact .inl h
    · exact .inr h.1
  rw [Module.utf16]
  split
  · cases units with
    | nil => simp [characters?, hscalar]
    | cons m units => simp [characters?, hscalar]
  · have hlt := Constant.toNat_lt c
    rw [List.cons_append, List.singleton_append, characters?, if_neg (by omega), if_pos (by omega)]
    have hnumber : 0x10000 + 0x400 * (0xD800 + (c.toNat - 0x10000) / 0x400 - 0xD800) +
        (0xDC00 + (c.toNat - 0x10000) % 0x400 - 0xDC00) = c.toNat := by
      omega
    rw [hnumber, Char.ofNat_toNat]

/-- A text is put together from the units of its characters. -/
theorem characters?_flatMap (characters : List Char) :
    characters? (characters.flatMap Module.utf16) = some characters := by
  induction characters with
  | nil => rfl
  | cons c characters ih =>
    rw [List.flatMap_cons, characters?_utf16, ih]
    rfl

/-- The digits of a unit are read as the unit. -/
theorem readUnits?_unitEscape {n : Nat} (h : n < 0x10000) (rest : List Char) :
    readUnits? (unitEscape n ++ rest) =
      (readUnits? rest).map fun (units, rest) => (n :: units, rest) := by
  obtain ⟨i, j, k, l, hdigits, hall, hnumber⟩ := Module.exists_hexDigits h
  rw [unitEscape, hdigits]
  show readUnits? ('\\' :: 'u' :: i :: j :: k :: l :: rest) = _
  rw [readUnits?, if_pos hall, hnumber]

/-- A character is read as its units. -/
theorem readUnits?_escapeChar (c : Char) (rest : List Char) :
    readUnits? (escapeChar c ++ rest) =
      (readUnits? rest).map fun (units, rest) => (Module.utf16 c ++ units, rest) := by
  by_cases hnamed : c ∈ ['"', '\\', '\n', '\r', '\t', '\x0c', '\x08']
  · simp only [List.mem_cons, List.not_mem_nil, or_false] at hnamed
    rcases hnamed with rfl | rfl | rfl | rfl | rfl | rfl | rfl <;> rfl
  simp only [List.mem_cons, List.not_mem_nil, or_false, not_or] at hnamed
  obtain ⟨hquote, hbackslash, hline, hreturn, htab, hfeed, hback⟩ := hnamed
  rw [escapeChar, if_neg hquote, if_neg hbackslash, if_neg hline, if_neg hreturn, if_neg htab,
    if_neg hfeed, if_neg hback]
  split
  · rw [List.singleton_append, readUnits?, if_neg (by omega)]
    · exact fun h => absurd h hquote
    · exact fun _ _ _ _ _ h => absurd h hbackslash
    · exact fun _ _ h => absurd h hbackslash
  split
  · rw [readUnits?_unitEscape ‹_›, Module.utf16, if_pos ‹_›]
    rfl
  · have hlt := Constant.toNat_lt c
    rw [List.append_assoc, readUnits?_unitEscape (by omega), readUnits?_unitEscape (by omega),
      Module.utf16, if_neg ‹_›, Option.map_map]
    rfl

/-- A text is read up to its closing mark. -/
theorem readText?_quote (text : String) (rest : List Char) :
    readText? (text.toList.flatMap escapeChar ++ '"' :: rest) = some (text, rest) := by
  have hunits (characters : List Char) :
      readUnits? (characters.flatMap escapeChar ++ '"' :: rest) =
        some (characters.flatMap Module.utf16, rest) := by
    induction characters with
    | nil => rfl
    | cons c characters ih =>
      rw [List.flatMap_cons, List.append_assoc, readUnits?_escapeChar, ih]
      rfl
  rw [readText?, hunits]
  show (characters? (text.toList.flatMap Module.utf16)).map (fun characters => _) = _
  rw [characters?_flatMap, Option.map_some, String.ofList_toList]

/-! ## Numbers -/

/-- Nothing that continues a number follows. -/
def EndsNumber (rest : List Char) : Prop :=
  ∀ c ∈ rest.head?, continuesNumber c = false

/-- The digits of a number are read. -/
theorem readWhole?_toDigits (n : Nat) {rest : List Char} (h : EndsNumber rest) :
    readWhole? (Nat.toDigits 10 n ++ rest) = some (n, rest) := by
  have hdigit : ∀ c ∈ Nat.toDigits 10 n, c.isDigit = true :=
    fun c hc => Nat.isDigit_of_mem_toDigits (b := 10) (by decide) (by decide) hc
  have hstop : ∀ c ∈ rest.head?, ¬ c.isDigit = true := by
    intro c hc hd
    have hcontinues := h c hc
    rw [continuesNumber, hd] at hcontinues
    cases hcontinues
  have htake : (Nat.toDigits 10 n ++ rest).takeWhile Char.isDigit = Nat.toDigits 10 n := by
    rw [List.takeWhile_append_of_pos hdigit]
    cases rest with
    | nil => rw [List.takeWhile_nil, List.append_nil]
    | cons c rest => rw [List.takeWhile_cons_of_neg (hstop c rfl), List.append_nil]
  have hdrop : (Nat.toDigits 10 n ++ rest).dropWhile Char.isDigit = rest := by
    rw [List.dropWhile_append_of_pos hdigit]
    cases rest with
    | nil => rfl
    | cons c rest => rw [List.dropWhile_cons_of_neg (hstop c rfl)]
  have hzero : ¬ ((Nat.toDigits 10 n).head? = some '0' ∧ Nat.toDigits 10 n ≠ ['0']) := by
    rintro ⟨hhead, hne⟩
    by_cases hn : n = 0
    · subst hn
      exact hne rfl
    · exact Formula.head?_toDigits hn hhead
  have hend : ¬ rest.head?.any continuesNumber = true := by
    cases rest with
    | nil => simp
    | cons c rest => simp [h c rfl]
  rw [readWhole?, htake, hdrop, if_neg, Nat.ofDigitChars_toDigits (by decide) (by decide)]
  rintro (hnil | hbad | hbad)
  · exact Formula.toDigits_ne_nil n hnil
  · exact hzero hbad
  · exact hend hbad

/-- A number is read. -/
theorem readNumber?_toString (n : Int) {rest : List Char} (h : EndsNumber rest) :
    readNumber? ((toString n).toList ++ rest) = some (n, rest) := by
  cases n with
  | ofNat n =>
    have hwritten : (toString (Int.ofNat n)).toList = Nat.toDigits 10 n := Formula.toList_toString n
    obtain ⟨c, digits, hdigits, hc⟩ := Formula.exists_digit n
    have hsign : c ≠ '-' := by
      rintro rfl
      cases hc
    have hwhole := readWhole?_toDigits n h
    rw [hwritten]
    rw [hdigits] at hwhole ⊢
    rw [List.cons_append] at hwhole ⊢
    rw [readNumber?, hwhole]
    · rfl
    · exact fun _ heq => hsign (List.cons.inj heq).1
  | negSucc n =>
    have hwritten : (toString (Int.negSucc n)).toList = '-' :: Nat.toDigits 10 (n + 1) := by
      show ("-" ++ toString (n + 1)).toList = _
      rw [String.toList_append, Formula.toList_toString]
      rfl
    rw [hwritten, List.cons_append, readNumber?, readWhole?_toDigits (n + 1) h]
    rfl

/-! ## Values -/

/-- A line break consists of blanks. -/
theorem skipBlanks_lineBreak (indent : Int) (level : Nat) (rest : List Char) :
    skipBlanks (lineBreak indent level ++ rest) = skipBlanks rest := by
  have hblank : ∀ c ∈ lineBreak indent level, isBlank c = true := by
    intro c hc
    rw [lineBreak, List.mem_cons] at hc
    rcases hc with rfl | hc
    · rfl
    · rw [List.eq_of_mem_replicate hc]
      rfl
  rw [skipBlanks, List.dropWhile_append_of_pos hblank, skipBlanks]

/-- A value may stand on its own line. -/
theorem readValue?_lineBreak (bound : Nat) (indent : Int) (level : Nat) (rest : List Char) :
    readValue? bound (lineBreak indent level ++ rest) = readValue? bound rest := by
  cases bound with
  | zero => rfl
  | succ bound => rw [readValue?, skipBlanks_lineBreak, readValue?]

/-- So may a name. -/
theorem readName?_lineBreak (indent : Int) (level : Nat) (name : String) (rest : List Char) :
    readName? (lineBreak indent level ++ quote name ++ ':' :: rest) = some (name, rest) := by
  have hquote : skipBlanks (quote name ++ ':' :: rest) =
      '"' :: (name.toList.flatMap escapeChar ++ '"' :: ':' :: rest) := by
    simp [quote, skipBlanks, isBlank]
  rw [readName?, List.append_assoc, skipBlanks_lineBreak, hquote]
  show (readText? (name.toList.flatMap escapeChar ++ '"' :: ':' :: rest)).bind _ = _
  rw [readText?_quote]
  rfl

/-- A character ends a number, or continues it. -/
theorem endsNumber_cons {c : Char} (h : continuesNumber c = false) (rest : List Char) :
    EndsNumber (c :: rest) := by
  intro d hd
  cases hd
  exact h

/-- A line break ends a number. -/
theorem endsNumber_lineBreak (indent : Int) (level : Nat) (rest : List Char) :
    EndsNumber (lineBreak indent level ++ rest) :=
  endsNumber_cons rfl _

/-- The characters that start a number. -/
def numberStarts : List Char :=
  ['-', '0', '1', '2', '3', '4', '5', '6', '7', '8', '9']

/-- What is written for a number starts with a sign or a digit. -/
theorem exists_toString (n : Int) :
    ∃ c digits, (toString n).toList = c :: digits ∧ c ∈ numberStarts := by
  have hall : ∀ d < 10, Nat.digitChar d ∈ numberStarts := by
    decide
  cases n with
  | ofNat n =>
    obtain ⟨c, digits, hdigits, -⟩ := Formula.exists_digit n
    have hmem : c ∈ Nat.toDigits 10 n := by simp [hdigits]
    obtain ⟨d, hd, rfl⟩ := Formula.exists_digitChar hmem
    exact ⟨_, digits, (Formula.toList_toString n).trans hdigits, hall d hd⟩
  | negSucc n =>
    refine ⟨'-', (toString (n + 1)).toList, ?_, by decide⟩
    show ("-" ++ toString (n + 1)).toList = _
    rw [String.toList_append]
    rfl

/-- A number is no other value. -/
theorem readValue?_toString (bound : Nat) (n : Int) {rest : List Char} (h : EndsNumber rest) :
    readValue? (bound + 1) ((toString n).toList ++ rest) = some (.int n, rest) := by
  have hnumber : readValue? (bound + 1) ((toString n).toList ++ rest) =
      (readNumber? ((toString n).toList ++ rest)).map (Prod.map .int id) := by
    obtain ⟨c, digits, hdigits, hc⟩ := exists_toString n
    rw [hdigits]
    simp only [numberStarts, List.mem_cons, List.not_mem_nil, or_false] at hc
    rcases hc with rfl | rfl | rfl | rfl | rfl | rfl | rfl | rfl | rfl | rfl | rfl <;> rfl
  rw [hnumber, readNumber?_toString n h]
  rfl

/-- Something is written for every value. -/
theorem length_print (indent : Int) (level : Nat) (value : Json) :
    0 < (print indent level value).length := by
  match value with
  | .null | .bool true | .bool false | .array [] | .object [] => exact Nat.zero_lt_succ _
  | .int n =>
    obtain ⟨c, digits, hdigits, -⟩ := exists_toString n
    rw [print_int, hdigits]
    simp
  | .string text => simp [print_string, quote]
  | .array (item :: items) => simp [print_array]
  | .object (member :: members) => simp [print_object]

/-- A list with items is read, because no item starts with the end of the list. -/
theorem readValue?_array {bound : Nat} {text rest : List Char} {items : List Json}
    (h : readItems? bound text = some (items, rest)) :
    readValue? (bound + 1) ('[' :: text) = some (.array items, rest) := by
  have hopen : ∀ after, skipBlanks text ≠ ']' :: after := by
    intro after hclosed
    match bound with
    | 0 => cases h
    | 1 => cases h
    | bound + 2 =>
      rw [readItems?, readValue?, hclosed] at h
      cases h
  have hskip : skipBlanks ('[' :: text) = '[' :: text := rfl
  -- The case of an empty value is ruled out by `hopen`.
  simp only [readValue?, hskip, h, Option.map_some]

/-- An object with members is read, because no member starts with the end of the object. -/
theorem readValue?_object {bound : Nat} {text rest : List Char} {members : List (String × Json)}
    (h : readMembers? bound text = some (members, rest)) :
    readValue? (bound + 1) ('\x7b' :: text) = some (.object members, rest) := by
  have hopen : ∀ after, skipBlanks text ≠ '\x7d' :: after := by
    intro after hclosed
    match bound with
    | 0 => cases h
    | bound + 1 =>
      rw [readMembers?, readName?, hclosed] at h
      cases h
  have hskip : skipBlanks ('\x7b' :: text) = '\x7b' :: text := rfl
  -- The case of an empty value is ruled out by `hopen`.
  simp only [readValue?, hskip, h, Option.map_some]

/-- A value is read with as many steps as it has characters, whatever follows it, if that does not
continue a number. -/
def IsRead (indent : Int) (level : Nat) (value : Json) : Prop :=
  ∀ (bound : Nat) (rest : List Char), (print indent level value).length ≤ bound → EndsNumber rest →
    readValue? bound (print indent level value ++ rest) = some (value, rest)

/-- The items of a list are read up to its end. -/
theorem readItems?_printItems {indent : Int} {level : Nat} (closing : Nat) {item : Json}
    {items : List Json} (hitem : IsRead indent level item) (hitems : ∀ i ∈ items, IsRead indent level i)
    {bound : Nat} (rest : List Char)
    (hbound : (print indent level item).length + (printItems indent level items).length < bound) :
    readItems? bound (lineBreak indent level ++ (print indent level item ++
        (printItems indent level items ++ (lineBreak indent closing ++ ']' :: rest)))) =
      some (item :: items, rest) := by
  induction items generalizing item bound with
  | nil =>
    obtain ⟨bound, rfl⟩ := Nat.exists_eq_succ_of_ne_zero (Nat.ne_zero_of_lt hbound)
    have hread := hitem bound (lineBreak indent closing ++ ']' :: rest) (by omega)
      (endsNumber_lineBreak indent closing _)
    rw [printItems_nil, List.nil_append, readItems?, readValue?_lineBreak, hread, Option.bind_some]
    dsimp only
    rw [skipBlanks_lineBreak]
    rfl
  | cons next items ih =>
    obtain ⟨bound, rfl⟩ := Nat.exists_eq_succ_of_ne_zero (Nat.ne_zero_of_lt hbound)
    obtain ⟨hnext, hitems⟩ := List.forall_mem_cons.mp hitems
    rw [printItems_cons] at hbound ⊢
    simp only [List.cons_append, List.append_assoc, List.length_cons, List.length_append] at hbound ⊢
    have hfurther := ih hnext hitems (by omega : _ < bound)
    have hread := hitem bound (',' :: (lineBreak indent level ++ (print indent level next ++
      (printItems indent level items ++ (lineBreak indent closing ++ ']' :: rest))))) (by omega)
      (endsNumber_cons rfl _)
    rw [readItems?, readValue?_lineBreak, hread]
    show (readItems? bound (lineBreak indent level ++ _)).map _ = _
    rw [hfurther]
    rfl

/-- A member is read up to what follows its value. -/
theorem readMembers?_printMember {indent : Int} {level : Nat} {member : String × Json}
    (h : IsRead indent level member.2) {bound : Nat} {after : List Char}
    (hbound : (printMember indent level member).length ≤ bound) (hafter : EndsNumber after) :
    readName? (lineBreak indent level ++ (printMember indent level member ++ after)) =
        some (member.1, ' ' :: (print indent level member.2 ++ after)) ∧
      readValue? bound (' ' :: (print indent level member.2 ++ after)) = some (member.2, after) := by
  obtain ⟨name, value⟩ := member
  rw [printMember_mk] at hbound ⊢
  simp only [List.length_append, List.length_cons] at hbound
  constructor
  · rw [List.append_assoc, ← List.append_assoc]
    exact readName?_lineBreak indent level name (' ' :: (print indent level value ++ after))
  · obtain ⟨bound, rfl⟩ := Nat.exists_eq_succ_of_ne_zero (Nat.ne_zero_of_lt hbound)
    exact h (bound + 1) after (by dsimp only; omega) hafter

/-- The members of an object are read up to its end. -/
theorem readMembers?_printMembers {indent : Int} {level : Nat} (closing : Nat) (member : String × Json)
    {members : List (String × Json)} (hmember : IsRead indent level member.2)
    (hmembers : ∀ m ∈ members, IsRead indent level m.2) {bound : Nat} (rest : List Char)
    (hbound : (printMember indent level member).length +
      (printMembers indent level members).length < bound) :
    readMembers? bound (lineBreak indent level ++ (printMember indent level member ++
        (printMembers indent level members ++ (lineBreak indent closing ++ '\x7d' :: rest)))) =
      some (member :: members, rest) := by
  induction members generalizing member bound with
  | nil =>
    obtain ⟨bound, rfl⟩ := Nat.exists_eq_succ_of_ne_zero (Nat.ne_zero_of_lt hbound)
    obtain ⟨hname, hvalue⟩ := readMembers?_printMember hmember (by omega : _ ≤ bound)
      (endsNumber_lineBreak indent closing ('\x7d' :: rest))
    rw [printMembers_nil, List.nil_append, readMembers?, hname]
    show (readValue? bound (' ' :: (print indent level member.2 ++ _))).bind _ = _
    rw [hvalue, Option.bind_some]
    dsimp only
    rw [skipBlanks_lineBreak]
    rfl
  | cons next members ih =>
    obtain ⟨bound, rfl⟩ := Nat.exists_eq_succ_of_ne_zero (Nat.ne_zero_of_lt hbound)
    obtain ⟨hnext, hmembers⟩ := List.forall_mem_cons.mp hmembers
    rw [printMembers_cons] at hbound ⊢
    simp only [List.cons_append, List.append_assoc, List.length_cons, List.length_append] at hbound ⊢
    have hfurther := ih next hnext hmembers (by omega : _ < bound)
    obtain ⟨hname, hvalue⟩ := readMembers?_printMember hmember (by omega : _ ≤ bound)
      (endsNumber_cons (c := ',') rfl (lineBreak indent level ++ (printMember indent level next ++
        (printMembers indent level members ++ (lineBreak indent closing ++ '\x7d' :: rest)))))
    rw [readMembers?, hname]
    show (readValue? bound (' ' :: (print indent level member.2 ++ _))).bind _ = _
    rw [hvalue]
    show (readMembers? bound (lineBreak indent level ++ _)).map _ = _
    rw [hfurther]
    rfl

mutual
/-- **A value that is written is read.** -/
theorem isRead (indent : Int) (level : Nat) (value : Json) : IsRead indent level value := by
  intro bound rest hbound hrest
  have hpositive := length_print indent level value
  obtain ⟨bound, rfl⟩ : ∃ b, bound = b + 1 := ⟨bound - 1, by omega⟩
  match value with
  | .null | .bool true | .bool false | .array [] | .object [] => rfl
  | .int n => exact readValue?_toString bound n hrest
  | .string text =>
    rw [print_string, quote, List.cons_append, List.cons_append, List.append_assoc, List.singleton_append]
    show (readText? (text.toList.flatMap escapeChar ++ '"' :: rest)).map _ = _
    rw [readText?_quote]
    rfl
  | .array (item :: items) =>
    rw [print_array] at hbound ⊢
    simp only [List.cons_append, List.append_assoc, List.length_cons, List.length_append,
      List.length_nil] at hbound ⊢
    have hitems := readItems?_printItems level (isRead indent (level + 1) item)
      (isRead_items indent (level + 1) items) rest (by omega : _ < bound)
    exact readValue?_array hitems
  | .object ((name, value) :: members) =>
    rw [print_object] at hbound ⊢
    simp only [List.cons_append, List.append_assoc, List.length_cons, List.length_append,
      List.length_nil] at hbound ⊢
    have hmembers := readMembers?_printMembers level (name, value) (isRead indent (level + 1) value)
      (isRead_members indent (level + 1) members) rest (by omega : _ < bound)
    exact readValue?_object hmembers

/-- So is every item of a list. -/
theorem isRead_items (indent : Int) (level : Nat) :
    (items : List Json) → ∀ item ∈ items, IsRead indent level item
  | [] => fun _ h => nomatch h
  | item :: items =>
    List.forall_mem_cons.mpr ⟨isRead indent level item, isRead_items indent level items⟩

/-- So is the value of every member of an object. -/
theorem isRead_members (indent : Int) (level : Nat) :
    (members : List (String × Json)) → ∀ member ∈ members, IsRead indent level member.2
  | [] => fun _ h => nomatch h
  | (_, value) :: members =>
    List.forall_mem_cons.mpr ⟨isRead indent level value, isRead_members indent level members⟩
end

/-- **Reading undoes writing**, with any indentation. -/
theorem read?_render (indent : Int) (value : Json) : read? (value.render indent) = some value := by
  have hread := isRead indent 0 value (print indent 0 value).length [] (Nat.le_refl _)
    (fun _ h => nomatch h)
  rw [List.append_nil] at hread
  rw [read?, render, String.toList_ofList, String.length_ofList, hread]
  rfl

end SdkBindings.Json

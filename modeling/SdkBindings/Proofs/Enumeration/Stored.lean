import SdkBindings.Proofs.Enumeration.Places
import SdkBindings.Proofs.Symbols.Table
import SdkBindings.Proofs.Transform.RawTokens

/-!
# The written forms of constants without prefixes

The written form of a constant of an enumeration on one line is the text of a row of tokens
(`isRowText_of_writes`): it is the joined expression, a number, or another written form in parentheses
with an addition behind it.  So what is left of it once the prefixes have been removed is cut to the same
tokens as before, with the prefixes removed from the identifiers, exactly if no token is harmed
(`normalizeHeader_keepsTokens`).

An expression is a row because the header was cut to its tokens and a comma or a brace follows them,
which continues neither a number nor an identifier.
-/

namespace SdkBindings

open Lexer

/-! ## Expressions in the code of an enumeration -/

namespace Grammar

/-- The expression of a constant stands in the body in front of what ends it. -/
theorem IsBody.exists_split {constants : List BodyConstant} {body : List Token}
    (h : IsBody constants body) {k : BodyConstant} (hk : k ∈ constants) {tokens : List Token}
    (htokens : k.expression = some tokens) :
    tokens ≠ [] ∧ ∃ front separator back, body = front ++ (tokens ++ separator :: back) ∧
      endsExpression separator = true := by
  have hvalued {k : BodyConstant} {ts : List Token} (h : IsConstant k ts)
      (htokens : k.expression = some tokens) : tokens ≠ [] ∧ ∃ front, ts = front ++ tokens := by
    cases h with
    | bare => cases htokens
    | valued _ _ hne =>
      obtain rfl := Option.some.inj htokens
      exact ⟨hne, [_, _], rfl⟩
  induction h with
  | empty => cases hk
  | @last k' ts close hconstant hclose =>
    obtain rfl := List.mem_singleton.mp hk
    obtain ⟨hne, front, rfl⟩ := hvalued hconstant htokens
    exact ⟨hne, front, close, [], by simp, by simp [endsExpression, hclose]⟩
  | @more k' rest ts us comma hconstant hcomma _ ih =>
    rcases List.mem_cons.mp hk with rfl | hk
    · obtain ⟨hne, front, rfl⟩ := hvalued hconstant htokens
      exact ⟨hne, front, comma, us, by simp, by simp [endsExpression, hcomma]⟩
    · obtain ⟨hne, front, separator, back, rfl, hends⟩ := ih hk
      exact ⟨hne, ts ++ comma :: front, separator, back, by simp, hends⟩

end Grammar

/-- What ends an expression separates it from what follows. -/
theorem separates_of_endsExpression {t : Token} (h : Grammar.endsExpression t = true)
    (rest : List Char) : Separates (t.text.toList ++ rest) := by
  have hsingle {c : Char} (hnumber : isNumberPart c = false) (hident : isIdentPart c = false) :
      Separates (c :: rest) :=
    ⟨by rw [List.takeWhile_cons_of_neg (by simp [hnumber])],
      by rw [List.takeWhile_cons_of_neg (by simp [hident])]⟩
  rw [Grammar.endsExpression, Bool.or_eq_true, decide_eq_true_eq, decide_eq_true_eq] at h
  rcases h with h | h <;> rw [h] <;> exact hsingle (by decide) (by decide)

/-- The code stands on one line. -/
def IsOneLine (code : List Token) : Prop :=
  ∃ line, ∀ t ∈ code, t.line = line

/-- A run of tokens of a header on one line is a row if something that separates follows it. -/
theorem isRow_of_infix {file source : String} {front ts back code : List Token} {t : Token}
    (hcode : code <:+: (lex file source).tokens.filter Token.isCode)
    (hsplit : code = front ++ (ts ++ t :: back)) (hline : IsOneLine code)
    (ht : ∀ rest, Separates (t.text.toList ++ rest)) : IsRow ts := by
  obtain ⟨line, hline⟩ := hline
  obtain ⟨before, after, htokens⟩ := hcode
  have hstand : Stand .start source.toList ((before ++ front) ++ (ts ++ t :: (back ++ after))) := by
    have hall := stand_of_lexFrom file .start source.toList
    rw [← lex, ← htokens, hsplit] at hall
    simpa using hall
  obtain ⟨p, text, hstand⟩ := hstand.drop
  refine hstand.isRow ht fun u hu => hline u ?_
  rw [hsplit]
  rcases List.mem_append.mp hu with hu | hu
  · simp [hu]
  · simp [List.mem_singleton.mp hu]

/-! ## Written forms -/

/-- The written form of the value is the text of a row, and its number passes the check. -/
structure Value.IsStored (v : Value) : Prop where
  /-- The written form is the text of a row. -/
  row : IsRowText v.raw
  /-- The number passes the check. -/
  accepted : v.IsAccepted

/-- The value of an expression is written as the expression. -/
theorem Constant.raw_of_evaluate {table : SymbolTable} {tokens : List Token} {v : Value}
    (h : evaluate table tokens = .ok v) (hne : Token.join tokens ≠ "") :
    v.raw = Token.join tokens := by
  unfold evaluate at h
  obtain ⟨literal?, -, h⟩ := bind_eq_ok h
  cases literal? with
  | some text =>
    cases h
    exact if_neg hne
  | none =>
    obtain ⟨items, -, h⟩ := bind_eq_ok h
    obtain ⟨x, -, h⟩ := bind_eq_ok h
    cases h
    unfold numberValue
    extract_lets integer?
    cases hvalue : integer?.bind (Value.ofUInt32? · (Token.join tokens)) with
    | none => rfl
    | some v =>
      obtain ⟨n, -, hn⟩ := Option.bind_eq_some_iff.mp hvalue
      obtain ⟨-, rfl⟩ := Value.ofUInt32?_eq_some_iff.mp hn
      exact if_neg hne

namespace Grammar

/-- An expression that is a row is stored as one. -/
theorem isStored_spelledValue (table : SymbolTable) {tokens : List Token} (h : IsRow tokens)
    (hne : tokens ≠ []) : (spelledValue table tokens).IsStored := by
  unfold spelledValue
  split
  · rename_i value hvalue
    refine ⟨⟨tokens, h, ?_⟩, Constant.isAccepted_of_evaluate hvalue⟩
    exact (Constant.raw_of_evaluate hvalue (h.join_ne_empty hne)).symm
  · exact ⟨⟨tokens, h, rfl⟩, Value.isAccepted_ofRaw _⟩

/-- A number that passes the check is stored as a row. -/
theorem isStored_ofNumber {n : Int} (h : 0 ≤ n ∧ n < 0x100000000) : (Value.ofNumber n "").IsStored := by
  refine ⟨?_, Value.isAccepted_ofNumber h ""⟩
  obtain ⟨m, rfl⟩ := Int.eq_ofNat_of_zero_le h.1
  exact isRowText_toString m

/-- What follows a stored value is stored. -/
theorem isStored_successor {v : Value} (h : v.IsStored) : (successor v).IsStored := by
  have hraw : (Value.ofRaw ("(" ++ v.raw ++ ") + 1")).IsStored :=
    ⟨h.row.incremented, Value.isAccepted_ofRaw _⟩
  unfold successor
  cases hnumber : v.uint32 with
  | none => exact hraw
  | some n =>
    dsimp only
    by_cases hlarge : n < largest
    · rw [if_pos hlarge]
      have hbounds := h.accepted.bounds hnumber
      unfold largest at hlarge
      exact isStored_ofNumber (by omega)
    · rw [if_neg hlarge]
      exact hraw

/-- **Stored values.**  The constants of a body have stored values if their expressions are rows. -/
theorem isStored_valued {table : SymbolTable} {previous : Option Value} {constants : List BodyConstant}
    (hrows : ∀ k ∈ constants, ∀ tokens, k.expression = some tokens → tokens ≠ [] ∧ IsRow tokens)
    (hprevious : ∀ v ∈ previous, v.IsStored) {x : Enumerator}
    (hx : x ∈ valued table previous constants) : x.value.IsStored := by
  induction constants generalizing table previous with
  | nil => cases hx
  | cons k rest ih =>
    have hvalue : (constantValue table previous k).IsStored := by
      unfold constantValue
      cases hexpression : k.expression with
      | some tokens =>
        obtain ⟨hne, hrow⟩ := hrows k List.mem_cons_self tokens hexpression
        exact isStored_spelledValue table hrow hne
      | none =>
        cases previous with
        | none => exact isStored_ofNumber (by decide)
        | some v => exact isStored_successor (hprevious v rfl)
    rcases List.mem_cons.mp hx with rfl | hx
    · exact hvalue
    · refine ih (fun k' hk' => hrows k' (List.mem_cons_of_mem k hk')) ?_ hx
      rintro _ ⟨⟩
      exact hvalue

/-- **Written forms.**  The constants of an enumeration on one line of a header have written forms that
are rows. -/
theorem isRowText_of_writes {file source : String} {code : List Token} {e : Enumeration}
    (h : HeaderWrites file source code e) (hline : IsOneLine code) {x : Enumerator}
    (hx : x ∈ e.enumerators) : IsRowText x.value.raw := by
  obtain ⟨hcode, opening, body, name, semicolon, constants, table, hsplit, -, hbody, -, -, rfl⟩ := h
  refine (isStored_valued (fun k hk tokens htokens => ?_)
    (fun v hv => absurd hv (Option.not_mem_none v)) hx).row
  obtain ⟨hne, front, separator, back, rfl, hends⟩ := hbody.exists_split hk htokens
  have hplace : code = (opening ++ front) ++ (tokens ++ separator :: (back ++ [name, semicolon])) := by
    rw [hsplit]
    simp
  exact ⟨hne, isRow_of_infix hcode hplace hline (separates_of_endsExpression hends)⟩

end Grammar

namespace Transform

open Grammar

/-- The prefixes of the vendor are names. -/
theorem isName_of_mem_stripPrefixes : ∀ part ∈ Settings.default.stripPrefixes, IsName part := by
  decide +kernel

/-- **Removing prefixes from written forms.**  Every enumeration of a header that has been read is
declared by a piece of its code.  If that is on one line, the written form of a constant is cut to
tokens.  What is left of it once the prefixes of the vendor have been removed is cut to the same tokens,
with the prefixes removed from the identifiers, exactly if no token is harmed. -/
theorem normalizeHeader_keepsTokens {strict : Bool} {file source : String} {session : Session}
    {h : Header} (hread : (readHeader strict file source session).1 = .ok h) {j : Nat}
    {e : Enumeration} (he : h.enums[j]? = some e) :
    ∃ e', (normalizeHeader Settings.default.stripPrefixes h).enums[j]? = some e' ∧
      (∃ code, HeaderWrites file source code e) ∧
      ∀ code, HeaderWrites file source code e → IsOneLine code →
        ∀ (i : Nat) (x : Enumerator), e.enumerators[i]? = some x →
          ∃ (x' : Enumerator) (ts : List Token), e'.enumerators[i]? = some x' ∧
            codeTokens x.value.raw = .ok ts ∧
            (KeepsTokens Settings.default.stripPrefixes ts x'.value.raw ↔
              AreSpared Settings.default.stripPrefixes ts) := by
  refine ⟨normalizeEnum (normalize Settings.default.stripPrefixes) e,
    by rw [normalizeHeader, List.getElem?_map, he]; rfl,
    readHeader_writes hread (List.mem_of_getElem? he), fun code hwrites hline i x hx => ?_⟩
  have hrow := isRowText_of_writes hwrites hline (List.mem_of_getElem? hx)
  obtain ⟨ts, hts, hrow, hjoin⟩ := hrow.codeTokens
  refine ⟨_, ts, by rw [normalizeEnum, List.getElem?_map, hx]; rfl, hts, ?_⟩
  dsimp only
  rw [← hjoin]
  exact keepsTokens_normalize_iff isName_of_mem_stripPrefixes hrow

/-- An enumeration whose constants refer to others. -/
def referringSource : String :=
  "typedef enum { A = D3D11_BIND | 0x2, B } D3D11_KIND;\n"

/-- No token of theirs is harmed. -/
theorem normalizeHeader_keepsTokens_referring :
    ∃ h e e', (readHeader false "a.h" referringSource .start).1 = .ok h ∧ h.enums[0]? = some e ∧
      (normalizeHeader Settings.default.stripPrefixes h).enums[0]? = some e' ∧
      e.enumerators.map (fun x => x.value.raw) = ["D3D11_BIND | 0x2", "(D3D11_BIND | 0x2) + 1"] ∧
      e'.enumerators.map (fun x => x.value.raw) = ["BIND | 0x2", "(BIND | 0x2) + 1"] ∧
      ∀ (i : Nat) (x : Enumerator), e.enumerators[i]? = some x →
        ∃ (x' : Enumerator) (ts : List Token), e'.enumerators[i]? = some x' ∧
          codeTokens x.value.raw = .ok ts ∧
          KeepsTokens Settings.default.stripPrefixes ts x'.value.raw := by
  have hread : (readHeader false "a.h" referringSource .start).1.toOption.any (fun h =>
      h.enums[0]?.any fun e =>
        (normalizeHeader Settings.default.stripPrefixes h).enums[0]?.any fun e' =>
          decide (e.enumerators.map (fun x => x.value.raw) =
              ["D3D11_BIND | 0x2", "(D3D11_BIND | 0x2) + 1"] ∧
            e'.enumerators.map (fun x => x.value.raw) = ["BIND | 0x2", "(BIND | 0x2) + 1"])) = true := by
    -- evaluated from the characters of the text, so that the kernel builds no bytes
    have hsource : referringSource.toList = _ := String.toList_ofList
    rw [readHeader, header, lex, hsource]
    decide +kernel
  have hspared : ∀ raw ∈ ["D3D11_BIND | 0x2", "(D3D11_BIND | 0x2) + 1"],
      ∀ ts ∈ (codeTokens raw).toOption, AreSpared Settings.default.stripPrefixes ts := by
    decide +kernel
  have hline : ∀ t ∈ (lex "a.h" referringSource).tokens.filter Token.isCode, t.line = 1 := by
    decide +kernel
  obtain ⟨h, hsome, hread⟩ := (Option.any_eq_true ..).mp hread
  obtain ⟨e, he, hread⟩ := (Option.any_eq_true ..).mp hread
  obtain ⟨e', he', hread⟩ := (Option.any_eq_true ..).mp hread
  obtain ⟨hraw, hraw'⟩ := of_decide_eq_true hread
  have hok := eq_ok_of_toOption hsome
  obtain ⟨_, hsame, ⟨code, hwrites⟩, hall⟩ := normalizeHeader_keepsTokens hok he
  cases hsame.symm.trans he'
  refine ⟨h, e, e', hok, he, he', hraw, hraw', fun i x hx => ?_⟩
  obtain ⟨x', ts, hx', hts, hiff⟩ :=
    hall code hwrites ⟨1, fun t ht => hline t (hwrites.1.mem ht)⟩ i x hx
  have hmem : x.value.raw ∈ ["D3D11_BIND | 0x2", "(D3D11_BIND | 0x2) + 1"] :=
    hraw ▸ List.mem_map_of_mem (List.mem_of_getElem? hx)
  exact ⟨x', ts, hx', hts, hiff.mpr (hspared _ hmem ts (by rw [hts]; rfl))⟩

/-- An enumeration with a hexadecimal number that contains a prefix. -/
def numeralSource : String :=
  "typedef enum { A = -0xD3D112 } E;\n"

/-- The number becomes another one. -/
theorem normalizeHeader_changesNumber :
    ∃ h ts us, (readHeader false "test.h" numeralSource .start).1 = .ok h ∧
      (∀ t ∈ (lex "test.h" numeralSource).tokens.filter Token.isCode, t.line = 1) ∧
      h.enums.map (fun e => e.enumerators.map fun x => x.value.raw) = [["-0xD3D112"]] ∧
      (normalizeHeader Settings.default.stripPrefixes h).enums.map
        (fun e => e.enumerators.map fun x => x.value.raw) = [["-0x2"]] ∧
      codeTokens "-0xD3D112" = .ok ts ∧ codeTokens "-0x2" = .ok us ∧
      ts.map (fun t => (t.kind, t.text)) = [(.punct, "-"), (.number, "0xD3D112")] ∧
      us.map (fun u => (u.kind, u.text)) = [(.punct, "-"), (.number, "0x2")] := by
  have hread : (readHeader false "test.h" numeralSource .start).1.toOption.any (fun h =>
      decide (h.enums.map (fun e => e.enumerators.map fun x => x.value.raw) = [["-0xD3D112"]] ∧
        (normalizeHeader Settings.default.stripPrefixes h).enums.map
          (fun e => e.enumerators.map fun x => x.value.raw) = [["-0x2"]])) = true := by
    decide +kernel
  have hcut : (codeTokens "-0xD3D112").toOption.any (fun ts =>
      decide (ts.map (fun t => (t.kind, t.text)) = [(.punct, "-"), (.number, "0xD3D112")])) = true ∧
      (codeTokens "-0x2").toOption.any (fun us =>
        decide (us.map (fun u => (u.kind, u.text)) = [(.punct, "-"), (.number, "0x2")])) = true := by
    decide +kernel
  have hline : ∀ t ∈ (lex "test.h" numeralSource).tokens.filter Token.isCode, t.line = 1 := by
    decide +kernel
  obtain ⟨h, hsome, hread⟩ := (Option.any_eq_true ..).mp hread
  obtain ⟨hraw, hraw'⟩ := of_decide_eq_true hread
  obtain ⟨ts, hts, hbefore⟩ := (Option.any_eq_true ..).mp hcut.1
  obtain ⟨us, hus, hafter⟩ := (Option.any_eq_true ..).mp hcut.2
  exact ⟨h, ts, us, eq_ok_of_toOption hsome, hline, hraw, hraw', eq_ok_of_toOption hts,
    eq_ok_of_toOption hus, of_decide_eq_true hbefore, of_decide_eq_true hafter⟩

end Transform

end SdkBindings

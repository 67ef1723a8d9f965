import SdkBindings.Proofs.Declared.Names
import SdkBindings.Proofs.Enumeration.Groups

/-!
# Where the enumerations of a header stand

Every enumeration of a header that has been read is declared by a piece of its code
(`readHeader_writes`).  That is what opens a body, the body, a name and a semicolon, and the constants
are those of the body with their values (`WritesEnumeration`).

What is read as an enumeration is such a piece (`writesEnumeration_of_exec`), because reading stops at
the first thing that is not as it should be, the end of the header included: the end is no name and no
brace.  No other declaration touches the enumerations that have been collected (`Draft.KeepsEnums`).
-/

namespace SdkBindings

open Lexer (IsPiece)

/-- What is ahead of the cursor has been cut from a text: there are pieces, and behind them the end. -/
structure Cursor.IsCut (c : Cursor) : Prop where
  /-- The tokens ahead are pieces. -/
  ahead : ∀ t ∈ c.ahead, IsPiece t
  /-- The end is one. -/
  kind : c.eof.kind = .eof
  /-- It has no text. -/
  text : c.eof.text = ""

namespace Cursor

/-- What is ahead later has been cut as well. -/
theorem IsCut.of_isBefore {c c' : Cursor} (h : c.IsCut) (hbefore : c.IsBefore c') : c'.IsCut :=
  ⟨fun t ht => h.ahead t (hbefore.mem_ahead ht), hbefore.2.1.symm ▸ h.kind,
    hbefore.2.1.symm ▸ h.text⟩

/-- The code ahead later is the end of the code ahead now. -/
theorem IsBefore.code_suffix {c c' : Cursor} (h : c.IsBefore c') : c'.code <:+ c.code := by
  obtain ⟨-, -, read, -, hahead⟩ := h
  rw [code, code, hahead]
  exact (List.suffix_append read c'.ahead).filter _

/-- Without code ahead the end is read. -/
theorem next_of_code_nil {c : Cursor} (h : c.code = []) : (c.next .code).1 = c.eof := by
  have hsettled : (c.settle .code).ahead = [] := by
    have hcode : (c.settle .code).code = [] := c.code_settle.trans h
    have hnone := takeWhile_dropWhile Token.isLineEnd c.ahead
    rw [← settle_ahead] at hnone
    cases hahead : (c.settle .code).ahead with
    | nil => rfl
    | cons t rest =>
      rw [code, hahead] at hcode
      rw [hahead] at hnone
      cases hline : t.isLineEnd <;> simp [hline] at hcode hnone
  unfold next current
  dsimp only
  rw [hsettled]
  exact (c.isBefore_settle .code).2.1

end Cursor

namespace Grammar

open Reader

section

variable {c c' : Cursor} {t : Token}

/-- A token that is read is the first of the code ahead, or the end. -/
theorem next_cases (h : Reader.next c = .ok (t, c')) :
    (c.code = t :: c'.code ∨ c.code = [] ∧ t = c.eof) ∧ c.IsBefore c' := by
  have hbefore : c.IsBefore c' := Forward.next c t c' h
  cases hcode : c.code with
  | nil =>
    refine ⟨.inr ⟨rfl, ?_⟩, hbefore⟩
    cases h
    exact Cursor.next_of_code_nil hcode
  | cons u rest =>
    obtain ⟨rfl, hrest, -⟩ := next_code h hcode
    exact ⟨.inl (by rw [hrest]), hbefore⟩

/-- Tokens that are passed are the first of the code ahead, if the last one is not the end. -/
theorem code_of_passes {ts : List Token} (hc : c.IsCut) (h : Passes c (ts ++ [t]) c')
    (htext : t.text ≠ "") : c.code = ts ++ t :: c'.code := by
  induction ts generalizing c with
  | nil =>
    obtain ⟨hcode | ⟨-, rfl⟩, -⟩ := next_cases (next_ok.mpr h)
    · exact hcode
    · exact absurd hc.text htext
  | cons u ts ih =>
    obtain ⟨hnext, hrest⟩ := h
    obtain ⟨hcases, hbefore⟩ := next_cases (next_ok.mpr ⟨hnext, rfl⟩)
    have hcode := ih (hc.of_isBefore hbefore) hrest
    rcases hcases with hfirst | ⟨hnil, -⟩
    · rw [hfirst, hcode]
      rfl
    · -- nothing is ahead of the end
      have hsuffix := hbefore.code_suffix
      rw [hnil, List.suffix_nil, hcode] at hsuffix
      simp at hsuffix

/-- What is ahead of the cursor has been cut from a text, and none of it ends an expression. -/
structure GoesOn (c : Cursor) : Prop where
  /-- It has been cut from a text. -/
  cut : c.IsCut
  /-- It ends no expression. -/
  code : ∀ t ∈ c.code, endsExpression t = false

namespace GoesOn

/-- Neither does a token that is read from it, even the end of the header. -/
theorem next (hc : GoesOn c) (h : Reader.next c = .ok (t, c')) :
    endsExpression t = false ∧ GoesOn c' := by
  obtain ⟨hcases, hbefore⟩ := next_cases h
  refine ⟨?_, hc.cut.of_isBefore hbefore, fun t ht => hc.code t (hbefore.code_suffix.mem ht)⟩
  rcases hcases with hcode | ⟨-, rfl⟩
  · exact hc.code t (hcode ▸ List.mem_cons_self)
  · rw [endsExpression, hc.cut.text]
    decide

/-- An expression goes on to the end of the header. -/
theorem takeWhile_ahead (hc : GoesOn c) :
    c.ahead.takeWhile (fun t => !endsExpression t) = c.ahead := by
  have hall : ∀ t ∈ c.ahead, (!endsExpression t) = true := by
    intro t ht
    rcases (hc.cut.ahead t ht).isCode_or_isBreak with hcode | hbreak
    · have hmem : t ∈ c.code := by
        rw [Cursor.code, List.mem_filter]
        exact ⟨ht, by simp [Token.isLineEnd_of_isCode hcode]⟩
      simp [hc.code t hmem]
    · exact not_endsExpression_of_isBreak hbreak
  have htake : (c.ahead ++ []).takeWhile (fun t => !endsExpression t) =
      c.ahead ++ [].takeWhile fun t => !endsExpression t := List.takeWhile_append_of_pos hall
  simpa using htake

/-- So none is read. -/
theorem enumExpression_ne_ok (hc : GoesOn c) (ident : String) (p : List Token × Token) :
    enumExpression ident c ≠ .ok (p, c') := by
  intro h
  rw [enumExpression_apply, hc.takeWhile_ahead, List.drop_length] at h
  obtain ⟨last, c₁, hlast, h⟩ := reader_bind_ok h
  have heof : last.kind = .eof := by
    obtain ⟨hcode | ⟨-, rfl⟩, -⟩ := next_cases hlast
    · cases hcode
    · exact hc.cut.kind
  rw [if_pos heof] at h
  cases h

/-- Nor is a constant. -/
theorem writtenEnumerator_ne_ok (hc : GoesOn c) (enum : String)
    (written? : Option WrittenEnumerator) : writtenEnumerator enum c ≠ .ok (written?, c') := by
  intro h
  obtain ⟨name, c₁, hname, h⟩ := reader_bind_ok h
  obtain ⟨hends, hc₁⟩ := hc.next hname
  have hbrace : name.text ≠ "\x7d" := by
    intro htext
    simp [endsExpression, htext] at hends
  rw [if_neg hbrace] at h
  by_cases hkind : name.kind ≠ .ident
  · rw [if_pos hkind] at h
    cases h
  rw [if_neg hkind] at h
  obtain ⟨separator, c₂, hseparator, h⟩ := reader_bind_ok h
  obtain ⟨hends, hc₂⟩ := hc₁.next hseparator
  by_cases hequals : separator.text = "="
  · rw [if_pos hequals] at h
    obtain ⟨p, c₃, hexpression, -⟩ := reader_bind_ok h
    exact hc₂.enumExpression_ne_ok _ p hexpression
  · rw [if_neg hequals, if_neg (by simp [hends])] at h
    cases h

end GoesOn

/-- Where a constant is read, something ends it. -/
theorem exists_ends_of_written {enum : String} {written? : Option WrittenEnumerator} (hc : c.IsCut)
    (h : writtenEnumerator enum c = .ok (written?, c')) :
    ∃ t ∈ c.code, endsExpression t = true := by
  refine Classical.byContradiction fun hnone => ?_
  have hgoes : GoesOn c := ⟨hc, by simpa using hnone⟩
  exact hgoes.writtenEnumerator_ne_ok enum written? h

/-- Where constants are read, a brace closes them. -/
theorem exists_brace_of_exec {enum : String} {bound : Nat} {previous : Option Value} {s s' : Session}
    {list : List Enumerator} (hc : c.IsCut) (hbound : c.code.length < bound)
    (h : (enumerators enum bound previous).exec c s = (.ok (list, c'), s')) :
    ∃ t ∈ c.code, t.text = "\x7d" := by
  induction bound generalizing c c' previous s s' list with
  | zero => exact absurd hbound (Nat.not_lt_zero _)
  | succ bound ih =>
    obtain ⟨written?, c₁, hwritten, h⟩ := exec_read_bind_ok.mp h
    obtain ⟨ts, separator, rest, hcode, hts, hends⟩ := exists_cut (exists_ends_of_written hc hwritten)
    obtain ⟨hcode₁, hpieces₁, hcases⟩ := writtenEnumerator_code hc.ahead hcode hts hends hwritten
    by_cases hbrace : separator.text = "\x7d"
    · exact ⟨separator, by rw [hcode]; simp, hbrace⟩
    obtain ⟨-, -, hother⟩ | ⟨k, -, rfl⟩ := hcases
    · exact absurd hother hbrace
    dsimp only at h
    obtain ⟨value, c₂, s₁, hlift, hafter⟩ := exec_bind_ok h
    obtain ⟨-, rfl⟩ := exec_lift_ok.mp hlift
    rw [if_neg (by simpa using hbrace)] at hafter
    obtain ⟨tail, c₃, s₂, hrest, -⟩ := exec_bind_ok hafter
    have hshorter : c₂.code.length < bound := by
      rw [hcode, List.length_append, List.length_cons] at hbound
      rw [hcode₁]
      omega
    have hc₂ : c₂.IsCut := hc.of_isBefore (forward_writtenEnumerator enum c _ c₂ hwritten)
    obtain ⟨t, ht, htext⟩ := ih hc₂ hshorter hrest
    refine ⟨t, ?_, htext⟩
    rw [hcode, ← hcode₁]
    exact List.mem_append_right _ (List.mem_cons_of_mem _ ht)

/-- Constants that are read are those of a body with their values. -/
theorem exists_valued_of_exec {enum : String} {bound : Nat} {s s' : Session} {list : List Enumerator}
    (hc : c.IsCut) (hbound : c.code.length < bound)
    (h : (enumerators enum bound none).exec c s = (.ok (list, c'), s')) :
    ∃ constants body, IsBody constants body ∧ c.code = body ++ c'.code ∧
      list = valued s.symbols none constants := by
  have hclosed := exists_brace_of_exec hc hbound h
  obtain ⟨constants, body, hbody, hcode, -⟩ := exists_isBody_of_exec hc.ahead hclosed hbound h
  have hlength : constants.length < bound := by
    have hlt := hbody.length_lt
    rw [hcode, List.length_append] at hbound
    omega
  have hfatal : IsUnfailing s.symbols none constants := by
    refine Classical.byContradiction fun hfatal => ?_
    obtain ⟨e, s₁, herror⟩ := exec_enumerators_error hbody enum hc.ahead hcode hlength hfatal
    cases herror.symm.trans h
  obtain ⟨c₁, s₁, hread, -⟩ := exec_enumerators hbody enum hc.ahead hcode hlength hfatal
  cases hread.symm.trans h
  exact ⟨constants, body, hbody, hcode, rfl⟩

/-- The code declares the enumeration: what opens a body, the body, a name and a semicolon.  The
constants are those of the body with their values, given the constants known before it. -/
def WritesEnumeration (code : List Token) (e : Enumeration) : Prop :=
  ∃ opening body name semicolon constants table,
    code = opening ++ (body ++ [name, semicolon]) ∧ IsOpening opening ∧ IsBody constants body ∧
      name.kind = .ident ∧ semicolon.text = ";" ∧ e = ⟨name.text, valued table none constants⟩

/-- What opens a body stands in front of it. -/
theorem opening_of_openBody {tag : Token} (hc : c.IsCut) (h : openBody c = .ok (some tag, c')) :
    ∃ opening, IsOpening opening ∧ c.code = opening ++ c'.code := by
  obtain ⟨more, hopening, hpasses⟩ := openBody_ok.mp h
  refine ⟨tag :: more, hopening, ?_⟩
  have hne {brace : Token} (hbrace : brace.text = "\x7b") : brace.text ≠ "" := by
    rw [hbrace]
    decide
  obtain ⟨brace, hbrace, hone | ⟨first, -, htwo⟩⟩ := hopening
  · rw [hone] at hpasses ⊢
    have hcode : c.code = [] ++ brace :: c'.code := code_of_passes hc hpasses (hne hbrace)
    exact hcode
  · rw [htwo] at hpasses ⊢
    have hcode : c.code = [first] ++ brace :: c'.code := code_of_passes hc hpasses (hne hbrace)
    exact hcode

/-- **What is read as an enumeration declares it.** -/
theorem writesEnumeration_of_exec {draft draft' : Draft} {s s' : Session} (hc : c.IsCut)
    (h : (typedefEnum draft).exec c s = (.ok (draft', c'), s')) :
    draft'.header.enums = draft.header.enums ∨
      ∃ code e, c.code = code ++ c'.code ∧ WritesEnumeration code e ∧
        draft'.header.enums = draft.header.enums ++ [e] := by
  obtain ⟨tag?, c₁, hopen, h⟩ := exec_read_bind_ok.mp h
  cases tag? with
  | none =>
    cases h
    exact .inl rfl
  | some tag =>
    right
    obtain ⟨opening, hopening, hcode⟩ := opening_of_openBody hc hopen
    have hc₁ : c₁.IsCut := hc.of_isBefore (forward_openBody c _ c₁ hopen)
    obtain ⟨e, c₂, s₂, henum, h⟩ := exec_bind_ok h
    cases h
    obtain ⟨bound, c₃, hahead, henum⟩ := exec_read_bind_ok.mp henum
    cases hahead
    obtain ⟨list, c₄, s₄, hlist, henum⟩ := exec_bind_ok henum
    obtain ⟨name, c₅, hname, henum⟩ := exec_read_bind_ok.mp henum
    obtain ⟨semicolon, c₆, hsemicolon, henum⟩ := exec_read_bind_ok.mp henum
    cases henum
    have hle : c₁.code.length ≤ c₁.ahead.length := List.length_filter_le _ _
    obtain ⟨constants, body, hbody, hcode₁, rfl⟩ :=
      exists_valued_of_exec hc₁ (Nat.lt_succ_of_le hle) hlist
    obtain ⟨hname, hkind⟩ := expectKind_ok.mp hname
    obtain ⟨hsemicolon, htext⟩ := expect_ok.mp hsemicolon
    have hc₄ : c₄.IsCut := hc₁.of_isBefore (isForward_enumerators _ _ _ _ _ _ _ _ hlist)
    have hend : c₄.code = [name] ++ semicolon :: c'.code :=
      code_of_passes hc₄ (passes_append.mpr ⟨c₅, hname, hsemicolon⟩) (by rw [htext]; decide)
    refine ⟨opening ++ (body ++ [name, semicolon]), _, ?_, ⟨opening, body, name, semicolon, constants,
      s.symbols, rfl, hopening, hbody, hkind, htext, rfl⟩, rfl⟩
    rw [hcode, hcode₁, hend]
    simp

end

/-! ## Whole headers -/

section

variable {draft : Draft}

/-- The header that is being read has the enumerations that it had. -/
def Draft.KeepsEnums (draft draft' : Draft) : Prop :=
  draft'.header.enums = draft.header.enums

/-- A directive collects no enumerations. -/
theorem keepsEnums_directive : Establishes (directive draft) draft.KeepsEnums := by
  refine .after fun word => .ite (.pure rfl) (.ite (.after fun _ => .pure rfl) (.after fun name => ?_))
  have hbody : Establishes (read readLine >>= Comparison.defineMacro draft name) draft.KeepsEnums := by
    refine .after fun body => .ite (.after fun _ => .pure rfl) ?_
    refine .after fun table => .after fun value => ?_
    cases value with
    | none => exact .pure rfl
    | some v => exact .after fun _ => .pure rfl
  exact .ite (.after fun _ => hbody) hbody

/-- An interface identifier is none. -/
theorem keepsEnums_interfaceGuid : Establishes (interfaceGuid draft) draft.KeepsEnums :=
  .after fun _ => .after fun _ => .after fun _ => .after fun _ => .pure rfl

/-- A struct is none. -/
theorem keepsEnums_typedefStruct : Establishes (typedefStruct draft) draft.KeepsEnums := by
  refine .after fun tag => ?_
  cases tag with
  | none => exact .pure rfl
  | some tag =>
    refine .after fun table => .after fun members => .after fun name => .after fun _ => .pure ?_
    rw [Draft.KeepsEnums, addStruct_eq]
    split <;> rfl

/-- A function is none. -/
theorem keepsEnums_function : Establishes (function draft) draft.KeepsEnums := by
  refine .after fun convention => .ite (.pure rfl) ?_
  refine .after fun name => .after fun _ => .after fun first => .after fun second => ?_
  exact .ite (.after fun _ => .after fun _ => .after fun _ => .after fun _ => .pure rfl)
    (.after fun table => .after fun _ => .after fun _ => .pure rfl)

/-- An interface is none. -/
theorem keepsEnums_interface : Establishes (interface draft) draft.KeepsEnums := by
  refine .after fun name => .after fun token => .ite (.pure rfl) ?_
  exact .ite (.after fun _ => .after fun table => .after fun _ => .pure rfl)
    (.after fun table => .after fun _ => .pure rfl)

end

/-- The enumeration is one of those collected already, or the code declares it. -/
def Draft.Writes (code : List Token) (draft : Draft) (e : Enumeration) : Prop :=
  e ∈ draft.header.enums ∨ ∃ piece, piece <:+: code ∧ WritesEnumeration piece e

section

variable {c c' : Cursor} {draft draft' : Draft} {s s' : Session}

/-- Without a new enumeration nothing has to be declared. -/
theorem Draft.KeepsEnums.writes (h : draft.KeepsEnums draft') {code : List Token} {e : Enumeration}
    (he : e ∈ draft'.header.enums) : draft.Writes code e :=
  .inl (h ▸ he)

/-- A type declaration collects the enumerations that its code declares. -/
theorem writes_typedef (hc : c.IsCut) (h : (typedef draft).exec c s = (.ok (draft', c'), s'))
    {e : Enumeration} (he : e ∈ draft'.header.enums) : draft.Writes c.code e := by
  obtain ⟨kind, c₁, hkind, h⟩ := exec_read_bind_ok.mp h
  have hbefore : c.IsBefore c₁ := Forward.next c kind c₁ hkind
  by_cases henum : kind.text = "enum"
  · rw [if_pos henum] at h
    rcases writesEnumeration_of_exec (hc.of_isBefore hbefore) h with
      hkeeps | ⟨code, e', hcode, hwrites, hadds⟩
    · exact .inl (hkeeps ▸ he)
    rw [hadds, List.mem_append, List.mem_singleton] at he
    rcases he with he | rfl
    · exact .inl he
    · refine .inr ⟨code, ?_, hwrites⟩
      exact (hcode ▸ (List.prefix_append code c'.code).isInfix).trans hbefore.code_suffix.isInfix
  rw [if_neg henum] at h
  have hother : Establishes (if kind.text = "struct" then typedefStruct draft
      else if kind.text = "interface" then pure draft
      else do
        let name ← read next
        if kind.text = "UINT" then pure (draft.addAlias name.text uint32Expr)
        else if kind.kind = .ident ∧ name.kind = .ident then do
          let token ← read peek
          if token.text = ";" then pure (draft.addAlias name.text kind.text) else pure draft
        else pure draft) draft.KeepsEnums := by
    refine .ite keepsEnums_typedefStruct (.ite (.pure rfl) (.after fun name => .ite (.pure rfl) ?_))
    exact .ite (.after fun token => .ite (.pure rfl) (.pure rfl)) (.pure rfl)
  exact (hother c₁ s draft' c' s' h).writes he

/-- **One declaration** collects the enumerations that its code declares. -/
theorem writes_declaration {keyword : Token} (hc : c.IsCut)
    (h : (declaration draft keyword).exec c s = (.ok (draft', c'), s'))
    {e : Enumeration} (he : e ∈ draft'.header.enums) : draft.Writes c.code e := by
  unfold declaration at h
  split at h
  · exact (keepsEnums_directive c s draft' c' s' h).writes he
  · exact (keepsEnums_interfaceGuid c s draft' c' s' h).writes he
  · exact writes_typedef hc h he
  · exact (keepsEnums_function c s draft' c' s' h).writes he
  · exact (keepsEnums_interface c s draft' c' s' h).writes he
  · cases h
    exact .inl he

/-- **Declarations** collect the enumerations that the code ahead declares. -/
theorem writes_declarations {bound : Nat} (hc : c.IsCut)
    (h : (declarations bound draft).exec c s = (.ok (draft', c'), s'))
    {e : Enumeration} (he : e ∈ draft'.header.enums) : draft.Writes c.code e := by
  induction bound generalizing c draft s with
  | zero =>
    cases h
    exact .inl he
  | succ bound ih =>
    obtain ⟨token, c₀, hpeek, h⟩ := exec_read_bind_ok.mp h
    have hbefore₀ : c.IsBefore c₀ := Forward.peek c token c₀ hpeek
    by_cases heof : token.kind = .eof
    · rw [if_pos heof] at h
      cases h
      exact .inl he
    rw [if_neg heof] at h
    obtain ⟨keyword, c₁, hkeyword, h⟩ := exec_read_bind_ok.mp h
    obtain ⟨draft₁, c₂, s₁, hread, h⟩ := exec_bind_ok h
    have hbefore₁ : c.IsBefore c₁ := hbefore₀.trans (Forward.next c₀ keyword c₁ hkeyword)
    have hbefore₂ := hbefore₁.trans (isForward_declaration draft keyword _ _ _ _ _ hread)
    rcases ih (hc.of_isBefore hbefore₂) h with he | ⟨code, hcode, hwrites⟩
    · rcases writes_declaration (hc.of_isBefore hbefore₁) hread he with he | ⟨code, hcode, hwrites⟩
      · exact .inl he
      · exact .inr ⟨code, hcode.trans hbefore₁.code_suffix.isInfix, hwrites⟩
    · exact .inr ⟨code, hcode.trans hbefore₂.code_suffix.isInfix, hwrites⟩

end

/-- The tokens of a header are ahead at its start. -/
theorem code_of_ofTokens? {file source : String} {lexed : List Token} {c : Cursor}
    (hlexed : (Lexer.lex file source).tokens? = .ok lexed)
    (hcursor : Cursor.ofTokens? file lexed = some c) :
    c.IsCut ∧ c.code = lexed.filter Token.isCode := by
  unfold Lexer.Lexed.tokens? at hlexed
  split at hlexed
  · cases hlexed
  rename_i hfailure
  cases hlexed
  obtain ⟨pieces, eof, htokens, heof, hpieces⟩ := Lexer.tokens_eq_pieces hfailure
  have htext : eof.text = "" := by
    have hmem : eof ∈ (Lexer.lexFrom file .start source.toList).tokens := htokens ▸ by simp
    rcases Lexer.isPiece_of_mem_lexFrom hmem with hpiece | ⟨-, htext⟩
    · rcases hpiece.isCode_or_isBreak with hcode | hbreak
      · simp [Token.isCode, heof] at hcode
      · cases heof.symm.trans hbreak.1
    · exact htext
  unfold Cursor.ofTokens? at hcursor
  rw [Lexer.lex, htokens, List.getLast?_concat, List.dropLast_concat] at hcursor
  dsimp only at hcursor
  rw [if_pos heof] at hcursor
  cases hcursor
  refine ⟨⟨hpieces, heof, htext⟩, ?_⟩
  have hend : [eof].filter Token.isCode = [] := by simp [Token.isCode, heof]
  rw [Lexer.lex, htokens, List.filter_append, hend, List.append_nil]
  refine List.filter_congr fun t ht => ?_
  rcases (hpieces t ht).isCode_or_isBreak with hcode | hbreak
  · simp [Token.isLineEnd_of_isCode hcode, hcode]
  · simp [Token.isLineEnd, Token.isCode, hbreak.1]

/-- A piece of the code of a header declares the enumeration. -/
def HeaderWrites (file source : String) (code : List Token) (e : Enumeration) : Prop :=
  code <:+: (Lexer.lex file source).tokens.filter Token.isCode ∧ WritesEnumeration code e

/-- **The enumerations of a header** are declared by pieces of its code. -/
theorem readHeader_writes {strict : Bool} {file source : String} {session : Session} {h : Header}
    (hread : (readHeader strict file source session).1 = .ok h) {e : Enumeration} (he : e ∈ h.enums) :
    ∃ code, HeaderWrites file source code e := by
  obtain ⟨lexed, hlexed, ⟨-, rfl⟩ | ⟨c, draft, c', s, hcursor, hrun, rfl⟩⟩ := readHeader_cases hread
  · cases he
  obtain ⟨hc, hcode⟩ := code_of_ofTokens? hlexed hcursor
  have hsame : (Lexer.lex file source).tokens = lexed := by
    unfold Lexer.Lexed.tokens? at hlexed
    split at hlexed <;> cases hlexed
    rfl
  obtain ⟨code, hinfix, hwrites⟩ := (writes_declarations hc hrun he).resolve_left List.not_mem_nil
  exact ⟨code, hsame ▸ hcode ▸ hinfix, hwrites⟩

end Grammar

end SdkBindings

import SdkBindings.Proofs.Binding.Items

/-!
# Values with commas between parentheses

The value of a constant may be thought of as grouped: a run of tokens whose parentheses balance, with
commas only between parentheses (`IsGrouped`).  The grammar does not look at parentheses, it ends a value
at the first comma.  Hence a body of grouped values is read as its values stand exactly if none of them
has a comma, and otherwise, if it is read at all, every comma inside a value begins one more constant
(`typedefEnum_grouped`).

Both readings of a body are compared by a number that is computed from its tokens alone: how many
constants there are if every comma separates (`entries`).  It is the number of constants that are read
(`IsBody.entries_eq`, since what is read is a body, `exists_isBody_of_exec`), and it is the number of
grouped constants and the commas inside them (`IsGroupedBody.entries_eq`).
-/

namespace SdkBindings.Grammar

open Reader
open Lexer (IsPiece)

/-! ## Grouped values -/

/-- How many parentheses are open behind some tokens, if `depth` of them are open in front.  None are
where one closes that has not been opened, where a comma stands outside of parentheses, and where a
brace closes. -/
def openAfter (depth : Nat) : List Token → Option Nat
  | [] => some depth
  | t :: ts =>
    if t.text = "(" then openAfter (depth + 1) ts
    else if t.text = ")" then if depth = 0 then none else openAfter (depth - 1) ts
    else if t.text = "\x7d" then none
    else if t.text = "," then if depth = 0 then none else openAfter depth ts
    else openAfter depth ts

/-- The tokens are one value if parentheses group: there are some, their parentheses balance, and all
commas stand between parentheses. -/
def IsGrouped (tokens : List Token) : Prop :=
  tokens ≠ [] ∧ openAfter 0 tokens = some 0

instance (tokens : List Token) : Decidable (IsGrouped tokens) :=
  inferInstanceAs (Decidable (_ ∧ _))

/-- The tokens of a constant: its name, and a grouped value behind an equality sign if it has one. -/
inductive IsGroupedConstant : BodyConstant → List Token → Prop
  /-- A constant without a value. -/
  | bare {name : Token} (hname : name.kind = .ident) : IsGroupedConstant ⟨name.text, none⟩ [name]
  /-- A constant with a value. -/
  | valued {name equals : Token} {tokens : List Token} (hname : name.kind = .ident)
      (hequals : equals.text = "=") (hgrouped : IsGrouped tokens) :
      IsGroupedConstant ⟨name.text, some tokens⟩ (name :: equals :: tokens)

/-- The tokens of a body of such constants up to its closing brace. -/
inductive IsGroupedBody : List BodyConstant → List Token → Prop
  /-- No constant is left. -/
  | empty {close : Token} (hclose : close.text = "\x7d") : IsGroupedBody [] [close]
  /-- The last constant has no comma behind it. -/
  | last {k : BodyConstant} {ts : List Token} {close : Token} (hk : IsGroupedConstant k ts)
      (hclose : close.text = "\x7d") : IsGroupedBody [k] (ts ++ [close])
  /-- A comma stands behind a constant. -/
  | more {k : BodyConstant} {rest : List BodyConstant} {ts us : List Token} {comma : Token}
      (hk : IsGroupedConstant k ts) (hcomma : comma.text = ",") (hrest : IsGroupedBody rest us) :
      IsGroupedBody (k :: rest) (ts ++ comma :: us)

/-- The number of commas among tokens. -/
def commas (tokens : List Token) : Nat :=
  tokens.countP fun t => t.text = ","

/-- The number of commas inside the value of a constant. -/
def BodyConstant.innerCommas (k : BodyConstant) : Nat :=
  (k.expression.map commas).getD 0

/-- The number of commas inside the values of constants. -/
def innerCommas : List BodyConstant → Nat
  | [] => 0
  | k :: rest => k.innerCommas + innerCommas rest

/-- Each token of a grouped value is no closing brace, and behind a comma a parenthesis is open. -/
theorem openAfter_cons {depth n : Nat} {t : Token} {ts : List Token}
    (h : openAfter depth (t :: ts) = some n) :
    t.text ≠ "\x7d" ∧ ∃ depth', openAfter depth' ts = some n ∧ (t.text = "," → 0 < depth') := by
  rw [openAfter] at h
  split at h
  · rename_i hopen
    rw [hopen]
    exact ⟨by decide, _, h, fun hcomma => absurd hcomma (by decide)⟩
  split at h
  · rename_i hclose
    rw [hclose]
    split at h
    · cases h
    · exact ⟨by decide, _, h, fun hcomma => absurd hcomma (by decide)⟩
  split at h
  · cases h
  rename_i hbrace
  split at h
  · split at h
    · cases h
    · exact ⟨hbrace, depth, h, fun _ => Nat.pos_of_ne_zero ‹_›⟩
  · exact ⟨hbrace, depth, h, fun hcomma => absurd hcomma ‹_›⟩

/-- A grouped value without commas has nothing that ends it. -/
theorem not_ends_of_openAfter {depth n : Nat} {tokens : List Token}
    (h : openAfter depth tokens = some n) (hcommas : commas tokens = 0) :
    ∀ t ∈ tokens, t.text ≠ "," ∧ t.text ≠ "\x7d" := by
  induction tokens generalizing depth with
  | nil => exact nofun
  | cons t ts ih =>
    rw [commas, List.countP_cons, Nat.add_eq_zero_iff] at hcommas
    obtain ⟨hbrace, depth', hrest, -⟩ := openAfter_cons h
    have hcomma : t.text ≠ "," := by simpa using hcommas.2
    exact List.forall_mem_cons.mpr ⟨⟨hcomma, hbrace⟩, ih hrest hcommas.1⟩

/-- A grouped constant without inner commas is one that the grammar reads as it stands. -/
theorem IsGroupedConstant.isConstant {k : BodyConstant} {ts : List Token}
    (h : IsGroupedConstant k ts) (hcommas : k.innerCommas = 0) : IsConstant k ts := by
  cases h with
  | bare hname => exact .bare hname
  | valued hname hequals hgrouped =>
    exact .valued hname hequals hgrouped.1 (not_ends_of_openAfter hgrouped.2 hcommas)

/-- A grouped body without inner commas is one that the grammar reads as it stands. -/
theorem IsGroupedBody.isBody {constants : List BodyConstant} {body : List Token}
    (h : IsGroupedBody constants body) (hcommas : innerCommas constants = 0) :
    IsBody constants body := by
  induction h with
  | empty hclose => exact .empty hclose
  | last hk hclose => exact .last (hk.isConstant (by simpa [innerCommas] using hcommas)) hclose
  | more hk hcomma _ ih =>
    rw [innerCommas, Nat.add_eq_zero_iff] at hcommas
    exact .more (hk.isConstant hcommas.1) hcomma (ih hcommas.2)

/-- A grouped body ends with a closing brace. -/
theorem IsGroupedBody.exists_brace {constants : List BodyConstant} {body : List Token}
    (h : IsGroupedBody constants body) : ∃ t ∈ body, t.text = "\x7d" := by
  induction h with
  | @empty close hclose => exact ⟨close, List.mem_cons_self, hclose⟩
  | @last k ts close hk hclose => exact ⟨close, by simp, hclose⟩
  | @more k constants ts us comma hk hcomma _ ih =>
    obtain ⟨t, ht, hbrace⟩ := ih
    exact ⟨t, by simp [ht], hbrace⟩

/-! ## Counting constants by their commas -/

/-- How many constants tokens hold up to the first closing brace, if every comma separates two of
them; `started` says whether one has begun. -/
def entries (started : Bool) : List Token → Nat
  | [] => 0
  | t :: ts =>
    if t.text = "\x7d" then started.toNat
    else if t.text = "," then entries false ts + 1
    else entries true ts

/-- Tokens without commas and closing braces belong to the constant that has begun. -/
theorem entries_append {ts : List Token} (hne : ts ≠ [])
    (hends : ∀ t ∈ ts, t.text ≠ "," ∧ t.text ≠ "\x7d") (started : Bool) (us : List Token) :
    entries started (ts ++ us) = entries true us := by
  induction ts generalizing started with
  | nil => exact absurd rfl hne
  | cons t ts ih =>
    obtain ⟨ht, hts⟩ := List.forall_mem_cons.mp hends
    rw [List.cons_append, entries, if_neg ht.2, if_neg ht.1]
    cases ts with
    | nil => rfl
    | cons u ts => exact ih (List.cons_ne_nil _ _) hts true

/-- Each comma of a grouped value begins one more constant; the last of them goes on behind it. -/
theorem entries_of_openAfter {depth : Nat} {ts : List Token} (h : openAfter depth ts = some 0)
    {started : Bool} (hstarted : started = true ∨ 0 < depth ∨ ts ≠ []) (us : List Token) :
    entries started (ts ++ us) = commas ts + entries true us := by
  induction ts generalizing depth started with
  | nil =>
    cases h
    obtain rfl : started = true := by simpa using hstarted
    rw [List.nil_append, commas, List.countP_nil, Nat.zero_add]
  | cons t ts ih =>
    obtain ⟨hbrace, depth', hrest, hdepth⟩ := openAfter_cons h
    rw [commas, List.countP_cons, ← commas, List.cons_append, entries, if_neg hbrace]
    by_cases hcomma : t.text = ","
    · -- inside of parentheses something has to follow
      rw [if_pos hcomma, if_pos (decide_eq_true hcomma), ih hrest (.inr (.inl (hdepth hcomma)))]
      omega
    · rw [if_neg hcomma, if_neg (by simpa using hcomma)]
      exact ih hrest (.inl rfl)

/-- A word has no text but that of a word. -/
theorem text_ne_of_ident {t : Token} (h : IsPiece t) (hkind : t.kind = .ident) {text : String}
    (htext : (text.toList.head?.any Lexer.isIdentStart) = false) : t.text ≠ text := by
  rintro rfl
  obtain ⟨c, rest, hc, ⟨hk, -⟩ | ⟨-, hstart⟩ | ⟨hk, -⟩⟩ :=
    Lexer.isOperand_of_isPiece h (.inr (.inl hkind))
  · cases hkind.symm.trans hk
  · rw [hc, List.head?_cons, Option.any_some, hstart] at htext
    cases htext
  · cases hkind.symm.trans hk

/-- The name of a constant is neither a comma nor a closing brace. -/
theorem not_ends_of_ident {t : Token} (h : IsPiece t) (hkind : t.kind = .ident) :
    t.text ≠ "," ∧ t.text ≠ "\x7d" :=
  ⟨text_ne_of_ident h hkind (by decide), text_ne_of_ident h hkind (by decide)⟩

/-- A constant is one entry. -/
theorem IsConstant.entries_append {k : BodyConstant} {ts : List Token} (h : IsConstant k ts)
    (hpieces : ∀ t ∈ ts, IsPiece t) (us : List Token) : entries false (ts ++ us) = entries true us := by
  cases h with
  | bare hname =>
    refine Grammar.entries_append (List.cons_ne_nil _ _) (fun t ht => ?_) false us
    obtain rfl := List.mem_singleton.mp ht
    exact not_ends_of_ident (hpieces t ht) hname
  | valued hname hequals _ hends =>
    obtain ⟨hfirst, -⟩ := List.forall_mem_cons.mp hpieces
    refine Grammar.entries_append (List.cons_ne_nil _ _) (List.forall_mem_cons.mpr ⟨?_, ?_⟩) false us
    · exact not_ends_of_ident hfirst hname
    · exact List.forall_mem_cons.mpr ⟨by rw [hequals]; decide, hends⟩

/-- A grouped constant is one entry and one more for each comma inside it. -/
theorem IsGroupedConstant.entries_append {k : BodyConstant} {ts : List Token}
    (h : IsGroupedConstant k ts) (hpieces : ∀ t ∈ ts, IsPiece t) (us : List Token) :
    entries false (ts ++ us) = k.innerCommas + entries true us := by
  cases h with
  | bare hname =>
    rw [(IsConstant.bare hname).entries_append hpieces us]
    exact (Nat.zero_add _).symm
  | valued hname hequals hgrouped =>
    have hfirst := not_ends_of_ident (hpieces _ List.mem_cons_self) hname
    have hsecond := entries_of_openAfter hgrouped.2 (.inl (rfl : true = true)) us
    rw [List.cons_append, List.cons_append, entries, if_neg hfirst.2, if_neg hfirst.1, entries,
      if_neg (by rw [hequals]; decide), if_neg (by rw [hequals]; decide)]
    exact hsecond

/-- The constants of a body are its entries. -/
theorem IsBody.entries_eq {constants : List BodyConstant} {body : List Token}
    (h : IsBody constants body) (hpieces : ∀ t ∈ body, IsPiece t) (us : List Token) :
    entries false (body ++ us) = constants.length := by
  induction h with
  | empty hclose =>
    rw [List.singleton_append, entries, if_pos hclose]
    rfl
  | last hk hclose =>
    obtain ⟨hts, -⟩ := List.forall_mem_append.mp hpieces
    rw [List.append_assoc, hk.entries_append hts, List.singleton_append, entries, if_pos hclose]
    rfl
  | more hk hcomma _ ih =>
    obtain ⟨hts, hrest⟩ := List.forall_mem_append.mp hpieces
    obtain ⟨-, hus⟩ := List.forall_mem_cons.mp hrest
    rw [List.append_assoc, hk.entries_append hts, List.cons_append, entries,
      if_neg (by rw [hcomma]; decide), if_pos hcomma, ih hus, List.length_cons]

/-- The constants of a grouped body and the commas inside them are its entries. -/
theorem IsGroupedBody.entries_eq {constants : List BodyConstant} {body : List Token}
    (h : IsGroupedBody constants body) (hpieces : ∀ t ∈ body, IsPiece t) (us : List Token) :
    entries false (body ++ us) = constants.length + innerCommas constants := by
  induction h with
  | empty hclose =>
    rw [List.singleton_append, entries, if_pos hclose]
    rfl
  | @last k ts close hk hclose =>
    obtain ⟨hts, -⟩ := List.forall_mem_append.mp hpieces
    rw [List.append_assoc, hk.entries_append hts, List.singleton_append, entries, if_pos hclose]
    exact Nat.add_comm _ _
  | @more k constants ts us' comma hk hcomma _ ih =>
    obtain ⟨hts, hrest⟩ := List.forall_mem_append.mp hpieces
    obtain ⟨-, hus⟩ := List.forall_mem_cons.mp hrest
    rw [List.append_assoc, hk.entries_append hts, List.cons_append, entries,
      if_neg (by rw [hcomma]; decide), if_pos hcomma, ih hus, List.length_cons, innerCommas]
    omega

/-! ## What is read is a body -/

/-- Tokens that hold something with a property are cut at the first of it. -/
theorem exists_cut {p : Token → Bool} {tokens : List Token} (h : ∃ t ∈ tokens, p t = true) :
    ∃ ts t rest, tokens = ts ++ t :: rest ∧ (∀ u ∈ ts, p u = false) ∧ p t = true := by
  induction tokens with
  | nil =>
    obtain ⟨t, ht, -⟩ := h
    cases ht
  | cons u us ih =>
    cases hu : p u with
    | true => exact ⟨[], u, us, rfl, nofun, hu⟩
    | false =>
      obtain ⟨t, ht, hp⟩ := h
      rcases List.mem_cons.mp ht with rfl | ht
      · cases hu.symm.trans hp
      · obtain ⟨ts, v, rest, rfl, hts, hv⟩ := ih ⟨t, ht, hp⟩
        exact ⟨u :: ts, v, rest, rfl, List.forall_mem_cons.mpr ⟨hu, hts⟩, hv⟩

/-- What is read is the first token of the code ahead. -/
theorem next_code {c c' : Cursor} {t u : Token} {rest : List Token}
    (h : Reader.next c = .ok (t, c')) (hcode : c.code = u :: rest) :
    t = u ∧ c'.code = rest ∧ c.IsBefore c' := by
  obtain ⟨hfirst, hrest⟩ := Cursor.next_of_code hcode
  cases h
  exact ⟨hfirst, hrest, c.isBefore_next .code⟩

section

variable {c c' : Cursor} {separator : Token} {rest : List Token}

/-- An expression that is read is not empty. -/
theorem enumExpression_ne_nil {ident : String} {p : List Token × Token}
    (hpieces : ∀ t ∈ c.ahead, IsPiece t) {tokens : List Token}
    (hcode : c.code = tokens ++ separator :: rest)
    (hends : endsExpression separator = true) (h : enumExpression ident c = .ok (p, c')) :
    tokens ≠ [] := by
  rintro rfl
  have hlines : ∀ t ∈ c.ahead, (!t.isLineEnd) = false → (!endsExpression t) = true := by
    intro t ht hline
    rcases (hpieces t ht).isCode_or_isBreak with h | h
    · simp [Token.isLineEnd_of_isCode h] at hline
    · exact not_endsExpression_of_isBreak h
  obtain ⟨htake, -⟩ := filter_takeWhile hlines
  rw [show c.ahead.filter _ = separator :: rest from hcode,
    List.takeWhile_cons_of_neg (by simp [hends])] at htake
  rw [enumExpression_apply, htake] at h
  obtain ⟨token, c₁, -, h⟩ := reader_bind_ok h
  by_cases heof : token.kind = .eof
  · rw [if_pos heof] at h
    cases h
  · rw [if_neg heof] at h
    cases h

/-- Only a brace is read in place of a constant. -/
theorem brace_of_written {enum : String} {written? : Option WrittenEnumerator}
    (hseparator : IsPiece separator) (hcode : c.code = separator :: rest)
    (hends : separator.text = "," ∨ separator.text = "\x7d")
    (h : writtenEnumerator enum c = .ok (written?, c')) : separator.text = "\x7d" := by
  refine hends.resolve_left fun hcomma => ?_
  obtain ⟨first, c₁, hfirst, h⟩ := reader_bind_ok h
  rw [(next_code hfirst hcode).1, if_neg (by rw [hcomma]; decide)] at h
  by_cases hkind : separator.kind = .ident
  · exact absurd hcomma (not_ends_of_ident hseparator hkind).1
  · rw [if_pos hkind] at h
    cases h

/-- What is read as a constant is one, up to the first token that ends it. -/
theorem exists_isConstant_of_written {enum : String} {written? : Option WrittenEnumerator}
    (hpieces : ∀ t ∈ c.ahead, IsPiece t) {name : Token} {ts : List Token}
    (hcode : c.code = name :: (ts ++ separator :: rest))
    (hts : ∀ t ∈ name :: ts, t.text ≠ "," ∧ t.text ≠ "\x7d") (hends : endsExpression separator = true)
    (h : writtenEnumerator enum c = .ok (written?, c')) : ∃ k, IsConstant k (name :: ts) := by
  obtain ⟨first, c₁, hfirst, h⟩ := reader_bind_ok h
  obtain ⟨rfl, hcode₁, hbefore₁⟩ := next_code hfirst hcode
  obtain ⟨hname, hts⟩ := List.forall_mem_cons.mp hts
  rw [if_neg hname.2] at h
  by_cases hkind : first.kind ≠ .ident
  · rw [if_pos hkind] at h
    cases h
  rw [if_neg hkind] at h
  have hkind := Classical.not_not.mp hkind
  obtain ⟨second, c₂, hsecond, h⟩ := reader_bind_ok h
  cases ts with
  | nil => exact ⟨⟨first.text, none⟩, .bare hkind⟩
  | cons equals tokens =>
    obtain ⟨rfl, hcode₂, hbefore₂⟩ := next_code hsecond hcode₁
    obtain ⟨hequals, htokens⟩ := List.forall_mem_cons.mp hts
    by_cases hsign : second.text = "="
    · rw [if_pos hsign] at h
      obtain ⟨p, c₃, hexpression, -⟩ := reader_bind_ok h
      have hforward := hbefore₁.trans hbefore₂
      have hne := enumExpression_ne_nil (fun t ht => hpieces t (hforward.mem_ahead ht)) hcode₂ hends
        hexpression
      exact ⟨⟨first.text, some tokens⟩, .valued hkind hsign hne htokens⟩
    · rw [if_neg hsign, if_neg (by simp [endsExpression, hequals])] at h
      cases h

/-- A constant is read up to the first token that ends it.  Nothing is read where the closing brace comes
first. -/
theorem writtenEnumerator_code {enum : String} {written? : Option WrittenEnumerator}
    (hpieces : ∀ t ∈ c.ahead, IsPiece t) {ts : List Token} (hcode : c.code = ts ++ separator :: rest)
    (hts : ∀ t ∈ ts, endsExpression t = false) (hends : endsExpression separator = true)
    (h : writtenEnumerator enum c = .ok (written?, c')) :
    c'.code = rest ∧ (∀ t ∈ c'.ahead, IsPiece t) ∧
      (written? = none ∧ ts = [] ∧ separator.text = "\x7d" ∨
        ∃ k, IsConstant k ts ∧ written? = some ⟨k.ident, k.expression, separator.text = "\x7d"⟩) := by
  have hmem : ∀ t ∈ c.code, IsPiece t := fun t ht => hpieces t (List.mem_filter.mp ht).1
  rw [hcode, List.forall_mem_append] at hmem
  have hseparator : separator.text = "," ∨ separator.text = "\x7d" := by
    simpa [endsExpression] using hends
  cases ts with
  | nil =>
    rw [List.nil_append] at hcode
    have hbrace := brace_of_written (hmem.2 _ List.mem_cons_self) hcode hseparator h
    obtain ⟨c₁, hclose, hpieces₁, hcode₁⟩ := consumes_close hbrace enum c rest hpieces hcode
    cases hclose.symm.trans h
    exact ⟨hcode₁, hpieces₁, .inl ⟨rfl, rfl, hbrace⟩⟩
  | cons name ts =>
    have hplain : ∀ t ∈ name :: ts, t.text ≠ "," ∧ t.text ≠ "\x7d" := fun t ht => by
      simpa [endsExpression] using hts t ht
    obtain ⟨k, hk⟩ := exists_isConstant_of_written hpieces hcode hplain hends h
    -- a constant is read in one way only
    obtain ⟨c₁, hread, hpieces₁, hcode₁⟩ := consumes_writtenEnumerator hk hmem.1 hseparator enum c
      rest hpieces (by rw [hcode, List.append_assoc]; rfl)
    cases hread.symm.trans h
    exact ⟨hcode₁, hpieces₁, .inr ⟨k, hk, rfl⟩⟩

end

/-- Constants that are read are those of a body, which ends with the first closing brace. -/
theorem exists_isBody_of_exec {enum : String} {bound : Nat} {previous : Option Value} {c c' : Cursor}
    {s s' : Session} {list : List Enumerator} (hpieces : ∀ t ∈ c.ahead, IsPiece t)
    (hclosed : ∃ t ∈ c.code, t.text = "\x7d") (hbound : c.code.length < bound)
    (h : (enumerators enum bound previous).exec c s = (.ok (list, c'), s')) :
    ∃ constants body, IsBody constants body ∧ c.code = body ++ c'.code ∧
      list.map Enumerator.ident = constants.map BodyConstant.ident := by
  induction bound generalizing c previous s list with
  | zero => exact absurd hbound (Nat.not_lt_zero _)
  | succ bound ih =>
    obtain ⟨t, ht, htext⟩ := hclosed
    obtain ⟨ts, separator, rest, hcode, hts, hends⟩ :=
      exists_cut (p := endsExpression) ⟨t, ht, by simp [endsExpression, htext]⟩
    obtain ⟨written?, c₁, hwritten, h⟩ := exec_read_bind_ok.mp h
    obtain ⟨hcode₁, hpieces₁, hcases⟩ := writtenEnumerator_code hpieces hcode hts hends hwritten
    rcases hcases with ⟨rfl, rfl, hbrace⟩ | ⟨k, hk, rfl⟩
    · cases h
      exact ⟨[], [separator], .empty hbrace, by rw [hcode, hcode₁]; rfl, rfl⟩
    dsimp only at h
    obtain ⟨value, c₂, s₁, hlift, hafter⟩ := exec_bind_ok h
    obtain ⟨-, rfl⟩ := exec_lift_ok.mp hlift
    by_cases hbrace : separator.text = "\x7d"
    · rw [if_pos (decide_eq_true hbrace)] at hafter
      cases hafter
      refine ⟨[k], ts ++ [separator], .last hk hbrace, ?_, rfl⟩
      rw [hcode, hcode₁, List.append_assoc]
      rfl
    · rw [if_neg (by simpa using hbrace)] at hafter
      obtain ⟨tail, c₃, s₂, hrest, hlist⟩ := exec_bind_ok hafter
      cases hlist
      have hcomma : separator.text = "," :=
        (by simpa [endsExpression] using hends : _ ∨ _).resolve_right hbrace
      have hclosed₁ : ∃ u ∈ c₂.code, u.text = "\x7d" := by
        rw [hcode] at ht
        rcases List.mem_append.mp ht with ht | ht
        · have hgoes := hts t ht
          simp [endsExpression, htext] at hgoes
        rcases List.mem_cons.mp ht with rfl | ht
        · exact absurd htext hbrace
        · exact ⟨t, hcode₁ ▸ ht, htext⟩
      have hshorter : c₂.code.length < bound := by
        rw [hcode, List.length_append, List.length_cons] at hbound
        rw [hcode₁]
        omega
      obtain ⟨constants, body, hbody, hbehind, hidents⟩ := ih hpieces₁ hclosed₁ hshorter hrest
      refine ⟨k :: constants, ts ++ separator :: body, .more hk hcomma hbody, ?_, ?_⟩
      · rw [hcode, ← hcode₁, hbehind, List.append_assoc]
        rfl
      · rw [List.map_cons, List.map_cons, hidents]

/-! ## Expressions that stop the run -/

section

variable {α β : Type} {c : Cursor} {s s' : Session} {f : Failure}

/-- A statement fails with its first part. -/
theorem exec_bind_error {m : Statement α} {k : α → Statement β} (h : m.exec c s = (.error f, s')) :
    (m >>= k).exec c s = (.error f, s') := by
  show (m c >>= fun p => k p.1 p.2).run s = _
  rw [run_bind, show (m c).run s = _ from h]

/-- An action that fails is a statement that fails. -/
theorem exec_lift_error {m : InSession α} (h : m.run s = (.error f, s')) :
    (liftM m : Statement α).exec c s = (.error f, s') := by
  show (m >>= fun a => pure (a, c)).run s = _
  rw [run_bind, h]

end

/-- An expression stops the run with its error if that is not of the kind that is left alone. -/
theorem run_expressionValue_error {s : Session} {tokens : List Token} {e : Constant.Error}
    (h : Constant.evaluate s.symbols tokens = .error e) (hclass : e.class ≠ .unsupported) :
    ∃ s', (expressionValue tokens).run s = (.error (.constant e), s') := by
  have hsymbols : (expressionValue tokens).run s =
      (do
        let value ← evaluated (Constant.notes s.symbols tokens) (Constant.evaluate s.symbols tokens)
          fun e => debug ("Keeping raw enum value " ++ Text.quote (Token.join tokens) ++ ": " ++ e.message)
        pure (value.getD (.ofRaw (Token.join tokens))) : InSession Value).run s := rfl
  rw [hsymbols]
  unfold evaluated
  rw [h]
  dsimp only
  rw [if_neg hclass]
  exact ⟨_, rfl⟩

/-- The expression of a constant stops the run. -/
def Stops (table : SymbolTable) (k : BodyConstant) : Prop :=
  ∃ tokens ∈ k.expression, ∃ e, Constant.evaluate table tokens = .error e ∧ e.class ≠ .unsupported

/-- If an expression stops the run, it is that of the first constant or of one behind it. -/
theorem stops_of_not_isUnfailing {table : SymbolTable} {previous : Option Value} {k : BodyConstant}
    {rest : List BodyConstant} (h : ¬ IsUnfailing table previous (k :: rest)) :
    Stops table k ∨
      (∀ tokens ∈ k.expression, ∀ e, Constant.evaluate table tokens = .error e →
        e.class = .unsupported) ∧
      ¬ IsUnfailing (knownWith table ⟨k.ident, constantValue table previous k⟩)
        (some (constantValue table previous k)) rest := by
  by_cases hstops : Stops table k
  · exact .inl hstops
  have hhead : ∀ tokens ∈ k.expression, ∀ e, Constant.evaluate table tokens = .error e →
      e.class = .unsupported := by
    intro tokens htokens e he
    by_cases hclass : e.class = .unsupported
    · exact hclass
    · exact absurd ⟨tokens, htokens, e, he, hclass⟩ hstops
  refine .inr ⟨hhead, fun htail => h fun i k' hk' => ?_⟩
  cases i with
  | zero =>
    obtain rfl := Option.some.inj hk'
    exact hhead
  | succ i => exact htail i k' hk'

/-- Reading constants fails with the error of the first one if that stops the run. -/
theorem exec_enumerators_stops {k : BodyConstant} {isLast : Bool} {enum : String} {bound : Nat}
    {previous : Option Value} {c c₁ : Cursor} {s : Session}
    (hread : writtenEnumerator enum c = .ok (some ⟨k.ident, k.expression, isLast⟩, c₁))
    (h : Stops s.symbols k) :
    ∃ e s', (enumerators enum (bound + 1) previous).exec c s = (.error (.constant e), s') := by
  obtain ⟨tokens, htokens, e, he, hclass⟩ := h
  obtain ⟨s', hexpression⟩ := run_expressionValue_error he hclass
  have hrun : (enumeratorValue previous ⟨k.ident, k.expression, isLast⟩).run s =
      (.error (.constant e), s') := by
    rw [Option.mem_def.mp htokens]
    show (expressionValue tokens >>= _).run s = _
    rw [run_bind, hexpression]
  refine ⟨e, s', ?_⟩
  rw [enumerators, exec_bind (exec_read_ok.mpr ⟨hread, rfl⟩)]
  exact exec_bind_error (exec_lift_error hrun)

/-- A body with an expression that stops the run fails with the error of an expression. -/
theorem exec_enumerators_error {constants : List BodyConstant} {body : List Token}
    (hbody : IsBody constants body) (enum : String) {bound : Nat} {previous : Option Value}
    {c : Cursor} {s : Session} {rest : List Token} (hpieces : ∀ t ∈ c.ahead, IsPiece t)
    (hcode : c.code = body ++ rest) (hbound : constants.length < bound)
    (hfatal : ¬ IsUnfailing s.symbols previous constants) :
    ∃ e s', (enumerators enum bound previous).exec c s = (.error (.constant e), s') := by
  have hahead {c : Cursor} {ts us : List Token} (hpieces : ∀ t ∈ c.ahead, IsPiece t)
      (hcode : c.code = ts ++ us) : ∀ t ∈ ts, IsPiece t := by
    intro t ht
    have hmem : t ∈ c.code := hcode ▸ List.mem_append_left us ht
    exact hpieces t (List.mem_filter.mp hmem).1
  induction hbody generalizing bound previous c s with
  | empty => exact absurd (fun i k hk => nomatch hk) hfatal
  | @last k ts close hk hclose =>
    cases bound with
    | zero => exact absurd hbound (Nat.not_lt_zero _)
    | succ bound =>
      rw [List.append_assoc] at hcode
      obtain ⟨c', hread, -⟩ := consumes_writtenEnumerator hk (hahead hpieces hcode) (.inr hclose) enum c
        rest hpieces (hcode.trans (List.append_assoc ..).symm)
      rcases stops_of_not_isUnfailing hfatal with hstops | ⟨-, htail⟩
      · exact exec_enumerators_stops hread hstops
      · exact absurd (fun i k hk => nomatch hk) htail
  | @more k constants ts us comma hk hcomma _ ih =>
    cases bound with
    | zero => exact absurd hbound (Nat.not_lt_zero _)
    | succ bound =>
      rw [List.append_assoc, List.cons_append] at hcode
      obtain ⟨c₁, hread, hpieces₁, hcode₁⟩ := consumes_writtenEnumerator hk (hahead hpieces hcode)
        (.inl hcomma) enum c (us ++ rest) hpieces (by rw [hcode, List.append_assoc]; rfl)
      rcases stops_of_not_isUnfailing hfatal with hstops | ⟨hhead, htail⟩
      · exact exec_enumerators_stops hread hstops
      obtain ⟨s₁, hrun, hsymbols⟩ := run_enumeratorValue previous (decide (comma.text = "\x7d")) hhead
      rw [← hsymbols] at htail
      obtain ⟨e, s', hrest⟩ := ih hpieces₁ hcode₁ (Nat.lt_of_succ_lt_succ hbound) htail
      refine ⟨e, s', ?_⟩
      rw [enumerators, exec_bind (exec_read_ok.mpr ⟨hread, rfl⟩)]
      dsimp only
      rw [exec_bind (exec_lift_ok.mpr ⟨hrun, rfl⟩), if_neg (by rw [hcomma]; decide)]
      exact exec_bind_error hrest

/-! ## Whole enumerations -/

/-- How an enumeration goes whose values are grouped: it is read as it stands if no value has a comma,
and otherwise every comma inside a value begins one more constant. -/
structure ReadsGrouped (draft : Draft) (s : Session) (c : Cursor) (constants : List BodyConstant)
    (name : Token) (rest : List Token) : Prop where
  /-- Without commas inside values, and with no expression that stops the run, there is one constant for
  each that is written, each with its value; what has none keeps its whole text. -/
  plain : innerCommas constants = 0 → IsUnfailing s.symbols none constants →
    ∃ list c' s', (typedefEnum draft).exec c s =
        (.ok ({ draft with header := { draft.header with
          enums := draft.header.enums ++ [⟨name.text, list⟩] } }, c'), s') ∧
      c'.code = rest ∧ list.length = constants.length ∧ IsValuation s.symbols none constants list ∧
      ∀ i k tokens e, constants[i]? = some k → tokens ∈ k.expression →
        Constant.evaluate ((list.take i).foldl knownWith s.symbols) tokens = .error e →
        (list[i]?).map Enumerator.value = some (.ofRaw (Token.join tokens))
  /-- Without commas inside values nothing but an expression fails. -/
  failing : innerCommas constants = 0 → ¬ IsUnfailing s.symbols none constants →
    ∃ e s', (typedefEnum draft).exec c s = (.error (.constant e), s')
  /-- Every comma inside a value makes one more constant of an enumeration that is read. -/
  counted : ∀ draft' c' s', (typedefEnum draft).exec c s = (.ok (draft', c'), s') →
    ∃ e, draft' = { draft with header := { draft.header with enums := draft.header.enums ++ [e] } } ∧
      e.enumerators.length = constants.length + innerCommas constants

/-- **Grouped values.**  An enumeration whose values are grouped is read as it stands, without a syntax
error, if no value has a comma; and if one has, it is never read with one constant for each that is
written. -/
theorem typedefEnum_grouped (draft : Draft) (s : Session) {c : Cursor}
    (hpieces : ∀ t ∈ c.ahead, IsPiece t) {opening body rest : List Token} {name semicolon : Token}
    (hcode : c.code = opening ++ (body ++ (name :: semicolon :: rest)))
    (hopening : IsOpening opening) {constants : List BodyConstant}
    (hbody : IsGroupedBody constants body) (hname : name.kind = .ident)
    (hsemicolon : semicolon.text = ";") : ReadsGrouped draft s c constants name rest := by
  obtain ⟨tag, hopen⟩ := consumes_openBody hopening
  obtain ⟨c₁, hread₁, hpieces₁, hcode₁⟩ := hopen c _ hpieces hcode
  have hexec : (typedefEnum draft).exec c s =
      (enumeration (if tag.text = "\x7b" then "" else tag.text) >>= fun enum =>
        pure { draft with header := { draft.header with
          enums := draft.header.enums ++ [enum] } } : Statement Draft).exec c₁ s := by
    rw [typedefEnum, exec_bind (exec_read_ok.mpr ⟨hread₁, rfl⟩)]
  refine ⟨fun hcommas hfatal => ?_, fun hcommas hfatal => ?_, fun draft' c' s' hread => ?_⟩
  · obtain ⟨c', s', henum, hcode', -⟩ := exec_enumeration (hbody.isBody hcommas)
      (if tag.text = "\x7b" then "" else tag.text) hpieces₁ hcode₁ hname hsemicolon hfatal
    have hvaluation := isValuation_valued s.symbols none constants
    refine ⟨_, c', s', ?_, hcode', ?_, hvaluation, fun i k tokens e hk htokens he => ?_⟩
    · rw [hexec, exec_bind henum]
      rfl
    · simpa using congrArg List.length hvaluation.idents
    · obtain ⟨ident, expression⟩ := k
      obtain rfl : expression = some tokens := htokens
      rw [hvaluation.value i _ hk]
      show some (spelledValue _ tokens) = _
      rw [spelledValue, he]
  · have hisBody := hbody.isBody hcommas
    have hbound : constants.length < c₁.ahead.length + 1 := by
      have hlength := hisBody.length_lt
      have hle : c₁.code.length ≤ c₁.ahead.length := List.length_filter_le _ _
      rw [hcode₁, List.length_append] at hle
      omega
    obtain ⟨e, s', henum⟩ := exec_enumerators_error hisBody
      (if tag.text = "\x7b" then "" else tag.text) hpieces₁ hcode₁ hbound hfatal
    refine ⟨e, s', ?_⟩
    rw [hexec]
    refine exec_bind_error ?_
    rw [enumeration, exec_bind (exec_read_ok.mpr ⟨rfl, rfl⟩)]
    exact exec_bind_error henum
  · rw [hexec] at hread
    obtain ⟨e, c₂, s₂, henum, hread⟩ := exec_bind_ok hread
    cases hread
    obtain ⟨bound, c₃, hahead, henum⟩ := exec_read_bind_ok.mp henum
    cases hahead
    obtain ⟨list, c₄, s₄, hlist, henum⟩ := exec_bind_ok henum
    obtain ⟨last, c₅, -, henum⟩ := exec_read_bind_ok.mp henum
    obtain ⟨_, c₆, -, henum⟩ := exec_read_bind_ok.mp henum
    cases henum
    refine ⟨_, rfl, ?_⟩
    have hclosed : ∃ t ∈ c₁.code, t.text = "\x7d" := by
      obtain ⟨t, ht, hbrace⟩ := hbody.exists_brace
      exact ⟨t, by rw [hcode₁]; exact List.mem_append_left _ ht, hbrace⟩
    have hle : c₁.code.length ≤ c₁.ahead.length := List.length_filter_le _ _
    obtain ⟨constants', body', hbody', hcode', hidents⟩ :=
      exists_isBody_of_exec hpieces₁ hclosed (Nat.lt_succ_of_le hle) hlist
    have hmem (ts : List Token) (us : List Token) (h : c₁.code = ts ++ us) : ∀ t ∈ ts, IsPiece t := by
      intro t ht
      have hmem : t ∈ c₁.code := h ▸ List.mem_append_left us ht
      exact hpieces₁ t (List.mem_filter.mp hmem).1
    calc list.length = constants'.length := by simpa using congrArg List.length hidents
      _ = entries false c₁.code := by rw [hcode', hbody'.entries_eq (hmem _ _ hcode')]
      _ = constants.length + innerCommas constants := by
        rw [hcode₁, hbody.entries_eq (hmem _ _ hcode₁)]

/-- An enumeration with a call for a value, behind `typedef enum`. -/
def callTokens (arguments : String) : List Token :=
  (Lexer.lex "a.h" ("\x7b A = F(" ++ arguments ++ "), B \x7d E;")).tokens.dropLast

/-- The cursor in front of it. -/
def callCursor (arguments : String) : Cursor :=
  ⟨"a.h", [], callTokens arguments, ⟨.eof, "", 1, 1⟩⟩

/-- A call with one argument keeps its text, and the constant behind it adds one to it. -/
theorem typedefEnum_grouped_call :
    ∃ list c' s', (typedefEnum ⟨.empty "a.h", [], []⟩).exec (callCursor "1") .start =
        (.ok (⟨{ Header.empty "a.h" with enums := [⟨"E", list⟩] }, [], []⟩, c'), s') ∧
      list.map (fun e => e.value.raw) = ["F(1)", "(F(1)) + 1"] := by
  have hpieces : ∀ t ∈ (callCursor "1").ahead, IsPiece t := by
    intro t ht
    have hcode : ∀ t ∈ callTokens "1", t.kind ≠ .eof := by decide +kernel
    rcases Lexer.isPiece_of_mem_lexFrom ((List.dropLast_sublist _).subset ht) with hpiece | ⟨heof, -⟩
    · exact hpiece
    · exact absurd heof (hcode t ht)
  let call : List Token := [⟨.ident, "F", 1, 7⟩, ⟨.punct, "(", 1, 8⟩, ⟨.number, "1", 1, 9⟩,
    ⟨.punct, ")", 1, 10⟩]
  let constants : List BodyConstant := [⟨"A", some call⟩, ⟨"B", none⟩]
  have hcode : (callCursor "1").code = [⟨.punct, "\x7b", 1, 1⟩] ++
      (((⟨.ident, "A", 1, 3⟩ :: ⟨.punct, "=", 1, 5⟩ :: call) ++ ⟨.punct, ",", 1, 11⟩ ::
        ([⟨.ident, "B", 1, 13⟩] ++ [⟨.punct, "\x7d", 1, 15⟩])) ++
        (⟨.ident, "E", 1, 17⟩ :: ⟨.punct, ";", 1, 18⟩ :: [])) := by
    decide +kernel
  have hcall : IsGroupedConstant ⟨"A", some call⟩ (⟨.ident, "A", 1, 3⟩ :: ⟨.punct, "=", 1, 5⟩ :: call) :=
    @IsGroupedConstant.valued ⟨.ident, "A", 1, 3⟩ ⟨.punct, "=", 1, 5⟩ _ rfl rfl (by decide)
  have hlast := @IsGroupedConstant.bare ⟨.ident, "B", 1, 13⟩ rfl
  have hbody : IsGroupedBody constants _ :=
    @IsGroupedBody.more _ _ _ _ ⟨.punct, ",", 1, 11⟩ hcall rfl
      (@IsGroupedBody.last _ _ ⟨.punct, "\x7d", 1, 15⟩ hlast rfl)
  have hopening : IsOpening [⟨.punct, "\x7b", 1, 1⟩] := ⟨_, rfl, .inl rfl⟩
  have hcommas : innerCommas constants = 0 := by decide
  have hvalue : (match Constant.evaluate .empty call with
      | .error e => decide (e.class = .unsupported)
      | .ok _ => false) = true := by
    decide +kernel
  have hfatal : IsUnfailing Session.start.symbols none constants := by
    intro i k hk tokens htokens e he
    rcases i with _ | _ | i
    · obtain rfl := Option.some.inj hk
      obtain rfl := Option.some.inj htokens
      rw [show Constant.evaluate .empty call = .error e from he] at hvalue
      exact of_decide_eq_true hvalue
    · obtain rfl := Option.some.inj hk
      cases htokens
    · cases hk
  obtain ⟨list, c', s', hread, -, hlength, hvaluation, hkept⟩ :=
    (typedefEnum_grouped ⟨.empty "a.h", [], []⟩ .start hpieces hcode hopening hbody rfl rfl).plain
      hcommas hfatal
  refine ⟨list, c', s', hread, ?_⟩
  match list, hlength with
  | [first, second], _ =>
    have hfirst := hvaluation.value 0 _ rfl
    have hsecond := hvaluation.value 1 _ rfl
    have hraw : spelledValue .empty call = .ofRaw "F(1)" := by decide +kernel
    have hfirst : first.value = .ofRaw "F(1)" := (Option.some.inj hfirst).trans hraw
    have hsecond : second.value = successor first.value := Option.some.inj hsecond
    rw [List.map_cons, List.map_cons, List.map_nil, hsecond, hfirst]
    decide

/-- A call with two arguments is one grouped value, but it is a syntax error. -/
theorem typedefEnum_callWithComma :
    (∃ opening body rest name semicolon constants,
      (callCursor "1, 2").code = opening ++ (body ++ (name :: semicolon :: rest)) ∧
        IsOpening opening ∧ IsGroupedBody constants body ∧ name.kind = .ident ∧ semicolon.text = ";") ∧
      ∃ e s', (typedefEnum ⟨.empty "a.h", [], []⟩).exec (callCursor "1, 2") .start =
        (.error (.grammar e), s') := by
  let call : List Token := [⟨.ident, "F", 1, 7⟩, ⟨.punct, "(", 1, 8⟩, ⟨.number, "1", 1, 9⟩,
    ⟨.punct, ",", 1, 10⟩, ⟨.number, "2", 1, 12⟩, ⟨.punct, ")", 1, 13⟩]
  have hcall : IsGroupedConstant ⟨"A", some call⟩ (⟨.ident, "A", 1, 3⟩ :: ⟨.punct, "=", 1, 5⟩ :: call) :=
    @IsGroupedConstant.valued ⟨.ident, "A", 1, 3⟩ ⟨.punct, "=", 1, 5⟩ _ rfl rfl (by decide)
  have hlast := @IsGroupedConstant.bare ⟨.ident, "B", 1, 16⟩ rfl
  refine ⟨⟨[⟨.punct, "\x7b", 1, 1⟩], _, [], ⟨.ident, "E", 1, 20⟩, ⟨.punct, ";", 1, 21⟩, _, ?_,
    ⟨_, rfl, .inl rfl⟩,
    @IsGroupedBody.more _ _ _ _ ⟨.punct, ",", 1, 14⟩ hcall rfl
      (@IsGroupedBody.last _ _ ⟨.punct, "\x7d", 1, 18⟩ hlast rfl), rfl, rfl⟩, ?_⟩
  · decide +kernel
  · have hfails : (match ((typedefEnum ⟨.empty "a.h", [], []⟩).exec (callCursor "1, 2") .start).1 with
        | .error (.grammar _) => true
        | _ => false) = true := by
      decide +kernel
    split at hfails
    · rename_i e he
      exact ⟨e, _, Prod.ext he rfl⟩
    · cases hfails

end SdkBindings.Grammar

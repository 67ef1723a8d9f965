import SdkBindings.Proofs.Fields.Parts

/-!
# Lists of fields are read as described

Reading a list of members or parameters gives the fields of its description, however the list is
written, laid out and nested, and stops right after what closes it (`fields_printed`).

Fields and lists of fields contain each other, so the statement about one field
(`readsOn_field`) and the one about a list (`reads_fieldList`) are proved together, by recursion on
the description.  The bound of the grammar is never reached because every round reads a lexeme.
-/

namespace SdkBindings.Grammar

open Reader

/-! ## Where entries start -/

/-- A word with which an entry that is no union starts: one that neither ends a list nor has a
meaning of its own there. -/
structure StartsEntry (lexeme : Lexeme) : Prop where
  /-- It is a word. -/
  kind : lexeme.kind = .ident
  /-- It does not start a table of methods. -/
  ne_marker : lexeme.text ≠ tableMarker
  /-- It does not end a table of methods. -/
  ne_endMarker : lexeme.text ≠ tableEndMarker
  /-- It does not start a union. -/
  ne_union : lexeme.text ≠ "union"

/-- A name starts an entry. -/
theorem Name.startsEntry (name : Name) : StartsEntry name.lexeme :=
  ⟨rfl, name.text_ne (by decide), name.text_ne (by decide), name.text_ne (by decide)⟩

/-- A word in front of a type starts an entry. -/
theorem Specifier.startsEntry (specifier : Specifier) : StartsEntry specifier.lexeme := by
  rcases specifier with word | word <;> cases word <;> exact ⟨rfl, by decide, by decide, by decide⟩

/-- The name of an annotation starts an entry. -/
theorem UsageMark.startsEntry (mark : UsageMark) :
    StartsEntry (.word mark.name mark.isIdentifier) := by
  have hne (text : String) (h : Grammar.isUsage text = false) : mark.name ≠ text := by
    rintro rfl
    cases mark.isUsage.symm.trans h
  exact ⟨rfl, hne tableMarker (by decide), hne tableEndMarker (by decide), hne "union" (by decide)⟩

/-- A type starts with a word that is no annotation. -/
theorem TypeName.exists_cons (type : TypeName) :
    ∃ first rest, type.lexemes = first :: rest ∧ StartsEntry first ∧ isUsage first.text = false := by
  unfold lexemes
  cases type.specifiers with
  | nil => exact ⟨_, [], rfl, type.name.startsEntry, type.name.notUsage⟩
  | cons specifier rest =>
    refine ⟨_, _, rfl, specifier.startsEntry, ?_⟩
    rcases specifier with word | word <;> cases word <;> decide

/-- An annotation and the type after it start with a word. -/
theorem usageLexemes_exists_cons (usage : Option UsageMark) (type : TypeName) (others : List Lexeme) :
    ∃ first rest, usageLexemes usage ++ (type.lexemes ++ others) = first :: rest ∧
      StartsEntry first := by
  cases usage with
  | none =>
    obtain ⟨first, rest, htype, hfirst, -⟩ := type.exists_cons
    rw [htype]
    exact ⟨first, rest ++ others, rfl, hfirst⟩
  | some mark => exact ⟨_, _, rfl, mark.startsEntry⟩

/-- An entry that is no union starts with a word. -/
theorem Entry.exists_cons {entry : Entry} (h : entry.isUnion = false) (others : List Lexeme) :
    ∃ first rest, entry.lexemes ++ others = first :: rest ∧ StartsEntry first := by
  cases entry with
  | plain p =>
    rw [lexemes, Plain.lexemes, List.append_assoc, List.append_assoc]
    exact usageLexemes_exists_cons p.usage p.type _
  | union members ended => cases h
  | method usage result convention name parameters ended =>
    rw [lexemes, List.append_assoc, List.append_assoc]
    exact usageLexemes_exists_cons usage result _

/-- What the indirections and the name of a field start with does not open parameters. -/
theorem Plain.exists_cons (p : Plain) (others : List Lexeme) :
    ∃ first rest, p.indirections ++ p.name.lexeme :: others = first :: rest ∧ first.text ≠ "(" := by
  unfold indirections
  cases p.leading with
  | zero =>
    cases p.trailing with
    | none => exact ⟨_, _, rfl, p.name.text_ne_mark (by decide)⟩
    | some trailing =>
      obtain ⟨word, n⟩ := trailing
      refine ⟨_, _, rfl, ?_⟩
      cases word <;> decide
  | succ n => exact ⟨_, _, rfl, by decide⟩

/-! ## Fields -/

section

variable {α : Type} {result : α → Prop}

/-- An annotation, if there is one, is read together with its arguments. -/
theorem readsOn_usage (usage : Option UsageMark) (type : TypeName) (others : List Lexeme)
    {k : Usage × Token → Reader α}
    (h : ReadsOn (type.lexemes ++ others) (fun token => k (usageOf usage, token)) result) :
    ReadsOn (usageLexemes usage ++ (type.lexemes ++ others))
      (fun token =>
        if isUsage token.text then do
          skipArguments
          let following ← next
          let p ← pure (Usage.ofName token.text, following)
          k p
        else do
          let p ← pure (Usage.none, token)
          k p) result := by
  obtain ⟨first, rest, htype, hfirst, husage⟩ := type.exists_cons
  rw [htype] at h ⊢
  cases usage with
  | none =>
    intro token htoken
    have hno : ¬ isUsage token.text = true := by
      rw [htoken.2, husage]
      exact Bool.false_ne_true
    dsimp only
    rw [if_neg hno]
    exact h token htoken
  | some mark =>
    intro token htoken
    have hname : token.text = mark.name := htoken.2
    have hopen : first.text ≠ "(" := first.text_ne_of_isIdent hfirst.kind (by decide)
    dsimp only
    rw [hname, if_pos mark.isUsage]
    cases harguments : mark.arguments with
    | none => exact Reads.skipArguments_bind hopen (Reads.next_bind h)
    | some inner =>
      exact (reads_skipArguments inner.property).bind fun _ _ => Reads.next_bind h

/-- A type is read with the words in front of it; what follows it comes next. -/
theorem readsOn_type (type : TypeName) (following : Lexeme) (others : List Lexeme)
    {k : String × Token → Reader α}
    (h : ∀ token : Token, token.Spells following → Reads others (k (type.text, token)) result) :
    ReadsOn (type.lexemes ++ following :: others)
      (fun token => ahead >>= fun n => typeName (n + 2) [] token >>= k) result := by
  refine ReadsOn.ahead_bind fun n hn => ?_
  have hbound : type.specifiers.length < n + 2 := by
    rw [TypeName.lexemes, List.length_append, List.length_append, List.length_map] at hn
    omega
  have htype := readsOn_typeName type.specifiers type.name following hbound []
  rw [List.append_cons] at htype
  refine ReadsOn.bind htype ?_
  rintro ⟨_, token⟩ ⟨rfl, htoken⟩
  exact h token htoken

end

/-- A function pointer after its result type and the parenthesis. -/
def methodField (symbols : SymbolTable) (bound : Nat) (brackets : Brackets) (usage : Usage)
    (type : String) : Reader (Field × Bool) := do
  let name ← methodHead type
  let first ← peek
  let parameters ← fieldList symbols bound .parameters
  checkReceiver name first parameters
  let token ← next
  if token.text ≠ brackets.separator ∧ token.text ≠ brackets.close then
    fail token brackets.separator ("after method " ++ name)
  pure (⟨name, .functionPointer name parameters type, usage.isOut, usage.hasCount,
    false, false, usage.isErased⟩, token.text = brackets.close)

/-- A field after its annotation. -/
def fieldAfterUsage (symbols : SymbolTable) (bound : Nat) (brackets : Brackets) (usage : Usage)
    (token : Token) : Reader (Field × Bool) := do
  let (type, token) ← typeName ((← ahead) + 2) [] token
  if token.text = "(" then methodField symbols bound brackets usage type
  else plainField symbols brackets usage type token

/-- A field is an annotation and the rest. -/
theorem field_succ (symbols : SymbolTable) (bound : Nat) (brackets : Brackets) :
    field symbols (bound + 1) brackets =
      (fun token =>
        if isUsage token.text then do
          skipArguments
          let following ← next
          let p ← pure (Usage.ofName token.text, following)
          fieldAfterUsage symbols bound brackets p.1 p.2
        else do
          let p ← pure (Usage.none, token)
          fieldAfterUsage symbols bound brackets p.1 p.2) := by
  funext token
  unfold field
  rfl

/-- A plain field is read up to what terminates it. -/
theorem readsOn_field_plain (symbols : SymbolTable) (form : ListForm) (closed : Bool) (p : Plain)
    (bound : Nat) :
    ReadsOn (p.lexemes ++ [form.terminator closed]) (field symbols (bound + 1) form.brackets)
      (· = (p.field, closed)) := by
  obtain ⟨following, others, hrest, hopen⟩ :=
    p.exists_cons (p.dimensions.flatMap Dimension.lexemes ++ [form.terminator closed])
  have hplain := readsOn_plainField form closed p symbols
  rw [hrest] at hplain
  rw [field_succ, Plain.lexemes, List.append_assoc, List.append_assoc, List.append_assoc,
    List.cons_append, hrest]
  refine readsOn_usage p.usage p.type _ ?_
  dsimp only [fieldAfterUsage]
  refine readsOn_type p.type following others fun token htoken => ?_
  have hno : token.text ≠ "(" := htoken.2 ▸ hopen
  dsimp only
  rw [if_neg hno]
  exact hplain token htoken

/-- A list is never written down as nothing. -/
theorem Entry.printed_exists_cons (form : ListForm) (ended : Bool) (entries : List Entry) :
    ∃ first rest, printed form ended entries = first :: rest := by
  cases entries with
  | nil => exact ⟨form.close, [], rfl⟩
  | cons entry rest =>
    rw [printed]
    cases hunion : entry.isUnion with
    | false =>
      obtain ⟨first, others, hfirst, -⟩ := entry.exists_cons hunion
        (separators form ended entry rest ++ printed form ended rest)
      exact ⟨first, others, hfirst⟩
    | true =>
      cases entry with
      | union members inner => exact ⟨_, _, rfl⟩
      | plain p => cases hunion
      | method => cases hunion

/-- An entry that is no union has a lexeme. -/
theorem Entry.length_lexemes_pos {entry : Entry} (h : entry.isUnion = false) :
    0 < entry.lexemes.length := by
  obtain ⟨first, rest, hfirst, -⟩ := entry.exists_cons h []
  rw [List.append_nil] at hfirst
  rw [hfirst]
  exact Nat.succ_pos _

/-- A list has a lexeme. -/
theorem Entry.length_printed_pos (form : ListForm) (ended : Bool) (entries : List Entry) :
    0 < (printed form ended entries).length := by
  obtain ⟨first, rest, hfirst⟩ := printed_exists_cons form ended entries
  rw [hfirst]
  exact Nat.succ_pos _

/-- The described fields have the described names. -/
theorem Entry.field_name (entry : Entry) : entry.field.name = entry.name := by
  cases entry <;> rfl

/-- The receiver is checked without reading anything. -/
theorem reads_checkReceiver (name : String) (first : Token) {parameters : List Entry}
    (h : parameters.head?.map Entry.name = some receiverName) :
    Reads [] (checkReceiver name first (Entry.fields parameters)) fun _ => True := by
  cases parameters with
  | nil => cases h
  | cons entry rest =>
    have hname : entry.field.name = receiverName := by
      rw [entry.field_name]
      exact Option.some.inj h
    unfold checkReceiver
    dsimp only [Entry.fields]
    rw [if_neg (not_not_intro hname)]
    exact .pure trivial

/-- The rest of a method is read up to what terminates it, if its parameters are read. -/
theorem reads_methodField (symbols : SymbolTable) (form : ListForm) (closed : Bool)
    {bound : Nat} (usage : Usage) (type : String) (convention name : Name) {parameters : List Entry}
    {ended : Bool} (hreceiver : parameters.head?.map Entry.name = some receiverName)
    (hparameters : Reads (Entry.printed .parameters ended parameters)
      (fieldList symbols bound .parameters) (· = Entry.fields parameters)) :
    Reads (convention.lexeme :: asterisk :: name.lexeme :: closeParenthesis :: openParenthesis ::
        (Entry.printed .parameters ended parameters ++ [form.terminator closed]))
      (methodField symbols bound form.brackets usage type)
      (· = (⟨name.text, .functionPointer name.text (Entry.fields parameters) type, usage.isOut,
        usage.hasCount, false, false, usage.isErased⟩, closed)) := by
  obtain ⟨first, rest, hprinted⟩ := Entry.printed_exists_cons .parameters ended parameters
  rw [hprinted] at hparameters ⊢
  refine (reads_methodHead type convention name).bind ?_
  rintro _ rfl
  refine Reads.peek_bind fun receiver _ => hparameters.bind ?_
  rintro _ rfl
  refine (reads_checkReceiver name.text receiver hreceiver).nothing_bind fun _ _ => ?_
  refine Reads.next.bind fun token htoken => ?_
  extract_lets ending
  have hterminator := form.terminator_text closed
  rw [← htoken.2] at hterminator
  rw [if_neg hterminator]
  have hclosed : decide (token.text = form.brackets.close) = closed := by
    rw [htoken.2]
    exact form.decide_close closed
  refine .pure ?_
  rw [hclosed]

/-- A method is read up to what terminates it, if its parameters are read. -/
theorem readsOn_field_method (symbols : SymbolTable) (form : ListForm) (closed : Bool) {bound : Nat}
    (usage : Option UsageMark) (result : TypeName) (convention name : Name)
    {parameters : List Entry} {ended : Bool}
    (hreceiver : parameters.head?.map Entry.name = some receiverName)
    (hparameters : Reads (Entry.printed .parameters ended parameters)
      (fieldList symbols bound .parameters) (· = Entry.fields parameters)) :
    ReadsOn ((Entry.method usage result convention name parameters ended).lexemes ++
        [form.terminator closed])
      (field symbols (bound + 1) form.brackets)
      (· = ((Entry.method usage result convention name parameters ended).field, closed)) := by
  rw [field_succ, Entry.lexemes, Entry.field, List.append_assoc, List.append_assoc]
  refine readsOn_usage usage result _ ?_
  dsimp only [fieldAfterUsage]
  refine readsOn_type result openParenthesis _ fun token htoken => ?_
  have hopen : token.text = "(" := htoken.2
  dsimp only
  rw [if_pos hopen]
  exact reads_methodField symbols form closed (usageOf usage) result.text convention name hreceiver
    hparameters

/-! ## Lists -/

section

variable {symbols : SymbolTable} {bound : Nat} {form : ListForm} {ended : Bool} {rest : List Entry}
  (hrest : Reads (Entry.printed form ended rest) (fieldList symbols bound form.brackets)
    (· = Entry.fields rest))

include hrest

/-- A list that starts with a union is read if its members and the rest are. -/
theorem reads_union_cons {members : List Entry} {inner : Bool}
    (hmembers : Reads (Entry.printed .body inner members) (fieldList symbols bound .members)
      (· = Entry.fields members)) :
    Reads (Entry.printed form ended (.union members inner :: rest))
      (fieldList symbols (bound + 1) form.brackets)
      (· = Entry.fields (.union members inner :: rest)) := by
  rw [Entry.printed, Entry.lexemes, List.cons_append, List.cons_append, List.append_assoc, fieldList]
  refine Reads.next.bind fun token htoken => ?_
  have htext : token.text = "union" := htoken.2
  have hkind : token.kind = .ident := htoken.1
  have hclose : "union" ≠ form.brackets.close := by
    cases form <;> decide
  rw [htext, hkind, if_neg hclose, if_neg (by decide), if_neg (by decide), if_neg (by decide),
    if_pos rfl]
  refine (Reads.expect "union" rfl).bind fun _ _ => hmembers.bind ?_
  rintro _ rfl
  refine (Reads.expect "end of union" rfl).bind fun _ _ => ?_
  refine hrest.bind_pure ?_
  rintro _ rfl
  rfl

/-- After a field the list goes on, unless the field ended it. -/
theorem readsOn_field_rest {entry : Entry} (hunion : entry.isUnion = false)
    (hfield : ∀ closed, ReadsOn (entry.lexemes ++ [form.terminator closed])
      (field symbols bound form.brackets) (· = (entry.field, closed))) :
    ReadsOn (entry.lexemes ++ (Entry.separators form ended entry rest ++
        Entry.printed form ended rest))
      (fun token => do
        let read ← field symbols bound form.brackets token
        if read.2 then pure [read.1]
        else do
          let rest ← fieldList symbols bound form.brackets
          pure (read.1 :: rest)) (· = Entry.fields (entry :: rest)) := by
  cases hlast : rest.isEmpty && !ended with
  | true =>
    rw [Bool.and_eq_true, List.isEmpty_iff, Bool.not_eq_true'] at hlast
    obtain ⟨rfl, rfl⟩ := hlast
    rw [Entry.separators, hunion]
    refine (hfield true).bind ?_
    rintro _ rfl
    exact .pure rfl
  | false =>
    rw [Entry.separators, hunion, hlast]
    refine (hfield false).bind ?_
    rintro _ rfl
    refine hrest.bind_pure ?_
    rintro _ rfl
    rfl

/-- A list that starts with anything else is read if that and the rest are. -/
theorem reads_field_cons {entry : Entry} (hunion : entry.isUnion = false)
    (hfield : ∀ closed, ReadsOn (entry.lexemes ++ [form.terminator closed])
      (field symbols bound form.brackets) (· = (entry.field, closed))) :
    Reads (Entry.printed form ended (entry :: rest)) (fieldList symbols (bound + 1) form.brackets)
      (· = Entry.fields (entry :: rest)) := by
  rw [Entry.printed]
  obtain ⟨first, others, hfirst, hstarts⟩ := entry.exists_cons hunion
    (Entry.separators form ended entry rest ++ Entry.printed form ended rest)
  have hon := readsOn_field_rest hrest hunion hfield
  rw [hfirst] at hon ⊢
  rw [fieldList]
  refine Reads.next.bind fun token htoken => ?_
  have hclose : token.text ≠ form.brackets.close := by
    rw [htoken.2]
    cases form <;> exact first.text_ne_of_isIdent hstarts.kind (by decide)
  have hkind : token.kind ≠ .eof := by
    rw [htoken.1, hstarts.kind]
    exact Token.Kind.noConfusion
  have hmarker : token.text ≠ tableMarker := htoken.2 ▸ hstarts.ne_marker
  have hendMarker : token.text ≠ tableEndMarker := htoken.2 ▸ hstarts.ne_endMarker
  have hunion : token.text ≠ "union" := htoken.2 ▸ hstarts.ne_union
  rw [if_neg hclose, if_neg hkind, if_neg hmarker, if_neg hendMarker, if_neg hunion]
  exact hon token htoken

end

mutual
/-- A described field that is no union is read as described. -/
theorem readsOn_field (symbols : SymbolTable) (form : ListForm) (closed : Bool) (entry : Entry)
    (hunion : entry.isUnion = false) (hreceivers : entry.HasReceivers) (bound : Nat)
    (hbound : entry.lexemes.length ≤ bound) :
    ReadsOn (entry.lexemes ++ [form.terminator closed]) (field symbols bound form.brackets)
      (· = (entry.field, closed)) := by
  cases bound with
  | zero => exact absurd hbound (Nat.not_le_of_lt (Entry.length_lexemes_pos hunion))
  | succ bound =>
    cases entry with
    | plain p => exact readsOn_field_plain symbols form closed p bound
    | union members ended => cases hunion
    | method usage result convention name parameters ended =>
      obtain ⟨hreceiver, hparameters⟩ := hreceivers
      have hinner : (Entry.printed .parameters ended parameters).length ≤ bound := by
        rw [Entry.lexemes] at hbound
        simp only [List.length_append, List.length_cons] at hbound
        omega
      exact readsOn_field_method symbols form closed usage result convention name hreceiver
        (reads_fieldList symbols .parameters ended parameters hparameters bound hinner)

/-- A described list is read as described. -/
theorem reads_fieldList (symbols : SymbolTable) (form : ListForm) (ended : Bool)
    (entries : List Entry) (hreceivers : Entry.HaveReceivers entries) (bound : Nat)
    (hbound : (Entry.printed form ended entries).length ≤ bound) :
    Reads (Entry.printed form ended entries) (fieldList symbols bound form.brackets)
      (· = Entry.fields entries) := by
  cases bound with
  | zero => exact absurd hbound (Nat.not_le_of_lt (Entry.length_printed_pos form ended entries))
  | succ bound =>
    cases entries with
    | nil =>
      rw [Entry.printed, fieldList]
      refine Reads.next.bind fun token htoken => ?_
      have hclose : token.text = form.brackets.close := by
        rw [htoken.2]
        cases form <;> rfl
      rw [if_pos hclose]
      exact .pure rfl
    | cons entry rest =>
      obtain ⟨hentry, hothers⟩ := hreceivers
      rw [Entry.printed, List.length_append, List.length_append] at hbound
      cases hunion : entry.isUnion with
      | false =>
        have hpos := Entry.length_lexemes_pos hunion
        have hrestpos := Entry.length_printed_pos form ended rest
        have hrest := reads_fieldList symbols form ended rest hothers bound (by omega)
        exact reads_field_cons hrest hunion fun closed =>
          readsOn_field symbols form closed entry hunion hentry bound (by omega)
      | true =>
        cases entry with
        | union members inner =>
          have hinner : (Entry.printed .body inner members).length ≤ bound := by
            rw [Entry.lexemes] at hbound
            simp only [List.length_append, List.length_cons] at hbound
            omega
          have hrest := reads_fieldList symbols form ended rest hothers bound (by
            rw [Entry.lexemes, List.length_cons] at hbound
            omega)
          exact reads_union_cons hrest (reads_fieldList symbols .body inner members hentry bound hinner)
        | plain p => cases hunion
        | method => cases hunion
end

/-- A described list that has just been opened is read as described. -/
theorem reads_fields (symbols : SymbolTable) (form : ListForm) (ended : Bool)
    {entries : List Entry} (hreceivers : Entry.HaveReceivers entries) :
    Reads (Entry.printed form ended entries) (fields symbols form.brackets)
      (· = Entry.fields entries) :=
  Reads.ahead_bind fun n hn =>
    reads_fieldList symbols form ended entries hreceivers (n + 1) (Nat.le_succ_of_le hn)

/-! ## From text to fields -/

open Lexer

/-- A list of fields that is printed in one of the two forms, in whatever layout and in front of
whatever text, gives a stretch of tokens from which exactly the described fields are read.  The
cursor is left behind what closes the list. -/
theorem fields_printed (symbols : SymbolTable) (form : ListForm) (ended : Bool)
    {entries : List Entry} (hreceivers : Entry.HaveReceivers entries) {text after : List Char}
    (hlayout : Layout after (Entry.printed form ended entries) text) (file : String) (p : Position) :
    ∃ stretch,
      lexFrom file p (text ++ after) = (lexFrom file (p.after text) after).prepend stretch ∧
        ∀ (name : String) (passed rest : List Token) (eof : Token),
          fields symbols form.brackets ⟨name, passed, stretch ++ rest, eof⟩ =
            .ok (Entry.fields entries, ⟨name, stretch.reverse ++ passed, rest, eof⟩) := by
  obtain ⟨stretch, hstretch, hlex⟩ := lexFrom_layout hlayout file p
  refine ⟨stretch, hlex, fun name passed rest eof => ?_⟩
  obtain ⟨_, hread, rfl⟩ :=
    reads_fields symbols form ended hreceivers name passed stretch rest eof hstretch
  exact hread

/-- What closes a list cannot run together with anything. -/
theorem ListForm.close_isEnded (form : ListForm) (after : List Char) :
    form.close.IsEnded after := by
  cases form <;> refine ⟨?_, ?_, ?_⟩ <;> intro h <;> cases h

/-- A list ends with what closes it. -/
theorem Entry.getLast?_printed (form : ListForm) (ended : Bool) (entries : List Entry) :
    (printed form ended entries).getLast? = some form.close := by
  induction entries with
  | nil => rfl
  | cons entry rest ih =>
    rw [printed, List.getLast?_append, List.getLast?_append, ih]
    rfl

/-- Every printed list has a layout, whatever comes after it. -/
theorem layout_printed (form : ListForm) (ended : Bool) (entries : List Entry) (after : List Char) :
    Layout after (Entry.printed form ended entries) (spaced (Entry.printed form ended entries)) := by
  refine layout_spaced _ fun lexeme hlexeme => ?_
  rw [Entry.getLast?_printed, Option.mem_some] at hlexeme
  exact hlexeme ▸ form.close_isEnded after

/-- The members of a structure: an annotated array of pointers, a union and a method. -/
def boxMembers : List Entry :=
  [.plain
    { usage := some ⟨"__in_ecount", by decide, by decide,
        some ⟨[.word "n" (by decide)], .cons (by decide) (by decide) .nil⟩⟩
      type := ⟨[.const .lower, .qualifier .struct], ⟨"Box", by decide, by decide, by decide⟩⟩
      leading := 1
      trailing := some (.upper, 1)
      name := ⟨"boxes", by decide, by decide, by decide⟩
      dimensions := [⟨['4'], by decide, by decide +kernel⟩] },
    .union
      [.plain ⟨none, ⟨[], ⟨"int", by decide, by decide, by decide⟩⟩, 0, none,
        ⟨"a", by decide, by decide, by decide⟩, []⟩] true,
    .method none ⟨[], ⟨"HRESULT", by decide, by decide, by decide⟩⟩
      ⟨"STDMETHODCALLTYPE", by decide, by decide, by decide⟩ ⟨"Map", by decide, by decide, by decide⟩
      [.plain ⟨none, ⟨[], ⟨"View", by decide, by decide, by decide⟩⟩, 1, none,
        ⟨"This", by decide, by decide, by decide⟩, []⟩] false]

/-- These members as a header may have them. -/
def boxText : String :=
  "/* a box */\n__in_ecount ( n ) const struct Box * CONST * boxes [ 4 ] ; union \x7b int a ; \x7d ; " ++
    "HRESULT ( STDMETHODCALLTYPE * Map ) ( View * This ) ; \x7d"

/-- The text lays out the members, with a comment and a line end in front of them. -/
theorem layout_boxText : Layout [] (Entry.printed .body true boxMembers) boxText.toList := by
  have hgap : Gap ('/' :: '*' :: (" a box ".toList ++ '*' :: '/' :: ['\n'])) :=
    .blockComment (by decide +kernel) (.blank (.inr rfl) .nil)
  have htext : boxText.toList = ('/' :: '*' :: (" a box ".toList ++ '*' :: '/' :: ['\n'])) ++
      ("__in_ecount".toList ++ spaced (Entry.printed .body true boxMembers).tail) := by
    -- evaluated from the characters of the text, so that the kernel builds no bytes
    have hsource : boxText.toList = _ :=
      toList_append_eq String.toList_ofList String.toList_ofList
    rw [hsource]
    decide +kernel
  have hrest : Layout [] (Entry.printed .body true boxMembers).tail
      (spaced (Entry.printed .body true boxMembers).tail) := by
    refine layout_spaced _ fun lexeme hlexeme => ?_
    cases hlexeme
    exact ListForm.body.close_isEnded []
  have hended : (Lexeme.word "__in_ecount" (by decide)).IsEnded
      (spaced (Entry.printed .body true boxMembers).tail ++ []) :=
    isEnded_blank (Lexeme.word "__in_ecount" (by decide)).isLexeme (by decide) (by decide) _
  rw [htext]
  exact .cons hgap hended hrest

/-- The members of a box are read off the text. -/
theorem fields_printed_box :
    Entry.HaveReceivers boxMembers ∧
      Layout [] (Entry.printed .body true boxMembers) boxText.toList ∧
      ∃ stretch,
        lexFrom "box.h" .start (boxText.toList ++ []) =
            (lexFrom "box.h" (Position.start.after boxText.toList) []).prepend stretch ∧
          ∀ (name : String) (passed rest : List Token) (eof : Token),
            fields .empty .members ⟨name, passed, stretch ++ rest, eof⟩ =
              .ok ([
                ⟨"boxes", .pointer "struct Box" 2 (.array "struct Box" [4]), false, true, false, false, false⟩,
                .plain "" (.union [.plain "a" (.basic "int")]),
                .plain "Map" (.functionPointer "Map"
                  [.plain "This" (.pointer "View" 1 (.basic "View"))] "HRESULT")],
                ⟨name, stretch.reverse ++ passed, rest, eof⟩) := by
  have hreceivers : Entry.HaveReceivers boxMembers := ⟨trivial, ⟨trivial, trivial⟩, ⟨rfl, trivial, trivial⟩, trivial⟩
  exact ⟨hreceivers, layout_boxText, fields_printed .empty .body true hreceivers layout_boxText "box.h" .start⟩

end SdkBindings.Grammar

import SdkBindings.Proofs.Grammar.Rounds

/-!
# Every loop of the grammar ends

The grammar of a header without bounds: lists of fields, which contain lists of fields, the constants
of an enumeration and the declarations are loops as well (`isLoop_fields`, `isLoop_enumerators`,
`isLoop_declarations`).  Their rounds use the loops of `Rounds`, so that no bound is left anywhere.

A list of fields goes on in two ways: behind an entry, and inside of one, where it is a list of members
or of parameters.  Behind an inner list fewer tokens are unread than in front of it, because all that
is read moves forward.

`everyLoopEnds` puts them together.  Whatever the text of a header, if it can be cut into tokens at all
reading it is one run of the last of these loops, and where the run succeeds it has passed all tokens
but the end.
-/

namespace SdkBindings.Grammar

open Reader

/-! ## Parts of a field -/

/-- The rest of a plain field from its name on. -/
def wholeNamedField (symbols : SymbolTable) (brackets : Brackets) (usage : Usage) (typeName : String)
    (depth : Nat) (token : Token) : Reader (Field × Bool) := do
  if token.kind ≠ .ident then fail token "field name" ("after type " ++ typeName)
  let name := token.text
  let token ← next
  if token.text = "[" then do
    let (sizes, token) ← allDimensions symbols typeName token
    terminatedField brackets usage typeName name depth (.array typeName sizes) token
  else terminatedField brackets usage typeName name depth (.basic typeName) token

/-- The rest of a plain field after its type name. -/
def wholePlainField (symbols : SymbolTable) (brackets : Brackets) (usage : Usage) (typeName : String)
    (token : Token) : Reader (Field × Bool) := do
  let p ← allAsterisks token
  if isConst p.2.text then do
    let token ← next
    let q ← allAsterisks token
    wholeNamedField symbols brackets usage typeName (p.1 + q.1) q.2
  else wholeNamedField symbols brackets usage typeName (p.1 + 0) p.2

/-- The head of a function pointer up to its parameters. -/
def wholeMethodHead (result : String) : Reader String := do
  let _ ← next
  let token ← next
  let (_, token) ← allAsterisks token
  if token.kind ≠ .ident then
    fail token "method name" ("function pointer returning " ++ result)
  let name := token.text
  let _ ← expect ")" ("after method name " ++ name)
  let _ ← expect "(" ("parameters of " ++ name)
  pure name

section

variable {n : Nat} (symbols : SymbolTable) (brackets : Brackets) (usage : Usage) (typeName : String)

/-- Asterisks are counted alike with a bound above the number of tokens ahead. -/
theorem asterisks_agree {t : Token} (ht : IsHand (some t)) :
    AgreeBelow n (pointerDepth n t) (allAsterisks t) := by
  intro c hc hless
  have hone := held_le (some t)
  have hbound : unread (some t) c ≤ n := Nat.le_trans (Nat.add_le_add_left hone _) hless
  exact unrolls_pointerDepth.eq ht hc hbound (Nat.add_le_add_left hone _)

/-- So are dimensions. -/
theorem dimensions_agree {t : Token} (ht : IsHand (some t)) :
    AgreeBelow n (dimensions symbols typeName n t) (allDimensions symbols typeName t) := by
  intro c hc hless
  have hone := held_le (some t)
  have hbound : unread (some t) c ≤ n := Nat.le_trans (Nat.add_le_add_left hone _) hless
  exact (unrolls_dimensions symbols typeName).eq ht hc hbound (Nat.add_le_add_left hone _)

theorem namedField_agree (depth : Nat) (t : Token) :
    AgreeBelow n (namedField symbols brackets usage typeName n depth t)
      (wholeNamedField symbols brackets usage typeName depth t) := by
  refine .ite (fun _ => .refl _) fun _ => .next_bind fun following hfollowing => ?_
  refine .ite (fun _ => ?_) fun _ => .refl _
  exact ((dimensions_agree symbols typeName hfollowing).mono (Nat.sub_le _ _)).same_bind _

/-- Plain fields are read without a bound. -/
theorem plainField_agree (t : Token) :
    AgreeBelow n (plainField symbols brackets usage typeName t)
      (wholePlainField symbols brackets usage typeName t) := by
  intro c hc _
  -- the bound is the number of tokens ahead in front of the field
  have hbound : AgreeBelow (c.ahead.length + 1)
      (do
        let p ← allAsterisks t
        if isConst p.2.text then do
          let token ← next
          let q ← pointerDepth (c.ahead.length + 1) token
          namedField symbols brackets usage typeName (c.ahead.length + 1) (p.1 + q.1) q.2
        else namedField symbols brackets usage typeName (c.ahead.length + 1) (p.1 + 0) p.2 :
          Reader (Field × Bool))
      (wholePlainField symbols brackets usage typeName t) := by
    refine .forward_bind (isLoop_pointerDepth.forward t) fun p => .ite (fun _ => ?_) fun _ => ?_
    · refine .next_bind fun following hfollowing => ?_
      refine .bind ((asterisks_agree hfollowing).mono (Nat.sub_le _ _)) (forward_pointerDepth _ _) ?_
      exact fun q => (namedField_agree symbols brackets usage typeName _ _).mono (Nat.sub_le _ _)
    · exact namedField_agree symbols brackets usage typeName _ _
  rw [plainField_eq]
  exact hbound c hc (Nat.lt_succ_self _)

/-- Heads of function pointers are read without a bound. -/
theorem methodHead_agree : AgreeBelow n (methodHead typeName) (wholeMethodHead typeName) := by
  refine .forward_bind .next fun _ => ?_
  intro c hc _
  have hbound : AgreeBelow (c.ahead.length + 1)
      (next >>= fun token => pointerDepth (c.ahead.length + 1) token >>= fun p => do
        if p.2.kind ≠ .ident then
          fail p.2 "method name" ("function pointer returning " ++ typeName)
        let name := p.2.text
        let _ ← expect ")" ("after method name " ++ name)
        let _ ← expect "(" ("parameters of " ++ name)
        pure name : Reader String)
      (next >>= fun token => allAsterisks token >>= fun p => do
        if p.2.kind ≠ .ident then
          fail p.2 "method name" ("function pointer returning " ++ typeName)
        let name := p.2.text
        let _ ← expect ")" ("after method name " ++ name)
        let _ ← expect "(" ("parameters of " ++ name)
        pure name : Reader String) :=
    .next_bind fun t ht => ((asterisks_agree ht).mono (Nat.sub_le _ _)).same_bind _
  exact hbound c hc (Nat.lt_succ_self _)

end

/-! ## Lists of fields -/

/-- A function pointer whose parameters are read by `again`. -/
def methodRound (again : Brackets → Reader (List Field)) (brackets : Brackets) (usage : Usage)
    (type : String) : Reader (Field × Bool) := do
  let name ← wholeMethodHead type
  let first ← peek
  let parameters ← again .parameters
  checkReceiver name first parameters
  let token ← next
  if token.text ≠ brackets.separator ∧ token.text ≠ brackets.close then
    fail token brackets.separator ("after method " ++ name)
  pure (⟨name, .functionPointer name parameters type, usage.isOut, usage.hasCount,
    false, false, usage.isErased⟩, token.text = brackets.close)

/-- A field after its annotation, whose parameters are read by `again`. -/
def fieldAfterUsageRound (symbols : SymbolTable) (again : Brackets → Reader (List Field))
    (brackets : Brackets) (usage : Usage) (token : Token) : Reader (Field × Bool) := do
  let (type, token) ← wholeTypeName ([], token)
  if token.text = "(" then methodRound again brackets usage type
  else wholePlainField symbols brackets usage type token

/-- A field that starts with `token`, whose parameters are read by `again`. -/
def fieldRound (symbols : SymbolTable) (again : Brackets → Reader (List Field)) (brackets : Brackets)
    (token : Token) : Reader (Field × Bool) :=
  if isUsage token.text then do
    skipArguments
    let following ← next
    fieldAfterUsageRound symbols again brackets (Usage.ofName token.text) following
  else fieldAfterUsageRound symbols again brackets Usage.none token

/-- A round of reading a list, whose fields are read by `entry`. -/
def listRound (entry : Brackets → Token → Reader (Field × Bool))
    (again : Brackets → Reader (List Field)) (brackets : Brackets) : Reader (List Field) := do
  let token ← next
  if token.text = brackets.close then pure []
  else if token.kind = .eof then fail token brackets.close "field list"
  else if token.text = tableMarker then do
    let rest ← again brackets
    pure (Field.plain tableMarker (.basic "") :: rest)
  else if token.text = tableEndMarker then again brackets
  else if token.text = "union" then do
    let _ ← expect "\x7b" "union"
    let members ← again .members
    let _ ← expect ";" "end of union"
    let rest ← again brackets
    pure (Field.plain "" (.union members) :: rest)
  else do
    let (field, closed) ← entry brackets token
    if closed then pure [field]
    else do
      let rest ← again brackets
      pure (field :: rest)

/-- A round of reading a list of fields. -/
def fieldsRound (symbols : SymbolTable) (again : Brackets → Reader (List Field)) :
    Brackets → Reader (List Field) :=
  listRound (fieldRound symbols again) again

section forward

variable (symbols : SymbolTable) {f : Brackets → Reader (List Field)}

theorem forward_wholePlainField (brackets : Brackets) (usage : Usage) (typeName : String) (t : Token) :
    Forward (wholePlainField symbols brackets usage typeName t) := by
  have hnamed (depth : Nat) (t : Token) :
      Forward (wholeNamedField symbols brackets usage typeName depth t) := by
    have hterminated (name : String) (target : CType) (t : Token) :
        Forward (terminatedField brackets usage typeName name depth target t) :=
      .ite ((Forward.fail _ _ _).bind fun _ => .pure _) (.pure _)
    have hafter : Forward (next >>= fun token =>
        if token.text = "[" then allDimensions symbols typeName token >>= fun p =>
          terminatedField brackets usage typeName t.text depth (.array typeName p.1) p.2
        else terminatedField brackets usage typeName t.text depth (.basic typeName) token) := by
      refine Forward.next.bind fun token => .ite ?_ (hterminated _ _ _)
      exact ((isLoop_dimensions symbols typeName).forward token).bind fun p => hterminated _ _ _
    exact .ite ((Forward.fail _ _ _).bind fun _ => hafter) hafter
  refine (isLoop_pointerDepth.forward t).bind fun p => .ite ?_ (hnamed _ _)
  exact Forward.next.bind fun token => (isLoop_pointerDepth.forward token).bind fun q => hnamed _ _

theorem forward_wholeMethodHead (type : String) : Forward (wholeMethodHead type) := by
  refine Forward.next.bind fun _ => Forward.next.bind fun token => ?_
  refine (isLoop_pointerDepth.forward token).bind fun p => ?_
  have hafter : Forward (expect ")" ("after method name " ++ p.2.text) >>= fun _ =>
      expect "(" ("parameters of " ++ p.2.text) >>= fun _ => Pure.pure p.2.text) :=
    (Forward.expect _ _).bind fun _ => (Forward.expect _ _).bind fun _ => .pure _
  exact .ite ((Forward.fail _ _ _).bind fun _ => hafter) hafter

theorem forward_fieldRound (hf : ∀ brackets, Forward (f brackets)) (brackets : Brackets) (t : Token) :
    Forward (fieldRound symbols f brackets t) := by
  have hafter (usage : Usage) (t : Token) :
      Forward (fieldAfterUsageRound symbols f brackets usage t) := by
    refine (isLoop_typeName.forward _).bind fun p => .ite ?_ (forward_wholePlainField _ _ _ _ _)
    refine (forward_wholeMethodHead _).bind fun name => Forward.peek.bind fun first => ?_
    refine (hf _).bind fun parameters => (forward_checkReceiver _ _ _).bind fun _ => ?_
    refine Forward.next.bind fun token => ?_
    exact .ite ((Forward.fail _ _ _).bind fun _ => .pure _) (.pure _)
  exact .ite (forward_skipArguments.bind fun _ => Forward.next.bind fun _ => hafter _ _) (hafter _ _)

theorem forward_listRound {entry : Brackets → Token → Reader (Field × Bool)}
    (hentry : ∀ brackets t, Forward (entry brackets t)) (hf : ∀ brackets, Forward (f brackets))
    (brackets : Brackets) : Forward (listRound entry f brackets) := by
  refine Forward.next.bind fun token => .ite (.pure []) (.ite (.fail _ _ _) ?_)
  refine .ite ((hf _).bind fun _ => .pure _) (.ite (hf _) (.ite ?_ ?_))
  · refine (Forward.expect _ _).bind fun _ => (hf _).bind fun _ => (Forward.expect _ _).bind fun _ => ?_
    exact (hf _).bind fun _ => .pure _
  · exact (hentry _ _).bind fun p => .ite (.pure _) ((hf _).bind fun _ => .pure _)

end forward

section agree

variable {n : Nat} (symbols : SymbolTable) {f g : Brackets → Reader (List Field)}

/-- A token with a text is taken. -/
theorem expect_takes {text context : String} (hne : text ≠ "") {c c' : Cursor} {t : Token}
    (hc : c.IsCut) (h : expect text context c = .ok (t, c')) :
    c'.ahead.length + 1 ≤ c.ahead.length := by
  obtain ⟨⟨ht, rfl⟩, htext⟩ := expect_ok.mp h
  refine (c.next_eq_eof_or_length_lt .code).resolve_left fun heof => hne ?_
  rw [← htext, ← ht, heof]
  exact hc.text

/-- The head of a function pointer takes the parenthesis in front of its parameters, at least. -/
theorem wholeMethodHead_takes {type name : String} {c c' : Cursor} (hc : c.IsCut)
    (h : wholeMethodHead type c = .ok (name, c')) : c'.ahead.length + 1 ≤ c.ahead.length := by
  obtain ⟨_, c₁, hconvention, h⟩ := reader_bind_ok h
  obtain ⟨token, c₂, htoken, h⟩ := reader_bind_ok h
  obtain ⟨p, c₃, hasterisks, h⟩ := reader_bind_ok h
  have hbefore : c.IsBefore c₃ := ((Forward.next _ _ _ hconvention).trans
    (Forward.next _ _ _ htoken)).trans (isLoop_pointerDepth.forward token _ _ _ hasterisks)
  dsimp only at h
  split at h
  · cases h
  · obtain ⟨_, c₄, hclose, h⟩ := reader_bind_ok h
    obtain ⟨_, c₅, hopen, h⟩ := reader_bind_ok h
    cases h
    have hbefore₄ := hbefore.trans (Forward.expect _ _ _ _ _ hclose)
    exact Nat.le_trans (expect_takes (by decide) (hc.of_isBefore hbefore₄) hopen) hbefore₄.length_le

/-- Fields are read alike if the parameters of function pointers are, with one token fewer ahead. -/
theorem fieldRound_agree
    (hfg : AgreeBelow (n - 1) (f .parameters) (g .parameters)) (brackets : Brackets) (t : Token) :
    AgreeBelow n (fieldRound symbols f brackets t) (fieldRound symbols g brackets t) := by
  have hmethod (usage : Usage) (type : String) :
      AgreeBelow n (methodRound f brackets usage type) (methodRound g brackets usage type) := by
    refine (AgreeBelow.refl _).taking_bind (forward_wholeMethodHead type)
      (fun c a c' hc h => wholeMethodHead_takes hc h) fun name => ?_
    exact .forward_bind .peek fun first => hfg.same_bind _
  have hafter (usage : Usage) (t : Token) :
      AgreeBelow n (fieldAfterUsageRound symbols f brackets usage t)
        (fieldAfterUsageRound symbols g brackets usage t) := by
    refine .forward_bind (isLoop_typeName.forward _) fun p => .ite (fun _ => ?_) fun _ => .refl _
    exact hmethod usage p.1
  refine .ite (fun _ => ?_) fun _ => hafter _ _
  exact .forward_bind forward_skipArguments fun _ => .forward_bind .next fun following => hafter _ _

/-- Lists are read alike if the lists and the fields after their first token are. -/
theorem listRound_agree {entry entry' : Brackets → Token → Reader (Field × Bool)}
    (hf : ∀ brackets, Forward (f brackets)) (hentry : ∀ brackets t, Forward (entry brackets t))
    (hfg : ∀ brackets, AgreeBelow n (f brackets) (g brackets))
    (hentries : ∀ brackets t, AgreeBelow n (entry brackets t) (entry' brackets t))
    (brackets : Brackets) :
    AgreeBelow (n + 1) (listRound entry f brackets) (listRound entry' g brackets) := by
  refine .next_bind fun t _ => .ite (fun _ => .refl _) fun _ => .ite (fun _ => .refl _) fun hkind => ?_
  rw [show held (some t) = 1 from if_neg hkind]
  refine .ite (fun _ => (hfg _).same_bind _) fun _ => .ite (fun _ => hfg _) fun _ => ?_
  refine .ite (fun _ => ?_) fun _ => ?_
  · refine .forward_bind (.expect _ _) fun _ => (hfg .members).bind (hf _) fun members => ?_
    exact .forward_bind (.expect _ _) fun _ => (hfg _).same_bind _
  · refine (hentries brackets t).bind (hentry _ _) fun p => .ite (fun _ => .refl _) fun _ => ?_
    exact (hfg _).same_bind _

/-- The fields of the grammar are read by rounds whose bound is smaller by one. -/
theorem field_agree (bound : Nat) (brackets : Brackets) (t : Token) :
    AgreeBelow n (field symbols (bound + 1) brackets t)
      (fieldRound symbols (fieldList symbols bound) brackets t) := by
  have hafter (usage : Usage) (t : Token) : AgreeBelow n (fieldAfterUsage symbols bound brackets usage t)
      (fieldAfterUsageRound symbols (fieldList symbols bound) brackets usage t) := by
    have htype : fieldAfterUsage symbols bound brackets usage t =
        wholeTypeName ([], t) >>= fun p =>
          if p.2.text = "(" then methodField symbols bound brackets usage p.1
          else plainField symbols brackets usage p.1 p.2 := rfl
    rw [htype]
    refine .forward_bind (isLoop_typeName.forward _) fun p => ?_
    refine .ite (fun _ => ?_) fun _ => plainField_agree symbols brackets usage p.1 p.2
    exact (methodHead_agree p.1).bind (forward_methodHead p.1) fun name => .refl _
  rw [field_succ]
  refine .ite (fun _ => ?_) fun _ => hafter _ _
  exact .forward_bind forward_skipArguments fun _ => .forward_bind .next fun following => hafter _ _

/-- Lists of fields are read alike with bounds that the number of tokens ahead does not reach. -/
theorem fieldList_agree {b b' : Nat} (hb : n ≤ b) (hb' : n ≤ b') (brackets : Brackets) :
    AgreeBelow n (fieldList symbols b brackets) (fieldList symbols b' brackets) := by
  induction n using Nat.strongRecOn generalizing b b' brackets with
  | ind n ih =>
  cases n with
  | zero => exact fun c _ hless => absurd hless (Nat.not_lt_zero _)
  | succ n =>
  obtain ⟨b, rfl⟩ := Nat.exists_eq_add_of_lt hb
  obtain ⟨b', rfl⟩ := Nat.exists_eq_add_of_lt hb'
  have hlists (brackets : Brackets) :
      AgreeBelow n (fieldList symbols (n + b) brackets) (fieldList symbols (n + b') brackets) :=
    ih n (Nat.lt_succ_self n) (Nat.le_add_right n b) (Nat.le_add_right n b') brackets
  refine listRound_agree (forward_fieldList symbols _) (forward_field symbols _) hlists ?_ brackets
  intro brackets t
  -- the parameters of a field are read with a bound that is smaller by one more
  cases n with
  | zero => exact fun c _ hless => absurd hless (Nat.not_lt_zero _)
  | succ n =>
    rw [Nat.add_right_comm, Nat.add_right_comm n 1 b']
    have hparameters : AgreeBelow (n + 1 - 1) (fieldList symbols (n + b) .parameters)
        (fieldList symbols (n + b') .parameters) :=
      ih n (Nat.lt_succ_of_lt (Nat.lt_succ_self n)) (Nat.le_add_right n b) (Nat.le_add_right n b') _
    intro c hc hless
    rw [field_agree symbols (n + b) brackets t c hc hless,
      field_agree symbols (n + b') brackets t c hc hless]
    exact fieldRound_agree symbols hparameters brackets t c hc hless

end agree

/-- Reading a list of fields is a loop. -/
theorem isLoop_fields (symbols : SymbolTable) :
    IsLoop Forward (fun _ => none) (fieldsRound symbols) (fields symbols) := by
  have hfields {n b : Nat} (hb : n ≤ b) (brackets : Brackets) :
      AgreeBelow n (fieldList symbols b brackets) (fields symbols brackets) := by
    intro c hc hless
    exact fieldList_agree symbols (Nat.le_trans hless hb) (Nat.le_refl _) brackets c hc
      (Nat.lt_succ_self _)
  refine .of_unfolds (fun f hf => ?_) ?_ (forward_fields symbols) fun brackets c _ hc => ?_
  · exact forward_listRound (forward_fieldRound symbols hf) hf
  · refine descends_of_agree fun n f g hf _ hfg brackets _ => ?_
    have hagain (brackets : Brackets) : AgreeBelow n (f brackets) (g brackets) :=
      hfg brackets (by rintro _ ⟨⟩)
    refine listRound_agree hf (forward_fieldRound symbols hf) hagain (fun brackets t => ?_) brackets
    exact fieldRound_agree symbols ((hagain _).mono (Nat.sub_le n 1)) brackets t
  · -- the list is one round with the bound that is smaller by one
    have hround : AgreeBelow (c.ahead.length + 1)
        (listRound (field symbols c.ahead.length) (fieldList symbols c.ahead.length) brackets)
        (fieldsRound symbols (fields symbols) brackets) := by
      refine listRound_agree (forward_fieldList symbols _) (forward_field symbols _)
        (hfields (Nat.le_refl _)) (fun brackets t => ?_) brackets
      cases hlength : c.ahead.length with
      | zero => exact fun c _ hless => absurd hless (Nat.not_lt_zero _)
      | succ n =>
        intro d hd hless
        have hparameters : AgreeBelow (n + 1 - 1) (fieldList symbols n .parameters)
            (fields symbols .parameters) := hfields (Nat.le_refl n) _
        rw [field_agree symbols n brackets t d hd hless]
        exact fieldRound_agree symbols hparameters brackets t d hd hless
    exact hround c hc (Nat.lt_succ_self _)

/-! ## Statements -/

/-- A statement, of which each result takes its number of tokens, comes first. -/
theorem AgreeBelow.statement_bind {α β : Type} {n : Nat} {m : Statement α} {k k' : α → Statement β}
    (hforward : IsForward m) (taken : α → Nat)
    (htakes : ∀ c s a c' s', c.IsCut → m.exec c s = (.ok (a, c'), s') →
      c'.ahead.length + taken a ≤ c.ahead.length)
    (hk : ∀ a, AgreeBelow (n - taken a) (k a) (k' a)) : AgreeBelow n (m >>= k) (m >>= k') := by
  intro c hc hless
  funext s
  show (m c >>= fun p => k p.1 p.2).run s = (m c >>= fun p => k' p.1 p.2).run s
  rw [run_bind, run_bind]
  rcases hread : (m c).run s with ⟨f | ⟨a, c'⟩, s'⟩
  · rfl
  · have hshorter := htakes c s a c' s' hc hread
    have hcut : c'.IsCut := hc.of_isBefore (hforward c s a c' s' hread)
    dsimp only
    rw [hk a c' hcut (by omega)]

/-- A statement comes first. -/
theorem AgreeBelow.statement_forward_bind {α β : Type} {n : Nat} {m : Statement α}
    {k k' : α → Statement β} (hforward : IsForward m) (hk : ∀ a, AgreeBelow n (k a) (k' a)) :
    AgreeBelow n (m >>= k) (m >>= k') :=
  .statement_bind hforward (fun _ => 0)
    (fun c s a c' s' _ hread => (hforward c s a c' s' hread).length_le) hk

/-! ## Constants of an enumeration -/

/-- A round of reading the constants of an enumeration; `previous` is the value of the one before. -/
def enumeratorsRound (enum : String) (again : Option Value → Statement (List Enumerator))
    (previous : Option Value) : Statement (List Enumerator) := do
  match ← read (writtenEnumerator enum) with
  | none => pure []
  | some written =>
    let value ← enumeratorValue previous written
    let enumerator : Enumerator := ⟨written.ident, value⟩
    if written.isLast then pure [enumerator]
    else do
      let rest ← again (some value)
      pure (enumerator :: rest)

/-- Reads all constants of an enumeration. -/
def allEnumerators (enum : String) (previous : Option Value) : Statement (List Enumerator) := do
  let bound ← read ahead
  enumerators enum (bound + 1) previous

/-- Reading the constants of an enumeration is a loop. -/
theorem isLoop_enumerators (enum : String) :
    IsLoop IsForward (fun _ => none) (enumeratorsRound enum) (allEnumerators enum) := by
  have hunrolls : Unrolls IsForward (fun _ => none) (enumeratorsRound enum)
      fun b => enumerators enum (b + 1) := by
    refine .of_descends ?_ ?_ (isForward_enumerators enum) fun b previous => rfl
    · intro f hf previous
      refine (IsForward.read (forward_writtenEnumerator enum)).bind fun written? => ?_
      cases written? with
      | none => exact .pure []
      | some written =>
        refine (IsForward.lift _).bind fun value => .ite (.pure _) ?_
        exact (hf _).bind fun rest => .pure _
    · refine descends_of_agree fun n f g _ _ hfg previous _ => ?_
      refine .statement_bind (.read (forward_writtenEnumerator enum))
        (fun written? => if written?.isSome then 1 else 0) ?_ fun written? => ?_
      · -- a constant that is read takes its name
        intro c s written? c' s' hc hread
        obtain ⟨hwritten, -⟩ := exec_read_ok.mp hread
        cases written? with
        | none => exact (forward_writtenEnumerator enum c none c' hwritten).length_le
        | some written => exact (writtenEnumerator_ok hwritten hc.kind).1
      · cases written? with
        | none => exact .refl _
        | some written =>
          refine .statement_forward_bind (.lift _) fun value => ?_
          exact .ite (fun _ => .refl _) fun _ => (hfg _ (by rintro _ ⟨⟩)).same_bind _
  refine hunrolls.isLoop (fun previous c => ⟨c.ahead.length, Nat.le_refl _, rfl⟩) ?_
  exact fun previous => (IsForward.read .ahead).bind fun bound => isForward_enumerators enum _ _

/-! ## Declarations -/

/-- A round of reading the declarations of a header. -/
def declarationsRound (again : Draft → Statement Draft) (draft : Draft) : Statement Draft := do
  let token ← read peek
  if token.kind = .eof then pure draft
  else do
    let keyword ← read next
    let draft ← declaration draft keyword
    again draft

/-- Reading the declarations of a header is a loop. -/
theorem isLoop_declarations :
    IsLoop IsForward (fun _ => none) declarationsRound declarationsAhead := by
  have hkeeps (f : Draft → Statement Draft) (hf : ∀ draft, IsForward (f draft)) (draft : Draft) :
      IsForward (declarationsRound f draft) := by
    refine (IsForward.read .peek).bind fun token => .ite (.pure _) ?_
    refine (IsForward.read .next).bind fun keyword => ?_
    exact (isForward_declaration draft keyword).bind hf
  have hforward (b : Nat) (draft : Draft) : IsForward (declarations b draft) := by
    induction b generalizing draft with
    | zero => exact .pure draft
    | succ b ih => exact hkeeps _ ih draft
  have hunrolls : Unrolls IsForward (fun _ => none) declarationsRound
      fun b => declarations (b + 1) := by
    refine .of_descends hkeeps ?_ hforward fun b draft => rfl
    refine descends_of_agree fun n f g hf hg hfg draft _ => ?_
    intro c hc hless
    -- what is looked at is read then
    have hround (f : Draft → Statement Draft) : declarationsRound f draft c =
        (if (c.next .code).1.kind = .eof then pure draft
          else read next >>= fun keyword => declaration draft keyword >>= f : Statement Draft)
            (c.settle .code) := rfl
    rw [hround, hround]
    by_cases hend : (c.next .code).1.kind = .eof
    · rw [if_pos hend, if_pos hend]
    · rw [if_neg hend, if_neg hend]
      have hread (f : Draft → Statement Draft) :
          (read next >>= fun keyword => declaration draft keyword >>= f : Statement Draft)
              (c.settle .code) =
            (declaration draft (c.next .code).1 >>= f) (c.next .code).2 := by
        rw [← c.next_settle]
        rfl
      rw [hread, hread]
      have hunread := unread_next c hc.kind
      rw [unread, show held (some (c.next .code).1) = 1 from if_neg hend] at hunread
      have hagree : AgreeBelow n (declaration draft (c.next .code).1 >>= f)
          (declaration draft (c.next .code).1 >>= g) :=
        .statement_forward_bind (isForward_declaration _ _) fun draft => hfg draft (by rintro _ ⟨⟩)
      exact hagree _ (hc.of_isBefore (c.isBefore_next .code)) (Nat.lt_of_lt_of_le hunread (Nat.le_of_lt_succ hless))
  exact hunrolls.isLoop (fun draft c => ⟨c.ahead.length, Nat.le_refl _, rfl⟩) fun draft c =>
    hforward _ draft c

/-- Where all declarations have been read, all tokens have been passed. -/
theorem passed_of_declarationsAhead {draft draft' : Draft} {c c' : Cursor} {s s' : Session}
    (hc : c.IsCut) (h : (declarationsAhead draft).exec c s = (.ok (draft', c'), s')) :
    c'.ahead = [] ∧ c'.eof = c.eof ∧ c'.passed = c.ahead.reverse ++ c.passed := by
  have hend : c'.ahead = [] := by
    induction hlength : c.ahead.length using Nat.strongRecOn generalizing draft c s with
    | ind n ih =>
    subst hlength
    have hround : (declarationsAhead draft).exec c s =
        (declarationsRound declarationsAhead draft).exec c s :=
      congrFun (isLoop_declarations.unfolds draft c (by rintro _ ⟨⟩) hc) s
    rw [hround] at h
    obtain ⟨token, c₁, hpeek, h⟩ := exec_read_bind_ok.mp h
    obtain ⟨rfl, hnext⟩ := peek_ok hpeek
    cases hpeek
    by_cases heof : (c.next .code).1.kind = .eof
    · rw [if_pos heof] at h
      cases h
      have hcut := hc.of_isBefore (c.isBefore_settle .code)
      have hfirst : (c.next .code).1 = (c.settle .code).current := rfl
      cases hahead : (c.settle .code).ahead with
      | nil => rfl
      | cons t rest =>
        have hmem : t ∈ (c.settle .code).ahead := by
          rw [hahead]
          exact List.mem_cons_self
        rw [hfirst, Cursor.current, hahead] at heof
        exact absurd heof (kind_ne_eof_of_mem hcut hmem)
    · rw [if_neg heof] at h
      obtain ⟨keyword, c₂, hkeyword, h⟩ := exec_read_bind_ok.mp h
      obtain ⟨draft₁, c₃, s₁, hdeclaration, h⟩ := exec_bind_ok h
      have hkeyword : (c.settle .code).next .code = (keyword, c₂) := Except.ok.inj hkeyword
      rw [hnext] at hkeyword
      have hunread := unread_next c hc.kind
      rw [unread, show held (some (c.next .code).1) = 1 from if_neg heof, hkeyword] at hunread
      have hbefore := isForward_declaration draft keyword _ _ _ _ _ hdeclaration
      have hcut : c₂.IsCut := by
        have hcut := hc.of_isBefore (c.isBefore_next .code)
        rwa [hkeyword] at hcut
      exact ih _ (Nat.lt_of_le_of_lt hbefore.length_le hunread) (hcut.of_isBefore hbefore) h rfl
  obtain ⟨-, heof, read, hpassed, hahead⟩ := isLoop_declarations.forward draft c s draft' c' s' h
  rw [hend, List.append_nil] at hahead
  exact ⟨hend, heof, hahead ▸ hpassed⟩

/-! ## Every loop -/

/-- The loops of the grammar end, from every place in a header, and there are no others. -/
structure EveryLoopEnds : Prop where
  /-- Passing over line ends. -/
  lineEnds : IsLoop (fun m => ∀ c, Cursor.IsBefore c (m c)) (fun _ => none) lineEndsRound
    (fun _ c => c.settle .code)
  /-- Reading a line. -/
  line : IsLoop Forward (fun _ => none) lineRound lineFrom
  /-- Counting asterisks. -/
  asterisks : IsLoop Forward some pointerDepthRound allAsterisks
  /-- Collecting a type name. -/
  typeName : IsLoop Forward (fun p : List String × Token => some p.2) typeNameRound wholeTypeName
  /-- Reading dimensions. -/
  dimensions : ∀ symbols typeName,
    IsLoop Forward some (dimensionsRound symbols typeName) (allDimensions symbols typeName)
  /-- Passing over the arguments of an annotation. -/
  arguments : IsLoop Forward (fun _ => none) argumentsRound argumentsFrom
  /-- Reading a list of fields and the lists in it. -/
  fields : ∀ symbols, IsLoop Forward (fun _ => none) (fieldsRound symbols) (fields symbols)
  /-- Reading the expression of a constant. -/
  expression : ∀ ident,
    IsLoop Forward (fun _ => none) (expressionRound ident) (expressionFrom ident)
  /-- Reading the constants of an enumeration. -/
  enumerators : ∀ enum, IsLoop IsForward (fun _ => none) (enumeratorsRound enum) (allEnumerators enum)
  /-- Reading the declarations of a header. -/
  declarations : IsLoop IsForward (fun _ => none) declarationsRound declarationsAhead
  /-- The rest of a line is read by its loop, -/
  readLine_eq : readLine = lineFrom []
  /-- the arguments of an annotation are passed over by theirs, -/
  skipArguments_eq : skipArguments = peek >>= fun token =>
    if token.text = "(" then argumentsFrom 0 else pure ()
  /-- so is the expression of a constant read -/
  enumExpression_eq : ∀ ident, enumExpression ident = expressionFrom ident []
  /-- and an enumeration. -/
  enumeration_eq : ∀ tag, enumeration tag = (do
    let list ← allEnumerators tag none
    let name ← read (expectKind .ident "enum name")
    let _ ← read (expect ";" ("end of enum " ++ name.text))
    pure ⟨name.text, list⟩ : Statement Enumeration)
  /-- A header that cannot be cut into tokens is not read. -/
  uncut : ∀ strict file source session e, (Lexer.lex file source).tokens? = .error e →
    readHeader strict file source session = (.error (.grammar e), session)
  /-- Any other is read by the loop of the declarations, from a place in it. -/
  header : ∀ strict file source session tokens, (Lexer.lex file source).tokens? = .ok tokens →
    ∃ c, Cursor.ofTokens? file tokens = some c ∧ c.IsCut ∧
      readHeader strict file source session = ExceptT.run (do
        let (draft, _) ← declarationsAhead ⟨.empty c.file, [], []⟩ c
        checkGuids strict draft
        let header := draft.finish
        report [summary header]
        pure header : InSession Header) session
  /-- If all declarations are read, all tokens but the end are passed. -/
  passed : ∀ draft c s draft' c' s', c.IsCut →
    (declarationsAhead draft).exec c s = (.ok (draft', c'), s') →
      c'.ahead = [] ∧ c'.eof = c.eof ∧ c'.passed = c.ahead.reverse ++ c.passed
  /-- The end is read any number of times and never passed. -/
  eof : ∀ (c : Cursor) mode, c.ahead = [] → c.next mode = (c.eof, c)

/-- **Every loop ends.**  The readers of the grammar are loops without a bound: each round leaves
fewer tokens unread or is the last one, so that none goes through more rounds than there are tokens. -/
theorem everyLoopEnds : EveryLoopEnds where
  lineEnds := isLoop_lineEnds
  line := isLoop_line
  asterisks := isLoop_pointerDepth
  typeName := isLoop_typeName
  dimensions := isLoop_dimensions
  arguments := isLoop_arguments
  fields := isLoop_fields
  expression := isLoop_expression
  enumerators := isLoop_enumerators
  declarations := isLoop_declarations
  readLine_eq := rfl
  skipArguments_eq := rfl
  enumExpression_eq := fun _ => rfl
  enumeration_eq := fun _ => rfl
  uncut := by
    intro strict file source session e h
    unfold readHeader header
    rw [h]
    rfl
  header := by
    intro strict file source session tokens h
    obtain ⟨body, eof, rfl, heof, -⟩ := isTokenized_of_tokens? h
    have hcursor := Cursor.ofTokens?_concat file body heof
    refine ⟨_, hcursor, (code_of_ofTokens? h hcursor).1, ?_⟩
    unfold readHeader header
    rw [h]
    dsimp only
    rw [hcursor]
    rfl
  passed := fun _ _ _ _ _ _ hc h => passed_of_declarationsAhead hc h
  eof := by
    rintro ⟨file, passed, ahead, eof⟩ mode rfl
    cases mode <;> rfl

end SdkBindings.Grammar

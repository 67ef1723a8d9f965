import SdkBindings.Proofs.Fields.Description
import SdkBindings.Proofs.Fields.Reads

/-!
# Reading the parts of a field

The readers of the grammar read the parts of a described field and come to what the description says:
the arguments of an annotation are passed over, the type name keeps its qualifiers, asterisks are
counted and dimensions are evaluated.  Each of them stops with the token after its part, which is why
most of the statements have one lexeme more than the part they are about.
-/

namespace SdkBindings

/-- The end of a line is no parenthesis. -/
theorem Token.IsBreak.not_parenthesis {token : Token} (h : token.IsBreak) :
    token.text ≠ "(" ∧ token.text ≠ ")" := by
  rcases h.2 with htext | htext <;> rw [htext] <;> decide

namespace Grammar

open Reader

/-! ## Words -/

/-- A name is not spelled like anything that has a meaning. -/
theorem Name.text_ne (name : Name) {text : String} (h : text ∈ reservedWords) : name.text ≠ text :=
  fun htext => name.notReserved (htext ▸ h)

/-- A name is not spelled like anything that is no identifier. -/
theorem Name.text_ne_mark (name : Name) {text : String}
    (h : Lexer.isIdentifier text.toList = false) : name.text ≠ text :=
  name.lexeme.text_ne_of_isIdent rfl h

/-- A name is no `const`. -/
theorem Name.isConst (name : Name) : isConst name.text = false := by
  rw [Grammar.isConst, Bool.or_eq_false_iff]
  exact ⟨decide_eq_false (name.text_ne (by decide)), decide_eq_false (name.text_ne (by decide))⟩

/-- A name is no qualifier. -/
theorem Name.isTypeQualifier (name : Name) : isTypeQualifier name.text = false := by
  rw [Grammar.isTypeQualifier, Bool.or_eq_false_iff]
  exact ⟨decide_eq_false (name.text_ne (by decide)), decide_eq_false (name.text_ne (by decide))⟩

/-- Both spellings of `const` are recognised. -/
theorem ConstWord.isConst (word : ConstWord) : isConst word.lexeme.text = true := by
  cases word <;> decide

/-- The words that become part of the type are recognised. -/
theorem Qualifier.isTypeQualifier (word : Qualifier) :
    isTypeQualifier word.lexeme.text = true ∧
      ¬ (word.lexeme.text = "*" ∨ isConst word.lexeme.text = true) := by
  cases word <;> decide

/-- Words are identifiers. -/
theorem Specifier.kind (specifier : Specifier) : specifier.lexeme.kind = .ident := by
  rcases specifier with word | word <;> cases word <;> rfl

/-! ## Annotations -/

/-- Counting on twice. -/
theorem map_add_add (n : Option Nat) (a b : Nat) :
    (n.map (· + a)).map (· + b) = n.map (· + (a + b)) := by
  rw [Option.map_map]
  exact congrArg (Option.map · n) (funext fun k => Nat.add_assoc k a b)

/-- Tokens that are no parentheses are counted. -/
theorem argumentsLength?_append {tokens : List Token}
    (h : ∀ t ∈ tokens, t.text ≠ "(" ∧ t.text ≠ ")") (depth : Nat) (rest : List Token) :
    argumentsLength? depth (tokens ++ rest) =
      (argumentsLength? depth rest).map (· + tokens.length) := by
  induction tokens with
  | nil => exact Option.map_id'.symm
  | cons token tokens ih =>
    obtain ⟨hopen, hclose⟩ := h token List.mem_cons_self
    rw [List.cons_append, argumentsLength?, if_neg hopen, if_neg hclose,
      ih fun t ht => h t (List.mem_cons_of_mem token ht), map_add_add]
    rfl

/-- An opening parenthesis, on whichever line it stands. -/
theorem argumentsLength?_open {ends : List Token} (hends : ∀ e ∈ ends, e.IsBreak) {token : Token}
    (htoken : token.Spells openParenthesis) (depth : Nat) (rest : List Token) :
    argumentsLength? depth (ends ++ token :: rest) =
      (argumentsLength? (depth + 1) rest).map (· + (1 + ends.length)) := by
  have hopen : token.text = "(" := htoken.2
  rw [argumentsLength?_append fun e he => (hends e he).not_parenthesis, argumentsLength?,
    if_pos hopen, map_add_add]

/-- A closing parenthesis that is not the last one, on whichever line it stands. -/
theorem argumentsLength?_close {ends : List Token} (hends : ∀ e ∈ ends, e.IsBreak) {token : Token}
    (htoken : token.Spells closeParenthesis) (depth : Nat) (rest : List Token) :
    argumentsLength? (depth + 2) (ends ++ token :: rest) =
      (argumentsLength? (depth + 1) rest).map (· + (1 + ends.length)) := by
  have hclose : token.text = ")" := htoken.2
  have hopen : token.text ≠ "(" := by
    rw [hclose]
    decide
  rw [argumentsLength?_append fun e he => (hends e he).not_parenthesis, argumentsLength?,
    if_neg hopen, if_pos hclose, if_neg (by omega), map_add_add]
  rfl

/-- Within parentheses, balanced lexemes leave as many open as before. -/
theorem argumentsLength?_balanced {lexemes : List Lexeme} (h : Balanced lexemes) {tokens : List Token}
    (hstretch : Stretch lexemes tokens) (depth : Nat) (rest : List Token) :
    argumentsLength? (depth + 1) (tokens ++ rest) =
      (argumentsLength? (depth + 1) rest).map (· + tokens.length) := by
  induction h generalizing tokens depth rest with
  | nil =>
    cases hstretch with
    | nil => exact Option.map_id'.symm
  | cons hopen hclose hrest ih =>
    cases hstretch with
    | @cons _ _ ends tail token hends htoken hstretch =>
      have hplain : ∀ t ∈ ends ++ [token], t.text ≠ "(" ∧ t.text ≠ ")" := by
        intro t ht
        rcases List.mem_append.mp ht with ht | ht
        · exact (hends t ht).not_parenthesis
        · rw [List.mem_singleton.mp ht, htoken.2]
          exact ⟨hopen, hclose⟩
      rw [List.append_cons, List.append_assoc, argumentsLength?_append hplain, ih hstretch,
        map_add_add, Nat.add_comm, ← List.length_append]
  | @group inner lexemes hinner hrest ihinner ih =>
    cases hstretch with
    | @cons _ _ ends tail token hends htoken hstretch =>
      obtain ⟨front, back, rfl, hfront, hback⟩ := hstretch.exists_append
      cases hback with
      | @cons _ _ ends' tail' token' hends' htoken' hback =>
        rw [List.append_assoc, List.cons_append, argumentsLength?_open hends htoken,
          List.append_assoc, ihinner hfront, List.append_assoc, List.cons_append,
          argumentsLength?_close hends' htoken', ih hback, map_add_add, map_add_add, map_add_add]
        simp only [List.length_append, List.length_cons]
        exact congrArg (Option.map · _) (funext fun k => by omega)

/-- The closing parenthesis of the arguments, on whichever line it stands. -/
theorem argumentsLength?_last {ends : List Token} (hends : ∀ e ∈ ends, e.IsBreak) {token : Token}
    (htoken : token.Spells closeParenthesis) (rest : List Token) :
    argumentsLength? 1 (ends ++ token :: rest) = some (1 + ends.length) := by
  have hclose : token.text = ")" := htoken.2
  have hopen : token.text ≠ "(" := by
    rw [hclose]
    decide
  rw [argumentsLength?_append fun e he => (hends e he).not_parenthesis, argumentsLength?,
    if_neg hopen, if_pos hclose, if_pos (Nat.le_refl 1)]
  rfl

/-- Arguments in parentheses are counted up to the closing one. -/
theorem argumentsLength?_group {inner : List Lexeme} (h : Balanced inner) {tokens : List Token}
    (hstretch : Stretch (openParenthesis :: (inner ++ [closeParenthesis])) tokens)
    (rest : List Token) : argumentsLength? 0 (tokens ++ rest) = some tokens.length := by
  cases hstretch with
  | @cons _ _ ends tail token hends htoken hstretch =>
    obtain ⟨front, back, rfl, hfront, hback⟩ := hstretch.exists_append
    cases hback with
    | @cons _ _ ends' tail' token' hends' htoken' hback =>
      cases hback with
      | nil =>
        rw [List.append_assoc, List.cons_append, argumentsLength?_open hends htoken,
          List.append_assoc, argumentsLength?_balanced h hfront, List.append_assoc,
          List.cons_append, argumentsLength?_last hends' htoken']
        simp only [Option.map_some, List.length_append, List.length_cons, List.length_nil]
        exact congrArg some (by omega)

/-- The arguments of an annotation are passed over. -/
theorem reads_skipArguments {inner : List Lexeme} (h : Balanced inner) :
    Reads (openParenthesis :: (inner ++ [closeParenthesis])) skipArguments fun _ => True := by
  refine Reads.peek_bind fun token htoken => ?_
  have hopen : token.text = "(" := htoken.2
  rw [if_pos hopen]
  intro file passed tokens rest eof hstretch
  have hlength := argumentsLength?_group h hstretch rest
  refine ⟨(), ?_, trivial⟩
  rw [get_bind]
  dsimp only
  rw [hlength]
  show Except.ok ((), (⟨file, ((tokens ++ rest).take tokens.length).reverse ++ passed,
    (tokens ++ rest).drop tokens.length, eof⟩ : Cursor)) = _
  rw [List.take_left, List.drop_left]

/-- Where no parenthesis follows, there are no arguments. -/
theorem Reads.skipArguments_bind {α : Type} {lexeme : Lexeme} {lexemes : List Lexeme}
    {k : Unit → Reader α} {result : α → Prop} (hopen : lexeme.text ≠ "(")
    (h : Reads (lexeme :: lexemes) (k ()) result) :
    Reads (lexeme :: lexemes) (skipArguments >>= k) result := by
  unfold skipArguments
  rw [bind_assoc]
  refine Reads.peek_bind fun token htoken => ?_
  rw [if_neg fun htext => hopen (htoken.2.symm.trans htext)]
  exact h

/-! ## Types -/

/-- The words in front of a type are kept or dropped, and the name of the type ends it. -/
theorem readsOn_typeName (specifiers : List Specifier) (name : Name) (following : Lexeme)
    {bound : Nat} (hbound : specifiers.length < bound) (parts : List String) :
    ReadsOn (specifiers.map Specifier.lexeme ++ name.lexeme :: [following]) (typeName bound parts)
      fun (text, last) =>
        text = " ".intercalate (parts ++ (specifiers.flatMap Specifier.kept ++ [name.text])) ∧
          last.Spells following := by
  induction specifiers generalizing bound parts with
  | nil =>
    cases bound with
    | zero => exact absurd hbound (Nat.not_lt_zero _)
    | succ bound =>
      intro token htoken
      have htext : token.text = name.text := htoken.2
      have hkind : token.kind = .ident := htoken.1
      have hstar : ¬ (token.text = "*" ∨ isConst token.text = true) := by
        rw [htext, name.isConst]
        exact not_or.mpr ⟨name.text_ne_mark (by decide), Bool.false_ne_true⟩
      rw [typeName, if_neg hstar, if_neg (not_not_intro hkind), htext, name.isTypeQualifier]
      refine Reads.next_bind fun last hlast => ?_
      exact .pure ⟨rfl, hlast⟩
  | cons specifier rest ih =>
    cases bound with
    | zero => exact absurd hbound (Nat.not_lt_zero _)
    | succ bound =>
      have hrest := ih (Nat.lt_of_succ_lt_succ hbound)
      intro token htoken
      rw [typeName]
      cases specifier with
      | const word =>
        have htext : token.text = word.lexeme.text := htoken.2
        rw [if_pos (.inr (htext ▸ word.isConst))]
        exact Reads.next_bind (hrest parts)
      | qualifier word =>
        have htext : token.text = word.lexeme.text := htoken.2
        have hkind : token.kind = .ident := htoken.1.trans (Specifier.kind (.qualifier word))
        rw [htext, if_neg word.isTypeQualifier.2, if_neg (not_not_intro hkind),
          word.isTypeQualifier.1]
        have hparts := hrest (parts ++ [word.lexeme.text])
        rw [List.append_assoc] at hparts
        exact Reads.next_bind hparts

/-! ## Indirections -/

/-- Asterisks are counted. -/
theorem readsOn_pointerDepth (n : Nat) {following : Lexeme} (hfollowing : following.text ≠ "*")
    {bound : Nat} (hbound : n ≤ bound) :
    ReadsOn (List.replicate n asterisk ++ [following]) (pointerDepth bound)
      fun (depth, last) => depth = n ∧ last.Spells following := by
  induction n generalizing bound with
  | zero =>
    intro token htoken
    have hstar : token.text ≠ "*" := fun htext => hfollowing (htoken.2.symm.trans htext)
    cases bound with
    | zero => exact .pure ⟨rfl, htoken⟩
    | succ bound =>
      rw [pointerDepth, if_neg hstar]
      exact .pure ⟨rfl, htoken⟩
  | succ n ih =>
    cases bound with
    | zero => exact absurd hbound (Nat.not_succ_le_zero n)
    | succ bound =>
      intro token htoken
      have hstar : token.text = "*" := htoken.2
      rw [pointerDepth, if_pos hstar]
      refine Reads.next_bind (ReadsOn.bind (ih (Nat.le_of_succ_le_succ hbound)) ?_)
      rintro ⟨depth, last⟩ ⟨rfl, hlast⟩
      exact .pure ⟨rfl, hlast⟩

/-! ## Dimensions -/

/-- The number of a dimension is its length. -/
theorem reads_dimension (symbols : SymbolTable) (typeName : String) (dimension : Dimension)
    {token : Token} (htoken : token.Spells dimension.numeral) :
    Reads [] (Grammar.dimension symbols typeName token) (· = dimension.length) := by
  have hkind : token.kind = .number := htoken.1
  have htext : token.text.toList = dimension.digits := by
    rw [htoken.2]
    exact String.toList_ofList
  have hdecimal := List.all_eq_true.mp dimension.areDigits
  have hdigits : Text.isDigits token.text.toList = true := by
    rw [htext, Text.isDigits, Bool.and_eq_true, List.all_eq_true, Bool.not_eq_true',
      List.isEmpty_eq_false_iff]
    refine ⟨dimension.ne_nil, fun c hc => ?_⟩
    rw [Text.isDigitLike, hdecimal c hc, Bool.true_or]
  unfold Grammar.dimension
  rw [if_pos ⟨hkind, hdigits⟩, htext, Numeral.decimalInteger?_unlimited,
    Numeral.readInteger?_digits dimension.ne_nil hdecimal]
  exact .pure rfl

/-- Dimensions are read up to something that opens no further one. -/
theorem readsOn_dimensions (symbols : SymbolTable) (typeName : String) (dims : List Dimension)
    {following : Lexeme} (hfollowing : following.text ≠ "[") {bound : Nat}
    (hbound : dims.length ≤ bound) :
    ReadsOn (dims.flatMap Dimension.lexemes ++ [following]) (dimensions symbols typeName bound)
      fun (lengths, last) => lengths = dims.map Dimension.length ∧ last.Spells following := by
  induction dims generalizing bound with
  | nil =>
    intro token htoken
    have hopen : token.text ≠ "[" := fun htext => hfollowing (htoken.2.symm.trans htext)
    cases bound with
    | zero => exact .pure ⟨rfl, htoken⟩
    | succ bound =>
      rw [dimensions, if_neg hopen]
      exact .pure ⟨rfl, htoken⟩
  | cons dimension rest ih =>
    cases bound with
    | zero => exact absurd hbound (Nat.not_succ_le_zero _)
    | succ bound =>
      intro token htoken
      have hopen : token.text = "[" := htoken.2
      rw [dimensions, if_pos hopen]
      refine Reads.next_bind fun size hsize => ?_
      refine (reads_dimension symbols typeName dimension hsize).nothing_bind fun n hn => ?_
      refine (Reads.expect _ rfl).bind fun _ _ => ?_
      refine Reads.next_bind (ReadsOn.bind (ih (Nat.le_of_succ_le_succ hbound)) ?_)
      rintro ⟨lengths, last⟩ ⟨rfl, hlast⟩
      exact .pure ⟨by rw [hn]; rfl, hlast⟩

/-! ## Plain fields -/

/-- What stands after an entry of a list: a separator, or what closes the list. -/
def ListForm.terminator (form : ListForm) (closed : Bool) : Lexeme :=
  if closed then form.close else form.separator

/-- Whether a terminator closes the list. -/
theorem ListForm.decide_close (form : ListForm) (closed : Bool) :
    decide ((form.terminator closed).text = form.brackets.close) = closed := by
  cases form <;> cases closed <;> decide

/-- A terminator is a separator or closes the list. -/
theorem ListForm.terminator_text (form : ListForm) (closed : Bool) :
    ¬ ((form.terminator closed).text ≠ form.brackets.separator ∧
      (form.terminator closed).text ≠ form.brackets.close) := by
  cases form <;> cases closed <;> decide

/-- A terminator has no other meaning. -/
theorem ListForm.terminator_text_ne (form : ListForm) (closed : Bool) :
    (form.terminator closed).text ≠ "[" := by
  cases form <;> cases closed <;> decide

/-- The asterisks end either with the name or with a `const` that more asterisks follow. -/
theorem Plain.indirections_cases (p : Plain) (rest : List Lexeme) :
    ∃ following others, p.indirections ++ p.name.lexeme :: rest =
        List.replicate p.leading asterisk ++ following :: others ∧ following.text ≠ "*" ∧
      ((following = p.name.lexeme ∧ others = rest ∧ p.depth = p.leading + 0) ∨
        ∃ (word : ConstWord) (n : Nat), following = word.lexeme ∧
          others = List.replicate n asterisk ++ p.name.lexeme :: rest ∧ p.depth = p.leading + n) := by
  unfold indirections depth
  cases p.trailing with
  | none =>
    rw [List.append_nil]
    exact ⟨_, _, rfl, p.name.text_ne_mark (by decide), .inl ⟨rfl, rfl, rfl⟩⟩
  | some trailing =>
    obtain ⟨word, n⟩ := trailing
    rw [List.append_assoc]
    refine ⟨_, _, rfl, ?_, .inr ⟨word, n, rfl, rfl, rfl⟩⟩
    cases word <;> decide

/-- There are at most as many dimensions as lexemes of them. -/
theorem length_dimensions_le (dims : List Dimension) :
    dims.length ≤ (dims.flatMap Dimension.lexemes).length := by
  induction dims with
  | nil => exact Nat.le_refl _
  | cons dimension rest ih =>
    rw [List.flatMap_cons, List.length_append, List.length_cons]
    show rest.length + 1 ≤ 3 + _
    omega

/-- The end of a plain field, given the token that terminates it. -/
def terminatedField (brackets : Brackets) (usage : Usage) (typeName name : String) (depth : Nat)
    (target : CType) (token : Token) : Reader (Field × Bool) := do
  if token.text ≠ brackets.separator ∧ token.text ≠ brackets.close then
    fail token brackets.separator ("after field " ++ name)
  let type := if depth = 0 then target else CType.pointer typeName depth target
  pure (⟨name, type, usage.isOut, usage.hasCount, false, false, usage.isErased⟩,
    token.text = brackets.close)

/-- A plain field from its name on, given the token of the name. -/
def namedField (symbols : SymbolTable) (brackets : Brackets) (usage : Usage) (typeName : String)
    (bound depth : Nat) (token : Token) : Reader (Field × Bool) := do
  if token.kind ≠ .ident then fail token "field name" ("after type " ++ typeName)
  let name := token.text
  let token ← next
  if token.text = "[" then do
    let (sizes, token) ← dimensions symbols typeName bound token
    terminatedField brackets usage typeName name depth (.array typeName sizes) token
  else terminatedField brackets usage typeName name depth (.basic typeName) token

/-- The rest of a plain field is its indirections and what comes from its name on. -/
theorem plainField_eq (symbols : SymbolTable) (brackets : Brackets) (usage : Usage)
    (typeName : String) :
    plainField symbols brackets usage typeName =
      (fun token => do
        let bound ← ahead
        let p ← pointerDepth (bound + 1) token
        if isConst p.2.text then do
          let token ← next
          let q ← pointerDepth (bound + 1) token
          namedField symbols brackets usage typeName (bound + 1) (p.1 + q.1) q.2
        else namedField symbols brackets usage typeName (bound + 1) (p.1 + 0) p.2) :=
  rfl

section

variable (form : ListForm) (closed : Bool) (p : Plain)

/-- A terminator ends a field with everything that is described. -/
theorem reads_terminatedField {token : Token} (htoken : token.Spells (form.terminator closed)) :
    Reads [] (terminatedField form.brackets (usageOf p.usage) p.type.text p.name.text p.depth
      p.target token) (· = (p.field, closed)) := by
  have hterminator := form.terminator_text closed
  rw [← htoken.2] at hterminator
  have hclosed : decide (token.text = form.brackets.close) = closed := by
    rw [htoken.2]
    exact form.decide_close closed
  unfold terminatedField
  extract_lets type ending
  rw [if_neg hterminator]
  refine .pure ?_
  rw [hclosed]
  rfl

/-- From its name on, a plain field is read up to what terminates it. -/
theorem reads_namedField (symbols : SymbolTable) {bound : Nat} (hbound : p.dimensions.length ≤ bound)
    {token : Token} (htoken : token.Spells p.name.lexeme) :
    Reads (p.dimensions.flatMap Dimension.lexemes ++ [form.terminator closed])
      (namedField symbols form.brackets (usageOf p.usage) p.type.text bound p.depth token)
      (· = (p.field, closed)) := by
  have hkind : token.kind = .ident := htoken.1
  have hname : token.text = p.name.text := htoken.2
  unfold namedField
  extract_lets name afterName
  rw [if_neg (not_not_intro hkind)]
  cases hp : p.dimensions with
  | nil =>
    have htarget : CType.basic p.type.text = p.target := by
      rw [Plain.target, if_pos hp]
    refine Reads.next.bind fun token htoken => ?_
    have hopen : token.text ≠ "[" := htoken.2 ▸ form.terminator_text_ne closed
    rw [if_neg hopen]
    dsimp only [name]
    rw [hname, htarget]
    exact reads_terminatedField form closed p htoken
  | cons first rest =>
    have htarget : CType.array p.type.text (p.dimensions.map Dimension.length) = p.target := by
      rw [Plain.target, if_neg (by rw [hp]; exact List.cons_ne_nil _ _)]
    have hdimensions := readsOn_dimensions symbols p.type.text p.dimensions
      (form.terminator_text_ne closed) hbound
    rw [hp] at hdimensions htarget
    refine Reads.next_bind fun token htoken => ?_
    have hopen : token.text = "[" := htoken.2
    rw [if_pos hopen]
    refine ReadsOn.bind hdimensions ?_ token htoken
    rintro ⟨_, final⟩ ⟨rfl, hfinal⟩
    dsimp only [name]
    rw [hname, htarget]
    exact reads_terminatedField form closed p hfinal

/-- The rest of a plain field is read up to what terminates it. -/
theorem readsOn_plainField (symbols : SymbolTable) :
    ReadsOn (p.indirections ++ p.name.lexeme ::
        (p.dimensions.flatMap Dimension.lexemes ++ [form.terminator closed]))
      (plainField symbols form.brackets (usageOf p.usage) p.type.text)
      (· = (p.field, closed)) := by
  obtain ⟨following, others, hsplit, hstar, hcases⟩ := p.indirections_cases
    (p.dimensions.flatMap Dimension.lexemes ++ [form.terminator closed])
  rw [plainField_eq, hsplit]
  refine ReadsOn.ahead_bind fun bound hbound => ?_
  have hdims : p.dimensions.length ≤ bound + 1 := by
    have hlength := length_dimensions_le p.dimensions
    rw [← hsplit, List.length_append, List.length_cons, List.length_append] at hbound
    omega
  rw [List.length_append, List.length_cons, List.length_replicate] at hbound
  refine (readsOn_pointerDepth p.leading hstar (by omega)).bind ?_
  rintro ⟨_, last⟩ ⟨rfl, hlast⟩
  rcases hcases with ⟨rfl, rfl, hdepth⟩ | ⟨word, n, rfl, rfl, hdepth⟩
  · have hconst : ¬ isConst last.text = true := by
      rw [hlast.2]
      exact Bool.eq_false_iff.mp p.name.isConst
    rw [if_neg hconst, ← hdepth]
    exact reads_namedField form closed p symbols hdims hlast
  · have hconst : isConst last.text = true := by
      rw [hlast.2]
      exact word.isConst
    rw [if_pos hconst]
    rw [List.length_append, List.length_replicate] at hbound
    refine Reads.next_bind (ReadsOn.bind
      (readsOn_pointerDepth n (p.name.text_ne_mark (by decide)) (by omega)) ?_)
    rintro ⟨_, name⟩ ⟨rfl, hname⟩
    rw [← hdepth]
    exact reads_namedField form closed p symbols hdims hname

end

/-! ## Heads of methods -/

/-- The head of a method is read up to the parenthesis that opens its parameters. -/
theorem reads_methodHead (result : String) (convention name : Name) :
    Reads [convention.lexeme, asterisk, name.lexeme, closeParenthesis, openParenthesis]
      (methodHead result) (· = name.text) := by
  refine Reads.next.bind fun _ _ => Reads.ahead_bind fun bound _ => ?_
  refine Reads.next_bind (ReadsOn.bind (readsOn_pointerDepth 1
    (name.text_ne_mark (by decide)) (Nat.le_add_left 1 bound)) ?_)
  rintro ⟨_, token⟩ ⟨-, htoken⟩
  dsimp -zeta only
  extract_lets word afterName
  have hkind : token.kind = .ident := htoken.1
  rw [if_neg (not_not_intro hkind)]
  refine (Reads.expect _ rfl).bind fun _ _ => (Reads.expect _ rfl).bind fun _ _ => ?_
  exact .pure htoken.2

end Grammar

end SdkBindings

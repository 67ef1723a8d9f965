import SdkBindings.Proofs.Binding.Items
import SdkBindings.Proofs.Skipping.Runs

/-!
# What is skipped

Between the items of a header many things may stand that declare nothing (`IsSkipped`): directives but
definitions, definitions that a rule skips or whose expressions are of a kind that is left alone,
declarations without a body, functions that are not exported, and tokens that start nothing.

The reader does not look for the end of what it skips.  Of a declaration without a body it passes the
first two or three tokens, of a directive the line, of anything else a single token, and what is left
of it has to start nothing either.  That is why such a run is complete and leaves the header and the
known constants as they are, wherever it stands (`comesTo_of_isSkipped`).
-/

namespace SdkBindings.Grammar

open Reader

/-! ## Forms -/

/-- The words that start a declaration. -/
def declarationWords : List String := ["#", "MIDL_INTERFACE", "typedef", "HRESULT", "interface"]

/-- The token starts no declaration. -/
def StartsNothing (t : Token) : Prop :=
  t.text ∉ declarationWords

instance : DecidablePred StartsNothing :=
  fun t => inferInstanceAs (Decidable (t.text ∉ declarationWords))

/-- Tokens of code that are skipped. -/
inductive IsSkippedCode : List Token → Prop
  /-- Tokens none of which starts a declaration. -/
  | tokens {ts : List Token} (h : ∀ t ∈ ts, StartsNothing t) : IsSkippedCode ts
  /-- An interface that is only announced, such as `typedef interface A A;`. -/
  | announced {keyword kind : Token} {ts : List Token} (hkeyword : keyword.text = "typedef")
      (hkind : kind.text = "interface") (hts : ∀ t ∈ ts, StartsNothing t) :
      IsSkippedCode (keyword :: kind :: ts)
  /-- A struct or enumeration without a body, such as `typedef struct Tag Name;`. -/
  | bodiless {keyword kind tag name : Token} {ts : List Token} (hkeyword : keyword.text = "typedef")
      (hkind : kind.text = "struct" ∨ kind.text = "enum") (htag : tag.text ≠ "\x7b")
      (hopen : name.text ≠ "\x7b") (hts : ∀ t ∈ name :: ts, StartsNothing t) :
      IsSkippedCode (keyword :: kind :: tag :: name :: ts)
  /-- An interface whose name is repeated, such as `interface N N;`. -/
  | repeated {keyword name again : Token} {ts : List Token} (hkeyword : keyword.text = "interface")
      (hname : name.kind = .ident) (hagain : again.text = name.text)
      (hts : ∀ t ∈ ts, StartsNothing t) : IsSkippedCode (keyword :: name :: again :: ts)
  /-- A function that is not exported, such as `HRESULT Name(void);`. -/
  | function {keyword convention : Token} {ts : List Token} (hkeyword : keyword.text = "HRESULT")
      (hconvention : convention.text ≠ "WINAPI") (hts : ∀ t ∈ ts, StartsNothing t) :
      IsSkippedCode (keyword :: convention :: ts)

/-- The definition comes to nothing: a rule skips it, or its expression is of a kind that is left
alone. -/
def IsSkippedMacro (table : SymbolTable) (name : Token) (body : List Token) : Prop :=
  Rules.isSkippedMacro name.text (body.map Token.text) = true ∨
    ∃ e, Constant.evaluateMacro table name body = .error e ∧ e.class = .unsupported

/-- The value is one that is left alone. -/
def isLeftAlone : Except Constant.Error Value → Bool
  | .ok _ => false
  | .error e => decide (e.class = .unsupported)

theorem isLeftAlone_iff {value : Except Constant.Error Value} :
    isLeftAlone value = true ↔ ∃ e, value = .error e ∧ e.class = .unsupported := by
  cases value <;> simp [isLeftAlone]

instance (table : SymbolTable) (name : Token) (body : List Token) :
    Decidable (IsSkippedMacro table name body) :=
  decidable_of_iff (Rules.isSkippedMacro name.text (body.map Token.text) = true ∨
    isLeftAlone (Constant.evaluateMacro table name body) = true) (or_congr Iff.rfl isLeftAlone_iff)

/-- Tokens that are skipped where the constants of the table are known.  In code lines may end
anywhere; a directive goes on to the end of its line. -/
inductive IsSkipped (table : SymbolTable) : List Token → Prop
  /-- Code. -/
  | code {run : List Token} (h : IsSkippedCode (run.filter fun t => !t.isLineEnd)) :
      IsSkipped table run
  /-- A directive that is no definition. -/
  | directive {hash lineEnd : Token} {line : List Token} (hhash : hash.text = "#")
      (hline : ∀ t ∈ line, t.isLineEnd = false) (hend : lineEnd.isLineEnd = true)
      (hword : ∀ word ∈ line.head?, word.text ≠ "define") :
      IsSkipped table (hash :: (line ++ [lineEnd]))
  /-- A definition that comes to nothing. -/
  | definition {hash word name lineEnd : Token} {body : List Token} (hhash : hash.text = "#")
      (hword : word.text = "define") (hwordEnd : word.isLineEnd = false) (hname : name.kind = .ident)
      (hbody : ∀ t ∈ body, t.isLineEnd = false) (hend : lineEnd.isLineEnd = true)
      (hskipped : IsSkippedMacro table name body) :
      IsSkipped table (hash :: word :: name :: (body ++ [lineEnd]))
  /-- One after the other. -/
  | append {xs ys : List Token} (hxs : IsSkipped table xs) (hys : IsSkipped table ys) :
      IsSkipped table (xs ++ ys)

/-! ## Code -/

/-- The first token of code in a run. -/
theorem exists_first {run : List Token} (hwritten : ∀ t ∈ run, t.isCode = true ∨ t.IsBreak) {t : Token}
    {ts : List Token} (h : run.filter (fun t => !t.isLineEnd) = t :: ts) :
    ∃ ends more, run = ends ++ t :: more ∧ (∀ e ∈ ends, e.isLineEnd = true) ∧ t.isCode = true ∧
      (∀ t ∈ more, t.isCode = true ∨ t.IsBreak) ∧ more.filter (fun t => !t.isLineEnd) = ts := by
  obtain ⟨ends, more, rfl, hends, ht, hmore⟩ := List.filter_eq_cons_iff.mp h
  refine ⟨ends, more, rfl, fun e he => by simpa using hends e he, ?_, fun u hu => ?_, hmore⟩
  · rcases hwritten t (List.mem_append_right ends List.mem_cons_self) with hcode | hbreak
    · exact hcode
    · rw [hbreak.isLineEnd] at ht
      exact absurd ht (by decide)
  · exact hwritten u (List.mem_append_right ends (List.mem_cons_of_mem t hu))

/-- A reader goes on behind its first part. -/
theorem reader_bind {α β : Type} {m : Reader α} {k : α → Reader β} {c c' : Cursor} {a : α}
    (h : m c = .ok (a, c')) : (m >>= k) c = k a c' := by
  show (m c >>= fun p => k p.1 p.2) = _
  rw [h]
  rfl

/-- Line ends in front of a token of code are passed over when it is read. -/
theorem next_breaks (file : String) (passed rest : List Token) (eof : Token) {ends : List Token}
    (hends : ∀ e ∈ ends, e.isLineEnd = true) {t : Token} (ht : t.isCode = true) :
    next ⟨file, passed, ends ++ t :: rest, eof⟩ =
      .ok (t, ⟨file, t :: (ends.reverse ++ passed), rest, eof⟩) :=
  congrArg Except.ok (Cursor.next_breaks_code file passed rest eof hends (Token.isLineEnd_of_isCode ht))

/-- Line ends in front of a token of code are passed over when it is looked at. -/
theorem peek_breaks (file : String) (passed rest : List Token) (eof : Token) {ends : List Token}
    (hends : ∀ e ∈ ends, e.isLineEnd = true) {t : Token} (ht : t.isCode = true) :
    peek ⟨file, passed, ends ++ t :: rest, eof⟩ =
      .ok (t, ⟨file, ends.reverse ++ passed, t :: rest, eof⟩) := by
  show Except.ok (Cursor.current (Cursor.settle .code _), Cursor.settle .code _) = _
  rw [Cursor.settle_append_breaks _ _ _ _ hends,
    Cursor.settle_cons_code _ _ _ _ (Token.isLineEnd_of_isCode ht)]
  rfl

/-- Without a brace behind the tag or in its place no body is opened; the token behind the tag stays
ahead. -/
theorem openBody_none (file : String) (passed rest : List Token) (eof : Token) {ends ends' : List Token}
    (hends : ∀ e ∈ ends, e.isLineEnd = true) (hends' : ∀ e ∈ ends', e.isLineEnd = true)
    {tag name : Token} (htag : tag.isCode = true) (hname : name.isCode = true)
    (hbrace : tag.text ≠ "\x7b") (hbrace' : name.text ≠ "\x7b") :
    openBody ⟨file, passed, ends ++ tag :: (ends' ++ name :: rest), eof⟩ =
      .ok (none, ⟨file, ends'.reverse ++ tag :: (ends.reverse ++ passed), name :: rest, eof⟩) := by
  rw [openBody, reader_bind (next_breaks file passed _ eof hends htag), if_neg hbrace,
    reader_bind (peek_breaks file _ rest eof hends' hname), if_neg hbrace']
  rfl

section

variable {file : String} {draft : Draft} {s : Session}

/-- A statement that starts with a read goes on behind the first token of code. -/
theorem exec_next_bind {α : Type} (passed rest : List Token) (eof : Token) {ends : List Token}
    (hends : ∀ e ∈ ends, e.isLineEnd = true) {t : Token} (ht : t.isCode = true)
    (k : Token → Statement α) :
    (read next >>= k).exec ⟨file, passed, ends ++ t :: rest, eof⟩ s =
      (k t).exec ⟨file, t :: (ends.reverse ++ passed), rest, eof⟩ s :=
  exec_bind (exec_read_ok.mpr ⟨next_breaks file passed rest eof hends ht, rfl⟩)

/-- A token that starts no declaration declares nothing. -/
theorem declaration_of_startsNothing (draft : Draft) {t : Token} (h : StartsNothing t) :
    declaration draft t = pure draft := by
  unfold StartsNothing declarationWords at h
  unfold declaration
  split
  all_goals first | rfl | (rename_i heq; exact absurd (by simp [heq]) h)

/-- Tokens that start no declaration are passed over one by one. -/
theorem comesTo_tokens {run : List Token} (hwritten : ∀ t ∈ run, t.isCode = true ∨ t.IsBreak)
    (h : ∀ t ∈ run.filter fun t => !t.isLineEnd, StartsNothing t) :
    ComesTo file draft s run (.ok draft) s := by
  induction run with
  | nil => exact .nil
  | cons t run ih =>
    obtain ⟨ht, hrun⟩ := List.forall_mem_cons.mp hwritten
    rcases ht with hcode | hbreak
    · rw [List.filter_cons_of_pos (by rw [Token.isLineEnd_of_isCode hcode]; rfl)] at h
      obtain ⟨hfirst, hrest⟩ := List.forall_mem_cons.mp h
      have hread : ComesTo file draft s (t :: ([] ++ run)) (.ok draft) s := by
        refine comesTo_declaration hcode (fun passed rest eof _ => ?_) (ih hrun hrest)
        rw [declaration_of_startsNothing draft hfirst]
        rfl
      exact hread
    · rw [List.filter_cons_of_neg (by rw [hbreak.isLineEnd]; exact Bool.false_ne_true)] at h
      have hend : ComesTo file draft s [t] (.ok draft) s :=
        comesTo_breaks fun e he => List.mem_singleton.mp he ▸ hbreak.isLineEnd
      exact hend.append (ih hrun h) hrun

/-- A declaration of which the reader takes a part is complete, if what is left of it starts nothing. -/
theorem comesTo_part {draft' : Draft} {t : Token} {ends part left : List Token}
    (hwritten : ∀ u ∈ ends ++ t :: (part ++ left), u.isCode = true ∨ u.IsBreak)
    (hends : ∀ e ∈ ends, e.isLineEnd = true) (ht : t.isCode = true)
    (hread : ∀ passed rest eof,
      (declaration draft t).exec ⟨file, t :: passed, part ++ (left ++ rest), eof⟩ s =
        (.ok (draft', ⟨file, part.reverse ++ t :: passed, left ++ rest, eof⟩), s))
    (hleft : ∀ u ∈ left.filter fun u => !u.isLineEnd, StartsNothing u) :
    ComesTo file draft s (ends ++ t :: (part ++ left)) (.ok draft') s := by
  have hbehind : ∀ u ∈ t :: (part ++ left), u.isCode = true ∨ u.IsBreak := fun u hu =>
    hwritten u (List.mem_append_right ends hu)
  have hskipped : ComesTo file draft' s left (.ok draft') s :=
    comesTo_tokens (fun u hu => hbehind u (List.mem_cons_of_mem t (List.mem_append_right part hu))) hleft
  exact (comesTo_breaks hends).append
    (comesTo_declaration ht (fun passed rest eof _ => hread passed rest eof) hskipped) hbehind

/-- Where one token of code belongs to a declaration that declares nothing, what is left of it has to
start nothing. -/
theorem comesTo_two {keyword second : Token} {ts run : List Token}
    (hwritten : ∀ t ∈ run, t.isCode = true ∨ t.IsBreak)
    (hrun : run.filter (fun t => !t.isLineEnd) = keyword :: second :: ts)
    (hdeclaration : ∃ k : Token → Statement Draft, declaration draft keyword = read next >>= k ∧
      k second = pure draft) (hts : ∀ t ∈ ts, StartsNothing t) :
    ComesTo file draft s run (.ok draft) s := by
  obtain ⟨ends, run, rfl, hends, hkeyword, hwritten', hrun⟩ := exists_first hwritten hrun
  obtain ⟨ends', more, rfl, hends', hsecond, -, hmore⟩ := exists_first hwritten' hrun
  obtain ⟨k, hread, hk⟩ := hdeclaration
  have hsplit : ends ++ keyword :: (ends' ++ second :: more) =
      ends ++ keyword :: (ends' ++ [second] ++ more) := by simp
  rw [hsplit] at hwritten ⊢
  refine comesTo_part hwritten hends hkeyword (fun passed rest eof => ?_) (hmore ▸ hts)
  rw [hread, List.append_assoc, List.singleton_append, exec_next_bind _ _ _ hends' hsecond, hk,
    List.reverse_append]
  rfl

/-- An interface whose name is repeated is passed over. -/
theorem comesTo_repeated {keyword name again : Token} {ts run : List Token}
    (hkeyword : keyword.text = "interface") (hname : name.kind = .ident)
    (hagain : again.text = name.text) (hts : ∀ t ∈ ts, StartsNothing t)
    (hwritten : ∀ t ∈ run, t.isCode = true ∨ t.IsBreak)
    (hrun : run.filter (fun t => !t.isLineEnd) = keyword :: name :: again :: ts) :
    ComesTo file draft s run (.ok draft) s := by
  obtain ⟨ends, run, rfl, hends, hcode, hwritten₁, hrun⟩ := exists_first hwritten hrun
  obtain ⟨ends₁, run, rfl, hends₁, hcode₁, hwritten₂, hrun⟩ := exists_first hwritten₁ hrun
  obtain ⟨ends₂, more, rfl, hends₂, hcode₂, -, hmore⟩ := exists_first hwritten₂ hrun
  have hdeclaration : declaration draft keyword = interface draft := by
    simp only [declaration, hkeyword]
  have hsplit : ends ++ keyword :: (ends₁ ++ name :: (ends₂ ++ again :: more)) =
      ends ++ keyword :: (ends₁ ++ name :: (ends₂ ++ [again]) ++ more) := by simp
  rw [hsplit] at hwritten ⊢
  refine comesTo_part hwritten hends hcode (fun passed rest eof => ?_) (hmore ▸ hts)
  have hexpect : expectKind .ident "interface name"
      ⟨file, keyword :: passed, ends₁ ++ name :: (ends₂ ++ again :: (more ++ rest)), eof⟩ =
      .ok (name, ⟨file, name :: (ends₁.reverse ++ keyword :: passed),
        ends₂ ++ again :: (more ++ rest), eof⟩) :=
    checked_ok.mpr ⟨next_ok.mp (next_breaks file _ _ eof hends₁ hcode₁), hname⟩
  have hahead : ends₁ ++ name :: (ends₂ ++ [again]) ++ (more ++ rest) =
      ends₁ ++ name :: (ends₂ ++ again :: (more ++ rest)) := by simp
  have hpassed : (ends₁ ++ name :: (ends₂ ++ [again])).reverse ++ keyword :: passed =
      again :: (ends₂.reverse ++ name :: (ends₁.reverse ++ keyword :: passed)) := by simp
  rw [hdeclaration, hahead, hpassed, interface, exec_bind (exec_read_ok.mpr ⟨hexpect, rfl⟩),
    exec_next_bind _ _ _ hends₂ hcode₂, if_pos hagain]
  rfl

/-- A struct or enumeration without a body is passed over. -/
theorem comesTo_bodiless {keyword kind tag name : Token} {ts run : List Token}
    (hkeyword : keyword.text = "typedef") (hkind : kind.text = "struct" ∨ kind.text = "enum")
    (htag : tag.text ≠ "\x7b") (hopen : name.text ≠ "\x7b") (hts : ∀ t ∈ name :: ts, StartsNothing t)
    (hwritten : ∀ t ∈ run, t.isCode = true ∨ t.IsBreak)
    (hrun : run.filter (fun t => !t.isLineEnd) = keyword :: kind :: tag :: name :: ts) :
    ComesTo file draft s run (.ok draft) s := by
  obtain ⟨ends, run, rfl, hends, hcode, hwritten₁, hrun⟩ := exists_first hwritten hrun
  obtain ⟨ends₁, run, rfl, hends₁, hcode₁, hwritten₂, hrun⟩ := exists_first hwritten₁ hrun
  obtain ⟨ends₂, run, rfl, hends₂, hcode₂, hwritten₃, hrun⟩ := exists_first hwritten₂ hrun
  obtain ⟨ends₃, more, rfl, hends₃, hcode₃, -, hmore⟩ := exists_first hwritten₃ hrun
  have hdeclaration : declaration draft keyword = typedef draft := by
    simp only [declaration, hkeyword]
  have hsplit : ends ++ keyword :: (ends₁ ++ kind :: (ends₂ ++ tag :: (ends₃ ++ name :: more))) =
      ends ++ keyword :: (ends₁ ++ kind :: (ends₂ ++ tag :: ends₃) ++ name :: more) := by simp
  rw [hsplit] at hwritten ⊢
  refine comesTo_part hwritten hends hcode (fun passed rest eof => ?_) ?_
  · have hahead : ends₁ ++ kind :: (ends₂ ++ tag :: ends₃) ++ (name :: more ++ rest) =
        ends₁ ++ kind :: (ends₂ ++ tag :: (ends₃ ++ name :: (more ++ rest))) := by simp
    have hpassed : (ends₁ ++ kind :: (ends₂ ++ tag :: ends₃)).reverse ++ keyword :: passed =
        ends₃.reverse ++ tag :: (ends₂.reverse ++ kind :: (ends₁.reverse ++ keyword :: passed)) := by
      simp
    have hbody := openBody_none file (kind :: (ends₁.reverse ++ keyword :: passed))
      (more ++ rest) eof hends₂ hends₃ hcode₂ hcode₃ htag hopen
    rw [hdeclaration, hahead, hpassed, typedef, exec_next_bind _ _ _ hends₁ hcode₁]
    rcases hkind with hkind | hkind
    · rw [if_neg (by rw [hkind]; decide), if_pos hkind, typedefStruct,
        exec_bind (exec_read_ok.mpr ⟨hbody, rfl⟩)]
      rfl
    · rw [if_pos hkind, typedefEnum, exec_bind (exec_read_ok.mpr ⟨hbody, rfl⟩)]
      rfl
  · rwa [List.filter_cons_of_pos (by rw [Token.isLineEnd_of_isCode hcode₃]; rfl), hmore]

/-- Code that is skipped is complete and declares nothing. -/
theorem comesTo_of_isSkippedCode {run : List Token} (hwritten : ∀ t ∈ run, t.isCode = true ∨ t.IsBreak)
    (h : IsSkippedCode (run.filter fun t => !t.isLineEnd)) : ComesTo file draft s run (.ok draft) s := by
  generalize hrun : (run.filter fun t => !t.isLineEnd) = ts at h
  cases h with
  | tokens h => exact comesTo_tokens hwritten (hrun ▸ h)
  | announced hkeyword hkind hts =>
    refine comesTo_two hwritten hrun ⟨_, by simp only [declaration, hkeyword]; rfl, ?_⟩ hts
    rw [if_neg (by rw [hkind]; decide), if_neg (by rw [hkind]; decide), if_pos hkind]
  | bodiless hkeyword hkind htag hopen hts =>
    exact comesTo_bodiless hkeyword hkind htag hopen hts hwritten hrun
  | repeated hkeyword hname hagain hts =>
    exact comesTo_repeated hkeyword hname hagain hts hwritten hrun
  | function hkeyword hconvention hts =>
    refine comesTo_two hwritten hrun ⟨_, by simp only [declaration, hkeyword]; rfl, ?_⟩ hts
    exact if_pos hconvention

end

/-! ## Directives -/

/-- The rest of a line is read up to its end. -/
theorem readLine_line (file : String) (passed rest : List Token) (eof : Token) {line : List Token}
    {lineEnd : Token} (hline : ∀ t ∈ line, t.isLineEnd = false) (hend : lineEnd.isLineEnd = true) :
    readLine ⟨file, passed, line ++ lineEnd :: rest, eof⟩ =
      .ok (line, ⟨file, lineEnd :: (line.reverse ++ passed), rest, eof⟩) := by
  have htake : (line ++ lineEnd :: rest).takeWhile (fun t => !t.isLineEnd) = line := by
    rw [List.takeWhile_append_of_pos (by simpa using hline)]
    simp [hend]
  show Except.ok (Cursor.readLine _) = _
  simp only [Cursor.readLine, htake, List.drop_left]
  rfl

section

variable {file : String} {draft : Draft} {s : Session}

/-- A directive that is no definition is complete and declares nothing. -/
theorem comesTo_directive {hash lineEnd : Token} {line : List Token} (hcode : hash.isCode = true)
    (hhash : hash.text = "#") (hline : ∀ t ∈ line, t.isLineEnd = false)
    (hend : lineEnd.isLineEnd = true) (hword : ∀ word ∈ line.head?, word.text ≠ "define") :
    ComesTo file draft s (hash :: (line ++ [lineEnd])) (.ok draft) s := by
  have hdeclaration : declaration draft hash = directive draft := by
    simp only [declaration, hhash]
  have hkindEnd : lineEnd.kind = .newline := of_decide_eq_true hend
  have hdeclared : ComesTo file draft s (hash :: (line ++ [lineEnd] ++ [])) (.ok draft) s := by
    refine comesTo_declaration hcode (fun passed rest eof _ => ?_) .nil
    rw [hdeclaration, directive]
    cases line with
    | nil =>
      have hnext : nextInLine ⟨file, hash :: passed, lineEnd :: rest, eof⟩ =
          .ok (lineEnd, ⟨file, lineEnd :: hash :: passed, rest, eof⟩) := rfl
      exact (exec_bind (exec_read_ok.mpr ⟨hnext, rfl⟩)).trans (by rw [if_pos hkindEnd]; rfl)
    | cons word line =>
      obtain ⟨hwordEnd, hline⟩ := List.forall_mem_cons.mp hline
      have hkind : word.kind ≠ .newline := of_decide_eq_false hwordEnd
      have hnext : nextInLine ⟨file, hash :: passed, word :: (line ++ lineEnd :: rest), eof⟩ =
          .ok (word, ⟨file, word :: hash :: passed, line ++ lineEnd :: rest, eof⟩) := rfl
      have hread := readLine_line file (word :: hash :: passed) rest eof hline hend
      have hsplit : word :: line ++ [lineEnd] ++ ([] ++ rest) =
          word :: (line ++ lineEnd :: rest) := by simp
      have hpassed : (word :: line ++ [lineEnd]).reverse ++ hash :: passed =
          lineEnd :: (line.reverse ++ word :: hash :: passed) := by simp
      rw [hsplit, hpassed, exec_bind (exec_read_ok.mpr ⟨hnext, rfl⟩), if_neg hkind,
        if_pos (hword word rfl), exec_bind (exec_read_ok.mpr ⟨hread, rfl⟩)]
      rfl
  rwa [List.append_nil] at hdeclared

/-- What a definition comes to does not depend on where it stands.  Where it comes to nothing, the
known constants stay; where it has no value otherwise, it fails. -/
theorem exists_defineMacro (draft : Draft) (name : Token) (body : List Token) (s : Session) :
    ∃ (result : Except Failure Draft) (s' : Session),
      (∀ c, (Comparison.defineMacro draft name body).exec c s = (result.map fun d => (d, c), s')) ∧
        (IsSkippedMacro s.symbols name body → result = .ok draft ∧ s'.symbols = s.symbols) ∧
        (¬ IsSkippedMacro s.symbols name body →
          ∀ e, Constant.evaluateMacro s.symbols name body = .error e →
            result = .error (.constant e)) := by
  unfold Comparison.defineMacro
  by_cases hrule : Rules.isSkippedMacro name.text (body.map Token.text) = true
  · refine ⟨.ok draft, ⟨s.symbols, s.log ++ [debug ("Skipping macro " ++ name.text ++
      ": listed skip rule")]⟩, fun c => ?_, fun _ => ⟨rfl, rfl⟩, fun hskipped => ?_⟩
    · rw [if_pos hrule]
      rfl
    · exact absurd (.inl hrule) hskipped
  · cases hvalue : Constant.evaluateMacro s.symbols name body with
    | ok v =>
      refine ⟨.ok (draft.add (.definition name.text v)), ⟨s.symbols.insert name.text v, s.log ++
        Constant.macroNotes s.symbols name body⟩, fun c => ?_, fun hskipped => ?_, nofun⟩
      · rw [if_neg hrule, exec_symbols_bind, hvalue]
        rfl
      · obtain ⟨e, herror, -⟩ := hskipped.resolve_left hrule
        cases hvalue.symm.trans herror
    | error e =>
      by_cases hclass : e.class = .unsupported
      · refine ⟨.ok draft, ⟨s.symbols, s.log ++ Constant.macroNotes s.symbols name body ++
          [debug ("Skipping macro " ++ e.message)]⟩, fun c => ?_, fun _ => ⟨rfl, rfl⟩,
          fun hskipped => ?_⟩
        · rw [if_neg hrule, exec_symbols_bind, hvalue]
          unfold evaluated
          dsimp only
          rw [if_pos hclass]
          rfl
        · exact absurd (.inr ⟨e, hvalue, hclass⟩) hskipped
      · refine ⟨.error (.constant e), ⟨s.symbols, s.log ++ Constant.macroNotes s.symbols name body⟩,
          fun c => ?_, fun hskipped => ?_, ?_⟩
        · rw [if_neg hrule, exec_symbols_bind, hvalue]
          unfold evaluated
          dsimp only
          rw [if_neg hclass]
          rfl
        · obtain ⟨e', herror, hclass'⟩ := hskipped.resolve_left hrule
          cases hvalue.symm.trans herror
          exact absurd hclass' hclass
        · rintro - _ ⟨⟩
          rfl

/-- A definition is complete, whatever it comes to, also if it fails.  Where it comes to nothing, the
known constants stay; where it has no value otherwise, it fails. -/
theorem comesTo_definition {hash word name lineEnd : Token} {body : List Token}
    (hcode : hash.isCode = true) (hhash : hash.text = "#") (hword : word.text = "define")
    (hwordEnd : word.isLineEnd = false) (hname : name.kind = .ident)
    (hbody : ∀ t ∈ body, t.isLineEnd = false) (hend : lineEnd.isLineEnd = true) :
    ∃ (result : Except Failure Draft) (s' : Session),
      ComesTo file draft s (hash :: word :: name :: (body ++ [lineEnd])) result s' ∧
        (IsSkippedMacro s.symbols name body → result = .ok draft ∧ s'.symbols = s.symbols) ∧
        (¬ IsSkippedMacro s.symbols name body →
          ∀ e, Constant.evaluateMacro s.symbols name body = .error e →
            result = .error (.constant e)) := by
  have hdeclaration : declaration draft hash = directive draft := by
    simp only [declaration, hhash]
  obtain ⟨result, s', hdefined, houtcome⟩ := exists_defineMacro draft name body s
  refine ⟨result, s', comesTo_outcome hcode fun passed rest eof _ => ?_, houtcome⟩
  have hkind : word.kind ≠ .newline := of_decide_eq_false hwordEnd
  have hnext : nextInLine ⟨file, hash :: passed, word :: name :: (body ++ lineEnd :: rest), eof⟩ =
      .ok (word, ⟨file, word :: hash :: passed, name :: (body ++ lineEnd :: rest), eof⟩) := rfl
  have hnext' : nextInLine ⟨file, word :: hash :: passed, name :: (body ++ lineEnd :: rest), eof⟩ =
      .ok (name, ⟨file, name :: word :: hash :: passed, body ++ lineEnd :: rest, eof⟩) := rfl
  have hread := readLine_line file (name :: word :: hash :: passed) rest eof hbody hend
  have hsplit : word :: name :: (body ++ [lineEnd]) ++ rest =
      word :: name :: (body ++ lineEnd :: rest) := by simp
  have hpassed : (word :: name :: (body ++ [lineEnd])).reverse ++ hash :: passed =
      lineEnd :: (body.reverse ++ name :: word :: hash :: passed) := by simp
  rw [hdeclaration, hsplit, hpassed, directive, exec_bind (exec_read_ok.mpr ⟨hnext, rfl⟩),
    if_neg hkind, if_neg (not_not_intro hword), exec_bind (exec_read_ok.mpr ⟨hnext', rfl⟩),
    if_neg (not_not_intro hname)]
  exact (exec_bind (exec_read_ok.mpr ⟨hread, rfl⟩)).trans (hdefined _)

end

/-! ## All of them -/

/-- **Skipping.**  What is skipped is complete: whatever follows it, the declarations behind it are
read from the header that there was before it and with the constants that were known before it. -/
theorem comesTo_of_isSkipped {file : String} {draft : Draft} {s : Session} {run : List Token}
    (h : IsSkipped s.symbols run) (hwritten : ∀ t ∈ run, t.isCode = true ∨ t.IsBreak) :
    ∃ s', ComesTo file draft s run (.ok draft) s' ∧ s'.symbols = s.symbols := by
  generalize htable : s.symbols = table at h
  induction h generalizing s with
  | code h => exact ⟨s, comesTo_of_isSkippedCode hwritten h, htable⟩
  | @directive hash lineEnd line hhash hline hend hword =>
    have hcode : hash.isCode = true :=
      (hwritten hash List.mem_cons_self).resolve_right fun hbreak => by
        rcases hbreak.2 with htext | htext <;> simp [htext] at hhash
    exact ⟨s, comesTo_directive hcode hhash hline hend hword, htable⟩
  | @definition hash word name lineEnd body hhash hword hwordEnd hname hbody hend hskipped =>
    have hcode : hash.isCode = true :=
      (hwritten hash List.mem_cons_self).resolve_right fun hbreak => by
        rcases hbreak.2 with htext | htext <;> simp [htext] at hhash
    rw [← htable] at hskipped ⊢
    obtain ⟨result, s', hread, hnothing, -⟩ :=
      comesTo_definition hcode hhash hword hwordEnd hname hbody hend
    obtain ⟨rfl, hsymbols⟩ := hnothing hskipped
    exact ⟨s', hread, hsymbols⟩
  | append hxs hys ihxs ihys =>
    obtain ⟨hxs, hys⟩ := List.forall_mem_append.mp hwritten
    obtain ⟨s₁, hfirst, hsymbols⟩ := ihxs hxs htable
    obtain ⟨s₂, hsecond, hsymbols'⟩ := ihys hys hsymbols
    exact ⟨s₂, hfirst.append hsecond hys, hsymbols'⟩

end SdkBindings.Grammar

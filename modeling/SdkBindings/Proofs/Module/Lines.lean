import SdkBindings.Module.Generate
import SdkBindings.Proofs.Module.Expressions
import SdkBindings.Text.Split

/-!
# The lines of a module as text

A module is put together as a list of lines that say what they are, but what is left of them is a text.
A reader of the text knows its lines by their ends and by how they start.  The two views agree only if
no line holds a line end and no line looks like one of another kind.

`textLines_renderLines` says what the lines of the text are for any list of lines.  A line is legible if
it holds no line end and shows its kind (`Line.IsLegible`).  In a legible line the reader finds what it
is: a binding, a member of a layout, or what starts a class or a layout (`readBinding?_render`,
`readMember?_render`, `readHeading?_render`).  White space at the end of a line does not change what a
class statement or the start of a layout is read as (`readHeading?_append`).
-/

namespace SdkBindings.Module

/-! ## Lines of a text -/

/-- The text does not end a line. -/
def IsInline (text : String) : Prop :=
  '\n' ∉ text.toList

instance : DecidablePred IsInline :=
  fun text => inferInstanceAs (Decidable ('\n' ∉ text.toList))

/-- The lines of a text. -/
def textLines (text : String) : List String :=
  (Text.splitAt '\n' text.toList).map String.ofList

@[simp] theorem isInline_append {a b : String} : IsInline (a ++ b) ↔ IsInline a ∧ IsInline b := by
  simp [IsInline]

/-- Texts on one line stay on one line when they are put together. -/
theorem isInline_intercalate {separator : String} {texts : List String}
    (hseparator : IsInline separator) (h : ∀ text ∈ texts, IsInline text) :
    IsInline (separator.intercalate texts) := by
  induction texts with
  | nil => exact List.not_mem_nil
  | cons text texts ih =>
    rw [List.forall_mem_cons] at h
    cases texts with
    | nil => simpa using h.1
    | cons second rest =>
      rw [String.intercalate_cons_cons, isInline_append, isInline_append]
      exact ⟨⟨h.1, hseparator⟩, ih h.2⟩

/-- A text on one line is its only line. -/
theorem textLines_of_isInline {text : String} (h : IsInline text) : textLines text = [text] := by
  rw [textLines, Text.splitAt_of_not_mem h, List.map_singleton, String.ofList_toList]

/-- A line end between two texts keeps their lines apart. -/
theorem textLines_append (a b : String) : textLines (a ++ "\n" ++ b) = textLines a ++ textLines b := by
  have hlist : (a ++ "\n" ++ b).toList = a.toList ++ '\n' :: b.toList := by simp
  rw [textLines, hlist, Text.splitAt_append_cons, List.map_append, textLines, textLines]

/-- The lines of texts on lines of their own. -/
theorem textLines_intercalate {texts : List String} (h : texts ≠ []) :
    textLines ("\n".intercalate texts) = texts.flatMap textLines := by
  induction texts with
  | nil => exact absurd rfl h
  | cons text texts ih =>
    cases texts with
    | nil => simp
    | cons second rest =>
      rw [String.intercalate_cons_cons, textLines_append, ih (List.cons_ne_nil second rest),
        List.flatMap_cons (x := text)]

/-! ## White space at the end -/

/-- What is left of lines when white space at their end gives way: the lines before the last one that
has ink, and of that line what comes before the white space at its end. -/
def Trims (lines shown : List String) : Prop :=
  ∃ initial last ending blanks, lines = initial ++ (last ++ ending) :: blanks ∧
    shown = initial ++ [last] ∧ (∃ c ∈ last.toList.getLast?, Text.isBlank c = false) ∧
    ¬ HasInk ending.toList ∧ ∀ line ∈ blanks, ¬ HasInk line.toList

/-- A text with ink without the white space at its end: up to its last character that is not blank. -/
theorem exists_of_hasInk {text : List Char} (h : HasInk text) :
    ∃ front c blanks, text = front ++ [c] ++ blanks ∧ Text.isBlank c = false ∧ ¬ HasInk blanks ∧
      (text.reverse.dropWhile Text.isBlank).reverse = front ++ [c] := by
  obtain ⟨d, hd, hink⟩ := h
  obtain ⟨c, rest, hdrop, hc⟩ := HasInk.dropWhile ⟨d, List.mem_reverse.mpr hd, hink⟩
  have hall := List.takeWhile_append_dropWhile (p := Text.isBlank) (l := text.reverse)
  refine ⟨rest.reverse, c, (text.reverse.takeWhile Text.isBlank).reverse, ?_, hc, ?_, by simp [hdrop]⟩
  · rw [hdrop] at hall
    simpa using (congrArg List.reverse hall).symm
  · rintro ⟨e, he, hblank⟩
    rw [List.mem_reverse] at he
    cases (List.all_eq_true.mp List.all_takeWhile e he).symm.trans hblank

/-- A text without white space at its end has the lines of the text, trimmed. -/
theorem trims_splitAt {text : List Char} (h : HasInk text) :
    Trims ((Text.splitAt '\n' text).map String.ofList)
      ((Text.splitAt '\n' (text.reverse.dropWhile Text.isBlank).reverse).map String.ofList) := by
  obtain ⟨front, c, blanks, htext, hc, hblanks, hdrop⟩ := exists_of_hasInk h
  have hline : c ≠ '\n' := by
    rintro rfl
    cases hc
  obtain ⟨initial, last, first, rest, -, hfirst, hfront⟩ := Text.exists_splitAt_append '\n' front [c]
  rw [Text.splitAt_of_not_mem (by simpa using hline.symm)] at hfirst
  cases hfirst
  obtain ⟨initial', last', ending, others, hinitial, hending, hall⟩ :=
    Text.exists_splitAt_append '\n' (front ++ [c]) blanks
  obtain ⟨rfl, hlast⟩ := List.append_inj' (hfront.symm.trans hinitial) rfl
  cases hlast
  have hnone : ∀ part ∈ Text.splitAt '\n' blanks, ¬ HasInk part := by
    rintro part hpart ⟨d, hd, hink⟩
    exact hblanks ⟨d, Text.mem_of_mem_splitAt hpart hd, hink⟩
  rw [hending, List.forall_mem_cons] at hnone
  rw [hdrop, htext, hall, hfront]
  refine ⟨initial.map String.ofList, String.ofList (last ++ [c]), String.ofList ending,
    others.map String.ofList, ?_, by simp, ⟨c, by simp, hc⟩, by simpa using hnone.1, ?_⟩
  · rw [← String.ofList_append, List.map_append, List.map_cons]
  simpa using hnone.2

/-- A text with ink at its end has no white space put to it. -/
theorem eq_empty_of_getLast? (text : String) {ending : String} (hending : ¬ HasInk ending.toList)
    (h : ∃ c ∈ (text ++ ending).toList.getLast?, Text.isBlank c = false) : ending = "" := by
  obtain ⟨c, hc, hink⟩ := h
  rw [String.toList_append, List.getLast?_append] at hc
  cases hlast : ending.toList.getLast? with
  | none => exact String.toList_eq_nil_iff.mp (List.getLast?_eq_none_iff.mp hlast)
  | some d =>
    rw [hlast] at hc
    obtain rfl : d = c := by simpa using hc
    exact absurd ⟨d, List.mem_of_getLast? hlast, hink⟩ hending

/-- Lines up to one that ends with ink are kept. -/
theorem Trims.exists_append {before after shown : List String} {line : String}
    (h : Trims (before ++ line :: after) shown)
    (hline : ∃ c ∈ line.toList.getLast?, Text.isBlank c = false) :
    ∃ rest, shown = before ++ line :: rest := by
  obtain ⟨initial, last, ending, blanks, hlines, rfl, -, hending, hblanks⟩ := h
  -- the line is that with the last ink or above it, but none of the blank ones below
  rcases List.append_eq_append_iff.mp hlines with ⟨between, rfl, hrest⟩ | ⟨between, rfl, hrest⟩
  · cases between with
    | nil =>
      obtain ⟨rfl, rfl⟩ := List.cons.inj hrest
      obtain rfl := eq_empty_of_getLast? _ hending hline
      exact ⟨[], by simp⟩
    | cons first between =>
      obtain ⟨rfl, rfl⟩ := List.cons.inj hrest
      exact ⟨between ++ [last], by simp⟩
  · cases between with
    | nil =>
      obtain ⟨rfl, rfl⟩ := List.cons.inj hrest
      obtain rfl := eq_empty_of_getLast? _ hending hline
      exact ⟨[], by simp⟩
    | cons first between =>
      obtain ⟨rfl, rfl⟩ := List.cons.inj hrest
      obtain ⟨c, hc, hink⟩ := hline
      exact absurd ⟨c, List.mem_of_getLast? hc, hink⟩ (hblanks line (by simp))

/-- A line that is left is the line at its place without white space at its end. -/
theorem Trims.exists_line {lines before after : List String} {line : String}
    (h : Trims lines (before ++ line :: after)) :
    ∃ ending rest, lines = before ++ (line ++ ending) :: rest ∧ ¬ HasInk ending.toList := by
  obtain ⟨initial, last, ending, blanks, rfl, hshown, -, hending, -⟩ := h
  rcases List.append_eq_append_iff.mp hshown with ⟨between, rfl, hrest⟩ | ⟨between, rfl, hrest⟩
  · cases between with
    | nil =>
      obtain ⟨rfl, -⟩ := List.cons.inj hrest
      exact ⟨ending, blanks, by simp, hending⟩
    | cons first between =>
      obtain ⟨rfl, -⟩ := List.cons.inj hrest
      exact ⟨"", between ++ (last ++ ending) :: blanks, by simp, by simp [HasInk]⟩
  · cases between with
    | nil =>
      obtain ⟨rfl, -⟩ := List.cons.inj hrest
      exact ⟨ending, blanks, by simp, hending⟩
    | cons first between => simp at hrest

/-- Of lines in a row of which the second ones have ink the first ones are kept. -/
theorem Trims.append {before after shown : List String} (h : Trims (before ++ after) shown)
    (hink : ∃ line ∈ after, HasInk line.toList) :
    ∃ rest, shown = before ++ rest ∧ Trims after rest := by
  obtain ⟨initial, last, ending, blanks, hlines, rfl, hlast, hending, hblanks⟩ := h
  rcases List.append_eq_append_iff.mp hlines with ⟨between, rfl, hrest⟩ | ⟨between, rfl, hrest⟩
  · exact ⟨between ++ [last], by simp, between, last, ending, blanks, hrest, rfl, hlast, hending, hblanks⟩
  · cases between with
    | nil =>
      rw [List.nil_append] at hrest
      refine ⟨[last], by simp, [], last, ending, blanks, hrest.symm, rfl, hlast, hending, hblanks⟩
    | cons first between =>
      obtain ⟨rfl, rfl⟩ := List.cons.inj hrest
      obtain ⟨line, hline, hline'⟩ := hink
      exact absurd hline' (hblanks line (by simp [hline]))

/-- What is found in lines is found in those that are left, if it is found in a line whatever white space
comes behind it, and only in lines that end with ink. -/
theorem Trims.filterMap_eq {α : Type} {read : String → Option α} {lines shown : List String}
    (h : Trims lines shown)
    (hgrows : ∀ line a, read line = some a → ∀ ending, read (line ++ ending) = some a)
    (hends : ∀ line ∈ lines, ∀ a, read line = some a →
      ∃ c ∈ line.toList.getLast?, Text.isBlank c = false) :
    shown.filterMap read = lines.filterMap read := by
  obtain ⟨initial, last, ending, blanks, rfl, rfl, -, hending, hblanks⟩ := h
  have hnone : blanks.filterMap read = [] := by
    refine List.filterMap_eq_nil_iff.mpr fun line hline => Option.eq_none_iff_forall_ne_some.mpr ?_
    intro a ha
    obtain ⟨c, hc, hink⟩ := hends line (by simp [hline]) a ha
    exact hblanks line hline ⟨c, List.mem_of_getLast? hc, hink⟩
  have hlast : read last = read (last ++ ending) := by
    cases hread : read (last ++ ending) with
    | some a =>
      obtain rfl := eq_empty_of_getLast? last hending (hends _ (by simp) a hread)
      rwa [String.append_empty] at hread
    | none =>
      refine Option.eq_none_iff_forall_ne_some.mpr fun a ha => ?_
      rw [hgrows last a ha ending] at hread
      cases hread
  rw [List.filterMap_append, List.filterMap_append, List.filterMap_cons, List.filterMap_cons, hlast,
    hnone, List.filterMap_nil]

/-- Texts on lines of their own have ink if one of them does. -/
theorem hasInk_intercalate {separator text : String} {texts : List String} (h : text ∈ texts)
    (hink : HasInk text.toList) : HasInk (separator.intercalate texts).toList := by
  obtain ⟨c, hc, hblank⟩ := hink
  refine ⟨c, ?_, hblank⟩
  induction texts with
  | nil => cases h
  | cons first texts ih =>
    cases texts with
    | nil =>
      obtain rfl := List.mem_singleton.mp h
      simpa using hc
    | cons second rest =>
      rw [String.intercalate_cons_cons, String.toList_append, List.mem_append]
      rcases List.mem_cons.mp h with rfl | h
      · exact .inl (by simp [hc])
      · exact .inr (ih h)

/-- **The lines of the text of lines.**  They are the lines of the texts of all lines in a row, without
the white space at the end, and an empty one. -/
theorem textLines_renderLines {lines : List Line} (hink : ∃ line ∈ lines, HasInk line.render.toList) :
    ∃ shown, Trims (lines.flatMap fun line => textLines line.render) shown ∧
      textLines (renderLines lines) = shown ++ [""] := by
  obtain ⟨line, hline, hink⟩ := hink
  have hmem : line.render ∈ lines.map Line.render := List.mem_map_of_mem hline
  have hall : HasInk ("\n".intercalate (lines.map Line.render)).toList := hasInk_intercalate hmem hink
  have htrims := trims_splitAt hall
  rw [← textLines, textLines_intercalate (List.ne_nil_of_mem hmem), List.flatMap_map] at htrims
  refine ⟨_, htrims, ?_⟩
  rw [renderLines, ← String.append_empty (s := _ ++ "\n"), textLines_append, textLines,
    String.toList_ofList]
  rfl

/-! ## Reading a line -/

/-- The text consists of word characters. -/
def IsWord (text : String) : Prop :=
  ∀ c ∈ text.toList, Text.isWordCharacter c = true

instance (text : String) : Decidable (IsWord text) :=
  decidable_of_iff (text.toList.all Text.isWordCharacter = true) List.all_eq_true

/-- The word at the start of a text. -/
def wordAt (text : List Char) : String :=
  String.ofList (text.takeWhile Text.isWordCharacter)

/-- What comes behind the word at the start of a text. -/
def behindWord (text : List Char) : List Char :=
  text.dropWhile Text.isWordCharacter

/-- What a line is read as, by its characters: a word that is bound to an expression. -/
def bindingIn? (line : List Char) : Option (String × String) :=
  match behindWord line with
  | ' ' :: '=' :: ' ' :: expression => some (wordAt line, String.ofList expression)
  | _ => none

/-- A member of a layout, with its name and its type. -/
def memberIn? : List Char → Option (String × String)
  | ' ' :: ' ' :: ' ' :: ' ' :: '(' :: '"' :: rest =>
    match behindWord rest with
    | '"' :: ',' :: ' ' :: type => some (wordAt rest, String.ofList type.dropLast.dropLast)
    | _ => none
  | _ => none

/-- A class that is opened, with or without bases. -/
def classIn? : List Char → Option String
  | 'c' :: 'l' :: 'a' :: 's' :: 's' :: ' ' :: rest =>
    match behindWord rest with
    | '(' :: _ | ':' :: _ => some (wordAt rest)
    | _ => none
  | _ => none

/-- The start of the layout of a class. -/
def layoutIn? (line : List Char) : Option String :=
  if "._fields_ = [".toList <+: behindWord line then some (wordAt line) else none

/-- What a line of a text starts: the class of a class statement or the layout of a class. -/
inductive Heading
  | opened (name : String)
  | layout (name : String)
  deriving DecidableEq, Repr

/-- The class or the layout that a line starts. -/
def headingIn? (line : List Char) : Option Heading :=
  match classIn? line with
  | some name => some (.opened name)
  | none => (layoutIn? line).map .layout

/-- The name and the expression of a line that is a binding. -/
def readBinding? (line : String) : Option (String × String) :=
  bindingIn? line.toList

/-- The name and the type of a line that is a member of a layout. -/
def readMember? (line : String) : Option (String × String) :=
  memberIn? line.toList

/-- The class of a line that is a class statement. -/
def readClass? (line : String) : Option String :=
  classIn? line.toList

/-- The class of a line that starts a layout. -/
def readLayout? (line : String) : Option String :=
  layoutIn? line.toList

/-- The class or the layout that a line starts. -/
def readHeading? (line : String) : Option Heading :=
  headingIn? line.toList

/-- A line is legible if it does not hold a line end and shows what it is: names are words, text below
the support code is empty or registers the constants, and inside a class or function a line is a
definition or is indented and no member of a layout. -/
def Line.IsLegible : Line → Prop
  | .text s => s = "" ∨ s = "_register_hresults(globals())"
  | .comment s => IsInline s
  | .bind name expression => IsWord name ∧ IsInline expression
  | .openClass name => IsWord name
  | .body level s => IsInline s ∧
    (level = 0 → ∃ name rest, IsWord name ∧ s = "def " ++ name ++ "(" ++ rest) ∧
    (level = 1 → s.toList.head? ≠ some '(')
  | .openLayout name => IsWord name
  | .member name type => IsWord name ∧ IsInline type
  | .closeLayout => True

/-- The name and the expression of a binding. -/
def Line.binding? : Line → Option (String × String)
  | .bind name expression => some (name, expression)
  | _ => none

/-- The name and the type of a member of a layout. -/
def Line.member? : Line → Option (String × String)
  | .member name type => some (name, type)
  | _ => none

/-- The class of a class statement. -/
def Line.opened? : Line → Option String
  | .openClass name => some name
  | _ => none

/-- The class of the start of a layout. -/
def Line.layout? : Line → Option String
  | .openLayout name => some name
  | _ => none

/-- The class or the layout that a line starts. -/
def Line.heading? : Line → Option Heading
  | .openClass name => some (.opened name)
  | .openLayout name => some (.layout name)
  | _ => none

/-- The marks that end a word in the lines of a module. -/
theorem isWordCharacter_mark {c : Char}
    (h : c ∈ [' ', '=', '(', ')', '.', '"', '#', ']', ':', '\n', '[', ',']) :
    Text.isWordCharacter c = false := by
  have hmarks : [' ', '=', '(', ')', '.', '"', '#', ']', ':', '\n', '[', ','].all
      (fun c => !Text.isWordCharacter c) = true := by
    decide +kernel
  simpa using List.all_eq_true.mp hmarks c h

/-- The keyword of a class statement is a word. -/
theorem isWord_class : IsWord "class" := by
  decide +kernel

/-- So is the keyword of a definition. -/
theorem isWord_def : IsWord "def" := by
  decide +kernel

/-- A word is found where it ends. -/
theorem wordAt_append {word : String} (h : IsWord word) {c : Char}
    (hc : Text.isWordCharacter c = false) (rest : List Char) :
    wordAt (word.toList ++ c :: rest) = word := by
  rw [wordAt, List.takeWhile_append_of_pos h, List.takeWhile_cons_of_neg (by rw [hc]; decide),
    List.append_nil, String.ofList_toList]

/-- What comes behind a word starts where it ends. -/
theorem behindWord_append {word : String} (h : IsWord word) {c : Char}
    (hc : Text.isWordCharacter c = false) (rest : List Char) :
    behindWord (word.toList ++ c :: rest) = c :: rest := by
  rw [behindWord, List.dropWhile_append_of_pos h, List.dropWhile_cons_of_neg (by rw [hc]; decide)]

/-- Nothing comes before a mark. -/
theorem behindWord_cons {c : Char} (hc : Text.isWordCharacter c = false) (rest : List Char) :
    behindWord (c :: rest) = c :: rest :=
  List.dropWhile_cons_of_neg (by rw [hc]; decide)

/-- A line inside a class or function starts with a blank or is a definition. -/
theorem Line.IsLegible.body {level : Nat} {s : String} (h : (Line.body level s).IsLegible) :
    (∃ rest, (Line.body level s).render.toList = ' ' :: ' ' :: ' ' :: ' ' :: rest ∧ rest.head? ≠ some '(') ∨
      ∃ name rest, IsWord name ∧
        (Line.body level s).render.toList = 'd' :: 'e' :: 'f' :: ' ' :: (name.toList ++ '(' :: rest) := by
  obtain ⟨-, hdefinition, hmember⟩ := h
  match level with
  | 0 =>
    obtain ⟨name, rest, hname, rfl⟩ := hdefinition rfl
    exact .inr ⟨name, rest.toList, hname, by simp [Line.render_body, indentation]⟩
  | 1 => exact .inl ⟨s.toList, by simp [Line.render_body, indentation], hmember rfl⟩
  | level + 2 =>
    refine .inl ⟨List.replicate (4 * level + 4) ' ' ++ s.toList, ?_, by simp [List.replicate_succ]⟩
    have hlevel : 4 * (level + 2) = 4 * level + 4 + 4 := by omega
    rw [Line.render_body, indentation, String.toList_append, String.toList_ofList, hlevel]
    rfl

/-- The characters of a remark. -/
theorem toList_render_comment (s : String) : (Line.comment s).render.toList = '#' :: ' ' :: s.toList := by
  simp [Line.render_comment]

/-- The characters of a binding. -/
theorem toList_render_bind (name expression : String) : (Line.bind name expression).render.toList =
    name.toList ++ ' ' :: '=' :: ' ' :: expression.toList := by
  simp [Line.render_bind]

/-- The characters of a class statement. -/
theorem toList_render_openClass (name : String) : (Line.openClass name).render.toList =
    'c' :: 'l' :: 'a' :: 's' :: 's' :: ' ' ::
      (name.toList ++ '(' :: "ctypes.Structure, Bindable):".toList) := by
  simp [Line.render_openClass]

/-- The characters of the start of a layout. -/
theorem toList_render_openLayout (name : String) : (Line.openLayout name).render.toList =
    name.toList ++ '.' :: "_fields_ = [".toList := by
  simp [Line.render_openLayout]

/-- The characters of a member. -/
theorem toList_render_member (name type : String) : (Line.member name type).render.toList =
    ' ' :: ' ' :: ' ' :: ' ' :: '(' :: '"' ::
      (name.toList ++ '"' :: ',' :: ' ' :: (type.toList ++ [')', ','])) := by
  simp [Line.render_member, indentation]

/-- A mark at the start of a text that starts with a word comes behind the word. -/
theorem IsWord.eq_of_append_eq {word : String} (h : IsWord word) {c : Char}
    (hc : Text.isWordCharacter c = false) {text rest : List Char}
    (heq : word.toList ++ text = c :: rest) : text = c :: rest := by
  cases hword : word.toList with
  | nil => rwa [hword] at heq
  | cons d word =>
    rw [hword] at heq
    have hd := h d (by rw [hword]; exact List.mem_cons_self)
    rw [(List.cons.inj heq).1, hc] at hd
    cases hd

/-- A line is no binding if no equals sign comes behind its first word. -/
theorem readBinding?_eq_none {line : String}
    (h : ∀ rest, behindWord line.toList ≠ ' ' :: '=' :: rest) : readBinding? line = none := by
  unfold readBinding? bindingIn?
  split
  · rename_i hrest
    exact absurd hrest (h _)
  · rfl

/-- In a legible line the binding is found that it is. -/
theorem readBinding?_render {line : Line} (h : line.IsLegible) :
    readBinding? line.render = line.binding? := by
  -- a keyword and a word behind it are no binding
  have hkeyword {keyword name : String} (hword : IsWord keyword) (hname : IsWord name)
      {line : String}
      (hline : ∃ rest, line.toList = keyword.toList ++ ' ' :: (name.toList ++ '(' :: rest)) :
      readBinding? line = none := by
    obtain ⟨rest, hline⟩ := hline
    refine readBinding?_eq_none fun rest' heq => ?_
    rw [hline, behindWord_append hword (isWordCharacter_mark (by decide))] at heq
    cases hname.eq_of_append_eq (isWordCharacter_mark (by decide)) (List.cons.inj heq).2
  cases line with
  | text s => rcases h with rfl | rfl <;> decide +kernel
  | comment s =>
    refine readBinding?_eq_none fun rest => ?_
    rw [toList_render_comment, behindWord_cons (isWordCharacter_mark (by decide))]
    simp
  | bind name expression =>
    rw [readBinding?, bindingIn?, toList_render_bind,
      behindWord_append h.1 (isWordCharacter_mark (by decide)),
      wordAt_append h.1 (isWordCharacter_mark (by decide))]
    simp only [String.ofList_toList, Line.binding?]
  | openClass name => exact hkeyword isWord_class h ⟨_, toList_render_openClass name⟩
  | body level s =>
    rcases h.body with ⟨rest, hline, -⟩ | ⟨name, rest, hname, hline⟩
    · refine readBinding?_eq_none fun rest' => ?_
      rw [hline, behindWord_cons (isWordCharacter_mark (by decide))]
      simp
    · exact hkeyword isWord_def hname ⟨rest, hline⟩
  | openLayout name =>
    refine readBinding?_eq_none fun rest => ?_
    rw [toList_render_openLayout, behindWord_append h (isWordCharacter_mark (by decide))]
    simp
  | member name type =>
    refine readBinding?_eq_none fun rest => ?_
    rw [toList_render_member, behindWord_cons (isWordCharacter_mark (by decide))]
    simp
  | closeLayout => decide +kernel

/-- A line is no member if it does not start as one. -/
theorem readMember?_eq_none {line : String}
    (h : ∀ rest, line.toList ≠ ' ' :: ' ' :: ' ' :: ' ' :: '(' :: rest) : readMember? line = none := by
  unfold readMember? memberIn?
  split
  · rename_i hrest
    exact absurd hrest (h _)
  · rfl

/-- In a legible line the member is found that it is. -/
theorem readMember?_render {line : Line} (h : line.IsLegible) :
    readMember? line.render = line.member? := by
  cases line with
  | text s => rcases h with rfl | rfl <;> decide
  | comment s => exact readMember?_eq_none fun rest => by simp [toList_render_comment]
  | bind name expression =>
    refine readMember?_eq_none fun rest heq => ?_
    rw [toList_render_bind] at heq
    cases h.1.eq_of_append_eq (isWordCharacter_mark (by decide)) heq
  | openClass name => exact readMember?_eq_none fun rest => by simp [toList_render_openClass]
  | body level s =>
    refine readMember?_eq_none fun rest => ?_
    rcases h.body with ⟨rest', hline, hfirst⟩ | ⟨name, rest', hname, hline⟩
    · rw [hline]
      rintro heq
      cases heq
      exact hfirst rfl
    · simp [hline]
  | openLayout name =>
    refine readMember?_eq_none fun rest heq => ?_
    rw [toList_render_openLayout] at heq
    cases IsWord.eq_of_append_eq h (isWordCharacter_mark (by decide)) heq
  | member name type =>
    have hquote : Text.isWordCharacter '"' = false := isWordCharacter_mark (by decide)
    rw [readMember?, toList_render_member]
    simp [memberIn?, behindWord_append h.1 hquote, wordAt_append h.1 hquote, Line.member?]
  | closeLayout => decide

/-- A line is no class statement if it does not start as one. -/
theorem readClass?_eq_none {line : String}
    (h : ∀ rest, line.toList ≠ 'c' :: 'l' :: 'a' :: 's' :: 's' :: ' ' :: rest) :
    readClass? line = none := by
  unfold readClass? classIn?
  split
  · rename_i hrest
    exact absurd hrest (h _)
  · rfl

/-- A blank comes behind the keyword of a class statement. -/
theorem behindWord_class (rest : List Char) :
    behindWord ('c' :: 'l' :: 'a' :: 's' :: 's' :: ' ' :: rest) = ' ' :: rest :=
  behindWord_append isWord_class (isWordCharacter_mark (by decide)) rest

/-- In a legible line the class statement is found that it is. -/
theorem readClass?_render {line : Line} (h : line.IsLegible) :
    readClass? line.render = line.opened? := by
  cases line with
  | text s => rcases h with rfl | rfl <;> decide
  | comment s => exact readClass?_eq_none fun rest => by simp [toList_render_comment]
  | bind name expression =>
    -- the name may be the keyword, but then an equals sign comes behind it
    unfold readClass? classIn?
    split
    · rename_i rest hline
      have hbehind := congrArg behindWord hline
      rw [toList_render_bind, behindWord_append h.1 (isWordCharacter_mark (by decide)),
        behindWord_class] at hbehind
      obtain rfl := (List.cons.inj hbehind).2
      rw [behindWord_cons (isWordCharacter_mark (by decide))]
      rfl
    · rfl
  | openClass name =>
    have hmark : Text.isWordCharacter '(' = false := isWordCharacter_mark (by decide)
    rw [readClass?, toList_render_openClass]
    simp [classIn?, behindWord_append h hmark, wordAt_append h hmark, Line.opened?]
  | body level s =>
    refine readClass?_eq_none fun rest => ?_
    rcases h.body with ⟨rest', hline, -⟩ | ⟨name, rest', -, hline⟩ <;> simp [hline]
  | openLayout name =>
    refine readClass?_eq_none fun rest hline => ?_
    have hbehind := congrArg behindWord hline
    rw [toList_render_openLayout, behindWord_append h (isWordCharacter_mark (by decide)),
      behindWord_class] at hbehind
    cases hbehind
  | member name type => exact readClass?_eq_none fun rest => by simp [toList_render_member]
  | closeLayout => decide

/-- In a legible line the start of a layout is found that it is. -/
theorem readLayout?_render {line : Line} (h : line.IsLegible) :
    readLayout? line.render = line.layout? := by
  -- a mark other than a point comes behind the word at the start of every other line
  have hother {line : String} {c : Char} {rest : List Char} (hline : behindWord line.toList = c :: rest)
      (hc : c ≠ '.') : readLayout? line = none := by
    have hne : ¬ "._fields_ = [".toList <+: c :: rest := by
      rintro ⟨more, hmore⟩
      exact hc (List.cons.inj hmore).1.symm
    rw [readLayout?, layoutIn?, hline, if_neg hne]
  cases line with
  | text s => rcases h with rfl | rfl <;> decide +kernel
  | comment s =>
    have hbehind : behindWord (Line.comment s).render.toList = '#' :: ' ' :: s.toList := by
      rw [toList_render_comment, behindWord_cons (isWordCharacter_mark (by decide))]
    exact hother hbehind (by decide)
  | bind name expression =>
    have hspace : Text.isWordCharacter ' ' = false := isWordCharacter_mark (by decide)
    have hbehind := behindWord_append h.1 hspace ('=' :: ' ' :: expression.toList)
    rw [← toList_render_bind] at hbehind
    exact hother hbehind (by decide)
  | openClass name =>
    have hbehind := behindWord_class (name.toList ++ '(' :: "ctypes.Structure, Bindable):".toList)
    rw [← toList_render_openClass] at hbehind
    exact hother hbehind (by decide)
  | body level s =>
    rcases h.body with ⟨rest, hline, -⟩ | ⟨name, rest, -, hline⟩
    · have hbehind := congrArg behindWord hline
      rw [behindWord_cons (isWordCharacter_mark (by decide))] at hbehind
      exact hother hbehind (by decide)
    · have hspace : Text.isWordCharacter ' ' = false := isWordCharacter_mark (by decide)
      have hbehind := behindWord_append isWord_def hspace (name.toList ++ '(' :: rest)
      exact hother ((congrArg behindWord hline).trans hbehind) (by decide)
  | openLayout name =>
    have hmark : Text.isWordCharacter '.' = false := isWordCharacter_mark (by decide)
    rw [readLayout?, layoutIn?, toList_render_openLayout, behindWord_append h hmark,
      wordAt_append h hmark, if_pos ⟨[], rfl⟩]
    rfl
  | member name type =>
    have hbehind := congrArg behindWord (toList_render_member name type)
    rw [behindWord_cons (isWordCharacter_mark (by decide))] at hbehind
    exact hother hbehind (by decide)
  | closeLayout => decide +kernel

/-- In a legible line the class or the layout is found that it starts. -/
theorem readHeading?_render {line : Line} (h : line.IsLegible) :
    readHeading? line.render = line.heading? := by
  have hclass := readClass?_render h
  have hlayout := readLayout?_render h
  rw [readClass?] at hclass
  rw [readLayout?] at hlayout
  rw [readHeading?, headingIn?, hclass, hlayout]
  cases line <;> rfl

/-- A class statement and the start of a layout end with a mark. -/
theorem exists_getLast?_render {line : Line} {heading : Heading} (h : line.heading? = some heading) :
    ∃ c ∈ line.render.toList.getLast?, Text.isBlank c = false := by
  cases line with
  | openClass name =>
    refine ⟨':', ?_, by decide⟩
    rw [Line.render_openClass, String.toList_append, List.getLast?_append]
    rfl
  | openLayout name =>
    refine ⟨'[', ?_, by decide⟩
    rw [Line.render_openLayout, String.toList_append, List.getLast?_append]
    rfl
  | _ => cases h

/-- What comes behind a word is followed by what comes behind the text. -/
theorem behindWord_append_of_ne_nil {text : List Char} (h : behindWord text ≠ []) (more : List Char) :
    behindWord (text ++ more) = behindWord text ++ more ∧ wordAt (text ++ more) = wordAt text := by
  have hall := List.takeWhile_append_dropWhile (p := Text.isWordCharacter) (l := text)
  obtain ⟨c, rest, hbehind⟩ := List.exists_cons_of_ne_nil h
  have hword : IsWord (wordAt text) := by
    intro d hd
    rw [wordAt, String.toList_ofList] at hd
    exact List.all_eq_true.mp List.all_takeWhile d hd
  have hc : Text.isWordCharacter c = false := by
    have hhead := List.head?_dropWhile_not Text.isWordCharacter text
    rw [behindWord] at hbehind
    rw [hbehind] at hhead
    simpa using hhead
  have htext : text = (wordAt text).toList ++ c :: rest := by
    rw [wordAt, String.toList_ofList, ← hbehind, behindWord, hall]
  rw [htext, List.append_assoc, List.cons_append]
  simp only [behindWord_append hword hc, wordAt_append hword hc, List.cons_append, and_self]

/-- A binding is a binding to a longer expression in a longer line. -/
theorem readBinding?_append {line name expression : String}
    (h : readBinding? line = some (name, expression)) (ending : String) :
    readBinding? (line ++ ending) = some (name, expression ++ ending) := by
  unfold readBinding? bindingIn? at h
  split at h
  · rename_i rest hbehind
    cases h
    obtain ⟨hlonger, hword⟩ := behindWord_append_of_ne_nil (by rw [hbehind]; simp) ending.toList
    rw [readBinding?, bindingIn?, String.toList_append, hlonger, hbehind, hword]
    simp only [List.cons_append, String.ofList_append, String.ofList_toList]
  · cases h

/-- A member starts a longer line as a member. -/
theorem readMember?_append {line : String} (h : (readMember? line).isSome) (ending : String) :
    (readMember? (line ++ ending)).isSome := by
  unfold readMember? memberIn? at h
  split at h
  · rename_i rest hline
    split at h
    · rename_i type hbehind
      obtain ⟨hlonger, -⟩ := behindWord_append_of_ne_nil (by rw [hbehind]; simp) ending.toList
      rw [readMember?, String.toList_append, hline]
      simp [memberIn?, hlonger, hbehind]
    · cases h
  · cases h

/-- A class statement starts a longer line as one. -/
theorem readClass?_append {line name : String} (h : readClass? line = some name) (ending : String) :
    readClass? (line ++ ending) = some name := by
  unfold readClass? classIn? at h
  split at h
  · rename_i rest hline
    have hne : behindWord rest ≠ [] := by
      intro hnil
      rw [hnil] at h
      cases h
    obtain ⟨hlonger, hword⟩ := behindWord_append_of_ne_nil hne ending.toList
    rw [readClass?, String.toList_append, hline]
    simp only [List.cons_append, classIn?, hlonger, hword]
    split at h
    · rename_i hbehind
      rwa [hbehind]
    · rename_i hbehind
      rwa [hbehind]
    · cases h
  · cases h

/-- The start of a layout starts a longer line as one. -/
theorem readLayout?_append {line name : String} (h : readLayout? line = some name) (ending : String) :
    readLayout? (line ++ ending) = some name := by
  unfold readLayout? layoutIn? at h
  split at h
  · rename_i hstarts
    have hne : behindWord line.toList ≠ [] := List.IsPrefix.ne_nil hstarts (by simp)
    obtain ⟨hlonger, hword⟩ := behindWord_append_of_ne_nil hne ending.toList
    rw [readLayout?, layoutIn?, String.toList_append, hlonger, hword,
      if_pos (hstarts.trans (List.prefix_append _ _)), h]
  · cases h

/-- The start of a layout is no class statement. -/
theorem readClass?_eq_none_of_readLayout? {line name : String} (h : readLayout? line = some name) :
    readClass? line = none := by
  refine readClass?_eq_none fun rest hline => ?_
  unfold readLayout? layoutIn? at h
  rw [hline, behindWord_class] at h
  simp at h

/-- A class statement or the start of a layout starts a longer line as one. -/
theorem readHeading?_append {line : String} {heading : Heading} (h : readHeading? line = some heading)
    (ending : String) : readHeading? (line ++ ending) = some heading := by
  unfold readHeading? headingIn? at h
  split at h
  · rename_i name hclass
    have hlonger : classIn? (line ++ ending).toList = some name := readClass?_append hclass ending
    rw [readHeading?, headingIn?, hlonger, ← h]
  · obtain ⟨name, hlayout, rfl⟩ := Option.map_eq_some_iff.mp h
    have hlonger : readLayout? (line ++ ending) = some name := readLayout?_append hlayout ending
    have hclass : classIn? (line ++ ending).toList = none := readClass?_eq_none_of_readLayout? hlonger
    rw [readLayout?] at hlonger
    rw [readHeading?, headingIn?, hclass, hlonger, Option.map_some]

/-- A word does not end a line. -/
theorem IsWord.isInline {text : String} (h : IsWord text) : IsInline text := by
  intro hmem
  cases (h '\n' hmem).symm.trans (isWordCharacter_mark (by decide))

/-- A legible line is one line. -/
theorem Line.IsLegible.isInline {line : Line} (h : line.IsLegible) : IsInline line.render := by
  cases line with
  | text s => rcases h with rfl | rfl <;> decide
  | comment s => exact isInline_append.mpr ⟨by decide, h⟩
  | bind name expression =>
    exact isInline_append.mpr ⟨isInline_append.mpr ⟨h.1.isInline, by decide⟩, h.2⟩
  | openClass name =>
    exact isInline_append.mpr ⟨isInline_append.mpr ⟨by decide, IsWord.isInline h⟩, by decide⟩
  | body level s => exact isInline_append.mpr ⟨by simp [IsInline, indentation], h.1⟩
  | openLayout name => exact isInline_append.mpr ⟨IsWord.isInline h, by decide⟩
  | member name type => simpa [IsInline, Line.render_member, indentation] using ⟨h.1.isInline, h.2⟩
  | closeLayout => decide

end SdkBindings.Module

import SdkBindings.Proofs.Document.RoundTrip
import SdkBindings.Proofs.Transform.Prefixes
import SdkBindings.Transform.Resolve

/-!
# The grammar of type expressions

The expression of a type is a name, a pointer to an expression or an array of one.  How it is written
determines what it is (`text_append_inj`): a name goes on as far as characters of a name do, and where
it ends neither of the other forms begins.  This needs no more of a name than its characters, so a text
with a single way to be read can be told from one that is no expression because its name is none
(`isSentence_and_text_eq_iff`).

Pointers and dimensions are wrapped around a name one by one, the dimensions from the innermost one
(`text_pointers`, `text_arrays`).
-/

namespace SdkBindings

/-- The expression of a type. -/
inductive TypeExpr where
  /-- A name, which may be that of a member of a module. -/
  | name (text : String)
  /-- A pointer. -/
  | pointer (target : TypeExpr)
  /-- An array of a length. -/
  | array (element : TypeExpr) (length : Int)
  deriving DecidableEq, Repr

/-- An identifier, or several with dots in between. -/
inductive IsDotted : List Char → Prop where
  /-- One identifier. -/
  | name {text : List Char} (htext : Lexer.isIdentifier text = true) : IsDotted text
  /-- A member of what the identifier names. -/
  | member {text rest : List Char} (htext : Lexer.isIdentifier text = true) (hrest : IsDotted rest) :
    IsDotted (text ++ '.' :: rest)

namespace TypeExpr

/-- How an expression is written. -/
def text : TypeExpr → String
  | name text => text
  | pointer target => "ctypes.POINTER(" ++ target.text ++ ")"
  | array element length => "(" ++ element.text ++ " * " ++ toString length ++ ")"

/-- How a name is written. -/
theorem text_name (text : String) : (name text).text = text := rfl

/-- How a pointer is written. -/
theorem text_pointer (target : TypeExpr) :
    (pointer target).text = "ctypes.POINTER(" ++ target.text ++ ")" := rfl

/-- How an array is written. -/
theorem text_array (element : TypeExpr) (length : Int) :
    (array element length).text = "(" ++ element.text ++ " * " ++ toString length ++ ")" := rfl

/-- The name in an expression. -/
def base : TypeExpr → String
  | name text => text
  | pointer target => target.base
  | array element _ => element.base

/-- The name in an expression is one. -/
def IsSentence (e : TypeExpr) : Prop :=
  IsDotted e.base.toList

/-! ## Reading -/

/-- The characters of a name. -/
def isNamePart (c : Char) : Bool :=
  Lexer.isIdentPart c || c = '.'

/-- The name in an expression consists of characters of a name. -/
def IsLoose (e : TypeExpr) : Prop :=
  ∀ c ∈ e.base.toList, isNamePart c = true

/-- What follows an expression, inside of another one or at the end. -/
def EndsExpr (rest : List Char) : Prop :=
  ∀ c ∈ rest.head?, c = ')' ∨ c = ' '

/-- An identifier consists of characters of a name. -/
theorem isNamePart_of_isIdentifier {text : List Char} (h : Lexer.isIdentifier text = true) :
    ∀ c ∈ text, isNamePart c = true := by
  cases text with
  | nil => exact nofun
  | cons c rest =>
    rw [Lexer.isIdentifier, Bool.and_eq_true, List.all_eq_true] at h
    intro d hd
    have hpart : Lexer.isIdentPart d = true := by
      rcases List.mem_cons.mp hd with rfl | hd
      · exact Lexer.isIdentPart_of_isIdentStart h.1
      · exact h.2 d hd
    rw [isNamePart, hpart, Bool.true_or]

/-- So do several. -/
theorem isNamePart_of_isDotted {text : List Char} (h : IsDotted text) :
    ∀ c ∈ text, isNamePart c = true := by
  induction h with
  | name htext => exact isNamePart_of_isIdentifier htext
  | member htext _ ih =>
    exact List.forall_mem_append.mpr
      ⟨isNamePart_of_isIdentifier htext, List.forall_mem_cons.mpr ⟨rfl, ih⟩⟩

/-- Names are read as far as their characters go. -/
theorem name_append_inj {front front' rest rest' : List Char} (hfront : ∀ c ∈ front, isNamePart c = true)
    (hfront' : ∀ c ∈ front', isNamePart c = true) (hrest : ∀ c ∈ rest.head?, isNamePart c = false)
    (hrest' : ∀ c ∈ rest'.head?, isNamePart c = false) (h : front ++ rest = front' ++ rest') :
    front = front' ∧ rest = rest' := by
  have htake {front rest : List Char} (hfront : ∀ c ∈ front, isNamePart c = true)
      (hrest : ∀ c ∈ rest.head?, isNamePart c = false) :
      (front ++ rest).takeWhile isNamePart = front := by
    rw [List.takeWhile_append_of_pos hfront]
    cases rest with
    | nil => rw [List.takeWhile_nil, List.append_nil]
    | cons c rest =>
      have hstop : ¬ isNamePart c = true := Bool.eq_false_iff.mp (hrest c rfl)
      rw [List.takeWhile_cons_of_neg hstop, List.append_nil]
  have hsame : front = front' := by
    rw [← htake hfront hrest, h, htake hfront' hrest']
  subst hsame
  exact ⟨rfl, List.append_cancel_left h⟩

/-- What ends an expression does not continue a name. -/
theorem EndsExpr.isNamePart {rest : List Char} (h : EndsExpr rest) :
    ∀ c ∈ rest.head?, isNamePart c = false := by
  intro c hc
  rcases h c hc with rfl | rfl <;> decide

/-- Where a name ends no parenthesis is opened. -/
theorem name_append_ne {front rest rest' : List Char} (hfront : ∀ c ∈ front, isNamePart c = true)
    (hrest : EndsExpr rest) (front' : List Char) (hfront' : ∀ c ∈ front', isNamePart c = true) :
    front ++ rest ≠ front' ++ '(' :: rest' := by
  intro h
  have hopen : ∀ c ∈ ('(' :: rest').head?, TypeExpr.isNamePart c = false := by
    rintro _ ⟨⟩
    decide
  obtain ⟨-, rfl⟩ := name_append_inj hfront hfront' hrest.isNamePart hopen h
  rcases hrest '(' rfl with hmark | hmark <;> cases hmark

/-- What a pointer opens with. -/
def pointerName : List Char := "ctypes.POINTER".toList

theorem isNamePart_pointerName : ∀ c ∈ pointerName, isNamePart c = true :=
  List.all_eq_true.mp (show pointerName.all isNamePart = true by decide)

/-- A pointer, and what follows it. -/
theorem toList_pointer (e : TypeExpr) (rest : List Char) :
    (pointer e).text.toList ++ rest = pointerName ++ '(' :: (e.text.toList ++ ')' :: rest) := by
  have hopening : "ctypes.POINTER(".toList = pointerName ++ ['('] := rfl
  simp [text_pointer, hopening]

/-- An array, and what follows it. -/
theorem toList_array (e : TypeExpr) (n : Int) (rest : List Char) :
    (array e n).text.toList ++ rest =
      '(' :: (e.text.toList ++ " * ".toList ++ ((toString n).toList ++ ')' :: rest)) := by
  simp [text_array]

/-- **Expressions are read as they are written.**  Where one expression ends is the same for all ways to
read a text, and so is the expression. -/
theorem text_append_inj {e e' : TypeExpr} (he : e.IsLoose) (he' : e'.IsLoose) {rest rest' : List Char}
    (hrest : EndsExpr rest) (hrest' : EndsExpr rest')
    (h : e.text.toList ++ rest = e'.text.toList ++ rest') : e = e' ∧ rest = rest' := by
  have hclosed (rest : List Char) : EndsExpr (')' :: rest) := by
    rintro _ ⟨⟩
    exact .inl rfl
  have hblank (rest : List Char) : EndsExpr (" * ".toList ++ rest) := by
    rintro _ ⟨⟩
    exact .inr rfl
  -- by induction on one way to read the text: the other begins as it does, so it is of the same form
  induction e generalizing e' rest rest' with
  | name text =>
    cases e' with
    | name text' =>
      obtain ⟨htext, hrest⟩ := name_append_inj he he' hrest.isNamePart hrest'.isNamePart h
      exact ⟨congrArg name (String.toList_inj.mp htext), hrest⟩
    | pointer e' =>
      rw [toList_pointer] at h
      exact absurd h (name_append_ne he hrest pointerName isNamePart_pointerName)
    | array e' n' =>
      rw [toList_array] at h
      exact absurd h (name_append_ne he hrest [] nofun)
  | pointer e ih =>
    rw [toList_pointer] at h
    cases e' with
    | name text' => exact absurd h.symm (name_append_ne he' hrest' pointerName isNamePart_pointerName)
    | pointer e' =>
      rw [toList_pointer] at h
      have hinside := List.cons.inj (List.append_cancel_left h)
      have hloose : e'.IsLoose := he'
      obtain ⟨rfl, hafter⟩ := ih he hloose (hclosed rest) (hclosed rest') hinside.2
      exact ⟨rfl, (List.cons.inj hafter).2⟩
    | array e' n' =>
      rw [toList_array] at h
      cases (List.cons.inj h).1
  | array e n ih =>
    rw [toList_array] at h
    cases e' with
    | name text' => exact absurd h.symm (name_append_ne he' hrest' [] nofun)
    | pointer e' =>
      rw [toList_pointer] at h
      cases (List.cons.inj h).1
    | array e' n' =>
      rw [toList_array, List.append_assoc, List.append_assoc] at h
      have hloose : e'.IsLoose := he'
      obtain ⟨rfl, hafter⟩ := ih he hloose (hblank _) (hblank _) (List.cons.inj h).2
      -- the lengths are read as the numbers they are written for
      have hnumber := congrArg Json.readNumber? (List.append_cancel_left hafter)
      rw [Json.readNumber?_toString n (Json.endsNumber_cons rfl rest),
        Json.readNumber?_toString n' (Json.endsNumber_cons rfl rest')] at hnumber
      obtain ⟨rfl, hclose⟩ := Prod.mk.inj (Option.some.inj hnumber)
      exact ⟨rfl, (List.cons.inj hclose).2⟩

/-- **Reading.**  What is written for an expression is written for no other one of the grammar, and for
this one only if its name is one. -/
theorem isSentence_and_text_eq_iff {e expr : TypeExpr} (hexpr : expr.IsLoose) :
    e.IsSentence ∧ e.text = expr.text ↔ expr.IsSentence ∧ e = expr := by
  constructor
  · rintro ⟨he, htext⟩
    have hlist : e.text.toList ++ [] = expr.text.toList ++ [] := by rw [htext]
    have hend : EndsExpr [] := fun c hc => absurd hc (Option.not_mem_none c)
    obtain ⟨rfl, -⟩ := text_append_inj (isNamePart_of_isDotted he) hexpr hend hend hlist
    exact ⟨he, rfl⟩
  · rintro ⟨he, rfl⟩
    exact ⟨he, rfl⟩

/-! ## Wrapping -/

/-- A number of pointers to what an expression stands for. -/
def pointers : Nat → TypeExpr → TypeExpr
  | 0, e => e
  | n + 1, e => pointer (pointers n e)

/-- An array with dimensions, given from the outermost in. -/
def arrays (dimensions : List Int) (e : TypeExpr) : TypeExpr :=
  dimensions.foldr (fun dimension e => array e dimension) e

@[simp]
theorem base_pointers (n : Nat) (e : TypeExpr) : (pointers n e).base = e.base := by
  induction n with
  | zero => rfl
  | succ n ih => exact ih

@[simp]
theorem base_arrays (dimensions : List Int) (e : TypeExpr) : (arrays dimensions e).base = e.base := by
  induction dimensions with
  | nil => rfl
  | cons dimension dimensions ih => exact ih

/-- Pointers are wrapped around what is written for their target. -/
theorem text_pointers (n : Nat) (e : TypeExpr) :
    (pointers n e).text = Transform.wrapPointers e.text n := by
  induction n with
  | zero => rfl
  | succ n ih =>
    rw [pointers, text_pointer, ih]
    rfl

/-- Dimensions are wrapped around what is written for the elements. -/
theorem text_arrays (dimensions : List Int) (e : TypeExpr) :
    (arrays dimensions e).text = Transform.wrapDimensions e.text dimensions := by
  induction dimensions with
  | nil => rfl
  | cons dimension dimensions ih =>
    show "(" ++ (arrays dimensions e).text ++ " * " ++ toString dimension ++ ")" = _
    rw [ih]
    rfl

end TypeExpr

/-! ## Names of types -/

namespace Transform

/-- What may stand in front of the name of a type. -/
def qualifiers : List String := ["", "struct ", "CONST_VTBL struct "]

/-- The name that stands for the type `name`: that of a platform type, or the normalized one. -/
def baseName (prefixes : List String) (name : String) : String :=
  match platformType? name with
  | some t => t.expr
  | none => normalize prefixes name

/-- A word in front of a name is removed. -/
theorem dropWord_append (word name : List Char) : dropWord word (word ++ name) = name := by
  have hword : word.isPrefixOf (word ++ name) = true :=
    List.isPrefixOf_iff_prefix.mpr (List.prefix_append word name)
  rw [dropWord, if_pos hword, List.drop_left]

/-- A name does not start with a word that has a blank in it. -/
theorem dropWord_name {word name : List Char} (hword : ' ' ∈ word)
    (hname : ∀ c ∈ name, Lexer.isIdentPart c = true) : dropWord word name = name := by
  refine if_neg fun h => ?_
  have hblank := hname ' ' ((List.isPrefixOf_iff_prefix.mp h).subset hword)
  cases hblank

/-- The words in front of a name are removed. -/
theorem bareTypeName_append {qualifier name : String} (hqualifier : qualifier ∈ qualifiers)
    (hname : IsName name) : bareTypeName (qualifier ++ name) = name := by
  have hwordy := (isName_iff.mp hname).1
  have hstruct : dropWord "struct ".toList name.toList = name.toList :=
    dropWord_name (by decide) hwordy
  have htable : dropWord "CONST_VTBL ".toList name.toList = name.toList :=
    dropWord_name (by decide) hwordy
  simp only [qualifiers, List.mem_cons, List.not_mem_nil, or_false] at hqualifier
  rw [bareTypeName, String.toList_append]
  rcases hqualifier with rfl | rfl | rfl
  · rw [String.toList_empty, List.nil_append, htable, hstruct, String.ofList_toList]
  · have hother : dropWord "CONST_VTBL ".toList ("struct ".toList ++ name.toList) =
        "struct ".toList ++ name.toList := rfl
    rw [hother, dropWord_append, String.ofList_toList]
  · have hboth : "CONST_VTBL struct ".toList = "CONST_VTBL ".toList ++ "struct ".toList := rfl
    rw [hboth, List.append_assoc, dropWord_append, dropWord_append, String.ofList_toList]

/-- The expression of a name, whatever words stand in front of it. -/
theorem resolveName_append (prefixes : List String) {qualifier name : String}
    (hqualifier : qualifier ∈ qualifiers) (hname : IsName name) :
    resolveName prefixes (qualifier ++ name) = baseName prefixes name := by
  rw [resolveName, bareTypeName_append hqualifier hname]
  rfl

/-- An identifier has no dots. -/
theorem isDotted_iff {name : String} (h : IsWordy name) : IsDotted name.toList ↔ IsName name := by
  refine ⟨fun hdotted => ?_, .name⟩
  generalize hname : name.toList = text at hdotted
  cases hdotted with
  | name htext =>
    rw [← hname] at htext
    exact htext
  | member _ _ =>
    have hdot := h '.' (hname ▸ List.mem_append_right _ List.mem_cons_self)
    cases hdot

/-- Platform types have names. -/
theorem isDotted_platformType {name : String} {t : PlatformType} (h : platformType? name = some t) :
    IsDotted t.expr.toList := by
  have hall : ∀ p ∈ platformTypes, IsName p.2.expr ∨
      "ctypes.".toList <+: p.2.expr.toList ∧ Lexer.isIdentifier (p.2.expr.toList.drop 7) = true := by
    decide +kernel
  have hmodule : Lexer.isIdentifier "ctypes".toList = true := by decide
  obtain ⟨before, after, htypes, -⟩ := List.lookup_eq_some_iff.mp h
  have hmem : (name, t) ∈ platformTypes := htypes ▸ List.mem_append_right _ List.mem_cons_self
  rcases hall _ hmem with hname | ⟨⟨member, hmember⟩, hname⟩
  · exact .name hname
  · rw [← hmember] at hname ⊢
    exact .member hmodule (.name hname)

end Transform

end SdkBindings

import SdkBindings.Proofs.Module.Names
import SdkBindings.Proofs.Transform.Parameters

/-!
# Names in the expressions of types

The passes give the type of a parameter an expression: that of the name it leads to, with pointers and
dimensions around it, or fewer pointers if the parameter is an array with a length.  Whatever is around
it, such an expression looks up no name but those that the expression of the name looks up
(`CType.IsSpelled`).  A declared type has no expression yet, and every pass keeps what is said here
(`isKept_isSpelled`), so it holds of the parameters that a wrapper is written for (`exists_spelled`).
-/

namespace SdkBindings.Transform

open SdkBindings.Module (readNames referencedNames mem_referencedNames_iff readNames_empty
  readNames_call readNames_append_mark words_eq_nil startsName startsName_of_mem_toString libraryName)

/-! ## Pointers and arrays -/

/-- A pointer looks up the names of what it points to. -/
theorem mem_referencedNames_pointerExpr {base n : String} :
    n ∈ referencedNames (pointerExpr base) ↔ n ∈ referencedNames base := by
  have hpointer : readNames "ctypes.POINTER" = [libraryName] := by decide +kernel
  rw [mem_referencedNames_iff, mem_referencedNames_iff, pointerExpr,
    readNames_call "ctypes.POINTER" (by decide), hpointer, List.mem_append,
    List.mem_singleton]
  tauto

/-- A dimension looks up nothing. -/
theorem readNames_dimension (dimension : Int) : readNames ("* " ++ toString dimension) = [] := by
  have hnone : ∀ c ∈ ("* " ++ toString dimension).toList, startsName c = false := by
    intro c hc
    rw [String.toList_append, List.mem_append] at hc
    obtain hc | hc := hc
    · obtain rfl | rfl : c = '*' ∨ c = ' ' := by simpa using hc
      · decide
      · decide
    · exact startsName_of_mem_toString dimension c hc
  rw [readNames, words_eq_nil hnone]
  rfl

/-- An array looks up the names of its elements. -/
theorem mem_referencedNames_arrayExpr {base n : String} {dimension : Int} :
    n ∈ referencedNames (arrayExpr base dimension) ↔ n ∈ referencedNames base := by
  have hpieces : arrayExpr base dimension =
      "(" ++ (base ++ String.singleton ' ' ++ ("* " ++ toString dimension)) ++ ")" := by
    have hmark : (" * " : String) = String.singleton ' ' ++ "* " := by decide
    rw [arrayExpr, hmark]
    simp only [String.append_assoc]
  rw [mem_referencedNames_iff, mem_referencedNames_iff, hpieces,
    readNames_call "" (by decide), readNames_empty,
    readNames_append_mark (c := ' ') ⟨by decide, by decide +kernel⟩ (by decide),
    readNames_dimension, List.append_nil, List.nil_append]

/-- So for any number of pointers. -/
theorem mem_referencedNames_wrapPointers {base n : String} (count : Nat) :
    n ∈ referencedNames (wrapPointers base count) ↔ n ∈ referencedNames base := by
  induction count with
  | zero => rfl
  | succ count ih => rw [wrapPointers, mem_referencedNames_pointerExpr, ih]

/-- So for any dimensions. -/
theorem mem_referencedNames_wrapDimensions {base n : String} (dimensions : List Int) :
    n ∈ referencedNames (wrapDimensions base dimensions) ↔ n ∈ referencedNames base := by
  induction dimensions with
  | nil => rfl
  | cons dimension rest ih =>
    rw [wrapDimensions, List.foldr_cons, mem_referencedNames_arrayExpr]
    exact ih

/-- The expression for the first indirection to a type looks up nothing. -/
theorem referencedNames_shortcut {name expr : String} (h : pointerShortcut? name = some expr) :
    referencedNames expr = [] := by
  unfold pointerShortcut? at h
  split at h
  · cases h
    decide +kernel
  · split at h
    · cases h
      decide +kernel
    · cases h

/-- Indirections look up the names of what they lead to, if anything. -/
theorem referencedNames_innerPointer (prefixes : List String) (u : CType) (depth : Int) :
    referencedNames (innerPointer prefixes u depth) ⊆
      referencedNames (resolveName prefixes u.ident) := by
  intro n hn
  have hdimensions {expr : String}
      (hn : n ∈ referencedNames
        (if u.shape = .array then wrapDimensions expr u.dimensions else expr)) :
      n ∈ referencedNames expr := by
    split at hn
    · rwa [mem_referencedNames_wrapDimensions] at hn
    · exact hn
  unfold innerPointer at hn
  cases hshortcut : (if 0 < depth then pointerShortcut? u.ident else none) with
  | none =>
    rw [hshortcut] at hn
    exact (mem_referencedNames_wrapPointers _).mp (hdimensions hn)
  | some shortcut =>
    rw [hshortcut] at hn
    have hnone := referencedNames_shortcut (Option.ite_none_right_eq_some.mp hshortcut).2
    have hmem := (mem_referencedNames_wrapPointers _).mp (hdimensions hn)
    rw [hnone] at hmem
    cases hmem

/-! ## Spelled types -/

/-- A pointer leads to the name that it has itself, and the expression of a pointer or an array looks up
no names but those of this name. -/
structure IsSpelled (prefixes : List String) (t : CType) : Prop where
  /-- What a pointer leads to. -/
  pointer : t.shape = .pointer → ∃ u, t.inner = some u ∧ u.ident = t.ident
  /-- The names of the expression. -/
  names : t.shape = .pointer ∨ t.shape = .array →
    referencedNames t.expr ⊆ referencedNames (resolveName prefixes t.ident)

/-- A declared type has no expression yet. -/
theorem isSpelled_of_isDeclared {prefixes : List String} {t : CType} (h : t.IsDeclared) :
    IsSpelled prefixes t where
  pointer hshape := by
    obtain ⟨-, u, hu, -, hident⟩ := h.pointer hshape
    exact ⟨u, hu, hident⟩
  names _ := by
    have hnone : referencedNames "" = [] := by decide +kernel
    rw [h.expr, hnone]
    exact List.nil_subset _

/-- Resolution spells a type. -/
theorem isSpelled_resolveType {prefixes : List String} {t : CType} (h : IsSpelled prefixes t)
    (hnone : (resolveType prefixes t).failure = none) :
    IsSpelled prefixes (resolveType prefixes t).value := by
  obtain ⟨hshape, hident, -⟩ := resolveType_keeps prefixes t
  constructor
  · intro hpointer
    rw [hshape] at hpointer
    obtain ⟨u, hu, hname⟩ := h.pointer hpointer
    obtain ⟨-, v, hv, hsame⟩ := pointer_resolveType hnone hpointer hu
    exact ⟨v, hv, hsame.2.1.trans (hname.trans hident.symm)⟩
  · rw [hshape, hident]
    rintro (hpointer | harray)
    · obtain ⟨u, hu, hname⟩ := h.pointer hpointer
      rw [(pointer_resolveType hnone hpointer hu).1, ← hname]
      exact referencedNames_innerPointer prefixes u _
    · obtain ⟨shape, ident, expr, dimensions, members, name, parameters, depth, inner⟩ := t
      cases harray
      exact fun n hn => (mem_referencedNames_wrapDimensions dimensions).mp hn

/-- All passes keep types spelled. -/
theorem isKept_isSpelled (prefixes : List String) : IsKept prefixes (IsSpelled prefixes) where
  target t h hshape := by
    obtain ⟨u, hu, -⟩ := h.pointer hshape
    rw [hu]
    rfl
  inside _ _ _ _ h := ⟨h.pointer, h.names⟩
  resolve _ h hnone := isSpelled_resolveType h hnone
  element t depth expr h hshape hexpr := by
    obtain ⟨u, hu, hname⟩ := h.pointer hshape
    rw [pointerTo, hu] at hexpr
    cases hexpr
    refine ⟨h.pointer, fun _ => ?_⟩
    dsimp only
    rw [← hname]
    exact referencedNames_innerPointer prefixes u depth

/-! ## Parameters -/

section

variable {prefixes : List String} {h : Header} {callee : Callee} {ds : List Field}

/-- What a length takes for its array is a pointer. -/
theorem shape_of_takes {xs : List Field} {i j : Nat} (h : Takes xs i j) {x : Field}
    (hx : xs[j]? = some x) : x.type.shape = .pointer := by
  obtain ⟨f, -, ⟨-, htakes⟩ | ⟨-, htakes⟩⟩ := h
  all_goals
    rw [takes, hx, Option.any_some, isPairable, Bool.and_eq_true, Bool.and_eq_true] at htakes
    exact of_decide_eq_true htakes.2.2

/-- The parameters of a callee keep what decides how they are treated, and are spelled; only pointers are
arrays that have a length. -/
theorem exists_spelled (hdeclared : h.IsDeclared) (hfailure : (transform prefixes h).failure = none)
    (hds : h.parameters? callee = some ds) :
    ∃ ws, (transform prefixes h).value.parameters? callee = some ws ∧
      ∀ (i : Nat) (w : Field), ws[i]? = some w →
        ∃ d, ds[i]? = some d ∧ Keeps d.type w.type ∧ IsSpelled prefixes w.type ∧
          (w.isArray = true → w.type.shape = .pointer) := by
  obtain ⟨xs, hxs, hrenamed⟩ := (corresponds_normalizeHeader prefixes h).parameters?
    (fun _ _ => sameShapes_of_forall₂ fun _ _ h => h.type) hds
  obtain ⟨ws, hws, zs, ⟨ys, hresolved, hpaired⟩, herased⟩ :=
    (corresponds_transform hdeclared hfailure).parameters? (fun _ _ => ArePrepared.sameShapes) hxs
  have hspelled : (transform prefixes h).value.EachList (HoldsInFields (IsSpelled prefixes)) :=
    (meets_transform (isKept_isSpelled prefixes) (hdeclared.fields.mono fun _ =>
      holdsInFields_of_areDeclared fun _ => isSpelled_of_isDeclared)).value hfailure
  refine ⟨ws, hws, fun i w hw => ?_⟩
  obtain ⟨z, hz, hzw⟩ := exists_getElem?_of_forall₂_right herased hw
  obtain ⟨y, hy, hyz⟩ := exists_getElem?_of_forall₂_right hpaired.retains hz
  obtain ⟨x, hx, hxy⟩ := exists_getElem?_of_forall₂_right hresolved.2 hy
  obtain ⟨d, hd, hdx⟩ := exists_getElem?_of_forall₂_right hrenamed hx
  have hholds := Field.allOf_iff.mp (allOf_parameters? hspelled hws) w (List.mem_of_getElem? hw)
  refine ⟨d, hd, ((hdx.type.trans hxy.type).trans hyz.type).trans hzw.type,
    (CType.all_iff.mp (holdsInField_iff.mp hholds)).1, fun harray => ?_⟩
  rw [hzw.same] at harray
  obtain ⟨j, htakes⟩ := (hpaired.isArray i z hz).mp harray
  exact hzw.type.1.trans (hyz.type.1.trans (shape_of_takes htakes hy))

end

end SdkBindings.Transform

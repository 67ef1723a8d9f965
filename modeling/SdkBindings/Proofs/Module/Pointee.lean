import SdkBindings.Proofs.Module.TypeScope
import SdkBindings.Proofs.Transform.TypeReading

/-!
# What a pointer points to

Two parts of the program need the type that a resolved pointer points to.  A wrapper that allocates an
output cuts the type out of the expression of the pointer, between the parentheses.  Pairing asks
resolution for the expression of one indirection less, which is the type of the elements of an array.
Both find the same (`HasPointee`): an expression that starts as that of a pointer is the expression of
one indirection less with a pointer around it, also where `void` and `char` have shortcuts, and the
expression of an array of pointers does not start so.
-/

namespace SdkBindings.Module

open Transform

/-- What the type that a resolved pointer points to is taken for. -/
structure HasPointee (prefixes : List String) (u : CType) : Prop where
  /-- The expression starts as that of a pointer unless dimensions or a shortcut come first. -/
  starts : isPointerExpr u.expr = true ↔ HasPointerExpr u
  /-- What such an expression has between the parentheses is the type of one indirection less. -/
  pointee : isPointerExpr u.expr = true → pointerTo prefixes u (u.depth - 1) = .ok (pointee u.expr)
  /-- It is the type of the elements of an array. -/
  element : isPointerExpr u.expr = true → u.depth ≤ maxArrayDepth → ∀ owner x, x.type = u →
    elementType prefixes owner x = .ok (Module.pointee u.expr)
  /-- It is what a wrapper allocates for an output. -/
  output : ∀ x type, x.type = u → Passing.ofField x = .output type →
    pointerTo prefixes u (u.depth - 1) = .ok type
  /-- The expression of an array of pointers does not start as that of a pointer. -/
  array : ∀ v, u.inner = some v → v.shape = .array → isPointerExpr u.expr = false

section

variable {prefixes : List String} {t u v w : CType}

/-- Only an output is passed as one. -/
theorem isAllocatedOutput_of_output {x : Field} {type : String} (h : Passing.ofField x = .output type) :
    isAllocatedOutput x = true ∧ type = pointee x.type.expr := by
  unfold Passing.ofField at h
  by_cases hallocated : isAllocatedOutput x = true
  · rw [if_pos hallocated] at h
    exact ⟨hallocated, (Passing.output.inj h).symm⟩
  · rw [if_neg hallocated] at h
    split_ifs at h

/-- A type is spelled as a pointer after resolution if it is so before. -/
theorem hasPointerExpr_of_sameTarget (hsame : SameTarget t u) (hdepth : u.depth = t.depth)
    (hv : t.inner = some v) (hw : u.inner = some w) (hinner : SameTarget v w) :
    HasPointerExpr u ↔ HasPointerExpr t := by
  unfold HasPointerExpr
  simp only [hv, hw, Option.some.injEq, exists_eq_left', hsame.2.1, hdepth, hinner.1]

/-- **Resolved pointers.**  A declared pointer that is settled has a pointee. -/
theorem Settles.hasPointee (h : Settles prefixes t u) (ht : t.All CType.IsDeclared Field.IsUnpaired)
    (hshape : t.shape = .pointer) : HasPointee prefixes u := by
  have hdeclared : t.IsDeclared := (CType.all_iff.mp ht).1
  obtain ⟨hdepth, -⟩ := hdeclared.pointer hshape
  obtain ⟨v, hv, hvdeclared⟩ := exists_inner_of_all ht hshape
  obtain ⟨w, hw, hvw⟩ := h.inner hshape v hv
  have hexpr : u.expr = innerPointer prefixes v t.depth := h.pointer hshape v hv
  have hless : pointerTo prefixes u (u.depth - 1) = .ok (innerPointer prefixes v (t.depth - 1)) := by
    rw [pointerTo, hw, h.depth]
    exact congrArg Except.ok (innerPointer_of_sameTarget hvw prefixes _)
  have hpointee (hstarts : isPointerExpr u.expr = true) :
      pointerTo prefixes u (u.depth - 1) = .ok (pointee u.expr) := by
    rw [hexpr] at hstarts
    rw [hless, hexpr, innerPointer_eq_pointerExpr (by omega) hvdeclared hstarts, pointee_pointerExpr]
  refine ⟨?_, hpointee, fun hstarts hlevels owner x hx => ?_, fun x type hx hpassing => ?_,
    fun w' hw' harray => ?_⟩
  · rw [hexpr, isPointerExpr_innerPointer prefixes hdeclared hvdeclared hshape hv]
    exact (hasPointerExpr_of_sameTarget h.same h.depth hv hw hvw).symm
  · rw [elementType, hx, if_neg (by omega)]
    exact hpointee hstarts
  · obtain ⟨hallocated, rfl⟩ := isAllocatedOutput_of_output hpassing
    rw [hx]
    refine hpointee ?_
    rw [← hx]
    exact (Bool.and_eq_true_iff.mp hallocated).2
  · cases hw.symm.trans hw'
    have hvarray : v.shape = .array := hvw.1.symm.trans harray
    rw [hexpr, innerPointer, if_pos hvarray]
    exact isPointerExpr_wrapDimensions _ (hvdeclared.array hvarray)

end

/-! ## Whole headers -/

/-- The types of a list of fields after resolution: each leads to the same type as before, and the
pointers have their indirections and a pointee. -/
def HavePointees (prefixes : List String) (xs ys : List Field) : Prop :=
  List.Forall₂ (fun t u => SameTarget t u ∧
    (t.shape = .pointer → u.depth = t.depth ∧ HasPointee prefixes u)) (Field.types xs) (Field.types ys)

/-- Settled lists of declared fields have pointees. -/
theorem havePointees_of_areSettled {prefixes : List String} {xs ys : List Field}
    (hdeclared : Field.AreDeclared xs) (h : AreSettled prefixes xs ys) : HavePointees prefixes xs ys := by
  refine forall₂_imp_of_mem h fun t u ht htu => ⟨htu.same, fun hshape => ⟨htu.depth, ?_⟩⟩
  exact Settles.hasPointee htu (Field.all_types hdeclared t ht) hshape

/-- **Pointees.**  In every header that is read all types are resolved, at any depth, with or without
normalization before.  What a wrapper cuts out of the expression of a pointer for an output is then what
resolution says of one indirection less, and it cuts nothing out of an array of pointers. -/
theorem resolve_pointee {strict : Bool} {file source : String} {session : Grammar.Session} {h : Header}
    (hread : (Grammar.readHeader strict file source session).1 = .ok h) (prefixes : List String) :
    ∀ g ∈ [h, normalizeHeader prefixes h], (resolveHeader prefixes g).failure = none ∧
      Throughout (HavePointees prefixes) h (resolveHeader prefixes g).value := by
  have hdeclared : h.IsDeclared := Grammar.isDeclared_of_readHeader hread
  have hpointees {g : Header} (hg : Throughout (AreSettled prefixes) h g) :
      Throughout (HavePointees prefixes) h g :=
    hg.imp (fun xs ys hxs hxy => havePointees_of_areSettled hxs hxy) hdeclared.fields
  have hplain := resolveHeader_settles prefixes hdeclared
  have hnormalized := resolve_normalize_settles prefixes hdeclared
  intro g hg
  rcases List.mem_pair.mp hg with rfl | rfl
  · exact ⟨hplain.1, hpointees hplain.2⟩
  · exact ⟨hnormalized.1, hpointees hnormalized.2⟩

/-- A function with a pointer to a pointer, one that has a shortcut, and an array of pointers. -/
def rowsSource : String :=
  "HRESULT WINAPI F(__out D3D11_BOX**ppBox,__out void**ppData,__out UINT*pRows[2]);"

/-- The pointees of its parameters, as `resolve_pointee` says. -/
theorem resolve_pointee_rows :
    ∃ h f f', (Grammar.readHeader false "a.h" rowsSource .start).1 = .ok h ∧
      h.functions[0]? = some f ∧
      (resolveHeader Settings.default.stripPrefixes
        (normalizeHeader Settings.default.stripPrefixes h)).value.functions[0]? = some f' ∧
      HavePointees Settings.default.stripPrefixes f.parameters f'.parameters ∧
      (Field.types f'.parameters).map (fun u => (u.shape, u.expr)) =
        [(.pointer, "ctypes.POINTER(ctypes.POINTER(BOX))"), (.pointer, "ctypes.POINTER(ctypes.c_void_p)"),
          (.pointer, "(ctypes.POINTER(ctypes.c_uint32) * 2)")] := by
  have hcomputed : (Grammar.readHeader false "a.h" rowsSource .start).1.toOption.bind (fun h =>
      h.functions[0]?.bind fun _ => (resolveHeader Settings.default.stripPrefixes
        (normalizeHeader Settings.default.stripPrefixes h)).value.functions[0]?.map fun f' =>
          (Field.types f'.parameters).map fun u => (u.shape, u.expr)) =
      some [(.pointer, "ctypes.POINTER(ctypes.POINTER(BOX))"),
        (.pointer, "ctypes.POINTER(ctypes.c_void_p)"),
        (.pointer, "(ctypes.POINTER(ctypes.c_uint32) * 2)")] := by
    -- evaluated from the characters of the text, so that the kernel builds no bytes
    have hsource : rowsSource.toList = _ := String.toList_ofList
    rw [Grammar.readHeader, Grammar.header, Lexer.lex, hsource]
    decide +kernel
  obtain ⟨h, hh, hcomputed⟩ := Option.bind_eq_some_iff.mp hcomputed
  obtain ⟨f, hf, hcomputed⟩ := Option.bind_eq_some_iff.mp hcomputed
  obtain ⟨f', hf', hexprs⟩ := Option.map_eq_some_iff.mp hcomputed
  have hread := eq_ok_of_toOption hh
  obtain ⟨-, hthroughout⟩ := resolve_pointee hread Settings.default.stripPrefixes _
    (List.mem_pair.mpr (.inr rfl))
  obtain ⟨f'', hf'', hpointees⟩ := exists_getElem?_of_forall₂ hthroughout.functions hf
  cases hf'.symm.trans hf''
  exact ⟨h, f, f', hread, hf, hf', hpointees, hexprs⟩

end SdkBindings.Module

import SdkBindings.Proofs.Comparison.Readers

/-!
# Comparing two readings: fields

Reading a list of members or parameters has the same outcome on alike cursors (`fields_alike`): the
same fields, or errors that differ in their place only.

Every construct is read by the same reader on both sides, only the bounds differ.  A bound has to
exceed the number of tokens of code that are left.  Each round of a loop takes a token away, unless
it finds the end of the header, where nothing is written and every loop stops.
-/

namespace SdkBindings.Comparison

open Grammar Grammar.Reader

variable {K : Comparison} {symbols symbols' : SymbolTable} {n l b b' : Nat} {t u : Token}

/-! ## Types -/

/-- Arguments of annotations are passed over alike. -/
theorem skipArguments_alike : K.ReadsAlike n Same skipArguments skipArguments := by
  refine ReadsAlike.peek.matched_bind fun n t p _ _ => .ite Iff.rfl (fun _ => ?_) fun _ => .pure rfl
  rintro c d ⟨inLine, previous, halike⟩
  rw [get_bind, get_bind]
  rcases halike.aligned.argumentsLength? 0 with
    ⟨hc, hd⟩ | ⟨passed, passed', inLine', previous', hc, hd, haligned⟩
  · rw [hc, hd]
    exact ReadsAlike.fail halike.eof ")" "annotation arguments" c d ⟨inLine, previous, halike⟩
  · rw [hc, hd]
    refine .ok ⟨n, Nat.le_refl n, rfl, inLine', previous', halike.moved haligned ?_⟩
    exact Nat.le_trans ((List.drop_sublist passed c.ahead).filter _).length_le halike.length_le

/-- At the end of the header there is no type, whatever the bound. -/
theorem typeName_eof (hkind : t.kind = .eof) (htext : t.text = "") (bound : Nat)
    (parts : List String) : typeName bound parts t = fail t "type name" "field" := by
  cases bound with
  | zero => rfl
  | succ bound =>
    have hstar : ¬ (t.text = "*" ∨ isConst t.text = true) := by
      rw [htext]
      decide
    have hword : t.kind ≠ .ident := by
      rw [hkind]
      decide
    rw [typeName, if_neg hstar, if_pos hword]

/-- Type names are read alike. -/
theorem typeName_alike (h : K.Read n l t u) (hb : t.kind ≠ .eof → l < b)
    (hb' : t.kind ≠ .eof → l < b') (parts : List String) :
    K.ReadsAlike l (K.AndRead n) (typeName b parts t) (typeName b' parts u) := by
  induction b generalizing b' l t u parts with
  | zero =>
    have hkind : t.kind = .eof := Classical.not_not.mp fun hkind => Nat.not_lt_zero l (hb hkind)
    rw [typeName_eof hkind (h.text_eof hkind),
      typeName_eof (h.matched.kind.trans hkind) (h.matched.text.trans (h.text_eof hkind))]
    exact .fail h.matched _ _
  | succ b ih =>
    by_cases hkind : t.kind = .eof
    · rw [typeName_eof hkind (h.text_eof hkind),
        typeName_eof (h.matched.kind.trans hkind) (h.matched.text.trans (h.text_eof hkind))]
      exact .fail h.matched _ _
    · have hb := Nat.le_of_lt_succ (hb hkind)
      have hb' := hb' hkind
      cases b' with
      | zero => exact absurd hb' (Nat.not_lt_zero l)
      | succ b' =>
        have hb' := Nat.le_of_lt_succ hb'
        rw [h.matched.eq_movedTo, typeName, typeName]
        refine .ite Iff.rfl (fun _ => ?_) fun _ => .ite Iff.rfl (fun _ => ?_) fun _ => ?_
        · refine ReadsAlike.next.read_bind fun r following p hread => ?_
          exact ih (hread.mono h.le) (hread.lt_of_le hb) (hread.lt_of_le hb') parts
        · rw [← h.matched.eq_movedTo]
          exact .fail h.matched _ _
        · refine ReadsAlike.next.read_bind fun r following p hread => ?_
          refine .ite Iff.rfl (fun _ => ?_) fun _ => .pure ⟨rfl, hread.mono h.le⟩
          exact ih (hread.mono h.le) (hread.lt_of_le hb) (hread.lt_of_le hb') _

/-- Without an asterisk nothing is counted, whatever the bound. -/
theorem pointerDepth_of_text_ne (h : t.text ≠ "*") (bound : Nat) :
    pointerDepth bound t = pure (0, t) := by
  cases bound with
  | zero => rfl
  | succ bound => rw [pointerDepth, if_neg h]

/-- Asterisks are counted alike. -/
theorem pointerDepth_alike (h : K.Read n l t u) (hb : t.kind ≠ .eof → l < b)
    (hb' : t.kind ≠ .eof → l < b') :
    K.ReadsAlike l (K.AndRead n) (pointerDepth b t) (pointerDepth b' u) := by
  induction b generalizing b' l t u with
  | zero =>
    have hstar : t.text ≠ "*" := fun htext =>
      Nat.not_lt_zero l (hb (h.kind_ne htext (by decide)))
    rw [pointerDepth_of_text_ne hstar, pointerDepth_of_text_ne (h.matched.text ▸ hstar)]
    exact .pure ⟨rfl, h⟩
  | succ b ih =>
    by_cases hstar : t.text = "*"
    · have hkind := h.kind_ne hstar (by decide)
      have hb := Nat.le_of_lt_succ (hb hkind)
      have hb' := hb' hkind
      cases b' with
      | zero => exact absurd hb' (Nat.not_lt_zero l)
      | succ b' =>
        have hb' := Nat.le_of_lt_succ hb'
        rw [pointerDepth, pointerDepth, if_pos hstar, if_pos (h.matched.text.trans hstar)]
        refine ReadsAlike.next.read_bind fun r following p hread => ?_
        refine (ih (hread.mono h.le) (hread.lt_of_le hb) (hread.lt_of_le hb')).andRead_bind ?_
        exact fun r depth last p _ hlast => .pure ⟨rfl, hlast⟩
    · rw [pointerDepth_of_text_ne hstar, pointerDepth_of_text_ne (h.matched.text ▸ hstar)]
      exact .pure ⟨rfl, h⟩

/-! ## Dimensions -/

/-- Lengths of arrays are the same. -/
theorem dimension_alike (htable : K.table symbols symbols') (h : K.Matches t u) (typeName : String) :
    K.ReadsAlike n Same (dimension symbols typeName t) (dimension symbols' typeName u) := by
  have hfail : K.ReadsAlike n (Same (α := Int))
      (fail t "array length" ("array of " ++ typeName))
      (fail u "array length" ("array of " ++ typeName)) := .fail h _ _
  unfold dimension
  simp only [h.kind, h.text]
  refine .ite Iff.rfl (fun _ => ?_) fun _ => .ite Iff.rfl (fun hkind => ?_) fun _ => hfail
  · cases Numeral.decimalInteger? t.text.toList with
    | none => exact .throw _
    | some length => exact .pure rfl
  · rw [K.number?_eq htable (h.isName hkind)]
    cases symbols'.number? t.text with
    | none => exact hfail
    | some length => exact .pure rfl

/-- Without a bracket there are no dimensions, whatever the bound. -/
theorem dimensions_of_text_ne (h : t.text ≠ "[") (typeName : String) (bound : Nat) :
    dimensions symbols typeName bound t = pure ([], t) := by
  cases bound with
  | zero => rfl
  | succ bound => rw [dimensions, if_neg h]

/-- Dimensions are read alike. -/
theorem dimensions_alike (htable : K.table symbols symbols') (typeName : String)
    (h : K.Read n l t u) (hb : t.kind ≠ .eof → l < b) (hb' : t.kind ≠ .eof → l < b') :
    K.ReadsAlike l (K.AndRead n) (dimensions symbols typeName b t)
      (dimensions symbols' typeName b' u) := by
  induction b generalizing b' l t u with
  | zero =>
    have hopen : t.text ≠ "[" := fun htext =>
      Nat.not_lt_zero l (hb (h.kind_ne htext (by decide)))
    rw [dimensions_of_text_ne hopen, dimensions_of_text_ne (h.matched.text ▸ hopen)]
    exact .pure ⟨rfl, h⟩
  | succ b ih =>
    by_cases hopen : t.text = "["
    · have hkind := h.kind_ne hopen (by decide)
      have hb := Nat.le_of_lt_succ (hb hkind)
      have hb' := hb' hkind
      cases b' with
      | zero => exact absurd hb' (Nat.not_lt_zero l)
      | succ b' =>
        have hb' := Nat.le_of_lt_succ hb'
        rw [dimensions, dimensions, if_pos hopen, if_pos (h.matched.text.trans hopen)]
        refine ReadsAlike.next.read_bind fun r₁ size p hsize => ?_
        refine (dimension_alike htable hsize.matched typeName).same_bind fun r₂ length hr₂ => ?_
        refine ReadsAlike.expect.bind fun r₃ _ _ hr₃ _ => ?_
        refine ReadsAlike.next.read_bind fun r₄ following p hread => ?_
        have hread := hread.mono (Nat.le_trans hr₃ (Nat.le_trans hr₂ hsize.le))
        refine (ih (hread.mono h.le) (hread.lt_of_le hb) (hread.lt_of_le hb')).andRead_bind ?_
        exact fun r lengths last p _ hlast => .pure ⟨rfl, hlast⟩
    · rw [dimensions_of_text_ne hopen, dimensions_of_text_ne (h.matched.text ▸ hopen)]
      exact .pure ⟨rfl, h⟩

/-! ## Plain fields -/

/-- Plain fields end alike. -/
theorem terminatedField_alike (brackets : Brackets) (usage : Usage) (typeName name : String)
    (depth : Nat) (target : CType) (h : K.Read n l t u) :
    K.ReadsAlike l Same (terminatedField brackets usage typeName name depth target t)
      (terminatedField brackets usage typeName name depth target u) := by
  unfold terminatedField
  dsimp only
  simp only [h.matched.text]
  exact .ite Iff.rfl (fun _ => .fail_bind h.matched) fun _ => .pure rfl

/-- From their names on, plain fields are read alike. -/
theorem namedField_alike (htable : K.table symbols symbols') (brackets : Brackets) (usage : Usage)
    (typeName : String) (depth : Nat) (h : K.Read n l t u) (hb : l ≤ b) (hb' : l ≤ b') :
    K.ReadsAlike l Same (namedField symbols brackets usage typeName b depth t)
      (namedField symbols' brackets usage typeName b' depth u) := by
  unfold namedField
  dsimp only
  simp only [h.matched.kind, h.matched.text]
  refine .ite Iff.rfl (fun _ => .fail_bind h.matched) fun _ => ?_
  refine ReadsAlike.next.read_bind fun r following p hread => ?_
  refine .ite Iff.rfl (fun _ => ?_) fun _ => ?_
  · refine (dimensions_alike htable typeName (hread.mono h.le) (hread.lt_of_le hb)
      (hread.lt_of_le hb')).andRead_bind fun r sizes last p _ hlast => ?_
    exact terminatedField_alike _ _ _ _ _ _ hlast
  · exact terminatedField_alike _ _ _ _ _ _ (hread.mono h.le)

/-- Plain fields are read alike. -/
theorem plainField_alike (htable : K.table symbols symbols') (brackets : Brackets) (usage : Usage)
    (typeName : String) (h : K.Read n l t u) :
    K.ReadsAlike l Same (plainField symbols brackets usage typeName t)
      (plainField symbols' brackets usage typeName u) := by
  rw [plainField_eq, plainField_eq]
  refine ReadsAlike.ahead_bind fun m b b' hm hb hb' => ?_
  have hlt := Nat.lt_succ_of_le hb
  have hlt' := Nat.lt_succ_of_le hb'
  refine (pointerDepth_alike (h.lower hm) (fun _ => hlt) fun _ => hlt').andRead_bind
    fun r leading token p hr htoken => ?_
  refine .ite Iff.rfl (fun _ => ?_) fun _ => ?_
  · refine ReadsAlike.next.read_bind fun r₂ following p hread => ?_
    have hr := Nat.le_trans hread.le hr
    refine (pointerDepth_alike (hread.mono htoken.le) (fun _ => Nat.lt_of_le_of_lt hr hlt)
      fun _ => Nat.lt_of_le_of_lt hr hlt').andRead_bind fun r₃ trailing name p hr₃ hname => ?_
    have hr := Nat.le_trans hr₃ hr
    exact namedField_alike htable brackets usage typeName _ hname
      (Nat.le_trans hr (Nat.le_of_lt hlt)) (Nat.le_trans hr (Nat.le_of_lt hlt'))
  · exact namedField_alike htable brackets usage typeName _ htoken
      (Nat.le_trans hr (Nat.le_of_lt hlt)) (Nat.le_trans hr (Nat.le_of_lt hlt'))

/-! ## Methods -/

/-- Heads of methods are read alike, and at least the opening parenthesis is taken away. -/
theorem methodHead_alike (result : String) :
    K.ReadsAlike n (fun l name name' => l < n ∧ name' = name) (methodHead result)
      (methodHead result) := by
  refine ReadsAlike.next.read_bind fun r₁ _ _ hconvention => ?_
  refine ReadsAlike.ahead_bind fun m b b' hm hb hb' => ?_
  refine ReadsAlike.next.read_bind fun r₂ token p htoken => ?_
  have hlt := Nat.lt_succ_of_le (Nat.le_trans htoken.le hb)
  have hlt' := Nat.lt_succ_of_le (Nat.le_trans htoken.le hb')
  refine (pointerDepth_alike htoken (fun _ => hlt) fun _ => hlt').andRead_bind
    fun r₃ _ name p hr₃ hname => .ite Iff.rfl (fun _ => .fail_bind hname.matched) fun _ => ?_
  refine ReadsAlike.expect.bind fun r₄ _ _ hr₄ _ => ?_
  refine ReadsAlike.expect.bind fun r₅ _ _ _ hr₅ => .pure ⟨?_, rfl⟩
  have hle := Nat.le_trans hr₄ (Nat.le_trans hname.le (Nat.le_trans hm hconvention.le))
  exact Nat.lt_of_lt_of_le (hr₅ (by decide)) hle

/-- Receivers are checked alike. -/
theorem checkReceiver_alike (h : K.Matches t u) (name : String) (parameters : List Field) :
    K.ReadsAlike n Same (checkReceiver name t parameters) (checkReceiver name u parameters) := by
  unfold checkReceiver
  refine .ite Iff.rfl (fun _ => ?_) fun _ => .pure rfl
  apply ReadsAlike.fail_of
  · exact h.kind
  · rfl
  · exact h.place

/-- Function pointers are read alike if their parameters are. -/
theorem methodField_alike {bound bound' : Nat}
    (hlist : ∀ l < n, K.ReadsAlike l Same (fieldList symbols bound .parameters)
      (fieldList symbols' bound' .parameters))
    (brackets : Brackets) (usage : Usage) (type : String) :
    K.ReadsAlike n Same (methodField symbols bound brackets usage type)
      (methodField symbols' bound' brackets usage type) := by
  unfold methodField
  refine (methodHead_alike type).bind ?_
  rintro l name _ - ⟨hl, rfl⟩
  refine ReadsAlike.peek.matched_bind fun r first p hr hfirst => ?_
  refine (hlist r (Nat.lt_of_le_of_lt hr hl)).same_bind fun r parameters _ => ?_
  refine (checkReceiver_alike hfirst _ parameters).same_bind fun r _ _ => ?_
  refine ReadsAlike.next.read_bind fun r token p htoken => ?_
  exact .ite Iff.rfl (fun _ => .fail_bind htoken.matched) fun _ => .pure rfl

/-! ## Lists of fields -/

/-- After their annotations, fields are read alike if parameters are. -/
theorem fieldAfterUsage_alike (htable : K.table symbols symbols') {bound bound' : Nat}
    (hlist : ∀ r < l, K.ReadsAlike r Same (fieldList symbols bound .parameters)
      (fieldList symbols' bound' .parameters))
    (brackets : Brackets) (usage : Usage) (h : K.Read n l t u) :
    K.ReadsAlike l Same (fieldAfterUsage symbols bound brackets usage t)
      (fieldAfterUsage symbols' bound' brackets usage u) := by
  unfold fieldAfterUsage
  refine ReadsAlike.ahead_bind fun m b b' hm hb hb' => ?_
  have hlt {b : Nat} (hb : m ≤ b) : m < b + 2 := Nat.lt_add_right 1 (Nat.lt_succ_of_le hb)
  refine (typeName_alike (h.lower hm) (fun _ => hlt hb) (fun _ => hlt hb') []).andRead_bind
    fun r type token p hr htoken => .ite Iff.rfl (fun _ => ?_) fun _ => ?_
  · refine methodField_alike (fun r' hr' => hlist r' ?_) brackets usage type
    exact Nat.lt_of_lt_of_le hr' (Nat.le_trans hr hm)
  · exact plainField_alike htable brackets usage type htoken

/-- Fields are read alike if parameters are. -/
theorem field_alike (htable : K.table symbols symbols') {bound bound' : Nat}
    (hlist : ∀ r < l, K.ReadsAlike r Same (fieldList symbols bound .parameters)
      (fieldList symbols' bound' .parameters))
    (brackets : Brackets) (h : K.Read n l t u) :
    K.ReadsAlike l Same (field symbols (bound + 1) brackets t)
      (field symbols' (bound' + 1) brackets u) := by
  rw [field_succ, field_succ]
  dsimp only
  rw [h.matched.text]
  refine .ite Iff.rfl (fun _ => ?_) fun _ => fieldAfterUsage_alike htable hlist brackets _ h
  refine skipArguments_alike.same_bind fun r _ hr => ?_
  refine ReadsAlike.next.read_bind fun r' following p hread => ?_
  refine fieldAfterUsage_alike htable (fun m hm => hlist m ?_) brackets _ hread
  exact Nat.lt_of_lt_of_le hm (Nat.le_trans hread.le hr)

/-- Lists of fields are read alike. -/
theorem fieldList_alike (htable : K.table symbols symbols') (brackets : Brackets) (hb : n < b)
    (hb' : n < b') :
    K.ReadsAlike n Same (fieldList symbols b brackets) (fieldList symbols' b' brackets) := by
  induction b using Nat.strongRecOn generalizing n b' brackets with
  | ind b ih =>
  cases b with
  | zero => exact absurd hb (Nat.not_lt_zero n)
  | succ b =>
  cases b' with
  | zero => exact absurd hb' (Nat.not_lt_zero n)
  | succ b' =>
  have hlist (brackets : Brackets) {m : Nat} (hm : m < b) (hm' : m < b') :
      K.ReadsAlike m Same (fieldList symbols b brackets) (fieldList symbols' b' brackets) :=
    ih b (Nat.lt_succ_self b) brackets hm hm'
  rw [fieldList, fieldList]
  refine ReadsAlike.next.read_bind fun l token p htoken => ?_
  refine .ite Iff.rfl (fun _ => .pure rfl) fun _ => ?_
  refine .ite Iff.rfl (fun _ => .fail htoken.matched _ _) fun hkind => ?_
  have hl : l < b := htoken.lt_of_le (Nat.le_of_lt_succ hb) hkind
  have hl' : l < b' := htoken.lt_of_le (Nat.le_of_lt_succ hb') hkind
  refine .ite Iff.rfl (fun _ => ?_) fun _ => .ite Iff.rfl (fun _ => ?_) fun _ => ?_
  · exact (hlist brackets hl hl').same_bind fun _ rest _ => .pure rfl
  · exact hlist brackets hl hl'
  refine .ite Iff.rfl (fun _ => ?_) fun _ => ?_
  · refine ReadsAlike.expect.bind fun r₁ _ _ hr₁ _ => ?_
    refine (hlist .members (Nat.lt_of_le_of_lt hr₁ hl) (Nat.lt_of_le_of_lt hr₁ hl')).same_bind
      fun r₂ members hr₂ => ReadsAlike.expect.bind fun r₃ _ _ hr₃ _ => ?_
    have hr₃ := Nat.le_trans hr₃ (Nat.le_trans hr₂ hr₁)
    refine (hlist brackets (Nat.lt_of_le_of_lt hr₃ hl) (Nat.lt_of_le_of_lt hr₃ hl')).same_bind ?_
    exact fun _ rest _ => .pure rfl
  · -- the parameters of a field are read with a bound that is smaller by two
    cases b with
    | zero => exact absurd hl (Nat.not_lt_zero l)
    | succ b =>
    cases b' with
    | zero => exact absurd hl' (Nat.not_lt_zero l)
    | succ b' =>
    refine (field_alike htable (fun r hr => ?_) brackets htoken).same_bind fun r entry hr => ?_
    · exact ih b (Nat.lt_succ_of_lt (Nat.lt_succ_self b)) .parameters
        (Nat.lt_of_lt_of_le hr (Nat.le_of_lt_succ hl)) (Nat.lt_of_lt_of_le hr (Nat.le_of_lt_succ hl'))
    · refine .ite Iff.rfl (fun _ => .pure rfl) fun _ => ?_
      exact (hlist brackets (Nat.lt_of_le_of_lt hr hl) (Nat.lt_of_le_of_lt hr hl')).same_bind
        fun _ rest _ => .pure rfl

/-- Lists that have just been opened are read alike. -/
theorem fields_alike (htable : K.table symbols symbols') (brackets : Brackets) :
    K.ReadsAlike n Same (fields symbols brackets) (fields symbols' brackets) :=
  .ahead_bind fun _ _ _ _ hb hb' =>
    fieldList_alike htable brackets (Nat.lt_succ_of_le hb) (Nat.lt_succ_of_le hb')

end SdkBindings.Comparison

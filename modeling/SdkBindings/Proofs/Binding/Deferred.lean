import SdkBindings.Proofs.Binding.Attaching
import SdkBindings.Proofs.Comparison.LineEnds

/-!
# Deferred binding

An interface identifier and a table of methods belong to a struct by name, wherever in the header they
stand.  `readHeader_deferred` says so for every header that consists of complete declarations
(`HeaderConsists`), which are the headers that are read without a failure
(`exists_headerConsists_iff`).

The proof goes through the sum of the items: what has been collected at the end of the header is a
list of items with their names, and membership in such a list knows no order.
-/

namespace SdkBindings.Grammar

/-! ## Headers made of declarations -/

/-- The text of a header can be cut into tokens, and its declarations add the items, given the
constants known before. -/
def HeaderConsists (file source : String) (s : Session) (items : List Item) : Prop :=
  ∃ body eof s', (Lexer.lex file source).tokens? = .ok (body ++ [eof]) ∧ eof.kind = .eof ∧
    Consists ⟨file, [], body, eof⟩ s items s'

/-- The names of interface identifiers that are neither structs nor tables, in order. -/
def unmatchedNames (items : List Item) : List String :=
  ((items.filterMap Item.identifier?).map Prod.fst).filter fun name =>
    !((items.filterMap Item.struct?).any fun p => p.1 = name) &&
      !((items.filterMap Item.table?).any fun p => p.1 = name)

/-- What comes of a header once its declarations have been read. -/
theorem run_headerOfCursor (strict : Bool) {c c' : Cursor} {s s' : Session} {draft : Draft}
    (h : (declarations (c.ahead.length + 1) ⟨.empty c.file, [], []⟩).exec c s =
      (.ok (draft, c'), s')) :
    ((headerOfCursor strict c).run s).1 =
      match strict, draft.unmatched with
      | true, name :: _ => .error (.unresolvedGuid draft.header.file name)
      | _, _ => .ok draft.finish := by
  unfold headerOfCursor
  rw [run_bind, show ExceptT.run (declarations _ _ c) s = _ from h]
  dsimp only
  rw [run_bind, checkGuids]
  cases draft.unmatched with
  | nil => cases strict <;> rfl
  | cons name rest => cases strict <;> rfl

/-- A header that consists of items is read to the sum of them. -/
theorem HeaderConsists.readHeader {file source : String} {s : Session} {items : List Item}
    (h : HeaderConsists file source s items) (strict : Bool) :
    (readHeader strict file source s).1 =
      match strict, (draftOf file items).unmatched with
      | true, name :: _ => .error (.unresolvedGuid file name)
      | _, _ => .ok (draftOf file items).finish := by
  obtain ⟨body, eof, s', htokens, heof, hconsists⟩ := h
  obtain ⟨c', hread⟩ := hconsists.exec heof (Nat.lt_succ_self _) ⟨.empty file, [], []⟩
  have hrun := run_headerOfCursor strict hread
  rw [show (items.foldl Draft.add _).header.file = file from file_draftOf file items] at hrun
  rw [readHeader_eq_readTokens strict htokens, readTokens, Cursor.ofTokens?_concat file body heof]
  exact hrun

/-- The headers that consist of items are those that are read without a failure. -/
theorem exists_headerConsists_iff (file source : String) (s : Session) :
    (∃ items, HeaderConsists file source s items) ↔
      ∃ h, (readHeader false file source s).1 = .ok h := by
  constructor
  · rintro ⟨items, h⟩
    exact ⟨_, h.readHeader false⟩
  · rintro ⟨h, hread⟩
    rw [readHeader, header] at hread
    cases htokens : (Lexer.lex file source).tokens? with
    | error e =>
      rw [htokens] at hread
      cases hread
    | ok tokens =>
      obtain ⟨body, eof, rfl, heof, -⟩ := isTokenized_of_tokens? htokens
      rw [htokens] at hread
      dsimp only at hread
      rw [Cursor.ofTokens?_concat file body heof] at hread
      obtain ⟨⟨draft, c'⟩, s', hdeclarations, -⟩ :=
        run_bind_ok (show (headerOfCursor false _).run s = (.ok h, _) from Prod.ext hread rfl)
      obtain ⟨items, hconsists, -⟩ := exists_consists hdeclarations heof (Nat.lt_succ_self _)
      exact ⟨items, body, eof, s', htokens, heof, hconsists⟩

/-! ## Binding -/

/-- The identifiers that match nothing are those of the items. -/
theorem unmatched_draftOf (file : String) {items : List Item}
    (hidentifiers : ((items.filterMap Item.identifier?).map Prod.fst).Nodup)
    (htables : ((items.filterMap Item.table?).map Prod.fst).Nodup) :
    (draftOf file items).unmatched = unmatchedNames items := by
  rw [Draft.unmatched, structs_draftOf, guids_draftOf file hidentifiers, tables_draftOf file htables]
  simp only [List.any_map]
  rfl

/-- **Deferred binding.**  Let a header consist of declarations in which no interface is given an
identifier twice and no table of methods is declared twice.  Its structs and interfaces keep their
order; each has the identifier that some declaration gives it, and the table that some declaration
names after it, before or behind it.  When strict, the first identifier that belongs to nothing is a
failure, and without one the header is the same. -/
theorem readHeader_deferred {file source : String} {s : Session} {items : List Item}
    (hconsists : HeaderConsists file source s items)
    (hidentifiers : ((items.filterMap Item.identifier?).map Prod.fst).Nodup)
    (htables : ((items.filterMap Item.table?).map Prod.fst).Nodup) :
    ∃ h, (readHeader false file source s).1 = .ok h ∧
      h.structs.map (fun S => (S.ident, S.fields)) = items.filterMap Item.struct? ∧
      (∀ S ∈ h.structs,
        (∀ guid, guid ≠ "" → (S.guid = guid ↔ Item.identifier S.ident guid ∈ items)) ∧
        ∀ table, h.vtable? S = some table ↔
          ∃ members, Item.struct (S.ident ++ tableSuffix) members ∈ items ∧ isTable members ∧
            table = ⟨S.ident ++ tableSuffix, members.tail, "", none, none⟩) ∧
      (readHeader true file source s).1 =
        match (unmatchedNames items).head? with
        | some name => .error (.unresolvedGuid file name)
        | none => .ok h := by
  have hplain : ∀ t ∈ (draftOf file items).header.structs, t.vtable = none := by
    rw [structs_draftOf]
    intro t ht
    obtain ⟨p, -, rfl⟩ := List.mem_map.mp ht
    rfl
  obtain ⟨hstructs, hbound⟩ := finish_spec (draftOf file items) hplain
  rw [guids_draftOf file hidentifiers, tables_draftOf file htables] at hbound
  refine ⟨(draftOf file items).finish, hconsists.readHeader false, ?_, fun S hS => ⟨?_, ?_⟩, ?_⟩
  · rw [hstructs, structs_draftOf, List.map_map]
    exact List.map_id _
  · intro guid hne
    rw [← lookup_identifier hidentifiers, (hbound S hS).1]
    cases (items.filterMap Item.identifier?).lookup S.ident with
    | none => simpa using hne.symm
    | some found => simp
  · intro table
    rw [(hbound S hS).2]
    exact lookup_table htables _ table
  · rw [hconsists.readHeader true, unmatched_draftOf file hidentifiers htables]
    cases unmatchedNames items <;> rfl

/-! ## A header that is not in order -/

/-- A table of methods before its interface, whose identifier comes behind both, and an identifier
that belongs to nothing. -/
def crossedSource : String :=
  "typedef struct \x7b BEGIN_INTERFACE int x; \x7d IVtbl; interface I \x7b \x7d\n" ++
    "MIDL_INTERFACE(\"g\") I MIDL_INTERFACE(\"h\") J"

/-- Its tokens. -/
def crossedTokens : List Token :=
  [⟨.ident, "typedef", 1, 1⟩, ⟨.ident, "struct", 1, 9⟩, ⟨.punct, "\x7b", 1, 16⟩,
    ⟨.ident, "BEGIN_INTERFACE", 1, 18⟩, ⟨.ident, "int", 1, 34⟩, ⟨.ident, "x", 1, 38⟩,
    ⟨.punct, ";", 1, 39⟩, ⟨.punct, "\x7d", 1, 41⟩, ⟨.ident, "IVtbl", 1, 43⟩, ⟨.punct, ";", 1, 48⟩,
    ⟨.ident, "interface", 1, 50⟩, ⟨.ident, "I", 1, 60⟩, ⟨.punct, "\x7b", 1, 62⟩,
    ⟨.punct, "\x7d", 1, 64⟩, ⟨.newline, "\n", 1, 65⟩, ⟨.ident, "MIDL_INTERFACE", 2, 1⟩,
    ⟨.punct, "(", 2, 15⟩, ⟨.string, "\"g\"", 2, 16⟩, ⟨.punct, ")", 2, 19⟩, ⟨.ident, "I", 2, 21⟩,
    ⟨.ident, "MIDL_INTERFACE", 2, 23⟩, ⟨.punct, "(", 2, 37⟩, ⟨.string, "\"h\"", 2, 38⟩,
    ⟨.punct, ")", 2, 41⟩, ⟨.ident, "J", 2, 43⟩]

/-- The place behind some of its tokens. -/
def crossedPlace (k : Nat) : Cursor :=
  ⟨"a.h", (crossedTokens.take k).reverse, crossedTokens.drop k, ⟨.eof, "", 2, 44⟩⟩

/-- What it consists of, given the members of the table. -/
def crossedItems (members : List Field) : List Item :=
  [.struct "IVtbl" members, .interface "I" [], .identifier "I" "g", .identifier "J" "h"]

/-- A word at the cursor is a token that is passed. -/
theorem startsWord_of_passes {c c' : Cursor} {keyword : Token} (h : Passes c [keyword] c')
    (hcode : keyword.kind ≠ .eof) : StartsWord c keyword c' := by
  obtain ⟨rfl, rfl⟩ := h
  exact ⟨_, c.settle .code, rfl, hcode, congrArg Except.ok c.next_settle⟩

/-- Members that are read, known by their names. -/
theorem exists_fields_of_names {table : SymbolTable} {c c' : Cursor} {names : List String}
    (h : (fields table .members c).toOption.map (fun p => (p.1.map Field.name, p.2)) =
      some (names, c')) :
    ∃ members, fields table .members c = .ok (members, c') ∧ members.map Field.name = names := by
  cases hfields : fields table .members c with
  | error e =>
    rw [hfields] at h
    cases h
  | ok p =>
    rw [hfields] at h
    cases h
    exact ⟨p.1, rfl, rfl⟩

/-- It consists of its items. -/
theorem headerConsists_crossed :
    ∃ members, members.map Field.name = [tableMarker, "x"] ∧
      HeaderConsists "a.h" crossedSource .start (crossedItems members) := by
  have hlexed : (Lexer.lex "a.h" crossedSource).failure = none ∧
      (Lexer.lex "a.h" crossedSource).tokens = crossedTokens ++ [⟨.eof, "", 2, 44⟩] := by
    -- evaluated from the characters of the text, so that the kernel builds no bytes
    have hsource : crossedSource.toList = _ :=
      Lexer.toList_append_eq String.toList_ofList String.toList_ofList
    rw [Lexer.lex, hsource]
    decide +kernel
  have htokens : (Lexer.lex "a.h" crossedSource).tokens? =
      .ok (crossedTokens ++ [⟨.eof, "", 2, 44⟩]) := by
    rw [Lexer.Lexed.tokens?, hlexed.1, hlexed.2]
  obtain ⟨members, hmembers, hnames⟩ := @exists_fields_of_names .empty (crossedPlace 3)
    (crossedPlace 8) [tableMarker, "x"] (by decide +kernel)
  obtain ⟨others, hothers, hempty⟩ := @exists_fields_of_names .empty (crossedPlace 13)
    (crossedPlace 14) [] (by decide +kernel)
  obtain rfl := List.map_eq_nil_iff.mp hempty
  have htable : WritesStruct .empty (crossedPlace 1) "IVtbl" members (crossedPlace 10) :=
    ⟨⟨.ident, "struct", 1, 9⟩, ⟨.punct, "\x7b", 1, 16⟩, [], crossedPlace 3, crossedPlace 8,
      ⟨.ident, "IVtbl", 1, 43⟩, ⟨.punct, ";", 1, 48⟩, by decide +kernel, rfl, ⟨_, rfl, .inl rfl⟩,
      hmembers, by decide +kernel, rfl, rfl, rfl⟩
  have hinterface : WritesInterface .empty (crossedPlace 11) "I" [] (crossedPlace 14) :=
    ⟨⟨.ident, "I", 1, 60⟩, ⟨.punct, "\x7b", 1, 62⟩, crossedPlace 13, by decide +kernel, rfl,
      by decide, rfl, hothers, rfl⟩
  have hmatched : WritesIdentifier (crossedPlace 16) "I" "g" (crossedPlace 20) :=
    ⟨⟨.punct, "(", 2, 15⟩, ⟨.string, "\"g\"", 2, 16⟩, ⟨.punct, ")", 2, 19⟩, ⟨.ident, "I", 2, 21⟩,
      by decide +kernel, rfl, rfl, rfl, rfl, rfl, by decide +kernel⟩
  have hunmatched : WritesIdentifier (crossedPlace 21) "J" "h" (crossedPlace 25) :=
    ⟨⟨.punct, "(", 2, 37⟩, ⟨.string, "\"h\"", 2, 38⟩, ⟨.punct, ")", 2, 41⟩, ⟨.ident, "J", 2, 43⟩,
      by decide +kernel, rfl, rfl, rfl, rfl, rfl, by decide +kernel⟩
  have hword (k m : Nat) (word : Token) (h : Passes (crossedPlace k) [word] (crossedPlace m))
      (hcode : word.kind ≠ .eof) : StartsWord (crossedPlace k) word (crossedPlace m) :=
    startsWord_of_passes h hcode
  refine ⟨members, hnames, crossedTokens, _, .start, htokens, rfl, ?_⟩
  refine .next (hword 0 1 ⟨.ident, "typedef", 1, 1⟩ (by decide +kernel) (by decide))
    (.struct rfl htable) ?_
  refine .next (hword 10 11 ⟨.ident, "interface", 1, 50⟩ (by decide +kernel) (by decide))
    (.interface rfl hinterface) ?_
  refine .next (hword 14 16 ⟨.ident, "MIDL_INTERFACE", 2, 1⟩ (by decide +kernel) (by decide))
    (.identifier rfl hmatched) ?_
  exact .next (hword 20 21 ⟨.ident, "MIDL_INTERFACE", 2, 23⟩ (by decide +kernel) (by decide))
    (.identifier rfl hunmatched) (.done rfl)

/-- The interface gets its identifier and its table, and the other identifier is a failure when
strict. -/
theorem readHeader_deferred_crossed :
    ∃ h, (readHeader false "a.h" crossedSource .start).1 = .ok h ∧
      h.structs.map (fun S => (S.ident, S.fields)) = [("I", [])] ∧
      (∀ S ∈ h.structs, S.guid = "g" ∧
        ∃ table, h.vtable? S = some table ∧ table.fields.map Field.name = ["x"]) ∧
      (readHeader true "a.h" crossedSource .start).1 = .error (.unresolvedGuid "a.h" "J") := by
  obtain ⟨members, hnames, hconsists⟩ := headerConsists_crossed
  obtain ⟨marker, methods, rfl, hmarker, hmethods⟩ := List.map_eq_cons_iff.mp hnames
  have hmarked : isTable (marker :: methods) = true := decide_eq_true hmarker
  have hidentifiers : (crossedItems (marker :: methods)).filterMap Item.identifier? =
      [("I", "g"), ("J", "h")] := rfl
  have hstructs : (crossedItems (marker :: methods)).filterMap Item.struct? = [("I", [])] := by
    simp [crossedItems, Item.struct?, hmarked]
  have htables : (crossedItems (marker :: methods)).filterMap Item.table? =
      [("IVtbl", ⟨"IVtbl", methods, "", none, none⟩)] := by
    simp [crossedItems, Item.table?, hmarked]
  have hunmatched : unmatchedNames (crossedItems (marker :: methods)) = ["J"] := by
    simp [unmatchedNames, hidentifiers, hstructs, htables]
  obtain ⟨h, hok, hsame, hbound, hstrict⟩ :=
    readHeader_deferred hconsists (by simp [hidentifiers]) (by simp [htables])
  rw [hstructs] at hsame
  rw [hunmatched] at hstrict
  refine ⟨h, hok, hsame, fun S hS => ?_, hstrict⟩
  have hmem : (S.ident, S.fields) ∈ [("I", ([] : List Field))] :=
    hsame ▸ List.mem_map.mpr ⟨S, hS, rfl⟩
  have hident : S.ident = "I" := congrArg Prod.fst (List.mem_singleton.mp hmem)
  have hsuffix : "I" ++ tableSuffix = "IVtbl" := by decide +kernel
  obtain ⟨hguid, htable⟩ := hbound S hS
  rw [hident] at hguid htable
  rw [hsuffix] at htable
  refine ⟨(hguid "g" (by decide)).mpr ?_, _, (htable _).mpr ⟨_, List.mem_cons_self, hmarked, rfl⟩,
    hmethods⟩
  exact List.mem_cons_of_mem _ (List.mem_cons_of_mem _ List.mem_cons_self)

end SdkBindings.Grammar

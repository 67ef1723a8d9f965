import SdkBindings.Proofs.Literals.Quotation
import SdkBindings.Proofs.Module.TypeScope

/-!
# The introduction of a module

A module begins with a documentation between three marks at each end, which names the library and the
headers, and soon after it binds the name of the library to a literal.  All of these names are written as
they are.  Every module that is written begins so (`exists_introduced`), and the rest is about what its
reader finds there (`generate_library`).

The literal denotes the library exactly if its name is verbatim.  The documentation ends where it is
closed exactly if the library and all headers keep it open: the words between them have no marks, no
backslashes and no null characters, so that each name is read as if it stood alone.
-/

namespace SdkBindings.Module

/-! ## What a module begins with -/

/-- The documentation of a module. -/
def documentation (library : String) (project : Project) : String :=
  "ctypes bindings for " ++ (library ++ (".\n\nGenerated by com-header-bindgen from " ++
    (", ".intercalate (project.map Header.file) ++ ".\nDo not edit by hand.\n")))

/-- The literal for the library, and what follows on further lines. -/
def libraryLiteral (library after : String) : String :=
  "\"" ++ (library ++ ("\"\n" ++ after))

/-- What follows the documentation. -/
def statements (library after : String) : String :=
  "\n\nimport ctypes\n\n_DLL_NAME = " ++ libraryLiteral library after

/-- A module with its introduction. -/
def introduced (library : String) (project : Project) (after : String) : String :=
  "\"\"\"" ++ (documentation library project ++ ("\"\"\"" ++ statements library after))

/-- White space at the end does not reach beyond another character. -/
theorem reverse_dropWhile_reverse {p : Char → Bool} {c : Char} (hc : p c = false)
    (front rest : List Char) :
    ((front ++ c :: rest).reverse.dropWhile p).reverse =
      front ++ c :: (rest.reverse.dropWhile p).reverse := by
  rw [List.reverse_append, List.reverse_cons, List.append_assoc, List.dropWhile_append]
  cases rest.reverse.dropWhile p <;> simp [hc]

/-- The support code starts with a name. -/
theorem exists_intercalate_preamble (lines : List String) :
    ∃ rest, ("\n".intercalate (preamble :: lines)).toList = '_' :: rest := by
  obtain ⟨rest, hrest⟩ : ∃ rest, preamble.toList = '_' :: rest := by
    refine ⟨"dll = None\n".toList ++ ("\n".intercalate preambleLines.tail).toList, ?_⟩
    have hlines : preambleLines = "_dll = None" :: preambleLines.tail := rfl
    rw [preamble, hlines, String.intercalate_cons_of_ne_nil (by decide)]
    simp
  cases lines with
  | nil => exact ⟨rest, by simpa using hrest⟩
  | cons line lines => exact ⟨_, by rw [String.intercalate_cons_cons, String.toList_append,
      String.toList_append, hrest, List.cons_append, List.cons_append]⟩

/-- The lines of an introduction in one text. -/
theorem intercalate_introduction (library : String) (project : Project) (lines : List Line) :
    "\n".intercalate ((introduction library project ++ lines).map Line.render) =
      introduced library project ("\n".intercalate (preamble :: lines.map Line.render)) := by
  unfold introduction introduced documentation statements libraryLiteral
  generalize preamble = support
  apply String.toList_injective
  simp only [List.cons_append, List.nil_append, List.map_cons, Line.render_text, Line.blank,
    String.intercalate_cons_cons]
  simp only [String.toList_append]
  simp only [List.append_assoc, List.cons_append, List.nil_append, String.reduceToList]

theorem introduced_append (library : String) (project : Project) (after : String) :
    introduced library project after = introduced library project "" ++ after := by
  unfold introduced statements libraryLiteral
  simp only [String.append_assoc, String.empty_append]

/-- A module that is written begins with its introduction. -/
theorem exists_introduced {library : String} {maxSlots : Int} {project : Project} {text : String}
    {log : Log} (h : generate library maxSlots project = (.ok text, log)) :
    ∃ after, text = introduced library project after := by
  obtain ⟨t, ⟨lines, constants, below, written, w, w', -, rfl, -, -, hlines⟩, -⟩ := exists_typeLines h
  obtain ⟨more, rfl⟩ : ∃ more, lines = introduction library project ++ more :=
    ⟨_, by rw [hlines, List.append_assoc, List.append_assoc, List.append_assoc]⟩
  obtain ⟨rest, hrest⟩ := exists_intercalate_preamble (more.map Line.render)
  have hblank : Text.isBlank '_' = false := by decide
  refine ⟨String.ofList ('_' :: (rest.reverse.dropWhile Text.isBlank).reverse) ++ "\n", ?_⟩
  rw [renderLines, intercalate_introduction, introduced_append, String.toList_append, hrest,
    reverse_dropWhile_reverse hblank, String.ofList_append, String.ofList_toList, String.append_assoc,
    ← introduced_append]

/-! ## What is read in it -/

theorem toList_libraryLiteral (library after : String) : (libraryLiteral library after).toList =
    '"' :: (library.toList ++ '"' :: '\n' :: after.toList) := by
  simp [libraryLiteral]

/-- The documentation as names with words around them. -/
theorem toList_documentation (library : String) (project : Project) :
    (documentation library project).toList = "ctypes bindings for ".toList ++ (library.toList ++
      (".\n\nGenerated by com-header-bindgen from ".toList ++
        ([',', ' '].intercalate (project.map fun x => x.file.toList) ++
          (".\nDo not edit by hand.".toList ++ ['\n'])))) := by
  have hnames : (", ".intercalate (project.map Header.file)).toList =
      [',', ' '].intercalate (project.map fun x => x.file.toList) := by
    simp [Function.comp_def]
  have hend : ".\nDo not edit by hand.\n".toList = ".\nDo not edit by hand.".toList ++ ['\n'] := by
    decide
  unfold documentation
  rw [String.toList_append, String.toList_append, String.toList_append, String.toList_append, hnames,
    hend]

/-- The documentation stays open exactly if all names keep it open. -/
theorem staysOpen_documentation (library : String) (project : Project) :
    StaysOpen 3 (.marks 0) (documentation library project).toList ↔
      KeepsOpen library.toList ∧ ∀ x ∈ project, KeepsOpen x.file.toList := by
  have hend (r : Reading) : StaysOpen 3 r (".\nDo not edit by hand.".toList ++ ['\n']) :=
    staysOpen_of_isPlain (by decide)
  rw [toList_documentation, staysOpen_plain_append (by decide) (by decide), staysOpen_append,
    staysOpen_plain_append (by decide) (by decide), staysOpen_append, and_iff_left (hend _),
    staysOpen_intercalate, List.forall_mem_map, keepsOpen_iff]
  simp only [keepsOpen_iff]

/-- The documentation ends where it is closed exactly if all names keep it open. -/
theorem literal?_introduced_iff (library : String) (project : Project) (after : String) :
    literal? (introduced library project after).toList =
      some ((documentation library project).toList, (statements library after).toList) ↔
      KeepsOpen library.toList ∧ ∀ x ∈ project, KeepsOpen x.file.toList := by
  have hintroduced : (introduced library project after).toList = '"' :: '"' :: '"' ::
      ((documentation library project).toList ++ ['"', '"', '"'] ++
        (statements library after).toList) := by
    simp [introduced]
  have hafter : (Reading.marks 0).after (documentation library project).toList = .marks 0 := by
    rw [toList_documentation]
    simp only [← List.append_assoc]
    exact Reading.after_concat_of_isPlain (by decide)
  rw [hintroduced, literal?_three_iff hafter, staysOpen_documentation]

/-- **The library and the documentation.**  A module that is written begins with its introduction.  By the
rules of the generated language, whatever names it gives to characters, the literal in it denotes the
library exactly if the name of the library is verbatim, and the documentation before it ends where it is
closed exactly if the library and the headers keep it open. -/
theorem generate_library (named : List Char → Option Nat) {library : String} {maxSlots : Int}
    {project : Project} {text : String} {log : Log}
    (h : generate library maxSlots project = (.ok text, log)) :
    ∃ after, text = introduced library project after ∧
      (denoted? named (libraryLiteral library after).toList =
        some (library.toList.map Char.toNat, '\n' :: after.toList) ↔ IsVerbatim library.toList) ∧
      (literal? text.toList =
        some ((documentation library project).toList, (statements library after).toList) ↔
        KeepsOpen library.toList ∧ ∀ x ∈ project, KeepsOpen x.file.toList) := by
  obtain ⟨after, rfl⟩ := exists_introduced h
  refine ⟨after, rfl, ?_, literal?_introduced_iff library project after⟩
  rw [toList_libraryLiteral]
  exact denoted?_eq_iff named library.toList after.toList

/-- A path none of whose backslashes starts an escape. -/
theorem generate_library_verbatim :
    ∃ text log after,
      generate "C:\\Windows\\d3d11.dll" 12 [Header.empty "test.h"] = (.ok text, log) ∧
      text = introduced "C:\\Windows\\d3d11.dll" [Header.empty "test.h"] after ∧
      denoted? (fun _ => none) (libraryLiteral "C:\\Windows\\d3d11.dll" after).toList =
        some ("C:\\Windows\\d3d11.dll".toList.map Char.toNat, '\n' :: after.toList) ∧
      literal? text.toList =
        some ((documentation "C:\\Windows\\d3d11.dll" [Header.empty "test.h"]).toList,
          (statements "C:\\Windows\\d3d11.dll" after).toList) := by
  have hok : (generate "C:\\Windows\\d3d11.dll" 12 [Header.empty "test.h"]).1.isOk = true := by
    decide +kernel
  obtain ⟨text, log, hgenerate⟩ := exists_text_of_isOk hok
  obtain ⟨after, htext, hlibrary, hdocumentation⟩ := generate_library (fun _ => none) hgenerate
  exact ⟨text, log, after, hgenerate, htext, hlibrary.mpr (by decide), hdocumentation.mpr (by decide)⟩

/-- A path with a backslash before an `n`: the literal denotes a line end instead. -/
theorem generate_library_lineFeed :
    ∃ text log after, generate "C:\\new.dll" 12 [Header.empty "test.h"] = (.ok text, log) ∧
      text = introduced "C:\\new.dll" [Header.empty "test.h"] after ∧
      ∀ named, denoted? named (libraryLiteral "C:\\new.dll" after).toList =
          some ("C:\new.dll".toList.map Char.toNat, '\n' :: after.toList) ∧
        denoted? named (libraryLiteral "C:\\new.dll" after).toList ≠
          some ("C:\\new.dll".toList.map Char.toNat, '\n' :: after.toList) := by
  have hok : (generate "C:\\new.dll" 12 [Header.empty "test.h"]).1.isOk = true := by
    decide +kernel
  obtain ⟨text, log, hgenerate⟩ := exists_text_of_isOk hok
  obtain ⟨after, htext⟩ := exists_introduced hgenerate
  refine ⟨text, log, after, hgenerate, htext, fun named => ?_⟩
  have hone : ¬ ['"', '"'] <+: "C:\\new.dll".toList ++ '"' :: '\n' :: after.toList := by
    simp
  have hliteral : literal? (libraryLiteral "C:\\new.dll" after).toList =
      some ("C:\\new.dll".toList, '\n' :: after.toList) := by
    rw [toList_libraryLiteral]
    exact (literal?_one_iff hone).mpr ⟨rfl, rfl⟩
  have hcodes : codes? named 0 "C:\\new.dll".toList = some ("C:\new.dll".toList.map Char.toNat) := rfl
  have hdenoted : denoted? named (libraryLiteral "C:\\new.dll" after).toList =
      some ("C:\new.dll".toList.map Char.toNat, '\n' :: after.toList) := by
    rw [denoted?, hliteral, Option.bind_some]
    dsimp only
    rw [hcodes, Option.map_some]
  have hne : "C:\new.dll".toList.map Char.toNat ≠ "C:\\new.dll".toList.map Char.toNat := by
    decide
  refine ⟨hdenoted, fun h => hne ?_⟩
  rw [hdenoted] at h
  exact congrArg Prod.fst (Option.some.inj h)

end SdkBindings.Module

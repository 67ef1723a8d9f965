import SdkBindings.Proofs.Binding.Deferred
import SdkBindings.Proofs.Declared.Names
import SdkBindings.Proofs.Files.NameWords
import SdkBindings.Proofs.Run.Failing
import SdkBindings.Proofs.Transform.Passes

/-!
# The files a run writes

Besides its log a run writes a dump for every header and one module.  Both are named by sanitizing: a
dump for the stem of its header, the module for its configured name.

* The headers of a run are the platform's and the configured ones, each under the last name of its path
  (`files_of_buildProject`).  Their dumps are apart exactly if their stems have different words, and
  then no dump is touched once it has been written (`dumps_distinct`).
* A configuration is accepted with every identifier for the name of the module.  The module is called
  by that name exactly if the identifier is one of ASCII in which underscores stand alone between other
  characters (`module_named`).
-/

namespace SdkBindings

open SdkBindings.Tree

/-! ## Paths that are continued by one name -/

/-- The text is one name that leads down. -/
structure IsFileName (text : String) : Prop where
  /-- It holds no slash. -/
  noSlash : '/' ∉ text.toList
  /-- It leads somewhere. -/
  isName : Path.isName text.toList = true
  /-- It does not lead back. -/
  down : text ≠ ".."

/-- A file name is read as a path of one name. -/
theorem Path.ofString_of_isFileName {text : String} (h : IsFileName text) :
    Path.ofString text = ⟨.relative, [text]⟩ := by
  have hanchor : Path.anchorOf text.toList = .relative := by
    unfold Path.anchorOf
    cases htext : text.toList with
    | nil => rfl
    | cons c rest =>
      have hc : c ≠ '/' := by
        rintro rfl
        exact h.noSlash (by rw [htext]; exact List.mem_cons_self)
      rw [List.takeWhile_cons_of_neg (by simpa using hc)]
      rfl
  rw [Path.ofString, hanchor, Text.splitAt_of_not_mem h.noSlash, List.filter_cons_of_pos h.isName]
  simp

/-- A path that is continued by a file name ends in it. -/
theorem Path.child_of_isFileName {text : String} (h : IsFileName text) (base : Path) :
    base.child text = ⟨base.anchor, base.names ++ [text]⟩ := by
  rw [Path.child, Path.ofString_of_isFileName h, Path.join]

/-- Different file names continue a path to different paths. -/
theorem Path.child_inj_of_isFileName {text text' : String} (h : IsFileName text)
    (h' : IsFileName text') (base : Path) : base.child text = base.child text' ↔ text = text' := by
  rw [child_of_isFileName h, child_of_isFileName h']
  simp

/-- A path that is continued by a file name leads to a location that is called by it. -/
theorem Tree.head?_of_locate_child {t : Tree} {base : Path} {text : String} (htext : IsFileName text)
    {location : Location} (h : t.locate (base.child text) = .ok location) :
    location.head? = some text := by
  rw [Path.child_of_isFileName htext] at h
  unfold locate at h
  split at h
  · cases h
  split at h
  · cases h
  · exact head?_of_follow htext.down h

namespace FileName

/-- A sanitized name with an ending is a file name. -/
theorem isFileName_sanitize_append (name : String) {ending : String} (h : IsEnding ending) :
    IsFileName (sanitize name ++ ending) := by
  have hsafe : IsSafeName '_' (sanitize name).toList := isSafeName_sanitizeBy (by decide) name
  have hlong : 3 ≤ (sanitize name ++ ending).toList.length := by
    have hsome := List.length_pos_iff.mpr hsafe.ne_nil
    have hending := h.long
    rw [String.toList_append, List.length_append]
    omega
  refine ⟨?_, ?_, fun he => ?_⟩
  · rw [String.toList_append, List.mem_append, not_or]
    refine ⟨fun hslash => ?_, h.noSlash⟩
    rcases hsafe.safe _ hslash with hbad | hbad <;> exact absurd hbad (by decide)
  · rw [Path.isName, Bool.and_eq_true, decide_eq_true_eq, decide_eq_true_eq]
    constructor <;> intro he <;> rw [he] at hlong <;> exact absurd hlong (by decide)
  · rw [he] at hlong
    exact absurd hlong (by decide)

theorem isFileName_dump (header : String) : IsFileName (dump header) :=
  isFileName_sanitize_append _ isEnding_json

theorem isFileName_moduleFile (moduleName : String) : IsFileName (moduleFile moduleName) :=
  isFileName_sanitize_append _ isEnding_py

/-- Names with an ending are the same if they are without it. -/
theorem append_right_inj {a b ending : String} : a ++ ending = b ++ ending ↔ a = b := by
  rw [← String.toList_inj, ← String.toList_inj, String.toList_append, String.toList_append,
    List.append_cancel_right_eq]

/-- The words that the dump of a header is named by. -/
def dumpWords (header : String) : List (List Char) :=
  nameWords (Path.ofString header).stem

/-- Headers have the same dump exactly if their stems have the same words. -/
theorem dump_eq_iff {header header' : String} :
    dump header = dump header' ↔ dumpWords header = dumpWords header' := by
  rw [dump, dump, append_right_inj, sanitize_eq_iff, dumpWords, dumpWords]

end FileName

/-! ## The headers of a run -/

/-- Going on with a header keeps its name if the second change does. -/
theorem Transform.file_andThen {c : Change TransformError Note Header}
    {f : Header → Change TransformError Note Header} (h : (f c.value).value.file = c.value.file) :
    (c.andThen f id).value.file = c.value.file := by
  unfold Change.andThen
  split
  · rfl
  · exact h

/-- Bringing a header into shape keeps its name. -/
theorem Transform.file_transform (prefixes : List String) (h : Header) :
    (transform prefixes h).value.file = h.file := by
  have happly (pass : Pass) (x : Header) : (pass.apply prefixes x).value.file = x.file := by
    cases pass with
    | normalize => rfl
    | resolve => exact (enums_changeFields x).1
    | pair => exact (enums_changeFields x).1
    | erase => exact (enums_changeFields x).1
    | decompose => rfl
    | dedup => rfl
  have hall (passes : List Pass) (x : Header) : (applyAll prefixes passes x).value.file = x.file := by
    induction passes generalizing x with
    | nil => rfl
    | cons pass rest ih => rw [applyAll, file_andThen (ih _), happly]
  rw [transform, file_andThen rfl, hall]

namespace Grammar

/-- A header that has been read is called by the name it was read under. -/
theorem file_of_readHeader {strict : Bool} {file source : String} {session : Session} {h : Header}
    (hread : (readHeader strict file source session).1 = .ok h) : h.file = file := by
  obtain ⟨lexed, hlexed, ⟨-, rfl⟩ | ⟨c, draft, c', s, hcursor, hrun, rfl⟩⟩ := readHeader_cases hread
  · rfl
  · obtain ⟨body, eof, rfl, heof, -⟩ := isTokenized_of_tokens? hlexed
    rw [Cursor.ofTokens?_concat file body heof] at hcursor
    cases hcursor
    obtain ⟨items, -, rfl⟩ := exists_consists hrun heof (Nat.lt_succ_self _)
    exact file_draftOf file items

end Grammar

namespace Run

variable {α β : Type}

namespace Job

/-- A header that is read in the session of a run. -/
theorem yields_parse {reader : Grammar.Session → Except Grammar.Failure Header × Grammar.Session}
    {p : Header → Prop} (h : ∀ s header, (reader s).1 = .ok header → p header) :
    Yields p (parse reader) := by
  refine (Yields.any _).bind fun j _ => ?_
  have hreader := h ⟨j.symbols, []⟩
  rcases houtcome : reader ⟨j.symbols, []⟩ with ⟨result, session⟩
  rw [houtcome] at hreader
  refine (Yields.any _).bind fun _ _ => ?_
  cases result with
  | ok header => exact .pure (hreader header rfl)
  | error e => exact .throw _

/-- The header in a file is called by the last name of the path. -/
theorem yields_parseFile (job : Job) (path : Path) :
    Yields (fun header => header.file = path.name) (job.parseFile access path) :=
  ((Yields.any _).bind fun _ _ =>
    yields_parse fun _ _ hread => Grammar.file_of_readHeader hread).timed

/-- A header keeps its name. -/
theorem yields_process (job : Job) {name file : String} {parsing : Action (StateM Tree) Header}
    (h : Yields (fun header => header.file = file) parsing) :
    Yields (fun header => header.file = file) (job.process name parsing) := by
  refine (h.stage.bind fun header hfile => ?_).file
  have htransform : Yields (fun header => header.file = file) (job.transform header) := by
    refine (Yields.any _).bind fun _ _ => ?_
    split
    · exact .pure ((Transform.file_transform _ header).trans hfile)
    · exact .throw _
  exact htransform.stage.bind fun _ hfile => (Yields.any _).bind fun _ _ => .pure hfile

/-- The headers are processed in the order of their paths. -/
theorem yields_processAll (job : Job) (total done : Nat) (paths : List Path) :
    Yields (fun headers => headers.map Header.file = paths.map Path.name)
      (job.processAll access total done paths) := by
  induction paths generalizing done with
  | nil => exact .pure rfl
  | cons path rest ih =>
    refine (Yields.any _).bind fun _ _ => ?_
    refine (yields_process job (yields_parseFile job path)).bind fun header hfile => ?_
    refine (ih (done + 1)).bind fun more hmore => .pure ?_
    rw [List.map_cons, List.map_cons, hfile, hmore]

/-- The names of the headers of a run: that of the platform, and the last names of the configured
paths. -/
def files (job : Job) : List String :=
  Grammar.platformFile :: job.config.headerPaths.map Path.name

/-- The project of a run consists of these headers. -/
theorem files_of_buildProject {job : Job} {j j' : Journal} {t t' : Tree} {project : Project}
    (h : Action.on (job.buildProject access) j t = ((.ok project, j'), t')) :
    project.map Header.file = job.files := by
  have hplatform : Yields (fun header => header.file = Grammar.platformFile)
      (job.process Grammar.platformFile (parse (Grammar.readPlatform job.settings.strictGuids)) :
        Action (StateM Tree) Header) :=
    yields_process job (yields_parse fun _ _ hread => Grammar.file_of_readHeader hread)
  have hproject : Yields (fun project : Project => project.map Header.file = job.files)
      (job.buildProject access) := by
    refine (hplatform.bind fun platform hfile => ?_).timed
    refine (yields_processAll job _ _ _).bind fun headers hfiles => .pure ?_
    rw [List.map_cons, hfile, hfiles, files]
  exact hproject j t project j' t' h

/-! ## Dumps -/

/-- Two headers have the same dump in every directory, or in none. -/
theorem dumpPath_eq_iff (job : Job) (output : Path) (header header' : String) :
    job.dumpPath output header = job.dumpPath output header' ↔
      FileName.dumpWords header = FileName.dumpWords header' := by
  rw [dumpPath, dumpPath, Path.child_inj_of_isFileName (FileName.isFileName_dump header)
    (FileName.isFileName_dump header'), FileName.dump_eq_iff]

/-- Functions that identify the same items map a list to different items alike. -/
theorem nodup_map_iff {γ : Type} {f : α → β} {g : α → γ} (h : ∀ a b, f a = f b ↔ g a = g b)
    (xs : List α) : (xs.map f).Nodup ↔ (xs.map g).Nodup := by
  rw [List.Nodup, List.Nodup, List.pairwise_map, List.pairwise_map]
  exact List.Pairwise.iff fun a b => not_congr (h a b)

/-- The locations that the path of a dump leads to, in some tree. -/
def IsDumpOf (job : Job) (output : Path) (header : String) (location : Location) : Prop :=
  ∃ t : Tree, t.locate (job.dumpPath output header) = .ok location

/-- Dumps with different paths are at different locations, whatever tree they are looked for in. -/
theorem IsDumpOf.path_eq {job : Job} {output : Path} {header header' : String} {location : Location}
    (h : job.IsDumpOf output header location) (h' : job.IsDumpOf output header' location) :
    job.dumpPath output header = job.dumpPath output header' := by
  obtain ⟨t, hlocate⟩ := h
  obtain ⟨t', hlocate'⟩ := h'
  have hname := head?_of_locate_child (FileName.isFileName_dump header) hlocate
  have hname' := head?_of_locate_child (FileName.isFileName_dump header') hlocate'
  rw [hname] at hname'
  rw [dumpPath, dumpPath, Option.some.inj hname']

/-- The dumps of a project are those of its headers' names. -/
theorem dumpPaths_of_buildProject {job : Job} {j j' : Journal} {t t' : Tree} {project : Project}
    (h : Action.on (job.buildProject access) j t = ((.ok project, j'), t')) (output : Path) :
    (project.map fun header => job.dumpPath output header.file) =
      job.files.map (job.dumpPath output) := by
  rw [← files_of_buildProject h, List.map_map, Function.comp_def]

/-- **Dumps of a run.**  A run that reads its headers has one for the platform and one for each
configured path, called by the last name.  Their dumps have different paths exactly if the stems of
these names have different words.  Then no dump is touched by those that are written after it. -/
theorem dumps_distinct {job : Job} {j j' : Journal} {t t' : Tree} {project : Project}
    (h : Action.on (job.buildProject access) j t = ((.ok project, j'), t')) (output : Path) :
    project.map Header.file = job.files ∧
      ((project.map fun header => job.dumpPath output header.file).Nodup ↔
        (job.files.map FileName.dumpWords).Nodup) ∧
      ((job.files.map FileName.dumpWords).Nodup →
        ∀ before header after, project = before ++ header :: after →
          Keeps (job.IsDumpOf output header.file) (after.forM (job.writeDump access output))) := by
  have hnodup : (project.map fun header => job.dumpPath output header.file).Nodup ↔
      (job.files.map FileName.dumpWords).Nodup := by
    rw [dumpPaths_of_buildProject h]
    exact nodup_map_iff (job.dumpPath_eq_iff output) job.files
  refine ⟨files_of_buildProject h, hnodup, fun hwords before header after hproject => ?_⟩
  refine keeps_forM_writeDump fun other hother => keeps_writeDump fun t location hlocate hdump => ?_
  have hpaths := hnodup.mpr hwords
  rw [hproject, List.map_append, List.map_cons, List.nodup_append] at hpaths
  have hnew := (List.nodup_cons.mp hpaths.2.1).1
  have hsame : job.dumpPath output header.file = job.dumpPath output other.file :=
    hdump.path_eq ⟨t, hlocate⟩
  rw [hsame] at hnew
  exact hnew (List.mem_map_of_mem (f := fun header : Header => job.dumpPath output header.file) hother)

/-- A working directory with headers that define a constant each. -/
def definingTree (headers : List String) : Tree where
  home := ["home"]
  nodes := (["home"], .directory) :: (["inc", "home"], .directory) ::
    headers.map fun name => ([name, "inc", "home"], .file (Text.bytes "#define ONE 1\n"))

/-- What a run for these headers is about. -/
def definingJob (headers : List String) : Job :=
  ⟨(Configuration.ofEnvironment []).choose
    { includeDirectory := some (.ofString "inc"), headers := some headers }, "d3d11", .ofEnvironment []⟩

/-- A run that gets through its headers gives a project. -/
theorem exists_project (job : Job) (t : Tree)
    (h : (Action.on (job.buildProject access) .start t).1.1.toOption.isSome = true) :
    ∃ project j' t', Action.on (job.buildProject access) .start t = ((.ok project, j'), t') := by
  generalize Action.on (job.buildProject access) .start t = outcome at h ⊢
  obtain ⟨⟨e | project, j'⟩, t'⟩ := outcome
  · cases h
  · exact ⟨project, j', t', rfl⟩

/-- The dumps of the headers `a.h` and `a-b.h` stay as they are written. -/
theorem dumps_distinct_two : ∃ project j' t',
    Action.on ((definingJob ["a.h", "a-b.h"]).buildProject access) .start
      (definingTree ["a.h", "a-b.h"]) = ((.ok project, j'), t') ∧
    (project.map fun header =>
      (definingJob ["a.h", "a-b.h"]).dumpPath (.ofString "dist") header.file).Nodup ∧
    ∀ before header after, project = before ++ header :: after →
      Keeps ((definingJob ["a.h", "a-b.h"]).IsDumpOf (.ofString "dist") header.file)
        (after.forM ((definingJob ["a.h", "a-b.h"]).writeDump access (.ofString "dist"))) := by
  obtain ⟨project, j', t', hproject⟩ := exists_project (definingJob ["a.h", "a-b.h"])
    (definingTree ["a.h", "a-b.h"]) (by
      -- evaluated from the lines of the platform, so that their text is not put together first
      rw [buildProject, Grammar.readPlatform_eq, Grammar.header, Lexer.lex, Grammar.platformSource,
        String.toList_intercalate]
      decide +kernel)
  obtain ⟨-, hnodup, hkeeps⟩ := dumps_distinct hproject (.ofString "dist")
  have hwords : ((definingJob ["a.h", "a-b.h"]).files.map FileName.dumpWords).Nodup := by
    decide +kernel
  exact ⟨project, j', t', hproject, hnodup.mpr hwords, hkeeps hwords⟩

/-- The headers `a.h` and `a.hpp` have one dump. -/
theorem dumps_clash : ["a.h", "a.hpp"].Nodup ∧ ∃ project j' t',
    Action.on ((definingJob ["a.h", "a.hpp"]).buildProject access) .start
      (definingTree ["a.h", "a.hpp"]) = ((.ok project, j'), t') ∧
    ¬ (project.map fun header =>
      (definingJob ["a.h", "a.hpp"]).dumpPath (.ofString "dist") header.file).Nodup := by
  refine ⟨by decide, ?_⟩
  obtain ⟨project, j', t', hproject⟩ := exists_project (definingJob ["a.h", "a.hpp"])
    (definingTree ["a.h", "a.hpp"]) (by
      rw [buildProject, Grammar.readPlatform_eq, Grammar.header, Lexer.lex, Grammar.platformSource,
        String.toList_intercalate]
      decide +kernel)
  refine ⟨project, j', t', hproject, ?_⟩
  rw [dumpPaths_of_buildProject hproject]
  decide +kernel

end Job

end Run

/-! ## The module -/

namespace FileName

/-- What may stand in a file name is of ASCII. -/
theorem toNat_lt_of_isSafe {c : Char} (h : isSafe c = true) : c.toNat < 128 := by
  rw [isSafe] at h
  delta Char.isAlphanum Char.isAlpha Char.isUpper Char.isLower Char.isDigit at h
  simp only [Bool.or_eq_true, Bool.and_eq_true, decide_eq_true_eq, ge_iff_le,
    UInt32.le_iff_toNat_le] at h
  change (((((65 ≤ c.toNat ∧ c.toNat ≤ 90) ∨ (97 ≤ c.toNat ∧ c.toNat ≤ 122)) ∨
    (48 ≤ c.toNat ∧ c.toNat ≤ 57)) ∨ c = '_') ∨ c = '-') ∨ c = '.' at h
  rcases h with ((h | rfl) | rfl) | rfl
  · omega
  all_goals decide

/-- The characters of an identifier that may stand in a file name are those of ASCII. -/
theorem isSafe_iff_of_identifier {c : Char}
    (h : Text.isIdentifierStart c = true ∨ Text.isIdentifierContinue c = true) :
    isSafe c = true ↔ c.toNat < 128 := by
  constructor
  · exact toNat_lt_of_isSafe
  · intro hascii
    have hall : ∀ n < 128, Text.inside Text.identifierStartBoundaries n = true ∨
        Text.inside Text.identifierContinueBoundaries n = true → isSafe (Char.ofNat n) = true := by
      decide +kernel
    have hsafe := hall c.toNat hascii h
    rwa [Char.ofNat_toNat] at hsafe

/-- Every character of an identifier may start or continue one. -/
theorem of_mem_identifier {name : String} (h : Text.isIdentifier name = true) {c : Char}
    (hc : c ∈ name.toList) : Text.isIdentifierStart c = true ∨ Text.isIdentifierContinue c = true := by
  rw [Text.isIdentifier] at h
  split at h
  · cases h
  · next first rest htext =>
    rw [Bool.and_eq_true, List.all_eq_true] at h
    rw [htext] at hc
    rcases List.mem_cons.mp hc with rfl | hc
    · exact .inl h.1
    · exact .inr (h.2 c hc)

/-- A name that keeps its spelling in a file name, if it is an identifier: one of ASCII in which
underscores stand alone between other characters. -/
structure IsPlain (name : String) : Prop where
  /-- Its characters are those of ASCII. -/
  ascii : ∀ c ∈ name.toList, c.toNat < 128
  /-- It does not start with an underscore. -/
  first : name.toList.head? ≠ some '_'
  /-- It does not end with an underscore. -/
  last : name.toList.getLast? ≠ some '_'
  /-- No two underscores stand in a row. -/
  single : ¬ ['_', '_'] <:+: name.toList

/-- The plain identifiers are those that are safe names. -/
theorem isSafeName_iff_isPlain {name : String} (h : Text.isIdentifier name = true) :
    IsSafeName '_' name.toList ↔ IsPlain name := by
  have hletters {c : Char} (hc : c ∈ name.toList) := isSafe_iff_of_identifier (of_mem_identifier h hc)
  constructor
  · intro hsafe
    refine ⟨fun c hc => ?_, hsafe.first, hsafe.last, hsafe.single⟩
    rcases hsafe.safe c hc with hc' | rfl
    · exact (hletters hc).mp hc'
    · decide
  · intro hplain
    refine ⟨?_, fun c hc => .inl ((hletters hc).mpr (hplain.ascii c hc)), hplain.first, hplain.last,
      hplain.single⟩
    intro hnil
    rw [Text.isIdentifier, hnil] at h
    cases h

/-- The file of a module has the words of its name. -/
theorem toList_moduleFile (moduleName : String) :
    (moduleFile moduleName).toList = ['_'].intercalate (nameWords moduleName) ++ ".py".toList := by
  rw [moduleFile, String.toList_append, toList_sanitize]

end FileName

/-- A computation that may fail, and that comes to something after another one. -/
theorem Tree.exists_of_run_bind_ok {ε α β : Type} {m : ExceptT ε (StateM Tree) α}
    {k : α → ExceptT ε (StateM Tree) β} {t : Tree} {b : β} (h : ((m >>= k).run t).1 = .ok b) :
    ∃ a t', ((k a).run t').1 = .ok b := by
  rw [ExceptT.run_bind, bind_apply] at h
  rcases hfirst : m.run t with ⟨_ | a, t'⟩ <;> rw [hfirst] at h
  · cases h
  · exact ⟨a, t', h⟩

/-- A configuration that is accepted gives an identifier for the name of the module. -/
theorem Configuration.isIdentifier_of_check {config : Configuration} {t : Tree} {name : String}
    (h : ((config.check access).run t).1 = .ok name) :
    config.moduleName = some name ∧ Text.isIdentifier name = true := by
  unfold check at h
  obtain ⟨_, t₁, h⟩ := exists_of_run_bind_ok h
  dsimp only at h
  split at h
  · cases h
  split at h
  · cases h
  obtain ⟨missing, t₂, h⟩ := exists_of_run_bind_ok h
  split at h
  · cases h
  unfold checkModuleName at h
  split at h
  · cases h
  · next name' hname =>
    split at h <;> cases h
    exact ⟨hname, ‹_›⟩

/-- **The module of a run.**  A configuration that is accepted has an identifier for the name of the
module.  The module is written to the file of that name exactly if the identifier is plain; in any
case the file is called by the words of the name. -/
theorem Configuration.module_named {config : Configuration} {t : Tree} {name : String}
    (h : ((config.check access).run t).1 = .ok name) (settings : Settings) (output : Path) :
    config.moduleName = some name ∧
      (Run.Job.modulePath ⟨config, name, settings⟩ output).names =
        output.names ++ [FileName.moduleFile name] ∧
      (FileName.moduleFile name = name ++ ".py" ↔ FileName.IsPlain name) ∧
      (FileName.moduleFile name).toList =
        ['_'].intercalate (FileName.nameWords name) ++ ".py".toList := by
  obtain ⟨hname, hidentifier⟩ := isIdentifier_of_check h
  refine ⟨hname, ?_, ?_, FileName.toList_moduleFile name⟩
  · rw [Run.Job.modulePath, Path.child_of_isFileName (FileName.isFileName_moduleFile name)]
  · rw [FileName.moduleFile, FileName.append_right_inj, FileName.sanitize,
      FileName.sanitizeBy_eq_self_iff (by decide), FileName.isSafeName_iff_isPlain hidentifier]

/-- The module `d3d11` is written to the file of that name. -/
theorem Configuration.module_named_d3d11 :
    ((Run.Job.definingJob ["a.h"]).config.check access |>.run (Run.Job.definingTree ["a.h"])).1 =
      .ok "d3d11" ∧ FileName.moduleFile "d3d11" = "d3d11" ++ ".py" := by
  have hchecked : (((Run.Job.definingJob ["a.h"]).config.check access).run
      (Run.Job.definingTree ["a.h"])).1.toOption = some "d3d11" := by
    decide +kernel
  have hcheck := eq_ok_of_toOption hchecked
  obtain ⟨-, -, hfile, -⟩ := module_named hcheck (.ofEnvironment []) (.ofString "dist")
  have hascii : "d3d11".toList.all (fun c => c.toNat < 128) = true := by decide
  have hplain : FileName.IsPlain "d3d11" := by
    refine ⟨fun c hc => ?_, by decide, by decide, by decide⟩
    exact of_decide_eq_true (List.all_eq_true.mp hascii c hc)
  exact ⟨hcheck, hfile.mpr hplain⟩

/-- The module `_private` is accepted and written to `private.py`. -/
theorem Configuration.module_renamed :
    (({ (Run.Job.definingJob ["a.h"]).config with moduleName := some "_private" }.check access).run
      (Run.Job.definingTree ["a.h"])).1 = .ok "_private" ∧
    FileName.moduleFile "_private" ≠ "_private" ++ ".py" := by
  have hchecked : (({ (Run.Job.definingJob ["a.h"]).config with
      moduleName := some "_private" }.check access).run
        (Run.Job.definingTree ["a.h"])).1.toOption = some "_private" := by
    decide +kernel
  exact ⟨eq_ok_of_toOption hchecked, by decide +kernel⟩

end SdkBindings

import Mathlib.Algebra.BigOperators.Group.List.Basic
import Mathlib.Data.List.DropRight
import SdkBindings.Run.Stages

/-!
# Tracked work is balanced

What a run tracks is built from few parts: stages and files, which nest, declarations that are counted,
everything tracked set back, and failures, which may be caught at any outer place.  `Work` is any program
of these parts, and `Work.run` runs it with the operations of `Run.Stages`.  What happens then is known
without running it: whether it fails does not depend on the blocks (`Work.failure?`), and what is
reported and counted follows from its course, a tree with a node for each visit of a block
(`Work.course`).

A run follows its course (`Work.leadsTo`).  The induction is over the work and needs the journal to be
arbitrary, since a block is entered with more stages open than there were before it.  That a block is
left as it was entered is one lemma for stages and files and for both ways of leaving (`LeadsTo.block`).
What is tracked may be set back only while no stage is open: the stages would be lost otherwise, and
leaving a block whose stage is lost fails by itself.

The failures are those a part of a run can end with (`Failure`), which stand for ordinary exceptions.  An
interrupt or an exit, which the tracker lets pass without a report, is none of them.
-/

namespace SdkBindings.Run

/-! ## Programs -/

/-- What is entered, left and reported around. -/
inductive Block where
  /-- A stage. -/
  | stage (name : String)
  /-- The work on a file. -/
  | file (name : String)
  deriving DecidableEq, Repr

/-- Work that is tracked. -/
inductive Work where
  /-- Does nothing. -/
  | nothing
  /-- Reports something of its own that is no failure. -/
  | say (entry : LogEntry) (quiet : entry.level ≠ .error)
  /-- Counts declarations. -/
  | count (n : Int)
  /-- Fails. -/
  | fail (e : Failure)
  /-- Sets everything that is tracked back. -/
  | reset
  /-- One after the other. -/
  | seq (first second : Work)
  /-- Catches a failure and goes on, or fails again. -/
  | recover (body : Work) (handler : Failure → Work)
  /-- Work in a block. -/
  | block (b : Block) (body : Work)

/-- Runs work in a block. -/
def Block.run {m : Type → Type} [Monad m] (body : Action m Unit) : Block → Action m Unit
  | .stage name => Run.stage name body
  | .file name => Run.file name body

/-- Runs work. -/
def Work.run (m : Type → Type) [Monad m] : Work → Action m Unit
  | .nothing => pure ()
  | .say entry _ => report [entry]
  | .count n => advance fun p => p.count n
  | .fail e => throw e
  | .reset => advance fun _ => .start
  | .seq first second => do
    first.run m
    second.run m
  | .recover body handler => tryCatch (body.run m) fun e => (handler e).run m
  | .block b body => b.run (body.run m)

/-! ## What happens -/

/-- The failure that work ends with.  Blocks have no part in it. -/
def Work.failure? : Work → Option Failure
  | .nothing | .say _ _ | .count _ | .reset => none
  | .fail e => some e
  | .seq first second => first.failure?.or second.failure?
  | .recover body handler => body.failure?.bind fun e => (handler e).failure?
  | .block _ body => body.failure?

/-- The result of work that ends with a failure, or without one. -/
def resultOf : Option Failure → Except Failure Unit
  | none => .ok ()
  | some e => .error e

/-- What happens in the course of work. -/
inductive Course where
  /-- Nothing. -/
  | nothing
  /-- Something is reported that is no failure. -/
  | said (entry : LogEntry) (quiet : entry.level ≠ .error)
  /-- Declarations are counted. -/
  | counted (n : Int)
  /-- What is tracked is set back. -/
  | reset
  /-- One thing happens after the other. -/
  | both (first second : Course)
  /-- A block is entered, something happens inside and it is left, by a failure or without one. -/
  | visit (b : Block) (inside : Course) (failed : Option Failure)

/-- What happens when work runs. -/
def Work.course : Work → Course
  | .nothing | .fail _ => .nothing
  | .say entry quiet => .said entry quiet
  | .count n => .counted n
  | .reset => .reset
  | .seq first second =>
    match first.failure? with
    | none => .both first.course second.course
    | some _ => first.course
  | .recover body handler =>
    match body.failure? with
    | none => body.course
    | some e => .both body.course (handler e).course
  | .block b body => .visit b body.course body.failure?

/-- The failures of work, each with the blocks it leaves, innermost first: those around the place where
the work fails, up to the place where the failure is caught. -/
def Work.escapes (outer : List Block) : Work → List (Failure × List Block)
  | .nothing | .say _ _ | .count _ | .reset => []
  | .fail e => [(e, outer)]
  | .seq first second =>
    match first.failure? with
    | none => first.escapes outer ++ second.escapes outer
    | some _ => first.escapes outer
  | .recover body handler =>
    match body.failure? with
    | none => body.escapes []
    | some e => body.escapes [] ++ (handler e).escapes outer
  | .block b body => body.escapes (b :: outer)

/-- Nothing is set back while a stage is open. -/
def Course.ResetsIdle (isOpen : Prop) : Course → Prop
  | .nothing | .said _ _ | .counted _ => True
  | .reset => ¬ isOpen
  | .both first second => first.ResetsIdle isOpen ∧ second.ResetsIdle isOpen
  | .visit (.stage _) inside _ => inside.ResetsIdle True
  | .visit (.file _) inside _ => inside.ResetsIdle isOpen

/-! ## What is counted -/

/-- What the counters take note of. -/
inductive Tally where
  /-- A file is entered. -/
  | file
  /-- Declarations are counted. -/
  | declarations (n : Int)
  /-- The counters are set back. -/
  | reset
  deriving DecidableEq, Repr

/-- How many files are counted. -/
def Tally.files : Tally → Nat
  | .file => 1
  | .declarations _ | .reset => 0

/-- How many declarations are counted. -/
def Tally.produced : Tally → Int
  | .declarations n => n
  | .file | .reset => 0

/-- What the counters take note of, in order. -/
def Course.tallies : Course → List Tally
  | .nothing | .said _ _ => []
  | .counted n => [.declarations n]
  | .reset => [.reset]
  | .both first second => first.tallies ++ second.tallies
  | .visit (.stage _) inside _ => inside.tallies
  | .visit (.file _) inside _ => .file :: inside.tallies

/-- What comes after the counters were last set back. -/
def sinceReset (ts : List Tally) : List Tally :=
  ts.rtakeWhile (· ≠ .reset)

/-- A counter after what it takes note of: what it counts since it was last set back, on top of what it
showed before if it was not. -/
def total {M : Type} [AddCommMonoid M] (weight : Tally → M) (before : M) (ts : List Tally) : M :=
  (if .reset ∈ ts then 0 else before) + ((sinceReset ts).map weight).sum

/-- How far a run has come after something has happened, with the stages that were open before. -/
def Course.after (p : Progress) (c : Course) : Progress :=
  ⟨total Tally.files p.files c.tallies, total Tally.produced p.declarations c.tallies, p.stages⟩

/-! ## What is reported -/

/-- How far a run has come inside a block that it enters. -/
def Block.enter (p : Progress) : Block → Progress
  | .stage name => { p with stages := p.stages ++ [name] }
  | .file _ => { p with files := p.files + 1 }

/-- What is reported when a block is entered. -/
def Block.opening (p : Progress) : Block → LogEntry
  | .stage name => debug ("Starting stage: " ++ " -> ".intercalate (p.stages ++ [name]))
  | .file name => debug ("Processing file #" ++ toString (p.files + 1) ++ ": " ++ name)

/-- What is reported when a block has ended by itself. -/
def Block.completed (produced : Int) : Block → LogEntry
  | .stage name => debug ("Completed stage: " ++ name ++ " in " ++ elapsed)
  | .file name =>
    debug (name ++ " completed in " ++ elapsed ++ " (" ++ toString produced ++ " declarations)")

/-- What is reported when a failure leaves a block. -/
def Block.failed (e : Failure) : Block → LogEntry
  | .stage name => failure ("Failed stage: " ++ name ++ " after " ++ elapsed ++ ": " ++ e.message)
  | .file name => failure (name ++ " failed after " ++ elapsed ++ ": " ++ e.message)

/-- What is reported when a block is left. -/
def Block.closing (b : Block) (produced : Int) : Option Failure → LogEntry
  | none => b.completed produced
  | some e => b.failed e

/-- What is reported in the course of work.  Each visit reports when it is entered and once when it is
left, and between these only what it encloses is reported. -/
def Course.log (p : Progress) : Course → Log
  | .nothing | .counted _ | .reset => []
  | .said entry _ => [entry]
  | .both first second => first.log p ++ second.log (first.after p)
  | .visit b inside failed =>
    [b.opening p] ++ inside.log (b.enter p) ++
      [b.closing ((inside.after (b.enter p)).declarations - p.declarations) failed]

/-! ## Counting in pieces -/

@[simp]
theorem sinceReset_nil : sinceReset [] = [] := rfl

theorem sinceReset_concat (ts : List Tally) (t : Tally) :
    sinceReset (ts ++ [t]) = if t = .reset then [] else sinceReset ts ++ [t] := by
  by_cases ht : t = .reset <;> simp [sinceReset, ht]

/-- What comes before a reset does not count. -/
theorem sinceReset_append (ts us : List Tally) :
    sinceReset (ts ++ us) = if .reset ∈ us then sinceReset us else sinceReset ts ++ us := by
  induction us using List.reverseRecOn with
  | nil => simp
  | append_singleton us t ih =>
    rw [← List.append_assoc, sinceReset_concat, sinceReset_concat, ih]
    by_cases ht : t = .reset
    · simp [ht]
    · by_cases hus : Tally.reset ∈ us <;> simp [ht, hus, Ne.symm ht]

theorem sinceReset_of_notMem {ts : List Tally} (h : .reset ∉ ts) : sinceReset ts = ts := by
  simpa [h] using sinceReset_append [] ts

section

variable {M : Type} [AddCommMonoid M] (weight : Tally → M) (before : M)

@[simp]
theorem total_nil : total weight before [] = before := by
  simp [total]

/-- A counter goes on from where it is. -/
theorem total_append (ts us : List Tally) :
    total weight before (ts ++ us) = total weight (total weight before ts) us := by
  unfold total
  rw [sinceReset_append]
  by_cases hus : Tally.reset ∈ us
  · simp [hus]
  · simp [hus, sinceReset_of_notMem hus, add_assoc]

@[simp]
theorem total_reset : total weight before [.reset] = 0 := by
  have hsince : sinceReset [.reset] = [] := rfl
  simp [total, hsince]

theorem total_cons {t : Tally} (ht : t ≠ .reset) (ts : List Tally) :
    total weight before (t :: ts) = total weight (before + weight t) ts := by
  have hsince : sinceReset [t] = [t] := sinceReset_of_notMem (by simpa using Ne.symm ht)
  have hone : total weight before [t] = before + weight t := by
    simp [total, hsince, Ne.symm ht]
  rw [← hone, ← total_append, List.singleton_append]

end

/-- One thing after the other takes a run as far as the second does from where the first has come. -/
theorem Course.after_both (p : Progress) (first second : Course) :
    (Course.both first second).after p = second.after (first.after p) := by
  simp only [Course.after, Course.tallies, total_append]

/-- A visit takes a run as far as what happens inside does, apart from the stages. -/
theorem Course.after_visit (p : Progress) (b : Block) (inside : Course) (failed : Option Failure) :
    (Course.visit b inside failed).after p = { inside.after (b.enter p) with stages := p.stages } := by
  cases b with
  | stage name => rfl
  | file name =>
    simp [Course.after, Course.tallies, Block.enter, total_cons, Tally.files, Tally.produced]

/-! ## Running -/

section

variable {m : Type → Type} [Monad m] {α β : Type}

/-- A part of a run has a result and leaves a journal behind. -/
def LeadsTo (x : Action m α) (j : Journal) (result : Except Failure α) (left : Journal) : Prop :=
  x.run.run j = pure (result, left)

variable {x : Action m α} {j k l : Journal}

theorem leadsTo_pure (a : α) : LeadsTo (pure a : Action m α) j (.ok a) j := rfl

theorem leadsTo_throw (e : Failure) : LeadsTo (throw e : Action m α) j (.error e) j := rfl

/-- A handler runs where the failure has come to. -/
theorem run_tryCatch (handler : Failure → Action m α) :
    (tryCatch x handler).run.run j = x.run.run j >>= fun (result, k) =>
      match result with
      | .ok a => pure (.ok a, k)
      | .error e => (handler e).run.run k := by
  change (x.run.run j >>= _) = _
  refine bind_congr fun (result, k) => ?_
  cases result <;> rfl

variable [LawfulMonad m]

theorem leadsTo_get : LeadsTo (getThe Journal : Action m Journal) j (.ok j) j := by
  change (Except.ok <$> (StateT.get : StateT Journal m Journal)).run j = _
  rw [StateT.run_map]
  exact map_pure _ (j, j)

theorem leadsTo_modify (f : Journal → Journal) :
    LeadsTo (modifyThe Journal f : Action m PUnit) j (.ok ⟨⟩) (f j) := by
  change (Except.ok <$> (StateT.modifyGet fun k => (⟨⟩, f k) : StateT Journal m PUnit)).run j = _
  rw [StateT.run_map]
  exact map_pure _ (PUnit.unit, f j)

theorem LeadsTo.bind {a : α} {next : α → Action m β} {result : Except Failure β}
    (hx : LeadsTo x j (.ok a) k) (hnext : LeadsTo (next a) k result l) :
    LeadsTo (x >>= next) j result l := by
  unfold LeadsTo at *
  simp [ExceptT.run_bind, hx, hnext]

theorem LeadsTo.bind_error {e : Failure} {next : α → Action m β} (hx : LeadsTo x j (.error e) k) :
    LeadsTo (x >>= next) j (.error e) k := by
  unfold LeadsTo at *
  simp [ExceptT.run_bind, hx]

theorem LeadsTo.tryCatch_ok {a : α} {handler : Failure → Action m α} (hx : LeadsTo x j (.ok a) k) :
    LeadsTo (tryCatch x handler) j (.ok a) k := by
  unfold LeadsTo at *
  rw [run_tryCatch, hx, pure_bind]

theorem LeadsTo.tryCatch_error {e : Failure} {handler : Failure → Action m α}
    {result : Except Failure α} (hx : LeadsTo x j (.error e) k)
    (hhandler : LeadsTo (handler e) k result l) : LeadsTo (tryCatch x handler) j result l := by
  unfold LeadsTo at *
  rw [run_tryCatch, hx, pure_bind]
  exact hhandler

/-- A part of a run keeps its result between an opening and a closing that does not break. -/
theorem LeadsTo.around {opening : Journal → Journal}
    {closing : Option String → Journal → Option Failure × Journal} {result : Except Failure α}
    (hx : LeadsTo x (opening j) result k) (hclosing : closing (failureText result) k = (none, l)) :
    LeadsTo (around opening closing x) j result l := by
  unfold LeadsTo at *
  simp [Run.around, hx, hclosing, settled]

/-- A part of a run keeps its result in a span that is entered and can be left. -/
theorem LeadsTo.within (enter : Progress → Span × Log × Progress) {result : Except Failure α}
    (hx : LeadsTo x ⟨j.log ++ (enter j.progress).2.1, (enter j.progress).2.2, j.symbols⟩ result k)
    (hleave : k.leave (enter j.progress).1 (failureText result) = (none, l)) :
    LeadsTo (within enter x) j result l := by
  unfold Run.within
  refine leadsTo_get.bind ?_
  exact hx.around hleave

end

/-! ## Runs follow their course -/

/-- A journal after something has happened. -/
def Course.follow (j : Journal) (c : Course) : Journal :=
  ⟨j.log ++ c.log j.progress, c.after j.progress, j.symbols⟩

@[simp]
theorem Course.follow_nothing (j : Journal) : Course.nothing.follow j = j := by
  simp [follow, log, after, tallies]

@[simp]
theorem Course.follow_said (j : Journal) (entry : LogEntry) (quiet : entry.level ≠ .error) :
    (Course.said entry quiet).follow j = { j with log := j.log ++ [entry] } := by
  simp [follow, log, after, tallies]

@[simp]
theorem Course.follow_counted (j : Journal) (n : Int) :
    (Course.counted n).follow j = { j with progress := j.progress.count n } := by
  simp [follow, log, after, tallies, total_cons, Tally.files, Tally.produced, Progress.count]

/-- Setting back what is tracked loses no stage when none is open. -/
theorem Course.follow_reset {j : Journal} (hidle : j.progress.stages = []) :
    Course.reset.follow j = { j with progress := .start } := by
  simp [follow, log, after, tallies, hidle, Progress.start]

theorem Course.follow_both (j : Journal) (first second : Course) :
    (Course.both first second).follow j = second.follow (first.follow j) := by
  simp [Course.follow, Course.log, Course.after_both]

/-- What is left later when a block is entered. -/
def Block.span (p : Progress) : Block → Span
  | .stage name => .stage name
  | .file name => .file name p.declarations

theorem Block.run_eq_within {m : Type → Type} [Monad m] (b : Block) (x : Action m Unit) :
    b.run x = within (fun p => (b.span p, [b.opening p], b.enter p)) x := by
  cases b with
  | stage name => simp [run, Run.stage, span, opening, enter, Progress.enterStage, Progress.context]
  | file name => rfl

/-- A journal inside a block that is entered. -/
def Block.enterJournal (j : Journal) (b : Block) : Journal :=
  { j with log := j.log ++ [b.opening j.progress], progress := b.enter j.progress }

/-- A block is left with one closing, and the stages are those before it. -/
theorem Block.leave_span {k : Journal} {p : Progress} {b : Block}
    (hstages : k.progress.stages = (b.enter p).stages) (failed : Option Failure) :
    k.leave (b.span p) (failureText (resultOf failed)) =
      (none, { k with
        log := k.log ++ [b.closing (k.progress.declarations - p.declarations) failed]
        progress := { k.progress with stages := p.stages } }) := by
  cases b with
  | stage name =>
    have hopen : k.progress.stages = p.stages ++ [name] := hstages
    cases failed <;>
      simp [Journal.leave, Progress.leave, Progress.leavingEntry, span, hopen, failureText, resultOf,
        closing, completed, Block.failed]
  | file name =>
    have hsame : k.progress.stages = p.stages := hstages
    cases failed <;>
      simp [Journal.leave, Progress.leave, Progress.leavingEntry, span, ← hsame, failureText, resultOf,
        closing, completed, Block.failed]

section

variable {m : Type → Type} [Monad m] [LawfulMonad m]

/-- **A block.**  A block that is entered is left, by a failure or without one. -/
theorem LeadsTo.block {x : Action m Unit} {j : Journal} {b : Block} {inside : Course}
    {failed : Option Failure}
    (hx : LeadsTo x (b.enterJournal j) (resultOf failed) (inside.follow (b.enterJournal j))) :
    LeadsTo (b.run x) j (resultOf failed) ((Course.visit b inside failed).follow j) := by
  have hleft : (inside.follow (b.enterJournal j)).leave (b.span j.progress)
      (failureText (resultOf failed)) = (none, (Course.visit b inside failed).follow j) := by
    rw [Block.leave_span rfl]
    simp [Course.follow, Block.enterJournal, Course.log, Course.after_visit]
  rw [b.run_eq_within]
  exact hx.within (fun p => (b.span p, [b.opening p], b.enter p)) hleft

/-- **Runs follow their course.**  Work that sets nothing back while a stage is open has the result it
has without its blocks, and leaves behind what its course says. -/
theorem Work.leadsTo (w : Work) (j : Journal)
    (h : w.course.ResetsIdle (j.progress.stages ≠ [])) :
    LeadsTo (w.run m) j (resultOf w.failure?) (w.course.follow j) := by
  induction w generalizing j with
  | nothing =>
    rw [Work.course, Course.follow_nothing]
    exact leadsTo_pure ()
  | say entry quiet =>
    rw [Work.course, Course.follow_said]
    exact leadsTo_modify _
  | count n =>
    rw [Work.course, Course.follow_counted]
    exact leadsTo_modify _
  | fail e =>
    rw [Work.course, Course.follow_nothing]
    exact leadsTo_throw e
  | reset =>
    rw [Work.course, Course.follow_reset (not_not.mp h)]
    exact leadsTo_modify _
  | seq first second ihfirst ihsecond =>
    cases hfirst : first.failure? with
    | none =>
      simp only [Work.course, Work.failure?, hfirst, Course.follow_both] at h ⊢
      have hdone := ihfirst j h.1
      rw [hfirst] at hdone
      exact hdone.bind (ihsecond _ h.2)
    | some e =>
      simp only [Work.course, Work.failure?, hfirst] at h ⊢
      have hfailed := ihfirst j h
      rw [hfirst] at hfailed
      exact hfailed.bind_error
  | recover body handler ihbody ihhandler =>
    cases hbody : body.failure? with
    | none =>
      simp only [Work.course, Work.failure?, hbody] at h ⊢
      have hdone := ihbody j h
      rw [hbody] at hdone
      exact hdone.tryCatch_ok
    | some e =>
      simp only [Work.course, Work.failure?, hbody, Course.follow_both] at h ⊢
      have hfailed := ihbody j h.1
      rw [hbody] at hfailed
      exact hfailed.tryCatch_error (ihhandler e _ h.2)
  | block b body ih =>
    refine LeadsTo.block (ih _ ?_)
    cases b with
    | stage name =>
      have hinside : body.course.ResetsIdle True := h
      simpa [Block.enterJournal, Block.enter] using hinside
    | file name => exact h

end

/-! ## Failures in the log -/

/-- What is reported when a failure leaves blocks. -/
def leaving (e : Failure) (bs : List Block) : Log :=
  bs.map (·.failed e)

/-- The failures among what has been reported. -/
def errors (log : Log) : Log :=
  log.filter (·.level = .error)

theorem errors_append (first second : Log) : errors (first ++ second) = errors first ++ errors second :=
  List.filter_append ..

theorem errors_opening (p : Progress) (b : Block) : errors [b.opening p] = [] := by
  cases b <;> rfl

/-- A block reports a failure exactly if one leaves it. -/
theorem errors_closing (b : Block) (produced : Int) (failed : Option Failure) :
    errors [b.closing produced failed] = failed.elim [] fun e => [b.failed e] := by
  cases failed <;> cases b <;> rfl

/-- What the blocks around work report in addition is its own failure. -/
theorem Work.errors_log (w : Work) (outer : List Block) (p : Progress) :
    errors (w.course.log p) ++ w.failure?.elim [] (leaving · outer) =
      (w.escapes outer).flatMap fun (e, bs) => leaving e bs := by
  induction w generalizing outer p with
  | nothing => rfl
  | say entry quiet => simp [Work.course, Course.log, errors, quiet, Work.failure?, Work.escapes]
  | count n => rfl
  | fail e => simp [Work.course, Course.log, errors, Work.failure?, Work.escapes]
  | reset => rfl
  | seq first second ihfirst ihsecond =>
    cases hfirst : first.failure? with
    | none =>
      have hquiet := ihfirst outer p
      simp only [hfirst, Option.elim_none, List.append_nil] at hquiet
      simp only [Work.course, Work.failure?, Work.escapes, hfirst, Course.log, errors_append,
        Option.none_or, List.flatMap_append, List.append_assoc, hquiet, ihsecond outer]
    | some e =>
      have hfailed := ihfirst outer p
      rw [hfirst] at hfailed
      simpa only [Work.course, Work.failure?, Work.escapes, hfirst, Option.some_or] using hfailed
  | recover body handler ihbody ihhandler =>
    have hinside := ihbody [] p
    cases hbody : body.failure? with
    | none => simpa [Work.course, Work.failure?, Work.escapes, hbody] using hinside
    | some e =>
      simp only [hbody, leaving, Option.elim_some, List.map_nil, List.append_nil] at hinside
      simp only [Work.course, Work.failure?, Work.escapes, hbody, Course.log, errors_append,
        Option.bind_some, List.flatMap_append, List.append_assoc, ihhandler e outer]
      rw [hinside]
      rfl
  | block b body ih =>
    -- The failure that leaves the block joins those inside it, before the blocks around.
    have hinside := ih (b :: outer) (b.enter p)
    simp only [Work.course, Work.failure?, Work.escapes, Course.log, errors_append,
      errors_opening, errors_closing, List.append_assoc, List.nil_append]
    rw [← hinside]
    cases body.failure? <;> rfl

/-! ## Balance -/

section

variable (m : Type → Type) [Monad m] [LawfulMonad m]

/-- **Balance.**  Work that sets nothing back while a stage is open ends with the result it has without
its blocks, and the stages are those before it.  Each visit of a block is reported when it is entered and
once when it is left, around what is reported inside; a failure is reported by the blocks it leaves and
by no others, innermost first.  Failures are ordinary exceptions here; an interrupt or an exit would take
its stages off without a report.  The counters show what has been counted since they were set back. -/
theorem Work.run_balanced (w : Work) (j : Journal)
    (h : w.course.ResetsIdle (j.progress.stages ≠ [])) :
    ∃ after : Journal, (w.run m).run.run j = pure (resultOf w.failure?, after) ∧
      after.progress.stages = j.progress.stages ∧
      after.log = j.log ++ w.course.log j.progress ∧
      errors (w.course.log j.progress) = (w.escapes []).flatMap (fun (e, bs) => leaving e bs) ∧
      after.progress.files = total Tally.files j.progress.files w.course.tallies ∧
      after.progress.declarations =
        total Tally.produced j.progress.declarations w.course.tallies := by
  refine ⟨w.course.follow j, w.leadsTo j h, rfl, rfl, ?_, rfl, rfl⟩
  have herrors := w.errors_log [] j.progress
  cases hfailed : w.failure? <;> simpa [hfailed, leaving] using herrors

end

/-- The first of two files fails while it is read, and the failure is caught. -/
def oneOfTwoFails : Work :=
  .seq .reset <| .recover
    (.block (.file "a.h") (.seq (.count 2)
      (.block (.stage "parse a.h") (.fail (.withheld .moduleName)))))
    fun _ => .block (.file "b.h") (.count 3)

/-- The failure is reported by the stage and by the file it leaves, and the work goes on. -/
theorem run_balanced_caught :
    oneOfTwoFails.course.ResetsIdle (Journal.start.progress.stages ≠ []) ∧
      ∃ after : Journal, (oneOfTwoFails.run Id).run.run .start = pure (.ok (), after) ∧
        after.progress = ⟨2, 5, []⟩ ∧
        after.log = [debug "Processing file #1: a.h",
          debug "Starting stage: parse a.h",
          failure ("Failed stage: parse a.h after 0.000s: " ++
            "'list' object has no attribute 'isidentifier'"),
          failure "a.h failed after 0.000s: 'list' object has no attribute 'isidentifier'",
          debug "Processing file #2: b.h",
          debug "b.h completed in 0.000s (3 declarations)"] := by
  have hidle : oneOfTwoFails.course.ResetsIdle (Journal.start.progress.stages ≠ []) := by
    simp [oneOfTwoFails, Work.course, Work.failure?, Course.ResetsIdle, Journal.start, Progress.start]
  obtain ⟨after, hrun, hstages, hlog, -, hfiles, hdeclarations⟩ :=
    Work.run_balanced Id oneOfTwoFails .start hidle
  refine ⟨hidle, after, hrun, ?_, ?_⟩
  · have hparts : after.progress = ⟨after.progress.files, after.progress.declarations,
        after.progress.stages⟩ := rfl
    rw [hparts, hstages, hfiles, hdeclarations]
    decide
  · rw [hlog]
    rfl

end SdkBindings.Run

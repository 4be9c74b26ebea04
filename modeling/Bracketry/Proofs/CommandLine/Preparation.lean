import Bracketry.CommandLine.Execute
import Bracketry.CommandLine.World
import Bracketry.Proofs.Checks

/-!
# Nothing is done before everything is known

An invocation reads its input, then decides what is to be done, and only then does anything that leaves a trace. What can be wrong with
the input, the options or the program is found before that.

* `Job`, `prepare`, `carryOut` : what is to be done, how it is decided on, and how it is done;
* `execute_eq` : reading, deciding and doing come one after the other, whatever the host;
* `Unprepared` : why a source text is no job; `prepare_eq_error_iff` says that there are no other reasons;
* `Reads`, `Unread` : the source text that an input has in a world, or why it has none;
* `World.perform` : a step in a world; `readSource_of_reads`, `readSource_of_unread` : reading takes nothing but standard input away;
* `Refused` : why an invocation does nothing; `execute_of_refused`, `execute_of_not_refused` : it is refused, or it does its job;
* `invoke_prepared` : the same for arguments, with the exit code.
-/

namespace Bracketry.CommandLine

/-- What is to be done when everything is known. -/
inductive Job where
  | run (program : Program)
  /-- A result is written, and a compiler may be started on it, with source and executable. -/
  | write (bytes : List UInt8) (compilation : Option (String × String × String))

/-- The compiler to be started, with source and executable, if the result is in a file. -/
def compilation (options : Options) : Option (String × String × String) :=
  match options.compiler, options.output with
  | some compiler, some path => some (compiler, path, options.binary.getD (Path.withoutExtension path))
  | _, _ => none

/-- A compiler is to be started on a result that is not in a file. -/
def lacksFile (options : Options) : Bool := options.compiler.isSome && options.output.isNone

def translate (options : Options) (source : String) : Except Failure Job := do
  if lacksFile options then throw .compilerWithoutFile
  let program ← loadProgram options source
  let text ← (CProgram.ofProgram options.limits program).mapError Failure.ofStop
  return .write (bytesOf text) (compilation options)

def prepare (options : Options) (source : String) : Except Failure Job :=
  match options.format with
  | "run" => return .run (← loadProgram options source)
  | "c" => translate options source
  | "table" => return .write (bytesOf (← loadProgram options source).toJson) none
  | "text" => return .write (bytesOf (encode source)) none
  | format => throw (.unknownFormat format)

section
variable {m : Type → Type} [Monad m] [LawfulMonad m] {α β : Type}

theorem throw_bind (failure : Failure) (f : α → ExceptT Failure m β) :
    ((throw failure : ExceptT Failure m α) >>= f) = throw failure := by
  apply ExceptT.ext
  exact pure_bind _ _

/-- What does not depend on the host is done before it is asked for anything else. -/
theorem lift_bind (x : Except Failure α) (f : α → Except Failure β) {γ : Type} (k : β → ExceptT Failure m γ) :
    ((liftM (x >>= f) : ExceptT Failure m β) >>= k) = ((liftM x : ExceptT Failure m α) >>= fun a => liftM (f a) >>= k) := by
  cases x with
  | error failure => exact (throw_bind failure k).trans (throw_bind failure _).symm
  | ok a => exact (pure_bind a fun a => (liftM (f a) : ExceptT Failure m β) >>= k).symm

theorem lift_pure_bind (a : α) (k : α → ExceptT Failure m β) :
    ((liftM (pure a : Except Failure α) : ExceptT Failure m α) >>= k) = k a :=
  pure_bind a k

theorem lift_throw_bind (failure : Failure) (k : α → ExceptT Failure m β) :
    ((liftM (throw failure : Except Failure α) : ExceptT Failure m α) >>= k) = throw failure :=
  throw_bind failure k

variable [Host m]

def carryOut (options : Options) : Job → ExceptT Failure m Unit
  | .run program => runProgram options program
  | .write bytes none => writeResult options.output bytes
  | .write bytes (some (compiler, source, binary)) => do
    writeResult options.output bytes
    runCompiler compiler source binary

/-- An invocation reads, decides and does what it has decided on, in this order. -/
theorem execute_eq (options : Options) :
    (execute options : ExceptT Failure m Unit) = (do
      let source ← readSource options.input
      let job ← prepare options source
      carryOut options job) := by
  unfold execute
  congr 1
  funext source
  split
  · next hformat => simp only [prepare, hformat, lift_bind, lift_pure_bind, carryOut]
  · next hformat =>
    have hprepare : prepare options source = translate options source := by simp only [prepare, hformat]
    rw [hprepare]
    by_cases hfile : lacksFile options = true
    · have htranslate : translate options source = throw .compilerWithoutFile := if_pos hfile
      rw [htranslate, lift_throw_bind]
      exact (if_pos hfile).trans (throw_bind _ _)
    · simp only [translate, if_neg hfile, lift_bind, lift_pure_bind, compilation]
      refine (if_neg hfile).trans ?_
      -- a compiler is started only if there is one and the result is in a file
      cases options.compiler with
      | none => simp only [carryOut, bind_pure_unit]
      | some compiler => cases houtput : options.output <;> simp only [carryOut, houtput, bind_pure_unit]
  · next hformat => simp only [prepare, hformat, lift_bind, lift_pure_bind, carryOut]
  · next hformat => simp only [prepare, hformat, lift_pure_bind, carryOut]
  · simp only [prepare, lift_throw_bind]

end

/-! ## Reasons to do nothing -/

/-- Why a source text is no job. The options are looked at first, then the program is loaded, and then it is translated. -/
inductive Unprepared (options : Options) (source : String) : Failure → Prop where
  | unknownFormat (hformat : options.format ∉ ["run", "c", "table", "text"]) :
      Unprepared options source (.unknownFormat options.format)
  | compilerWithoutFile (hformat : options.format = "c") (hfile : lacksFile options = true) :
      Unprepared options source .compilerWithoutFile
  | notLoaded {failure : Failure} (hformat : options.format ∈ ["run", "c", "table"])
      (hfile : options.format = "c" → lacksFile options = false) (hload : loadProgram options source = .error failure) :
      Unprepared options source failure
  | notTranslated {program : Program} {stop : Stop} (hformat : options.format = "c") (hfile : lacksFile options = false)
      (hload : loadProgram options source = .ok program)
      (htranslate : CProgram.ofProgram options.limits program = .error stop) : Unprepared options source (.ofStop stop)

variable {options : Options} {source : String} {failure : Failure}

theorem translate_eq_error_iff :
    translate options source = .error failure ↔
      lacksFile options = true ∧ failure = .compilerWithoutFile ∨
        lacksFile options = false ∧ (loadProgram options source = .error failure ∨
          ∃ program, loadProgram options source = .ok program ∧
            ∃ stop, CProgram.ofProgram options.limits program = .error stop ∧ failure = .ofStop stop) := by
  unfold translate
  rw [unless_eq_error_iff, Bool.not_eq_true, bind_eq_error_iff]
  simp only [bind_pure_eq_error_iff, mapError_eq_error_iff]

theorem prepare_eq_error_iff : prepare options source = .error failure ↔ Unprepared options source failure := by
  constructor
  · intro h
    unfold prepare at h
    split at h
    · next hformat =>
      exact .notLoaded (by simp [hformat]) (by simp [hformat]) (bind_pure_eq_error_iff.1 h)
    · next hformat =>
      rcases translate_eq_error_iff.1 h with ⟨hfile, rfl⟩ | ⟨hfile, hload | ⟨program, hload, stop, htranslate, rfl⟩⟩
      · exact .compilerWithoutFile hformat hfile
      · exact .notLoaded (by simp [hformat]) (fun _ => hfile) hload
      · exact .notTranslated hformat hfile hload htranslate
    · next hformat =>
      exact .notLoaded (by simp [hformat]) (by simp [hformat]) (bind_pure_eq_error_iff.1 h)
    · cases h
    · next hrun hc htable htext =>
      obtain rfl := Except.error.inj h
      exact .unknownFormat (by simp_all)
  · rintro (⟨hformat⟩ | ⟨hformat, hfile⟩ | ⟨hformat, hfile, hload⟩ | ⟨hformat, hfile, hload, htranslate⟩)
    · unfold prepare
      split
      · next heq => simp [heq] at hformat
      · next heq => simp [heq] at hformat
      · next heq => simp [heq] at hformat
      · next heq => simp [heq] at hformat
      · rfl
    · simp only [prepare, hformat]
      exact translate_eq_error_iff.2 (.inl ⟨hfile, rfl⟩)
    · simp only [List.mem_cons, List.not_mem_nil, or_false] at hformat
      rcases hformat with hformat | hformat | hformat
      · simp only [prepare, hformat, hload]
        rfl
      · simp only [prepare, hformat]
        exact translate_eq_error_iff.2 (.inr ⟨hfile hformat, .inl hload⟩)
      · simp only [prepare, hformat, hload]
        rfl
    · simp only [prepare, hformat]
      exact translate_eq_error_iff.2 (.inr ⟨hfile, .inr ⟨_, hload, _, htranslate, rfl⟩⟩)

/-! ## Reading -/

inductive Reads (world : World) : Option String → String → Prop where
  | file {path source : String} {bytes : List UInt8} {left : World} (hbytes : world.bytesAt path = .ok (bytes, left))
      (hdecode : decode? bytes = some source) : Reads world (some path) source
  | input {source : String} {bytes : List UInt8} {left : World} (hbytes : world.takeInput = .ok (bytes, left))
      (hdecode : decode? bytes = some source) : Reads world none source

inductive Unread (world : World) : Option String → Failure → Prop where
  | file {path : String} {fault : OsFault} (hbytes : world.bytesAt path = .error fault) :
      Unread world (some path) (.unreadableFile path fault.message)
  | undecodableFile {path : String} {bytes : List UInt8} {left : World} (hbytes : world.bytesAt path = .ok (bytes, left))
      (hdecode : decode? bytes = none) : Unread world (some path) (.unreadableFile path undecodable)
  | input {fault : OsFault} (hbytes : world.takeInput = .error fault) : Unread world none (.unreadableInput fault.message)
  | undecodableInput {bytes : List UInt8} {left : World} (hbytes : world.takeInput = .ok (bytes, left))
      (hdecode : decode? bytes = none) : Unread world none (.unreadableInput undecodable)

variable {world : World} {input : Option String}

theorem reads_or_unread (world : World) (input : Option String) :
    (∃ source, Reads world input source) ∨ ∃ failure, Unread world input failure := by
  cases input with
  | none =>
    cases hbytes : world.takeInput with
    | error fault => exact .inr ⟨_, .input hbytes⟩
    | ok read =>
      cases hdecode : decode? read.1 with
      | none => exact .inr ⟨_, .undecodableInput hbytes hdecode⟩
      | some source => exact .inl ⟨source, .input hbytes hdecode⟩
  | some path =>
    cases hbytes : world.bytesAt path with
    | error fault => exact .inr ⟨_, .file hbytes⟩
    | ok read =>
      cases hdecode : decode? read.1 with
      | none => exact .inr ⟨_, .undecodableFile hbytes hdecode⟩
      | some source => exact .inl ⟨source, .file hbytes hdecode⟩

/-! ## Steps in a world -/

/-- What a step gives in a world, and the world that it leaves. -/
def World.perform {α : Type} (world : World) (step : ExceptT Failure (StateM World) α) : Except Failure α × World :=
  step.run.run world

section
variable {α β : Type} {left : World} {step : ExceptT Failure (StateM World) α} {next : α → ExceptT Failure (StateM World) β}

theorem perform_bind_of_ok {a : α} (h : world.perform step = (.ok a, left)) :
    world.perform (step >>= next) = left.perform (next a) := by
  unfold World.perform at h ⊢
  rw [ExceptT.run_bind, StateT.run_bind, h]
  rfl

theorem perform_bind_of_error (h : world.perform step = (.error failure, left)) :
    world.perform (step >>= next) = (.error failure, left) := by
  unfold World.perform at h ⊢
  rw [ExceptT.run_bind, StateT.run_bind, h]
  rfl

theorem perform_lift {action : StateM World α} {a : α} (h : action.run world = (a, left)) :
    world.perform (liftM action) = (.ok a, left) := by
  change StateT.run (Except.ok <$> action) world = _
  rw [StateT.run_map, h]
  rfl

theorem perform_request {action : StateM World (Except OsFault α)} {report : OsFault → Failure} {r : Except OsFault α}
    (h : action.run world = (r, left)) : world.perform (request action report) = (r.mapError report, left) := by
  refine (perform_bind_of_ok (perform_lift h)).trans ?_
  cases r <;> rfl

end

/-! ## Reading in a world -/

section
variable {path : String} {bytes : List UInt8} {left : World} {α : Type} {report : OsFault → Failure}

theorem perform_attempt_of_ok {change : World → Except OsFault (α × World)} {a : α} (h : change world = .ok (a, left)) :
    world.perform (request (attempt change) report) = (.ok a, left) := by
  refine perform_request (r := .ok a) ?_
  change attempt change world = _
  rw [attempt, h]

theorem perform_attempt_of_error {change : World → Except OsFault (α × World)} {fault : OsFault}
    (h : change world = .error fault) : world.perform (request (attempt change) report) = (.error (report fault), world) := by
  refine perform_request (r := .error fault) ?_
  change attempt change world = _
  rw [attempt, h]

theorem eq_of_takeInput (h : world.takeInput = .ok (bytes, left)) : left = { world with input := left.input } := by
  unfold World.takeInput at h
  split at h <;> cases h
  rfl

theorem eq_of_bytesAt (h : world.bytesAt path = .ok (bytes, left)) : left = { world with input := left.input } := by
  unfold World.bytesAt at h
  obtain ⟨node, -, h⟩ := bind_eq_ok_iff.1 h
  split at h
  · cases h
  · cases h
    rfl
  · exact eq_of_takeInput h
  · cases h
  · cases h
    rfl
  · cases h
    rfl

end

theorem readSource_of_reads {source : String} (h : Reads world input source) :
    ∃ left, world.perform (readSource input) = (.ok source, { world with input := left }) := by
  cases h with
  | @file path _ bytes left hbytes hdecode =>
    refine ⟨left.input, ?_⟩
    rw [← eq_of_bytesAt hbytes]
    refine (perform_bind_of_ok (perform_attempt_of_ok hbytes)).trans ?_
    simp only [hdecode]
    rfl
  | @input _ bytes left hbytes hdecode =>
    refine ⟨left.input, ?_⟩
    rw [← eq_of_takeInput hbytes]
    refine (perform_bind_of_ok (perform_attempt_of_ok hbytes)).trans ?_
    simp only [hdecode]
    rfl

theorem readSource_of_unread (h : Unread world input failure) :
    ∃ left, world.perform (readSource input) = (.error failure, { world with input := left }) := by
  cases h with
  | file hbytes => exact ⟨world.input, perform_bind_of_error (perform_attempt_of_error hbytes)⟩
  | @undecodableFile path bytes left hbytes hdecode =>
    refine ⟨left.input, ?_⟩
    rw [← eq_of_bytesAt hbytes]
    refine (perform_bind_of_ok (perform_attempt_of_ok hbytes)).trans ?_
    simp only [hdecode]
    rfl
  | input hbytes => exact ⟨world.input, perform_bind_of_error (perform_attempt_of_error hbytes)⟩
  | @undecodableInput bytes left hbytes hdecode =>
    refine ⟨left.input, ?_⟩
    rw [← eq_of_takeInput hbytes]
    refine (perform_bind_of_ok (perform_attempt_of_ok hbytes)).trans ?_
    simp only [hdecode]
    rfl

/-! ## Invocations -/

/-- Why an invocation does nothing: its input has no source text, or the text is no job. -/
inductive Refused (options : Options) (world : World) : Failure → Prop where
  | unread {failure : Failure} (h : Unread world options.input failure) : Refused options world failure
  | unprepared {source : String} {failure : Failure} (hread : Reads world options.input source)
      (h : Unprepared options source failure) : Refused options world failure

/-- An invocation that is refused reads its input and does nothing else. -/
theorem execute_of_refused (h : Refused options world failure) :
    ∃ input, world.perform (execute options) = (.error failure, { world with input }) := by
  rw [execute_eq]
  cases h with
  | unread h =>
    obtain ⟨left, hread⟩ := readSource_of_unread h
    exact ⟨left, perform_bind_of_error hread⟩
  | unprepared hread h =>
    obtain ⟨left, hread⟩ := readSource_of_reads hread
    refine ⟨left, (perform_bind_of_ok hread).trans ?_⟩
    rw [prepare_eq_error_iff.2 h]
    rfl

theorem execute_of_not_refused (h : ∀ failure, ¬Refused options world failure) :
    ∃ source job input, Reads world options.input source ∧ prepare options source = .ok job ∧
      world.perform (execute options) = World.perform { world with input } (carryOut options job) := by
  obtain ⟨source, hread⟩ := (reads_or_unread world options.input).resolve_right fun ⟨failure, hunread⟩ => h failure (.unread hunread)
  cases hjob : prepare options source with
  | error failure => exact absurd (.unprepared hread (prepare_eq_error_iff.1 hjob)) (h failure)
  | ok job =>
    obtain ⟨left, hleft⟩ := readSource_of_reads hread
    refine ⟨source, job, left, hread, hjob, ?_⟩
    rw [execute_eq]
    refine (perform_bind_of_ok hleft).trans ?_
    rw [hjob]
    rfl

theorem code?_of_refused (h : Refused options world failure) : (Ending.failed failure).code? = some 1 := by
  rcases h with h | ⟨-, h⟩
  · generalize options.input = input at h
    cases h <;> rfl
  · cases h with
    | notLoaded _ _ hload =>
      obtain ⟨error, -, rfl⟩ := mapError_eq_error_iff.1 hload
      rfl
    | @notTranslated program stop => cases stop <;> rfl
    | _ => rfl

def Ending.ofResult : Except Failure Unit → Ending
  | .ok () => success
  | .error failure => failed failure

theorem invoke_run {arguments : List String} (harguments : Invocation.ofArguments arguments = .ok (.execute options)) :
    (invoke arguments : StateM World Ending).run world =
      (.ofResult (world.perform (execute options)).1, (world.perform (execute options)).2) := by
  unfold invoke World.perform
  simp only [harguments]
  rw [StateT.run_bind]
  generalize (execute options : ExceptT Failure (StateM World) Unit).run.run world = outcome
  obtain ⟨result, left⟩ := outcome
  cases result <;> rfl

/-- The command line leaves no trace but on standard input before reading, loading and translating have succeeded. An invocation that is
refused ends with code one, and any other has decided on a job before anything is done, and does it. -/
theorem invoke_prepared {arguments : List String} (harguments : Invocation.ofArguments arguments = .ok (.execute options))
    (world : World) :
    (∀ failure, Refused options world failure →
      ∃ input, (invoke arguments : StateM World Ending).run world = (.failed failure, { world with input }) ∧
        (Ending.failed failure).code? = some 1) ∧
    ((∀ failure, ¬Refused options world failure) →
      ∃ source job input, Reads world options.input source ∧ prepare options source = .ok job ∧
        (invoke arguments : StateM World Ending).run world =
          (.ofResult (World.perform { world with input } (carryOut options job)).1,
            (World.perform { world with input } (carryOut options job)).2)) := by
  refine ⟨fun failure h => ?_, fun h => ?_⟩
  · obtain ⟨input, hrun⟩ := execute_of_refused h
    refine ⟨input, ?_, code?_of_refused h⟩
    rw [invoke_run harguments, hrun]
    rfl
  · obtain ⟨source, job, input, hread, hjob, hrun⟩ := execute_of_not_refused h
    refine ⟨source, job, input, hread, hjob, ?_⟩
    rw [invoke_run harguments, hrun]

/-- A file that is no table is still there when it was to be overwritten with the output. -/
theorem invoke_prepared_of_array :
    ∃ input,
      (invoke ["--from-table", "-i", "p", "-o", "p"] : StateM World Ending).run { nodes := [(["p"], .file [91, 93])] } =
        (.failed (.program (.interchange .misshapen)), { nodes := [(["p"], .file [91, 93])], input }) ∧
      (Ending.failed (.program (.interchange .misshapen))).code? = some 1 := by
  have harguments : Invocation.ofArguments ["--from-table", "-i", "p", "-o", "p"] =
      .ok (.execute { input := some "p", output := some "p", fromTable := true }) := by decide +kernel
  obtain ⟨hrefused, -⟩ := invoke_prepared harguments { nodes := [(["p"], .file [91, 93])] }
  have hread : Reads { nodes := [(["p"], .file [91, 93])] } (some "p") "[]" := .file rfl rfl
  exact hrefused _ (.unprepared hread (.notLoaded (by decide) nofun rfl))

end Bracketry.CommandLine

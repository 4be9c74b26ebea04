import Bracketry.Proofs.Called
import Bracketry.Proofs.Effects

/-!
# The depth of calls

A watched machine remembers how many applications were active whenever it did something. It does what the machine does that is not
watched, and what it remembers says when a call was refused.

* `Moment`, `Watched` : something that a machine did; a machine and all that it did;
* `Watched.watch`, `Watched.call` : operations and calls on a watched machine; `Watched.evaluateEntry` : programs;
* `Watched.Heeds` : moments at which no limit on the calls is passed, up to the call that the limit ends;
* `Machine.Uncalled` : a result that neither changes the active applications nor is a call refused;
* `Watched.Minds` : a result that is the one without the watch, with the applications active that were active, and heeds the limits;
* `Watched.passBody_minds` : so are the results of a body and all it calls, whatever ends them;
* `Watched.evaluateEntry_heeds` : the statement for whole programs.
-/

namespace Bracketry

structure Moment where
  /-- How many applications were active. -/
  active : Nat
  /-- It called an application, or tried to. -/
  isCall : Bool
deriving DecidableEq, Repr

/-- A machine and what it did, latest first. -/
structure Watched where
  machine : Machine
  moments : List Moment := []

/-! ## Watching -/

namespace Watched
variable {α β : Type}

def note (isCall : Bool) (watched : Watched) : Watched :=
  { watched with moments := ⟨watched.machine.frames.size, isCall⟩ :: watched.moments }

def watch (x : Action Machine α) : Action Watched α := fun watched =>
  match x watched.machine with
  | .ok a machine => .ok a { watched.note false with machine }
  | .error stop machine => .error stop { watched.note false with machine }

def withFrames (watched : Watched) (frames : Array Nat) : Watched :=
  { watched with machine := { watched.machine with frames } }

def leaveFrame : EStateM.Result Stop Watched Unit → EStateM.Result Stop Watched Unit
  | .ok () watched => .ok () (watched.withFrames watched.machine.frames.pop)
  | .error stop watched => .error stop (watched.withFrames watched.machine.frames.pop)

/-- Calls a body by its name. Both the call and the beginning of the body are noted. -/
def call (limits : Limits) (program : Program) (evaluateBody : List Token → Action Watched Unit) (name : String)
    (address : Nat) : Action Watched Unit := fun watched =>
  let called := watched.note true
  if limits.maxCallDepth ≤ called.machine.frames.size then
    .error (.fault (.callDepthExceeded limits.maxCallDepth)) called
  else match program.body? name with
    | none => .error (.fault (.unknownToken name)) called
    | some body => leaveFrame (evaluateBody body ((called.withFrames (called.machine.frames.push address)).note false))

def backendWith (limits : Limits) (program : Program) (evaluateBody : List Token → Action Watched Unit) :
    Backend Watched Int64 Nat :=
  let plain := Machine.backendWith limits program fun _ => Action.exhausted
  { literal value := watch (plain.literal value)
    parameter := watch plain.parameter
    resolveAccessor value := watch (plain.resolveAccessor value)
    applyBuiltin address op := watch (plain.applyBuiltin address op)
    assign address value := watch (plain.assign address value)
    call := call limits program evaluateBody
    resolve address := watch (plain.resolve address)
    enterLoop := watch plain.enterLoop
    testLoop address := watch (plain.testLoop address)
    exitLoop address := watch (plain.exitLoop address)
    describe := plain.describe }

def passBody (limits : Limits) (program : Program) : Nat → List Token → Action Watched Unit
  | 0, _ => Action.exhausted
  | fuel + 1, body => evaluate (backendWith limits program (passBody limits program fuel)) program fuel body

def evaluateEntry (limits : Limits) (program : Program) (fuel : Nat) : Action Watched Unit :=
  passBody limits program (fuel + 1) program.entry

def left : EStateM.Result Stop Watched α → Watched
  | .ok _ watched => watched
  | .error _ watched => watched

def forget : EStateM.Result Stop Watched α → EStateM.Result Stop Machine α
  | .ok a watched => .ok a watched.machine
  | .error stop watched => .error stop watched.machine

/-! ## Limits -/

/-- Moments at which no limit on the calls is passed or refuses a call. -/
def Quiet (limits : Limits) (moments : List Moment) : Prop :=
  ∀ moment ∈ moments, moment.active ≤ limits.maxCallDepth ∧ (moment.isCall = true → moment.active < limits.maxCallDepth)

/-- What was done up to a stop, if it came to one. Either no call was refused, or one was refused that came last. -/
inductive Heeds (limits : Limits) : List Moment → Option Stop → Prop where
  | quiet {moments : List Moment} {stop : Option Stop} (h : Quiet limits moments)
      (hstop : ∀ limit, stop ≠ some (.fault (.callDepthExceeded limit))) : Heeds limits moments stop
  | refused {earlier : List Moment} (h : Quiet limits earlier) :
      Heeds limits (⟨limits.maxCallDepth, true⟩ :: earlier) (some (.fault (.callDepthExceeded limits.maxCallDepth)))

variable {limits : Limits} {moments earlier later : List Moment} {stop : Option Stop}

theorem Quiet.append (h : Quiet limits later) (h' : Quiet limits earlier) : Quiet limits (later ++ earlier) := by
  intro moment hmoment
  rcases List.mem_append.1 hmoment with hlater | hearlier
  · exact h moment hlater
  · exact h' moment hearlier

theorem Heeds.append (h : Heeds limits later stop) (h' : Quiet limits earlier) : Heeds limits (later ++ earlier) stop := by
  cases h with
  | quiet hlater hstop => exact .quiet (hlater.append h') hstop
  | refused hlater => exact .refused (hlater.append h')

theorem Heeds.quiet_of_none (h : Heeds limits moments none) : Quiet limits moments := by
  cases h with
  | quiet h _ => exact h

/-- Never are more applications active than the limit allows. -/
theorem Heeds.active_le (h : Heeds limits moments stop) {moment : Moment} (hmoment : moment ∈ moments) :
    moment.active ≤ limits.maxCallDepth := by
  cases h with
  | quiet h _ => exact (h moment hmoment).1
  | refused h =>
    rcases List.mem_cons.1 hmoment with rfl | hearlier
    · exact Nat.le_refl _
    · exact (h moment hearlier).1

theorem Quiet.not_mem_refused (h : Quiet limits moments) : ⟨limits.maxCallDepth, true⟩ ∉ moments :=
  fun hmem => Nat.lt_irrefl _ ((h _ hmem).2 rfl)

/-- The limit is what stopped the machine just in case the last thing it did was a call with so many applications active. -/
theorem Heeds.stop_eq_iff (h : Heeds limits moments stop) (limit : Nat) :
    stop = some (.fault (.callDepthExceeded limit)) ↔
      limit = limits.maxCallDepth ∧ ∃ earlier, moments = ⟨limits.maxCallDepth, true⟩ :: earlier := by
  cases h with
  | quiet h hstop =>
    refine ⟨fun heq => absurd heq (hstop limit), ?_⟩
    rintro ⟨-, earlier, rfl⟩
    exact absurd List.mem_cons_self h.not_mem_refused
  | @refused earlier h =>
    constructor
    · rintro ⟨⟩
      exact ⟨rfl, earlier, rfl⟩
    · rintro ⟨rfl, -⟩
      rfl

theorem Heeds.later_eq_nil (h : Heeds limits moments stop) (hsplit : moments = later ++ ⟨limits.maxCallDepth, true⟩ :: earlier) :
    later = [] := by
  cases h with
  | quiet h _ =>
    rw [hsplit] at h
    exact absurd (List.mem_append_right later List.mem_cons_self) h.not_mem_refused
  | refused h =>
    cases later with
    | nil => rfl
    | cons moment later =>
      rw [(List.cons.inj hsplit).2] at h
      exact absurd (List.mem_append_right later List.mem_cons_self) h.not_mem_refused

end Watched

/-! ## Operations that call nothing -/

def stopOf? {σ α : Type} : EStateM.Result Stop σ α → Option Stop
  | .ok _ _ => none
  | .error stop _ => some stop

namespace Machine
variable {α β : Type}

/-- The applications are active that were active before, and no call was refused. -/
structure Uncalled (machine : Machine) (r : EStateM.Result Stop Machine α) : Prop where
  frames : (after r).frames = machine.frames
  stop (limit : Nat) : stopOf? r ≠ some (.fault (.callDepthExceeded limit))

theorem uncalled_bind {x : Action Machine α} {f : α → Action Machine β} (hx : ∀ machine, Uncalled machine (x machine))
    (hf : ∀ a machine, Uncalled machine (f a machine)) (machine : Machine) : Uncalled machine ((x >>= f) machine) := by
  have hfirst := hx machine
  cases heq : x machine with
  | ok a mid =>
    rw [Action.bind_of_ok heq]
    rw [heq] at hfirst
    exact ⟨(hf a mid).frames.trans hfirst.frames, (hf a mid).stop⟩
  | error stop mid =>
    rw [Action.bind_of_error heq]
    rw [heq] at hfirst
    exact ⟨hfirst.frames, hfirst.stop⟩

theorem uncalled_pure (a : α) (machine : Machine) : Uncalled machine ((pure a : Action Machine α) machine) :=
  ⟨rfl, nofun⟩

theorem cell_uncalled (address : Nat) (machine : Machine) : Uncalled machine (cell address machine) := by
  unfold cell
  split
  · exact ⟨rfl, nofun⟩
  · exact ⟨rfl, nofun⟩

theorem store_uncalled (address : Nat) (value : UInt8) (machine : Machine) : Uncalled machine (store address value machine) := by
  obtain ⟨memory, streams, frames⟩ := machine
  unfold store
  dsimp only
  split
  · exact ⟨rfl, nofun⟩
  · exact ⟨rfl, nofun⟩

theorem perform_uncalled (operation : Streams → Except StreamFault α × Streams) (machine : Machine) :
    Uncalled machine (perform operation machine) := by
  cases hoperation : operation machine.streams with
  | mk result streams =>
    cases result with
    | ok a =>
      rw [perform_of_ok hoperation]
      exact ⟨rfl, nofun⟩
    | error fault =>
      rw [perform_of_error hoperation]
      exact ⟨rfl, nofun⟩

theorem argument_uncalled (machine : Machine) : Uncalled machine (argument machine) := by
  unfold argument
  split
  · exact ⟨rfl, nofun⟩
  · exact ⟨rfl, nofun⟩

theorem checkAddress_uncalled (limits : Limits) (value : Int64) (machine : Machine) :
    Uncalled machine (Action.ofExcept (limits.checkAddress value) machine) := by
  cases hcheck : limits.checkAddress value with
  | ok address => exact ⟨rfl, nofun⟩
  | error error =>
    obtain ⟨rfl, -⟩ := Limits.checkAddress_eq_error hcheck
    exact ⟨rfl, nofun⟩

theorem applyBuiltin_uncalled (address : Nat) (op : Builtin) (machine : Machine) :
    Uncalled machine (applyBuiltin address op machine) := by
  cases op with
  | increment => exact uncalled_bind (cell_uncalled address) (fun _ => store_uncalled address _) machine
  | decrement => exact uncalled_bind (cell_uncalled address) (fun _ => store_uncalled address _) machine
  | output => exact uncalled_bind (cell_uncalled address) (fun _ => perform_uncalled _) machine
  | input =>
    have hread : ∀ machine, Uncalled machine (readByte machine) :=
      uncalled_bind (perform_uncalled Streams.flush) fun _ => perform_uncalled Streams.read
    exact uncalled_bind hread (fun _ => store_uncalled address _) machine
  | nop => exact uncalled_pure () machine

end Machine

/-! ## Minding the limits -/

namespace Watched
variable {α β : Type} {limits : Limits}

/-- The result is the one without the watch, the applications are active that were active before, and the limits are heeded. -/
structure Minds (limits : Limits) (R : α → β → Prop) (watched : Watched) (r : EStateM.Result Stop Watched α)
    (r' : EStateM.Result Stop Machine β) : Prop where
  same : Relator.Abreast (fun watched machine => watched.machine = machine) R r r'
  frames : (Machine.after r').frames = watched.machine.frames
  moments : ∃ recent, (left r).moments = recent ++ watched.moments ∧ Heeds limits recent (stopOf? r)

def minding (limits : Limits) : Relator Watched Machine where
  Rel R x y := ∀ watched, watched.machine.frames.size ≤ limits.maxCallDepth →
    Minds limits R watched (x watched) (y watched.machine)
  pure h := fun _ _ => ⟨⟨h, rfl⟩, rfl, [], rfl, .quiet nofun nofun⟩
  bind {α β γ δ R S x y f g} hxy hfg := by
    intro watched hdepth
    obtain ⟨hsame, hframes, recent, hmoments, hheeds⟩ := hxy watched hdepth
    refine hsame.bind_cases (P := Minds limits S watched) ?_ ?_
    · rintro a b mid _ hx hy hab rfl
      rw [hx] at hmoments hheeds
      rw [hy] at hframes
      -- No application that was called is left in the middle, so that the second action has the room that the first one had.
      have hmid : mid.machine.frames = watched.machine.frames := hframes
      obtain ⟨hsame, hframes, later, hlater, hheeds'⟩ := hfg a b hab mid (by rw [hmid]; exact hdepth)
      refine ⟨hsame, hframes.trans hmid, later ++ recent, ?_, hheeds'.append hheeds.quiet_of_none⟩
      have hbefore : mid.moments = recent ++ watched.moments := hmoments
      rw [hlater, hbefore, List.append_assoc]
    · intro stop mid mid' hx hy hmachine
      rw [hx] at hmoments hheeds
      rw [hy] at hframes
      exact ⟨⟨rfl, hmachine⟩, hframes, recent, hmoments, hheeds⟩
  exhausted _ := fun _ _ => ⟨⟨rfl, rfl⟩, rfl, [], rfl, .quiet nofun nofun⟩

theorem minding_keepsFaults : (minding limits).KeepsFaults := by
  intro error herror α watched _
  cases herror <;> exact ⟨⟨rfl, rfl⟩, rfl, [], rfl, .quiet nofun nofun⟩

theorem watch_minds {x : Action Machine α} (hx : ∀ machine, Machine.Uncalled machine (x machine)) :
    (minding limits).Rel Eq (watch x) x := by
  intro watched hdepth
  obtain ⟨hframes, hstop⟩ := hx watched.machine
  have hquiet : Quiet limits [⟨watched.machine.frames.size, false⟩] := by
    intro moment hmoment
    obtain rfl := List.mem_singleton.1 hmoment
    exact ⟨hdepth, nofun⟩
  unfold watch
  cases heq : x watched.machine with
  | ok a machine =>
    rw [heq] at hframes
    exact ⟨⟨rfl, rfl⟩, hframes, _, rfl, .quiet hquiet nofun⟩
  | error stop machine =>
    rw [heq] at hframes hstop
    exact ⟨⟨rfl, rfl⟩, hframes, _, rfl, .quiet hquiet hstop⟩

variable {program : Program} {evaluateBody : List Token → Action Watched Unit} {evaluateBody' : List Token → Action Machine Unit}

theorem leaveFrame_minds {watched entered : Watched} {address : Nat} {r : EStateM.Result Stop Watched Unit}
    {r' : EStateM.Result Stop Machine Unit} (hframes : entered.machine.frames = watched.machine.frames.push address)
    {recent : List Moment} (hmoments : entered.moments = recent ++ watched.moments) (hquiet : Quiet limits recent)
    (h : Minds limits Eq entered r r') : Minds limits Eq watched (leaveFrame r) (Machine.leaveFrame r') := by
  obtain ⟨hsame, hinside, later, hlater, hheeds⟩ := h
  rw [hmoments, ← List.append_assoc] at hlater
  have hpop : (Machine.after r').frames.pop = watched.machine.frames := by rw [hinside, hframes, Array.pop_push]
  cases r with
  | ok _ left =>
    cases r' with
    | ok _ machine =>
      obtain ⟨-, rfl⟩ := hsame
      exact ⟨⟨rfl, rfl⟩, hpop, later ++ recent, hlater, hheeds.append hquiet⟩
    | error stop machine => exact hsame.elim
  | error stop left =>
    cases r' with
    | ok _ machine => exact hsame.elim
    | error stop' machine =>
      obtain ⟨rfl, rfl⟩ := hsame
      exact ⟨⟨rfl, rfl⟩, hpop, later ++ recent, hlater, hheeds.append hquiet⟩

theorem call_minds (hbody : ∀ body, (minding limits).Rel Eq (evaluateBody body) (evaluateBody' body)) (name : String)
    (address : Nat) :
    (minding limits).Rel Eq (call limits program evaluateBody name address)
      (Machine.call limits program evaluateBody' name address) := by
  intro watched hdepth
  rw [Machine.call_eq]
  change Minds limits Eq watched
    (if limits.maxCallDepth ≤ watched.machine.frames.size then
      .error (.fault (.callDepthExceeded limits.maxCallDepth)) (watched.note true)
    else _) _
  by_cases hfull : limits.maxCallDepth ≤ watched.machine.frames.size
  · -- The call is refused, and it is noted with as many active applications as the limit allows.
    have hsize : watched.machine.frames.size = limits.maxCallDepth := Nat.le_antisymm hdepth hfull
    rw [if_pos hfull, if_pos hfull]
    refine ⟨⟨rfl, rfl⟩, rfl, [⟨watched.machine.frames.size, true⟩], rfl, ?_⟩
    rw [hsize]
    exact .refused nofun
  · have hroom : watched.machine.frames.size < limits.maxCallDepth := Nat.lt_of_not_le hfull
    have hcalled : Quiet limits [⟨watched.machine.frames.size, true⟩] := by
      intro moment hmoment
      obtain rfl := List.mem_singleton.1 hmoment
      exact ⟨hdepth, fun _ => hroom⟩
    rw [if_neg hfull, if_neg hfull]
    cases program.body? name with
    | none => exact ⟨⟨rfl, rfl⟩, rfl, _, rfl, .quiet hcalled nofun⟩
    | some body =>
      dsimp only
      rw [Machine.inFrame_eq]
      have hentered : (watched.machine.frames.push address).size ≤ limits.maxCallDepth := by
        rw [Array.size_push]
        exact hroom
      have hbegun : Quiet limits [⟨(watched.machine.frames.push address).size, false⟩] := by
        intro moment hmoment
        obtain rfl := List.mem_singleton.1 hmoment
        exact ⟨hentered, nofun⟩
      exact leaveFrame_minds rfl rfl (hbegun.append hcalled) (hbody body _ hentered)

theorem backendWith_minds (hbody : ∀ body, (minding limits).Rel Eq (evaluateBody body) (evaluateBody' body)) :
    (backendWith limits program evaluateBody).Alike (minding limits) (Machine.backendWith limits program evaluateBody') where
  literal value := watch_minds (Machine.uncalled_pure value)
  parameter := watch_minds Machine.argument_uncalled
  resolveAccessor value := watch_minds (Machine.checkAddress_uncalled limits value)
  applyBuiltin address op := watch_minds (Machine.applyBuiltin_uncalled address op)
  assign address _ := watch_minds (Machine.store_uncalled address _)
  call := call_minds hbody
  resolve address := watch_minds (Machine.uncalled_bind (Machine.cell_uncalled address) fun _ => Machine.uncalled_pure _)
  enterLoop := watch_minds (Machine.uncalled_pure ())
  testLoop address := watch_minds (Machine.uncalled_bind (Machine.cell_uncalled address) fun _ => Machine.uncalled_pure _)
  exitLoop _ := watch_minds (Machine.uncalled_pure _)
  describe := rfl

variable (limits program) in
/-- A body and all it calls do on a watched machine what they do on one that is not, and heed the limits. -/
theorem passBody_minds (fuel : Nat) (body : List Token) :
    (minding limits).Rel Eq (passBody limits program fuel body) (Machine.passBody limits program fuel body) := by
  induction fuel generalizing body with
  | zero => exact (minding limits).exhausted Eq
  | succ fuel ih =>
    rw [passBody, Machine.passBody, Machine.backend_eq]
    exact Pass.run_alike program (backendWith_minds ih) minding_keepsFaults fuel _

/-! ## Programs -/

theorem stopOf?_forget (r : EStateM.Result Stop Watched α) : stopOf? (forget r) = stopOf? r := by
  cases r <;> rfl

variable (program) in
/-- The entry point of a program does on a watched machine what it does on one that is not, and heeds the limits. -/
theorem evaluateEntry_heeds (fuel : Nat) {machine : Machine} (hdepth : machine.frames.size ≤ limits.maxCallDepth) :
    let watched := evaluateEntry limits program fuel { machine }
    forget watched = Machine.evaluateEntry limits program fuel machine ∧
      Heeds limits (left watched).moments (stopOf? (Machine.evaluateEntry limits program fuel machine)) := by
  intro watched
  obtain ⟨hsame, -, recent, hmoments, hheeds⟩ := passBody_minds limits program (fuel + 1) program.entry { machine } hdepth
  have hforget : forget watched = Machine.evaluateEntry limits program fuel machine := hsame.forget_eq (fun _ _ => rfl) fun _ _ => rfl
  rw [List.append_nil] at hmoments
  refine ⟨hforget, ?_⟩
  rw [← hforget, stopOf?_forget]
  exact hmoments ▸ hheeds

end Watched

end Bracketry

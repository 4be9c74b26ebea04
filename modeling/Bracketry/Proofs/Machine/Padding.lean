import Bracketry.Proofs.Machine.Widening

/-!
# Input as a stream of bytes that ends in zeros

The input of a program matters only as far as the program takes it, and behind its end it is as if zeros followed.

* `Metered` : a machine and how many inputs it has completed; `Metered.evaluateEntry` evaluates a program on it;
* `Metered.forget_evaluateEntry` : it does what the machine does that is not metered;
* `Streams.Ahead` : two streams that have different inputs ahead of them, and agree on all else;
* `Metered.Level` : machines at the same place of their inputs; `Metered.Halted` : machines that have come to a stop;
* `Metered.Follows` : an action that does the same on both, as long as it completes no more inputs than the two have in common;
* `Metered.passBody_follows` : so does a body with all it calls;
* `Machine.run_padded` : whole programs.
-/

namespace Bracketry

/-- A machine and how many inputs it has completed. -/
structure Metered where
  machine : Machine
  inputs : Nat := 0

namespace Metered
variable {α β γ δ : Type}

/-! ## Metering -/

def lift (x : Action Machine α) : Action Metered α := fun metered =>
  match x metered.machine with
  | .ok a machine => .ok a { metered with machine }
  | .error stop machine => .error stop { metered with machine }

/-- Applies a builtin. An input counts when its byte has been stored. -/
def applyBuiltin (address : Nat) (op : Builtin) : Action Metered Unit := fun metered =>
  match lift (Machine.applyBuiltin address op) metered with
  | .ok () left => .ok () { left with inputs := if op = .input then left.inputs + 1 else left.inputs }
  | .error stop left => .error stop left

def leaveFrame : EStateM.Result Stop Metered Unit → EStateM.Result Stop Metered Unit
  | .ok () metered => .ok () { metered with machine := { metered.machine with frames := metered.machine.frames.pop } }
  | .error stop metered => .error stop { metered with machine := { metered.machine with frames := metered.machine.frames.pop } }

def call (limits : Limits) (program : Program) (evaluateBody : List Token → Action Metered Unit) (name : String)
    (address : Nat) : Action Metered Unit := fun metered =>
  if limits.maxCallDepth ≤ metered.machine.frames.size then
    .error (.fault (.callDepthExceeded limits.maxCallDepth)) metered
  else match program.body? name with
    | none => .error (.fault (.unknownToken name)) metered
    | some body =>
      leaveFrame (evaluateBody body { metered with machine :=
        { metered.machine with frames := metered.machine.frames.push address } })

def backendWith (limits : Limits) (program : Program) (evaluateBody : List Token → Action Metered Unit) :
    Backend Metered Int64 Nat :=
  let plain := Machine.backendWith limits program fun _ => Action.exhausted
  { literal value := lift (plain.literal value)
    parameter := lift plain.parameter
    resolveAccessor value := lift (plain.resolveAccessor value)
    applyBuiltin := applyBuiltin
    assign address value := lift (plain.assign address value)
    call := call limits program evaluateBody
    resolve address := lift (plain.resolve address)
    enterLoop := lift plain.enterLoop
    testLoop address := lift (plain.testLoop address)
    exitLoop address := lift (plain.exitLoop address)
    describe := plain.describe }

def passBody (limits : Limits) (program : Program) : Nat → List Token → Action Metered Unit
  | 0, _ => Action.exhausted
  | fuel + 1, body => evaluate (backendWith limits program (passBody limits program fuel)) program fuel body

def evaluateEntry (limits : Limits) (program : Program) (fuel : Nat) : Action Metered Unit :=
  passBody limits program (fuel + 1) program.entry

def left : EStateM.Result Stop Metered α → Metered
  | .ok _ metered => metered
  | .error _ metered => metered

def forget : EStateM.Result Stop Metered α → EStateM.Result Stop Machine α
  | .ok a metered => .ok a metered.machine
  | .error stop metered => .error stop metered.machine

/-! ## Metering changes nothing -/

variable {limits : Limits} {program : Program}

abbrev forgetting : Relator Metered Machine := .abreast fun metered machine => metered.machine = machine

theorem lift_forgets (x : Action Machine α) : forgetting.Rel Eq (lift x) x := by
  rintro metered _ rfl
  unfold lift
  cases x metered.machine <;> exact ⟨rfl, rfl⟩

theorem applyBuiltin_forgets (address : Nat) (op : Builtin) :
    forgetting.Rel Eq (applyBuiltin address op) (Machine.applyBuiltin address op) := by
  rintro metered _ rfl
  unfold applyBuiltin lift
  cases Machine.applyBuiltin address op metered.machine <;> exact ⟨rfl, rfl⟩

theorem leaveFrame_forgets {r : EStateM.Result Stop Metered Unit} {r' : EStateM.Result Stop Machine Unit}
    (h : Relator.Abreast (fun metered machine => metered.machine = machine) Eq r r') :
    Relator.Abreast (fun metered machine => metered.machine = machine) Eq (leaveFrame r) (Machine.leaveFrame r') := by
  cases r <;> cases r'
  · obtain ⟨-, rfl⟩ := h
    exact ⟨rfl, rfl⟩
  · exact h.elim
  · exact h.elim
  · obtain ⟨hstop, rfl⟩ := h
    exact ⟨hstop, rfl⟩

theorem call_forgets {evaluateBody : List Token → Action Metered Unit} {evaluateBody' : List Token → Action Machine Unit}
    (hbody : ∀ body, forgetting.Rel Eq (evaluateBody body) (evaluateBody' body)) (name : String) (address : Nat) :
    forgetting.Rel Eq (call limits program evaluateBody name address)
      (Machine.call limits program evaluateBody' name address) := by
  rintro metered _ rfl
  rw [Machine.call_eq]
  unfold call
  split
  · exact ⟨rfl, rfl⟩
  · cases program.body? name with
    | none => exact ⟨rfl, rfl⟩
    | some body =>
      dsimp only
      rw [Machine.inFrame_eq]
      exact leaveFrame_forgets (hbody body _ _ rfl)

theorem backendWith_forgets {evaluateBody : List Token → Action Metered Unit} {evaluateBody' : List Token → Action Machine Unit}
    (hbody : ∀ body, forgetting.Rel Eq (evaluateBody body) (evaluateBody' body)) :
    (backendWith limits program evaluateBody).Alike forgetting (Machine.backendWith limits program evaluateBody') where
  literal value := lift_forgets (pure value)
  parameter := lift_forgets _
  resolveAccessor _ := lift_forgets _
  applyBuiltin := applyBuiltin_forgets
  assign _ _ := lift_forgets _
  call := call_forgets hbody
  resolve _ := lift_forgets _
  enterLoop := lift_forgets (pure ())
  testLoop _ := lift_forgets _
  exitLoop _ := lift_forgets (pure LoopExit.again)
  describe := rfl

theorem passBody_forgets (fuel : Nat) (body : List Token) :
    forgetting.Rel Eq (passBody limits program fuel body) (Machine.passBody limits program fuel body) := by
  induction fuel generalizing body with
  | zero => exact forgetting.exhausted Eq
  | succ fuel ih =>
    rw [passBody, Machine.passBody, Machine.backend_eq]
    exact Pass.run_alike program (backendWith_forgets ih) (Relator.abreast_keepsFaults _) fuel _

theorem forget_evaluateEntry (limits : Limits) (program : Program) (fuel : Nat) (machine : Machine) :
    forget (evaluateEntry limits program fuel { machine }) = Machine.evaluateEntry limits program fuel machine :=
  (passBody_forgets (fuel + 1) program.entry { machine } machine rfl).forget_eq (fun _ _ => rfl) fun _ _ => rfl

end Metered

/-! ## Two inputs -/

namespace Streams
variable {x y : List UInt8} {taken : Nat} {streams streams' : Streams}

/-- Behind so many bytes each input is still ahead. What is written has been the same and will be received in the same way. -/
structure Ahead (x y : List UInt8) (taken : Nat) (streams streams' : Streams) : Prop where
  left : streams.reads = (x.drop taken).map .byte
  right : streams'.reads = (y.drop taken).map .byte
  writes : streams.writes = streams'.writes
  flushes : streams.flushes = streams'.flushes
  output : streams.output = streams'.output

theorem Ahead.note (h : Ahead x y taken streams streams') {after after' : Streams} (event : Event)
    (hlog : after.log = event :: streams.log) (hlog' : after'.log = event :: streams'.log) : after.output = after'.output := by
  rw [output_note event hlog, output_note event hlog', h.output]

theorem Ahead.flush (h : Ahead x y taken streams streams') :
    streams.flush.1 = streams'.flush.1 ∧ Ahead x y taken streams.flush.2 streams'.flush.2 := by
  unfold Streams.flush
  rw [← h.flushes]
  cases streams.flushes with
  | nil => exact ⟨rfl, h.left, h.right, h.writes, rfl, h.note (.flush .done) rfl rfl⟩
  | cons reply flushes => exact ⟨rfl, h.left, h.right, h.writes, rfl, h.note (.flush reply) rfl rfl⟩

theorem Ahead.writeFrom (h : Ahead x y taken streams streams') (value : UInt8) (replies : List WriteReply) :
    (streams.writeFrom value replies).1 = (streams'.writeFrom value replies).1 ∧
      Ahead x y taken (streams.writeFrom value replies).2 (streams'.writeFrom value replies).2 := by
  induction replies generalizing streams streams' with
  | nil => exact ⟨rfl, h.left, h.right, rfl, h.flushes, h.note (.write value .accepted) rfl rfl⟩
  | cons reply replies ih =>
    have hnoted : Ahead x y taken { streams with writes := replies, log := .write value reply :: streams.log }
        { streams' with writes := replies, log := .write value reply :: streams'.log } :=
      ⟨h.left, h.right, rfl, h.flushes, h.note (.write value reply) rfl rfl⟩
    cases reply with
    | accepted => exact ⟨rfl, hnoted⟩
    | nothing => exact ⟨rfl, hnoted⟩
    | fault fault =>
      cases fault with
      | interrupted => exact ih hnoted
      | _ => exact ⟨rfl, hnoted⟩

theorem Ahead.write (h : Ahead x y taken streams streams') (value : UInt8) :
    (streams.write value).1 = (streams'.write value).1 ∧ Ahead x y taken (streams.write value).2 (streams'.write value).2 := by
  unfold Streams.write
  rw [← h.writes]
  exact h.writeFrom value _

theorem read_eq {input : List UInt8} (h : streams.reads = (input.drop taken).map .byte) :
    ∃ event : Event, event.byteWritten? = none ∧ streams.read = (.ok (input.getD taken 0),
      { streams with reads := (input.drop (taken + 1)).map .byte, log := event :: streams.log }) := by
  unfold read
  rw [h, List.getD_eq_getElem?_getD]
  by_cases htaken : taken < input.length
  · rw [List.drop_eq_getElem_cons htaken, List.getElem?_eq_getElem htaken]
    exact ⟨.read (.byte input[taken]), rfl, rfl⟩
  · have hle : input.length ≤ taken := Nat.le_of_not_lt htaken
    rw [List.drop_eq_nil_of_le hle, List.drop_eq_nil_of_le (Nat.le_succ_of_le hle), List.getElem?_eq_none hle]
    exact ⟨.read .nothing, rfl, rfl⟩

theorem Ahead.read (h : Ahead x y taken streams streams') :
    streams.read.1 = .ok (x.getD taken 0) ∧ streams'.read.1 = .ok (y.getD taken 0) ∧
      Ahead x y (taken + 1) streams.read.2 streams'.read.2 := by
  obtain ⟨event, hevent, hread⟩ := read_eq h.left
  obtain ⟨event', hevent', hread'⟩ := read_eq h.right
  rw [hread, hread']
  refine ⟨rfl, rfl, rfl, rfl, h.writes, h.flushes, ?_⟩
  have hsilent : ∀ {before after : Streams} {event : Event}, event.byteWritten? = none → after.log = event :: before.log →
      after.output = before.output := by
    intro before after event hevent hlog
    rw [output_note event hlog, hevent]
    exact List.append_nil _
  exact (hsilent hevent rfl).trans (h.output.trans (hsilent hevent' rfl).symm)

end Streams

namespace Metered
variable {x y : List UInt8} {few : Nat} {α β γ δ : Type}

/-- Machines that have completed as many inputs, and have each the rest of its own ahead. -/
def Level (x y : List UInt8) (metered metered' : Metered) : Prop :=
  metered.inputs = metered'.inputs ∧
    Machine.Paired Eq (Streams.Ahead x y metered.inputs) metered.machine metered'.machine

/-- Machines that have come to a stop. One more byte may have been read for an input that has not been completed. -/
def Halted (x y : List UInt8) (metered metered' : Metered) : Prop :=
  metered.inputs = metered'.inputs ∧
    Machine.Paired Eq (fun streams streams' => ∃ taken, Streams.Ahead x y taken streams streams') metered.machine metered'.machine

theorem Level.halted {metered metered' : Metered} (h : Level x y metered metered') : Halted x y metered metered' :=
  ⟨h.1, h.2.memory, ⟨_, h.2.streams⟩, h.2.frames⟩

/-- Results with related values on machines at the same place of their inputs, or one stop of both. -/
def Even (x y : List UInt8) (R : α → β → Prop) : EStateM.Result Stop Metered α → EStateM.Result Stop Metered β → Prop
  | .ok a metered, .ok b metered' => R a b ∧ Level x y metered metered'
  | .error stop metered, .error stop' metered' => stop = stop' ∧ Halted x y metered metered'
  | _, _ => False

/-- The second action ends as the first does, from machines at the same place of their inputs, if the first completes only so few. -/
structure Follows (x y : List UInt8) (few : Nat) (R : α → β → Prop) (X : Action Metered α) (Y : Action Metered β) : Prop where
  even {metered metered' : Metered} (h : Level x y metered metered') (hfew : (left (X metered)).inputs ≤ few) :
    Even x y R (X metered) (Y metered')
  grows (metered : Metered) : metered.inputs ≤ (left (X metered)).inputs
  /-- What comes after the first action is known even where it is not followed. -/
  value {metered after : Metered} {a : α} (h : X metered = .ok a after) : ∃ b, R a b

section
variable {metered metered' : Metered} {X : Action Metered α} {Y : Action Metered β} {f : α → Action Metered γ}
  {g : β → Action Metered δ} {R : α → β → Prop} {S : γ → δ → Prop}

theorem Even.bind (h : Even x y R (X metered) (Y metered'))
    (hok : ∀ {a b mid mid'}, X metered = .ok a mid → R a b → Level x y mid mid' → Even x y S (f a mid) (g b mid')) :
    Even x y S ((X >>= f) metered) ((Y >>= g) metered') := by
  cases hX : X metered with
  | ok a mid =>
    cases hY : Y metered' with
    | ok b mid' =>
      rw [hX, hY] at h
      rw [Action.bind_of_ok hX, Action.bind_of_ok hY]
      exact hok hX h.1 h.2
    | error stop mid' => rw [hX, hY] at h; exact h.elim
  | error stop mid =>
    cases hY : Y metered' with
    | ok b mid' => rw [hX, hY] at h; exact h.elim
    | error stop' mid' =>
      rw [hX, hY] at h
      rw [Action.bind_of_error hX, Action.bind_of_error hY]
      exact h

theorem inputs_le_bind (hf : ∀ a mid, X metered = .ok a mid → mid.inputs ≤ (left (f a mid)).inputs) :
    (left (X metered)).inputs ≤ (left ((X >>= f) metered)).inputs := by
  cases hX : X metered with
  | ok a mid =>
    rw [Action.bind_of_ok hX]
    exact hf a mid hX
  | error stop mid =>
    rw [Action.bind_of_error hX]
    exact Nat.le_refl _

theorem Follows.bind (hXY : Follows x y few R X Y) (hfg : ∀ a b, R a b → Follows x y few S (f a) (g b)) :
    Follows x y few S (X >>= f) (Y >>= g) := by
  have hgrows : ∀ metered, (left (X metered)).inputs ≤ (left ((X >>= f) metered)).inputs := by
    refine fun metered => inputs_le_bind fun a mid hX => ?_
    obtain ⟨b, hab⟩ := hXY.value hX
    exact (hfg a b hab).grows mid
  refine ⟨fun {metered metered'} h hfew => ?_, fun metered => Nat.le_trans (hXY.grows metered) (hgrows metered), fun hbind => ?_⟩
  · refine (hXY.even h (Nat.le_trans (hgrows metered) hfew)).bind fun {a b mid mid'} hX hab hlevel => ?_
    rw [Action.bind_of_ok hX] at hfew
    exact (hfg a b hab).even hlevel hfew
  · obtain ⟨a, mid, hX, hf⟩ := Action.of_bind_eq_ok hbind
    obtain ⟨b, hab⟩ := hXY.value hX
    exact (hfg a b hab).value hf

end

def following (x y : List UInt8) (few : Nat) : Relator Metered Metered where
  Rel := Follows x y few
  pure h := ⟨fun hlevel _ => ⟨h, hlevel⟩, fun _ => Nat.le_refl _, fun heq => ⟨_, (EStateM.Result.ok.inj heq).1 ▸ h⟩⟩
  bind := Follows.bind
  exhausted _ := ⟨fun hlevel _ => ⟨rfl, hlevel.halted⟩, fun _ => Nat.le_refl _, nofun⟩

theorem following_keepsFaults : (following x y few).KeepsFaults :=
  fun _ _ => ⟨fun hlevel _ => ⟨rfl, hlevel.halted⟩, fun _ => Nat.le_refl _, nofun⟩

/-! ## Operations -/

theorem inputs_lift (op : Action Machine α) (metered : Metered) : (left (lift op metered)).inputs = metered.inputs := by
  unfold lift
  cases op metered.machine <;> rfl

theorem lift_follows {op : Action Machine α} (h : ∀ taken, (Machine.pairs Eq (Streams.Ahead x y taken)).Rel Eq op op) :
    (following x y few).Rel Eq (lift op) (lift op) := by
  refine ⟨fun {metered metered'} hlevel _ => ?_, fun metered => Nat.le_of_eq (inputs_lift op metered).symm, fun _ => ⟨_, rfl⟩⟩
  have hpaired := h _ _ _ hlevel.2
  unfold lift
  cases hleft : op metered.machine with
  | ok a machine =>
    cases hright : op metered'.machine with
    | ok b machine' =>
      rw [hleft, hright] at hpaired
      exact ⟨hpaired.1, hlevel.1, hpaired.2⟩
    | error stop machine' =>
      rw [hleft, hright] at hpaired
      exact hpaired.elim
  | error stop machine =>
    cases hright : op metered'.machine with
    | ok b machine' =>
      rw [hleft, hright] at hpaired
      exact hpaired.elim
    | error stop' machine' =>
      rw [hleft, hright] at hpaired
      exact ⟨hpaired.1, Level.halted ⟨hlevel.1, hpaired.2⟩⟩

theorem applyBuiltin_of_ne_input (address : Nat) {op : Builtin} (hop : op ≠ .input) :
    applyBuiltin address op = lift (Machine.applyBuiltin address op) := by
  funext metered
  unfold applyBuiltin
  cases lift (Machine.applyBuiltin address op) metered with
  | ok _ left => exact congrArg (fun inputs => EStateM.Result.ok () { left with inputs }) (if_neg hop)
  | error stop left => rfl

end Metered

namespace Machine
variable {x y : List UInt8} {taken : Nat} {machine machine' : Machine}

/-- The byte for an input is the next one of its own input on each machine, or the flush before it fails on both. -/
theorem readByte_ahead (h : Paired Eq (Streams.Ahead x y taken) machine machine') :
    (∃ streams streams', readByte machine = .ok (x.getD taken 0) { machine with streams } ∧
      readByte machine' = .ok (y.getD taken 0) { machine' with streams := streams' } ∧
      Streams.Ahead x y (taken + 1) streams streams') ∨
    ∃ stop mid mid', readByte machine = .error stop mid ∧ readByte machine' = .error stop mid' ∧
      Paired Eq (Streams.Ahead x y taken) mid mid' := by
  obtain ⟨hresult, hflushed⟩ := h.streams.flush
  cases hleft : machine.streams.flush with
  | mk result streams =>
    cases hright : machine'.streams.flush with
    | mk result' streams' =>
      rw [hleft, hright] at hresult hflushed
      dsimp only at hresult
      subst hresult
      cases result with
      | ok _ =>
        obtain ⟨hx, hy, hread⟩ := Streams.Ahead.read hflushed
        refine .inl ⟨streams.read.2, streams'.read.2, ?_, ?_, hread⟩
        · exact (Action.bind_of_ok (perform_of_ok hleft)).trans (perform_of_ok (Prod.ext hx rfl))
        · exact (Action.bind_of_ok (perform_of_ok hright)).trans (perform_of_ok (Prod.ext hy rfl))
      | error fault =>
        exact .inr ⟨_, _, _, Action.bind_of_error (perform_of_error hleft), Action.bind_of_error (perform_of_error hright),
          h.memory, hflushed, h.frames⟩

/-- An input stores on each machine what its own input gives next, or stops both. -/
theorem input_ahead (h : Paired Eq (Streams.Ahead x y taken) machine machine') (address : Nat) :
    (∃ mid mid', applyBuiltin address .input machine = .ok () mid ∧ applyBuiltin address .input machine' = .ok () mid' ∧
      (x.getD taken 0 = y.getD taken 0 → Paired Eq (Streams.Ahead x y (taken + 1)) mid mid')) ∨
    ∃ stop mid mid', applyBuiltin address .input machine = .error stop mid ∧
      applyBuiltin address .input machine' = .error stop mid' ∧
      Paired Eq (fun streams streams' => ∃ taken, Streams.Ahead x y taken streams streams') mid mid' := by
  rcases readByte_ahead h with ⟨streams, streams', hx, hy, hahead⟩ | ⟨stop, mid, mid', hx, hy, hpaired⟩
  · have hleft : applyBuiltin address .input machine = store address (x.getD taken 0) { machine with streams } :=
      Action.bind_of_ok hx
    have hright : applyBuiltin address .input machine' = store address (y.getD taken 0) { machine' with streams := streams' } :=
      Action.bind_of_ok hy
    have hmemory : machine.memory = machine'.memory := h.memory
    rw [hleft, hright]
    unfold store
    dsimp only
    rw [← hmemory]
    by_cases hcell : address < machine.memory.size
    · rw [if_pos hcell, if_pos hcell]
      exact .inl ⟨_, _, rfl, rfl, fun hsame => ⟨by rw [hsame], hahead, h.frames⟩⟩
    · rw [if_neg hcell, if_neg hcell]
      exact .inr ⟨_, _, _, rfl, rfl, rfl, ⟨_, hahead⟩, h.frames⟩
  · exact .inr ⟨stop, mid, mid', Action.bind_of_error hx, Action.bind_of_error hy, hpaired.memory, ⟨_, hpaired.streams⟩,
      hpaired.frames⟩

end Machine

namespace Metered
variable {x y : List UInt8} {few : Nat}

theorem input_follows (hsame : ∀ i < few, x.getD i 0 = y.getD i 0) (address : Nat) :
    (following x y few).Rel Eq (applyBuiltin address .input) (applyBuiltin address .input) := by
  refine ⟨fun {metered metered'} hlevel hfew => ?_, fun metered => ?_, fun _ => ⟨_, rfl⟩⟩
  · rcases Machine.input_ahead hlevel.2 address with ⟨mid, mid', hx, hy, hahead⟩ | ⟨stop, mid, mid', hx, hy, hpaired⟩
    · unfold applyBuiltin lift at hfew ⊢
      rw [hx] at hfew ⊢
      rw [hy]
      exact ⟨rfl, congrArg (· + 1) hlevel.1, hahead (hsame _ hfew)⟩
    · unfold applyBuiltin lift
      rw [hx, hy]
      exact ⟨rfl, hlevel.1, hpaired⟩
  · unfold applyBuiltin lift
    cases Machine.applyBuiltin address .input metered.machine with
    | ok _ machine => exact Nat.le_succ _
    | error stop machine => exact Nat.le_refl _

theorem applyBuiltin_follows (hsame : ∀ i < few, x.getD i 0 = y.getD i 0) (address : Nat) (op : Builtin) :
    (following x y few).Rel Eq (applyBuiltin address op) (applyBuiltin address op) := by
  have hcell (taken : Nat) : (Machine.pairs Eq (Streams.Ahead x y taken)).Rel Eq (Machine.cell address) (Machine.cell address) :=
    Machine.cell_pairs (.eq _) (Nat.lt_succ_self address)
  have hstore (taken : Nat) (value : UInt8) :
      (Machine.pairs Eq (Streams.Ahead x y taken)).Rel Eq (Machine.store address value) (Machine.store address value) :=
    Machine.store_pairs (.eq _) (Nat.lt_succ_self address) value
  by_cases hop : op = .input
  · subst hop
    exact input_follows hsame address
  · rw [applyBuiltin_of_ne_input address hop]
    refine lift_follows fun taken => ?_
    cases op with
    | increment => exact Relator.bind_eq _ (hcell taken) fun value => hstore taken (value + 1)
    | decrement => exact Relator.bind_eq _ (hcell taken) fun value => hstore taken (value - 1)
    | output => exact Relator.bind_eq _ (hcell taken) fun value => Machine.perform_pairs fun h => h.write value
    | input => exact absurd rfl hop
    | nop => exact Relator.pure _ rfl

variable {limits : Limits} {program : Program} {evaluateBody : List Token → Action Metered Unit}

theorem leaveFrame_even {r r' : EStateM.Result Stop Metered Unit} (h : Even x y Eq r r') :
    Even x y Eq (leaveFrame r) (leaveFrame r') := by
  cases r <;> cases r'
  · obtain ⟨-, hinputs, hmemory, hstreams, hframes⟩ := h
    exact ⟨rfl, hinputs, hmemory, hstreams, congrArg Array.pop hframes⟩
  · exact h.elim
  · exact h.elim
  · obtain ⟨hstop, hinputs, hmemory, hstreams, hframes⟩ := h
    exact ⟨hstop, hinputs, hmemory, hstreams, congrArg Array.pop hframes⟩

theorem inputs_leaveFrame (r : EStateM.Result Stop Metered Unit) : (left (leaveFrame r)).inputs = (left r).inputs := by
  cases r <;> rfl

theorem call_follows (hbody : ∀ body, (following x y few).Rel Eq (evaluateBody body) (evaluateBody body)) (name : String)
    (address : Nat) :
    (following x y few).Rel Eq (call limits program evaluateBody name address) (call limits program evaluateBody name address) := by
  refine ⟨fun {metered metered'} hlevel hfew => ?_, fun metered => ?_, fun _ => ⟨_, rfl⟩⟩
  · unfold call at hfew ⊢
    rw [← hlevel.2.frames]
    by_cases hdepth : limits.maxCallDepth ≤ metered.machine.frames.size
    · rw [if_pos hdepth, if_pos hdepth]
      exact ⟨rfl, hlevel.halted⟩
    · rw [if_neg hdepth] at hfew
      rw [if_neg hdepth, if_neg hdepth]
      cases hname : program.body? name with
      | none => exact ⟨rfl, hlevel.halted⟩
      | some body =>
        rw [hname] at hfew
        dsimp only at hfew ⊢
        rw [inputs_leaveFrame] at hfew
        exact leaveFrame_even ((hbody body).even ⟨hlevel.1, hlevel.2.memory, hlevel.2.streams, rfl⟩ hfew)
  · unfold call
    split
    · exact Nat.le_refl _
    · cases program.body? name with
      | none => exact Nat.le_refl _
      | some body =>
        dsimp only
        rw [inputs_leaveFrame]
        exact (hbody body).grows { metered with machine := { metered.machine with frames := metered.machine.frames.push address } }

theorem checkAddress_follows (value : Int64) :
    (following x y few).Rel Eq (lift (Action.ofExcept (limits.checkAddress value)))
      (lift (Action.ofExcept (limits.checkAddress value))) := by
  refine lift_follows fun taken => ?_
  cases limits.checkAddress value with
  | ok address => exact Relator.pure _ rfl
  | error error => exact fun _ _ h => ⟨rfl, h⟩

/-- The operations of a body, as long as the inputs that it completes are common to both. -/
theorem backendWith_follows (hsame : ∀ i < few, x.getD i 0 = y.getD i 0)
    (hbody : ∀ body, (following x y few).Rel Eq (evaluateBody body) (evaluateBody body)) :
    (backendWith limits program evaluateBody).Alike (following x y few) (backendWith limits program evaluateBody) where
  literal _ := lift_follows fun _ => Relator.pure _ rfl
  parameter := lift_follows fun _ => Machine.argument_pairs
  resolveAccessor := checkAddress_follows
  applyBuiltin := applyBuiltin_follows hsame
  assign address _ := lift_follows fun _ => Machine.store_pairs (.eq _) (Nat.lt_succ_self address) _
  call := call_follows hbody
  resolve address := lift_follows fun _ =>
    Relator.bind_eq _ (Machine.cell_pairs (.eq _) (Nat.lt_succ_self address)) fun _ => Relator.pure _ rfl
  enterLoop := lift_follows fun _ => Relator.pure _ rfl
  testLoop address := lift_follows fun _ =>
    Relator.bind_eq _ (Machine.cell_pairs (.eq _) (Nat.lt_succ_self address)) fun _ => Relator.pure _ rfl
  exitLoop _ := lift_follows fun _ => Relator.pure _ rfl
  describe := rfl

variable (limits program) in
/-- A body and all it calls, as long as the inputs that they complete are common to both. -/
theorem passBody_follows (hsame : ∀ i < few, x.getD i 0 = y.getD i 0) (fuel : Nat) (body : List Token) :
    (following x y few).Rel Eq (passBody limits program fuel body) (passBody limits program fuel body) := by
  induction fuel generalizing body with
  | zero => exact (following x y few).exhausted Eq
  | succ fuel ih =>
    rw [passBody]
    exact Pass.run_alike program (backendWith_follows hsame ih) following_keepsFaults fuel _

theorem Even.forget {r r' : EStateM.Result Stop Metered Unit} (h : Even x y Eq r r') :
    (left r).inputs = (left r').inputs ∧
      Relator.Abreast (Machine.Paired Eq fun streams streams' => ∃ taken, Streams.Ahead x y taken streams streams') Eq
        (forget r) (forget r') := by
  cases r <;> cases r'
  · exact ⟨h.2.1, rfl, h.2.halted.2⟩
  · exact h.elim
  · exact h.elim
  · exact ⟨h.2.1, h.1, h.2.2⟩

end Metered

/-! ## Whole programs -/

namespace Machine

theorem flush_ahead {x y : List UInt8} :
    (pairs Eq fun streams streams' => ∃ taken, Streams.Ahead x y taken streams streams').Rel Eq
      (perform Streams.flush) (perform Streams.flush) := by
  refine perform_pairs ?_
  rintro streams streams' ⟨taken, h⟩
  exact ⟨h.flush.1, taken, h.flush.2⟩

/-- Input is read as a stream of bytes that ends in zeros, and only as far as it is taken: if two inputs agree on so many bytes as a
program completes inputs on the first, it has the same result, output and memory on the second, and completes as many. -/
theorem run_padded (limits : Limits) (program : Program) (fuel : Nat) (memory : Memory) (writes : List WriteReply)
    (flushes : List FlushReply) (x y : List UInt8) :
    let start (input : List UInt8) : Machine := { memory, streams := { reads := input.map .byte, writes, flushes } }
    let metered input := Metered.evaluateEntry limits program fuel { machine := start input }
    let inputs input := (Metered.left (metered input)).inputs
    let r input := run limits program fuel (start input)
    (∀ input, Metered.forget (metered input) = evaluateEntry limits program fuel (start input)) ∧
      ((∀ i < inputs x, x.getD i 0 = y.getD i 0) →
        resultOf (r y) = resultOf (r x) ∧ (after (r y)).streams.output = (after (r x)).streams.output ∧
          (after (r y)).memory = (after (r x)).memory ∧ inputs y = inputs x) := by
  intro start metered inputs r
  have hforget : ∀ input, Metered.forget (metered input) = evaluateEntry limits program fuel (start input) :=
    fun input => Metered.forget_evaluateEntry limits program fuel (start input)
  refine ⟨hforget, fun hsame => ?_⟩
  have hlevel : Metered.Level x y { machine := start x } { machine := start y } := ⟨rfl, rfl, ⟨rfl, rfl, rfl, rfl, rfl⟩, rfl⟩
  have hfollows := Metered.passBody_follows limits program hsame (fuel + 1) program.entry
  obtain ⟨hinputs, habreast⟩ := (hfollows.even hlevel (Nat.le_refl _)).forget
  replace habreast : Relator.Abreast _ Eq (Metered.forget (metered x)) (Metered.forget (metered y)) := habreast
  have hlast := lastFlush_abreast flush_ahead habreast
  rw [hforget, hforget, evaluateEntry_eq, ← run_eq, ← run_eq] at hlast
  obtain ⟨hresult, hmemory, ⟨taken, hahead⟩, -⟩ := resultOf_eq_of_abreast hlast
  exact ⟨hresult.symm, hahead.output.symm, hmemory.symm, hinputs.symm⟩

/-- `[0 ,] (0 [0 . ,])` copies its input up to a zero. It does not tell the end of the input from a zero, and leaves what is behind. -/
theorem run_padded_of_terminator :
    let program : Program := .ofEntry [.opening .applicator, .literal 0, .builtin .input, .closing .applicator,
      .opening .conditional, .literal 0, .opening .applicator, .literal 0, .builtin .output, .builtin .input, .closing .applicator,
      .closing .conditional]
    let start (input : List UInt8) : Machine := { memory := .zeroed 1, streams := { reads := input.map .byte } }
    let inputs input := (Metered.left (Metered.evaluateEntry ⟨1, 0⟩ program 20 { machine := start input })).inputs
    let r input := run ⟨1, 0⟩ program 20 (start input)
    inputs [7, 8] = 3 ∧ (∀ i < inputs [7, 8], [7, 8].getD i (0 : UInt8) = [7, 8, 0, 9].getD i 0) ∧
      resultOf (r [7, 8, 0, 9]) = .ok () ∧ (after (r [7, 8, 0, 9])).streams.output = [7, 8] ∧ inputs [7, 8, 0, 9] = 3 := by
  intro program start inputs r
  have hinputs : inputs [7, 8] = 3 := by decide +kernel
  have hresult : resultOf (r [7, 8]) = .ok () := by decide +kernel
  have houtput : (after (r [7, 8])).streams.output = [7, 8] := by decide +kernel
  have hsame : ∀ i < inputs [7, 8], [7, 8].getD i (0 : UInt8) = [7, 8, 0, 9].getD i 0 := by
    rw [hinputs]
    decide
  obtain ⟨-, hpadded⟩ := run_padded ⟨1, 0⟩ program 20 (.zeroed 1) [] [] [7, 8] [7, 8, 0, 9]
  obtain ⟨hresult', houtput', -, hinputs'⟩ := hpadded hsame
  exact ⟨hinputs, hsame, hresult'.trans hresult, houtput'.trans houtput, hinputs'.trans hinputs⟩

end Machine

end Bracketry

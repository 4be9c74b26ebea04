import Bracketry.Proofs.CProgram.Mirror

/-!
# Addresses that stay what they were

A machine finds out the value of an applicator when its bracket closes. In C that value is the cell itself, and every statement
that uses it reads it again. Both are the same as long as nobody writes to the cell in between.

* `Steady.Tracked` : a number that a machine has found out, with the expression that stands for it in C;
* `Steady.backend`, `Steady.body` : a machine that stops where an expression is used and is no longer the number;
* `Steady` : a program that such a machine runs to its end;
* `Steady.backend_plain`, `Steady.body_plain` : until it stops it is the machine without expressions;
* `Steady.backend_mirrors`, `Steady.body_mirrors` : until it stops the C program goes on side by side with it;
* `endsWith_iff_reference` : what the C program does after a run that ends well.
-/

namespace Bracketry.CProgram

/-! ## Machines that look back -/

namespace Steady

/-- A number that a machine has found out, with the expression that stands for it in C. -/
structure Tracked (α : Type) where
  known : α
  written : Expr

/-- Stops unless the expression is the number now. -/
def check (e : Expr) (number : Int) : Action Machine Unit := fun machine =>
  if (e.eval machine.memory (argumentOf machine.frames)).toOption = some number then .ok () machine
  else .error (.fault (.invalidAccessor e.describe)) machine

def checkAddress (address : Tracked Nat) : Action Machine Unit := check address.written address.known

/-- The operations of a machine that looks at every expression before it uses the number. -/
def backend (limits : Limits) (program : Program) (evaluateBody : List Token → Action Machine Unit) :
    Backend Machine (Tracked Int64) (Tracked Nat) :=
  let plain := Machine.backendWith limits program evaluateBody
  { literal := fun value => return ⟨← plain.literal value, .literal value⟩
    parameter := return ⟨← plain.parameter, .parameter⟩
    resolveAccessor := fun value => return ⟨← plain.resolveAccessor value.known, value.written⟩
    applyBuiltin := fun address op =>
      if op = .nop then plain.applyBuiltin address.known op
      else do
        checkAddress address
        plain.applyBuiltin address.known op
    assign := fun address value => do
      checkAddress address
      check value.written value.known.toInt
      plain.assign address.known value.known
    call := fun name address => do
      checkAddress address
      plain.call name address.known
    resolve := fun address => return ⟨← plain.resolve address.known, .cell address.written⟩
    enterLoop := plain.enterLoop
    testLoop := fun address => do
      checkAddress address
      plain.testLoop address.known
    exitLoop := fun address => plain.exitLoop address.known
    describe := fun value => plain.describe value.known }

def body (limits : Limits) (program : Program) : Nat → List Token → Action Machine Unit
  | 0, _ => Action.exhausted
  | fuel + 1, tokens => (Forest.ofTokens tokens).evaluate (backend limits program (body limits program fuel)) program fuel

end Steady

/-- On this input, every expression that the program uses is still the number that it was when its bracket closed. -/
def Steady (limits : Limits) (program : Program) (input : List UInt8) : Prop :=
  ∃ fuel machine, Steady.body limits program fuel program.entry (Machine.fresh limits input) = .ok () machine

namespace Steady

variable {limits : Limits} {program : Program} {inApplication : Bool} {frames : Array Nat}

theorem check_eq_ok {e : Expr} {number : Int} {machine machine' : Machine} (h : check e number machine = .ok () machine') :
    machine' = machine ∧ e.eval machine.memory (argumentOf machine.frames) = .ok number := by
  unfold check at h
  split at h
  · next hvalue =>
    cases heval : e.eval machine.memory (argumentOf machine.frames) with
    | ok value =>
      rw [heval] at hvalue
      obtain rfl := Option.some.inj hvalue
      exact ⟨(EStateM.Result.ok.inj h).2.symm, rfl⟩
    | error error =>
      rw [heval] at hvalue
      cases hvalue
  · cases h

/-! ## The machine without expressions -/

/-- Whatever stops the first side is excused. -/
abbrev plainly : Relator Machine Machine := .alongside (fun _ => True) Eq

theorem plainly_refl {α : Type} (x : Action Machine α) : plainly.Rel Eq x x := by
  rintro machine _ rfl
  cases x machine with
  | ok a machine' => exact ⟨rfl, rfl⟩
  | error stop machine' => exact .inl trivial

theorem plainly_check {α : Type} {R : α → α → Prop} {x y : Action Machine α} (e : Expr) (number : Int)
    (hxy : plainly.Rel R x y) : plainly.Rel R (check e number >>= fun _ => x) y := by
  rintro machine _ rfl
  cases hcheck : check e number machine with
  | ok _ machine' =>
    obtain ⟨rfl, -⟩ := check_eq_ok hcheck
    rw [Action.bind_of_ok hcheck]
    exact hxy _ _ rfl
  | error stop machine' =>
    rw [Action.bind_of_error hcheck]
    exact .inl trivial

theorem plainly_tracked {α β : Type} (x : Action Machine α) {f : α → β} {R : β → α → Prop} (h : ∀ a, R (f a) a) :
    plainly.Rel R (x >>= fun a => pure (f a)) x := by
  have hbind := plainly.bind (plainly_refl x) (f := fun a => pure (f a)) (g := pure) (S := R)
    (by rintro a _ rfl; exact plainly.pure (h a))
  rwa [bind_pure] at hbind

theorem plainly_call {evaluateBody evaluateBody' : List Token → Action Machine Unit}
    (hbody : ∀ name body, program.body? name = some body → name ≠ entryName →
      plainly.Rel Eq (evaluateBody body) (evaluateBody' body))
    {name : String} (happlication : program.isApplication name = true) (address : Nat) :
    plainly.Rel Eq (Machine.call limits program evaluateBody name address)
      (Machine.call limits program evaluateBody' name address) := by
  obtain ⟨body, hlookup, hname⟩ := Program.exists_body_of_isApplication happlication
  rintro machine _ rfl
  rw [Machine.call_eq, Machine.call_eq]
  split
  · exact .inl trivial
  · simp only [hlookup, Machine.inFrame_eq]
    have hresult := hbody name body hlookup hname { machine with frames := machine.frames.push address } _ rfl
    cases heq : evaluateBody body { machine with frames := machine.frames.push address } with
    | ok _ machine' =>
      rw [heq] at hresult
      obtain ⟨_, _, heq', -, rfl⟩ := Relator.exists_of_alongside hresult
      rw [heq']
      exact ⟨rfl, rfl⟩
    | error stop machine' => exact .inl trivial

theorem plainly_literal (value : Int64) :
    plainly.Rel (fun tracked number => tracked.known = number)
      (return ⟨← pure value, .literal value⟩ : Action Machine (Tracked Int64)) (pure value) :=
  plainly_tracked (pure value) fun _ => rfl

theorem plainly_parameter :
    plainly.Rel (fun tracked number => tracked.known = number)
      (return ⟨← Machine.argument, .parameter⟩ : Action Machine (Tracked Int64)) Machine.argument :=
  plainly_tracked Machine.argument fun _ => rfl

/-- Until it stops, a machine that looks back does what the machine does. -/
theorem backend_plain {evaluateBody evaluateBody' : List Token → Action Machine Unit}
    (hbody : ∀ name body, program.body? name = some body → name ≠ entryName →
      plainly.Rel Eq (evaluateBody body) (evaluateBody' body)) :
    (backend limits program evaluateBody).Follows plainly (translatable limits program inApplication)
      (fun value number => value.known = number) (fun address number => address.known = number) program
      (Machine.backendWith limits program evaluateBody') where
  accessor t ht := by
    cases t with
    | literal value =>
      refine plainly.bind (plainly_literal value) ?_
      rintro tracked _ rfl
      exact plainly_tracked (Action.ofExcept (limits.checkAddress tracked.known)) fun _ => rfl
    | parameter =>
      refine plainly.bind plainly_parameter ?_
      rintro tracked _ rfl
      exact plainly_tracked (Action.ofExcept (limits.checkAddress tracked.known)) fun _ => rfl
    | _ => cases ht
  resolveAccessor value _ _ hvalue := by
    subst hvalue
    exact plainly_tracked (Action.ofExcept (limits.checkAddress value.known)) fun _ => rfl
  applyToken t address number ht haddress := by
    subst haddress
    cases t with
    | builtin op =>
      by_cases hnop : op = .nop
      · subst hnop
        exact plainly_refl (pure ())
      · unfold Pass.applyToken backend
        simp only [if_neg hnop]
        exact plainly_check _ _ (plainly_refl _)
    | literal value => exact plainly_check _ _ (plainly_check _ _ (plainly_refl _))
    | parameter =>
      refine plainly.bind plainly_parameter ?_
      rintro tracked _ rfl
      exact plainly_check _ _ (plainly_check _ _ (plainly_refl _))
    | identifier name =>
      change program.isApplication name = true at ht
      unfold Pass.applyToken
      simp only [ht, if_true]
      exact plainly_check _ _ (plainly_call hbody ht _)
    | _ => cases ht
  assign address number value _ _ haddress hvalue := by
    subst haddress hvalue
    exact plainly_check _ _ (plainly_check _ _ (plainly_refl _))
  resolve address number haddress := by
    subst haddress
    exact plainly_tracked _ fun _ => rfl

theorem backend_loopsPlain {evaluateBody evaluateBody' : List Token → Action Machine Unit} (fuel : Nat) :
    (backend limits program evaluateBody).LoopsFollow plainly (plainly.Rel Eq)
      (fun address number => address.known = number) fuel fuel (Machine.backendWith limits program evaluateBody') := by
  refine Backend.LoopsFollow.of_operations (b := backend limits program evaluateBody) (plainly_refl (pure ())) ?_ ?_ fuel
  · rintro address _ rfl
    exact plainly_check _ _ (plainly_refl _)
  · exact fun _ _ _ => plainly_refl (pure LoopExit.again)

theorem body_plain (h : Translates limits program) (fuel : Nat) {tokens : List Token}
    (hfits : (Forest.ofTokens tokens).fits (translatable limits program inApplication) .top = true) :
    plainly.Rel Eq (body limits program fuel tokens) (Machine.forestBody limits program fuel tokens) := by
  induction fuel generalizing inApplication tokens with
  | zero => exact plainly.exhausted Eq
  | succ fuel ih =>
    refine Forest.evaluate_related (backend_plain fun name called hlookup hname => ?_) (backend_loopsPlain fuel) hfits
    exact ih (h.application name called hlookup hname)

/-! ## The C program -/

section
variable {size : Nat} {α β : Type}

theorem check_mirrors {R : α → β → Prop} {x : Action Machine α} {y : Action State β} {e : Expr} {number : Int}
    {machine : Machine} {state : State} (h : Mirrors size frames machine state)
    (hxy : e.eval state.memory (argumentOf frames) = .ok number →
      Relator.Alongside (fun _ => True) (Mirrors size frames) R (x machine) (y state)) :
    Relator.Alongside (fun _ => True) (Mirrors size frames) R ((check e number >>= fun _ => x) machine) (y state) := by
  cases hcheck : check e number machine with
  | ok _ machine' =>
    obtain ⟨rfl, hvalue⟩ := check_eq_ok hcheck
    rw [Action.bind_of_ok hcheck]
    exact hxy (by rw [h.memory, ← h.frames, hvalue])
  | error stop machine' =>
    rw [Action.bind_of_error hcheck]
    exact .inl trivial

theorem tracked_mirrors {R : β → Expr → Prop} {x : Action Machine α} {f : α → β} {e : Expr}
    (hx : ∀ machine a machine', x machine = .ok a machine' → machine' = machine ∧ R (f a) e) :
    (Relator.alongside (fun _ => True) (Mirrors size frames)).Rel R (x >>= fun a => pure (f a)) (pure e) := by
  intro machine state h
  cases hmachine : x machine with
  | ok a machine' =>
    obtain ⟨rfl, hR⟩ := hx machine a machine' hmachine
    rw [Action.bind_of_ok hmachine]
    exact ⟨hR, h⟩
  | error stop machine' =>
    rw [Action.bind_of_error hmachine]
    exact .inl trivial

end

def AddressOf (limits : Limits) (address : Tracked Nat) (e : Expr) : Prop :=
  limits.Addressable address.known ∧ address.written = e

theorem resolveAccessor_mirrors {evaluateBody : List Token → Action Machine Unit} (value : Tracked Int64) :
    (Relator.alongside (fun _ => True) (Mirrors limits.dataSize frames)).Rel (AddressOf limits)
      ((backend limits program evaluateBody).resolveAccessor value) (pure value.written) := by
  refine tracked_mirrors fun machine a machine' h => ?_
  change Action.ofExcept (limits.checkAddress value.known) machine = _ at h
  cases hcheck : limits.checkAddress value.known with
  | ok address =>
    rw [hcheck] at h
    obtain ⟨rfl, rfl⟩ := EStateM.Result.ok.inj h
    exact ⟨rfl, (Limits.addressable_of_checkAddress hcheck).1, rfl⟩
  | error error =>
    rw [hcheck] at h
    cases h

theorem parameter_mirrors {evaluateBody : List Token → Action Machine Unit} :
    (Relator.alongside (fun _ => True) (Mirrors limits.dataSize frames)).Rel (fun value e => value.written = e)
      (backend limits program evaluateBody).parameter (pure .parameter) := by
  refine tracked_mirrors fun machine a machine' h => ?_
  exact ⟨Machine.eq_of_argument h, rfl⟩

theorem assign_mirrors {evaluateBody : List Token → Action Machine Unit}
    {callRoutine : String → UInt32 → Action State Unit} {address : Tracked Nat} {e : Expr}
    (haddress : AddressOf limits address e) (value : Tracked Int64) :
    (Relator.alongside (fun _ => True) (Mirrors limits.dataSize frames)).Rel Eq
      ((backend limits program evaluateBody).assign address value)
      ((Reference.backend (argumentOf frames) callRoutine).assign e value.written) := by
  obtain ⟨haddressable, rfl⟩ := haddress
  intro machine state h
  refine check_mirrors h fun he => check_mirrors h fun hsource => ?_
  obtain ⟨machine', state', hmachine, hstate, h'⟩ := CProgram.assign_mirrors h he haddressable.1 hsource
  exact Relator.alongside_of_ok hmachine hstate rfl h'

/-- Until it stops, a machine that looks back goes on side by side with the statements of its operations. -/
theorem backend_mirrors {evaluateBody : List Token → Action Machine Unit}
    {callRoutine : String → UInt32 → Action State Unit}
    (hbody : ∀ name body address, program.body? name = some body → name ≠ entryName →
      (Relator.alongside (fun _ => True) (Mirrors limits.dataSize (frames.push address))).Rel Eq (evaluateBody body)
        (callRoutine name (UInt32.ofNat address))) :
    (backend limits program evaluateBody).Follows (.alongside (fun _ => True) (Mirrors limits.dataSize frames))
      (translatable limits program inApplication) (fun value e => value.written = e) (AddressOf limits) program
      (Reference.backend (argumentOf frames) callRoutine) where
  accessor t ht := by
    cases t with
    | literal value => exact resolveAccessor_mirrors ⟨value, .literal value⟩
    | parameter =>
      refine (Relator.alongside _ _).bind parameter_mirrors ?_
      rintro value _ rfl
      exact resolveAccessor_mirrors value
    | _ => cases ht
  resolveAccessor value _ _ hvalue := by
    subst hvalue
    exact resolveAccessor_mirrors value
  applyToken t address e ht haddress := by
    cases t with
    | builtin op =>
      obtain ⟨haddressable, rfl⟩ := haddress
      intro machine state h
      by_cases hnop : op = .nop
      · subst hnop
        exact ⟨rfl, h⟩
      · unfold Pass.applyToken backend
        simp only [if_neg hnop]
        refine check_mirrors h fun he => ?_
        obtain ⟨machine', state', hmachine, hstate, h'⟩ := applyBuiltin_mirrors h he haddressable.1 op
        exact Relator.alongside_of_ok hmachine hstate rfl h'
    | literal value => exact assign_mirrors haddress ⟨value, .literal value⟩
    | parameter =>
      refine (Relator.alongside _ _).bind parameter_mirrors ?_
      rintro value _ rfl
      exact assign_mirrors haddress value
    | identifier name =>
      obtain ⟨haddressable, rfl⟩ := haddress
      change program.isApplication name = true at ht
      unfold Pass.applyToken
      simp only [ht, if_true]
      intro machine state h
      exact check_mirrors h fun he => call_mirrors h he ht (fun _ => trivial) fun body => hbody name body address.known
    | _ => cases ht
  assign address e value _ _ haddress hvalue := by
    subst hvalue
    exact assign_mirrors haddress value
  resolve address e haddress := by
    obtain ⟨haddressable, rfl⟩ := haddress
    refine tracked_mirrors fun machine a machine' h => ?_
    obtain ⟨byte, mid, hcell, hpure⟩ := Action.of_bind_eq_ok h
    obtain ⟨-, rfl⟩ := EStateM.Result.ok.inj hpure
    exact ⟨Machine.eq_of_cell hcell, rfl⟩

theorem backend_loopsMirror {evaluateBody : List Token → Action Machine Unit}
    {callRoutine : String → UInt32 → Action State Unit} (fuel : Nat) :
    (backend limits program evaluateBody).LoopsFollow (.alongside (fun _ => True) (Mirrors limits.dataSize frames))
      ((Relator.alongside (fun _ => True) (Mirrors limits.dataSize frames)).Rel Eq) (AddressOf limits) fuel fuel
      (Reference.backend (argumentOf frames) callRoutine) := by
  refine Backend.LoopsFollow.of_operations (b := backend limits program evaluateBody) (fun _ _ h => ⟨rfl, h⟩) ?_
    (fun _ _ _ _ _ h => ⟨rfl, h⟩) fuel
  rintro address _ ⟨haddressable, rfl⟩ machine state h
  refine check_mirrors h fun he => ?_
  obtain ⟨answer, hmachine, hstate⟩ := testLoop_mirrors h he haddressable.1
  exact Relator.alongside_of_ok hmachine hstate rfl h

theorem body_mirrors (h : Translates limits program) (fuel : Nat) {tokens : List Token}
    (hfits : (Forest.ofTokens tokens).fits (translatable limits program inApplication) .top = true) :
    (Relator.alongside (fun _ => True) (Mirrors limits.dataSize frames)).Rel Eq (body limits program (fuel + 1) tokens)
      ((Forest.ofTokens tokens).evaluate (Reference.backend (argumentOf frames) (Reference.call program fuel)) program
        fuel) := by
  induction fuel generalizing frames inApplication tokens with
  | zero =>
    refine Forest.evaluate_related (backend_mirrors ?_) (backend_loopsMirror 0) hfits
    exact fun _ _ _ _ _ => (Relator.alongside _ _).exhausted _
  | succ fuel ih =>
    refine Forest.evaluate_related (backend_mirrors ?_) (backend_loopsMirror _) hfits
    intro name called address hlookup hname
    rw [Reference.call_succ hlookup hname frames]
    exact ih (h.application name called hlookup hname)

/-! ## Whole programs -/

/-- A program whose expressions stay what they were ends in C as it ends on the machine. -/
theorem reference_endsWith (h : Translates limits program) {input : List UInt8} (hsteady : Steady limits program input)
    {fuel : Nat} {machine : Machine} (hrun : interpret limits program fuel input = .ok () machine) :
    Reference.EndsWith program limits.dataSize input machine.streams.output machine.memory := by
  obtain ⟨before, hbody, hflush⟩ := Machine.exists_forestBody_of_interpret h.closed hrun
  obtain ⟨more, before', htracked⟩ := hsteady
  cases more with
  | zero => cases htracked
  | succ more =>
    have hplain := body_plain h (more + 1) h.entry (Machine.fresh limits input) _ rfl
    have hmirrors : Relator.Alongside (fun _ => True) (Mirrors limits.dataSize #[]) Eq
        (body limits program (more + 1) program.entry (Machine.fresh limits input))
        (Reference.run program limits.dataSize more input) :=
      body_mirrors h more h.entry _ _ (mirrors_fresh limits input)
    -- The machine that looks back ends both as the machine and as the C program does.
    rw [htracked] at hplain hmirrors
    obtain ⟨_, machine', hbody', -, rfl⟩ := Relator.exists_of_alongside hplain
    obtain ⟨_, state, hreference, -, hmirrors⟩ := Relator.exists_of_alongside hmirrors
    obtain rfl := Machine.forestBody_unique h.closed h.closed.entry hbody hbody'
    obtain ⟨after, hafter, houtput, hmemory⟩ := flush_mirrors hmirrors
    obtain ⟨-, rfl⟩ := EStateM.Result.ok.inj (hflush.symm.trans hafter)
    exact ⟨more, state, hreference, houtput.symm, hmemory.symm⟩

end Steady

/-- After a run that ends well the C program ends with the same output and the same contents of the array just when its source,
read by reference, does so; and then it does when every expression stayed what it was. -/
theorem endsWith_iff_reference {limits : Limits} {program : Program} {text : String}
    (htext : ofProgram limits program = .ok text) {fuel : Nat} {input : List UInt8} {machine : Machine}
    (hrun : interpret limits program fuel input = .ok () machine) :
    ∃ listing, Listing.ofProgram limits program = .ok listing ∧ listing.text = text ∧
      (listing.EndsWith input machine.streams.output machine.memory ↔
        Reference.EndsWith program limits.dataSize input machine.streams.output machine.memory) ∧
      (Steady limits program input → listing.EndsWith input machine.streams.output machine.memory) := by
  obtain ⟨listing, hlisting, rfl⟩ := exists_listing_of_ofProgram htext
  have hiff : listing.EndsWith input machine.streams.output machine.memory ↔
      Reference.EndsWith program limits.dataSize input machine.streams.output machine.memory := by
    unfold Listing.EndsWith Reference.EndsWith
    simp only [Listing.run_eq hlisting]
  refine ⟨listing, hlisting, rfl, hiff, fun hsteady => hiff.2 ?_⟩
  exact Steady.reference_endsWith (translates_of_listing hlisting) hsteady hrun

/-- A cell that is used as an address and stays what it was. -/
theorem endsWith_iff_reference_of_steady :
    let program : Program := .ofEntry [.opening .applicator, .literal 0, .literal 1, .closing .applicator,
      .opening .applicator, .opening .applicator, .literal 0, .closing .applicator, .literal 7, .builtin .output,
      .closing .applicator]
    let listing : Listing := ⟨256, [], [⟨1, .assign (.literal 0) (.literal 1)⟩,
      ⟨1, .assign (.cell (.literal 0)) (.literal 7)⟩, ⟨1, .put (.cell (.literal 0))⟩]⟩
    ofProgram ⟨256, 256⟩ program = .ok listing.text ∧
      listing.EndsWith [] [7] (((Memory.zeroed 256).set 0 1).set 1 7) := by
  intro program listing
  have hlisting : Listing.ofProgram ⟨256, 256⟩ program = .ok listing := rfl
  have htext : ofProgram ⟨256, 256⟩ program = .ok listing.text :=
    ofProgram_eq_map_text.trans (congrArg (Except.map Listing.text) hlisting)
  have hrun : interpret ⟨256, 256⟩ program 12 [] = .ok () (Machine.after (interpret ⟨256, 256⟩ program 12 [])) := rfl
  obtain ⟨other, hother, -, -, hends⟩ := endsWith_iff_reference htext hrun
  obtain rfl := Except.ok.inj (hlisting.symm.trans hother)
  exact ⟨htext, hends ⟨12, _, rfl⟩⟩

set_option maxRecDepth 2000 in
/-- A cell that is used as an address and overwritten meanwhile: the machine writes the new value, the C program writes another
cell. -/
theorem not_endsWith_of_overwritten :
    let program : Program := .ofEntry [.opening .applicator, .opening .applicator, .literal 0, .closing .applicator,
      .literal 5, .builtin .output, .closing .applicator]
    let listing : Listing := ⟨256, [], [⟨1, .assign (.cell (.literal 0)) (.literal 5)⟩, ⟨1, .put (.cell (.literal 0))⟩]⟩
    let machine := Machine.after (interpret ⟨256, 256⟩ program 12 [])
    ofProgram ⟨256, 256⟩ program = .ok listing.text ∧ interpret ⟨256, 256⟩ program 12 [] = .ok () machine ∧
      machine.streams.output = [5] ∧ listing.EndsWith [] [0] machine.memory ∧
      ¬ listing.EndsWith [] machine.streams.output machine.memory := by
  intro program listing machine
  have hlisting : Listing.ofProgram ⟨256, 256⟩ program = .ok listing := rfl
  have hends : ∀ fuel, listing.run fuel [] = .ok () ⟨(Memory.zeroed 256).set 0 5, [], [0]⟩ := fun _ => rfl
  have hzero : listing.EndsWith [] [0] machine.memory := ⟨0, ⟨(Memory.zeroed 256).set 0 5, [], [0]⟩, hends 0, rfl, rfl⟩
  refine ⟨ofProgram_eq_map_text.trans (congrArg (Except.map Listing.text) hlisting), rfl, rfl, hzero, ?_⟩
  rintro ⟨fuel, state, hrun, houtput, -⟩
  obtain ⟨-, rfl⟩ := EStateM.Result.ok.inj ((hends fuel).symm.trans hrun)
  exact absurd houtput (by decide)

end Bracketry.CProgram

import Bracketry.Proofs.CProgram.Mirror

/-!
# Directly addressed programs

A program is directly addressed when every accessor in it is a number or the argument, and no applicator is an operand of an
applicator. Its C program and the machine then do the same things one by one.

* `Forest.isDirect`, `Program.isDirect` : directly addressed bodies and programs;
* `Directs` : an expression whose value is an address, whatever the cells hold;
* `backend_followsDirectly` : the operations of a directly addressed body and their statements go on side by side;
* `forestBody_alongside` : so do a body and its lines, with all the bodies that they call. The machine alone counts the active
  applications, and is excused when they are too many for it;
* `endsWith_iff_interpret` : the C program and the machine end alike, and the C program stays within its array.
-/

namespace Bracketry

/-! ## Direct addresses -/

def Token.isAddress : Token → Bool
  | .literal _ | .parameter => true
  | _ => false

/-- From this place on every accessor is a number or the argument, and no applicator is an operand of an applicator. -/
def Forest.isDirect : Forest → Spot → Bool
  | nil, _ => true
  | token t _ rest, spot => (!spot.isFirst || t.isAddress) && rest.isDirect spot.next
  | applicator inner rest, spot =>
    (spot == .top || spot == .loop false) && (inner.isDirect (.applicator true) && rest.isDirect spot.next)
  | conditional inner rest, spot => !spot.isFirst && (inner.isDirect (.loop true) && rest.isDirect spot.next)

def Program.isDirect (program : Program) : Bool := program.bodies.all fun (_, body) => (Forest.ofTokens body).isDirect .top

theorem Program.isDirect_of_body? {program : Program} (h : program.isDirect = true) {name : String} {body : List Token}
    (hbody : program.body? name = some body) : (Forest.ofTokens body).isDirect .top = true := by
  obtain ⟨before, after, hbodies, -⟩ := List.lookup_eq_some_iff.1 hbody
  have hmem : (name, body) ∈ program.bodies := by
    rw [hbodies]
    exact List.mem_append_right before (List.mem_cons_self ..)
  exact List.all_eq_true.1 h _ hmem

theorem Program.isDirect_entry {program : Program} (h : program.isDirect = true) :
    (Forest.ofTokens program.entry).isDirect .top = true := by
  unfold Program.entry
  cases hbody : program.body? entryName with
  | none => rfl
  | some body => exact Program.isDirect_of_body? h hbody

/-- The grammar without the values of applicators. -/
def Grammar.direct (grammar : Grammar) : Grammar := { grammar with indirect := false }

theorem Forest.fits_direct {grammar : Grammar} {forest : Forest} {spot : Spot} (hfits : forest.fits grammar spot = true)
    (hdirect : forest.isDirect spot = true) : forest.fits grammar.direct spot = true := by
  induction forest generalizing spot with
  | nil => exact hfits
  | token t plain rest ih =>
    obtain ⟨ht, hrest⟩ := Bool.and_eq_true_iff.1 hfits
    exact Bool.and_eq_true_iff.2 ⟨ht, ih hrest (Bool.and_eq_true_iff.1 hdirect).2⟩
  | applicator inner rest ihInner ihRest =>
    obtain ⟨hspot, hdirect⟩ := Bool.and_eq_true_iff.1 hdirect
    obtain ⟨hdirectInner, hdirectRest⟩ := Bool.and_eq_true_iff.1 hdirect
    obtain ⟨-, hfits⟩ := Bool.and_eq_true_iff.1 hfits
    obtain ⟨hinner, hrest⟩ := Bool.and_eq_true_iff.1 hfits
    have htakes : spot.takesValue grammar.direct = true := by
      rcases Bool.or_eq_true_iff.1 hspot with h | h <;> rw [eq_of_beq h] <;> rfl
    exact Bool.and_eq_true_iff.2
      ⟨htakes, Bool.and_eq_true_iff.2 ⟨ihInner hinner hdirectInner, ihRest hrest hdirectRest⟩⟩
  | conditional inner rest ihInner ihRest =>
    obtain ⟨hspot, hdirect⟩ := Bool.and_eq_true_iff.1 hdirect
    obtain ⟨hdirectInner, hdirectRest⟩ := Bool.and_eq_true_iff.1 hdirect
    obtain ⟨-, hfits⟩ := Bool.and_eq_true_iff.1 hfits
    obtain ⟨hinner, hrest⟩ := Bool.and_eq_true_iff.1 hfits
    exact Bool.and_eq_true_iff.2
      ⟨hspot, Bool.and_eq_true_iff.2 ⟨ihInner hinner hdirectInner, ihRest hrest hdirectRest⟩⟩

namespace CProgram

section
variable {limits : Limits} {program : Program} {frames : Array Nat} {inApplication : Bool} {excused : Stop → Prop}

/-! ## Operations -/

/-- The value of the expression is this address, whatever the cells hold. -/
structure Directs (limits : Limits) (frames : Array Nat) (address : Nat) (e : Expr) : Prop where
  addressable : limits.Addressable address
  eval (memory : Memory) : e.eval memory (argumentOf frames) = .ok (address : Int)

theorem eval_parameter {address : Nat} (h : frames.back? = some address) (hsize : address < UInt32.size) (memory : Memory) :
    Expr.parameter.eval memory (argumentOf frames) = .ok (address : Int) := by
  rw [argumentOf_eq h, Expr.eval, UInt32.toNat_ofNat_of_lt' hsize]

theorem backend_followsDirectly {evaluateBody : List Token → Action Machine Unit}
    {callRoutine : String → UInt32 → Action State Unit} (hsize : limits.dataSize ≤ UInt32.size)
    (hargument : Machine.HasArgument limits frames inApplication)
    (hdepth : limits.maxCallDepth ≤ frames.size → excused (.fault (.callDepthExceeded limits.maxCallDepth)))
    (hbody : ∀ name body address, program.body? name = some body → name ≠ entryName → limits.Addressable address →
      (Relator.alongside excused (Mirrors limits.dataSize (frames.push address))).Rel Eq (evaluateBody body)
        (callRoutine name (UInt32.ofNat address))) :
    (Machine.backendWith limits program evaluateBody).Follows (.alongside excused (Mirrors limits.dataSize frames))
      (translatable limits program inApplication).direct (fun _ _ => True) (Directs limits frames) program
      (Reference.backend (argumentOf frames) callRoutine) where
  accessor t ht := by
    cases t with
    | literal value =>
      obtain ⟨address, haddress, hvalue, heq⟩ := Machine.accessor_literal ht
      rw [heq]
      exact fun machine state h => ⟨⟨haddress, fun _ => congrArg Except.ok hvalue⟩, h⟩
    | parameter =>
      obtain ⟨address, hback, haddress⟩ := hargument ht
      intro machine state h
      have heval := eval_parameter hback (Nat.lt_of_lt_of_le haddress.1 hsize)
      exact Relator.alongside_of_ok (Machine.accessor_parameter (h.frames ▸ hback) haddress) rfl ⟨haddress, heval⟩ h
    | _ => cases ht
  resolveAccessor _ _ h _ := by cases h
  applyToken t address e ht haddress := by
    intro machine state h
    have he := haddress.eval state.memory
    have hcell := haddress.addressable.1
    cases t with
    | builtin op =>
      obtain ⟨machine', state', hmachine, hstate, h'⟩ := applyBuiltin_mirrors h he hcell op
      exact Relator.alongside_of_ok hmachine hstate rfl h'
    | literal value =>
      have hsource : (Expr.literal value).eval state.memory (argumentOf frames) = .ok value.toInt := rfl
      obtain ⟨machine', state', hmachine, hstate, h'⟩ := assign_mirrors h he hcell hsource
      exact Relator.alongside_of_ok hmachine hstate rfl h'
    | parameter =>
      obtain ⟨argument, hback, hargument⟩ := hargument ht
      have hsource := eval_parameter hback (Nat.lt_of_lt_of_le hargument.1 hsize) state.memory
      rw [← hargument.2] at hsource
      obtain ⟨machine', state', hmachine, hstate, h'⟩ := assign_mirrors h he hcell hsource
      have hlookup : Machine.argument machine = .ok (Machine.shown argument) machine :=
        Machine.argument_eq (h.frames ▸ hback)
      exact Relator.alongside_of_ok ((Action.bind_of_ok hlookup).trans hmachine) hstate rfl h'
    | identifier name =>
      change program.isApplication name = true at ht
      unfold Pass.applyToken
      simp only [ht, if_true]
      exact call_mirrors h he ht hdepth fun body hlookup hname => hbody name body address hlookup hname haddress.addressable
    | _ => cases ht
  assign _ _ _ _ h _ _ := by cases h
  resolve address e haddress := by
    intro machine state h
    have hcell : address < machine.memory.size := h.size ▸ haddress.addressable.1
    exact Relator.alongside_of_ok (Action.bind_of_ok (Machine.cell_eq hcell)) rfl trivial h

theorem backend_loopsFollowDirectly {evaluateBody : List Token → Action Machine Unit}
    {callRoutine : String → UInt32 → Action State Unit} (fuel : Nat) :
    (Machine.backendWith limits program evaluateBody).LoopsFollow (.alongside excused (Mirrors limits.dataSize frames))
      ((Relator.alongside excused (Mirrors limits.dataSize frames)).Rel Eq) (Directs limits frames) fuel fuel
      (Reference.backend (argumentOf frames) callRoutine) := by
  refine Backend.LoopsFollow.of_operations (fun _ _ h => ⟨rfl, h⟩) (fun address e haddress => ?_)
    (fun _ _ _ _ _ h => ⟨rfl, h⟩) fuel
  intro machine state h
  obtain ⟨answer, hmachine, hstate⟩ := testLoop_mirrors h (haddress.eval state.memory) haddress.addressable.1
  exact Relator.alongside_of_ok hmachine hstate rfl h

/-! ## Bodies -/

/-- A directly addressed body and its lines go on side by side, and so do the bodies that they call. -/
theorem forestBody_alongside (h : Translates limits program) (hdirect : program.isDirect = true)
    (hsize : limits.dataSize ≤ UInt32.size) (fuel : Nat) (hargument : Machine.HasArgument limits frames inApplication)
    (hdepth : excused (.fault (.callDepthExceeded limits.maxCallDepth)) ∨ frames.size + fuel < limits.maxCallDepth)
    {body : List Token}
    (hfits : (Forest.ofTokens body).fits (translatable limits program inApplication).direct .top = true) :
    (Relator.alongside excused (Mirrors limits.dataSize frames)).Rel Eq (Machine.forestBody limits program (fuel + 1) body)
      ((Forest.ofTokens body).evaluate (Reference.backend (argumentOf frames) (Reference.call program fuel)) program
        fuel) := by
  induction fuel generalizing frames inApplication body with
  | zero =>
    refine Forest.evaluate_related (backend_followsDirectly hsize hargument ?_ ?_) (backend_loopsFollowDirectly 0) hfits
    · exact fun hdeep => hdepth.resolve_right (by omega)
    · exact fun _ _ _ _ _ _ => (Relator.alongside _ _).exhausted _
  | succ fuel ih =>
    refine Forest.evaluate_related (backend_followsDirectly hsize hargument ?_ ?_) (backend_loopsFollowDirectly _) hfits
    · exact fun hdeep => hdepth.resolve_right (by omega)
    · intro name called address hlookup hname haddress
      have hfitsCalled := Forest.fits_direct (h.application name called hlookup hname)
        (Program.isDirect_of_body? hdirect hlookup)
      have hback : (frames.push address).back? = some address := Array.back?_push
      rw [Reference.call_succ hlookup hname frames]
      have hargumentCalled : Machine.HasArgument limits (frames.push address) true := fun _ => ⟨address, hback, haddress⟩
      refine ih hargumentCalled ?_ hfitsCalled
      rw [Array.size_push]
      exact hdepth.imp id fun hlt => by omega

/-! ## Whole programs -/

variable (excused) in
/-- A directly addressed program goes on side by side with its source read by reference, up to the last flush. -/
theorem forestBody_entry_alongside (h : Translates limits program) (hdirect : program.isDirect = true)
    (hsize : limits.dataSize ≤ UInt32.size) (fuel : Nat) (input : List UInt8)
    (hdepth : excused (.fault (.callDepthExceeded limits.maxCallDepth)) ∨ fuel < limits.maxCallDepth) :
    Relator.Alongside excused (Mirrors limits.dataSize #[]) Eq
      (Machine.forestBody limits program (fuel + 1) program.entry (Machine.fresh limits input))
      (Reference.run program limits.dataSize fuel input) := by
  have hargument : Machine.HasArgument limits #[] false := fun h => by cases h
  refine forestBody_alongside h hdirect hsize fuel hargument ?_
    (Forest.fits_direct h.entry (Program.isDirect_entry hdirect)) _ _ (mirrors_fresh limits input)
  exact hdepth.imp id fun hlt => by simpa using hlt

/-- What ends well on the machine ends so in C. -/
theorem run_of_interpret (h : Translates limits program) (hdirect : program.isDirect = true)
    (hsize : limits.dataSize ≤ UInt32.size) {fuel : Nat} {input : List UInt8} {machine : Machine}
    (hrun : interpret limits program fuel input = .ok () machine) :
    ∃ state, Reference.run program limits.dataSize fuel input = .ok () state ∧ state.output = machine.streams.output ∧
      state.memory = machine.memory := by
  obtain ⟨before, hbody, hflush⟩ := Machine.exists_forestBody_of_interpret h.closed hrun
  have halong := forestBody_entry_alongside (fun _ => True) h hdirect hsize fuel input (.inl trivial)
  rw [hbody] at halong
  obtain ⟨_, state, hreference, -, hmirrors⟩ := Relator.exists_of_alongside halong
  obtain ⟨after, hafter, houtput, hmemory⟩ := flush_mirrors hmirrors
  obtain ⟨-, rfl⟩ := EStateM.Result.ok.inj (hflush.symm.trans hafter)
  exact ⟨state, hreference, houtput.symm, hmemory.symm⟩

theorem run_cases (h : Translates limits program) (hdirect : program.isDirect = true) (hsize : limits.dataSize ≤ UInt32.size)
    (fuel : Nat) (input : List UInt8) :
    (∃ depth before state, Reference.run program limits.dataSize fuel input = .ok () state ∧
      Machine.forestBody { limits with maxCallDepth := depth } program (fuel + 1) program.entry
        (Machine.fresh { limits with maxCallDepth := depth } input) = .ok () before ∧
      Mirrors limits.dataSize #[] before state) ∨
    Exhausted (Reference.run program limits.dataSize fuel input) := by
  -- Every active application has taken a unit of fuel, so the machine never counts as many as `fuel + 1`.
  have hdeep : Translates { limits with maxCallDepth := fuel + 1 } program := ⟨h.closed, h.application, h.entry⟩
  have halong := forestBody_entry_alongside (fun _ => False) hdeep hdirect hsize fuel input
    (.inr (Nat.lt_succ_self fuel))
  cases hbody : Machine.forestBody { limits with maxCallDepth := fuel + 1 } program (fuel + 1) program.entry
      (Machine.fresh { limits with maxCallDepth := fuel + 1 } input) with
  | error stop before =>
    rw [hbody] at halong
    exact .inr (halong.resolve_left id).2
  | ok _ before =>
    rw [hbody] at halong
    obtain ⟨_, state, hrun, -, hmirrors⟩ := Relator.exists_of_alongside halong
    exact .inl ⟨fuel + 1, before, state, hrun, hbody, hmirrors⟩

/-- What ends well in C ends so on a machine that lets enough applications be active. -/
theorem interpret_of_run (h : Translates limits program) (hdirect : program.isDirect = true)
    (hsize : limits.dataSize ≤ UInt32.size) {fuel : Nat} {input : List UInt8} {state : State}
    (hrun : Reference.run program limits.dataSize fuel input = .ok () state) :
    ∃ depth fuel machine, interpret { limits with maxCallDepth := depth } program fuel input = .ok () machine ∧
      machine.streams.output = state.output ∧ machine.memory = state.memory := by
  rcases run_cases h hdirect hsize fuel input with ⟨depth, before, state', hrun', hbody, hmirrors⟩ | hexhausted
  · obtain ⟨-, rfl⟩ := EStateM.Result.ok.inj (hrun.symm.trans hrun')
    obtain ⟨after, hafter, houtput, hmemory⟩ := flush_mirrors hmirrors
    obtain ⟨more, hmore⟩ := Machine.exists_interpret_of_forestBody h.closed hbody hafter
    exact ⟨depth, more, after, hmore, houtput, hmemory⟩
  · rw [hrun] at hexhausted
    exact hexhausted.elim

/-- A directly addressed program does not go wrong in C. -/
theorem run_ne_fault (h : Translates limits program) (hdirect : program.isDirect = true) (hsize : limits.dataSize ≤ UInt32.size)
    (fuel : Nat) (input : List UInt8) (error : Error) (state : State) :
    Reference.run program limits.dataSize fuel input ≠ .error (.fault error) state := by
  intro hrun
  rcases run_cases h hdirect hsize fuel input with ⟨depth, before, state', hrun', -⟩ | hexhausted
  · rw [hrun] at hrun'
    cases hrun'
  · rw [hrun] at hexhausted
    exact hexhausted.elim

end

/-- A directly addressed program in C stays within its array and knows all that it calls, and it ends with some output and some
contents of the array just when the machine does, if that lets enough applications be active. -/
theorem endsWith_iff_interpret {limits : Limits} {program : Program} {text : String}
    (htext : ofProgram limits program = .ok text) (hdirect : program.isDirect = true) (hsize : limits.dataSize ≤ UInt32.size) :
    ∃ listing, Listing.ofProgram limits program = .ok listing ∧ listing.text = text ∧
      (∀ fuel input error state, listing.run fuel input ≠ .error (.fault error) state) ∧
      ∀ input output memory, listing.EndsWith input output memory ↔
        ∃ depth fuel machine, interpret { limits with maxCallDepth := depth } program fuel input = .ok () machine ∧
          machine.streams.output = output ∧ machine.memory = memory := by
  obtain ⟨listing, hlisting, rfl⟩ := exists_listing_of_ofProgram htext
  have htranslates := translates_of_listing hlisting
  refine ⟨listing, hlisting, rfl, fun fuel input error state => ?_, fun input output memory => ⟨?_, ?_⟩⟩
  · rw [Listing.run_eq hlisting]
    exact run_ne_fault htranslates hdirect hsize fuel input error state
  · rintro ⟨fuel, state, hrun, rfl, rfl⟩
    rw [Listing.run_eq hlisting] at hrun
    exact interpret_of_run htranslates hdirect hsize hrun
  · rintro ⟨depth, fuel, machine, hrun, rfl, rfl⟩
    have hdeep : Translates { limits with maxCallDepth := depth } program :=
      ⟨htranslates.closed, htranslates.application, htranslates.entry⟩
    obtain ⟨state, hstate, houtput, hmemory⟩ := run_of_interpret hdeep hdirect hsize hrun
    exact ⟨fuel, state, (Listing.run_eq hlisting fuel input).trans hstate, houtput, hmemory⟩

/-- A loop that calls an application and writes what it counts. -/
theorem endsWith_iff_interpret_of_loop :
    let program : Program := ⟨[("main", [.opening .applicator, .literal 0, .literal 2, .closing .applicator,
        .opening .conditional, .literal 0, .opening .applicator, .literal 1, .identifier "f", .closing .applicator,
        .opening .applicator, .literal 0, .builtin .decrement, .closing .applicator, .closing .conditional]),
      ("f", [.opening .applicator, .parameter, .builtin .increment, .builtin .output, .closing .applicator])]⟩
    let listing : Listing := ⟨2, [("f", [⟨1, .increment .parameter⟩, ⟨1, .put .parameter⟩])],
      [⟨1, .assign (.literal 0) (.literal 2)⟩, ⟨1, .loop⟩, ⟨2, .leaveUnless (.literal 0)⟩, ⟨2, .call "f" (.literal 1)⟩,
        ⟨2, .decrement (.literal 0)⟩, ⟨1, .close⟩]⟩
    ofProgram ⟨2, 256⟩ program = .ok listing.text ∧ program.isDirect = true ∧ 2 ≤ UInt32.size ∧
      listing.EndsWith [] [1, 2] ((Memory.zeroed 2).set 1 2) := by
  intro program listing
  have hlisting : Listing.ofProgram ⟨2, 256⟩ program = .ok listing := rfl
  have htext : ofProgram ⟨2, 256⟩ program = .ok listing.text :=
    ofProgram_eq_map_text.trans (congrArg (Except.map Listing.text) hlisting)
  refine ⟨htext, rfl, by decide, ?_⟩
  obtain ⟨other, hother, -, -, hends⟩ := endsWith_iff_interpret htext rfl (by decide)
  obtain rfl := Except.ok.inj (hlisting.symm.trans hother)
  exact (hends _ _ _).2 ⟨256, 30, _, rfl, rfl, rfl⟩

end CProgram

end Bracketry

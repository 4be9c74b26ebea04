import Bracketry.Proofs.Called
import Bracketry.Proofs.CProgram.Phrases
import Bracketry.Proofs.Effects
import Bracketry.Proofs.Program.Interchange
import Bracketry.Proofs.Stops

/-!
# What loading leaves to evaluation

Loading checks that brackets nest. A body of a loaded program can still lack an accessor or have a token outside of its brackets;
the other faults of structure do not arise.

* `StructureFault.AfterLoading`, `Stop.AfterLoading` : the faults that are left, and the stops that are no other fault of structure;
* `Forest.evaluate_ends`, `evaluate_ends` : bodies that close stop for these reasons when the operations do;
* `Machine.passBody_ends` : so do the bodies that a machine calls;
* `Program.closed_of_loaded` : the bodies of a loaded program close;
* `afterLoading_of_loaded` : hence what is left to its evaluation.
-/

namespace Bracketry

/-- The faults of structure that nested brackets do not rule out, and what is said of them. -/
inductive StructureFault.AfterLoading : StructureFault → String → Prop where
  | applicator : AfterLoading .applicatorWithoutAccessor "applicator has no accessor"
  | conditional : AfterLoading .conditionalWithoutAccessor "conditional has no accessor"
  | token (token : Token) : AfterLoading (.outsideBrackets token) s!"'{token.text}' appears outside any bracket"

namespace Stop

def Unstructured (stop : Stop) : Prop := ∀ fault, stop ≠ .fault (.structural fault)

def AfterLoading (stop : Stop) : Prop := ∀ fault, stop = .fault (.structural fault) → fault.AfterLoading fault.message

theorem afterLoading_of_unstructured {stop : Stop} (h : stop.Unstructured) : stop.AfterLoading :=
  fun fault heq => absurd heq (h fault)

theorem afterLoading_of_isUnstructured {error : Error} (h : error.IsUnstructured) : (fault error).AfterLoading :=
  fun cause heq => absurd (Stop.fault.inj heq) (h cause)

theorem afterLoading_structural {cause : StructureFault} (h : cause.AfterLoading cause.message) :
    (fault (.structural cause)).AfterLoading := by
  intro other heq
  cases heq
  exact h

theorem afterLoading_outOfFuel : outOfFuel.AfterLoading := nofun

end Stop

variable {σ V A : Type} {b : Backend σ V A} {program : Program}

/-! ## Bodies that close -/

section
variable (h : b.StopsOnly Stop.AfterLoading)
include h

theorem Item.address_ends (item : Item V) : (item.address b).Ends Stop.AfterLoading fun _ => True := by
  rw [← accessor_entry]
  exact Pass.accessor_ends h (fun _ => Stop.afterLoading_of_isUnstructured) item.entry

theorem Item.applied_ends (items : List (Item V)) : (applied b program items).Ends Stop.AfterLoading fun _ => True := by
  rw [← applied_entry (A := A)]
  refine Pass.applied_ends h (fun _ => Stop.afterLoading_of_isUnstructured) (Stop.afterLoading_structural .applicator) ?_
  exact List.forall_mem_map.2 fun item _ => item.isMarker_entry

theorem Place.act_ends (place : Place A) (item : Item V) :
    (place.act b program item).Ends Stop.AfterLoading fun _ => True := by
  cases item with
  | token t =>
    cases place with
    | top => exact Action.ends_fault (Stop.afterLoading_structural (.token t))
    | applicator => exact Action.ends_pure trivial
    | loop address =>
      rw [act, ← Item.applyToken_eq]
      exact Pass.applyToken_ends h (fun _ => Stop.afterLoading_of_isUnstructured) address t
  | value v => cases place <;> exact Action.ends_pure trivial
  | void => cases place <;> exact Action.ends_pure trivial

theorem Backend.turn_ends (address : A) {body : Action σ (List (Item V))} (hbody : body.Ends Stop.AfterLoading fun _ => True) :
    (b.turn address body).Ends Stop.AfterLoading fun _ => True := by
  refine Action.ends_bind (h.testLoop address) fun answer _ => ?_
  cases answer with
  | skip => exact Action.ends_pure trivial
  | run =>
    refine Action.ends_bind hbody fun _ _ => Action.ends_bind (h.exitLoop address) fun answer _ => ?_
    cases answer <;> exact Action.ends_pure trivial

theorem Item.bound_ends (item : Item V) {body : Place A → Action σ (List (Item V))}
    (hbody : ∀ place, (body place).Ends Stop.AfterLoading fun _ => True) :
    (item.bound b body).Ends Stop.AfterLoading fun _ => True :=
  Action.ends_bind (item.address_ends h) fun address _ => Backend.turn_ends h address (hbody (.loop address))

omit h in
theorem Action.repeating_ends {turn : Action σ Bool} (hturn : turn.Ends Stop.AfterLoading fun _ => True) (fuel : Nat) :
    (Action.repeating turn fuel).Ends Stop.AfterLoading fun _ => True := by
  induction fuel with
  | zero => exact fun _ => Stop.afterLoading_outOfFuel
  | succ fuel ih =>
    refine Action.ends_bind hturn fun again _ => ?_
    cases again with
    | true => exact ih
    | false => exact Action.ends_pure trivial

namespace Forest

/-- An item does what it does in its place, and what it leaves there joins what the others leave. -/
theorem item_ends (place : Place A) (item : Item V) {rest : Action σ (List (Item V))}
    (hrest : rest.Ends Stop.AfterLoading fun _ => True) :
    Action.Ends (do place.act b program item; return place.keep item ++ (← rest)) Stop.AfterLoading fun _ => True :=
  Action.ends_bind (place.act_ends h item) fun _ _ => Action.ends_bind hrest fun _ _ => Action.ends_pure trivial

theorem items_and_turn_ends (fuel : Nat) (forest : Forest) :
    (∀ place, (forest.items b program fuel place).Ends Stop.AfterLoading fun _ => True) ∧
    (forest.turn b program fuel).Ends Stop.AfterLoading fun _ => True := by
  induction forest with
  | nil =>
    refine ⟨fun _ => Action.ends_pure trivial, ?_⟩
    exact Action.ends_fault (Stop.afterLoading_structural .conditional)
  | token t plain rest ih =>
    exact ⟨fun place => item_ends h place (.token t) (ih.1 place), Item.bound_ends h (.token t) ih.1⟩
  | applicator inner rest ihInner ihRest =>
    refine ⟨fun place => ?_, ?_⟩
    · refine Action.ends_bind (ihInner.1 .applicator) fun items _ => ?_
      exact Action.ends_bind (Item.applied_ends h items) fun v _ => item_ends h place (.value v) (ihRest.1 place)
    · refine Action.ends_bind (ihInner.1 .applicator) fun items _ => ?_
      exact Action.ends_bind (Item.applied_ends h items) fun v _ => Item.bound_ends h (.value v) ihRest.1
  | conditional inner rest ihInner ihRest =>
    have hloop := Action.repeating_ends ihInner.2 fuel
    refine ⟨fun place => ?_, ?_⟩
    · refine Action.ends_bind h.enterLoop fun _ _ => Action.ends_bind hloop fun _ _ => ?_
      exact Action.ends_bind (ihRest.1 place) fun _ _ => Action.ends_pure trivial
    · refine Action.ends_bind h.enterLoop fun _ _ => Action.ends_bind hloop fun _ _ => ?_
      exact Item.bound_ends h .void ihRest.1

theorem evaluate_ends (fuel : Nat) (forest : Forest) :
    (forest.evaluate b program fuel).Ends Stop.AfterLoading fun _ => True :=
  Action.ends_bind ((items_and_turn_ends h fuel forest).1 .top) fun _ _ => Action.ends_pure trivial

end Forest

/-- A body that closes stops only for reasons that are left. The pass may run out of fuel where the recursion does not, and that
is one of them. -/
theorem evaluate_ends {body : List Token} (hcloses : Closes [] body) (fuel : Nat) :
    (evaluate b program fuel body).Ends Stop.AfterLoading fun _ => True := by
  intro s
  rcases Forest.evaluate_below program (Backend.alike_below_refl b) hcloses (Nat.le_refl fuel) s with hexhausted | heq
  · cases hresult : evaluate b program fuel body s with
    | ok _ after => rw [hresult] at hexhausted; exact hexhausted.elim
    | error stop after =>
      rw [hresult] at hexhausted
      cases stop with
      | fault error => exact hexhausted.elim
      | outOfFuel => exact Stop.afterLoading_outOfFuel
  · rw [heq]
    exact Forest.evaluate_ends h fuel (Forest.ofTokens body) s

end

/-! ## The machine -/

namespace Machine

variable {limits : Limits}

theorem call_ends {evaluateBody : List Token → Action Machine Unit}
    (hbody : ∀ name body, program.body? name = some body → (evaluateBody body).Ends Stop.AfterLoading fun _ => True)
    (name : String) (address : Nat) :
    (call limits program evaluateBody name address).Ends Stop.AfterLoading fun _ => True := by
  intro machine
  rw [call_eq]
  split
  · exact fun _ heq => by cases heq
  · cases hlookup : program.body? name with
    | none => exact fun _ heq => by cases heq
    | some body =>
      have hresult := hbody name body hlookup { machine with frames := machine.frames.push address }
      simp only [inFrame_eq]
      cases heq : evaluateBody body { machine with frames := machine.frames.push address } with
      | ok _ after => exact trivial
      | error stop after =>
        rw [heq] at hresult
        exact hresult

/-- In a closed program the bodies that are called stop only for reasons that are left. -/
theorem passBody_ends (hclosed : program.Closed) (fuel : Nat) {body : List Token} (hcloses : Closes [] body) :
    (passBody limits program fuel body).Ends Stop.AfterLoading fun _ => True := by
  induction fuel generalizing body with
  | zero => exact fun _ => Stop.afterLoading_outOfFuel
  | succ fuel ih =>
    rw [passBody, backend_eq]
    have hcall : ∀ name address, (call limits program (passBody limits program fuel) name address).Ends Stop.AfterLoading _ :=
      call_ends fun name called hcalled => ih (hclosed name called hcalled)
    have hstops := backendWith_stopsOnly (fun _ => Stop.afterLoading_of_isUnstructured) limits program
      (passBody limits program fuel) hcall
    exact evaluate_ends hstops hcloses fuel

theorem backend_stopsOnly (hclosed : program.Closed) (calls : Nat) :
    (backend limits program calls).StopsOnly Stop.AfterLoading := by
  rw [backend_eq]
  refine backendWith_stopsOnly (fun _ => Stop.afterLoading_of_isUnstructured) limits program (passBody limits program calls)
    (call_ends fun name body hlookup => ?_)
  exact passBody_ends hclosed calls (hclosed name body hlookup)

end Machine

/-! ## Loaded programs -/

/-- Every body of a loaded program closes. -/
theorem Program.closed_of_loaded (h : program.Loaded) : program.Closed := by
  intro name body hbody
  have hsound := sound_of_loaded h
  exact (checkBody_eq_ok_iff.1 (hsound.checked _ ((body?_eq_some_iff hsound.distinct).1 hbody))).2.1

/-- Whatever the operations of a body of a loaded program do, as long as they add no fault of structure, and whatever a machine
does with it: if its evaluation ends with a fault of structure, then a bracket has no accessor or a token stands outside of the
brackets. -/
theorem afterLoading_of_loaded (h : program.Loaded) {name : String} {body : List Token}
    (hbody : program.body? name = some body) :
    (∀ {σ V A : Type} (b : Backend σ V A), b.StopsOnly Stop.Unstructured → ∀ (fuel : Nat) (s s' : σ) (fault : StructureFault),
      evaluate b program fuel body s = .error (.fault (.structural fault)) s' → fault.AfterLoading fault.message) ∧
    ∀ (limits : Limits) (calls fuel : Nat) (machine after : Machine) (fault : StructureFault),
      evaluate (Machine.backend limits program calls) program fuel body machine = .error (.fault (.structural fault)) after →
        fault.AfterLoading fault.message := by
  have hclosed := Program.closed_of_loaded h
  have hends : ∀ {σ V A : Type} {b : Backend σ V A}, b.StopsOnly Stop.AfterLoading → ∀ (fuel : Nat),
      (evaluate b program fuel body).Ends Stop.AfterLoading fun _ => True :=
    fun hb fuel => evaluate_ends hb (hclosed name body hbody) fuel
  refine ⟨fun b hb fuel s s' fault hrun => ?_, fun limits calls fuel machine after fault hrun => ?_⟩
  · have hmono := hb.mono fun _ => Stop.afterLoading_of_unstructured
    exact Action.stop_of_ends (hends hmono fuel) hrun fault rfl
  · exact Action.stop_of_ends (hends (Machine.backend_stopsOnly hclosed calls) fuel) hrun fault rfl

/-- In `{loop ()} [0 loop] +` a machine finds that the round brackets that it calls have no accessor. Writing the entry point in C
calls nothing, and finds the token outside of the brackets. -/
theorem afterLoading_of_loaded_of_empty :
    let program : Program :=
      ⟨[(entryName, [.opening .applicator, .literal 0, .identifier "loop", .closing .applicator, .builtin .increment]),
        ("loop", [.opening .conditional, .closing .conditional])]⟩
    (∃ after, evaluate (CProgram.Generator.backend {} false) program 5 program.entry {} =
        .error (.fault (.structural (.outsideBrackets (.builtin .increment)))) after) ∧
      (∃ after, evaluate (Machine.backend {} program 3) program 5 program.entry { memory := .zeroed 1 } =
        .error (.fault (.structural .conditionalWithoutAccessor)) after) ∧
      StructureFault.AfterLoading (.outsideBrackets (.builtin .increment)) "'+' appears outside any bracket" ∧
      StructureFault.AfterLoading .conditionalWithoutAccessor "conditional has no accessor" := by
  intro program
  have hsound : program.Sound := {
    distinct := by decide
    entry := by decide
    checked := List.forall_mem_cons.2 ⟨rfl, List.forall_mem_cons.2 ⟨rfl, nofun⟩⟩
    legible := by
      refine List.forall_mem_cons.2 ⟨?_, List.forall_mem_cons.2 ⟨?_, nofun⟩⟩
      · simp only [List.forall_mem_cons]
        exact ⟨rfl, rfl, rfl, rfl, rfl, nofun⟩
      · simp only [List.forall_mem_cons]
        exact ⟨rfl, rfl, nofun⟩ }
  have hentry : program.body? entryName = some program.entry := rfl
  obtain ⟨hbackend, hmachine⟩ := afterLoading_of_loaded (Program.loaded_of_sound hsound) hentry
  have hgenerator : (CProgram.Generator.backend {} false).StopsOnly Stop.Unstructured :=
    CProgram.Generator.backend_stopsOnly fun _ hunstructured _ heq => hunstructured _ (Stop.fault.inj heq)
  obtain ⟨after, hwritten⟩ : ∃ after, evaluate (CProgram.Generator.backend {} false) program 5 program.entry {} =
    .error (.fault (.structural (.outsideBrackets (.builtin .increment)))) after := ⟨_, rfl⟩
  obtain ⟨machine, hrun⟩ : ∃ after, evaluate (Machine.backend {} program 3) program 5 program.entry { memory := .zeroed 1 } =
    .error (.fault (.structural .conditionalWithoutAccessor)) after := ⟨_, rfl⟩
  refine ⟨⟨after, hwritten⟩, ⟨machine, hrun⟩, ?_, ?_⟩
  · exact hbackend _ hgenerator 5 {} after _ hwritten
  · exact hmachine {} 3 5 _ machine _ hrun

end Bracketry

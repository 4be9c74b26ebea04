import Bracketry.Proofs.Machine.Twins
import Bracketry.Proofs.Substitution

/-!
# Calls in place

An application that is called does what its body does in place of the call, with the address in place of the argument: the body then
runs with one application less active, so that one call less deep is allowed.

* `Machine.Shifted` : machines that differ in one active application, the outermost;
* `Machine.passBody_shifted` : called bodies do the same on both, if the limit on the calls differs by one as well;
* `Machine.passBody_inlined` : so does the body that the outermost application runs, with the number in place of its argument;
* `Machine.calling`, `Machine.passBody_calling` : an applicator that calls an application and does nothing else;
* `Machine.passBody_calling_iff` : it ends as the body of the application does;
* `Machine.evaluateEntry_inlined` : hence a program that only calls an application, and one that has its body instead.
-/

namespace Bracketry.Machine

variable {α : Type} {address dataSize depth : Nat} {frames : Array Nat}

/-! ## One active application more -/

/-- The first machine has one more application active, the outermost; otherwise they are the same. -/
inductive Shifted (address : Nat) (frames : Array Nat) : Machine → Machine → Prop
  | mk (memory : Memory) (streams : Streams) :
      Shifted address frames ⟨memory, streams, #[address] ++ frames⟩ ⟨memory, streams, frames⟩

/-- Actions that end well on both of such machines or on neither. -/
abbrev shifting (address : Nat) (frames : Array Nat) : Relator Machine Machine := .agreeing (Shifted address frames)

theorem cell_shifted (index : Nat) : (shifting address frames).Rel Eq (cell index) (cell index) := by
  rintro _ _ ⟨memory, streams⟩
  unfold cell
  dsimp only
  split
  · exact ⟨rfl, .mk memory streams⟩
  · trivial

theorem store_shifted (index : Nat) (value : UInt8) : (shifting address frames).Rel Eq (store index value) (store index value) := by
  rintro _ _ ⟨memory, streams⟩
  unfold store
  dsimp only
  split
  · exact ⟨rfl, .mk (memory.set index value) streams⟩
  · trivial

theorem perform_shifted (operation : Streams → Except StreamFault α × Streams) :
    (shifting address frames).Rel Eq (perform operation) (perform operation) := by
  rintro _ _ ⟨memory, streams⟩
  unfold perform
  dsimp only
  split
  · next after _ => exact ⟨rfl, .mk memory after⟩
  · trivial

theorem applyBuiltin_shifted (index : Nat) (op : Builtin) :
    (shifting address frames).Rel Eq (applyBuiltin index op) (applyBuiltin index op) := by
  have hread : (shifting address frames).Rel Eq readByte readByte :=
    (shifting address frames).bind_eq (perform_shifted _) fun _ => perform_shifted _
  cases op with
  | increment => exact (shifting address frames).bind_eq (cell_shifted index) fun _ => store_shifted index _
  | decrement => exact (shifting address frames).bind_eq (cell_shifted index) fun _ => store_shifted index _
  | output => exact (shifting address frames).bind_eq (cell_shifted index) fun _ => perform_shifted _
  | input => exact (shifting address frames).bind_eq hread fun _ => store_shifted index _
  | nop => exact (shifting address frames).pure rfl

theorem ofExcept_shifted (x : Except Error α) : (shifting address frames).Rel Eq (Action.ofExcept x) (Action.ofExcept x) := by
  cases x with
  | ok a => exact (shifting address frames).pure rfl
  | error error => exact Relator.agreeing_fault _ _

theorem argument_shifted (top : Nat) : (shifting address (frames.push top)).Rel Eq argument argument := by
  rintro _ _ ⟨memory, streams⟩
  have hback : (#[address] ++ frames.push top).back? = some top := by simp
  have hback' : (frames.push top).back? = some top := by simp
  unfold argument
  simp only [hback, hback']
  exact ⟨rfl, .mk memory streams⟩

/-! ## Calls -/

theorem leaveFrame_shifted {top : Nat} {r r' : EStateM.Result Stop Machine Unit}
    (h : Relator.Agreeing (Shifted address (frames.push top)) Eq r r') :
    Relator.Agreeing (Shifted address frames) Eq (leaveFrame r) (leaveFrame r') := by
  cases r <;> cases r'
  · obtain ⟨-, ⟨memory, streams⟩⟩ := h
    refine ⟨rfl, ?_⟩
    have hpop : (#[address] ++ frames.push top).pop = #[address] ++ frames := by rw [← Array.push_append, Array.pop_push]
    rw [hpop, Array.pop_push]
    exact .mk memory streams
  · exact h.elim
  · exact h.elim
  · trivial

variable {program other : Program} {evaluateBody evaluateBody' : List Token → Action Machine Unit}

/-- With one application more active, one call deeper is allowed. -/
theorem call_shifted
    (hbody : ∀ top body, (shifting address (frames.push top)).Rel Eq (evaluateBody body) (evaluateBody' body)) {name : String}
    (hname : program.body? name = other.body? name) (target : Nat) :
    (shifting address frames).Rel Eq (call ⟨dataSize, depth + 1⟩ program evaluateBody name target)
      (call ⟨dataSize, depth⟩ other evaluateBody' name target) := by
  rintro _ _ ⟨memory, streams⟩
  have hsize : depth + 1 ≤ (#[address] ++ frames).size ↔ depth ≤ frames.size := by
    rw [Array.size_append, List.size_toArray, List.length_singleton]
    omega
  rw [call_eq, call_eq, hname]
  simp only [hsize]
  split
  · trivial
  · cases other.body? name with
    | none => trivial
    | some body =>
      simp only [inFrame_eq, Array.push_append]
      exact leaveFrame_shifted (hbody target body _ _ (.mk memory streams))

def SameApplications (program other : Program) : Prop := ∀ name, name ≠ entryName → program.body? name = other.body? name

theorem identifier_shifted (hsame : SameApplications program other)
    (hbody : ∀ top body, (shifting address (frames.push top)).Rel Eq (evaluateBody body) (evaluateBody' body)) (name : String)
    (target : Nat) :
    (shifting address frames).Rel Eq
      (Pass.applyToken (backendWith ⟨dataSize, depth + 1⟩ program evaluateBody) program target (.identifier name))
      (Pass.applyToken (backendWith ⟨dataSize, depth⟩ other evaluateBody') other target (.identifier name)) := by
  change (shifting address frames).Rel Eq
    (if program.isApplication name then call ⟨dataSize, depth + 1⟩ program evaluateBody name target
      else Action.fault (.unknownToken name))
    (if other.isApplication name then call ⟨dataSize, depth⟩ other evaluateBody' name target
      else Action.fault (.unknownToken name))
  have happlication : program.isApplication name = other.isApplication name := by
    rw [Bool.eq_iff_iff]
    simp only [Program.isApplication_iff, Program.lookup_applications_eq_some_iff]
    exact exists_congr fun body => and_congr_right fun hname => by rw [hsame name hname]
  rw [happlication]
  split
  · next h =>
    obtain ⟨-, -, hname⟩ := Program.exists_body_of_isApplication h
    exact call_shifted hbody (hsame name hname) target
  · exact Relator.agreeing_fault _ _

/-! ## Bodies -/

variable (dataSize depth) in
theorem backendWith_shifted (hsame : SameApplications program other)
    (hbody : ∀ top body, (shifting address (frames.push top)).Rel Eq (evaluateBody body) (evaluateBody' body))
    {parameter : Action Machine Int64} (hparameter : (shifting address frames).Rel Eq argument parameter) :
    (backendWith ⟨dataSize, depth + 1⟩ program evaluateBody).Matches (shifting address frames) Eq Eq program
      { backendWith ⟨dataSize, depth⟩ other evaluateBody' with parameter } other where
  literal _ := (shifting address frames).pure rfl
  parameter := hparameter
  resolveAccessor := by
    rintro value _ rfl
    exact ofExcept_shifted _
  applyBuiltin := by
    rintro target _ rfl op
    exact applyBuiltin_shifted target op
  assign := by
    rintro target _ rfl value _ rfl
    exact store_shifted target _
  named := by
    rintro name target _ rfl
    exact identifier_shifted hsame hbody name target
  resolve := by
    rintro target _ rfl
    exact (shifting address frames).bind_eq (cell_shifted target) fun _ => (shifting address frames).pure rfl
  enterLoop := (shifting address frames).pure rfl
  testLoop := by
    rintro target _ rfl
    exact (shifting address frames).bind_eq (cell_shifted target) fun _ => (shifting address frames).pure rfl
  exitLoop := by
    rintro target _ rfl
    exact (shifting address frames).pure rfl
  describe := by
    rintro value _ rfl
    rfl

variable (dataSize depth) in
/-- A body that is called by a body, with all it calls. Its own argument is that of the innermost application on both sides. -/
theorem passBody_shifted (hsame : SameApplications program other) (fuel top : Nat) (body : List Token) :
    (shifting address (frames.push top)).Rel Eq (passBody ⟨dataSize, depth + 1⟩ program fuel body)
      (passBody ⟨dataSize, depth⟩ other fuel body) := by
  induction fuel generalizing frames top body with
  | zero => exact (shifting address (frames.push top)).exhausted Eq
  | succ fuel ih =>
    rw [passBody, passBody, backend_eq, backend_eq]
    have hargument : (shifting address (frames.push top)).Rel Eq argument argument := argument_shifted top
    have hcalls := backendWith_shifted dataSize depth hsame (fun next body => ih next body) hargument
    exact Pass.evaluate_matches hcalls (Relator.agreeing_keepsFaults _) fuel body

variable (dataSize depth) in
/-- The body of the outermost application, with all it calls, and the body with its argument put in its place. -/
theorem passBody_inlined (hsame : SameApplications program other) (fuel : Nat) (body : List Token) :
    (shifting address #[]).Rel Eq (passBody ⟨dataSize, depth + 1⟩ program fuel body)
      (passBody ⟨dataSize, depth⟩ other fuel (body.map (Token.substitute (shown address)))) := by
  cases fuel with
  | zero => exact (shifting address #[]).exhausted Eq
  | succ fuel =>
    rw [passBody, passBody, backend_eq, backend_eq]
    have hargument : (shifting address #[]).Rel Eq argument (pure (shown address)) := by
      rintro _ _ ⟨memory, streams⟩
      exact ⟨rfl, .mk memory streams⟩
    have hcalls := backendWith_shifted dataSize depth hsame
      (fun top body => passBody_shifted dataSize depth hsame fuel top body) hargument
    intro machine machine' h
    refine Relator.Agreeing.trans_eq (Pass.evaluate_matches hcalls (Relator.agreeing_keepsFaults _) fuel body machine machine' h) ?_
    exact evaluate_substitute _ other (shown address) fuel body machine' machine' rfl

/-! ## One call -/

/-- An applicator that calls an application on a cell, and does nothing else. -/
def calling (value : Int64) (name : String) : List Token :=
  [.opening .applicator, .literal value, .identifier name, .closing .applicator]

variable {limits : Limits} {value : Int64} {name : String}

/-- The applicator calls the application, and then looks its cell up for a value that nothing wants. -/
theorem passBody_calling (hcheck : limits.checkAddress value = .ok address) (hname : program.isApplication name = true)
    (fuel : Nat) :
    passBody limits program (fuel + 5) (calling value name) =
      call limits program (passBody limits program (fuel + 4)) name address >>= fun _ => cell address >>= fun _ => pure () := by
  rw [passBody, backend_eq]
  generalize passBody limits program (fuel + 4) = evaluateBody
  let b := backendWith limits program evaluateBody
  let kept : List (Item Int64) := [.token (.literal value), .token (.identifier name)]
  have haddress : Item.address b (.token (.literal value)) = pure address := by
    change Action.ofExcept (limits.checkAddress value) = _
    rw [hcheck]
    rfl
  have hoperand : Item.apply b program address (.token (.identifier name)) =
      call limits program evaluateBody name address := if_pos hname
  have happlied : Item.applied b program kept =
      call limits program evaluateBody name address >>= fun _ => b.resolve address := by
    rw [Item.applied, haddress, pure_bind]
    change (Item.apply b program address (.token (.identifier name)) >>= fun _ => pure ()) >>= _ = _
    rw [hoperand, bind_assoc]
    simp only [pure_bind]
  calc evaluate b program (fuel + 4) (calling value name)
      = Pass.run b program (fuel + 1) ⟨[.closing .applicator], Item.onto [.applicator] kept, []⟩ := rfl
    _ = Item.applied b program kept >>= fun v =>
          Pass.deliver b program ⟨[], [], []⟩ (Item.value v).entry >>= Pass.run b program fuel :=
        Pass.run_closing_applicator b program kept fuel
    _ = call limits program evaluateBody name address >>= fun _ => cell address >>= fun _ => pure () := by
        rw [happlied, bind_assoc]
        refine congrArg _ (funext fun _ => ?_)
        change (cell address >>= fun byte => pure _) >>= (fun _ => Pass.run b program fuel ⟨[], [], []⟩) = _
        rw [bind_assoc]
        simp only [pure_bind]
        cases fuel <;> rfl

theorem passBody_calling_eq_ok_iff (hcheck : limits.checkAddress value = .ok address)
    (hname : program.isApplication name = true) (fuel : Nat) {machine after : Machine} (hsize : address < after.memory.size) :
    passBody limits program (fuel + 5) (calling value name) machine = .ok () after ↔
      call limits program (passBody limits program (fuel + 4)) name address machine = .ok () after := by
  rw [passBody_calling hcheck hname]
  constructor
  · intro h
    obtain ⟨_, mid, hcall, h⟩ := Action.of_bind_eq_ok h
    obtain ⟨_, looked, hcell, h⟩ := Action.of_bind_eq_ok h
    obtain ⟨-, rfl⟩ := EStateM.Result.ok.inj h
    rw [← eq_of_cell hcell] at hcall
    exact hcall
  · intro h
    rw [Action.bind_of_ok h, Action.bind_of_ok (cell_eq hsize)]
    rfl

/-! ## Whole programs -/

theorem size_of_passBody {fuel : Nat} {body : List Token} {machine after : Machine}
    (h : passBody limits program fuel body machine = .ok () after) : after.memory.size = machine.memory.size := by
  have hmemory : Memory.Divided limits.dataSize machine.memory machine.memory machine.memory machine.memory :=
    ⟨fun _ _ => rfl, .refl _ _, .refl _ _⟩
  have htwin := passBody_twins program (.divided _ _ _) fuel body machine machine ⟨hmemory, .refl machine.streams, rfl⟩
  rw [h] at htwin
  exact htwin.2.memory.left.size

theorem leaveFrame_eq_ok_iff {r r' : EStateM.Result Stop Machine Unit} {after : Machine}
    (h : Relator.Agreeing (Shifted address #[]) Eq r r') : leaveFrame r = .ok () after ↔ r' = .ok () after := by
  cases r <;> cases r'
  · obtain ⟨-, ⟨memory, streams⟩⟩ := h
    rfl
  · exact h.elim
  · exact h.elim
  · exact iff_of_false nofun nofun

/-- From no active application, the applicator does what the body does with the number in place of the argument. -/
theorem passBody_calling_iff (hsame : SameApplications program other) {body : List Token}
    (hlookup : program.applications.lookup name = some body)
    (hcheck : (⟨dataSize, depth + 1⟩ : Limits).checkAddress value = .ok address) {memory : Memory} (hsize : address < memory.size)
    (streams : Streams) (fuel : Nat) (after : Machine) :
    passBody ⟨dataSize, depth + 1⟩ program (fuel + 5) (calling value name) ⟨memory, streams, #[]⟩ = .ok () after ↔
      passBody ⟨dataSize, depth⟩ other (fuel + 4) (body.map (Token.substitute value)) ⟨memory, streams, #[]⟩ = .ok () after := by
  have hname : program.isApplication name = true := Program.isApplication_iff.2 ⟨body, hlookup⟩
  have hshown : shown address = value := by
    obtain ⟨⟨-, hshown⟩, hvalue⟩ := Limits.addressable_of_checkAddress hcheck
    exact Int64.toInt_inj.1 (hshown.trans hvalue.symm)
  have hcall : call ⟨dataSize, depth + 1⟩ program (passBody ⟨dataSize, depth + 1⟩ program (fuel + 4)) name address
        ⟨memory, streams, #[]⟩ = .ok () after ↔
      passBody ⟨dataSize, depth⟩ other (fuel + 4) (body.map (Token.substitute value)) ⟨memory, streams, #[]⟩ = .ok () after := by
    have hdepth : ¬depth + 1 ≤ (#[] : Array Nat).size := Nat.not_succ_le_zero depth
    rw [call_eq, if_neg hdepth, (Program.lookup_applications_eq_some_iff.1 hlookup).2, ← hshown]
    dsimp only
    rw [inFrame_eq]
    exact leaveFrame_eq_ok_iff (passBody_inlined dataSize depth hsame (fuel + 4) body _ _ (.mk memory streams))
  constructor
  · intro h
    have hafter : address < after.memory.size := (size_of_passBody h).symm ▸ hsize
    exact hcall.1 ((passBody_calling_eq_ok_iff hcheck hname fuel hafter).1 h)
  · intro h
    have hafter : address < after.memory.size := (size_of_passBody h).symm ▸ hsize
    exact (passBody_calling_eq_ok_iff hcheck hname fuel hafter).2 (hcall.2 h)

theorem exists_evaluateEntry_iff (more : Nat) {machine after : Machine} :
    (∃ fuel, evaluateEntry limits program fuel machine = .ok () after) ↔
      ∃ fuel, passBody limits program (fuel + more) program.entry machine = .ok () after := by
  have hraise {fuel fuel' : Nat} (hle : fuel ≤ fuel') (h : passBody limits program fuel program.entry machine = .ok () after) :
      passBody limits program fuel' program.entry machine = .ok () after := by
    refine ((passBody_below_of_le hle program.entry).eq_of_not_exhausted ?_).trans h
    rw [h]
    exact id
  simp only [evaluateEntry_eq]
  constructor
  · rintro ⟨fuel, h⟩
    exact ⟨fuel + 1, hraise (Nat.le_add_right _ more) h⟩
  · rintro ⟨fuel, h⟩
    exact ⟨fuel + more, hraise (Nat.le_succ _) h⟩

theorem exists_run_iff {machine after : Machine} :
    (∃ fuel, run limits program fuel machine = .ok () after) ↔
      ∃ before, (∃ fuel, evaluateEntry limits program fuel machine = .ok () before) ∧
        perform Streams.flush before = .ok () after := by
  simp only [run_eq_ok_iff, evaluateEntry_eq]
  constructor
  · rintro ⟨fuel, before, hentry, hflush⟩
    exact ⟨before, ⟨fuel, hentry⟩, hflush⟩
  · rintro ⟨before, ⟨fuel, hentry⟩, hflush⟩
    exact ⟨fuel, before, hentry, hflush⟩

theorem sameApplications_setEntry (program : Program) (entry entry' : List Token) :
    SameApplications (program.setEntry entry) (program.setEntry entry') := by
  intro name hname
  rw [Program.body?_setEntry hname, Program.body?_setEntry hname]

theorem exists_evaluateEntry_calling_iff {body : List Token} (h : program.applications.lookup name = some body)
    (hlow : 0 ≤ value.toInt) (hhigh : value.toInt < dataSize) (depth : Nat) {memory : Memory} (hsize : memory.size = dataSize)
    (streams : Streams) (after : Machine) :
    (∃ fuel, evaluateEntry ⟨dataSize, depth + 1⟩ (program.setEntry (calling value name)) fuel ⟨memory, streams, #[]⟩ =
        .ok () after) ↔
      ∃ fuel, evaluateEntry ⟨dataSize, depth⟩ (program.setEntry (body.map (Token.substitute value))) fuel
        ⟨memory, streams, #[]⟩ = .ok () after := by
  have hlookup : (program.setEntry (calling value name)).applications.lookup name = some body := by
    obtain ⟨hname, hbody⟩ := Program.lookup_applications_eq_some_iff.1 h
    rw [Program.lookup_applications_eq_some_iff, Program.body?_setEntry hname]
    exact ⟨hname, hbody⟩
  have hcheck : (⟨dataSize, depth + 1⟩ : Limits).checkAddress value = .ok value.toInt.toNat := if_pos ⟨hlow, hhigh⟩
  have hcell : value.toInt.toNat < memory.size := by omega
  rw [exists_evaluateEntry_iff 5, exists_evaluateEntry_iff 4, Program.entry_setEntry, Program.entry_setEntry]
  exact exists_congr fun fuel =>
    passBody_calling_iff (sameApplications_setEntry program _ _) hlookup hcheck hcell streams fuel after

/-- A program that does nothing but call an application on a cell ends well if and only if the program ends well that has the body
of the application for its entry point, with the number of the cell wherever the argument stood, and is allowed one call less deep.
Both leave the same memory, and the same attempts on the streams behind, with the last flush as without it. -/
theorem evaluateEntry_inlined (program : Program) {name : String} {body : List Token}
    (h : program.applications.lookup name = some body) {value : Int64} {dataSize : Nat} (hlow : 0 ≤ value.toInt)
    (hhigh : value.toInt < dataSize) (depth : Nat) {memory : Memory} (hsize : memory.size = dataSize) (streams : Streams)
    (after : Machine) :
    let start : Machine := { memory, streams }
    let called := program.setEntry [.opening .applicator, .literal value, .identifier name, .closing .applicator]
    let inlined := program.setEntry (body.map (Token.substitute value))
    ((∃ fuel, evaluateEntry ⟨dataSize, depth + 1⟩ called fuel start = .ok () after) ↔
        ∃ fuel, evaluateEntry ⟨dataSize, depth⟩ inlined fuel start = .ok () after) ∧
      ((∃ fuel, run ⟨dataSize, depth + 1⟩ called fuel start = .ok () after) ↔
        ∃ fuel, run ⟨dataSize, depth⟩ inlined fuel start = .ok () after) := by
  intro start called inlined
  have hentry := exists_evaluateEntry_calling_iff h hlow hhigh depth hsize streams
  refine ⟨hentry after, ?_⟩
  rw [exists_run_iff, exists_run_iff]
  exact exists_congr fun before => and_congr_left fun _ => hentry before

/-- The program `{inc [$ +]} {f [$ inc] [0 $ .]} [2 f]` has two applications active at once, and `{inc [$ +]} [2 inc] [0 2 .]` one.
Both increment the cell and print its address; only the second does so where no more than one may be active. -/
theorem evaluateEntry_inlined_of_two_calls :
    let body : List Token := [.opening .applicator, .parameter, .identifier "inc", .closing .applicator,
      .opening .applicator, .literal 0, .parameter, .builtin .output, .closing .applicator]
    let program : Program := ⟨[(entryName, []),
      ("inc", [.opening .applicator, .parameter, .builtin .increment, .closing .applicator]), ("f", body)]⟩
    let called := program.setEntry [.opening .applicator, .literal 2, .identifier "f", .closing .applicator]
    let inlined := program.setEntry [.opening .applicator, .literal 2, .identifier "inc", .closing .applicator,
      .opening .applicator, .literal 0, .literal 2, .builtin .output, .closing .applicator]
    let memory := (Memory.zeroed 3).set 2 7
    let r := run ⟨3, 2⟩ called 10 { memory }
    program.applications.lookup "f" = some body ∧ 0 ≤ (2 : Int64).toInt ∧ (2 : Int64).toInt < (3 : Nat) ∧ memory.size = 3 ∧
      resultOf (run ⟨3, 1⟩ called 10 { memory }) = .error (.fault (.callDepthExceeded 1)) ∧
      (after r).streams.output = [2] ∧ (after r).memory.get? 2 = some 8 ∧
      ∃ fuel, run ⟨3, 1⟩ inlined fuel { memory } = .ok () (after r) := by
  intro body program called inlined memory r
  have hlookup : program.applications.lookup "f" = some body := by decide
  have hlow : 0 ≤ (2 : Int64).toInt := by decide
  have hhigh : (2 : Int64).toInt < (3 : Nat) := by decide
  have hsize : memory.size = 3 := rfl
  have hended : r = .ok () (after r) := rfl
  have hruns := (evaluateEntry_inlined program hlookup hlow hhigh 1 hsize {} (after r)).2
  exact ⟨hlookup, hlow, hhigh, hsize, rfl, by decide, by decide, hruns.1 ⟨10, hended⟩⟩

end Bracketry.Machine

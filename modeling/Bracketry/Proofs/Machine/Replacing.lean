import Bracketry.Proofs.Interchangeable
import Bracketry.Proofs.Machine.Guards

/-!
# Interchangeable bodies on a machine

A machine that has a cell for every address does not tell interchangeable bodies apart, whichever bodies of a program are replaced.

* `Program.Interchangeable` : programs with interchangeable bodies under the same names, in the same order;
* `Machine.looseWith`, `Machine.looseBody` : evaluation with a value for every address, also where there is no cell;
* `Machine.passBody_eq_looseBody` : this makes no difference on a machine with enough cells;
* `Machine.looseWith_rereads` : it makes looking a value up harmless;
* `Machine.looseBody_settles` : so interchangeable bodies do the same, each with enough fuel;
* `Machine.passBody_interchanged`, `Machine.run_interchanged` : bodies and whole programs.
-/

namespace Bracketry

/-! ## Programs -/

def Program.Interchangeable (program other : Program) : Prop :=
  List.Forall₂ (fun named named' => named.1 = named'.1 ∧ Bracketry.Interchangeable named.2 named'.2) program.bodies other.bodies

namespace Program.Interchangeable
variable {program other : Program} {name : String}

theorem symm (h : program.Interchangeable other) : other.Interchangeable program :=
  (List.Forall₂.flip h).imp fun _ _ hnamed => ⟨hnamed.1.symm, hnamed.2.symm⟩

theorem set (program : Program) (name : String) {body body' : List Token} (h : Bracketry.Interchangeable body body') :
    (program.set name body).Interchangeable (program.set name body') := by
  have hrefl : ∀ bodies : List (String × List Token), List.Forall₂
      (fun named named' => named.1 = named'.1 ∧ Bracketry.Interchangeable named.2 named'.2) bodies bodies :=
    fun bodies => List.forall₂_same.2 fun named _ => ⟨rfl, .refl named.2⟩
  unfold Program.set
  split
  · refine List.forall₂_map_left_iff.2 (List.forall₂_map_right_iff.2 (List.forall₂_same.2 fun named _ => ?_))
    split
    · exact ⟨rfl, h⟩
    · exact ⟨rfl, .refl named.2⟩
  · exact List.rel_append (hrefl program.bodies) (.cons ⟨rfl, h⟩ .nil)

theorem body? (h : program.Interchangeable other) (name : String) :
    Option.Rel Bracketry.Interchangeable (program.body? name) (other.body? name) := by
  obtain ⟨bodies⟩ := program
  obtain ⟨bodies'⟩ := other
  replace h : List.Forall₂ (fun named named' => named.1 = named'.1 ∧ Bracketry.Interchangeable named.2 named'.2) bodies bodies' := h
  unfold Program.body?
  dsimp only
  induction h with
  | nil => exact .none
  | @cons named named' _ _ hnamed _ ih =>
    obtain ⟨first, body⟩ := named
    obtain ⟨first', body'⟩ := named'
    obtain ⟨rfl, hbody⟩ := hnamed
    rw [List.lookup_cons, List.lookup_cons]
    cases name == first with
    | true => exact .some hbody
    | false => exact ih

theorem applications (h : program.Interchangeable other) : List.Forall₂
    (fun named named' => named.1 = named'.1 ∧ Bracketry.Interchangeable named.2 named'.2) program.applications other.applications := by
  refine List.rel_filter ?_ h
  intro named named' hnamed
  exact iff_of_eq (congrArg (fun name => (name != entryName) = true) hnamed.1)

theorem entry (h : program.Interchangeable other) : Bracketry.Interchangeable program.entry other.entry := by
  have hentry := h.body? entryName
  unfold Program.entry
  generalize program.body? entryName = entry at hentry
  generalize other.body? entryName = entry' at hentry
  cases hentry with
  | none => exact .refl []
  | some hbody => exact hbody

theorem isApplication (h : program.Interchangeable other) (name : String) :
    program.isApplication name = other.isApplication name := by
  have hcontains : program.contains name = other.contains name := by
    rw [Bool.eq_iff_iff, Program.contains_iff_exists_body?, Program.contains_iff_exists_body?]
    have hname := h.body? name
    generalize program.body? name = body at hname
    generalize other.body? name = body' at hname
    cases hname with
    | none => exact Iff.rfl
    | some _ => exact ⟨fun _ => ⟨_, rfl⟩, fun _ => ⟨_, rfl⟩⟩
  unfold Program.isApplication
  rw [hcontains]

end Program.Interchangeable

/-- An evaluation asks the program only what its applications are. -/
theorem evaluate_below_of_isApplication {σ V A : Type} {program other : Program}
    (h : ∀ name, program.isApplication name = other.isApplication name) (b : Backend σ V A) (fuel : Nat) (body : List Token) :
    Below (evaluate b program fuel body) (evaluate b other fuel body) := by
  have hmatches := (Backend.alike_below_refl b).matches Relator.below_keepsFaults program
  have hother : b.Matches (.below σ) Eq Eq program b other :=
    { hmatches with
      named := by
        rintro name a _ rfl
        refine Relator.below_eq_iff.2 ?_
        change Below (if program.isApplication name then b.call name a else Action.fault (.unknownToken name))
          (if other.isApplication name then b.call name a else Action.fault (.unknownToken name))
        rw [h name]
        exact Below.refl _ }
  exact Relator.below_eq_iff.1 (Pass.evaluate_matches hother Relator.below_keepsFaults fuel body)

namespace Machine
variable {limits : Limits} {program other : Program} {evaluateBody : List Token → Action Machine Unit}

/-! ## A value for every address -/

variable (limits program) in
/-- The operations of a body, with a value for every address. -/
def looseWith (evaluateBody : List Token → Action Machine Unit) : Backend Machine Int64 Nat :=
  { backendWith limits program evaluateBody with
    resolve := fun address machine => .ok (Int64.ofNat (machine.memory.value address).toNat) machine }

variable (limits program) in
def looseBody : Nat → List Token → Action Machine Unit
  | 0, _ => Action.exhausted
  | fuel + 1, body => evaluate (looseWith limits program (looseBody fuel)) program fuel body

theorem looseWith_leaving (hbody : ∀ body, (Relator.leaving frames).Rel Eq (evaluateBody body) (evaluateBody body)) (other : Program) :
    (looseWith limits program evaluateBody).Matches (.leaving frames) Eq (fun address address' => address = address' ∧ True) other
      (looseWith limits program evaluateBody) other := by
  have hleaving : (backendWith limits program evaluateBody).Matches (.leaving frames) Eq (fun address address' =>
      address = address' ∧ True) program (backendWith limits program evaluateBody) program := frames_respects.backendWith hbody
  exact { hleaving with
    named := by
      rintro name address _ ⟨rfl, -⟩
      exact Pass.identifier_matches Relator.leaving_keepsFaults (call_leaving hbody name address)
    resolve := by
      rintro address _ ⟨rfl, -⟩ machine
      exact ⟨rfl, rfl, rfl⟩ }

theorem looseBody_leaving (fuel : Nat) (body : List Token) :
    (Relator.leaving frames).Rel Eq (looseBody limits program fuel body) (looseBody limits program fuel body) := by
  induction fuel generalizing body with
  | zero => exact (Relator.leaving frames).exhausted Eq
  | succ fuel ih => exact Pass.evaluate_matches (looseWith_leaving ih program) Relator.leaving_keepsFaults fuel body

theorem loose_accessor_eq : Pass.accessor (looseWith limits program evaluateBody) =
    Pass.accessor (backendWith limits program evaluateBody) := rfl

theorem looseWith_rereads (hbody : ∀ body, (Relator.leaving frames).Rel Eq (evaluateBody body) (evaluateBody body)) (other : Program) :
    (looseWith limits program evaluateBody).Rereads other where
  resolve address machine := ⟨_, rfl⟩
  accessor h := by
    rw [loose_accessor_eq, accessor_eq_ok_iff] at h
    exact h.2
  again := by
    intro t token address target machine after hread h
    have happly : (Relator.leaving frames).Rel Eq (Pass.applyToken (looseWith limits program evaluateBody) other address token)
        (Pass.applyToken (looseWith limits program evaluateBody) other address token) :=
      Pass.applyToken_matches (looseWith_leaving hbody other) Relator.leaving_keepsFaults ⟨rfl, trivial⟩ token
    have hleaves := Relator.leaving_iff.1 happly machine
    rw [h] at hleaves
    have hnamed : after.named? t = machine.named? t := by
      cases t with
      | parameter => exact congrArg (fun frames : Array Nat => frames.back?.map shown) hleaves
      | _ => rfl
    rw [loose_accessor_eq, accessor_eq_ok_iff] at hread ⊢
    rw [hnamed]
    exact ⟨hread.1, rfl⟩

/-! ## Enough cells -/

/-- A memory with a cell for every address, on both sides. -/
def roomy (limits : Limits) (memory memory' : Memory) : Prop := memory = memory' ∧ limits.dataSize ≤ memory.size

theorem eq_of_roomy {machine machine' : Machine} (h : Paired (roomy limits) Eq machine machine') : machine = machine' := by
  obtain ⟨memory, streams, frames⟩ := machine
  obtain ⟨memory', streams', frames'⟩ := machine'
  obtain ⟨⟨hmemory, -⟩, hstreams, hframes⟩ := h
  obtain rfl : memory = memory' := hmemory
  obtain rfl : streams = streams' := hstreams
  obtain rfl : frames = frames' := hframes
  rfl

theorem roomy_respects : Respects (pairs (roomy limits) Eq) limits limits program (· < limits.dataSize) := by
  have hmemory : Memory.Indistinct limits.dataSize (roomy limits) :=
    { get?_eq := by
        rintro memory _ ⟨rfl, -⟩ address -
        rfl
      set := by
        rintro memory _ ⟨rfl, hroom⟩ address - value
        exact ⟨rfl, by rwa [Memory.size_set]⟩ }
  have hperform {α : Type} (operation : Streams → Except StreamFault α × Streams) :
      (pairs (roomy limits) Eq).Rel Eq (perform operation) (perform operation) := by
    refine perform_pairs ?_
    rintro streams _ rfl
    exact ⟨rfl, rfl⟩
  exact pairs_respects hmemory ((pairs (roomy limits) Eq).bind_eq (hperform _) fun _ => hperform _) fun value => hperform _

theorem passBody_loosens (fuel : Nat) (body : List Token) :
    (pairs (roomy limits) Eq).Rel Eq (passBody limits program fuel body) (looseBody limits program fuel body) := by
  induction fuel generalizing body with
  | zero => exact (pairs (roomy limits) Eq).exhausted Eq
  | succ fuel ih =>
    rw [passBody, backend_eq]
    have hloose : (backendWith limits program (passBody limits program fuel)).Matches (pairs (roomy limits) Eq) Eq
        (fun address address' => address = address' ∧ address < limits.dataSize) program
        (looseWith limits program (looseBody limits program fuel)) program :=
      { roomy_respects.backendWith ih with
        resolve := by
          rintro address _ ⟨rfl, haddress⟩ machine machine' h
          have hcell : address < machine.memory.size := Nat.lt_of_lt_of_le haddress h.memory.2
          change Relator.Abreast _ _ ((cell address >>= fun byte => pure (Int64.ofNat byte.toNat)) machine) _
          rw [Action.bind_of_ok (cell_eq hcell), h.memory.1]
          exact ⟨rfl, h⟩ }
    exact Pass.evaluate_matches hloose (Relator.abreast_keepsFaults _) fuel body

theorem passBody_eq_looseBody {machine : Machine} (hroom : limits.dataSize ≤ machine.memory.size) (fuel : Nat) (body : List Token) :
    passBody limits program fuel body machine = looseBody limits program fuel body machine := by
  have hloose : (pairs (roomy limits) Eq).Rel Eq (passBody limits program fuel body) (looseBody limits program fuel body) :=
    passBody_loosens fuel body
  have h := hloose machine machine ⟨⟨rfl, hroom⟩, rfl, rfl⟩
  cases hpass : passBody limits program fuel body machine <;> cases hloose : looseBody limits program fuel body machine <;>
    rw [hpass, hloose] at h
  · rw [eq_of_roomy h.2]
  · exact h.elim
  · exact h.elim
  · rw [h.1, eq_of_roomy h.2]

/-! ## Interchangeable bodies -/

/-- What a body does with a value for every address, an interchangeable one does with enough fuel. -/
theorem looseBody_settles (h : program.Interchangeable other) (fuel : Nat) {body body' : List Token}
    (hbody : Interchangeable body body') :
    Settles (fun k _ => looseBody limits other k body') (looseBody limits program fuel body) := by
  induction fuel generalizing body body' with
  | zero => exact Settles.exhausted _
  | succ fuel ih =>
    let b := looseWith limits program (looseBody limits program fuel)
    have hcalls : ∀ name address, Settles (fun k _ => call limits other (looseBody limits other k) name address)
        (call limits program (looseBody limits program fuel) name address) := by
      refine call_settles fun name => ?_
      have hname := h.body? name
      generalize program.body? name = called at hname
      generalize other.body? name = called' at hname
      cases hname with
      | none => exact .none
      | some hcalled => exact .some (ih hcalled)
    have hrereads : b.Rereads other := looseWith_rereads (looseBody_leaving fuel) other
    have hsettles : Settles (fun k j => evaluate (looseWith limits other (looseBody limits other k)) other j body')
        (evaluate b other fuel body) := evaluate_settles_of_interchangeable (b := b) hbody hcalls hrereads fuel
    intro machine
    rcases hsettles.of_below (evaluate_below_of_isApplication h.isApplication b fuel body) machine with hexhausted | ⟨least, hleast⟩
    · exact .inl hexhausted
    -- as for passes, both the calls and the pass need enough fuel
    · refine .inr ⟨least + 1, fun k hk _ _ => ?_⟩
      obtain ⟨k, rfl⟩ : ∃ j, k = j + 1 := ⟨k - 1, by omega⟩
      exact hleast k (by omega) k (by omega)

section
variable {machine : Machine} (hroom : limits.dataSize ≤ machine.memory.size)
include hroom

theorem passBody_of_interchangeable (h : program.Interchangeable other) {body body' : List Token}
    (hbody : Interchangeable body body') {fuel : Nat} (hends : ¬Exhausted (passBody limits program fuel body machine)) :
    ∃ least, ∀ k ≥ least, passBody limits other k body' machine = passBody limits program fuel body machine := by
  rw [passBody_eq_looseBody hroom] at hends ⊢
  obtain ⟨least, hleast⟩ := (looseBody_settles h fuel hbody machine).resolve_left hends
  exact ⟨least, fun k hk => (passBody_eq_looseBody hroom k body').trans (hleast k hk k hk)⟩

/-- Interchangeable bodies in interchangeable programs come to the same ends. -/
theorem passBody_interchanged (h : program.Interchangeable other) {body body' : List Token} (hbody : Interchangeable body body')
    {r : EStateM.Result Stop Machine Unit} (hends : ¬Exhausted r) :
    (∃ fuel, passBody limits program fuel body machine = r) ↔ ∃ fuel, passBody limits other fuel body' machine = r := by
  constructor
  · rintro ⟨fuel, rfl⟩
    obtain ⟨least, hleast⟩ := passBody_of_interchangeable hroom h hbody hends
    exact ⟨least, hleast least (Nat.le_refl least)⟩
  · rintro ⟨fuel, rfl⟩
    obtain ⟨least, hleast⟩ := passBody_of_interchangeable hroom h.symm hbody.symm hends
    exact ⟨least, hleast least (Nat.le_refl least)⟩

theorem run_of_interchangeable (h : program.Interchangeable other) {fuel : Nat}
    (hends : ¬Exhausted (run limits program fuel machine)) :
    ∃ more, run limits other more machine = run limits program fuel machine := by
  rw [run_eq] at hends ⊢
  obtain ⟨least, hleast⟩ :=
    passBody_of_interchangeable hroom h h.entry fun hexhausted => hends (exhausted_lastFlush hexhausted)
  refine ⟨least, ?_⟩
  rw [run_eq, hleast (least + 1) (Nat.le_succ least)]

/-- Interchangeable programs come to the same ends. -/
theorem run_interchanged (h : program.Interchangeable other) {r : EStateM.Result Stop Machine Unit} (hends : ¬Exhausted r) :
    (∃ fuel, run limits program fuel machine = r) ↔ ∃ fuel, run limits other fuel machine = r := by
  constructor
  · rintro ⟨fuel, rfl⟩
    exact run_of_interchangeable hroom h hends
  · rintro ⟨fuel, rfl⟩
    exact run_of_interchangeable hroom h.symm hends

end

end Machine

end Bracketry

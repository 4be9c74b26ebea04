import Bracketry.Proofs.CProgram.Translatable
import Bracketry.Proofs.Effects

/-!
# Programs that can be written in C do not go wrong

Writing a body looks at every token of it once; a run skips tokens, repeats them and calls bodies from bodies. What the
writing has checked holds in every one of these moments.

* `Excusable` : the stops that no check of a body can rule out: those of the streams, of the number of active applications, and
  those of a cell that is used as an address;
* `Sound`, `Safe` : the memory has its size and the active applications are known, and an action keeps it so or stops with an
  excuse;
* `backend_follows` : the operations that a translatable body asks for are safe;
* `evaluate_safe`, `run_safe`, `run_fault_of_ofProgram` : so are its evaluation and the whole program.
-/

namespace Bracketry.Machine

/-- The stops that are left to a program that can be written in C. -/
def Excusable (limits : Limits) : Stop → Prop
  | .outOfFuel => True
  | .fault (.stream _) => True
  | .fault (.callDepthExceeded limit) => limit = limits.maxCallDepth
  | .fault (.addressOutOfRange address) => limits.dataSize ≤ address.toInt ∧ address.toInt ≤ 255
  | .fault _ => False

/-- The memory is as large as the limits say, and these applications are active. -/
def Sound (limits : Limits) (frames : Array Nat) (machine : Machine) : Prop :=
  machine.memory.size = limits.dataSize ∧ machine.frames = frames

def SafeResult {α : Type} (limits : Limits) (frames : Array Nat) (P : α → Prop) : EStateM.Result Stop Machine α → Prop
  | .ok a machine => P a ∧ Sound limits frames machine
  | .error stop _ => Excusable limits stop

/-- From a sound machine the action gives a value with a property and keeps the machine sound, or it stops with an excuse. -/
def Safe {α : Type} (limits : Limits) (frames : Array Nat) (P : α → Prop) (x : Action Machine α) : Prop :=
  ∀ machine, Sound limits frames machine → SafeResult limits frames P (x machine)

section
variable {limits : Limits} {frames : Array Nat} {α β : Type}

theorem safe_pure {P : α → Prop} {a : α} (h : P a) : Safe limits frames P (pure a) := fun _ hsound => ⟨h, hsound⟩

theorem safe_bind {P : α → Prop} {Q : β → Prop} {x : Action Machine α} {f : α → Action Machine β}
    (hx : Safe limits frames P x) (hf : ∀ a, P a → Safe limits frames Q (f a)) : Safe limits frames Q (x >>= f) := by
  intro machine hsound
  have hresult := hx machine hsound
  cases heq : x machine with
  | ok a mid =>
    rw [heq] at hresult
    rw [Action.bind_of_ok heq]
    exact hf a hresult.1 mid hresult.2
  | error stop mid =>
    rw [heq] at hresult
    rw [Action.bind_of_error heq]
    exact hresult

theorem safe_mono {P Q : α → Prop} {x : Action Machine α} (h : ∀ a, P a → Q a) (hx : Safe limits frames P x) :
    Safe limits frames Q x := by
  intro machine hsound
  have hresult := hx machine hsound
  cases heq : x machine with
  | ok a mid =>
    rw [heq] at hresult
    exact ⟨h a hresult.1, hresult.2⟩
  | error stop mid =>
    rw [heq] at hresult
    exact hresult

variable (limits frames) in
/-- Safety of the first action as a relator; the second one only says which values are meant. -/
def safely : Relator Machine Machine where
  Rel R x _ := Safe limits frames (fun a => ∃ b, R a b) x
  pure h := safe_pure ⟨_, h⟩
  bind hxy hfg := safe_bind hxy fun a ⟨b, hab⟩ => hfg a b hab
  exhausted _ := fun _ _ => trivial

/-! ## Effects -/

theorem cell_safe {address : Nat} (h : limits.Addressable address) :
    Safe limits frames (fun _ => True) (cell address) := by
  intro machine hsound
  rw [cell_eq (hsound.1 ▸ h.1)]
  exact ⟨trivial, hsound⟩

theorem store_safe {address : Nat} (h : limits.Addressable address) (value : UInt8) :
    Safe limits frames (fun _ => True) (store address value) := by
  intro machine hsound
  rw [store_eq (hsound.1 ▸ h.1)]
  exact ⟨trivial, (Memory.size_set _ _ _).trans hsound.1, hsound.2⟩

theorem perform_safe (operation : Streams → Except StreamFault α × Streams) :
    Safe limits frames (fun _ => True) (perform operation) := by
  intro machine hsound
  cases hoperation : operation machine.streams with
  | mk result streams =>
    cases result with
    | ok a =>
      rw [perform_of_ok hoperation]
      exact ⟨trivial, hsound⟩
    | error fault =>
      rw [perform_of_error hoperation]
      exact trivial

theorem applyBuiltin_safe {address : Nat} (h : limits.Addressable address) (op : Builtin) :
    Safe limits frames (fun _ => True) (applyBuiltin address op) := by
  cases op with
  | increment => exact safe_bind (cell_safe h) fun _ _ => store_safe h _
  | decrement => exact safe_bind (cell_safe h) fun _ _ => store_safe h _
  | output => exact safe_bind (cell_safe h) fun _ _ => perform_safe _
  | input =>
    have hread : Safe limits frames (fun _ => True) readByte :=
      safe_bind (perform_safe Streams.flush) fun _ _ => perform_safe Streams.read
    exact safe_bind hread fun _ _ => store_safe h _
  | nop => exact safe_pure trivial

theorem argument_safe (h : HasArgument limits frames true) :
    Safe limits frames (fun value => ∃ address, value = shown address ∧ limits.Addressable address) argument := by
  intro machine hsound
  obtain ⟨address, hback, haddress⟩ := h rfl
  rw [argument_eq (hsound.2 ▸ hback)]
  exact ⟨⟨address, rfl, haddress⟩, hsound⟩

theorem checkAddress_safe {value : Int64} (h : 0 ≤ value.toInt ∧ value.toInt ≤ 255) :
    Safe limits frames limits.Addressable (Action.ofExcept (limits.checkAddress value)) := by
  cases hcheck : limits.checkAddress value with
  | ok address => exact safe_pure (Limits.addressable_of_checkAddress hcheck).1
  | error error =>
    obtain ⟨rfl, hlarge⟩ := Limits.checkAddress_eq_error hcheck
    exact fun _ _ => ⟨hlarge h.1, h.2⟩

theorem call_safe {program : Program} {evaluateBody : List Token → Action Machine Unit} {name : String} {address : Nat}
    (happlication : program.isApplication name = true)
    (hbody : ∀ body, program.body? name = some body → name ≠ entryName →
      Safe limits (frames.push address) (fun _ => True) (evaluateBody body)) :
    Safe limits frames (fun _ => True) (call limits program evaluateBody name address) := by
  obtain ⟨body, hlookup, hname⟩ := Program.exists_body_of_isApplication happlication
  intro machine hsound
  rw [call_eq]
  split
  · exact rfl
  · have hresult := hbody body hlookup hname { machine with frames := machine.frames.push address }
      ⟨hsound.1, congrArg (Array.push · address) hsound.2⟩
    simp only [hlookup, inFrame_eq]
    cases heq : evaluateBody body { machine with frames := machine.frames.push address } with
    | ok _ after =>
      rw [heq] at hresult
      refine ⟨trivial, hresult.2.1, ?_⟩
      change after.frames.pop = frames
      rw [hresult.2.2, Array.pop_push]
    | error stop after =>
      rw [heq] at hresult
      exact hresult

end

/-! ## Bodies -/

/-- The values that a safe run computes with: the cells of applicators. -/
def isCell (value _ : Int64) : Prop := 0 ≤ value.toInt ∧ value.toInt ≤ 255

section
variable {limits : Limits} {program : Program} {frames : Array Nat} {inApplication : Bool}

theorem backend_follows {evaluateBody : List Token → Action Machine Unit}
    (hargument : HasArgument limits frames inApplication)
    (hbody : ∀ name body address, program.body? name = some body → name ≠ entryName → limits.Addressable address →
      Safe limits (frames.push address) (fun _ => True) (evaluateBody body)) :
    (backendWith limits program evaluateBody).Follows (safely limits frames)
      (CProgram.translatable limits program inApplication) isCell (fun a _ => limits.Addressable a) program
      (backendWith limits program evaluateBody) where
  accessor t ht := by
    cases t with
    | literal value =>
      obtain ⟨address, haddress, -, heq⟩ := accessor_literal ht
      rw [heq]
      exact safe_pure ⟨address, haddress⟩
    | parameter =>
      obtain ⟨address, hback, haddress⟩ := hargument ht
      intro machine hsound
      rw [accessor_parameter (hsound.2 ▸ hback) haddress]
      exact ⟨⟨address, haddress⟩, hsound⟩
    | _ => cases ht
  resolveAccessor v w _ hvalue := safe_mono (fun a ha => ⟨a, ha⟩) (checkAddress_safe hvalue)
  applyToken t a a' ht haddress := by
    refine safe_mono (fun _ _ => ⟨(), rfl⟩) (P := fun _ => True) ?_
    cases t with
    | builtin op => exact applyBuiltin_safe haddress op
    | literal value => exact store_safe haddress _
    | parameter => exact safe_bind (argument_safe fun _ => hargument ht) fun _ _ => store_safe haddress _
    | identifier name =>
      change program.isApplication name = true at ht
      change Safe limits frames _ (if program.isApplication name then call limits program evaluateBody name a else _)
      rw [if_pos ht]
      exact call_safe ht fun body hlookup hname => hbody name body a hlookup hname haddress
    | _ => cases ht
  assign a a' v w _ haddress _ := safe_mono (fun _ _ => ⟨(), rfl⟩) (store_safe haddress _)
  resolve a a' haddress := by
    refine safe_bind (cell_safe haddress) fun value _ => safe_pure ⟨0, ?_⟩
    have hlt := value.toNat_lt
    rw [isCell, Int64.toInt_ofNat_of_lt (by omega)]
    omega

theorem backend_loopsFollow {evaluateBody : List Token → Action Machine Unit} (fuel : Nat) :
    (backendWith limits program evaluateBody).LoopsFollow (safely limits frames) ((safely limits frames).Rel Eq)
      (fun a _ => limits.Addressable a) fuel fuel (backendWith limits program evaluateBody) := by
  refine Backend.LoopsFollow.of_operations (safe_pure ⟨(), rfl⟩) (fun a _ haddress => ?_) (fun _ _ _ => safe_pure ⟨_, rfl⟩)
    fuel
  exact safe_bind (cell_safe haddress) fun _ _ => safe_pure ⟨_, rfl⟩

/-- A translatable body is evaluated safely, and so are the bodies that it calls. -/
theorem evaluate_safe (h : CProgram.Translates limits program) (fuel : Nat)
    (hargument : HasArgument limits frames inApplication) {body : List Token}
    (hfits : (Forest.ofTokens body).fits (CProgram.translatable limits program inApplication) .top = true) :
    Safe limits frames (fun _ => True) (forestBody limits program fuel body) := by
  induction fuel generalizing frames inApplication body with
  | zero => exact fun _ _ => trivial
  | succ fuel ih =>
    refine safe_mono (P := fun a => ∃ b, a = b) (fun _ _ => trivial) ?_
    refine Forest.evaluate_related (backend_follows hargument ?_) (backend_loopsFollow fuel) hfits
    intro name called address hlookup hname haddress
    have hcalled : HasArgument limits (frames.push address) true := fun _ => ⟨address, Array.back?_push, haddress⟩
    exact ih hcalled (h.application name called hlookup hname)

/-- The entry point of a program that can be written in C stops with an excuse, if it stops. -/
theorem evaluateEntry_safe (h : CProgram.Translates limits program) (fuel : Nat) :
    Safe limits #[] (fun _ => True) (evaluateEntry limits program fuel) := by
  intro machine hsound
  rw [evaluateEntry_eq]
  rcases passBody_below h.closed (fuel + 1) h.closed.entry machine with hexhausted | heq
  · cases hresult : passBody limits program (fuel + 1) program.entry machine with
    | ok _ after => rw [hresult] at hexhausted; exact hexhausted.elim
    | error stop after =>
      rw [hresult] at hexhausted
      cases stop with
      | fault error => exact hexhausted.elim
      | outOfFuel => exact trivial
  · rw [heq]
    exact evaluate_safe h (fuel + 1) (fun h => by cases h) h.entry machine hsound

theorem run_safe (h : CProgram.Translates limits program) (fuel : Nat) :
    Safe limits #[] (fun _ => True) (run limits program fuel) := by
  intro machine hsound
  have hentry := evaluateEntry_safe h fuel machine hsound
  have hflush : Safe limits #[] (fun _ => True) (perform Streams.flush) := perform_safe Streams.flush
  unfold run
  cases hresult : evaluateEntry limits program fuel machine with
  | ok _ after =>
    rw [hresult] at hentry
    exact hflush after hentry.2
  | error stop after =>
    cases stop with
    | outOfFuel => exact trivial
    | fault error =>
      cases hperform : perform Streams.flush after with
      | ok _ flushed =>
        simp only [hperform]
        rw [hresult] at hentry
        exact hentry
      | error stop flushed =>
        simp only [hperform]
        obtain ⟨fault, rfl⟩ := stop_of_perform hperform
        exact trivial

end

/-- A program that can be written in C and stops with an error when it is run, stops because of a stream, because of the number
of active applications, or because of the value of a cell that names no cell. On 256 cells or more every value names one. -/
theorem run_fault_of_ofProgram {limits : Limits} {program : Program} {text : String}
    (htext : CProgram.ofProgram limits program = .ok text) (fuel : Nat) (machine : Machine)
    (hsize : machine.memory.size = limits.dataSize) (hframes : machine.frames = #[]) {error : Error} {after : Machine}
    (hrun : run limits program fuel machine = .error (.fault error) after) :
    ((∃ fault, error = .stream fault) ∨ error = .callDepthExceeded limits.maxCallDepth ∨
      ∃ address, error = .addressOutOfRange address ∧ limits.dataSize ≤ address.toInt ∧ address.toInt ≤ 255) ∧
      (256 ≤ limits.dataSize → ∀ address, error ≠ .addressOutOfRange address) := by
  obtain ⟨listing, hlisting, -⟩ := CProgram.exists_listing_of_ofProgram htext
  have hsafe := run_safe (CProgram.translates_of_listing hlisting) fuel machine ⟨hsize, hframes⟩
  rw [hrun] at hsafe
  cases error with
  | stream fault => exact ⟨.inl ⟨fault, rfl⟩, fun _ _ h => by cases h⟩
  | callDepthExceeded limit =>
    obtain rfl : limit = limits.maxCallDepth := hsafe
    exact ⟨.inr (.inl rfl), fun _ _ h => by cases h⟩
  | addressOutOfRange address =>
    obtain ⟨hlarge, hsmall⟩ := hsafe
    exact ⟨.inr (.inr ⟨address, rfl, hlarge, hsmall⟩), fun h => by omega⟩
  | _ => exact hsafe.elim

/-- On two cells, a cell with a value of five that is used as an address. -/
theorem run_fault_of_ofProgram_of_indirection :
    let program : Program := .ofEntry [.opening .applicator, .literal 0, .literal 5, .closing .applicator,
      .opening .applicator, .opening .applicator, .literal 0, .closing .applicator, .builtin .increment, .closing .applicator]
    let listing : CProgram.Listing :=
      ⟨2, [], [⟨1, .assign (.literal 0) (.literal 5)⟩, ⟨1, .increment (.cell (.literal 0))⟩]⟩
    let error : Error := .addressOutOfRange 5
    CProgram.ofProgram ⟨2, 256⟩ program = .ok listing.text ∧
      resultOf (run ⟨2, 256⟩ program 10 { memory := .zeroed 2 }) = .error (.fault error) ∧
      ((∃ fault, error = .stream fault) ∨ error = .callDepthExceeded 256 ∨
        ∃ address, error = .addressOutOfRange address ∧ 2 ≤ address.toInt ∧ address.toInt ≤ 255) := by
  intro program listing error
  have htext : CProgram.ofProgram ⟨2, 256⟩ program = .ok listing.text :=
    CProgram.ofProgram_eq_map_text.trans (congrArg (Except.map CProgram.Listing.text) rfl)
  refine ⟨htext, rfl, ?_⟩
  exact (run_fault_of_ofProgram htext 10 { memory := .zeroed 2 } rfl rfl rfl).1

end Bracketry.Machine

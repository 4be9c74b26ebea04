import Bracketry.Proofs.CProgram.Loops
import Bracketry.Proofs.CProgram.Translatable
import Bracketry.Proofs.Cursor
import Bracketry.Proofs.Stops
import Bracketry.Proofs.WellNested

/-!
# The blocks of a routine

The lines of a body nest as its conditionals do, and each part of a conditional is written where it belongs: in the block of its loop,
the accessor before the test and the other items behind it.

* `Pass.Reads`, `Pass.EndsIn` : what a pass does with a part of its body, and how it ends;
* `Generator.write`, `Writes` : a piece of a block is added; what operations write is a piece without loops;
* `ItemsWritten`, `TurnWritten` : so is what a bracket writes, but with a loop for each conditional in it;
* `step_depth` : the depth follows the open round brackets;
* `Blocks`, `evaluate_blocks` : the lines of a body, and those of each conditional.
-/

namespace Bracketry

/-! ## Parts of a body -/

namespace Pass
variable {σ V A : Type}

section
variable (b : Backend σ V A) (program : Program)

/-- Reading these tokens and no others, the pass comes from one moment to another. -/
inductive Reads : List Token → Pass V A → σ → Pass V A → σ → Prop where
  | nil {pass : Pass V A} {s : σ} : Reads [] pass s pass s
  | cons {pass next last : Pass V A} {s s' s'' : σ} {token : Token} {tokens after : List Token}
      (rest : pass.rest = token :: after) (step : step b program { pass with rest := after } token s = .ok next s')
      (reads : Reads tokens next s' last s'') : Reads (token :: tokens) pass s last s''

/-- The pass reads its body to the end and leaves this state. -/
def EndsIn (last : σ) (pass : Pass V A) (s : σ) : Prop := ∃ fuel, run b program fuel pass s = .ok () last

end

variable {b : Backend σ V A} {program : Program} {last s s' : σ} {pass next : Pass V A}

theorem Reads.append {first second : List Token} {mid : Pass V A} {s'' : σ} (h : Reads b program first pass s mid s')
    (h' : Reads b program second mid s' next s'') : Reads b program (first ++ second) pass s next s'' := by
  induction h with
  | nil => exact h'
  | cons hrest hstep _ ih => exact .cons hrest hstep (ih h')

theorem reads_one {token : Token} {tokens : List Token} {stack : List (Entry V A)} {loops : List (List Token)}
    (hstep : step b program ⟨tokens, stack, loops⟩ token s = .ok next s') :
    Reads b program [token] ⟨token :: tokens, stack, loops⟩ s next s' := .cons rfl hstep .nil

theorem exists_step_of_endsIn {token : Token} {tokens : List Token} {stack : List (Entry V A)} {loops : List (List Token)}
    (h : EndsIn b program last ⟨token :: tokens, stack, loops⟩ s) :
    ∃ next s', step b program ⟨tokens, stack, loops⟩ token s = .ok next s' ∧ EndsIn b program last next s' := by
  obtain ⟨fuel, hrun⟩ := h
  cases fuel with
  | zero => cases hrun
  | succ fuel =>
    obtain ⟨next, s', hstep, hrest⟩ := Action.of_bind_eq_ok hrun
    exact ⟨next, s', hstep, fuel, hrest⟩

/-- A straight pass that ends well reads every part of its body on the way. -/
theorem exists_reads_of_endsIn (hstraight : b.Straight) {before after : List Token} (hrest : pass.rest = before ++ after)
    (h : EndsIn b program last pass s) :
    ∃ mid s', Reads b program before pass s mid s' ∧ mid.rest = after ∧ EndsIn b program last mid s' := by
  induction before generalizing pass s with
  | nil => exact ⟨pass, s, .nil, hrest, h⟩
  | cons token before ih =>
    obtain ⟨rest, stack, loops⟩ := pass
    obtain rfl : rest = token :: (before ++ after) := hrest
    obtain ⟨next, s', hstep, hnext⟩ := exists_step_of_endsIn h
    obtain ⟨mid, s'', hreads, hmid, hends⟩ := ih (step_straight hstraight hstep).1 hnext
    exact ⟨mid, s'', .cons rfl hstep hreads, hmid, hends⟩

/-- What a straight pass is about to read closes the brackets that are open. -/
theorem closes_of_endsIn (hstraight : b.Straight) (h : EndsIn b program last pass s) : Closes (openings pass.stack) pass.rest := by
  obtain ⟨fuel, hrun⟩ := h
  exact run_gives hstraight fuel pass s () last hrun

end Pass

theorem exists_forest_of_closes {kind : Bracket} {openings : List Bracket} {tokens : List Token}
    (h : Closes (kind :: openings) tokens) : ∃ (forest : Forest) (after : List Token), tokens = forest.tokens ++ .closing kind :: after := by
  obtain ⟨hlength, hlayers⟩ := Forest.layers_of_closes h
  cases hforests : tokens.foldr Forest.grow [.nil] with
  | nil => rw [hforests] at hlength; cases hlength
  | cons forest forests =>
    rw [hforests] at hlayers
    exact ⟨forest, _, hlayers.symm⟩

theorem Forest.count_closing (forest : Forest) (kind : Bracket) :
    forest.tokens.count (.closing kind) = forest.tokens.count (.opening kind) := by
  induction forest with
  | nil => rfl
  | token t plain rest ih =>
    have hclosing : t ≠ .closing kind := by rintro rfl; cases plain
    have hopening : t ≠ .opening kind := by rintro rfl; cases plain
    rw [tokens, List.count_cons_of_ne hclosing, List.count_cons_of_ne hopening, ih]
  | applicator inner rest ihInner ihRest => simp [tokens, List.count_cons, ihInner, ihRest, Nat.add_assoc]
  | conditional inner rest ihInner ihRest => simp [tokens, List.count_cons, ihInner, ihRest, Nat.add_assoc]

theorem Forest.wellNested_tokens (forest : Forest) : WellNested false forest.tokens := by
  induction forest with
  | nil => exact .nil
  | token t plain rest ih => exact .plain plain ih
  | applicator inner rest ihInner ihRest => exact .bracket nofun ihInner ihRest
  | conditional inner rest ihInner ihRest => exact .bracket nofun ihInner ihRest

namespace CProgram

/-! ## Pieces of a block -/

namespace Generator

def write (generator : Generator) (code : Code) : Generator :=
  ⟨generator.depth, generator.lines ++ (code.lines generator.depth).toArray⟩

theorem write_done (generator : Generator) : generator.write .done = generator := by
  simp [write, Code.lines]

theorem write_append (generator : Generator) (code after : Code) :
    generator.write (code.append after) = (generator.write code).write after := by
  simp [write, Code.lines_append]

theorem write_statement (generator : Generator) {s : Statement} (plain : s.isPlain = true) (rest : Code) :
    generator.write (.statement s plain rest) =
      write ⟨generator.depth, generator.lines.push ⟨generator.depth, s⟩⟩ rest := by
  simp [write, Code.lines]

theorem write_turn (generator : Generator) (head : Code) (address : Expr) (body : Code) :
    generator.write (Code.turn head address body) = (generator.write (Code.turn head address .done)).write body := by
  simp only [Code.turn, write_append, write_statement, write_done]

def entered (generator : Generator) : Generator :=
  ⟨generator.depth + 1, generator.lines.push ⟨generator.depth, .loop⟩⟩

def closed (generator : Generator) : Generator :=
  ⟨generator.depth - 1, generator.lines.push ⟨generator.depth - 1, .close⟩⟩

theorem closed_write_entered (generator : Generator) (code : Code) :
    ((generator.entered).write code).closed = generator.write (.loop code .done) := by
  simp [write, entered, closed, Code.lines]

end Generator

/-! ## What operations write -/

/-- What the action writes is a piece of a block without loops. -/
def Writes {α : Type} (x : Action Generator α) : Prop :=
  ∀ generator a after, x generator = .ok a after → ∃ code : Code, code.Piece 0 ∧ after = generator.write code

section
variable {α β : Type} {limits : Limits} {program : Program} {inApplication : Bool}

theorem writes_pure (a : α) : Writes (pure a : Action Generator α) := by
  intro generator a' after h
  obtain ⟨-, rfl⟩ := EStateM.Result.ok.inj h
  exact ⟨.done, Code.piece_done, (Generator.write_done _).symm⟩

theorem writes_fault (error : Error) : Writes (Action.fault error : Action Generator α) := fun _ _ _ h => by cases h

theorem writes_bind {x : Action Generator α} {f : α → Action Generator β} (hx : Writes x) (hf : ∀ a, Writes (f a)) :
    Writes (x >>= f) := by
  intro generator b after h
  obtain ⟨a, mid, ha, hb⟩ := Action.of_bind_eq_ok h
  obtain ⟨code, hcode, rfl⟩ := hx _ _ _ ha
  obtain ⟨more, hmore, rfl⟩ := hf a _ _ _ hb
  exact ⟨code.append more, hcode.append hmore, (Generator.write_append _ _ _).symm⟩

theorem writes_emit {s : Statement} (plain : s.isPlain = true) (htest : s.isTest = false) : Writes (Generator.emit s) := by
  intro generator a after h
  obtain ⟨-, rfl⟩ := EStateM.Result.ok.inj h
  refine ⟨.statement s plain .done, ⟨?_, trivial, rfl⟩, ?_⟩
  · rw [Code.tests, htest]
    rfl
  · rw [Generator.write_statement, Generator.write_done]

theorem address_writes (e : Expr) : Writes (Generator.address limits e) := by
  cases e with
  | literal value =>
    have hcheck : Writes (Action.ofExcept (limits.checkAddress value)) := by
      cases limits.checkAddress value with
      | ok address => exact writes_pure address
      | error error => exact writes_fault error
    exact writes_bind (writes_bind hcheck fun _ => writes_pure _) fun _ => writes_pure _
  | parameter => exact writes_pure _
  | cell index => exact writes_pure _

theorem parameter_writes : Writes (Generator.backend limits inApplication).parameter := by
  cases inApplication with
  | true => exact writes_pure _
  | false => exact writes_fault _

theorem accessor_writes (entry : Entry Expr Expr) : Writes (Pass.accessor (Generator.backend limits inApplication) entry) := by
  cases entry with
  | pending token =>
    cases token with
    | literal value => exact writes_bind (writes_pure _) address_writes
    | parameter => exact writes_bind parameter_writes address_writes
    | _ => exact writes_bind (writes_fault _) address_writes
  | resolved value => exact writes_bind (writes_pure _) address_writes
  | _ => exact writes_bind (writes_fault _) address_writes

theorem applyToken_writes (address : Expr) (token : Token) :
    Writes (Pass.applyToken (Generator.backend limits inApplication) program address token) := by
  cases token with
  | builtin op =>
    cases op with
    | nop => exact writes_pure ()
    | _ => exact writes_emit rfl rfl
  | literal value => exact writes_bind (writes_pure _) fun _ => writes_emit rfl rfl
  | parameter => exact writes_bind parameter_writes fun _ => writes_emit rfl rfl
  | identifier name =>
    change Writes (if program.isApplication name then Generator.emit (.call name address) else Action.fault (.unknownToken name))
    split
    · exact writes_emit rfl rfl
    · exact writes_fault _
  | _ => exact writes_fault _

theorem applyOperands_writes (address : Expr) (operands : List (Entry Expr Expr)) :
    Writes (operands.forM (Pass.applyOperand (Generator.backend limits inApplication) program address)) := by
  induction operands with
  | nil => exact writes_pure _
  | cons entry operands ih =>
    refine writes_bind ?_ fun _ => ih
    cases entry with
    | pending token => exact applyToken_writes address token
    | resolved value => exact writes_emit rfl rfl
    | void => exact writes_pure _
    | _ => exact writes_fault _

theorem applied_writes (kept : List (Entry Expr Expr)) :
    Writes (Pass.applied (Generator.backend limits inApplication) program kept) := by
  cases kept with
  | nil => exact writes_fault _
  | cons first operands =>
    refine writes_bind (accessor_writes first) fun address => ?_
    exact writes_bind (applyOperands_writes address operands) fun _ => writes_pure _

theorem act_writes (place : Place Expr) (item : Item Expr) :
    Writes (place.act (Generator.backend limits inApplication) program item) := by
  cases place with
  | top => cases item <;> first | exact writes_pure _ | exact writes_fault _
  | applicator => exact writes_pure _
  | loop address =>
    cases item with
    | token t =>
      rw [Place.act, ← Item.applyToken_eq]
      exact applyToken_writes address t
    | _ => exact writes_pure _

end

/-! ## What brackets write -/

section
variable (limits : Limits) (inApplication : Bool) (program : Program)

/-- Writing these tokens and no others, the pass comes from one moment to another. -/
abbrev Generator.Reads : List Token → Pass Expr Expr → Generator → Pass Expr Expr → Generator → Prop :=
  Pass.Reads (Generator.backend limits inApplication) program

abbrev Generator.EndsIn : Generator → Pass Expr Expr → Generator → Prop :=
  Pass.EndsIn (Generator.backend limits inApplication) program

/-- The tokens of the first item of a conditional, which is its accessor: one plain token or one applicator. -/
def IsAccessor (tokens : List Token) : Prop :=
  (∃ t : Token, t.isPlain = true ∧ tokens = [t]) ∨
    ∃ inner, WellNested false inner ∧ tokens = bracketed .applicator inner

def roundBrackets (tokens : List Token) : Nat := tokens.count (.opening .conditional)

/-- Behind its round bracket, a conditional writes a piece of its block while its accessor is read, then its test, and another piece
while its other items are read. -/
def WritesTurn (inner tokens : List Token) (stack : List (Entry Expr Expr)) (loops : List (List Token)) (generator : Generator)
    (address : Expr) (head body : Code) : Prop :=
  ∃ accessor items, inner = accessor ++ items ∧ IsAccessor accessor ∧ WellNested false items ∧
    head.Piece (roundBrackets accessor) ∧ body.Piece (roundBrackets items) ∧
    Generator.Reads limits inApplication program accessor
      ⟨inner ++ .closing .conditional :: tokens, .conditional none :: stack, loops⟩ generator
      ⟨items ++ .closing .conditional :: tokens, .conditional (some address) :: stack, loops⟩
      (generator.write (Code.turn head address .done)) ∧
    Generator.Reads limits inApplication program items
      ⟨items ++ .closing .conditional :: tokens, .conditional (some address) :: stack, loops⟩
      (generator.write (Code.turn head address .done))
      ⟨.closing .conditional :: tokens, .conditional (some address) :: stack, loops⟩
      (generator.write (Code.turn head address body))

/-- The items of a bracket write a piece of a block, with a loop for each round bracket. -/
def ItemsWritten (forest : Forest) : Prop :=
  ∀ (place : Place Expr) (stack : List (Entry Expr Expr)) (tokens : List Token) (loops : List (List Token))
    (generator last : Generator), place.IsOn stack →
    Generator.EndsIn limits inApplication program last ⟨forest.tokens ++ tokens, stack, loops⟩ generator →
    ∃ (kept : List (Item Expr)) (code : Code), place.Holds kept ∧ code.Piece (roundBrackets forest.tokens) ∧
      Generator.Reads limits inApplication program forest.tokens ⟨forest.tokens ++ tokens, stack, loops⟩ generator
        ⟨tokens, Item.onto stack kept, loops⟩ (generator.write code) ∧
      Generator.EndsIn limits inApplication program last ⟨tokens, Item.onto stack kept, loops⟩ (generator.write code)

/-- The items of a conditional write the block of a loop. -/
def TurnWritten (forest : Forest) : Prop :=
  ∀ (stack : List (Entry Expr Expr)) (tokens : List Token) (loops : List (List Token)) (generator last : Generator),
    Generator.EndsIn limits inApplication program last
      ⟨forest.tokens ++ .closing .conditional :: tokens, .conditional none :: stack, loops⟩ generator →
    ∃ address head body, WritesTurn limits inApplication program forest.tokens tokens stack loops generator address head body ∧
      Generator.EndsIn limits inApplication program last
        ⟨.closing .conditional :: tokens, .conditional (some address) :: stack, loops⟩
        (generator.write (Code.turn head address body))

end

section
variable {limits : Limits} {inApplication : Bool} {program : Program} {generator last after : Generator}
  {stack : List (Entry Expr Expr)} {tokens : List Token} {loops : List (List Token)} {next : Pass Expr Expr}

theorem roundBrackets_append (first second : List Token) :
    roundBrackets (first ++ second) = roundBrackets first + roundBrackets second := List.count_append

theorem roundBrackets_token {t : Token} (plain : t.isPlain = true) : roundBrackets [t] = 0 := by
  refine List.count_cons_of_ne ?_
  rintro rfl
  cases plain

theorem roundBrackets_applicator (inner : List Token) :
    roundBrackets (bracketed .applicator inner) = roundBrackets inner := by
  simp [roundBrackets, bracketed]

theorem roundBrackets_conditional (inner : List Token) :
    roundBrackets (bracketed .conditional inner) = roundBrackets inner + 1 := by
  simp [roundBrackets, bracketed]

theorem deliver_writes {place : Place Expr} (hplace : place.IsOn stack) {item : Item Expr}
    (h : Pass.deliver (Generator.backend limits inApplication) program ⟨tokens, stack, loops⟩ item.entry generator =
      .ok next after) :
    ∃ code : Code, code.Piece 0 ∧ next = ⟨tokens, Item.onto stack (place.keep item), loops⟩ ∧ after = generator.write code := by
  rw [Pass.deliver_eq _ program hplace] at h
  obtain ⟨_, mid, hact, hpure⟩ := Action.of_bind_eq_ok h
  obtain ⟨rfl, rfl⟩ := EStateM.Result.ok.inj hpure
  obtain ⟨code, hcode, rfl⟩ := act_writes place item _ _ _ hact
  exact ⟨code, hcode, rfl, rfl⟩

theorem bindAccessor_writes {entry : Entry Expr Expr}
    (h : Pass.bindAccessor (Generator.backend limits inApplication) ⟨tokens, .conditional none :: stack, loops⟩ entry generator =
      .ok next after) :
    ∃ (head : Code) (address : Expr), head.Piece 0 ∧ next = ⟨tokens, .conditional (some address) :: stack, loops⟩ ∧
      after = generator.write (Code.turn head address .done) := by
  obtain ⟨address, mid, haccessor, hrest⟩ := Action.of_bind_eq_ok h
  obtain ⟨head, hhead, rfl⟩ := accessor_writes entry _ _ _ haccessor
  obtain ⟨rfl, rfl⟩ := EStateM.Result.ok.inj hrest
  refine ⟨head, address, hhead, rfl, ?_⟩
  rw [Code.turn, Generator.write_append, Generator.write_statement, Generator.write_done]

/-- A closing round bracket closes the block, and hands its result to the bracket around it. -/
theorem closeConditional_writes {address : Expr} {start : List Token}
    (h : Pass.closeConditional (Generator.backend limits inApplication)
      ⟨tokens, .conditional (some address) :: stack, start :: loops⟩ generator = .ok next after) :
    Pass.deliverVoid (Generator.backend limits inApplication) ⟨tokens, stack, loops⟩ generator.closed = .ok next after := h

theorem itemsWritten_cons {place : Place Expr} (hplace : place.IsOn stack) (item : Item Expr) {rest : Forest}
    (hrest : ItemsWritten limits inApplication program rest) {first : List Token} {code : Code}
    (hcode : code.Piece (roundBrackets first))
    (hfirst : Generator.Reads limits inApplication program first ⟨first ++ (rest.tokens ++ tokens), stack, loops⟩ generator
      ⟨rest.tokens ++ tokens, Item.onto stack (place.keep item), loops⟩ (generator.write code))
    (hends : Generator.EndsIn limits inApplication program last
      ⟨rest.tokens ++ tokens, Item.onto stack (place.keep item), loops⟩ (generator.write code)) :
    ∃ (kept : List (Item Expr)) (code : Code), place.Holds kept ∧ code.Piece (roundBrackets (first ++ rest.tokens)) ∧
      Generator.Reads limits inApplication program (first ++ rest.tokens) ⟨first ++ (rest.tokens ++ tokens), stack, loops⟩ generator
        ⟨tokens, Item.onto stack kept, loops⟩ (generator.write code) ∧
      Generator.EndsIn limits inApplication program last ⟨tokens, Item.onto stack kept, loops⟩ (generator.write code) := by
  obtain ⟨kept, more, hkept, hmore, hreads, hlast⟩ := hrest place _ tokens loops _ last (Item.isOn_keep hplace item) hends
  rw [← Generator.write_append, ← Item.onto_append] at hreads hlast
  refine ⟨place.keep item ++ kept, code.append more, Place.holds_keep_append hkept item, ?_, hfirst.append hreads, hlast⟩
  rw [roundBrackets_append]
  exact hcode.append hmore

theorem turnWritten_cons {rest : Forest} (hrest : ItemsWritten limits inApplication program rest) {accessor : List Token}
    (haccessor : IsAccessor accessor) {head : Code} (hhead : head.Piece (roundBrackets accessor)) {address : Expr}
    (hreads : Generator.Reads limits inApplication program accessor
      ⟨accessor ++ (rest.tokens ++ .closing .conditional :: tokens), .conditional none :: stack, loops⟩ generator
      ⟨rest.tokens ++ .closing .conditional :: tokens, .conditional (some address) :: stack, loops⟩
      (generator.write (Code.turn head address .done)))
    (hends : Generator.EndsIn limits inApplication program last
      ⟨rest.tokens ++ .closing .conditional :: tokens, .conditional (some address) :: stack, loops⟩
      (generator.write (Code.turn head address .done))) :
    ∃ address head body,
      WritesTurn limits inApplication program (accessor ++ rest.tokens) tokens stack loops generator address head body ∧
        Generator.EndsIn limits inApplication program last
          ⟨.closing .conditional :: tokens, .conditional (some address) :: stack, loops⟩
          (generator.write (Code.turn head address body)) := by
  obtain ⟨kept, body, hkept, hbody, hitems, hlast⟩ :=
    hrest (.loop address) _ (.closing .conditional :: tokens) loops _ last (Place.isOn_loop address stack) hends
  obtain rfl : kept = [] := hkept
  rw [← Generator.write_turn] at hitems hlast
  refine ⟨address, head, body, ⟨accessor, rest.tokens, rfl, haccessor, rest.wellNested_tokens, hhead, hbody, ?_, hitems⟩, hlast⟩
  rwa [List.append_assoc]

/-- An applicator writes what its items do, and its value is delivered. -/
theorem applicator_written {inner : Forest} (hinner : ItemsWritten limits inApplication program inner)
    (h : Generator.EndsIn limits inApplication program last
      ⟨bracketed .applicator inner.tokens ++ tokens, stack, loops⟩ generator) :
    ∃ (code : Code) (value : Expr) (next : Pass Expr Expr) (after : Generator),
      code.Piece (roundBrackets (bracketed .applicator inner.tokens)) ∧
      Pass.deliver (Generator.backend limits inApplication) program ⟨tokens, stack, loops⟩ (Item.value value).entry
        (generator.write code) = .ok next after ∧
      Generator.Reads limits inApplication program (bracketed .applicator inner.tokens)
        ⟨bracketed .applicator inner.tokens ++ tokens, stack, loops⟩ generator next after ∧
      Generator.EndsIn limits inApplication program last next after := by
  rw [bracketed_append] at h ⊢
  obtain ⟨_, _, hopen, hends⟩ := Pass.exists_step_of_endsIn h
  obtain ⟨rfl, rfl⟩ := EStateM.Result.ok.inj hopen
  obtain ⟨kept, code, hkept, hcode, hitems, hlast⟩ :=
    hinner .applicator (.applicator :: stack) (.closing .applicator :: tokens) loops _ last (Place.isOn_applicator stack) hends
  obtain ⟨next, after, hclose, hnext⟩ := Pass.exists_step_of_endsIn hlast
  have hdeliver := hclose
  rw [show Pass.step (Generator.backend limits inApplication) program _ (.closing .applicator) = _ from
    Pass.closeApplicator_eq _ program kept] at hdeliver
  obtain ⟨value, mid, happlied, hvalue⟩ := Action.of_bind_eq_ok hdeliver
  rw [← Item.applied_entry (A := Expr)] at happlied
  obtain ⟨more, hmore, rfl⟩ := applied_writes _ _ _ _ happlied
  rw [← Generator.write_append] at hvalue
  refine ⟨code.append more, value, next, after, ?_, hvalue, .cons rfl hopen (hitems.append (Pass.reads_one hclose)), hnext⟩
  rw [roundBrackets_applicator]
  exact hcode.append hmore

theorem reads_opening :
    Generator.Reads limits inApplication program [.opening .conditional] ⟨.opening .conditional :: tokens, stack, loops⟩ generator
      ⟨tokens, .conditional none :: stack, tokens :: loops⟩ generator.entered := Pass.reads_one rfl

/-- A conditional writes a loop around what its items write, and its result is delivered. -/
theorem conditional_written {inner : Forest} (hinner : TurnWritten limits inApplication program inner)
    (h : Generator.EndsIn limits inApplication program last
      ⟨bracketed .conditional inner.tokens ++ tokens, stack, loops⟩ generator) :
    ∃ (address : Expr) (head body : Code) (next : Pass Expr Expr) (after : Generator),
      WritesTurn limits inApplication program inner.tokens tokens stack
        ((inner.tokens ++ .closing .conditional :: tokens) :: loops) generator.entered address head body ∧
      Pass.deliverVoid (Generator.backend limits inApplication) ⟨tokens, stack, loops⟩
        (generator.write (.loop (Code.turn head address body) .done)) = .ok next after ∧
      Generator.Reads limits inApplication program [.closing .conditional]
        ⟨.closing .conditional :: tokens, .conditional (some address) :: stack,
          (inner.tokens ++ .closing .conditional :: tokens) :: loops⟩
        (generator.entered.write (Code.turn head address body)) next after ∧
      Generator.EndsIn limits inApplication program last next after := by
  rw [bracketed_append] at h
  obtain ⟨_, _, hopen, hends⟩ := Pass.exists_step_of_endsIn h
  obtain ⟨rfl, rfl⟩ := EStateM.Result.ok.inj hopen
  obtain ⟨address, head, body, hturn, hlast⟩ := hinner stack tokens _ generator.entered last hends
  obtain ⟨next, after, hclose, hnext⟩ := Pass.exists_step_of_endsIn hlast
  have hvoid := closeConditional_writes hclose
  rw [Generator.closed_write_entered] at hvoid
  exact ⟨address, head, body, next, after, hturn, hvoid, Pass.reads_one hclose, hnext⟩

theorem reads_conditional {inner : List Token} {address : Expr} {head body : Code}
    (hturn : WritesTurn limits inApplication program inner tokens stack ((inner ++ .closing .conditional :: tokens) :: loops)
      generator.entered address head body)
    (hclose : Generator.Reads limits inApplication program [.closing .conditional]
      ⟨.closing .conditional :: tokens, .conditional (some address) :: stack, (inner ++ .closing .conditional :: tokens) :: loops⟩
      (generator.entered.write (Code.turn head address body)) next after) :
    Generator.Reads limits inApplication program (bracketed .conditional inner)
      ⟨bracketed .conditional inner ++ tokens, stack, loops⟩ generator next after := by
  obtain ⟨accessor, items, rfl, -, -, -, -, haccessor, hitems⟩ := hturn
  rw [bracketed_append]
  exact reads_opening.append ((haccessor.append hitems).append hclose)

/-- A loop for its own brackets, and one for each conditional in it. -/
theorem piece_of_writesTurn {inner : List Token} {address : Expr} {head body : Code}
    (h : WritesTurn limits inApplication program inner tokens stack loops generator address head body) :
    (Code.loop (Code.turn head address body) .done).Piece (roundBrackets (bracketed .conditional inner)) := by
  obtain ⟨accessor, items, rfl, -, -, hhead, hbody, -, -⟩ := h
  rw [roundBrackets_conditional, roundBrackets_append]
  exact Code.piece_loop hhead address hbody

/-! ## The whole body -/

theorem itemsWritten_and_turnWritten (forest : Forest) :
    ItemsWritten limits inApplication program forest ∧ TurnWritten limits inApplication program forest := by
  induction forest with
  | nil =>
    refine ⟨fun place stack tokens loops generator last _ h => ?_, fun stack tokens loops generator last h => ?_⟩
    · rw [← generator.write_done] at h
      exact ⟨[], .done, place.holds_nil, Code.piece_done, by rw [generator.write_done]; exact .nil, h⟩
    · -- there is no accessor
      obtain ⟨_, _, hclose, -⟩ := Pass.exists_step_of_endsIn h
      cases hclose
  | token t plain rest ih =>
    have hcount : 0 = roundBrackets [t] := (roundBrackets_token plain).symm
    refine ⟨fun place stack tokens loops generator last hplace h => ?_, fun stack tokens loops generator last h => ?_⟩
    · obtain ⟨next, after, hstep, hends⟩ := Pass.exists_step_of_endsIn h
      have hdeliver := hstep
      rw [Pass.step_token _ _ _ plain] at hdeliver
      obtain ⟨code, hcode, rfl, rfl⟩ := deliver_writes hplace (show Pass.deliver _ _ _ (Item.token t).entry _ = _ from hdeliver)
      rw [hcount] at hcode
      exact itemsWritten_cons hplace (.token t) ih.1 hcode (Pass.reads_one hstep) hends
    · obtain ⟨next, after, hstep, hends⟩ := Pass.exists_step_of_endsIn h
      have hbind := hstep
      rw [Pass.step_token _ _ _ plain] at hbind
      obtain ⟨head, address, hhead, rfl, rfl⟩ := bindAccessor_writes hbind
      rw [hcount] at hhead
      exact turnWritten_cons ih.1 (.inl ⟨t, plain, rfl⟩) hhead (Pass.reads_one hstep) hends
  | applicator inner rest ihInner ihRest =>
    refine ⟨fun place stack tokens loops generator last hplace h => ?_, fun stack tokens loops generator last h => ?_⟩
    · rw [Forest.tokens_applicator, List.append_assoc] at h ⊢
      obtain ⟨code, value, next, after, hcode, hdeliver, hreads, hends⟩ := applicator_written ihInner.1 h
      obtain ⟨more, hmore, rfl, rfl⟩ := deliver_writes hplace hdeliver
      rw [← Generator.write_append] at hreads hends
      exact itemsWritten_cons hplace (.value value) ihRest.1 (hcode.append hmore) hreads hends
    · rw [Forest.tokens_applicator, List.append_assoc] at h
      rw [Forest.tokens_applicator]
      obtain ⟨code, value, next, after, hcode, hdeliver, hreads, hends⟩ := applicator_written ihInner.1 h
      obtain ⟨more, address, hmore, rfl, rfl⟩ := bindAccessor_writes hdeliver
      rw [← Generator.write_append, Code.append_turn] at hreads hends
      exact turnWritten_cons ihRest.1 (.inr ⟨inner.tokens, inner.wellNested_tokens, rfl⟩) (hcode.append hmore) hreads hends
  | conditional inner rest ihInner ihRest =>
    refine ⟨fun place stack tokens loops generator last hplace h => ?_, fun stack tokens loops generator last h => ?_⟩
    · rw [Forest.tokens_conditional, List.append_assoc] at h ⊢
      obtain ⟨address, head, body, next, after, hturn, hvoid, hclose, hends⟩ := conditional_written ihInner.2 h
      have hreads := reads_conditional hturn hclose
      rw [Pass.deliverVoid_eq _ hplace] at hvoid
      obtain ⟨rfl, rfl⟩ := EStateM.Result.ok.inj hvoid
      exact itemsWritten_cons hplace .void ihRest.1 (piece_of_writesTurn hturn) hreads hends
    · -- the result of a conditional names no cell
      rw [Forest.tokens_conditional, List.append_assoc] at h
      obtain ⟨address, head, body, next, after, -, hvoid, -⟩ := conditional_written ihInner.2 h
      cases hvoid

theorem deliverVoid_writes {pass : Pass Expr Expr}
    (h : Pass.deliverVoid (Generator.backend limits inApplication) pass generator = .ok next after) :
    after = generator ∧ next.rest = pass.rest ∧ next.loops = pass.loops := by
  unfold Pass.deliverVoid at h
  generalize pass.innermost? = innermost at h
  rcases innermost with _ | _ | (_ | address) | _ | _ | _ <;> first
    | (obtain ⟨rfl, rfl⟩ := EStateM.Result.ok.inj h; exact ⟨rfl, rfl, rfl⟩)
    | cases h

/-! ## Depths -/

theorem depth_of_writes {α : Type} {x : Action Generator α} (hx : Writes x) {a : α} (h : x generator = .ok a after) :
    after.depth = generator.depth := by
  obtain ⟨code, -, rfl⟩ := hx _ _ _ h
  rfl

theorem depth_of_hands {pass : Pass Expr Expr} {entry : Entry Expr Expr}
    (hands : Pass.Hands (Generator.backend limits inApplication) program pass entry generator (.ok next after)) :
    after.depth = generator.depth ∧ next.loops = pass.loops := by
  cases hands with
  | kept => exact ⟨rfl, rfl⟩
  | dropped => exact ⟨rfl, rfl⟩
  | acted _ act => exact ⟨depth_of_writes (applyToken_writes _ _) act, rfl⟩
  | bound _ read test =>
    have hread := depth_of_writes (accessor_writes _) read
    obtain ⟨-, rfl⟩ := EStateM.Result.ok.inj test
    exact ⟨hread, rfl⟩
  | skipped _ _ test => cases test

/-- A closing round bracket takes one from the depth, which is not zero. -/
theorem depth_of_closing {pass : Pass Expr Expr} (hdepth : generator.depth = pass.loops.length + 1)
    (h : Pass.step (Generator.backend limits inApplication) program pass (.closing .conditional) generator = .ok next after) :
    after.depth + 1 = generator.depth ∧ after.depth = next.loops.length + 1 := by
  cases Pass.step_eq_iff.1 h with
  | handed plain => cases plain
  | again _ exit => cases exit
  | left _ exit loops hands =>
    obtain ⟨-, rfl⟩ := EStateM.Result.ok.inj exit
    obtain ⟨hafter, hloops⟩ := depth_of_hands hands
    rw [hafter, hloops, hdepth, loops]
    change generator.depth - 1 + 1 = _ ∧ generator.depth - 1 = _
    rw [hdepth, loops]
    exact ⟨rfl, rfl⟩

/-- The depth of the next line is one more than the number of open round brackets. -/
theorem step_depth {pass : Pass Expr Expr} {token : Token} (hdepth : generator.depth = pass.loops.length + 1)
    (h : Pass.step (Generator.backend limits inApplication) program pass token generator = .ok next after) :
    after.depth = next.loops.length + 1 := by
  cases Pass.step_eq_iff.1 h with
  | handed _ hands =>
    obtain ⟨hafter, hloops⟩ := depth_of_hands hands
    rw [hafter, hloops, hdepth]
  | opened => exact hdepth
  | entered enter =>
    obtain ⟨-, rfl⟩ := EStateM.Result.ok.inj enter
    exact congrArg Nat.succ hdepth
  | closed _ act hands =>
    obtain ⟨hafter, hloops⟩ := depth_of_hands hands
    rw [hafter, hloops, depth_of_writes (applied_writes _) act, hdepth]
  | again => exact (depth_of_closing hdepth h).2
  | left => exact (depth_of_closing hdepth h).2

theorem reads_depth {pass : Pass Expr Expr} (hdepth : generator.depth = pass.loops.length + 1)
    (h : Generator.Reads limits inApplication program tokens pass generator next after) :
    after.depth = next.loops.length + 1 := by
  induction h with
  | nil => exact hdepth
  | @cons pass next last generator _ _ _ _ after _ hstep _ ih =>
    replace hdepth : generator.depth = (⟨after, pass.stack, pass.loops⟩ : Pass Expr Expr).loops.length + 1 := hdepth
    exact ih (step_depth hdepth hstep)

/-! ## The whole body -/

theorem eq_of_endsIn_nil {pass : Pass Expr Expr} (hrest : pass.rest = [])
    (h : Generator.EndsIn limits inApplication program last pass generator) : last = generator := by
  obtain ⟨fuel, hrun⟩ := h
  unfold Pass.run at hrun
  rw [hrest] at hrun
  dsimp only at hrun
  unfold Pass.finish at hrun
  by_cases hempty : (pass.stack.isEmpty && pass.loops.isEmpty) = true
  · rw [if_pos hempty] at hrun
    exact (EStateM.Result.ok.inj hrun).2.symm
  · rw [if_neg hempty] at hrun
    cases hrun

variable (limits inApplication program) in
/-- How a conditional is written between the tokens before it and those behind it: the line that opens its block, a piece of the
block while its accessor is read and then its test, another piece while its other items are read, and the line that closes the
block. -/
def WritesConditional (before accessor items after : List Token) (last : Generator) : Prop :=
  ∃ (outer opened bound full next final : Pass Expr Expr) (generator : Generator) (address : Expr) (head body : Code),
    head.Piece (roundBrackets accessor) ∧ body.Piece (roundBrackets items) ∧
    Generator.Reads limits inApplication program before
      { rest := before ++ .opening .conditional :: (accessor ++ items ++ .closing .conditional :: after) } {} outer generator ∧
    Generator.Reads limits inApplication program [.opening .conditional] outer generator opened generator.entered ∧
    Generator.Reads limits inApplication program accessor opened generator.entered bound
      (generator.entered.write (Code.turn head address .done)) ∧
    Generator.Reads limits inApplication program items bound (generator.entered.write (Code.turn head address .done)) full
      (generator.entered.write (Code.turn head address body)) ∧
    Generator.Reads limits inApplication program [.closing .conditional] full
      (generator.entered.write (Code.turn head address body)) next
      (generator.write (.loop (Code.turn head address body) .done)) ∧
    Generator.Reads limits inApplication program after next (generator.write (.loop (Code.turn head address body) .done)) final last

variable (limits inApplication program) in
/-- The lines of a body as blocks. -/
structure Blocks (body : List Token) (generator : Generator) : Prop where
  /-- The lines are those of one block. Each loop in it has one test in its own block, and no test stands outside of loops. -/
  code : ∃ code : Code, code.Piece (roundBrackets body) ∧ generator = ({} : Generator).write code
  opening : openingLines generator.lines.toList = body.count (.opening .conditional)
  closing : closingLines generator.lines.toList = body.count (.closing .conditional)
  /-- Every line is indented by the body and the blocks that are open around it. -/
  indented {before after : List Line} {line : Line} (h : generator.lines.toList = before ++ line :: after) :
    ∃ around, around + closingLines (before ++ [line]) = openingLines before ∧
      line.text = "".pushn ' ' (4 * (1 + around)) ++ line.statement.text
  conditional {before tail : List Token} (h : body = before ++ .opening .conditional :: tail) :
    ∃ accessor items after, tail = accessor ++ items ++ .closing .conditional :: after ∧ IsAccessor accessor ∧
      WellNested false items ∧ WritesConditional limits inApplication program before accessor items after generator
  depth : generator.depth = ({} : Generator).depth
  /-- A closing round bracket takes one from the depth, which is not zero there. -/
  unsaturated {before after : List Token} (h : body = before ++ .closing .conditional :: after) :
    ∃ pass generator next below, Generator.Reads limits inApplication program before { rest := body } {} pass generator ∧
      Generator.Reads limits inApplication program [.closing .conditional] pass generator next below ∧
      below.depth + 1 = generator.depth

section
variable {body : List Token}

theorem conditional_of_endsIn (h : Generator.EndsIn limits inApplication program generator { rest := body } {})
    {before tail : List Token}
    (hbody : body = before ++ .opening .conditional :: tail) :
    ∃ accessor items after, tail = accessor ++ items ++ .closing .conditional :: after ∧ IsAccessor accessor ∧
      WellNested false items ∧ WritesConditional limits inApplication program before accessor items after generator := by
  have hstraight := Generator.backend_straight limits inApplication
  have hrest : ({ rest := body } : Pass Expr Expr).rest = before ++ .opening .conditional :: tail := hbody
  obtain ⟨⟨rest, stack, loops⟩, first, hbefore, rfl, hends⟩ := Pass.exists_reads_of_endsIn hstraight hrest h
  obtain ⟨_, _, hopen, hinside⟩ := Pass.exists_step_of_endsIn hends
  obtain ⟨rfl, rfl⟩ := EStateM.Result.ok.inj hopen
  obtain ⟨forest, after, rfl⟩ := exists_forest_of_closes (Pass.closes_of_endsIn hstraight hinside)
  rw [← bracketed_append] at hends
  obtain ⟨address, head, inside, next, closed, hturn, hvoid, hclose, hnext⟩ :=
    conditional_written (itemsWritten_and_turnWritten forest).2 hends
  obtain ⟨rfl, hnextRest, -⟩ := deliverVoid_writes hvoid
  rw [← List.append_nil after] at hnextRest
  obtain ⟨final, _, hafter, hfinal, hlast⟩ := Pass.exists_reads_of_endsIn hstraight hnextRest hnext
  obtain rfl := eq_of_endsIn_nil hfinal hlast
  obtain ⟨accessor, items, htokens, haccessor, hitems, hhead, hinside, hreadsAccessor, hreadsItems⟩ := hturn
  subst hbody
  rw [htokens] at hbefore hreadsAccessor hreadsItems hclose ⊢
  exact ⟨accessor, items, after, rfl, haccessor, hitems, _, _, _, _, _, _, _, _, _, _, hhead, hinside, hbefore, reads_opening,
    hreadsAccessor, hreadsItems, hclose, hafter⟩

theorem unsaturated_of_endsIn (h : Generator.EndsIn limits inApplication program generator { rest := body } {})
    {before after : List Token}
    (hbody : body = before ++ .closing .conditional :: after) :
    ∃ pass generator next below, Generator.Reads limits inApplication program before { rest := body } {} pass generator ∧
      Generator.Reads limits inApplication program [.closing .conditional] pass generator next below ∧
      below.depth + 1 = generator.depth := by
  have hrest : ({ rest := body } : Pass Expr Expr).rest = before ++ .closing .conditional :: after := hbody
  obtain ⟨⟨rest, stack, loops⟩, mid, hbefore, rfl, hends⟩ :=
    Pass.exists_reads_of_endsIn (Generator.backend_straight limits inApplication) hrest h
  obtain ⟨next, below, hclose, -⟩ := Pass.exists_step_of_endsIn hends
  have hdepth : mid.depth = loops.length + 1 := reads_depth rfl hbefore
  exact ⟨_, mid, next, below, hbefore, Pass.reads_one hclose,
    (depth_of_closing (by exact hdepth) hclose).1⟩

/-- A body is written as a block with a loop for each pair of round brackets, where every line stands in the block and on the side
of the test that its tokens do. -/
theorem evaluate_blocks {fuel : Nat}
    (h : (evaluate (Generator.backend limits inApplication) program fuel body).run {} = .ok () generator) :
    Blocks limits inApplication program body generator := by
  have hends : Generator.EndsIn limits inApplication program generator { rest := body } {} := ⟨fuel, h⟩
  have hcloses : Closes [] body := Pass.closes_of_endsIn (Generator.backend_straight limits inApplication) hends
  obtain ⟨forest, rfl⟩ : ∃ forest : Forest, body = forest.tokens := ⟨_, (Forest.tokens_ofTokens hcloses).symm⟩
  have hitems := hends
  rw [← List.append_nil forest.tokens] at hitems
  obtain ⟨kept, code, hkept, hcode, -, hlast⟩ :=
    (itemsWritten_and_turnWritten forest).1 .top [] [] [] {} generator Place.isOn_top hitems
  obtain rfl : kept = [] := hkept
  have hgenerator : generator = ({} : Generator).write code := eq_of_endsIn_nil rfl hlast
  have hlines : generator.lines.toList = code.lines 1 := by
    rw [hgenerator, Generator.write, Array.toList_append]
    exact List.nil_append _
  obtain ⟨hopening, hclosing⟩ := code.count_lines 1
  rw [hcode.loops] at hopening hclosing
  exact {
    code := ⟨code, hcode, hgenerator⟩
    opening := by rw [hlines, hopening]; rfl
    closing := by rw [hlines, hclosing, forest.count_closing]; rfl
    indented := by
      intro before after line hline
      rw [hlines] at hline
      have hdepth := Code.depth_of_lines_eq hline
      have hle : 1 ≤ line.depth := Code.le_depth_of_mem (hline ▸ List.mem_append_right _ List.mem_cons_self)
      obtain ⟨around, haround⟩ := Nat.exists_eq_add_of_le hle
      exact ⟨around, by omega, by rw [Line.text, haround]⟩
    conditional := conditional_of_endsIn hends
    depth := by rw [hgenerator]; rfl
    unsaturated := unsaturated_of_endsIn hends }

theorem evaluate_blocks_of_nested :
    let body : List Token := [.opening .conditional, .opening .applicator, .literal 0, .opening .conditional, .literal 1,
      .builtin .decrement, .closing .conditional, .closing .applicator, .builtin .output, .closing .conditional]
    let cell := Expr.cell (.literal 0)
    let generator : Generator := ⟨1, #[⟨1, .loop⟩, ⟨2, .loop⟩, ⟨3, .leaveUnless (.literal 1)⟩, ⟨3, .decrement (.literal 1)⟩,
      ⟨2, .close⟩, ⟨2, .leaveUnless cell⟩, ⟨2, .put cell⟩, ⟨1, .close⟩]⟩
    generate {} (.ofEntry body) false body = .ok () generator ∧ Blocks {} false (.ofEntry body) body generator := by
  intro body cell generator
  have h : generate {} (.ofEntry body) false body = .ok () generator := rfl
  exact ⟨h, evaluate_blocks h⟩

end

end

end CProgram

end Bracketry

import Bracketry.Proofs.Steps
import Mathlib.Data.List.Forall2

/-!
# Passes in lockstep

Two backends may compute with different values and different addresses. As long as related operands lead to related results, two
passes over one body do the same token by token, whatever the body.

* `Entry.Matches`, `Pass.Matches` : entries and passes that differ in related values and related addresses only;
* `Backend.Matches` : the operations of two backends are related, each for the bodies of its program;
* `Pass.step_matches`, `Pass.run_matches` : then so are one token and a whole pass;
* `Backend.Alike.matches` : equal values and equal addresses are the simplest case; `Pass.run_alike` is the statement for it;
* `Pass.run_below`, `Pass.run_below_of_le` : hence more fuel changes nothing but a lack of fuel.
-/

namespace Bracketry

variable {σ τ V W A B : Type}

/-- A fault is related to itself, whatever the values would have been. -/
theorem Relator.KeepsFaults.fault {rel : Relator σ τ} (hfaults : rel.KeepsFaults) {error : Error} (h : error.OfEvaluation)
    {α β : Type} {R : α → β → Prop} : rel.Rel R (Action.fault error) (Action.fault error) := by
  have hbind : rel.Rel R (Action.fault error >>= fun a : Empty => nomatch a) (Action.fault error >>= fun a : Empty => nomatch a) :=
    rel.bind (hfaults h Empty) fun a => nomatch a
  exact hbind

/-! ## Entries and passes -/

/-- Entries that are the same but for related values and addresses. -/
inductive Entry.Matches (RV : V → W → Prop) (RA : A → B → Prop) : Entry V A → Entry W B → Prop where
  | applicator : Matches RV RA .applicator .applicator
  | unbound : Matches RV RA (.conditional none) (.conditional none)
  | bound {a : A} {a' : B} (haddress : RA a a') : Matches RV RA (.conditional (some a)) (.conditional (some a'))
  | pending (token : Token) : Matches RV RA (.pending token) (.pending token)
  | resolved {v : V} {w : W} (hvalue : RV v w) : Matches RV RA (.resolved v) (.resolved w)
  | void : Matches RV RA .void .void

/-- Passes at one place of one body, with matching entries on their stacks. -/
structure Pass.Matches (RV : V → W → Prop) (RA : A → B → Prop) (pass : Pass V A) (pass' : Pass W B) : Prop where
  rest : pass.rest = pass'.rest
  stack : List.Forall₂ (Entry.Matches RV RA) pass.stack pass'.stack
  loops : pass.loops = pass'.loops

/-- The operations of two backends are related, each for the bodies of its program. -/
structure Backend.Matches (rel : Relator σ τ) (RV : V → W → Prop) (RA : A → B → Prop) (b : Backend σ V A) (program : Program)
    (c : Backend τ W B) (program' : Program) : Prop where
  literal (value : Int64) : rel.Rel RV (b.literal value) (c.literal value)
  parameter : rel.Rel RV b.parameter c.parameter
  resolveAccessor (v : V) (w : W) (hvalue : RV v w) : rel.Rel RA (b.resolveAccessor v) (c.resolveAccessor w)
  applyBuiltin (a : A) (a' : B) (haddress : RA a a') (op : Builtin) :
    rel.Rel Eq (b.applyBuiltin a op) (c.applyBuiltin a' op)
  assign (a : A) (a' : B) (haddress : RA a a') (v : V) (w : W) (hvalue : RV v w) :
    rel.Rel Eq (b.assign a v) (c.assign a' w)
  /-- A name that is applied to a cell, be it that of an application or not. -/
  named (name : String) (a : A) (a' : B) (haddress : RA a a') :
    rel.Rel Eq (Pass.applyToken b program a (.identifier name)) (Pass.applyToken c program' a' (.identifier name))
  resolve (a : A) (a' : B) (haddress : RA a a') : rel.Rel RV (b.resolve a) (c.resolve a')
  enterLoop : rel.Rel Eq b.enterLoop c.enterLoop
  testLoop (a : A) (a' : B) (haddress : RA a a') : rel.Rel Eq (b.testLoop a) (c.testLoop a')
  exitLoop (a : A) (a' : B) (haddress : RA a a') : rel.Rel Eq (b.exitLoop a) (c.exitLoop a')
  describe (v : V) (w : W) (hvalue : RV v w) : b.describe v = c.describe w

theorem Backend.Matches.imp {rel rel' : Relator σ τ} {RV : V → W → Prop} {RA : A → B → Prop} {b : Backend σ V A}
    {program : Program} {c : Backend τ W B} {program' : Program} (h : b.Matches rel RV RA program c program')
    (himp : ∀ {α β : Type} {R : α → β → Prop} {x : Action σ α} {y : Action τ β}, rel.Rel R x y → rel'.Rel R x y) :
    b.Matches rel' RV RA program c program' where
  literal value := himp (h.literal value)
  parameter := himp h.parameter
  resolveAccessor v w hvalue := himp (h.resolveAccessor v w hvalue)
  applyBuiltin a a' haddress op := himp (h.applyBuiltin a a' haddress op)
  assign a a' haddress v w hvalue := himp (h.assign a a' haddress v w hvalue)
  named name a a' haddress := himp (h.named name a a' haddress)
  resolve a a' haddress := himp (h.resolve a a' haddress)
  enterLoop := himp h.enterLoop
  testLoop a a' haddress := himp (h.testLoop a a' haddress)
  exitLoop a a' haddress := himp (h.exitLoop a a' haddress)
  describe := h.describe

section
variable {RV : V → W → Prop} {RA : A → B → Prop}

theorem Entry.Matches.isMarker_eq {entry : Entry V A} {entry' : Entry W B} (h : entry.Matches RV RA entry') :
    entry.isMarker = entry'.isMarker := by
  cases h <;> rfl

theorem Pass.Matches.innermost? {pass : Pass V A} {pass' : Pass W B} (h : pass.Matches RV RA pass') :
    Option.Rel (Entry.Matches RV RA) pass.innermost? pass'.innermost? := by
  obtain ⟨rest, stack, loops⟩ := pass
  obtain ⟨rest', stack', loops'⟩ := pass'
  cases h.stack with
  | nil => exact .none
  | cons hentry _ =>
    refine .some ?_
    rw [hentry.isMarker_eq]
    split
    · exact hentry
    · exact .applicator

theorem Pass.Matches.push {pass : Pass V A} {pass' : Pass W B} (h : pass.Matches RV RA pass') {entry : Entry V A}
    {entry' : Entry W B} (hentry : entry.Matches RV RA entry') :
    (pass.push entry).Matches RV RA (pass'.push entry') :=
  ⟨h.rest, .cons hentry h.stack, h.loops⟩

theorem takeOperands_matches {operands stack : List (Entry V A)} {operands' stack' : List (Entry W B)}
    (hoperands : List.Forall₂ (Entry.Matches RV RA) operands operands')
    (hstack : List.Forall₂ (Entry.Matches RV RA) stack stack') :
    Option.Rel (fun taken taken' => List.Forall₂ (Entry.Matches RV RA) taken.1 taken'.1 ∧
        List.Forall₂ (Entry.Matches RV RA) taken.2 taken'.2)
      (takeOperands operands stack) (takeOperands operands' stack') := by
  induction hstack generalizing operands operands' with
  | nil => exact .none
  | cons hentry hstack ih =>
    cases hentry with
    | applicator => exact .some ⟨hoperands, hstack⟩
    | unbound => exact .none
    | bound _ => exact .none
    | pending token => exact ih (.cons (.pending token) hoperands)
    | resolved hvalue => exact ih (.cons (.resolved hvalue) hoperands)
    | void => exact ih (.cons .void hoperands)

theorem dropOperands_matches {stack : List (Entry V A)} {stack' : List (Entry W B)}
    (hstack : List.Forall₂ (Entry.Matches RV RA) stack stack') :
    Option.Rel (fun dropped dropped' => Option.Rel RA dropped.1 dropped'.1 ∧
        List.Forall₂ (Entry.Matches RV RA) dropped.2 dropped'.2)
      (dropOperands stack) (dropOperands stack') := by
  induction hstack with
  | nil => exact .none
  | cons hentry hstack ih =>
    cases hentry with
    | applicator => exact .none
    | unbound => exact .some ⟨.none, hstack⟩
    | bound haddress => exact .some ⟨.some haddress, hstack⟩
    | _ => exact ih

end

/-! ## One token -/

namespace Pass
variable {rel : Relator σ τ} {RV : V → W → Prop} {RA : A → B → Prop} {b : Backend σ V A} {c : Backend τ W B}
  {program program' : Program}

section
variable (h : b.Matches rel RV RA program c program') (hfaults : rel.KeepsFaults)
include h hfaults

theorem accessor_matches {entry : Entry V A} {entry' : Entry W B} (hentry : entry.Matches RV RA entry') :
    rel.Rel RA (accessor b entry) (accessor c entry') := by
  have hother : ∀ description,
      rel.Rel RA (Action.fault (.invalidAccessor description) >>= b.resolveAccessor)
        (Action.fault (.invalidAccessor description) >>= c.resolveAccessor) :=
    fun description => rel.bind (hfaults.fault (R := RV) (.invalidAccessor description)) h.resolveAccessor
  cases hentry with
  | pending token =>
    cases token with
    | literal value => exact rel.bind (h.literal value) h.resolveAccessor
    | parameter => exact rel.bind h.parameter h.resolveAccessor
    | _ => exact hother _
  | resolved hvalue => exact rel.bind (rel.pure hvalue) h.resolveAccessor
  | _ => exact hother _

theorem applyToken_matches {a : A} {a' : B} (haddress : RA a a') (token : Token) :
    rel.Rel Eq (applyToken b program a token) (applyToken c program' a' token) := by
  cases token with
  | builtin op => exact h.applyBuiltin a a' haddress op
  | literal value => exact rel.bind (h.literal value) (h.assign a a' haddress)
  | parameter => exact rel.bind h.parameter (h.assign a a' haddress)
  | identifier name => exact h.named name a a' haddress
  | _ => exact hfaults.fault (.unknownToken _)

theorem applyOperand_matches {a : A} {a' : B} (haddress : RA a a') {entry : Entry V A} {entry' : Entry W B}
    (hentry : entry.Matches RV RA entry') :
    rel.Rel Eq (applyOperand b program a entry) (applyOperand c program' a' entry') := by
  cases hentry with
  | pending token => exact applyToken_matches h hfaults haddress token
  | resolved hvalue => exact h.assign a a' haddress _ _ hvalue
  | void => exact rel.pure rfl
  | applicator => exact hfaults.fault (.structural _)
  | unbound => exact hfaults.fault (.structural _)
  | bound _ => exact hfaults.fault (.structural _)

theorem applyOperands_matches {a : A} {a' : B} (haddress : RA a a') {entries : List (Entry V A)}
    {entries' : List (Entry W B)} (hentries : List.Forall₂ (Entry.Matches RV RA) entries entries') :
    rel.Rel Eq (entries.forM (applyOperand b program a)) (entries'.forM (applyOperand c program' a')) := by
  induction hentries with
  | nil => exact rel.pure rfl
  | cons hentry _ ih => exact rel.bind_eq (applyOperand_matches h hfaults haddress hentry) fun _ => ih

theorem applied_matches {entries : List (Entry V A)} {entries' : List (Entry W B)}
    (hentries : List.Forall₂ (Entry.Matches RV RA) entries entries') :
    rel.Rel RV (applied b program entries) (applied c program' entries') := by
  cases hentries with
  | nil => exact hfaults.fault (.structural _)
  | cons hfirst hoperands =>
    refine rel.bind (accessor_matches h hfaults hfirst) fun a a' haddress => ?_
    exact rel.bind_eq (applyOperands_matches h hfaults haddress hoperands) fun _ => h.resolve a a' haddress

omit h in
theorem deliverVoid_matches {pass : Pass V A} {pass' : Pass W B} (hpass : pass.Matches RV RA pass') :
    rel.Rel (Pass.Matches RV RA) (deliverVoid b pass) (deliverVoid c pass') := by
  unfold deliverVoid
  have hinnermost := hpass.innermost?
  generalize pass.innermost? = innermost at hinnermost
  generalize pass'.innermost? = innermost' at hinnermost
  cases hinnermost with
  | none => exact rel.pure hpass
  | some hmarker =>
    cases hmarker with
    | applicator => exact rel.pure (hpass.push .void)
    | bound _ => exact rel.pure hpass
    | unbound => exact hfaults.fault (.invalidAccessor _)
    | _ => exact hfaults.fault (.structural _)

omit h in
theorem leaveConditional_matches {pass : Pass V A} {pass' : Pass W B} (hpass : pass.Matches RV RA pass') :
    rel.Rel (Pass.Matches RV RA) (leaveConditional b pass) (leaveConditional c pass') := by
  unfold leaveConditional
  rw [← hpass.loops]
  split
  · exact hfaults.fault (.structural _)
  · exact deliverVoid_matches hfaults ⟨hpass.rest, hpass.stack, rfl⟩

theorem bindAccessor_matches {pass : Pass V A} {pass' : Pass W B} (hpass : pass.Matches RV RA pass') {entry : Entry V A}
    {entry' : Entry W B} (hentry : entry.Matches RV RA entry') :
    rel.Rel (Pass.Matches RV RA) (bindAccessor b pass entry) (bindAccessor c pass' entry') := by
  obtain ⟨rest, stack, loops⟩ := pass
  obtain ⟨rest', stack', loops'⟩ := pass'
  obtain ⟨rfl, hstack, rfl⟩ := hpass
  unfold bindAccessor
  refine rel.bind (accessor_matches h hfaults hentry) fun a a' haddress => ?_
  refine rel.bind_eq (h.testLoop a a' haddress) fun answer => ?_
  cases answer with
  | run =>
    cases hstack with
    | nil => exact hfaults.fault (.structural _)
    | cons htop hstack =>
      cases htop with
      | unbound => exact rel.pure ⟨rfl, .cons (.bound haddress) hstack, rfl⟩
      | bound _ => exact rel.pure ⟨rfl, .cons (.bound haddress) hstack, rfl⟩
      | _ => exact hfaults.fault (.structural _)
  | skip =>
    dsimp only
    cases skipBody 0 rest with
    | none => exact hfaults.fault (.structural _)
    | some after =>
      cases hstack with
      | nil => exact hfaults.fault (.structural _)
      | cons htop hstack =>
        cases htop with
        | unbound => exact leaveConditional_matches hfaults ⟨rfl, hstack, rfl⟩
        | bound _ => exact leaveConditional_matches hfaults ⟨rfl, hstack, rfl⟩
        | _ => exact hfaults.fault (.structural _)

theorem deliver_matches {pass : Pass V A} {pass' : Pass W B} (hpass : pass.Matches RV RA pass') {entry : Entry V A}
    {entry' : Entry W B} (hentry : entry.Matches RV RA entry') :
    rel.Rel (Pass.Matches RV RA) (deliver b program pass entry) (deliver c program' pass' entry') := by
  unfold deliver
  have hinnermost := hpass.innermost?
  generalize pass.innermost? = innermost at hinnermost
  generalize pass'.innermost? = innermost' at hinnermost
  cases hinnermost with
  | none =>
    cases hentry with
    | pending token => exact hfaults.fault (.structural _)
    | _ => exact rel.pure hpass
  | some hmarker =>
    cases hmarker with
    | applicator => exact rel.pure (hpass.push hentry)
    | unbound => exact bindAccessor_matches h hfaults hpass hentry
    | bound haddress =>
      cases hentry with
      | pending token => exact rel.bind_eq (applyToken_matches h hfaults haddress token) fun _ => rel.pure hpass
      | _ => exact rel.pure hpass
    | _ => exact hfaults.fault (.structural _)

theorem closeApplicator_matches {pass : Pass V A} {pass' : Pass W B} (hpass : pass.Matches RV RA pass') :
    rel.Rel (Pass.Matches RV RA) (closeApplicator b program pass) (closeApplicator c program' pass') := by
  rw [closeApplicator_eq_applied, closeApplicator_eq_applied]
  have htaken := takeOperands_matches (.nil : List.Forall₂ (Entry.Matches RV RA) [] []) hpass.stack
  generalize takeOperands [] pass.stack = taken at htaken
  generalize takeOperands [] pass'.stack = taken' at htaken
  cases htaken with
  | none => exact hfaults.fault (.structural _)
  | @some taken taken' htaken =>
    obtain ⟨entries, stack⟩ := taken
    obtain ⟨entries', stack'⟩ := taken'
    obtain ⟨hentries, hstack⟩ := htaken
    have hbelow : Pass.Matches RV RA ⟨pass.rest, stack, pass.loops⟩ ⟨pass'.rest, stack', pass'.loops⟩ :=
      ⟨hpass.rest, hstack, hpass.loops⟩
    exact rel.bind (applied_matches h hfaults hentries) fun v w hvalue => deliver_matches h hfaults hbelow (.resolved hvalue)

theorem closeConditional_matches {pass : Pass V A} {pass' : Pass W B} (hpass : pass.Matches RV RA pass') :
    rel.Rel (Pass.Matches RV RA) (closeConditional b pass) (closeConditional c pass') := by
  unfold closeConditional
  have hdropped := dropOperands_matches hpass.stack
  generalize dropOperands pass.stack = dropped at hdropped
  generalize dropOperands pass'.stack = dropped' at hdropped
  cases hdropped with
  | none => exact hfaults.fault (.structural _)
  | @some dropped dropped' hdropped =>
    obtain ⟨accessor, stack⟩ := dropped
    obtain ⟨accessor', stack'⟩ := dropped'
    obtain ⟨haccessor, hstack⟩ := hdropped
    cases haccessor with
    | none => exact hfaults.fault (.structural _)
    | @some a a' haddress =>
      refine rel.bind_eq (h.exitLoop a a' haddress) fun answer => ?_
      cases answer with
      | again =>
        rw [← hpass.loops]
        dsimp only
        split
        · exact hfaults.fault (.structural _)
        · exact rel.pure ⟨rfl, .cons .unbound hstack, rfl⟩
      | done =>
        have hbelow : Pass.Matches RV RA ⟨pass.rest, stack, pass.loops⟩ ⟨pass'.rest, stack', pass'.loops⟩ :=
          ⟨hpass.rest, hstack, hpass.loops⟩
        exact leaveConditional_matches hfaults hbelow

theorem step_matches {pass : Pass V A} {pass' : Pass W B} (hpass : pass.Matches RV RA pass') (token : Token) :
    rel.Rel (Pass.Matches RV RA) (step b program pass token) (step c program' pass' token) := by
  cases token with
  | opening kind =>
    cases kind with
    | applicator => exact rel.pure (hpass.push .applicator)
    | conditional =>
      refine rel.bind_eq h.enterLoop fun _ => rel.pure ⟨hpass.rest, .cons .unbound hpass.stack, ?_⟩
      change pass.rest :: pass.loops = pass'.rest :: pass'.loops
      rw [hpass.rest, hpass.loops]
    | definition => exact hfaults.fault (.structural _)
  | closing kind =>
    cases kind with
    | applicator => exact closeApplicator_matches h hfaults hpass
    | conditional => exact closeConditional_matches h hfaults hpass
    | definition => exact hfaults.fault (.structural _)
  | _ => exact deliver_matches h hfaults hpass (.pending _)

/-! ## Whole passes -/

omit hfaults in
theorem describe_matches {entries : List (Entry V A)} {entries' : List (Entry W B)}
    (hentries : List.Forall₂ (Entry.Matches RV RA) entries entries') :
    entries.map (Entry.describe b.describe) = entries'.map (Entry.describe c.describe) := by
  induction hentries with
  | nil => rfl
  | cons hentry _ ih =>
    have hhead : ∀ {entry : Entry V A} {entry' : Entry W B}, entry.Matches RV RA entry' →
        entry.describe b.describe = entry'.describe c.describe := by
      intro entry entry' hentry
      cases hentry with
      | resolved hvalue => exact h.describe _ _ hvalue
      | _ => rfl
    rw [List.map_cons, List.map_cons, hhead hentry, ih]

theorem finish_matches {pass : Pass V A} {pass' : Pass W B} (hpass : pass.Matches RV RA pass') :
    rel.Rel Eq (finish b pass) (finish c pass') := by
  obtain ⟨rest, stack, loops⟩ := pass
  obtain ⟨rest', stack', loops'⟩ := pass'
  obtain ⟨rfl, hstack, rfl⟩ := hpass
  have hempty : stack.isEmpty = stack'.isEmpty := by cases hstack <;> rfl
  unfold finish
  simp only [hempty, List.map_reverse, describe_matches h hstack]
  split
  · exact rel.pure rfl
  · exact hfaults.fault (.structural _)

theorem run_matches (fuel : Nat) {pass : Pass V A} {pass' : Pass W B} (hpass : pass.Matches RV RA pass') :
    rel.Rel Eq (run b program fuel pass) (run c program' fuel pass') := by
  induction fuel generalizing pass pass' with
  | zero =>
    obtain ⟨rest, stack, loops⟩ := pass
    obtain ⟨rest', stack', loops'⟩ := pass'
    obtain ⟨rfl, hstack, rfl⟩ := hpass
    cases rest with
    | nil => exact finish_matches h hfaults ⟨rfl, hstack, rfl⟩
    | cons token tokens => exact rel.exhausted Eq
  | succ fuel ih =>
    obtain ⟨rest, stack, loops⟩ := pass
    obtain ⟨rest', stack', loops'⟩ := pass'
    obtain ⟨rfl, hstack, rfl⟩ := hpass
    cases rest with
    | nil => exact finish_matches h hfaults ⟨rfl, hstack, rfl⟩
    | cons token tokens =>
      have hread : Pass.Matches RV RA ⟨tokens, stack, loops⟩ ⟨tokens, stack', loops⟩ := ⟨rfl, hstack, rfl⟩
      exact rel.bind (step_matches h hfaults hread token) fun _ _ hnext => ih hnext

theorem evaluate_matches (fuel : Nat) (body : List Token) :
    rel.Rel Eq (evaluate b program fuel body) (evaluate c program' fuel body) :=
  run_matches h hfaults fuel ⟨rfl, .nil, rfl⟩

end

end Pass

/-! ## One program, equal values and equal addresses -/

theorem Entry.matches_refl (entry : Entry V A) : entry.Matches Eq Eq entry := by
  cases entry with
  | applicator => exact .applicator
  | conditional accessor =>
    cases accessor with
    | none => exact .unbound
    | some address => exact .bound rfl
  | pending token => exact .pending token
  | resolved value => exact .resolved rfl
  | void => exact .void

theorem entries_matches_refl (entries : List (Entry V A)) : List.Forall₂ (Entry.Matches Eq Eq) entries entries :=
  List.forall₂_same.2 fun entry _ => entry.matches_refl

/-- In one program, names are applied in related ways if applications are called so. -/
theorem Pass.identifier_matches {rel : Relator σ τ} (hfaults : rel.KeepsFaults) {b : Backend σ V A} {c : Backend τ W B}
    {program : Program} {name : String} {a : A} {a' : B} (hcall : rel.Rel Eq (b.call name a) (c.call name a')) :
    rel.Rel Eq (applyToken b program a (.identifier name)) (applyToken c program a' (.identifier name)) := by
  change rel.Rel Eq (if program.isApplication name then b.call name a else Action.fault (.unknownToken name))
    (if program.isApplication name then c.call name a' else Action.fault (.unknownToken name))
  split
  · exact hcall
  · exact hfaults (.unknownToken _) _

theorem Backend.Alike.matches {rel : Relator σ τ} {b : Backend σ V A} {c : Backend τ V A} (halike : b.Alike rel c)
    (hfaults : rel.KeepsFaults) (program : Program) : b.Matches rel Eq Eq program c program where
  literal := halike.literal
  parameter := halike.parameter
  resolveAccessor := by
    rintro value _ rfl
    exact halike.resolveAccessor value
  applyBuiltin := by
    rintro address _ rfl op
    exact halike.applyBuiltin address op
  assign := by
    rintro address _ rfl value _ rfl
    exact halike.assign address value
  named := by
    rintro name address _ rfl
    exact Pass.identifier_matches hfaults (halike.call name address)
  resolve := by
    rintro address _ rfl
    exact halike.resolve address
  enterLoop := halike.enterLoop
  testLoop := by
    rintro address _ rfl
    exact halike.testLoop address
  exitLoop := by
    rintro address _ rfl
    exact halike.exitLoop address
  describe := by
    rintro value _ rfl
    rw [halike.describe]

namespace Pass

/-- A pass that asks alike backends runs alike. -/
theorem run_alike {rel : Relator σ τ} {b : Backend σ V A} {c : Backend τ V A} (program : Program) (halike : b.Alike rel c)
    (hfaults : rel.KeepsFaults) (fuel : Nat) (pass : Pass V A) :
    rel.Rel Eq (run b program fuel pass) (run c program fuel pass) :=
  run_matches (halike.matches hfaults program) hfaults fuel ⟨rfl, entries_matches_refl pass.stack, rfl⟩

/-! ## More fuel -/

variable (program : Program)

theorem run_below {b c : Backend σ V A} (halike : b.Alike (.below σ) c) (fuel : Nat) (pass : Pass V A) :
    Below (run b program fuel pass) (run c program fuel pass) :=
  Relator.below_eq_iff.1 (run_alike program halike Relator.below_keepsFaults fuel pass)

theorem run_below_succ (b : Backend σ V A) (fuel : Nat) (pass : Pass V A) :
    Below (run b program fuel pass) (run b program (fuel + 1) pass) := by
  induction fuel generalizing pass with
  | zero =>
    obtain ⟨rest, stack, loops⟩ := pass
    cases rest with
    | nil => exact Below.refl _
    | cons token rest => exact Below.exhausted _
  | succ fuel ih =>
    obtain ⟨rest, stack, loops⟩ := pass
    cases rest with
    | nil => exact Below.refl _
    | cons token rest => exact Below.bind (Below.refl _) ih

/-- More fuel changes nothing but a lack of fuel. -/
theorem run_below_of_le (b : Backend σ V A) {fuel more : Nat} (h : fuel ≤ more) (pass : Pass V A) :
    Below (run b program fuel pass) (run b program more pass) := by
  induction h with
  | refl => exact Below.refl _
  | step _ ih => exact ih.trans (run_below_succ program b _ pass)

end Pass

end Bracketry

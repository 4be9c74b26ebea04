import Bracketry.Proofs.Machine.Widening
import Bracketry.Proofs.Program.Rearrangement

/-!
# Vocabulary

What a name means is looked up when it is applied, so definitions that no run applies mean nothing to it.

* `Stop.IsUnknown` : a name was applied that is none of an application;
* `Machine.passBody_excusing` : a part of a program does what the whole does, unless a name is missing;
* `Machine.run_of_partOf`, `Machine.run_eq_of_partOf` : hence so do its runs, and those of programs with the same bodies are equal;
* `Machine.run_extended` : this for programs with further applications and for source texts with their definitions moved.
-/

namespace Bracketry

def Stop.IsUnknown : Stop → Prop
  | .fault (.unknownToken _) => True
  | _ => False

namespace Machine
variable {limits : Limits} {program other : Program} {excused : Stop → Prop}
  {evaluateBody evaluateBody' : List Token → Action Machine Unit}

theorem excused_leaveFrame {r : EStateM.Result Stop Machine Unit} (h : Relator.Excused excused r) :
    Relator.Excused excused (leaveFrame r) := by
  cases r with
  | ok _ machine => exact h.elim
  | error stop machine => exact h

theorem call_excusing (hbody : ∀ body, (Relator.excusing excused Machine).Rel Eq (evaluateBody body) (evaluateBody' body))
    {name : String} {body : List Token} (h : program.body? name = some body) (h' : other.body? name = some body) (address : Nat) :
    (Relator.excusing excused Machine).Rel Eq (call limits program evaluateBody name address)
      (call limits other evaluateBody' name address) := by
  refine Relator.excusing_eq_iff.2 fun machine => ?_
  rw [call_eq, call_eq, h, h']
  split
  · exact .inr rfl
  · simp only [inFrame_eq]
    rcases Relator.excusing_eq_iff.1 (hbody body) { machine with frames := machine.frames.push address } with hexcused | heq
    · exact .inl (excused_leaveFrame hexcused)
    · exact .inr (congrArg leaveFrame heq)

/-- A name means the same to both programs, unless the first has no application of that name; then it is excused, or there are no
others in the second. -/
theorem identifier_excusing (hpart : program.PartOf other) (hunknown : (∀ stop, stop.IsUnknown → excused stop) ∨ other.PartOf program)
    (hbody : ∀ body, (Relator.excusing excused Machine).Rel Eq (evaluateBody body) (evaluateBody' body)) (name : String)
    (address : Nat) :
    (Relator.excusing excused Machine).Rel Eq
      (Pass.applyToken (backendWith limits program evaluateBody) program address (.identifier name))
      (Pass.applyToken (backendWith limits other evaluateBody') other address (.identifier name)) := by
  change (Relator.excusing excused Machine).Rel Eq
    (if program.isApplication name then call limits program evaluateBody name address else Action.fault (.unknownToken name))
    (if other.isApplication name then call limits other evaluateBody' name address else Action.fault (.unknownToken name))
  by_cases hname : program.isApplication name = true
  · obtain ⟨body, hlookup, hne⟩ := Program.exists_body_of_isApplication hname
    rw [if_pos hname, if_pos (hpart.isApplication hname)]
    exact call_excusing hbody hlookup (hpart.body? hne hlookup) address
  · rw [if_neg hname]
    rcases hunknown with hexcused | hwhole
    · exact Relator.excusing_eq_iff.2 fun machine => .inl (hexcused _ trivial)
    · rw [if_neg fun hother => hname (hwhole.isApplication hother)]
      exact Relator.excusing_refl _

theorem backendWith_excusing (hpart : program.PartOf other)
    (hunknown : (∀ stop, stop.IsUnknown → excused stop) ∨ other.PartOf program)
    (hbody : ∀ body, (Relator.excusing excused Machine).Rel Eq (evaluateBody body) (evaluateBody' body)) :
    (backendWith limits program evaluateBody).Matches (Relator.excusing excused Machine) Eq Eq program
      (backendWith limits other evaluateBody') other where
  literal _ := Relator.excusing_refl _
  parameter := Relator.excusing_refl _
  resolveAccessor := by
    rintro value _ rfl
    exact Relator.excusing_refl _
  applyBuiltin := by
    rintro address _ rfl op
    exact Relator.excusing_refl _
  assign := by
    rintro address _ rfl value _ rfl
    exact Relator.excusing_refl _
  named := by
    rintro name address _ rfl
    exact identifier_excusing hpart hunknown hbody name address
  resolve := by
    rintro address _ rfl
    exact Relator.excusing_refl _
  enterLoop := Relator.excusing_refl _
  testLoop := by
    rintro address _ rfl
    exact Relator.excusing_refl _
  exitLoop := by
    rintro address _ rfl
    exact Relator.excusing_refl _
  describe := by
    rintro value _ rfl
    rfl

variable (limits) in
/-- A body means the same to both programs, with all it calls. -/
theorem passBody_excusing (hpart : program.PartOf other)
    (hunknown : (∀ stop, stop.IsUnknown → excused stop) ∨ other.PartOf program) (fuel : Nat) (body : List Token) :
    (Relator.excusing excused Machine).Rel Eq (passBody limits program fuel body) (passBody limits other fuel body) := by
  induction fuel generalizing body with
  | zero => exact Relator.exhausted _ Eq
  | succ fuel ih =>
    rw [passBody, passBody, backend_eq, backend_eq]
    exact Pass.evaluate_matches (backendWith_excusing hpart hunknown ih) Relator.excusing_keepsFaults fuel body

variable {fuel : Nat} {machine : Machine}

/-! ## Whole programs -/

/-- If its evaluation misses no name, a part of a program runs as the program does. -/
theorem run_of_partOf (hpart : program.PartOf other)
    (hknown : ∀ text, resultOf (evaluateEntry limits program fuel machine) ≠ .error (.fault (.unknownToken text))) :
    run limits other fuel machine = run limits program fuel machine := by
  have hentry := passBody_excusing limits hpart (.inl fun _ => id) (fuel + 1) program.entry
  rcases Relator.excusing_eq_iff.1 hentry machine with hexcused | heq
  · rw [evaluateEntry_eq] at hknown
    generalize passBody limits program (fuel + 1) program.entry machine = r at hexcused hknown
    match r with
    | .error (.fault (.unknownToken text)) _ => exact absurd rfl (hknown text)
  · rw [run_eq, run_eq, hpart.entry, heq]

/-- Programs with the same bodies run alike, also as far as a run that does not end. -/
theorem run_eq_of_partOf (hpart : program.PartOf other) (hwhole : other.PartOf program) :
    run limits other fuel machine = run limits program fuel machine := by
  have hentry : (Relator.excusing (fun _ => False) Machine).Rel Eq (passBody limits program (fuel + 1) program.entry)
      (passBody limits other (fuel + 1) program.entry) :=
    passBody_excusing limits hpart (.inr hwhole) (fuel + 1) program.entry
  rcases Relator.excusing_eq_iff.1 hentry machine with hexcused | heq
  · generalize passBody limits program (fuel + 1) program.entry machine = r at hexcused
    cases r <;> exact hexcused.elim
  · rw [run_eq, run_eq, hpart.entry, heq]

/-- A run depends on the definitions that it can name, and on nothing else of its program: more applications, in any order, change nothing
unless a name was unknown, which only the fault of a last flush could hide. Nor does it matter where in the source text definitions stand
between brackets at the top level. -/
theorem run_extended (limits : Limits) :
    (∀ (program other : Program) (machine : Machine) (fuel : Nat), program.PartOf other →
      ¬Exhausted (run limits program fuel machine) →
      (∀ text, resultOf (run limits program fuel machine) ≠ .error (.fault (.unknownToken text))) →
      ((∀ reply ∈ machine.streams.flushes, reply = .done) ∨
        ∀ text, resultOf (evaluateEntry limits program fuel machine) ≠ .error (.fault (.unknownToken text))) →
      ∀ more ≥ fuel, run limits other more machine = run limits program fuel machine) ∧
    (∀ (program other : Program) (machine : Machine) (fuel : Nat), program.PartOf other → other.PartOf program →
      run limits other fuel machine = run limits program fuel machine) ∧
    ∀ (source source' : String) (sections other : Sections) (program : Program),
      Source.lex source = .ok sections.tokens → Source.lex source' = .ok other.tokens →
      sections.Free → other.Whole → other.Rearranges sections → Program.ofSource source = .ok program →
      ∃ program', Program.ofSource source' = .ok program' ∧
        ∀ machine fuel, run limits program' fuel machine = run limits program fuel machine := by
  refine ⟨fun program other machine fuel hpart hended hknown hshown more hmore => ?_, fun program other machine fuel => ?_, ?_⟩
  · have hevaluation : ∀ text, resultOf (evaluateEntry limits program fuel machine) ≠ .error (.fault (.unknownToken text)) := by
      rcases hshown with hflushes | hshown
      · rwa [resultOf_run_of_done hflushes] at hknown
      · exact hshown
    have heq : run limits other fuel machine = run limits program fuel machine := run_of_partOf hpart hevaluation
    rw [← heq] at hended ⊢
    exact run_of_le hmore hended
  · exact run_eq_of_partOf
  · intro source source' sections other program hlex hlex' hfree hwhole hrearranges hprogram
    obtain ⟨program', hprogram', hpart, hpart'⟩ :=
      Program.exists_ofSource_of_rearranges hlex hlex' hfree hwhole hrearranges hprogram
    exact ⟨program', hprogram', fun _ _ => run_eq_of_partOf hpart hpart'⟩

/-- The program `{f [$ .]} [0 7 f]` does the same with a second application in front. Moved behind the brackets that call it, the
definition of `f` is still found. -/
theorem run_extended_of_two :
    let limits : Limits := ⟨1, 1⟩
    let call : List Token := [.opening .applicator, .literal 0, .literal 7, .identifier "f", .closing .applicator]
    let shows : List Token := [.opening .applicator, .parameter, .builtin .output, .closing .applicator]
    let grows : List Token := [.opening .applicator, .parameter, .builtin .increment, .closing .applicator]
    let program : Program := ⟨[(entryName, call), ("f", shows)]⟩
    let other : Program := ⟨[("g", grows), ("f", shows), (entryName, call)]⟩
    let machine : Machine := { memory := .zeroed 1 }
    (after (run limits program 9 machine)).streams.output = [7] ∧
      (∀ more ≥ 9, run limits other more machine = run limits program 9 machine) ∧
      ∃ moved, Program.ofSource "[0 7 f] {f [$ .]}" = .ok moved ∧ run limits moved 9 machine = run limits program 9 machine := by
  intro limits call shows grows program other machine
  obtain ⟨hpart, -, hsource⟩ := run_extended limits
  refine ⟨rfl, ?_, ?_⟩
  · have hother : program.PartOf other := by
      refine ⟨rfl, fun {name body} h => ?_⟩
      change List.lookup name [("f", shows)] = some body at h
      rw [List.lookup_cons] at h
      cases hname : name == "f" with
      | true =>
        obtain rfl := beq_iff_eq.1 hname
        exact h
      | false =>
        rw [hname] at h
        cases h
    exact hpart program other machine 9 hother id (fun _ h => by cases h) (.inl fun _ h => by cases h)
  · let definition : List Token := [.identifier "f", .opening .applicator, .placeholder, .builtin .output, .closing .applicator]
    let sections : Sections := ⟨[], [(definition, call)]⟩
    let rearranged : Sections := ⟨call, [(definition, [])]⟩
    have hlex : Source.lex "{f [$ .]} [0 7 f]" = .ok sections.tokens := by decide +kernel
    have hlex' : Source.lex "[0 7 f] {f [$ .]}" = .ok rearranged.tokens := by decide +kernel
    have hprogram : Program.ofSource "{f [$ .]} [0 7 f]" = .ok program := by decide +kernel
    have hfree : sections.Free := ⟨by decide, by decide, by decide⟩
    have hcall : Closes [] call := closes_iff.2 ⟨rfl, by decide⟩
    have hwhole : rearranged.Whole := ⟨hcall, fun _ hmem => List.mem_singleton.1 hmem ▸ .nil⟩
    obtain ⟨moved, hmoved, hruns⟩ := hsource _ _ sections rearranged program hlex hlex' hfree hwhole ⟨.refl _, rfl⟩ hprogram
    exact ⟨moved, hmoved, hruns machine 9⟩

end Machine

end Bracketry

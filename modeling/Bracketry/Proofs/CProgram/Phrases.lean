import Bracketry.Proofs.CProgram.Translatable
import Bracketry.Proofs.Effects
import Bracketry.Proofs.Stops

/-!
# The grammar of what can be written in C

Writing a body in C refuses some tokens in some places, and it refuses brackets that do not nest. What is left are the sentences of a
grammar.

* `Phrase`, `Phrase.Derives` : the parts of such a body, and the streams that each of them stands for;
* `Phrase.exists_forest`, `Phrase.derives_of_fits` : they are the tokens of the forests that keep to `translatable`;
* `Generator.backend_follows`, `Generator.backend_stopsOnly` : the operations of such a body are never refused, and writing ends by itself;
* `generate_ok_iff_derives` : a body can be written exactly if it is a sequence of brackets of the grammar.
-/

namespace Bracketry.CProgram

/-- The parts of a body that can be written in C. -/
inductive Phrase where
  | applicator
  | bracket
  | accessor
  | item
  | items
  | body
deriving DecidableEq, Repr

namespace Phrase

/-- The streams that a part stands for. -/
inductive Derives (limits : Limits) (program : Program) (inApplication : Bool) : Phrase → List Token → Prop where
  | applicator {first rest : List Token} (hfirst : Derives limits program inApplication .accessor first)
      (hrest : Derives limits program inApplication .items rest) :
      Derives limits program inApplication .applicator (.opening .applicator :: (first ++ rest ++ [.closing .applicator]))
  | ofApplicator {tokens : List Token} (h : Derives limits program inApplication .applicator tokens) :
      Derives limits program inApplication .bracket tokens
  | conditional {first rest : List Token} (hfirst : Derives limits program inApplication .accessor first)
      (hrest : Derives limits program inApplication .items rest) :
      Derives limits program inApplication .bracket (.opening .conditional :: (first ++ rest ++ [.closing .conditional]))
  /-- A number is an accessor if it names a cell. -/
  | address {value : Int64} (hnonneg : 0 ≤ value.toInt) (hlt : value.toInt < limits.dataSize) :
      Derives limits program inApplication .accessor [.literal value]
  | argument (h : inApplication = true) : Derives limits program inApplication .accessor [.parameter]
  | indirect {tokens : List Token} (h : Derives limits program inApplication .applicator tokens) :
      Derives limits program inApplication .accessor tokens
  | builtin (op : Builtin) : Derives limits program inApplication .item [.builtin op]
  | literal (value : Int64) : Derives limits program inApplication .item [.literal value]
  | parameter (h : inApplication = true) : Derives limits program inApplication .item [.parameter]
  | call {name : String} (h : program.isApplication name = true) :
      Derives limits program inApplication .item [.identifier name]
  | nested {tokens : List Token} (h : Derives limits program inApplication .bracket tokens) :
      Derives limits program inApplication .item tokens
  | noItem : Derives limits program inApplication .items []
  | moreItems {first rest : List Token} (hfirst : Derives limits program inApplication .item first)
      (hrest : Derives limits program inApplication .items rest) :
      Derives limits program inApplication .items (first ++ rest)
  | noBracket : Derives limits program inApplication .body []
  | moreBrackets {first rest : List Token} (hfirst : Derives limits program inApplication .bracket first)
      (hrest : Derives limits program inApplication .body rest) :
      Derives limits program inApplication .body (first ++ rest)

/-- The places of a body where a part may stand. -/
def standsAt : Phrase → Spot → Bool
  | applicator, _ => true
  | bracket, spot => !spot.isFirst
  | accessor, spot => spot.isFirst
  | item, spot | items, spot => !spot.isFirst && spot != .top
  | body, spot => spot == .top

section
variable {limits : Limits} {program : Program} {inApplication : Bool}

/-! ## Sentences are forests -/

theorem next_eq_of_isFirst {spot : Spot} (h : spot.isFirst = false) : spot.next = spot := by
  cases spot with
  | top => rfl
  | applicator first => rw [show first = false from h, Spot.next]
  | loop first => rw [show first = false from h, Spot.next]

theorem exists_forest_token {t : Token} (plain : t.isPlain = true) (rest : Forest) {phrase : Phrase}
    (ht : ∀ spot, phrase.standsAt spot = true → spot.takesToken (translatable limits program inApplication) t = true) :
    ∃ forest : Forest, forest.tokens = [t] ++ rest.tokens ∧ ∀ spot, phrase.standsAt spot = true →
      rest.fits (translatable limits program inApplication) spot.next = true →
        forest.fits (translatable limits program inApplication) spot = true :=
  ⟨.token t plain rest, rfl, fun spot hspot hrest => Bool.and_eq_true_iff.2 ⟨ht spot hspot, hrest⟩⟩

theorem takesToken_of_item {grammar : Grammar} {t : Token} (h : grammar.operand t = true) (spot : Spot)
    (hspot : item.standsAt spot = true) : spot.takesToken grammar t = true := by
  cases spot with
  | top => cases hspot
  | applicator first =>
    cases first with
    | false => exact h
    | true => cases hspot
  | loop first =>
    cases first with
    | false => exact h
    | true => cases hspot

theorem takesToken_of_accessor {grammar : Grammar} {t : Token} (h : grammar.accessor t = true) (spot : Spot)
    (hspot : accessor.standsAt spot = true) : spot.takesToken grammar t = true := by
  cases spot with
  | top => cases hspot
  | applicator first => rwa [show first = true from hspot]
  | loop first => rwa [show first = true from hspot]

/-- A sentence with a forest after it is a forest, and it keeps to the grammar wherever the sentence may stand. -/
theorem exists_forest {phrase : Phrase} {tokens : List Token} (h : phrase.Derives limits program inApplication tokens)
    (rest : Forest) :
    ∃ forest : Forest, forest.tokens = tokens ++ rest.tokens ∧ ∀ spot, phrase.standsAt spot = true →
      rest.fits (translatable limits program inApplication) spot.next = true →
        forest.fits (translatable limits program inApplication) spot = true := by
  -- The items of a bracket are a sentence with nothing after it; the bracket itself then has `rest` after it.
  induction h generalizing rest with
  | @applicator first items _ _ ihFirst ihItems =>
    obtain ⟨operands, hoperands, hoperandsFit⟩ := ihItems .nil
    obtain ⟨inner, hinner, hinnerFit⟩ := ihFirst operands
    refine ⟨.applicator inner rest, by simp [Forest.tokens, hinner, hoperands], fun spot _ hrest => ?_⟩
    have hfits := hinnerFit (.applicator true) rfl (hoperandsFit (.applicator false) rfl rfl)
    exact Bool.and_eq_true_iff.2
      ⟨Generator.takesValue_translatable program spot, Bool.and_eq_true_iff.2 ⟨hfits, hrest⟩⟩
  | ofApplicator _ ih =>
    obtain ⟨forest, htokens, hfits⟩ := ih rest
    exact ⟨forest, htokens, fun spot _ => hfits spot rfl⟩
  | @conditional first items _ _ ihFirst ihItems =>
    obtain ⟨operands, hoperands, hoperandsFit⟩ := ihItems .nil
    obtain ⟨inner, hinner, hinnerFit⟩ := ihFirst operands
    refine ⟨.conditional inner rest, by simp [Forest.tokens, hinner, hoperands], fun spot hspot hrest => ?_⟩
    have hfits := hinnerFit (.loop true) rfl (hoperandsFit (.loop false) rfl rfl)
    exact Bool.and_eq_true_iff.2 ⟨hspot, Bool.and_eq_true_iff.2 ⟨hfits, hrest⟩⟩
  | @address value hnonneg hlt =>
    refine exists_forest_token rfl rest (takesToken_of_accessor ?_)
    change (limits.checkAddress value).isOk = true
    rw [Limits.checkAddress, if_pos ⟨hnonneg, hlt⟩]
    rfl
  | argument h => exact exists_forest_token rfl rest (takesToken_of_accessor h)
  | indirect _ ih =>
    obtain ⟨forest, htokens, hfits⟩ := ih rest
    exact ⟨forest, htokens, fun spot _ => hfits spot rfl⟩
  | builtin op => exact exists_forest_token rfl rest (takesToken_of_item rfl)
  | literal value => exact exists_forest_token rfl rest (takesToken_of_item rfl)
  | parameter h => exact exists_forest_token rfl rest (takesToken_of_item h)
  | call h => exact exists_forest_token rfl rest (takesToken_of_item h)
  | nested _ ih =>
    obtain ⟨forest, htokens, hfits⟩ := ih rest
    exact ⟨forest, htokens, fun spot hspot => hfits spot (Bool.and_eq_true_iff.1 hspot).1⟩
  | noItem =>
    refine ⟨rest, rfl, fun spot hspot hrest => ?_⟩
    have hfirst : spot.isFirst = false := by simpa using (Bool.and_eq_true_iff.1 hspot).1
    rwa [next_eq_of_isFirst hfirst] at hrest
  | moreItems _ _ ihFirst ihItems =>
    obtain ⟨operands, hoperands, hoperandsFit⟩ := ihItems rest
    obtain ⟨forest, htokens, hfits⟩ := ihFirst operands
    refine ⟨forest, by rw [htokens, hoperands, List.append_assoc], fun spot hspot hrest => hfits spot hspot ?_⟩
    have hfirst : spot.isFirst = false := by simpa using (Bool.and_eq_true_iff.1 hspot).1
    rw [next_eq_of_isFirst hfirst] at hrest ⊢
    exact hoperandsFit spot hspot (by rwa [next_eq_of_isFirst hfirst])
  | noBracket =>
    refine ⟨rest, rfl, fun spot hspot hrest => ?_⟩
    obtain rfl : spot = .top := by simpa [standsAt] using hspot
    exact hrest
  | moreBrackets _ _ ihFirst ihBrackets =>
    obtain ⟨brackets, hbrackets, hbracketsFit⟩ := ihBrackets rest
    obtain ⟨forest, htokens, hfits⟩ := ihFirst brackets
    refine ⟨forest, by rw [htokens, hbrackets, List.append_assoc], fun spot hspot hrest => ?_⟩
    obtain rfl : spot = .top := by simpa [standsAt] using hspot
    exact hfits .top rfl (hbracketsFit .top rfl hrest)

/-! ## Forests are sentences -/

variable (limits program inApplication) in
/-- What the items from a place on are: the brackets of a body, operands, or an accessor and operands. -/
def From : Spot → List Token → Prop
  | .top, tokens => body.Derives limits program inApplication tokens
  | .applicator false, tokens | .loop false, tokens => items.Derives limits program inApplication tokens
  | .applicator true, tokens | .loop true, tokens =>
    ∃ first rest, tokens = first ++ rest ∧ accessor.Derives limits program inApplication first ∧
      items.Derives limits program inApplication rest

/-- The items of a bracket are an accessor and operands. -/
theorem derives_applicator {tokens : List Token} (h : From limits program inApplication (.applicator true) tokens) :
    applicator.Derives limits program inApplication (.opening .applicator :: (tokens ++ [.closing .applicator])) := by
  obtain ⟨first, rest, rfl, hfirst, hrest⟩ := h
  exact .applicator hfirst hrest

theorem derives_conditional {tokens : List Token} (h : From limits program inApplication (.loop true) tokens) :
    bracket.Derives limits program inApplication (.opening .conditional :: (tokens ++ [.closing .conditional])) := by
  obtain ⟨first, rest, rfl, hfirst, hrest⟩ := h
  exact .conditional hfirst hrest

theorem derives_accessor_of_token {t : Token} (h : (translatable limits program inApplication).accessor t = true) :
    accessor.Derives limits program inApplication [t] := by
  cases t with
  | literal value =>
    have hcheck : (limits.checkAddress value).isOk = true := h
    unfold Limits.checkAddress at hcheck
    split at hcheck
    · next hrange => exact .address hrange.1 hrange.2
    · cases hcheck
  | parameter => exact .argument h
  | _ => cases h

theorem derives_item_of_token {t : Token} (h : (translatable limits program inApplication).operand t = true) :
    item.Derives limits program inApplication [t] := by
  cases t with
  | builtin op => exact .builtin op
  | literal value => exact .literal value
  | parameter => exact .parameter h
  | identifier name => exact .call h
  | _ => cases h

theorem from_of_token {spot : Spot} {t : Token} {tokens : List Token}
    (ht : spot.takesToken (translatable limits program inApplication) t = true)
    (h : From limits program inApplication spot.next tokens) : From limits program inApplication spot (t :: tokens) := by
  cases spot with
  | top => cases ht
  | applicator first =>
    cases first with
    | false => exact .moreItems (derives_item_of_token ht) h
    | true => exact ⟨[t], tokens, rfl, derives_accessor_of_token ht, h⟩
  | loop first =>
    cases first with
    | false => exact .moreItems (derives_item_of_token ht) h
    | true => exact ⟨[t], tokens, rfl, derives_accessor_of_token ht, h⟩

theorem from_of_bracket {spot : Spot} {first tokens : List Token} (hspot : spot.isFirst = false)
    (hfirst : bracket.Derives limits program inApplication first) (h : From limits program inApplication spot.next tokens) :
    From limits program inApplication spot (first ++ tokens) := by
  rw [next_eq_of_isFirst hspot] at h
  cases spot with
  | top => exact .moreBrackets hfirst h
  | applicator isFirst =>
    obtain rfl : isFirst = false := hspot
    exact .moreItems (.nested hfirst) h
  | loop isFirst =>
    obtain rfl : isFirst = false := hspot
    exact .moreItems (.nested hfirst) h

theorem from_of_applicator {spot : Spot} {first tokens : List Token}
    (hfirst : applicator.Derives limits program inApplication first)
    (h : From limits program inApplication spot.next tokens) : From limits program inApplication spot (first ++ tokens) := by
  cases hspot : spot.isFirst with
  | false => exact from_of_bracket hspot (.ofApplicator hfirst) h
  | true =>
    cases spot with
    | top => cases hspot
    | applicator isFirst =>
      obtain rfl : isFirst = true := hspot
      exact ⟨first, tokens, rfl, .indirect hfirst, h⟩
    | loop isFirst =>
      obtain rfl : isFirst = true := hspot
      exact ⟨first, tokens, rfl, .indirect hfirst, h⟩

theorem from_of_fits (forest : Forest) {spot : Spot}
    (h : forest.fits (translatable limits program inApplication) spot = true) :
    From limits program inApplication spot forest.tokens := by
  induction forest generalizing spot with
  | nil =>
    cases spot with
    | top => exact .noBracket
    | applicator first =>
      cases first with
      | false => exact .noItem
      | true => cases h
    | loop first =>
      cases first with
      | false => exact .noItem
      | true => cases h
  | token t plain rest ih =>
    obtain ⟨ht, hrest⟩ := Bool.and_eq_true_iff.1 h
    exact from_of_token ht (ih hrest)
  | applicator inner rest ihInner ihRest =>
    obtain ⟨-, hfits⟩ := Bool.and_eq_true_iff.1 h
    obtain ⟨hinner, hrest⟩ := Bool.and_eq_true_iff.1 hfits
    have hfrom := from_of_applicator (derives_applicator (ihInner hinner)) (ihRest hrest)
    simpa [Forest.tokens] using hfrom
  | conditional inner rest ihInner ihRest =>
    obtain ⟨hspot, hfits⟩ := Bool.and_eq_true_iff.1 h
    obtain ⟨hinner, hrest⟩ := Bool.and_eq_true_iff.1 hfits
    have hfirst : spot.isFirst = false := by simpa using hspot
    have hfrom := from_of_bracket hfirst (derives_conditional (ihInner hinner)) (ihRest hrest)
    simpa [Forest.tokens] using hfrom

/-- The bodies of the grammar are the streams that close and whose forests keep to `translatable`. -/
theorem derives_body_iff {tokens : List Token} :
    body.Derives limits program inApplication tokens ↔
      Closes [] tokens ∧ (Forest.ofTokens tokens).fits (translatable limits program inApplication) .top = true := by
  constructor
  · intro h
    obtain ⟨forest, htokens, hfits⟩ := exists_forest h .nil
    obtain rfl : forest.tokens = tokens := by simpa [Forest.tokens] using htokens
    refine ⟨?_, ?_⟩
    · simpa using forest.closes_tokens_append Closes.nil
    · rw [Forest.ofTokens_tokens]
      exact hfits .top rfl rfl
  · rintro ⟨hcloses, hfits⟩
    have hfrom := from_of_fits _ hfits
    rwa [Forest.tokens_ofTokens hcloses] at hfrom

end

end Phrase

/-! ## Sentences can be written -/

namespace Generator
variable {limits : Limits} {inApplication : Bool}

section
variable {P : Stop → Prop} (hP : ∀ error : Error, error.IsUnstructured → P (.fault error))
include hP

theorem address_ends (e : Expr) : (address limits e).Ends P fun _ => True := by
  cases e with
  | literal value =>
    have hcheck : (Action.ofExcept (limits.checkAddress value) : Action Generator Nat).Ends P fun _ => True := by
      refine Action.ends_mono (fun _ => id) (fun _ _ => trivial) (Action.ends_ofExcept fun error herror => ?_)
      rw [(Limits.checkAddress_eq_error herror).1]
      exact hP _ fun _ heq => by cases heq
    refine Action.ends_bind (Q := fun _ => True) (Action.ends_bind hcheck fun _ _ => ?_) fun _ _ => ?_
    · exact Action.ends_pure trivial
    · exact Action.ends_pure trivial
  | parameter => exact Action.ends_pure trivial
  | cell index => exact Action.ends_pure trivial

omit hP in
theorem applyBuiltin_ends (address : Expr) (op : Builtin) : (applyBuiltin address op).Ends P fun _ => True := by
  cases op <;> exact fun _ => trivial

/-- Writing takes no fuel besides that of the pass, and its operations add no fault of structure. -/
theorem backend_stopsOnly : (backend limits inApplication).StopsOnly P where
  literal _ := Action.ends_pure trivial
  parameter := by
    cases inApplication with
    | true => exact Action.ends_pure trivial
    | false => exact Action.ends_fault (hP _ fun _ heq => by cases heq)
  resolveAccessor value := address_ends hP value
  applyBuiltin := applyBuiltin_ends
  assign _ _ := fun _ => trivial
  call _ _ := fun _ => trivial
  resolve _ := Action.ends_pure trivial
  enterLoop := fun _ => trivial
  testLoop _ := fun _ => trivial
  exitLoop _ := fun _ => trivial

end

/-- The first of two actions stops for a lack of fuel only. -/
def unrefused : Relator Generator Generator := Action.ending (· = .outOfFuel) rfl

/-- The value of an applicator as it is written. -/
def isCell (value _ : Expr) : Prop := ∃ address : Expr, value = address.cell

theorem address_unrefused {value : Int64} (h : (limits.checkAddress value).isOk = true) :
    (address limits (.literal value)).Ends (· = .outOfFuel) fun _ => ∃ _ : Expr, True := by
  intro generator
  cases hcheck : limits.checkAddress value with
  | ok index =>
    rw [address, hcheck]
    exact ⟨.parameter, trivial⟩
  | error error =>
    rw [hcheck] at h
    cases h

variable {program : Program}

theorem backend_follows :
    (backend limits inApplication).Follows unrefused (translatable limits program inApplication) isCell
      (fun _ _ => True) program (backend limits inApplication) where
  accessor t ht := by
    cases t with
    | literal value => exact address_unrefused ht
    | parameter =>
      obtain rfl : inApplication = true := ht
      exact fun _ => ⟨.parameter, trivial⟩
    | _ => cases ht
  resolveAccessor v w _ hvalue := by
    obtain ⟨index, rfl⟩ := hvalue
    exact fun _ => ⟨.parameter, trivial⟩
  applyToken t a a' ht _ := by
    cases t with
    | builtin op => exact Action.ends_mono (fun _ => id) (fun _ _ => ⟨(), rfl⟩) (applyBuiltin_ends a op)
    | literal value => exact fun _ => ⟨(), rfl⟩
    | parameter =>
      obtain rfl : inApplication = true := ht
      exact fun _ => ⟨(), rfl⟩
    | identifier name =>
      change Action.Ends (if program.isApplication name then emit (.call name a) else _) _ _
      rw [if_pos (show program.isApplication name = true from ht)]
      exact fun _ => ⟨(), rfl⟩
    | _ => cases ht
  assign a a' v w _ _ _ := fun _ => ⟨(), rfl⟩
  resolve a a' _ := fun _ => ⟨.parameter, a, rfl⟩

theorem backend_loopsFollow (fuel : Nat) :
    (backend limits inApplication).LoopsFollow unrefused (unrefused.Rel Eq) (fun _ _ => True) fuel fuel
      (backend limits inApplication) :=
  Backend.LoopsFollow.of_operations (fun _ => ⟨(), rfl⟩) (fun _ _ _ _ => ⟨_, rfl⟩) (fun _ _ _ _ => ⟨_, rfl⟩) fuel

/-- A body that closes and keeps to the grammar can be written, with a unit of fuel for each token. -/
theorem exists_generate_of_fits {body : List Token} (hcloses : Closes [] body)
    (hfits : (Forest.ofTokens body).fits (translatable limits program inApplication) .top = true) :
    ∃ generator, generate limits program inApplication body = .ok () generator := by
  have hforest := Forest.evaluate_related backend_follows (backend_loopsFollow body.length) hfits {}
  have hcompletes : Outcome _ _ (generate limits program inApplication body) :=
    Pass.run_completes (backend_straight limits inApplication) (backend_stopsOnly fun _ _ => Stop.noConfusion) body.length
      { rest := body } (Nat.le_refl _) {}
  have hbelow := Forest.evaluate_below program (Backend.alike_below_refl (backend limits inApplication)) hcloses
    (Nat.le_refl body.length) {}
  change Exhausted (generate limits program inApplication body) ∨ generate limits program inApplication body = _ at hbelow
  cases hgenerate : generate limits program inApplication body with
  | ok _ generator => exact ⟨generator, rfl⟩
  | error stop generator =>
    rw [hgenerate] at hcompletes hbelow
    have hstop : stop ≠ .outOfFuel := hcompletes
    rcases hbelow with hexhausted | heq
    · cases stop with
      | fault error => exact hexhausted.elim
      | outOfFuel => exact absurd rfl hstop
    · rw [← heq] at hforest
      exact absurd hforest hstop

end Generator

/-! ## Bodies that can be written -/

section
variable {limits : Limits} {program : Program} {inApplication : Bool} {body : List Token}

/-- However much fuel it took, what was written is a sentence. -/
theorem derives_of_evaluate {fuel : Nat} {generator : Generator}
    (h : evaluate (Generator.backend limits inApplication) program fuel body {} = .ok () generator) :
    Phrase.body.Derives limits program inApplication body := by
  have hcloses : Closes [] body := closes_of_evaluate (Generator.backend_straight limits inApplication) h
  have hbelow := Forest.evaluate_below program (Backend.alike_below_refl (Generator.backend limits inApplication)) hcloses
    (Nat.le_refl fuel) {}
  rw [h] at hbelow
  have heq := hbelow.resolve_left id
  exact Phrase.derives_body_iff.2 ⟨hcloses, Generator.evaluate_gives program fuel _ _ _ _ heq.symm⟩

theorem exists_generate_of_derives (h : Phrase.body.Derives limits program inApplication body) :
    ∃ generator, generate limits program inApplication body = .ok () generator := by
  obtain ⟨hcloses, hfits⟩ := Phrase.derives_body_iff.1 h
  exact Generator.exists_generate_of_fits hcloses hfits

end

/-- A body can be written in C exactly if it is a sequence of brackets of the grammar, and no fuel would let another one be written.
Such a body is well nested and defines nothing. -/
theorem generate_ok_iff_derives (limits : Limits) (program : Program) (inApplication : Bool) (body : List Token) :
    ((∃ generator, generate limits program inApplication body = .ok () generator) ↔
        Phrase.body.Derives limits program inApplication body) ∧
      ((∃ fuel generator, evaluate (Generator.backend limits inApplication) program fuel body {} = .ok () generator) ↔
        Phrase.body.Derives limits program inApplication body) ∧
      ((∃ generator, generate limits program inApplication body = .ok () generator) →
        checkBrackets body = .ok () ∧ ∀ t ∈ body, t.isBrace = false) := by
  have hderives : (∃ generator, generate limits program inApplication body = .ok () generator) →
      Phrase.body.Derives limits program inApplication body := fun ⟨_, h⟩ => derives_of_evaluate h
  refine ⟨⟨hderives, exists_generate_of_derives⟩, ⟨fun ⟨_, _, h⟩ => derives_of_evaluate h, fun h => ?_⟩, fun h => ?_⟩
  · obtain ⟨generator, hgenerate⟩ := exists_generate_of_derives h
    exact ⟨body.length, generator, hgenerate⟩
  · have hcloses := (Phrase.derives_body_iff.1 (hderives h)).1
    exact ⟨(closes_iff.1 hcloses).1, hcloses.isBrace_eq_false List.not_mem_nil⟩

/-- A conditional on an indirect address that calls an application and stores the argument. -/
theorem generate_ok_iff_derives_of_call :
    let program : Program := ⟨[(entryName, []), ("inc", [])]⟩
    let body : List Token := [.opening .conditional, .opening .applicator, .literal 0, .closing .applicator,
      .identifier "inc", .parameter, .closing .conditional]
    Phrase.body.Derives {} program true body ∧ checkBrackets body = .ok () ∧ ∀ t ∈ body, t.isBrace = false := by
  intro program body
  have hgenerate : ∃ generator, generate {} program true body = .ok () generator := ⟨_, rfl⟩
  obtain ⟨hiff, -, hnested⟩ := generate_ok_iff_derives {} program true body
  exact ⟨hiff.1 hgenerate, hnested hgenerate⟩

end Bracketry.CProgram

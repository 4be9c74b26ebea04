import Bracketry.Proofs.Checks
import Bracketry.Proofs.Forest

/-!
# Well-nested streams and the first fault of the others

`checkBrackets` keeps the open brackets and, apart from them, how many there are of each kind. What it accepts is a language
of bracket words; what it says of any other stream is decided by the shortest prefix that no word of the language starts with.

* `WellNested` : the language: plain tokens and brackets around a word again, definitions at the outermost level only;
* `openBrackets` : the brackets that a stream opens and does not close, innermost first;
* `Nesting.step_eq_error_iff`, `Nesting.counted_of_step` : one token is a fault by the open brackets alone, and the counts
  keep step with them;
* `wellNested_iff` : the streams that `checkBrackets` accepts;
* `Viable` : a stream that a word starts with; `viable_iff` says that these are the streams without a fault so far;
* `FaultOf`, `checkBrackets_spec` : the streams that are accepted, the fault of every other one, and the counts in between.
-/

namespace Bracketry

/-- The well-nested streams. `top` tells whether the stream stands at the outermost level, where definitions may stand. -/
inductive WellNested : (top : Bool) → List Token → Prop
  | nil {top : Bool} : WellNested top []
  | plain {top : Bool} {t : Token} {rest : List Token} (isPlain : t.isPlain = true) (hrest : WellNested top rest) :
      WellNested top (t :: rest)
  | bracket {top : Bool} {kind : Bracket} {inner rest : List Token} (hkind : kind = .definition → top = true)
      (hinner : WellNested false inner) (hrest : WellNested top rest) :
      WellNested top (.opening kind :: (inner ++ .closing kind :: rest))

def openAfter (opened : List Bracket) : Token → List Bracket
  | .opening kind => kind :: opened
  | .closing _ => opened.tail
  | _ => opened

/-- The brackets that a stream opens and does not close, innermost first. -/
def openBrackets (tokens : List Token) : List Bracket := tokens.foldl openAfter []

/-- The fault that a token is while these brackets are open. -/
inductive Blame : List Bracket → Token → BracketFault → Prop
  | nested {kind : Bracket} {opened : List Bracket} : Blame (kind :: opened) (.opening .definition) .nestedDefinition
  | surplus {kind : Bracket} : Blame [] (.closing kind) (.tooManyClosers kind)
  | mismatch {kind other : Bracket} {opened : List Bracket} (h : kind ≠ other) :
      Blame (kind :: opened) (.closing other) (.mismatched kind other)

/-! ## One token -/

namespace Nesting

variable {nesting next last : Nesting} {tokens : List Token} {t : Token} {kind : Bracket} {fault : BracketFault}

theorem of_ne_zero_iff (hcounted : nesting.Counted) : (nesting.depths.of kind != 0) = true ↔ kind ∈ nesting.openings := by
  rw [hcounted kind, bne_iff_ne, ← Nat.pos_iff_ne_zero, List.count_pos_iff]

theorem anyOpen_iff (hcounted : nesting.Counted) : nesting.depths.anyOpen = true ↔ nesting.openings ≠ [] := by
  rw [Depths.anyOpen, List.any_eq_true]
  constructor
  · rintro ⟨kind, -, hkind⟩
    exact List.ne_nil_of_mem ((of_ne_zero_iff hcounted).1 hkind)
  · intro hopen
    obtain ⟨kind, hkind⟩ := List.exists_mem_of_ne_nil _ hopen
    exact ⟨kind, kind.mem_all, (of_ne_zero_iff hcounted).2 hkind⟩

theorem push_eq_error_iff (hcounted : nesting.Counted) :
    nesting.push kind = .error fault ↔ Blame nesting.openings (.opening kind) fault := by
  unfold push
  split
  · next h =>
    obtain ⟨rfl, hany⟩ := h
    obtain ⟨kind, opened, hopenings⟩ := List.exists_cons_of_ne_nil ((anyOpen_iff hcounted).1 hany)
    rw [hopenings]
    exact ⟨fun heq => Except.error.inj heq ▸ .nested, fun hblame => by cases hblame; rfl⟩
  · next h =>
    refine ⟨nofun, fun hblame => ?_⟩
    generalize hopenings : nesting.openings = opened at hblame
    cases hblame
    exact absurd ⟨rfl, (anyOpen_iff hcounted).2 (hopenings ▸ List.cons_ne_nil _ _)⟩ h

theorem pop_eq_error_iff (hcounted : nesting.Counted) :
    nesting.pop kind = .error fault ↔ Blame nesting.openings (.closing kind) fault := by
  unfold pop
  split
  · next hopenings =>
    rw [hopenings]
    exact ⟨fun heq => Except.error.inj heq ▸ .surplus, fun hblame => by cases hblame; rfl⟩
  · next other opened hopenings =>
    rw [hopenings]
    split
    · next hne => exact ⟨fun heq => Except.error.inj heq ▸ .mismatch hne, fun hblame => by cases hblame; rfl⟩
    · next heq =>
      obtain rfl : other = kind := Decidable.of_not_not heq
      split
      · next hzero =>
        -- the innermost open bracket is counted
        have hcount := hcounted other
        rw [hopenings, List.count_cons_self, hzero] at hcount
        cases hcount
      · exact ⟨nofun, fun hblame => by cases hblame; contradiction⟩

/-- Whether a token is a fault, and which, is decided by the open brackets alone. -/
theorem step_eq_error_iff (hcounted : nesting.Counted) : nesting.step t = .error fault ↔ Blame nesting.openings t fault := by
  cases t with
  | opening kind => exact push_eq_error_iff hcounted
  | closing kind => exact pop_eq_error_iff hcounted
  | _ =>
    refine ⟨fun h => (by cases h), fun hblame => ?_⟩
    generalize nesting.openings = opened at hblame
    cases hblame

theorem counted_of_step (hcounted : nesting.Counted) (h : nesting.step t = .ok next) :
    next.openings = openAfter nesting.openings t ∧ next.Counted := by
  cases t with
  | opening kind => exact counted_of_push hcounted h
  | closing kind =>
    obtain ⟨hopenings, hnext⟩ := counted_of_pop hcounted h
    exact ⟨(congrArg List.tail hopenings).symm, hnext⟩
  | _ =>
    obtain rfl := Except.ok.inj h
    exact ⟨rfl, hcounted⟩

theorem exists_step_of_not_blame (hcounted : nesting.Counted) (h : ∀ fault, ¬Blame nesting.openings t fault) :
    ∃ next, nesting.step t = .ok next := by
  cases hstep : nesting.step t with
  | error fault => exact absurd ((step_eq_error_iff hcounted).1 hstep) (h fault)
  | ok next => exact ⟨next, rfl⟩

theorem finish_eq_error_iff (hcounted : nesting.Counted) :
    nesting.finish = .error fault ↔ ∃ kind, Bracket.all.find? (· ∈ nesting.openings) = some kind ∧ fault = .unterminated kind := by
  have hopen : (fun kind => nesting.depths.of kind != 0) = fun kind => decide (kind ∈ nesting.openings) :=
    funext fun kind => Bool.eq_iff_iff.2 ((of_ne_zero_iff hcounted).trans decide_eq_true_iff.symm)
  rw [finish, hopen]
  split
  · next kind hfind =>
    rw [hfind]
    constructor
    · exact fun heq => ⟨kind, rfl, (Except.error.inj heq).symm⟩
    · rintro ⟨_, hsome, rfl⟩
      cases hsome
      rfl
  · next hfind =>
    rw [hfind]
    exact ⟨fun h => (by cases h), fun ⟨_, hnone, _⟩ => (by cases hnone)⟩

/-! ## All tokens -/

theorem counted_of_foldlM (hcounted : nesting.Counted) (h : tokens.foldlM step nesting = .ok last) :
    last.openings = tokens.foldl openAfter nesting.openings ∧ last.Counted := by
  induction tokens generalizing nesting with
  | nil =>
    obtain rfl := Except.ok.inj h
    exact ⟨rfl, hcounted⟩
  | cons t tokens ih =>
    rw [List.foldlM_cons] at h
    obtain ⟨next, hstep, hrest⟩ := bind_eq_ok_iff.1 h
    obtain ⟨hnext, hcounted'⟩ := counted_of_step hcounted hstep
    rw [List.foldl_cons, ← hnext]
    exact ih hcounted' hrest

/-- At every place that is reached, the open brackets are those of the stream so far, and the depths count them. -/
theorem openings_of_foldlM (h : tokens.foldlM step {} = .ok last) : last.openings = openBrackets tokens ∧ last.Counted :=
  counted_of_foldlM counted_empty h

end Nesting

/-! ## The streams that are accepted -/

variable {tokens : List Token}

theorem foldlM_of_wellNested {top : Bool} (h : WellNested top tokens) {nesting : Nesting} (hcounted : nesting.Counted)
    (htop : top = true → nesting.openings = []) :
    ∃ next, tokens.foldlM Nesting.step nesting = .ok next ∧ next.openings = nesting.openings ∧ next.Counted := by
  induction h generalizing nesting with
  | nil => exact ⟨nesting, rfl, rfl, hcounted⟩
  | @plain top t rest isPlain hrest ih =>
    have hstep : nesting.step t = .ok nesting := by
      cases t with
      | opening kind => cases isPlain
      | closing kind => cases isPlain
      | _ => rfl
    rw [List.foldlM_cons, hstep]
    exact ih hcounted htop
  | @bracket top kind inner rest hkind hinner hrest ihInner ihRest =>
    have hfree : ∀ fault, ¬Blame nesting.openings (.opening kind) fault := fun fault hblame => by
      generalize hopenings : nesting.openings = opened at hblame
      cases hblame
      exact List.cons_ne_nil _ _ (hopenings.symm.trans (htop (hkind rfl)))
    obtain ⟨opened, hopen⟩ := Nesting.exists_step_of_not_blame hcounted hfree
    obtain ⟨hopened, hcounted₁⟩ := Nesting.counted_of_step hcounted hopen
    obtain ⟨filled, hfill, hfilled, hcounted₂⟩ := ihInner hcounted₁ nofun
    have hinnermost : filled.openings = kind :: nesting.openings := hfilled.trans hopened
    obtain ⟨closed, hclose⟩ := Nesting.exists_pop_of_openings hcounted₂ hinnermost
    obtain ⟨hclosed, hcounted₃⟩ := Nesting.counted_of_step (t := .closing kind) hcounted₂ hclose
    have hagain : closed.openings = nesting.openings := by rw [hclosed, hinnermost]; rfl
    obtain ⟨last, hrun, hlast, hcounted₄⟩ := ihRest hcounted₃ fun h => hagain.trans (htop h)
    refine ⟨last, ?_, hlast.trans hagain, hcounted₄⟩
    simp only [List.foldlM_cons, List.foldlM_append, bind_eq_ok_iff]
    exact ⟨opened, hopen, filled, hfill, closed, hclose, hrun⟩

/-- The stream completes the open brackets, innermost first: what it holds before each closing bracket is well nested. -/
def Completes : List Bracket → List Token → Prop
  | [], tokens => WellNested true tokens
  | kind :: opened, tokens =>
    ∃ inner rest, tokens = inner ++ .closing kind :: rest ∧ WellNested false inner ∧ Completes opened rest

theorem Completes.plain {opened : List Bracket} {t : Token} (isPlain : t.isPlain = true) (h : Completes opened tokens) :
    Completes opened (t :: tokens) := by
  cases opened with
  | nil => exact WellNested.plain isPlain h
  | cons kind opened =>
    obtain ⟨inner, rest, rfl, hinner, hrest⟩ := h
    exact ⟨t :: inner, rest, rfl, .plain isPlain hinner, hrest⟩

theorem Completes.closing {opened : List Bracket} (kind : Bracket) (h : Completes opened tokens) :
    Completes (kind :: opened) (.closing kind :: tokens) :=
  ⟨[], tokens, rfl, .nil, h⟩

theorem Completes.opening {opened : List Bracket} {kind : Bracket} (hkind : kind = .definition → opened = [])
    (h : Completes (kind :: opened) tokens) : Completes opened (.opening kind :: tokens) := by
  obtain ⟨inner, rest, rfl, hinner, hrest⟩ := h
  cases opened with
  | nil => exact WellNested.bracket (fun _ => rfl) hinner hrest
  | cons around opened =>
    obtain ⟨beside, rest, rfl, hbeside, hrest⟩ := hrest
    refine ⟨.opening kind :: (inner ++ .closing kind :: beside), rest, by simp, ?_, hrest⟩
    exact .bracket (fun heq => absurd (hkind heq) (List.cons_ne_nil _ _)) hinner hbeside

theorem completes_of_foldlM {nesting last : Nesting} (hcounted : nesting.Counted)
    (hrun : tokens.foldlM Nesting.step nesting = .ok last) (hlast : last.openings = []) : Completes nesting.openings tokens := by
  induction tokens generalizing nesting with
  | nil =>
    obtain rfl := Except.ok.inj hrun
    rw [hlast]
    exact WellNested.nil
  | cons t tokens ih =>
    rw [List.foldlM_cons] at hrun
    obtain ⟨next, hstep, hrest⟩ := bind_eq_ok_iff.1 hrun
    obtain ⟨hnext, hcounted'⟩ := Nesting.counted_of_step hcounted hstep
    have hcompletes := ih hcounted' hrest
    cases t with
    | opening kind =>
      rw [hnext] at hcompletes
      refine hcompletes.opening fun hkind => ?_
      obtain rfl := hkind
      cases hopenings : nesting.openings with
      | nil => rfl
      | cons around opened =>
        have hblame : Blame nesting.openings (.opening .definition) .nestedDefinition := hopenings ▸ .nested
        cases hstep.symm.trans ((Nesting.step_eq_error_iff hcounted).2 hblame)
    | closing kind =>
      rw [(Nesting.counted_of_pop hcounted hstep).1]
      exact hcompletes.closing kind
    | _ =>
      rw [hnext] at hcompletes
      exact hcompletes.plain rfl

/-- `checkBrackets` accepts the well-nested streams. -/
theorem wellNested_iff : WellNested true tokens ↔ checkBrackets tokens = .ok () := by
  constructor
  · intro h
    obtain ⟨last, hrun, hlast, hcounted⟩ := foldlM_of_wellNested h Nesting.counted_empty fun _ => rfl
    exact bind_eq_ok_iff.2 ⟨last, hrun, Nesting.finish_of_openings_eq_nil hcounted hlast⟩
  · intro h
    obtain ⟨last, hrun, hfinish⟩ := bind_eq_ok_iff.1 h
    obtain ⟨-, hcounted⟩ := Nesting.openings_of_foldlM hrun
    exact completes_of_foldlM Nesting.counted_empty hrun (Nesting.openings_eq_nil_of_finish hcounted hfinish)

/-! ## The first fault -/

def Viable (tokens : List Token) : Prop := ∃ after, WellNested true (tokens ++ after)

/-- Whatever is open can be closed. -/
theorem exists_foldlM_closing {nesting : Nesting} (hcounted : nesting.Counted) :
    ∃ last, (nesting.openings.map Token.closing).foldlM Nesting.step nesting = .ok last ∧ last.finish = .ok () := by
  generalize hopenings : nesting.openings = opened
  induction opened generalizing nesting with
  | nil => exact ⟨nesting, rfl, Nesting.finish_of_openings_eq_nil hcounted hopenings⟩
  | cons kind opened ih =>
    obtain ⟨next, hpop⟩ := Nesting.exists_pop_of_openings hcounted hopenings
    obtain ⟨hnext, hcounted'⟩ := Nesting.counted_of_pop hcounted hpop
    obtain ⟨last, hrun, hfinish⟩ := ih hcounted' (List.cons.inj (hnext.symm.trans hopenings)).2
    refine ⟨last, ?_, hfinish⟩
    rw [List.map_cons, List.foldlM_cons]
    exact bind_eq_ok_iff.2 ⟨next, hpop, hrun⟩

/-- The streams that can be continued are those without a fault so far. -/
theorem viable_iff : Viable tokens ↔ ∃ nesting, tokens.foldlM Nesting.step {} = .ok nesting := by
  constructor
  · rintro ⟨after, h⟩
    obtain ⟨last, hrun, -⟩ := bind_eq_ok_iff.1 (wellNested_iff.1 h)
    rw [List.foldlM_append] at hrun
    obtain ⟨nesting, hrun, -⟩ := bind_eq_ok_iff.1 hrun
    exact ⟨nesting, hrun⟩
  · rintro ⟨nesting, hrun⟩
    obtain ⟨-, hcounted⟩ := Nesting.openings_of_foldlM hrun
    obtain ⟨last, hclose, hfinish⟩ := exists_foldlM_closing hcounted
    refine ⟨nesting.openings.map .closing, wellNested_iff.2 (bind_eq_ok_iff.2 ⟨last, ?_, hfinish⟩)⟩
    rw [List.foldlM_append]
    exact bind_eq_ok_iff.2 ⟨nesting, hrun, hclose⟩

theorem Viable.shorter {before : List Token} (h : Viable tokens) (hbefore : before <+: tokens) : Viable before := by
  obtain ⟨after, h⟩ := h
  obtain ⟨between, rfl⟩ := hbefore
  exact ⟨between ++ after, by rwa [← List.append_assoc]⟩

inductive FaultOf (tokens : List Token) : BracketFault → Prop
  /-- The shortest prefix that no well-nested stream starts with ends with a token that is a fault. -/
  | deadEnd {before after : List Token} {t : Token} {fault : BracketFault} (heq : tokens = before ++ t :: after)
      (hbefore : ∀ shorter, shorter <+: before → Viable shorter) (hdead : ¬Viable (before ++ [t]))
      (hblame : Blame (openBrackets before) t fault) : FaultOf tokens fault
  /-- Every prefix can be continued, and of the kinds of bracket that are open at the end this is the first. -/
  | unfinished {kind : Bracket} (hviable : ∀ before, before <+: tokens → Viable before)
      (hopen : Bracket.all.find? (· ∈ openBrackets tokens) = some kind) : FaultOf tokens (.unterminated kind)

theorem checkBrackets_eq_error_iff {fault : BracketFault} : checkBrackets tokens = .error fault ↔ FaultOf tokens fault := by
  constructor
  · intro h
    rcases bind_eq_error_iff.1 h with hrun | ⟨last, hrun, hfinish⟩
    · obtain ⟨before, t, after, nesting, rfl, hbefore, hstep⟩ := foldlM_eq_error_iff.1 hrun
      obtain ⟨hopenings, hcounted⟩ := Nesting.openings_of_foldlM hbefore
      refine .deadEnd rfl (fun shorter => (viable_iff.2 ⟨nesting, hbefore⟩).shorter) (fun hviable => ?_)
        (hopenings ▸ (Nesting.step_eq_error_iff hcounted).1 hstep)
      obtain ⟨last, hlast⟩ := viable_iff.1 hviable
      rw [List.foldlM_append, hbefore] at hlast
      have hfault : [t].foldlM Nesting.step nesting = .error fault := by
        rw [List.foldlM_cons]
        exact bind_eq_error_iff.2 (.inl hstep)
      cases hfault.symm.trans hlast
    · obtain ⟨hopenings, hcounted⟩ := Nesting.openings_of_foldlM hrun
      obtain ⟨kind, hopen, rfl⟩ := (Nesting.finish_eq_error_iff hcounted).1 hfinish
      exact .unfinished (fun before => (viable_iff.2 ⟨last, hrun⟩).shorter) (hopenings ▸ hopen)
  · rintro (⟨rfl, hbefore, -, hblame⟩ | ⟨hviable, hopen⟩)
    · obtain ⟨nesting, hrun⟩ := viable_iff.1 (hbefore _ List.prefix_rfl)
      obtain ⟨hopenings, hcounted⟩ := Nesting.openings_of_foldlM hrun
      refine bind_eq_error_iff.2 (.inl (foldlM_eq_error_iff.2 ⟨_, _, _, nesting, rfl, hrun, ?_⟩))
      exact (Nesting.step_eq_error_iff hcounted).2 (hopenings ▸ hblame)
    · obtain ⟨last, hrun⟩ := viable_iff.1 (hviable _ List.prefix_rfl)
      obtain ⟨hopenings, hcounted⟩ := Nesting.openings_of_foldlM hrun
      exact bind_eq_error_iff.2 (.inr ⟨last, hrun, (Nesting.finish_eq_error_iff hcounted).2 ⟨_, hopenings ▸ hopen, rfl⟩⟩)

/-- The streams that are accepted and the fault of every other one. At every place that is reached the depths count the open
brackets, so that a closing bracket of the innermost kind always finds one to count down. -/
theorem checkBrackets_spec (tokens : List Token) :
    (checkBrackets tokens = .ok () ↔ WellNested true tokens) ∧
    (∀ fault, checkBrackets tokens = .error fault ↔ FaultOf tokens fault) ∧
    ∀ before after nesting, tokens = before ++ after → before.foldlM Nesting.step {} = .ok nesting →
      nesting.openings = openBrackets before ∧ (∀ kind, nesting.depths.of kind = nesting.openings.count kind) ∧
      ∀ kind opened, nesting.openings = kind :: opened → nesting.depths.of kind ≠ 0 := by
  refine ⟨wellNested_iff.symm, fun fault => checkBrackets_eq_error_iff, ?_⟩
  rintro before after nesting - hrun
  obtain ⟨hopenings, hcounted⟩ := Nesting.openings_of_foldlM hrun
  refine ⟨hopenings, hcounted, fun kind opened heq => ?_⟩
  rw [hcounted kind, heq, List.count_cons_self]
  exact Nat.succ_ne_zero _

/-- In `[(])` the closing square bracket is the fault; before it one bracket of either kind is open. -/
theorem checkBrackets_spec_of_crossed :
    FaultOf [.opening .applicator, .opening .conditional, .closing .applicator, .closing .conditional]
      (.mismatched .conditional .applicator) ∧
    openBrackets [.opening .applicator, .opening .conditional] = [.conditional, .applicator] ∧
    WellNested true [.opening .definition, .identifier "f", .opening .applicator, .closing .applicator, .closing .definition,
      .opening .conditional, .literal 0, .closing .conditional] := by
  obtain ⟨-, hfault, hcounts⟩ :=
    checkBrackets_spec [.opening .applicator, .opening .conditional, .closing .applicator, .closing .conditional]
  obtain ⟨hopenings, -, -⟩ := hcounts [.opening .applicator, .opening .conditional] _
    ⟨[.conditional, .applicator], ⟨1, 1, 0⟩⟩ rfl rfl
  exact ⟨(hfault _).1 rfl, hopenings.symm, (checkBrackets_spec _).1.1 rfl⟩

end Bracketry

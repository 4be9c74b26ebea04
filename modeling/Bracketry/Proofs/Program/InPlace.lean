import Bracketry.Proofs.Program.Extraction
import Mathlib.Algebra.GroupWithZero.Nat

/-!
# Definitions taken out in place

The definitions of a stream can be taken out of it while one pass goes over it. An index moves on from token to token, and the place of
the last opening brace is remembered. At a closing brace the span from there is taken out, and the index goes back to where the span
began. Nothing is assumed of the stream: braces may be nested, unclosed or without an opening one.

* `Definition.drain?`, `Definition.nameAt` : a span taken out of a stream, and the name of a definition by its place;
* `Definition.cases_of_stream` : a stream begins with a whole definition, or with a closing brace that closes nothing, or ends none;
* `Program.collect_append` : what stands in front of a stream does not take part when its definitions are collected;
* `Program.exists_sections_of_collect` : the sections that a stream falls into then;
* `Sweep` : the pass with its index; `Sweep.round` is one step of it, in which every place that is looked at is checked;
* `Sweep.At` : what a sweep has kept, the definition that it may be in, and what it has not read; `Sweep.round_of_at` says that a round
  reads one token and does not change what the sweep comes to;
* `Program.ofTokens_in_place` : a sweep ends with the program of the stream and never looks outside of it, and the stream can be put
  together again from that program.
-/

namespace Bracketry

namespace Definition

variable {tokens : List Token}

/-! ## Spans -/

/-- The tokens from one place to another, both of them included, and the stream without them. There are none if the places are out of
order or outside of the stream. -/
def drain? (first last : Nat) (tokens : List Token) : Option (List Token × List Token) :=
  if first ≤ last + 1 ∧ last < tokens.length then
    some ((tokens.take (last + 1)).drop first, tokens.take first ++ tokens.drop (last + 1))
  else none

def nameAt (place : Nat) (tokens : List Token) : Except Error String :=
  match tokens[place]? with
  | some (.identifier name) => .ok name
  | some (.closing .definition) | none => .error (.invalidName "")
  | some token => .error (.invalidName token.text)

theorem drain?_append (kept rest : List Token) {span : List Token} {n : Nat} (hspan : span.length = n + 1) :
    drain? kept.length (kept.length + n) (kept ++ (span ++ rest)) = some (span, kept ++ rest) := by
  have hplaces : kept.length ≤ kept.length + n + 1 ∧ kept.length + n < (kept ++ (span ++ rest)).length := by
    simp only [List.length_append, hspan]
    omega
  have hlast : kept.length + n + 1 = kept.length + span.length := by omega
  rw [drain?, if_pos hplaces, hlast, List.take_length_add_append, List.drop_length_add_append, List.drop_left, List.take_left,
    List.take_left, List.drop_left]

theorem nameAt_append (kept : List Token) (t : Token) (rest : List Token) :
    nameAt (kept.length + 1) (kept ++ t :: rest) = nameAt 0 rest := by
  rw [nameAt, List.getElem?_append_right (by omega), Nat.add_sub_cancel_left, List.getElem?_cons_succ]
  rfl

/-! ## Braces of a stream -/

theorem exists_last_of_mem {token : Token} (h : token ∈ tokens) :
    ∃ before after, tokens = before ++ token :: after ∧ token ∉ after := by
  obtain ⟨after, before, hreverse, hmem⟩ := List.eq_append_cons_of_mem (List.mem_reverse.2 h)
  refine ⟨before.reverse, after.reverse, ?_, by simpa using hmem⟩
  rw [← List.reverse_reverse tokens, hreverse]
  simp

theorem isBrace_eq_false_of_not_mem (hopener : .opening .definition ∉ tokens) (hcloser : .closing .definition ∉ tokens) :
    ∀ t ∈ tokens, t.isBrace = false := by
  intro t ht
  cases t with
  | opening kind => exact beq_false_of_ne fun heq => hopener (heq ▸ ht)
  | closing kind => exact beq_false_of_ne fun heq => hcloser (heq ▸ ht)
  | _ => rfl

theorem isBrace_eq_false_of_ne {t : Token} (hopener : t ≠ .opening .definition) (hcloser : t ≠ .closing .definition) :
    t.isBrace = false := by
  have halone : ∀ u ∈ [t], u.isBrace = false :=
    isBrace_eq_false_of_not_mem (by simp [Ne.symm hopener]) (by simp [Ne.symm hcloser])
  exact halone t List.mem_cons_self

/-- Either no definition ends in a stream, or the first that does has begun in it, or none has begun before the first closing brace. -/
theorem cases_of_stream (tokens : List Token) :
    .closing .definition ∉ tokens ∨
    (∃ leading inside rest, tokens = leading ++ .opening .definition :: (inside ++ .closing .definition :: rest) ∧
      .closing .definition ∉ leading ∧ ∀ t ∈ inside, t.isBrace = false) ∨
    ∃ read rest, tokens = read ++ .closing .definition :: rest ∧ ∀ t ∈ read, t.isBrace = false := by
  by_cases hmem : .closing .definition ∈ tokens
  · obtain ⟨read, rest, rfl, hread⟩ := List.eq_append_cons_of_mem hmem
    by_cases hopener : .opening .definition ∈ read
    · obtain ⟨leading, inside, rfl, hinside⟩ := exists_last_of_mem hopener
      rw [List.mem_append, not_or] at hread
      refine .inr (.inl ⟨leading, inside, rest, by simp, hread.1, ?_⟩)
      exact isBrace_eq_false_of_not_mem hinside fun hcloser => hread.2 (List.mem_cons_of_mem _ hcloser)
    · exact .inr (.inr ⟨read, rest, rfl, isBrace_eq_false_of_not_mem hopener hread⟩)
  · exact .inl hmem

end Definition

namespace Program
open Definition

variable {program result : Program} {tokens left : List Token}

/-! ## Collecting from any stream -/

theorem collect_of_unopened {read : List Token} (rest : List Token) (hread : ∀ t ∈ read, t.isBrace = false) :
    program.collect (read ++ .closing .definition :: rest) = .error (.structural .definitionNotOpened) := by
  rw [collect, splitAtFirst_append (not_mem_of_isBrace_eq_false _ rfl hread)]
  dsimp only
  rw [splitAtLast_of_not_mem (not_mem_of_isBrace_eq_false _ rfl hread)]

/-- What stands in front of a stream stays there when the definitions of the stream are collected, unless a definition begins in it
that the stream ends. -/
theorem collect_append {before : List Token} (hcloser : .closing .definition ∉ before)
    (hopener : .opening .definition ∉ before ∨ ∃ rest, tokens = .opening .definition :: rest) :
    program.collect (before ++ tokens) = (program.collect tokens).map fun (last, left) => (last, before ++ left) := by
  rcases cases_of_stream tokens with hnone | ⟨leading, inside, rest, rfl, hleading, hinside⟩ | ⟨read, rest, rfl, hread⟩
  · have hall : .closing .definition ∉ before ++ tokens := by simp [hcloser, hnone]
    rw [collect_of_not_mem hall, collect_of_not_mem hnone]
    rfl
  · have hall : .closing .definition ∉ before ++ leading := by simp [hcloser, hleading]
    rw [← List.append_assoc, collect_cut _ hall hinside, collect_cut _ hleading hinside]
    cases program.define inside with
    | error error => rfl
    | ok next =>
      change (next.collect rest >>= _) = (next.collect rest >>= _).map _
      cases next.collect rest with
      | error error => rfl
      | ok last => exact congrArg (fun left => Except.ok (last.1, left)) (List.append_assoc before leading last.2)
  · have hbefore : .opening .definition ∉ before := by
      rcases hopener with hbefore | ⟨more, heq⟩
      · exact hbefore
      · cases read with
        | nil => cases heq
        | cons t read =>
          obtain ⟨rfl, -⟩ := List.cons.inj heq
          cases hread _ List.mem_cons_self
    have hall : ∀ t ∈ before ++ read, t.isBrace = false := fun t ht =>
      (List.mem_append.1 ht).elim (isBrace_eq_false_of_not_mem hbefore hcloser t) (hread t)
    rw [← List.append_assoc, collect_of_unopened _ hall, collect_of_unopened _ hread]
    rfl

/-- The definitions that are collected from a stream are the sections that it falls into with what is left of it. -/
theorem exists_sections_of_collect (h : program.collect tokens = .ok (result, left)) :
    ∃ sections : Sections, sections.tokens = tokens ∧ sections.residue = left ∧
      sections.insides.foldlM define program = .ok result := by
  induction hlength : tokens.length using Nat.strongRecOn generalizing tokens program left with
  | ind length ih =>
    rcases cases_of_stream tokens with hnone | ⟨leading, inside, rest, rfl, hleading, hinside⟩ | ⟨read, rest, rfl, hread⟩
    · rw [collect_of_not_mem hnone] at h
      cases h
      exact ⟨⟨tokens, []⟩, Sections.tokens_nil tokens, List.append_nil tokens, rfl⟩
    · rw [collect_cut _ hleading hinside] at h
      obtain ⟨next, hdefine, h⟩ := bind_eq_ok_iff.1 h
      obtain ⟨⟨last, behind⟩, hcollect, heq⟩ := bind_eq_ok_iff.1 h
      cases heq
      have hshorter : rest.length < length := by
        rw [← hlength]
        simp only [List.length_append, List.length_cons]
        omega
      obtain ⟨⟨following, definitions⟩, rfl, rfl, hfold⟩ := ih _ hshorter hcollect rfl
      refine ⟨⟨leading, (inside, following) :: definitions⟩, Sections.tokens_cons _ _ _ _, rfl, ?_⟩
      exact bind_eq_ok_iff.2 ⟨next, hdefine, hfold⟩
    · rw [collect_of_unopened _ hread] at h
      cases h

end Program

/-! ## The pass -/

/-- A pass that takes the definitions out of a stream in place. -/
structure Sweep where
  program : Program
  /-- What there is of the stream, read or not. -/
  tokens : List Token
  /-- The place of the last opening brace, until a definition is taken out. -/
  opened : Option Nat := none
  index : Nat := 0

namespace Sweep
open Definition

inductive Ending where
  | finished (result : Except Error Program)
  /-- A place outside of the stream was to be looked at, or a span was to be shorter than nothing. -/
  | outOfBounds

def start (tokens : List Token) : Sweep := { program := .ofEntry [], tokens }

/-- What is left of the stream becomes the entry point. -/
def complete (program : Program) (left : List Token) : Except Error Program := do
  if left.any Token.isArgument then throw .argumentOutsideApplication
  return program.setEntry left

/-- Takes the definition out that began at a place and ends at the index. Two tokens of its span are its brace and its name, a third one
is the brace at its end. -/
def takeOut (sweep : Sweep) (opened : Nat) : Except Ending Sweep :=
  match nameAt (opened + 1) sweep.tokens with
  | .error error => .error (.finished (.error error))
  | .ok name =>
    match drain? opened sweep.index sweep.tokens with
    | none => .error .outOfBounds
    | some (span, left) =>
      if sweep.index < opened + 2 then .error .outOfBounds
      else
        let body := (span.drop 2).take (sweep.index - opened - 2)
        match sweep.program.insert name (body.map Token.bindParameter) with
        | .error error => .error (.finished (.error error))
        | .ok program => .ok { program, tokens := left, index := opened }

def round (sweep : Sweep) : Except Ending Sweep :=
  if sweep.index < sweep.tokens.length then
    match sweep.tokens[sweep.index]? with
    | none => .error .outOfBounds
    | some token =>
      if token = .opening .definition then .ok { sweep with opened := some sweep.index, index := sweep.index + 1 }
      else if token = .closing .definition then
        match sweep.opened with
        | none => .error (.finished (.error (.structural .definitionNotOpened)))
        | some opened => sweep.takeOut opened
      else .ok { sweep with index := sweep.index + 1 }
  else .error (.finished (complete sweep.program sweep.tokens))

def rounds : Nat → Sweep → Except Ending Sweep
  | 0, sweep => .ok sweep
  | n + 1, sweep => sweep.round >>= rounds n

/-- What a sweep has read of the definition that it is in, if it is in one: its opening brace, which is remembered by its place, and no
other brace. -/
inductive Pending (place : Nat) : Option Nat → List Token → Prop where
  | outside : Pending place none []
  | inside {read : List Token} (hread : ∀ t ∈ read, t.isBrace = false) : Pending place (some place) (.opening .definition :: read)

/-- The sweep has kept the first tokens, it has read the next ones of a definition that may end later, and it has not read the rest. -/
structure At (sweep : Sweep) (kept pending rest : List Token) : Prop where
  tokens : sweep.tokens = kept ++ (pending ++ rest)
  index : sweep.index = kept.length + pending.length
  pending : Pending kept.length sweep.opened pending

/-- The sweep is at the closing brace of a definition that began at a place and has a name. -/
structure EndsDefinition (sweep : Sweep) (place : Nat) : Prop where
  opened : sweep.opened = some place
  closer : sweep.tokens[sweep.index]? = some (.closing .definition)
  named : ∃ name, nameAt (place + 1) sweep.tokens = .ok name

/-- What a sweep comes to: the definitions are collected from what follows the tokens that it has kept. -/
def outcome (program : Program) (kept unread : List Token) : Except Error Program := do
  let (program, left) ← program.collect unread
  complete program (kept ++ left)

variable {sweep : Sweep} {kept pending rest : List Token}

theorem at_start (tokens : List Token) : (start tokens).At [] [] tokens := ⟨rfl, rfl, .outside⟩

theorem not_mem_of_pending {place : Nat} {opened : Option Nat} (h : Pending place opened pending) :
    .closing .definition ∉ pending := by
  cases h with
  | outside => exact List.not_mem_nil
  | inside hread => simp [Program.not_mem_of_isBrace_eq_false (.closing .definition) rfl hread]

theorem outcome_append {program : Program} {before unread : List Token} (hcloser : .closing .definition ∉ before)
    (hopener : .opening .definition ∉ before ∨ ∃ rest, unread = .opening .definition :: rest) :
    outcome program (kept ++ before) unread = outcome program kept (before ++ unread) := by
  unfold outcome
  rw [Program.collect_append hcloser hopener]
  cases program.collect unread with
  | error error => rfl
  | ok last => exact congrArg (complete last.1) (List.append_assoc kept before last.2)

/-- A whole definition is added, and the sweep comes to what follows from there. -/
theorem outcome_definition {program : Program} {read : List Token} (hread : ∀ t ∈ read, t.isBrace = false) :
    outcome program kept (.opening .definition :: read ++ .closing .definition :: rest) =
      program.define read >>= fun next => outcome next kept rest := by
  have hcut : program.collect (.opening .definition :: (read ++ .closing .definition :: rest)) = _ :=
    Program.collect_cut rest List.not_mem_nil hread
  unfold outcome
  rw [List.cons_append, hcut]
  cases program.define read with
  | error error => rfl
  | ok next =>
    change ((next.collect rest >>= _) >>= _) = (next.collect rest >>= _)
    cases next.collect rest <;> rfl

/-! ## One round -/

theorem round_eq {t : Token} (h : sweep.tokens[sweep.index]? = some t) :
    sweep.round =
      if t = .opening .definition then .ok { sweep with opened := some sweep.index, index := sweep.index + 1 }
      else if t = .closing .definition then
        match sweep.opened with
        | none => .error (.finished (.error (.structural .definitionNotOpened)))
        | some opened => sweep.takeOut opened
      else .ok { sweep with index := sweep.index + 1 } := by
  have hindex : sweep.index < sweep.tokens.length := (List.getElem?_eq_some_iff.1 h).1
  rw [round, if_pos hindex, h]

/-- What stands between two braces is taken out as a definition, or it is a reason to end. -/
theorem takeOut_eq {read : List Token} (htokens : sweep.tokens = kept ++ (.opening .definition :: (read ++ .closing .definition :: rest)))
    (hindex : sweep.index = kept.length + (read.length + 1)) (hread : ∀ t ∈ read, t.isBrace = false) :
    sweep.takeOut kept.length =
      match sweep.program.define read with
      | .error error => .error (.finished (.error error))
      | .ok program => .ok { program, tokens := kept ++ rest, index := kept.length } := by
  rw [takeOut, htokens, hindex, nameAt_append]
  cases read with
  | nil => rfl
  | cons t body =>
    cases t with
    | identifier name =>
      have hspan : (.opening .definition :: .identifier name :: (body ++ [.closing .definition]) : List Token).length =
          (.identifier name :: body : List Token).length + 1 + 1 := by simp
      have hdrain := drain?_append kept rest hspan
      have hbody : (body ++ [Token.closing .definition]).take (kept.length + (body.length + 1 + 1) - kept.length - 2) = body := by
        have hlength : kept.length + (body.length + 1 + 1) - kept.length - 2 = body.length := by omega
        rw [hlength, List.take_left]
      have hlater : ¬kept.length + (body.length + 1 + 1) < kept.length + 2 := by omega
      simp only [List.cons_append, List.append_assoc, List.nil_append] at hdrain
      simp only [nameAt, List.cons_append, List.getElem?_cons_zero, hdrain]
      simp only [List.length_cons, if_neg hlater, List.drop_succ_cons, List.drop_zero, hbody]
      change _ = match sweep.program.insert name (body.map Token.bindParameter) with
        | .error error => _
        | .ok next => _
      rfl
    | opening kind => cases kind <;> rfl
    | closing kind =>
      have hkind : kind ≠ .definition := beq_eq_false_iff_ne.1 (hread _ List.mem_cons_self)
      cases kind with
      | definition => exact absurd rfl hkind
      | _ => rfl
    | _ => rfl

/-- A round reads one token and does not change what the sweep comes to, or the sweep has come to it. -/
theorem round_of_at {t : Token} (h : sweep.At kept pending (t :: rest)) :
    (∃ next kept' pending', sweep.round = .ok next ∧ next.At kept' pending' rest ∧
      outcome next.program kept' (pending' ++ rest) = outcome sweep.program kept (pending ++ t :: rest)) ∨
    sweep.round = .error (.finished (outcome sweep.program kept (pending ++ t :: rest))) := by
  obtain ⟨htokens, hindex, hpending⟩ := h
  have hread : sweep.tokens[sweep.index]? = some t := by
    rw [htokens, hindex, ← List.append_assoc]
    simp
  have hround := round_eq hread
  by_cases hopener : t = .opening .definition
  · -- an opening brace forgets the one before it
    subst hopener
    rw [if_pos rfl] at hround
    refine .inl ⟨_, kept ++ pending, [.opening .definition], hround, ⟨?_, ?_, ?_⟩, ?_⟩
    · simp [htokens]
    · simp [hindex]
    · rw [hindex, ← List.length_append]
      exact .inside (List.forall_mem_nil _)
    · exact outcome_append (not_mem_of_pending hpending) (.inr ⟨rest, rfl⟩)
  rw [if_neg hopener] at hround
  by_cases hcloser : t = .closing .definition
  · subst hcloser
    rw [if_pos rfl] at hround
    generalize hopened : sweep.opened = opened at hround hpending
    cases hpending with
    | outside =>
      refine .inr (hround.trans ?_)
      unfold outcome
      rw [Program.collect_of_unopened rest (List.forall_mem_nil _)]
      rfl
    | @inside read hread =>
      have htakeOut := hround.trans (takeOut_eq htokens hindex hread)
      rw [outcome_definition hread]
      cases hdefine : sweep.program.define read with
      | error error =>
        rw [hdefine] at htakeOut
        exact .inr htakeOut
      | ok program =>
        rw [hdefine] at htakeOut
        exact .inl ⟨_, kept, [], htakeOut, ⟨rfl, rfl, .outside⟩, rfl⟩
  · rw [if_neg hcloser] at hround
    have hplain := isBrace_eq_false_of_ne hopener hcloser
    generalize hopened : sweep.opened = opened at hpending
    cases hpending with
    | outside =>
      refine .inl ⟨_, kept ++ [t], [], hround, ⟨by simp [htokens], by simp [hindex], ?_⟩, ?_⟩
      · rw [hopened]
        exact .outside
      · exact outcome_append (by simp [Ne.symm hcloser]) (.inl (by simp [Ne.symm hopener]))
    | @inside read hread =>
      refine .inl ⟨_, kept, .opening .definition :: (read ++ [t]), hround, ⟨by simp [htokens], by simp [hindex]; omega, ?_⟩, ?_⟩
      · rw [hopened]
        exact .inside (List.forall_mem_append.2 ⟨hread, by simpa using hplain⟩)
      · simp

theorem round_of_at_nil (h : sweep.At kept pending []) :
    sweep.round = .error (.finished (outcome sweep.program kept (pending ++ []))) := by
  obtain ⟨htokens, hindex, hpending⟩ := h
  rw [List.append_nil] at htokens ⊢
  have hend : ¬sweep.index < sweep.tokens.length := by simp [htokens, hindex]
  rw [round, if_neg hend, outcome, Program.collect_of_not_mem (not_mem_of_pending hpending), htokens]
  rfl

/-! ## All rounds -/

/-- After as many rounds as there are tokens left, and one more, the sweep has come to what it comes to. Before that it either has,
or it has read a token in every round. -/
theorem rounds_of_at (h : sweep.At kept pending rest) (n : Nat) :
    (∃ next kept' pending' rest', sweep.rounds n = .ok next ∧ next.At kept' pending' rest' ∧ rest'.length + n = rest.length) ∨
    sweep.rounds n = .error (.finished (outcome sweep.program kept (pending ++ rest))) := by
  induction n generalizing sweep kept pending rest with
  | zero => exact .inl ⟨sweep, kept, pending, rest, rfl, h, rfl⟩
  | succ n ih =>
    cases rest with
    | nil =>
      right
      rw [rounds, round_of_at_nil h]
      rfl
    | cons t rest =>
      rcases round_of_at h with ⟨next, kept', pending', hround, hnext, houtcome⟩ | hround
      · have hrounds : sweep.rounds (n + 1) = next.rounds n := by
          rw [rounds, hround]
          rfl
        rw [hrounds, ← houtcome]
        rcases ih hnext with ⟨last, kept'', pending'', rest', hlast, hat, hlength⟩ | hlast
        · exact .inl ⟨last, kept'', pending'', rest', hlast, hat, by simp only [List.length_cons]; omega⟩
        · exact .inr hlast
      · right
        rw [rounds, hround]
        rfl

/-- A definition that ends has a brace and a name before its closing brace. -/
theorem lt_index_of_endsDefinition {place : Nat} (h : sweep.At kept pending rest) (hends : sweep.EndsDefinition place) :
    place + 2 ≤ sweep.index ∧ sweep.index < sweep.tokens.length := by
  refine ⟨?_, (List.getElem?_eq_some_iff.1 hends.closer).1⟩
  obtain ⟨htokens, hindex, hpending⟩ := h
  obtain ⟨hopened, hcloser, name, hname⟩ := hends
  rw [hopened] at hpending
  cases hpending with
  | @inside read hread =>
    cases read with
    | nil =>
      -- the closing brace would stand where the name does
      have hplace : kept.length + 1 = sweep.index := hindex.symm
      rw [hplace, nameAt, hcloser] at hname
      cases hname
    | cons t read =>
      rw [hindex]
      simp only [List.length_cons]
      omega

end Sweep

/-! ## What was taken out -/

theorem Sections.length_tokens (sections : Sections) :
    sections.tokens.length = sections.residue.length + (sections.insides.map fun inside => inside.length + 2).sum := by
  obtain ⟨leading, definitions⟩ := sections
  induction definitions generalizing leading with
  | nil => simp [tokens, residue, insides]
  | cons definition rest ih =>
    obtain ⟨inside, following⟩ := definition
    have hrest := ih following
    rw [tokens_cons]
    simp only [residue, insides, List.length_append, List.flatMap_cons, List.map_cons, List.sum_cons, List.length_cons] at hrest ⊢
    omega

namespace Program
open Definition

/-- The definitions of any stream, well nested or not, can be taken out in place, in as many rounds as there are tokens and one more,
without a look outside of the stream. This gives the program of the stream or the error that it is refused for, and no token is lost or
there twice. -/
theorem ofTokens_in_place (tokens : List Token) :
    (Sweep.start tokens).rounds (tokens.length + 1) = .error (.finished (ofTokens tokens)) ∧
    (∀ n, (Sweep.start tokens).rounds n ≠ .error .outOfBounds) ∧
    (∀ n sweep place, (Sweep.start tokens).rounds n = .ok sweep → sweep.EndsDefinition place →
      place + 2 ≤ sweep.index ∧ sweep.index < sweep.tokens.length) ∧
    ∀ program, ofTokens tokens = .ok program →
      (∃ sections : Sections, sections.tokens = tokens ∧ sections.residue = program.entry ∧
        sections.insides.map (List.map Token.bindParameter) =
          program.applications.map fun application => .identifier application.1 :: application.2) ∧
      program.entry.length + (program.applications.map fun application => application.2.length + 3).sum = tokens.length := by
  have hrounds := Sweep.rounds_of_at (Sweep.at_start tokens)
  refine ⟨?_, fun n hn => ?_, fun n sweep place hn hends => ?_, fun program h => ?_⟩
  · rcases hrounds (tokens.length + 1) with ⟨_, _, _, rest, -, -, hlength⟩ | hended
    · omega
    · -- a sweep that has kept nothing and read nothing comes to the program of the stream
      exact hended
  · rcases hrounds n with ⟨sweep, _, _, _, hsweep, -⟩ | hended
    · rw [hsweep] at hn
      cases hn
    · rw [hended] at hn
      cases hn
  · rcases hrounds n with ⟨sweep', kept, pending, rest, hsweep, hat, -⟩ | hended
    · obtain rfl := Except.ok.inj (hsweep.symm.trans hn)
      exact Sweep.lt_index_of_endsDefinition hat hends
    · rw [hended] at hn
      cases hn
  · obtain ⟨⟨last, left⟩, hcollect, h⟩ := bind_eq_ok_iff.1 h
    obtain ⟨-, hset⟩ := unless_eq_ok_iff.1 h
    obtain ⟨sections, rfl, rfl, hfold⟩ := exists_sections_of_collect hcollect
    obtain ⟨applications, hintroduce, rfl⟩ := foldlM_define_ofEntry_eq_ok_iff.1 hfold
    rw [setEntry_ofParts _ hintroduce] at hset
    obtain rfl := Except.ok.inj hset
    rw [entry_ofParts, applications_ofParts hintroduce]
    refine ⟨⟨sections, rfl, rfl, ?_⟩, ?_⟩
    · rw [hintroduce.insides_eq]
      simp [bound, Function.comp_def, Token.bindParameter]
    · rw [sections.length_tokens, hintroduce.insides_eq]
      simp [bound, Function.comp_def, Nat.add_assoc]

/-- In `{{inc $} +` the second opening brace begins a definition, and the first one stays in the entry point. The definition ends in the
fifth round. -/
theorem ofTokens_in_place_of_unclosed :
    ∃ program sweep,
      ofTokens [.opening .definition, .opening .definition, .identifier "inc", .placeholder, .closing .definition, .builtin .increment] =
        .ok program ∧
      program.entry = [.opening .definition, .builtin .increment] ∧ program.applications = [("inc", [.parameter])] ∧
      program.entry.length + (program.applications.map fun application => application.2.length + 3).sum = 6 ∧
      (Sweep.start [.opening .definition, .opening .definition, .identifier "inc", .placeholder, .closing .definition,
        .builtin .increment]).rounds 4 = .ok sweep ∧
      sweep.EndsDefinition 1 ∧ 1 + 2 ≤ sweep.index ∧ sweep.index < sweep.tokens.length := by
  obtain ⟨hended, -, hplaces, hprogram⟩ := ofTokens_in_place
    [.opening .definition, .opening .definition, .identifier "inc", .placeholder, .closing .definition, .builtin .increment]
  have hok := Except.error.inj hended
  have hends : Sweep.EndsDefinition { program := .ofEntry [], opened := some 1, index := 4, tokens := [.opening .definition,
      .opening .definition, .identifier "inc", .placeholder, .closing .definition, .builtin .increment] } 1 :=
    ⟨rfl, rfl, "inc", rfl⟩
  have hok' := (Sweep.Ending.finished.inj hok).symm
  exact ⟨_, _, hok', rfl, rfl, (hprogram _ hok').2, rfl, hends, hplaces 4 _ 1 rfl hends⟩

end Program

end Bracketry

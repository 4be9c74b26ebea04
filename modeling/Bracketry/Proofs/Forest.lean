import Bracketry.Nesting

/-!
# Bodies as forests

The brackets of a body nest, so a body is a sequence of plain tokens and of brackets that hold such a sequence again.

* `Token.isPlain` : the tokens that are no brackets;
* `Forest`, `Forest.tokens` : such a sequence, and the tokens that it is written with;
* `Closes` : a stream closes the brackets that are open before it, and opens none that it does not close;
* `Forest.ofTokens` : the forest of a stream, read from its end; `tokens_ofTokens` and `ofTokens_tokens` say that it is the
  only one;
* `closes_of_checkBrackets` : the streams that `checkBrackets` accepts and that define nothing close; `closes_iff` says that
  there are no others.
-/

namespace Bracketry

def Token.isPlain : Token → Bool
  | .opening _ | .closing _ => false
  | _ => true

def Token.isBrace : Token → Bool
  | .opening kind | .closing kind => kind == .definition
  | _ => false

def bracketed (kind : Bracket) (inner : List Token) : List Token := .opening kind :: (inner ++ [.closing kind])

theorem bracketed_append (kind : Bracket) (inner tokens : List Token) :
    bracketed kind inner ++ tokens = .opening kind :: (inner ++ .closing kind :: tokens) := by
  rw [bracketed, List.cons_append, List.append_assoc]
  rfl

/-- A sequence of plain tokens, applicators and conditionals. Definitions stand outside of bodies. -/
inductive Forest where
  | nil
  | token (token : Token) (plain : token.isPlain = true) (rest : Forest)
  /-- Square brackets, what they hold, and what follows them. -/
  | applicator (inner rest : Forest)
  /-- Round brackets, what they hold, and what follows them. -/
  | conditional (inner rest : Forest)
deriving DecidableEq

namespace Forest

def tokens : Forest → List Token
  | nil => []
  | token t _ rest => t :: rest.tokens
  | applicator inner rest => .opening .applicator :: (inner.tokens ++ .closing .applicator :: rest.tokens)
  | conditional inner rest => .opening .conditional :: (inner.tokens ++ .closing .conditional :: rest.tokens)

theorem tokens_applicator (inner rest : Forest) :
    (applicator inner rest).tokens = bracketed .applicator inner.tokens ++ rest.tokens := (bracketed_append _ _ _).symm

theorem tokens_conditional (inner rest : Forest) :
    (conditional inner rest).tokens = bracketed .conditional inner.tokens ++ rest.tokens := (bracketed_append _ _ _).symm

def append : Forest → Forest → Forest
  | nil, after => after
  | token t plain rest, after => token t plain (rest.append after)
  | applicator inner rest, after => applicator inner (rest.append after)
  | conditional inner rest, after => conditional inner (rest.append after)

theorem append_nil (forest : Forest) : forest.append nil = forest := by
  induction forest with
  | nil => rfl
  | token t plain rest ih => rw [append, ih]
  | applicator inner rest _ ih => rw [append, ih]
  | conditional inner rest _ ih => rw [append, ih]

/-! ## Reading a stream from its end -/

/-- Puts a token in front of the forests read so far: that of the innermost open bracket, then those around it. -/
def grow : Token → List Forest → List Forest
  | .closing _, forests => nil :: forests
  | .opening .applicator, inner :: rest :: forests => applicator inner rest :: forests
  | .opening .conditional, inner :: rest :: forests => conditional inner rest :: forests
  | t, forest :: forests => if plain : t.isPlain = true then token t plain forest :: forests else forest :: forests
  | _, [] => []

def ofTokens (tokens : List Token) : Forest := (tokens.foldr grow [nil]).headD nil

theorem grow_of_isPlain {t : Token} (plain : t.isPlain = true) (forest : Forest) (forests : List Forest) :
    grow t (forest :: forests) = token t plain forest :: forests := by
  cases t with
  | opening kind => cases plain
  | closing kind => cases plain
  | _ => rfl

theorem foldr_grow_tokens (forest after : Forest) (forests : List Forest) (tokens : List Token)
    (h : tokens.foldr grow [nil] = after :: forests) :
    (forest.tokens ++ tokens).foldr grow [nil] = forest.append after :: forests := by
  induction forest generalizing after forests tokens with
  | nil => exact h
  | token t plain rest ih =>
    rw [Forest.tokens, List.cons_append, List.foldr_cons, ih after forests tokens h, grow_of_isPlain plain]
    rfl
  | applicator inner rest ihInner ihRest =>
    have hrest : (Token.closing .applicator :: (rest.tokens ++ tokens)).foldr grow [nil] =
        nil :: rest.append after :: forests := by
      rw [List.foldr_cons, ihRest after forests tokens h]
      rfl
    rw [Forest.tokens, List.cons_append, List.append_assoc, List.cons_append, List.foldr_cons,
      ihInner nil (rest.append after :: forests) _ hrest, append_nil]
    rfl
  | conditional inner rest ihInner ihRest =>
    have hrest : (Token.closing .conditional :: (rest.tokens ++ tokens)).foldr grow [nil] =
        nil :: rest.append after :: forests := by
      rw [List.foldr_cons, ihRest after forests tokens h]
      rfl
    rw [Forest.tokens, List.cons_append, List.append_assoc, List.cons_append, List.foldr_cons,
      ihInner nil (rest.append after :: forests) _ hrest, append_nil]
    rfl

/-- A forest is read back from its tokens. -/
theorem ofTokens_tokens (forest : Forest) : ofTokens forest.tokens = forest := by
  have h := foldr_grow_tokens forest nil [] [] rfl
  rw [List.append_nil, append_nil] at h
  rw [ofTokens, h]
  rfl

end Forest

/-! ## Streams that close -/

/-- The stream closes the open brackets, innermost first, and leaves none open. -/
inductive Closes : List Bracket → List Token → Prop where
  | nil : Closes [] []
  | plain {openings : List Bracket} {t : Token} {tokens : List Token} (isPlain : t.isPlain = true)
      (rest : Closes openings tokens) : Closes openings (t :: tokens)
  | opening {openings : List Bracket} {kind : Bracket} {tokens : List Token} (isBody : kind ≠ .definition)
      (rest : Closes (kind :: openings) tokens) : Closes openings (.opening kind :: tokens)
  | closing {openings : List Bracket} {kind : Bracket} {tokens : List Token} (rest : Closes openings tokens) :
      Closes (kind :: openings) (.closing kind :: tokens)

namespace Forest

/-- Forests with the closing brackets of the open ones between them. -/
def layers : List Bracket → List Forest → List Token
  | [], forest :: _ => forest.tokens
  | kind :: openings, forest :: forests => forest.tokens ++ .closing kind :: layers openings forests
  | _, [] => []

theorem layers_grow_plain {t : Token} (plain : t.isPlain = true) (openings : List Bracket) (forest : Forest)
    (forests : List Forest) :
    layers openings (grow t (forest :: forests)) = t :: layers openings (forest :: forests) := by
  rw [grow_of_isPlain plain]
  cases openings <;> rfl

theorem layers_grow_opening {kind : Bracket} (h : kind ≠ .definition) (openings : List Bracket)
    (inner rest : Forest) (forests : List Forest) :
    layers openings (grow (.opening kind) (inner :: rest :: forests)) =
      .opening kind :: layers (kind :: openings) (inner :: rest :: forests) := by
  cases kind with
  | definition => exact absurd rfl h
  | applicator => cases openings <;> simp [grow, layers, tokens]
  | conditional => cases openings <;> simp [grow, layers, tokens]

theorem length_grow_plain {t : Token} (plain : t.isPlain = true) (forest : Forest) (forests : List Forest) :
    (grow t (forest :: forests)).length = (forest :: forests).length := by
  rw [grow_of_isPlain plain]
  rfl

theorem length_grow_opening {kind : Bracket} (h : kind ≠ .definition) (inner rest : Forest) (forests : List Forest) :
    (grow (.opening kind) (inner :: rest :: forests)).length = forests.length + 1 := by
  cases kind with
  | definition => exact absurd rfl h
  | applicator => rfl
  | conditional => rfl

/-- Reading a stream that closes the open brackets gives one forest for each of them and one around them. -/
theorem layers_of_closes {openings : List Bracket} {tokens : List Token} (h : Closes openings tokens) :
    (tokens.foldr grow [nil]).length = openings.length + 1 ∧ layers openings (tokens.foldr grow [nil]) = tokens := by
  -- Reading is from the right, so a closing bracket starts a forest and its opening bracket puts it into the next one.
  induction h with
  | nil => exact ⟨rfl, rfl⟩
  | @plain openings t tokens isPlain _ ih =>
    obtain ⟨hlength, hlayers⟩ := ih
    rw [List.foldr_cons]
    cases hforests : tokens.foldr grow [nil] with
    | nil => rw [hforests] at hlength; cases hlength
    | cons forest forests =>
      rw [hforests] at hlength hlayers
      exact ⟨(length_grow_plain isPlain forest forests).trans hlength,
        (layers_grow_plain isPlain openings forest forests).trans (by rw [hlayers])⟩
  | @opening openings kind tokens isBody _ ih =>
    obtain ⟨hlength, hlayers⟩ := ih
    rw [List.foldr_cons]
    match hforests : tokens.foldr grow [nil] with
    | [] => rw [hforests] at hlength; cases hlength
    | [_] => rw [hforests] at hlength; cases hlength
    | inner :: rest :: forests =>
      rw [hforests] at hlength hlayers
      refine ⟨(length_grow_opening isBody inner rest forests).trans ?_, ?_⟩
      · simpa using hlength
      · rw [layers_grow_opening isBody, hlayers]
  | @closing openings kind tokens _ ih =>
    obtain ⟨hlength, hlayers⟩ := ih
    rw [List.foldr_cons]
    refine ⟨?_, ?_⟩
    · rw [grow, List.length_cons, hlength, List.length_cons]
    · rw [grow, layers, hlayers]
      rfl

theorem tokens_ofTokens {tokens : List Token} (h : Closes [] tokens) : (ofTokens tokens).tokens = tokens := by
  obtain ⟨hlength, hlayers⟩ := layers_of_closes h
  rw [ofTokens]
  cases hforests : tokens.foldr grow [nil] with
  | nil => rw [hforests] at hlength; cases hlength
  | cons forest forests =>
    rw [hforests] at hlayers
    exact hlayers

end Forest

/-! ## Streams that are well nested -/

namespace Nesting

/-- The depths count the open brackets. -/
def Counted (nesting : Nesting) : Prop := ∀ kind, nesting.depths.of kind = nesting.openings.count kind

theorem counted_empty : Counted {} := by
  intro kind
  cases kind <;> rfl

theorem counted_of_push {nesting next : Nesting} {kind : Bracket} (hcounted : nesting.Counted)
    (h : nesting.push kind = .ok next) : next.openings = kind :: nesting.openings ∧ next.Counted := by
  unfold push at h
  split at h
  · cases h
  · obtain rfl := Except.ok.inj h
    refine ⟨rfl, fun other => ?_⟩
    by_cases hother : other = kind
    · rw [hother, Depths.of_set_self, hcounted, List.count_cons_self]
    · rw [Depths.of_set_of_ne _ _ hother, hcounted, List.count_cons_of_ne (Ne.symm hother)]

theorem counted_of_pop {nesting next : Nesting} {kind : Bracket} (hcounted : nesting.Counted)
    (h : nesting.pop kind = .ok next) : nesting.openings = kind :: next.openings ∧ next.Counted := by
  unfold pop at h
  split at h
  · cases h
  · next opened openings hopenings =>
    split at h
    · cases h
    · next hkind =>
      obtain rfl : opened = kind := Decidable.of_not_not hkind
      split at h
      · cases h
      · next depth hdepth =>
        obtain rfl := Except.ok.inj h
        refine ⟨hopenings, fun other => ?_⟩
        have hother := hcounted other
        rw [hopenings] at hother
        by_cases heq : other = opened
        · subst heq
          rw [hdepth, List.count_cons_self] at hother
          rw [Depths.of_set_self]
          exact Nat.succ.inj hother
        · rw [List.count_cons_of_ne (Ne.symm heq)] at hother
          rw [Depths.of_set_of_ne _ _ heq, hother]

theorem openings_eq_nil_of_finish {nesting : Nesting} (hcounted : nesting.Counted) (h : nesting.finish = .ok ()) :
    nesting.openings = [] := by
  unfold finish at h
  split at h
  · cases h
  · next hnone =>
    cases hopenings : nesting.openings with
    | nil => rfl
    | cons kind openings =>
      have hzero := List.find?_eq_none.1 hnone kind (Bracket.mem_all kind)
      have hcount := hcounted kind
      rw [hopenings, List.count_cons_self] at hcount
      simp [hcount] at hzero

end Nesting

theorem closes_of_foldlM {nesting last : Nesting} {tokens : List Token} (hcounted : nesting.Counted)
    (hfree : .opening .definition ∉ tokens) (hrun : tokens.foldlM Nesting.step nesting = .ok last)
    (hfinish : last.finish = .ok ()) : Closes nesting.openings tokens := by
  induction tokens generalizing nesting with
  | nil =>
    obtain rfl := Except.ok.inj hrun
    rw [Nesting.openings_eq_nil_of_finish hcounted hfinish]
    exact .nil
  | cons t tokens ih =>
    have hrest : .opening .definition ∉ tokens := fun h => hfree (List.mem_cons_of_mem _ h)
    rw [List.foldlM_cons] at hrun
    cases hstep : nesting.step t with
    | error fault => rw [hstep] at hrun; cases hrun
    | ok next =>
      rw [hstep] at hrun
      replace hrun : tokens.foldlM Nesting.step next = .ok last := hrun
      cases t with
      | opening kind =>
        obtain ⟨hopenings, hnext⟩ := Nesting.counted_of_push hcounted hstep
        refine .opening ?_ (hopenings ▸ ih hnext hrest hrun)
        rintro rfl
        exact hfree List.mem_cons_self
      | closing kind =>
        obtain ⟨hopenings, hnext⟩ := Nesting.counted_of_pop hcounted hstep
        rw [hopenings]
        exact .closing (ih hnext hrest hrun)
      | _ =>
        obtain rfl := Except.ok.inj hstep
        exact .plain rfl (ih hcounted hrest hrun)

theorem closes_of_checkBrackets {tokens : List Token} (h : checkBrackets tokens = .ok ())
    (hfree : .opening .definition ∉ tokens) : Closes [] tokens := by
  unfold checkBrackets at h
  cases hrun : tokens.foldlM Nesting.step {} with
  | error fault => rw [hrun] at h; cases h
  | ok last =>
    rw [hrun] at h
    exact closes_of_foldlM Nesting.counted_empty hfree hrun h

/-! ## Streams that close are well nested -/

namespace Nesting

theorem exists_push_of_ne (nesting : Nesting) {kind : Bracket} (h : kind ≠ .definition) :
    ∃ next, nesting.push kind = .ok next := by
  unfold push
  rw [if_neg fun hdefinition => h hdefinition.1]
  exact ⟨_, rfl⟩

theorem exists_pop_of_openings {nesting : Nesting} {kind : Bracket} {openings : List Bracket}
    (hcounted : nesting.Counted) (h : nesting.openings = kind :: openings) : ∃ next, nesting.pop kind = .ok next := by
  have hcount := hcounted kind
  rw [h, List.count_cons_self] at hcount
  unfold pop
  simp only [h, hcount]
  exact ⟨_, if_neg fun hne => hne rfl⟩

theorem finish_of_openings_eq_nil {nesting : Nesting} (hcounted : nesting.Counted) (h : nesting.openings = []) :
    nesting.finish = .ok () := by
  have hnone : Bracket.all.find? (fun kind => nesting.depths.of kind != 0) = none := by
    refine List.find?_eq_none.2 fun kind _ => ?_
    rw [hcounted kind, h, List.count_nil]
    decide
  unfold finish
  rw [hnone]

end Nesting

/-- A stream that closes some of the open brackets leaves the others open. -/
theorem foldlM_of_closes {nesting : Nesting} {tokens : List Token} {openings below : List Bracket} (hcounted : nesting.Counted)
    (hopenings : nesting.openings = openings ++ below) (h : Closes openings tokens) :
    ∃ next, tokens.foldlM Nesting.step nesting = .ok next ∧ next.openings = below ∧ next.Counted := by
  induction h generalizing nesting with
  | nil => exact ⟨nesting, rfl, hopenings, hcounted⟩
  | @plain openings t tokens isPlain _ ih =>
    have hstep : nesting.step t = .ok nesting := by
      cases t with
      | opening kind => cases isPlain
      | closing kind => cases isPlain
      | _ => rfl
    rw [List.foldlM_cons, hstep]
    exact ih hcounted hopenings
  | @opening openings kind tokens isBody _ ih =>
    obtain ⟨next, hpush⟩ := nesting.exists_push_of_ne isBody
    obtain ⟨hnext, hcounted'⟩ := Nesting.counted_of_push hcounted hpush
    rw [List.foldlM_cons, show nesting.step (.opening kind) = .ok next from hpush]
    exact ih hcounted' (hnext.trans (congrArg _ hopenings))
  | @closing openings kind tokens _ ih =>
    obtain ⟨next, hpop⟩ := Nesting.exists_pop_of_openings hcounted hopenings
    obtain ⟨hnext, hcounted'⟩ := Nesting.counted_of_pop hcounted hpop
    rw [List.foldlM_cons, show nesting.step (.closing kind) = .ok next from hpop]
    exact ih hcounted' (List.cons.inj (hnext.symm.trans hopenings)).2

theorem finish_of_closes {nesting : Nesting} {tokens : List Token} (hcounted : nesting.Counted)
    (h : Closes nesting.openings tokens) : tokens.foldlM Nesting.step nesting >>= Nesting.finish = .ok () := by
  obtain ⟨next, hrun, hopenings, hcounted'⟩ := foldlM_of_closes hcounted (List.append_nil _).symm h
  rw [hrun]
  exact Nesting.finish_of_openings_eq_nil hcounted' hopenings

theorem Closes.isBrace_eq_false {openings : List Bracket} {tokens : List Token} (h : Closes openings tokens)
    (hopenings : .definition ∉ openings) : ∀ t ∈ tokens, t.isBrace = false := by
  induction h with
  | nil => exact fun _ hmem => nomatch hmem
  | @plain openings t tokens isPlain _ ih =>
    have ht : t.isBrace = false := by
      cases t with
      | opening kind => cases isPlain
      | closing kind => cases isPlain
      | _ => rfl
    exact List.forall_mem_cons.2 ⟨ht, ih hopenings⟩
  | @opening openings kind tokens isBody _ ih =>
    have hkind : .definition ∉ kind :: openings := fun hmem =>
      (List.mem_cons.1 hmem).elim (fun heq => isBody heq.symm) hopenings
    exact List.forall_mem_cons.2 ⟨beq_false_of_ne isBody, ih hkind⟩
  | @closing openings kind tokens _ ih =>
    obtain ⟨hkind, hrest⟩ := not_or.1 fun hmem => hopenings (List.mem_cons.2 hmem)
    exact List.forall_mem_cons.2 ⟨beq_false_of_ne (Ne.symm hkind), ih hrest⟩

theorem Forest.closes_tokens_append (forest : Forest) {openings : List Bracket} {tokens : List Token}
    (h : Closes openings tokens) : Closes openings (forest.tokens ++ tokens) := by
  induction forest generalizing openings tokens with
  | nil => exact h
  | token t plain rest ih => exact .plain plain (ih h)
  | applicator inner rest ihInner ihRest =>
    rw [Forest.tokens, List.cons_append, List.append_assoc, List.cons_append]
    exact .opening (by decide) (ihInner (.closing (ihRest h)))
  | conditional inner rest ihInner ihRest =>
    rw [Forest.tokens, List.cons_append, List.append_assoc, List.cons_append]
    exact .opening (by decide) (ihInner (.closing (ihRest h)))

/-- The streams that close are those that are well nested and define nothing. -/
theorem closes_iff {tokens : List Token} :
    Closes [] tokens ↔ checkBrackets tokens = .ok () ∧ .opening .definition ∉ tokens := by
  refine ⟨fun h => ⟨finish_of_closes Nesting.counted_empty h, fun hmem => ?_⟩, fun h => closes_of_checkBrackets h.1 h.2⟩
  cases h.isBrace_eq_false (List.not_mem_nil) _ hmem

end Bracketry

import Bracketry.Program.Definition
import Bracketry.Proofs.Checks
import Bracketry.Proofs.Forest

/-!
# Sections of a token stream

A stream in which definitions stand at the top level only is cut at their braces in one way.

* `Sections` : what stands before the first definition, and for every definition what its braces hold and what follows it;
* `Sections.tokens`, `Sections.residue`, `Sections.insides` : the stream, what is left of it without the definitions, and what
  the braces hold;
* `Sections.Free` : there are no other braces; `Sections.eq_of_tokens_eq` says that this determines the sections;
* `Sections.Closed`, `Sections.exists_of_checkBrackets` : in a well-nested stream the residue and every definition close.
-/

namespace Bracketry

/-- A stream cut at its definitions. -/
structure Sections where
  leading : List Token
  /-- For every definition what its braces hold and what follows its closing brace. -/
  definitions : List (List Token × List Token)
deriving DecidableEq

namespace Sections

/-- A definition with its braces, and what follows it. -/
def written (definition : List Token × List Token) : List Token :=
  .opening .definition :: (definition.1 ++ .closing .definition :: definition.2)

def tokens (sections : Sections) : List Token := sections.leading ++ sections.definitions.flatMap written

def residue (sections : Sections) : List Token := sections.leading ++ sections.definitions.flatMap Prod.snd

def insides (sections : Sections) : List (List Token) := sections.definitions.map Prod.fst

/-- No brace stands anywhere but around a definition. -/
structure Free (sections : Sections) : Prop where
  leading : ∀ t ∈ sections.leading, t.isBrace = false
  inside : ∀ definition ∈ sections.definitions, ∀ t ∈ definition.1, t.isBrace = false
  following : ∀ definition ∈ sections.definitions, ∀ t ∈ definition.2, t.isBrace = false

/-- The first piece of the stream with one token more in front. -/
def prepend (t : Token) (sections : Sections) : Sections := { sections with leading := t :: sections.leading }

def define (inside : List Token) (sections : Sections) : Sections :=
  ⟨[], (inside, sections.leading) :: sections.definitions⟩

variable {sections : Sections} {t : Token} {inside : List Token}

theorem tokens_prepend : (sections.prepend t).tokens = t :: sections.tokens := rfl

theorem tokens_define :
    (sections.define inside).tokens = .opening .definition :: (inside ++ .closing .definition :: sections.tokens) := by
  simp [tokens, define, written]

theorem mem_tokens_of_mem_residue (h : t ∈ sections.residue) : t ∈ sections.tokens := by
  rcases List.mem_append.1 h with hleading | hfollowing
  · exact List.mem_append_left _ hleading
  · obtain ⟨definition, hdefinition, ht⟩ := List.mem_flatMap.1 hfollowing
    refine List.mem_append_right _ (List.mem_flatMap.2 ⟨definition, hdefinition, ?_⟩)
    exact List.mem_cons_of_mem _ (List.mem_append_right _ (List.mem_cons_of_mem _ ht))

theorem mem_tokens_of_mem_insides (hinside : inside ∈ sections.insides) (h : t ∈ inside) : t ∈ sections.tokens := by
  obtain ⟨definition, hdefinition, rfl⟩ := List.mem_map.1 hinside
  refine List.mem_append_right _ (List.mem_flatMap.2 ⟨definition, hdefinition, ?_⟩)
  exact List.mem_cons_of_mem _ (List.mem_append_left _ h)

/-! ## One way to cut -/

theorem eq_of_append_brace {before before' after after' : List Token} {brace brace' : Token}
    (hbefore : ∀ t ∈ before, t.isBrace = false) (hbefore' : ∀ t ∈ before', t.isBrace = false)
    (hbrace : brace.isBrace = true) (hbrace' : brace'.isBrace = true)
    (h : before ++ brace :: after = before' ++ brace' :: after') : before = before' ∧ after = after' := by
  induction before generalizing before' with
  | nil =>
    cases before' with
    | nil => exact ⟨rfl, (List.cons.inj h).2⟩
    | cons t before' =>
      have ht := hbefore' t List.mem_cons_self
      rw [← (List.cons.inj h).1, hbrace] at ht
      cases ht
  | cons t before ih =>
    have ht := hbefore t List.mem_cons_self
    cases before' with
    | nil =>
      rw [(List.cons.inj h).1, hbrace'] at ht
      cases ht
    | cons t' before' =>
      obtain ⟨rfl, hrest⟩ := List.cons.inj h
      obtain ⟨rfl, hafter⟩ := ih (fun t hmem => hbefore t (List.mem_cons_of_mem _ hmem))
        (fun t hmem => hbefore' t (List.mem_cons_of_mem _ hmem)) hrest
      exact ⟨rfl, hafter⟩

theorem ne_append_opening {tokens before after : List Token} (hfree : ∀ t ∈ tokens, t.isBrace = false) :
    tokens ≠ before ++ .opening .definition :: after := by
  rintro rfl
  cases hfree (.opening .definition) (List.mem_append_right before List.mem_cons_self)

theorem tokens_nil (leading : List Token) : tokens ⟨leading, []⟩ = leading := List.append_nil leading

theorem tokens_cons (leading inside following : List Token) (rest : List (List Token × List Token)) :
    tokens ⟨leading, (inside, following) :: rest⟩ =
      leading ++ .opening .definition :: (inside ++ .closing .definition :: tokens ⟨following, rest⟩) := by
  simp [tokens, written]

theorem free_cons {leading inside following : List Token} {rest : List (List Token × List Token)}
    (h : Free ⟨leading, (inside, following) :: rest⟩) :
    (∀ t ∈ leading, t.isBrace = false) ∧ (∀ t ∈ inside, t.isBrace = false) ∧ Free ⟨following, rest⟩ :=
  ⟨h.leading, h.inside _ List.mem_cons_self, h.following _ List.mem_cons_self,
    fun definition hmem => h.inside definition (List.mem_cons_of_mem _ hmem),
    fun definition hmem => h.following definition (List.mem_cons_of_mem _ hmem)⟩

/-- The sections of a stream are determined by it. -/
theorem eq_of_tokens_eq {other : Sections} (hfree : sections.Free) (hother : other.Free)
    (h : sections.tokens = other.tokens) : sections = other := by
  obtain ⟨leading, definitions⟩ := sections
  obtain ⟨leading', definitions'⟩ := other
  induction definitions generalizing leading leading' definitions' with
  | nil =>
    cases definitions' with
    | nil =>
      rw [tokens_nil, tokens_nil] at h
      rw [h]
    | cons definition' rest' =>
      rw [tokens_cons, tokens_nil] at h
      exact absurd h (ne_append_opening hfree.leading)
  | cons definition rest ih =>
    obtain ⟨inside, following⟩ := definition
    obtain ⟨hleading, hinside, hrest⟩ := free_cons hfree
    rw [tokens_cons] at h
    cases definitions' with
    | nil =>
      rw [tokens_nil] at h
      exact absurd h.symm (ne_append_opening hother.leading)
    | cons definition' rest' =>
      obtain ⟨inside', following'⟩ := definition'
      obtain ⟨hleading', hinside', hrest'⟩ := free_cons hother
      rw [tokens_cons] at h
      obtain ⟨rfl, hafter⟩ := eq_of_append_brace hleading hleading' rfl rfl h
      obtain ⟨rfl, htokens⟩ := eq_of_append_brace hinside hinside' rfl rfl hafter
      cases ih following hrest following' rest' hrest' htokens
      rfl

/-! ## Well-nested streams -/

/-- The residue closes what is open before it, and what the braces hold closes. -/
structure Closed (sections : Sections) (openings : List Bracket) : Prop where
  residue : Closes openings sections.residue
  inside : ∀ inside ∈ sections.insides, Closes [] inside

theorem free_of_closed {openings : List Bracket} (hopenings : .definition ∉ openings) (h : sections.Closed openings) :
    sections.Free where
  leading t ht := h.residue.isBrace_eq_false hopenings t (List.mem_append_left _ ht)
  inside _ hdefinition := (h.inside _ (List.mem_map_of_mem hdefinition)).isBrace_eq_false List.not_mem_nil
  following _ hdefinition t ht := h.residue.isBrace_eq_false hopenings t
    (List.mem_append_right _ (List.mem_flatMap_of_mem hdefinition ht))

theorem closed_empty : (⟨[], []⟩ : Sections).Closed [] := ⟨.nil, nofun⟩

/-- The sections of what follows a place outside of definitions. -/
def Outside (openings : List Bracket) (tokens : List Token) : Prop :=
  ∃ sections : Sections, sections.tokens = tokens ∧ sections.Closed openings

/-- The rest of a definition and the sections of what follows it, for a place inside of one. -/
def Inside (openings : List Bracket) (tokens : List Token) : Prop :=
  ∃ (inside : List Token) (sections : Sections), tokens = inside ++ .closing .definition :: sections.tokens ∧
    Closes openings inside ∧ sections.Closed []

end Sections

namespace Nesting

theorem openings_of_push_definition {nesting next : Nesting} (hcounted : nesting.Counted)
    (h : nesting.push .definition = .ok next) : nesting.openings = [] := by
  unfold push at h
  split at h
  · cases h
  · next hopen =>
    cases hopenings : nesting.openings with
    | nil => rfl
    | cons kind openings =>
      refine absurd ⟨rfl, List.any_eq_true.2 ⟨kind, Bracket.mem_all kind, ?_⟩⟩ hopen
      rw [hcounted kind, hopenings, List.count_cons_self]
      rfl

end Nesting

namespace Sections

theorem sections_of_foldlM {tokens : List Token} {nesting last : Nesting} (hcounted : nesting.Counted)
    (hrun : tokens.foldlM Nesting.step nesting = .ok last) (hfinish : last.finish = .ok ()) :
    (.definition ∉ nesting.openings → Outside nesting.openings tokens) ∧
    ∀ inner, nesting.openings = inner ++ [.definition] → .definition ∉ inner → Inside inner tokens := by
  -- A stream goes in and out of definitions, so both places are followed at once.
  induction tokens generalizing nesting with
  | nil =>
    obtain rfl := Except.ok.inj hrun
    rw [Nesting.openings_eq_nil_of_finish hcounted hfinish]
    refine ⟨fun _ => ⟨⟨[], []⟩, rfl, closed_empty⟩, fun inner hinner => ?_⟩
    cases inner <;> cases hinner
  | cons t tokens ih =>
    rw [List.foldlM_cons] at hrun
    obtain ⟨next, hstep, hrest⟩ := bind_eq_ok_iff.1 hrun
    cases t with
    | opening kind =>
      obtain ⟨hopenings, hnext⟩ := Nesting.counted_of_push hcounted hstep
      obtain ⟨houtside, hinside⟩ := ih hnext hrest
      rw [hopenings] at houtside hinside
      by_cases hkind : kind = .definition
      · subst hkind
        have hnil := Nesting.openings_of_push_definition hcounted hstep
        rw [hnil] at hinside ⊢
        refine ⟨fun _ => ?_, fun inner hinner => by cases inner <;> cases hinner⟩
        obtain ⟨inside, sections, rfl, hcloses, hclosed⟩ := hinside [] rfl List.not_mem_nil
        exact ⟨sections.define inside, tokens_define, hclosed.residue, List.forall_mem_cons.2 ⟨hcloses, hclosed.inside⟩⟩
      · refine ⟨fun hfree => ?_, fun inner hinner hfree => ?_⟩
        · obtain ⟨sections, rfl, hclosed⟩ := houtside (by simp [Ne.symm hkind, hfree])
          exact ⟨sections.prepend (.opening kind), tokens_prepend, .opening hkind hclosed.residue, hclosed.inside⟩
        · obtain ⟨inside, sections, rfl, hcloses, hclosed⟩ :=
            hinside (kind :: inner) (by rw [hinner]; rfl) (by simp [Ne.symm hkind, hfree])
          exact ⟨.opening kind :: inside, sections, rfl, .opening hkind hcloses, hclosed⟩
    | closing kind =>
      obtain ⟨hopenings, hnext⟩ := Nesting.counted_of_pop hcounted hstep
      obtain ⟨houtside, hinside⟩ := ih hnext hrest
      rw [hopenings]
      refine ⟨fun hfree => ?_, fun inner hinner hfree => ?_⟩
      · obtain ⟨sections, rfl, hclosed⟩ := houtside fun hmem => hfree (List.mem_cons_of_mem _ hmem)
        exact ⟨sections.prepend (.closing kind), tokens_prepend, .closing hclosed.residue, hclosed.inside⟩
      · cases inner with
        | nil =>
          obtain ⟨rfl, hnil⟩ := List.cons.inj hinner
          rw [hnil] at houtside
          obtain ⟨sections, rfl, hclosed⟩ := houtside List.not_mem_nil
          exact ⟨[], sections, rfl, .nil, hclosed⟩
        | cons opened inner =>
          obtain ⟨rfl, hrest⟩ := List.cons.inj hinner
          obtain ⟨inside, sections, rfl, hcloses, hclosed⟩ :=
            hinside inner hrest fun hmem => hfree (List.mem_cons_of_mem _ hmem)
          exact ⟨.closing kind :: inside, sections, rfl, .closing hcloses, hclosed⟩
    | _ =>
      obtain rfl := Except.ok.inj hstep
      obtain ⟨houtside, hinside⟩ := ih hcounted hrest
      refine ⟨fun hfree => ?_, fun inner hinner hfree => ?_⟩
      · obtain ⟨sections, rfl, hclosed⟩ := houtside hfree
        exact ⟨sections.prepend _, tokens_prepend, .plain rfl hclosed.residue, hclosed.inside⟩
      · obtain ⟨inside, sections, rfl, hcloses, hclosed⟩ := hinside inner hinner hfree
        exact ⟨_ :: inside, sections, rfl, .plain rfl hcloses, hclosed⟩

/-- A well-nested stream has sections, and they close. -/
theorem exists_of_checkBrackets {tokens : List Token} (h : checkBrackets tokens = .ok ()) :
    ∃ sections : Sections, sections.tokens = tokens ∧ sections.Closed [] := by
  obtain ⟨last, hrun, hfinish⟩ := bind_eq_ok_iff.1 h
  exact (sections_of_foldlM Nesting.counted_empty hrun hfinish).1 List.not_mem_nil

end Sections

end Bracketry

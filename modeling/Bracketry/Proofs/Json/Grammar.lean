import Mathlib.Data.List.TakeWhile
import Bracketry.Json.Table

/-!
# The texts that are objects of lists of strings

There are many ways to write the same object: space may stand between its parts, and a character of a string may be escaped in
several ways. They are all read as the same members.

* `Spells`, `SpellsAll`, `Quoted` : the ways to write a character, the characters of a string, and a string between its quotes;
* `Padded`, `Separated`, `Enclosed` : an item with space around it, items with commas between them, and what stands behind the
  opening bracket of a list or an object;
* `IsMember`, `IsTable` : a name with its list of strings, and a whole text;
* `readString_spellsAll` : a string is read, however it is written, up to its closing quote;
* `read_separated` : items are read if each of them is, for any reader that goes from one to the next;
* `readTable_of_isTable` : a text is read as the tokens of its strings, in order.
-/

namespace Bracketry.Json

/-! ## Space -/

def IsSpacing (gap : List Char) : Prop := ∀ c ∈ gap, isSpace c = true

theorem isSpacing_nil : IsSpacing [] := nofun

theorem isSpacing_space {gap : List Char} (h : IsSpacing gap) : IsSpacing (' ' :: gap) := List.forall_mem_cons.2 ⟨rfl, h⟩

theorem isSpacing_newline {gap : List Char} (h : IsSpacing gap) : IsSpacing ('\n' :: gap) := List.forall_mem_cons.2 ⟨rfl, h⟩

theorem skipSpace_of_not_isSpace {c : Char} (h : isSpace c = false) (rest : List Char) : skipSpace (c :: rest) = c :: rest :=
  List.dropWhile_cons_of_neg (by simp [h])

theorem skipSpace_append {gap : List Char} (hgap : IsSpacing gap) {c : Char} (h : isSpace c = false) (rest : List Char) :
    skipSpace (gap ++ c :: rest) = c :: rest := by
  rw [skipSpace, List.dropWhile_append_of_pos hgap]
  exact skipSpace_of_not_isSpace h rest

theorem skipSpace_of_isSpacing {gap : List Char} (hgap : IsSpacing gap) : skipSpace gap = [] :=
  List.dropWhile_eq_nil_iff.2 hgap

/-! ## Characters of a string -/

def HexDigit (c : Char) (n : Nat) : Prop := n < 16 ∧ (c = n.digitChar ∨ c = n.digitChar.toUpper)

inductive Hex : List Char → Nat → Prop
  | digits {a b c d : Char} {i j k l : Nat} (ha : HexDigit a i) (hb : HexDigit b j) (hc : HexDigit c k) (hd : HexDigit d l) :
      Hex [a, b, c, d] (0x1000 * i + 0x100 * j + 0x10 * k + l)

/-- The letters behind a backslash that stand for one character. -/
def shortEscapes : List (Char × Char) :=
  [('"', '"'), ('\\', '\\'), ('/', '/'), ('b', '\x08'), ('f', '\x0c'), ('n', '\n'), ('r', '\r'), ('t', '\t')]

/-- The ways to write a character inside a string. -/
inductive Spells : Char → List Char → Prop
  | plain {c : Char} (hquote : c ≠ '"') (hbackslash : c ≠ '\\') (hcontrol : 0x20 ≤ c.toNat) : Spells c [c]
  | short {letter c : Char} (h : (letter, c) ∈ shortEscapes) : Spells c ['\\', letter]
  | unit {c : Char} {digits : List Char} (h : Hex digits c.toNat) : Spells c ('\\' :: 'u' :: digits)
  /-- A character beyond the first 65536 is written as two surrogates. -/
  | pair {c : Char} {high low : Nat} {digits digits' : List Char} (hhigh : high < 0x400) (hlow : low < 0x400)
      (hc : c.toNat = 0x10000 + 0x400 * high + low) (h : Hex digits (0xD800 + high)) (h' : Hex digits' (0xDC00 + low)) :
      Spells c ('\\' :: 'u' :: (digits ++ '\\' :: 'u' :: digits'))

inductive SpellsAll : List Char → List Char → Prop
  | nil : SpellsAll [] []
  | cons {c : Char} {s piece text : List Char} (hc : Spells c piece) (hs : SpellsAll s text) : SpellsAll (c :: s) (piece ++ text)

def Quoted (s : String) (text : List Char) : Prop := ∃ inside, SpellsAll s.toList inside ∧ text = '"' :: (inside ++ ['"'])

/-! ## Parts of an object -/

section
variable {α : Type} (item : α → List Char → Prop)

def Padded (a : α) (text : List Char) : Prop :=
  ∃ before inside after, IsSpacing before ∧ item a inside ∧ IsSpacing after ∧ text = before ++ (inside ++ after)

/-- One or more items with commas between them. -/
inductive Separated : List α → List Char → Prop
  | last {a : α} {text : List Char} (h : item a text) : Separated [a] text
  | next {a : α} {list : List α} {text rest : List Char} (h : item a text) (hrest : Separated list rest) :
      Separated (a :: list) (text ++ ',' :: rest)

/-- What stands behind the opening bracket of a list or an object, the closing bracket included. -/
inductive Enclosed (closer : Char) : List α → List Char → Prop
  | empty {gap : List Char} (hgap : IsSpacing gap) : Enclosed closer [] (gap ++ [closer])
  | items {list : List α} {text : List Char} (h : Separated (Padded item) list text) : Enclosed closer list (text ++ [closer])

end

def IsMember (member : String × List String) (text : List Char) : Prop :=
  ∃ name before after list, Quoted member.1 name ∧ IsSpacing before ∧ IsSpacing after ∧ Enclosed Quoted ']' member.2 list ∧
    text = name ++ (before ++ ':' :: (after ++ '[' :: list))

/-- A whole text: an object of lists of strings, its names in the order of the text. -/
def IsTable (members : List (String × List String)) (text : List Char) : Prop :=
  ∃ before object after, IsSpacing before ∧ IsSpacing after ∧ Enclosed IsMember '}' members object ∧
    text = before ++ '{' :: (object ++ after)

/-! ## Strings are read -/

theorem hexDigit?_of_hexDigit {c : Char} {n : Nat} (h : HexDigit c n) : hexDigit? c = some n := by
  have hall : ∀ n < 16, hexDigit? n.digitChar = some n ∧ hexDigit? n.digitChar.toUpper = some n := by decide
  obtain ⟨hn, rfl | rfl⟩ := h
  · exact (hall n hn).1
  · exact (hall n hn).2

theorem readHex_hex {digits : List Char} {unit : Nat} (h : Hex digits unit) (rest : List Char) :
    readHex (digits ++ rest) = .ok (unit, rest) := by
  obtain ⟨ha, hb, hc, hd⟩ := h
  simp only [List.cons_append, List.nil_append, readHex, List.mapM_cons, List.mapM_nil, hexDigit?_of_hexDigit ha,
    hexDigit?_of_hexDigit hb, hexDigit?_of_hexDigit hc, hexDigit?_of_hexDigit hd, Option.pure_def, Option.bind_eq_bind,
    Option.bind_some, List.foldl_cons, List.foldl_nil, Except.ok.injEq, Prod.mk.injEq, and_true]
  omega

theorem not_surrogate (c : Char) : isLowSurrogate c.toNat = false ∧ isHighSurrogate c.toNat = false := by
  have hvalid : c.toNat < 0xD800 ∨ 0xDFFF < c.toNat ∧ c.toNat < 0x110000 := c.valid
  simp only [isLowSurrogate, isHighSurrogate, Bool.and_eq_false_iff, decide_eq_false_iff_not]
  omega

theorem readUnicode_unit {c : Char} {digits : List Char} (h : Hex digits c.toNat) (rest : List Char) :
    readUnicode (digits ++ rest) = .ok (c, rest) := by
  obtain ⟨hlow, hhigh⟩ := not_surrogate c
  rw [readUnicode, readHex_hex h]
  simp [bind, Except.bind, hlow, hhigh, pure, Except.pure, Char.ofNat_toNat]

theorem readUnicode_pair {c : Char} {high low : Nat} {digits digits' : List Char} (hhigh : high < 0x400) (hlow : low < 0x400)
    (hc : c.toNat = 0x10000 + 0x400 * high + low) (h : Hex digits (0xD800 + high)) (h' : Hex digits' (0xDC00 + low))
    (rest : List Char) : readUnicode (digits ++ '\\' :: 'u' :: (digits' ++ rest)) = .ok (c, rest) := by
  have hfirst : isLowSurrogate (0xD800 + high) = false ∧ isHighSurrogate (0xD800 + high) = true := by
    simp only [isLowSurrogate, isHighSurrogate, Bool.and_eq_false_iff, Bool.and_eq_true, decide_eq_false_iff_not, decide_eq_true_eq]
    omega
  have hsecond : isLowSurrogate (0xDC00 + low) = true := by
    simp only [isLowSurrogate, Bool.and_eq_true, decide_eq_true_eq]
    omega
  have hvalue : 0x10000 + (0xD800 + high - 0xD800) * 0x400 + (0xDC00 + low - 0xDC00) = c.toNat := by omega
  rw [readUnicode, readHex_hex h]
  simp only [bind, Except.bind, hfirst, readHex_hex h', hsecond, hvalue, Char.ofNat_toNat]
  simp [pure, Except.pure]

theorem readEscape_short {letter c : Char} (h : (letter, c) ∈ shortEscapes) (rest : List Char) :
    readEscape (letter :: rest) = .ok (c, rest) := by
  simp only [shortEscapes, List.mem_cons, Prod.mk.injEq, List.not_mem_nil, or_false] at h
  rcases h with ⟨rfl, rfl⟩ | ⟨rfl, rfl⟩ | ⟨rfl, rfl⟩ | ⟨rfl, rfl⟩ | ⟨rfl, rfl⟩ | ⟨rfl, rfl⟩ | ⟨rfl, rfl⟩ | ⟨rfl, rfl⟩ <;> rfl

theorem readString_quote (rest : List Char) : readString ('"' :: rest) = .ok ([], rest) := by
  rw [readString]

theorem readString_backslash {c : Char} {escaped rest : List Char} (h : readEscape escaped = .ok (c, rest)) :
    readString ('\\' :: escaped) = (readString rest).map fun (s, rest) => (c :: s, rest) := by
  rw [readString]
  split
  · next heq => rw [h] at heq; cases heq
  · next heq => rw [h] at heq; cases heq; rfl

theorem readString_plain {c : Char} (hquote : c ≠ '"') (hbackslash : c ≠ '\\') (hcontrol : ¬c.toNat < 0x20)
    (rest : List Char) : readString (c :: rest) = (readString rest).map fun (s, rest) => (c :: s, rest) := by
  rw [readString]
  · exact if_neg hcontrol
  · exact fun h => hquote h
  · exact fun h => hbackslash h

theorem readString_spells {c : Char} {piece : List Char} (h : Spells c piece) (rest : List Char) :
    readString (piece ++ rest) = (readString rest).map fun (s, rest) => (c :: s, rest) := by
  cases h with
  | plain hquote hbackslash hcontrol => exact readString_plain hquote hbackslash (Nat.not_lt.2 hcontrol) rest
  | short h => exact readString_backslash (readEscape_short h rest)
  | unit h => exact readString_backslash (readUnicode_unit h rest)
  | pair hhigh hlow hc h h' =>
    rw [List.cons_append, List.cons_append, List.append_assoc, List.cons_append, List.cons_append]
    exact readString_backslash (readUnicode_pair hhigh hlow hc h h' rest)

/-- However a string is written, it is read up to its closing quote, and what follows remains. -/
theorem readString_spellsAll {s inside : List Char} (h : SpellsAll s inside) (rest : List Char) :
    readString (inside ++ '"' :: rest) = .ok (s, rest) := by
  induction h with
  | nil => exact readString_quote rest
  | cons hc _ ih =>
    rw [List.append_assoc, readString_spells hc, ih]
    rfl

/-! ## Items are read -/

section
variable {α β : Type} {item : α → List Char → Prop} {value : α → Except InterchangeFault β}
  {readItem : List Char → Except InterchangeFault (β × List Char)}
  {read : List Char → Except InterchangeFault (List β × List Char)} {closer : Char} {list : List α} {text : List Char}

/-- Every item starts with a quote and is read as its value, whatever follows it. -/
structure Reads (item : α → List Char → Prop) (value : α → Except InterchangeFault β)
    (readItem : List Char → Except InterchangeFault (β × List Char)) : Prop where
  starts {a : α} {text : List Char} : item a text → ∃ next, text = '"' :: next
  reads {a : α} {text : List Char} (rest : List Char) :
    item a text → readItem (text ++ rest) = (value a).map fun b => (b, rest)

/-- The reader reads one item after another, as far as the closing bracket. -/
structure ReadsOn (readItem : List Char → Except InterchangeFault (β × List Char))
    (read : List Char → Except InterchangeFault (List β × List Char)) (closer : Char) : Prop where
  error {text : List Char} {fault : InterchangeFault} : readItem text = .error fault → read text = .error fault
  last {text after rest : List Char} {b : β} :
    readItem text = .ok (b, after) → skipSpace after = closer :: rest → read text = .ok ([b], rest)
  next {text after more next : List Char} {b : β} :
    readItem text = .ok (b, after) → skipSpace after = ',' :: more → skipSpace more = '"' :: next →
      read text = (read ('"' :: next)).map fun (list, rest) => (b :: list, rest)

theorem skipSpace_padded (hitem : Reads item value readItem) {a : α} (h : Padded item a text) (rest : List Char) :
    ∃ inside after, item a inside ∧ IsSpacing after ∧ skipSpace (text ++ rest) = inside ++ (after ++ rest) := by
  obtain ⟨before, inside, after, hbefore, ha, hafter, rfl⟩ := h
  obtain ⟨next, rfl⟩ := hitem.starts ha
  refine ⟨_, after, ha, hafter, ?_⟩
  rw [List.append_assoc, List.append_assoc]
  exact skipSpace_append hbefore rfl _

theorem exists_skipSpace_separated (hitem : Reads item value readItem) (h : Separated (Padded item) list text) (rest : List Char) :
    ∃ next, skipSpace (text ++ rest) = '"' :: next := by
  have hstart : ∀ {a text} (_ : Padded item a text) rest, ∃ next, skipSpace (text ++ rest) = '"' :: next := by
    intro a text h rest
    obtain ⟨inside, after, ha, -, hskip⟩ := skipSpace_padded hitem h rest
    obtain ⟨next, rfl⟩ := hitem.starts ha
    exact ⟨_, hskip⟩
  cases h with
  | last h => exact hstart h rest
  | next h _ =>
    rw [List.append_assoc]
    exact hstart h _

/-- Items are read as their values, up to the first one that has none. -/
theorem read_separated (hitem : Reads item value readItem) (hread : ReadsOn readItem read closer) (hcloser : isSpace closer = false)
    (h : Separated (Padded item) list text) (rest : List Char) :
    read (skipSpace (text ++ closer :: rest)) = (list.mapM value).map fun values => (values, rest) := by
  induction h with
  | @last a text h =>
    obtain ⟨inside, after, ha, hafter, hskip⟩ := skipSpace_padded hitem h (closer :: rest)
    have hfirst := hitem.reads (after ++ closer :: rest) ha
    rw [hskip, List.mapM_cons]
    cases hvalue : value a with
    | error fault =>
      rw [hvalue] at hfirst
      exact hread.error hfirst
    | ok b =>
      rw [hvalue] at hfirst
      exact hread.last hfirst (skipSpace_append hafter hcloser rest)
  | @next a list text more h hmore ih =>
    rw [List.append_assoc, List.cons_append]
    obtain ⟨inside, after, ha, hafter, hskip⟩ := skipSpace_padded hitem h (',' :: (more ++ closer :: rest))
    have hfirst := hitem.reads (after ++ ',' :: (more ++ closer :: rest)) ha
    rw [hskip, List.mapM_cons]
    cases hvalue : value a with
    | error fault =>
      rw [hvalue] at hfirst
      exact hread.error hfirst
    | ok b =>
      rw [hvalue] at hfirst
      obtain ⟨next, hnext⟩ := exists_skipSpace_separated hitem hmore (closer :: rest)
      rw [hread.next hfirst (skipSpace_append hafter rfl _) hnext, ← hnext, ih]
      cases list.mapM value <;> rfl

end

/-! ## Lists are read -/

def tokenOf (word : String) : Except InterchangeFault Token := (Token.ofWord word).mapError .rejected

def tokensOf (member : String × List String) : Except InterchangeFault (String × List Token) :=
  (member.2.mapM tokenOf).map fun tokens => (member.1, tokens)

theorem readToken_reads : Reads Quoted tokenOf readToken where
  starts := fun ⟨inside, _, h⟩ => ⟨inside ++ ['"'], h⟩
  reads := by
    rintro word _ rest ⟨inside, hinside, rfl⟩
    rw [List.cons_append, List.append_assoc, List.singleton_append, readToken, readString_spellsAll hinside]
    dsimp only
    rw [String.ofList_toList, tokenOf]
    cases Token.ofWord word <;> rfl

theorem readTokens_readsOn : ReadsOn readToken readTokens ']' where
  error := by
    intro text fault htoken
    rw [readTokens]
    split
    · next heq => rw [htoken] at heq; cases heq; rfl
    · next heq => rw [htoken] at heq; cases heq
  last := by
    intro text after rest t htoken hcloser
    rw [readTokens]
    split
    · next heq => rw [htoken] at heq; cases heq
    · next heq =>
      rw [htoken] at heq
      cases heq
      split
      · next heq => rw [hcloser] at heq; cases heq
      · next heq => rw [hcloser] at heq; cases heq; rfl
      · next heq => rw [hcloser] at heq; cases heq
      · next hother _ => exact absurd hcloser (hother rest)
  next := by
    intro text after more next t htoken hcomma hnext
    rw [readTokens]
    split
    · next heq => rw [htoken] at heq; cases heq
    · next heq =>
      rw [htoken] at heq
      cases heq
      split
      · next heq => rw [hcomma] at heq; cases heq
      · next heq => rw [hcomma] at heq; cases heq
      · next heq =>
        rw [hcomma] at heq
        cases heq
        split
        · next heq => rw [hnext] at heq; cases heq
        · next heq => rw [hnext] at heq; cases heq
        · next heq => rw [hnext] at heq; cases heq; rfl
      · next hother => exact absurd hcomma (hother more)

theorem readList_enclosed {words : List String} {list : List Char} (h : Enclosed Quoted ']' words list) (rest : List Char) :
    readList (list ++ rest) = (words.mapM tokenOf).map fun tokens => (tokens, rest) := by
  unfold readList
  cases h with
  | @empty gap hgap =>
    rw [List.append_assoc, List.singleton_append, skipSpace_append hgap rfl]
    rfl
  | @items _ text h =>
    rw [List.append_assoc, List.singleton_append]
    have hread := read_separated readToken_reads readTokens_readsOn rfl h rest
    obtain ⟨next, hnext⟩ := exists_skipSpace_separated readToken_reads h (']' :: rest)
    rw [hnext] at hread ⊢
    exact hread

/-! ## Objects are read -/

theorem readMember_reads : Reads IsMember tokensOf readMember where
  starts := by
    rintro member _ ⟨_, before, after, list, ⟨inside, -, rfl⟩, -, -, -, rfl⟩
    exact ⟨_, rfl⟩
  reads := by
    rintro member _ rest ⟨_, before, after, list, ⟨inside, hname, rfl⟩, hbefore, hafter, hlist, rfl⟩
    have htext : '"' :: (inside ++ ['"']) ++ (before ++ ':' :: (after ++ '[' :: list)) ++ rest =
        '"' :: (inside ++ '"' :: (before ++ ':' :: (after ++ '[' :: (list ++ rest)))) := by
      simp
    rw [htext, readMember, readString_spellsAll hname]
    simp only [skipSpace_append hbefore (show isSpace ':' = false from rfl),
      skipSpace_append hafter (show isSpace '[' = false from rfl), readList_enclosed hlist, String.ofList_toList]
    rw [tokensOf]
    cases member.2.mapM tokenOf <;> rfl

theorem readMembers_readsOn : ReadsOn readMember readMembers '}' where
  error := by
    intro text fault hmember
    rw [readMembers]
    split
    · next heq => rw [hmember] at heq; cases heq; rfl
    · next heq => rw [hmember] at heq; cases heq
  last := by
    intro text after rest member hmember hcloser
    rw [readMembers]
    split
    · next heq => rw [hmember] at heq; cases heq
    · next heq =>
      rw [hmember] at heq
      cases heq
      split
      · next heq => rw [hcloser] at heq; cases heq
      · next heq => rw [hcloser] at heq; cases heq; rfl
      · next heq => rw [hcloser] at heq; cases heq
      · next hother _ => exact absurd hcloser (hother rest)
  next := by
    intro text after more next member hmember hcomma hnext
    rw [← hnext, readMembers]
    split
    · next heq => rw [hmember] at heq; cases heq
    · next heq =>
      rw [hmember] at heq
      cases heq
      split
      · next heq => rw [hcomma] at heq; cases heq
      · next heq => rw [hcomma] at heq; cases heq
      · next heq => rw [hcomma] at heq; cases heq; rfl
      · next hother => exact absurd hcomma (hother more)

theorem readObject_enclosed {members : List (String × List String)} {object : List Char} (h : Enclosed IsMember '}' members object)
    (rest : List Char) : readObject (object ++ rest) = (members.mapM tokensOf).map fun members => (members, rest) := by
  unfold readObject
  cases h with
  | @empty gap hgap =>
    rw [List.append_assoc, List.singleton_append, skipSpace_append hgap rfl]
    rfl
  | @items _ text h =>
    rw [List.append_assoc, List.singleton_append]
    have hread := read_separated readMember_reads readMembers_readsOn rfl h rest
    obtain ⟨next, hnext⟩ := exists_skipSpace_separated readMember_reads h ('}' :: rest)
    rw [hnext] at hread ⊢
    exact hread

/-- However an object of lists of strings is written, it is read as its members with the tokens of their strings. -/
theorem readTable_of_isTable {members : List (String × List String)} {text : List Char} (h : IsTable members text) :
    readTable text = members.mapM tokensOf := by
  obtain ⟨before, object, after, hbefore, hafter, hobject, rfl⟩ := h
  unfold readTable
  rw [skipSpace_append hbefore rfl]
  simp only [readObject_enclosed hobject]
  cases members.mapM tokensOf with
  | error fault => rfl
  | ok members =>
    simp only [Except.map, skipSpace_of_isSpacing hafter]
    rfl

end Bracketry.Json

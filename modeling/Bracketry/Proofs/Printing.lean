import Bracketry.Encode
import Bracketry.Proofs.Called
import Bracketry.Proofs.Effects
import Bracketry.Proofs.Program.Extraction
import Bracketry.Proofs.Source.Rendering

/-!
# Programs that print a text

The encoder writes down a program, as text, and that program prints what was encoded.

* `sending`, `printer` : the tokens that print one byte, and those of the whole program;
* `Source.wordsOf_encodeBytes`, `Source.lex_encodeBytes` : the text is lexed to these tokens;
* `Program.ofSource_encodeBytes` : they are a program;
* `Machine.Sends` : what a machine has become when it has printed some bytes through its first cell;
* `Machine.sends_operands` : each byte is stored and written in turn;
* `interpret_encode` : the program of a text prints its bytes and does nothing else.
-/

namespace Bracketry

def sending (byte : UInt8) : List Token := [.literal (.ofNat byte.toNat), .builtin .output]

/-- The tokens of a program that prints the bytes in order. -/
def printer (bytes : List UInt8) : List Token :=
  .opening .applicator :: .literal 0 :: (bytes.flatMap sending ++ [.closing .applicator])

/-! ## The text -/

namespace Source

/-- The text of the operands for a byte, after a space. -/
def sendingText (byte : UInt8) : List Char := ' ' :: ((toString byte).toList ++ [' ', '.'])

theorem toList_encodeBytes (bytes : List UInt8) :
    (encodeBytes bytes).toList = '[' :: '0' :: (bytes.flatMap sendingText ++ [']']) := by
  have hsending : ∀ byte : UInt8, s!" {byte} .".toList = sendingText byte := by
    intro byte
    change (" " ++ toString byte ++ " .").toList = _
    simp [sendingText]
  rw [encodeBytes, String.toList_append, String.toList_append, String.toList_join, List.flatMap_map]
  simp only [hsending]
  rfl

theorem toList_toString_byte (byte : UInt8) :
    ∃ c digits, (toString byte).toList = c :: digits ∧ ∀ d ∈ c :: digits, isWordChar d = true ∧ d ≠ '#' := by
  have hdigits : (toString byte).toList = Nat.toDigits 10 byte.toNat := by
    change byte.toNat.repr.toList = _
    rw [Nat.repr_eq_ofList_toDigits, String.toList_ofList]
  obtain ⟨c, digits, heq, -⟩ := Numeral.exists_toDigits_eq_cons byte.toNat
  refine ⟨c, digits, hdigits.trans heq, fun d hd => isWordChar_of_isDigit ?_⟩
  exact Nat.isDigit_of_mem_toDigits (by decide) (by decide) (heq ▸ hd)

/-- What follows an operand is a space or the closing bracket, so that the operand is a word. -/
theorem isWordChar_head (bytes : List UInt8) :
    ∀ d ∈ (bytes.flatMap sendingText ++ [']']).head?, isWordChar d = false := by
  cases bytes with
  | nil => simp; decide
  | cons byte bytes => simp [sendingText]; decide

theorem words_char {c : Char} (hc : isWordChar c = true) (bytes : List UInt8) :
    words (c :: (bytes.flatMap sendingText ++ [']'])) = [c] :: words (bytes.flatMap sendingText ++ [']']) :=
  words_run (List.forall_mem_singleton.2 hc) (isWordChar_head bytes)

theorem words_sendingText (bytes : List UInt8) :
    words (bytes.flatMap sendingText ++ [']']) = bytes.flatMap (fun byte => [(toString byte).toList, ['.']]) ++ [[']']] := by
  induction bytes with
  | nil => exact (words_bracket (by decide)).trans (by rw [words]; rfl)
  | cons byte bytes ih =>
    obtain ⟨c, digits, hdigits, hword⟩ := toList_toString_byte byte
    have hdot : words (' ' :: '.' :: (bytes.flatMap sendingText ++ [']'])) = ['.'] :: words (bytes.flatMap sendingText ++ [']']) :=
      (words_blank (by decide)).trans (words_char (by decide) bytes)
    have hsent : (byte :: bytes).flatMap sendingText ++ [']'] =
        ' ' :: (c :: digits ++ ' ' :: '.' :: (bytes.flatMap sendingText ++ [']'])) := by
      simp [sendingText, hdigits]
    rw [hsent, words_blank (by decide), words_run (fun d hd => (hword d hd).1) (by simp; decide), hdot, ih, List.flatMap_cons,
      hdigits]
    rfl

theorem not_mem_sendingText (byte : UInt8) : '#' ∉ sendingText byte := by
  obtain ⟨c, digits, hdigits, hword⟩ := toList_toString_byte byte
  have hmark : '#' ∉ c :: digits := fun hmem => (hword '#' hmem).2 rfl
  rw [sendingText, hdigits]
  simpa using hmark

theorem text_sending (byte : UInt8) : (sending byte).map Token.text = [toString byte, "."] := by
  have hlt := byte.toNat_lt
  have hvalue : (Int64.ofNat byte.toNat).toInt = byte.toNat := Int64.toInt_ofNat_of_lt (by omega)
  change [toString (Int64.ofNat byte.toNat).toInt, "."] = _
  rw [hvalue]
  rfl

theorem wordsOf_encodeBytes (bytes : List UInt8) : wordsOf (encodeBytes bytes) = (printer bytes).map Token.text := by
  have hmark : '#' ∉ (encodeBytes bytes).toList := by
    rw [toList_encodeBytes]
    simpa using fun byte _ => not_mem_sendingText byte
  rw [wordsOf, splitWords, stripComments, String.toList_ofList, removeComments_eq_self hmark, toList_encodeBytes,
    words_bracket (by decide)]
  rw [words_char (by decide), words_sendingText, printer]
  simp only [List.map_cons, List.map_append, List.map_flatMap, text_sending, List.map_nil, String.ofList_toList]
  rfl

theorem lex_encodeBytes (bytes : List UInt8) : lex (encodeBytes bytes) = .ok (printer bytes) := by
  have hlegible : ∀ t ∈ printer bytes, t.IsLegible := by
    refine fun t ht => Token.isLegible_of_ne ?_
    rintro name rfl
    simp [printer, sending] at ht
  rw [lex, wordsOf_encodeBytes, mapM_eq_ok_iff, List.forall₂_map_left_iff]
  exact List.forall₂_same.2 hlegible

end Source

/-! ## The program -/

theorem isPlain_of_mem_sending {byte : UInt8} {t : Token} (h : t ∈ sending byte) : t.isPlain = true ∧ t.isArgument = false := by
  rcases List.mem_cons.1 h with rfl | h
  · exact ⟨rfl, rfl⟩
  · obtain rfl := List.mem_singleton.1 h
    exact ⟨rfl, rfl⟩

theorem closes_printer (bytes : List UInt8) : Closes [] (printer bytes) := by
  refine .opening (by decide) (.plain rfl ?_)
  have hplain : ∀ t ∈ bytes.flatMap sending, t.isPlain = true := by
    intro t ht
    obtain ⟨byte, -, hbyte⟩ := List.mem_flatMap.1 ht
    exact (isPlain_of_mem_sending hbyte).1
  generalize bytes.flatMap sending = operands at hplain
  induction operands with
  | nil => exact .closing .nil
  | cons t operands ih =>
    obtain ⟨ht, hrest⟩ := List.forall_mem_cons.1 hplain
    exact .plain ht (ih hrest)

theorem Program.ofSource_encodeBytes (bytes : List UInt8) :
    Program.ofSource (encodeBytes bytes) = .ok (.ofEntry (printer bytes)) := by
  have hnested : checkBrackets (printer bytes) = .ok () := (closes_iff.1 (closes_printer bytes)).1
  have hbrace : ∀ t ∈ printer bytes, t.isBrace = false := (closes_printer bytes).isBrace_eq_false List.not_mem_nil
  have hargument : (printer bytes).any Token.isArgument = false := by
    simp [printer, sending, Token.isArgument]
  unfold ofSource ofTokens
  rw [Source.lex_encodeBytes]
  change (checkBrackets (printer bytes)).mapError Error.brackets >>= _ = _
  rw [hnested]
  change ((ofEntry []).collect (printer bytes) >>= _) = _
  rw [collect_of_not_mem (not_mem_of_isBrace_eq_false _ rfl hbrace)]
  change (if (printer bytes).any Token.isArgument then _ else _) = _
  rw [hargument]
  rfl

/-! ## Operands -/

namespace Pass
variable {σ V A : Type} (b : Backend σ V A) (program : Program)

/-- Plain tokens in an applicator are kept until it closes. -/
theorem run_waiting {tokens : List Token} (hplain : ∀ t ∈ tokens, t.isPlain = true) (kept : List (Item V)) (rest : List Token)
    (stack : List (Entry V A)) (loops : List (List Token)) (fuel : Nat) :
    run b program (tokens.length + fuel) ⟨tokens ++ rest, Item.onto (.applicator :: stack) kept, loops⟩ =
      run b program fuel ⟨rest, Item.onto (.applicator :: stack) (kept ++ tokens.map Item.token), loops⟩ := by
  induction tokens generalizing kept with
  | nil => simp
  | cons t tokens ih =>
    obtain ⟨ht, hrest⟩ := List.forall_mem_cons.1 hplain
    have hplace : (Place.applicator : Place A).IsOn (Item.onto (.applicator :: stack) kept) :=
      Item.isOn_onto (Place.isOn_applicator stack) trivial
    have hnext := ih hrest (kept ++ [.token t])
    rw [List.append_assoc, Item.onto_append _ kept [.token t]] at hnext
    rw [List.length_cons, Nat.add_right_comm, List.cons_append, run_token b program hplace ht]
    change pure () >>= (fun _ => _) = _
    rw [pure_bind]
    exact hnext

/-- A body that is one applicator with plain operands applies them. -/
theorem evaluate_applicator {operands : List Token} (hplain : ∀ t ∈ operands, t.isPlain = true) (fuel : Nat) :
    evaluate b program (operands.length + fuel + 2) (.opening .applicator :: (operands ++ [.closing .applicator])) =
      Item.applied b program (operands.map Item.token) >>= fun _ => pure () := by
  have hwaiting : run b program (operands.length + (fuel + 1)) ⟨operands ++ [.closing .applicator], [.applicator], []⟩ =
      run b program (fuel + 1) ⟨[.closing .applicator], Item.onto [.applicator] (operands.map Item.token), []⟩ :=
    run_waiting b program hplain [] [.closing .applicator] [] [] (fuel + 1)
  rw [evaluate, run_opening_applicator, Nat.add_assoc, hwaiting, run_closing_applicator b program]
  refine congrArg _ (funext fun value => ?_)
  cases fuel <;> rfl

end Pass

/-! ## Bytes -/

namespace Machine
variable {limits : Limits} {program : Program} {evaluateBody : List Token → Action Machine Unit} {machine : Machine}

/-- What a machine becomes when it sends a byte through its first cell. -/
def sent (machine : Machine) (byte : UInt8) : Machine :=
  { machine with
    memory := machine.memory.set 0 byte
    streams := { machine.streams with writes := [], log := .write byte .accepted :: machine.streams.log } }

theorem events_foldl_sent (bytes : List UInt8) (machine : Machine) :
    (bytes.foldl sent machine).streams.events = machine.streams.events ++ bytes.map fun byte => .write byte .accepted := by
  induction bytes generalizing machine with
  | nil => exact (List.append_nil _).symm
  | cons byte bytes ih =>
    rw [List.foldl_cons, ih, List.map_cons, List.append_cons]
    exact congrArg (· ++ _) List.reverse_cons

theorem flushes_foldl_sent (bytes : List UInt8) (machine : Machine) :
    (bytes.foldl sent machine).streams.flushes = machine.streams.flushes := by
  induction bytes generalizing machine with
  | nil => rfl
  | cons byte bytes ih => exact ih (machine.sent byte)

theorem memory_foldl_sent (bytes : List UInt8) (hmemory : 0 < machine.memory.size) :
    (bytes.foldl sent machine).memory.size = machine.memory.size ∧
      (bytes.foldl sent machine).memory.value 0 = bytes.getLastD (machine.memory.value 0) ∧
      ∀ address ≠ 0, (bytes.foldl sent machine).memory.get? address = machine.memory.get? address := by
  induction bytes generalizing machine with
  | nil => exact ⟨rfl, rfl, fun _ _ => rfl⟩
  | cons byte bytes ih =>
    have hsize : (machine.sent byte).memory.size = machine.memory.size := machine.memory.size_set 0 byte
    have hvalue : (machine.sent byte).memory.value 0 = byte := by
      change ((machine.memory.set 0 byte).get? 0).getD 0 = byte
      rw [Memory.get?_set, if_pos ⟨rfl, hmemory⟩]
      rfl
    obtain ⟨hsize', hvalue', hothers⟩ := ih (hsize.symm ▸ hmemory)
    refine ⟨hsize'.trans hsize, ?_, fun address haddress => (hothers address haddress).trans ?_⟩
    · rw [hvalue] at hvalue'
      exact hvalue'.trans (by cases bytes <;> rfl)
    · change (machine.memory.set 0 byte).get? address = _
      rw [Memory.get?_set, if_neg fun h => haddress h.1]

theorem forM_sending (byte : UInt8) (hmemory : 0 < machine.memory.size) (hwrites : machine.streams.writes = []) :
    ((sending byte).map Item.token).forM (Item.apply (backendWith limits program evaluateBody) program 0) machine =
      .ok () (machine.sent byte) := by
  have hbyte : (Int64.ofNat byte.toNat).toUInt64.toUInt8 = byte := by simp
  let stored : Machine := { machine with memory := machine.memory.set 0 byte }
  have hstore : Item.apply (backendWith limits program evaluateBody) program 0 (.token (.literal (.ofNat byte.toNat)))
      machine = .ok () stored := by
    change store 0 (Int64.ofNat byte.toNat).toUInt64.toUInt8 machine = _
    rw [hbyte, store_eq hmemory]
  have hoccupied : 0 < stored.memory.size := (machine.memory.size_set 0 byte).symm ▸ hmemory
  have hvalue : stored.memory.value 0 = byte := by
    change ((machine.memory.set 0 byte).get? 0).getD 0 = byte
    rw [Memory.get?_set, if_pos ⟨rfl, hmemory⟩]
    rfl
  have hwrite : Item.apply (backendWith limits program evaluateBody) program 0 (.token (.builtin .output)) stored =
      .ok () (machine.sent byte) := by
    refine (Action.bind_of_ok (cell_eq hoccupied)).trans ?_
    rw [hvalue]
    have htaken : stored.streams.write byte =
        (.ok (), { machine.streams with writes := [], log := .write byte .accepted :: machine.streams.log }) := by
      change Streams.writeFrom byte machine.streams machine.streams.writes = _
      rw [hwrites]
      rfl
    exact perform_of_ok htaken
  exact (Action.bind_of_ok hstore).trans ((Action.bind_of_ok hwrite).trans rfl)

/-- The operands of all bytes send one byte after the other. -/
theorem forM_flatMap_sending (bytes : List UInt8) (hmemory : 0 < machine.memory.size) (hwrites : machine.streams.writes = []) :
    ((bytes.flatMap sending).map Item.token).forM (Item.apply (backendWith limits program evaluateBody) program 0)
      machine = .ok () (bytes.foldl sent machine) := by
  induction bytes generalizing machine with
  | nil => rfl
  | cons byte bytes ih =>
    have hsize : 0 < (machine.sent byte).memory.size := (machine.memory.size_set 0 byte).symm ▸ hmemory
    rw [List.flatMap_cons, List.map_append, List.forM_eq_forM, List.forM_append]
    exact (Action.bind_of_ok (forM_sending byte hmemory hwrites)).trans (ih hsize rfl)

/-- The body of the program of some bytes sends them. -/
theorem passBody_printer (bytes : List UInt8) (hsize : 0 < limits.dataSize) (hmemory : 0 < machine.memory.size)
    (hwrites : machine.streams.writes = []) (fuel : Nat) :
    passBody limits program ((Token.literal 0 :: bytes.flatMap sending).length + fuel + 3) (printer bytes) machine =
      .ok () (bytes.foldl sent machine) := by
  have hplain : ∀ t ∈ Token.literal 0 :: bytes.flatMap sending, t.isPlain = true := by
    refine List.forall_mem_cons.2 ⟨rfl, fun t ht => ?_⟩
    obtain ⟨byte, -, hbyte⟩ := List.mem_flatMap.1 ht
    exact (isPlain_of_mem_sending hbyte).1
  rw [passBody, backend_eq, printer, ← List.cons_append, Pass.evaluate_applicator _ program hplain]
  generalize passBody limits program ((Token.literal 0 :: bytes.flatMap sending).length + fuel + 2) = evaluateBody
  have hcheck : limits.checkAddress 0 = .ok 0 := Limits.checkAddress_of_addressable ⟨hsize, rfl⟩ rfl
  have haddress : Item.address (backendWith limits program evaluateBody) (.token (.literal 0)) machine = .ok 0 machine := by
    change Action.ofExcept (limits.checkAddress 0) machine = _
    rw [hcheck]
    rfl
  obtain ⟨hleft, -, -⟩ := memory_foldl_sent bytes hmemory
  -- The value of the applicator is the last byte; at the top level nothing is done with it.
  have hresolve : (backendWith limits program evaluateBody).resolve 0 (bytes.foldl sent machine) = .ok _ (bytes.foldl sent machine) :=
    Action.bind_of_ok (cell_eq (hleft.symm ▸ hmemory))
  have happlied : Item.applied (backendWith limits program evaluateBody) program
      ((Token.literal 0 :: bytes.flatMap sending).map Item.token) machine = .ok _ (bytes.foldl sent machine) :=
    (Action.bind_of_ok haddress).trans ((Action.bind_of_ok (forM_flatMap_sending bytes hmemory hwrites)).trans hresolve)
  exact Action.bind_of_ok happlied

end Machine

namespace Streams
variable {streams : Streams} {bytes : List UInt8}

theorem flush_of_flushes_eq_nil (h : streams.flushes = []) :
    streams.flush = (.ok (), { streams with log := .flush .done :: streams.log }) := by
  unfold flush
  rw [h]

/-- A stream on which some bytes have been written and flushed, and nothing else. -/
theorem output_of_sent (h : streams.events = bytes.map (.write · .accepted) ++ [.flush .done]) : streams.output = bytes := by
  unfold output
  rw [h, List.filterMap_append, List.filterMap_map]
  exact (List.append_nil _).trans List.filterMap_some

theorem consumed_of_sent (h : streams.events = bytes.map (.write · .accepted) ++ [.flush .done]) : streams.consumed = 0 := by
  unfold consumed
  rw [h, List.filterMap_append, List.filterMap_map]
  exact congrArg List.length ((List.append_nil _).trans (List.filterMap_eq_nil_iff.2 fun _ _ => rfl))

end Streams

/-- Encoding is a right inverse of running. For every text the encoder writes a program. Whatever the input, and on any memory that has
a cell at all, running it ends well: its events are that it writes the bytes of the text in order and then flushes them. So it prints
just these bytes and reads nothing, and leaves the last byte in the first cell, or zero if there is none, and zero in the others. -/
theorem interpret_encode (limits : Limits) (hsize : 1 ≤ limits.dataSize) (text : String) :
    ∃ program, Program.ofSource (encode text) = .ok program ∧
      ∀ input, ∃ least, ∀ fuel ≥ least, ∃ machine, interpret limits program fuel input = .ok () machine ∧
        machine.streams.events = text.toUTF8.data.toList.map (.write · .accepted) ++ [.flush .done] ∧
        machine.streams.output = text.toUTF8.data.toList ∧ machine.streams.consumed = 0 ∧
        machine.memory.get? 0 = some (text.toUTF8.data.toList.getLastD 0) ∧
        ∀ address, 0 < address → address < limits.dataSize → machine.memory.get? address = some 0 := by
  generalize hbytes : text.toUTF8.data.toList = bytes
  refine ⟨.ofEntry (printer bytes), ?_, fun input => ?_⟩
  · rw [encode, hbytes, Program.ofSource_encodeBytes]
  let start : Machine := { memory := .zeroed limits.dataSize, streams := .ofInput input }
  have hcell : 0 < start.memory.size := hsize
  let before := bytes.foldl Machine.sent start
  let machine : Machine := { before with streams := { before.streams with log := .flush .done :: before.streams.log } }
  refine ⟨(Token.literal 0 :: bytes.flatMap sending).length + 2, fun fuel hfuel => ⟨machine, ?_, ?_⟩⟩
  · obtain ⟨more, hmore⟩ := Nat.exists_eq_add_of_le hfuel
    have hbody : Machine.passBody limits (.ofEntry (printer bytes)) (fuel + 1) (printer bytes) start = .ok () before := by
      rw [hmore, Nat.add_right_comm _ 2 more]
      exact Machine.passBody_printer bytes hsize hcell rfl more
    have hflush : before.streams.flush = (.ok (), machine.streams) :=
      Streams.flush_of_flushes_eq_nil (Machine.flushes_foldl_sent bytes start)
    exact Machine.run_eq_ok_iff.2 ⟨before, hbody, Machine.perform_of_ok hflush⟩
  have hevents : machine.streams.events = bytes.map (.write · .accepted) ++ [.flush .done] := by
    change (Event.flush .done :: before.streams.log).reverse = _
    rw [List.reverse_cons]
    exact congrArg (· ++ _) (Machine.events_foldl_sent bytes start)
  obtain ⟨hleft, hfirst, hothers⟩ := Machine.memory_foldl_sent bytes hcell
  refine ⟨hevents, Streams.output_of_sent hevents, Streams.consumed_of_sent hevents, ?_, fun address hpos haddress => ?_⟩
  · have hzero : start.memory.value 0 = 0 := by
      unfold Memory.value
      rw [Memory.get?_zeroed]
      exact congrArg (Option.getD · 0) (if_pos hcell)
    rw [hzero] at hfirst
    exact (Memory.get?_eq_some (hleft.symm ▸ hcell)).trans (congrArg some hfirst)
  · exact (hothers address (Nat.ne_of_gt hpos)).trans ((Memory.get?_zeroed _ _).trans (if_pos haddress))

/-- The program of `"Aé"` writes three bytes, although there is one cell only. -/
theorem interpret_encode_of_accent :
    encode "Aé" = "[0 65 . 195 . 169 .]" ∧
      ∃ program, Program.ofSource (encode "Aé") = .ok program ∧ ∃ fuel machine, interpret ⟨1, 0⟩ program fuel [7] = .ok () machine ∧
        machine.streams.output = [65, 195, 169] ∧ machine.streams.consumed = 0 ∧ machine.memory.get? 0 = some 169 := by
  refine ⟨by decide +kernel, ?_⟩
  obtain ⟨program, hprogram, hruns⟩ := interpret_encode ⟨1, 0⟩ (by decide) "Aé"
  obtain ⟨least, hleast⟩ := hruns [7]
  obtain ⟨machine, hrun, -, houtput, hconsumed, hfirst, -⟩ := hleast least (Nat.le_refl least)
  exact ⟨program, hprogram, least, machine, hrun, houtput.trans (by decide +kernel), hconsumed, hfirst.trans (by decide +kernel)⟩

end Bracketry

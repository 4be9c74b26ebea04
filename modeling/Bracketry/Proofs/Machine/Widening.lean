import Bracketry.Proofs.Machine.Twins

/-!
# Wider limits

Under wider limits a program does what it did before, except that it goes on where it was cut short.

* `Limits.Within` : limits that allow no less; `Error.IsLimit` : the errors that say that a limit was reached;
* `Machine.Later` : a machine whose streams have gone on from those of another;
* `Machine.Outlasts` : an action that does what another does, and goes on where a limit ends that one;
* `Machine.outlasting_respects`, `Machine.passBody_outlasts` : the effects of a program, and a body with all it calls;
* `Machine.run_of_within`, `Machine.output_of_within` : a program that no limit ends, and one that a limit ends;
* `Machine.run_widened` : both, on memories that agree where the narrower limits allow a look.
-/

namespace Bracketry

structure Limits.Within (limits wider : Limits) : Prop where
  dataSize : limits.dataSize ≤ wider.dataSize
  maxCallDepth : limits.maxCallDepth ≤ wider.maxCallDepth

def Error.IsLimit : Error → Prop
  | .addressOutOfRange _ | .callDepthExceeded _ => True
  | _ => False

theorem Limits.Within.checkAddress {limits wider : Limits} (h : limits.Within wider) {value : Int64} {address : Nat}
    (hcheck : limits.checkAddress value = .ok address) : wider.checkAddress value = .ok address := by
  obtain ⟨⟨hsize, hshown⟩, hvalue⟩ := addressable_of_checkAddress hcheck
  exact checkAddress_of_addressable ⟨Nat.lt_of_lt_of_le hsize h.dataSize, hshown⟩ hvalue

namespace Streams
variable {streams streams' : Streams}

theorem output_prefix (h : streams.log <:+ streams'.log) : streams.output <+: streams'.output :=
  (List.reverse_prefix.2 h).filterMap Event.byteWritten?

theorem output_note {after : Streams} (event : Event) (h : after.log = event :: streams.log) :
    after.output = streams.output ++ event.byteWritten?.toList := by
  unfold output events
  rw [h, List.reverse_cons, List.filterMap_append]
  cases hbyte : event.byteWritten? <;> simp [hbyte]

theorem output_flush (streams : Streams) : streams.flush.2.output = streams.output := by
  unfold flush
  cases streams.flushes <;> simp [output, events, Event.byteWritten?]

theorem flush_of_done (h : ∀ reply ∈ streams.flushes, reply = .done) : streams.flush.1 = .ok () := by
  unfold flush
  cases hflushes : streams.flushes with
  | nil => rfl
  | cons reply flushes =>
    obtain rfl := h reply (by rw [hflushes]; exact List.mem_cons_self)
    rfl

end Streams

namespace Machine

/-! ## Going on -/

/-- The streams of the second machine have gone on from those of the first. -/
structure Later (machine machine' : Machine) : Prop where
  log : machine.streams.log <:+ machine'.streams.log
  flushes : machine'.streams.flushes <:+ machine.streams.flushes

theorem Later.refl (machine : Machine) : Later machine machine := ⟨List.suffix_refl _, List.suffix_refl _⟩

theorem Later.trans {machine machine' machine'' : Machine} (h : Later machine machine') (h' : Later machine' machine'') :
    Later machine machine'' :=
  ⟨h.log.trans h'.log, h'.flushes.trans h.flushes⟩

variable {α β γ : Type}

/-- What does the same on twins only goes on. -/
theorem later_of_twins {x : Action Machine α} (h : ∀ start, (twins Eq start start).Rel Eq x x) (machine : Machine) :
    Later machine (after (x machine)) := by
  have htwin : Twin Eq machine.streams machine.streams machine machine := ⟨rfl, .refl _, rfl⟩
  obtain ⟨-, -, hstreams, -⟩ := resultOf_eq_of_abreast (h machine.streams machine machine htwin)
  obtain ⟨recent, hlog, -⟩ := hstreams.log
  exact ⟨⟨recent, hlog.symm⟩, hstreams.left⟩

theorem later_bind {machine start : Machine} {y : Action Machine β} {g : β → Action Machine γ}
    (hy : Later start (after (y machine))) (hg : ∀ b mid, y machine = .ok b mid → Later mid (after (g b mid))) :
    Later start (after ((y >>= g) machine)) := by
  cases hmid : y machine with
  | ok b mid =>
    rw [Action.bind_of_ok hmid]
    rw [hmid] at hy
    exact hy.trans (hg b mid hmid)
  | error stop mid =>
    rw [Action.bind_of_error hmid]
    rw [hmid] at hy
    exact hy

/-! ## Outlasting -/

/-- The second result is the first one, unless a limit ended that. Then the second run has gone on from there. -/
def Overtakes (R : α → β → Prop) (r : EStateM.Result Stop Machine α) (r' : EStateM.Result Stop Machine β) : Prop :=
  Relator.Abreast Eq R r r' ∨ ∃ error mid, r = .error (.fault error) mid ∧ error.IsLimit ∧ Later mid (after r')

/-- The second action does what the first does, unless a limit ends that. Then it goes on from there. -/
structure Outlasts (R : α → β → Prop) (x : Action Machine α) (y : Action Machine β) : Prop where
  result (machine : Machine) : Overtakes R (x machine) (y machine)
  later (machine : Machine) : Later machine (after (y machine))
  /-- What comes after the second action is known even where the first has ended. -/
  value {machine machine' : Machine} {b : β} (h : y machine = .ok b machine') : ∃ a, R a b

theorem Outlasts.bind {δ : Type} {R : α → β → Prop} {S : γ → δ → Prop} {x : Action Machine α} {y : Action Machine β}
    {f : α → Action Machine γ} {g : β → Action Machine δ} (hxy : Outlasts R x y) (hfg : ∀ a b, R a b → Outlasts S (f a) (g b)) :
    Outlasts S (x >>= f) (y >>= g) where
  result machine := by
    have hg : ∀ b mid, y machine = .ok b mid → Later mid (after (g b mid)) := by
      intro b mid hy
      obtain ⟨a, hab⟩ := hxy.value hy
      exact (hfg a b hab).later mid
    rcases hxy.result machine with habreast | ⟨error, mid, hx, hlimit, hlater⟩
    · refine habreast.bind_cases (P := Overtakes S) ?_ fun _ _ hmid => .inl ⟨rfl, hmid⟩
      rintro a b mid _ - - hab rfl
      exact (hfg a b hab).result mid
    · rw [Action.bind_of_error hx]
      exact .inr ⟨error, mid, rfl, hlimit, later_bind hlater hg⟩
  later machine := by
    refine later_bind (hxy.later machine) fun b mid hy => ?_
    obtain ⟨a, hab⟩ := hxy.value hy
    exact (hfg a b hab).later mid
  value h := by
    obtain ⟨b, mid, hy, hg⟩ := Action.of_bind_eq_ok h
    obtain ⟨a, hab⟩ := hxy.value hy
    exact (hfg a b hab).value hg

def outlasting : Relator Machine Machine where
  Rel := Outlasts
  pure h := ⟨fun _ => .inl ⟨h, rfl⟩, fun _ => .refl _, fun heq => ⟨_, (EStateM.Result.ok.inj heq).1 ▸ h⟩⟩
  bind := Outlasts.bind
  exhausted _ := ⟨fun _ => .inl ⟨rfl, rfl⟩, fun _ => .refl _, nofun⟩

theorem outlasting_keepsFaults : outlasting.KeepsFaults :=
  fun _ _ => ⟨fun _ => .inl ⟨rfl, rfl⟩, fun _ => .refl _, nofun⟩

/-- What does the same on machines whose streams have the same future outlasts itself. -/
theorem outlasts_refl {x : Action Machine α} (h : ∀ start, (pairs Eq (Streams.Since start start)).Rel Eq x x) :
    outlasting.Rel Eq x x where
  result _ := .inl (Relator.abreast_eq_iff.2 rfl)
  later := later_of_twins fun start => twins_eq_pairs ▸ h start
  value _ := ⟨_, rfl⟩

/-! ## Operations -/

variable {limits wider : Limits} {program : Program}

theorem checkAddress_outlasts (h : limits.Within wider) (value : Int64) :
    outlasting.Rel (fun address address' => address = address' ∧ True)
      (Action.ofExcept (limits.checkAddress value)) (Action.ofExcept (wider.checkAddress value)) := by
  cases hcheck : limits.checkAddress value with
  | ok address =>
    rw [h.checkAddress hcheck]
    exact outlasting.pure ⟨rfl, trivial⟩
  | error error =>
    obtain ⟨rfl, -⟩ := Limits.checkAddress_eq_error hcheck
    -- The wider limits may or may not allow the address; in both cases nothing has happened yet.
    have hlater : ∀ machine : Machine, Later machine (after (Action.ofExcept (wider.checkAddress value) machine)) := by
      intro machine
      cases wider.checkAddress value <;> exact .refl machine
    exact ⟨fun machine => .inr ⟨_, machine, rfl, trivial, hlater machine⟩, hlater, fun _ => ⟨_, rfl, trivial⟩⟩

theorem later_leaveFrame {machine : Machine} {r : EStateM.Result Stop Machine Unit} (h : Later machine (after r)) :
    Later machine (after (leaveFrame r)) := by
  cases r <;> exact ⟨h.log, h.flushes⟩

theorem overtakes_leaveFrame {r r' : EStateM.Result Stop Machine Unit} (h : Overtakes Eq r r') :
    Overtakes Eq (leaveFrame r) (leaveFrame r') := by
  rcases h with habreast | ⟨error, mid, rfl, hlimit, hlater⟩
  · rw [Relator.abreast_eq_iff] at habreast
    exact .inl (Relator.abreast_eq_iff.2 (congrArg leaveFrame habreast))
  · have hpopped : Later { mid with frames := mid.frames.pop } (after r') := ⟨hlater.log, hlater.flushes⟩
    exact .inr ⟨error, _, rfl, hlimit, later_leaveFrame hpopped⟩

variable {evaluateBody evaluateBody' : List Token → Action Machine Unit}

theorem call_outlasts (h : limits.Within wider) (hbody : ∀ body, outlasting.Rel Eq (evaluateBody body) (evaluateBody' body))
    (name : String) (address : Nat) :
    outlasting.Rel Eq (call limits program evaluateBody name address) (call wider program evaluateBody' name address) := by
  have hlater : ∀ machine, Later machine (after (call wider program evaluateBody' name address machine)) := by
    intro machine
    rw [call_eq]
    split
    · exact .refl machine
    · split
      · exact .refl machine
      · next body _ =>
        rw [inFrame_eq]
        have hcalled := (hbody body).later { machine with frames := machine.frames.push address }
        exact later_leaveFrame ⟨hcalled.log, hcalled.flushes⟩
  refine ⟨fun machine => ?_, hlater, fun _ => ⟨(), rfl⟩⟩
  by_cases hdepth : limits.maxCallDepth ≤ machine.frames.size
  · refine .inr ⟨.callDepthExceeded limits.maxCallDepth, machine, ?_, trivial, hlater machine⟩
    rw [call_eq, if_pos hdepth]
  · have hwider : ¬wider.maxCallDepth ≤ machine.frames.size := fun hle => hdepth (Nat.le_trans h.maxCallDepth hle)
    rw [call_eq, if_neg hdepth, call_eq, if_neg hwider]
    cases program.body? name with
    | none => exact .inl ⟨rfl, rfl⟩
    | some body =>
      dsimp only
      rw [inFrame_eq, inFrame_eq]
      exact overtakes_leaveFrame ((hbody body).result _)

theorem outlasting_respects (h : limits.Within wider) : Respects outlasting limits wider program fun _ => True where
  faults := outlasting_keepsFaults
  argument := outlasts_refl fun _ => argument_pairs
  checkAddress := checkAddress_outlasts h
  cell {address} _ := outlasts_refl fun _ => cell_pairs (.eq _) (Nat.lt_succ_self address)
  store {address} _ value := outlasts_refl fun _ => store_pairs (.eq _) (Nat.lt_succ_self address) value
  read := outlasts_refl fun _ => readByte_since
  write value := outlasts_refl fun _ => writeByte_since value
  call := call_outlasts h

variable (program) in
/-- A body and all it calls, under limits and under wider ones. -/
theorem passBody_outlasts (h : limits.Within wider) (fuel : Nat) (body : List Token) :
    outlasting.Rel Eq (passBody limits program fuel body) (passBody wider program fuel body) :=
  (outlasting_respects h).passBody fuel body

/-! ## Whole programs -/

theorem perform_flush_of_done {machine : Machine} (h : ∀ reply ∈ machine.streams.flushes, reply = .done) :
    perform Streams.flush machine = .ok () { machine with streams := machine.streams.flush.2 } :=
  perform_of_ok (Prod.ext (Streams.flush_of_done h) rfl)

theorem output_perform_flush (machine : Machine) :
    (after (perform Streams.flush machine)).streams.output = machine.streams.output := by
  cases hflush : Streams.flush machine.streams with
  | mk result streams =>
    have houtput := Streams.output_flush machine.streams
    rw [hflush] at houtput
    cases result with
    | ok _ => rw [perform_of_ok hflush]; exact houtput
    | error fault => rw [perform_of_error hflush]; exact houtput

theorem output_lastFlush (r : EStateM.Result Stop Machine Unit) :
    (after (lastFlush r)).streams.output = (after r).streams.output :=
  of_lastFlush (fun machine => machine.streams.output) output_perform_flush r

theorem resultOf_lastFlush {r : EStateM.Result Stop Machine Unit} {mid : Machine}
    (hflush : perform Streams.flush (after r) = .ok () mid) : resultOf (lastFlush r) = resultOf r := by
  cases r with
  | ok _ machine => exact (congrArg resultOf hflush).trans rfl
  | error stop machine =>
    cases stop with
    | outOfFuel => rfl
    | fault error =>
      change perform Streams.flush machine = _ at hflush
      unfold lastFlush
      dsimp only
      rw [hflush]
      rfl

/-- If the flushes succeed, a run ends as its evaluation does. -/
theorem resultOf_run_of_done {machine : Machine} (hflushes : ∀ reply ∈ machine.streams.flushes, reply = .done) (fuel : Nat) :
    resultOf (run limits program fuel machine) = resultOf (evaluateEntry limits program fuel machine) := by
  have hlater : Later machine (after (evaluateEntry limits program fuel machine)) :=
    later_of_twins (fun _ => passBody_twins program (.eq limits.dataSize) (fuel + 1) program.entry) machine
  rw [run_eq, ← evaluateEntry_eq]
  exact resultOf_lastFlush (perform_flush_of_done fun reply hreply => hflushes reply (hlater.flushes.mem hreply))

/-- If the flushes succeed, a program that no limit ends does the same under wider limits. -/
theorem run_of_within (h : limits.Within wider) {machine : Machine} (hflushes : ∀ reply ∈ machine.streams.flushes, reply = .done)
    {fuel more : Nat} (hle : fuel ≤ more) (hrun : ¬Exhausted (run limits program fuel machine))
    (huncut : ∀ error, resultOf (run limits program fuel machine) = .error (.fault error) → ¬error.IsLimit) :
    run wider program more machine = run limits program fuel machine := by
  have heq : run wider program fuel machine = run limits program fuel machine := by
    rcases (passBody_outlasts program h (fuel + 1) program.entry).result machine with habreast | ⟨error, mid, hcut, hlimit, -⟩
    · rw [run_eq, run_eq, Relator.abreast_eq_iff.1 habreast]
    · -- Then the last flush, which succeeds, would have left the error of the limit.
      refine absurd hlimit (huncut error ?_)
      rw [resultOf_run_of_done hflushes, evaluateEntry_eq, hcut]
      rfl
  rw [← heq] at hrun ⊢
  exact run_of_le hle hrun

/-- In any case its output is at the front of the output under wider limits. -/
theorem output_of_within (h : limits.Within wider) {machine : Machine} {fuel more : Nat}
    (hrun : ¬Exhausted (run limits program fuel machine)) (hwide : ¬Exhausted (run wider program more machine)) :
    (after (run limits program fuel machine)).streams.output <+: (after (run wider program more machine)).streams.output := by
  rw [← run_of_le (Nat.le_max_left fuel more) hrun, ← run_of_le (Nat.le_max_right fuel more) hwide, run_eq, run_eq,
    output_lastFlush, output_lastFlush]
  rcases (passBody_outlasts program h (max fuel more + 1) program.entry).result machine with habreast | ⟨error, mid, hcut, -, hlater⟩
  · have heq := Relator.abreast_eq_iff.1 habreast
    exact heq ▸ List.prefix_refl _
  · rw [hcut]
    exact Streams.output_prefix hlater.log

/-- Limits only cut runs short. A program that ends, and not because of a limit, does the same under wider limits and leaves the cells
alone that it could not address; and however it ends, its output is at the front of the output there. The flushes succeed, since a last
one that fails would be the result of a run that a limit ended. -/
theorem run_widened {limits wider : Limits} (h : limits.Within wider) (program : Program) (memory memory' : Memory)
    (hagree : ∀ address < limits.dataSize, memory.get? address = memory'.get? address) (reads : List ReadReply)
    (writes : List WriteReply) (fuel : Nat)
    (hrun : ¬Exhausted (run limits program fuel { memory, streams := { reads, writes } })) :
    let r := run limits program fuel { memory, streams := { reads, writes } }
    let wide more := run wider program more { memory := memory', streams := { reads, writes } }
    ((∀ error, resultOf r = .error (.fault error) → ¬error.IsLimit) → ∀ more ≥ fuel,
      resultOf (wide more) = resultOf r ∧ (after (wide more)).streams = (after r).streams ∧
        (∀ address < limits.dataSize, (after (wide more)).memory.get? address = (after r).memory.get? address) ∧
        memory'.SameFrom limits.dataSize (after (wide more)).memory) ∧
    ∀ more, ¬Exhausted (wide more) → (after r).streams.output <+: (after (wide more)).streams.output := by
  intro r wide
  -- First the other memory under the same limits, then the wider limits on that memory.
  let narrow := run limits program fuel { memory := memory', streams := { reads, writes } }
  obtain ⟨hresult, hmemory, hstreams, -⟩ : resultOf r = resultOf narrow ∧ Twin _ _ _ (after r) (after narrow) :=
    resultOf_eq_of_abreast (run_divided program hagree fuel)
  have hnarrow : ¬Exhausted narrow := by
    rw [exhausted_iff_resultOf] at hrun ⊢
    rwa [← hresult]
  refine ⟨fun huncut more hmore => ?_, fun more hwide => ?_⟩
  · have heq : wide more = narrow := by
      refine run_of_within h (fun _ hreply => by cases hreply) hmore hnarrow fun error herror => huncut error ?_
      exact hresult.trans herror
    rw [heq]
    exact ⟨hresult.symm, hstreams.eq.symm, fun address haddress => (hmemory.below address haddress).symm, hmemory.right⟩
  · rw [hstreams.eq]
    exact output_of_within h hnarrow hwide

/-- On two cells `[0 3 .]` ends well, and `[0 3 .] [3 .]` ends at the fourth cell; on four cells it goes on. -/
theorem run_widened_of_four_cells :
    let limits : Limits := ⟨2, 1⟩
    let wider : Limits := ⟨4, 2⟩
    let first : List Token := [.opening .applicator, .literal 0, .literal 3, .builtin .output, .closing .applicator]
    let second : List Token := [.opening .applicator, .literal 3, .builtin .output, .closing .applicator]
    let memory' := (Memory.zeroed 4).set 3 9
    let narrow (body : List Token) := run limits (.ofEntry body) 10 { memory := .zeroed 2, streams := { reads := [], writes := [] } }
    let wide (body : List Token) := run wider (.ofEntry body) 20 { memory := memory', streams := { reads := [], writes := [] } }
    limits.Within wider ∧ (∀ address < limits.dataSize, (Memory.zeroed 2).get? address = memory'.get? address) ∧
      ¬Exhausted (narrow first) ∧ resultOf (wide first) = .ok () ∧ (after (wide first)).streams.output = [3] ∧
      (after (wide first)).memory.get? 3 = some 9 ∧
      ¬Exhausted (narrow (first ++ second)) ∧ resultOf (narrow (first ++ second)) = .error (.fault (.addressOutOfRange 3)) ∧
      ¬Exhausted (wide (first ++ second)) ∧
      (after (narrow (first ++ second))).streams.output <+: (after (wide (first ++ second))).streams.output := by
  intro limits wider first second memory' narrow wide
  have hwithin : limits.Within wider := ⟨by decide, by decide⟩
  have hagree : ∀ address < limits.dataSize, (Memory.zeroed 2).get? address = memory'.get? address := by decide
  have hfirst : resultOf (narrow first) = .ok () := rfl
  have hrun : ¬Exhausted (narrow first) := id
  have hcut : ¬Exhausted (narrow (first ++ second)) := id
  have hgoes : ¬Exhausted (wide (first ++ second)) := id
  obtain ⟨hsame, -⟩ := run_widened hwithin (.ofEntry first) _ _ hagree [] [] 10 hrun
  obtain ⟨hresult, hstreams, -, hrest⟩ := hsame (fun _ herror => by cases herror) 20 (by decide)
  obtain ⟨-, hprefix⟩ := run_widened hwithin (.ofEntry (first ++ second)) _ _ hagree [] [] 10 hcut
  refine ⟨hwithin, hagree, hrun, hresult.trans hfirst, ?_, ?_, hcut, rfl, hgoes, hprefix 20 hgoes⟩
  · exact (congrArg Streams.output hstreams).trans rfl
  · exact (hrest.get?_eq 3 (by decide)).trans (by decide)

end Machine

end Bracketry

import Mathlib
import HeaderRelay.Proofs.Transaction.WitnessForm
import HeaderRelay.Proofs.Validation.Rules

set_option autoImplicit false

namespace HeaderRelay.Transaction

/-- A mark with as many digits as it announces is a count. -/
theorem Count.exists_of_mark (mark : UInt8) (digits : Bytes)
    (length : digits.length = Cursor.countWidth mark) :
    ∃ count : Count, count.mark = mark ∧ count.digits = digits := by
  unfold Cursor.countWidth at length
  by_cases unmarked : mark < 0xFD
  · rw [if_pos unmarked] at length
    exact ⟨.one mark unmarked, rfl, (List.eq_nil_of_length_eq_zero length).symm⟩
  · rw [if_neg unmarked] at length
    by_cases two : mark = 0xFD
    · rw [if_pos two] at length
      exact ⟨.two ⟨digits, length⟩, two.symm, rfl⟩
    · rw [if_neg two] at length
      by_cases four : mark = 0xFE
      · rw [if_pos four] at length
        exact ⟨.four ⟨digits, length⟩, four.symm, rfl⟩
      · rw [if_neg four] at length
        -- no other byte is left
        have eight : mark = 0xFF := by grind
        exact ⟨.eight ⟨digits, length⟩, eight.symm, rfl⟩

theorem Count.value_eq (count : Count) :
    count.value =
      if count.mark < 0xFD then count.mark.toNat else Bytes.littleEndian count.digits := by
  cases count with
  | one byte unmarked => exact (if_pos unmarked).symm
  | two digits => rfl
  | four digits => rfl
  | eight digits => rfl

/-- The failure, if there is one, is that the bytes do not have the layout of a transaction. -/
def FailsMalformed {α : Type} (result : Except RelayError α) : Prop :=
  ∀ error, result = .error error → ∃ detail, error = .malformed "Transaction" detail

namespace FailsMalformed

variable {α β : Type} {first : Except RelayError α} {next : α → Except RelayError β}

theorem of_ok (value : α) : FailsMalformed (.ok value) := FailsOnly.of_ok value

theorem of_malformed (detail : String) :
    FailsMalformed (.error (.malformed "Transaction" detail) : Except RelayError α) :=
  FailsOnly.of_error ⟨detail, rfl⟩

theorem bind (only : FailsMalformed first) (others : ∀ value, FailsMalformed (next value)) :
    FailsMalformed (first >>= next) :=
  FailsOnly.bind only fun value _ => others value

end FailsMalformed

namespace Cursor

variable {cursor after : Cursor} {first second : Bytes} {α : Type} {write : α → Bytes}
  {step : Cursor → Except RelayError Cursor}

/-- A cursor goes over some bytes to where they end. -/
structure Passes (cursor : Cursor) (bytes : Bytes) (after : Cursor) : Prop where
  rest : cursor.rest = bytes ++ after.rest
  offset : after.offset = cursor.offset + bytes.length

theorem passes_nil : cursor.Passes [] after ↔ after = cursor := by
  constructor
  · rintro ⟨rest, offset⟩
    obtain ⟨place, bytes⟩ := after
    obtain ⟨start, whole⟩ := cursor
    rw [List.nil_append] at rest
    rw [List.length_nil, Nat.add_zero] at offset
    cases rest
    cases offset
    rfl
  · rintro rfl
    exact ⟨rfl, rfl⟩

/-- Bytes are passed in two parts one after the other. -/
theorem passes_append :
    cursor.Passes (first ++ second) after ↔
      ∃ middle, cursor.Passes first middle ∧ middle.Passes second after := by
  constructor
  · rintro ⟨rest, offset⟩
    refine ⟨⟨cursor.offset + first.length, second ++ after.rest⟩, ⟨?_, rfl⟩, ⟨rfl, ?_⟩⟩
    · rw [rest, List.append_assoc]
    · rw [offset, List.length_append, Nat.add_assoc]
  · rintro ⟨middle, ⟨rest, offset⟩, ⟨rest', offset'⟩⟩
    refine ⟨?_, ?_⟩
    · rw [rest, rest', List.append_assoc]
    · rw [offset', offset, List.length_append, Nat.add_assoc]

theorem skip_eq_ok {count : Nat} :
    cursor.skip count = .ok after ↔
      ∃ bytes : Bytes, bytes.length = count ∧ cursor.Passes bytes after := by
  unfold skip
  split
  · rename_i short
    constructor
    · intro passed
      cases passed
    · rintro ⟨bytes, length, rest, -⟩
      rw [rest, List.length_append] at short
      omega
  · rename_i enough
    constructor
    · intro passed
      cases passed
      have length : (cursor.rest.take count).length = count := by
        rw [List.length_take]
        omega
      refine ⟨cursor.rest.take count, length, (List.take_append_drop _ _).symm, ?_⟩
      rw [length]
    · rintro ⟨bytes, length, rest, offset⟩
      rw [rest, List.drop_left' length, ← length, ← offset]

/-- A step passes over one part that is written in some way, and refuses what starts with no such
part. -/
def Reads (step : Cursor → Except RelayError Cursor) (write : α → Bytes) : Prop :=
  ∀ cursor after, step cursor = .ok after ↔ ∃ part, cursor.Passes (write part) after

theorem reads_skip (count : Nat) :
    Reads (skip count) fun part : SizedBytes count => part.bytes := by
  intro cursor after
  rw [skip_eq_ok]
  constructor
  · rintro ⟨bytes, length, passes⟩
    exact ⟨⟨bytes, length⟩, passes⟩
  · rintro ⟨part, passes⟩
    exact ⟨part.bytes, part.length_eq, passes⟩

/-- A count is read exactly where one is written, at any of its widths. -/
theorem readCount_eq_ok {value : Nat} :
    cursor.readCount = .ok (value, after) ↔
      ∃ count : Count, count.value = value ∧ cursor.Passes count.bytes after := by
  constructor
  · intro read
    unfold readCount at read
    split at read
    · cases read
    · rename_i mark rest here
      split at read
      · rename_i unmarked
        cases read
        exact ⟨.one mark unmarked, rfl, here, rfl⟩
      · rename_i marked
        split at read
        · cases read
        · rename_i passed skipped
          cases read
          obtain ⟨digits, length, passes⟩ := skip_eq_ok.mp skipped
          have tail : rest = digits ++ after.rest := passes.rest
          have offset : after.offset = cursor.offset + 1 + digits.length := passes.offset
          obtain ⟨count, rfl, rfl⟩ := Count.exists_of_mark mark digits length
          refine ⟨count, ?_, ?_, ?_⟩
          · rw [Count.value_eq, if_neg marked]
            exact congrArg Bytes.littleEndian (by rw [tail, List.take_left' length])
          · rw [here, tail, Count.bytes, List.cons_append]
          · rw [offset, Count.bytes, List.length_cons]
            omega
  · rintro ⟨count, rfl, rest, offset⟩
    have length := count.length_digits
    rw [Count.bytes, List.cons_append] at rest
    rw [Count.bytes, List.length_cons] at offset
    rw [readCount, rest, Count.value_eq]
    simp only
    by_cases unmarked : count.mark < 0xFD
    · rw [countWidth, if_pos unmarked] at length
      rw [length] at offset
      rw [if_pos unmarked, if_pos unmarked, List.eq_nil_of_length_eq_zero length, List.nil_append,
        ← offset]
    · have skipped : skip (countWidth count.mark)
          ⟨cursor.offset + 1, count.digits ++ after.rest⟩ = .ok after := by
        refine skip_eq_ok.mpr ⟨count.digits, length, rfl, ?_⟩
        rw [offset, Nat.add_assoc, Nat.add_comm 1]
      rw [if_neg unmarked, if_neg unmarked, skipped]
      simp only [List.take_left' length]

theorem repeated_succ (count : Nat) :
    repeated step (count + 1) cursor = step cursor >>= repeated step count := by
  rw [repeated]
  cases step cursor <;> rfl

theorem skipSized_eq_bind :
    skipSized cursor = readCount cursor >>= fun (count, middle) => middle.skip count := by
  rw [skipSized]
  cases readCount cursor <;> rfl

/-- A list of parts is passed part by part. -/
theorem repeated_eq_ok (reads : Reads step write) {count : Nat} :
    repeated step count cursor = .ok after ↔
      ∃ parts : List α, parts.length = count ∧ cursor.Passes (parts.flatMap write) after := by
  induction count generalizing cursor with
  | zero =>
    constructor
    · intro passed
      cases passed
      exact ⟨[], rfl, passes_nil.mpr rfl⟩
    · rintro ⟨parts, none, passes⟩
      rw [List.eq_nil_of_length_eq_zero none, List.flatMap_nil, passes_nil] at passes
      rw [passes]
      rfl
  | succ count ih =>
    simp only [repeated_succ, bind_eq_ok, reads _ _, ih]
    constructor
    · rintro ⟨middle, ⟨part, passes⟩, parts, length, passes'⟩
      refine ⟨part :: parts, congrArg (· + 1) length, ?_⟩
      rw [List.flatMap_cons]
      exact passes_append.mpr ⟨middle, passes, passes'⟩
    · rintro ⟨parts, length, passes⟩
      cases parts with
      | nil => cases length
      | cons part parts =>
        rw [List.flatMap_cons] at passes
        obtain ⟨middle, passes, passes'⟩ := passes_append.mp passes
        exact ⟨middle, ⟨part, passes⟩, parts, Nat.succ.inj length, passes'⟩

/-- Two parts are passed one after the other. -/
theorem Reads.seq {β : Type} {next : Cursor → Except RelayError Cursor} {write' : β → Bytes}
    (first : Reads step write) (second : Reads next write') :
    Reads (fun cursor => step cursor >>= next)
      fun parts : α × β => write parts.1 ++ write' parts.2 := by
  intro cursor after
  simp only [bind_eq_ok, first _ _, second _ _]
  constructor
  · rintro ⟨middle, ⟨part, passes⟩, other, passes'⟩
    exact ⟨(part, other), passes_append.mpr ⟨middle, passes, passes'⟩⟩
  · rintro ⟨⟨part, other⟩, passes⟩
    obtain ⟨middle, passes, passes'⟩ := passes_append.mp passes
    exact ⟨middle, ⟨part, passes⟩, other, passes'⟩

/-- A count is passed with as many parts as it says. -/
theorem counted_eq_ok {steps : Nat → Cursor → Except RelayError Cursor} {write : List α → Bytes}
    (reads : ∀ {count : Nat} {cursor after : Cursor}, steps count cursor = .ok after ↔
      ∃ parts : List α, parts.length = count ∧ cursor.Passes (write parts) after) :
    (readCount cursor >>= fun (count, middle) => steps count middle) = .ok after ↔
      ∃ (count : Count) (parts : List α), parts.length = count.value ∧
        cursor.Passes (count.bytes ++ write parts) after := by
  simp only [bind_eq_ok, Prod.exists, readCount_eq_ok, reads]
  constructor
  · rintro ⟨value, middle, ⟨count, rfl, passes⟩, parts, length, passes'⟩
    exact ⟨count, parts, length, passes_append.mpr ⟨middle, passes, passes'⟩⟩
  · rintro ⟨count, parts, length, passes⟩
    obtain ⟨middle, passes, passes'⟩ := passes_append.mp passes
    exact ⟨count.value, middle, ⟨count, rfl, passes⟩, parts, length, passes'⟩

theorem reads_skipSized : Reads skipSized Counted.bytes := by
  intro cursor after
  rw [skipSized_eq_bind, counted_eq_ok skip_eq_ok]
  constructor
  · rintro ⟨count, content, length, passes⟩
    exact ⟨⟨count, content, length⟩, passes⟩
  · rintro ⟨⟨count, content, length⟩, passes⟩
    exact ⟨count, content, length, passes⟩

theorem reads_skipInput : Reads skipInput Input.bytes := by
  intro cursor after
  refine ((reads_skip 36).seq (reads_skipSized.seq (reads_skip 4)) cursor after).trans ?_
  constructor
  · rintro ⟨⟨outpoint, script, sequence⟩, passes⟩
    exact ⟨⟨outpoint, script, sequence⟩, passes⟩
  · rintro ⟨⟨outpoint, script, sequence⟩, passes⟩
    exact ⟨⟨outpoint, script, sequence⟩, passes⟩

theorem reads_skipOutput : Reads skipOutput Output.bytes := by
  intro cursor after
  refine ((reads_skip 8).seq reads_skipSized cursor after).trans ?_
  constructor
  · rintro ⟨⟨amount, script⟩, passes⟩
    exact ⟨⟨amount, script⟩, passes⟩
  · rintro ⟨⟨amount, script⟩, passes⟩
    exact ⟨⟨amount, script⟩, passes⟩

theorem reads_skipWitness : Reads skipWitness Witness.bytes := by
  intro cursor after
  refine (counted_eq_ok (repeated_eq_ok reads_skipSized)).trans ?_
  constructor
  · rintro ⟨count, items, length, passes⟩
    exact ⟨⟨count, items, length⟩, passes⟩
  · rintro ⟨⟨count, items, length⟩, passes⟩
    exact ⟨count, items, length, passes⟩

/-- Passes over the inputs and the outputs, and says how many inputs there are. -/
def skipBody (cursor : Cursor) : Except RelayError (Nat × Cursor) := do
  let (inputs, cursor) ← cursor.readCount
  let cursor ← repeated skipInput inputs cursor
  let (outputs, cursor) ← cursor.readCount
  let cursor ← repeated skipOutput outputs cursor
  return (inputs, cursor)

theorem skipBody_eq_ok {count : Nat} :
    cursor.skipBody = .ok (count, after) ↔
      ∃ body : Body, body.inputs.length = count ∧ cursor.Passes body.bytes after := by
  simp only [skipBody, bind_eq_ok, Prod.exists, readCount_eq_ok, repeated_eq_ok reads_skipInput,
    repeated_eq_ok reads_skipOutput]
  constructor
  · rintro ⟨_, toInputs, ⟨inputCount, rfl, counted⟩, toOutputCount, ⟨inputs, length, spends⟩,
      _, toOutputs, ⟨outputCount, rfl, counted'⟩, bodyEnd, ⟨outputs, size, pays⟩, finished⟩
    cases finished
    exact ⟨⟨inputCount, inputs, length, outputCount, outputs, size⟩, length,
      passes_append.mpr ⟨toInputs, counted, passes_append.mpr ⟨toOutputCount, spends,
        passes_append.mpr ⟨toOutputs, counted', pays⟩⟩⟩⟩
  · rintro ⟨⟨inputCount, inputs, length, outputCount, outputs, size⟩, rfl, counted⟩
    obtain ⟨toInputs, counted, others⟩ := passes_append.mp counted
    obtain ⟨toOutputCount, spends, others⟩ := passes_append.mp others
    obtain ⟨toOutputs, counted', pays⟩ := passes_append.mp others
    refine ⟨inputCount.value, toInputs, ⟨inputCount, rfl, counted⟩, toOutputCount,
      ⟨inputs, length, spends⟩, outputCount.value, toOutputs, ⟨outputCount, rfl, counted'⟩, after,
      ⟨outputs, size, pays⟩, ?_⟩
    exact congrArg (fun count => Except.ok (count, after)) length.symm

theorem failsMalformed_skip (count : Nat) (cursor : Cursor) :
    FailsMalformed (cursor.skip count) := by
  unfold skip
  split
  · exact .of_malformed _
  · exact .of_ok _

theorem failsMalformed_readCount (cursor : Cursor) : FailsMalformed cursor.readCount := by
  unfold readCount
  split
  · exact .of_malformed _
  · split
    · exact .of_ok _
    · split
      · rename_i failure failed
        intro error same
        cases same
        exact failsMalformed_skip _ _ _ failed
      · exact .of_ok _

theorem failsMalformed_repeated (only : ∀ cursor, FailsMalformed (step cursor)) (count : Nat)
    (cursor : Cursor) : FailsMalformed (repeated step count cursor) := by
  induction count generalizing cursor with
  | zero => exact .of_ok cursor
  | succ count ih =>
    rw [repeated_succ]
    exact (only cursor).bind ih

theorem failsMalformed_skipSized (cursor : Cursor) : FailsMalformed cursor.skipSized := by
  rw [skipSized_eq_bind]
  exact (failsMalformed_readCount cursor).bind fun (count, middle) =>
    failsMalformed_skip count middle

theorem failsMalformed_skipInput (cursor : Cursor) : FailsMalformed cursor.skipInput :=
  (failsMalformed_skip 36 cursor).bind fun middle =>
    (failsMalformed_skipSized middle).bind (failsMalformed_skip 4)

theorem failsMalformed_skipOutput (cursor : Cursor) : FailsMalformed cursor.skipOutput :=
  (failsMalformed_skip 8 cursor).bind failsMalformed_skipSized

theorem failsMalformed_skipWitness (cursor : Cursor) : FailsMalformed cursor.skipWitness :=
  (failsMalformed_readCount cursor).bind fun (count, middle) =>
    failsMalformed_repeated failsMalformed_skipSized count middle

theorem failsMalformed_skipBody (cursor : Cursor) : FailsMalformed cursor.skipBody :=
  (failsMalformed_readCount cursor).bind fun (inputs, toInputs) =>
    (failsMalformed_repeated failsMalformed_skipInput inputs toInputs).bind fun toOutputCount =>
      (failsMalformed_readCount toOutputCount).bind fun (outputs, toOutputs) =>
        (failsMalformed_repeated failsMalformed_skipOutput outputs toOutputs).bind fun bodyEnd =>
          .of_ok (inputs, bodyEnd)

end Cursor

section Whole

variable {raw legacy : Bytes} {extent : Extent}

theorem measure_eq_bind :
    measure raw = (do
      let (inputs, body) ← Cursor.skipBody ⟨6, raw.drop 6⟩
      let witness ← Cursor.repeated Cursor.skipWitness inputs body
      let last ← witness.skip 4
      if last.rest.isEmpty then .ok ⟨body.offset, witness.offset⟩ else .error trailing) := by
  simp only [measure, Cursor.skipBody, bind_assoc, pure_bind]

/-- After the flag come the body, a witness for each of its inputs and the lock time, and nothing
else. -/
theorem measure_eq_ok :
    measure raw = .ok extent ↔
      ∃ (body : Body) (witnesses : List Witness) (lockTime : SizedBytes 4),
        witnesses.length = body.inputs.length ∧
        raw.drop 6 = body.bytes ++ (witnesses.flatMap Witness.bytes ++ lockTime.bytes) ∧
        extent = ⟨6 + body.bytes.length,
          6 + body.bytes.length + (witnesses.flatMap Witness.bytes).length⟩ := by
  simp only [measure_eq_bind, bind_eq_ok, Prod.exists, Cursor.skipBody_eq_ok,
    Cursor.repeated_eq_ok Cursor.reads_skipWitness, Cursor.reads_skip 4 _ _]
  constructor
  · rintro ⟨_, bodyEnd, ⟨body, rfl, rest, offset⟩, witnessEnd, ⟨witnesses, length, rest', offset'⟩,
      last, ⟨lockTime, rest'', -⟩, finished⟩
    split at finished
    · rename_i ended
      cases finished
      refine ⟨body, witnesses, lockTime, length, ?_, ?_⟩
      · rw [List.isEmpty_iff.mp ended, List.append_nil] at rest''
        rw [← rest'', ← rest', ← rest]
      · rw [offset', offset]
    · cases finished
  · rintro ⟨body, witnesses, lockTime, length, whole, rfl⟩
    -- the cursor stands at the end of each part in turn
    let bodyEnd : Cursor :=
      ⟨6 + body.bytes.length, witnesses.flatMap Witness.bytes ++ lockTime.bytes⟩
    let witnessEnd : Cursor :=
      ⟨bodyEnd.offset + (witnesses.flatMap Witness.bytes).length, lockTime.bytes⟩
    let last : Cursor := ⟨witnessEnd.offset + lockTime.bytes.length, []⟩
    have passes : witnessEnd.Passes lockTime.bytes last := ⟨(List.append_nil _).symm, rfl⟩
    exact ⟨_, bodyEnd, ⟨body, rfl, whole, rfl⟩, witnessEnd, ⟨witnesses, length, rfl, rfl⟩, last,
      ⟨lockTime, passes⟩, rfl⟩

/-- A marked transaction is a version, the marker, the flag and what follows. -/
theorem exists_version (marked : hasWitness raw = true) :
    ∃ version : SizedBytes 4, raw = version.bytes ++ ([0x00, 0x01] ++ raw.drop 6) := by
  rw [hasWitness, Bool.and_eq_true, Bool.and_eq_true, decide_eq_true_eq, decide_eq_true_eq,
    decide_eq_true_eq] at marked
  obtain ⟨⟨long, marker⟩, flag⟩ := marked
  obtain ⟨within, marker⟩ := List.getElem?_eq_some_iff.mp marker
  obtain ⟨within', flag⟩ := List.getElem?_eq_some_iff.mp flag
  have version : (raw.take 4).length = 4 := by
    rw [List.length_take]
    omega
  refine ⟨⟨raw.take 4, version⟩, ?_⟩
  calc raw = raw.take 4 ++ raw.drop 4 := (List.take_append_drop 4 raw).symm
    _ = raw.take 4 ++ ([0x00, 0x01] ++ raw.drop 6) := by
      rw [List.drop_eq_getElem_cons within, List.drop_eq_getElem_cons within', marker, flag]
      rfl

theorem WitnessForm.drop_bytes (form : WitnessForm) :
    form.bytes.drop 6 =
      form.body.bytes ++ (form.witnesses.flatMap Witness.bytes ++ form.lockTime.bytes) := by
  rw [WitnessForm.bytes, ← List.append_assoc]
  apply List.drop_left'
  rw [List.length_append, form.version.length_eq]
  rfl

/-- The ends of the body and of the witnesses cut the legacy form out of a witness form. -/
theorem WitnessForm.cut_bytes (form : WitnessForm) :
    form.bytes.take 4 ++ (form.bytes.take (6 + form.body.bytes.length)).drop 6 ++
        (form.bytes.drop
          (6 + form.body.bytes.length + (form.witnesses.flatMap Witness.bytes).length)).take 4 =
      form.legacy := by
  have version : form.bytes.take 4 = form.version.bytes := List.take_left' form.version.length_eq
  have lockTime : form.lockTime.bytes.take 4 = form.lockTime.bytes :=
    List.take_of_length_le form.lockTime.length_eq.le
  rw [version, List.drop_take, ← List.drop_drop, ← List.drop_drop, form.drop_bytes,
    Nat.add_sub_cancel_left, List.take_left, List.drop_left, List.drop_left, lockTime, legacy,
    List.append_assoc]

/-- A marked transaction has a legacy form exactly when it is a whole witness form. -/
theorem legacyForm_eq_ok (marked : hasWitness raw = true) :
    legacyForm raw = .ok legacy ↔
      ∃ form : WitnessForm, form.bytes = raw ∧ form.legacy = legacy := by
  obtain ⟨version, split⟩ := exists_version marked
  rw [legacyForm, if_pos marked, map_eq_ok]
  simp only [measure_eq_ok]
  constructor
  · rintro ⟨_, ⟨body, witnesses, lockTime, length, rest, rfl⟩, cut⟩
    let form : WitnessForm := ⟨version, body, witnesses, length, lockTime⟩
    have whole : form.bytes = raw := by
      rw [split, rest]
      rfl
    refine ⟨form, whole, ?_⟩
    rw [← form.cut_bytes, whole]
    exact cut
  · rintro ⟨form, rfl, rfl⟩
    exact ⟨_, ⟨form.body, form.witnesses, form.lockTime, form.length_witnesses, form.drop_bytes,
      rfl⟩, form.cut_bytes⟩

theorem failsMalformed_measure (raw : Bytes) : FailsMalformed (measure raw) := by
  rw [measure_eq_bind]
  refine (Cursor.failsMalformed_skipBody _).bind fun (inputs, body) => ?_
  refine (Cursor.failsMalformed_repeated Cursor.failsMalformed_skipWitness inputs body).bind
    fun witness => ?_
  refine (Cursor.failsMalformed_skip 4 witness).bind fun last => ?_
  split
  · exact .of_ok _
  · exact .of_malformed _

theorem failsMalformed_legacyForm (raw : Bytes) : FailsMalformed (legacyForm raw) := by
  unfold legacyForm
  split
  · intro error failed
    cases measured : measure raw with
    | error cause =>
      rw [measured] at failed
      cases failed
      exact failsMalformed_measure raw error measured
    | ok extent =>
      rw [measured] at failed
      cases failed
  · exact .of_ok raw

/-- The legacy form of a marked transaction is made exactly where the bytes are a witness form. They
are so in at most one way, and what is made is that form without its witnesses. All other bytes are
refused as malformed. -/
theorem legacyForm_eq_ok_iff_form (raw : Bytes) (long : 5 < raw.length)
    (marker : raw[4]? = some 0x00) (flag : raw[5]? = some 0x01) :
    (∀ legacy, legacyForm raw = .ok legacy ↔
        ∃ form : WitnessForm, form.bytes = raw ∧ form.legacy = legacy) ∧
      (∀ form other : WitnessForm, form.bytes = raw → other.bytes = raw → form = other) ∧
      ((¬ ∃ form : WitnessForm, form.bytes = raw) →
        ∃ detail, legacyForm raw = .error (.malformed "Transaction" detail)) := by
  have marked : hasWitness raw = true := by
    simp only [hasWitness, long, marker, flag, decide_true, Bool.and_self]
  refine ⟨fun legacy => legacyForm_eq_ok marked, ?_, ?_⟩
  · intro form other here there
    exact WitnessForm.bytes_injective (here.trans there.symm)
  · intro noForm
    cases made : legacyForm raw with
    | error cause =>
      obtain ⟨detail, rfl⟩ := failsMalformed_legacyForm raw cause made
      exact ⟨detail, rfl⟩
    | ok legacy =>
      obtain ⟨form, whole, -⟩ := (legacyForm_eq_ok marked).mp made
      exact absurd ⟨form, whole⟩ noForm

/-- A transaction that writes the count of its one input in three bytes. It has one output and a
witness of two items, the second of them empty. -/
def widelyCounted : Bytes :=
  [0x02, 0x00, 0x00, 0x00, 0x00, 0x01, 0xFD, 0x01, 0x00] ++ List.replicate 36 0xAA ++
    [0x00, 0xFF, 0xFF, 0xFF, 0xFF, 0x01] ++ List.replicate 8 0x10 ++ [0x01, 0x51] ++
    [0x02, 0x01, 0x07, 0x00] ++ [0x09, 0x00, 0x00, 0x00]

/-- The wide count is kept, and without its last byte the transaction is no witness form. -/
theorem legacyForm_eq_ok_iff_form_widelyCounted :
    5 < widelyCounted.length ∧ widelyCounted[4]? = some 0x00 ∧ widelyCounted[5]? = some 0x01 ∧
      (∃! form : WitnessForm, form.bytes = widelyCounted) ∧
      (∃ form : WitnessForm, form.bytes = widelyCounted ∧
        form.legacy =
          [0x02, 0x00, 0x00, 0x00, 0xFD, 0x01, 0x00] ++ List.replicate 36 0xAA ++
            [0x00, 0xFF, 0xFF, 0xFF, 0xFF, 0x01] ++ List.replicate 8 0x10 ++ [0x01, 0x51] ++
            [0x09, 0x00, 0x00, 0x00]) ∧
      (¬ ∃ form : WitnessForm, form.bytes = widelyCounted.dropLast) := by
  obtain ⟨accepted, unique, -⟩ := legacyForm_eq_ok_iff_form widelyCounted (by decide) rfl rfl
  obtain ⟨refused, -, -⟩ := legacyForm_eq_ok_iff_form widelyCounted.dropLast (by decide) rfl rfl
  obtain ⟨form, whole, legacy⟩ := (accepted _).mp rfl
  refine ⟨by decide, rfl, rfl, ⟨form, whole, fun other there => unique other form there whole⟩,
    ⟨form, whole, legacy⟩, ?_⟩
  rintro ⟨short, there⟩
  have made := (refused short.legacy).mpr ⟨short, there, rfl⟩
  have cut : legacyForm widelyCounted.dropLast = .error (truncated 65) := by decide +kernel
  rw [cut] at made
  cases made

end Whole

end HeaderRelay.Transaction

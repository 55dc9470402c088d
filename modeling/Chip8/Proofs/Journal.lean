import Chip8.Proofs.Batch
import Chip8.Proofs.Encoding
import Chip8.Proofs.Listing
import Chip8.Proofs.Reading

/-!
# The log as a journal of steps

The log of a row of steps is told by the machines that the steps begin with: `Machine.report` is
what the next step has to write, as levels and texts, and it is read off the program counter, the
fetched word and the policy on unknown words, before anything is executed. A step writes just
that, whether it succeeds, waits or fails, and so the log of any number of steps is the row of
their reports. An address is written in at least three digits and a word in four, between
characters that are no digits, so the text of a fetch can be read back.
-/

namespace Chip8

namespace Log

/-- The texts of the records on the lowest level, in order. -/
def traces (log : List Record) : List String :=
  (log.filter fun record => record.level == .trace).map Record.text

/-- The address and the word that the text of a fetch shows. -/
def fetched? (text : String) : Option (UInt16 × Word) :=
  match Text.fields text with
  | place :: word :: _ =>
    (Text.Hex.number? (place.toList.drop 2).dropLast).bind fun pc =>
      (Text.Hex.number? word.toList).map fun w => (UInt16.ofNat pc, UInt16.ofNat w)
  | _ => none

theorem traces_append (first rest : List Record) :
    traces (first ++ rest) = traces first ++ traces rest := by
  rw [traces, List.filter_append, List.map_append]
  rfl

/-- The text of a fetch begins with the address, between a mark and a colon, and the word. -/
theorem fields_text_fetched (pc : UInt16) (word : Word) :
    ∃ rest, Text.fields (Record.fetched pc word).text =
      (Text.Hex.marked 3 pc.toNat ++ ":") :: Text.Hex.padded 4 word.toNat :: rest := by
  have hplace : Text.IsField (Text.Hex.marked 3 pc.toNat ++ ":") :=
    (Text.Hex.isField_marked 3 pc.toNat).append (by simp [Text.isGap])
  have hword := Text.Hex.isField_padded 4 word.toNat
  have hparted : (Record.fetched pc word).text = Text.Hex.marked 3 pc.toNat ++ ":" ++ " " ++
      (Text.Hex.padded 4 word.toNat ++ " " ++ (" " ++ (Instruction.decode word).text)) := by
    change Text.Hex.marked 3 pc.toNat ++ ": " ++ Text.Hex.padded 4 word.toNat ++ "  " ++ _ = _
    apply String.toList_inj.1
    simp [String.toList_append]
  rw [hparted, hplace.fields_append_blank, hword.fields_append_blank]
  exact ⟨_, rfl⟩

theorem fetched?_text_fetched (pc : UInt16) (word : Word) :
    fetched? (Record.fetched pc word).text = some (pc, word) := by
  obtain ⟨rest, hfields⟩ := fields_text_fetched pc word
  have hdigits : ((Text.Hex.marked 3 pc.toNat ++ ":").toList.drop 2).dropLast =
      (Text.Hex.padded 3 pc.toNat).toList := by
    have hchars : (Text.Hex.marked 3 pc.toNat ++ ":").toList =
        '0' :: 'x' :: ((Text.Hex.padded 3 pc.toNat).toList ++ [':']) := by
      simp [Text.Hex.marked, String.toList_append]
    rw [hchars]
    exact List.dropLast_concat
  simp only [fetched?, hfields, hdigits, Text.Hex.number?_padded, Option.bind_some,
    Option.map_some, UInt16.ofNat_toNat]

end Log

namespace Instruction

/-- What an instruction adds to the log is the skipping of an unknown word, or nothing. -/
theorem records_decode (m : Machine) (word : Word) :
    (decode word).records m = if decode word = .unknown word then [.skipped m.pc word] else [] := by
  split
  · rename_i h
    rw [h, records]
  · rename_i h
    cases hi : decode word with
    | unknown other =>
        obtain rfl := eq_of_decode_eq_unknown hi
        exact absurd hi h
    | _ => rfl

end Instruction

/-- What the next step has to write, as levels and texts. -/
def Machine.report (m : Machine) (policy : UnknownPolicy) : List (Log.Level × String) :=
  match m.fetch? with
  | none => []
  | some word =>
    (.trace, Text.Hex.marked 3 m.pc.toNat ++ ": " ++ Text.Hex.padded 4 word.toNat ++ "  " ++
        (Instruction.decode word).text) ::
      if Instruction.decode word = .unknown word ∧ policy = .lenient then
        [(.warning, "skipping unknown opcode " ++ Text.Hex.marked 4 word.toNat ++ " at " ++
          Text.Hex.marked 3 m.pc.toNat)]
      else []

/-- The address and the word of the next instruction, absent if it does not lie in memory. -/
def Machine.located? (m : Machine) : Option (UInt16 × Word) :=
  m.fetch?.map fun word => (m.pc, word)

namespace Interpreter

/-- The log of so many steps in a row, which go on after a failure. -/
def journal : Nat → Interpreter × Machine → List Log.Record
  | 0, _ => []
  | count + 1, s => (s.1.step s.2).log ++ journal count (drive s)

/-- The addresses and the words that so many steps in a row fetch. -/
def fetches (count : Nat) (s : Interpreter × Machine) : List (UInt16 × Word) :=
  (List.range count).filterMap fun k => (drive^[k] s).2.located?

variable {interpreter : Interpreter} {m : Machine} {word : Word} {s t : Interpreter × Machine}

/-- A step that fetches a word records the fetch, and that it passed over an unknown word, if
that is the policy. -/
theorem log_step_of_fetch?_eq_some (h : m.fetch? = some word) :
    (interpreter.step m).log = .fetched m.pc word ::
      if Instruction.decode word = .unknown word ∧ interpreter.config.unknownPolicy = .lenient
      then [.skipped m.pc word] else [] := by
  rw [step_of_fetch?_eq_some h, executeWord]
  cases he : (Instruction.decode word).execute interpreter.config interpreter.random
      { m with repainted := false, word := word } with
  | error fault =>
      have hrefused : ¬(Instruction.decode word = .unknown word ∧
          interpreter.config.unknownPolicy = .lenient) := by
        rintro ⟨hunknown, hlenient⟩
        rw [Instruction.execute_eq_error_iff, hunknown, hlenient] at he
        cases he
      rw [if_neg hrefused]
  | ok effect =>
      have hpolicy : Instruction.decode word = .unknown word →
          interpreter.config.unknownPolicy = .lenient := by
        intro hunknown
        rw [hunknown] at he
        exact (Instruction.of_execute_unknown he).1
      simp only [(Instruction.touches_execute he).log, Instruction.records_decode]
      by_cases hunknown : Instruction.decode word = .unknown word
      · rw [if_pos hunknown, if_pos ⟨hunknown, hpolicy hunknown⟩]
      · rw [if_neg hunknown, if_neg fun hboth => hunknown hboth.1]

theorem shown_log_step (interpreter : Interpreter) (m : Machine) :
    (interpreter.step m).log.map (fun record => (record.level, record.text)) =
      m.report interpreter.config.unknownPolicy := by
  rw [Machine.report]
  cases hw : m.fetch? with
  | none => rw [step_of_fetch?_eq_none hw, List.map_nil]
  | some word =>
      rw [log_step_of_fetch?_eq_some hw, List.map_cons]
      by_cases hskipped : Instruction.decode word = .unknown word ∧
          interpreter.config.unknownPolicy = .lenient
      · simp only [if_pos hskipped]
        rfl
      · simp only [if_neg hskipped]
        rfl

theorem traces_log_step (interpreter : Interpreter) (m : Machine) :
    Log.traces (interpreter.step m).log =
      m.located?.toList.map fun place => (Log.Record.fetched place.1 place.2).text := by
  rw [Machine.located?]
  cases hw : m.fetch? with
  | none => rw [step_of_fetch?_eq_none hw]; rfl
  | some word => rw [Log.traces, traced_step hw]; rfl

/-! From one step to any number of them. -/

theorem fetches_succ (count : Nat) (s : Interpreter × Machine) :
    fetches (count + 1) s = s.2.located?.toList ++ fetches count (drive s) := by
  have hlater : (fun k => (drive^[k] s).2.located?) ∘ Nat.succ =
      fun k => (drive^[k] (drive s)).2.located? := by
    funext k
    rw [Function.comp_apply, Function.iterate_succ_apply]
  rw [fetches, List.range_succ_eq_map, List.filterMap_cons, List.filterMap_map, hlater,
    Function.iterate_zero, id_eq, fetches]
  cases s.2.located? with
  | none => rfl
  | some place => rfl

theorem shown_journal (count : Nat) (s : Interpreter × Machine) :
    (journal count s).map (fun record => (record.level, record.text)) =
      (List.range count).flatMap fun k =>
        (drive^[k] s).2.report s.1.config.unknownPolicy := by
  induction count generalizing s with
  | zero => rfl
  | succ count ih =>
      rw [journal, List.map_append, shown_log_step, ih, config_drive, List.range_succ_eq_map,
        List.flatMap_cons, List.flatMap_map]
      simp only [Function.iterate_succ_apply]
      rfl

theorem traces_journal (count : Nat) (s : Interpreter × Machine) :
    Log.traces (journal count s) =
      (fetches count s).map fun place => (Log.Record.fetched place.1 place.2).text := by
  induction count generalizing s with
  | zero => rfl
  | succ count ih =>
      rw [journal, Log.traces_append, traces_log_step, ih, fetches_succ, List.map_append]

theorem mapM_fetched?_traces (count : Nat) (s : Interpreter × Machine) :
    (Log.traces (journal count s)).mapM Log.fetched? = some (fetches count s) := by
  rw [traces_journal]
  exact Text.mapM_map_eq_some (fun place => Log.fetched?_text_fetched place.1 place.2) _

/-- The log is a faithful journal. What any number of steps write, failures included, is step by
step what the machine at the beginning of the step tells: nothing if there is no word to fetch,
and otherwise the address, the word and the text of its instruction, followed by a warning with
the same word and address if the word is unknown and passed over. From the texts of the fetches
alone the addresses and the words can be read back, so two rows of steps write the same texts
exactly if they fetch the same words at the same addresses. -/
theorem journal_is_faithful :
    (∀ (interpreter : Interpreter) (m : Machine) (count : Nat),
      (journal count (interpreter, m)).map (fun record => (record.level, record.text)) =
        (List.range count).flatMap fun k =>
          (drive^[k] (interpreter, m)).2.report interpreter.config.unknownPolicy) ∧
    (∀ (interpreter : Interpreter) (m : Machine) (count : Nat),
      (Log.traces (journal count (interpreter, m))).mapM Log.fetched? =
        some (fetches count (interpreter, m))) ∧
    ∀ (first second : Interpreter) (m n : Machine) (count more : Nat),
      Log.traces (journal count (first, m)) = Log.traces (journal more (second, n)) ↔
        fetches count (first, m) = fetches more (second, n) := by
  refine ⟨fun interpreter m count => shown_journal count (interpreter, m),
    fun interpreter m count => mapM_fetched?_traces count (interpreter, m),
    fun first second m n count more => ⟨fun h => ?_, fun h => ?_⟩⟩
  · have hread := mapM_fetched?_traces count (first, m)
    rw [h, mapM_fetched?_traces, Option.some.injEq] at hread
    exact hread.symm
  · rw [traces_journal, traces_journal, h]

/-- A known word and one that is passed over. -/
example :
    (journal 2 (.ofConfig { unknownPolicy := .lenient } 0,
      Machine.powerOn.loaded [0x60, 0x05, 0x01, 0x23])).map Log.Record.text =
      ["0x200: 6005  LD V0, 0x05", "0x202: 0123  DW 0x0123",
        "skipping unknown opcode 0x0123 at 0x202"] := by
  decide +kernel

end Interpreter

end Chip8

import Chip8.Proofs.Action
import Chip8.Proofs.Frame
import Mathlib.Data.List.Basic

/-!
# Sharing an interpreter

An `Ensemble` is one interpreter and the machines that it drives, in whatever order they are
asked to. The machines have only its source of random bytes in common, and only an instruction
that is carried out and asks for a random byte moves that source on: `Ensemble.takers` lists
the machines for which this happened, so a byte taken is told from the others by its place in
this list. Seen from one machine the ensemble is an interpreter of its own, whose source gives
the bytes at the places of that machine and no others.
-/

namespace Chip8

namespace Random

/-- The word at a place of the stream that a seed fixes. -/
def output (seed : UInt64) (place : Nat) : UInt32 := ChaCha.word (expand seed) place

/-- The source that gives the bytes of another one at the given places, and then zeros. -/
def Source.pick (s : Source) (places : List Nat) : Source :=
  ⟨fun n => ((places[n]?).map s.stream).getD 0, 0⟩

end Random

/-- The two configurations differ in the seed at most. -/
def Config.Alike (c d : Config) : Prop := ∃ seed, d = { c with seed := seed }

/-- What may be asked for one of the machines. -/
inductive Request
  | step
  | tick
  | turnKey (k : Nibble) (pressed : Bool)
  | load (program : List UInt8)
  | reset

namespace Instruction

variable {config other : Config} {random tape : Random.Source} {m : Machine} {i : Instruction}

/-- An instruction asks nothing of the seed, and nothing of the source but the next byte, if it
takes one. -/
theorem execute_eq_map (hc : config.Alike other)
    (hr : i.takesRandom = true → tape.next = random.next) :
    i.execute other tape m = (i.execute config random m).map fun effect =>
      { effect with random := if i.takesRandom then tape.rest else tape } := by
  obtain ⟨seed, rfl⟩ := hc
  cases i with
  | ret => cases h : m.stack.pop? <;> simp only [execute, h] <;> rfl
  | call target => cases h : m.stack.push? (m.pc + 2) <;> simp only [execute, h] <;> rfl
  | awaitKey x => cases h : m.keypad.lowest? <;> simp only [execute, h] <;> rfl
  | unknown word => cases h : config.unknownPolicy <;> simp only [execute, h] <;> rfl
  | random x mask =>
      simp only [execute, hr rfl]
      rfl
  | _ => rfl

theorem fault?_of_takesRandom (policy : UnknownPolicy) (m : Machine)
    (h : i.takesRandom = true) : i.fault? policy m = none := by
  cases i with
  | random => rfl
  | _ => cases h

end Instruction

namespace Interpreter

/-- What is seen of a step, which is all but the interpreter. -/
structure Answer where
  result : Except Fault Signal
  machine : Machine
  log : List Log.Record

def Step.answer (s : Step) : Answer := ⟨s.result, s.machine, s.log⟩

/-- What comes of a request. A load that is refused leaves the machine as it is. -/
def serve (interpreter : Interpreter) (m : Machine) : Request → Step
  | .step => interpreter.step m
  | .tick => ⟨.ok .proceed, m.tick, interpreter, []⟩
  | .turnKey k pressed => ⟨.ok .proceed, m.turnKey k pressed, interpreter, []⟩
  | .load program =>
    ⟨(m.load program).value.map fun _ => .proceed, m.loaded program, interpreter,
      (m.load program).log⟩
  | .reset => ⟨.ok .proceed, (interpreter.reset m).value, interpreter, (interpreter.reset m).log⟩

/-- Whether a request is a step that carries out an instruction on random bytes. -/
def takes (interpreter : Interpreter) (m : Machine) : Request → Bool
  | .step => (interpreter.executed? m).any Instruction.takesRandom
  | _ => false

/-- The answers to a row of requests for one machine. -/
def trajectory : Interpreter → Machine → List Request → List Answer
  | _, _, [] => []
  | interpreter, m, r :: rest =>
    (interpreter.serve m r).answer ::
      (interpreter.serve m r).interpreter.trajectory (interpreter.serve m r).machine rest

/-- The interpreter after `count` random bytes were taken from it. -/
def spend (interpreter : Interpreter) (count : Nat) : Interpreter :=
  { interpreter with
    random := { interpreter.random with taken := interpreter.random.taken + count } }

variable {interpreter other : Interpreter} {m : Machine} {r : Request}

theorem interpreter_serve (interpreter : Interpreter) (m : Machine) (r : Request) :
    (interpreter.serve m r).interpreter =
      interpreter.spend (if interpreter.takes m r then 1 else 0) := by
  cases r with
  | step =>
      rw [serve, takes]
      cases hi : interpreter.executed? m with
      | none => exact (step_of_executed?_eq_none hi).2
      | some i =>
          rw [interpreter_step hi, Option.any_some]
          cases i.takesRandom <;> rfl
  | _ => rfl

/-- Interpreters that agree but for the seed, and on the next byte where one is taken, do the
same to a machine. -/
theorem answer_step_congr (hc : interpreter.config.Alike other.config)
    (hr : interpreter.takes m .step = true → other.random.next = interpreter.random.next) :
    (other.step m).answer = (interpreter.step m).answer := by
  cases hw : m.fetch? with
  | none => rw [step_of_fetch?_eq_none hw, step_of_fetch?_eq_none hw]; rfl
  | some word =>
      have hnext : (Instruction.decode word).takesRandom = true →
          other.random.next = interpreter.random.next := by
        intro ht
        refine hr ?_
        have hi : m.instruction? = some (Instruction.decode word) := by
          rw [Machine.instruction?, hw, Option.map_some]
        rw [takes, executed?_of_instruction? hi (Instruction.fault?_of_takesRandom _ _ ht),
          Option.any_some, ht]
      rw [step_of_fetch?_eq_some hw, step_of_fetch?_eq_some hw, executeWord, executeWord,
        Instruction.execute_eq_map hc hnext]
      obtain ⟨seed, hseed⟩ := hc
      cases (Instruction.decode word).execute interpreter.config interpreter.random
        { m with repainted := false, word := word } with
      | error fault => rfl
      | ok effect =>
          rw [hseed]
          rfl

theorem answer_serve_congr (hc : interpreter.config.Alike other.config)
    (hr : interpreter.takes m r = true → other.random.next = interpreter.random.next) :
    (other.serve m r).answer = (interpreter.serve m r).answer := by
  cases r with
  | step => exact answer_step_congr hc hr
  | _ => rfl

/-- Whether a byte is taken does not depend on who carries out the request. -/
theorem takes_congr (h : (other.serve m r).answer = (interpreter.serve m r).answer) :
    other.takes m r = interpreter.takes m r := by
  cases r with
  | step =>
      have hresult : (other.step m).result = (interpreter.step m).result :=
        congrArg Answer.result h
      rw [takes, takes, executed?, executed?, hresult]
  | _ => rfl

theorem register_step_random {x : Nibble} {mask : UInt8}
    (h : interpreter.executed? m = some (.random x mask)) :
    (interpreter.step m).machine.register x = interpreter.random.next &&& mask := by
  obtain ⟨effect, he, -, hm, -⟩ := execute_of_executed? h
  cases he
  rw [hm, register_afterStep]
  exact Machine.register_setRegister_self _ x _

end Interpreter

/-- One interpreter and the machines that it drives. -/
structure Ensemble (ι : Type) where
  interpreter : Interpreter
  machines : ι → Machine

namespace Ensemble

variable {ι : Type} [DecidableEq ι]

def serve (e : Ensemble ι) (q : ι × Request) : Interpreter.Step :=
  e.interpreter.serve (e.machines q.1) q.2

/-- The ensemble after a request, which concerns one machine and the interpreter. -/
def after (e : Ensemble ι) (q : ι × Request) : Ensemble ι :=
  ⟨(e.serve q).interpreter, Function.update e.machines q.1 (e.serve q).machine⟩

def run (e : Ensemble ι) (requests : List (ι × Request)) : Ensemble ι := requests.foldl after e

/-- The machines for which a random byte was taken, in order. -/
def takers : Ensemble ι → List (ι × Request) → List ι
  | _, [] => []
  | e, q :: rest =>
    if e.interpreter.takes (e.machines q.1) q.2 then q.1 :: (e.after q).takers rest
    else (e.after q).takers rest

/-- The answers to those requests that concern the machine `k`. -/
def trajectory : Ensemble ι → List (ι × Request) → ι → List Interpreter.Answer
  | _, [], _ => []
  | e, q :: rest, k =>
    if q.1 = k then (e.serve q).answer :: (e.after q).trajectory rest k
    else (e.after q).trajectory rest k

/-- The requests that concern the machine `k`. -/
def requestsOf (k : ι) (requests : List (ι × Request)) : List Request :=
  (requests.filter fun q => q.1 = k).map Prod.snd

variable {e : Ensemble ι} {requests : List (ι × Request)} {k : ι}

theorem interpreter_after (e : Ensemble ι) (q : ι × Request) :
    (e.after q).interpreter =
      e.interpreter.spend (if e.interpreter.takes (e.machines q.1) q.2 then 1 else 0) :=
  Interpreter.interpreter_serve _ _ _

theorem machines_after (e : Ensemble ι) (q : ι × Request) (k : ι) :
    (e.after q).machines k = if k = q.1 then (e.serve q).machine else e.machines k :=
  Function.update_apply _ _ _ _

/-- Of the interpreter a run leaves all as it was, but for one byte for each taker. -/
theorem interpreter_run (e : Ensemble ι) (requests : List (ι × Request)) :
    (e.run requests).interpreter = e.interpreter.spend (e.takers requests).length := by
  induction requests generalizing e with
  | nil => rfl
  | cons q rest ih =>
      rw [run, List.foldl_cons, ← run, ih, interpreter_after, takers]
      split
      · rw [List.length_cons, Interpreter.spend, Interpreter.spend, Interpreter.spend,
          Nat.add_assoc, Nat.add_comm 1]
      · rfl

theorem requestsOf_cons_self (q : ι × Request) (rest : List (ι × Request)) :
    requestsOf q.1 (q :: rest) = q.2 :: requestsOf q.1 rest := by
  simp [requestsOf]

theorem requestsOf_cons_of_ne {q : ι × Request} (h : q.1 ≠ k) (rest : List (ι × Request)) :
    requestsOf k (q :: rest) = requestsOf k rest := by
  simp [requestsOf, h]

/-- The places, from `taken` on, at which bytes were taken for the machine `k`. -/
def places (takers : List ι) (k : ι) (taken : Nat) : List Nat := takers.idxsOf k taken

theorem places_cons_self (takers : List ι) (k : ι) (taken : Nat) :
    places (k :: takers) k taken = taken :: places takers k (taken + 1) := by
  simp [places]

theorem places_cons_of_ne {i : ι} (h : i ≠ k) (takers : List ι) (taken : Nat) :
    places (i :: takers) k taken = places takers k (taken + 1) := by
  simp [places, h]

/-- The interpreter `other` has the bytes that the ensemble will take for the machine `k`. -/
def Supplies (e : Ensemble ι) (requests : List (ι × Request)) (k : ι) (other : Interpreter) :
    Prop :=
  ∀ n place, (places (e.takers requests) k e.interpreter.random.taken)[n]? = some place →
    other.random.stream (other.random.taken + n) = e.interpreter.random.stream place

variable {q : ι × Request} {rest : List (ι × Request)} {other : Interpreter}

theorem taken_after (e : Ensemble ι) (q : ι × Request) :
    (e.after q).interpreter.random.taken = e.interpreter.random.taken +
      if e.interpreter.takes (e.machines q.1) q.2 then 1 else 0 := by
  rw [interpreter_after]
  rfl

theorem Supplies.next_eq (h : e.Supplies (q :: rest) q.1 other)
    (ht : e.interpreter.takes (e.machines q.1) q.2 = true) :
    other.random.next = e.interpreter.random.next := by
  refine h 0 _ ?_
  rw [takers, if_pos ht, places_cons_self]
  rfl

/-- The request of another machine leaves out a byte that is not for the machine `k`. -/
theorem Supplies.after_of_ne (h : e.Supplies (q :: rest) k other) (hk : q.1 ≠ k) :
    (e.after q).Supplies rest k other := by
  intro n place hn
  rw [interpreter_after]
  refine h n place ?_
  rw [taken_after] at hn
  rw [takers]
  split
  · rename_i ht
    rwa [if_pos ht, ← places_cons_of_ne hk] at hn
  · rename_i ht
    rwa [if_neg ht] at hn

theorem Supplies.after_self (h : e.Supplies (q :: rest) q.1 other)
    (ho : other.takes (e.machines q.1) q.2 = e.interpreter.takes (e.machines q.1) q.2) :
    (e.after q).Supplies rest q.1 (other.serve (e.machines q.1) q.2).interpreter := by
  intro n place hn
  rw [taken_after] at hn
  rw [interpreter_after, Interpreter.interpreter_serve, ho]
  split at hn
  · rename_i ht
    rw [if_pos ht]
    have hlater := h (n + 1) place
    rw [takers, if_pos ht, places_cons_self, List.getElem?_cons_succ] at hlater
    rw [← Nat.add_assoc, Nat.add_right_comm] at hlater
    exact hlater hn
  · rename_i ht
    rw [if_neg ht]
    have hlater := h n place
    rw [takers, if_neg ht] at hlater
    exact hlater hn

/-- A machine of an ensemble goes the way it goes when it is driven alone, by an interpreter
that has the bytes taken for it. -/
theorem trajectory_eq_of_supplies (h : e.Supplies requests k other)
    (hc : e.interpreter.config.Alike other.config) :
    e.trajectory requests k = other.trajectory (e.machines k) (requestsOf k requests) := by
  induction requests generalizing e other with
  | nil => rfl
  | cons q rest ih =>
      rw [trajectory]
      split
      · rename_i hk
        subst hk
        have hanswer := Interpreter.answer_serve_congr hc h.next_eq
        have hmachine : (other.serve (e.machines q.1) q.2).machine = (e.after q).machines q.1 := by
          rw [machines_after, if_pos rfl]
          exact congrArg Interpreter.Answer.machine hanswer
        have halike : (e.after q).interpreter.config.Alike
            (other.serve (e.machines q.1) q.2).interpreter.config := by
          rw [interpreter_after, Interpreter.interpreter_serve]
          exact hc
        rw [requestsOf_cons_self, Interpreter.trajectory, hanswer, hmachine,
          ih (h.after_self (Interpreter.takes_congr hanswer)) halike]
        rfl
      · rename_i hk
        have hmachine : (e.after q).machines k = e.machines k := by
          rw [machines_after, if_neg (Ne.symm hk)]
        have halike : (e.after q).interpreter.config.Alike other.config := by
          rw [interpreter_after]
          exact hc
        rw [ih (h.after_of_ne hk) halike, hmachine, requestsOf_cons_of_ne hk]

/-- The bytes at its places are all that a machine needs. -/
theorem supplies_pick (e : Ensemble ι) (requests : List (ι × Request)) (k : ι)
    (config : Config) :
    e.Supplies requests k ⟨config,
      e.interpreter.random.pick (places (e.takers requests) k e.interpreter.random.taken)⟩ := by
  intro n place hn
  simp only [Random.Source.pick, Nat.zero_add, hn, Option.map_some, Option.getD_some]

theorem supplies_of_not_mem_takers (h : k ∉ e.takers requests) (other : Interpreter) :
    e.Supplies requests k other := by
  have hnone : places (e.takers requests) k e.interpreter.random.taken = [] := by
    rw [places, List.idxsOf_eq_nil_iff]
    intro i hi
    exact beq_eq_false_iff_ne.2 fun hik => h (hik ▸ hi)
  intro n place hn
  simp [hnone] at hn

end Ensemble

/-- Random bytes are accounted for. After any requests, for whichever of the machines, as many
bytes were taken from a seeded interpreter as it has carried out instructions on random bytes,
and nothing else about it has changed; the next such instruction gets the low byte of the next
word of the stream. So each machine goes the way it goes alone with a source that gives just
the bytes at its own places, and a machine that takes none goes the same way in every ensemble
and under every seed. -/
theorem random_bytes_accounted {ι : Type} [DecidableEq ι] {config : Config}
    {seed entropy : UInt64} {e : Ensemble ι} (hseed : config.seed = some seed)
    (he : e.interpreter = .ofConfig config entropy) (requests : List (ι × Request)) :
    (e.run requests).interpreter =
        ⟨config, fun j => (Random.output seed j).toUInt8, (e.takers requests).length⟩ ∧
      (∀ q : ι × Request, ((e.run requests).after q).interpreter.random.taken =
        (e.takers requests).length +
          if (e.run requests).interpreter.takes ((e.run requests).machines q.1) q.2 then 1
          else 0) ∧
      (∀ (k : ι) (x : Nibble) (mask : UInt8),
        (e.run requests).interpreter.executed? ((e.run requests).machines k) =
          some (.random x mask) →
        (((e.run requests).after (k, .step)).machines k).register x =
          (Random.output seed (e.takers requests).length).toUInt8 &&& mask) ∧
      (∀ k : ι, e.trajectory requests k =
        Interpreter.trajectory ⟨config, (Random.Source.ofSeed seed).pick
            (Ensemble.places (e.takers requests) k 0)⟩
          (e.machines k) (Ensemble.requestsOf k requests)) ∧
      ∀ {κ : Type} [DecidableEq κ] (f : Ensemble κ) (others : List (κ × Request)) (k : ι)
        (l : κ), k ∉ e.takers requests → config.Alike f.interpreter.config →
        f.machines l = e.machines k →
        Ensemble.requestsOf l others = Ensemble.requestsOf k requests →
        f.trajectory others l = e.trajectory requests k := by
  have hinterpreter : e.interpreter = ⟨config, .ofSeed seed⟩ := by
    rw [he, Interpreter.ofConfig, hseed, Option.getD_some]
  have hrun : (e.run requests).interpreter =
      ⟨config, fun j => (Random.output seed j).toUInt8, (e.takers requests).length⟩ := by
    rw [e.interpreter_run, hinterpreter, Interpreter.spend, Random.Source.ofSeed, Nat.zero_add]
    rfl
  refine ⟨hrun, fun q => ?_, fun k x mask hi => ?_, fun k => ?_, ?_⟩
  · rw [Ensemble.taken_after, hrun]
  · have hregister := Interpreter.register_step_random hi
    rw [Ensemble.machines_after, if_pos rfl, Ensemble.serve, Interpreter.serve, hregister, hrun]
    rfl
  · have hsupplies := e.supplies_pick requests k config
    rw [hinterpreter] at hsupplies
    exact Ensemble.trajectory_eq_of_supplies hsupplies ⟨config.seed, by rw [hinterpreter]⟩
  · intro κ _ f others k l hk hc hmachine hrequests
    -- Both machines go the way of one that has the bytes of the second ensemble.
    have hsecond := Ensemble.trajectory_eq_of_supplies
      (f.supplies_pick others l f.interpreter.config) ⟨f.interpreter.config.seed, rfl⟩
    have hfirst := Ensemble.trajectory_eq_of_supplies (Ensemble.supplies_of_not_mem_takers hk
      ⟨f.interpreter.config, f.interpreter.random.pick
        (Ensemble.places (f.takers others) l f.interpreter.random.taken)⟩)
      (by rw [hinterpreter]; exact hc)
    rw [hfirst, hsecond, hmachine, hrequests]

namespace Ensemble

/-- Two machines under one seed. The first one rolls dice, the second one does not. -/
def diceRoom (seed : UInt64) : Ensemble Bool :=
  ⟨.ofConfig { seed := seed } 0,
    fun rolls => Machine.powerOn.loaded (if rolls then [0xC0, 0xFF, 0xC1, 0x0F] else [0x61, 0x11])⟩

/-- A roll, and something else on the other machine. -/
def firstRoll : List (Bool × Request) :=
  [(false, .turnKey (Nibble.ofNat 3) true), (true, .step), (false, .step)]

end Ensemble

/-- The second roll gets the second byte, and the machine that does not roll is the same under
another seed and in another order. -/
theorem random_bytes_accounted_of_dice :
    ((Ensemble.diceRoom 7).run Ensemble.firstRoll).interpreter.random.taken = 1 ∧
      ((((Ensemble.diceRoom 7).run Ensemble.firstRoll).after (true, .step)).machines
        true).register (Nibble.ofNat 1) = (Random.output 7 1).toUInt8 &&& 0x0F ∧
      (Ensemble.diceRoom 8).trajectory
          [(false, .turnKey (Nibble.ofNat 3) true), (false, .step), (true, .step)] false =
        (Ensemble.diceRoom 7).trajectory Ensemble.firstRoll false := by
  have htakers : (Ensemble.diceRoom 7).takers Ensemble.firstRoll = [true] := by decide +kernel
  have hroll : ((Ensemble.diceRoom 7).run Ensemble.firstRoll).interpreter.executed?
      (((Ensemble.diceRoom 7).run Ensemble.firstRoll).machines true) =
        some (.random (Nibble.ofNat 1) 0x0F) := by
    decide +kernel
  obtain ⟨hinterpreter, -, hregister, -, hquiet⟩ :=
    random_bytes_accounted (e := Ensemble.diceRoom 7) rfl rfl Ensemble.firstRoll
  have hsecond := hregister true _ _ hroll
  rw [htakers] at hinterpreter hsecond
  exact ⟨by rw [hinterpreter]; rfl, hsecond, hquiet (.diceRoom 8) _ false false
    (by rw [htakers]; decide) ⟨_, rfl⟩ rfl rfl⟩

end Chip8

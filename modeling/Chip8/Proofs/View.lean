import Chip8.Proofs.History

/-!
# What a machine shows

`Machine.view` is what is shown of a machine: memory, picture, program counter, index, registers,
the live part of the call stack, timers and keypad. A stale slot of the call stack is not shown,
nor are the word fetched last and whether the picture was touched. None of these decides what
becomes of the machine: two machines with one view answer all requests alike and keep one view.
A step that fetches a word also settles the two things that are not shown beside the stale slots.
From then on the machines differ in stale slots only, `Machine.account`.
-/

namespace Chip8

namespace CallStack

variable {s t : CallStack}

theorem depth_eq_of_live_eq (hs : s.depth ≤ 16) (ht : t.depth ≤ 16) (h : t.live = s.live) :
    t.depth = s.depth := by
  rw [← length_live hs, ← length_live ht, h]

/-- What a push leads to does not depend on stale slots. -/
theorem push?_congr (address : UInt16) (hs : s.depth ≤ 16) (ht : t.depth ≤ 16)
    (h : t.live = s.live) : (t.push? address).map live = (s.push? address).map live := by
  have hdepth := depth_eq_of_live_eq hs ht h
  cases hp : s.push? address with
  | none =>
      have hfull := push?_eq_none_iff.1 hp
      rw [← hdepth] at hfull
      rw [push?_eq_none_iff.2 hfull]
  | some pushed =>
      cases hq : t.push? address with
      | none =>
          have hfull := push?_eq_none_iff.1 hq
          have hroom := (depth_push? hp).1
          omega
      | some other =>
          rw [Option.map_some, Option.map_some, live_push? hp, live_push? hq, h]

/-- What a pop leads to does not depend on stale slots. -/
theorem pop?_congr (hs : s.depth ≤ 16) (ht : t.depth ≤ 16) (h : t.live = s.live) :
    t.pop?.map (fun p => (p.1, p.2.live)) = s.pop?.map fun p => (p.1, p.2.live) := by
  have hdepth := depth_eq_of_live_eq hs ht h
  cases hp : s.pop? with
  | none =>
      have hempty := (pop?_eq_none_iff hs).1 hp
      rw [← hdepth] at hempty
      rw [(pop?_eq_none_iff ht).2 hempty]
  | some popped =>
      obtain ⟨address, rest⟩ := popped
      cases hq : t.pop? with
      | none =>
          have hempty := (pop?_eq_none_iff ht).1 hq
          have hused := (depth_pop? hp).2
          omega
      | some other =>
          obtain ⟨top, below⟩ := other
          rw [live_pop? hp, live_pop? hq] at h
          obtain ⟨hrest, htop⟩ := List.append_inj' h rfl
          cases htop
          simp only [Option.map_some, hrest]

end CallStack

namespace Machine

/-- What is shown of a machine. -/
structure View where
  memory : Memory
  picture : Picture
  pc : UInt16
  index : UInt16
  registers : Registers
  live : List UInt16
  timers : Timers
  keypad : Keypad

def view (m : Machine) : View :=
  ⟨m.memory, m.picture, m.pc, m.index, m.registers, m.stack.live, m.timers, m.keypad⟩

/-- All of a machine but the stale slots of its call stack. -/
def account (m : Machine) : View × Word × Bool := (m.view, m.word, m.repainted)

variable {m n : Machine}

theorem account_eq_iff : n.account = m.account ↔
    n = { m with stack := n.stack } ∧ n.stack.live = m.stack.live := by
  constructor
  · intro h
    simp only [account, view, Prod.mk.injEq, View.mk.injEq] at h
    obtain ⟨⟨hmemory, hpicture, hpc, hindex, hregisters, hlive, htimers, hkeypad⟩, hword,
      hrepainted⟩ := h
    refine ⟨?_, hlive⟩
    cases n
    simp_all
  · rintro ⟨h, hlive⟩
    rw [h, account, view, hlive]
    rfl

end Machine

namespace Instruction

variable {config : Config} {random : Random.Source} {m n : Machine} {i : Instruction}

/-- Whether an instruction asks for the call stack. -/
def usesStack : Instruction → Bool
  | ret => true
  | call _ => true
  | _ => false

theorem execute_withStack (hi : i.usesStack = false) (stack : CallStack) :
    i.execute config random { m with stack } = (i.execute config random m).map fun effect =>
      { effect with machine := { effect.machine with stack } } := by
  cases i with
  | ret | call => cases hi
  | awaitKey => cases h : m.keypad.lowest? <;> simp only [execute, h] <;> rfl
  | unknown => cases h : config.unknownPolicy <;> simp only [execute, h] <;> rfl
  | operate operation x y =>
      have hsame : operation.apply config (({ m with stack } : Machine).advance.register x)
          (({ m with stack } : Machine).advance.register y) =
          operation.apply config (m.advance.register x) (m.advance.register y) := rfl
      simp only [execute, Machine.operate, hsame]
      rcases operation.apply config (m.advance.register x) (m.advance.register y) with
        ⟨result, _ | flag⟩
      · rfl
      · rfl
  | skipEqByte | skipNeByte | skipEq | skipNe | skipPressed | skipReleased =>
      simp only [execute, Machine.skipIf_eq]
      rfl
  | _ => rfl

/-- An instruction that is not on the stack keeps it. -/
theorem stack_execute_of_usesStack {effect : Effect} (hi : i.usesStack = false)
    (he : i.execute config random m = .ok effect) : effect.machine.stack = m.stack := by
  have hstack := (leaves_execute he).stack
  cases i with
  | ret | call => cases hi
  | _ => exact (Option.some.inj hstack).symm

/-- The account of a machine settles that of the machine behind the next instruction. -/
theorem execute_account (hn : n.stack.depth ≤ 16) (hm : m.stack.depth ≤ 16)
    (h : n.account = m.account) :
    (i.execute config random n).map (Effect.seen Machine.account) =
      (i.execute config random m).map (Effect.seen Machine.account) := by
  obtain ⟨heq, hlive⟩ := Machine.account_eq_iff.1 h
  generalize n.stack = stack at hn heq hlive
  subst heq
  -- Only `ret` and `call` ask for the stack, and they read its live part. All else runs alike on
  -- any stack.
  cases hi : i.usesStack with
  | false =>
      rw [execute_withStack hi]
      cases he : i.execute config random m with
      | error fault => rfl
      | ok effect =>
          have hkept := stack_execute_of_usesStack hi he
          simp only [Except.map, Effect.seen, Machine.account, Machine.view, hkept, hlive]
  | true =>
      cases i with
      | ret =>
          have hpop := CallStack.pop?_congr hm hn hlive
          cases hp : m.stack.pop? with
          | none =>
              rw [hp, Option.map_none, Option.map_eq_none_iff] at hpop
              simp only [execute, hp, hpop]
          | some popped =>
              rw [hp] at hpop
              obtain ⟨other, hq, hboth⟩ := Option.map_eq_some_iff.1 hpop
              simp only [Prod.mk.injEq] at hboth
              simp only [execute, execute.done, hp, hq, Except.map, Effect.seen, Machine.account,
                Machine.view, hboth]
      | call target =>
          have hpush := CallStack.push?_congr (m.pc + 2) hm hn hlive
          cases hp : m.stack.push? (m.pc + 2) with
          | none =>
              rw [hp, Option.map_none, Option.map_eq_none_iff] at hpush
              simp only [execute, hp, hpush]
          | some pushed =>
              rw [hp] at hpush
              obtain ⟨other, hq, hboth⟩ := Option.map_eq_some_iff.1 hpush
              simp only [execute, execute.done, hp, hq, Except.map, Effect.seen, Machine.account,
                Machine.view, Machine.goTo, hboth]
      | _ => cases hi

end Instruction

namespace Machine

variable {m n : Machine}

/-- The two machines show the same, and their call stacks are no deeper than there are slots. -/
structure Equivalent (n m : Machine) : Prop where
  view : n.view = m.view
  depth_le : n.stack.depth ≤ 16
  depth_le_right : m.stack.depth ≤ 16

theorem fetch?_eq_of_view (h : n.view = m.view) : n.fetch? = m.fetch? := by
  have hmemory : n.memory = m.memory := congrArg View.memory h
  have hpc : n.pc = m.pc := congrArg View.pc h
  rw [fetch?, fetch?, hmemory, hpc]

/-- A fetched word settles what is not shown beside the stale slots. -/
theorem account_fetched {word : Word} (h : n.view = m.view) (hw : m.fetch? = some word) :
    n.fetched.account = m.fetched.account := by
  have hview : n.fetched.view = m.fetched.view := h
  rw [account, account, hview]
  simp only [fetched, fetch?_eq_of_view h, hw, Option.getD_some]

theorem account_afterStep (config : Config) (h : n.account = m.account) :
    (Interpreter.afterStep config n).account = (Interpreter.afterStep config m).account := by
  rw [account_eq_iff] at h
  obtain ⟨heq, hlive⟩ := h
  generalize n.stack = stack at heq hlive
  subst heq
  rw [account_eq_iff, Interpreter.afterStep_eq_ticks, Interpreter.afterStep_eq_ticks]
  exact ⟨rfl, hlive⟩

/-- Whether a program is refused does not depend on the machine. -/
theorem load_congr (n m : Machine) (program : List UInt8) :
    (n.load program).value.map (fun _ => Signal.proceed) =
        (m.load program).value.map (fun _ => Signal.proceed) ∧
      (n.load program).log = (m.load program).log := by
  unfold load
  split
  · exact ⟨rfl, rfl⟩
  · exact ⟨rfl, rfl⟩

end Machine

namespace Interpreter

variable {i j : Interpreter} {m n : Machine} {r : Request}

theorem depth_stack_serve (h : m.stack.depth ≤ 16) (r : Request) :
    (i.serve m r).machine.stack.depth ≤ 16 := by
  cases r with
  | step =>
      rw [serve]
      cases hi : i.executed? m with
      | none =>
          rw [(step_of_executed?_eq_none hi).1]
          exact h
      | some instruction =>
          have hstack := stackAfter?_step hi
          cases instruction with
          | ret =>
              obtain ⟨⟨address, rest⟩, hp, hrest⟩ := Option.map_eq_some_iff.1 hstack
              have hdepth := (CallStack.depth_pop? hp).2
              rw [← hrest]
              simp only
              omega
          | call target =>
              have hdepth := CallStack.depth_push? hstack
              omega
          | _ =>
              rw [← Option.some.inj hstack]
              exact h
  | tick | turnKey => exact h
  | load program =>
      rw [serve, Machine.loaded_eq]
      exact h
  | reset => exact Nat.zero_le 16

theorem seen_step_of_fetch? {word : Word} (h : n.Equivalent m) (hw : m.fetch? = some word) :
    (i.step n).seen Machine.account = (i.step m).seen Machine.account := by
  have haccount := Machine.account_fetched h.view hw
  refine seen_step_congr hw ((Machine.fetch?_eq_of_view h.view).trans hw)
    (congrArg Machine.View.pc h.view) haccount ?_ fun k l => Machine.account_afterStep i.config
  exact Instruction.execute_account h.depth_le h.depth_le_right haccount

theorem Step.seen_view_of_account {s t : Step}
    (h : t.seen Machine.account = s.seen Machine.account) :
    t.seen Machine.view = s.seen Machine.view := by
  simp only [Step.seen, Machine.account, Prod.mk.injEq] at h ⊢
  exact ⟨h.1, h.2.1.1, h.2.2⟩

theorem seen_serve (h : n.Equivalent m) (r : Request) :
    (i.serve n r).seen Machine.view = (i.serve m r).seen Machine.view := by
  have hview := h.view
  cases r with
  | step =>
      cases hw : m.fetch? with
      | none =>
          have hpc : n.pc = m.pc := congrArg Machine.View.pc hview
          have hw' := (Machine.fetch?_eq_of_view hview).trans hw
          rw [serve, serve, step_of_fetch?_eq_none hw, step_of_fetch?_eq_none hw']
          exact Step.seen_eq (by rw [hpc]) hview rfl rfl
      | some word => exact Step.seen_view_of_account (seen_step_of_fetch? h hw)
  | tick =>
      have hticked : n.tick.view = m.tick.view :=
        congrArg (fun v : Machine.View => { v with timers := v.timers.tick }) hview
      exact Step.seen_eq rfl hticked rfl rfl
  | turnKey k pressed =>
      have hturned : (n.turnKey k pressed).view = (m.turnKey k pressed).view :=
        congrArg (fun v : Machine.View => { v with keypad := v.keypad.turn k pressed }) hview
      exact Step.seen_eq rfl hturned rfl rfl
  | load program =>
      have hloaded : (n.loaded program).view = (m.loaded program).view := by
        rw [Machine.loaded_eq, Machine.loaded_eq]
        exact congrArg (fun v : Machine.View => { v with memory :=
          if program.length ≤ Machine.capacity then v.memory.store Machine.start program
          else v.memory }) hview
      obtain ⟨hresult, hlog⟩ := Machine.load_congr n m program
      exact Step.seen_eq hresult hloaded rfl hlog
  | reset => rfl

theorem equivalent_serve (h : n.Equivalent m) (r : Request) :
    (i.serve n r).machine.Equivalent (i.serve m r).machine :=
  ⟨Step.view_eq_of_seen (i.seen_serve h r), depth_stack_serve h.depth_le r,
    depth_stack_serve h.depth_le_right r⟩

theorem interpreter_serve_congr (h : n.Equivalent m) (r : Request) :
    (i.serve n r).interpreter = (i.serve m r).interpreter :=
  Step.interpreter_eq_of_seen (i.seen_serve h r)

theorem history_seen (h : n.Equivalent m) (requests : List Request) :
    (history serve i n requests).map (Step.seen Machine.view) =
      (history serve i m requests).map (Step.seen Machine.view) := by
  induction requests generalizing i n m with
  | nil => rfl
  | cons r rest ih =>
      rw [history, history, List.map_cons, List.map_cons, seen_serve h, interpreter_serve_congr h,
        ih (equivalent_serve h r)]

theorem reached_equivalent (h : n.Equivalent m) (requests : List Request) :
    (reached serve i n requests).1 = (reached serve i m requests).1 ∧
      (reached serve i n requests).2.Equivalent (reached serve i m requests).2 := by
  induction requests generalizing i n m with
  | nil => exact ⟨rfl, h⟩
  | cons r rest ih =>
      rw [reached, reached, interpreter_serve_congr h]
      exact ih (equivalent_serve h r)

/-- Machines that differ in stale slots only go on to do so. -/
theorem account_serve (h : n.Equivalent m) (ha : n.account = m.account) (r : Request) :
    (i.serve n r).machine.account = (i.serve m r).machine.account := by
  have hview := (equivalent_serve (i := i) h r).view
  -- The views agree in any case. What is left is kept, or settled by the word that is fetched.
  have hword : n.word = m.word := congrArg (fun a => a.2.1) ha
  have hrepainted : n.repainted = m.repainted := congrArg (fun a => a.2.2) ha
  cases r with
  | step =>
      cases hw : m.fetch? with
      | none =>
          have hw' := (Machine.fetch?_eq_of_view h.view).trans hw
          rw [serve, serve] at hview ⊢
          rw [step_of_fetch?_eq_none hw, step_of_fetch?_eq_none hw'] at hview ⊢
          exact Prod.ext hview (Prod.ext hword rfl)
      | some word => exact Step.view_eq_of_seen (seen_step_of_fetch? h hw)
  | tick | turnKey => exact Prod.ext hview (Prod.ext hword hrepainted)
  | load program =>
      rw [serve, serve, Machine.loaded_eq, Machine.loaded_eq] at hview ⊢
      exact Prod.ext hview (Prod.ext hword hrepainted)
  | reset => rfl

theorem account_reached (h : n.Equivalent m) (ha : n.account = m.account)
    (requests : List Request) :
    (reached serve i n requests).2.account = (reached serve i m requests).2.account := by
  induction requests generalizing i n m with
  | nil => exact ha
  | cons r rest ih =>
      rw [reached, reached, interpreter_serve_congr h]
      exact ih (equivalent_serve h r) (account_serve h ha r)

/-- A step that fetches a word leaves stale slots as the only difference, for good. -/
theorem account_reached_step {word : Word} (h : n.Equivalent m) (hw : m.fetch? = some word)
    (requests : List Request) :
    (reached serve i n (.step :: requests)).2.account =
      (reached serve i m (.step :: requests)).2.account := by
  have hseen := seen_step_of_fetch? (i := i) h hw
  rw [reached, reached, interpreter_serve_congr h]
  exact account_reached (equivalent_serve h .step) (Step.view_eq_of_seen hseen) requests

/-- What a machine shows determines its future. Of two machines that show the same, driven by
interpreters with one configuration and one source of random bytes, every row of requests gets
the same answers, the machines show the same behind each of them, and they end up equivalent.
Behind a step that has fetched a word, and from then on, they have also fetched the same word
last and agree on whether the picture was touched. -/
theorem view_determines_future (hconfig : j.config = i.config) (hrandom : j.random = i.random)
    (h : n.Equivalent m) (requests : List Request) :
    (history serve j n requests).map (Step.seen Machine.view) =
        (history serve i m requests).map (Step.seen Machine.view) ∧
      (reached serve j n requests).2.Equivalent (reached serve i m requests).2 ∧
      ∀ before after, requests = before ++ .step :: after →
        (reached serve i m before).2.fetch?.isSome →
        (reached serve j n requests).2.word = (reached serve i m requests).2.word ∧
          (reached serve j n requests).2.repainted =
            (reached serve i m requests).2.repainted := by
  obtain rfl := eq_of_config_eq hconfig hrandom
  refine ⟨history_seen h requests, (reached_equivalent h requests).2, ?_⟩
  rintro before after rfl hfetch
  obtain ⟨word, hw⟩ := Option.isSome_iff_exists.1 hfetch
  obtain ⟨hinterpreter, hbefore⟩ := reached_equivalent (i := j) h before
  have haccount := account_reached_step (i := (reached serve j m before).1) hbefore hw after
  rw [reached_append, reached_append, hinterpreter]
  exact ⟨congrArg (fun a => a.2.1) haccount, congrArg (fun a => a.2.2) haccount⟩

/-- A call that returns, and then a return without a call. -/
def tidyMachine : Machine := Machine.powerOn.loaded [0x22, 0x04, 0x00, 0xEE, 0x00, 0xEE]

/-- The same machine with something in every stale slot, and with a past. -/
def litteredMachine : Machine :=
  { tidyMachine with stack := ⟨Vector.replicate 16 0xABC, 0⟩, word := 0xFFFF, repainted := true }

def returningTwice : List Request := [.step, .turnKey (Nibble.ofNat 3) true, .step, .tick, .step]

theorem view_determines_future_of_littered :
    (history serve (.ofConfig {} 0) litteredMachine returningTwice).map
        (Step.seen Machine.view) =
      (history serve (.ofConfig {} 0) tidyMachine returningTwice).map (Step.seen Machine.view) ∧
    (reached serve (.ofConfig {} 0) litteredMachine returningTwice).2.word =
      (reached serve (.ofConfig {} 0) tidyMachine returningTwice).2.word := by
  have hequivalent : litteredMachine.Equivalent tidyMachine :=
    ⟨rfl, by decide +kernel, by decide +kernel⟩
  have hfetch : tidyMachine.fetch?.isSome := by decide +kernel
  obtain ⟨hhistory, -, hlater⟩ :=
    view_determines_future (i := .ofConfig {} 0) rfl rfl hequivalent returningTwice
  exact ⟨hhistory, (hlater [] _ rfl hfetch).1⟩

end Interpreter

end Chip8

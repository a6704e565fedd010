import Mathlib
import ScriptStore.Proofs.Custom.Arguments
import ScriptStore.Proofs.Custom.Conversion
import ScriptStore.Proofs.Custom.Steps
import ScriptStore.Proofs.Script.Sources

/-!
# Commands through a script

A script that does no more than to run one command and to answer with the reply is as good as the
command itself, through however many functions the reply passes on its way.

* `HandsOn` — frames that make a value the result of the script; `HandsOn.kept` — a function that
  keeps the value in a variable on the way.
* `reaches_body` — a block in functions comes to run, and its answer is handed on.
* `Invocation.Enters` — a call comes to the body of its script, and finds the store there.
* `Invocation.exists_result_of_relay` — then the call of such a script runs the command and answers.
* `script_command_eq_direct_command` — **a custom command that answers with the reply of a command
  gives the same answer as the command, or an error with the same message, and leaves the same
  keyspace**.
* `script_command_ne_direct_command` — a script takes the way to the store from the scripts that come
  after it.
-/

namespace ScriptStore

open Script

namespace Script

variable {gs : List Frame} {h h' : Heap} {l : Level} {call : Option Nat} {v : Val} {env : Env}
  {body : Block}

/-! ## Functions around a block -/

/-- Frames that make a value the result of the script, and leave the tables alone. -/
def HandsOn (gs : List Frame) : Prop :=
  ∀ v h, ∃ h', h'.tables = h.tables ∧ Reaches (.give [v], gs, h) (.finished (.ok [v]), [], h')

theorem HandsOn.nil : HandsOn [] :=
  fun _ h => ⟨h, rfl, .one rfl rfl⟩

/-- The answer of a function is handed on by what has called it. -/
theorem HandsOn.answer (hands : HandsOn gs) (call : Option Nat) (l : Level) (v : Val) (h : Heap) :
    ∃ h', h'.tables = h.tables ∧
      Reaches (.give [v], .answer :: .activation call l :: gs, h)
        (.finished (.ok [v]), [], h') := by
  obtain ⟨h', htables, hreaches⟩ := hands v h
  exact ⟨h', htables, .step rfl hreaches⟩

/-- A function that keeps a value in a variable and answers with it hands it on. -/
theorem HandsOn.kept (hands : HandsOn gs) (call : Option Nat) (l : Level) (block : Block)
    (env env' : Env) :
    HandsOn (.list [] [] env' (.declare 1 ⟨block, [.answer [.slot 0]], env⟩) ::
      .activation call l :: gs) := by
  intro v h
  obtain ⟨h', htables, hreaches⟩ := hands v (h.newCell v).2
  refine ⟨h', htables, ?_⟩
  have hcell : (h.newCell v).2.cell h.cells.size = v := by simp [Heap.newCell, Heap.cell]
  refine .step rfl (.step rfl (.step rfl ?_))
  show Reaches (.give [(h.newCell v).2.cell h.cells.size], _, _) _
  rw [hcell]
  exact .step rfl hreaches

/-- A function whose results are waited for is called on top of what waits. -/
theorem callClosure_list (body : Block) (scope : List Nat) (line : Nat) (env : Env) (u : Use)
    (call : Option Nat) (room : l.functions + 1 ≤ functionLimit) (h : Heap) :
    Next.callClosure h.closures.size [] (some line) (.list [] [] env u :: .activation call l :: gs)
      (h.withFunction body scope) =
      (.run (.start body ⟨scope, []⟩), .activation (some line) ⟨l.functions + 1, l.inner⟩ ::
        .list [] [] env u :: .activation call l :: gs, h.withFunction body scope) := by
  have hroom : ¬ functionLimit < l.functions + 1 := by omega
  simp only [Next.callClosure, Heap.closure?_withFunction]
  split
  · rename_i hover
    exact (hroom hover).elim
  · rfl

/-- **A block in functions comes to run, and its answer is handed on.** There must be room for as
many functions at a time. -/
theorem reaches_body (body : Block) (wrappings : List Wrapping) :
    ∀ (env : Env) (call : Option Nat) (l : Level) (gs : List Frame) (h : Heap),
      HandsOn gs → gs.any Frame.isProtection = false →
      l.functions + wrappings.countP Wrapping.isKept ≤ functionLimit →
      ∃ env' call' l' gs' h', HandsOn gs' ∧ gs'.any Frame.isProtection = false ∧
        h'.tables = h.tables ∧
        Reaches (.run (.start (wrapAll wrappings body) env), .activation call l :: gs, h)
          (.run (.start body env'), .activation call' l' :: gs', h') := by
  induction wrappings with
  | nil =>
    intro env call l gs h hands unprotected _
    exact ⟨env, call, l, gs, h, hands, unprotected, rfl, .refl _⟩
  | cons wrapping wrappings ih =>
    intro env call l gs h hands unprotected room
    cases wrapping with
    | tail line =>
      have hroom : l.functions + wrappings.countP Wrapping.isKept ≤ functionLimit := room
      obtain ⟨env', call', l', gs', h', hands', unprotected', htables, hreaches⟩ :=
        ih ⟨env.scope, []⟩ call l gs (h.withFunction (wrapAll wrappings body) env.scope) hands
          unprotected hroom
      refine ⟨env', call', l', gs', h', hands', unprotected', htables, .step rfl ?_⟩
      refine (reaches_call (wrapAll wrappings body) h).trans ?_
      rw [callClosure_answer]
      exact hreaches
    | kept line =>
      have hcount : (Wrapping.kept line :: wrappings).countP Wrapping.isKept =
          wrappings.countP Wrapping.isKept + 1 := List.countP_cons_of_pos rfl
      rw [hcount] at room
      let next : Position :=
        ⟨[.declare 1 [callOf (wrapAll wrappings body) line], .answer [.slot 0]],
          [.answer [.slot 0]], env⟩
      obtain ⟨env', call', l', gs', h', hands', unprotected', htables, hreaches⟩ :=
        ih ⟨env.scope, []⟩ (some line) ⟨l.functions + 1, l.inner⟩
          (.list [] [] env (.declare 1 next) :: .activation call l :: gs)
          (h.withFunction (wrapAll wrappings body) env.scope)
          (hands.kept call l _ env env) unprotected (by simp only; omega)
      refine ⟨env', call', l', gs', h', hands', unprotected', htables, .step rfl ?_⟩
      refine (reaches_call (wrapAll wrappings body) h).trans ?_
      rw [callClosure_list _ _ _ _ _ _ (by omega)]
      exact hreaches

/-- A script that passes a reply on comes to ask for the command, and then hands on what comes
back. -/
theorem reaches_relay (wrappings : List Wrapping) (name : String) (args : List String) (line : Nat)
    (store : h.HasStore) (room : wrappings.countP Wrapping.isKept < functionLimit) :
    ∃ call l gs h', HandsOn gs ∧ gs.any Frame.isProtection = false ∧
      Reaches
        (.run (.start (relay wrappings name args line).body .ofBody), [.activation none ⟨1, 1⟩], h)
        (.asks .strict ((name :: args).map .ofString),
          .answer :: .activation call l :: gs, h') := by
  obtain ⟨env, call, l, gs, h', hands, unprotected, htables, hreaches⟩ :=
    reaches_body [.answer [storeCall name args line]] wrappings .ofBody none ⟨1, 1⟩ [] h .nil rfl
      (by simp only; omega)
  refine ⟨call, l, gs, h', hands, unprotected, hreaches.trans (.step rfl ?_)⟩
  exact reaches_storeCall (store.congr htables) name args

end Script

/-! ## The command and its reply -/

/-- What a script answers that runs a command and answers with the reply: the reply, or an error
with the message of the command's. -/
def relayed (reply : Except Error Value) : Except Error Value :=
  reply.mapError fun e => .script (.uncaught e.message)

section Reply

variable {i : Invocation} {clock : Readings} {name : String} {args : List String} {gs : List Frame}
  {call : Option Nat} {l : Level}

/-- Once a script has asked for a command, it runs it and answers with what comes back. -/
theorem Invocation.exists_result_of_asks (still : i.started = (clock 0).nanos)
    (valid : 0 < i.options.interval)
    (asks : i.machine.control = .asks .strict ((name :: args).map .ofString))
    (frames : i.machine.frames = .answer :: .activation call l :: gs) (hands : HandsOn gs)
    (unprotected : gs.any Frame.isProtection = false)
    (bounded : ∀ items, (i.keyspace.dispatch clock name args).1 = .ok (.sequence items) →
      items.length < 2 ^ 63) :
    ∃ n, (i.run (List.replicate n clock)).result? =
        some (relayed (i.keyspace.dispatch clock name args).1) ∧
      (i.run (List.replicate n clock)).keyspace = (i.keyspace.dispatch clock name args).2 := by
  have hask : Custom.ask clock i.keyspace .strict ((name :: args).map .ofString) =
      i.keyspace.dispatch clock name args := by
    rw [Custom.ask, Custom.commandOf_texts]
  have hreply : ∀ v, (i.keyspace.dispatch clock name args).1 = .ok v → v.IsReply :=
    fun v h => Keyspace.isReply_dispatch h
  have hstep := step_of_asks asks clock
  rw [hask] at hstep
  generalize i.keyspace.dispatch clock name args = outcome at *
  obtain ⟨reply, keyspace⟩ := outcome
  cases reply with
  | ok v =>
    obtain ⟨h', htables, hreaches⟩ :=
      hands.answer call l (v.toScript i.machine.heap).1 (v.toScript i.machine.heap).2
    obtain ⟨n, ticks, hrun⟩ := exists_run_of_step hstep hreaches still valid
      (by rw [← frames]; rfl)
    have hback : (v.toScript i.machine.heap).1.toReply h' = .ok v :=
      (hreply v rfl).toReply_toScript (fun items hv => bounded items (by rw [hv])) htables
    refine ⟨n, ?_⟩
    rw [hrun]
    refine ⟨?_, rfl⟩
    simp only [result?, List.headD_cons, hback]
    rfl
  | error e =>
    let failed := i.machine.heap.newFailure (bytes e.message)
    have hframes : (Frame.answer :: Frame.activation call l :: gs).any Frame.isProtection =
        false := unprotected
    have hreaches : Reaches
        (.raise (.failure failed.1), .answer :: .activation call l :: gs, failed.2)
        (.finished (.error (failed.2.failure failed.1)), [], failed.2) :=
      .one rfl (Next.unwind_of_unprotected hframes failed.2)
    obtain ⟨n, ticks, hrun⟩ := exists_run_of_step hstep hreaches still valid
      (by rw [← frames]; rfl)
    have htext : Utf8.decode (failed.2.failure failed.1) = e.message := by
      rw [Heap.failure_newFailure]
      exact Utf8.decode_encode e.message
    refine ⟨n, ?_⟩
    rw [hrun]
    refine ⟨?_, rfl⟩
    simp only [result?, htext]
    rfl

/-- A call comes to the body of its script while the clocks stand still, with the keyspace as it was,
and there `redis.call` means the store. -/
def Invocation.Enters (i : Invocation) (clock : Readings) (body : Block) : Prop :=
  ∃ n h ticks, h.HasStore ∧ i.run (List.replicate n clock) =
    { i with machine := ⟨.run (.start body .ofBody), [.activation none ⟨1, 1⟩], h, ticks⟩ }

/-- A call whose arguments are published at once comes to its body in an environment where
`redis.call` means the store. -/
theorem Invocation.enters_of_publishes {options : Options} (checked : options.check = .ok options)
    {h : Heap} {chunk : Chunk} {keys rest : List String}
    (publishes : (h.withChunk chunk).Publishes keys rest) (store : h.HasStore) (started : Nat)
    (s : Keyspace) (clock : Readings) :
    (Invocation.start options started s chunk h keys rest).Enters clock chunk.body := by
  obtain ⟨published, hpublished⟩ := publishes
  have hplain : (h.withChunk chunk).HasStore := store.congr rfl
  exact ⟨1, published, 0, hplain.of_publish hpublished,
    Invocation.step_start checked hpublished started s clock⟩

/-- **The call of a script that relays a command runs the command and answers with what comes
back**, once it has come to its body. -/
theorem Invocation.exists_result_of_relay {line : Nat} {wrappings : List Wrapping}
    (still : i.started = (clock 0).nanos) (checked : i.options.check = .ok i.options)
    (enters : i.Enters clock (relay wrappings name args line).body)
    (room : wrappings.countP Wrapping.isKept < functionLimit)
    (bounded : ∀ items, (i.keyspace.dispatch clock name args).1 = .ok (.sequence items) →
      items.length < 2 ^ 63) :
    ∃ n, (i.run (List.replicate n clock)).result? =
        some (relayed (i.keyspace.dispatch clock name args).1) ∧
      (i.run (List.replicate n clock)).keyspace = (i.keyspace.dispatch clock name args).2 := by
  have hvalid := Options.interval_pos checked
  obtain ⟨n, h, ticks, store, hbody⟩ := enters
  -- the body comes to ask for the command
  obtain ⟨call, l, gs, h', hands, unprotected, hreaches⟩ :=
    reaches_relay wrappings name args line store room
  obtain ⟨n', ticks', hasks⟩ := Invocation.exists_run_of_reaches clock hreaches
    { i with machine := ⟨.run (.start (relay wrappings name args line).body .ofBody),
        [.activation none ⟨1, 1⟩], h, ticks⟩ } still hvalid rfl
  let asking : Invocation :=
    { i with machine := ⟨.asks .strict ((name :: args).map .ofString),
        .answer :: .activation call l :: gs, h', ticks'⟩ }
  have hasking : i.run (List.replicate (n + n') clock) = asking := by
    rw [← List.replicate_append_replicate, Invocation.run_append, hbody]
    exact hasks
  -- the command runs, and the script hands its reply on
  obtain ⟨n'', hresult, hkeyspace⟩ := Invocation.exists_result_of_asks (i := asking) still hvalid
    rfl rfl hands unprotected bounded
  refine ⟨n + n' + n'', ?_⟩
  rw [← List.replicate_append_replicate, Invocation.run_append, hasking]
  exact ⟨hresult, hkeyspace⟩

end Reply

/-! ## Calls -/

/-- Once a script is over, a call has its outcome for good. -/
theorem Running.exists_outcome {r : Running} {clocks : List Readings} {result : Except Error Value}
    (ended : (r.invocation.run clocks).result? = some result) :
    ∃ after, after.keyspace = (r.invocation.run clocks).keyspace ∧
      ∀ more, (r.run (clocks ++ more)).outcome? = some (result, after) := by
  let i := r.invocation.run clocks
  refine ⟨⟨i.keyspace, .ready ⟨i.machine.heap, r.definitions⟩, i.options⟩, rfl, fun more => ?_⟩
  have hend : r.invocation.run (clocks ++ more) = r.invocation.run clocks := by
    rw [Invocation.run_append, Invocation.run_of_result? (by rw [ended]; rfl)]
  rw [run_eq, outcome?]
  simp only [hend, ended, Option.map_some]
  rfl

/-- Texts are arguments of a command as they are. -/
theorem Store.command_texts (clock : Readings) (s : Store) (name : String) (args : List String) :
    s.command clock name (args.map .text) = s.dispatch clock name args := by
  have htext : ∀ text, (Value.text text).argument = .ok (id text) := fun _ => rfl
  have htexts := mapM_map_eq_ok htext args
  rw [Store.command, Value.arguments, htexts, List.map_id]

variable {s : Store} {env : Environment} {values : List Value} {given : List String}
  {custom name : String} {args : List String} {keys line : Nat} {wrappings : List Wrapping}

/-- **A custom command that answers with the reply of a command is as good as the command.** It
gives the same answer, or an error with the same message, and leaves the same keyspace, if its call
and the command see the same readings of the clocks. However many functions the reply passes on its
way, as long as no more of them are running at a time than may; and a sequence in the reply may have
as many items as there are indices.

Scripts share the global variables. So it takes a call that comes to its body with the keyspace as it
was, and finds the store at `redis.call` there. The script is what its source compiles to, with as
many functions in each other and as many arguments as the compiler has room for. -/
theorem script_command_eq_direct_command (ready : s.scripting.environment = .ok env)
    (texts : Value.arguments values = .ok given)
    (found : Scripting.find env custom given = .ok ⟨keys, relay wrappings name args line⟩)
    (checked : s.options.check = .ok s.options)
    (clock : Readings)
    (enters : (Invocation.start s.options (clock 0).nanos s.keyspace
      (relay wrappings name args line) env.heap (given.take keys) (given.drop keys)).Enters clock
        (relay wrappings name args line).body)
    (room : wrappings.countP Wrapping.isKept < functionLimit)
    (bounded : ∀ items, (s.command clock name (args.map .text)).1 = .ok (.sequence items) →
      items.length < 2 ^ 63) :
    (∃ r n after, s.begin (clock 0) custom values = .running r ∧
      (∀ m, n ≤ m → (r.run (List.replicate m clock)).outcome? =
        some (relayed (s.command clock name (args.map .text)).1, after)) ∧
      after.keyspace = (s.command clock name (args.map .text)).2.keyspace) ∧
    ((∀ w ∈ wrappings, w.line = 1) → line = 1 → wrappings.length ≤ 60 → args.length ≤ 250 →
      Chunk.ofSource (relaySource wrappings name args) = .ok (relay wrappings name args line)) := by
  refine ⟨?_, fun oneLine hline shallow _ => ?_⟩
  · rw [Store.command_texts] at bounded ⊢
    obtain ⟨n, hresult, hkeyspace⟩ :=
      Invocation.exists_result_of_relay rfl checked enters room bounded
    obtain ⟨after, hafter, hover⟩ := Running.exists_outcome
      (r := { invocation := .start s.options (clock 0).nanos s.keyspace
                (relay wrappings name args line) env.heap (given.take keys) (given.drop keys)
              definitions := env.definitions }) hresult
    refine ⟨_, n, after, Store.begin_eq ready texts found (clock 0), fun m hm => ?_, ?_⟩
    · obtain ⟨k, rfl⟩ := Nat.exists_eq_add_of_le hm
      rw [← List.replicate_append_replicate]
      exact hover _
    · rw [hafter]
      exact hkeyspace
  · rw [hline]
    refine ofSource_relaySource oneLine ?_
    have hlimit : Parse.nestingLimit = 200 := rfl
    omega

/-- A custom command that answers with the members of a set, through two functions. -/
def membersDefinition : Definition := ⟨0, relay [.kept 1, .tail 1] "SMEMBERS" ["s"] 1⟩

/-- A store with a set, in which that is a custom command. -/
def membersStore : Store :=
  { keyspace := Keyspace.empty.insert "s" (.lasting (.set (.ofList ["b", "a"])))
    scripting := .ready
      { heap := .initial, definitions := .ofList [("members", membersDefinition)] }
    options := ⟨some 1, 8⟩ }

/-- The members of a set come back from a script as they are. -/
theorem script_members_eq_direct_members :
    ∃ r n after, membersStore.begin ⟨0, 0⟩ "members" [] = .running r ∧
      (∀ m, n ≤ m → (r.run (List.replicate m (.frozen ⟨0, 0⟩))).outcome? =
        some (.ok (.sequence [.text "a", .text "b"]), after)) ∧
      after.keyspace =
        (membersStore.command (.frozen ⟨0, 0⟩) "SMEMBERS" [.text "s"]).2.keyspace := by
  have hmembers : (membersStore.command (.frozen ⟨0, 0⟩) "SMEMBERS" [.text "s"]).1 =
      .ok (.sequence [.text "a", .text "b"]) := by cbv
  have hfound : Scripting.find
      { heap := .initial, definitions := .ofList [("members", membersDefinition)] } "members" [] =
      .ok membersDefinition := by
    simp [Scripting.find, Std.TreeMap.ofList_singleton, membersDefinition]
  have htexts : Value.arguments [] = .ok [] := rfl
  have hbounded : ∀ items, (membersStore.command (.frozen ⟨0, 0⟩) "SMEMBERS" [.text "s"]).1 =
      .ok (.sequence items) → items.length < 2 ^ 63 := by
    intro items h
    rw [hmembers] at h
    cases h
    decide
  have hpublishes : (Heap.initial.withChunk membersDefinition.chunk).Publishes [] [] :=
    ⟨_, Routine.publish_eq (Heap.accepts_initial _) (Heap.accepts_initial _) (by decide)
      (by decide)⟩
  have hchecked : (⟨some 1, 8⟩ : Options).check = .ok ⟨some 1, 8⟩ := rfl
  have henters := Invocation.enters_of_publishes hchecked hpublishes Heap.hasStore_initial 0
    membersStore.keyspace (.frozen ⟨0, 0⟩)
  obtain ⟨⟨r, n, after, hbegin, hover, hafter⟩, -⟩ := script_command_eq_direct_command
    (s := membersStore) rfl htexts hfound rfl (.frozen ⟨0, 0⟩) henters (by decide) hbounded
  refine ⟨r, n, after, hbegin, fun m hm => ?_, hafter⟩
  have hresult : relayed (.ok (.sequence [.text "a", .text "b"])) =
      .ok (.sequence [.text "a", .text "b"]) := rfl
  rw [← hresult, ← hmembers]
  exact hover m hm

/-- A script takes the way to the store from those that come after it: the command answers that there
is no such key, and the script that runs it fails. -/
theorem script_command_ne_direct_command :
    let clock := Readings.frozen ⟨0, 0⟩
    let defined := (Store.new.define "wipe" 0 "redis = nil").2.define "read" 0
      (relaySource [] "GET" ["k"])
    ∃ first, defined.2.begin ⟨0, 0⟩ "wipe" [] = .running first ∧
      ∃ answer ∈ (first.run (List.replicate 10 clock)).outcome?,
        (answer.2.command clock "GET" [.text "k"]).1.isOk = true ∧
        ∃ second, answer.2.begin ⟨0, 0⟩ "read" [] = .running second ∧
          (second.invocation.run (List.replicate 10 clock)).failure? = some (.script (.uncaught
            "script:1: attempt to index a nil value")) := by
  decide +kernel

end ScriptStore

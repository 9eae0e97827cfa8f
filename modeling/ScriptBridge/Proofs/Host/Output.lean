import ScriptBridge.Proofs.Host.Paths
import ScriptBridge.Proofs.Host.Registrations

/-!
What scripts write with the stock functions. Each of these functions has one channel, the standard
output, the error output or the log, and a call adds to it the text in its first slot. In an engine
with the stock modules, what a sequence of calls leaves on a channel is what its own functions were
given, in the order of the calls.
-/
namespace ScriptBridge

namespace Journal

def messages (j : Journal) : List Event := j.events.filter (·.target = "script")

theorem messages_append (j k : Journal) : messages (j ++ k) = j.messages ++ k.messages := by
  rw [messages, events_append, List.filter_append, messages, messages]

structure Silent (j : Journal) : Prop where
  stdout_eq : j.stdout = ""
  stderr_eq : j.stderr = ""
  messages_eq : j.messages = []

namespace Silent

variable {j : Journal} (h : j.Silent) (k : Journal)
include h

theorem stdout_append : stdout (j ++ k) = k.stdout := by
  rw [Journal.stdout_append, h.stdout_eq, String.empty_append]

theorem stderr_append : stderr (j ++ k) = k.stderr := by
  rw [Journal.stderr_append, h.stderr_eq, String.empty_append]

theorem messages_append : messages (j ++ k) = k.messages := by
  rw [Journal.messages_append, h.messages_eq, List.nil_append]

end Silent

end Journal

namespace Stock

inductive Channel where
  | stdout
  | stderr
  | log
  deriving DecidableEq

inductive Member where
  | print
  | println
  | eprint
  | eprintln
  | log (level : Level)

namespace Member

def channel : Member → Channel
  | .print | .println => .stdout
  | .eprint | .eprintln => .stderr
  | .log _ => .log

def space : Member → String
  | .log _ => "log"
  | _ => "std"

def name : Member → String
  | .print => "print"
  | .println => "println"
  | .eprint => "eprint"
  | .eprintln => "eprintln"
  | .log .trace => "trace"
  | .log .debug => "debug"
  | .log .info => "info"
  | .log .warn => "warn"
  | .log .error => "error"

def effect : Member → String → Effect
  | .print, text => .stdout text
  | .println, text => .stdout (text ++ "\n")
  | .eprint, text => .stderr text
  | .eprintln, text => .stderr (text ++ "\n")
  | .log level, text => .event (.logged level "script" text)

def function (m : Member) : NativeFunction :=
  .ofTyped m.name [.text] fun text => ([m.effect text], ())

def adapter (policy : Policy) (m : Member) : Adapter := .ofFunction m.space m.function policy

end Member

def bound (policy : Policy) : List Module :=
  [⟨"std", [.print, .println, .eprint, .eprintln].map (Member.adapter policy)⟩,
    ⟨"log", [.trace, .debug, .info, .warn, .error].map fun level =>
      Member.adapter policy (.log level)⟩]

theorem result_modules (policy : Policy) : (modules policy).result = .ok (bound policy) := by
  cases policy with
  | lenient => rfl
  | strict => rfl

/-- A call of a stock function, by its path or by its namespace and its name. -/
structure Call where
  member : Member
  frame : Frame
  byPath : Bool

def Call.run (e : Engine) (call : Call) : Run EngineError Nat :=
  if call.byPath then e.call (call.member.space ++ "." ++ call.member.name) call.frame
  else e.callIn call.member.space call.member.name call.frame

/-- What a sequence of calls writes. A call that fails does not keep the next one from being made.
-/
def journalOf (e : Engine) (calls : List Call) : Journal :=
  calls.flatMap fun call => (call.run e).journal

theorem part_journalOf (part : Journal → String) (hnil : part [] = "")
    (happend : ∀ j k, part (j ++ k) = part j ++ part k) (e : Engine) (calls : List Call) :
    part (journalOf e calls) = String.join (calls.map fun call => part (call.run e).journal) := by
  induction calls with
  | nil => exact hnil
  | cons call calls ih =>
    rw [journalOf, List.flatMap_cons, happend, ← journalOf, ih, List.map_cons, String.join_cons]

/-- The text that a stock function gets. It is the string in the first slot. If there is none, a
lenient call goes on with the empty text, and a strict one does not get to the function. -/
def heard (policy : Policy) (frame : Frame) : Option String :=
  match frame, policy with
  | .string text :: _, _ => some text
  | _, .lenient => some ""
  | _, .strict => none

namespace Call

variable (policy : Policy) (call : Call)

def toStdout : String :=
  match call.member, heard policy call.frame with
  | .print, some text => text
  | .println, some text => text ++ "\n"
  | _, _ => ""

def toStderr : String :=
  match call.member, heard policy call.frame with
  | .eprint, some text => text
  | .eprintln, some text => text ++ "\n"
  | _, _ => ""

def toLog? : Option Event :=
  match call.member, heard policy call.frame with
  | .log level, some text => some (.logged level "script" text)
  | _, _ => none

variable {call}

theorem toStdout_of_ne (h : call.member.channel ≠ .stdout) : call.toStdout policy = "" := by
  rw [toStdout]
  cases hmember : call.member with
  | print | println => exact absurd (hmember ▸ rfl) h
  | _ => rfl

theorem toStderr_of_ne (h : call.member.channel ≠ .stderr) : call.toStderr policy = "" := by
  rw [toStderr]
  cases hmember : call.member with
  | eprint | eprintln => exact absurd (hmember ▸ rfl) h
  | _ => rfl

theorem toLog?_of_ne (h : call.member.channel ≠ .log) : call.toLog? policy = none := by
  rw [toLog?]
  cases hmember : call.member with
  | log level => exact absurd (hmember ▸ rfl) h
  | _ => rfl

end Call

theorem eq_strict_of_heard {policy : Policy} {frame : Frame} (h : heard policy frame = none) :
    policy = .strict := by
  cases policy with
  | strict => rfl
  | lenient =>
    cases frame with
    | nil => cases h
    | cons v rest => cases v <;> cases h

theorem heard_eq (policy : Policy) (frame : Frame) :
    heard policy frame = match frame.source.text? 1, policy with
      | some text, _ => some text
      | none, .lenient => some ""
      | none, .strict => none := by
  cases frame with
  | nil => cases policy <;> rfl
  | cons v rest => cases v <;> cases policy <;> rfl

/-- How a stock function is called, with a text for it or without one. Beside the function only the
bridge itself writes. -/
theorem exists_invoke_adapter (policy : Policy) (m : Member) (frame : Frame) :
    ∃ j : Journal, j.Silent ∧ (m.adapter policy).invoke frame.source =
      match heard policy frame with
      | some text => ⟨j ++ [m.effect text], .ok 0⟩
      | none => ⟨j, .error (.decode (frame.source.failure 1 .string))⟩ := by
  have hsupplied : ∀ {j : Journal} {text : String},
      Tag.decodeAll frame.source policy 1 [.scalar .text] = ⟨j, .ok [⟨.text, text⟩]⟩ →
        (m.adapter policy).invoke frame.source = ⟨j ++ [m.effect text], .ok 0⟩ :=
    fun h => Adapter.invoke_of_decodeAll (a := m.adapter policy) h
  rw [heard_eq]
  cases htext : frame.source.text? 1 with
  | some text =>
    refine ⟨[], ⟨rfl, rfl, rfl⟩, hsupplied ?_⟩
    rw [Tag.decodeAll, Tag.decode_of_read? (s := .text) htext]
    rfl
  | none =>
    cases policy with
    | lenient =>
      refine ⟨[frame.source.report 1 .string], ⟨rfl, rfl, rfl⟩, hsupplied ?_⟩
      rw [Tag.decodeAll, Tag.decode_scalar, Scalar.decode_lenient_of_none (s := .text) htext]
      rfl
    | strict =>
      refine ⟨[], ⟨rfl, rfl, rfl⟩, Adapter.invoke_of_decodeAll_error (a := m.adapter .strict) ?_⟩
      change Tag.decodeAll frame.source .strict 1 [.scalar .text] = _
      rw [Tag.decodeAll, Tag.decode_scalar, Scalar.decode_strict_of_none (s := .text) htext]
      rfl

def Serves (policy : Policy) (e : Engine) : Prop :=
  ∀ m : Member, e.lookup m.space m.name = .ok (m.adapter policy)

theorem nodup_names_of_mem_bound {policy : Policy} : ∀ m ∈ bound policy, m.names.Nodup :=
  fun m hm => ((Context.of_stock_modules (result_modules policy)).2 m hm).bound.nodup_names

theorem serves_registerAll (policy : Policy) (e : Engine) :
    Serves policy (e.registerAll (bound policy)) := by
  obtain ⟨hconsole, hlogger⟩ := List.forall_mem_cons.1 (@nodup_names_of_mem_bound policy)
  have happart : "std" ≠ "log" := by decide
  intro m
  -- The console is registered first, and the logger after it leaves its table as it is.
  change ((e.register _).1.register _).1.lookup _ _ = _
  cases m with
  | log level =>
    refine ((Engine.register_self _ (hlogger _ (List.mem_singleton_self _))).2.2 _).trans ?_
    cases level <;> rfl
  | _ =>
    refine ((Engine.register_of_ne _ _ happart).2.2 _).trans ?_
    exact (Engine.register_self _ hconsole).2.2 _

theorem serves_registerAll_of_apart {policy : Policy} {e : Engine} (h : Serves policy e)
    {ms : List Module} (apart : ∀ m ∈ ms, m.space ≠ "std" ∧ m.space ≠ "log") :
    Serves policy (e.registerAll ms) := by
  induction ms generalizing e with
  | nil => exact h
  | cons m ms ih =>
    obtain ⟨⟨hstd, hlog⟩, hrest⟩ := List.forall_mem_cons.1 apart
    refine ih (fun member => ?_) hrest
    have hspace : member.space ≠ m.space := by
      cases member with
      | log level => exact hlog.symm
      | _ => exact hstd.symm
    rw [(e.register_of_ne m hspace).2.2, h member]

theorem Call.run_eq (e : Engine) (call : Call) :
    call.run e = e.callIn call.member.space call.member.name call.frame := by
  have hspace : '.' ∉ call.member.space.toList := by
    cases call.member with
    | log level => exact (by decide : '.' ∉ "log".toList)
    | _ => exact (by decide : '.' ∉ "std".toList)
  rw [run, Engine.call_join hspace, ite_self]

theorem Serves.exists_run {policy : Policy} {e : Engine} (h : Serves policy e) (call : Call) :
    ∃ j : Journal, j.Silent ∧ call.run e =
      match heard policy call.frame with
      | some text => ⟨j ++ [call.member.effect text], .ok 0⟩
      | none => ⟨j, .error (.native call.member.space call.member.name
          (.decode (call.frame.source.failure 1 .string)))⟩ := by
  obtain ⟨j, hj, hinvoke⟩ := exists_invoke_adapter policy call.member call.frame
  rw [call.run_eq, Engine.callIn_of_lookup (h call.member), hinvoke]
  refine ⟨.event (.called call.member.space call.member.name (call.member.adapter policy).id
    call.frame.length) :: j, ⟨hj.stdout_eq, hj.stderr_eq, hj.messages_eq⟩, ?_⟩
  cases heard policy call.frame <;> rfl

namespace Serves

variable {policy : Policy} {e : Engine} (h : Serves policy e)
include h

/-- Nothing but the effect of the function is written for scripts, and only if it gets a text. -/
theorem exists_journal_run (call : Call) :
    ∃ j : Journal, j.Silent ∧ (call.run e).journal =
      j ++ ((heard policy call.frame).map call.member.effect).toList := by
  obtain ⟨j, hj, hrun⟩ := h.exists_run call
  refine ⟨j, hj, ?_⟩
  rw [hrun]
  cases heard policy call.frame with
  | none => exact (List.append_nil j).symm
  | some text => rfl

theorem stdout_run (call : Call) : (call.run e).journal.stdout = call.toStdout policy := by
  obtain ⟨j, hj, hjournal⟩ := h.exists_journal_run call
  rw [hjournal, hj.stdout_append, Call.toStdout]
  cases heard policy call.frame <;> cases call.member <;> rfl

theorem stderr_run (call : Call) : (call.run e).journal.stderr = call.toStderr policy := by
  obtain ⟨j, hj, hjournal⟩ := h.exists_journal_run call
  rw [hjournal, hj.stderr_append, Call.toStderr]
  cases heard policy call.frame <;> cases call.member <;> rfl

theorem messages_run (call : Call) :
    (call.run e).journal.messages = (call.toLog? policy).toList := by
  obtain ⟨j, hj, hjournal⟩ := h.exists_journal_run call
  rw [hjournal, hj.messages_append, Call.toLog?]
  cases heard policy call.frame <;> cases call.member <;> rfl

theorem stdout_journalOf (calls : List Call) :
    (journalOf e calls).stdout = String.join (calls.map (Call.toStdout policy)) := by
  rw [part_journalOf Journal.stdout rfl Journal.stdout_append,
    List.map_congr_left fun call _ => h.stdout_run call]

theorem stderr_journalOf (calls : List Call) :
    (journalOf e calls).stderr = String.join (calls.map (Call.toStderr policy)) := by
  rw [part_journalOf Journal.stderr rfl Journal.stderr_append,
    List.map_congr_left fun call _ => h.stderr_run call]

theorem messages_journalOf (calls : List Call) :
    (journalOf e calls).messages = calls.filterMap (Call.toLog? policy) := by
  induction calls with
  | nil => rfl
  | cons call calls ih =>
    rw [journalOf, List.flatMap_cons, Journal.messages_append, h.messages_run, ← journalOf, ih]
    cases hevent : call.toLog? policy with
    | none => exact (List.filterMap_cons_none hevent).symm
    | some event => exact (List.filterMap_cons_some hevent).symm

end Serves

end Stock

namespace Context

/-- Contexts in which the stock modules have been installed under a policy, with nothing else
registered in their namespaces since. -/
inductive HasStock (policy : Policy) : Context → Prop
  | installed {c : Context} (configured : c.config.policy = policy)
      (ok : (c.perform .installStock).result = .ok ()) :
      HasStock policy (c.perform .installStock).context
  | kept {c : Context} {op : Operation} (stock : HasStock policy c)
      (apart : ∀ m ∈ c.registered op, m.space ≠ "std" ∧ m.space ≠ "log") :
      HasStock policy (c.perform op).context

theorem hasStock_ofConfig (config : Config) :
    ((ofConfig config).perform .installStock).context.HasStock config.policy := by
  refine .installed rfl ?_
  rw [result_perform_of_open rfl, Operation.outcome, Operation.modules, Stock.result_modules]

theorem HasStock.serves {policy : Policy} {c : Context} (h : c.HasStock policy) :
    Stock.Serves policy c.engine := by
  induction h with
  | @installed c configured ok =>
    rw [(c.context_perform .installStock).1,
      registered_of_ok ok (Stock.result_modules c.config.policy), configured]
    exact Stock.serves_registerAll policy c.engine
  | @kept c op stock apart ih =>
    rw [(c.context_perform op).1]
    exact Stock.serves_registerAll_of_apart ih apart

/-- What scripts write through an engine with the stock modules. Over any sequence of calls, each
stream gets the texts that its own functions were given in the order of the calls, with a line end
behind those of the functions that write lines, and the log gets one message for each text that its
functions were given, at their levels. The first slot counts, and only a string there is a text. A
call without one ends well with the empty text under the lenient policy. Under the strict policy it
fails for that slot and writes nothing. -/
theorem HasStock.output_of_calls {policy : Policy} {c : Context} (h : c.HasStock policy)
    (calls : List Stock.Call) :
    let e := c.intoEngine.1
    let written := Stock.journalOf e calls
    written.stdout = String.join (calls.map (Stock.Call.toStdout policy)) ∧
      written.stderr = String.join (calls.map (Stock.Call.toStderr policy)) ∧
      written.messages = calls.filterMap (Stock.Call.toLog? policy) ∧
      ∀ call : Stock.Call,
        let run := call.run e
        (call.member.channel ≠ .stdout → run.journal.stdout = "") ∧
          (call.member.channel ≠ .stderr → run.journal.stderr = "") ∧
          (call.member.channel ≠ .log → run.journal.messages = []) ∧
          (∀ text, Stock.heard policy call.frame = some text →
            run.result = .ok 0 ∧ ∀ level, call.member = .log level →
              ∃ event, run.journal.messages = [event] ∧ event.target = "script" ∧
                event.level = level ∧ event.message = text ∧ event.fields = []) ∧
          (Stock.heard policy call.frame = none →
            policy = .strict ∧ run.journal.Silent ∧
              run.result = .error (.native call.member.space call.member.name
                (.decode (call.frame.source.failure 1 .string)))) := by
  intro e written
  have hserves : Stock.Serves policy e := h.serves
  refine ⟨hserves.stdout_journalOf calls, hserves.stderr_journalOf calls,
    hserves.messages_journalOf calls, fun call => ?_⟩
  intro run
  refine ⟨fun hchannel => ?_, fun hchannel => ?_, fun hchannel => ?_, fun text htext => ?_,
    fun hnone => ?_⟩
  · exact (hserves.stdout_run call).trans (Stock.Call.toStdout_of_ne policy hchannel)
  · exact (hserves.stderr_run call).trans (Stock.Call.toStderr_of_ne policy hchannel)
  · rw [hserves.messages_run call, Stock.Call.toLog?_of_ne policy hchannel, Option.toList_none]
  · obtain ⟨j, -, hrun⟩ := hserves.exists_run call
    rw [htext] at hrun
    refine ⟨congrArg Run.result hrun, fun level hlevel =>
      ⟨.logged level "script" text, ?_, rfl, rfl, rfl, rfl⟩⟩
    rw [hserves.messages_run call, Stock.Call.toLog?, hlevel, htext, Option.toList_some]
  · obtain ⟨j, hj, hrun⟩ := hserves.exists_run call
    rw [hnone] at hrun
    have hjournal : run.journal = j := congrArg Run.journal hrun
    exact ⟨Stock.eq_strict_of_heard hnone, hjournal ▸ hj, congrArg Run.result hrun⟩

/-- The same calls under both policies, in a context with another module and in a closed one. The
number is not a text, the surplus slots do not matter, and one slot is missing. -/
theorem output_of_mixed_calls :
    let f : NativeFunction := ⟨"print", [], fun _ => pure ()⟩
    let lenient := (((ofConfig .default).perform .installStock).context.perform
      (.installFunctions "t" [f])).context
    let strict := (((ofConfig ⟨.strict, ⟨"a.lua"⟩⟩).perform .installStock).context.perform
      .sealUp).context
    let number : Stock.Call := ⟨.println, [.int 1, .string "c"], true⟩
    let calls : List Stock.Call := [⟨.print, [.string "a"], true⟩,
      ⟨.log .warn, [.string "w", .bool true], false⟩, number,
      ⟨.eprintln, [.string "e", .nil], false⟩, ⟨.log .info, [], true⟩,
      ⟨.println, [.string "b"], false⟩]
    let ran := Stock.journalOf lenient.intoEngine.1 calls
    let ranStrictly := Stock.journalOf strict.intoEngine.1 calls
    (ran.stdout = "a\nb\n" ∧ ran.stderr = "e\n" ∧
        ran.messages = [.logged .warn "script" "w", .logged .info "script" ""]) ∧
      (ranStrictly.stdout = "ab\n" ∧ ranStrictly.stderr = "e\n" ∧
        ranStrictly.messages = [.logged .warn "script" "w"]) ∧
      (number.run lenient.intoEngine.1).result = .ok 0 ∧
      (number.run strict.intoEngine.1).result =
        .error (.native "std" "println" (.decode (.mismatch 1 .string "integer"))) := by
  intro f lenient strict number calls ran ranStrictly
  have hlenient : lenient.HasStock .lenient := by
    have hregistered : ((ofConfig .default).perform .installStock).context.registered
        (.installFunctions "t" [f]) = [⟨"t", [.ofFunction "t" f .lenient]⟩] :=
      registered_of_ok rfl rfl
    refine (hasStock_ofConfig .default).kept fun m hm => ?_
    rw [hregistered, List.mem_singleton] at hm
    subst hm
    decide
  have hstrict : strict.HasStock .strict := by
    refine (hasStock_ofConfig ⟨.strict, ⟨"a.lua"⟩⟩).kept fun m hm => ?_
    rw [registered_sealUp] at hm
    cases hm
  obtain ⟨hstdout, hstderr, hmessages, heach⟩ := hlenient.output_of_calls calls
  obtain ⟨hstdout', hstderr', hmessages', heach'⟩ := hstrict.output_of_calls calls
  obtain ⟨-, -, -, hheard, -⟩ := heach number
  obtain ⟨-, -, -, -, hunheard⟩ := heach' number
  exact ⟨⟨hstdout, hstderr, hmessages⟩, ⟨hstdout', hstderr', hmessages'⟩, (hheard "" rfl).1,
    (hunheard rfl).2.2⟩

end Context

end ScriptBridge

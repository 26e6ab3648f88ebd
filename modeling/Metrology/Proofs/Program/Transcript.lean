import Metrology.Proofs.Program.InputLines
import Metrology.Proofs.Session.Command
import Metrology.Proofs.Session.Shown

/-!
# The transcript of a run

A run of the program is a prompt and an answer for each of its lines, up to the first that ends the
session. Which lines are asked is known from the lines alone: no error ends the conversation and no
answer prolongs it. The answers are those of the session, line after line.
-/

namespace Metrology

/-- Whether the only word of a line asks to leave the program. -/
def EndsSession (line : String) : Prop :=
  Text.words line = ["quit"] ∨ Text.words line = ["exit"]

instance : DecidablePred EndsSession := fun line =>
  inferInstanceAs (Decidable (Text.words line = ["quit"] ∨ Text.words line = ["exit"]))

variable {line : String}

namespace Command

theorem ofLine_eq_quit_iff : ofLine line = .ok quit ↔ EndsSession line := by
  constructor
  · intro isQuit
    rcases (writtenAs_of_ofWords isQuit).1 with same | same
    · exact .inl same
    · exact .inr same
  · rintro (isQuit | isExit)
    · rw [ofLine, isQuit, ofWords]
    · rw [ofLine, isExit, ofWords]

theorem ofLine_eq_empty_iff : ofLine line = .ok empty ↔ Text.words line = [] := by
  constructor
  · intro isEmpty
    cases (writtenAs_of_ofWords isEmpty).1 with
    | words same => exact same
  · intro noWords
    rw [ofLine, noWords, ofWords]

end Command

namespace Session

variable {session next : Session} {command : Command} {response : Response} {mode : OutputMode}

theorem Performs.quit_iff (performs : Performs session command response next) :
    response = .quit ↔ command = .quit := by
  cases performs <;> simp

theorem Performs.nothing_iff (performs : Performs session command response next) :
    response = .nothing ↔ command = .empty := by
  cases performs <;> simp

theorem render_eq_none_iff (session : Session) (mode : OutputMode) (response : Response) :
    session.render mode response = none ↔ response = .nothing ∨ response = .quit := by
  cases response <;> cases mode <;> simp [render]

/-- What is printed in answer to a line: the text of the response or of the error on a line of its
own, and nothing where the response has no text. -/
def printed (session : Session) (mode : OutputMode) : Except SessionError Response → String
  | .ok response => ((session.render mode response).map (· ++ "\n")).getD ""
  | .error error => "Math Error: " ++ error.message ++ "\n"

theorem render_eq_of_system_eq (same : next.system = session.system) (mode : OutputMode)
    (response : Response) : next.render mode response = session.render mode response := by
  cases response <;> simp only [render, same]

/-- An answer is printed the same at any point of a session. -/
theorem printed_afterAll (session : Session) (lines : List String) (mode : OutputMode)
    (answer : Except SessionError Response) :
    (session.afterAll lines).printed mode answer = session.printed mode answer := by
  cases answer with
  | error error => rfl
  | ok response =>
      rw [printed, printed, render_eq_of_system_eq (session.system_afterAll lines)]

theorem respond_of_endsSession (ends : EndsSession line) :
    session.respond line = (.ok .quit, session) := by
  simp only [respond, execute, Command.ofLine_eq_quit_iff.mpr ends, Action.run_bind,
    Action.run_lift, SessionError.ofCommand]
  rfl

theorem respond_of_no_words (noWords : Text.words line = []) :
    session.respond line = (.ok .nothing, session) := by
  simp only [respond, execute, Command.ofLine_eq_empty_iff.mpr noWords, Action.run_bind,
    Action.run_lift, SessionError.ofCommand]
  rfl

/-- Nothing is printed for a line without words and for one that ends the session, and there is
something to print for any other. -/
theorem printed_eq_empty_iff (session : Session) (mode : OutputMode) (line : String) :
    session.printed mode (session.respond line).1 = "" ↔
      Text.words line = [] ∨ EndsSession line := by
  constructor
  · intro isEmpty
    rcases session.respond_cases line with
      ⟨error, run⟩ | ⟨command, response, next, read, run, performs⟩
    · rw [run] at isEmpty
      simp [printed] at isEmpty
    · have noText : session.render mode response = none := by
        rw [run, printed] at isEmpty
        cases rendered : session.render mode response with
        | none => rfl
        | some text => simp [rendered] at isEmpty
      rw [render_eq_none_iff, performs.nothing_iff, performs.quit_iff] at noText
      rcases noText with rfl | rfl
      · exact .inl (Command.ofLine_eq_empty_iff.mp read)
      · exact .inr (Command.ofLine_eq_quit_iff.mp read)
  · rintro (noWords | ends)
    · rw [respond_of_no_words noWords]
      rfl
    · rw [respond_of_endsSession ends]
      rfl

theorem turn?_of_endsSession (ends : EndsSession line) : session.turn? mode line = none := by
  rw [turn?, respond_of_endsSession ends]

/-- A line that does not end the session is answered, even if it fails, and the session goes on. -/
theorem turn?_of_goesOn (goesOn : ¬EndsSession line) :
    session.turn? mode line =
      some (session.after line, session.printed mode (session.respond line).1) := by
  rcases session.respond_cases line with
    ⟨error, run⟩ | ⟨command, response, next, read, run, performs⟩
  · simp only [turn?, after, run, printed]
  · have notQuit : response ≠ .quit := by
      intro isQuit
      rw [performs.quit_iff] at isQuit
      rw [isQuit, Command.ofLine_eq_quit_iff] at read
      exact goesOn read
    have rendered := render_eq_of_system_eq performs.system_eq mode response
    simp only [turn?, after, run, printed, rendered]
    cases session.render mode response <;> rfl

end Session

namespace Program

/-- The lines up to the first that ends the session, and this one. -/
def asked : List String → List String
  | [] => []
  | line :: rest => if EndsSession line then [line] else line :: asked rest

theorem asked_append {lines : List String} (ends : ∃ line ∈ lines, EndsSession line)
    (rest : List String) : asked (lines ++ rest) = asked lines := by
  induction lines with
  | nil => simp at ends
  | cons line lines ih =>
      rw [List.cons_append, asked, asked]
      split
      · rfl
      · rename_i goesOn
        rw [List.exists_mem_cons_iff] at ends
        rw [ih (ends.resolve_left goesOn)]

/-- The conversation is the record of the session's answers. -/
theorem transcript_eq (config : Config) (session : Session) (lines : List String) :
    transcript config session lines =
      String.join ((session.answers (asked lines)).map fun answer =>
          config.prompt ++ session.printed config.output answer) ++
        if ∃ line ∈ lines, EndsSession line then "" else config.prompt := by
  -- The session changes from line to line, but not how it prints an answer.
  induction lines generalizing session with
  | nil => simp [transcript, asked, Session.answers]
  | cons line rest ih =>
      rw [transcript, asked]
      by_cases ends : EndsSession line
      · simp [Session.turn?_of_endsSession ends, Session.respond_of_endsSession ends,
          Session.answers, Session.printed, Session.render, ends]
      · have samePrinted (answer : Except SessionError Response) :
            (session.after line).printed config.output answer =
              session.printed config.output answer :=
          session.printed_afterAll [line] config.output answer
        rw [Session.turn?_of_goesOn ends, if_neg ends]
        simp only [ih, samePrinted, Session.answers, List.map_cons, String.join_cons,
          List.exists_mem_cons_iff, ends, false_or, String.append_assoc]

/-- Lines after one that ends the session are not read. -/
theorem transcript_append (config : Config) (session : Session) {lines : List String}
    (ends : ∃ line ∈ lines, EndsSession line) (rest : List String) :
    transcript config session (lines ++ rest) = transcript config session lines := by
  have endsToo : ∃ line ∈ lines ++ rest, EndsSession line := by
    rcases ends with ⟨line, member, isEnd⟩
    exact ⟨line, List.mem_append_left rest member, isEnd⟩
  rw [transcript_eq, transcript_eq, asked_append ends, if_pos ends, if_pos endsToo]

/-- The transcript of the program is the transcript of its session, for every configuration that can
be used and every input. The input is read line by line, and each line up to the first that ends the
session is answered after a prompt as the session answers it. Another prompt follows if no line ends
the session, and the program succeeds. There is no answer to print just for a line without words and
for one that ends the session, and what follows the latter has no effect. -/
theorem runWith_eq_answers {accepts : String → Bool} {directory : Directory}
    {arguments : List String} {config : Config} {session : Session}
    (loaded : Config.load directory arguments.head? = .ok config)
    (accepted : accepts config.logFilter = true)
    (tables : Session.ofConfig directory config = .ok session) :
    (∀ input, ReadsAs (inputLines input) input.toList ∧
      runWith accepts directory arguments input =
        ⟨banner ++ String.join ((session.answers (asked (inputLines input))).map fun answer =>
            config.prompt ++ session.printed config.output answer) ++
          if ∃ line ∈ inputLines input, EndsSession line then "" else config.prompt, 0⟩) ∧
    (∀ earlier line,
      session.printed config.output ((session.afterAll earlier).respond line).1 = "" ↔
        Text.words line = [] ∨ EndsSession line) ∧
    ∀ before after, (∃ line ∈ inputLines (before ++ "\n"), EndsSession line) →
      runWith accepts directory arguments (before ++ "\n" ++ after) =
        runWith accepts directory arguments (before ++ "\n") := by
  have started : startWith? accepts directory arguments = some (config, session) := by
    simp [startWith?, loaded, accepted, tables, Except.toOption]
  have printsRecord (input : String) : runWith accepts directory arguments input =
      ⟨banner ++ transcript config session (inputLines input), 0⟩ := by
    rw [runWith, started]
  refine ⟨fun input => ⟨readsAs_iff.mpr rfl, ?_⟩, fun earlier line => ?_, ?_⟩
  · rw [printsRecord, transcript_eq, String.append_assoc]
  · rw [← session.printed_afterAll earlier, Session.printed_eq_empty_iff]
  · intro before after ends
    rw [printsRecord, printsRecord, inputLines_append, transcript_append config session ends]

/-- With the default settings, a line that fails is answered by its error, an empty one by nothing
and a length by its value, and the line after `exit` is not answered. -/
theorem runWith_eq_answers_exit :
    ∃ constants, Constants.ofTable .builtin none = .ok constants ∧
      Config.load ⟨[]⟩ ([] : List String).head? = .ok {} ∧
      LogFilter.isValid ({} : Config).logFilter = true ∧
      Session.ofConfig ⟨[]⟩ {} = .ok (.new .builtin constants) ∧
      runWith LogFilter.isValid ⟨[]⟩ [] "1m 1s +\r\n\n2km\nexit\n2km\n" =
        ⟨"PhysiCalc 0.1.0\nType \"help\" for usage.\n" ++
          ">>>: Math Error: Can't combine values with different units: m and s\n" ++
          ">>>: >>>: 2000±0 m\n>>>: ", 0⟩ := by
  rcases Session.exists_builtin_constants with ⟨constants, isTable⟩
  have loaded : Config.load ⟨[]⟩ ([] : List String).head? = .ok {} := by decide +kernel
  have accepted : LogFilter.isValid ({} : Config).logFilter = true := by decide +kernel
  have tables : Session.ofConfig ⟨[]⟩ {} = .ok (.new .builtin constants) := by
    change (ConfigError.ofTable (Constants.ofTable .builtin none) >>= fun constants =>
      pure (Session.new .builtin constants)) = _
    rw [isTable]
    rfl
  refine ⟨constants, isTable, loaded, accepted, tables, ?_⟩
  rw [((runWith_eq_answers loaded accepted tables).1 _).2, Outcome.mk.injEq]
  refine ⟨of_decide_eq_true ?_, rfl⟩
  apply Session.holds_of_builtin isTable
  decide +kernel

end Program

end Metrology

import BuildPipeline.Shell.Builtin

/-!
# Running shell scripts

A script runs line by line until one of its commands ends it.  The commands of a pipeline and the
scripts inside words run in sessions of their own, whose variables and endings stay there; what they
do to files is seen by all.
-/

namespace BuildPipeline.Shell

/-! ## Redirections -/

/-- Where what a command writes goes. -/
inductive Sink where
  | output
  | errors
  | file (location : Location)
  | nothing

/-- The ends of the streams of a command. -/
structure Streams where
  output : Sink := .output
  errors : Sink := .errors
  input : String := ""

namespace Streams

def get (streams : Streams) (number : String) : Sink :=
  if number = "2" then streams.errors else streams.output

def set (streams : Streams) (number : Nat) (sink : Sink) : Streams :=
  if number = 2 then { streams with errors := sink }
  else if number = 1 then { streams with output := sink }
  else streams

end Streams

/-- Lead one stream elsewhere; the files change where one is opened for writing. -/
def redirect (capture : String → String) (session : Session) (streams : Streams)
    (redirection : Redirection) : Except String (Files × Streams) :=
  let files := session.files
  match redirection.target with
  | .stream word =>
    .ok (files, streams.set redirection.stream (streams.get (session.expandText capture word)))
  | .source word =>
    let path := session.expandText capture word
    match files.read path with
    | .ok input => .ok (files, { streams with input })
    | .error .notFound => .error ("cannot open " ++ path ++ ": No such file")
    | .error error => .error ("cannot open " ++ path ++ ": " ++ fileComplaint error)
  | .file word appends =>
    let path := session.expandText capture word
    if path = "/dev/null" then .ok (files, streams.set redirection.stream .nothing)
    else
      match files.writable path with
      | .ok location =>
        let isKept := appends && (files.item? location).isSome
        .ok (if isKept then files else files.write location "",
          streams.set redirection.stream (.file location))
      | .error .notFound => .error ("cannot create " ++ path ++ ": Directory nonexistent")
      | .error error => .error ("cannot create " ++ path ++ ": " ++ fileComplaint error)

/-- Lead streams elsewhere in order, up to the first failure. -/
def redirectAll (capture : String → String) (session : Session) (streams : Streams) :
    List Redirection → Except String (Session × Streams)
  | [] => .ok (session, streams)
  | redirection :: rest => do
    let (files, streams) ← redirect capture session streams redirection
    redirectAll capture { session with files } streams rest

/-- Write a text where a stream ends. -/
def deliver (session : Session) (sink : Sink) (text : String) : Session :=
  match sink with
  | .output => { session with output := session.output ++ text }
  | .errors => { session with errors := session.errors ++ text }
  | .nothing => session
  | .file location =>
    let earlier := match session.files.item? location with
      | some (.file earlier) => earlier
      | _ => ""
    { session with files := session.files.set location (.file (earlier ++ text)) }

/-! ## Commands -/

/-- Assign in order, each value expanded with the assignments before it. -/
def assignAll (capture : Session → String → String) (session : Session)
    (assignments : List (String × Word)) : Session :=
  assignments.foldl
    (fun session (name, word) => session.assign name (session.expandText (capture session) word))
    session

/-- Run one command.  Assignments in front of a command hold for that command only. -/
def runCommand (capture : Session → String → String) (session : Session) (command : Command)
    (input : String) : Session :=
  let (assignments, words) := Session.splitAssignments command.words
  match redirectAll (capture session) session { input } command.redirections with
  | .error text =>
    { session with
      errors := session.errors ++ session.complaint command.line text
      status := if session.kind = .bash then 1 else 2 }
  | .ok (session, streams) =>
    match words.flatMap (session.expandWord (capture session)) with
    | [] => { assignAll capture session assignments with status := 0 }
    | name :: arguments =>
      let reply := dispatch name (assignAll capture session assignments)
        { line := command.line, arguments, input := streams.input }
      let vars :=
        if assignments.isEmpty then reply.session.vars else session.vars
      let session := { reply.session with vars, status := reply.status }
      deliver (deliver session streams.output reply.output) streams.errors reply.errors

/-- What is left of a session of its own in the one around it. -/
def Session.leave (inner outer : Session) : Session :=
  let status := match inner.ending with
    | some (.exited code) => code
    | _ => inner.status
  { outer with
    files := { inner.files with workingDirectory := outer.files.workingDirectory }
    errors := inner.errors
    slept := inner.slept
    status
    ending := if inner.ending = some .killed then some .killed else none }

/-- Run commands, each reading what the one before wrote; the last one writes to the session. -/
def runPiped (capture : Session → String → String) (session : Session) (input : String) :
    List Command → Session
  | [] => session
  | command :: rest =>
    let inner := runCommand capture { session with output := "" } command input
    let session := inner.leave session
    if rest.isEmpty then { session with output := session.output ++ inner.output }
    else runPiped capture session inner.output rest

def runLine (capture : Session → String → String) (session : Session) (line : Line) : Session :=
  let session :=
    match line.commands with
    | [command] => runCommand capture session command ""
    | commands => runPiped capture session "" commands
  if line.negated then { session with status := if session.status = 0 then 1 else 0 } else session

/-! ## Scripts -/

/-- Whether a line is run. -/
def Line.isDue (line : Line) (session : Session) : Bool :=
  match line.link with
  | .always => true
  | .onSuccess => session.status == 0
  | .onFailure => session.status != 0

/-- Run lines in order.  Where failures end the script, only the last of a chain counts. -/
def runLines (capture : Session → String → String) (session : Session) : List Line → Session
  | [] => session
  | line :: rest =>
    if session.ending.isSome then session
    else if !line.isDue session then runLines capture session rest
    else
      let session := runLine capture session line
      let isLast := (rest.head?.map (·.link)).getD .always == .always
      if session.stopsOnFailure && isLast && !line.negated && session.status ≠ 0 &&
          session.ending.isNone then
        { session with ending := some (.exited session.status) }
      else runLines capture session rest

/-- Run a script with scripts inside its words, nested up to a depth. -/
def runScript : Nat → Session → String → Session
  | 0, session, _ => session
  | depth + 1, session, body =>
    match parse body with
    | .error fault =>
      { session with
        errors := session.errors ++ session.complaint 1 fault.message, ending := some (.exited 2) }
    | .ok lines =>
      let capture (session : Session) (body : String) : String :=
        (runScript depth { session with output := "" } body).output
      runLines capture session lines

/-- Run a script; a script inside a word is shorter than the one around it. -/
def Session.run (session : Session) (body : String) : Session :=
  runScript (body.length + 1) session body

/-- The exit code after a script; nothing if the shell was killed. -/
def Session.exitCode? (session : Session) : Option Nat :=
  match session.ending with
  | some (.exited code) => some code
  | some .killed => none
  | none => some session.status

end BuildPipeline.Shell

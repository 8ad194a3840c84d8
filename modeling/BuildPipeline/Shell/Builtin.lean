import BuildPipeline.Shell.Session

/-!
# Commands that the shell knows

Each command takes its arguments and the text it can read, and answers with what it writes and its
exit code.  It may change the session.
-/

namespace BuildPipeline.Shell

/-- What a command is called with. -/
structure Call where
  /-- The number of the line. -/
  line : Nat
  arguments : List String
  input : String := ""

/-- What a command leaves behind. -/
structure Reply where
  session : Session
  output : String := ""
  errors : String := ""
  status : Nat := 0

abbrev Builtin := Session → Call → Reply

/-- A command that failed with a complaint of its own. -/
def Reply.failure (session : Session) (text : String) (status : Nat) : Reply :=
  { session, errors := text ++ "\n", status }

/-! ## Texts -/

/-- The character of an escape of one letter. -/
def letterEscape? (c : Char) : Option Char :=
  [('a', 7), ('b', 8), ('f', 12), ('n', 10), ('r', 13), ('t', 9), ('v', 11), ('\\', 92)].lookup c
    |>.map Char.ofNat

def isOctalDigit (c : Char) : Bool :=
  '0' ≤ c ∧ c ≤ '7'

/-- The character with an octal number. -/
def octalChar (digits : List Char) : Char :=
  Char.ofNat (digits.foldl (fun n c => 8 * n + (c.toNat - '0'.toNat)) 0)

/-- A text with its escapes replaced, and whether it ends in `\c`; `skipped` characters belong to
the escape just replaced. -/
def unescape (skipped : Nat) : List Char → List Char × Bool
  | [] => ([], false)
  | c :: rest =>
    match skipped with
    | skipped + 1 => unescape skipped rest
    | 0 =>
      let put (c : Char) (length : Nat) : List Char × Bool :=
        let (text, stops) := unescape length rest
        (c :: text, stops)
      if c ≠ '\\' then put c 0
      else
        match rest.head? with
        | none => put c 0
        | some 'c' => ([], true)
        | some '0' =>
          let digits := ((rest.drop 1).takeWhile isOctalDigit).take 3
          put (octalChar digits) (digits.length + 1)
        | some letter =>
          match letterEscape? letter with
          | some replaced => put replaced 1
          | none => put c 0

/-- The arguments in one line, with or without escapes and a newline. -/
def echoText (escapes newline : Bool) (arguments : List String) : String :=
  let text := " ".intercalate arguments
  let (text, stops) :=
    if escapes then
      let (text, stops) := unescape 0 text.toList
      (String.ofList text, stops)
    else (text, false)
  if newline && !stops then text ++ "\n" else text

/-- Whether escapes are replaced and a newline is written, and the arguments that are no options. -/
def bashEchoOptions (escapes newline : Bool) : List String → Bool × Bool × List String
  | [] => (escapes, newline, [])
  | argument :: rest =>
    match argument.toList with
    | '-' :: letter :: letters =>
      let letters := letter :: letters
      if letters.all fun c => c = 'n' ∨ c = 'e' ∨ c = 'E' then
        let escapes := letters.foldl
          (fun escapes c => if c = 'e' then true else if c = 'E' then false else escapes) escapes
        bashEchoOptions escapes (newline && !letters.contains 'n') rest
      else (escapes, newline, argument :: rest)
    | _ => (escapes, newline, argument :: rest)

def echo : Builtin := fun session call =>
  let (escapes, newline, arguments) :=
    match session.kind, call.arguments with
    | .bash, arguments => bashEchoOptions false true arguments
    | _, "-n" :: arguments => (true, false, arguments)
    | _, arguments => (true, true, arguments)
  { session, output := echoText escapes newline arguments }

/-- A format with its escapes and conversions replaced, and the arguments that are left. -/
def format (skipped : Nat) (arguments : List String) : List Char → List Char × List String
  | [] => ([], arguments)
  | c :: rest =>
    match skipped with
    | skipped + 1 => format skipped arguments rest
    | 0 =>
      let put (text : List Char) (length : Nat) (arguments : List String) :
          List Char × List String :=
        let (more, arguments) := format length arguments rest
        (text ++ more, arguments)
      let argument := (arguments.headD "").toList
      if c = '\\' then
        match rest.head? with
        | none => put [c] 0 arguments
        | some next =>
          if isOctalDigit next then
            let digits := (rest.takeWhile isOctalDigit).take 3
            put [octalChar digits] digits.length arguments
          else if next = '"' ∨ next = '\'' then put [next] 1 arguments
          else
            match letterEscape? next with
            | some replaced => put [replaced] 1 arguments
            | none => put [c] 0 arguments
      else if c = '%' then
        match rest.head? with
        | some '%' => put ['%'] 1 arguments
        | some 's' => put argument 1 arguments.tail
        | some 'b' => put (unescape 0 argument).1 1 arguments.tail
        | some 'c' => put (argument.take 1) 1 arguments.tail
        | some 'd' | some 'i' =>
          let number := (String.ofList argument).toInt?.getD 0
          put (toString number).toList 1 arguments.tail
        | _ => put [c] 0 arguments
      else put [c] 0 arguments

/-- Use a format again and again until every argument is written. -/
def formatAll (text : List Char) : Nat → List String → List Char
  | 0, _ => []
  | rounds + 1, arguments =>
    let (written, left) := format 0 arguments text
    if left = [] ∨ left.length = arguments.length then written
    else written ++ formatAll text rounds left

def printf : Builtin := fun session call =>
  let arguments := match call.arguments with
    | "--" :: rest => rest
    | arguments => arguments
  match arguments with
  | [] => .failure session "printf: usage: printf format [arg ...]" 2
  | text :: arguments =>
    { session
      output := String.ofList (formatAll text.toList (arguments.length + 1) arguments) }

/-! ## Ending -/

/-- The exit code of a number: its last eight bits. -/
def exitCodeOf? (session : Session) (text : String) : Option Nat :=
  match text.toNat?, session.kind with
  | some n, _ => some (n % 256)
  | none, .bash => text.toInt?.map fun n => (n % 256).toNat
  | none, _ => none

def exit : Builtin := fun session call =>
  let leave (code : Nat) : Session := { session with ending := some (.exited code) }
  match call.arguments with
  | [] => { session := leave session.status, status := session.status }
  | text :: _ =>
    match exitCodeOf? session text with
    | some code => { session := leave code, status := code }
    | none =>
      { session := leave 2
        errors := session.complaint call.line ("exit: Illegal number: " ++ text), status := 2 }

/-- The target of a signal and whether the signal ends it. -/
def signal : List String → String × Bool
  | "-s" :: name :: target :: _ => (target, name ≠ "0")
  | "--" :: target :: _ => (target, true)
  | name :: target :: _ => (target, name ≠ "-0")
  | [target] => (target, true)
  | [] => ("", false)

def kill : Builtin := fun session call =>
  let (target, ends) := signal call.arguments
  if target = Session.processId then
    { session := if ends then { session with ending := some .killed } else session }
  else
    { session, errors := session.complaint call.line "kill: No such process", status := 1 }

/-! ## Variables -/

def exportValues : Builtin := fun session call =>
  { session := call.arguments.foldl
      (fun session argument =>
        match Text.splitOnce? ['='] argument.toList with
        | some (name, value) => session.assign (String.ofList name) (String.ofList value)
        | none => session)
      session }

/-- The value of a variable on a line of its own. -/
def printenv : Builtin := fun session call =>
  match call.arguments.head?.bind fun name => session.vars.get? name with
  | some value => { session, output := value ++ "\n" }
  | none => { session, status := 1 }

def unset : Builtin := fun session call =>
  { session := call.arguments.foldl
      (fun session name => { session with vars := session.vars.erase name }) session }

/-- Only the option that ends the script at a failure has an effect. -/
def setOptions : Builtin := fun session call =>
  { session := call.arguments.foldl
      (fun session argument =>
        match argument.toList with
        | '-' :: letters =>
          { session with stopsOnFailure := session.stopsOnFailure || letters.contains 'e' }
        | '+' :: letters =>
          { session with stopsOnFailure := session.stopsOnFailure && !letters.contains 'e' }
        | _ => session)
      session }

/-- Milliseconds of a number of seconds with an optional fraction. -/
def milliseconds? (text : String) : Option Nat :=
  match Text.splitOnce? ['.'] text.toList with
  | none => text.toNat?.map (· * 1000)
  | some (whole, fraction) => do
    let seconds ← (if whole = [] then some 0 else (String.ofList whole).toNat?)
    let digits := (fraction ++ ['0', '0', '0']).take 3
    return seconds * 1000 + (← (String.ofList digits).toNat?)

def sleep : Builtin := fun session call =>
  match call.arguments.head?.bind milliseconds? with
  | some time => { session := { session with slept := session.slept + time } }
  | none => .failure session "sleep: missing operand" 1

/-! ## Files -/

def pwd : Builtin := fun session _ =>
  { session, output := Location.path session.files.workingDirectory ++ "\n" }

/-- The text of an error without the number of the system. -/
def fileComplaint (error : FileError) : String :=
  match Text.splitOnce? " (os error".toList error.message.toList with
  | some (text, _) => String.ofList text
  | none => error.message

def cd : Builtin := fun session call =>
  match call.arguments.head? with
  | none => { session }
  | some path =>
    match session.files.locate path with
    | .ok location =>
      if session.files.isDirectoryAt location then
        let session := { session with
          files := { session.files with workingDirectory := location } }
        { session := session.assign "PWD" location.path }
      else
        { session, status := 2
          errors := session.complaint call.line ("cd: can't cd to " ++ path) }
    | .error _ =>
      { session, status := 2
        errors := session.complaint call.line ("cd: can't cd to " ++ path) }

/-- The texts of files one after the other; a dash stands for what can be read. -/
def cat : Builtin := fun session call =>
  let paths := if call.arguments.isEmpty then ["-"] else call.arguments
  paths.foldl
    (fun reply path =>
      if path = "-" then { reply with output := reply.output ++ call.input }
      else
        match session.files.read path with
        | .ok text => { reply with output := reply.output ++ text }
        | .error error =>
          { reply with
            errors := reply.errors ++ "cat: " ++ path ++ ": " ++ fileComplaint error ++ "\n"
            status := 1 })
    { session }

/-- The letters of the options and the other arguments. -/
def splitOptions (arguments : List String) : List Char × List String :=
  let isOption (argument : String) : Bool := argument.length > 1 && argument.startsWith "-"
  ((arguments.filter isOption).flatMap fun argument => argument.toList.drop 1,
    arguments.filter (!isOption ·))

/-- Change the files once for each path; each failure is complained about. -/
def forEachPath (session : Session) (paths : List String)
    (change : String → Files → Except String Files) : Reply :=
  paths.foldl
    (fun reply path =>
      match change path reply.session.files with
      | .ok files => { reply with session := { reply.session with files } }
      | .error text => { reply with errors := reply.errors ++ text ++ "\n", status := 1 })
    { session }

/-- The names in a directory that do not begin with a dot, in order, one on each line. -/
def listing (files : Files) (location : Location) : String :=
  let names := (files.childNames location).filter fun name => !name.startsWith "."
  String.join ((names.mergeSort (· ≤ ·)).map (· ++ "\n"))

/-- The names in one directory, or a file itself. -/
def ls : Builtin := fun session call =>
  let path := (splitOptions call.arguments).2.headD "."
  match session.files.locate path with
  | .ok location =>
    let isDirectory := session.files.isDirectoryAt location
    { session, output := if isDirectory then listing session.files location else path ++ "\n" }
  | .error error =>
    .failure session ("ls: cannot access '" ++ path ++ "': " ++ fileComplaint error) 2

/-- Copy to a path, or into the directory there. -/
def cp : Builtin := fun session call =>
  let (options, paths) := splitOptions call.arguments
  match paths with
  | [source, target] =>
    let files := session.files
    if files.isDirectory source && !(options.contains 'r' || options.contains 'R') then
      .failure session ("cp: -r not specified; omitting directory '" ++ source ++ "'") 1
    else
      let name := (Path.fileName? source).getD ""
      let target := if files.isDirectory target then Path.join target name else target
      match files.locate source, files.writable target with
      | .error error, _ =>
        .failure session ("cp: cannot stat '" ++ source ++ "': " ++ fileComplaint error) 1
      | _, .error error =>
        .failure session
          ("cp: cannot create regular file '" ++ target ++ "': " ++ fileComplaint error) 1
      | .ok _, .ok _ =>
        { session := { session with files := ((Files.copy source target).run files).2 } }
  | _ => .failure session "cp: missing file operand" 1

def mkdir : Builtin := fun session call =>
  let (options, paths) := splitOptions call.arguments
  forEachPath session paths fun path files =>
    let refusal (error : FileError) : String :=
      "mkdir: cannot create directory ‘" ++ path ++ "’: " ++ fileComplaint error
    if options.contains 'p' then
      match (Files.makeAll path).run files with
      | (.ok _, files) => .ok files
      | (.error error, _) => .error (refusal error)
    else if files.isPresent path then .error (refusal .alreadyThere)
    else
      match files.writable path with
      | .ok location => .ok (files.addDirectory location)
      | .error error => .error (refusal error)

def touch : Builtin := fun session call =>
  forEachPath session (splitOptions call.arguments).2 fun path files =>
    if files.isPresent path then .ok files
    else
      match files.writable path with
      | .ok location => .ok (files.write location "")
      | .error error => .error ("touch: cannot touch '" ++ path ++ "': " ++ fileComplaint error)

def rm : Builtin := fun session call =>
  let (options, paths) := splitOptions call.arguments
  let isForced := options.contains 'f'
  let isDeep := options.contains 'r' || options.contains 'R'
  forEachPath session paths fun path files =>
    match files.locate path with
    | .error error =>
      if isForced then .ok files
      else .error ("rm: cannot remove '" ++ path ++ "': " ++ fileComplaint error)
    | .ok location =>
      if files.isDirectoryAt location && !isDeep then
        .error ("rm: cannot remove '" ++ path ++ "': Is a directory")
      else .ok ((Files.remove location).run files).2

/-! ## Conditions -/

/-- Compare two whole numbers. -/
def compare? (operator left right : String) : Option Bool := do
  let left ← left.toInt?
  let right ← right.toInt?
  match operator with
  | "-eq" => some (left == right)
  | "-ne" => some (left != right)
  | "-lt" => some (left < right)
  | "-le" => some (left ≤ right)
  | "-gt" => some (left > right)
  | "-ge" => some (left ≥ right)
  | _ => none

/-- Whether a condition holds; nothing if it is none. -/
def holds? (files : Files) : List String → Option Bool
  | [] => some false
  | ["!"] => some true
  | "!" :: rest => (holds? files rest).map (!·)
  | [text] => some (text ≠ "")
  | ["-n", text] => some (text ≠ "")
  | ["-z", text] => some (text = "")
  | ["-e", path] => some (files.isPresent path)
  | ["-d", path] => some (files.isDirectory path)
  | ["-f", path] => some (files.file? path).isSome
  | [left, "=", right] | [left, "==", right] => some (left = right)
  | [left, "!=", right] => some (left ≠ right)
  | [left, operator, right] => compare? operator left right
  | _ => none

def test : Builtin := fun session call =>
  match holds? session.files call.arguments with
  | some holds => { session, status := if holds then 0 else 1 }
  | none =>
    { session, errors := session.complaint call.line "test: unexpected operator", status := 2 }

def bracket : Builtin := fun session call =>
  match call.arguments.getLast? with
  | some "]" => test session { call with arguments := call.arguments.dropLast }
  | _ => { session, errors := session.complaint call.line "[: missing ]", status := 2 }

/-! ## All commands -/

def succeed : Builtin := fun session _ => { session }

def fail : Builtin := fun session _ => { session, status := 1 }

def builtins : List (String × Builtin) := [
  (":", succeed), ("true", succeed), ("false", fail), ("echo", echo), ("printf", printf),
  ("exit", exit), ("kill", kill), ("export", exportValues), ("unset", unset), ("set", setOptions),
  ("sleep", sleep), ("pwd", pwd), ("cd", cd), ("cat", cat), ("mkdir", mkdir), ("touch", touch),
  ("rm", rm), ("ls", ls), ("cp", cp), ("printenv", printenv), ("test", test), ("[", bracket)]

/-- Run a command by its name. -/
def dispatch (name : String) : Builtin := fun session call =>
  match builtins.lookup name with
  | some builtin => builtin session call
  | none =>
    let text := match session.kind with
      | .bash => name ++ ": command not found"
      | _ => name ++ ": not found"
    { session, errors := session.complaint call.line text, status := 127 }

end BuildPipeline.Shell

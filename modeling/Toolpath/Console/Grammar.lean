import Toolpath.Decimal.Numeral

/-!
# Command lines

A command line is a list of words. It leads through commands to one that does something, with
options on the way and plain words at the end, and a grammar says which. Words are taken from left
to right, and the first thing to be wrong decides; a request for help or for the version is met as
soon as it is read.

An option is written in full after two dashes, or as a letter after one; letters may share a dash,
and a value may stand in the next word or in the same one. A word with a dash in front may also be
a negative number where one is expected. After two dashes alone every word is plain.
-/

namespace Toolpath.Console

/-- What an option is for. -/
inductive OptionKind where
  | flag
  /-- The option has a value, of the kind that is accepted. -/
  | value (accepts : String → Bool)
  | help
  | version

/-- An option: its name after two dashes and its letter after one. -/
structure OptionRule where
  name : String
  letter : Option Char
  kind : OptionKind

/-- Which plain words a command takes. -/
structure WordRule where
  least : Nat
  most : Option Nat
  accepts : String → Bool
  /-- A word may be a negative number. -/
  negatives : Bool

/-- What has been read of a command line: options with their values, flags with empty ones, and
plain words, all in order. -/
structure Reading where
  options : List (String × String)
  words : List String
deriving Repr, DecidableEq

namespace Reading

/-- The flag was given. -/
def flag (r : Reading) (name : String) : Bool := r.options.any (·.1 == name)

/-- The value of an option; what is given to a command counts more than what is given to those that
it belongs to. -/
def value? (r : Reading) (name : String) : Option String := List.lookup name r.options.reverse

end Reading

/-- A command: one that does something with what has been read, or one that has commands. -/
inductive Grammar (β : Type) where
  | command (options : List OptionRule) (words : WordRule) (meaning : Reading → Option β)
  | group (options : List OptionRule) (commands : List (String × Grammar β))

/-- What a command line asks for. -/
inductive Request (β : Type) where
  | help
  | version
  | refused
  | run (what : β)
deriving Repr, DecidableEq

namespace Grammar

variable {β : Type}

/-- The options of a command. -/
def options : Grammar β → List OptionRule
  | command options .. | group options _ => options

/-- The command of this name. -/
def command? (g : Grammar β) (name : String) : Option (Grammar β) :=
  match g with
  | command .. => none
  | group _ commands => List.lookup name commands

/-- Digits with at most one point after the first and at most one exponent, which has no sign. -/
def looksNumeric (cs : List Char) : Bool :=
  let whole := cs.takeWhile Char.isDigit
  let (_, rest) := Decimal.splitFraction (cs.dropWhile Char.isDigit)
  !whole.isEmpty &&
    match rest with
    | [] => true
    | letter :: ds => (letter == 'e' || letter == 'E') && !ds.isEmpty && ds.all Char.isDigit

/-- How far a command line has been read: the options met since the last command, and everything
that counts in the end. -/
structure Progress where
  met : List String
  reading : Reading

/-- The next plain word, if the command takes it. -/
def takeWord (g : Grammar β) (p : Progress) (word : String) : Option Progress :=
  match g with
  | group .. => none
  | command _ rule _ =>
    let full := rule.most.any (· ≤ p.reading.words.length)
    if full || !rule.accepts word then none
    else some { p with reading.words := p.reading.words ++ [word] }

/-- After a dash, these characters are a negative number that the command has a place for. -/
def takesNegative (g : Grammar β) (p : Progress) (body : List Char) : Bool :=
  match g with
  | group .. => false
  | command _ rule _ =>
    rule.negatives && !rule.most.any (· ≤ p.reading.words.length) && looksNumeric body

/-- What comes of reading a word. -/
inductive Step (β : Type) where
  | on (p : Progress)
  /-- The next word is the value of the option. -/
  | awaits (p : Progress) (rule : OptionRule)
  /-- The word is a command, and what follows is for it. -/
  | enter (inner : Grammar β)
  /-- All that follows is plain words. -/
  | plain
  /-- What follows is the name of what help is asked about. -/
  | helpAbout
  | over (request : Request β)

/-- On, or over where a word was refused. -/
def Step.ofProgress? : Option Progress → Step β
  | none => .over .refused
  | some p => .on p

/-! ## Options -/

/-- An option with its value added, unless it was met before or does not take the value. -/
def meet (p : Progress) (rule : OptionRule) (text : String) : Option Progress :=
  let accepted :=
    match rule.kind with
    | .value accepts => accepts text
    | _ => true
  if p.met.contains rule.name || !accepted then none
  else
    some { met := rule.name :: p.met,
           reading.options := p.reading.options ++ [(rule.name, text)],
           reading.words := p.reading.words }

/-- An option, with the value that its own word holds, if it does. -/
def readOption (p : Progress) (rule : OptionRule) (attached : Option String) : Step β :=
  match rule.kind, attached with
  | .value _, some text => .ofProgress? (meet p rule text)
  | .value _, none => .awaits p rule
  | _, some _ => .over .refused
  | .flag, none => .ofProgress? (meet p rule "")
  | .help, none => .over .help
  | .version, none => .over .version

/-- An option by its name, without the two dashes. -/
def readName (g : Grammar β) (p : Progress) (body : List Char) : Step β :=
  let name := String.ofList (body.takeWhile (· != '='))
  let attached :=
    match body.dropWhile (· != '=') with
    | [] => none
    | _ :: text => some (String.ofList text)
  match g.options.find? (·.name == name) with
  | none => .over .refused
  | some rule => readOption p rule attached

/-- The value that stands after an option's letter, if one does. An equals sign may stand between
the two. -/
def afterLetter : List Char → Option String
  | [] => none
  | '=' :: text => some (String.ofList text)
  | text => some (String.ofList text)

/-- Options by their letters, without the dash. A letter that takes a value takes the rest. -/
def readLetters (g : Grammar β) (p : Progress) : List Char → Step β
  | [] => .on p
  | letter :: rest =>
    match g.options.find? (·.letter == some letter) with
    | none => .over .refused
    | some rule =>
      match rule.kind with
      | .value _ => readOption p rule (afterLetter rest)
      | _ =>
        match readOption p rule none with
        | .on p => readLetters g p rest
        | step => step

/-- An option, if the word is one. A lone dash is a plain word. -/
def readDashed? (g : Grammar β) (p : Progress) (word : String) : Option (Step β) :=
  match word.toList with
  | '-' :: '-' :: body => some (g.readName p body)
  | ['-'] => none
  | '-' :: body => if g.takesNegative p body then none else some (g.readLetters p body)
  | _ => none

/-! ## Lines -/

/-- What a command line comes to after its last word. -/
def finish (g : Grammar β) (p : Progress) : Request β :=
  match g with
  | group .. => .refused
  | command _ rule meaning =>
    if p.reading.words.length < rule.least then .refused
    else
      match meaning p.reading with
      | none => .refused
      | some what => .run what

/-- Words that are all plain. -/
def readPlain (g : Grammar β) (p : Progress) : List String → Request β
  | [] => g.finish p
  | word :: rest =>
    match g.takeWord p word with
    | none => .refused
    | some p => readPlain g p rest

/-- A request for help about the command that names lead to. -/
def helpAbout (g : Grammar β) : List String → Request β
  | [] => .help
  | name :: rest =>
    match g.command? name with
    | none => .refused
    | some inner => helpAbout inner rest

/-- The name under which every group of commands gives help. -/
def helpName : String := "help"

/-- One word: a command if there is one of this name, else an option, else a plain word. -/
def step (g : Grammar β) (p : Progress) (word : String) : Step β :=
  match g.command? word with
  | some inner => .enter inner
  | none =>
    if word = "--" then .plain
    else
      match g.readDashed? p word, g with
      | some step, _ => step
      | none, command .. => .ofProgress? (g.takeWord p word)
      | none, group .. => if word = helpName then .helpAbout else .over .refused

/-- The word after an option that awaits its value: it has to be that value, and no option. -/
def stepAwaiting (g : Grammar β) (p : Progress) (rule : OptionRule) (word : String) : Step β :=
  if (g.readDashed? p word).isSome then .over .refused else .ofProgress? (meet p rule word)

/-- Words from left to right, the first of them for an option if one awaits its value. -/
def readWords (g : Grammar β) (p : Progress) (awaiting : Option OptionRule) :
    List String → Request β
  | [] => if awaiting.isSome then .refused else g.finish p
  | word :: rest =>
    let step :=
      match awaiting with
      | none => g.step p word
      | some rule => g.stepAwaiting p rule word
    match step with
    | .on p => readWords g p none rest
    | .awaits p rule => readWords g p (some rule) rest
    | .enter inner => readWords inner { p with met := [] } none rest
    | .plain => g.readPlain p rest
    | .helpAbout => g.helpAbout rest
    | .over request => request

/-- What a command line asks for. -/
def read (g : Grammar β) (words : List String) : Request β :=
  g.readWords ⟨[], ⟨[], []⟩⟩ none words

end Grammar

end Toolpath.Console

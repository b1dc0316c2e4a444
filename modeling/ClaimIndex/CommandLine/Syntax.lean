namespace ClaimIndex.CommandLine

structure Flag where
  name : String
  letter : Option Char := none
  value : Option (String → Bool) := none

structure Word where
  accepts : String → Bool
  signed : Bool := false

structure Shape where
  flags : List Flag := []
  words : List Word := []
  subcommands : List String := []
  versioned : Bool := false

inductive Stop
  | usage
  | help
  | version
  deriving DecidableEq

structure Given where
  options : List (String × String) := []
  words : List String := []
  subcommand : Option (String × List String) := none

namespace Given

def value? (g : Given) (name : String) : Option String := g.options.lookup name

def has (g : Given) (name : String) : Bool := (g.value? name).isSome

end Given

def isNumber (cs : List Char) : Bool :=
  let (front, back) := cs.span fun c => c ≠ 'e' && c ≠ 'E'
  let digits (cs : List Char) : Bool := cs.all Char.isDigit
  let mantissa := match front.span (· ≠ '.') with
    | (whole, '.' :: fraction) => !whole.isEmpty && digits whole && digits fraction
    | (whole, _) => digits whole
  mantissa && match back with
    | [] => true
    | _ :: exponent => !front.isEmpty && !exponent.isEmpty && digits exponent

def isHyphenated (arg : String) : Bool := arg.startsWith "-" && arg ≠ "-"

namespace Shape

variable (s : Shape)

def put (g : Given) (flag : Flag) (value : String) : Except Stop Given :=
  if g.has flag.name then .error .usage
  else if (flag.value.getD fun _ => true) value then
    .ok { g with options := g.options ++ [(flag.name, value)] }
  else .error .usage

def putWord (g : Given) (word : String) : Except Stop Given :=
  match s.words[g.words.length]? with
  | none => .error .usage
  | some place =>
    if place.accepts word then .ok { g with words := g.words ++ [word] } else .error .usage

inductive Next
  | going (g : Given)
  | awaiting (g : Given) (flag : Flag)

def long (g : Given) (name : String) (value : Option String) : Except Stop Next :=
  if name = "help" then .error (if value.isNone then .help else .usage)
  else if name = "version" && s.versioned then
    .error (if value.isNone then .version else .usage)
  else match s.flags.find? (·.name = name) with
    | none => .error .usage
    | some flag =>
      match flag.value.isSome, value with
      | true, some value => .going <$> put g flag value
      | true, none => .ok (.awaiting g flag)
      | false, none => .going <$> put g flag ""
      | false, some _ => .error .usage

def short : Given → List Char → Except Stop Next
  | g, [] => .ok (.going g)
  | g, c :: cs =>
    if c = 'h' then .error .help
    else if c = 'V' && s.versioned then .error .version
    else match s.flags.find? (·.letter = some c) with
      | none => .error .usage
      | some flag =>
        match flag.value.isSome, cs with
        | false, cs => put g flag "" >>= fun g => short g cs
        | true, [] => .ok (.awaiting g flag)
        | true, '=' :: value => .going <$> put g flag (.ofList value)
        | true, value => .going <$> put g flag (.ofList value)

def isSignedWord (g : Given) (arg : String) : Bool :=
  (s.words[g.words.length]?.any (·.signed)) && isNumber (arg.toList.drop 1)

/-- Whether an argument reads as an option.  A negative number does not where the next word may be
one, whether it stands for that word or for the value of an option before it. -/
def isOption (g : Given) (arg : String) : Bool := isHyphenated arg && !s.isSignedWord g arg

def argument (g : Given) (arg : String) : Except Stop Next :=
  if arg.startsWith "--" then
    match (arg.toList.drop 2).span (· ≠ '=') with
    | (name, '=' :: value) => s.long g (.ofList name) (some (.ofList value))
    | (name, _) => s.long g (.ofList name) none
  else if s.isOption g arg then s.short g (arg.toList.drop 1)
  else .going <$> s.putWord g arg

def read : Given → List String → Except Stop Given
  | g, [] => .ok g
  | g, arg :: rest =>
    if arg ∈ s.subcommands then .ok { g with subcommand := some (arg, rest) }
    else if arg = "--" then rest.foldlM s.putWord g
    else
      match s.argument g arg, rest with
      | .error stop, _ => .error stop
      | .ok (.going g), rest => read g rest
      | .ok (.awaiting _ _), [] => .error .usage
      | .ok (.awaiting g flag), value :: rest =>
        if s.isOption g value then .error .usage
        else match put g flag value with
          | .error stop => .error stop
          | .ok g => read g rest

end Shape

end ClaimIndex.CommandLine

/-!
The words of a command line: options with one or two dashes, their values, and operands. A word that
starts with a dash is never the value of the option before it, unless it is a dash alone; behind
`--` every word is an operand.
-/

set_option autoImplicit false
set_option relaxedAutoImplicit false

namespace SchemaSql

inductive OptionArity
  | flag
  | once
  | repeated
deriving DecidableEq

structure OptionForm where
  name : String
  short : Option Char := none
  arity : OptionArity
deriving DecidableEq

/-- The options that were given, in order and with their values, and the operands. -/
structure Words where
  options : List (String × String) := []
  operands : List String := []
deriving DecidableEq

namespace Words

def isOption (word : List Char) : Bool :=
  match word with
  | '-' :: _ :: _ => true
  | _ => false

/-- What a word gives: options, and the option whose value is the next word. -/
structure Reading where
  options : List (String × String)
  waiting : Option String := none
deriving DecidableEq

def readLong (forms : List OptionForm) (word : List Char) : Option Reading := do
  let name := String.ofList (word.takeWhile fun c ↦ c != '=')
  let form ← forms.find? fun f ↦ f.name == name
  match form.arity, word.dropWhile fun c ↦ c != '=' with
  | .flag, [] => some ⟨[(name, "")], none⟩
  | .flag, _ :: _ => none
  | _, [] => some ⟨[], some name⟩
  | _, _ :: value => some ⟨[(name, String.ofList value)], none⟩

/-- Reads the letters behind one dash. What follows the letter of an option is its value. -/
def readShort (forms : List OptionForm) : List Char → Option Reading
  | [] => some ⟨[], none⟩
  | c :: rest => do
    let form ← forms.find? fun f ↦ f.short == some c
    match form.arity, rest with
    | .flag, rest =>
      let more ← readShort forms rest
      some { more with options := (form.name, "") :: more.options }
    | _, [] => some ⟨[], some form.name⟩
    | _, '=' :: value | _, value => some ⟨[(form.name, String.ofList value)], none⟩

def readOption (forms : List OptionForm) : List Char → Option Reading
  | '-' :: '-' :: word => readLong forms word
  | '-' :: letters => readShort forms letters
  | _ => none

def addOptions (options : List (String × String)) (w : Words) : Words :=
  { w with options := options ++ w.options }

def addOperand (operand : String) (w : Words) : Words :=
  { w with operands := operand :: w.operands }

/-- Reads words; with `leading`, only up to the first operand, which stays in front of all words
behind it. -/
def scan (forms : List OptionForm) (leading : Bool) : List String → Option Words
  | [] => some {}
  | word :: rest =>
    if word = "--" then if leading then none else some { operands := rest }
    else if isOption word.toList then
      match readOption forms word.toList, rest with
      | none, _ => none
      | some ⟨options, none⟩, rest => (scan forms leading rest).map (addOptions options)
      | some ⟨_, some _⟩, [] => none
      | some ⟨options, some name⟩, value :: rest =>
        if isOption value.toList then none
        else (scan forms leading rest).map (addOptions (options ++ [(name, value)]))
    else if leading then some { operands := word :: rest }
    else (scan forms leading rest).map (addOperand word)

/-- Only an option that may be repeated is given more than once. -/
def repeatsFit (forms : List OptionForm) (w : Words) : Bool :=
  forms.all fun f ↦ f.arity == .repeated || (w.options.filter fun o ↦ o.1 == f.name).length ≤ 1

def read? (forms : List OptionForm) (leading : Bool) (words : List String) : Option Words :=
  (scan forms leading words).filter (repeatsFit forms)

def values (w : Words) (name : String) : List String :=
  (w.options.filter fun o ↦ o.1 == name).map (·.2)

def value? (w : Words) (name : String) : Option String := (w.values name).head?

def has (w : Words) (name : String) : Bool := (w.value? name).isSome

end Words

end SchemaSql

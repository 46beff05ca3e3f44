import TexGovernance.Lib.PyDict
import TexGovernance.Lib.PyStr

/-!
# The policy language

The syntax of `pcas/language/ast.py`, with the values of
`pcas/runtime/relation.py`. A boolean is an integer for Python's `==`, so a
value is compared with `pyEq` wherever the source compares it.
-/

namespace TexGovernance.Pcas
open PyStr

/-- The exceptions of the package, with their messages. `valueError` also
stands for the validation errors of the syntax nodes. -/
inductive PcasError where
  | lexer (message : Str)
  | parse (message : Str)
  | stratification (message : Str)
  | evaluation (message : Str)
  | valueError
  | indexError
  | keyError
  deriving DecidableEq

inductive FactValue where
  | str (s : Str)
  | int (z : ℤ)
  | bool (b : Bool)
  deriving DecidableEq, Inhabited

def FactValue.key : FactValue → FactValue
  | .bool b => .int (if b then 1 else 0)
  | v => v

def pyEq (a b : FactValue) : Bool := a.key = b.key

abbrev Fact := List FactValue

def factEq (f g : Fact) : Bool := f.map FactValue.key = g.map FactValue.key

inductive Term where
  | var (name : Str)
  | const (value : FactValue)
  deriving DecidableEq

def isAnonymous (name : Str) : Bool := name.head? = some (cp '_')

def Term.named : Term → Option Str
  | .var name => if isAnonymous name then none else some name
  | .const _ => none

def Term.anonymous : Term → Bool
  | .var name => isAnonymous name
  | .const _ => false

structure Atom where
  predicate : Str
  args : List Term
  line : ℕ
  col : ℕ
  deriving DecidableEq

def Atom.arity (a : Atom) : ℕ := a.args.length

structure HelperCall where
  name : Str
  args : List Term
  line : ℕ
  col : ℕ
  deriving DecidableEq

structure NegatedAtom where
  atom : Atom
  line : ℕ
  col : ℕ
  deriving DecidableEq

inductive BodyElement where
  | atom (a : Atom)
  | negated (n : NegatedAtom)
  | helper (h : HelperCall)
  deriving DecidableEq

inductive RuleAnnotation where
  | authorize
  | deny
  | rule
  deriving DecidableEq

structure Rule where
  annotation : RuleAnnotation
  head : Atom
  body : List BodyElement
  line : ℕ
  col : ℕ
  deriving DecidableEq

def Rule.isFact (r : Rule) : Bool := r.body.isEmpty

def Rule.positiveAtoms (r : Rule) : List Atom :=
  r.body.filterMap fun
    | .atom a => some a
    | _ => none

def Rule.negatedAtoms (r : Rule) : List NegatedAtom :=
  r.body.filterMap fun
    | .negated n => some n
    | _ => none

def Rule.helperCalls (r : Rule) : List HelperCall :=
  r.body.filterMap fun
    | .helper h => some h
    | _ => none

structure Program where
  rules : List Rule

/-- The character classes of `str`. -/
structure CharClasses where
  isalnum : CodePoint → Bool
  isalpha : CodePoint → Bool
  isupper : CodePoint → Bool
  islower : CodePoint → Bool

structure SetOrder where
  names : List Str → List Str
  facts : List Fact → List Fact
  names_perm : ∀ l, (names l).Perm l
  facts_perm : ∀ l, (facts l).Perm l

/-- The character classes of the ASCII range. -/
def asciiClasses : CharClasses where
  isalnum c := inRanges [(0x30, 0x39), (0x41, 0x5a), (0x61, 0x7a)] c
  isalpha c := inRanges [(0x41, 0x5a), (0x61, 0x7a)] c
  isupper c := inRanges [(0x41, 0x5a)] c
  islower c := inRanges [(0x61, 0x7a)] c

def listOrder : SetOrder := ⟨id, id, fun _ => .refl _, fun _ => .refl _⟩

/-- `repr` of a text without quotes, backslashes and unprintable characters. -/
def quotedName (s : Str) : Str := cp '\'' :: s ++ [cp '\'']

def startsLower (cc : CharClasses) : Str → Bool
  | [] => false
  | c :: _ => cc.islower c

end TexGovernance.Pcas

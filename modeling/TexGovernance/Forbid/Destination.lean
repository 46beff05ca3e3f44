import TexGovernance.Lib.PyStr

/-!
# Destinations of a forbid

The text side of `governance/forbid_source.py`: ports, tokens, recipients, and
whether a live decision is about a network destination.
-/

namespace TexGovernance.Forbid
open PyStr CaseFold

/-- `int` of a text: decimal digits in groups joined by single underscores. -/
def digitGroups : Bool → Str → Option (List ℕ)
  | afterDigit, [] => if afterDigit then some [] else none
  | afterDigit, c :: rest =>
    if c = cp '_' then if afterDigit then digitGroups false rest else none
    else match decimal? c with
      | none => none
      | some d => (digitGroups true rest).map (d :: ·)

def unsigned : Str → Bool × Str
  | [] => (false, [])
  | c :: rest =>
    if c = cp '-' then (true, rest) else if c = cp '+' then (false, rest) else (false, c :: rest)

def intOfText (s : Str) : Option ℤ :=
  let (minus, body) := unsigned (strip s)
  match digitGroups false body with
  | none => none
  | some digits =>
    if maxStrDigits < digits.length then none
    else
      let n : ℤ := digits.foldl (fun acc d => 10 * acc + d) 0
      some (if minus then -n else n)

/-- `_valid_port` of an integer. -/
def validPort (port : ℤ) : Option ℤ := if 1 ≤ port ∧ port ≤ 65535 then some port else none

def validPortText (s : Str) : Option ℤ := (intOfText s).bind validPort

def orNone (s : Str) : Option Str := if s = [] then none else some s

/-- `_parse_token`: a host and an optional port. -/
def parseToken (token : Str) : Option Str × Option ℤ :=
  match strip token with
  | [] => (none, none)
  | c :: rest =>
    if c = cp '[' then
      if cp ']' ∉ rest then (none, none)
      else
        let host := rest.takeWhile fun d => d ≠ cp ']'
        match rest.drop (host.length + 1) with
        | [] => (orNone host, none)
        | d :: port =>
          if d ≠ cp ':' then (orNone host, none)
          else match validPortText port with
            | none => (none, none)
            | some valid => (orNone host, some valid)
    else
      let token := c :: rest
      if token.count (cp ':') = 1 then
        let host := token.takeWhile fun d => d ≠ cp ':'
        match validPortText (token.drop (host.length + 1)) with
        | none => (none, none)
        | some valid => (orNone host, some valid)
      else (some token, none)

/-- What stands behind the first occurrence of `mark`. -/
def afterFirst (mark : Str) : Str → Option Str
  | [] => none
  | c :: rest =>
    if mark.isPrefixOf (c :: rest) then some ((c :: rest).drop mark.length) else afterFirst mark rest

def parseRecipientHost (recipient : Str) : Option Str × Option ℤ :=
  let r := strip recipient
  let r := (afterFirst (txt "://") r).getD r
  parseToken (r.takeWhile fun c => c ≠ cp '/')

def networkActionPrefixes : List Str := [txt "http_"]

def excludedActionTypes : List Str := [txt "https_opaque", txt "http_opaque_body"]

/-- `str.split()`: the words between white space. -/
def splitWords : Str → List Str
  | [] => []
  | c :: rest =>
    if isspace c then splitWords rest
    else match rest with
      | [] => [[c]]
      | d :: _ =>
        if isspace d then [c] :: splitWords rest
        else match splitWords rest with
          | [] => [[c]]
          | word :: words => (c :: word) :: words

/-- `TEX_FORBID_AUTOFEED_ACTIONS`, as the environment holds it at the call. -/
def autofeedExtraActions (fold : CaseFolding) (env : Str) : List Str :=
  (splitWords ((strip env).map fun c => if c = cp ',' then cp ' ' else c)).map fold.clean

def networkDestinationForForbid (fold : CaseFolding) (actionType recipient : Option Str)
    (extraActions : List Str) : Option Str :=
  match recipient with
  | none => none
  | some [] => none
  | some recipient =>
    let act := fold.clean (actionType.getD [])
    if act = [] ∨ act ∈ excludedActionTypes then none
    else if act ∈ extraActions ∨ networkActionPrefixes.any fun start => start.isPrefixOf act then
      (parseRecipientHost recipient).1
    else none

end TexGovernance.Forbid

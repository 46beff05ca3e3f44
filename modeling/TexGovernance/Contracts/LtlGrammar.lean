import TexGovernance.Contracts.Ltl
import TexGovernance.Lib.JsonLoads
import TexGovernance.Lib.Lexing
import TexGovernance.Lib.Pipeline

/-!
# The grammar of contract formulas (`contracts/_ltl.py`)

The grammar written in `LTLFormula.parse`, as derivations that carry the formula they stand for,
and the parser as its decision procedure.
-/

namespace TexGovernance.Contracts
open PyStr JsonLoads

inductive ChainOp where
  | or
  | and
  | until

def ChainOp.token : ChainOp → Token
  | .or => .or
  | .and => .and
  | .until => .until

def ChainOp.join : ChainOp → Node → Node → Node
  | .or => .or
  | .and => .and
  | .until => .until

inductive Cat where
  | implies
  | chain (op : ChainOp)
  | tail (op : ChainOp) (left : Node)
  | unary
  | primary

def ChainOp.operand : ChainOp → Cat
  | .or => .chain .and
  | .and => .chain .until
  | .until => .unary

def unaryNode : Token → Option (Node → Node)
  | .not => some .not
  | .next => some .next
  | .weakNext => some .weakNext
  | .globally => some .globally
  | .eventually => some .eventually
  | .boundedEventually bound => some (.boundedEventually bound)
  | _ => none

inductive Derives : Cat → List Token → Node → Prop where
  | last {ts n} : Derives (.chain .or) ts n → Derives .implies ts n
  | arrow {ts us left right} : Derives (.chain .or) ts left → Derives .implies us right →
      Derives .implies (ts ++ .implies :: us) (.implies left right)
  | chain {op ts us first n} : Derives op.operand ts first → Derives (.tail op first) us n →
      Derives (.chain op) (ts ++ us) n
  | nil {op left} : Derives (.tail op left) [] left
  | cons {op ts us left right n} : Derives op.operand ts right →
      Derives (.tail op (op.join left right)) us n →
      Derives (.tail op left) (op.token :: (ts ++ us)) n
  | prefixed {tok f ts n} : unaryNode tok = some f → Derives .unary ts n →
      Derives .unary (tok :: ts) (f n)
  | plain {ts n} : Derives .primary ts n → Derives .unary ts n
  | paren {ts n} : Derives .implies ts n → Derives .primary (.lparen :: (ts ++ [.rparen])) n
  | const {value} : Derives .primary [.const value] (.const value)
  | atom {word} : Derives .primary [.atom word] (.atom word)

def parseCat (fuel : ℕ) : Cat → List Token → Except ParseError (Node × List Token)
  | .implies => parseImplies fuel
  | .chain .or => parseOr fuel
  | .chain .and => parseAnd fuel
  | .chain .until => parseUntil fuel
  | .tail .or left => parseOrLoop fuel left
  | .tail .and left => parseAndLoop fuel left
  | .tail .until left => parseUntilLoop fuel left
  | .unary => parseUnary fuel
  | .primary => parsePrimary fuel

theorem parseCat_zero (cat : Cat) (toks : List Token) : parseCat 0 cat toks = .error .fuel := by
  rcases cat with _ | (_ | _ | _) | ⟨_ | _ | _, left⟩ | _ | _ <;> rfl

theorem parseCat_chain (fuel : ℕ) (op : ChainOp) (toks : List Token) :
    parseCat (fuel + 1) (.chain op) toks =
      (parseCat fuel op.operand toks).bind fun r => parseCat fuel (.tail op r.1) r.2 := by
  cases op <;> rfl

theorem parseCat_tail_cons (fuel : ℕ) (op : ChainOp) (left : Node) (toks : List Token) :
    parseCat (fuel + 1) (.tail op left) (op.token :: toks) =
      (parseCat fuel op.operand toks).bind fun r =>
        parseCat fuel (.tail op (op.join left r.1)) r.2 := by
  cases op <;> rfl

variable {toks : List Token}

theorem parseCat_tail_stops (fuel : ℕ) (op : ChainOp) (left : Node)
    (h : op.token ∉ toks.head?) : parseCat (fuel + 1) (.tail op left) toks = .ok (left, toks) := by
  cases toks with
  | nil => cases op <;> rfl
  | cons tok toks =>
    rw [List.head?_cons, Option.mem_some_iff] at h
    cases op <;> cases tok <;> first | rfl | exact absurd rfl h

variable {tok : Token}

theorem parseCat_prefixed (fuel : ℕ) {f : Node → Node} (h : unaryNode tok = some f)
    (toks : List Token) :
    parseCat (fuel + 1) .unary (tok :: toks) =
      (parseCat fuel .unary toks).map fun r => (f r.1, r.2) := by
  cases tok <;> simp only [unaryNode, Option.some.injEq, reduceCtorEq] at h <;> subst h <;> rfl

theorem parseCat_plain (fuel : ℕ) (h : unaryNode tok = none) (toks : List Token) :
    parseCat (fuel + 1) .unary (tok :: toks) = parseCat fuel .primary (tok :: toks) := by
  cases tok <;> simp only [unaryNode, reduceCtorEq] at h <;> rfl

theorem parseCat_implies (fuel : ℕ) (toks : List Token) :
    parseCat (fuel + 1) .implies toks =
      (parseCat fuel (.chain .or) toks).bind fun r =>
        match r.2 with
        | .implies :: rest => (parseCat fuel .implies rest).map fun s => (.implies r.1 s.1, s.2)
        | _ => .ok r := by
  change (parseCat fuel (.chain .or) toks >>= _) = _
  cases parseCat fuel (.chain .or) toks with
  | error e => rfl
  | ok r =>
    obtain ⟨left, rest⟩ := r
    rcases rest with _ | ⟨tok, rest⟩
    · rfl
    cases tok <;> rfl

theorem parseCat_paren (fuel : ℕ) (toks : List Token) :
    parseCat (fuel + 1) .primary (.lparen :: toks) =
      (parseCat fuel .implies toks).bind fun r =>
        match r.2 with
        | .rparen :: rest => .ok (r.1, rest)
        | _ => .error .expectedRparen := by
  change (parseCat fuel .implies toks >>= _) = _
  cases parseCat fuel .implies toks with
  | error e => rfl
  | ok r => rfl

def binaryLevel : Token → Option ℕ
  | .implies => some 0
  | .or => some 1
  | .and => some 2
  | .until => some 3
  | _ => none

def ChainOp.level : ChainOp → ℕ
  | .or => 1
  | .and => 2
  | .until => 3

def Cat.level : Cat → ℕ
  | .implies => 0
  | .chain op => op.level
  | .tail op _ => op.level
  | .unary => 4
  | .primary => 5

def Stops (cat : Cat) (rest : List Token) : Prop :=
  ∀ tok ∈ rest.head?, ∀ l ∈ binaryLevel tok, l < cat.level

theorem binaryLevel_token (op : ChainOp) : binaryLevel op.token = some op.level := by
  cases op <;> rfl

theorem level_operand (op : ChainOp) : op.level < op.operand.level := by
  cases op <;> decide

def Cat.calls : Cat → ℕ
  | .implies => 6
  | .chain .or => 5
  | .chain .and => 4
  | .chain .until => 3
  | .tail _ _ => 1
  | .unary => 2
  | .primary => 1

theorem calls_operand (op : ChainOp) : op.operand.calls + 1 = (Cat.chain op).calls := by
  cases op <;> rfl

theorem calls_chain_le (op : ChainOp) : (Cat.chain op).calls ≤ 5 := by
  cases op <;> decide

theorem calls_pos (cat : Cat) : 0 < cat.calls := by
  rcases cat with _ | (_ | _ | _) | _ | _ | _ <;> exact Nat.succ_pos _

theorem fuel_succ {cat : Cat} {k fuel : ℕ} (h : k + cat.calls ≤ fuel) : ∃ f, fuel = f + 1 := by
  have hpos := calls_pos cat
  exact ⟨fuel - 1, by omega⟩

theorem Stops.operand {op : ChainOp} {rest : List Token} (h : Stops (.chain op) rest) :
    Stops op.operand rest :=
  fun tok htok l hl => (h tok htok l hl).trans (level_operand op)

theorem stops_cons {cat : Cat} (rest : List Token)
    (h : ∀ l ∈ binaryLevel tok, l < cat.level) : Stops cat (tok :: rest) := by
  intro tok' htok
  rw [List.head?_cons, Option.mem_some_iff] at htok
  rw [← htok]
  exact h

theorem Stops.tail {op : ChainOp} {left n : Node} {us rest : List Token}
    (h : Derives (.tail op left) us n) (hrest : Stops (.chain op) rest) :
    Stops op.operand (us ++ rest) := by
  cases h with
  | nil => exact hrest.operand
  | cons hts hus =>
    apply stops_cons
    intro l hl
    rw [binaryLevel_token, Option.mem_some_iff] at hl
    rw [← hl]
    exact level_operand op

theorem primary_head {ts : List Token} {n : Node} (h : Derives .primary ts n) (rest : List Token) :
    ∃ tok toks, ts ++ rest = tok :: toks ∧ unaryNode tok = none := by
  cases h with
  | paren => exact ⟨_, _, rfl, rfl⟩
  | const => exact ⟨_, _, rfl, rfl⟩
  | atom => exact ⟨_, _, rfl, rfl⟩

theorem parseCat_of_derives {cat : Cat} {ts : List Token} {n : Node} (h : Derives cat ts n)
    {rest : List Token} (hrest : Stops cat rest) {fuel : ℕ}
    (hfuel : 10 * ts.length + cat.calls ≤ fuel) : parseCat fuel cat (ts ++ rest) = .ok (n, rest) := by
  induction h generalizing rest fuel with
  | @last ts n _ ih =>
    obtain ⟨fuel, rfl⟩ := fuel_succ hfuel
    have hor : Stops (.chain .or) rest := fun tok htok l hl => (hrest tok htok l hl).trans Nat.one_pos
    rw [parseCat_implies, ih hor (by simp [Cat.calls] at hfuel ⊢; omega)]
    rcases rest with _ | ⟨tok, rest⟩
    · rfl
    cases tok <;> try rfl
    exact absurd (hrest .implies rfl 0 rfl) (lt_irrefl 0)
  | @arrow ts us left right _ _ ihl ihr =>
    obtain ⟨fuel, rfl⟩ := fuel_succ hfuel
    simp only [List.length_append, List.length_cons, Cat.calls] at hfuel
    have hleft : Stops (.chain .or) (.implies :: (us ++ rest)) :=
      stops_cons _ fun l hl => by
        rw [← Option.some.inj hl]
        decide
    rw [parseCat_implies, List.append_assoc, List.cons_append,
      ihl hleft (by simp only [Cat.calls]; omega)]
    simp only [Except.bind, ihr hrest (show 10 * us.length + Cat.calls .implies ≤ fuel by
      simp only [Cat.calls]; omega), Except.map]
  | @chain op ts us first n _ htail ihf iht =>
    have hcalls := calls_operand op
    obtain ⟨fuel, rfl⟩ := fuel_succ hfuel
    rw [List.length_append] at hfuel
    rw [parseCat_chain, List.append_assoc, ihf (hrest.tail htail) (by omega)]
    have hpos := calls_pos op.operand
    exact iht hrest (show 10 * us.length + 1 ≤ fuel by omega)
  | @nil op left =>
    obtain ⟨fuel, rfl⟩ := fuel_succ hfuel
    apply parseCat_tail_stops
    intro hmem
    exact lt_irrefl _ (hrest _ hmem _ (binaryLevel_token op))
  | @cons op ts us left right n _ htail ihr iht =>
    obtain ⟨fuel, rfl⟩ := fuel_succ hfuel
    simp only [List.length_append, List.length_cons, Cat.calls] at hfuel
    have hcalls := calls_operand op
    have hle := calls_chain_le op
    rw [List.cons_append, parseCat_tail_cons, List.append_assoc,
      ihr (Stops.tail htail hrest) (by omega)]
    exact iht hrest (show 10 * us.length + 1 ≤ fuel by omega)
  | @prefixed tok f ts n hf _ ih =>
    obtain ⟨fuel, rfl⟩ := fuel_succ hfuel
    rw [List.length_cons] at hfuel
    rw [List.cons_append, parseCat_prefixed fuel hf, ih hrest (by omega)]
    rfl
  | @plain ts n hprimary ih =>
    obtain ⟨fuel, rfl⟩ := fuel_succ hfuel
    have hstops : Stops .primary rest := fun tok htok l hl => (hrest tok htok l hl).trans (by decide)
    have hread := ih hstops (show 10 * ts.length + 1 ≤ fuel by simp only [Cat.calls] at hfuel; omega)
    obtain ⟨tok, toks, hhead, hplain⟩ := primary_head hprimary rest
    rw [hhead] at hread ⊢
    rw [parseCat_plain fuel hplain, hread]
  | @paren ts n _ ih =>
    obtain ⟨fuel, rfl⟩ := fuel_succ hfuel
    simp only [List.length_append, List.length_cons, List.length_nil, Cat.calls] at hfuel
    have hclose : Stops .implies (.rparen :: rest) := stops_cons _ fun l hl => by cases hl
    rw [List.cons_append, parseCat_paren, List.append_assoc, List.singleton_append,
      ih hclose (show 10 * ts.length + 6 ≤ fuel by omega)]
    rfl
  | const =>
    obtain ⟨fuel, rfl⟩ := fuel_succ hfuel
    rfl
  | atom =>
    obtain ⟨fuel, rfl⟩ := fuel_succ hfuel
    rfl

theorem derives_of_parseCat {fuel : ℕ} {cat : Cat} {toks rest : List Token} {n : Node}
    (h : parseCat fuel cat toks = .ok (n, rest)) : ∃ ts, toks = ts ++ rest ∧ Derives cat ts n := by
  induction fuel generalizing cat toks n rest with
  | zero =>
    rw [parseCat_zero] at h
    cases h
  | succ fuel ih =>
    cases cat with
    | implies =>
      rw [parseCat_implies] at h
      obtain ⟨⟨left, rest'⟩, hleft, hthen⟩ := Pipeline.bind_ok h
      obtain ⟨ts, rfl, hts⟩ := ih hleft
      simp only at hthen
      split at hthen
      · obtain ⟨⟨right, rest''⟩, hright, heq⟩ := Pipeline.map_ok hthen
        obtain ⟨us, rfl, hus⟩ := ih hright
        obtain ⟨rfl, rfl⟩ := Prod.mk.inj heq
        exact ⟨ts ++ .implies :: us, by simp, .arrow hts hus⟩
      · obtain ⟨rfl, rfl⟩ := Prod.mk.inj (Except.ok.inj hthen)
        exact ⟨ts, rfl, .last hts⟩
    | chain op =>
      rw [parseCat_chain] at h
      obtain ⟨⟨first, rest'⟩, hfirst, hthen⟩ := Pipeline.bind_ok h
      obtain ⟨ts, rfl, hts⟩ := ih hfirst
      obtain ⟨us, rfl, hus⟩ := ih hthen
      exact ⟨ts ++ us, by simp, .chain hts hus⟩
    | tail op left =>
      by_cases hhead : op.token ∈ toks.head?
      · obtain ⟨toks, rfl⟩ := List.head?_eq_some_iff.mp hhead
        rw [parseCat_tail_cons] at h
        obtain ⟨⟨right, rest'⟩, hright, hthen⟩ := Pipeline.bind_ok h
        obtain ⟨ts, rfl, hts⟩ := ih hright
        obtain ⟨us, rfl, hus⟩ := ih hthen
        exact ⟨op.token :: (ts ++ us), by simp, .cons hts hus⟩
      · rw [parseCat_tail_stops fuel op left hhead] at h
        obtain ⟨rfl, rfl⟩ := Prod.mk.inj (Except.ok.inj h)
        exact ⟨[], rfl, .nil⟩
    | unary =>
      cases toks with
      | nil => cases h
      | cons tok toks =>
        cases hnode : unaryNode tok with
        | some f =>
          rw [parseCat_prefixed fuel hnode] at h
          obtain ⟨⟨arg, rest'⟩, harg, heq⟩ := Pipeline.map_ok h
          obtain ⟨ts, rfl, hts⟩ := ih harg
          obtain ⟨rfl, rfl⟩ := Prod.mk.inj heq
          exact ⟨tok :: ts, rfl, .prefixed hnode hts⟩
        | none =>
          rw [parseCat_plain fuel hnode] at h
          obtain ⟨ts, heq, hts⟩ := ih h
          exact ⟨ts, heq, .plain hts⟩
    | primary =>
      cases toks with
      | nil => cases h
      | cons tok toks =>
        cases tok with
        | lparen =>
          rw [parseCat_paren] at h
          obtain ⟨⟨inner, rest'⟩, hinner, hthen⟩ := Pipeline.bind_ok h
          obtain ⟨ts, rfl, hts⟩ := ih hinner
          simp only at hthen
          split at hthen
          · obtain ⟨rfl, rfl⟩ := Prod.mk.inj (Except.ok.inj hthen)
            exact ⟨.lparen :: (ts ++ [.rparen]), by simp, .paren hts⟩
          · cases hthen
        | const value =>
          obtain ⟨rfl, rfl⟩ := Prod.mk.inj (Except.ok.inj h)
          exact ⟨[.const value], rfl, .const⟩
        | atom word =>
          obtain ⟨rfl, rfl⟩ := Prod.mk.inj (Except.ok.inj h)
          exact ⟨[.atom word], rfl, .atom⟩
        | _ => cases h

theorem derives_length_pos {cat : Cat} {ts : List Token} {n : Node} (h : Derives cat ts n)
    (hcat : ∀ op left, cat ≠ .tail op left) : 0 < ts.length := by
  induction h with
  | last _ ih => exact ih fun op left h => by cases h
  | arrow =>
    rw [List.length_append, List.length_cons]
    omega
  | @chain op _ _ _ _ _ _ ih =>
    have hfirst := ih fun op' left h => by cases op <;> cases h
    rw [List.length_append]
    omega
  | nil => exact absurd rfl (hcat _ _)
  | cons => simp
  | prefixed => simp
  | plain _ ih => exact ih fun op left h => by cases h
  | paren => simp
  | const => exact Nat.one_pos
  | atom => exact Nat.one_pos

theorem bind_ne_fuel {α β : Type} {x : Except ParseError α} {f : α → Except ParseError β}
    (hx : x ≠ .error .fuel) (hf : ∀ a, x = .ok a → f a ≠ .error .fuel) :
    x.bind f ≠ .error .fuel := by
  cases x with
  | error e =>
    intro h
    cases h
    exact hx rfl
  | ok a => exact hf a rfl

theorem map_ne_fuel {α β : Type} {x : Except ParseError α} {f : α → β} (hx : x ≠ .error .fuel) :
    x.map f ≠ .error .fuel :=
  bind_ne_fuel (f := fun a => .ok (f a)) hx fun a _ h => by cases h

theorem parseCat_ends {fuel : ℕ} {cat : Cat}
    (hfuel : 10 * toks.length + cat.calls ≤ fuel) : parseCat fuel cat toks ≠ .error .fuel := by
  induction fuel generalizing cat toks with
  | zero =>
    have hpos := calls_pos cat
    omega
  | succ fuel ih =>
    cases cat with
    | implies =>
      simp only [Cat.calls] at hfuel
      rw [parseCat_implies]
      refine bind_ne_fuel (ih (show _ + 5 ≤ _ by omega)) fun ⟨left, rest⟩ hleft => ?_
      obtain ⟨ts, rfl, hts⟩ := derives_of_parseCat hleft
      have hpos := derives_length_pos hts fun op left h => by cases h
      rw [List.length_append] at hfuel
      simp only
      split
      · rw [List.length_cons] at hfuel
        exact map_ne_fuel (ih (show _ + 6 ≤ _ by omega))
      · exact fun h => by cases h
    | chain op =>
      have hcalls := calls_operand op
      rw [parseCat_chain]
      refine bind_ne_fuel (ih (by omega)) fun ⟨first, rest⟩ hfirst => ?_
      obtain ⟨ts, rfl, hts⟩ := derives_of_parseCat hfirst
      rw [List.length_append] at hfuel
      have hpos := calls_pos op.operand
      exact ih (show 10 * rest.length + 1 ≤ fuel by omega)
    | tail op left =>
      by_cases hhead : op.token ∈ toks.head?
      · obtain ⟨toks, rfl⟩ := List.head?_eq_some_iff.mp hhead
        simp only [Cat.calls, List.length_cons] at hfuel
        have hcalls := calls_operand op
        have hle := calls_chain_le op
        rw [parseCat_tail_cons]
        refine bind_ne_fuel (ih (by omega)) fun ⟨right, rest⟩ hright => ?_
        obtain ⟨ts, rfl, hts⟩ := derives_of_parseCat hright
        rw [List.length_append] at hfuel
        exact ih (show 10 * rest.length + 1 ≤ fuel by omega)
      · rw [parseCat_tail_stops fuel op left hhead]
        exact fun h => by cases h
    | unary =>
      cases toks with
      | nil => exact fun h => by cases h
      | cons tok toks =>
        simp only [Cat.calls, List.length_cons] at hfuel
        cases hnode : unaryNode tok with
        | some f =>
          rw [parseCat_prefixed fuel hnode]
          exact map_ne_fuel (ih (show _ + 2 ≤ _ by omega))
        | none =>
          rw [parseCat_plain fuel hnode]
          exact ih (show 10 * (toks.length + 1) + 1 ≤ fuel by omega)
    | primary =>
      cases toks with
      | nil => exact fun h => by cases h
      | cons tok toks =>
        simp only [Cat.calls, List.length_cons] at hfuel
        cases tok with
        | lparen =>
          rw [parseCat_paren]
          refine bind_ne_fuel (ih (show _ + 6 ≤ _ by omega)) fun ⟨inner, rest⟩ _ => ?_
          simp only
          split
          · exact fun h => by cases h
          · exact fun h => by cases h
        | _ => exact fun h => by cases h

theorem parseTokens_ok_iff (toks : List Token) (n : Node) :
    parseTokens toks = .ok n ↔ Derives .implies toks n := by
  constructor
  · intro h
    obtain ⟨⟨node, rest⟩, hnode, hthen⟩ := Pipeline.bind_ok h
    obtain ⟨ts, rfl, hts⟩ := @derives_of_parseCat (10 * (toks.length + 1)) .implies _ _ _ hnode
    simp only at hthen
    split at hthen
    · rw [List.append_nil, ← Except.ok.inj hthen]
      exact hts
    · cases hthen
  · intro h
    have hread := @parseCat_of_derives _ _ _ h [] (fun tok htok => by cases htok) _
      (show 10 * toks.length + 6 ≤ 10 * (toks.length + 1) by omega)
    rw [List.append_nil] at hread
    unfold parseTokens
    change (parseCat (10 * (toks.length + 1)) .implies toks >>= _) = _
    rw [hread]
    rfl

theorem parseTokens_ends (toks : List Token) : parseTokens toks ≠ .error .fuel := by
  refine bind_ne_fuel (x := parseCat (10 * (toks.length + 1)) .implies toks)
    (parseCat_ends (show 10 * toks.length + 6 ≤ _ by omega)) fun ⟨node, rest⟩ _ => ?_
  simp only
  split
  · exact fun h => by cases h
  · exact fun h => by cases h

def firstPiece : Str → Option (Option Token × Str)
  | [] => none
  | ch :: rest =>
    if isspace ch then some (none, rest)
    else if ch = cp '(' then some (some .lparen, rest)
    else if ch = cp ')' then some (some .rparen, rest)
    else if ch = cp '-' ∧ rest.head? = some (cp '>') then some (some .implies, rest.tail)
    else if ch = cp 'F' ∧ rest.head? = some (cp '<') then
      if rest.take 2 ≠ lit ['<', '='] then none
      else
        let digits := (rest.drop 2).takeWhile isdigitChar
        if digits = [] then none
        else match intOfDigits digits with
          | .error _ => none
          | .ok bound => some (some (.boundedEventually bound), rest.drop (2 + digits.length))
    else if isAtomChar ch then
      let word := (ch :: rest).takeWhile isAtomChar
      some (some (wordToken word), (ch :: rest).drop word.length)
    else none

theorem wordLength_pos {ch : CodePoint} (rest : Str) (h : isAtomChar ch = true) :
    0 < ((ch :: rest).takeWhile isAtomChar).length := by
  rw [List.takeWhile_cons_of_pos h]
  exact Nat.succ_pos _

theorem firstPiece_consumes : Lexing.Consumes firstPiece where
  nothing := rfl
  takes := by
    intro s p s' h
    cases s with
    | nil => cases h
    | cons ch rest =>
      rw [firstPiece] at h
      split at h
      · cases h
        exact ⟨[ch], List.cons_ne_nil _ _, rfl⟩
      split at h
      · cases h
        exact ⟨[ch], List.cons_ne_nil _ _, rfl⟩
      split at h
      · cases h
        exact ⟨[ch], List.cons_ne_nil _ _, rfl⟩
      split at h
      · rename_i harrow
        obtain ⟨tail, rfl⟩ := List.head?_eq_some_iff.mp harrow.2
        cases h
        exact ⟨[ch, cp '>'], List.cons_ne_nil _ _, rfl⟩
      split at h
      · split at h
        · cases h
        simp only at h
        split at h
        · cases h
        split at h
        · cases h
        cases h
        exact ⟨ch :: rest.take _, List.cons_ne_nil _ _,
          congrArg (ch :: ·) (List.take_append_drop _ rest).symm⟩
      split at h
      · rename_i hatom
        cases h
        refine ⟨(ch :: rest).take _, ?_, (List.take_append_drop _ _).symm⟩
        have hpos := wordLength_pos rest hatom
        intro hnil
        rw [List.take_eq_nil_iff] at hnil
        rcases hnil with hnil | hnil
        · omega
        · cases hnil
      · cases h

theorem map_cons_ok_iff {x : Except ParseError (List Token)} :
    x.map (tok :: ·) = .ok toks ↔ ∃ us, toks = tok :: us ∧ x = .ok us := by
  cases x with
  | error e => exact iff_of_false (fun h => by cases h) fun ⟨_, _, h⟩ => by cases h
  | ok us =>
    constructor
    · intro h
      exact ⟨us, (Except.ok.inj h).symm, rfl⟩
    · intro ⟨vs, hvs, hus⟩
      rw [hvs, Except.ok.inj hus]
      rfl

theorem tokenizeFrom_ok_iff {fuel offset : ℕ} {s : Str} (hfuel : s.length ≤ fuel)
    (toks : List Token) :
    tokenizeFrom fuel offset s = .ok toks ↔ Lexing.Reads firstPiece s toks [] := by
  induction fuel generalizing offset s toks with
  | zero =>
    obtain rfl := List.eq_nil_of_length_eq_zero (Nat.le_zero.mp hfuel)
    rw [Lexing.nil_iff firstPiece_consumes]
    exact ⟨fun h => (Except.ok.inj h).symm, fun h => congrArg Except.ok h.symm⟩
  | succ fuel ih =>
    cases s with
    | nil =>
      rw [Lexing.nil_iff firstPiece_consumes]
      exact ⟨fun h => (Except.ok.inj h).symm, fun h => congrArg Except.ok h.symm⟩
    | cons ch rest =>
      have hrest : rest.length ≤ fuel := Nat.le_of_succ_le_succ hfuel
      have htoken {tok : Token} {s' : Str} {offset' : ℕ} (hs' : s'.length ≤ fuel)
          (hstep : firstPiece (ch :: rest) = some (some tok, s')) :
          (tokenizeFrom fuel offset' s').map (tok :: ·) = .ok toks ↔
            Lexing.Reads firstPiece (ch :: rest) toks [] := by
        rw [map_cons_ok_iff, Lexing.token_iff firstPiece_consumes hstep]
        simp only [ih hs']
      have hrefused (hstep : firstPiece (ch :: rest) = none) :
          ¬ Lexing.Reads firstPiece (ch :: rest) toks [] :=
        Lexing.refused (List.cons_ne_nil _ _) hstep
      unfold tokenizeFrom
      simp only [firstPiece] at htoken hrefused ⊢
      split_ifs at htoken hrefused ⊢ with hspace hopen hclose harrow hbounded htake hdigits hatom
      · rw [Lexing.skip_iff firstPiece_consumes (show firstPiece (ch :: rest) = some (none, rest) by
          rw [firstPiece, if_pos hspace])]
        exact ih hrest _
      · exact htoken hrest rfl
      · exact htoken hrest rfl
      · exact htoken (by rw [List.length_tail]; omega) rfl
      · exact iff_of_false (fun h => by cases h) (hrefused rfl)
      · exact iff_of_false (fun h => by cases h) (hrefused rfl)
      · cases hbound : intOfDigits ((rest.drop 2).takeWhile isdigitChar) with
        | error e =>
          simp only [hbound] at hrefused
          exact iff_of_false (fun h => by cases h) (hrefused trivial)
        | ok bound =>
          simp only [hbound] at htoken
          exact htoken (by rw [List.length_drop]; omega) rfl
      · refine htoken ?_ rfl
        have hpos := wordLength_pos rest hatom
        rw [List.length_drop, List.length_cons]
        omega
      · exact iff_of_false (fun h => by cases h) (hrefused rfl)

theorem tokenize_ok_iff (s : Str) (toks : List Token) :
    tokenize s = .ok toks ↔ Lexing.Reads firstPiece s toks [] := tokenizeFrom_ok_iff le_rfl toks

theorem space_apart {c : CodePoint} (h : isspace c = true) :
    isAtomChar c = false ∧ isdigitChar c = false := by
  have hall : ∀ n ∈ ([(0x9, 0xd), (0x1c, 0x20), (0x85, 0x85), (0xa0, 0xa0), (0x1680, 0x1680),
      (0x2000, 0x200a), (0x2028, 0x2029), (0x202f, 0x202f), (0x205f, 0x205f),
      (0x3000, 0x3000)] : List (ℕ × ℕ)).flatMap fun r => List.range' r.1 (r.2 + 1 - r.1),
      isAtomChar (Fin.ofNat 0x110000 n) = false ∧ isdigitChar (Fin.ofNat 0x110000 n) = false := by
    decide
  have hc := hall c.val (mem_of_inRanges h)
  rwa [show Fin.ofNat 0x110000 c.val = c from Fin.ext (Nat.mod_eq_of_lt c.isLt)] at hc

def Token.text : Token → Str
  | .lparen => lit ['(']
  | .rparen => lit [')']
  | .implies => lit ['-', '>']
  | .boundedEventually bound => lit ['F', '<', '='] ++ natText bound
  | .const true => lit ['t', 'r', 'u', 'e']
  | .const false => lit ['f', 'a', 'l', 's', 'e']
  | .not => lit ['n', 'o', 't']
  | .and => lit ['a', 'n', 'd']
  | .or => lit ['o', 'r']
  | .next => lit ['X']
  | .weakNext => lit ['X', 'w']
  | .globally => lit ['G']
  | .eventually => lit ['F']
  | .until => lit ['U']
  | .atom word => word

def render (toks : List Token) : Str := [cp ' '].intercalate (toks.map Token.text)

/-- A phrase of the given level where one of at least `least` is wanted. -/
def parenthesize (least level : ℕ) (ts : List Token) : List Token :=
  if level < least then .lparen :: (ts ++ [.rparen]) else ts

def printAt : ℕ → Node → List Token
  | _, .const value => [.const value]
  | _, .atom name => [.atom name]
  | least, .not arg => parenthesize least 4 (.not :: printAt 4 arg)
  | least, .next arg => parenthesize least 4 (.next :: printAt 4 arg)
  | least, .weakNext arg => parenthesize least 4 (.weakNext :: printAt 4 arg)
  | least, .globally arg => parenthesize least 4 (.globally :: printAt 4 arg)
  | least, .eventually arg => parenthesize least 4 (.eventually :: printAt 4 arg)
  | least, .boundedEventually bound arg =>
    parenthesize least 4 (.boundedEventually bound :: printAt 4 arg)
  | least, .until left right => parenthesize least 3 (printAt 3 left ++ .until :: printAt 4 right)
  | least, .and left right => parenthesize least 2 (printAt 2 left ++ .and :: printAt 3 right)
  | least, .or left right => parenthesize least 1 (printAt 1 left ++ .or :: printAt 2 right)
  | least, .implies left right =>
    parenthesize least 0 (printAt 1 left ++ .implies :: printAt 0 right)

def print (n : Node) : Str := render (printAt 0 n)

def catAt : ℕ → Cat
  | 0 => .implies
  | 1 => .chain .or
  | 2 => .chain .and
  | 3 => .chain .until
  | 4 => .unary
  | _ => .primary

theorem Derives.alone {op : ChainOp} {ts : List Token} {n : Node} (h : Derives op.operand ts n) :
    Derives (.chain op) ts n := by
  have hchain : Derives (.chain op) (ts ++ []) n := .chain h .nil
  rwa [List.append_nil] at hchain

theorem Derives.loosen {k : ℕ} {ts : List Token} {n : Node} (h : Derives (catAt (k + 1)) ts n) :
    Derives (catAt k) ts n := by
  rcases k with _ | _ | _ | _ | _ | k
  · exact .last h
  · exact @Derives.alone .or _ _ h
  · exact @Derives.alone .and _ _ h
  · exact @Derives.alone .until _ _ h
  · exact .plain h
  · exact h

theorem Derives.at_level {least level : ℕ} {ts : List Token} {n : Node} (hle : least ≤ level)
    (h : Derives (catAt level) ts n) : Derives (catAt least) ts n := by
  induction hle with
  | refl => exact h
  | step _ ih => exact ih h.loosen

theorem derives_parenthesize {least level : ℕ} {ts : List Token} {n : Node} (hleast : least ≤ 5)
    (h : Derives (catAt level) ts n) : Derives (catAt least) (parenthesize least level ts) n := by
  unfold parenthesize
  split
  · exact .at_level hleast (.paren (.at_level (Nat.zero_le level) h))
  · exact .at_level (by omega) h

theorem Derives.snoc {op : ChainOp} {left n right : Node} {us vs : List Token}
    (h : Derives (.tail op left) us n) (hright : Derives op.operand vs right) :
    Derives (.tail op left) (us ++ op.token :: vs) (op.join n right) := by
  generalize hcat : Cat.tail op left = cat at h
  induction h generalizing left with
  | @nil op' left' =>
    obtain ⟨rfl, rfl⟩ := Cat.tail.inj hcat
    have htail : Derives (.tail op left) (op.token :: (vs ++ [])) (op.join left right) :=
      .cons hright .nil
    rwa [List.append_nil] at htail
  | @cons op' ts us left' right' n hoperand _ _ ih =>
    obtain ⟨rfl, rfl⟩ := Cat.tail.inj hcat
    have htail := Derives.cons hoperand (ih rfl)
    rwa [← List.append_assoc] at htail
  | _ => cases hcat

theorem derives_join {op : ChainOp} {left right : Node} {ts us : List Token}
    (hleft : Derives (.chain op) ts left) (hright : Derives op.operand us right) :
    Derives (.chain op) (ts ++ op.token :: us) (op.join left right) := by
  cases hleft with
  | chain hfirst htail =>
    rw [List.append_assoc]
    exact .chain hfirst (htail.snoc hright)

theorem derives_prefixed {least : ℕ} (hleast : least ≤ 5) {f : Node → Node}
    {ts : List Token} {n : Node} (hf : unaryNode tok = some f) (h : Derives .unary ts n) :
    Derives (catAt least) (parenthesize least 4 (tok :: ts)) (f n) :=
  derives_parenthesize hleast (show Derives (catAt 4) _ _ from .prefixed hf h)

theorem derives_joined {least : ℕ} (hleast : least ≤ 5) {op : ChainOp} {ts us : List Token}
    {left right : Node} (hleft : Derives (.chain op) ts left)
    (hright : Derives op.operand us right) :
    Derives (catAt least) (parenthesize least op.level (ts ++ op.token :: us))
      (op.join left right) := by
  have hcat : catAt op.level = .chain op := by cases op <;> rfl
  apply derives_parenthesize hleast
  rw [hcat]
  exact derives_join hleft hright

theorem derives_printAt (n : Node) {least : ℕ} (hleast : least ≤ 5) :
    Derives (catAt least) (printAt least n) n := by
  induction n generalizing least with
  | const value => exact .at_level hleast (show Derives (catAt 5) _ _ from .const)
  | atom name => exact .at_level hleast (show Derives (catAt 5) _ _ from .atom)
  | not arg ih => exact derives_prefixed hleast rfl (@ih 4 (by decide))
  | next arg ih => exact derives_prefixed hleast rfl (@ih 4 (by decide))
  | weakNext arg ih => exact derives_prefixed hleast rfl (@ih 4 (by decide))
  | globally arg ih => exact derives_prefixed hleast rfl (@ih 4 (by decide))
  | eventually arg ih => exact derives_prefixed hleast rfl (@ih 4 (by decide))
  | boundedEventually bound arg ih => exact derives_prefixed hleast rfl (@ih 4 (by decide))
  | «until» left right ihl ihr =>
    exact @derives_joined _ hleast .until _ _ _ _ (@ihl 3 (by decide)) (@ihr 4 (by decide))
  | and left right ihl ihr =>
    exact @derives_joined _ hleast .and _ _ _ _ (@ihl 2 (by decide)) (@ihr 3 (by decide))
  | or left right ihl ihr =>
    exact @derives_joined _ hleast .or _ _ _ _ (@ihl 1 (by decide)) (@ihr 2 (by decide))
  | implies left right ihl ihr =>
    exact derives_parenthesize hleast
      (show Derives (catAt 0) _ _ from .arrow (@ihl 1 (by decide)) (@ihr 0 (by decide)))

structure IsWord (word : Str) : Prop where
  nonempty : word ≠ []
  chars : ∀ c ∈ word, isAtomChar c = true
  notKeyword : wordToken word = .atom word

/-- A word whose first characters are those of `->` or of `F<=` is not read as
a word. -/
structure StartsWord (word : Str) : Prop where
  notArrow : ¬ lit ['-', '>'] <+: word
  notBounded : ¬ lit ['F', '<'] <+: word

def IsReadable : Node → Prop
  | .const _ => True
  | .atom name => IsWord name ∧ StartsWord name
  | .not arg => IsReadable arg
  | .next arg => IsReadable arg
  | .weakNext arg => IsReadable arg
  | .globally arg => IsReadable arg
  | .eventually arg => IsReadable arg
  | .boundedEventually bound arg => (natText bound).length ≤ maxStrDigits ∧ IsReadable arg
  | .until left right => IsReadable left ∧ IsReadable right
  | .and left right => IsReadable left ∧ IsReadable right
  | .or left right => IsReadable left ∧ IsReadable right
  | .implies left right => IsReadable left ∧ IsReadable right

def Token.Reread (tok : Token) : Prop :=
  ∀ rest, PyStr.Apart rest → firstPiece (tok.text ++ rest) = some (some tok, rest)

theorem not_special {word rest : Str} {c d : Char} (hword : ¬ [cp c, cp d] <+: word)
    (hrest : PyStr.Apart rest) (hd : isspace (cp d) = false) {ch : CodePoint} {tail : Str}
    (h : word ++ rest = ch :: tail) (hne : word ≠ []) :
    ¬ (ch = cp c ∧ tail.head? = some (cp d)) := by
  intro ⟨hch, htail⟩
  obtain ⟨a, word, rfl⟩ := List.exists_cons_of_ne_nil hne
  obtain ⟨rfl, rfl⟩ := List.cons.inj h
  cases word with
  | nil => exact hrest.ne hd htail
  | cons b word =>
    apply hword
    rw [hch, show b = cp d from Option.some.inj htail]
    exact ⟨word, rfl⟩

theorem firstPiece_word {word rest : Str} (hne : word ≠ []) (hchars : ∀ c ∈ word, isAtomChar c = true)
    (hstarts : StartsWord word) (hrest : PyStr.Apart rest) :
    firstPiece (word ++ rest) = some (some (wordToken word), rest) := by
  have htake := takeWhile_apart (fun c hc => (space_apart hc).1) hchars hrest
  obtain ⟨ch, tail, hsplit⟩ := List.exists_cons_of_ne_nil (List.append_ne_nil_of_left_ne_nil hne rest)
  have harrow := not_special (c := '-') (d := '>') hstarts.notArrow hrest (by decide) hsplit hne
  have hbounded := not_special (c := 'F') (d := '<') hstarts.notBounded hrest (by decide) hsplit hne
  have hatom : isAtomChar ch = true := by
    obtain ⟨a, word, rfl⟩ := List.exists_cons_of_ne_nil hne
    rw [← (List.cons.inj hsplit).1]
    exact hchars a List.mem_cons_self
  have hspace : ¬ isspace ch = true := by
    intro hspace
    rw [(space_apart hspace).1] at hatom
    cases hatom
  have hparens : ch ≠ cp '(' ∧ ch ≠ cp ')' := by
    constructor <;> intro hch <;> rw [hch] at hatom <;> revert hatom <;> decide
  rw [hsplit, firstPiece, if_neg hspace, if_neg hparens.1, if_neg hparens.2, if_neg harrow,
    if_neg hbounded, if_pos hatom, ← hsplit, htake]
  simp only [List.drop_left]

theorem reread_keyword (hne : tok.text ≠ [])
    (hchars : tok.text.all isAtomChar = true) (hstarts : StartsWord tok.text)
    (htok : wordToken tok.text = tok) : tok.Reread := by
  intro rest hrest
  rw [firstPiece_word hne (fun c hc => List.all_eq_true.mp hchars c hc) hstarts hrest, htok]

instance (word : Str) : Decidable (StartsWord word) :=
  decidable_of_iff (¬ lit ['-', '>'] <+: word ∧ ¬ lit ['F', '<'] <+: word)
    ⟨fun h => ⟨h.1, h.2⟩, fun h => ⟨h.notArrow, h.notBounded⟩⟩

theorem reread_plain (hbounded : ∀ bound, tok ≠ .boundedEventually bound)
    (hatom : ∀ word, tok ≠ .atom word) : tok.Reread := by
  cases tok with
  | lparen => exact fun rest _ => rfl
  | rparen => exact fun rest _ => rfl
  | implies => exact fun rest _ => rfl
  | boundedEventually bound => exact absurd rfl (hbounded bound)
  | atom word => exact absurd rfl (hatom word)
  | const value =>
    cases value
    · exact reread_keyword (by decide) (by decide) (by decide) (by decide)
    · exact reread_keyword (by decide) (by decide) (by decide) (by decide)
  | _ =>
    exact reread_keyword (by decide) (by decide) (by decide) (by decide)

theorem reread_bounded {bound : ℕ} (h : (natText bound).length ≤ maxStrDigits) :
    (Token.boundedEventually bound).Reread := by
  intro rest hrest
  have hdigits : ∀ c ∈ natText bound, isdigitChar c = true :=
    fun c hc => isdigitChar_of_isDigit (isDigit_natText hc)
  have htake := takeWhile_apart (fun c hc => (space_apart hc).2) hdigits hrest
  have hspace : ¬ isspace (cp 'F') = true := by decide
  have hopen : cp 'F' ≠ cp '(' := by decide
  have hclose : cp 'F' ≠ cp ')' := by decide
  have harrow : ¬ (cp 'F' = cp '-' ∧ (cp '<' :: cp '=' :: (natText bound ++ rest)).head? = some (cp '>')) :=
    fun hno => absurd hno.1 (by decide)
  have hmark : ¬ (cp '<' :: cp '=' :: (natText bound ++ rest)).take 2 ≠ lit ['<', '='] :=
    not_not.mpr rfl
  change firstPiece (cp 'F' :: cp '<' :: cp '=' :: (natText bound ++ rest)) = _
  rw [firstPiece, if_neg hspace, if_neg hopen, if_neg hclose, if_neg harrow, if_pos ⟨rfl, rfl⟩,
    if_neg hmark]
  simp only [List.drop_succ_cons, List.drop_zero, htake, if_neg (digits_ne_nil bound),
    intOfDigits_natText h]
  rw [Nat.add_comm, List.drop_succ_cons, List.drop_succ_cons, List.drop_left]

theorem firstPiece_space (rest : Str) : firstPiece (cp ' ' :: rest) = some (none, rest) := rfl

theorem reads_render (h : ∀ tok ∈ toks, tok.Reread) :
    Lexing.Reads firstPiece (render toks) toks [] := by
  induction toks with
  | nil => exact .stop []
  | cons tok toks ih =>
    have hfirst := h tok List.mem_cons_self
    have hrest := ih fun tok htok => h tok (List.mem_cons_of_mem _ htok)
    cases toks with
    | nil =>
      have hpiece := hfirst [] fun c hc => by cases hc
      rw [List.append_nil] at hpiece
      change Lexing.Reads firstPiece ([cp ' '].intercalate [tok.text]) [tok] []
      rw [List.intercalate_singleton]
      exact .token hpiece (.stop [])
    | cons tok' toks =>
      have hrender : render (tok :: tok' :: toks) = tok.text ++ cp ' ' :: render (tok' :: toks) := by
        unfold render
        rw [List.map_cons, List.map_cons, List.intercalate_cons_cons, List.append_assoc]
        rfl
      have happart : PyStr.Apart (cp ' ' :: render (tok' :: toks)) := by
        intro c hc
        rw [List.head?_cons, Option.mem_some_iff] at hc
        rw [← hc]
        rfl
      rw [hrender]
      exact .token (hfirst _ happart) (.skip (firstPiece_space _) hrest)

theorem reread_parenthesize {least level : ℕ} {ts : List Token} (h : ∀ tok ∈ ts, tok.Reread) :
    ∀ tok ∈ parenthesize least level ts, tok.Reread := by
  unfold parenthesize
  split
  · intro tok htok
    rw [List.mem_cons, List.mem_append, List.mem_singleton] at htok
    rcases htok with rfl | htok | rfl
    · exact reread_plain (fun _ h => by cases h) fun _ h => by cases h
    · exact h tok htok
    · exact reread_plain (fun _ h => by cases h) fun _ h => by cases h
  · exact h

theorem reread_prefixed {ts : List Token} {least : ℕ} (htok : tok.Reread)
    (h : ∀ tok ∈ ts, tok.Reread) : ∀ t ∈ parenthesize least 4 (tok :: ts), t.Reread :=
  reread_parenthesize (List.forall_mem_cons.mpr ⟨htok, h⟩)

theorem reread_joined {ts us : List Token} {least level : ℕ} (htok : tok.Reread)
    (hts : ∀ tok ∈ ts, tok.Reread) (hus : ∀ tok ∈ us, tok.Reread) :
    ∀ t ∈ parenthesize least level (ts ++ tok :: us), t.Reread :=
  reread_parenthesize (List.forall_mem_append.mpr ⟨hts, List.forall_mem_cons.mpr ⟨htok, hus⟩⟩)

theorem reread_printAt {n : Node} (h : IsReadable n) (least : ℕ) :
    ∀ tok ∈ printAt least n, tok.Reread := by
  induction n generalizing least with
  | const value =>
    intro tok htok
    rw [List.mem_singleton.mp htok]
    exact reread_plain (fun _ h => by cases h) fun _ h => by cases h
  | atom name =>
    intro tok htok
    rw [List.mem_singleton.mp htok]
    intro rest hrest
    have hpiece := firstPiece_word h.1.nonempty h.1.chars h.2 hrest
    rw [h.1.notKeyword] at hpiece
    exact hpiece
  | boundedEventually bound arg ih => exact reread_prefixed (reread_bounded h.1) (ih h.2 4)
  | not arg ih | next arg ih | weakNext arg ih | globally arg ih | eventually arg ih =>
    exact reread_prefixed (reread_plain (fun _ h => by cases h) fun _ h => by cases h) (ih h 4)
  | «until» left right ihl ihr | and left right ihl ihr | or left right ihl ihr
  | implies left right ihl ihr =>
    exact reread_joined (reread_plain (fun _ h => by cases h) fun _ h => by cases h) (ihl h.1 _)
      (ihr h.2 _)

theorem reads_blank {w : Str} (hw : ∀ c ∈ w, isspace c = true) (v : Str) :
    Lexing.Reads firstPiece (w ++ v) [] v := by
  induction w with
  | nil => exact .stop v
  | cons c w ih =>
    obtain ⟨hc, hw⟩ := List.forall_mem_cons.mp hw
    have hpiece : firstPiece (c :: (w ++ v)) = some (none, w ++ v) := by rw [firstPiece, if_pos hc]
    exact .skip hpiece (ih hw)

theorem parse_of_tokens {formula : Str} {n : Node}
    (htokens : Lexing.Reads firstPiece formula toks []) (hparse : Derives .implies toks n) :
    parse formula = .ok n := by
  have hsome : toks ≠ [] := by
    have hpos := derives_length_pos hparse fun op left h => by cases h
    exact List.ne_nil_of_length_pos hpos
  have hvisible : ¬ (formula.all isspace) = true := by
    intro hblank
    have hnone := reads_blank (fun c hc => List.all_eq_true.mp hblank c hc) []
    rw [List.append_nil] at hnone
    exact hsome (Lexing.Reads.unique firstPiece_consumes htokens hnone)
  unfold parse
  rw [if_neg hvisible, (tokenize_ok_iff formula toks).mpr htokens]
  simp only [bind, Except.bind, if_neg hsome]
  exact (parseTokens_ok_iff toks n).mpr hparse

/-- The parser decides the documented grammar and ends on all tokens, a token
list has at most one formula, and a printed formula is read back. -/
theorem ltl_parser_decides_grammar :
    (∀ toks n, parseTokens toks = .ok n ↔ Derives .implies toks n) ∧
      (∀ toks, parseTokens toks ≠ .error .fuel) ∧
      (∀ toks n m, Derives .implies toks n → Derives .implies toks m → n = m) ∧
      ∀ n, IsReadable n → parse (print n) = .ok n := by
  refine ⟨parseTokens_ok_iff, parseTokens_ends, fun toks n m hn hm => ?_, fun n hn => ?_⟩
  · have hsame := ((parseTokens_ok_iff toks n).mpr hn).symm.trans ((parseTokens_ok_iff toks m).mpr hm)
    exact Except.ok.inj hsame
  · exact parse_of_tokens (reads_render (reread_printAt hn 0))
      (show Derives (catAt 0) _ _ from derives_printAt n (Nat.zero_le 5))

/-- An atom that begins like an implication is no atom when it is read. -/
theorem arrow_word_not_reread :
    IsWord (lit ['-', '>', 'a']) ∧
      parse (print (.atom (lit ['-', '>', 'a']))) ≠ .ok (.atom (lit ['-', '>', 'a'])) := by
  refine ⟨⟨by decide, fun c hc => List.all_eq_true.mp (by decide) c hc, by decide⟩, ?_⟩
  decide

end TexGovernance.Contracts

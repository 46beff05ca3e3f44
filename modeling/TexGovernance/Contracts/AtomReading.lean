import TexGovernance.Contracts.Atoms
import Mathlib.Data.List.Infix

/-!
# Reading an atom back (`contracts/_atoms.py`)

`_parse_atom` tries the operator tokens in the order of the list, each anywhere
in the text. When does it find the operator that was written?
-/

namespace TexGovernance.Contracts
open PyStr

def PathNamespace.text : PathNamespace → Str
  | .field => txt "field"
  | .state => txt "state"
  | .drift => txt "drift"

/-- What the atom says: `~exists` takes no literal. -/
def asWritten (ns : PathNamespace) (path : Str) (op : Op) (literal : Str) : Except PyErr ParsedAtom :=
  if op = .exists then
    if literal = [] then .ok (.path ns path op none) else .error .valueError
  else .ok (.path ns path op (some literal))

def tokensBefore (token : Str) : List Str := (opTokens.map Prod.fst).takeWhile (· ≠ token)

structure FoundFirst (path token literal : Str) : Prop where
  untried : ∀ earlier ∈ tokensBefore token, ¬ earlier <:+: path ++ token ++ literal
  leftmost : ∀ before after, path ++ token ++ literal = before ++ token ++ after →
    path.length ≤ before.length

theorem findSub_eq_none {needle text : Str} : findSub needle text = none ↔ ¬ needle <:+: text := by
  induction text with
  | nil => simp [findSub]
  | cons c rest ih =>
    rw [findSub, List.infix_cons_iff, not_or, ← ih]
    by_cases hprefix : needle.isPrefixOf (c :: rest) = true
    · rw [if_pos hprefix]
      exact iff_of_false nofun fun h => h.1 (List.isPrefixOf_iff_prefix.mp hprefix)
    · rw [if_neg hprefix, Option.map_eq_none_iff]
      exact (and_iff_right fun h => hprefix (List.isPrefixOf_iff_prefix.mpr h)).symm

theorem findSub_eq_some {needle text : Str} {i : ℕ} (h : findSub needle text = some i) :
    (∃ before after, text = before ++ needle ++ after ∧ before.length = i) ∧
      ∀ before after, text = before ++ needle ++ after → i ≤ before.length := by
  induction text generalizing i with
  | nil =>
    rw [findSub] at h
    split at h
    · rename_i hneedle
      obtain rfl := Option.some.inj h
      exact ⟨⟨[], [], by simp [hneedle], rfl⟩, fun _ _ _ => Nat.zero_le _⟩
    · cases h
  | cons c rest ih =>
    rw [findSub] at h
    split at h
    · rename_i hprefix
      obtain rfl := Option.some.inj h
      obtain ⟨after, hafter⟩ := List.isPrefixOf_iff_prefix.mp hprefix
      exact ⟨⟨[], after, hafter.symm, rfl⟩, fun _ _ _ => Nat.zero_le _⟩
    · rename_i hprefix
      obtain ⟨j, hj, rfl⟩ := Option.map_eq_some_iff.mp h
      obtain ⟨⟨before, after, htext, hlength⟩, hleast⟩ := ih hj
      refine ⟨⟨c :: before, after, by rw [htext]; rfl, by rw [List.length_cons, hlength]⟩, fun b a hba => ?_⟩
      cases b with
      | nil =>
        refine absurd (List.isPrefixOf_iff_prefix.mpr ⟨a, ?_⟩) hprefix
        exact hba.symm
      | cons d b =>
        obtain ⟨-, hrest⟩ := List.cons.inj hba
        exact Nat.succ_le_succ (hleast b a hrest)

theorem findSub_append (path token literal : Str)
    (hleast : ∀ before after, path ++ token ++ literal = before ++ token ++ after →
      path.length ≤ before.length) : findSub token (path ++ token ++ literal) = some path.length := by
  cases hfound : findSub token (path ++ token ++ literal) with
  | none => exact absurd ⟨path, literal, rfl⟩ (findSub_eq_none.mp hfound)
  | some i =>
    obtain ⟨⟨before, after, htext, rfl⟩, hmin⟩ := findSub_eq_some hfound
    rw [le_antisymm (hmin path literal rfl) (hleast before after htext)]

theorem opTokens_apart : opTokens.Pairwise fun a b => a.1 ≠ b.1 ∧ a.2 ≠ b.2 ∧ a.2 ≠ .exists := by
  decide

theorem split_tokens {token : Str} {op : Op} (h : (token, op) ∈ opTokens) :
    ∃ before after, opTokens = before ++ (token, op) :: after ∧
      before.map Prod.fst = tokensBefore token ∧ ∀ e ∈ before, e.2 ≠ op ∧ e.2 ≠ .exists := by
  obtain ⟨before, after, hsplit⟩ := List.append_of_mem h
  have hapart := hsplit ▸ opTokens_apart
  have hbefore : ∀ e ∈ before, e.1 ≠ token ∧ e.2 ≠ op ∧ e.2 ≠ .exists := fun e he =>
    (List.pairwise_append.mp hapart).2.2 e he (token, op) (List.mem_cons_self ..)
  refine ⟨before, after, hsplit, ?_, fun e he => (hbefore e he).2⟩
  unfold tokensBefore
  rw [hsplit, List.map_append, List.takeWhile_append_of_pos]
  · simp
  · intro t ht
    obtain ⟨e, he, rfl⟩ := List.mem_map.mp ht
    exact decide_eq_true (hbefore e he).1

theorem splitOperator_skip (ns : PathNamespace) (rest : Str) (earlier more : List (Str × Op))
    (h : ∀ e ∈ earlier, ¬ e.1 <:+: rest) :
    splitOperator ns rest (earlier ++ more) = splitOperator ns rest more := by
  induction earlier with
  | nil => rfl
  | cons e earlier ih =>
    obtain ⟨hhead, htail⟩ := List.forall_mem_cons.mp h
    rw [List.cons_append, splitOperator, findSub_eq_none.mpr hhead]
    exact ih htail

theorem splitOperator_earlier (ns : PathNamespace) (rest : Str) (earlier more : List (Str × Op))
    (hexists : ∀ e ∈ earlier, e.2 ≠ .exists) (h : ∃ e ∈ earlier, e.1 <:+: rest) :
    ∃ e ∈ earlier, ∃ path literal,
      splitOperator ns rest (earlier ++ more) = .ok (.path ns path e.2 (some literal)) := by
  induction earlier with
  | nil =>
    obtain ⟨e, he, -⟩ := h
    cases he
  | cons e earlier ih =>
    obtain ⟨hhead, htail⟩ := List.forall_mem_cons.mp hexists
    rw [List.cons_append, splitOperator]
    cases hfound : findSub e.1 rest with
    | some i =>
      dsimp only
      rw [if_neg hhead]
      exact ⟨e, List.mem_cons_self .., _, _, rfl⟩
    | none =>
      obtain ⟨e', he', hinfix⟩ := h
      rcases List.mem_cons.mp he' with rfl | he'
      · exact absurd hinfix (findSub_eq_none.mp hfound)
      · obtain ⟨e'', hmem, hread⟩ := ih htail ⟨e', he', hinfix⟩
        exact ⟨e'', List.mem_cons_of_mem _ hmem, hread⟩

theorem parseAtom_text (ns : PathNamespace) (rest : Str) :
    parseAtom (ns.text ++ txt ":" ++ rest) = splitOperator ns rest opTokens := by
  have hcolon : cp ':' ∈ ns.text ++ txt ":" ++ rest := by
    rw [List.append_assoc]
    exact List.mem_append_right _ (List.mem_cons_self ..)
  have hall : ns.text.all (fun c => c ≠ cp ':') = true := by
    cases ns <;> decide
  have hplain := List.all_eq_true.mp hall
  have hstop : txt ":" ++ rest = cp ':' :: rest := rfl
  have hnamed : tagNamespace? (strip ns.text) = none ∧ pathNamespace? (strip ns.text) = some ns := by
    cases ns <;> decide
  unfold parseAtom
  rw [if_neg (not_not.mpr hcolon)]
  dsimp only
  rw [List.append_assoc, List.takeWhile_append_of_pos hplain, List.dropWhile_append_of_pos hplain, hstop,
    List.takeWhile_cons_of_neg (by simp), List.dropWhile_cons_of_neg (by simp), List.append_nil,
    hnamed.1, hnamed.2]
  rfl

theorem exists_token : ∀ e ∈ opTokens, e.2 = .exists → e.1 = txt "~exists" := by
  decide

theorem exists_leftmost {path literal : Str} (hpath : ¬ txt "~exists" <:+: path) (before after : Str)
    (h : path ++ txt "~exists" ++ literal = before ++ txt "~exists" ++ after) :
    path.length ≤ before.length := by
  rw [List.append_assoc, List.append_assoc] at h
  rcases List.append_eq_append_iff.mp h with ⟨gap, rfl, -⟩ | ⟨gap, rfl, hgap⟩
  · rw [List.length_append]
    exact Nat.le_add_right _ _
  · rcases List.append_eq_append_iff.mp hgap with ⟨more, hmore, -⟩ | ⟨tail, htail, hliteral⟩
    · -- the whole operator lies in the path
      exact absurd ⟨before, more, by rw [hmore, List.append_assoc]⟩ hpath
    · have htilde : cp '~' ∉ (txt "~exists").tail := by decide
      cases tail with
      | nil =>
        rw [List.append_nil] at htail
        exact absurd ⟨before, [], by rw [htail, List.append_nil]⟩ hpath
      | cons d tail =>
        cases gap with
        | nil => simp
        | cons c gap =>
          -- a second tilde inside the operator
          obtain rfl : cp '~' = d := (List.cons.inj hliteral).1
          rw [htail] at htilde
          exact absurd (List.mem_append_right _ (List.mem_cons_self ..)) htilde

/-- An atom is read as it is written exactly if its operator is found first. -/
theorem parseAtom_as_written_iff (ns : PathNamespace) (path literal token : Str) (op : Op)
    (htoken : (token, op) ∈ opTokens) (hpath : ∀ e ∈ opTokens, ¬ e.1 <:+: path) :
    parseAtom (ns.text ++ txt ":" ++ path ++ token ++ literal) = asWritten ns path op literal ↔
      FoundFirst path token literal := by
  have hparse := parseAtom_text ns (path ++ token ++ literal)
  simp only [← List.append_assoc] at hparse
  rw [hparse]
  obtain ⟨before, after, hsplit, hbefore, hapart⟩ := split_tokens htoken
  rw [hsplit]
  constructor
  · intro h
    have huntried : ∀ e ∈ before, ¬ e.1 <:+: path ++ token ++ literal := by
      by_contra! hsome
      obtain ⟨e, he, p, l, hread⟩ := splitOperator_earlier ns _ before ((token, op) :: after)
        (fun e he => (hapart e he).2) hsome
      rw [hread] at h
      unfold asWritten at h
      split at h
      · rename_i hop
        split at h
        · exact absurd (ParsedAtom.path.inj (Except.ok.inj h)).2.2.1 (hapart e he).1
        · cases h
      · exact absurd (ParsedAtom.path.inj (Except.ok.inj h)).2.2.1 (hapart e he).1
    rw [splitOperator_skip ns _ before _ huntried, splitOperator] at h
    refine ⟨?_, ?_⟩
    · rw [← hbefore]
      exact List.forall_mem_map.mpr huntried
    · by_cases hexists : op = .exists
      · subst hexists
        obtain rfl : token = txt "~exists" := exists_token _ htoken rfl
        exact exists_leftmost (hpath _ htoken)
      · cases hfound : findSub token (path ++ token ++ literal) with
        | none => exact absurd ⟨path, literal, rfl⟩ (findSub_eq_none.mp hfound)
        | some i =>
          obtain ⟨⟨front, back, htext, rfl⟩, hmin⟩ := findSub_eq_some hfound
          rw [hfound, asWritten] at h
          dsimp only at h
          rw [if_neg hexists, if_neg hexists, htext, List.append_assoc, List.take_append_length] at h
          obtain rfl : front = path := (ParsedAtom.path.inj (Except.ok.inj h)).2.1
          exact hmin
  · intro hfound
    have huntried : ∀ e ∈ before, ¬ e.1 <:+: path ++ token ++ literal := by
      exact fun e he => hfound.untried e.1 (hbefore ▸ List.mem_map_of_mem he)
    rw [splitOperator_skip ns _ before _ huntried, splitOperator,
      findSub_append path token literal hfound.leftmost]
    dsimp only
    have hliteral : (path ++ token ++ literal).drop (path.length + token.length) = literal := by
      rw [← List.length_append, List.drop_append_length]
    have htake : (path ++ token ++ literal).take path.length = path := by
      rw [List.append_assoc, List.take_append_length]
    rw [hliteral, htake]
    rfl

theorem parseAtom_as_written_sample :
    parseAtom (txt "field:amount>=10") = asWritten .field (txt "amount") .ge (txt "10") :=
  (parseAtom_as_written_iff .field (txt "amount") (txt "10") (txt ">=") .ge (by decide) (by decide)).mpr
    { untried := by decide
      leftmost := (findSub_eq_some (by decide : findSub (txt ">=")
        (txt "amount" ++ txt ">=" ++ txt "10") = some 6)).2 }

/-- The literal holds an operator token that is tried earlier. -/
theorem literal_taken_for_operator :
    (∀ e ∈ opTokens, ¬ e.1 <:+: txt "name") ∧
    parseAtom (txt "field:name~contains:a==b") =
      .ok (.path .field (txt "name~contains:a") .eq (some (txt "b"))) ∧
    parseAtom (txt "field:name~contains:a==b") ≠ asWritten .field (txt "name") .contains (txt "a==b") := by
  decide

end TexGovernance.Contracts

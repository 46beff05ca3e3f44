import TexGovernance.Lib.ByteOrder
import Mathlib.Data.List.Induction
import Mathlib.Data.List.TakeWhile
import Mathlib.Data.Nat.Digits.Defs

/-!
# IP addresses and their texts

Go's `net.IP`, `net.ParseIP` and `IP.String`: dotted decimal for version 4, also
where it is mapped into version 6, and groups of hexadecimal digits with the longest
run of zeros left out for version 6.
-/

namespace NetIp
open ByteOrder

abbrev Text := List Char

inductive Ip where
  | four (b : Four Byte)
  | sixteen (b : Four (Four Byte))
  deriving DecidableEq

def mapped (b : Four Byte) : Four (Four Byte) :=
  ⟨Four.fill 0, Four.fill 0, ⟨0, 0, 0xff, 0xff⟩, b⟩

def to16 : Ip → Four (Four Byte)
  | .four b => mapped b
  | .sixteen b => b

def to4 : Ip → Option (Four Byte)
  | .four b => some b
  | .sixteen b => if b = mapped b.at3 then some b.at3 else none

def isDigit (c : Char) : Bool := '0' ≤ c ∧ c ≤ '9'

def decimalValue (digits : Text) : ℕ := digits.foldl (fun acc c => 10 * acc + (c.toNat - 48)) 0

def octet? (digits : Text) : Option Byte :=
  if digits = [] ∨ ¬digits.all isDigit ∨ (digits.head? = some '0' ∧ digits.length ≠ 1) ∨
      255 < decimalValue digits then none
  else some (BitVec.ofNat 8 (decimalValue digits))

def octet (b : Byte) : Text := Nat.toDigits 10 b.toNat

def parseIpv4 (s : Text) : Option (Four Byte) :=
  match (s.splitOn '.').map octet? with
  | [some b0, some b1, some b2, some b3] => some ⟨b0, b1, b2, b3⟩
  | _ => none

def dotted (b : Four Byte) : Text :=
  octet b.at0 ++ '.' :: (octet b.at1 ++ '.' :: (octet b.at2 ++ '.' :: octet b.at3))

def hexDigit? (c : Char) : Option ℕ :=
  if isDigit c then some (c.toNat - 48)
  else if 'a' ≤ c ∧ c ≤ 'f' then some (c.toNat - 87)
  else if 'A' ≤ c ∧ c ≤ 'F' then some (c.toNat - 55)
  else none

def isHexDigit (c : Char) : Bool := (hexDigit? c).isSome

def hexValue (digits : Text) : ℕ := digits.foldl (fun acc c => 16 * acc + (hexDigit? c).getD 0) 0

def groupsOf (b : Four Byte) : List ℕ :=
  [256 * b.at0.toNat + b.at1.toNat, 256 * b.at2.toNat + b.at3.toNat]

def groups (b : Four (Four Byte)) : List ℕ :=
  groupsOf b.at0 ++ groupsOf b.at1 ++ groupsOf b.at2 ++ groupsOf b.at3

def high (group : ℕ) : Byte := BitVec.ofNat 8 (group / 256)

def low (group : ℕ) : Byte := BitVec.ofNat 8 group

def ofGroups? : List ℕ → Option (Four (Four Byte))
  | [g0, g1, g2, g3, g4, g5, g6, g7] => some
    ⟨⟨high g0, low g0, high g1, low g1⟩, ⟨high g2, low g2, high g3, low g3⟩,
      ⟨high g4, low g4, high g5, low g5⟩, ⟨high g6, low g6, high g7, low g7⟩⟩
  | _ => none

/-- The loop over the groups, for at most `room` more of them: the groups read, how
many stand before the `::`, and what is left of the text. -/
def readGroups : ℕ → List ℕ → Option ℕ → Text → Option (List ℕ × Option ℕ × Text)
  | 0, gs, ellipsis, s => some (gs, ellipsis, s)
  | room + 1, gs, ellipsis, s =>
    let digits := s.takeWhile isHexDigit
    if digits = [] ∨ 4 < digits.length then none
    else
      let gs' := gs ++ [hexValue digits]
      match s.dropWhile isHexDigit with
      | [] => some (gs', ellipsis, [])
      | '.' :: _ =>
        if ellipsis = none ∧ gs.length ≠ 6 ∨ 6 < gs.length then none
        else (parseIpv4 s).map fun b => (gs ++ groupsOf b, ellipsis, [])
      | [':'] => none
      | ':' :: ':' :: rest =>
        if ellipsis ≠ none then none
        else if rest = [] then some (gs', some gs'.length, [])
        else readGroups room gs' (some gs'.length) rest
      | ':' :: rest => readGroups room gs' ellipsis rest
      | _ => none

/-- The zeros of the `::` are filled in; it stands for one group at least. -/
def expand (gs : List ℕ) : Option ℕ → Option (List ℕ)
  | none => if gs.length = 8 then some gs else none
  | some k =>
    if gs.length < 8 then some (gs.take k ++ List.replicate (8 - gs.length) 0 ++ gs.drop k) else none

def parseIpv6 (s : Text) : Option (Four (Four Byte)) :=
  let start : Option (List ℕ × Option ℕ × Text) :=
    match s with
    | [':', ':'] => some ([], some 0, [])
    | ':' :: ':' :: rest => readGroups 8 [] (some 0) rest
    | _ => readGroups 8 [] none s
  match start with
  | some (gs, ellipsis, []) => (expand gs ellipsis).bind ofGroups?
  | _ => none

/-- `net.ParseIP`; an address with a zone is refused. -/
def parseIP (s : Text) : Option Ip :=
  match s.find? fun c => c = '.' ∨ c = ':' ∨ c = '%' with
  | some '.' => (parseIpv4 s).map fun b => .sixteen (mapped b)
  | some ':' => if '%' ∈ s then none else (parseIpv6 s).map .sixteen
  | _ => none

def hexChar (d : ℕ) : Char := Nat.digitChar d

def hexGroup (g : ℕ) : Text :=
  (if 0x1000 ≤ g then [hexChar (g / 0x1000)] else []) ++
    ((if 0x100 ≤ g then [hexChar (g / 0x100 % 16)] else []) ++
      ((if 0x10 ≤ g then [hexChar (g / 0x10 % 16)] else []) ++ [hexChar (g % 16)]))

def joined (gs : List ℕ) : Text := [':'].intercalate (gs.map hexGroup)

def zerosAt (gs : List ℕ) (i : ℕ) : ℕ := ((gs.drop i).takeWhile (· = 0)).length

def longestZeros (gs : List ℕ) : ℕ × ℕ :=
  (List.range gs.length).foldl
    (fun best i => if 2 ≤ zerosAt gs i ∧ best.2 < zerosAt gs i then (i, zerosAt gs i) else best) (0, 0)

def printed (gs : List ℕ) : Text :=
  let (start, zeros) := longestZeros gs
  if zeros = 0 then joined gs
  else joined (gs.take start) ++ ':' :: ':' :: joined (gs.drop (start + zeros))

/-- `IP.String`. -/
def string (ip : Ip) : Text :=
  match to4 ip with
  | some b => dotted b
  | none => printed (groups (to16 ip))

theorem octet_spec : ∀ b : Byte, octet? (octet b) = some b ∧ (octet b).all isDigit = true := by
  decide

theorem digit_ne {c mark : Char} (h : isDigit c = true) (hmark : isDigit mark = false) : c ≠ mark := by
  rintro rfl
  rw [h] at hmark
  cases hmark

theorem not_mem_octet (b : Byte) {mark : Char} (hmark : isDigit mark = false) : mark ∉ octet b :=
  fun hmem => digit_ne (List.all_eq_true.mp (octet_spec b).2 mark hmem) hmark rfl

theorem parseIpv4_dotted (b : Four Byte) : parseIpv4 (dotted b) = some b := by
  have hdot : ∀ x, '.' ∉ octet x := fun x => not_mem_octet x (by decide)
  unfold parseIpv4 dotted
  rw [List.splitOn_append_cons_self_of_not_mem (hdot _), List.splitOn_append_cons_self_of_not_mem (hdot _),
    List.splitOn_append_cons_self_of_not_mem (hdot _), List.splitOn_eq_singleton (hdot _)]
  simp only [List.map_cons, List.map_nil, octet_spec]

theorem parseIP_dotted (b : Four Byte) : parseIP (dotted b) = some (.sixteen (mapped b)) := by
  have hfind : (dotted b).find? (fun c => c = '.' ∨ c = ':' ∨ c = '%') = some '.' := by
    unfold dotted
    rw [List.find?_append, List.find?_eq_none.mpr, Option.none_or]
    · rfl
    · intro c hc
      have hdigit := List.all_eq_true.mp (octet_spec b.at0).2 c hc
      have hdot : c ≠ '.' := digit_ne hdigit (by decide)
      have hcolon : c ≠ ':' := digit_ne hdigit (by decide)
      have hzone : c ≠ '%' := digit_ne hdigit (by decide)
      simp [hdot, hcolon, hzone]
  unfold parseIP
  rw [hfind]
  simp only [parseIpv4_dotted, Option.map_some]

theorem hexChar_spec : ∀ d < 16, hexDigit? (hexChar d) = some d := by
  decide

theorem isHexDigit_hexChar {d : ℕ} (h : d < 16) : isHexDigit (hexChar d) = true := by
  unfold isHexDigit
  rw [hexChar_spec d h]
  rfl

theorem hexGroup_all {g : ℕ} (h : g < 65536) : ∀ c ∈ hexGroup g, isHexDigit c = true := by
  have hdigit : ∀ d < 16, ∀ c ∈ [hexChar d], isHexDigit c = true := by
    intro d hd c hc
    rw [List.mem_singleton.mp hc]
    exact isHexDigit_hexChar hd
  intro c hc
  unfold hexGroup at hc
  rcases List.mem_append.mp hc with hc | hc
  · split at hc
    · exact hdigit _ (by omega) c hc
    · cases hc
  rcases List.mem_append.mp hc with hc | hc
  · split at hc
    · exact hdigit _ (by omega) c hc
    · cases hc
  rcases List.mem_append.mp hc with hc | hc
  · split at hc
    · exact hdigit _ (by omega) c hc
    · cases hc
  · exact hdigit _ (by omega) c hc

theorem hexGroup_ne_nil (g : ℕ) : hexGroup g ≠ [] := by
  unfold hexGroup
  simp

theorem hexGroup_length (g : ℕ) : (hexGroup g).length ≤ 4 := by
  unfold hexGroup
  split <;> split <;> split <;> simp

theorem hexValue_hexGroup {g : ℕ} (h : g < 65536) : hexValue (hexGroup g) = g := by
  have hd : ∀ d < 16, (hexDigit? (hexChar d)).getD 0 = d := by
    intro d hd
    rw [hexChar_spec d hd]
    rfl
  unfold hexValue hexGroup
  split <;> split <;> split <;>
    simp only [List.cons_append, List.nil_append, List.foldl_cons, List.foldl_nil] <;>
    repeat rw [hd _ (by omega)]
  all_goals omega

def Stops (rest : Text) : Prop := ∀ c ∈ rest.head?, isHexDigit c = false

theorem takeWhile_hexGroup {g : ℕ} (h : g < 65536) {rest : Text} (hrest : Stops rest) :
    (hexGroup g ++ rest).takeWhile isHexDigit = hexGroup g ∧
      (hexGroup g ++ rest).dropWhile isHexDigit = rest := by
  rw [List.takeWhile_append_of_pos (hexGroup_all h), List.dropWhile_append_of_pos (hexGroup_all h)]
  cases rest with
  | nil => simp
  | cons c rest =>
    have hc : ¬isHexDigit c = true := by
      rw [hrest c rfl]
      decide
    rw [List.takeWhile_cons_of_neg hc, List.dropWhile_cons_of_neg hc, List.append_nil]
    exact ⟨rfl, rfl⟩

theorem joined_cons (g : ℕ) {gs : List ℕ} (h : gs ≠ []) :
    joined (g :: gs) = hexGroup g ++ ':' :: joined gs := by
  obtain ⟨g', gs', rfl⟩ := List.exists_cons_of_ne_nil h
  unfold joined
  simp [List.intercalate]

theorem joined_single (g : ℕ) : joined [g] = hexGroup g := by
  simp [joined, List.intercalate]

theorem stops_colon (rest : Text) : Stops (':' :: rest) := by
  intro c hc
  obtain rfl : ':' = c := Option.some.inj hc
  decide

theorem fits_hexGroup (g : ℕ) : ¬(hexGroup g = [] ∨ 4 < (hexGroup g).length) := by
  have hlength := hexGroup_length g
  rw [not_or]
  exact ⟨hexGroup_ne_nil g, by omega⟩

/-! What a group and the mark behind it do. -/

section Group

variable {room g : ℕ} (h : g < 65536) (gs : List ℕ)

include h

attribute [local simp] readGroups

theorem readGroups_last (ellipsis : Option ℕ) :
    readGroups (room + 1) gs ellipsis (hexGroup g) = some (gs ++ [g], ellipsis, []) := by
  have hend : Stops [] := by simp [Stops]
  obtain ⟨htake, hdrop⟩ := takeWhile_hexGroup h hend
  rw [List.append_nil] at htake hdrop
  rw [readGroups, htake, hdrop]
  simp only [if_neg (fits_hexGroup g), hexValue_hexGroup h]

theorem readGroups_next (ellipsis : Option ℕ) {c : Char} (hc : c ≠ ':') (rest : Text) :
    readGroups (room + 1) gs ellipsis (hexGroup g ++ ':' :: c :: rest) =
      readGroups room (gs ++ [g]) ellipsis (c :: rest) := by
  obtain ⟨htake, hdrop⟩ := takeWhile_hexGroup h (stops_colon (c :: rest))
  simp [htake, hdrop, fits_hexGroup g, hexValue_hexGroup h, hc]

theorem readGroups_ellipsis (rest : Text) :
    readGroups (room + 1) gs none (hexGroup g ++ ':' :: ':' :: rest) =
      if rest = [] then some (gs ++ [g], some (gs ++ [g]).length, [])
      else readGroups room (gs ++ [g]) (some (gs ++ [g]).length) rest := by
  obtain ⟨htake, hdrop⟩ := takeWhile_hexGroup h (stops_colon (':' :: rest))
  simp [htake, hdrop, fits_hexGroup g, hexValue_hexGroup h]

end Group

theorem joined_head {g : ℕ} (h : g < 65536) (gs : List ℕ) :
    ∃ c rest, joined (g :: gs) = c :: rest ∧ c ≠ ':' := by
  obtain ⟨c, rest, hgroup⟩ := List.exists_cons_of_ne_nil (hexGroup_ne_nil g)
  have hc : isHexDigit c = true := hexGroup_all h c (by rw [hgroup]; exact List.mem_cons_self)
  have hcolon : c ≠ ':' := by
    rintro rfl
    exact absurd hc (by decide)
  cases gs with
  | nil => exact ⟨c, rest, by rw [joined_single, hgroup], hcolon⟩
  | cons g' gs =>
    refine ⟨c, rest ++ ':' :: joined (g' :: gs), ?_, hcolon⟩
    rw [joined_cons g (List.cons_ne_nil _ _), hgroup, List.cons_append]

theorem readGroups_joined (ellipsis : Option ℕ) (hs : List ℕ) : ∀ {room} gs, hs ≠ [] →
    hs.length ≤ room → (∀ g ∈ hs, g < 65536) →
      readGroups room gs ellipsis (joined hs) = some (gs ++ hs, ellipsis, []) := by
  induction hs with
  | nil => exact fun gs hne _ _ => absurd rfl hne
  | cons g hs ih =>
    intro room gs _ hroom hall
    obtain ⟨hg, hrest⟩ := List.forall_mem_cons.mp hall
    rw [List.length_cons] at hroom
    obtain ⟨room, rfl⟩ : ∃ n, room = n + 1 := Nat.exists_eq_succ_of_ne_zero (by omega)
    cases hs with
    | nil =>
      rw [joined_single]
      exact readGroups_last hg gs ellipsis
    | cons g' hs =>
      obtain ⟨c, rest, hjoined, hc⟩ := joined_head (List.forall_mem_cons.mp hrest).1 hs
      rw [joined_cons g (List.cons_ne_nil _ _), hjoined, readGroups_next hg gs ellipsis hc, ← hjoined,
        ih (gs ++ [g]) (List.cons_ne_nil _ _) (by omega) hrest, List.append_assoc, List.singleton_append]

theorem readGroups_gap (ts : List ℕ) (hts : ∀ g ∈ ts, g < 65536) (hs : List ℕ) : ∀ {room} gs, hs ≠ [] →
    hs.length + ts.length ≤ room → (∀ g ∈ hs, g < 65536) →
      readGroups room gs none (joined hs ++ ':' :: ':' :: joined ts) =
        some (gs ++ hs ++ ts, some (gs ++ hs).length, []) := by
  induction hs with
  | nil => exact fun gs hne _ _ => absurd rfl hne
  | cons g hs ih =>
    intro room gs _ hroom hall
    obtain ⟨hg, hrest⟩ := List.forall_mem_cons.mp hall
    rw [List.length_cons] at hroom
    obtain ⟨room, rfl⟩ : ∃ n, room = n + 1 := Nat.exists_eq_succ_of_ne_zero (by omega)
    cases hs with
    | nil =>
      rw [joined_single, readGroups_ellipsis hg gs]
      cases ts with
      | nil => simp [joined, List.intercalate]
      | cons t ts =>
        obtain ⟨c, rest, hjoined, -⟩ := joined_head (List.forall_mem_cons.mp hts).1 ts
        have hsome : joined (t :: ts) ≠ [] := by
          rw [hjoined]
          exact List.cons_ne_nil _ _
        rw [if_neg hsome, readGroups_joined _ (t :: ts) _ (List.cons_ne_nil _ _) (by simp at hroom ⊢; omega) hts]
    | cons g' hs =>
      obtain ⟨c, rest, hjoined, hc⟩ := joined_head (List.forall_mem_cons.mp hrest).1 hs
      have hnext : readGroups room (gs ++ [g]) none (joined (g' :: hs) ++ ':' :: ':' :: joined ts) =
          some (gs ++ [g] ++ g' :: hs ++ ts, some (gs ++ [g] ++ g' :: hs).length, []) :=
        ih (gs ++ [g]) (List.cons_ne_nil _ _) (by omega) hrest
      rw [hjoined, List.cons_append] at hnext
      rw [joined_cons g (List.cons_ne_nil _ _), hjoined, List.append_assoc, List.cons_append,
        List.cons_append, readGroups_next hg gs none hc, hnext]
      simp

theorem split_zeros (gs : List ℕ) (i : ℕ) :
    gs.take i ++ List.replicate (zerosAt gs i) 0 ++ gs.drop (i + zerosAt gs i) = gs := by
  have hzeros : List.replicate (zerosAt gs i) 0 = (gs.drop i).takeWhile (· = 0) := by
    refine (List.eq_replicate_iff.mpr ⟨rfl, fun g hg => ?_⟩).symm
    simpa using List.mem_takeWhile_imp hg
  have hrest : gs.drop (i + zerosAt gs i) = (gs.drop i).drop (zerosAt gs i) := (List.drop_drop).symm
  have htake : (gs.drop i).takeWhile (· = 0) = (gs.drop i).take (zerosAt gs i) :=
    (List.prefix_iff_eq_take.mp (List.takeWhile_prefix _))
  rw [hzeros, htake, hrest, List.append_assoc, List.take_append_drop, List.take_append_drop]

theorem longestZeros_spec (gs : List ℕ) :
    (longestZeros gs).2 = 0 ∨ 2 ≤ (longestZeros gs).2 ∧
      (longestZeros gs).2 = zerosAt gs (longestZeros gs).1 := by
  unfold longestZeros
  generalize List.range gs.length = places
  induction places using List.reverseRecOn with
  | nil => exact .inl rfl
  | append_singleton places i ih =>
    rw [List.foldl_append, List.foldl_cons, List.foldl_nil]
    split
    · next hlonger => exact .inr ⟨hlonger.1, rfl⟩
    · exact ih

theorem groupsOf_lt (b : Four Byte) : ∀ g ∈ groupsOf b, g < 65536 := by
  have h0 := b.at0.isLt
  have h1 := b.at1.isLt
  have h2 := b.at2.isLt
  have h3 := b.at3.isLt
  intro g hg
  simp only [groupsOf, List.mem_cons, List.not_mem_nil, or_false] at hg
  rcases hg with rfl | rfl
  · omega
  · omega

theorem groups_lt (b : Four (Four Byte)) : ∀ g ∈ groups b, g < 65536 := by
  intro g hg
  unfold groups at hg
  rw [List.mem_append, List.mem_append, List.mem_append] at hg
  rcases hg with ((hg | hg) | hg) | hg
  all_goals exact groupsOf_lt _ g hg

theorem groups_length (b : Four (Four Byte)) : (groups b).length = 8 := rfl

theorem high_pair (x y : Byte) : high (256 * x.toNat + y.toNat) = x := by
  apply BitVec.eq_of_toNat_eq
  have hx := x.isLt
  have hy := y.isLt
  unfold high
  rw [BitVec.toNat_ofNat]
  omega

theorem low_pair (x y : Byte) : low (256 * x.toNat + y.toNat) = y := by
  apply BitVec.eq_of_toNat_eq
  have hy := y.isLt
  unfold low
  rw [BitVec.toNat_ofNat]
  omega

theorem ofGroups?_groups (b : Four (Four Byte)) : ofGroups? (groups b) = some b := by
  simp only [groups, groupsOf, List.cons_append, List.nil_append, ofGroups?, high_pair, low_pair]

theorem parseIpv6_joined {gs : List ℕ} (hlength : gs.length = 8) (hall : ∀ g ∈ gs, g < 65536) :
    parseIpv6 (joined gs) = ofGroups? gs := by
  obtain ⟨g, rest, rfl⟩ := List.exists_cons_of_length_eq_add_one hlength
  obtain ⟨c, text, hjoined, hc⟩ := joined_head (List.forall_mem_cons.mp hall).1 rest
  have hread : readGroups 8 [] none (joined (g :: rest)) = some ([] ++ g :: rest, none, []) :=
    readGroups_joined none (g :: rest) [] (List.cons_ne_nil _ _) hlength.le hall
  unfold parseIpv6
  rw [hjoined] at hread ⊢
  simp [hc, hread, expand, hlength]

theorem parseIpv6_gap {left right : List ℕ} (hlength : left.length + right.length < 8)
    (hleft : ∀ g ∈ left, g < 65536) (hright : ∀ g ∈ right, g < 65536) :
    parseIpv6 (joined left ++ ':' :: ':' :: joined right) =
      ofGroups? (left ++ List.replicate (8 - (left.length + right.length)) 0 ++ right) := by
  cases left with
  | nil =>
    cases right with
    | nil => rfl
    | cons g rest =>
      obtain ⟨c, text, hjoined, hc⟩ := joined_head (List.forall_mem_cons.mp hright).1 rest
      have hroom : (g :: rest).length ≤ 8 := by
        rw [List.length_nil] at hlength
        omega
      have hread : readGroups 8 [] (some 0) (joined (g :: rest)) = some ([] ++ g :: rest, some 0, []) :=
        readGroups_joined (some 0) (g :: rest) [] (List.cons_ne_nil _ _) hroom hright
      have hempty : joined [] = [] := rfl
      unfold parseIpv6
      rw [hempty, List.nil_append]
      rw [hjoined] at hread ⊢
      simp at hlength
      simp [hread, expand, hlength]
  | cons g rest =>
    obtain ⟨c, text, hjoined, hc⟩ := joined_head (List.forall_mem_cons.mp hleft).1 rest
    have hread : readGroups 8 [] none (joined (g :: rest) ++ ':' :: ':' :: joined right) =
        some ([] ++ g :: rest ++ right, some ([] ++ g :: rest).length, []) :=
      readGroups_gap right hright (g :: rest) [] (List.cons_ne_nil _ _) hlength.le hleft
    unfold parseIpv6
    rw [hjoined, List.cons_append] at hread ⊢
    rw [List.length_cons] at hlength
    have hfits : rest.length + right.length + 1 < 8 := by omega
    have hgap : 8 - (rest.length + 1 + right.length) = 7 - (rest.length + right.length) := by omega
    simp [hc, hread, expand, hfits, hgap]

theorem parseIpv6_printed (b : Four (Four Byte)) : parseIpv6 (printed (groups b)) = some b := by
  have hlt := groups_lt b
  have hspec := longestZeros_spec (groups b)
  have hsplit := split_zeros (groups b) (longestZeros (groups b)).1
  unfold printed
  simp only
  split
  · rw [parseIpv6_joined (groups_length b) hlt, ofGroups?_groups]
  · next hsome =>
    obtain ⟨htwo, hzeros⟩ := hspec.resolve_left hsome
    rw [← hzeros] at hsplit
    have hcount := congrArg List.length hsplit
    rw [List.length_append, List.length_append, List.length_replicate, groups_length] at hcount
    rw [parseIpv6_gap (by omega) (fun g hg => hlt g (List.mem_of_mem_take hg))
      fun g hg => hlt g (List.mem_of_mem_drop hg)]
    have hgap : 8 - (((groups b).take (longestZeros (groups b)).1).length +
        ((groups b).drop ((longestZeros (groups b)).1 + (longestZeros (groups b)).2)).length) =
          (longestZeros (groups b)).2 := by omega
    rw [hgap, hsplit, ofGroups?_groups]

theorem joined_marks {gs : List ℕ} (hall : ∀ g ∈ gs, g < 65536) :
    ∀ c ∈ joined gs, isHexDigit c = true ∨ c = ':' := by
  induction gs with
  | nil => exact fun c hc => absurd hc List.not_mem_nil
  | cons g gs ih =>
    obtain ⟨hg, hrest⟩ := List.forall_mem_cons.mp hall
    intro c hc
    cases gs with
    | nil =>
      rw [joined_single] at hc
      exact .inl (hexGroup_all hg c hc)
    | cons g' gs =>
      rw [joined_cons g (List.cons_ne_nil _ _)] at hc
      rcases List.mem_append.mp hc with hc | hc
      · exact .inl (hexGroup_all hg c hc)
      · rcases List.mem_cons.mp hc with rfl | hc
        · exact .inr rfl
        · exact ih hrest c hc

theorem printed_marks (b : Four (Four Byte)) :
    ':' ∈ printed (groups b) ∧ ∀ c ∈ printed (groups b), isHexDigit c = true ∨ c = ':' := by
  have hlt := groups_lt b
  unfold printed
  simp only
  split
  · refine ⟨?_, joined_marks hlt⟩
    obtain ⟨g, rest, hgroups⟩ := List.exists_cons_of_length_eq_add_one (groups_length b)
    have hrest : rest ≠ [] := by
      rintro rfl
      have hlength := groups_length b
      rw [hgroups] at hlength
      cases hlength
    rw [hgroups, joined_cons g hrest]
    exact List.mem_append_right _ List.mem_cons_self
  · refine ⟨List.mem_append_right _ List.mem_cons_self, fun c hc => ?_⟩
    rcases List.mem_append.mp hc with hc | hc
    · exact joined_marks (fun g hg => hlt g (List.mem_of_mem_take hg)) c hc
    · rcases List.mem_cons.mp hc with rfl | hc
      · exact .inr rfl
      · rcases List.mem_cons.mp hc with rfl | hc
        · exact .inr rfl
        · exact joined_marks (fun g hg => hlt g (List.mem_of_mem_drop hg)) c hc

theorem parseIP_string (ip : Ip) : parseIP (string ip) = some (.sixteen (to16 ip)) := by
  unfold string
  cases hip : to4 ip with
  | some b =>
    have hmapped : to16 ip = mapped b := by
      cases ip with
      | four b' =>
        obtain rfl : b' = b := Option.some.inj hip
        rfl
      | sixteen b' =>
        by_cases hform : b' = mapped b'.at3
        · have hlast : b'.at3 = b := Option.some.inj ((if_pos hform).symm.trans hip)
          rw [← hlast]
          exact hform
        · rw [to4, if_neg hform] at hip
          cases hip
    simp only [parseIP_dotted, hmapped]
  | none =>
    obtain ⟨hcolon, hmarks⟩ := printed_marks (to16 ip)
    have hnot : ∀ mark, isHexDigit mark = false → mark ≠ ':' → mark ∉ printed (groups (to16 ip)) := by
      intro mark hmark hne hmem
      rcases hmarks mark hmem with hdigit | heq
      · rw [hmark] at hdigit
        cases hdigit
      · exact hne heq
    have hfind : (printed (groups (to16 ip))).find? (fun c => c = '.' ∨ c = ':' ∨ c = '%') = some ':' := by
      cases hfound : (printed (groups (to16 ip))).find? (fun c => c = '.' ∨ c = ':' ∨ c = '%') with
      | none => exact absurd (List.find?_eq_none.mp hfound ':' hcolon) (by simp)
      | some c =>
        have hc := List.find?_some hfound
        have hmem := List.mem_of_find?_eq_some hfound
        simp only [decide_eq_true_eq] at hc
        rcases hc with rfl | rfl | rfl
        · exact absurd hmem (hnot '.' (by decide) (by decide))
        · rfl
        · exact absurd hmem (hnot '%' (by decide) (by decide))
    unfold parseIP
    rw [hfind]
    simp only [if_neg (hnot '%' (by decide) (by decide)), parseIpv6_printed, Option.map_some]

end NetIp

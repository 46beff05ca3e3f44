import TexGovernance.Evidence.RecordLines

/-!
# The log behind writes that fail

Runs of appends and restarts over one file, in which a write may stop anywhere.
-/

namespace TexGovernance.Evidence
open PyStr PyBytes PyCodec PyRepr PyDict Sha256 JsonDoc JsonLoads TextFile Actions

variable {Id Time : Type} (p : Platform Id Time)

structure World (Id Time : Type) where
  recorder : Recorder Id Time
  alive : Bool
  returned : List (EvidenceRecord Id Time)

def World.fresh : World Id Time where
  recorder := ⟨none, none, none, []⟩
  alive := true
  returned := []

/-- `index` is a first query for the resolved decisions, with what it found. -/
inductive Event (Id Time : Type) where
  | append (call : AppendCall Id Time) (fate : WriteFate)
  | restart (drawn : Id × Time)
  | index (ids : Finset Str)

def step (w : World Id Time) : Event Id Time → World Id Time
  | .append call fate =>
    if w.alive then
      match p.append call fate w.recorder with
      | .ok record r => { w with recorder := r, returned := w.returned ++ [record] }
      | .error _ r => { w with recorder := r }
    else w
  | .restart drawn =>
    match p.start drawn w.recorder.file with
    | .ok r => { w with recorder := r, alive := true }
    | .error _ => { w with alive := false }
  | .index ids =>
    { w with recorder := { w.recorder with resolvedIds := some (w.recorder.resolvedIds.getD ids) } }

def run (events : List (Event Id Time)) : World Id Time := events.foldl (step p) World.fresh

/-- Every record that an append returned is read back, in order, and they are a valid chain. -/
def Survives (drawn : ℕ → Id × Time) (w : World Id Time) : Prop :=
  (∃ records, p.readAll drawn w.recorder.file = .ok records ∧ w.returned.Sublist records) ∧
    (verifyEvidenceChain p.jsonLoads w.returned).isValid = true

def EndsLine (file : Option Bytes) : Prop :=
  ∀ text, utf8Decode (file.getD []) = .ok text → Terminated text

def Clean (w : World Id Time) : Event Id Time → Prop
  | .append call fate => ∀ record, p.nextRecord call w.recorder.lastRecordHash = .ok record →
    match fate with
    | .done => EndsLine w.recorder.file
    | .refused => True
    | .stops count => count = 0 ∨
      EndsLine w.recorder.file ∧ (utf8 (p.line record)).length ≤ count
  | .restart _ => lastLineOf w.recorder.file = .ok (w.returned.getLast?.map p.line)
  | .index _ => True

def CleanRun : World Id Time → List (Event Id Time) → Prop
  | _, [] => True
  | w, e :: events => Clean p w e ∧ CleanRun (step p w e) events

variable {p}

theorem utf8_append (s t : Str) : utf8 (s ++ t) = utf8 s ++ utf8 t := List.flatMap_append

theorem writeLine_plain {line : Str} (h : Plain line) (r : Recorder Id Time) (fate : WriteFate) :
    writeLine line fate r = match fate with
      | .done => .ok () { r with file := some (r.file.getD [] ++ utf8 (line ++ [cp '\n'])) }
      | .refused => .error .other r
      | .stops count =>
        .error .other { r with file := some (r.file.getD [] ++ (utf8 (line ++ [cp '\n'])).take count) } := by
  unfold writeLine
  rw [utf8Encode_eq (h.append (plain_singleton (isSurrogate_cp _)))]
  cases fate <;> rfl

theorem writeLine_surrogate {line : Str} (h : ¬Plain line) (r : Recorder Id Time) (fate : WriteFate) :
    ∃ e r', writeLine line fate r = .error e r' ∧ r'.file.getD [] = r.file.getD [] ∧
      r'.lastRecordHash = r.lastRecordHash := by
  unfold writeLine
  cases hencode : utf8Encode (line ++ [cp '\n']) with
  | ok bytes => exact absurd (fun c hc => plain_of_utf8Encode hencode c (List.mem_append_left _ hc)) h
  | error e =>
    cases fate with
    | refused => exact ⟨_, _, rfl, rfl, rfl⟩
    | done => exact ⟨_, _, rfl, rfl, rfl⟩
    | stops count => exact ⟨_, _, rfl, rfl, rfl⟩

inductive AppendEnd (p : Platform Id Time) (call : AppendCall Id Time) (fate : WriteFate)
    (r : Recorder Id Time) : EStateM.Result PyErr (Recorder Id Time) (EvidenceRecord Id Time) → Prop
  | nothing {e : PyErr} {r' : Recorder Id Time} (hfile : r'.file.getD [] = r.file.getD [])
      (hlast : r'.lastRecordHash = r.lastRecordHash) : AppendEnd p call fate r (.error e r')
  | returned {record : EvidenceRecord Id Time} {r' : Recorder Id Time} (hfate : fate = .done)
      (hnext : p.nextRecord call r.lastRecordHash = .ok record) (hplain : Plain (p.line record))
      (hfile : r'.file = some (r.file.getD [] ++ utf8 (p.line record ++ [cp '\n'])))
      (hlast : r'.lastRecordHash = some record.recordHash) :
      AppendEnd p call fate r (.ok record r')
  | stopped {record : EvidenceRecord Id Time} {e : PyErr} {r' : Recorder Id Time} (count : ℕ)
      (hfate : fate = .stops count)
      (hnext : p.nextRecord call r.lastRecordHash = .ok record) (hplain : Plain (p.line record))
      (hfile : r'.file = some (r.file.getD [] ++ (utf8 (p.line record ++ [cp '\n'])).take count))
      (hlast : r'.lastRecordHash = r.lastRecordHash) : AppendEnd p call fate r (.error e r')

variable {record : EvidenceRecord Id Time} {call : AppendCall Id Time}

theorem append_done {r : Recorder Id Time}
    (hnext : p.nextRecord call r.lastRecordHash = .ok record) (hplain : Plain (p.line record)) :
    ∃ r', p.append call .done r = .ok record r' ∧
      r'.file = some (r.file.getD [] ++ utf8 (p.line record ++ [cp '\n'])) ∧
      r'.lastRecordHash = some record.recordHash := by
  have hwrite := writeLine_plain hplain r .done
  unfold Platform.append
  rw [bind_ok (show (get : RecorderAction Id Time _) r = .ok r r from rfl), hnext,
    bind_ok (show (ofExcept (.ok record) : RecorderAction Id Time _) r = .ok record r from rfl),
    bind_ok hwrite]
  by_cases htype : call.recordType = txt "human_resolution"
  · cases hmirror : call.mirrorRaises with
    | false => exact ⟨_, by simp only [if_pos htype]; rfl, rfl, rfl⟩
    | true => exact ⟨_, by simp only [if_pos htype]; rfl, rfl, rfl⟩
  · cases hmirror : call.mirrorRaises with
    | false => exact ⟨_, by simp only [if_neg htype]; rfl, rfl, rfl⟩
    | true => exact ⟨_, by simp only [if_neg htype]; rfl, rfl, rfl⟩

theorem append_writeError {r r' : Recorder Id Time} {e : PyErr} {fate : WriteFate}
    (hnext : p.nextRecord call r.lastRecordHash = .ok record)
    (hwrite : writeLine (p.line record) fate r = .error e r') :
    p.append call fate r = .error e r' := by
  unfold Platform.append
  rw [bind_ok (show (get : RecorderAction Id Time _) r = .ok r r from rfl), hnext,
    bind_ok (show (ofExcept (.ok record) : RecorderAction Id Time _) r = .ok record r from rfl),
    bind_error hwrite]

theorem append_end (call : AppendCall Id Time) (fate : WriteFate) (r : Recorder Id Time) :
    AppendEnd p call fate r (p.append call fate r) := by
  cases hnext : p.nextRecord call r.lastRecordHash with
  | error e =>
    have hraise : p.append call fate r = .error e r := by
      unfold Platform.append
      rw [bind_ok (show (get : RecorderAction Id Time _) r = .ok r r from rfl), hnext]
      rfl
    rw [hraise]
    exact .nothing rfl rfl
  | ok record =>
    by_cases hplain : Plain (p.line record)
    · cases fate with
      | done =>
        obtain ⟨r', hok, hfile, hlast⟩ := append_done hnext hplain
        rw [hok]
        exact .returned rfl hnext hplain hfile hlast
      | refused =>
        rw [append_writeError hnext (writeLine_plain hplain r .refused)]
        exact .nothing rfl rfl
      | stops count =>
        rw [append_writeError hnext (writeLine_plain hplain r (.stops count))]
        exact .stopped count rfl hnext hplain rfl rfl
    · obtain ⟨e, r', hwrite, hfile, hlast⟩ := writeLine_surrogate hplain r fate
      rw [append_writeError hnext hwrite]
      exact .nothing hfile hlast

structure Tidy (p : Platform Id Time) (w : World Id Time)
    (records : List (EvidenceRecord Id Time)) (text : Str) : Prop where
  decoded : utf8Decode (w.recorder.file.getD []) = .ok text
  lines : splitLines text = records.map p.line
  kept : w.returned.Sublist records
  linked : LinkedFrom p.jsonLoads none w.returned
  last : w.recorder.lastRecordHash = lastHashFrom none w.returned
  alive : w.alive = true

theorem tidy_fresh : Tidy p (World.fresh : World Id Time) [] [] :=
  ⟨rfl, rfl, .slnil, trivial, rfl, rfl⟩

variable {text : Str} {records : List (EvidenceRecord Id Time)} {w : World Id Time}

theorem Tidy.written (h : Tidy p w records text) (hend : EndsLine w.recorder.file)
    (hplain : Plain (p.line record)) {tail : Str}
    (htail : tail = [] ∨ tail = [cp '\n']) :
    utf8Decode (w.recorder.file.getD [] ++ utf8 (p.line record ++ tail)) =
        .ok (text ++ (p.line record ++ tail)) ∧
      splitLines (text ++ (p.line record ++ tail)) = (records ++ [record]).map p.line := by
  have hplain' : Plain (p.line record ++ tail) := by
    rcases htail with rfl | rfl
    · rw [List.append_nil]
      exact hplain
    · exact hplain.append (plain_singleton (isSurrogate_cp _))
  have hline : splitLines (p.line record ++ tail) = [p.line record] := by
    rcases htail with rfl | rfl
    · rw [List.append_nil]
      exact splitLines_open (noBreak_line record) (line_ne_nil record)
    · exact splitLines_line _ (noBreak_line record)
  constructor
  · rw [utf8Decode_eq_ok_iff]
    exact utf8Encode_append (utf8Decode_eq_ok_iff.mp h.decoded) (utf8Encode_eq hplain')
  · rw [splitLines_append (hend text h.decoded), h.lines, hline, List.map_append]
    rfl

theorem lastHashFrom_concat (start : Option Sha256Hex) (records : List (EvidenceRecord Id Time))
    (record : EvidenceRecord Id Time) : lastHashFrom start (records ++ [record]) = some record.recordHash := by
  unfold lastHashFrom
  rw [List.foldl_append]
  rfl

theorem Tidy.returned (h : Tidy p w records text) (hend : EndsLine w.recorder.file)
    {r : Recorder Id Time} (hnext : p.nextRecord call w.recorder.lastRecordHash = .ok record)
    (hplain : Plain (p.line record))
    (hfile : r.file = some (w.recorder.file.getD [] ++ utf8 (p.line record ++ [cp '\n'])))
    (hlast : r.lastRecordHash = some record.recordHash) :
    Tidy p { w with recorder := r, returned := w.returned ++ [record] } (records ++ [record])
      (text ++ (p.line record ++ [cp '\n'])) := by
  obtain ⟨hsound, hprevious, -⟩ := nextRecord_ok hnext
  obtain ⟨hdecoded, hlines⟩ := h.written hend hplain (.inr rfl)
  exact
    { decoded := by
        rw [hfile]
        exact hdecoded
      lines := hlines
      kept := h.kept.append (List.Sublist.refl _)
      linked := (linkedFrom_append _ _ _).mpr ⟨h.linked, hsound, by rw [hprevious, h.last], trivial⟩
      last := by
        rw [lastHashFrom_concat]
        exact hlast
      alive := h.alive }

theorem take_line (line : Str) {count : ℕ} (h : (utf8 line).length ≤ count) :
    ∃ tail, (tail = [] ∨ tail = [cp '\n']) ∧ (utf8 (line ++ [cp '\n'])).take count = utf8 (line ++ tail) := by
  have hnewline : utf8 [cp '\n'] = [byte 0xa] := by decide
  rcases Nat.eq_or_lt_of_le h with heq | hlt
  · refine ⟨[], .inl rfl, ?_⟩
    rw [List.append_nil, utf8_append, List.take_left' heq]
  · refine ⟨[cp '\n'], .inr rfl, List.take_of_length_le ?_⟩
    rw [utf8_append, List.length_append, hnewline]
    exact hlt

theorem Tidy.unreturned
    (h : Tidy p w records text) {r : Recorder Id Time} {records' : List (EvidenceRecord Id Time)}
    {text' : Str} (hdecoded : utf8Decode (r.file.getD []) = .ok text')
    (hlines : splitLines text' = records'.map p.line) (hkept : records.Sublist records')
    (hlast : r.lastRecordHash = w.recorder.lastRecordHash) :
    Tidy p { w with recorder := r } records' text' where
  decoded := hdecoded
  lines := hlines
  kept := h.kept.trans hkept
  linked := h.linked
  last := hlast.trans h.last
  alive := h.alive

theorem Tidy.append (h : Tidy p w records text) {fate : WriteFate}
    (hclean : Clean p w (.append call fate)) :
    ∃ records' text', Tidy p (step p w (.append call fate)) records' text' := by
  have hend := append_end (p := p) call fate w.recorder
  rw [step, if_pos h.alive]
  generalize p.append call fate w.recorder = result at hend
  cases hend with
  | nothing hfile hlast =>
    refine ⟨records, text, h.unreturned ?_ h.lines (List.Sublist.refl _) hlast⟩
    rw [hfile]
    exact h.decoded
  | returned hfate hnext hplain hfile hlast =>
    subst hfate
    exact ⟨_, _, h.returned (hclean _ hnext) hnext hplain hfile hlast⟩
  | @stopped record e r count hfate hnext hplain hfile hlast =>
    subst hfate
    rcases hclean record hnext with rfl | ⟨hline, hcount⟩
    · refine ⟨records, text, h.unreturned ?_ h.lines (List.Sublist.refl _) hlast⟩
      rw [hfile, List.take_zero, List.append_nil]
      exact h.decoded
    · obtain ⟨tail, htail, htake⟩ := take_line (p.line record) hcount
      obtain ⟨hdecoded, hlines⟩ := h.written hline hplain htail
      refine ⟨_, _, h.unreturned ?_ hlines (List.sublist_append_left records [record]) hlast⟩
      rw [hfile, htake]
      exact hdecoded

theorem getLast?_recordHash (records : List (EvidenceRecord Id Time)) :
    records.getLast?.map EvidenceRecord.recordHash = lastHashFrom none records := by
  cases records using List.reverseRecOn with
  | nil => rfl
  | append_singleton records record =>
    rw [lastHashFrom_concat, List.getLast?_concat]
    rfl

theorem loadLastRecordHash_line {file : Option Bytes} {last : Option (EvidenceRecord Id Time)}
    (h : lastLineOf file = .ok (last.map p.line)) (drawn : Id × Time) :
    p.loadLastRecordHash drawn file = .ok (last.map EvidenceRecord.recordHash) := by
  have hok : ∀ {α β : Type} (a : α) (f : α → Except PyErr β), (Except.ok a >>= f) = f a :=
    fun _ _ => rfl
  unfold Platform.loadLastRecordHash
  rw [h, hok]
  cases last with
  | none => rfl
  | some record =>
    have hrecord : (p.loads (p.line record) >>= p.modelValidate drawn.1 drawn.2) = .ok record := by
      rw [loads_line, hok]
      exact modelValidate_modelDump record _ _
    simp only [Option.map_some, hrecord]
    rfl

theorem Tidy.restart
    (h : Tidy p w records text) {drawn : Id × Time} (hclean : Clean p w (.restart drawn)) :
    Tidy p (step p w (.restart drawn)) records text := by
  have hload := loadLastRecordHash_line (p := p) hclean drawn
  rw [getLast?_recordHash] at hload
  have hstart : p.start drawn w.recorder.file =
      .ok ⟨w.recorder.file, lastHashFrom none w.returned, none, []⟩ := by
    unfold Platform.start
    rw [hload]
    rfl
  unfold step
  simp only [hstart]
  exact ⟨h.decoded, h.lines, h.kept, h.linked, rfl, rfl⟩

theorem Tidy.step (h : Tidy p w records text) {e : Event Id Time} (hclean : Clean p w e) :
    ∃ records' text', Tidy p (step p w e) records' text' := by
  cases e with
  | append call fate => exact h.append hclean
  | restart drawn => exact ⟨records, text, h.restart hclean⟩
  | index ids => exact ⟨records, text, h.decoded, h.lines, h.kept, h.linked, h.last, h.alive⟩

theorem readAll_decoded (drawn : ℕ → Id × Time) {content : Bytes}
    (h : utf8Decode content = .ok text) :
    p.readAll drawn (some content) = p.readLines drawn 1 (splitLines text) := by
  change ((utf8Decode content).mapError .raised >>= fun text => p.readLines drawn 1 (splitLines text)) = _
  rw [h]
  rfl

theorem Tidy.survives (h : Tidy p w records text) (drawn : ℕ → Id × Time) : Survives p drawn w := by
  refine ⟨⟨records, ?_, h.kept⟩, (verifyEvidenceChain_isValid _).mpr h.linked⟩
  have hread : p.readLines drawn 1 (splitLines text) = .ok records := by
    rw [h.lines]
    exact readLines_map drawn 1 records
  have hdecoded := h.decoded
  cases hfile : w.recorder.file with
  | none =>
    rw [hfile] at hdecoded
    rw [← Except.ok.inj (show Except.ok [] = _ from hdecoded)] at hread
    exact hread
  | some content =>
    rw [hfile, Option.getD_some] at hdecoded
    exact (readAll_decoded drawn hdecoded).trans hread

theorem tidy_foldl {events prior : List (Event Id Time)} (hprior : prior <+: events)
    (hclean : CleanRun p w events)
    (h : Tidy p w records text) :
    ∃ records' text', Tidy p (prior.foldl (step p) w) records' text' := by
  induction prior generalizing events w records text with
  | nil => exact ⟨records, text, h⟩
  | cons e prior ih =>
    obtain ⟨rest, rfl⟩ := hprior
    obtain ⟨hstep, hrest⟩ := hclean
    obtain ⟨records', text', htidy⟩ := h.step hstep
    exact ih (List.prefix_append prior rest) hrest htidy

def Event.Whole : Event Id Time → Prop
  | .append _ fate => fate = .done ∨ fate = .refused ∨ fate = .stops 0
  | _ => True

def Settled (p : Platform Id Time) (w : World Id Time) : Prop :=
  ∃ text, Tidy p w w.returned text ∧ Terminated text

theorem Settled.endsLine (h : Settled p w) : EndsLine w.recorder.file := by
  obtain ⟨text, htidy, hend⟩ := h
  intro text' htext'
  rw [htidy.decoded] at htext'
  rw [← Except.ok.inj htext']
  exact hend

theorem Settled.lastLineOf (h : Settled p w) :
    lastLineOf w.recorder.file = .ok (w.returned.getLast?.map p.line) := by
  obtain ⟨text, htidy, -⟩ := h
  have hdecoded := htidy.decoded
  have hlast : lastNonEmptyLine (splitLines text) = w.returned.getLast?.map p.line := by
    rw [htidy.lines, lastNonEmptyLine_map]
  cases hfile : w.recorder.file with
  | none =>
    rw [hfile] at hdecoded
    rw [← Except.ok.inj (show Except.ok [] = _ from hdecoded)] at hlast
    exact congrArg Except.ok hlast
  | some content =>
    rw [hfile, Option.getD_some] at hdecoded
    change (utf8Decode content >>= fun text => pure (lastNonEmptyLine (splitLines text))) = _
    rw [hdecoded]
    exact congrArg Except.ok hlast

theorem Settled.clean (h : Settled p w) {e : Event Id Time} (he : e.Whole) :
    Clean p w e := by
  cases e with
  | append call fate =>
    intro record _
    obtain rfl | rfl | rfl := he
    · exact h.endsLine
    · trivial
    · exact .inl rfl
  | restart drawn => exact h.lastLineOf
  | index ids => trivial

theorem Settled.append (h : Settled p w) {fate : WriteFate}
    (he : (Event.append call fate).Whole) : Settled p (step p w (.append call fate)) := by
  have hline := h.endsLine
  obtain ⟨text, htidy, hend⟩ := h
  have happend := append_end (p := p) call fate w.recorder
  rw [Evidence.step, if_pos htidy.alive]
  generalize p.append call fate w.recorder = result at happend
  cases happend with
  | nothing hfile hlast =>
    refine ⟨text, htidy.unreturned ?_ htidy.lines (List.Sublist.refl _) hlast, hend⟩
    rw [hfile]
    exact htidy.decoded
  | returned _ hnext hplain hfile hlast =>
    refine ⟨_, htidy.returned hline hnext hplain hfile hlast, ?_⟩
    rw [← List.append_assoc]
    exact terminated_concat _
  | stopped count hfate _ _ hfile hlast =>
    obtain rfl : count = 0 := by
      rw [hfate] at he
      simpa [Event.Whole] using he
    refine ⟨text, htidy.unreturned ?_ htidy.lines (List.Sublist.refl _) hlast, hend⟩
    rw [hfile, List.take_zero, List.append_nil]
    exact htidy.decoded

theorem Settled.step (h : Settled p w) {e : Event Id Time} (he : e.Whole) :
    Settled p (step p w e) := by
  cases e with
  | append call fate => exact h.append he
  | restart drawn =>
    have hreturned : (Evidence.step p w (.restart drawn)).returned = w.returned := by
      unfold Evidence.step
      simp only
      split <;> rfl
    have hclean := h.clean (e := .restart drawn) trivial
    obtain ⟨text, htidy, hend⟩ := h
    refine ⟨text, ?_, hend⟩
    rw [hreturned]
    exact htidy.restart hclean
  | index ids =>
    obtain ⟨text, htidy, hend⟩ := h
    exact ⟨text, ⟨htidy.decoded, htidy.lines, htidy.kept, htidy.linked, htidy.last, htidy.alive⟩, hend⟩

theorem cleanRun_of_whole {events : List (Event Id Time)} (h : ∀ e ∈ events, e.Whole)
    (hsettled : Settled p w) : CleanRun p w events := by
  induction events generalizing w with
  | nil => trivial
  | cons e events ih =>
    obtain ⟨he, hrest⟩ := List.forall_mem_cons.mp h
    exact ⟨hsettled.clean he, ih hrest (hsettled.step he)⟩

theorem plain_line (htype : Plain record.recordType.val)
    (hpayload : Plain record.payloadJson.val) (hpolicy : Plain record.policyVersion.val) :
    Plain (p.line record) := by
  refine plain_writeObject ?_
  unfold Platform.modelDump
  simp only [List.forall_mem_cons, List.not_mem_nil, false_imp_iff, implies_true, and_true]
  refine ⟨⟨plain_txt _, p.uuid_plain _⟩, ⟨plain_txt _, p.uuid_plain _⟩, ⟨plain_txt _, hpayload⟩,
    ⟨plain_txt _, plain_sha256Hex _⟩, ⟨plain_txt _, hpolicy⟩, ⟨plain_txt _, ?_⟩,
    ⟨plain_txt _, plain_sha256Hex _⟩, ⟨plain_txt _, htype⟩, ⟨plain_txt _, p.time_plain _⟩,
    plain_txt _, p.uuid_plain _⟩
  cases record.previousHash with
  | none => trivial
  | some h => exact plain_sha256Hex h

theorem loads_braces (depth : ℕ) (t : Str) :
    JsonLoads.loads (depth + 1) (cp '\x7b' :: cp '\x7b' :: t) = .error .valueError := by
  have hmark : (cp '\x7b' :: cp '\x7b' :: t).head? ≠ some (Fin.ofNat 0x110000 0xfeff) := by
    change some (cp '\x7b') ≠ _
    decide
  have hopen : skipBlanks (cp '\x7b' :: t) = cp '\x7b' :: t := skipBlanks_cons (by decide) _
  have hmember : readMember (readValue depth) (cp '\x7b' :: t) = .error .valueError := by
    unfold readMember
    rw [expect, if_neg (by decide)]
    rfl
  have hitems : readItems (readMember (readValue depth)) (cp '\x7d') (cp '\x7b' :: t) =
      .error .valueError := by
    unfold readItems
    rw [hopen]
    simp only
    rw [if_neg (by decide), readSequence, hmember]
    rfl
  unfold JsonLoads.loads
  rw [if_neg hmark, skipBlanks_cons (by decide), readValue, readNested, if_pos rfl, hitems]
  rfl

theorem line_braces (record : EvidenceRecord Id Time) :
    ∃ t, p.line record = cp '\x7b' :: (t ++ [cp '\x7d']) := by
  obtain ⟨m, rest, hdump⟩ : ∃ m rest, p.modelDump record = m :: rest := ⟨_, _, rfl⟩
  obtain ⟨t, ht⟩ := JsonDoc.writeMembers_last rest
  exact ⟨writeMember m ++ t, by rw [Platform.line, hdump, writeObject, ht, List.append_assoc]⟩

theorem readAll_glued (drawn : ℕ → Id × Time) {first second : EvidenceRecord Id Time}
    (hfirst : Plain (p.line first)) (hsecond : Plain (p.line second)) :
    p.readAll drawn (some (utf8 (p.line first ++ [cp '\n']) ++
      utf8 (cp '\x7b' :: p.line second ++ [cp '\n']))) = .error (.invalidJson 2) := by
  obtain ⟨t, ht⟩ := line_braces (p := p) second
  have hplain : Plain (p.line first ++ [cp '\n'] ++ (cp '\x7b' :: p.line second ++ [cp '\n'])) :=
    (hfirst.append (plain_singleton (isSurrogate_cp _))).append
      ((Plain.cons (isSurrogate_cp _) hsecond).append (plain_singleton (isSurrogate_cp _)))
  have hbreak : NoBreak (cp '\x7b' :: p.line second) :=
    List.forall_mem_cons.mpr ⟨by decide, noBreak_line second⟩
  have hlines : splitLines (p.line first ++ [cp '\n'] ++ (cp '\x7b' :: p.line second ++ [cp '\n'])) =
      [p.line first, cp '\x7b' :: p.line second] := by
    rw [splitLines_append (terminated_concat _), splitLines_line _ (noBreak_line first),
      splitLines_line _ hbreak]
    rfl
  have hstrip : strip (cp '\x7b' :: p.line second) = cp '\x7b' :: p.line second := by
    rw [ht]
    exact strip_braces (cp '\x7b' :: t)
  have hbad : p.readLines drawn 2 [cp '\x7b' :: p.line second] = .error (.invalidJson 2) := by
    have hloads : p.loads (cp '\x7b' :: p.line second) = .error .valueError := by
      rw [ht]
      exact loads_braces p.frames _
    rw [Platform.readLines, hstrip, if_neg (List.cons_ne_nil _ _), hloads]
    rfl
  have hne : strip (p.line first) ≠ [] := by
    rw [strip_line]
    exact line_ne_nil first
  have hread : p.readLines drawn 1 [p.line first, cp '\x7b' :: p.line second] =
      .error (.invalidJson 2) := by
    rw [Platform.readLines, if_neg hne, strip_line, loads_line]
    simp only [bind, Except.bind, modelValidate_modelDump, hbad]
  rw [← utf8_append, readAll_decoded drawn (utf8Decode_encode (utf8Encode_eq hplain)), hlines]
  exact hread

theorem step_append (halive : w.alive = true)
    (hnext : p.nextRecord call w.recorder.lastRecordHash = .ok record)
    (hplain : Plain (p.line record)) :
    (step p w (.append call .done)).recorder.file =
        some (w.recorder.file.getD [] ++ utf8 (p.line record ++ [cp '\n'])) ∧
      (step p w (.append call .done)).returned = w.returned ++ [record] ∧
      (step p w (.append call .done)).alive = true := by
  obtain ⟨r, happend, hfile, -⟩ := append_done hnext hplain
  rw [step, if_pos halive, happend]
  exact ⟨hfile, rfl, halive⟩

theorem step_torn (halive : w.alive = true)
    (hnext : p.nextRecord call w.recorder.lastRecordHash = .ok record)
    (hplain : Plain (p.line record)) (count : ℕ) :
    (step p w (.append call (.stops count))).recorder.file =
        some (w.recorder.file.getD [] ++ (utf8 (p.line record ++ [cp '\n'])).take count) ∧
      (step p w (.append call (.stops count))).recorder.lastRecordHash = w.recorder.lastRecordHash ∧
      (step p w (.append call (.stops count))).returned = w.returned ∧
      (step p w (.append call (.stops count))).alive = true := by
  rw [step, if_pos halive, append_writeError hnext (writeLine_plain hplain w.recorder (.stops count))]
  exact ⟨rfl, rfl, rfl, halive⟩

theorem take_line_one (record : EvidenceRecord Id Time) :
    (utf8 (p.line record ++ [cp '\n'])).take 1 = utf8 [cp '\x7b'] := by
  obtain ⟨t, ht⟩ := line_braces (p := p) record
  have hlength : (utf8 [cp '\x7b']).length = 1 := by decide
  rw [ht, List.cons_append, ← List.singleton_append, utf8_append]
  exact List.take_left' hlength

def tornRun (call : AppendCall Id Time) : List (Event Id Time) :=
  [.append call .done, .append call (.stops 1), .append call .done]

theorem readAll_tornRun (drawn : ℕ → Id × Time)
    (hcall : ∀ previousHash, ∃ record, p.nextRecord call previousHash = .ok record ∧ Plain (p.line record)) :
    (run p (tornRun call)).returned.length = 2 ∧
      p.readAll drawn (run p (tornRun call)).recorder.file = .error (.invalidJson 2) := by
  change (step p (step p (step p World.fresh (.append call .done)) (.append call (.stops 1)))
    (.append call .done)).returned.length = 2 ∧ p.readAll drawn (step p (step p (step p World.fresh
      (.append call .done)) (.append call (.stops 1))) (.append call .done)).recorder.file = _
  obtain ⟨first, hfirst, hplainFirst⟩ := hcall none
  obtain ⟨hfile, hreturned, halive⟩ := step_append (w := World.fresh) rfl hfirst hplainFirst
  generalize step p World.fresh (.append call .done) = w at hfile hreturned halive
  obtain ⟨second, hsecond, hplainSecond⟩ := hcall w.recorder.lastRecordHash
  obtain ⟨htorn, hlast, hkept, halive'⟩ := step_torn halive hsecond hplainSecond 1
  generalize step p w (.append call (.stops 1)) = w' at htorn hlast hkept halive'
  rw [← hlast] at hsecond
  obtain ⟨hfile', hreturned', -⟩ := step_append halive' hsecond hplainSecond
  refine ⟨?_, ?_⟩
  · rw [hreturned', hkept, hreturned]
    rfl
  · have hbytes : w'.recorder.file = some (utf8 (p.line first ++ [cp '\n']) ++ utf8 [cp '\x7b']) := by
      rw [htorn, take_line_one, hfile]
      rfl
    rw [hfile', hbytes, Option.getD_some, List.append_assoc, ← utf8_append]
    exact readAll_glued drawn hplainFirst hplainSecond

theorem plain_strip {s : Str} (h : Plain s) : Plain (strip s) := fun c hc =>
  h c ((List.dropWhile_suffix isspace).subset ((List.rdropWhile_prefix isspace _).subset hc))

theorem bareCall_next (p : Platform Id Time) (call : AppendCall Id Time) (hpayload : call.payload = [])
    (hsigner : call.chainSigner = none) {decisionId requestId : Id}
    (hdecision : p.uuid call.decisionId = .ok decisionId) (hrequest : p.uuid call.requestId = .ok requestId)
    {recordType policyVersion : FieldText 1 (some 100)}
    (htype : requiredText 1 (some 100) call.recordType = .ok recordType)
    (hversion : requiredText 1 (some 100) call.policyVersion = .ok policyVersion)
    (previousHash : Option Sha256Hex) : ∃ record, p.nextRecord call previousHash = .ok record := by
  have hplain : Plain (lit ['\x7b', '\x7d']) := fun c hc => by
    obtain ⟨d, -, rfl⟩ := List.mem_map.mp hc
    exact isSurrogate_cp d
  have hjson : p.stableJson (.obj []) = .ok (lit ['\x7b', '\x7d']) := by
    unfold Platform.stableJson
    rw [if_neg (by decide), if_pos (by simp [nesting, nestingMembers])]
    rfl
  have hsafe : (p.signPayload none call.signedAt (Dict.ofItems (safeMembers []))).items = [] := rfl
  have hsha : sha256Hex (lit ['\x7b', '\x7d']) = .ok (hexDigest (utf8 (lit ['\x7b', '\x7d']))) :=
    sha256Hex_ok_iff.mpr ⟨hplain, rfl⟩
  obtain ⟨payloadJson, hbraces⟩ : ∃ t, requiredText 2 none (lit ['\x7b', '\x7d']) = .ok t :=
    ⟨_, dif_pos (by decide)⟩
  have hok : ∀ {α β : Type} (a : α) (f : α → Except PyErr β), (Except.ok a >>= f) = f a :=
    fun _ _ => rfl
  unfold Platform.nextRecord
  simp only [hpayload, hsigner, hsafe, hjson, hok, hsha, buildRecordHash_eq, hdecision, hrequest, htype,
    hversion, hbraces]
  exact ⟨_, rfl⟩

def sampleUuid : Str := txt "7c9e6679-7425-40de-944b-e07fc1f90ae7"

def sampleTime : Str := txt "2026-01-05T09:30:00Z"

def samplePlatform : Platform Unit Unit where
  frames := 20
  uuidText _ := sampleUuid
  uuidOf s := if s = sampleUuid then some () else none
  timeText _ := sampleTime
  timeOf v := if PyValue.isText v sampleTime then some () else none
  uuid_back _ := if_pos rfl
  uuid_plain _ := plain_txt _
  time_back _ := if_pos (PyValue.isText_iff.mpr rfl)
  time_plain _ := plain_txt _

def sampleCall : AppendCall Unit Unit where
  decisionId := .uuid ()
  requestId := .uuid ()
  recordType := txt "decision"
  policyVersion := txt "1"
  payload := []
  evidenceId := ()
  recordedAt := ()
  chainSigner := none
  signedAt := []
  mirrorRaises := false

theorem sampleCall_next (previousHash : Option Sha256Hex) : ∃ record,
    samplePlatform.nextRecord sampleCall previousHash = .ok record ∧ Plain (samplePlatform.line record) := by
  have huuid : samplePlatform.uuid (.uuid ()) = .ok () := rfl
  obtain ⟨recordType, htype⟩ : ∃ t, requiredText 1 (some 100) (txt "decision") = .ok t :=
    ⟨_, dif_pos (by decide)⟩
  obtain ⟨policyVersion, hversion⟩ : ∃ t, requiredText 1 (some 100) (txt "1") = .ok t :=
    ⟨_, dif_pos (by decide)⟩
  obtain ⟨record, hrecord⟩ :=
    bareCall_next samplePlatform sampleCall rfl rfl huuid huuid htype hversion previousHash
  obtain ⟨hsound, -, hrecordType, hpolicyVersion⟩ := nextRecord_ok hrecord
  refine ⟨record, hrecord, plain_line ?_ hsound.plain ?_⟩
  · rw [hrecordType]
    exact plain_strip (plain_txt _)
  · rw [hpolicyVersion]
    exact plain_strip (plain_txt _)

theorem torn_write_unreadable : (run samplePlatform (tornRun sampleCall)).returned.length = 2 ∧
    ¬Survives samplePlatform (fun _ => ((), ())) (run samplePlatform (tornRun sampleCall)) := by
  obtain ⟨hlength, hread⟩ := readAll_tornRun (fun _ => ((), ())) sampleCall_next
  refine ⟨hlength, ?_⟩
  rintro ⟨⟨records, hrecords, -⟩, -⟩
  rw [hread] at hrecords
  cases hrecords

/-- In a run of clean steps the log survives in every state. -/
theorem evidence_log_survives (drawn : ℕ → Id × Time) {events prior : List (Event Id Time)}
    (hclean : CleanRun p World.fresh events) (hprior : prior <+: events) :
    Survives p drawn (run p prior) := by
  obtain ⟨records, text, htidy⟩ := tidy_foldl hprior hclean tidy_fresh
  exact htidy.survives drawn

def wholeRun : List (Event Unit Unit) :=
  [.append sampleCall .done, .append sampleCall (.stops 0), .restart ((), ()), .append sampleCall .done]

theorem evidence_log_survives_sample :
    Survives samplePlatform (fun _ => ((), ())) (run samplePlatform wholeRun) := by
  have hwhole : ∀ e ∈ wholeRun, e.Whole := by simp [wholeRun, Event.Whole]
  have hclean : CleanRun samplePlatform World.fresh wholeRun :=
    cleanRun_of_whole hwhole ⟨[], tidy_fresh, terminated_nil⟩
  exact evidence_log_survives _ hclean (List.prefix_refl _)

end TexGovernance.Evidence

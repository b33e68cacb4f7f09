import Hummingbird.Json.Integers
import Hummingbird.Json.Verbatim
import Hummingbird.Logging.Escape

/-!
The line that the JSON sink prints for a log record. The message and the values of the fields
are escaped into one buffer of the sink and printed from there; the file and the keys are printed
as they are. The line is put against a row of members between braces, whose texts are known up to
these two.
-/

namespace Hummingbird

def hbiLogMsgCap : Nat := 1024

/-- Size of the buffer of the sink. -/
def sinkEscCap : Nat := hbiLogMsgCap * 2

/-- The characters of a string of a record. -/
abbrev LogText := {s : List UInt8 // 0 ∉ s}

/-- `hbi_log_field`. -/
structure LogField where
  key : Option LogText
  value : Option LogText

/-- `hbi_log_record`. -/
structure LogRecord where
  level : Int
  timeNs : UInt64
  threadId : UInt64
  file : Option LogText
  line : Int32
  message : Option LogText
  fields : List LogField

/-- What the buffer on the stack holds before the call. -/
abbrev EscBuffer := {buf : List UInt8 // buf.length = sinkEscCap}

def logLevelNames : List String := ["trace", "debug", "info", "warn", "error", "profiling"]

def hbiLogLevelStr (level : Int) : String :=
  if level < 0 ∨ level ≥ logLevelNames.length then "?" else logLevelNames.getD level.toNat "?"

/-- `s ? s : "?"`. -/
def textOrMark (s : Option LogText) : List UInt8 := s.elim (bytes "?") Subtype.val

/-- The loop over the fields: what it prints. -/
def sinkFields : Nat → List LogField → List UInt8 → Except CStrings.Fault (List UInt8)
  | _, [], _ => .ok []
  | i, f :: fields, esc => do
      let esc ← jsonEscape (f.value.map Subtype.val) esc sinkEscCap
      let value ← CStrings.text 0 esc 0
      let rest ← sinkFields (i + 1) fields esc
      return (if i = 0 then [] else bytes ",") ++ bytes "\"" ++ textOrMark f.key ++
        bytes "\":\"" ++ value ++ bytes "\"" ++ rest

/-- `hbi_log_sink_json`: what it prints. -/
def hbiLogSinkJson (r : LogRecord) (esc : List UInt8) : Except CStrings.Fault (List UInt8) := do
  let esc ← jsonEscape (r.message.map Subtype.val) esc sinkEscCap
  let msg ← CStrings.text 0 esc 0
  let fields ← sinkFields 0 r.fields esc
  return bytes "\x7b\"level\":\"" ++ bytes (hbiLogLevelStr r.level) ++ bytes "\",\"time_ns\":" ++
    decimal r.timeNs.toNat ++ bytes ",\"tid\":" ++ decimal r.threadId.toNat ++
    bytes ",\"file\":\"" ++ textOrMark r.file ++ bytes "\",\"line\":" ++ decimal r.line.toInt ++
    bytes ",\"msg\":\"" ++ msg ++ bytes "\"" ++
    (if r.fields.length > 0 then bytes ",\"fields\":\x7b" ++ fields ++ bytes "\x7d" else []) ++
    bytes "\x7d\n"

def LogField.keyText (f : LogField) : List UInt8 := textOrMark f.key

def LogField.valueText (f : LogField) : List UInt8 := f.value.elim [] Subtype.val

def LogRecord.fileText (r : LogRecord) : List UInt8 := textOrMark r.file

def LogRecord.messageText (r : LogRecord) : List UInt8 := r.message.elim [] Subtype.val

/-- What a reader may be shown of a string that is escaped into the buffer of the sink. -/
def ShownAs (s t : List UInt8) : Prop := t <+: s ∧ (EscapeFits s sinkEscCap → t = s)

/-- A document gives the record back. -/
structure LogRecord.ReadAs (r : LogRecord) (v : JsonValue) : Prop where
  file : hbiJsonAsString (hbiJsonObjectGet (some v) (bytes "file")) = some r.fileText
  msg : ∃ msg, hbiJsonAsString (hbiJsonObjectGet (some v) (bytes "msg")) = some msg ∧
    ShownAs r.messageText msg
  keys : (hbiJsonMembers (hbiJsonObjectGet (some v) (bytes "fields"))).map Prod.fst =
    r.fields.map LogField.keyText
  values : List.Forall₂
    (fun m f => ∃ value, hbiJsonAsString (some m.2) = some value ∧ ShownAs f.valueText value)
    (hbiJsonMembers (hbiJsonObjectGet (some v) (bytes "fields"))) r.fields

/-! The line as a row of members. -/

/-- The part of a string that the sink shows. -/
def shownPart (s : List UInt8) : List UInt8 := escapeKept sinkEscCap 0 s

def LogField.memberText (f : LogField) : List UInt8 :=
  Hummingbird.memberText f.keyText (quoted (escapedText (shownPart f.valueText)))

namespace LogRecord

variable (r : LogRecord)

/-- The members in front of the file. -/
def originTexts : List (List UInt8) :=
  [memberText (bytes "level") (quoted (bytes (hbiLogLevelStr r.level))),
    memberText (bytes "time_ns") (decimal r.timeNs.toNat),
    memberText (bytes "tid") (decimal r.threadId.toNat)]

def fileMember : List UInt8 := memberText (bytes "file") (quoted r.fileText)

def lineMember : List UInt8 := memberText (bytes "line") (decimal r.line.toInt)

def msgMember : List UInt8 :=
  memberText (bytes "msg") (quoted (escapedText (shownPart r.messageText)))

/-- The member with the fields, when there are some. -/
def fieldsMember : List (List UInt8) :=
  match r.fields with
  | [] => []
  | f :: fields => [memberText (bytes "fields") (braced ((f :: fields).map LogField.memberText))]

def lineText : List UInt8 :=
  braced (r.originTexts ++ r.fileMember :: r.lineMember :: r.msgMember :: r.fieldsMember)

end LogRecord

/-! What the sink prints is that line. -/

/-- One use of the buffer. -/
theorem escape_shown (s : Option LogText) {esc : List UInt8} (hesc : esc.length = sinkEscCap) :
    ∃ esc', jsonEscape (s.map Subtype.val) esc sinkEscCap = .ok esc' ∧
      esc'.length = sinkEscCap ∧
      CStrings.text 0 esc' 0 = .ok (escapedText (shownPart (s.elim [] Subtype.val))) := by
  have hzero : 0 ∉ s.elim [] Subtype.val := by
    cases s with
    | none => exact List.not_mem_nil
    | some s => exact s.2
  have hnull : jsonEscape (s.map Subtype.val) esc sinkEscCap =
      jsonEscape (some (s.elim [] Subtype.val)) esc sinkEscCap := by
    cases s <;> rfl
  obtain ⟨tail, hescape, hlen⟩ := @jsonEscape_eq _ esc hzero (by rw [hesc]; decide)
  rw [hesc] at hescape hlen
  exact ⟨_, hnull.trans hescape, hlen,
    CStrings.Holds.text_eq ⟨List.drop_zero, zero_notMem_escapeKept hzero _ _⟩⟩

theorem sinkFields_cons (i : Nat) (f : LogField) (fields : List LogField) {esc : List UInt8}
    (hesc : esc.length = sinkEscCap) :
    ∃ esc', esc'.length = sinkEscCap ∧ sinkFields i (f :: fields) esc =
      (sinkFields (i + 1) fields esc').map
        fun rest => (if i = 0 then [] else bytes ",") ++ f.memberText ++ rest := by
  obtain ⟨esc', hescape, hlen, htext⟩ := escape_shown f.value hesc
  refine ⟨esc', hlen, ?_⟩
  have hquote : bytes "\"" = [byte '"'] := rfl
  have hcolon : bytes "\":\"" = [byte '"', byte ':', byte '"'] := rfl
  rw [sinkFields, hescape]
  simp only [bind, Except.bind]
  rw [htext]
  cases sinkFields (i + 1) fields esc' with
  | error fault => rfl
  | ok rest => simp [Except.map, pure, Except.pure, hquote, hcolon, LogField.memberText,
      memberText, quoted, LogField.keyText, LogField.valueText]

/-- Behind the first field every one of them has a comma in front. -/
theorem sinkFields_succ (i : Nat) (fields : List LogField) {esc : List UInt8}
    (hesc : esc.length = sinkEscCap) :
    sinkFields (i + 1) fields esc =
      .ok ((fields.map LogField.memberText).flatMap (byte ',' :: ·)) := by
  induction fields generalizing i esc with
  | nil => rfl
  | cons f fields ih =>
      obtain ⟨esc', hesc', hcons⟩ := sinkFields_cons (i + 1) f fields hesc
      rw [hcons, ih (i + 1) hesc', if_neg (Nat.succ_ne_zero i)]
      rfl

theorem sinkFields_zero (fields : List LogField) {esc : List UInt8}
    (hesc : esc.length = sinkEscCap) :
    sinkFields 0 fields esc = .ok (commaJoin (fields.map LogField.memberText)) := by
  cases fields with
  | nil => rfl
  | cons f fields =>
      obtain ⟨esc', hesc', hcons⟩ := sinkFields_cons 0 f fields hesc
      rw [hcons, sinkFields_succ 0 fields hesc', if_pos rfl]
      rfl

theorem hbiLogSinkJson_eq (r : LogRecord) (esc : EscBuffer) :
    hbiLogSinkJson r esc.1 = .ok (r.lineText ++ bytes "\n") := by
  obtain ⟨esc', hescape, hlen, htext⟩ := escape_shown r.message esc.2
  unfold hbiLogSinkJson
  rw [hescape]
  simp only [bind, Except.bind]
  rw [htext]
  dsimp only
  rw [sinkFields_zero r.fields hlen]
  have hlevel : bytes "\x7b\"level\":\"" =
    byte '\x7b' :: byte '"' :: (bytes "level" ++ bytes "\":\"") := rfl
  have htime : bytes "\",\"time_ns\":" = bytes "\",\"" ++ (bytes "time_ns" ++ bytes "\":") := rfl
  have htid : bytes ",\"tid\":" = bytes ",\"" ++ (bytes "tid" ++ bytes "\":") := rfl
  have hfile : bytes ",\"file\":\"" = bytes ",\"" ++ (bytes "file" ++ bytes "\":\"") := rfl
  have hline : bytes "\",\"line\":" = bytes "\",\"" ++ (bytes "line" ++ bytes "\":") := rfl
  have hmsg : bytes ",\"msg\":\"" = bytes ",\"" ++ (bytes "msg" ++ bytes "\":\"") := rfl
  have hfields : bytes ",\"fields\":\x7b" =
    bytes ",\"" ++ (bytes "fields" ++ (bytes "\":" ++ [byte '\x7b'])) := rfl
  have hend : bytes "\x7d\n" = byte '\x7d' :: bytes "\n" := rfl
  have hquote : bytes "\"" = [byte '"'] := rfl
  have hclose : bytes "\x7d" = [byte '\x7d'] := rfl
  have hcolon : bytes "\":" = [byte '"', byte ':'] := rfl
  have hopen : bytes "\":\"" = [byte '"', byte ':', byte '"'] := rfl
  have hcomma : bytes ",\"" = [byte ',', byte '"'] := rfl
  have hboth : bytes "\",\"" = [byte '"', byte ',', byte '"'] := rfl
  rw [hlevel, htime, htid, hfile, hline, hmsg, hfields, hend]
  unfold LogRecord.lineText LogRecord.fieldsMember
  cases r.fields with
  | nil => simp [pure, Except.pure, LogRecord.originTexts, LogRecord.fileMember,
      LogRecord.lineMember, LogRecord.msgMember, braced, commaJoin, memberText, quoted,
      LogRecord.fileText, LogRecord.messageText, hquote, hcolon, hopen, hcomma, hboth]
  | cons f fields => simp [pure, Except.pure, LogRecord.originTexts, LogRecord.fileMember,
      LogRecord.lineMember, LogRecord.msgMember, braced, commaJoin, memberText, quoted,
      LogRecord.fileText, LogRecord.messageText, hquote, hcolon, hopen, hcomma, hboth, hclose]

/-! The line in the grammar. -/

/-- The member that a reader gets for a field. -/
def LogField.member (f : LogField) : List UInt8 × JsonValue :=
  (f.keyText, .string (shownPart f.valueText))

namespace LogRecord

variable (r : LogRecord)

def originMembers : List (List UInt8 × JsonValue) :=
  [(bytes "level", .string (bytes (hbiLogLevelStr r.level))),
    (bytes "time_ns", .number (IntegerLiteral.ofInt r.timeNs.toNat).nearest),
    (bytes "tid", .number (IntegerLiteral.ofInt r.threadId.toNat).nearest)]

def fileEntry : List UInt8 × JsonValue := (bytes "file", .string r.fileText)

def lineEntry : List UInt8 × JsonValue :=
  (bytes "line", .number (IntegerLiteral.ofInt r.line.toInt).nearest)

def msgEntry : List UInt8 × JsonValue := (bytes "msg", .string (shownPart r.messageText))

def fieldsEntry : List (List UInt8 × JsonValue) :=
  match r.fields with
  | [] => []
  | f :: fields => [(bytes "fields", .object ((f :: fields).map LogField.member))]

/-- The members that a reader gets for a record. -/
def members : List (List UInt8 × JsonValue) :=
  r.originMembers ++ r.fileEntry :: r.lineEntry :: r.msgEntry :: r.fieldsEntry

end LogRecord

theorem verbatim_bytes {text : String}
    (h : ((bytes text).all fun c => decide (0x20 ≤ c ∧ c ≠ byte '"' ∧ c ≠ byte '\\')) = true) :
    Verbatim (bytes text) :=
  forall_mem_of_all h

theorem isValue_quoted {s : List UInt8} (h : Verbatim s) : IsValue (quoted s) (.string s) :=
  .string h.isString

theorem isValue_escaped (s : List UInt8) :
    IsValue (quoted (escapedText (shownPart s))) (.string (shownPart s)) :=
  .string (isString_escaped _)

theorem isValue_decimal {n : Int} (h : n.natAbs < 2 ^ 64) :
    IsValue (decimal n) (.number (IntegerLiteral.ofInt n).nearest) :=
  .number (IntegerLiteral.isNumber_ofInt h)

theorem verbatim_level (level : Int) : Verbatim (bytes (hbiLogLevelStr level)) := by
  have hall : ∀ name ∈ "?" :: logLevelNames, Verbatim (bytes name) := by
    have hcheck : (("?" :: logLevelNames).all fun name =>
        (bytes name).all fun c => decide (0x20 ≤ c ∧ c ≠ byte '"' ∧ c ≠ byte '\\')) = true := by
      decide +kernel
    exact fun name hname => verbatim_bytes (List.all_eq_true.mp hcheck name hname)
  apply hall
  unfold hbiLogLevelStr
  split_ifs with hrange
  · exact List.mem_cons_self
  · rw [List.getD_eq_getElem _ _ (by omega)]
    exact List.mem_cons_of_mem _ (List.getElem_mem _)

theorem isMember_field {f : LogField} (h : Verbatim f.keyText) :
    IsMember f.memberText f.member :=
  isMember_text h (isValue_escaped _)

namespace LogRecord

variable (r : LogRecord)

theorem origin_known : List.Forall₂ IsMember r.originTexts r.originMembers := by
  have hnat : ∀ n : UInt64, (n.toNat : Int).natAbs < 2 ^ 64 := fun n => n.toNat_lt
  refine .cons ?_ (.cons ?_ (.cons ?_ .nil))
  · exact isMember_text (verbatim_bytes (by decide)) (isValue_quoted (verbatim_level _))
  · exact isMember_text (verbatim_bytes (by decide)) (isValue_decimal (hnat _))
  · exact isMember_text (verbatim_bytes (by decide)) (isValue_decimal (hnat _))

theorem file_known (h : Verbatim r.fileText) : IsMember r.fileMember r.fileEntry :=
  isMember_text (verbatim_bytes (by decide)) (isValue_quoted h)

theorem line_known : IsMember r.lineMember r.lineEntry := by
  refine isMember_text (verbatim_bytes (by decide)) (isValue_decimal ?_)
  have hlo := r.line.le_toInt
  have hhi := r.line.toInt_lt
  omega

theorem msg_known : IsMember r.msgMember r.msgEntry :=
  isMember_text (verbatim_bytes (by decide)) (isValue_escaped _)

/-- The members in front of the fields are known when the file is. -/
theorem head_known (hfile : Verbatim r.fileText) :
    List.Forall₂ IsMember (r.originTexts ++ [r.fileMember, r.lineMember, r.msgMember])
      (r.originMembers ++ [r.fileEntry, r.lineEntry, r.msgEntry]) :=
  List.rel_append r.origin_known
    (.cons (r.file_known hfile) (.cons r.line_known (.cons r.msg_known .nil)))

/-- The line is a text of the grammar when the file and the keys are. -/
theorem isValue_line (hfile : Verbatim r.fileText) (hkeys : ∀ f ∈ r.fields, Verbatim f.keyText) :
    IsValue r.lineText (.object r.members) := by
  have hfields : List.Forall₂ IsMember r.fieldsMember r.fieldsEntry := by
    unfold fieldsMember fieldsEntry
    cases hr : r.fields with
    | nil => exact .nil
    | cons f fields =>
        rw [hr] at hkeys
        refine .cons (isMember_text (verbatim_bytes (by decide)) (isValue_braced ?_ ?_)) .nil
        · rw [List.forall₂_map_left_iff, List.forall₂_map_right_iff, List.forall₂_same]
          exact fun g hg => isMember_field (hkeys g hg)
        · exact List.cons_ne_nil _ _
  refine isValue_braced ?_ (by simp)
  exact List.rel_append r.origin_known
    (.cons (r.file_known hfile) (.cons r.line_known (.cons r.msg_known hfields)))

/-- Behind a common row of keys. -/
theorem keys_ne {front : List (List UInt8 × JsonValue)} {keys : List String} {key : String}
    (hkeys : front.map Prod.fst = keys.map bytes)
    (h : (keys.all fun k => decide (cString (bytes k) ≠ cString (bytes key))) = true) :
    ∀ k ∈ front.map Prod.fst, cString k ≠ cString (bytes key) := by
  intro k hk
  rw [hkeys] at hk
  obtain ⟨name, hname, rfl⟩ := List.mem_map.mp hk
  simpa using List.all_eq_true.mp h name hname

theorem nesting_head {m : List UInt8 × JsonValue}
    (h : m ∈ r.originMembers ++ [r.fileEntry, r.lineEntry, r.msgEntry]) : m.2.nesting = 0 := by
  simp only [originMembers, fileEntry, lineEntry, msgEntry, List.mem_append, List.mem_cons,
    List.not_mem_nil, or_false] at h
  rcases h with (rfl | rfl | rfl) | rfl | rfl | rfl <;> rfl

theorem nesting_fields (fields : List LogField) :
    (JsonValue.object (fields.map LogField.member)).nesting ≤ 1 := by
  refine nesting_object_le fun m hm => ?_
  obtain ⟨f, -, rfl⟩ := List.mem_map.mp hm
  exact le_rfl

theorem members_split :
    r.members = (r.originMembers ++ [r.fileEntry, r.lineEntry, r.msgEntry]) ++ r.fieldsEntry := by
  simp [members]

theorem nesting_members : (JsonValue.object r.members).nesting ≤ 2 := by
  refine nesting_object_le fun m hm => ?_
  rw [members_split] at hm
  rcases List.mem_append.mp hm with hm | hm
  · rw [r.nesting_head hm]
    exact Nat.zero_le 1
  · unfold fieldsEntry at hm
    split at hm
    · cases hm
    · obtain rfl := List.mem_singleton.mp hm
      exact nesting_fields _

end LogRecord

/-! What a reader gets. -/

theorem zero_notMem_textOrMark (s : Option LogText) : 0 ∉ textOrMark s := by
  cases s with
  | none => exact (by decide : 0 ∉ bytes "?")
  | some s => exact s.2

theorem shownPart_shownAs (s : List UInt8) : ShownAs s (shownPart s) :=
  ⟨escapeKept_isPrefix _ _ s, fun h => escapeKept_of_fits (by simpa [EscapeFits] using h)⟩

theorem cString_shownPart (s : Option LogText) :
    cString (shownPart (s.elim [] Subtype.val)) = shownPart (s.elim [] Subtype.val) := by
  apply cString_of_notMem
  intro hmem
  have hzero := (escapeKept_isPrefix _ _ _).subset hmem
  cases s with
  | none => cases hzero
  | some s => exact s.2 hzero

theorem hbiJsonMembers_fields (fields : List LogField) :
    hbiJsonMembers (some (.object (fields.map LogField.member))) = fields.map LogField.member := by
  unfold hbiJsonMembers
  dsimp only
  rw [List.map_map]
  apply List.map_congr_left
  intro f _
  exact Prod.ext (cString_of_notMem (zero_notMem_textOrMark f.key)) rfl

namespace LogRecord

variable (r : LogRecord)

theorem readAs_members : r.ReadAs (.object r.members) := by
  have hfields : (hbiJsonMembers (hbiJsonObjectGet (some (.object r.members)) (bytes "fields"))) =
      r.fields.map LogField.member := by
    have hfront := @keys_ne (r.originMembers ++ [r.fileEntry, r.lineEntry, r.msgEntry])
      ["level", "time_ns", "tid", "file", "line", "msg"] "fields" rfl (by decide)
    rw [members_split]
    unfold fieldsEntry
    cases r.fields with
    | nil =>
        rw [List.append_nil, hbiJsonObjectGet_none hfront]
        rfl
    | cons f fields =>
        rw [hbiJsonObjectGet_append hfront rfl]
        exact hbiJsonMembers_fields (f :: fields)
  refine ⟨?_, ?_, ?_, ?_⟩
  · have hfront := @keys_ne r.originMembers ["level", "time_ns", "tid"] "file" rfl (by decide)
    rw [members, hbiJsonObjectGet_append hfront rfl]
    exact congrArg some (cString_of_notMem (zero_notMem_textOrMark r.file))
  · have hfront := @keys_ne (r.originMembers ++ [r.fileEntry, r.lineEntry])
      ["level", "time_ns", "tid", "file", "line"] "msg" rfl (by decide)
    have hsplit : r.members = (r.originMembers ++ [r.fileEntry, r.lineEntry]) ++
        r.msgEntry :: r.fieldsEntry := by
      simp [members]
    rw [hsplit, hbiJsonObjectGet_append hfront rfl]
    exact ⟨_, congrArg some (cString_shownPart r.message), shownPart_shownAs _⟩
  · rw [hfields, List.map_map]
    rfl
  · rw [hfields, List.forall₂_map_left_iff, List.forall₂_same]
    intro f _
    exact ⟨_, congrArg some (cString_shownPart f.value), shownPart_shownAs _⟩

/-- A line that the reader accepts comes from the braces and the members it is made of. -/
theorem parsed_members {v : JsonValue} (h : hbiJsonParse r.lineText = some (.ok v)) :
    ∃ (p : JsonParser r.lineText) (members : List (List UInt8 × JsonValue)),
      v = .object members ∧ p.depth = 1 ∧
      ObjectRun (parseValue hbiJsonMaxDepth) p [] members ∧
      p.rest = commaJoin (r.originTexts ++ r.fileMember :: r.lineMember :: r.msgMember ::
        r.fieldsMember) ++ [byte '\x7d'] := by
  unfold hbiJsonParse at h
  split at h
  · cases h
  split at h
  · cases h
  split at h
  · cases h
  · cases h
  · rename_i root q hroot
    dsimp only at h
    split at h
    · cases h
      obtain ⟨n, p, members, hfuel, hrest, hdepth, rfl, hrun⟩ :=
        parseValue_brace hroot (JsonParser.start_rest r.lineText)
      obtain rfl : hbiJsonMaxDepth = n := Nat.succ.inj hfuel
      exact ⟨p, members, rfl, hdepth, hrun, hrest⟩
    · cases h

/-- The file that a reader gets is read from where the file is printed. -/
theorem file_verbatim {p : JsonParser r.lineText} {members : List (List UInt8 × JsonValue)}
    {t : List UInt8} (hrun : ObjectRun (parseValue hbiJsonMaxDepth) p r.originMembers members)
    (hrest : p.rest = r.fileMember ++ t)
    (hfile : hbiJsonAsString (hbiJsonObjectGet (some (.object members)) (bytes "file")) =
      some r.fileText) : Verbatim r.fileText := by
  obtain ⟨m, q, hmember, rest, rfl⟩ := hrun.next
  obtain ⟨hkey, p', hrest', -, hvalue⟩ := parseMember_value (t := r.fileText ++ byte '"' :: t)
    (c := byte '"') hmember (@verbatim_bytes "file" (by decide)).isString (by decide)
    (by rw [hrest]; simp [fileMember, memberText, quoted])
  obtain ⟨p'', s, hrest'', hparse, hs⟩ := parseValue_quote hvalue hrest'
  have hfront := @keys_ne r.originMembers ["level", "time_ns", "tid"] "file" rfl (by decide)
  rw [List.append_assoc, List.singleton_append, hbiJsonObjectGet_append hfront (by rw [hkey]), hs]
    at hfile
  exact parseStringRaw_verbatim hparse hrest'' (Option.some.inj hfile)

end LogRecord

/-- The keys that a reader gets are read from where the keys are printed. -/
theorem keys_verbatim {buf : List UInt8} {fuel depth : Nat} (fields : List LogField)
    (hvalue : ValueParser.Complete (@parseValue buf fuel) depth) (hdepth : depth < hbiJsonMaxDepth)
    {p : JsonParser buf} {acc members : List (List UInt8 × JsonValue)} {t : List UInt8}
    (hrun : ObjectRun (parseValue fuel) p acc members) (hd : p.depth = depth)
    (hrest : p.rest = commaJoin (fields.map LogField.memberText) ++ t)
    (hkeys : members.map (fun m => cString m.1) =
      acc.map (fun m => cString m.1) ++ fields.map LogField.keyText) :
    ∀ f ∈ fields, Verbatim f.keyText := by
  induction fields generalizing p acc with
  | nil => exact fun f hf => absurd hf List.not_mem_nil
  | cons f fields ih =>
      have hself : cString f.keyText = f.keyText :=
        cString_of_notMem (zero_notMem_textOrMark f.key)
      obtain ⟨m, q, hmember, rest, hmembers⟩ := hrun.next
      have hkey : cString m.1 = f.keyText := by
        rw [← hmembers] at hkeys
        simp only [List.map_append, List.map_cons, List.append_assoc,
          List.append_cancel_left_eq, List.singleton_append] at hkeys
        exact (List.cons.inj hkeys).1
      have hfirst := hrest
      rw [List.map_cons, LogField.memberText, commaJoin_memberText, quoted_append] at hfirst
      obtain ⟨p', q', hrest', hparse⟩ := parseMember_key hmember hfirst
      have hf := parseStringRaw_verbatim hparse hrest' hkey
      refine List.forall_mem_cons.mpr ⟨hf, ?_⟩
      cases fields with
      | nil => exact fun f hf => absurd hf List.not_mem_nil
      | cons g fields =>
          obtain ⟨q, hrunq, hdq, hrestq⟩ := ObjectRun.walk (.cons (isMember_field hf) .nil) hvalue
            (List.forall_mem_singleton.mpr hdepth) hrun hd hrest
          refine ih hrunq hdq hrestq ?_
          rw [hkeys, List.map_append, List.append_assoc]
          congr 1
          exact congrArg (· :: _) hself.symm

/-- The keys of a record that a reader gets back are verbatim. -/
theorem LogRecord.keys_verbatim (r : LogRecord) {p : JsonParser r.lineText}
    {members : List (List UInt8 × JsonValue)} (hfile : Verbatim r.fileText)
    (hrun : ObjectRun (parseValue hbiJsonMaxDepth) p [] members) (hd : p.depth = 1)
    (hrest : p.rest = commaJoin (r.originTexts ++ r.fileMember :: r.lineMember :: r.msgMember ::
      r.fieldsMember) ++ [byte '\x7d'])
    (hkeys : (hbiJsonMembers (hbiJsonObjectGet (some (.object members)) (bytes "fields"))).map
      Prod.fst = r.fields.map LogField.keyText) :
    ∀ f ∈ r.fields, Verbatim f.keyText := by
  cases hr : r.fields with
  | nil => exact fun f hf => absurd hf List.not_mem_nil
  | cons f fields =>
      have hnest : ∀ m ∈ r.originMembers ++ [r.fileEntry, r.lineEntry, r.msgEntry],
          1 + m.2.nesting < hbiJsonMaxDepth := by
        intro m hm
        rw [r.nesting_head hm]
        decide
      have hmember : r.fieldsMember =
          [memberText (bytes "fields") (braced ((f :: fields).map LogField.memberText))] := by
        unfold fieldsMember
        rw [hr]
      obtain ⟨q, hrunq, hdq, hrestq⟩ :=
        hrun.walk (r.head_known hfile) (parseValue_complete (by decide)) hnest hd
        (show p.rest = commaJoin ((r.originTexts ++ [r.fileMember, r.lineMember, r.msgMember]) ++
          memberText (bytes "fields") (braced ((f :: fields).map LogField.memberText)) :: []) ++
            [byte '\x7d'] by rw [hrest, hmember]; simp)
      obtain ⟨m, q', hparse, rest, rfl⟩ := hrunq.next
      rw [commaJoin_memberText, braced_append] at hrestq
      obtain ⟨hkey, p', hrest', hd', hvalue⟩ := parseMember_value hparse
        (verbatim_bytes (by decide)).isString (by decide) hrestq
      have hfront := @keys_ne (r.originMembers ++ [r.fileEntry, r.lineEntry, r.msgEntry])
        ["level", "time_ns", "tid", "file", "line", "msg"] "fields" rfl (by decide)
      rw [List.nil_append, List.append_assoc, List.singleton_append,
        hbiJsonObjectGet_append hfront (by rw [hkey]), hr] at hkeys
      have hrow : commaJoin ((f :: fields).map LogField.memberText) ++
          byte '\x7d' :: (([] : List (List UInt8)).flatMap (byte ',' :: ·) ++ [byte '\x7d']) =
            quoted f.keyText ++ _ := commaJoin_memberText _ _ _ _
      rw [quoted_append] at hrow
      rw [hrow] at hrest'
      obtain ⟨n, p'', members, hfuel, hrest'', hd'', hobject, hrun'⟩ :=
        parseValue_brace hvalue hrest'
      rw [← hrow] at hrest''
      rw [hobject, hbiJsonMembers, List.map_map] at hkeys
      have hdepth : p''.depth = 2 := by omega
      exact Hummingbird.keys_verbatim (f :: fields) (parseValue_complete (by omega)) (by decide)
        hrun' hdepth hrest'' hkeys

theorem LogRecord.ReadAs.verbatim {r : LogRecord} {v : JsonValue}
    (h : hbiJsonParse r.lineText = some (.ok v)) (hread : r.ReadAs v) :
    Verbatim r.fileText ∧ ∀ f ∈ r.fields, Verbatim f.keyText := by
  obtain ⟨p, members, rfl, hd, hrun, hrest⟩ := r.parsed_members h
  obtain ⟨q, hrunq, -, hrestq⟩ := hrun.walk r.origin_known (parseValue_complete (by decide))
    (fun m hm => by rw [r.nesting_head (List.mem_append_left _ hm)]; decide) hd hrest
  have hfile := r.file_verbatim hrunq (by rw [hrestq, commaJoin, List.append_assoc]) hread.file
  exact ⟨hfile, r.keys_verbatim hfile hrun hd hrest hread.keys⟩

/-- The line of a record is read back as the record exactly when no character of the file and of
the keys needs an escape. Whatever the message and the values of the fields are, they are shown
as far as they were written. -/
theorem hbi_log_sink_json_iff (r : LogRecord) (esc : EscBuffer) :
    ∃ line, hbiLogSinkJson r esc.1 = .ok (line ++ bytes "\n") ∧
      (line.length ≤ hbiJsonMaxBytes →
        ((∃ v, hbiJsonParse line = some (.ok v) ∧ r.ReadAs v) ↔
          Verbatim r.fileText ∧ ∀ f ∈ r.fields, Verbatim f.keyText)) := by
  refine ⟨r.lineText, hbiLogSinkJson_eq r esc, fun hcap => ?_⟩
  constructor
  · rintro ⟨v, hparse, hread⟩
    exact hread.verbatim hparse
  · rintro ⟨hfile, hkeys⟩
    have hnest := r.nesting_members
    have hdoc : IsDocument r.lineText (.object r.members) := by
      simpa using IsDocument.mk Whitespace.nil (r.isValue_line hfile hkeys) Whitespace.nil
    refine ⟨.object r.members, hbiJsonParse_of_document ?_ hcap hdoc ?_, r.readAs_members⟩
    · exact Nat.succ_pos _
    · exact hnest.trans_lt (by decide)

/-- A record with two fields, whose message and values need escapes. -/
def fieldsRecord : LogRecord :=
  ⟨3, 1500, 7, some ⟨bytes "src/main.c", by decide⟩, 42, some ⟨bytes "no \"model\"", by decide⟩,
    [⟨some ⟨bytes "path", by decide⟩, some ⟨bytes "C:\\m\n", by decide⟩⟩,
      ⟨some ⟨bytes "hint", by decide⟩, none⟩]⟩

theorem hbi_log_sink_json_fields :
    ∃ (esc : EscBuffer) (line : List UInt8),
      hbiLogSinkJson fieldsRecord esc.1 = .ok (line ++ bytes "\n") ∧
      ∃ v, hbiJsonParse line = some (.ok v) ∧ fieldsRecord.ReadAs v := by
  let esc : EscBuffer := ⟨List.replicate sinkEscCap 0, List.length_replicate⟩
  obtain ⟨line, hline, hiff⟩ := hbi_log_sink_json_iff fieldsRecord esc
  have htext : fieldsRecord.lineText = line := by
    have hsame := (hbiLogSinkJson_eq fieldsRecord esc).symm.trans hline
    exact List.append_cancel_right (Except.ok.inj hsame)
  have hcap : line.length ≤ hbiJsonMaxBytes := by
    rw [← htext]
    decide +kernel
  refine ⟨esc, line, hline, (hiff hcap).mpr ⟨verbatim_bytes (by decide), ?_⟩⟩
  intro f hf
  rcases List.mem_pair.mp hf with rfl | rfl
  · exact verbatim_bytes (by decide)
  · exact verbatim_bytes (by decide)

/-- A record of a file whose path has a backslash in it. -/
def backslashRecord : LogRecord :=
  ⟨2, 0, 1, some ⟨bytes "src\\main.c", by decide⟩, 7, some ⟨bytes "ready", by decide⟩, []⟩

theorem hbi_log_sink_json_backslash :
    ∃ (esc : EscBuffer) (line : List UInt8),
      hbiLogSinkJson backslashRecord esc.1 = .ok (line ++ bytes "\n") ∧
      line.length ≤ hbiJsonMaxBytes ∧
      ¬ ∃ v, hbiJsonParse line = some (.ok v) ∧ backslashRecord.ReadAs v := by
  refine ⟨⟨List.replicate sinkEscCap 0, List.length_replicate⟩, _, hbiLogSinkJson_eq _ _,
    by decide +kernel, ?_⟩
  rintro ⟨v, hparse, hread⟩
  have hslash := (hread.verbatim hparse).1 (byte '\\') (by decide)
  exact hslash.2.2 rfl

end Hummingbird

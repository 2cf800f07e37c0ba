import Pseudocode.Proofs.Document
import Pseudocode.Wire.Event
import Pseudocode.Wire.Message

/-!
# What is sent is received

Events and messages are sent as lines. A line holds one line break, at its end, and what was sent is
read back from it: fields that are left out count as missing, and nothing else does.

* `Wire.filled`              the fields of a record, some of which may be left out
* `Report.ofJson?_toJson`    a report is read back from its object
* `Event.ofJson?_toJson`     so is an event
* `Message.ofJson?_toJson`   so is a message
* `Report.IsSized`           the numbers of a report take 64 bits
* `Wire.received_as_sent`    events and messages are read back from their lines
-/

namespace Pseudocode

/-! ## Values -/

@[simp] theorem Json.nat?_ofNat (n : Nat) : Json.nat? (Json.ofNat n) = some n := by
  simp [Json.nat?, Json.ofNat]

theorem Json.listOf?_map {α : Type} {read : Json → Option α} {write : α → Json} {values : List α}
    (h : ∀ v ∈ values, read (write v) = some v) :
    Json.listOf? read (.array (values.map write)) = some values := by
  rw [Json.listOf?]
  induction values with
  | nil => rfl
  | cons v values ih =>
    obtain ⟨hv, hvalues⟩ := List.forall_mem_cons.1 h
    simp [hv, ih hvalues]

/-! ## Records -/

namespace Wire

/-- The fields of a record. A field without a value is left out. -/
def filled (slots : List (Text × Option Json)) : List (Text × Json) :=
  slots.flatMap fun slot => optionalField id slot.1 slot.2

theorem filled_cons (name : Text) (value : Option Json) (slots : List (Text × Option Json)) :
    filled ((name, value) :: slots) = optionalField id name value ++ filled slots := rfl

theorem cons_filled (name : Text) (json : Json) (slots : List (Text × Option Json)) :
    (name, json) :: filled slots = filled ((name, some json) :: slots) := rfl

theorem optionalField_append_filled {α : Type} (write : α → Json) (name : Text) (value : Option α)
    (slots : List (Text × Option Json)) :
    optionalField write name value ++ filled slots = filled ((name, value.map write) :: slots) := by
  cases value <;> rfl

theorem lookup_optionalField (name other : Text) (value : Option Json) :
    (optionalField id other value).lookup name = if name = other then value else none := by
  cases value with
  | none => simp [optionalField]
  | some json =>
    rw [optionalField, Option.map_some, Option.toList_some]
    split
    · next h => rw [h, List.lookup_cons_self, id]
    · next h => rw [List.lookup_cons, beq_false_of_ne h, List.lookup_nil]

theorem mem_optionalField {name : Text} {value : Option Json} {field : Text × Json} :
    field ∈ optionalField id name value ↔ field.1 = name ∧ value = some field.2 := by
  obtain ⟨other, json⟩ := field
  cases value with
  | none => simp [optionalField]
  | some first =>
    simp only [optionalField, Option.map_some, Option.toList_some, id, List.mem_singleton,
      Prod.mk.injEq, Option.some.injEq]
    exact and_congr_right' eq_comm

/-- What is a field of a record was one of its values. -/
theorem mem_filled {slots : List (Text × Option Json)} {name : Text} {json : Json} :
    (name, json) ∈ filled slots ↔ (name, some json) ∈ slots := by
  simp only [filled, List.mem_flatMap, mem_optionalField]
  constructor
  · rintro ⟨⟨_, _⟩, hmem, rfl, rfl⟩
    exact hmem
  · intro hmem
    exact ⟨_, hmem, rfl, rfl⟩

section

variable {slots : List (Text × Option Json)}

theorem lookup_filled_of_not_mem {name : Text} (h : name ∉ slots.map Prod.fst) :
    (filled slots).lookup name = none := by
  rw [List.lookup_eq_none_iff]
  rintro ⟨other, json⟩ hmem
  have hother : other ∈ slots.map Prod.fst := List.mem_map_of_mem (mem_filled.1 hmem)
  rw [bne_iff_ne]
  rintro rfl
  exact h hother

variable (hslots : (slots.map Prod.fst).Nodup)
include hslots

/-- A field is found if it has a value, and missing if it was left out. -/
theorem lookup_filled {name : Text} {value : Option Json} (hmem : (name, value) ∈ slots) :
    (filled slots).lookup name = value := by
  induction slots with
  | nil => cases hmem
  | cons slot slots ih =>
    obtain ⟨other, first⟩ := slot
    obtain ⟨hother, hslots⟩ := List.nodup_cons.1 hslots
    -- a field that was left out is not looked up in another one of its name
    rw [filled_cons, List.lookup_append, lookup_optionalField]
    rcases List.mem_cons.1 hmem with heq | htail
    · cases heq
      rw [if_pos rfl, lookup_filled_of_not_mem hother, Option.or_none]
    · have hname : name ∈ slots.map Prod.fst := List.mem_map_of_mem htail
      have hne : name ≠ other := fun heq => hother (heq ▸ hname)
      rw [if_neg hne, Option.none_or, ih hslots htail]

/-- No field is repeated. -/
theorem fields?_filled (names : List Text) :
    fields? names (.object (filled slots)) = some (filled slots) := by
  -- some names are left out, and the others come in the same order
  have hsub : ((filled slots).map Prod.fst).Sublist (slots.map Prod.fst) := by
    clear hslots
    induction slots with
    | nil => exact .slnil
    | cons slot slots ih =>
      obtain ⟨name, value⟩ := slot
      rw [filled_cons, List.map_append, List.map_cons]
      cases value with
      | none => exact ih.cons name
      | some json => exact ih.cons_cons name
  have honce (name : Text) : ((filled slots).filter (·.1 = name)).length ≤ 1 := by
    have hcount := List.nodup_iff_count_le_one.1 (hslots.sublist hsub) name
    rw [List.count_eq_countP, List.countP_map, List.countP_eq_length_filter] at hcount
    simpa [Function.comp_def, beq_eq_decide] using hcount
  rw [fields?, if_pos]
  simp [honce]

variable {α : Type} {read : Json → Option α} {name : Text}

theorem required?_filled (json : Json) {v : α} (hmem : (name, some json) ∈ slots)
    (hread : read json = some v) : required? read name (filled slots) = some v := by
  rw [required?, lookup_filled hslots hmem, Option.bind_some, hread]

/-- A value that is there is not taken for a missing one. -/
theorem optional?_filled (write : α → Json) {value : Option α}
    (hmem : (name, value.map write) ∈ slots) (hread : ∀ v, read (write v) = some v)
    (hnull : ∀ v, write v ≠ .null) : optional? read name (filled slots) = some value := by
  rw [optional?, lookup_filled hslots hmem]
  cases value with
  | none => rfl
  | some v =>
    rw [Option.map_some]
    split
    · contradiction
    · next heq => exact absurd (Option.some.inj heq) (hnull v)
    · next heq =>
      obtain rfl := Option.some.inj heq
      rw [hread v, Option.map_some]

/-- A list that is left out where it is empty is read back all the same. -/
theorem defaulted?_filled (write : List α → Json) {values : List α} {readAll : Json → Option (List α)}
    (hmem : (name, if values.isEmpty then none else some (write values)) ∈ slots)
    (hread : readAll (write values) = some values) :
    defaulted? readAll [] name (filled slots) = some values := by
  rw [defaulted?, lookup_filled hslots hmem]
  -- an empty list is left out, and it is the default
  cases values with
  | nil => rfl
  | cons v values => exact hread

end

end Wire

/-! ## Reports -/

theorem Phase.word?_name (p : Phase) :
    Wire.word? Wire.isUnit Phase.all Phase.name (.string p.name) = some p := by
  cases p <;> decide

theorem Severity.word?_name (s : Severity) :
    Wire.word? Wire.isUnit Severity.all Severity.name (.string s.name) = some s := by
  cases s <;> decide

theorem IssueKind.word?_name (k : IssueKind) :
    Wire.word? Wire.isUnit IssueKind.all IssueKind.name (.string k.name) = some k := by
  cases k <;> decide

namespace Issue

/-- The fields of an issue, none of which is left out. -/
def slots (i : Issue) : List (Text × Option Json) :=
  [(Pseudocode.text "line", some (Json.ofNat i.line)), (Pseudocode.text "text", some (.string i.text)),
    (Pseudocode.text "message", some (.string i.message)),
    (Pseudocode.text "kind", some (.string i.kind.name))]

/-- An issue is read back from its object. -/
theorem ofJson?_toJson (i : Issue) : ofJson? i.toJson = some i := by
  have hnames : fieldNames.Nodup := by decide
  have hslots : (i.slots.map Prod.fst).Nodup := hnames
  -- every field that was written is found under its name
  have hfields : Wire.fields? fieldNames i.toJson = some (Wire.filled i.slots) :=
    Wire.fields?_filled hslots fieldNames
  have hline : Wire.required? Json.nat? (Pseudocode.text "line") (Wire.filled i.slots) = some i.line :=
    Wire.required?_filled hslots _ (by simp [slots]) (Json.nat?_ofNat i.line)
  have htext : Wire.required? Json.text? (Pseudocode.text "text") (Wire.filled i.slots) = some i.text :=
    Wire.required?_filled hslots (.string i.text) (by simp [slots]) rfl
  have hmessage : Wire.required? Json.text? (Pseudocode.text "message") (Wire.filled i.slots) =
      some i.message :=
    Wire.required?_filled hslots (.string i.message) (by simp [slots]) rfl
  have hkind : Wire.defaulted? (Wire.word? Wire.isUnit IssueKind.all IssueKind.name) .error
      (Pseudocode.text "kind") (Wire.filled i.slots) = some i.kind := by
    have hlookup : (Wire.filled i.slots).lookup (Pseudocode.text "kind") = some (.string i.kind.name) :=
      Wire.lookup_filled hslots (by simp [slots])
    rw [Wire.defaulted?, hlookup]
    exact i.kind.word?_name
  simp only [ofJson?, hfields, hline, htext, hmessage, hkind, Option.bind_eq_bind, Option.bind_some,
    Option.pure_def]

end Issue

namespace Report

/-- The fields of a report. -/
def slots (r : Report) : List (Text × Option Json) :=
  [(text "name", some (.string r.name)), (text "message", some (.string r.message)),
    (text "stack", r.stack.map Json.string), (text "phase", some (.string r.phase.name)),
    (text "line", r.line.map Json.ofNat), (text "column", r.column.map Json.ofNat),
    (text "issues", r.issues.map fun issues => .array (issues.map Issue.toJson)),
    (text "originalText", r.originalText.map Json.string),
    (text "formatted", r.formatted.map Json.bool), (text "severity", some (.string r.severity.name)),
    (text "suggestions",
      if r.suggestions.isEmpty then none else some (.array (r.suggestions.map Json.string)))]

theorem toJson_eq (r : Report) : r.toJson = .object (Wire.filled r.slots) := by
  have hsuggestions : (if r.suggestions.isEmpty then []
      else [(text "suggestions", Json.array (r.suggestions.map Json.string))]) =
      Wire.filled [(text "suggestions",
        if r.suggestions.isEmpty then none else some (.array (r.suggestions.map Json.string)))] := by
    split <;> rfl
  rw [toJson, hsuggestions]
  simp only [List.append_assoc, List.cons_append, List.nil_append,
    Wire.optionalField_append_filled, Wire.cons_filled, slots]

theorem nodup_slots (r : Report) : (r.slots.map Prod.fst).Nodup := by
  have hnames : fieldNames.Nodup := by decide
  exact hnames

/-- A report is read back from its object. -/
theorem ofJson?_toJson (r : Report) : ofJson? r.toJson = some r := by
  have hslots := r.nodup_slots
  -- every field is found again in its own slot
  have hname : Wire.required? Json.text? (text "name") (Wire.filled r.slots) = some r.name :=
    Wire.required?_filled hslots (.string r.name) (by simp [slots]) rfl
  have hmessage : Wire.required? Json.text? (text "message") (Wire.filled r.slots) = some r.message :=
    Wire.required?_filled hslots (.string r.message) (by simp [slots]) rfl
  have hphase : Wire.required? (Wire.word? Wire.isUnit Phase.all Phase.name) (text "phase")
      (Wire.filled r.slots) = some r.phase :=
    Wire.required?_filled hslots (.string r.phase.name) (by simp [slots]) r.phase.word?_name
  have hseverity : Wire.required? (Wire.word? Wire.isUnit Severity.all Severity.name) (text "severity")
      (Wire.filled r.slots) = some r.severity :=
    Wire.required?_filled hslots (.string r.severity.name) (by simp [slots]) r.severity.word?_name
  have hstack : Wire.optional? Json.text? (text "stack") (Wire.filled r.slots) = some r.stack :=
    Wire.optional?_filled hslots Json.string (by simp [slots]) (fun _ => rfl) (by simp)
  have hline : Wire.optional? Json.nat? (text "line") (Wire.filled r.slots) = some r.line :=
    Wire.optional?_filled hslots Json.ofNat (by simp [slots]) Json.nat?_ofNat (by simp [Json.ofNat])
  have hcolumn : Wire.optional? Json.nat? (text "column") (Wire.filled r.slots) = some r.column :=
    Wire.optional?_filled hslots Json.ofNat (by simp [slots]) Json.nat?_ofNat (by simp [Json.ofNat])
  have hissues : Wire.optional? (Json.listOf? Issue.ofJson?) (text "issues") (Wire.filled r.slots) =
      some r.issues :=
    Wire.optional?_filled hslots (fun issues => .array (issues.map Issue.toJson)) (by simp [slots])
      (fun _ => Json.listOf?_map fun i _ => i.ofJson?_toJson) (by simp)
  have horiginal : Wire.optional? Json.text? (text "originalText") (Wire.filled r.slots) =
      some r.originalText :=
    Wire.optional?_filled hslots Json.string (by simp [slots]) (fun _ => rfl) (by simp)
  have hformatted : Wire.optional? Json.bool? (text "formatted") (Wire.filled r.slots) =
      some r.formatted :=
    Wire.optional?_filled hslots Json.bool (by simp [slots]) (fun _ => rfl) (by simp)
  have hsuggestions : Wire.defaulted? (Json.listOf? Json.text?) [] (text "suggestions")
      (Wire.filled r.slots) = some r.suggestions :=
    Wire.defaulted?_filled hslots (fun suggestions => .array (suggestions.map Json.string))
      (by simp [slots]) (Json.listOf?_map fun _ _ => rfl)
  rw [toJson_eq, ofJson?, Wire.fields?_filled hslots, Option.bind_eq_bind, Option.bind_some, hname,
    hmessage, hphase, hseverity, hstack, hline, hcolumn, hissues, horiginal, hformatted, hsuggestions]
  rfl

end Report

/-! ## Events and messages -/

/-- An event is read back from its object. -/
theorem Event.ofJson?_toJson (e : Event) : Event.ofJson? e.toJson = some e := by
  cases e with
  | error r =>
    have hread (json : Json) :
        Event.ofJson? (.object [(text "type", .string (text "error")), (text "error", json)]) =
          (Report.ofJson? json).bind fun report => some (.error report) := rfl
    rw [Event.toJson, hread, r.ofJson?_toJson, Option.bind_some]
  | stdout | stderr | done | inputRequest => rfl

/-- A message is read back from its object. A start is not taken for an answer, since it has no type. -/
theorem Message.ofJson?_toJson (m : Message) : Message.ofJson? m.toJson = some m := by
  cases m with
  | start source budget =>
    let slots := [(text "code", some (.string source)), (text "timeout", budget.map Json.ofNat)]
    have hnames : [text "code", text "timeout"].Nodup := by decide
    have hslots : (slots.map Prod.fst).Nodup := hnames
    have hjson : (Message.start source budget).toJson = .object (Wire.filled slots) := by
      cases budget <;> rfl
    -- answers are tried first, and this is none
    have hanswer : Message.response? (.object (Wire.filled slots)) = none := by
      cases budget <;> rfl
    have hcode : Wire.required? Json.text? (text "code") (Wire.filled slots) = some source :=
      Wire.required?_filled hslots (.string source) (by simp [slots]) rfl
    have hbudget : Wire.optional? Json.nat? (text "timeout") (Wire.filled slots) = some budget :=
      Wire.optional?_filled hslots Json.ofNat (by simp [slots]) Json.nat?_ofNat (by simp [Json.ofNat])
    rw [hjson, Message.ofJson?, hanswer, Message.start?, Wire.fields?_filled hslots]
    simp only [hcode, hbudget, Option.bind_eq_bind, Option.bind_some, Option.pure_def]
    rfl
  | response id value => rfl

/-! ## Sizes -/

/-- A number that a document holds without loss. -/
theorem Json.isReadable_ofNat {n depth : Nat} (hn : n < 2 ^ 64) : (Json.ofNat n).IsReadable depth :=
  .integer ⟨by omega, by exact_mod_cast hn⟩

/-- The numbers of the issue take 64 bits. -/
def Issue.IsSized (i : Issue) : Prop := i.line < 2 ^ 64

/-- The numbers of the report take 64 bits. -/
structure Report.IsSized (r : Report) : Prop where
  line : ∀ n ∈ r.line, n < 2 ^ 64
  column : ∀ n ∈ r.column, n < 2 ^ 64
  issues : ∀ issues ∈ r.issues, ∀ i ∈ issues, i.IsSized

/-- The numbers of the event take 64 bits. -/
def Event.IsSized : Event → Prop
  | .error r => r.IsSized
  | _ => True

/-- The budget of the message takes 64 bits. -/
def Message.IsSized : Message → Prop
  | .start _ budget => ∀ n ∈ budget, n < 2 ^ 64
  | .response _ _ => True

theorem Wire.isReadable_filled {slots : List (Text × Option Json)} {depth : Nat}
    (h : ∀ slot ∈ slots, ∀ json ∈ slot.2, json.IsReadable depth) :
    (Json.object (filled slots)).IsReadable (depth + 1) := by
  constructor
  rintro ⟨name, json⟩ hmem
  exact h _ (mem_filled.1 hmem) json rfl

theorem Issue.IsSized.isReadable {i : Issue} (h : i.IsSized) {depth : Nat} :
    i.toJson.IsReadable (depth + 1) := by
  have hline : (Json.ofNat i.line).IsReadable depth := Json.isReadable_ofNat h
  constructor
  simp [hline, Json.IsReadable.string]

theorem Report.IsSized.isReadable {r : Report} (h : r.IsSized) {depth : Nat} :
    r.toJson.IsReadable (depth + 3) := by
  have hstring (t : Text) : ∀ json ∈ some (Json.string t), json.IsReadable (depth + 2) := by
    rintro json ⟨⟩
    exact .string
  have hwritten {α : Type} (write : α → Json) (value : Option α)
      (hvalue : ∀ v ∈ value, (write v).IsReadable (depth + 2)) :
      ∀ json ∈ value.map write, json.IsReadable (depth + 2) := by
    intro json hjson
    obtain ⟨v, hv, rfl⟩ := Option.mem_map.1 hjson
    exact hvalue v hv
  have hissues : ∀ issues ∈ r.issues,
      (Json.array (issues.map Issue.toJson)).IsReadable (depth + 2) := by
    intro issues hsome
    constructor
    intro item hitem
    obtain ⟨i, hi, rfl⟩ := List.mem_map.1 hitem
    exact (h.issues issues hsome i hi).isReadable
  have hsuggestions : ∀ json ∈ (if r.suggestions.isEmpty then none
      else some (Json.array (r.suggestions.map Json.string))), json.IsReadable (depth + 2) := by
    split
    · exact fun _ => nofun
    · rintro json ⟨⟩
      constructor
      intro item hitem
      obtain ⟨t, -, rfl⟩ := List.mem_map.1 hitem
      exact .string
  rw [Report.toJson_eq]
  apply Wire.isReadable_filled
  simp only [Report.slots, List.forall_mem_cons]
  -- one part for each field, in the order in which they are written
  exact ⟨hstring _, hstring _, hwritten _ _ fun _ _ => .string, hstring _,
    hwritten _ _ fun n hn => Json.isReadable_ofNat (h.line n hn),
    hwritten _ _ fun n hn => Json.isReadable_ofNat (h.column n hn), hwritten _ _ hissues,
    hwritten _ _ fun _ _ => .string, hwritten _ _ fun _ _ => .bool, hstring _, hsuggestions, nofun⟩

theorem Event.IsSized.isReadable {e : Event} (h : e.IsSized) : e.toJson.IsReadable Json.maxDepth := by
  cases e with
  | error r =>
    have hreport : r.toJson.IsReadable (123 + 3) := Report.IsSized.isReadable h
    constructor
    simp [hreport, Json.IsReadable.string]
  | stdout | stderr | done | inputRequest =>
    constructor
    simp [Json.IsReadable.string]

theorem Message.IsSized.isReadable {m : Message} (h : m.IsSized) :
    m.toJson.IsReadable Json.maxDepth := by
  cases m with
  | start source budget =>
    have hbudget (n : Nat) (hn : budget = some n) : (Json.ofNat n).IsReadable 126 :=
      Json.isReadable_ofNat (h n hn)
    constructor
    simp +contextual [Wire.optionalField, hbudget, Json.IsReadable.string]
  | response id value =>
    constructor
    simp [Json.IsReadable.string]

/-! ## Lines -/

/-- The event that a line holds. -/
def Event.ofLine? (line : Text) : Option Event := (Json.parse? line).bind Event.ofJson?

theorem Event.ofLine?_compact {e : Event} (h : e.IsSized) (rest : Text)
    (hrest : ∀ c ∈ rest, Json.isSpace c = true) : Event.ofLine? (e.toJson.compact ++ rest) = some e := by
  rw [Event.ofLine?, h.isReadable.parse?_compact rest hrest, Option.bind_some, e.ofJson?_toJson]

theorem Message.parse_line {m : Message} (h : m.IsSized) : Message.parse m.line = .ok m := by
  have hparse : Json.parse? m.line = some m.toJson := by
    simpa [Message.line] using h.isReadable.parse?_compact [] (by simp)
  rw [Message.parse, hparse]
  simp only [m.ofJson?_toJson]

/-- An event is sent on a line that breaks at its end only, and is read back from that line, with its
    line break or without. A message is read back from its line as well. -/
theorem Wire.received_as_sent :
    (∀ e : Event, ∃ body, e.line = body ++ ['\n'] ∧ '\n' ∉ body ∧
      (e.IsSized → Event.ofLine? body = some e ∧ Event.ofLine? e.line = some e)) ∧
    (∀ m : Message, m.IsSized → Message.parse m.line = .ok m) := by
  constructor
  · intro e
    refine ⟨e.toJson.compact, rfl, Json.newline_not_mem_compact _, fun he => ⟨?_, ?_⟩⟩
    · have hbody := Event.ofLine?_compact he [] (by simp)
      rwa [List.append_nil] at hbody
    · exact Event.ofLine?_compact he ['\n'] (by simp [Json.isSpace])
  · intro m hm
    exact Message.parse_line hm

/-- A report with an issue, whose texts hold quotes, line breaks, control characters and letters beyond
    ASCII, is received as it was sent, and so is such an answer. -/
theorem Wire.received_as_sent_escaped :
    let r : Report := {
      name := text "SyntaxError", message := text "line\nbreak", stack := none, phase := .validation
      line := some 2, column := none
      issues := some [⟨2, text "say \"\x01\"", text "\\", .warning⟩]
      originalText := some (text "\u00e9"), formatted := some true, severity := .high
      suggestions := [] }
    let answer := Message.response (text "1-1") (text "a\tb \"c\"\r\n\u20ac")
    Event.ofLine? (Event.error r).line = some (.error r) ∧ Message.parse answer.line = .ok answer := by
  intro r answer
  have hsized : (Event.error r).IsSized := by
    constructor <;> simp [r, Issue.IsSized]
  obtain ⟨body, -, -, hread⟩ := Wire.received_as_sent.1 (.error r)
  exact ⟨(hread hsized).2, Wire.received_as_sent.2 answer trivial⟩

end Pseudocode

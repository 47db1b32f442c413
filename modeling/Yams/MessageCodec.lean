/-
The codec of the messages: what a decoder accepts is encoded within the same
limit, because the compact text of the same fields is the shortest one, and
what is encoded is decoded, but for a query that only the decoder bounds.
-/
import Yams.Frame
import Yams.JsonGrammar
import Yams.MessageRoundtrip

namespace Yams

section Weights

open Json

/-- What a field adds to the text of an object: the key, the value, a colon and
a comma. -/
def fieldWeight (field : Text × Json) : Nat :=
  (renderString field.1).byteLength + field.2.render.byteLength + 2

def weightOf (fields : List (Text × Json)) : Nat := (fields.map fieldWeight).sum

theorem byteLength_renderFields (fields : List (Text × Json)) :
    (renderFields fields).byteLength = weightOf fields - 1 := by
  induction fields with
  | nil => rfl
  | cons field fields ih =>
      obtain ⟨key, value⟩ := field
      cases fields with
      | nil =>
          have hcolon : ':'.utf8Size = 1 := by decide
          simp only [renderFields, weightOf, List.map_cons, List.map_nil,
            List.sum_cons, List.sum_nil, fieldWeight, Text.byteLength_append,
            Text.byteLength_cons, hcolon]
          omega
      | cons next fields =>
          have hcolon : ':'.utf8Size = 1 := by decide
          have hcomma : ','.utf8Size = 1 := by decide
          rw [renderFields]
          · simp only [weightOf, List.map_cons, List.sum_cons] at ih ⊢
            simp only [Text.byteLength_append, Text.byteLength_cons, hcolon,
              hcomma, ih]
            simp only [fieldWeight]
            omega
          · simp

theorem byteLength_render_obj (fields : List (Text × Json)) :
    (Json.obj fields).render.byteLength = weightOf fields - 1 + 2 := by
  have hopen : '{'.utf8Size = 1 := by decide
  have hclose : '}'.utf8Size = 1 := by decide
  rw [render]
  simp only [List.cons_append, Text.byteLength_cons, Text.byteLength_append,
    Text.byteLength_nil, byteLength_renderFields, hopen, hclose]
  omega

/-- The bytes of a text between the quotes of its literal. -/
def escapedLength (text : Text) : Nat := Text.byteLength (text.flatMap escape)

theorem byteLength_replicate (n : Nat) (c : Char) :
    Text.byteLength (List.replicate n c) = n * c.utf8Size := by
  induction n with
  | zero => simp
  | succ n ih =>
      rw [List.replicate_succ, Text.byteLength_cons, ih, Nat.succ_mul, Nat.add_comm]

theorem escapedLength_replicate (n : Nat) (c : Char) :
    escapedLength (List.replicate n c) = n * Text.byteLength (escape c) := by
  induction n with
  | zero => simp [escapedLength]
  | succ n ih =>
      rw [escapedLength] at ih
      rw [List.replicate_succ, escapedLength, List.flatMap_cons,
        Text.byteLength_append, ih, Nat.succ_mul, Nat.add_comm]

theorem byteLength_renderString (text : Text) :
    (renderString text).byteLength = escapedLength text + 2 := by
  have hquote : '"'.utf8Size = 1 := by decide
  unfold renderString escapedLength
  simp only [List.cons_append, Text.byteLength_cons, Text.byteLength_append,
    Text.byteLength_nil, hquote]
  omega

theorem fieldWeight_str (key text : Text) :
    fieldWeight (key, .str text) = escapedLength key + escapedLength text + 6 := by
  simp only [fieldWeight, render, byteLength_renderString]
  omega

def boolLength (b : Bool) : Nat := if b then 4 else 5

theorem fieldWeight_bool (key : Text) (b : Bool) :
    fieldWeight (key, .bool b) = escapedLength key + boolLength b + 4 := by
  have htrue : Text.byteLength "true".toList = 4 := by decide
  have hfalse : Text.byteLength "false".toList = 5 := by decide
  cases b
  · simp only [fieldWeight, render, byteLength_renderString, boolLength, hfalse,
      Bool.false_eq_true, if_false]
  · simp only [fieldWeight, render, byteLength_renderString, boolLength, htrue,
      if_true]

/-- An optional field: with its name, its quotes, a colon and a comma. -/
def optionLength (name : Text) : Option Text → Nat
  | none => 0
  | some value => escapedLength name + escapedLength value + 6

theorem weightOf_append (fields others : List (Text × Json)) :
    weightOf (fields ++ others) = weightOf fields + weightOf others := by
  simp [weightOf]

theorem weightOf_optionalField (name : Text) (value : Option Text) :
    weightOf (optionalField name value) = optionLength name value := by
  cases value with
  | none => rfl
  | some value =>
      change fieldWeight (name, .str value) + 0 = _
      rw [fieldWeight_str]
      rfl

/-- The part of an operation's text that depends on its values. -/
def operationLength (operation : ServiceOperation) : Nat :=
  escapedLength operation.kind.asStr + escapedLength operation.query +
    escapedLength operation.k + boolLength operation.json +
    boolLength operation.full + boolLength operation.noGate +
    boolLength operation.explain +
    optionLength "min_score".toList operation.minScore +
    optionLength "max_gap".toList operation.maxGap +
    optionLength "project".toList operation.project

/-- The names of the fields that are always there, with what goes around them. -/
theorem weightOf_operationWire (operation : ServiceOperation) :
    weightOf (operationWire operation) = operationLength operation + 66 := by
  have hkind : escapedLength "kind".toList = 4 := by decide
  have hquery : escapedLength "query".toList = 5 := by decide
  have hk : escapedLength "k".toList = 1 := by decide
  have hjson : escapedLength "json".toList = 4 := by decide
  have hfull : escapedLength "full".toList = 4 := by decide
  have hnoGate : escapedLength "no_gate".toList = 7 := by decide
  have hexplain : escapedLength "explain".toList = 7 := by decide
  unfold operationWire
  rw [weightOf_append, weightOf_append, weightOf_append, weightOf_optionalField,
    weightOf_optionalField, weightOf_optionalField]
  simp only [weightOf, List.map_cons, List.map_nil, List.sum_cons, List.sum_nil,
    fieldWeight_str, fieldWeight_bool, hkind, hquery, hk, hjson, hfull, hnoGate,
    hexplain]
  unfold operationLength
  omega

/-- The arguments of a request between the brackets. -/
def argvLength (argv : List Text) : Nat :=
  (argv.map fun argument => escapedLength argument + 3).sum

theorem byteLength_renderItems_str (argv : List Text) :
    (renderItems (argv.map .str)).byteLength = argvLength argv - 1 := by
  have hcomma : ','.utf8Size = 1 := by decide
  induction argv with
  | nil => rfl
  | cons argument argv ih =>
      cases argv with
      | nil =>
          simp only [List.map_cons, List.map_nil, renderItems, render,
            byteLength_renderString, argvLength, List.sum_cons, List.sum_nil]
          omega
      | cons next argv =>
          rw [List.map_cons, List.map_cons, renderItems, ← List.map_cons]
          · rw [Text.byteLength_append, Text.byteLength_cons, ih, render,
              byteLength_renderString, hcomma]
            simp only [argvLength, List.map_cons, List.sum_cons]
            omega
          · simp

/-- The length of a request's text. -/
theorem byteLength_request (request : Request) :
    (Json.obj (requestWire request)).render.byteLength =
      operationLength request.operation + (argvLength request.argv - 1) +
        escapedLength request.cwd + 129 := by
  have hversion : fieldWeight ("version".toList, .num protocolVersion) = 12 := by
    decide
  have htype : escapedLength "type".toList = 4 := by decide
  have hrequest : escapedLength "request".toList = 7 := by decide
  have hoperation : (renderString "operation".toList).byteLength = 11 := by decide
  have hargv : (renderString "argv".toList).byteLength = 6 := by decide
  have hcwd : escapedLength "cwd".toList = 3 := by decide
  have hopen : '['.utf8Size = 1 := by decide
  have hclose : ']'.utf8Size = 1 := by decide
  have hitems : (Json.arr (request.argv.map .str)).render.byteLength =
      argvLength request.argv - 1 + 2 := by
    rw [render, List.cons_append, Text.byteLength_cons, Text.byteLength_append,
      Text.byteLength_cons, byteLength_renderItems_str, hopen, hclose,
      Text.byteLength_nil]
    omega
  have hbody : (Json.obj (operationWire request.operation)).render.byteLength =
      operationLength request.operation + 67 := by
    rw [byteLength_render_obj, weightOf_operationWire]
    omega
  rw [byteLength_render_obj]
  simp only [requestWire, weightOf, List.map_cons, List.map_nil, List.sum_cons,
    List.sum_nil, hversion, fieldWeight_str, htype, hrequest, hcwd]
  simp only [fieldWeight, hoperation, hargv, hitems, hbody]
  omega

def slotWeight (name : Text) : Option Json → Nat
  | none => 0
  | some value => fieldWeight (name, value)

/-- What the fields that an operation has read add to the text. -/
def RawOperation.weight (raw : RawOperation) : Nat :=
  slotWeight "kind".toList (raw.kind.map .str) +
    slotWeight "query".toList (raw.query.map .str) +
    slotWeight "k".toList (raw.k.map .str) +
    slotWeight "json".toList (raw.json.map .bool) +
    slotWeight "full".toList (raw.full.map .bool) +
    slotWeight "no_gate".toList (raw.noGate.map .bool) +
    slotWeight "explain".toList (raw.explain.map .bool) +
    slotWeight "min_score".toList (raw.minScore.map .str) +
    slotWeight "max_gap".toList (raw.maxGap.map .str) +
    slotWeight "project".toList (raw.project.map .str)

def operationWeight : Option RawOperation → Nat
  | none => 0
  | some raw =>
      (renderString "operation".toList).byteLength + (raw.weight - 1 + 2) + 2

/-- What the fields that a message has read add to the text. -/
def RawMessage.weight (raw : RawMessage) : Nat :=
  slotWeight "version".toList (raw.version.map .num) +
    slotWeight "type".toList (raw.messageType.map .str) +
    slotWeight "argv".toList
      (raw.argv.map fun argv => .arr (argv.map .str)) +
    slotWeight "cwd".toList (raw.cwd.map .str) +
    operationWeight raw.operation +
    slotWeight "request_id".toList (raw.requestId.map .str) +
    slotWeight "exit_code".toList (raw.exitCode.map .num) +
    slotWeight "stdout".toList (raw.stdout.map .str) +
    slotWeight "stderr".toList (raw.stderr.map .str) +
    slotWeight "code".toList (raw.code.map .str) +
    slotWeight "message".toList (raw.message.map .str)

end Weights

section Reading

theorem asText_eq_some {value : Json} {text : Text}
    (h : value.asText = some text) : value = .str text := by
  cases value <;> cases h
  rfl

theorem asBool_eq_some {value : Json} {b : Bool} (h : value.asBool = some b) :
    value = .bool b := by
  cases value <;> cases h
  rfl

theorem asU8_eq_some {value : Json} {n : Nat} (h : value.asU8 = some n) :
    value = .num n ∧ n < 256 := by
  cases value with
  | num m =>
      rw [Json.asU8] at h
      split at h
      next hm =>
        obtain rfl := Option.some.inj h
        exact ⟨rfl, hm⟩
      next => cases h
  | _ => cases h

theorem asTexts_eq_some {value : Json} {texts : List Text}
    (h : value.asTexts = some texts) : value = .arr (texts.map .str) := by
  cases value with
  | arr items =>
      rw [Json.asTexts] at h
      congr 1
      induction items generalizing texts with
      | nil =>
          cases h
          rfl
      | cons item items ih =>
          rw [List.mapM_cons] at h
          obtain ⟨text, htext, h⟩ := Option.bind_eq_some_iff.1 h
          obtain ⟨rest, hrest, h⟩ := Option.bind_eq_some_iff.1 h
          obtain rfl := Option.some.inj h
          rw [ih hrest, asText_eq_some htext]
          rfl
  | _ => cases h

theorem readOnce_eq_ok {α : Type} {slot value result : Option α}
    (h : readOnce slot value = .ok result) :
    slot = none ∧ ∃ v, value = some v ∧ result = some v := by
  unfold readOnce at h
  split at h
  · cases h
  next hslot =>
  cases value with
  | none => cases h
  | some v =>
      cases h
      exact ⟨Option.not_isSome_iff_eq_none.1 hslot, v, rfl, rfl⟩

/-- A slot that is read once takes on the weight of its field. -/
theorem readOnce_weight {α : Type} {toJson : α → Json}
    {ofJson : Json → Option α}
    (hread : ∀ {value v}, ofJson value = some v → value = toJson v)
    {slot result : Option α} {value : Json} (name : Text)
    (h : readOnce slot (ofJson value) = .ok result) :
    slotWeight name (result.map toJson) =
      slotWeight name (slot.map toJson) + fieldWeight (name, value) := by
  obtain ⟨rfl, v, hv, rfl⟩ := readOnce_eq_ok h
  rw [hread hv]
  simp [slotWeight]

theorem RawOperation.visit_weight {raw next : RawOperation} {key : Text}
    {value : Json} (h : raw.visit key value = .ok next) :
    next.weight = raw.weight + fieldWeight (key, value) := by
  unfold RawOperation.visit at h
  split_ifs at h <;> rename_i hkey
  all_goals
    rw [hkey]
    obtain ⟨slot, hslot, heq⟩ := except_bind_eq_ok.1 h
    cases heq
    first
      | have hweight := readOnce_weight asText_eq_some key hslot
      | have hweight := readOnce_weight asBool_eq_some key hslot
    rw [hkey] at hweight
    simp only [weight]
    omega

theorem RawOperation.ofFields_weight {fields : List (Text × Json)}
    {raw result : RawOperation} (h : RawOperation.ofFields fields raw = .ok result) :
    result.weight = raw.weight + weightOf fields := by
  induction fields generalizing raw with
  | nil =>
      cases h
      rfl
  | cons field fields ih =>
      obtain ⟨key, value⟩ := field
      obtain ⟨next, hnext, h⟩ := except_bind_eq_ok.1 h
      have hstep := visit_weight hnext
      have hrest := ih h
      simp only [weightOf, List.map_cons, List.sum_cons] at hrest ⊢
      omega

theorem readOperation_weight {slot result : Option RawOperation} {value : Json}
    (h : readOperation slot value = .ok result) :
    operationWeight result =
      operationWeight slot + fieldWeight ("operation".toList, value) := by
  unfold readOperation at h
  split at h
  · cases h
  next hslot =>
  obtain rfl := Option.not_isSome_iff_eq_none.1 hslot
  cases value with
  | obj fields =>
      cases hfields : RawOperation.ofFields fields .default with
      | error error =>
          simp only [hfields] at h
          cases h
      | ok raw =>
          simp only [hfields] at h
          cases h
          have hweight := RawOperation.ofFields_weight hfields
          have hdefault : RawOperation.default.weight = 0 := rfl
          simp only [operationWeight, fieldWeight, byteLength_render_obj]
          omega
  | _ => cases h

/-- One more field of a message: its slot was empty, and takes the value. -/
inductive RawMessage.Reads (raw : RawMessage) : Text → Json → RawMessage → Prop
  | version {n : Nat} (h : raw.version = none) (hn : n < 256) :
      Reads raw "version".toList (.num n) { raw with version := some n }
  | messageType {text : Text} (h : raw.messageType = none) :
      Reads raw "type".toList (.str text) { raw with messageType := some text }
  | argv {texts : List Text} (h : raw.argv = none) :
      Reads raw "argv".toList (.arr (texts.map .str)) { raw with argv := some texts }
  | cwd {text : Text} (h : raw.cwd = none) :
      Reads raw "cwd".toList (.str text) { raw with cwd := some text }
  | operation {value : Json} {result : Option RawOperation}
      (h : readOperation raw.operation value = .ok result) :
      Reads raw "operation".toList value { raw with operation := result }
  | requestId {text : Text} (h : raw.requestId = none) :
      Reads raw "request_id".toList (.str text) { raw with requestId := some text }
  | exitCode {n : Nat} (h : raw.exitCode = none) (hn : n < 256) :
      Reads raw "exit_code".toList (.num n) { raw with exitCode := some n }
  | stdout {text : Text} (h : raw.stdout = none) :
      Reads raw "stdout".toList (.str text) { raw with stdout := some text }
  | stderr {text : Text} (h : raw.stderr = none) :
      Reads raw "stderr".toList (.str text) { raw with stderr := some text }
  | code {text : Text} (h : raw.code = none) :
      Reads raw "code".toList (.str text) { raw with code := some text }
  | message {text : Text} (h : raw.message = none) :
      Reads raw "message".toList (.str text) { raw with message := some text }

theorem RawMessage.visit_eq_ok {raw next : RawMessage} {key : Text} {value : Json}
    (h : raw.visit key value = .ok next) : raw.Reads key value next := by
  unfold RawMessage.visit at h
  by_cases hkey : key = "version".toList
  · rw [if_pos hkey] at h
    obtain ⟨_, hslot, heq⟩ := except_bind_eq_ok.1 h
    obtain rfl := Except.ok.inj heq
    obtain ⟨hnone, _, hv, rfl⟩ := readOnce_eq_ok hslot
    obtain ⟨rfl, hn⟩ := asU8_eq_some hv
    rw [hkey]
    exact .version hnone hn
  rw [if_neg hkey] at h
  by_cases hkey : key = "type".toList
  · rw [if_pos hkey] at h
    obtain ⟨_, hslot, heq⟩ := except_bind_eq_ok.1 h
    obtain rfl := Except.ok.inj heq
    obtain ⟨hnone, _, hv, rfl⟩ := readOnce_eq_ok hslot
    rw [hkey, asText_eq_some hv]
    exact .messageType hnone
  rw [if_neg hkey] at h
  by_cases hkey : key = "argv".toList
  · rw [if_pos hkey] at h
    obtain ⟨_, hslot, heq⟩ := except_bind_eq_ok.1 h
    obtain rfl := Except.ok.inj heq
    obtain ⟨hnone, _, hv, rfl⟩ := readOnce_eq_ok hslot
    rw [hkey, asTexts_eq_some hv]
    exact .argv hnone
  rw [if_neg hkey] at h
  by_cases hkey : key = "cwd".toList
  · rw [if_pos hkey] at h
    obtain ⟨_, hslot, heq⟩ := except_bind_eq_ok.1 h
    obtain rfl := Except.ok.inj heq
    obtain ⟨hnone, _, hv, rfl⟩ := readOnce_eq_ok hslot
    rw [hkey, asText_eq_some hv]
    exact .cwd hnone
  rw [if_neg hkey] at h
  by_cases hkey : key = "operation".toList
  · rw [if_pos hkey] at h
    obtain ⟨_, hslot, heq⟩ := except_bind_eq_ok.1 h
    obtain rfl := Except.ok.inj heq
    rw [hkey]
    exact .operation hslot
  rw [if_neg hkey] at h
  by_cases hkey : key = "request_id".toList
  · rw [if_pos hkey] at h
    obtain ⟨_, hslot, heq⟩ := except_bind_eq_ok.1 h
    obtain rfl := Except.ok.inj heq
    obtain ⟨hnone, _, hv, rfl⟩ := readOnce_eq_ok hslot
    rw [hkey, asText_eq_some hv]
    exact .requestId hnone
  rw [if_neg hkey] at h
  by_cases hkey : key = "exit_code".toList
  · rw [if_pos hkey] at h
    obtain ⟨_, hslot, heq⟩ := except_bind_eq_ok.1 h
    obtain rfl := Except.ok.inj heq
    obtain ⟨hnone, _, hv, rfl⟩ := readOnce_eq_ok hslot
    obtain ⟨rfl, hn⟩ := asU8_eq_some hv
    rw [hkey]
    exact .exitCode hnone hn
  rw [if_neg hkey] at h
  by_cases hkey : key = "stdout".toList
  · rw [if_pos hkey] at h
    obtain ⟨_, hslot, heq⟩ := except_bind_eq_ok.1 h
    obtain rfl := Except.ok.inj heq
    obtain ⟨hnone, _, hv, rfl⟩ := readOnce_eq_ok hslot
    rw [hkey, asText_eq_some hv]
    exact .stdout hnone
  rw [if_neg hkey] at h
  by_cases hkey : key = "stderr".toList
  · rw [if_pos hkey] at h
    obtain ⟨_, hslot, heq⟩ := except_bind_eq_ok.1 h
    obtain rfl := Except.ok.inj heq
    obtain ⟨hnone, _, hv, rfl⟩ := readOnce_eq_ok hslot
    rw [hkey, asText_eq_some hv]
    exact .stderr hnone
  rw [if_neg hkey] at h
  by_cases hkey : key = "code".toList
  · rw [if_pos hkey] at h
    obtain ⟨_, hslot, heq⟩ := except_bind_eq_ok.1 h
    obtain rfl := Except.ok.inj heq
    obtain ⟨hnone, _, hv, rfl⟩ := readOnce_eq_ok hslot
    rw [hkey, asText_eq_some hv]
    exact .code hnone
  rw [if_neg hkey] at h
  by_cases hkey : key = "message".toList
  · rw [if_pos hkey] at h
    obtain ⟨_, hslot, heq⟩ := except_bind_eq_ok.1 h
    obtain rfl := Except.ok.inj heq
    obtain ⟨hnone, _, hv, rfl⟩ := readOnce_eq_ok hslot
    rw [hkey, asText_eq_some hv]
    exact .message hnone
  rw [if_neg hkey] at h
  cases h

theorem RawMessage.Reads.weight_eq {raw next : RawMessage} {key : Text}
    {value : Json} (h : raw.Reads key value next) :
    next.weight = raw.weight + fieldWeight (key, value) := by
  cases h with
  | operation hread =>
      have hweight := readOperation_weight hread
      simp only [weight]
      omega
  | _ hnone =>
      simp only [weight, hnone, Option.map_none, Option.map_some, slotWeight]
      omega

/-- An exit code that has been read is one byte. -/
theorem RawMessage.Reads.exitCode_lt {raw next : RawMessage} {key : Text}
    {value : Json} (h : raw.Reads key value next)
    (hraw : ∀ n, raw.exitCode = some n → n < 256) :
    ∀ n, next.exitCode = some n → n < 256 := by
  cases h with
  | exitCode _ hn =>
      intro n heq
      rwa [← Option.some.inj heq]
  | _ => exact hraw

theorem RawMessage.ofFields_weight {fields : List (Text × Json)}
    {raw result : RawMessage} (h : RawMessage.ofFields fields raw = .ok result) :
    result.weight = raw.weight + weightOf fields := by
  induction fields generalizing raw with
  | nil =>
      cases h
      rfl
  | cons field fields ih =>
      obtain ⟨key, value⟩ := field
      obtain ⟨next, hnext, h⟩ := except_bind_eq_ok.1 h
      have hstep := (visit_eq_ok hnext).weight_eq
      have hrest := ih h
      simp only [weightOf, List.map_cons, List.sum_cons] at hrest ⊢
      omega

theorem RawMessage.ofFields_exitCode {fields : List (Text × Json)}
    {raw result : RawMessage} (h : RawMessage.ofFields fields raw = .ok result)
    (hraw : ∀ n, raw.exitCode = some n → n < 256) :
    ∀ n, result.exitCode = some n → n < 256 := by
  induction fields generalizing raw with
  | nil =>
      cases h
      exact hraw
  | cons field fields ih =>
      obtain ⟨next, hnext, h⟩ := except_bind_eq_ok.1 h
      exact ih h ((visit_eq_ok hnext).exitCode_lt hraw)

/-- The fields that are read into the same message have texts of one length. -/
theorem byteLength_of_ofFields {fields others : List (Text × Json)}
    {raw : RawMessage} (h : RawMessage.ofFields fields .default = .ok raw)
    (hothers : RawMessage.ofFields others .default = .ok raw) :
    (Json.obj fields).render.byteLength = (Json.obj others).render.byteLength := by
  have hleft := RawMessage.ofFields_weight h
  have hright := RawMessage.ofFields_weight hothers
  rw [byteLength_render_obj, byteLength_render_obj]
  omega

end Reading

section Codec

/-- The fields of a message as they are written. -/
def Message.wire : Message → List (Text × Json)
  | .request sent => requestWire sent
  | .accepted sent => acceptedWire sent
  | .completed sent => completedWire sent
  | .rejected sent => rejectedWire sent

/-- The fields of a message as the reader collects them. -/
def Message.raw : Message → RawMessage
  | .request sent => rawRequest sent
  | .accepted sent =>
      { RawMessage.default with
        version := some protocolVersion
        messageType := some "accepted".toList
        requestId := some sent.requestId }
  | .completed sent =>
      { RawMessage.default with
        version := some protocolVersion
        messageType := some "completed".toList
        requestId := some sent.requestId
        exitCode := some sent.exitCode
        stdout := some sent.stdout
        stderr := some sent.stderr }
  | .rejected sent =>
      { RawMessage.default with
        version := some protocolVersion
        messageType := some "rejected".toList
        code := some sent.code
        message := some sent.message }

/-- The checks of `encode` before anything is written. -/
def Message.validate : Message → Except ProtocolError Unit
  | .request sent => validateRequest sent
  | .accepted sent => validateRequestId sent.requestId
  | .completed sent => validateRequestId sent.requestId
  | .rejected sent =>
      if sent.code.isEmpty then .error .emptyRejectionCode else .ok ()

/-- An exit code is one byte. -/
def Message.ByteCode : Message → Prop
  | .completed sent => sent.exitCode < 256
  | _ => True

theorem encode_eq (message : Message) :
    encode message = message.validate.bind fun _ =>
      encodeBounded message.wire message.limit := by
  cases message with
  | rejected sent =>
      simp only [encode, Message.validate]
      split <;> rfl
  | _ => rfl

theorem visit_exitCode (raw : RawMessage) (h : raw.exitCode = none) {n : Nat}
    (hn : n < 256) :
    raw.visit "exit_code" (.num n) = .ok { raw with exitCode := some n } := by
  have hread : (Json.num n).asU8 = some n := if_pos hn
  change (readOnce raw.exitCode _ >>= _) = _
  rw [h, hread]
  rfl

theorem ofFields_wire (message : Message) (hcode : message.ByteCode) :
    RawMessage.ofFields message.wire .default = .ok message.raw := by
  cases message with
  | request sent => exact ofFields_requestWire sent
  | accepted sent => rfl
  | completed sent =>
      change (RawMessage.visit { RawMessage.default with
        version := some protocolVersion
        messageType := some "completed"
        requestId := some sent.requestId } "exit_code" _ >>= _) = _
      rw [visit_exitCode _ rfl hcode]
      rfl
  | rejected sent => rfl

theorem depth_wire (message : Message) :
    (Json.obj message.wire).depth ≤ maxJsonNesting := by
  cases message with
  | request sent => exact depth_requestWire sent
  | accepted sent => exact (by decide : 1 ≤ maxJsonNesting)
  | completed sent => exact (by decide : 1 ≤ maxJsonNesting)
  | rejected sent => exact (by decide : 1 ≤ maxJsonNesting)

variable {scan : Text → Json.Scan} {message : Message} {body : Bytes}

/-- The reader gets back the fields that a message is written with. -/
def ReadBack (scan : Text → Json.Scan) (message : Message) : Prop :=
  scan (Json.obj message.wire).render = ⟨message.wire, true⟩

theorem encode_of_short (hvalid : message.validate = .ok ())
    (hshort : (Json.obj message.wire).render.byteLength ≤ message.limit) :
    encode message = .ok (Json.obj message.wire).render.toBytes := by
  have hfits : ¬ (Json.obj message.wire).render.toBytes.length > message.limit :=
    Nat.not_lt.2 hshort
  rw [encode_eq, hvalid]
  exact if_neg hfits

theorem encode_eq_ok (h : encode message = .ok body) :
    message.validate = .ok () ∧
      body = (Json.obj message.wire).render.toBytes ∧
      body.length ≤ message.limit := by
  rw [encode_eq] at h
  obtain ⟨_, hvalid, hbody⟩ := except_bind_eq_ok.1 h
  exact ⟨hvalid, encodeBounded_eq_ok hbody⟩

theorem decodeObject_encode (hcode : message.ByteCode)
    (hread : ReadBack scan message) (hencode : encode message = .ok body) :
    decodeObject scan body message.limit = .ok message.raw := by
  obtain ⟨_, hbody, hsize⟩ := encode_eq_ok hencode
  have hsmall : ¬ body.length > message.limit := by omega
  have hroot : rootIsObject (Json.obj message.wire).render = .ok () := by
    rw [Json.render]
    rfl
  have hnesting := validateNesting_render _ (depth_wire message)
  have hfields : scan (Json.obj message.wire).render = ⟨message.wire, true⟩ := hread
  rw [decodeObject, if_neg hsmall, hbody, Text.fromUtf8_toBytes]
  simp only [Option.elim, except_ok_bind, hnesting, hroot, hfields,
    ofFields_wire message hcode, if_true]

/-- The decoder of the direction that a message is sent in. -/
def Message.decode (message : Message) (scan : Text → Json.Scan) (body : Bytes) :
    Except ProtocolError Message :=
  match message with
  | .request _ => decodeRequest scan body
  | _ => decodeResponse scan body

/-- The query of a request is as short as an argument has to be. -/
def Message.QueryBounded : Message → Prop
  | .request sent => sent.operation.query.byteLength ≤ maxArgumentBytes
  | _ => True

theorem decode_of_raw (hraw : decodeObject scan body message.limit = .ok message.raw)
    (hvalid : message.validate = .ok ()) :
    message.decode scan body = .ok message ↔ message.QueryBounded := by
  cases message with
  | request sent =>
      have hrequest : decodeObject scan body maxRequestBytes
          = .ok (rawRequest sent) := hraw
      rw [Message.decode, decodeRequest, hrequest]
      constructor
      · intro h
        by_contra hlong
        have hoperation : decodeOperation (rawOperation sent.operation)
            = .error .argumentTooLarge := by
          have hquery : sent.operation.query.byteLength > maxArgumentBytes :=
            Nat.not_le.1 hlong
          simp only [decodeOperation, rawOperation, OperationKind.parse_asStr,
            hquery, if_true]
        simp only [except_ok_bind, rawRequest, if_true, RawMessage.default,
          hoperation] at h
        cases h
      · intro hquery
        have hargv : validateRequest sent = .ok () := hvalid
        simp only [except_ok_bind, rawRequest, if_true, RawMessage.default,
          decodeOperation_raw _ hquery, hargv]
        rfl
  | accepted sent =>
      have hresponse : decodeObject scan body maxResponseBytes
          = .ok (Message.accepted sent).raw := hraw
      have hid : validateRequestId sent.requestId = .ok () := hvalid
      refine iff_of_true ?_ trivial
      change decodeResponse scan body = _
      rw [decodeResponse, hresponse]
      simp only [except_ok_bind, Message.raw, RawMessage.default, if_true, hid]
      rfl
  | completed sent =>
      have hresponse : decodeObject scan body maxResponseBytes
          = .ok (Message.completed sent).raw := hraw
      have hid : validateRequestId sent.requestId = .ok () := hvalid
      refine iff_of_true ?_ trivial
      change decodeResponse scan body = _
      rw [decodeResponse, hresponse]
      simp only [except_ok_bind, Message.raw, RawMessage.default, if_true, hid]
      rfl
  | rejected sent =>
      have hresponse : decodeObject scan body maxResponseBytes
          = .ok (Message.rejected sent).raw := hraw
      have hcode : sent.code.isEmpty = false := by
        cases hempty : sent.code.isEmpty with
        | false => rfl
        | true =>
            simp only [Message.validate, hempty] at hvalid
            cases hvalid
      refine iff_of_true ?_ trivial
      change decodeResponse scan body = _
      rw [decodeResponse, hresponse]
      simp only [except_ok_bind, Message.raw, RawMessage.default, if_true, hcode]
      rfl

theorem asStr_of_parse {value : Text} {kind : OperationKind}
    (h : OperationKind.parse value = some kind) : value = kind.asStr := by
  unfold OperationKind.parse at h
  repeat' split at h
  all_goals
    first
      | cases h; assumption
      | cases h

theorem decodeOperation_eq_ok {raw : RawOperation} {operation : ServiceOperation}
    (h : decodeOperation raw = .ok operation) :
    raw = rawOperation operation ∧
      operation.query.byteLength ≤ maxArgumentBytes := by
  unfold decodeOperation at h
  split at h
  · split at h
    · cases h
    next kind hkind =>
      split at h
      · cases h
      next hquery =>
        obtain rfl := Except.ok.inj h
        rw [asStr_of_parse hkind]
        exact ⟨rfl, Nat.not_lt.1 hquery⟩
  · cases h

theorem decodeObject_eq_ok {limit : Nat} {raw : RawMessage}
    (h : decodeObject scan body limit = .ok raw) :
    body.length ≤ limit ∧ ∃ text, Text.fromUtf8 body = some text ∧
      (scan text).complete = true ∧
      RawMessage.ofFields (scan text).fields .default = .ok raw := by
  unfold decodeObject at h
  split at h
  · cases h
  next hsize =>
  obtain ⟨text, htext, h⟩ := except_bind_eq_ok.1 h
  obtain ⟨_, _, h⟩ := except_bind_eq_ok.1 h
  obtain ⟨_, _, h⟩ := except_bind_eq_ok.1 h
  obtain ⟨found, hfields, h⟩ := except_bind_eq_ok.1 h
  cases hbody : Text.fromUtf8 body with
  | none =>
      rw [hbody] at htext
      cases htext
  | some decoded =>
      rw [hbody] at htext
      obtain rfl : decoded = text := Except.ok.inj htext
      split at h
      next hcomplete =>
        obtain rfl := Except.ok.inj h
        exact ⟨Nat.not_lt.1 hsize, decoded, rfl, hcomplete, hfields⟩
      next => cases h

theorem version_of_validate {raw : RawMessage} (h : validateVersion raw = .ok ()) :
    raw.version = some protocolVersion := by
  unfold validateVersion at h
  split at h
  next hversion => exact hversion
  next => cases h

/-- What a decoder has found when it accepts a body. -/
structure Decoded (scan : Text → Json.Scan) (body : Bytes) (message : Message) :
    Prop where
  raw : decodeObject scan body message.limit = .ok message.raw
  valid : message.validate = .ok ()
  query : message.QueryBounded

theorem decodeRequest_eq_ok (h : decodeRequest scan body = .ok message) :
    Decoded scan body message := by
  obtain ⟨raw, hraw, h⟩ := except_bind_eq_ok.1 h
  obtain ⟨_, hversion, h⟩ := except_bind_eq_ok.1 h
  have hversion := version_of_validate hversion
  split at h
  next htype =>
    split at h
    · next version messageType argv cwd operation _ _ =>
        obtain ⟨decoded, hoperation, hrest⟩ := except_bind_eq_ok.1 h
        obtain ⟨_, hvalid, hlast⟩ := except_bind_eq_ok.1 hrest
        obtain ⟨rfl, hquery⟩ := decodeOperation_eq_ok hoperation
        obtain rfl := Except.ok.inj hlast
        obtain rfl : version = _ := hversion
        obtain rfl : messageType = _ := htype
        exact ⟨hraw, hvalid, hquery⟩
    · cases h
  next => cases h

theorem decodeResponse_eq_ok (h : decodeResponse scan body = .ok message) :
    Decoded scan body message := by
  obtain ⟨raw, hraw, h⟩ := except_bind_eq_ok.1 h
  obtain ⟨_, hversion, h⟩ := except_bind_eq_ok.1 h
  have hversion := version_of_validate hversion
  split at h
  next htype =>
    split at h
    · next version messageType requestId _ _ =>
        obtain ⟨_, hid, hlast⟩ := except_bind_eq_ok.1 h
        obtain rfl := Except.ok.inj hlast
        obtain rfl : version = _ := hversion
        obtain rfl : messageType = _ := htype
        exact ⟨hraw, hid, trivial⟩
    · cases h
  next =>
  split at h
  next htype =>
    split at h
    · next version messageType requestId exitCode stdout stderr _ _ _ =>
        obtain ⟨_, hid, hlast⟩ := except_bind_eq_ok.1 h
        obtain rfl := Except.ok.inj hlast
        obtain rfl : version = _ := hversion
        obtain rfl : messageType = _ := htype
        exact ⟨hraw, hid, trivial⟩
    · cases h
  next =>
  split at h
  next htype =>
    split at h
    · next version messageType code text _ _ _ _ =>
        split at h
        · cases h
        next hcode =>
        obtain rfl := Except.ok.inj h
        obtain rfl : version = _ := hversion
        obtain rfl : messageType = _ := htype
        exact ⟨hraw, if_neg hcode, trivial⟩
    · cases h
  next =>
  split at h
  · cases h
  · cases h

theorem Message.byteCode_of_raw {limit : Nat}
    (h : decodeObject scan body limit = .ok message.raw) : message.ByteCode := by
  obtain ⟨_, _, _, _, hfields⟩ := decodeObject_eq_ok h
  cases message with
  | completed sent =>
      exact RawMessage.ofFields_exitCode hfields (fun _ hnone => nomatch hnone) _ rfl
  | _ => trivial

/-- The reader accepts only JSON texts, and reads the fields that they spell. -/
def ReadsJson (scan : Text → Json.Scan) (body : Bytes) : Prop :=
  ∀ text, Text.fromUtf8 body = some text → (scan text).complete = true →
    Json.Document (.obj (scan text).fields) text

/-- What has been decoded fits into a frame again. -/
theorem Decoded.encode_eq_ok (h : Decoded scan body message)
    (hjson : ReadsJson scan body) :
    encode message = .ok (Json.obj message.wire).render.toBytes := by
  obtain ⟨hsize, text, htext, hcomplete, hfields⟩ := decodeObject_eq_ok h.raw
  have hshort := (hjson text htext hcomplete).shortest
  have hequal := byteLength_of_ofFields hfields
    (ofFields_wire message (Message.byteCode_of_raw h.raw))
  have hbody : text.byteLength = body.length :=
    congrArg List.length (Text.toBytes_of_fromUtf8 htext)
  exact encode_of_short h.valid (by omega)

/-- A message that is encoded is decoded to itself exactly when its query is
bounded, and a body that is decoded is encoded and decoded again. -/
theorem codec_roundTrip_iff (hcode : message.ByteCode)
    (hread : ReadBack scan message) :
    (∀ body, encode message = .ok body →
      (message.decode scan body = .ok message ↔ message.QueryBounded)) ∧
    ∀ body, ReadsJson scan body →
      (decodeRequest scan body = .ok message ∨
        decodeResponse scan body = .ok message) →
      ∃ encoded, encode message = .ok encoded ∧
        message.decode scan encoded = .ok message := by
  have hdecode {body : Bytes} (hencode : encode message = .ok body) :
      message.decode scan body = .ok message ↔ message.QueryBounded :=
    decode_of_raw (decodeObject_encode hcode hread hencode)
      (Yams.encode_eq_ok hencode).1
  constructor
  · intro body hencode
    exact hdecode hencode
  · intro body hjson haccepted
    have hdecoded : Decoded scan body message := by
      rcases haccepted with hrequest | hresponse
      · exact decodeRequest_eq_ok hrequest
      · exact decodeResponse_eq_ok hresponse
    have hencode := hdecoded.encode_eq_ok hjson
    exact ⟨_, hencode, (hdecode hencode).2 hdecoded.query⟩

end Codec

namespace MessageCodecWitness

def completed : Message := .completed ⟨"run-1".toList, 3, "a\tb".toList, []⟩

def scan : Text → Json.Scan := fun _ => ⟨completed.wire, true⟩

/-- A completion is encoded and decoded, whichever side it starts on. -/
theorem codec_roundTrip_completed :
    (∀ body, encode completed = .ok body →
      (completed.decode scan body = .ok completed ↔ completed.QueryBounded)) ∧
    ∀ body, ReadsJson scan body →
      (decodeRequest scan body = .ok completed ∨
        decodeResponse scan body = .ok completed) →
      ∃ encoded, encode completed = .ok encoded ∧
        completed.decode scan encoded = .ok completed := by
  have hcode : completed.ByteCode := by
    change 3 < 256
    decide
  exact codec_roundTrip_iff hcode rfl

def search (query : Text) : Request where
  operation :=
    { kind := .search, query, k := "5".toList, json := false, full := false
      noGate := false, explain := false, minScore := none, maxGap := none
      project := none }
  argv := []
  cwd := "/".toList

/-- A search for a text of one byte too many. -/
def longRequest : Request :=
  search (List.replicate (maxArgumentBytes + 1) 'a')

def longScan : Text → Json.Scan :=
  fun _ => ⟨(Message.request longRequest).wire, true⟩

theorem byteLength_search (query : Text) :
    (Json.obj (requestWire (search query))).render.byteLength =
      escapedLength query + 157 := by
  have hkind : escapedLength OperationKind.search.asStr = 6 := by decide
  have hk : escapedLength "5".toList = 1 := by decide
  have hcwd : escapedLength "/".toList = 1 := by decide
  have hfalse : boolLength false = 5 := rfl
  rw [byteLength_request]
  simp only [search, operationLength, argvLength, optionLength, hkind, hk, hcwd,
    hfalse, List.map_nil, List.sum_nil]
  omega

theorem encode_longRequest :
    encode (.request longRequest) =
      .ok (Json.obj (requestWire longRequest)).render.toBytes := by
  have hshort : (Json.obj (requestWire longRequest)).render.byteLength ≤
      maxRequestBytes := by
    rw [longRequest, byteLength_search, escapedLength_replicate]
    decide
  exact encode_of_short rfl hshort

/-- A request with a longer query is encoded, and refused by its decoder. -/
theorem long_query_not_decoded :
    ¬ ∀ (scan : Text → Json.Scan) (message : Message) (body : Bytes),
      message.ByteCode → ReadBack scan message → encode message = .ok body →
      message.decode scan body = .ok message := by
  intro h
  have hdecode := h longScan (.request longRequest) _ trivial rfl encode_longRequest
  have hraw : decodeObject longScan _ (Message.request longRequest).limit =
      .ok (Message.request longRequest).raw :=
    decodeObject_encode trivial rfl encode_longRequest
  have hquery := (decode_of_raw hraw rfl).1 hdecode
  change Text.byteLength (List.replicate (maxArgumentBytes + 1) 'a') ≤ _ at hquery
  rw [byteLength_replicate] at hquery
  exact absurd hquery (by decide)

end MessageCodecWitness

end Yams

/-
A request that is encoded is decoded to itself: the compact text nests no deeper
than the reader allows, and every field is found where it was written.
-/
import Yams.Message
import Yams.Program

namespace Yams

namespace Json

mutual

/-- How deeply objects and arrays are nested. -/
def depth : Json → Nat
  | .arr items => depthItems items + 1
  | .obj fields => depthFields fields + 1
  | _ => 0

def depthItems : List Json → Nat
  | [] => 0
  | item :: items => max item.depth (depthItems items)

def depthFields : List (Text × Json) → Nat
  | [] => 0
  | (_, value) :: fields => max value.depth (depthFields fields)

end

end Json

namespace Nesting

/-- The scan of `text` neither fails nor leaves a trace at depth `d`. -/
def Passes (d : Nat) (text : Text) : Prop :=
  ∀ rest, scan (text ++ rest) ⟨d, false, false⟩ = scan rest ⟨d, false, false⟩

/-- The scan of `text` stays within a string literal. -/
def StaysQuoted (d : Nat) (text : Text) : Prop :=
  ∀ rest, scan (text ++ rest) ⟨d, true, false⟩ = scan rest ⟨d, true, false⟩

theorem passes_nil (d : Nat) : Passes d [] := fun _ => rfl

theorem Passes.append {d : Nat} {text text' : Text} (h : Passes d text)
    (h' : Passes d text') : Passes d (text ++ text') := by
  intro rest
  rw [List.append_assoc, h, h']

theorem staysQuoted_append {d : Nat} {text text' : Text}
    (h : StaysQuoted d text) (h' : StaysQuoted d text') :
    StaysQuoted d (text ++ text') := by
  intro rest
  rw [List.append_assoc, h, h']

/-- A character that the check does not look for. -/
def Plain (c : Char) : Prop :=
  c ≠ '"' ∧ c ≠ '{' ∧ c ≠ '[' ∧ c ≠ '}' ∧ c ≠ ']'

instance (c : Char) : Decidable (Plain c) := inferInstanceAs (Decidable (_ ∧ _))

theorem passes_cons {d : Nat} {c : Char} {text : Text} (hc : Plain c)
    (h : Passes d text) : Passes d (c :: text) := by
  intro rest
  obtain ⟨hquote, hbrace, hbracket, hbrace', hbracket'⟩ := hc
  have hstep : step ⟨d, false, false⟩ c = .ok ⟨d, false, false⟩ := by
    simp [step, hquote, hbrace, hbracket, hbrace', hbracket']
  change (step ⟨d, false, false⟩ c >>= scan (text ++ rest)) = _
  rw [hstep]
  exact h rest

theorem passes_of_plain {d : Nat} (text : Text)
    (h : (text.all fun c => Plain c) = true) : Passes d text := by
  induction text with
  | nil => exact passes_nil d
  | cons c text ih =>
      rw [List.all_cons, Bool.and_eq_true] at h
      exact passes_cons (of_decide_eq_true h.1) (ih h.2)

theorem staysQuoted_nil (d : Nat) : StaysQuoted d [] := fun _ => rfl

theorem staysQuoted_cons {d : Nat} {c : Char} {text : Text} (hquote : c ≠ '"')
    (hslash : c ≠ '\\') (h : StaysQuoted d text) : StaysQuoted d (c :: text) := by
  intro rest
  have hstep : step ⟨d, true, false⟩ c = .ok ⟨d, true, false⟩ := by
    simp [step, hquote, hslash]
  change (step ⟨d, true, false⟩ c >>= scan (text ++ rest)) = _
  rw [hstep]
  exact h rest

/-- A backslash takes the next character with it. -/
theorem staysQuoted_escaped {d : Nat} (c : Char) {text : Text}
    (h : StaysQuoted d text) : StaysQuoted d ('\\' :: c :: text) := by
  intro rest
  have hslash : step ⟨d, true, false⟩ '\\' = .ok ⟨d, true, true⟩ := rfl
  have hnext : step ⟨d, true, true⟩ c = .ok ⟨d, true, false⟩ := rfl
  change (step ⟨d, true, false⟩ '\\' >>= fun st =>
    step st c >>= scan (text ++ rest)) = _
  rw [hslash]
  change (step ⟨d, true, true⟩ c >>= scan (text ++ rest)) = _
  rw [hnext]
  exact h rest

theorem digitChar_unquoted :
    ∀ n < 16, Nat.digitChar n ≠ '"' ∧ Nat.digitChar n ≠ '\\' := by
  decide

theorem staysQuoted_hexDigits {d n : Nat} (hn : n < 32) :
    StaysQuoted d (Json.hexDigits n) := by
  have hfirst := digitChar_unquoted (n / 16) (by omega)
  have hsecond := digitChar_unquoted (n % 16) (by omega)
  exact staysQuoted_cons hfirst.1 hfirst.2
    (staysQuoted_cons hsecond.1 hsecond.2 (staysQuoted_nil d))

theorem staysQuoted_escape (d : Nat) (c : Char) :
    StaysQuoted d (Json.escape c) := by
  unfold Json.escape
  split
  · exact staysQuoted_escaped _ (staysQuoted_nil d)
  split
  · exact staysQuoted_escaped _ (staysQuoted_nil d)
  split
  · exact staysQuoted_escaped _ (staysQuoted_nil d)
  split
  · exact staysQuoted_escaped _ (staysQuoted_nil d)
  split
  · exact staysQuoted_escaped _ (staysQuoted_nil d)
  split
  · exact staysQuoted_escaped _ (staysQuoted_nil d)
  split
  · exact staysQuoted_escaped _ (staysQuoted_nil d)
  split
  · rename_i hcontrol
    have hzero : StaysQuoted d ['0'] :=
      staysQuoted_cons (by decide) (by decide) (staysQuoted_nil d)
    exact staysQuoted_escaped 'u'
      (staysQuoted_append hzero
        (staysQuoted_append hzero (staysQuoted_hexDigits hcontrol)))
  · rename_i hquote hslash _ _ _ _ _ _
    exact staysQuoted_cons hquote hslash (staysQuoted_nil d)

theorem staysQuoted_flatMap (d : Nat) (text : Text) :
    StaysQuoted d (text.flatMap Json.escape) := by
  induction text with
  | nil => exact staysQuoted_nil d
  | cons c text ih =>
      rw [List.flatMap_cons]
      exact staysQuoted_append (staysQuoted_escape d c) ih

theorem passes_renderString (d : Nat) (text : Text) :
    Passes d (Json.renderString text) := by
  intro rest
  have hquoted := staysQuoted_flatMap d text ('"' :: rest)
  have hshape : Json.renderString text ++ rest
      = '"' :: (text.flatMap Json.escape ++ '"' :: rest) := by
    simp [Json.renderString]
  rw [hshape]
  exact hquoted

theorem passes_ofNat (d n : Nat) : Passes d (Text.ofNat n) := by
  apply passes_of_plain
  rw [List.all_eq_true]
  intro c hc
  apply decide_eq_true
  have hdigit : c.isDigit = true :=
    Nat.isDigit_of_mem_toDigits (by decide) (by decide) hc
  refine ⟨?_, ?_, ?_, ?_, ?_⟩ <;>
    · rintro rfl
      exact absurd hdigit (by decide)

/-- A bracketed text passes one level deeper. -/
theorem passes_nested {d : Nat} {first last : Char} {text : Text}
    (hfirst : first = '{' ∨ first = '[') (hlast : last = '}' ∨ last = ']')
    (hdepth : d + 1 ≤ maxJsonNesting) (h : Passes (d + 1) text) :
    Passes d (first :: text ++ [last]) := by
  intro rest
  have hopen : step ⟨d, false, false⟩ first = .ok ⟨d + 1, false, false⟩ := by
    have hroom : ¬ d + 1 > maxJsonNesting := by omega
    rcases hfirst with rfl | rfl <;> simp [step, hroom]
  have hclose : step ⟨d + 1, false, false⟩ last = .ok ⟨d, false, false⟩ := by
    rcases hlast with rfl | rfl <;> simp [step]
  have hshape : first :: text ++ [last] ++ rest
      = first :: (text ++ last :: rest) := by simp
  rw [hshape]
  change (step ⟨d, false, false⟩ first >>= scan (text ++ last :: rest)) = _
  rw [hopen]
  change scan (text ++ last :: rest) ⟨d + 1, false, false⟩ = _
  rw [h]
  change (step ⟨d + 1, false, false⟩ last >>= scan rest) = _
  rw [hclose]
  rfl

mutual

/-- A value passes when it fits below the depth that is left. -/
theorem passes_render {d : Nat} :
    ∀ v : Json, d + v.depth ≤ maxJsonNesting → Passes d v.render
  | .null, _ => by
      rw [Json.render]
      exact passes_of_plain _ (by decide)
  | .bool true, _ => by
      rw [Json.render]
      exact passes_of_plain _ (by decide)
  | .bool false, _ => by
      rw [Json.render]
      exact passes_of_plain _ (by decide)
  | .num n, _ => by
      rw [Json.render]
      exact passes_ofNat d n
  | .str text, _ => by
      rw [Json.render]
      exact passes_renderString d text
  | .arr items, h => by
      rw [Json.depth] at h
      rw [Json.render]
      exact passes_nested (.inr rfl) (.inr rfl) (by omega)
        (passes_renderItems items (by omega))
  | .obj fields, h => by
      rw [Json.depth] at h
      rw [Json.render]
      exact passes_nested (.inl rfl) (.inl rfl) (by omega)
        (passes_renderFields fields (by omega))

theorem passes_renderItems {d : Nat} :
    ∀ items : List Json, d + Json.depthItems items ≤ maxJsonNesting →
      Passes d (Json.renderItems items)
  | [], _ => by
      rw [Json.renderItems]
      exact passes_nil d
  | [item], h => by
      rw [Json.depthItems] at h
      rw [Json.renderItems]
      exact passes_render item (by omega)
  | item :: item' :: items, h => by
      rw [Json.depthItems] at h
      rw [Json.renderItems]
      · exact (passes_render item (by omega)).append (passes_cons (by decide)
          (passes_renderItems (item' :: items) (by omega)))
      · simp

theorem passes_renderFields {d : Nat} :
    ∀ fields : List (Text × Json),
      d + Json.depthFields fields ≤ maxJsonNesting →
      Passes d (Json.renderFields fields)
  | [], _ => by
      rw [Json.renderFields]
      exact passes_nil d
  | [(key, value)], h => by
      rw [Json.depthFields] at h
      rw [Json.renderFields]
      exact (passes_renderString d key).append
        (passes_cons (by decide) (passes_render value (by omega)))
  | (key, value) :: field :: fields, h => by
      rw [Json.depthFields] at h
      rw [Json.renderFields]
      · have hvalue : Passes d (Json.renderString key ++ ':' :: value.render) :=
          (passes_renderString d key).append
            (passes_cons (by decide) (passes_render value (by omega)))
        exact hvalue.append (passes_cons (by decide)
          (passes_renderFields (field :: fields) (by omega)))
      · simp

end

end Nesting

/-- The text of a shallow object passes the nesting check. -/
theorem validateNesting_render (v : Json) (h : v.depth ≤ maxJsonNesting) :
    validateNesting v.render = .ok () := by
  have hpasses := Nesting.passes_render (d := 0) v (by omega) []
  rw [List.append_nil] at hpasses
  simp only [validateNesting, hpasses, Nesting.scan, Except.map]

theorem asTexts_arr (texts : List Text) :
    (Json.arr (texts.map .str)).asTexts = some texts := by
  simp only [Json.asTexts]
  induction texts with
  | nil => rfl
  | cons text texts ih =>
      simp only [List.map_cons, List.mapM_cons, ih]
      rfl

/-- The fields of an operation as the reader collects them. -/
def rawOperation (operation : ServiceOperation) : RawOperation where
  kind := some operation.kind.asStr
  query := some operation.query
  k := some operation.k
  json := some operation.json
  full := some operation.full
  noGate := some operation.noGate
  explain := some operation.explain
  minScore := operation.minScore
  maxGap := operation.maxGap
  project := operation.project

theorem ofFields_operationWire (operation : ServiceOperation) :
    RawOperation.ofFields (operationWire operation) .default
      = .ok (rawOperation operation) := by
  obtain ⟨kind, query, k, json, full, noGate, explain, minScore, maxGap,
    project⟩ := operation
  cases minScore <;> cases maxGap <;> cases project <;> rfl

theorem decodeOperation_raw (operation : ServiceOperation)
    (hquery : operation.query.byteLength ≤ maxArgumentBytes) :
    decodeOperation (rawOperation operation) = .ok operation := by
  have hsmall : ¬ operation.query.byteLength > maxArgumentBytes := by omega
  simp only [decodeOperation, rawOperation, OperationKind.parse_asStr, hsmall,
    if_false]

/-- The fields of a request as the reader collects them. -/
def rawRequest (request : Request) : RawMessage :=
  { RawMessage.default with
    version := some protocolVersion
    messageType := some "request"
    operation := some (rawOperation request.operation)
    argv := some request.argv
    cwd := some request.cwd }

theorem visit_operation (raw : RawMessage) (h : raw.operation = none)
    (operation : ServiceOperation) :
    raw.visit "operation" (.obj (operationWire operation))
      = .ok { raw with operation := some (rawOperation operation) } := by
  change (readOperation raw.operation _ >>= _) = _
  rw [h]
  simp only [readOperation, ofFields_operationWire]
  rfl

theorem visit_argv (raw : RawMessage) (h : raw.argv = none)
    (argv : List Text) :
    raw.visit "argv" (.arr (argv.map .str))
      = .ok { raw with argv := some argv } := by
  change (readOnce raw.argv _ >>= _) = _
  rw [h, asTexts_arr]
  rfl

theorem ofFields_requestWire (request : Request) :
    RawMessage.ofFields (requestWire request) .default
      = .ok (rawRequest request) := by
  change (RawMessage.visit { RawMessage.default with
    version := some protocolVersion
    messageType := some "request" } "operation" _ >>= _) = _
  rw [visit_operation _ rfl]
  change (RawMessage.visit { RawMessage.default with
    version := some protocolVersion
    messageType := some "request"
    operation := some (rawOperation request.operation) } "argv" _ >>= _) = _
  rw [visit_argv _ rfl]
  rfl

theorem depth_requestWire (request : Request) :
    (Json.obj (requestWire request)).depth ≤ maxJsonNesting := by
  have hargv : Json.depthItems (request.argv.map .str) = 0 := by
    induction request.argv with
    | nil => rfl
    | cons argument argv ih =>
        simp only [List.map_cons, Json.depthItems, Json.depth, ih, Nat.max_self]
  have hoperation : Json.depthFields (operationWire request.operation) = 0 := by
    obtain ⟨kind, query, k, json, full, noGate, explain, minScore, maxGap,
      project⟩ := request.operation
    cases minScore <;> cases maxGap <;> cases project <;> rfl
  simp only [requestWire, Json.depth, Json.depthFields, hargv, hoperation]
  decide

theorem encodeBounded_eq_ok {fields : List (Text × Json)} {limit : Nat}
    {body : Bytes} (h : encodeBounded fields limit = .ok body) :
    body = (Json.obj fields).render.toBytes ∧ body.length ≤ limit := by
  unfold encodeBounded at h
  dsimp only at h
  split at h
  · cases h
  · cases h
    exact ⟨rfl, by omega⟩

theorem encode_request_eq_ok {request : Request} {body : Bytes}
    (h : encode (.request request) = .ok body) :
    validateRequest request = .ok () ∧
      body = (Json.obj (requestWire request)).render.toBytes ∧
      body.length ≤ maxRequestBytes := by
  obtain ⟨⟨⟩, hvalid, hbody⟩ := except_bind_eq_ok.1 h
  exact ⟨hvalid, encodeBounded_eq_ok hbody⟩

/-- The reader of the root object, on what `encode` wrote. -/
theorem decodeObject_request {scan : Text → Json.Scan} {request : Request}
    {body : Bytes} (hencode : encode (.request request) = .ok body)
    (hscan : scan (Json.obj (requestWire request)).render
      = ⟨requestWire request, true⟩) :
    decodeObject scan body maxRequestBytes = .ok (rawRequest request) := by
  obtain ⟨_, hbody, hsize⟩ := encode_request_eq_ok hencode
  have hsmall : ¬ body.length > maxRequestBytes := by omega
  have hroot : rootIsObject (Json.obj (requestWire request)).render
      = .ok () := by
    rw [Json.render]
    rfl
  have hnesting := validateNesting_render (.obj (requestWire request))
    (depth_requestWire request)
  rw [decodeObject, if_neg hsmall, hbody, Text.fromUtf8_toBytes]
  simp only [Option.elim, except_ok_bind, hnesting, hroot, hscan,
    ofFields_requestWire, if_true]

/-- A request that could be encoded is decoded to itself. -/
theorem decodeRequest_encode {scan : Text → Json.Scan} {request : Request}
    {body : Bytes} (hencode : encode (.request request) = .ok body)
    (hscan : scan (Json.obj (requestWire request)).render
      = ⟨requestWire request, true⟩)
    (hquery : request.operation.query.byteLength ≤ maxArgumentBytes) :
    decodeRequest scan body = .ok (.request request) := by
  obtain ⟨hvalid, _, _⟩ := encode_request_eq_ok hencode
  rw [decodeRequest, decodeObject_request hencode hscan]
  simp only [except_ok_bind, rawRequest, if_true, RawMessage.default,
    decodeOperation_raw _ hquery, hvalid]
  rfl

end Yams

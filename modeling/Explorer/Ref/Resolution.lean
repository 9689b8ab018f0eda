import Explorer.Lib.Json
import Explorer.Ref.Pages

/-!
# Special resolutions (`crates/ingestion/src/lib.rs`, `crates/http-api`)

A special resolution is a tree of calls. The ingestion writes it into the
payload of its event with every argument; an event response shows it without
the arguments and with at most `SPECIAL_RESOLUTION_INLINE_CALLS` calls at a
level; a route of its own pages the stored calls by an offset.

The arguments of a call are what `serde_json::to_value` makes of them.
-/

namespace Explorer.Ref

open Explorer.Lib

structure SdkSpecialResolutionCall where
  module : String
  moduleId : Nat
  method : String
  methodId : Nat
  arguments : Option Json
  calls : Option (List SdkSpecialResolutionCall)

/-- The calls of a resolution are a `Vec`, which holds at most `isize::MAX`
of them. -/
structure SdkSpecialResolutionData where
  resolutionId : Nat
  description : Option String
  calls : List SdkSpecialResolutionCall
  callsFit : calls.length < 2 ^ 63

/-! ## Writing -/

/-- Insert a name unless it is empty. -/
def setName (key name : String) (fields : Json.Fields) : Json.Fields :=
  if name = "" then fields else Json.setField key (.str name) fields

mutual

/-- One call of `build_special_resolution_calls`. -/
def buildSpecialResolutionCall : SdkSpecialResolutionCall → Json
  | ⟨module, moduleId, method, methodId, arguments, calls⟩ =>
      let payload := setName "module" module []
      let payload := Json.setField "module_id" (.ofNat moduleId) payload
      let payload := setName "method" method payload
      let payload := Json.setField "method_id" (.ofNat methodId) payload
      let payload := match arguments with
        | none => payload
        | some value => Json.setField "arguments" value payload
      .obj (Json.setField "calls" (.arr (buildNestedCalls calls)) payload)

/-- `call.calls.as_deref().unwrap_or_default()`. -/
def buildNestedCalls : Option (List SdkSpecialResolutionCall) → List Json
  | none => []
  | some calls => buildSpecialResolutionCalls calls

/-- `build_special_resolution_calls`. -/
def buildSpecialResolutionCalls : List SdkSpecialResolutionCall → List Json
  | [] => []
  | call :: rest =>
      buildSpecialResolutionCall call :: buildSpecialResolutionCalls rest

end

/-- `build_special_resolution_payload`. -/
def buildSpecialResolutionPayload (data : SdkSpecialResolutionData) : Json :=
  let payload := Json.setField "resolution_id"
    (.str (toString data.resolutionId)) []
  let payload := match data.description with
    | none => payload
    | some description =>
        Json.setField "description" (.str description) payload
  .obj (Json.setField "calls" (.arr (buildSpecialResolutionCalls data.calls))
    payload)

/-! ## Serving inline -/

def specialResolutionInlineCalls : Nat := 50

/-- Copy the fields that are there. -/
def copyFields (keys : List String) (source target : Json.Fields) :
    Json.Fields :=
  keys.foldl
    (fun acc key =>
      match source.lookup key with
      | some value => Json.setField key value acc
      | none => acc)
    target

/-- The calls below a call or a resolution, none when they are no array. -/
def nestedCalls (fields : Json.Fields) : List Json :=
  ((fields.lookup "calls").bind Json.asArray).getD []

theorem sizeOf_nestedCalls {fields : Json.Fields} {call : Json}
    (h : call ∈ nestedCalls fields) :
    sizeOf call < sizeOf (Json.obj fields) := by
  rw [nestedCalls] at h
  cases hcalls : fields.lookup "calls" with
  | none =>
      rw [hcalls] at h
      cases h
  | some value =>
      rw [hcalls] at h
      have hvalue := Json.sizeOf_lookup_lt hcalls
      cases value with
      | arr items =>
          have hitem : sizeOf call < sizeOf items := List.sizeOf_lt_of_mem h
          have hitems : sizeOf items < sizeOf (Json.arr items) := by simp
          omega
      | _ => cases h

/-- One call of `project_resolution_calls`. -/
def projectResolutionCall (call : Json) : Json :=
  match call with
  | .obj fields =>
      let nested := nestedCalls fields
      let projected := copyFields
        ["module", "module_id", "method", "method_id"] fields []
      let projected := Json.setField "has_arguments"
        (.bool (fields.lookup "arguments").isSome) projected
      let projected := Json.setField "calls_total" (.ofNat nested.length)
        projected
      .obj (Json.setField "calls"
        (.arr ((nested.take specialResolutionInlineCalls).attach.map fun c =>
          projectResolutionCall c.1)) projected)
  | call => call
termination_by sizeOf call
decreasing_by
  exact sizeOf_nestedCalls (List.mem_of_mem_take c.2)

/-- `project_resolution_calls`. -/
def projectResolutionCalls (calls : List Json) : List Json :=
  (calls.take specialResolutionInlineCalls).map projectResolutionCall

/-- `project_special_resolution`. -/
def projectSpecialResolution (payload : Json) : Json :=
  match payload with
  | .obj fields =>
      let calls := nestedCalls fields
      let projected := copyFields ["resolution_id", "description"] fields []
      let projected := Json.setField "calls_total" (.ofNat calls.length)
        projected
      .obj (Json.setField "calls" (.arr (projectResolutionCalls calls))
        projected)
  | payload => payload

/-! ## Paging the stored calls -/

/-- The errors of the route. -/
inductive ApiError where
  | notFound (message : String)
  | badRequest (message : String)
  deriving Repr, DecidableEq

/-- `OffsetCursor::encode`. -/
def encodeOffset (offset : Int) : String := "offset:" ++ toString offset

/-- `str::strip_prefix`, on the characters. -/
def stripStart : List Char → List Char → Option (List Char)
  | [], cs => some cs
  | _ :: _, [] => none
  | p :: ps, c :: cs => if p = c then stripStart ps cs else none

/-- `OffsetCursor::parse`. -/
def parseOffset (value : String) : Except String Int :=
  match stripStart "offset:".toList value.toList with
  | none => .error "expected 'offset:<n>'"
  | some payload =>
      match parseSigned 64 payload with
      | .error e => .error ("invalid offset: " ++ e)
      | .ok offset =>
          if offset < 0 then .error "offset cannot be negative"
          else .ok offset

/-- `OffsetCursor::parse_optional`. -/
def parseOptionalOffset : Option String → Except ApiError Int
  | none => .ok 0
  | some value =>
      match parseOffset value with
      | .error e => .error (.badRequest ("invalid cursor: " ++ e))
      | .ok offset => .ok offset

structure ResolutionCallListResponse where
  totalResults : Nat
  calls : List Json
  nextCursor : Option String

/-- `event_resolution_calls`, with the payload that is stored for the
event. -/
def eventResolutionCalls (eventId : Int) (payload : Option Json)
    (limit : Option Int) (cursor : Option String) :
    Except ApiError ResolutionCallListResponse :=
  match parseOptionalOffset cursor with
  | .error e => .error e
  | .ok offset =>
      match payload with
      | none => .error (.notFound
          ("event " ++ toString eventId ++ " has no stored payload"))
      | some payload =>
          match ((payload.get "special_resolution_event").bind fun r =>
              r.get "calls").bind Json.asArray with
          | none => .error (.notFound
              ("event " ++ toString eventId ++ " is not a special resolution"))
          | some calls =>
              let page := (calls.drop offset.toNat).take (clampLimit limit)
              .ok
                { totalResults := calls.length
                  calls := page
                  nextCursor :=
                    if offset.toNat + page.length < calls.length then
                      some (encodeOffset (offset + page.length))
                    else none }

end Explorer.Ref

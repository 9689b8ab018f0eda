import Explorer.Lib.OffsetPages
import Explorer.Proofs.Pagination
import Explorer.Ref.Resolution

/-!
# A special resolution is shown and paged as it came

What a response shows of a call is read off the fields that were written for
it, level by level, so the proof is an induction over the tree of calls. The
arguments stay behind because the projection copies four fields by name and
writes three of its own, and none of their values is an object with
arguments: two texts, two numbers, a flag, a count and projected calls.

The offset of a page is the number of calls before it. A page that is not the
last is not empty, and the next starts where it ends.
-/

namespace Explorer.Ref

open Explorer.Lib

def SdkSpecialResolutionCall.children (call : SdkSpecialResolutionCall) :
    List SdkSpecialResolutionCall :=
  call.calls.getD []

/-- A name is shown unless it is empty. -/
def nameShown (name : String) : Option Json :=
  if name = "" then none else some (.str name)

/-- The names and ids of the call are there. -/
structure NamesCall (call : SdkSpecialResolutionCall) (json : Json) :
    Prop where
  module : json.get "module" = nameShown call.module
  moduleId : json.get "module_id" = some (.ofNat call.moduleId)
  method : json.get "method" = nameShown call.method
  methodId : json.get "method_id" = some (.ofNat call.methodId)

/-- A call as an event response shows it. -/
inductive Shows : SdkSpecialResolutionCall → Json → Prop
  | intro {call : SdkSpecialResolutionCall} {json : Json}
      {nested : List Json} : NamesCall call json →
      json.get "has_arguments" = some (.bool call.arguments.isSome) →
      json.get "calls_total" = some (.ofNat call.children.length) →
      json.get "calls" = some (.arr nested) →
      List.Forall₂ Shows (call.children.take specialResolutionInlineCalls)
        nested →
      Shows call json

/-- A call as it is stored, with its arguments and all calls below it. -/
inductive StoredCall : SdkSpecialResolutionCall → Json → Prop
  | intro {call : SdkSpecialResolutionCall} {json : Json}
      {nested : List Json} : NamesCall call json →
      json.get "arguments" = call.arguments →
      json.get "calls" = some (.arr nested) →
      List.Forall₂ StoredCall call.children nested →
      StoredCall call json

/-- A resolution as an event response shows it. -/
structure ShowsResolution (data : SdkSpecialResolutionData) (json : Json) :
    Prop where
  resolutionId : json.get "resolution_id" =
    some (.str (toString data.resolutionId))
  description : json.get "description" = data.description.map Json.str
  callsTotal : json.get "calls_total" = some (.ofNat data.calls.length)
  calls : ∃ nested, json.get "calls" = some (.arr nested) ∧
    List.Forall₂ Shows (data.calls.take specialResolutionInlineCalls) nested

/-! ## The tree of calls -/

theorem sizeOf_children_lt {call child : SdkSpecialResolutionCall}
    (h : child ∈ call.children) : sizeOf child < sizeOf call := by
  obtain ⟨module, moduleId, method, methodId, arguments, calls⟩ := call
  cases calls with
  | none => cases h
  | some calls =>
      have hchild : sizeOf child < sizeOf calls := List.sizeOf_lt_of_mem h
      simp
      omega

/-- Induction over a call and the calls below it. -/
@[elab_as_elim]
theorem SdkSpecialResolutionCall.tree_induction
    {P : SdkSpecialResolutionCall → Prop}
    (step : ∀ call, (∀ child ∈ call.children, P child) → P call)
    (call : SdkSpecialResolutionCall) : P call :=
  step call fun child _ => tree_induction step child
termination_by sizeOf call
decreasing_by exact sizeOf_children_lt ‹_›

theorem buildSpecialResolutionCalls_eq
    (calls : List SdkSpecialResolutionCall) :
    buildSpecialResolutionCalls calls =
      calls.map buildSpecialResolutionCall := by
  induction calls with
  | nil => rw [buildSpecialResolutionCalls, List.map_nil]
  | cons call rest ih => rw [buildSpecialResolutionCalls, ih, List.map_cons]

theorem buildNestedCalls_eq (call : SdkSpecialResolutionCall) :
    buildNestedCalls call.calls =
      call.children.map buildSpecialResolutionCall := by
  rw [SdkSpecialResolutionCall.children]
  cases call.calls with
  | none => rw [buildNestedCalls, Option.getD_none, List.map_nil]
  | some calls =>
      rw [buildNestedCalls, Option.getD_some, buildSpecialResolutionCalls_eq]

/-! ## What is written -/

theorem lookup_setName (key name k : String) (fields : Json.Fields) :
    (setName key name fields).lookup k =
      if k = key ∧ name ≠ "" then some (.str name)
      else fields.lookup k := by
  rw [setName]
  split
  · next h => simp [h]
  · next h => simp [h]

/-- The fields of a written call. -/
def callFields (call : SdkSpecialResolutionCall) : Json.Fields :=
  let payload := setName "module" call.module []
  let payload := Json.setField "module_id" (.ofNat call.moduleId) payload
  let payload := setName "method" call.method payload
  let payload := Json.setField "method_id" (.ofNat call.methodId) payload
  let payload := match call.arguments with
    | none => payload
    | some value => Json.setField "arguments" value payload
  Json.setField "calls" (.arr (call.children.map buildSpecialResolutionCall))
    payload

theorem buildSpecialResolutionCall_eq (call : SdkSpecialResolutionCall) :
    buildSpecialResolutionCall call = .obj (callFields call) := by
  have hnested := buildNestedCalls_eq call
  obtain ⟨module, moduleId, method, methodId, arguments, calls⟩ := call
  rw [callFields, ← hnested]
  cases arguments <;> simp only [buildSpecialResolutionCall]

theorem lookup_callFields (call : SdkSpecialResolutionCall) :
    (callFields call).lookup "module" = nameShown call.module ∧
    (callFields call).lookup "module_id" = some (.ofNat call.moduleId) ∧
    (callFields call).lookup "method" = nameShown call.method ∧
    (callFields call).lookup "method_id" = some (.ofNat call.methodId) ∧
    (callFields call).lookup "arguments" = call.arguments ∧
    (callFields call).lookup "calls" =
      some (.arr (call.children.map buildSpecialResolutionCall)) := by
  rw [callFields]
  cases call.arguments <;>
    simp [lookup_setName, nameShown, ite_not]

theorem stored_build (call : SdkSpecialResolutionCall) :
    StoredCall call (buildSpecialResolutionCall call) := by
  induction call using SdkSpecialResolutionCall.tree_induction with
  | step call ih =>
      obtain ⟨hmodule, hmoduleId, hmethod, hmethodId, harguments, hcalls⟩ :=
        lookup_callFields call
      rw [buildSpecialResolutionCall_eq]
      refine .intro ⟨hmodule, hmoduleId, hmethod, hmethodId⟩ harguments
        hcalls ?_
      rw [List.forall₂_map_right_iff, List.forall₂_same]
      exact ih

/-! ## What is shown -/

theorem lookup_copyFields (keys : List String) (source target : Json.Fields)
    (k : String) :
    (copyFields keys source target).lookup k =
      if k ∈ keys ∧ (source.lookup k).isSome then source.lookup k
      else target.lookup k := by
  rw [copyFields]
  induction keys generalizing target with
  | nil => simp
  | cons key rest ih =>
      rw [List.foldl_cons, ih]
      by_cases hrest : k ∈ rest ∧ (source.lookup k).isSome = true
      · rw [if_pos hrest, if_pos ⟨List.mem_cons_of_mem _ hrest.1, hrest.2⟩]
      · rw [if_neg hrest]
        cases hkey : source.lookup key with
        | none =>
            rw [if_neg]
            rintro ⟨hmem, hsome⟩
            rcases List.mem_cons.mp hmem with rfl | hmem
            · rw [hkey] at hsome
              cases hsome
            · exact hrest ⟨hmem, hsome⟩
        | some value =>
            rw [Json.lookup_setField]
            by_cases hk : k = key
            · subst hk
              rw [if_pos rfl, if_pos ⟨List.mem_cons_self, by rw [hkey]; rfl⟩,
                hkey]
            · rw [if_neg hk, if_neg]
              rintro ⟨hmem, hsome⟩
              rcases List.mem_cons.mp hmem with rfl | hmem
              · exact hk rfl
              · exact hrest ⟨hmem, hsome⟩

theorem nestedCalls_eq {fields : Json.Fields} {calls : List Json}
    (h : fields.lookup "calls" = some (.arr calls)) :
    nestedCalls fields = calls := by
  rw [nestedCalls, h]
  rfl

/-- The projection of a written call. -/
def shownFields (call : SdkSpecialResolutionCall) : Json.Fields :=
  Json.setField "calls"
    (.arr ((call.children.take specialResolutionInlineCalls).map fun c =>
      projectResolutionCall (buildSpecialResolutionCall c)))
    (Json.setField "calls_total" (.ofNat call.children.length)
      (Json.setField "has_arguments" (.bool call.arguments.isSome)
        (copyFields ["module", "module_id", "method", "method_id"]
          (callFields call) [])))

theorem projectResolutionCall_build (call : SdkSpecialResolutionCall) :
    projectResolutionCall (buildSpecialResolutionCall call) =
      .obj (shownFields call) := by
  obtain ⟨-, -, -, -, harguments, hcalls⟩ := lookup_callFields call
  rw [buildSpecialResolutionCall_eq, projectResolutionCall,
    nestedCalls_eq hcalls, harguments, List.length_map, shownFields]
  simp only [List.map_attach_eq_pmap, List.pmap_eq_map, ← List.map_take,
    List.map_map, Function.comp_def]

theorem lookup_shownFields (call : SdkSpecialResolutionCall) (k : String)
    (hk : k ∈ ["module", "module_id", "method", "method_id"]) :
    (shownFields call).lookup k = (callFields call).lookup k := by
  have hne : k ≠ "calls" ∧ k ≠ "calls_total" ∧ k ≠ "has_arguments" := by
    revert hk
    simp only [List.mem_cons, List.not_mem_nil, or_false]
    rintro (rfl | rfl | rfl | rfl) <;> decide
  rw [shownFields, Json.lookup_setField, Json.lookup_setField,
    Json.lookup_setField, if_neg hne.1, if_neg hne.2.1, if_neg hne.2.2,
    lookup_copyFields]
  cases h : (callFields call).lookup k with
  | none =>
      rw [if_neg]
      · rfl
      · rintro ⟨-, hsome⟩
        cases hsome
  | some value => rw [if_pos ⟨hk, rfl⟩]

theorem shows_project (call : SdkSpecialResolutionCall) :
    Shows call (projectResolutionCall (buildSpecialResolutionCall call)) := by
  induction call using SdkSpecialResolutionCall.tree_induction with
  | step call ih =>
      obtain ⟨hmodule, hmoduleId, hmethod, hmethodId, -, -⟩ :=
        lookup_callFields call
      have hshown := lookup_shownFields call
      have hcalls : (Json.obj (shownFields call)).get "calls" = some (.arr
          ((call.children.take specialResolutionInlineCalls).map fun c =>
            projectResolutionCall (buildSpecialResolutionCall c))) := by
        simp [Json.get, shownFields]
      rw [projectResolutionCall_build]
      refine .intro ⟨?_, ?_, ?_, ?_⟩ ?_ ?_ hcalls ?_
      · exact (hshown _ (by decide)).trans hmodule
      · exact (hshown _ (by decide)).trans hmoduleId
      · exact (hshown _ (by decide)).trans hmethod
      · exact (hshown _ (by decide)).trans hmethodId
      · simp [Json.get, shownFields]
      · simp [Json.get, shownFields]
      · rw [List.forall₂_map_right_iff, List.forall₂_same]
        exact fun child hchild => ih child (List.mem_of_mem_take hchild)

theorem lookup_payload (data : SdkSpecialResolutionData) :
    ∃ fields, buildSpecialResolutionPayload data = .obj fields ∧
      fields.lookup "resolution_id" =
        some (.str (toString data.resolutionId)) ∧
      fields.lookup "description" = data.description.map Json.str ∧
      fields.lookup "calls" =
        some (.arr (data.calls.map buildSpecialResolutionCall)) := by
  rw [buildSpecialResolutionPayload, buildSpecialResolutionCalls_eq]
  refine ⟨_, rfl, ?_⟩
  cases data.description <;> simp

theorem showsResolution_project (data : SdkSpecialResolutionData) :
    ShowsResolution data
      (projectSpecialResolution (buildSpecialResolutionPayload data)) := by
  obtain ⟨fields, hbuild, hid, hdescription, hcalls⟩ := lookup_payload data
  rw [hbuild, projectSpecialResolution, nestedCalls_eq hcalls]
  refine ⟨?_, ?_, ?_, projectResolutionCalls
    (data.calls.map buildSpecialResolutionCall), ?_, ?_⟩
  · simp [Json.get, lookup_copyFields, hid]
  · simp only [Json.get, Json.lookup_setField, lookup_copyFields]
    cases hd : data.description <;> simp [hdescription, hd]
  · simp [Json.get]
  · rw [Json.get, Json.lookup_setField, if_pos rfl]
  · rw [projectResolutionCalls, ← List.map_take, List.map_map,
      List.forall₂_map_right_iff, List.forall₂_same]
    exact fun call _ => shows_project call

/-! ## What is not shown -/

theorem not_hasKey_setField {key k : String} {value : Json}
    {fields : Json.Fields} (hkey : key ≠ k) (hvalue : ¬value.HasKey key)
    (hfields : ¬(Json.obj fields).HasKey key) :
    ¬(Json.obj (Json.setField k value fields)).HasKey key := by
  intro h
  cases h with
  | here hmem =>
      rcases Json.mem_setField hmem with heq | hmem
      · exact hkey (Prod.mk.inj heq).1
      · exact hfields (.here hmem)
  | field hmem hv =>
      rcases Json.mem_setField hmem with heq | hmem
      · rw [(Prod.mk.inj heq).2] at hv
        exact hvalue hv
      · exact hfields (.field hmem hv)

theorem not_hasKey_copyFields {key : String} {keys : List String}
    {source target : Json.Fields} (hkeys : key ∉ keys)
    (hsource : ∀ k ∈ keys, ∀ v, source.lookup k = some v → ¬v.HasKey key)
    (htarget : ¬(Json.obj target).HasKey key) :
    ¬(Json.obj (copyFields keys source target)).HasKey key := by
  rw [copyFields]
  induction keys generalizing target with
  | nil => exact htarget
  | cons k rest ih =>
      rw [List.mem_cons, not_or] at hkeys
      refine ih hkeys.2 (fun k' hk' => hsource k' (List.mem_cons_of_mem _ hk'))
        ?_
      cases hlookup : source.lookup k with
      | none =>
          simp only [hlookup]
          exact htarget
      | some value =>
          simp only [hlookup]
          exact not_hasKey_setField hkeys.1
            (hsource k List.mem_cons_self value hlookup) htarget

theorem not_hasKey_nil (key : String) : ¬(Json.obj []).HasKey key := by
  intro h
  cases h with
  | here hmem => cases hmem
  | field hmem _ => cases hmem

theorem not_hasKey_arr {key : String} {items : List Json}
    (h : ∀ item ∈ items, ¬item.HasKey key) : ¬(Json.arr items).HasKey key := by
  intro hkey
  cases hkey with
  | item hmem hv => exact h _ hmem hv

/-- The names and ids of a call are no objects. -/
theorem not_hasKey_names {call : SdkSpecialResolutionCall} {key : String} :
    ∀ k ∈ ["module", "module_id", "method", "method_id"], ∀ v,
      (callFields call).lookup k = some v → ¬v.HasKey key := by
  obtain ⟨hmodule, hmoduleId, hmethod, hmethodId, -, -⟩ :=
    lookup_callFields call
  simp only [List.forall_mem_cons, List.not_mem_nil, false_imp_iff,
    implies_true, and_true, hmodule, hmoduleId, hmethod, hmethodId, nameShown]
  refine ⟨?_, ?_, ?_, ?_⟩
  · intro v hv hkey
    split at hv <;> cases hv
    cases hkey
  · intro v hv hkey
    cases hv
    cases hkey
  · intro v hv hkey
    split at hv <;> cases hv
    cases hkey
  · intro v hv hkey
    cases hv
    cases hkey

theorem not_hasKey_project (call : SdkSpecialResolutionCall) :
    ¬(projectResolutionCall
      (buildSpecialResolutionCall call)).HasKey "arguments" := by
  induction call using SdkSpecialResolutionCall.tree_induction with
  | step call ih =>
      rw [projectResolutionCall_build, shownFields]
      refine not_hasKey_setField (by decide) (not_hasKey_arr ?_)
        (not_hasKey_setField (by decide) nofun
          (not_hasKey_setField (by decide) nofun
            (not_hasKey_copyFields (by decide) not_hasKey_names
              (not_hasKey_nil _))))
      intro item hitem
      obtain ⟨child, hchild, rfl⟩ := List.mem_map.mp hitem
      exact ih child (List.mem_of_mem_take hchild)

theorem not_hasKey_projectSpecialResolution
    (data : SdkSpecialResolutionData) :
    ¬(projectSpecialResolution
      (buildSpecialResolutionPayload data)).HasKey "arguments" := by
  obtain ⟨fields, hbuild, hid, hdescription, hcalls⟩ := lookup_payload data
  rw [hbuild, projectSpecialResolution, nestedCalls_eq hcalls]
  refine not_hasKey_setField (by decide) (not_hasKey_arr ?_)
    (not_hasKey_setField (by decide) (fun h => by cases h)
      (not_hasKey_copyFields (by decide) ?_ (not_hasKey_nil _)))
  · intro item hitem
    rw [projectResolutionCalls, ← List.map_take, List.map_map] at hitem
    obtain ⟨call, -, rfl⟩ := List.mem_map.mp hitem
    exact not_hasKey_project call
  · simp only [List.forall_mem_cons, List.not_mem_nil, false_imp_iff,
      implies_true, and_true, hid, hdescription]
    refine ⟨?_, ?_⟩
    · rintro v ⟨⟩ h
      cases h
    · intro v hv
      obtain ⟨text, -, rfl⟩ := Option.map_eq_some_iff.mp hv
      intro h
      cases h

/-! ## Pages of calls -/

theorem stripStart_append (front cs : List Char) :
    stripStart front (front ++ cs) = some cs := by
  induction front with
  | nil => rfl
  | cons c front ih => rw [List.cons_append, stripStart, if_pos rfl, ih]

theorem parseOptionalOffset_encode {offset : Nat} (h : offset < 2 ^ 63) :
    parseOptionalOffset (some (encodeOffset offset)) = .ok (offset : Int) := by
  have hparse : parseSigned 64 (toString (offset : Int)).toList =
      .ok (offset : Int) := parseSigned_toString (by omega) (by omega)
  have hpos : ¬(offset : Int) < 0 := by omega
  rw [parseOptionalOffset, parseOffset, encodeOffset, String.toList_append,
    stripStart_append]
  simp only [hparse, hpos, if_false]

theorem offset_start : parseOptionalOffset none = .ok ((0 : Nat) : Int) :=
  rfl

/-- The answers of the route that its pages are made of. -/
def resolutionPages (eventId : Int) (payload : Json) (limit : Option Int)
    (cursor : Option String) : Except ApiError (List Json × Option String) :=
  match eventResolutionCalls eventId (some payload) limit cursor with
  | .error e => .error e
  | .ok response => .ok (response.calls, response.nextCursor)

/-- What the pages of a stored resolution come to. -/
structure PagesCalls (data : SdkSpecialResolutionData) (eventId : Int)
    (payload : Json) (stored : List Json) : Prop where
  complete : ∀ {limits pages}, Walk (resolutionPages eventId payload) none
    limits pages true → pages.flatten = stored
  inOrder : ∀ {limits pages ended}, Walk (resolutionPages eventId payload)
    none limits pages ended → pages.flatten <+: stored
  ends : ∀ limits : Nat → Option Int, ∃ n pages,
    Walk (resolutionPages eventId payload) none ((List.range n).map limits)
      pages true
  total : ∀ {limit cursor response},
    eventResolutionCalls eventId (some payload) limit cursor = .ok response →
    response.totalResults = data.calls.length

section

variable {eventId : Int} {payload : Json} {stored : List Json}

/-- The route serves slices of the stored calls. -/
theorem resolutionPages_serves
    (hcalls : ((payload.get "special_resolution_event").bind fun r =>
      r.get "calls").bind Json.asArray = some stored)
    (hfit : stored.length < 2 ^ 63) :
    ServesOffsets stored clampLimit
      (fun cursor offset => parseOptionalOffset cursor = .ok (offset : Int))
      (fun n : Nat => encodeOffset n) (resolutionPages eventId payload) where
  answers := by
    intro limit cursor offset hcursor
    rw [resolutionPages, eventResolutionCalls, hcursor]
    simp only [hcalls, Int.toNat_natCast]
    norm_cast
    rw [nextOffset, apply_ite (Option.map _)]
    rfl
  readsBack := fun hlt => parseOptionalOffset_encode (hlt.trans hfit)

end

/-- The payload stored for the event of a resolution, among the other fields
of the event. -/
def eventPayload (data : SdkSpecialResolutionData) (fields : Json.Fields) :
    Json :=
  .obj (Json.setField "special_resolution_event"
    (buildSpecialResolutionPayload data) fields)

theorem eventPayload_calls (data : SdkSpecialResolutionData)
    (fields : Json.Fields) :
    (((eventPayload data fields).get "special_resolution_event").bind fun r =>
      r.get "calls").bind Json.asArray =
        some (data.calls.map buildSpecialResolutionCall) := by
  obtain ⟨_, hbuild, -, -, hcalls⟩ := lookup_payload data
  rw [eventPayload, Json.get, Json.lookup_setField, if_pos rfl, hbuild,
    Option.bind_some, Json.get, hcalls]
  rfl

/-- A special resolution is shown level by level with its first calls and no
arguments, and its stored calls are paged once each and in order. -/
theorem special_resolution_survives (data : SdkSpecialResolutionData)
    (eventId : Int) (fields : Json.Fields) :
    ShowsResolution data
      (projectSpecialResolution (buildSpecialResolutionPayload data)) ∧
    ¬(projectSpecialResolution
      (buildSpecialResolutionPayload data)).HasKey "arguments" ∧
    ∃ stored, List.Forall₂ StoredCall data.calls stored ∧
      PagesCalls data eventId (eventPayload data fields) stored := by
  refine ⟨showsResolution_project data,
    not_hasKey_projectSpecialResolution data,
    data.calls.map buildSpecialResolutionCall, ?_, ?_⟩
  · rw [List.forall₂_map_right_iff, List.forall₂_same]
    exact fun call _ => stored_build call
  · have hcalls := eventPayload_calls data fields
    have hfit : (data.calls.map buildSpecialResolutionCall).length < 2 ^ 63 := by
      rw [List.length_map]
      exact data.callsFit
    have hserves := @resolutionPages_serves eventId _ _ hcalls hfit
    refine ⟨fun hwalk => ?_, fun hwalk => ?_, fun limits => ?_, ?_⟩
    · exact (hserves.walk offset_start hwalk).2 rfl
    · exact (hserves.walk offset_start hwalk).1
    · exact hserves.walk_ends offset_start limits fun i => clampLimit_pos (limits i)
    · intro limit cursor response hresponse
      rw [eventResolutionCalls] at hresponse
      cases hoffset : parseOptionalOffset cursor with
      | error e =>
          rw [hoffset] at hresponse
          cases hresponse
      | ok offset =>
          simp only [hoffset, hcalls, Except.ok.injEq] at hresponse
          rw [← hresponse, List.length_map]

end Explorer.Ref

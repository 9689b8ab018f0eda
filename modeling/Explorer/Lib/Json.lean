import Mathlib.Data.List.Basic

/-!
# JSON values

Objects are lists of fields sorted by key, as a sorted map keeps them: two
objects with the same fields are the same list, in whatever order the fields
were set. A number is kept as it is written.
-/

namespace Explorer.Lib

inductive Json where
  | null
  | bool (value : Bool)
  | num (text : String)
  | str (value : String)
  | arr (items : List Json)
  | obj (fields : List (String × Json))

namespace Json

abbrev Fields := List (String × Json)

def ofNat (n : Nat) : Json := .num (toString n)

/-- Set a field, in its place by key. -/
def setField (key : String) (value : Json) : Fields → Fields
  | [] => [(key, value)]
  | (k, v) :: rest =>
      if key = k then (key, value) :: rest
      else if key < k then (key, value) :: (k, v) :: rest
      else (k, v) :: setField key value rest

def removeField (key : String) (fields : Fields) : Fields :=
  fields.filter fun f => !(f.1 == key)

/-- An object from its fields. -/
def object (fields : Fields) : Json :=
  .obj (fields.foldl (fun acc f => setField f.1 f.2 acc) [])

/-- The value under a key, when this is an object that has it. -/
def get (json : Json) (key : String) : Option Json :=
  match json with
  | .obj fields => fields.lookup key
  | _ => none

def asArray : Json → Option (List Json)
  | .arr items => some items
  | _ => none

def asString : Json → Option String
  | .str value => some value
  | _ => none

/-- The key occurs in an object, at any depth. -/
inductive HasKey (key : String) : Json → Prop
  | here {fields : Fields} {v : Json} : (key, v) ∈ fields →
      HasKey key (.obj fields)
  | field {fields : Fields} {k : String} {v : Json} : (k, v) ∈ fields →
      HasKey key v → HasKey key (.obj fields)
  | item {items : List Json} {v : Json} : v ∈ items → HasKey key v →
      HasKey key (.arr items)

theorem lookup_cons_eq (k k' : String) (v : Json) (rest : Fields) :
    List.lookup k ((k', v) :: rest) =
      if k = k' then some v else rest.lookup k := by
  rw [List.lookup_cons]
  by_cases h : k = k'
  · rw [if_pos h, h, beq_self_eq_true]
  · rw [if_neg h, beq_false_of_ne h]

@[simp]
theorem lookup_setField (key k : String) (value : Json) (fields : Fields) :
    (setField key value fields).lookup k =
      if k = key then some value else fields.lookup k := by
  induction fields with
  | nil => exact lookup_cons_eq k key value []
  | cons f rest ih =>
      obtain ⟨k', v⟩ := f
      rw [setField]
      split
      · next hkey =>
          subst hkey
          rw [lookup_cons_eq, lookup_cons_eq]
          split <;> rfl
      · next hkey =>
          split
          · rw [lookup_cons_eq]
          · rw [lookup_cons_eq, lookup_cons_eq, ih]
            by_cases hk : k = k'
            · rw [if_pos hk, if_pos hk, if_neg]
              exact fun h => hkey (h.symm.trans hk)
            · rw [if_neg hk, if_neg hk]

theorem lookup_foldl_setField (additions fields : Fields) {key : String}
    (hkey : key ∉ additions.map Prod.fst) :
    (additions.foldl (fun acc f => setField f.1 f.2 acc) fields).lookup key =
      fields.lookup key := by
  induction additions generalizing fields with
  | nil => rfl
  | cons f additions ih =>
      rw [List.map_cons, List.mem_cons, not_or] at hkey
      rw [List.foldl_cons, ih _ hkey.2, lookup_setField, if_neg hkey.1]

theorem mem_setField {key : String} {value : Json} {fields : Fields}
    {f : String × Json} (h : f ∈ setField key value fields) :
    f = (key, value) ∨ f ∈ fields := by
  induction fields with
  | nil => exact .inl (List.mem_singleton.mp h)
  | cons g rest ih =>
      obtain ⟨k, v⟩ := g
      rw [setField] at h
      split at h
      · rcases List.mem_cons.mp h with rfl | h
        · exact .inl rfl
        · exact .inr (List.mem_cons_of_mem _ h)
      · split at h
        · rcases List.mem_cons.mp h with rfl | h
          · exact .inl rfl
          · exact .inr h
        · rcases List.mem_cons.mp h with rfl | h
          · exact .inr List.mem_cons_self
          · exact (ih h).imp id (List.mem_cons_of_mem _)

/-- A new key is one field more. -/
theorem setField_perm {key : String} {value : Json} {fields : Fields}
    (hkey : key ∉ fields.map Prod.fst) :
    (setField key value fields).Perm ((key, value) :: fields) := by
  induction fields with
  | nil => exact List.Perm.refl _
  | cons f rest ih =>
      obtain ⟨k, v⟩ := f
      rw [List.map_cons, List.mem_cons, not_or] at hkey
      rw [setField, if_neg hkey.1]
      split
      · exact List.Perm.refl _
      · exact ((ih hkey.2).cons _).trans (List.Perm.swap _ _ _)

theorem mem_of_lookup {fields : Fields} {key : String} {v : Json}
    (h : fields.lookup key = some v) : (key, v) ∈ fields := by
  induction fields with
  | nil => cases h
  | cons f rest ih =>
      obtain ⟨k, w⟩ := f
      rw [lookup_cons_eq] at h
      split at h
      · next hk =>
          cases h
          rw [hk]
          exact List.mem_cons_self
      · exact List.mem_cons_of_mem _ (ih h)

theorem sizeOf_lookup_lt {fields : Fields} {key : String} {v : Json}
    (h : fields.lookup key = some v) : sizeOf v < sizeOf (Json.obj fields) := by
  have hmem := List.sizeOf_lt_of_mem (mem_of_lookup h)
  have hpair : sizeOf v < sizeOf (key, v) := by
    rw [Prod.mk.sizeOf_spec]
    omega
  have hobj : sizeOf fields < sizeOf (Json.obj fields) := by simp
  omega

end Json

end Explorer.Lib

import Explorer.Lib.Tables
import Mathlib.Data.Int.Order.Basic

/-!
# Tables with surrogate ids

A row has an id from a sequence and cells, and the cells hold a natural key
that is unique. Rows can be written one at a time, under the id that the key
already has or under a new one, or all at once. `put` is the writing that both
come to: whatever the order of the writes, the cells that are there afterwards
are the same, and only the ids of new rows tell the orders apart.
-/

namespace Explorer.Lib

structure Stored (γ : Type*) where
  id : Int
  cells : γ

/-- The rows and the next id of the sequence. -/
structure SerialTable (γ : Type*) where
  rows : List (Stored γ)
  next : Int

variable {γ κ : Type*}

namespace SerialTable

/-- An `INSERT` that leaves the id to the sequence. -/
def insert (t : SerialTable γ) (c : γ) : SerialTable γ :=
  ⟨t.rows ++ [⟨t.next, c⟩], t.next + 1⟩

/-- One `INSERT` of several rows. -/
def insertAll (t : SerialTable γ) (cs : List γ) : SerialTable γ :=
  cs.foldl insert t

/-- An `UPDATE` of the row under an id. -/
def update (t : SerialTable γ) (id : Int) (c : γ) : SerialTable γ :=
  { t with rows := t.rows.map fun r => if r.id == id then ⟨id, c⟩ else r }

/-- `INSERT … ON CONFLICT (id) DO UPDATE`, with the id given or drawn. -/
def upsert (t : SerialTable γ) (id : Option Int) (c : γ) : SerialTable γ :=
  match id with
  | some id => { t with rows := upsertRow (fun r => r.id == id) ⟨id, c⟩ t.rows }
  | none =>
      ⟨upsertRow (fun r => r.id == t.next) ⟨t.next, c⟩ t.rows, t.next + 1⟩

/-- A `DELETE`. -/
def delete (t : SerialTable γ) (p : γ → Bool) : SerialTable γ :=
  { t with rows := t.rows.filter fun r => !p r.cells }

/-- What the constraints of the table promise. -/
structure Ok (key : γ → κ) (t : SerialTable γ) : Prop where
  ids : (t.rows.map Stored.id).Nodup
  keys : (t.rows.map fun r => key r.cells).Nodup
  drawn : ∀ r ∈ t.rows, r.id < t.next

theorem Ok.eq_of_id {key : γ → κ} {t : SerialTable γ} (h : t.Ok key)
    {r r' : Stored γ} (hr : r ∈ t.rows) (hr' : r' ∈ t.rows)
    (hid : r.id = r'.id) : r = r' :=
  List.inj_on_of_nodup_map h.ids hr hr' hid

theorem Ok.nodup_cells {key : γ → κ} {t : SerialTable γ} (h : t.Ok key) :
    (t.rows.map Stored.cells).Nodup := by
  refine List.Nodup.of_map key ?_
  rw [List.map_map]
  exact h.keys

theorem Ok.delete {key : γ → κ} {t : SerialTable γ} (h : t.Ok key)
    (p : γ → Bool) : (t.delete p).Ok key where
  ids := h.ids.sublist (List.filter_sublist.map _)
  keys := h.keys.sublist (List.filter_sublist.map _)
  drawn := fun r hr => h.drawn r (List.mem_of_mem_filter hr)

section

variable [DecidableEq κ] (key : γ → κ)

/-- The row under a key. -/
def find (t : SerialTable γ) (k : κ) : Option (Stored γ) :=
  t.rows.find? fun r => key r.cells == k

/-- Write the row under its key, where it is or as a new one. -/
def put (t : SerialTable γ) (c : γ) : SerialTable γ :=
  match t.find key (key c) with
  | some r => t.update r.id c
  | none => t.insert c

variable {key} {t : SerialTable γ} {c : γ} {k : κ} {r : Stored γ}

theorem Ok.find_eq_some (h : t.Ok key) :
    t.find key k = some r ↔ r ∈ t.rows ∧ key r.cells = k :=
  find?_key_eq_some h.keys

theorem find_eq_none :
    t.find key k = none ↔ ∀ r ∈ t.rows, key r.cells ≠ k := by
  rw [find, List.find?_eq_none]
  simp only [beq_iff_eq, Ne]

/-! ## One row -/

theorem put_of_find (hfind : t.find key (key c) = some r) :
    t.put key c = t.update r.id c := by
  rw [put, hfind]

theorem put_of_none (hfind : t.find key (key c) = none) :
    t.put key c = t.insert c := by
  rw [put, hfind]

/-- An update in place keeps the id and the key of every row. -/
theorem Ok.rows_update (h : t.Ok key) (hfind : t.find key (key c) = some r) :
    (t.update r.id c).rows =
      t.rows.map fun x => if key x.cells = key c then ⟨x.id, c⟩ else x := by
  obtain ⟨hr, hkey⟩ := h.find_eq_some.mp hfind
  refine List.map_congr_left fun x hx => ?_
  by_cases hid : x.id = r.id
  · have hxr := h.eq_of_id hx hr hid
    subst hxr
    rw [if_pos (beq_self_eq_true _), if_pos hkey]
  · rw [if_neg fun hbeq => hid (beq_iff_eq.mp hbeq), if_neg]
    intro hx'
    refine hid (congrArg Stored.id ?_)
    exact List.inj_on_of_nodup_map h.keys hx hr (hx'.trans hkey.symm)

theorem Ok.insert (h : t.Ok key) (hfind : t.find key (key c) = none) :
    (t.insert c).Ok key := by
  rw [find_eq_none] at hfind
  refine ⟨?_, ?_, fun x hx => ?_⟩
  · rw [SerialTable.insert, List.map_append, List.nodup_append]
    refine ⟨h.ids, List.nodup_singleton _, fun a ha b hb => ?_⟩
    obtain ⟨x, hx, rfl⟩ := List.mem_map.mp ha
    rw [List.mem_singleton.mp hb]
    exact Int.ne_of_lt (h.drawn x hx)
  · rw [SerialTable.insert, List.map_append, List.nodup_append]
    refine ⟨h.keys, List.nodup_singleton _, fun a ha b hb => ?_⟩
    obtain ⟨x, hx, rfl⟩ := List.mem_map.mp ha
    rw [List.mem_singleton.mp hb]
    exact hfind x hx
  · rcases List.mem_append.mp hx with hx | hx
    · exact Int.lt_trans (h.drawn x hx) (Int.lt_succ _)
    · rw [List.mem_singleton.mp hx]
      exact Int.lt_succ _

theorem Ok.update (h : t.Ok key) (hfind : t.find key (key c) = some r) :
    (t.update r.id c).Ok key := by
  have hid : ∀ x : Stored γ,
      (if key x.cells = key c then (⟨x.id, c⟩ : Stored γ) else x).id = x.id := by
    intro x
    split <;> rfl
  have hkey : ∀ x : Stored γ,
      key (if key x.cells = key c then (⟨x.id, c⟩ : Stored γ) else x).cells =
        key x.cells := by
    intro x
    split
    · next heq => exact heq.symm
    · rfl
  refine ⟨?_, ?_, fun x hx => ?_⟩
  · rw [h.rows_update hfind, List.map_map]
    exact (List.map_congr_left fun x _ => hid x) ▸ h.ids
  · rw [h.rows_update hfind, List.map_map]
    exact (List.map_congr_left fun x _ => hkey x) ▸ h.keys
  · rw [h.rows_update hfind] at hx
    obtain ⟨y, hy, rfl⟩ := List.mem_map.mp hx
    rw [hid y]
    exact h.drawn y hy

theorem Ok.put (h : t.Ok key) (c : γ) : (t.put key c).Ok key := by
  cases hfind : t.find key (key c) with
  | none =>
      rw [put_of_none hfind]
      exact h.insert hfind
  | some r =>
      rw [put_of_find hfind]
      exact h.update hfind

/-- The row that is written, and the others. -/
theorem Ok.mem_put (h : t.Ok key) (c : γ) (x : Stored γ) :
    x ∈ (t.put key c).rows ↔
      (x ∈ t.rows ∧ key x.cells ≠ key c) ∨
        (x.cells = c ∧ x.id = ((t.find key (key c)).map Stored.id).getD
          t.next) := by
  cases hfind : t.find key (key c) with
  | none =>
      rw [put_of_none hfind, SerialTable.insert, List.mem_append,
        List.mem_singleton]
      rw [find_eq_none] at hfind
      constructor
      · rintro (hx | rfl)
        · exact .inl ⟨hx, hfind x hx⟩
        · exact .inr ⟨rfl, rfl⟩
      · rintro (⟨hx, -⟩ | ⟨hcells, hid⟩)
        · exact .inl hx
        · right
          cases x
          cases hcells
          cases hid
          rfl
  | some r =>
      obtain ⟨hr, hkey⟩ := h.find_eq_some.mp hfind
      rw [put_of_find hfind, h.rows_update hfind, List.mem_map]
      constructor
      · rintro ⟨y, hy, rfl⟩
        split
        · next heq =>
            have hyr := List.inj_on_of_nodup_map h.keys hy hr
              (heq.trans hkey.symm)
            refine .inr ⟨rfl, ?_⟩
            show y.id = r.id
            rw [hyr]
        · next hne => exact .inl ⟨hy, hne⟩
      · rintro (⟨hx, hne⟩ | ⟨hcells, hid⟩)
        · exact ⟨x, hx, if_neg hne⟩
        · refine ⟨r, hr, ?_⟩
          rw [if_pos hkey]
          cases x
          cases hcells
          cases hid
          rfl

theorem Ok.find_put (h : t.Ok key) (c : γ) {k : κ} (hk : k ≠ key c) :
    (t.put key c).find key k = t.find key k := by
  cases hfind : t.find key k with
  | none =>
      rw [find_eq_none] at hfind ⊢
      intro r hr
      rcases (h.mem_put c r).mp hr with ⟨hr, -⟩ | ⟨hcells, -⟩
      · exact hfind r hr
      · rw [hcells]
        exact hk.symm
  | some r =>
      obtain ⟨hr, hkey⟩ := h.find_eq_some.mp hfind
      rw [(h.put c).find_eq_some]
      exact ⟨(h.mem_put c r).mpr (.inl ⟨hr, hkey ▸ hk⟩), hkey⟩

theorem Ok.find_put_self (h : t.Ok key) (c : γ) :
    (t.put key c).find key (key c) =
      some ⟨((t.find key (key c)).map Stored.id).getD t.next, c⟩ := by
  rw [(h.put c).find_eq_some]
  exact ⟨(h.mem_put c _).mpr (.inr ⟨rfl, rfl⟩), rfl⟩

variable {cs cs' : List γ}

/-- A row of the table, by its cells. -/
def Holds (t : SerialTable γ) (x : γ) : Prop := x ∈ t.rows.map Stored.cells

end

/-! ## Renamed ids -/

section

variable {key : γ → κ} {t t' : SerialTable γ} {ρ : Int → Int}

end

end SerialTable

end Explorer.Lib

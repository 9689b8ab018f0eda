import Mathlib.Data.List.Forall2
import Mathlib.Data.List.Nodup

/-!
# Tables as lists of rows

A statement on a table is a function on its list of rows: an `INSERT` appends,
a `DELETE` filters, an `UPDATE` maps, an upsert does one or the other. This
file is about what such statements leave alone. `Keeps p R t t'` says that
the rows `p` picks out are the same in both tables, in number and order, each
related by `R` to what it was: `R` is equality where the rows must not change
at all, and a weaker relation where some of their columns may.
-/

namespace Explorer.Lib

variable {ρ α : Type*}

/-- `UPDATE` the rows under a key, or `INSERT` one when there is none. -/
def upsertRow (same : ρ → Bool) (row : ρ) (t : List ρ) : List ρ :=
  if t.any same then t.map fun r => if same r then row else r
  else t ++ [row]

/-- A lookup by a unique key finds the row that has it. -/
theorem find?_key_eq_some {κ : Type*} [BEq κ] [LawfulBEq κ] {key : ρ → κ}
    {t : List ρ} (hkeys : (t.map key).Nodup) {k : κ} {r : ρ} :
    t.find? (fun x => key x == k) = some r ↔ r ∈ t ∧ key r = k := by
  constructor
  · intro h
    exact ⟨List.mem_of_find?_eq_some h, by simpa using List.find?_some h⟩
  · rintro ⟨hr, rfl⟩
    have hfound : (t.find? fun x => key x == key r).isSome := by
      rw [List.find?_isSome]
      exact ⟨r, hr, beq_self_eq_true _⟩
    obtain ⟨r', hfind⟩ := Option.isSome_iff_exists.mp hfound
    have hkey : key r' = key r := by simpa using List.find?_some hfind
    rw [hfind, List.inj_on_of_nodup_map hkeys
      (List.mem_of_find?_eq_some hfind) hr hkey]

theorem mem_upsertRow {same : ρ → Bool} {row : ρ} (hrow : same row = true)
    {t : List ρ} {x : ρ} :
    x ∈ upsertRow same row t ↔ x = row ∨ (x ∈ t ∧ same x = false) := by
  unfold upsertRow
  split
  · next hany =>
      rw [List.mem_map]
      constructor
      · rintro ⟨y, hy, rfl⟩
        split
        · exact .inl rfl
        · next hsame => exact .inr ⟨hy, Bool.eq_false_iff.mpr hsame⟩
      · rintro (rfl | ⟨hx, hsame⟩)
        · obtain ⟨y, hy, hsame⟩ := List.any_eq_true.mp hany
          exact ⟨y, hy, if_pos hsame⟩
        · exact ⟨x, hx, if_neg (Bool.eq_false_iff.mp hsame)⟩
  · next hany =>
      rw [List.mem_append, List.mem_singleton]
      constructor
      · rintro (hx | rfl)
        · refine .inr ⟨hx, Bool.eq_false_iff.mpr fun hsame => hany ?_⟩
          exact List.any_eq_true.mpr ⟨x, hx, hsame⟩
        · exact .inl rfl
      · rintro (rfl | ⟨hx, -⟩)
        · exact .inr rfl
        · exact .inl hx

/-- After an upsert the row is under its key, and the other keys have theirs. -/
theorem find?_upsertRow {κ : Type*} [BEq κ] [LawfulBEq κ] {key : ρ → κ}
    (row : ρ) (t : List ρ) (k : κ) :
    (upsertRow (fun x => key x == key row) row t).find? (fun x => key x == k) =
      if key row == k then some row else t.find? fun x => key x == k := by
  unfold upsertRow
  split
  · next hany =>
      have hsame : ((fun x => key x == k) ∘ fun x =>
          if key x == key row then row else x) = fun x => key x == k := by
        funext x
        rw [Function.comp_apply]
        split
        · next h => rw [beq_iff_eq.mp h]
        · rfl
      rw [List.find?_map, hsame]
      cases hfind : t.find? fun x => key x == k with
      | none =>
          rw [if_neg]
          · rfl
          · intro h
            obtain ⟨x, hx, hkey⟩ := List.any_eq_true.mp hany
            rw [beq_iff_eq.mp h] at hkey
            exact absurd hkey (List.find?_eq_none.mp hfind x hx)
      | some x =>
          have hx : key x = k := by simpa using List.find?_some hfind
          rw [Option.map_some]
          simp only [hx]
          by_cases hrow : k = key row
          · rw [hrow, beq_self_eq_true, if_pos rfl, if_pos rfl]
          · rw [if_neg (by simpa using hrow), if_neg (by simpa using Ne.symm hrow)]
  · next hany =>
      rw [List.find?_append]
      by_cases hrow : (key row == k) = true
      · have hnone : (t.find? fun x => key x == k) = none := by
          refine List.find?_eq_none.mpr fun x hx h => hany ?_
          rw [beq_iff_eq.mp hrow]
          exact List.any_eq_true.mpr ⟨x, hx, h⟩
        rw [hnone, if_pos hrow, Option.none_or, List.find?_cons, hrow]
      · rw [if_neg hrow, List.find?_cons, Bool.not_eq_true _ |>.mp hrow,
          List.find?_nil, Option.or_none]
/-- Upserts one after the other, each under its own key. -/
theorem mem_foldl_upsertRow {κ : Type*} [BEq κ] [LawfulBEq κ] {key : ρ → κ}
    {rows t : List ρ} (hkeys : (rows.map key).Nodup) {x : ρ} :
    x ∈ rows.foldl (fun t r => upsertRow (fun y => key y == key r) r t) t ↔
      x ∈ rows ∨ (x ∈ t ∧ key x ∉ rows.map key) := by
  induction rows generalizing t with
  | nil => simp
  | cons r rows ih =>
      rw [List.map_cons, List.nodup_cons] at hkeys
      have hfirst := @mem_upsertRow _ (fun y => key y == key r) r
        (beq_self_eq_true _) t x
      rw [List.foldl_cons, ih hkeys.2, hfirst, List.map_cons, List.mem_cons,
        List.mem_cons, not_or]
      constructor
      · rintro (hx | ⟨rfl | ⟨hx, hne⟩, hnot⟩)
        · exact .inl (.inr hx)
        · exact .inl (.inl rfl)
        · exact .inr ⟨hx, by simpa using hne, hnot⟩
      · rintro ((rfl | hx) | ⟨hx, hne, hnot⟩)
        · exact .inr ⟨.inl rfl, hkeys.1⟩
        · exact .inl hx
        · exact .inr ⟨.inr ⟨hx, by simpa using hne⟩, hnot⟩

/-- Upserts of rows that are all there write each over its own. -/
theorem foldl_upsertRow_eq_map {κ : Type*} [BEq κ] [LawfulBEq κ] {key : ρ → κ}
    {rows t : List ρ} (hkeys : (rows.map key).Nodup)
    (hstored : ∀ r ∈ rows, ∃ x ∈ t, key x = key r) :
    rows.foldl (fun t r => upsertRow (fun y => key y == key r) r t) t =
      t.map fun x => (rows.find? fun r => key r == key x).getD x := by
  induction rows generalizing t with
  | nil => exact (List.map_id' t).symm
  | cons r rows ih =>
      rw [List.map_cons, List.nodup_cons] at hkeys
      obtain ⟨x, hx, hkey⟩ := hstored r List.mem_cons_self
      have hany : (t.any fun y => key y == key r) = true :=
        List.any_eq_true.mpr ⟨x, hx, beq_iff_eq.mpr hkey⟩
      have hfirst : upsertRow (fun y => key y == key r) r t =
          t.map fun y => if key y == key r then r else y :=
        if_pos hany
      have hsame : ∀ y, key (if key y == key r then r else y) = key y := by
        intro y
        split
        · next h => exact (beq_iff_eq.mp h).symm
        · rfl
      rw [List.foldl_cons, hfirst, ih hkeys.2, List.map_map]
      · refine List.map_congr_left fun y _ => ?_
        rw [Function.comp_apply, hsame, List.find?_cons]
        by_cases hy : key y = key r
        · have hnone : (rows.find? fun r' => key r' == key y) = none := by
            refine List.find?_eq_none.mpr fun r' hr' h => hkeys.1 ?_
            rw [← hy, ← beq_iff_eq.mp h]
            exact List.mem_map_of_mem hr'
          rw [hnone, hy, beq_self_eq_true]
          rfl
        · rw [beq_eq_false_iff_ne.mpr (Ne.symm hy),
            beq_eq_false_iff_ne.mpr hy]
          rfl
      · intro r' hr'
        obtain ⟨y, hy, hkey'⟩ := hstored r' (List.mem_cons_of_mem _ hr')
        exact ⟨_, List.mem_map_of_mem hy, (hsame y).trans hkey'⟩

/-- An upsert under a unique key leaves the keys unique. -/
theorem nodup_upsertRow {κ : Type*} [BEq κ] [LawfulBEq κ] {key : ρ → κ}
    {t : List ρ} (hkeys : (t.map key).Nodup) (row : ρ) :
    ((upsertRow (fun x => key x == key row) row t).map key).Nodup := by
  unfold upsertRow
  split
  · have hsame : (t.map fun x => if key x == key row then row else x).map key =
        t.map key := by
      rw [List.map_map]
      refine List.map_congr_left fun x _ => ?_
      rw [Function.comp_apply]
      split
      · next h => exact (beq_iff_eq.mp h).symm
      · rfl
    rw [hsame]
    exact hkeys
  · next hany =>
      rw [List.map_append, List.nodup_append]
      refine ⟨hkeys, List.nodup_singleton _, ?_⟩
      rintro _ hk _ hk' rfl
      obtain ⟨x, hx, rfl⟩ := List.mem_map.mp hk
      rw [List.map_singleton, List.mem_singleton] at hk'
      exact hany (List.any_eq_true.mpr ⟨x, hx, beq_iff_eq.mpr hk'⟩)

/-- Writing to the one row of a key changes a count by that row. -/
theorem countP_map_key {κ : Type*} [BEq κ] [LawfulBEq κ] {key : ρ → κ}
    {t : List ρ} (hkeys : (t.map key).Nodup) {r : ρ} (hr : r ∈ t) (f : ρ → ρ)
    (p : ρ → Bool) :
    (t.map fun x => if key x == key r then f x else x).countP p +
        (p r).toNat = t.countP p + (p (f r)).toNat := by
  induction t with
  | nil => cases hr
  | cons x t ih =>
      rw [List.map_cons, List.nodup_cons] at hkeys
      rw [List.map_cons, List.countP_cons, List.countP_cons]
      rcases List.mem_cons.mp hr with rfl | hr
      · have hrest : (t.map fun x => if key x == key r then f x else x) = t := by
          refine (List.map_congr_left fun x hx => ?_).trans (List.map_id t)
          rw [if_neg, id]
          intro h
          exact hkeys.1 (beq_iff_eq.mp h ▸ List.mem_map_of_mem hx)
        rw [hrest, beq_self_eq_true, if_pos rfl]
        cases p r <;> cases p (f r) <;> simp
      · have hne : key x ≠ key r := fun h =>
          hkeys.1 (h ▸ List.mem_map_of_mem hr)
        have ih := ih hkeys.2 hr
        rw [beq_eq_false_iff_ne.mpr hne, if_neg Bool.false_ne_true]
        omega

/-- A count of more, strictly where one more is there. -/
theorem countP_lt_countP {p q : ρ → Bool} {t : List ρ}
    (h : ∀ r ∈ t, p r = true → q r = true) {r : ρ} (hr : r ∈ t)
    (hp : p r = false) (hq : q r = true) : t.countP p < t.countP q := by
  obtain ⟨before, after, rfl⟩ := List.append_of_mem hr
  have hbefore : before.countP p ≤ before.countP q :=
    List.countP_mono_left fun x hx => h x (List.mem_append_left _ hx)
  have hafter : after.countP p ≤ after.countP q :=
    List.countP_mono_left fun x hx =>
      h x (List.mem_append_right _ (List.mem_cons_of_mem _ hx))
  rw [List.countP_append, List.countP_append, List.countP_cons_of_neg (by
    rw [hp]; exact Bool.false_ne_true), List.countP_cons_of_pos hq]
  omega

/-- Two lists of rows with the same cells, where the cells tell them apart. -/
theorem eq_of_map_eq {f : ρ → α} {t t' : List ρ} (h : t.map f = t'.map f)
    (hinj : ∀ r ∈ t, ∀ r' ∈ t', f r = f r' → r = r') : t = t' := by
  induction t generalizing t' with
  | nil =>
      rw [List.map_nil] at h
      exact (List.map_eq_nil_iff.mp h.symm).symm
  | cons r t ih =>
      cases t' with
      | nil => cases h
      | cons r' t' =>
          rw [List.map_cons, List.map_cons, List.cons.injEq] at h
          rw [hinj r List.mem_cons_self r' List.mem_cons_self h.1, ih h.2
            fun x hx x' hx' => hinj x (List.mem_cons_of_mem _ hx) x'
              (List.mem_cons_of_mem _ hx')]

/-- The rows picked out by `p` stand, each related to what it was. -/
def Keeps (p : ρ → Bool) (R : ρ → ρ → Prop) (t t' : List ρ) : Prop :=
  List.Forall₂ R (t.filter p) (t'.filter p)

section

variable {p : ρ → Bool} {R : ρ → ρ → Prop} {t t' t'' : List ρ}

theorem keeps_refl (hR : ∀ r, R r r) (t : List ρ) : Keeps p R t t :=
  List.forall₂_same.mpr fun r _ => hR r

theorem Keeps.trans (hR : ∀ r s u, R r s → R s u → R r u)
    (h : Keeps p R t t') (h' : Keeps p R t' t'') : Keeps p R t t'' := by
  unfold Keeps at h h' ⊢
  generalize t.filter p = a at h ⊢
  generalize t'.filter p = b at h h'
  generalize t''.filter p = c at h' ⊢
  induction h generalizing c with
  | nil => exact h'
  | cons hab _ ih =>
      cases h' with
      | cons hbc hrest => exact .cons (hR _ _ _ hab hbc) (ih _ hrest)

theorem keeps_append (hR : ∀ r, R r r) (t : List ρ) {new : List ρ}
    (hnew : ∀ r ∈ new, p r = false) : Keeps p R t (t ++ new) := by
  have hnone : new.filter p = [] := by
    rw [List.filter_eq_nil_iff]
    intro r hr
    rw [hnew r hr]
    exact Bool.false_ne_true
  unfold Keeps
  rw [List.filter_append, hnone, List.append_nil]
  exact List.forall₂_same.mpr fun r _ => hR r

theorem keeps_filter (hR : ∀ r, R r r) (t : List ρ) {keep : ρ → Bool}
    (hkeep : ∀ r, p r = true → keep r = true) :
    Keeps p R t (t.filter keep) := by
  have hsame : (t.filter keep).filter p = t.filter p := by
    rw [List.filter_filter]
    refine List.filter_congr fun r _ => ?_
    cases hp : p r with
    | false => rfl
    | true => rw [hkeep r hp]; rfl
  unfold Keeps
  rw [hsame]
  exact List.forall₂_same.mpr fun r _ => hR r

theorem keeps_map (t : List ρ) {f : ρ → ρ} (hp : ∀ r, p (f r) = p r)
    (hR : ∀ r, p r = true → R r (f r)) : Keeps p R t (t.map f) := by
  unfold Keeps
  rw [List.filter_map, show p ∘ f = p from funext hp,
    List.forall₂_map_right_iff]
  refine List.forall₂_same.mpr fun r hr => hR r ?_
  exact (List.mem_filter.mp hr).2

theorem keeps_upsertRow (hR : ∀ r, R r r) (t : List ρ) {same : ρ → Bool}
    {row : ρ} (hsame : ∀ r, same r = true → p r = false)
    (hrow : p row = false) : Keeps p R t (upsertRow same row t) := by
  unfold upsertRow
  split
  · refine keeps_map t ?_ ?_
    · intro r
      split
      · next h => rw [hrow, hsame r h]
      · rfl
    · intro r hr
      split
      · next h => rw [hsame r h] at hr; cases hr
      · exact hR r
  · exact keeps_append hR t (by intro r hr; rwa [List.mem_singleton.mp hr])

/-- A statement for each element of a list. -/
theorem keeps_foldl (hrefl : ∀ r, R r r)
    (htrans : ∀ r s u, R r s → R s u → R r u) {f : List ρ → α → List ρ}
    (as : List α) (hf : ∀ t, ∀ a ∈ as, Keeps p R t (f t a)) (t : List ρ) :
    Keeps p R t (as.foldl f t) := by
  induction as generalizing t with
  | nil => exact keeps_refl hrefl t
  | cons a as ih =>
      have hhead := hf t a List.mem_cons_self
      have htail := ih (fun t b hb => hf t b (List.mem_cons_of_mem _ hb))
        (f t a)
      exact hhead.trans htrans htail

/-- Rows that must not change at all. -/
theorem keeps_eq_iff : Keeps p Eq t t' ↔ t.filter p = t'.filter p := by
  unfold Keeps
  rw [List.forall₂_eq_eq_eq]

end

end Explorer.Lib

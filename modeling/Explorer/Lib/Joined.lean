import Mathlib

/-!
# Texts put together with a separator

The length of a joined text, and when its parts can be read back: it is enough
that the parts on one side do not contain the separator, since the number of
separators then leaves none for the parts on the other.
-/

namespace Explorer.Lib

theorem length_intercalate {sep : String} {parts : List String}
    (h : parts ≠ []) :
    (sep.intercalate parts).length + sep.length =
      (parts.map fun part => part.length + sep.length).sum := by
  induction parts with
  | nil => exact absurd rfl h
  | cons part rest ih =>
      by_cases hrest : rest = []
      · subst hrest
        simp
      · have ih := ih hrest
        rw [String.intercalate_cons_of_ne_nil hrest, List.map_cons,
          List.sum_cons, ← ih]
        simp only [String.length_append]
        omega

theorem count_intercalate {α : Type} [DecidableEq α] {sep : α}
    {parts : List (List α)} (h : parts ≠ []) :
    ([sep].intercalate parts).count sep + 1 =
      (parts.map fun part => part.count sep + 1).sum := by
  induction parts with
  | nil => exact absurd rfl h
  | cons part rest ih =>
      by_cases hrest : rest = []
      · subst hrest
        simp
      · have ih := ih hrest
        rw [List.intercalate_cons_of_ne_nil hrest, List.map_cons,
          List.sum_cons, ← ih]
        simp only [List.count_append, List.count_singleton_self]
        omega

/-- A sum of positive terms that is as small as it can be. -/
theorem sum_succ_eq_length {α : Type} {f : α → Nat} {l : List α}
    (h : (l.map fun a => f a + 1).sum = l.length) : ∀ a ∈ l, f a = 0 := by
  induction l with
  | nil =>
      intro a ha
      cases ha
  | cons b rest ih =>
      have hle : rest.length ≤ (rest.map fun a => f a + 1).sum := by
        clear ih h
        induction rest with
        | nil => simp
        | cons c rest ih =>
            simp only [List.map_cons, List.sum_cons, List.length_cons]
            omega
      simp only [List.map_cons, List.sum_cons, List.length_cons] at h
      intro a ha
      obtain rfl | ha := List.mem_cons.1 ha
      · omega
      · exact ih (by omega) a ha

/-- As many parts, joined to the same, are the same parts. -/
theorem intercalate_inj {α : Type} [DecidableEq α] {sep : α}
    {parts parts' : List (List α)} (hlen : parts.length = parts'.length)
    (hfree : ∀ part ∈ parts, sep ∉ part)
    (h : [sep].intercalate parts = [sep].intercalate parts') :
    parts = parts' := by
  by_cases hnil : parts = []
  · subst hnil
    exact (List.length_eq_zero_iff.1 hlen.symm).symm
  · have hnil' : parts' ≠ [] := by
      intro h'
      rw [h', List.length_nil] at hlen
      exact hnil (List.length_eq_zero_iff.1 hlen)
    have hcount : (parts.map fun part => part.count sep + 1).sum =
        parts.length := by
      rw [List.map_congr_left (g := fun _ => 1) fun part hpart => by
        rw [List.count_eq_zero.2 (hfree part hpart)]]
      simp
    have hcount' : (parts'.map fun part => part.count sep + 1).sum =
        parts'.length := by
      rw [← count_intercalate hnil', ← h, count_intercalate hnil, hcount, hlen]
    have hfree' : ∀ part ∈ parts', sep ∉ part := by
      intro part hpart
      exact List.count_eq_zero.1 (sum_succ_eq_length hcount' part hpart)
    rw [← List.splitOn_intercalate sep hfree hnil, h,
      List.splitOn_intercalate sep hfree' hnil']

theorem mem_intercalate {α : Type} {a : α} {sep : List α} :
    ∀ {parts : List (List α)}, a ∈ sep.intercalate parts →
      a ∈ sep ∨ ∃ part ∈ parts, a ∈ part := by
  intro parts
  induction parts with
  | nil =>
      intro h
      cases h
  | cons part rest ih =>
      intro h
      by_cases hrest : rest = []
      · subst hrest
        rw [List.intercalate_singleton] at h
        exact .inr ⟨part, by simp, h⟩
      · rw [List.intercalate_cons_of_ne_nil hrest, List.mem_append,
          List.mem_append] at h
        obtain (h | h) | h := h
        · exact .inr ⟨part, by simp, h⟩
        · exact .inl h
        · obtain h | ⟨other, hother, h⟩ := ih h
          · exact .inl h
          · exact .inr ⟨other, by simp [hother], h⟩

/-- Strings, as many and joined to the same, are the same. -/
theorem string_intercalate_inj {sep : String} {c : Char}
    (hsep : sep.toList = [c]) {parts parts' : List String}
    (hlen : parts.length = parts'.length)
    (hfree : ∀ part ∈ parts, c ∉ part.toList)
    (h : sep.intercalate parts = sep.intercalate parts') : parts = parts' := by
  have htoList := congrArg String.toList h
  rw [String.toList_intercalate, String.toList_intercalate, hsep] at htoList
  refine (List.map_injective_iff.2 fun _ _ => String.toList_inj.1)
    (intercalate_inj (by simpa using hlen) ?_ htoList)
  intro part hpart
  obtain ⟨text, htext, rfl⟩ := List.mem_map.1 hpart
  exact hfree text htext

/-- The parts before and after the first separator. -/
theorem append_cons_inj {α : Type} {sep : α} :
    ∀ {l l' rest rest' : List α}, sep ∉ l → sep ∉ l' →
      l ++ sep :: rest = l' ++ sep :: rest' → l = l' ∧ rest = rest' := by
  intro l
  induction l with
  | nil =>
      intro l' rest rest' _ hl' h
      cases l' with
      | nil => exact ⟨rfl, (List.cons.inj h).2⟩
      | cons a l' =>
          exact absurd ((List.cons.inj h).1 ▸ List.mem_cons_self) hl'
  | cons a l ih =>
      intro l' rest rest' hl hl' h
      cases l' with
      | nil => exact absurd ((List.cons.inj h).1 ▸ List.mem_cons_self) hl
      | cons a' l' =>
          obtain ⟨rfl, htail⟩ := List.cons.inj h
          obtain ⟨rfl, hrest⟩ := ih
            (fun hmem => hl (List.mem_cons_of_mem _ hmem))
            (fun hmem => hl' (List.mem_cons_of_mem _ hmem)) htail
          exact ⟨rfl, hrest⟩

theorem mem_of_mem_splitOn {α : Type} [DecidableEq α] {sep a : α} :
    ∀ {l part : List α}, part ∈ l.splitOn sep → a ∈ part → a ∈ l := by
  intro l
  induction l with
  | nil =>
      intro part hpart ha
      rw [List.splitOn_nil, List.mem_singleton] at hpart
      subst hpart
      cases ha
  | cons b rest ih =>
      intro part hpart ha
      rw [List.splitOn_cons_eq_if_modifyHead] at hpart
      split at hpart
      · obtain rfl | hpart := List.mem_cons.1 hpart
        · cases ha
        · exact List.mem_cons_of_mem b (ih hpart ha)
      · cases hsplit : rest.splitOn sep with
        | nil => exact absurd hsplit (List.splitOn_ne_nil sep rest)
        | cons first others =>
            rw [hsplit, List.modifyHead_cons] at hpart
            obtain rfl | hpart := List.mem_cons.1 hpart
            · obtain rfl | ha := List.mem_cons.1 ha
              · exact List.mem_cons_self
              · exact List.mem_cons_of_mem b (ih (by simp [hsplit]) ha)
            · exact List.mem_cons_of_mem b (ih (by simp [hsplit, hpart]) ha)

/-- Splitting commutes with a map under which nothing else becomes the
separator. -/
theorem splitOn_map {α β : Type} [DecidableEq α] [DecidableEq β] (f : α → β)
    (sep : α) {l : List α} (h : ∀ a ∈ l, f a = f sep → a = sep) :
    (l.map f).splitOn (f sep) = (l.splitOn sep).map (List.map f) := by
  induction l with
  | nil => simp
  | cons a rest ih =>
      have ih := ih fun b hb => h b (List.mem_cons_of_mem a hb)
      rw [List.map_cons, List.splitOn_cons_eq_if_modifyHead,
        List.splitOn_cons_eq_if_modifyHead, ih]
      by_cases hsep : a = sep
      · simp [hsep]
      · have hne : f a ≠ f sep := by
          intro heq
          exact hsep (h a List.mem_cons_self heq)
        cases hsplit : rest.splitOn sep with
        | nil => exact absurd hsplit (List.splitOn_ne_nil sep rest)
        | cons first others => simp [hsep, hne]

end Explorer.Lib

import Mathlib.Data.List.Basic

/-!
# Readers

A reader takes a value off the front of what a source still has. What a chain
of reads does is put together from what each of them does on its own bytes:
it reads the bytes one after the other, or one of them refuses and so does the
chain.
-/

namespace Explorer.Lib

variable {σ β α γ : Type}

/-- On these bytes, whatever is behind them, the read gives the value and
leaves the source behind them. -/
def Reads (remaining : σ → List β) (read : StateT σ Option α)
    (bytes : List β) (a : α) : Prop :=
  ∀ s rest, remaining s = bytes ++ rest →
    ∃ s', read s = some (a, s') ∧ remaining s' = rest

/-- On these bytes, whatever is behind them, the read fails. -/
def Refuses (remaining : σ → List β) (read : StateT σ Option α)
    (bytes : List β) : Prop :=
  ∀ s rest, remaining s = bytes ++ rest → read s = none

variable {remaining : σ → List β} {read : StateT σ Option α}
  {next : α → StateT σ Option γ} {bytes bytes' : List β} {a : α} {c : γ}

theorem reads_pure (remaining : σ → List β) (a : α) :
    Reads remaining (pure a) [] a := by
  intro s rest h
  exact ⟨s, rfl, h⟩

theorem Reads.bind (h : Reads remaining read bytes a)
    (h' : Reads remaining (next a) bytes' c) :
    Reads remaining (read >>= next) (bytes ++ bytes') c := by
  intro s rest hs
  rw [List.append_assoc] at hs
  obtain ⟨s', hread, hs'⟩ := h s _ hs
  obtain ⟨s'', hnext, hs''⟩ := h' s' _ hs'
  refine ⟨s'', ?_, hs''⟩
  show (read s).bind (fun p => next p.1 p.2) = _
  rw [hread]
  exact hnext

theorem Reads.refuses_bind (h : Reads remaining read bytes a)
    (h' : Refuses remaining (next a) bytes') :
    Refuses remaining (read >>= next) (bytes ++ bytes') := by
  intro s rest hs
  rw [List.append_assoc] at hs
  obtain ⟨s', hread, hs'⟩ := h s _ hs
  show (read s).bind (fun p => next p.1 p.2) = _
  rw [hread]
  exact h' s' _ hs'

/-- A value that is computed needs no bytes. -/
theorem reads_lift_bind {value : Option α} (hvalue : value = some a)
    (h : Reads remaining (next a) bytes c) :
    Reads remaining (StateT.lift value >>= next) bytes c := by
  subst hvalue
  intro s rest hs
  obtain ⟨s', hnext, hs'⟩ := h s rest hs
  exact ⟨s', hnext, hs'⟩

theorem refuses_lift_bind (bytes : List β) {value : Option α}
    (hvalue : value = none) :
    Refuses remaining (StateT.lift value >>= next) bytes := by
  subst hvalue
  intro s rest hs
  rfl

/-! ## Reading a whole input -/

/-- The read, with nothing after it. -/
def readAll (start : List β → σ) (atEnd : σ → Bool)
    (read : StateT σ Option α) (input : List β) : Option α := do
  let (a, s) ← read (start input)
  if atEnd s then some a else none

variable {start : List β → σ} {atEnd : σ → Bool}

theorem readAll_eq_some (hstart : ∀ input, remaining (start input) = input)
    (hend : ∀ s, atEnd s = true ↔ remaining s = [])
    (h : Reads remaining read bytes a) :
    readAll start atEnd read bytes = some a := by
  obtain ⟨s', hread, hs'⟩ := h (start bytes) [] (by
    rw [hstart, List.append_nil])
  rw [readAll, hread]
  exact if_pos ((hend s').mpr hs')

theorem readAll_append_eq_none
    (hstart : ∀ input, remaining (start input) = input)
    (hend : ∀ s, atEnd s = true ↔ remaining s = [])
    (h : Reads remaining read bytes a) {extra : List β} (hextra : extra ≠ []) :
    readAll start atEnd read (bytes ++ extra) = none := by
  obtain ⟨s', hread, hs'⟩ := h (start (bytes ++ extra)) extra (hstart _)
  rw [readAll, hread]
  refine if_neg fun hatEnd => hextra ?_
  rw [← hs', (hend s').mp hatEnd]

theorem readAll_eq_none (hstart : ∀ input, remaining (start input) = input)
    (h : Refuses remaining read bytes) (extra : List β) :
    readAll start atEnd read (bytes ++ extra) = none := by
  rw [readAll, h (start (bytes ++ extra)) extra (hstart _)]
  rfl

end Explorer.Lib

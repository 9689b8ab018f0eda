import Mathlib

/-!
# Formats and the reads that decode them

A format says which bytes stand for a value. A read decodes a format when it
takes just those bytes for just that value, and when none of its failures is a
fault. Reads after one another decode one format after the other.

The last read of a source may be held to a stricter bound than the others, so
a read is only asked to succeed where something is left behind its bytes.
-/

namespace Explorer.Lib

variable {σ β ε α γ : Type}

/-- `read` decodes the format, from any place of the source. -/
structure Decodes (place : List β → List β → σ) (fault : ε → Prop)
    (read : StateT σ (Except ε) α) (format : α → List β → Prop) : Prop where
  reads : ∀ {a bytes}, format a bytes → ∀ front rest, rest ≠ [] →
    read (place front (bytes ++ rest)) = .ok (a, place (front ++ bytes) rest)
  took : ∀ {front rest a s}, read (place front rest) = .ok (a, s) →
    ∃ bytes rest', rest = bytes ++ rest' ∧ format a bytes ∧
      s = place (front ++ bytes) rest'
  safe : ∀ {front rest e}, read (place front rest) = .error e → ¬ fault e

variable {place : List β → List β → σ} {fault : ε → Prop}
  {read : StateT σ (Except ε) α} {next : α → StateT σ (Except ε) γ}
  {format format' : α → List β → Prop} {format₂ : α → γ → List β → Prop}

theorem Decodes.congr (h : Decodes place fault read format)
    (hiff : ∀ a bytes, format a bytes ↔ format' a bytes) :
    Decodes place fault read format' where
  reads ha := h.reads ((hiff _ _).2 ha)
  took hread := by
    obtain ⟨bytes, rest, hrest, ha, hs⟩ := h.took hread
    exact ⟨bytes, rest, hrest, (hiff _ _).1 ha, hs⟩
  safe := h.safe

theorem decodes_pure (a : α) :
    Decodes place fault (pure a) fun a' bytes => a' = a ∧ bytes = [] where
  reads := by
    rintro a' bytes ⟨rfl, rfl⟩ front rest -
    rw [List.append_nil]
    rfl
  took := by
    intro front rest a' s hread
    obtain ⟨rfl, rfl⟩ := Prod.mk.inj (Except.ok.inj hread)
    exact ⟨[], rest, rfl, ⟨rfl, rfl⟩, by rw [List.append_nil]⟩
  safe := by
    intro front rest e hread
    cases hread

/-- A refusal decodes nothing. -/
theorem decodes_throw {e : ε} (he : ¬ fault e) :
    Decodes place fault (throw e : StateT σ (Except ε) α)
      fun _ _ => False where
  reads h := h.elim
  took := by
    intro front rest a s hread
    cases hread
  safe := by
    intro front rest e' hread
    cases hread
    exact he

theorem Decodes.bind (h : Decodes place fault read format)
    (h₂ : ∀ a, Decodes place fault (next a) (format₂ a)) :
    Decodes place fault (read >>= next) fun c bytes =>
      ∃ a front rest, bytes = front ++ rest ∧ format a front ∧
        format₂ a c rest where
  reads := by
    rintro c _ ⟨a, b, b', rfl, ha, hc⟩ front rest hrest
    show (read (place front (b ++ b' ++ rest))).bind
      (fun p => next p.1 p.2) = _
    rw [List.append_assoc, h.reads ha front (b' ++ rest) (by simp [hrest])]
    show next a (place (front ++ b) (b' ++ rest)) = _
    rw [(h₂ a).reads hc (front ++ b) rest hrest, List.append_assoc]
  took := by
    intro front rest c s hread
    replace hread : (read (place front rest)).bind
      (fun p => next p.1 p.2) = .ok (c, s) := hread
    cases hfirst : read (place front rest) with
    | error e =>
        rw [hfirst] at hread
        cases hread
    | ok p =>
        obtain ⟨a, s'⟩ := p
        rw [hfirst] at hread
        obtain ⟨b, rest', rfl, ha, rfl⟩ := h.took hfirst
        obtain ⟨b', rest'', rfl, hc, rfl⟩ := (h₂ a).took hread
        exact ⟨b ++ b', rest'', (List.append_assoc ..).symm,
          ⟨a, b, b', rfl, ha, hc⟩, by rw [List.append_assoc]⟩
  safe := by
    intro front rest e hread
    replace hread : (read (place front rest)).bind
      (fun p => next p.1 p.2) = .error e := hread
    cases hfirst : read (place front rest) with
    | error e' =>
        rw [hfirst] at hread
        cases hread
        exact h.safe hfirst
    | ok p =>
        obtain ⟨a, s'⟩ := p
        rw [hfirst] at hread
        obtain ⟨b, rest', rfl, ha, rfl⟩ := h.took hfirst
        exact (h₂ a).safe hread

/-- The rest of a read whose format gives the value at hand. -/
theorem Decodes.map {value : α → γ} (h : Decodes place fault read format) :
    Decodes place fault (do let a ← read; pure (value a)) fun c bytes =>
      ∃ a, c = value a ∧ format a bytes := by
  refine (h.bind fun a => decodes_pure (value a)).congr fun c bytes => ?_
  constructor
  · rintro ⟨a, b, _, rfl, ha, rfl, rfl⟩
    rw [List.append_nil]
    exact ⟨a, rfl, ha⟩
  · rintro ⟨a, rfl, ha⟩
    exact ⟨a, bytes, [], (List.append_nil bytes).symm, ha, rfl, rfl⟩

end Explorer.Lib

import Explorer.Lib.Keyset

/-!
# Offset pagination

A page is a slice of fixed rows, and the next one starts where it ends. The
slices laid end to end are the rows: from a fixed page size by counting, and
along a walk by induction on it, because a page that is not the last has at
least one row.
-/

namespace Explorer.Lib

variable {ρ σ γ ε : Type*}

/-- `LIMIT n OFFSET offset`. -/
def offsetPage (rows : List ρ) (n offset : Nat) : List ρ :=
  (rows.drop offset).take n

/-- Where the next page starts, when rows are left. -/
def nextOffset (rows : List ρ) (n offset : Nat) : Option Nat :=
  if offset + (offsetPage rows n offset).length < rows.length then
    some (offset + (offsetPage rows n offset).length)
  else none

variable {rows : List ρ} {n offset : Nat}

theorem offsetPage_eq_nil_iff (hn : 0 < n) :
    offsetPage rows n offset = [] ↔ rows.length ≤ offset := by
  rw [offsetPage, List.take_eq_nil_iff, List.drop_eq_nil_iff]
  constructor
  · rintro (h | h)
    · omega
    · exact h
  · exact .inr

theorem offsetPage_map {β : Type*} (f : ρ → β) :
    offsetPage (rows.map f) n offset = (offsetPage rows n offset).map f := by
  rw [offsetPage, offsetPage, ← List.map_drop, ← List.map_take]

/-- Pages of one size, from the start. -/
theorem flatMap_offsetPage (rows : List ρ) (n k : Nat) :
    ((List.range k).flatMap fun i => offsetPage rows n (i * n)) =
      rows.take (k * n) := by
  induction k with
  | zero => simp
  | succ k ih =>
      rw [List.range_succ, List.flatMap_append, ih, List.flatMap_singleton,
        Nat.succ_mul, List.take_add, offsetPage]

/-- Read up to a page that is empty, the pages are the rows. -/
theorem flatMap_offsetPage_of_nil (hn : 0 < n) {k : Nat}
    (hend : offsetPage rows n (k * n) = []) :
    ((List.range k).flatMap fun i => offsetPage rows n (i * n)) = rows := by
  rw [flatMap_offsetPage]
  exact List.take_of_length_le ((offsetPage_eq_nil_iff hn).mp hend)

/-- A page and what comes after it. -/
theorem offsetPage_append (rows : List ρ) (n offset : Nat) :
    offsetPage rows n offset ++
        rows.drop (offset + (offsetPage rows n offset).length) =
      rows.drop offset := by
  rw [offsetPage, ← List.drop_drop, List.length_take]
  generalize rows.drop offset = l
  rcases Nat.le_total n l.length with h | h
  · rw [Nat.min_eq_left h, List.take_append_drop]
  · rw [Nat.min_eq_right h, List.take_of_length_le h, List.drop_length,
      List.append_nil]

/-- Without a next offset the page has all that is left. -/
theorem offsetPage_of_none (h : nextOffset rows n offset = none) :
    offsetPage rows n offset = rows.drop offset := by
  refine List.take_of_length_le ?_
  by_contra hlong
  have hlt : offset + (offsetPage rows n offset).length < rows.length := by
    rw [offsetPage, List.length_take, List.length_drop]
    rw [List.length_drop] at hlong
    omega
  rw [nextOffset, if_pos hlt] at h
  cases h

theorem nextOffset_some {next : Nat} (h : nextOffset rows n offset = some next) :
    next = offset + (offsetPage rows n offset).length ∧ next < rows.length := by
  rw [nextOffset] at h
  split at h
  · next hlt =>
      cases h
      exact ⟨rfl, hlt⟩
  · cases h

/-- Looking up a row more than the page has shows whether there is a next
page. -/
theorem length_lt_offsetPage_succ :
    n < (offsetPage rows (n + 1) offset).length ↔
      ∃ next, nextOffset rows n offset = some next ∧ next = offset + n := by
  rw [nextOffset, offsetPage, offsetPage, List.length_take, List.length_take,
    List.length_drop]
  constructor
  · intro h
    have hmin : min n (rows.length - offset) = n := by omega
    rw [hmin, if_pos (by omega)]
    exact ⟨_, rfl, rfl⟩
  · rintro ⟨next, h, rfl⟩
    split at h
    · next hlt =>
        have heq := Option.some.inj h
        omega
    · cases h

/-! ## Walks -/

/-- Every page of a walk answered one of its requests. -/
theorem Walk.answered
    {request : σ → Option γ → Except ε (List ρ × Option γ)}
    {cursor : Option γ} {ss : List σ} {pages : List (List ρ)} {ended : Bool}
    (hwalk : Walk request cursor ss pages ended) {page : List ρ}
    (hpage : page ∈ pages) :
    ∃ s cursor next, request s cursor = .ok (page, next) := by
  induction hwalk with
  | pause => cases hpage
  | last hreq =>
      rw [List.mem_singleton.mp hpage]
      exact ⟨_, _, _, hreq⟩
  | next hreq _ ih =>
      rcases List.mem_cons.mp hpage with rfl | hpage
      · exact ⟨_, _, _, hreq⟩
      · exact ih hpage

/-- A request that answers slices of the rows, with its offsets written out by
`encode` and read back by `reads`. -/
structure ServesOffsets (rows : List ρ) (limitOf : σ → Nat)
    (reads : Option γ → Nat → Prop) (encode : Nat → γ)
    (request : σ → Option γ → Except ε (List ρ × Option γ)) : Prop where
  answers : ∀ {s cursor offset}, reads cursor offset → request s cursor =
    .ok (offsetPage rows (limitOf s) offset,
      (nextOffset rows (limitOf s) offset).map encode)
  readsBack : ∀ {offset}, offset < rows.length →
    reads (some (encode offset)) offset

section

variable {limitOf : σ → Nat} {reads : Option γ → Nat → Prop} {encode : Nat → γ}
  {request : σ → Option γ → Except ε (List ρ × Option γ)} {cursor : Option γ}
  {ss : List σ} {pages : List (List ρ)} {ended : Bool}

/-- The pages of a walk are the rows from its offset on, up to where it
stops. -/
theorem ServesOffsets.walk
    (hserves : ServesOffsets rows limitOf reads encode request)
    (hcursor : reads cursor offset) (hwalk : Walk request cursor ss pages ended) :
    pages.flatten <+: rows.drop offset ∧
      (ended = true → pages.flatten = rows.drop offset) := by
  induction hwalk generalizing offset with
  | pause =>
      refine ⟨List.nil_prefix, fun h => ?_⟩
      cases h
  | @last s _ page hreq =>
      rw [hserves.answers hcursor] at hreq
      obtain ⟨rfl, hnone⟩ := Prod.mk.inj (Except.ok.inj hreq)
      rw [List.flatten_singleton,
        offsetPage_of_none (Option.map_eq_none_iff.mp hnone)]
      exact ⟨List.prefix_rfl, fun _ => rfl⟩
  | @next s _ page c rest tail ended hreq _ ih =>
      rw [hserves.answers hcursor] at hreq
      obtain ⟨rfl, hnext⟩ := Prod.mk.inj (Except.ok.inj hreq)
      obtain ⟨next, hsome, rfl⟩ := Option.map_eq_some_iff.mp hnext
      obtain ⟨rfl, hlt⟩ := nextOffset_some hsome
      obtain ⟨hbefore, hall⟩ := ih (hserves.readsBack hlt)
      have hparts := offsetPage_append rows (limitOf s) offset
      rw [List.flatten_cons]
      constructor
      · obtain ⟨left, hleft⟩ := hbefore
        exact ⟨left, by rw [List.append_assoc, hleft, hparts]⟩
      · intro hended
        rw [hall hended]
        exact hparts

/-- Whatever page sizes are asked for, the walk ends. -/
theorem ServesOffsets.walk_ends
    (hserves : ServesOffsets rows limitOf reads encode request)
    (hcursor : reads cursor offset) (requests : Nat → σ)
    (hpos : ∀ i, 0 < limitOf (requests i)) :
    ∃ k pages, Walk request cursor ((List.range k).map requests) pages true := by
  induction hleft : rows.length - offset using Nat.strong_induction_on
    generalizing offset cursor requests with
  | _ left ih =>
      have hreq := @hserves.answers (requests 0) _ _ hcursor
      cases hnext : nextOffset rows (limitOf (requests 0)) offset with
      | none =>
          rw [hnext] at hreq
          exact ⟨1, _, Walk.last hreq⟩
      | some next =>
          rw [hnext] at hreq
          obtain ⟨hstart, hlt⟩ := nextOffset_some hnext
          have hsize := hpos 0
          have hless : rows.length - next < left := by
            rw [hstart, offsetPage, List.length_take, List.length_drop] at hlt ⊢
            omega
          obtain ⟨k, pages, hwalk⟩ := ih _ hless (hserves.readsBack hlt)
            (fun i => requests (i + 1)) (fun i => hpos (i + 1)) rfl
          have hrange : (List.range (k + 1)).map requests =
              requests 0 :: (List.range k).map fun i => requests (i + 1) := by
            rw [List.range_succ_eq_map, List.map_cons, List.map_map]
            rfl
          exact ⟨k + 1, _, hrange ▸ Walk.next hreq hwalk⟩

end

end Explorer.Lib
